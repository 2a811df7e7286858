import UrlRouting.Proofs.Pattern.Blocks

/-!
# The written form of an expression

The expression of a pattern is written as a regular expression, in which some characters are
operators. A text of the pattern is escaped where it is written, so that all of its characters stand
for themselves, and what the operators are depends on the tokens alone. The written form can then be
read in one way only.

* `symbols`: a regular expression character by character. `groups` counts the groups in it that
  capture.
* `symbols_escapeLiteral_append`: **an escaped text stands for itself**, whatever follows.
* `symbols_written`, `groups_written`: the symbols of an expression, token by token, and its groups.
* `Token.SameButName`: tokens that differ in their names only. `Token.sameButName_of_symbols`: such
  tokens are all that one written form can have.
* `written_iff_sameButName`: **the written form tells all about the tokens but their names**, and
  has a group for every name.
-/

namespace UrlRouting.Pattern

/-! ## Symbols -/

/-- A character of a regular expression. -/
inductive Symbol where
  /-- The character stands for itself. -/
  | char (c : Char)
  /-- The character has a meaning of its own. -/
  | operator (c : Char)
deriving DecidableEq

/-- Whether a character has a meaning of its own when no backslash stands before it. -/
def isOperator (c : Char) : Bool := "\\.+*?()|[]\x7b\x7d^$".toList.contains c

/-- The symbols of a regular expression. Behind a backslash letters, digits and `_` have a meaning,
and all other characters have none. -/
def symbols : Text → List Symbol
  | [] => []
  | '\\' :: c :: r =>
    (if c.isAlphanum || c = '_' then .operator c else .char c) :: symbols r
  | c :: r => (if isOperator c then .operator c else .char c) :: symbols r

/-- The number of groups that capture: those that no `?` follows on the parenthesis. -/
def groups : List Symbol → Nat
  | [] => 0
  | .operator '(' :: .operator '?' :: r => groups r
  | .operator '(' :: r => groups r + 1
  | _ :: r => groups r

theorem symbols_cons {c : Char} (hc : c ≠ '\\') (r : Text) :
    symbols (c :: r) = (if isOperator c then .operator c else .char c) :: symbols r := by
  rw [symbols]
  intro d t h
  exact absurd h hc

theorem symbols_backslash (c : Char) (r : Text) : symbols ('\\' :: c :: r) =
    (if c.isAlphanum || c = '_' then .operator c else .char c) :: symbols r := by
  rw [symbols]

/-- No operator is a letter, a digit, `_` or outside of ASCII. -/
theorem isOperator_eq_false {c : Char}
    (h : ¬ (Text.isAscii c && !c.isAlphanum && c != '_') = true) : isOperator c = false := by
  have hall : "\\.+*?()|[]\x7b\x7d^$".toList.all
      (fun c => Text.isAscii c && !c.isAlphanum && c != '_') = true := by decide
  cases hc : isOperator c with
  | false => rfl
  | true => exact absurd (List.all_eq_true.1 hall c (List.contains_iff_mem.1 hc)) h

/-- **An escaped text stands for itself**, whatever follows. -/
theorem symbols_escapeLiteral_append (t r : Text) :
    symbols (escapeLiteral t ++ r) = t.map .char ++ symbols r := by
  induction t with
  | nil => rfl
  | cons c t ih =>
    rw [escapeLiteral, List.flatMap_cons, ← escapeLiteral]
    by_cases hc : (Text.isAscii c && !c.isAlphanum && c != '_') = true
    · have hword : (c.isAlphanum || c = '_') = false := by
        simp only [Bool.and_eq_true, Bool.not_eq_true', bne_iff_ne, ne_eq] at hc
        simp [hc.1.2, hc.2]
      have hcons : ['\\', c] ++ escapeLiteral t ++ r = '\\' :: c :: (escapeLiteral t ++ r) := rfl
      rw [if_pos hc, hcons, symbols_backslash, hword, ih]
      rfl
    · have hbackslash : c ≠ '\\' := by
        rintro rfl
        exact hc (by decide)
      have hcons : [c] ++ escapeLiteral t ++ r = c :: (escapeLiteral t ++ r) := rfl
      rw [if_neg hc, hcons, symbols_cons hbackslash, isOperator_eq_false hc, ih]
      rfl

/-! ## The symbols of a token -/

/-- Texts with bars between them. -/
def barred (ts : List Text) : List Symbol :=
  [Symbol.operator '|'].intercalate (ts.map fun t => t.map .char)

/-- The symbols of a token: those of its form, and the characters of its texts. -/
def Token.symbols : Token → List Symbol
  | literal segment => segment.map .char
  | union alternatives =>
    Pattern.symbols "(?:" ++ barred (alternatives.map Segment.encode) ++ Pattern.symbols ")"
  | capture _ => Pattern.symbols "([^/]+)"
  | choice _ alternatives =>
    Pattern.symbols "(" ++ barred (alternatives.map Segment.encode) ++ Pattern.symbols ")"
  | anySegment => Pattern.symbols "[^/]+"
  | anySegments => Pattern.symbols ".+"

theorem barred_singleton (t : Text) : barred [t] = t.map .char := by
  simp [barred]

theorem barred_cons (t : Text) {ts : List Text} (h : ts ≠ []) :
    barred (t :: ts) = t.map .char ++ .operator '|' :: barred ts := by
  rw [barred, List.map_cons, List.intercalate_cons_of_ne_nil (by simpa using h), barred]
  simp

theorem symbols_writtenAlternatives_append (ts : List Text) (r : Text) :
    symbols (writtenAlternatives ts ++ r) = barred ts ++ symbols r := by
  induction ts with
  | nil => rfl
  | cons t ts ih =>
    by_cases hnil : ts = []
    · subst hnil
      rw [barred_singleton, ← symbols_escapeLiteral_append]
      simp [writtenAlternatives, Text.join]
    · have hbar (x : Text) : symbols ('|' :: x) = .operator '|' :: symbols x := rfl
      rw [writtenAlternatives, List.map_cons, Text.join_cons (by simpa using hnil),
        ← writtenAlternatives, List.append_assoc, symbols_escapeLiteral_append, List.cons_append,
        hbar, ih, barred_cons t hnil, List.append_assoc]
      rfl

theorem Token.symbols_written_append (t : Token) (r : Text) :
    Pattern.symbols (t.item.written ++ r) = t.symbols ++ Pattern.symbols r := by
  have close : Pattern.symbols (')' :: r) = Pattern.symbols ")" ++ Pattern.symbols r := rfl
  cases t with
  | literal segment => exact symbols_escapeLiteral_append segment r
  | union alternatives =>
    have hopen (x : Text) : Pattern.symbols ('(' :: '?' :: ':' :: x) =
        Pattern.symbols "(?:" ++ Pattern.symbols x := rfl
    have hwritten : (union alternatives).item.written ++ r = '(' :: '?' :: ':' ::
        (writtenAlternatives (alternatives.map Segment.encode) ++ ')' :: r) :=
      congrArg ('(' :: '?' :: ':' :: ·) (List.append_assoc (writtenAlternatives _) [')'] r)
    rw [hwritten, hopen, symbols_writtenAlternatives_append, close, symbols, List.append_assoc,
      List.append_assoc]
  | choice name alternatives =>
    have hopen (x : Text) : Pattern.symbols ('(' :: x) =
        Pattern.symbols "(" ++ Pattern.symbols x := rfl
    have hwritten : (choice name alternatives).item.written ++ r = '(' ::
        (writtenAlternatives (alternatives.map Segment.encode) ++ ')' :: r) :=
      congrArg ('(' :: ·) (List.append_assoc (writtenAlternatives _) [')'] r)
    rw [hwritten, hopen, symbols_writtenAlternatives_append, close, symbols, List.append_assoc,
      List.append_assoc]
  | capture name => rfl
  | anySegment => rfl
  | anySegments => rfl

/-! ## The symbols of an expression -/

theorem symbols_items_append (tokens : List Token) (r : Text) :
    symbols ((Expression.ofTokens tokens).items.flatMap Item.written ++ '/' :: r) =
      .char '/' :: (tokens.flatMap (fun t => t.symbols ++ [.char '/']) ++ symbols r) := by
  have slash (x : Text) : symbols ('/' :: x) = .char '/' :: symbols x := rfl
  induction tokens with
  | nil => exact slash r
  | cons t tokens ih =>
    have hitems : (Expression.ofTokens (t :: tokens)).items.flatMap Item.written ++ '/' :: r =
        '/' :: (t.item.written ++
          ((Expression.ofTokens tokens).items.flatMap Item.written ++ '/' :: r)) :=
      congrArg ('/' :: ·) (List.append_assoc t.item.written _ _)
    rw [hitems, slash, t.symbols_written_append, ih]
    simp

/-- **The symbols of an expression** are those of its tokens. -/
theorem symbols_written (tokens : List Token) : symbols (Expression.ofTokens tokens).written =
    symbols "^/" ++ tokens.flatMap (fun t => t.symbols ++ [.char '/']) ++ symbols "?$" := by
  have start (x : Text) : symbols ('^' :: x) = .operator '^' :: symbols x := rfl
  exact (start _).trans (congrArg _ (symbols_items_append tokens "?$".toList))

/-! ## Groups -/

theorem groups_map_char_append (t : Text) (r : List Symbol) :
    groups (t.map .char ++ r) = groups r := by
  induction t with
  | nil => rfl
  | cons c t ih => exact ih

theorem groups_barred_append (ts : List Text) (r : List Symbol) :
    groups (barred ts ++ r) = groups r := by
  induction ts with
  | nil => rfl
  | cons t ts ih =>
    by_cases hnil : ts = []
    · subst hnil
      rw [barred_singleton, groups_map_char_append]
    · rw [barred_cons t hnil, List.append_assoc, groups_map_char_append]
      exact ih

theorem mem_barred {ts : List Text} {x : Symbol} (h : x ∈ barred ts) :
    x = .operator '|' ∨ ∃ c, x = .char c := by
  have of_text {t : Text} (h : x ∈ t.map Symbol.char) : ∃ c, x = .char c := by
    obtain ⟨c, -, rfl⟩ := List.mem_map.1 h
    exact ⟨c, rfl⟩
  induction ts with
  | nil => cases h
  | cons t ts ih =>
    by_cases hnil : ts = []
    · subst hnil
      rw [barred_singleton] at h
      exact .inr (of_text h)
    · rw [barred_cons t hnil, List.mem_append, List.mem_cons] at h
      rcases h with h | h | h
      · exact .inr (of_text h)
      · exact .inl h
      · exact ih h

/-- Behind a parenthesis stands no operator of another form before some texts. -/
theorem head?_barred_append (ts : List Text) (r : List Symbol) :
    ∀ x ∈ (barred ts ++ .operator ')' :: r).head?, x ≠ .operator '?' ∧ x ≠ .operator '[' := by
  intro x hx
  cases hts : barred ts with
  | nil =>
    rw [hts] at hx
    obtain rfl := Option.some.inj hx
    decide
  | cons y ys =>
    rw [hts] at hx
    obtain rfl := Option.some.inj hx
    rcases mem_barred (hts ▸ List.mem_cons_self) with rfl | ⟨c, rfl⟩
    · decide
    · simp

theorem groups_parenthesis {r : List Symbol} (h : ∀ x ∈ r.head?, x ≠ .operator '?') :
    groups (.operator '(' :: r) = groups r + 1 := by
  rw [groups]
  rintro t rfl
  exact h _ rfl rfl

theorem Token.groups_symbols_append (t : Token) (r : List Symbol) :
    groups (t.symbols ++ .char '/' :: r) = groups r + if t.name?.isSome then 1 else 0 := by
  cases t with
  | literal segment => exact groups_map_char_append segment _
  | union alternatives =>
    have hopen (x : List Symbol) : groups (Pattern.symbols "(?:" ++ x) = groups x := rfl
    rw [symbols, List.append_assoc, List.append_assoc, hopen, groups_barred_append]
    rfl
  | choice name alternatives =>
    have hopen : Pattern.symbols "(" = [.operator '('] := rfl
    have hclose : Pattern.symbols ")" = [.operator ')'] := rfl
    rw [symbols, List.append_assoc, List.append_assoc, hopen, hclose, List.singleton_append,
      List.singleton_append, groups_parenthesis fun x hx => (head?_barred_append _ _ x hx).1,
      groups_barred_append]
    rfl
  | capture name => rfl
  | anySegment => rfl
  | anySegments => rfl

theorem groups_tokens_append (tokens : List Token) (r : List Symbol) :
    groups (tokens.flatMap (fun t => t.symbols ++ [.char '/']) ++ r) =
      groups r + tokens.countP fun t => t.name?.isSome := by
  induction tokens with
  | nil => rfl
  | cons t tokens ih =>
    rw [List.flatMap_cons, List.append_assoc, List.append_assoc, List.singleton_append,
      t.groups_symbols_append, ih, List.countP_cons, Nat.add_assoc]

/-- **An expression has a group for every token with a name.** -/
theorem groups_written (tokens : List Token) :
    groups (symbols (Expression.ofTokens tokens).written) =
      tokens.countP fun t => t.name?.isSome := by
  have hstart (x : List Symbol) : groups (symbols "^/" ++ x) = groups x := rfl
  have hend : groups (symbols "?$") = 0 := rfl
  rw [symbols_written, List.append_assoc, hstart, groups_tokens_append, hend, Nat.zero_add]

/-! ## Tokens of one written form -/

/-- Tokens that ask for the same under any name. -/
inductive Token.SameButName : Token → Token → Prop
  | literal (segment : Text) : SameButName (literal segment) (literal segment)
  | union {alternatives others : List Text} :
      alternatives.map Segment.encode = others.map Segment.encode →
      SameButName (union alternatives) (union others)
  | capture (name other : Text) : SameButName (capture name) (capture other)
  | choice (name other : Text) {alternatives others : List Text} :
      alternatives.map Segment.encode = others.map Segment.encode →
      SameButName (choice name alternatives) (choice other others)
  | anySegment : SameButName anySegment anySegment
  | anySegments : SameButName anySegments anySegments

theorem Token.SameButName.item_eq {t t' : Token} (h : t.SameButName t') : t.item = t'.item := by
  cases h with
  | union h => exact congrArg (Item.oneOf · false) h
  | choice _ _ h => exact congrArg (Item.oneOf · true) h
  | _ => rfl

theorem ofTokens_eq_of_sameButName {ts ts' : List Token}
    (h : List.Forall₂ Token.SameButName ts ts') : Expression.ofTokens ts = .ofTokens ts' := by
  have hitems : ts.map Token.item = ts'.map Token.item := by
    induction h with
    | nil => rfl
    | cons ht _ ih => rw [List.map_cons, List.map_cons, ht.item_eq, ih]
  have hflat (ts : List Token) : Expression.ofTokens ts =
      ⟨(ts.map Token.item).flatMap fun item => [.slash, item]⟩ := by
    rw [Expression.ofTokens, List.flatMap_map]
  rw [hflat, hflat, hitems]

/-- A token that can be read off its symbols: a literal of one segment, or at least one
alternative. -/
def Token.Proper : Token → Prop
  | literal segment => '/' ∉ segment
  | union alternatives => alternatives ≠ []
  | capture _ => True
  | choice _ alternatives => alternatives ≠ []
  | anySegment => True
  | anySegments => True

theorem Token.Spells.proper {s : Text} {t : Token} (h : Token.Spells s t) (hs : '/' ∉ s) :
    t.Proper := by
  cases h with
  | literal => exact Segment.slash_not_mem_normalForm hs
  | union | choice => exact List.splitOn_ne_nil _ _
  | anySegment | anySegments | capture => trivial

/-- A symbol that no character of a segment is. -/
def Symbol.EndsText (x : Symbol) : Prop := ∀ c, x = .char c → c = '/'

theorem endsText_slash : Symbol.EndsText (.char '/') := by
  intro c h
  exact (Symbol.char.inj h).symm

theorem endsText_operator (c : Char) : Symbol.EndsText (.operator c) := by
  intro d h
  cases h

/-- Of the texts that end at a symbol, one symbol sequence has only one. -/
theorem map_char_append_inj {t t' : Text} {x x' : Symbol} {r r' : List Symbol} (ht : '/' ∉ t)
    (ht' : '/' ∉ t') (hx : x.EndsText) (hx' : x'.EndsText)
    (h : t.map .char ++ x :: r = t'.map .char ++ x' :: r') : t = t' ∧ x = x' ∧ r = r' := by
  induction t generalizing t' with
  | nil =>
    cases t' with
    | nil => exact ⟨rfl, List.cons.inj h⟩
    | cons c t' =>
      rw [hx c (List.cons.inj h).1] at ht'
      exact absurd List.mem_cons_self ht'
  | cons c t ih =>
    cases t' with
    | nil =>
      rw [hx' c (List.cons.inj h).1.symm] at ht
      exact absurd List.mem_cons_self ht
    | cons d t' =>
      obtain ⟨hcd, h⟩ := List.cons.inj h
      rw [List.mem_cons, not_or] at ht ht'
      obtain ⟨rfl, rfl, rfl⟩ := ih ht.2 ht'.2 h
      exact ⟨by rw [Symbol.char.inj hcd], rfl, rfl⟩

theorem barred_append_inj {ts ts' : List Text} {r r' : List Symbol} (hne : ts ≠ [])
    (hne' : ts' ≠ []) (hts : ∀ t ∈ ts, '/' ∉ t) (hts' : ∀ t ∈ ts', '/' ∉ t)
    (h : barred ts ++ .operator ')' :: r = barred ts' ++ .operator ')' :: r') :
    ts = ts' ∧ r = r' := by
  induction ts generalizing ts' with
  | nil => exact absurd rfl hne
  | cons t ts ih =>
    obtain ⟨t', us, rfl⟩ := List.exists_cons_of_ne_nil hne'
    rw [List.forall_mem_cons] at hts hts'
    have hinj {x x' : Symbol} {y y' : List Symbol} (hx : x.EndsText) (hx' : x'.EndsText)
        (h : t.map .char ++ x :: y = t'.map .char ++ x' :: y') : t = t' ∧ x = x' ∧ y = y' :=
      map_char_append_inj hts.1 hts'.1 hx hx' h
    by_cases hnil : ts = []
    · by_cases hnil' : us = []
      · subst hnil hnil'
        rw [barred_singleton, barred_singleton] at h
        obtain ⟨rfl, -, rfl⟩ := hinj (endsText_operator _) (endsText_operator _) h
        exact ⟨rfl, rfl⟩
      · subst hnil
        rw [barred_singleton, barred_cons t' hnil', List.append_assoc] at h
        obtain ⟨-, hx, -⟩ := hinj (endsText_operator _) (endsText_operator _) h
        cases hx
    · by_cases hnil' : us = []
      · subst hnil'
        rw [barred_singleton, barred_cons t hnil, List.append_assoc] at h
        obtain ⟨-, hx, -⟩ := hinj (endsText_operator _) (endsText_operator _) h
        cases hx
      · rw [barred_cons t hnil, barred_cons t' hnil', List.append_assoc, List.append_assoc] at h
        obtain ⟨rfl, -, h⟩ := hinj (endsText_operator _) (endsText_operator _) h
        obtain ⟨rfl, rfl⟩ := ih hnil hnil' hts.2 hts'.2 h
        exact ⟨rfl, rfl⟩

/-- The kind of token that symbols start with, with nothing in it. -/
def kindOf? : List Symbol → Option Token
  | .operator '(' :: .operator '?' :: _ => some (.union [])
  | .operator '(' :: .operator '[' :: _ => some (.capture [])
  | .operator '(' :: _ => some (.choice [] [])
  | .operator '[' :: _ => some .anySegment
  | .operator '.' :: _ => some .anySegments
  | .char _ :: _ => some (.literal [])
  | _ => none

/-- A token with nothing in it. -/
def Token.kind : Token → Token
  | literal _ => literal []
  | union _ => union []
  | capture _ => capture []
  | choice _ _ => choice [] []
  | anySegment => anySegment
  | anySegments => anySegments

/-- The first symbols tell the kind of a token. -/
theorem Token.kindOf?_symbols_append (t : Token) (r : List Symbol) :
    kindOf? (t.symbols ++ .char '/' :: r) = some t.kind := by
  cases t with
  | literal segment =>
    cases segment with
    | nil => rfl
    | cons c segment => rfl
  | choice name alternatives =>
    have hopen : Pattern.symbols "(" = [.operator '('] := rfl
    have hclose : Pattern.symbols ")" = [.operator ')'] := rfl
    have hhead := head?_barred_append (alternatives.map Segment.encode) (.char '/' :: r)
    rw [symbols, List.append_assoc, List.append_assoc, hopen, hclose, List.singleton_append,
      List.singleton_append]
    generalize barred (alternatives.map Segment.encode) ++ .operator ')' :: .char '/' :: r = x
      at hhead
    rw [kindOf?]
    · rfl
    · rintro y rfl
      exact (hhead _ rfl).1 rfl
    · rintro y rfl
      exact (hhead _ rfl).2 rfl
  | _ => rfl

/-- Before a slash, the symbols of a token are those of no token that asks for something else. -/
theorem Token.sameButName_of_symbols {t t' : Token} {r r' : List Symbol} (ht : t.Proper)
    (ht' : t'.Proper) (h : t.symbols ++ .char '/' :: r = t'.symbols ++ .char '/' :: r') :
    t.SameButName t' ∧ r = r' := by
  have hkind : t.kind = t'.kind := by
    apply Option.some.inj
    rw [← t.kindOf?_symbols_append r, h, t'.kindOf?_symbols_append]
  have barred_inj {alternatives others : List Text} (hne : alternatives ≠ []) (hne' : others ≠ [])
      (h : barred (alternatives.map Segment.encode) ++ .operator ')' :: .char '/' :: r =
        barred (others.map Segment.encode) ++ .operator ')' :: .char '/' :: r') :
      alternatives.map Segment.encode = others.map Segment.encode ∧ r = r' := by
    have hslash (l : List Text) : ∀ x ∈ l.map Segment.encode, '/' ∉ x :=
      List.forall_mem_map.2 fun a _ => Segment.slash_not_mem_encode a
    obtain ⟨hts, hr⟩ := barred_append_inj (by simpa using hne) (by simpa using hne')
      (hslash _) (hslash _) h
    exact ⟨hts, (List.cons.inj hr).2⟩
  cases t with
  | literal segment =>
    cases t' with
    | literal other =>
      obtain ⟨rfl, -, rfl⟩ := map_char_append_inj ht ht' endsText_slash endsText_slash h
      exact ⟨.literal _, rfl⟩
    | _ => cases hkind
  | union alternatives =>
    cases t' with
    | union others =>
      rw [symbols, symbols, List.append_assoc, List.append_assoc, List.append_assoc,
        List.append_assoc] at h
      obtain ⟨hts, hr⟩ := barred_inj ht ht' (List.append_cancel_left h)
      exact ⟨.union hts, hr⟩
    | _ => cases hkind
  | choice name alternatives =>
    cases t' with
    | choice other others =>
      rw [symbols, symbols, List.append_assoc, List.append_assoc, List.append_assoc,
        List.append_assoc] at h
      obtain ⟨hts, hr⟩ := barred_inj ht ht' (List.append_cancel_left h)
      exact ⟨.choice name other hts, hr⟩
    | _ => cases hkind
  | capture name =>
    cases t' with
    | capture other => exact ⟨.capture name other, (List.cons.inj (List.append_cancel_left h)).2⟩
    | _ => cases hkind
  | anySegment =>
    cases t' with
    | anySegment => exact ⟨.anySegment, (List.cons.inj (List.append_cancel_left h)).2⟩
    | _ => cases hkind
  | anySegments =>
    cases t' with
    | anySegments => exact ⟨.anySegments, (List.cons.inj (List.append_cancel_left h)).2⟩
    | _ => cases hkind

theorem forall₂_sameButName_of_symbols {ts ts' : List Token} (ht : ∀ t ∈ ts, t.Proper)
    (ht' : ∀ t ∈ ts', t.Proper)
    (h : ts.flatMap (fun t => t.symbols ++ [.char '/']) ++ symbols "?$" =
      ts'.flatMap (fun t => t.symbols ++ [.char '/']) ++ symbols "?$") :
    List.Forall₂ Token.SameButName ts ts' := by
  have hend (t : Token) (x : List Symbol) : symbols "?$" ≠ t.symbols ++ .char '/' :: x := by
    intro h
    have hkind := t.kindOf?_symbols_append x
    rw [← h] at hkind
    cases hkind
  induction ts generalizing ts' with
  | nil =>
    cases ts' with
    | nil => exact .nil
    | cons t' ts' =>
      rw [List.flatMap_cons, List.append_assoc, List.append_assoc] at h
      exact absurd h (hend t' _)
  | cons t ts ih =>
    rw [List.forall_mem_cons] at ht
    cases ts' with
    | nil =>
      rw [List.flatMap_cons, List.append_assoc, List.append_assoc] at h
      exact absurd h.symm (hend t _)
    | cons t' ts' =>
      rw [List.forall_mem_cons] at ht'
      rw [List.flatMap_cons, List.flatMap_cons, List.append_assoc, List.append_assoc,
        List.append_assoc, List.append_assoc] at h
      obtain ⟨hsame, hrest⟩ := Token.sameButName_of_symbols ht.1 ht'.1 h
      exact .cons hsame (ih ht.2 ht'.2 hrest)

/-- **One written form has one list of tokens**, up to their names. -/
theorem written_ofTokens_eq_iff {ts ts' : List Token} (ht : ∀ t ∈ ts, t.Proper)
    (ht' : ∀ t ∈ ts', t.Proper) :
    (Expression.ofTokens ts).written = (Expression.ofTokens ts').written ↔
      List.Forall₂ Token.SameButName ts ts' := by
  constructor
  · intro h
    have hsymbols := congrArg symbols h
    rw [symbols_written, symbols_written, List.append_assoc, List.append_assoc] at hsymbols
    exact forall₂_sameButName_of_symbols ht ht' (List.append_cancel_left hsymbols)
  · intro h
    rw [ofTokens_eq_of_sameButName h]

/-! ## The expression of a pattern -/

theorem Token.proper_of_spells {path : Text} {tokens : List Token}
    (h : List.Forall₂ Token.Spells (Path.segments path) tokens) : ∀ t ∈ tokens, t.Proper := by
  intro t ht
  obtain ⟨s, hs, hst⟩ := exists_of_forall₂ h t ht
  exact hst.proper (Path.slash_not_mem_of_mem_segments hs)

/-- **The written form tells all about the tokens but their names.** In it the texts of the tokens
stand for themselves, and it has one group for each capture. -/
theorem written_iff_sameButName {source other : Text} {p q : Pattern}
    (hp : compile source = .ok p) (hq : compile other = .ok q) :
    (p.expression.written = q.expression.written ↔
      List.Forall₂ Token.SameButName p.tokens q.tokens) ∧
    symbols p.expression.written =
      symbols "^/" ++ p.tokens.flatMap (fun t => t.symbols ++ [.char '/']) ++ symbols "?$" ∧
    groups (symbols p.expression.written) = p.tokens.countP (fun t => t.name?.isSome) ∧
    p.captures.map Prod.fst = p.tokens.filterMap Token.name? ∧
    p.captures.map Prod.snd = List.range' 1 (p.tokens.countP fun t => t.name?.isSome) := by
  obtain ⟨u, -, ht, -⟩ := parts_of_compile hp
  obtain ⟨v, -, ht', -⟩ := parts_of_compile hq
  have hproper := Token.proper_of_spells (Token.ofPath_eq_ok_iff.1 ht)
  have hproper' := Token.proper_of_spells (Token.ofPath_eq_ok_iff.1 ht')
  have hlength : p.captureNames.length = p.tokens.countP fun t => t.name?.isSome := by
    rw [captureNames, List.length_filterMap_eq_countP]
  refine ⟨written_ofTokens_eq_iff hproper hproper', symbols_written p.tokens,
    groups_written p.tokens, List.zipIdx_map_fst .., ?_⟩
  rw [captures, List.zipIdx_map_snd, hlength]

/-- Operators in the texts of the tokens, spelled in two ways, and other names. -/
theorem written_iff_sameButName_operators :
    ∃ p q, compile "/a|b.c/\x7bd+|(e)\x7d/:x\x7b.|+\x7d/*/**/:y/f$" = .ok p ∧
      compile "/a%7Cb.c/\x7bd+|(e)\x7d/:z\x7b%2E|+\x7d/*/**/:w/f%24" = .ok q ∧
      List.Forall₂ Token.SameButName p.tokens q.tokens ∧
      groups (symbols p.expression.written) = 2 := by
  have hp : compile "/a|b.c/\x7bd+|(e)\x7d/:x\x7b.|+\x7d/*/**/:y/f$" = .ok
      ⟨"/a|b.c/\x7bd+|(e)\x7d/:x\x7b.|+\x7d/*/**/:y/f$",
        [.literal "a|b.c", .union ["d+", "(e)"], .choice "x" [".", "+"], .anySegment, .anySegments,
          .capture "y", .literal "f$"], [], none⟩ := by decide +kernel
  have hq : compile "/a%7Cb.c/\x7bd+|(e)\x7d/:z\x7b%2E|+\x7d/*/**/:w/f%24" = .ok
      ⟨"/a%7Cb.c/\x7bd+|(e)\x7d/:z\x7b%2E|+\x7d/*/**/:w/f%24",
        [.literal "a|b.c", .union ["d+", "(e)"], .choice "z" [".", "+"], .anySegment, .anySegments,
          .capture "w", .literal "f$"], [], none⟩ := by decide +kernel
  obtain ⟨hwritten, -, hgroups, -⟩ := written_iff_sameButName hp hq
  exact ⟨_, _, hp, hq, hwritten.1 (by decide +kernel), hgroups⟩

end UrlRouting.Pattern
