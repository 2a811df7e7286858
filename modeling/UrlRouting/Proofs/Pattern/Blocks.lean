import UrlRouting.Pattern.Reading
import UrlRouting.Proofs.Pattern.Grammar

/-!
# Blocks of a path

A path expression reads a path in **blocks**: a slash and a block for every token, and at the end
perhaps one more slash. Only the block of a `**` may hold slashes, so the blocks of the other
tokens follow from where the ones before them end.

* `Token.Reads`: the blocks that a token reads.
* `Decomposes tokens blocks path`: the path is these blocks, one for each token.
* `Preferred tokens blocks path`: no other decomposition gives an earlier `**` a longer block.
* `captures?_iff_preferred`: **the expression of a pattern reads the paths that decompose, and
  captures blocks of the preferred decomposition**.
* `Decomposes.unique_of_one_run`: with at most one `**`, a path that does not end in a slash has
  only one decomposition.
-/

namespace UrlRouting.Pattern

/-- The blocks that a token reads. -/
def Token.Reads : Token → Text → Prop
  | literal segment, b => b = segment
  | union alternatives, b => ∃ a ∈ alternatives, b = Segment.encode a
  | capture _, b => b ≠ [] ∧ '/' ∉ b
  | choice _ alternatives, b => ∃ a ∈ alternatives, b = Segment.encode a
  | anySegment, b => b ≠ [] ∧ '/' ∉ b
  | anySegments, b => b ≠ []

/-- A path is a slash and a block for each token, and nothing or a slash after them. -/
def Decomposes (tokens : List Token) (blocks : List Text) (path : Text) : Prop :=
  List.Forall₂ Token.Reads tokens blocks ∧
    ∃ closing : Text, (closing = [] ∨ closing = ['/']) ∧
      path = blocks.flatMap ('/' :: ·) ++ closing

/-- The lengths of the blocks of `**`, from left to right. -/
def runLengths (tokens : List Token) (blocks : List Text) : List Nat :=
  (tokens.zip blocks).filterMap fun x => if x.1 = .anySegments then some x.2.length else none

/-- The blocks of the tokens with a name, from left to right. -/
def capturedBlocks (tokens : List Token) (blocks : List Text) : List Text :=
  (tokens.zip blocks).filterMap fun x => x.1.name?.map fun _ => x.2

/-- The decomposition of a path whose blocks of `**`, from left to right, are each as long as
possible: no other one is greater in the lexicographic order of their lengths. -/
def Preferred (tokens : List Token) (blocks : List Text) (path : Text) : Prop :=
  Decomposes tokens blocks path ∧
    ∀ others, Decomposes tokens others path →
      ¬ List.Lex (· < ·) (runLengths tokens blocks) (runLengths tokens others)

/-! ## Ways -/

theorem mem_wordWays {words : List Text} {t w rest : Text} :
    (w, rest) ∈ wordWays words t ↔ w ∈ words ∧ t = w ++ rest := by
  simp only [wordWays, List.mem_filterMap, Option.map_eq_some_iff, Prod.mk.injEq,
    List.isPrefixOf?_eq_some_iff_append_eq]
  constructor
  · intro h
    obtain ⟨w, hw, rest, ht, rfl, rfl⟩ := h
    exact ⟨hw, ht.symm⟩
  · intro h
    obtain ⟨hw, rfl⟩ := h
    exact ⟨w, hw, rest, rfl, rfl, rfl⟩

theorem mem_runWays {allowed : Char → Bool} {t run rest : Text} :
    (run, rest) ∈ runWays allowed t ↔
      run ≠ [] ∧ (∀ c ∈ run, allowed c = true) ∧ t = run ++ rest := by
  induction t generalizing run with
  | nil =>
    refine iff_of_false (by simp [runWays]) ?_
    intro h
    obtain ⟨hne, -, h⟩ := h
    exact hne (List.append_eq_nil_iff.1 h.symm).1
  | cons c t ih =>
    constructor
    · intro h
      rw [runWays] at h
      split at h
      · rename_i hc
        rcases List.mem_append.1 h with h | h
        · obtain ⟨⟨run', rest'⟩, hm, he⟩ := List.mem_map.1 h
          obtain ⟨rfl, rfl⟩ := Prod.mk.inj he
          obtain ⟨-, hall, rfl⟩ := ih.1 hm
          exact ⟨by simp, List.forall_mem_cons.2 ⟨hc, hall⟩, rfl⟩
        · obtain ⟨rfl, rfl⟩ := Prod.mk.inj (List.mem_singleton.1 h)
          exact ⟨by simp, by simpa using hc, rfl⟩
      · cases h
    · intro h
      obtain ⟨hne, hall, h⟩ := h
      cases run with
      | nil => exact absurd rfl hne
      | cons d run =>
        obtain ⟨rfl, rfl⟩ := List.cons.inj h
        rw [List.forall_mem_cons] at hall
        rw [runWays, if_pos hall.1, List.mem_append]
        by_cases hr : run = []
        · subst hr
          exact .inr (by simp)
        · exact .inl (List.mem_map.2 ⟨(run, rest), ih.2 ⟨hr, hall.2, rfl⟩, rfl⟩)

theorem longest_first_runWays (allowed : Char → Bool) (t : Text) :
    (runWays allowed t).Pairwise fun v w => w.1.length < v.1.length := by
  induction t with
  | nil => exact List.Pairwise.nil
  | cons c t ih =>
    rw [runWays]
    split
    · refine List.pairwise_append.2 ⟨?_, List.pairwise_singleton _ _, ?_⟩
      · rw [List.pairwise_map]
        exact ih.imp fun h => Nat.succ_lt_succ h
      · intro v hv w hw
        obtain ⟨x, hx, rfl⟩ := List.mem_map.1 hv
        obtain rfl := List.mem_singleton.1 hw
        have hne : x.1 ≠ [] := (mem_runWays.1 hx).1
        exact Nat.succ_lt_succ (List.length_pos_of_ne_nil hne)
    · exact List.Pairwise.nil

/-- On a path without line feeds, the ways of a token are the blocks that it reads. -/
theorem Token.mem_ways_iff (t : Token) {q b rest : Text} (hq : '\n' ∉ q) :
    (b, rest) ∈ t.item.ways q ↔ t.Reads b ∧ q = b ++ rest := by
  have run : (b, rest) ∈ runWays (· ≠ '/') q ↔ (b ≠ [] ∧ '/' ∉ b) ∧ q = b ++ rest := by
    rw [mem_runWays, and_assoc]
    refine and_congr_right fun _ => and_congr_left fun _ => ?_
    simp only [decide_eq_true_eq, ne_eq]
    exact ⟨fun h hc => h _ hc rfl, fun h c hc he => h (he ▸ hc)⟩
  have word (alternatives : List Text) :
      (b, rest) ∈ wordWays (alternatives.map Segment.encode) q ↔
        (∃ a ∈ alternatives, b = Segment.encode a) ∧ q = b ++ rest := by
    rw [mem_wordWays]
    simp only [List.mem_map, eq_comm]
  cases t with
  | literal segment => exact mem_wordWays.trans (by simp [Reads])
  | union alternatives => exact word alternatives
  | capture name => exact run
  | choice name alternatives => exact word alternatives
  | anySegment => exact run
  | anySegments =>
    refine mem_runWays.trans ?_
    constructor
    · intro h
      obtain ⟨hne, -, h⟩ := h
      exact ⟨hne, h⟩
    · intro h
      obtain ⟨hne, rfl⟩ := h
      refine ⟨hne, fun c hc => decide_eq_true ?_, rfl⟩
      intro he
      subst he
      exact hq (List.mem_append_left _ hc)

/-! ## Decompositions -/

section

variable {t : Token} {ts : List Token} {blocks bs : List Text} {path b q : Text}

theorem decomposes_nil_iff :
    Decomposes [] blocks path ↔ blocks = [] ∧ (path = [] ∨ path = ['/']) := by
  constructor
  · intro h
    obtain ⟨h, closing, hc, rfl⟩ := h
    obtain rfl := List.forall₂_nil_left_iff.1 h
    exact ⟨rfl, hc⟩
  · intro h
    obtain ⟨rfl, hc⟩ := h
    exact ⟨.nil, path, hc, rfl⟩

theorem decomposes_cons_iff :
    Decomposes (t :: ts) blocks path ↔ ∃ b bs rest,
      blocks = b :: bs ∧ path = '/' :: (b ++ rest) ∧ t.Reads b ∧ Decomposes ts bs rest := by
  constructor
  · intro h
    obtain ⟨h, closing, hc, rfl⟩ := h
    obtain ⟨b, bs, hb, hbs, rfl⟩ := List.forall₂_cons_left_iff.1 h
    refine ⟨b, bs, bs.flatMap ('/' :: ·) ++ closing, rfl, ?_, hb, hbs, closing, hc, rfl⟩
    simp
  · intro h
    obtain ⟨b, bs, rest, rfl, rfl, hb, hbs, closing, hc, rfl⟩ := h
    refine ⟨.cons hb hbs, closing, hc, ?_⟩
    simp

/-- What follows a block is nothing, or starts with a slash. -/
theorem Decomposes.at_boundary (h : Decomposes ts bs q) : q = [] ∨ ∃ r, q = '/' :: r := by
  cases ts with
  | nil =>
    obtain ⟨-, h⟩ := decomposes_nil_iff.1 h
    exact h.imp id fun h => ⟨[], h⟩
  | cons t ts =>
    obtain ⟨b, bs', rest, -, h, -⟩ := decomposes_cons_iff.1 h
    exact .inr ⟨b ++ rest, h⟩

/-- Of the ways to cut a text at a slash or at its end, one leaves no slash before the cut. -/
theorem eq_of_append_eq_at_boundary {b b' r r' : Text} (hb : '/' ∉ b) (hb' : '/' ∉ b')
    (hr : r = [] ∨ ∃ q, r = '/' :: q) (hr' : r' = [] ∨ ∃ q, r' = '/' :: q)
    (h : b ++ r = b' ++ r') : b = b' := by
  have cut {b r : Text} (hb : '/' ∉ b) (hr : r = [] ∨ ∃ q, r = '/' :: q) :
      (b ++ r).takeWhile (· ≠ '/') = b := by
    have hall : ∀ c ∈ b, decide (c ≠ '/') = true := fun c hc =>
      decide_eq_true fun he => hb (he ▸ hc)
    rw [List.takeWhile_append_of_pos hall]
    rcases hr with rfl | ⟨q, rfl⟩
    · simp
    · simp
  rw [← cut hb hr, h, cut hb' hr']

/-- A literal is one segment. -/
def Token.OneSegment (t : Token) : Prop := ∀ segment, t = literal segment → '/' ∉ segment

theorem Token.Spells.oneSegment {s : Text} (hs : '/' ∉ s) (h : Token.Spells s t) :
    t.OneSegment := by
  rintro segment rfl
  cases h with
  | literal => exact Segment.slash_not_mem_normalForm hs

theorem Token.oneSegment_of_spells
    (h : List.Forall₂ Token.Spells (Path.segments path) ts) : ∀ t ∈ ts, t.OneSegment := by
  intro t ht
  obtain ⟨s, hs, hst⟩ := exists_of_forall₂ h t ht
  exact hst.oneSegment (Path.slash_not_mem_of_mem_segments hs)

theorem Token.Reads.slash_not_mem (hone : t.OneSegment) (hne : t ≠ .anySegments)
    (h : t.Reads b) : '/' ∉ b := by
  cases t with
  | literal segment =>
    obtain rfl := h
    exact hone b rfl
  | union alternatives | choice name alternatives =>
    obtain ⟨a, -, rfl⟩ := h
    exact Segment.slash_not_mem_encode a
  | capture name | anySegment => exact h.2
  | anySegments => exact absurd rfl hne

/-- Where the block of a token other than `**` ends follows from where it starts. -/
theorem Token.Reads.cut_unique {b' rest rest' : Text} {bs' : List Text} (h : t.Reads b)
    (hone : t.OneSegment) (hne : t ≠ .anySegments) (h' : t.Reads b') (hbs : Decomposes ts bs rest)
    (hbs' : Decomposes ts bs' rest') (he : b ++ rest = b' ++ rest') : b = b' ∧ rest = rest' := by
  obtain rfl := eq_of_append_eq_at_boundary (h.slash_not_mem hone hne) (h'.slash_not_mem hone hne)
    hbs.at_boundary hbs'.at_boundary he
  exact ⟨rfl, List.append_cancel_left he⟩

end

/-! ## Lengths and captures of blocks -/

theorem runLengths_anySegments (ts : List Token) (b : Text) (bs : List Text) :
    runLengths (.anySegments :: ts) (b :: bs) = b.length :: runLengths ts bs := rfl

theorem runLengths_of_ne {t : Token} (hne : t ≠ .anySegments) (ts : List Token) (b : Text)
    (bs : List Text) : runLengths (t :: ts) (b :: bs) = runLengths ts bs := by
  simp [runLengths, hne]

theorem capturedBlocks_cons (t : Token) (ts : List Token) (b : Text) (bs : List Text) :
    capturedBlocks (t :: ts) (b :: bs) = record t.item.captured b (capturedBlocks ts bs) := by
  cases t <;> rfl

/-! ## The expression of some tokens -/

theorem captures?_ofTokens_nil (path : Text) :
    (Expression.ofTokens []).captures? path =
      if path = [] ∨ path = ['/'] then some [] else none := by
  rw [captures?_eq_firstReading]
  rfl

theorem captures?_ofTokens_cons (t : Token) (ts : List Token) (q : Text) :
    (Expression.ofTokens (t :: ts)).captures? ('/' :: q) =
      (t.item.ways q).findSome? fun w =>
        ((Expression.ofTokens ts).captures? w.2).map (record t.item.captured w.1) := by
  have items : (Expression.ofTokens (t :: ts)).items =
      .slash :: t.item :: (Expression.ofTokens ts).items := rfl
  have way : Item.slash.ways ('/' :: q) = [(['/'], q)] := by
    simp [Item.ways, wordWays, List.isPrefixOf?]
  have uncaptured : record Item.slash.captured ['/'] = id := rfl
  simp only [captures?_eq_firstReading]
  rw [items, firstReading, way, List.findSome?_singleton, uncaptured, Option.map_id, id,
    firstReading]

theorem slash_of_captures?_ofTokens_cons {t : Token} {ts : List Token} {path : Text}
    {caps : List Text} (h : (Expression.ofTokens (t :: ts)).captures? path = some caps) :
    ∃ q, path = '/' :: q := by
  rw [captures?_eq_firstReading] at h
  obtain ⟨⟨b, rest⟩, hm, -⟩ := List.exists_of_findSome?_eq_some h
  obtain ⟨hb, rfl⟩ := mem_wordWays.1 hm
  obtain rfl := List.mem_singleton.1 hb
  exact ⟨rest, rfl⟩

/-! ## The preferred decomposition -/

section

variable {tokens : List Token} {path : Text}

/-- A path that decomposes is read. -/
theorem Decomposes.exists_captures? {blocks : List Text} (hq : '\n' ∉ path)
    (h : Decomposes tokens blocks path) :
    ∃ caps, (Expression.ofTokens tokens).captures? path = some caps := by
  induction tokens generalizing blocks path with
  | nil =>
    obtain ⟨-, h⟩ := decomposes_nil_iff.1 h
    exact ⟨[], by rw [captures?_ofTokens_nil, if_pos h]⟩
  | cons t ts ih =>
    obtain ⟨b, bs, rest, rfl, rfl, hb, hbs⟩ := decomposes_cons_iff.1 h
    have hq : '\n' ∉ b ++ rest := List.not_mem_of_not_mem_cons hq
    obtain ⟨caps, hcaps⟩ := ih (fun h => hq (List.mem_append_right _ h)) hbs
    rw [captures?_ofTokens_cons, ← Option.isSome_iff_exists, List.findSome?_isSome_iff]
    refine ⟨(b, rest), (t.mem_ways_iff hq).2 ⟨hb, rfl⟩, ?_⟩
    rw [hcaps]
    rfl

/-- A run longer than one of the list comes before it. -/
theorem mem_before_of_longer {before after : List (Text × Text)} {v w : Text × Text}
    (hs : (before ++ w :: after).Pairwise fun v w => w.1.length < v.1.length)
    (hv : v ∈ before ++ w :: after) (hl : w.1.length < v.1.length) : v ∈ before := by
  rcases List.mem_append.1 hv with hv | hv
  · exact hv
  · rcases List.mem_cons.1 hv with rfl | hv
    · exact absurd hl (Nat.lt_irrefl _)
    · have hw := (List.pairwise_cons.1 (List.pairwise_append.1 hs).2.1).1 v hv
      omega

/-- The first run after which the rest is read is the longest such one. -/
theorem length_le_of_first_run {ts : List Token} {before after : List (Text × Text)}
    {q b rest b' rest' : Text} (hways : Item.segments.ways q = before ++ (b, rest) :: after)
    (hnone : ∀ w ∈ before, (Expression.ofTokens ts).captures? w.2 = none)
    (hm : (b', rest') ∈ Item.segments.ways q)
    (hread : ∃ caps, (Expression.ofTokens ts).captures? rest' = some caps) :
    b'.length ≤ b.length := by
  by_contra hl
  have hs : (Item.segments.ways q).Pairwise fun v w => w.1.length < v.1.length :=
    longest_first_runWays (· ≠ '\n') q
  rw [hways] at hs hm
  have hbefore : (b', rest') ∈ before := mem_before_of_longer hs hm (Nat.not_le.1 hl)
  have hno := hnone _ hbefore
  obtain ⟨caps, hcaps⟩ := hread
  rw [hcaps] at hno
  cases hno

/-- Before a preferred decomposition of the rest stands a block that is as long as possible if its
token is `**`. -/
theorem Preferred.cons {t : Token} {ts : List Token} {b rest : Text} {bs : List Text}
    (hone : t.OneSegment) (hb : t.Reads b) (h : Preferred ts bs rest)
    (hlongest : t = .anySegments → ∀ b' bs' rest', b ++ rest = b' ++ rest' → b' ≠ [] →
      Decomposes ts bs' rest' → b'.length ≤ b.length) :
    Preferred (t :: ts) (b :: bs) ('/' :: (b ++ rest)) := by
  refine ⟨decomposes_cons_iff.2 ⟨b, bs, rest, rfl, rfl, hb, h.1⟩, ?_⟩
  intro others ho
  obtain ⟨b', bs', rest', rfl, he, hb', hbs'⟩ := decomposes_cons_iff.1 ho
  have he : b ++ rest = b' ++ rest' := (List.cons.inj he).2
  by_cases ht : t = .anySegments
  · have hle := hlongest ht b' bs' rest' he (by rw [ht] at hb'; exact hb') hbs'
    rw [ht, runLengths_anySegments, runLengths_anySegments, List.cons_lex_cons_iff]
    intro hlex
    rcases hlex with hl | ⟨hl, hlex⟩
    · exact Nat.not_le.2 hl hle
    · obtain ⟨rfl, rfl⟩ := List.append_inj he hl
      exact h.2 bs' hbs' hlex
  · rw [runLengths_of_ne ht, runLengths_of_ne ht]
    obtain ⟨rfl, rfl⟩ := hb.cut_unique hone ht hb' h.1 hbs' he
    exact h.2 bs' hbs'

variable (hone : ∀ t ∈ tokens, t.OneSegment)
include hone

/-- What is captured are blocks of a preferred decomposition. -/
theorem exists_preferred_of_captures? {caps : List Text} (hq : '\n' ∉ path)
    (h : (Expression.ofTokens tokens).captures? path = some caps) :
    ∃ blocks, Preferred tokens blocks path ∧ caps = capturedBlocks tokens blocks := by
  induction tokens generalizing path caps with
  | nil =>
    rw [captures?_ofTokens_nil] at h
    split at h
    · rename_i hp
      obtain rfl := Option.some.inj h
      refine ⟨[], ⟨decomposes_nil_iff.2 ⟨rfl, hp⟩, fun others ho => ?_⟩, rfl⟩
      obtain ⟨rfl, -⟩ := decomposes_nil_iff.1 ho
      exact List.not_lex_nil
    · cases h
  | cons t ts ih =>
    rw [List.forall_mem_cons] at hone
    obtain ⟨q, rfl⟩ := slash_of_captures?_ofTokens_cons h
    have hq : '\n' ∉ q := List.not_mem_of_not_mem_cons hq
    rw [captures?_ofTokens_cons, List.findSome?_eq_some_iff] at h
    obtain ⟨before, ⟨b, rest⟩, after, hways, hfound, hnone⟩ := h
    obtain ⟨caps', hcaps', rfl⟩ := Option.map_eq_some_iff.1 hfound
    have hm : (b, rest) ∈ t.item.ways q := by
      rw [hways]
      exact List.mem_append_right _ List.mem_cons_self
    obtain ⟨hb, rfl⟩ := (t.mem_ways_iff hq).1 hm
    have hrest : '\n' ∉ rest := fun h => hq (List.mem_append_right _ h)
    obtain ⟨bs, hpreferred, rfl⟩ := ih hone.2 hrest hcaps'
    refine ⟨b :: bs, hpreferred.cons hone.1 hb ?_, (capturedBlocks_cons t ts b bs).symm⟩
    -- a longer run would have come first, and what follows it would have been read
    intro ht b' bs' rest' he hb' hbs'
    subst ht
    have hrest' : '\n' ∉ rest' := fun h => hq (he ▸ List.mem_append_right _ h)
    have hfail : ∀ w ∈ before, (Expression.ofTokens ts).captures? w.2 = none := fun w hw =>
      Option.map_eq_none_iff.1 (hnone w hw)
    exact length_le_of_first_run hways hfail
      ((Token.anySegments.mem_ways_iff hq).2 ⟨hb', he⟩) (hbs'.exists_captures? hrest')

/-- The lengths of the blocks of `**` give all blocks. -/
theorem Decomposes.eq_of_runLengths_eq {blocks others : List Text}
    (h : Decomposes tokens blocks path) (h' : Decomposes tokens others path)
    (hl : runLengths tokens blocks = runLengths tokens others) : blocks = others := by
  induction tokens generalizing blocks others path with
  | nil =>
    obtain ⟨rfl, -⟩ := decomposes_nil_iff.1 h
    obtain ⟨rfl, -⟩ := decomposes_nil_iff.1 h'
    rfl
  | cons t ts ih =>
    rw [List.forall_mem_cons] at hone
    obtain ⟨b, bs, rest, rfl, rfl, hb, hbs⟩ := decomposes_cons_iff.1 h
    obtain ⟨b', bs', rest', rfl, he, hb', hbs'⟩ := decomposes_cons_iff.1 h'
    have he : b ++ rest = b' ++ rest' := (List.cons.inj he).2
    by_cases ht : t = .anySegments
    · subst ht
      rw [runLengths_anySegments, runLengths_anySegments] at hl
      obtain ⟨hlen, htail⟩ := List.cons.inj hl
      obtain ⟨rfl, rfl⟩ := List.append_inj he hlen
      rw [ih hone.2 hbs hbs' htail]
    · rw [runLengths_of_ne ht, runLengths_of_ne ht] at hl
      obtain ⟨rfl, rfl⟩ := hb.cut_unique hone.1 ht hb' hbs hbs' he
      rw [ih hone.2 hbs hbs' hl]

theorem Preferred.unique {blocks others : List Text} (h : Preferred tokens blocks path)
    (h' : Preferred tokens others path) : blocks = others := by
  have trichotomous : ∀ x y : Nat, ¬ x < y → ¬ y < x → x = y := by omega
  have hl := List.lex_trichotomous trichotomous (h'.2 _ h.1) (h.2 _ h'.1)
  exact h.1.eq_of_runLengths_eq hone h'.1 hl

theorem isSome_captures?_ofTokens_iff (hq : '\n' ∉ path) :
    ((Expression.ofTokens tokens).captures? path).isSome = true ↔
      ∃ blocks, Decomposes tokens blocks path := by
  rw [Option.isSome_iff_exists]
  constructor
  · intro h
    obtain ⟨caps, hcaps⟩ := h
    obtain ⟨blocks, hb, -⟩ := exists_preferred_of_captures? hone hq hcaps
    exact ⟨blocks, hb.1⟩
  · intro h
    obtain ⟨blocks, hb⟩ := h
    exact hb.exists_captures? hq

theorem captures?_ofTokens_of_preferred {blocks : List Text} (hq : '\n' ∉ path)
    (h : Preferred tokens blocks path) :
    (Expression.ofTokens tokens).captures? path = some (capturedBlocks tokens blocks) := by
  obtain ⟨caps, hcaps⟩ := h.1.exists_captures? hq
  obtain ⟨others, ho, rfl⟩ := exists_preferred_of_captures? hone hq hcaps
  rw [hcaps, h.unique hone ho]

theorem Decomposes.existsUnique_preferred {blocks : List Text} (hq : '\n' ∉ path)
    (h : Decomposes tokens blocks path) : ∃! preferred, Preferred tokens preferred path := by
  obtain ⟨caps, hcaps⟩ := h.exists_captures? hq
  obtain ⟨preferred, hp, -⟩ := exists_preferred_of_captures? hone hq hcaps
  exact ⟨preferred, hp, fun _ ho => ho.unique hone hp⟩

end

/-! ## One run

A path that does not end in a slash has one slash for every token other than `**` after the `**`,
so that the end of its block follows when there is only one. -/

section

variable {ts : List Token} {bs : List Text} {path b b' r r' : Text}

theorem getLast?_ne_of_append {a : Text} {c : Char} (h : (a ++ r).getLast? ≠ some c) :
    r.getLast? ≠ some c := by
  intro hr
  apply h
  rw [List.getLast?_append, hr]
  rfl

theorem Decomposes.count_slash (hone : ∀ t ∈ ts, t.OneSegment) (hno : .anySegments ∉ ts)
    (hend : path.getLast? ≠ some '/') (h : Decomposes ts bs path) :
    path.count '/' = ts.length := by
  induction ts generalizing bs path with
  | nil =>
    obtain ⟨-, rfl | rfl⟩ := decomposes_nil_iff.1 h
    · rfl
    · exact absurd rfl hend
  | cons t ts ih =>
    rw [List.forall_mem_cons] at hone
    obtain ⟨ht, hts⟩ := List.ne_and_not_mem_of_not_mem_cons hno
    obtain ⟨b, bs, rest, rfl, rfl, hb, hbs⟩ := decomposes_cons_iff.1 h
    have hb : b.count '/' = 0 := List.count_eq_zero.2 (hb.slash_not_mem hone.1 ht.symm)
    have hrest := ih hone.2 hts (getLast?_ne_of_append (a := '/' :: b) hend) hbs
    rw [List.count_cons_self, List.count_append, hb, hrest, List.length_cons]
    omega

/-- Of two rests of a text that start at a slash or are empty, the longer has more slashes. -/
theorem eq_nil_of_count_eq {d : Text} (hr : r = [] ∨ ∃ q, r = '/' :: q) (he : r = d ++ r')
    (hcount : r.count '/' = r'.count '/') : d = [] := by
  cases d with
  | nil => rfl
  | cons c d =>
    obtain ⟨q, hq⟩ := hr.resolve_left (by rw [he]; exact List.cons_ne_nil _ _)
    obtain rfl : c = '/' := (List.cons.inj (he.symm.trans hq)).1
    rw [he, List.count_append, List.count_cons_self] at hcount
    omega

theorem eq_of_count_eq (hr : r = [] ∨ ∃ q, r = '/' :: q) (hr' : r' = [] ∨ ∃ q, r' = '/' :: q)
    (hcount : r.count '/' = r'.count '/') (he : b ++ r = b' ++ r') : b = b' ∧ r = r' := by
  rcases List.append_eq_append_iff.1 he with ⟨d, rfl, hd⟩ | ⟨d, rfl, hd⟩
  · obtain rfl := eq_nil_of_count_eq hr hd hcount
    exact ⟨(List.append_nil b).symm, hd⟩
  · obtain rfl := eq_nil_of_count_eq hr' hd hcount.symm
    exact ⟨List.append_nil b', hd.symm⟩

theorem Decomposes.unique_of_one_run {tokens : List Token} {blocks others : List Text}
    (hone : ∀ t ∈ tokens, t.OneSegment) (hruns : tokens.count .anySegments ≤ 1)
    (hend : tokens ≠ [] → path.getLast? ≠ some '/') (h : Decomposes tokens blocks path)
    (h' : Decomposes tokens others path) : blocks = others := by
  induction tokens generalizing blocks others path with
  | nil =>
    obtain ⟨rfl, -⟩ := decomposes_nil_iff.1 h
    obtain ⟨rfl, -⟩ := decomposes_nil_iff.1 h'
    rfl
  | cons t ts ih =>
    rw [List.forall_mem_cons] at hone
    obtain ⟨b, bs, rest, rfl, rfl, hb, hbs⟩ := decomposes_cons_iff.1 h
    obtain ⟨b', bs', rest', rfl, he, hb', hbs'⟩ := decomposes_cons_iff.1 h'
    have hend := hend (List.cons_ne_nil _ _)
    have hrest : rest.getLast? ≠ some '/' := getLast?_ne_of_append (a := '/' :: b) hend
    have hrest' : rest'.getLast? ≠ some '/' := by
      rw [he] at hend
      exact getLast?_ne_of_append (a := '/' :: b') hend
    have he : b ++ rest = b' ++ rest' := (List.cons.inj he).2
    have hruns' : ts.count .anySegments ≤ 1 := le_trans List.count_le_count_cons hruns
    by_cases ht : t = .anySegments
    · subst ht
      have hno : .anySegments ∉ ts := by
        rw [List.count_cons_self] at hruns
        exact List.count_eq_zero.1 (by omega)
      have hcount : rest.count '/' = rest'.count '/' := by
        rw [hbs.count_slash hone.2 hno hrest, hbs'.count_slash hone.2 hno hrest']
      obtain ⟨rfl, rfl⟩ := eq_of_count_eq hbs.at_boundary hbs'.at_boundary hcount he
      rw [ih hone.2 hruns' (fun _ => hrest) hbs hbs']
    · obtain ⟨rfl, rfl⟩ := hb.cut_unique hone.1 ht hb' hbs hbs' he
      rw [ih hone.2 hruns' (fun _ => hrest) hbs hbs']

end

/-- The only decomposition of a path is preferred. -/
theorem Decomposes.preferred_of_one_run {tokens : List Token} {path : Text} {blocks : List Text}
    (hone : ∀ t ∈ tokens, t.OneSegment) (hruns : tokens.count .anySegments ≤ 1)
    (hend : tokens ≠ [] → path.getLast? ≠ some '/') (h : Decomposes tokens blocks path) :
    Preferred tokens blocks path := by
  refine ⟨h, fun others ho => ?_⟩
  rw [h.unique_of_one_run hone hruns hend ho]
  exact List.lex_irrefl Nat.lt_irrefl _

/-! ## The expression of a pattern -/

/-- **The expression of a pattern reads the paths that decompose into blocks of its tokens.** Of the
decompositions of such a path exactly one is preferred, and its blocks are captured. -/
theorem captures?_iff_preferred {source candidate : Text} {p : Pattern} {u : Url}
    (hp : compile source = .ok p) (hu : Url.parse candidate = .ok u) :
    (∃ v, Url.parse source = .ok v ∧
      List.Forall₂ Token.Spells (Path.segments v.pathname) p.tokens) ∧
    ((p.expression.captures? (Path.normalForm u.pathname)).isSome = true ↔
      ∃ blocks, Decomposes p.tokens blocks (Path.normalForm u.pathname)) ∧
    ((p.expression.captures? (Path.normalForm u.pathname)).isSome = true →
      ∃! blocks, Preferred p.tokens blocks (Path.normalForm u.pathname)) ∧
    ∀ blocks, Preferred p.tokens blocks (Path.normalForm u.pathname) →
      p.expression.captures? (Path.normalForm u.pathname) =
        some (capturedBlocks p.tokens blocks) := by
  obtain ⟨v, hv, ht, -⟩ := parts_of_compile hp
  have hspells := Token.ofPath_eq_ok_iff.1 ht
  have hone : ∀ t ∈ p.tokens, t.OneSegment := Token.oneSegment_of_spells hspells
  have hq := Path.newline_not_mem_normalForm (Url.isPathSafe_of_mem_pathname hu)
  refine ⟨⟨v, hv, hspells⟩, isSome_captures?_ofTokens_iff hone hq, fun h => ?_, fun blocks hb => ?_⟩
  · obtain ⟨blocks, hb⟩ := (isSome_captures?_ofTokens_iff hone hq).1 h
    exact hb.existsUnique_preferred hone hq
  · exact captures?_ofTokens_of_preferred hone hq hb

/-- The first `**` takes the empty segment too, and the second one the slash at the end. -/
theorem captures?_between_runs :
    ∃ p u, compile "/**/:id/**".toList = .ok p ∧ Url.parse "/a/b//c/%7E/".toList = .ok u ∧
      (∃ v, Url.parse "/**/:id/**".toList = .ok v ∧
        List.Forall₂ Token.Spells (Path.segments v.pathname) p.tokens) ∧
      Decomposes p.tokens ["a/b/", "c", "~/"] (Path.normalForm u.pathname) ∧
      ∃! blocks, Preferred p.tokens blocks (Path.normalForm u.pathname) ∧
        capturedBlocks p.tokens blocks = ["c".toList] := by
  have hp : compile "/**/:id/**".toList =
      .ok ⟨"/**/:id/**", [.anySegments, .capture "id", .anySegments], [], none⟩ := by
    decide +kernel
  have hu : Url.parse "/a/b//c/%7E/".toList =
      .ok ⟨"http", [], [], "localhost", none, true, "/a/b//c/%7E/", [], []⟩ := rfl
  have hcaps : (Expression.ofTokens [.anySegments, .capture "id", .anySegments]).captures?
      (Path.normalForm "/a/b//c/%7E/") = some ["c".toList] := by
    decide +kernel
  obtain ⟨hs, -, hpreferred, hcaptured⟩ := captures?_iff_preferred hp hu
  obtain ⟨blocks, hb, hunique⟩ := hpreferred (Option.isSome_iff_exists.2 ⟨_, hcaps⟩)
  refine ⟨_, _, hp, hu, hs, ?_, blocks, ⟨hb, ?_⟩, fun others ho => hunique others ho.1⟩
  · refine ⟨.cons (List.cons_ne_nil _ _) (.cons ⟨List.cons_ne_nil _ _, ?_⟩
      (.cons (List.cons_ne_nil _ _) .nil)), [], .inl rfl, ?_⟩
    · decide
    · decide +kernel
  · exact Option.some.inj ((hcaptured blocks hb).symm.trans hcaps)

end UrlRouting.Pattern
