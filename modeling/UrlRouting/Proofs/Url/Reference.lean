import UrlRouting.Proofs.Text.Pieces
import UrlRouting.Url.Basic

/-!
# The parts of a reference

Which parts a text is cut into, whatever its authority, and which text has given parts.

* `Reference.parts` cuts every text, and `ofText_eq_ok_iff` says that reading a reference does so
  when the authority is valid. `parse_eq_ok_iff` says the same of a URL.
* `mem_clean_of_mem_parts`, `path_head_of_authority`: the characters that a part holds, and where
  the path after an authority starts.
* `parts_written`: **a text written from its parts has these parts**.
-/

namespace UrlRouting.Url

/-- The text that the path, the query and the fragment are cut from. -/
def afterAuthority (t : Text) : Text := (cutAuthority (cutScheme (clean t)).2).2

namespace Reference

/-- The parts of a text, whether or not its authority is valid. -/
def parts (t : Text) : Reference where
  scheme := (cutScheme (clean t)).1
  authority := (cutAuthority (cutScheme (clean t)).2).1
  path := (Text.cut '?' (Text.cut '#' (afterAuthority t)).1).1
  query := (Text.cut '?' (Text.cut '#' (afterAuthority t)).1).2.getD []
  fragment := (Text.cut '#' (afterAuthority t)).2.getD []

theorem ofText_eq_ok_iff {t : Text} {r : Reference} :
    ofText t = .ok r ↔ Authority.validate r.authority = .ok () ∧ r = parts t := by
  have h : ofText t = (Authority.validate (parts t).authority).map fun _ => parts t := rfl
  rw [h]
  cases hv : Authority.validate (parts t).authority with
  | error e =>
    refine iff_of_false (by simp [Except.map]) ?_
    rintro ⟨hr, rfl⟩
    rw [hv] at hr
    cases hr
  | ok _ =>
    constructor
    · intro hr
      obtain rfl := Except.ok.inj hr
      exact ⟨hv, rfl⟩
    · rintro ⟨-, rfl⟩
      rfl

end Reference

/-- The URL that the parts of the text `t` resolve to, with the number of its port. -/
def resolved (t : Text) (r : Reference) (port : Option Nat) : Url where
  scheme := schemeOf r
  username := (Authority.ofText (authorityOf t r)).username
  password := (Authority.ofText (authorityOf t r)).password
  hostname := (Authority.ofText (authorityOf t r)).hostname
  port := if port = defaultPort? (schemeOf r) then none else port
  hasAuthority := isSpecial (schemeOf r) || authorityOf t r != []
  pathname := Path.escape (Path.removeDots (pathOf r))
  query := r.query
  fragment := r.fragment

theorem parse_eq_ok_iff {t : Text} {u : Url} : parse t = .ok u ↔
    ∃ r port, Reference.ofText t = .ok r ∧
      (Authority.ofText (authorityOf t r)).portNumber = .ok port ∧ u = resolved t r port := by
  unfold parse
  constructor
  · intro h
    simp only [bind, Except.bind] at h
    split at h
    · cases h
    · rename_i r hr
      split at h
      · cases h
      · rename_i port hport
        exact ⟨r, port, hr, hport, (Except.ok.inj h).symm⟩
  · rintro ⟨r, port, hr, hport, rfl⟩
    simp only [hr, bind, Except.bind, hport]
    rfl

/-! ## The cuts -/

/-- A scheme holds letters, digits, `+`, `-` and `.` only. -/
theorem not_mem_of_isScheme {t : Text} (h : isScheme t = true) {d : Char}
    (hd : (d.isAlphanum || d = '+' || d = '-' || d = '.') = false) : d ∉ t := by
  intro hm
  cases t with
  | nil => cases hm
  | cons c t =>
    rw [isScheme, Bool.and_eq_true, List.all_eq_true] at h
    rcases List.mem_cons.1 hm with rfl | hm
    · rw [Char.isAlphanum, h.1] at hd
      cases hd
    · rw [h.2 d hm] at hd
      cases hd

theorem colon_not_mem_of_isScheme {t : Text} (h : isScheme t = true) : ':' ∉ t :=
  not_mem_of_isScheme h (by decide)

theorem isSkipped_of_mem_scheme {t : Text} (h : isScheme t = true) {c : Char} (hc : c ∈ t) :
    isSkipped c = false := by
  by_contra hskip
  simp only [isSkipped, Bool.not_eq_false, Bool.or_eq_true, decide_eq_true_eq] at hskip
  rcases hskip with (rfl | rfl) | rfl
  · exact not_mem_of_isScheme h (by decide) hc
  · exact not_mem_of_isScheme h (by decide) hc
  · exact not_mem_of_isScheme h (by decide) hc

theorem cutScheme_of_isScheme {s : Text} (hs : isScheme s = true) (rest : Text) :
    cutScheme (s ++ ':' :: rest) = (s.map Char.toLower, rest) := by
  rw [cutScheme, Text.cut_some (colon_not_mem_of_isScheme hs)]
  exact if_pos hs

theorem cutScheme_of_not_isScheme {t : Text}
    (h : ∀ s rest, t = s ++ ':' :: rest → isScheme s = false) : cutScheme t = ([], t) := by
  unfold cutScheme
  split
  · rename_i s rest hcut
    rw [h s rest (Text.cut_eq_some_iff.1 hcut).2]
    rfl
  · rfl

theorem cutScheme_cases (t : Text) :
    (∃ s rest, isScheme s = true ∧ t = s ++ ':' :: rest) ∨
      ∀ s rest, t = s ++ ':' :: rest → isScheme s = false := by
  by_cases h : ∃ s rest, isScheme s = true ∧ t = s ++ ':' :: rest
  · exact .inl h
  · refine .inr fun s rest ht => ?_
    cases hs : isScheme s with
    | false => rfl
    | true => exact absurd ⟨s, rest, hs, ht⟩ h

theorem cutAuthority_written {authority rest : Text}
    (hauthority : ∀ c ∈ authority, endsAuthority c = false)
    (hrest : rest = [] ∨ ∃ c t, rest = c :: t ∧ endsAuthority c = true) :
    cutAuthority ('/' :: '/' :: (authority ++ rest)) = (authority, rest) := by
  have hall : ∀ c ∈ authority, (!endsAuthority c) = true := fun c hc => by
    rw [hauthority c hc]
    rfl
  rw [cutAuthority, List.takeWhile_append_of_pos hall, List.dropWhile_append_of_pos hall]
  rcases hrest with rfl | ⟨c, t, rfl, hc⟩
  · simp
  · simp [hc]

theorem slashes_isPrefix_iff {p : Text} {c : Char} (hc : c ≠ '/') (k : Text) :
    ['/', '/'] <+: p ++ c :: k ↔ ['/', '/'] <+: p := by
  rcases p with _ | ⟨a, _ | ⟨b, p⟩⟩
  · simp [List.cons_prefix_cons, Ne.symm hc]
  · simp [List.cons_prefix_cons, Ne.symm hc]
  · simp [List.cons_prefix_cons]

theorem cutAuthority_of_not_isPrefix {t : Text} (h : ¬ ['/', '/'] <+: t) :
    cutAuthority t = ([], t) := by
  unfold cutAuthority
  split
  · exact absurd ⟨_, rfl⟩ h
  · rfl

theorem cutAuthority_cases (t : Text) : ¬ ['/', '/'] <+: t ∨
    ∃ a rest, t = '/' :: '/' :: (a ++ rest) ∧ (∀ c ∈ a, endsAuthority c = false) ∧
      (rest = [] ∨ ∃ c r, rest = c :: r ∧ endsAuthority c = true) := by
  by_cases h : ['/', '/'] <+: t
  · obtain ⟨r, rfl⟩ := h
    refine .inr ⟨r.takeWhile (!endsAuthority ·), r.dropWhile (!endsAuthority ·), ?_, ?_, ?_⟩
    · rw [List.takeWhile_append_dropWhile]
      rfl
    · intro c hc
      simpa using List.all_eq_true.1 List.all_takeWhile c hc
    · cases hd : r.dropWhile (!endsAuthority ·) with
      | nil => exact .inl rfl
      | cons c rest =>
        have := List.head?_dropWhile_not (!endsAuthority ·) r
        exact .inr ⟨c, rest, rfl, by simpa [hd] using this⟩
  · exact .inl h

/-! ## The characters of the parts -/

theorem not_isSkipped_of_mem_clean {t : Text} {c : Char} (h : c ∈ clean t) :
    isSkipped c = false := by
  simpa using (List.mem_filter.1 h).2

theorem mem_of_mem_cutScheme {t : Text} {c : Char} (h : c ∈ (cutScheme t).2) : c ∈ t := by
  unfold cutScheme at h
  split at h
  · rename_i scheme rest hcut
    split at h
    · have hm := Text.mem_of_mem_cut ':' t (c := c)
      rw [hcut] at hm
      exact hm (.inr h)
    · exact h
  · exact h

theorem mem_of_mem_cutAuthority {t : Text} {c : Char}
    (h : c ∈ (cutAuthority t).1 ∨ c ∈ (cutAuthority t).2) : c ∈ t := by
  unfold cutAuthority at h
  split at h
  · rename_i t
    refine List.mem_cons_of_mem _ (List.mem_cons_of_mem _ ?_)
    exact h.elim (fun h => (List.takeWhile_sublist _).subset h)
      fun h => (List.dropWhile_sublist _).subset h
  · exact h.elim (by simp) id

/-- The parts after the scheme hold characters that count. -/
theorem mem_clean_of_mem_parts {t : Text} {c : Char}
    (h : c ∈ (Reference.parts t).authority ∨ c ∈ (Reference.parts t).query ∨
      c ∈ (Reference.parts t).fragment) : c ∈ clean t := by
  refine mem_of_mem_cutScheme (mem_of_mem_cutAuthority ?_)
  rcases h with h | h | h
  · exact .inl h
  · exact .inr (Text.mem_of_mem_cut '#' _ (.inl (Text.mem_of_mem_cut '?' _ (.inr h))))
  · exact .inr (Text.mem_of_mem_cut '#' _ (.inr h))

theorem hash_not_mem_query (t : Text) : '#' ∉ (Reference.parts t).query := fun h =>
  Text.not_mem_cut '#' (afterAuthority t) (Text.mem_of_mem_cut '?' _ (.inr h))

theorem not_endsAuthority_of_mem_authority {t : Text} {c : Char}
    (h : c ∈ (Reference.parts t).authority) : endsAuthority c = false := by
  unfold Reference.parts cutAuthority at h
  dsimp only at h
  split at h
  · simpa using List.all_eq_true.1 List.all_takeWhile c h
  · cases h

/-- A path after two slashes and an authority is empty or starts with a slash. -/
theorem path_head_of_slashes {t : Text} (h : ['/', '/'] <+: (cutScheme (clean t)).2) :
    (Reference.parts t).path = [] ∨ ∃ p, (Reference.parts t).path = '/' :: p := by
  unfold Reference.parts afterAuthority
  rcases cutAuthority_cases (cutScheme (clean t)).2 with hno | ⟨a, rest, heq, ha, hrest⟩
  · exact absurd h hno
  · rw [heq, cutAuthority_written ha hrest]
    rcases hrest with rfl | ⟨c, r, rfl, hc⟩
    · exact .inl rfl
    · simp only [endsAuthority, Bool.or_eq_true, decide_eq_true_eq] at hc
      rcases hc with (rfl | rfl) | rfl
      · right
        simp [Text.cut]
      · left
        simp [Text.cut]
      · left
        simp [Text.cut]

theorem path_head_of_authority {t : Text} (h : (Reference.parts t).authority ≠ []) :
    (Reference.parts t).path = [] ∨ ∃ p, (Reference.parts t).path = '/' :: p := by
  apply path_head_of_slashes
  by_contra hno
  exact h (congrArg Prod.fst (cutAuthority_of_not_isPrefix hno))

/-! ## A text written from its parts -/

theorem cut_marked {d : Char} {a : Text} (h : d ∉ a) (b : Text) :
    (Text.cut d (a ++ marked d b)).1 = a ∧ (Text.cut d (a ++ marked d b)).2.getD [] = b := by
  by_cases hb : b = []
  · simp [marked, hb, Text.cut_none h]
  · simp [marked, hb, Text.cut_some h]

theorem marked_inj {d : Char} {t t' : Text} (h : marked d t = marked d t') : t = t' := by
  have ht := (cut_marked (List.not_mem_nil (a := d)) t).2
  rw [List.nil_append, h] at ht
  exact ht.symm.trans (cut_marked (List.not_mem_nil (a := d)) t').2

theorem not_mem_marked {c d : Char} {t : Text} (hd : c ≠ d) (ht : c ∉ t) : c ∉ marked d t := by
  unfold marked
  split
  · simp
  · simp [hd, ht]

theorem marked_head {d : Char} (t : Text) : marked d t = [] ∨ marked d t = d :: t := by
  unfold marked
  split
  · exact .inl rfl
  · exact .inr rfl

theorem mem_of_mem_marked {marker c : Char} {t : Text} (h : c ∈ marked marker t) :
    c = marker ∨ c ∈ t := by
  rcases marked_head (d := marker) t with hm | hm
  · rw [hm] at h
    cases h
  · rw [hm] at h
    exact List.mem_cons.1 h

/-- A scheme starts with a character that counts. -/
theorem not_le_space_of_isScheme {c : Char} {s : Text} (h : isScheme (c :: s) = true) :
    ¬ c ≤ ' ' := by
  rw [isScheme, Bool.and_eq_true] at h
  intro hle
  have hn : c.toNat ≤ 32 := UInt32.le_iff_toNat_le.1 hle
  have low : ∀ n ≤ 32, (Char.ofNat n).isAlpha = false := by decide
  have := low c.toNat hn
  rw [Char.ofNat_toNat, h.1] at this
  cases this

theorem clean_of_scheme {scheme t : Text} (hs : isScheme scheme = true)
    (hskip : ∀ c ∈ scheme ++ t, isSkipped c = false) : clean (scheme ++ t) = scheme ++ t := by
  cases scheme with
  | nil => cases hs
  | cons c s =>
    have hc := not_le_space_of_isScheme hs
    rw [clean, List.cons_append, List.dropWhile_cons_of_neg (by simpa using hc),
      List.filter_eq_self]
    intro d hd
    rw [hskip d hd]
    rfl

/-- The path, the query and the fragment are cut as they were written. -/
theorem parts_of_cuts {t scheme authority afterScheme path query fragment : Text}
    (hscheme : cutScheme (clean t) = (scheme, afterScheme))
    (hauthority : cutAuthority afterScheme =
      (authority, path ++ marked '?' query ++ marked '#' fragment))
    (hfree : '?' ∉ path ∧ '#' ∉ path) (hquery : '#' ∉ query) :
    Reference.parts t = ⟨scheme, authority, path, query, fragment⟩ := by
  have hbefore : '#' ∉ path ++ marked '?' query := by
    rw [List.mem_append, not_or]
    exact ⟨hfree.2, not_mem_marked (by decide) hquery⟩
  rw [Reference.parts, afterAuthority, hscheme, hauthority]
  simp only [(cut_marked hbefore fragment).1, (cut_marked hbefore fragment).2,
    (cut_marked hfree.1 query).1, (cut_marked hfree.1 query).2]

/-- **A text written from its parts has these parts.** -/
theorem parts_written {scheme authority path query fragment : Text}
    (hs : isScheme scheme = true) (hlower : scheme.map Char.toLower = scheme)
    (hauthority : ∀ c ∈ authority, endsAuthority c = false)
    (hpath : path = [] ∨ ∃ p, path = '/' :: p) (hfree : '?' ∉ path ∧ '#' ∉ path)
    (hquery : '#' ∉ query)
    (hskip : ∀ c ∈ scheme ++ ':' :: '/' :: '/' :: (authority ++
      (path ++ marked '?' query ++ marked '#' fragment)), isSkipped c = false) :
    Reference.parts (scheme ++ ':' :: '/' :: '/' :: (authority ++
      (path ++ marked '?' query ++ marked '#' fragment))) =
      ⟨scheme, authority, path, query, fragment⟩ := by
  have hrest : path ++ marked '?' query ++ marked '#' fragment = [] ∨
      ∃ c t, path ++ marked '?' query ++ marked '#' fragment = c :: t ∧
        endsAuthority c = true := by
    rcases hpath with rfl | ⟨p, rfl⟩
    · rcases marked_head (d := '?') query with hq | hq
      · rcases marked_head (d := '#') fragment with hf | hf
        · exact .inl (by rw [hq, hf]; rfl)
        · exact .inr ⟨'#', fragment, by rw [hq, hf]; rfl, rfl⟩
      · exact .inr ⟨'?', _, by rw [hq]; rfl, rfl⟩
    · exact .inr ⟨'/', _, rfl, rfl⟩
  refine parts_of_cuts ?_ (cutAuthority_written hauthority hrest) hfree hquery
  rw [clean_of_scheme hs hskip, cutScheme_of_isScheme hs, hlower]

/-- A text written without an authority has no authority, unless its path starts with two
slashes. -/
theorem parts_written_no_authority {scheme path query fragment : Text}
    (hs : isScheme scheme = true) (hlower : scheme.map Char.toLower = scheme)
    (hpath : ¬ ['/', '/'] <+: path) (hfree : '?' ∉ path ∧ '#' ∉ path) (hquery : '#' ∉ query)
    (hskip : ∀ c ∈ scheme ++ ':' :: (path ++ marked '?' query ++ marked '#' fragment),
      isSkipped c = false) :
    Reference.parts (scheme ++ ':' :: (path ++ marked '?' query ++ marked '#' fragment)) =
      ⟨scheme, [], path, query, fragment⟩ := by
  refine parts_of_cuts ?_ (cutAuthority_of_not_isPrefix ?_) hfree hquery
  · rw [clean_of_scheme hs hskip, cutScheme_of_isScheme hs, hlower]
  · rcases marked_head (d := '?') query with hq | hq
    · rcases marked_head (d := '#') fragment with hf | hf
      · rwa [hq, hf, List.append_nil, List.append_nil]
      · rwa [hq, hf, List.append_nil, slashes_isPrefix_iff (by decide)]
    · rwa [hq, List.append_assoc, List.cons_append, slashes_isPrefix_iff (by decide)]

end UrlRouting.Url
