import UrlRouting.Proofs.Url.PathPlace

/-!
# What stands behind the path

A query and a fragment start at the first `?` or `#` of a text, and all that is read before them
ends there: whatever they hold, no scheme, authority or path is cut from it.

* `PathOnly`: a text without a query and a fragment.
* `cutScheme_append`, `cutAuthority_append`: the cuts of such a text stay where they are.
* `parts_append`: the parts of such a text stay what they are.
* `parse_append`: **a query and a fragment change nothing else**, not even an error.
  `parse_append_tail`: a query and a fragment together. `parse_append_query`: a query alone.
-/

namespace UrlRouting.Url

/-! ## Texts without a query and a fragment -/

/-- A text without a query and a fragment. -/
def PathOnly (w : Text) : Prop := '?' ∉ w ∧ '#' ∉ w

instance (w : Text) : Decidable (PathOnly w) := inferInstanceAs (Decidable ('?' ∉ w ∧ '#' ∉ w))

theorem pathOnly_cons {c : Char} (hc : ¬ (c = '?' ∨ c = '#')) {w : Text} (h : PathOnly w) :
    PathOnly (c :: w) := by
  obtain ⟨hquery, hhash⟩ := not_or.1 hc
  simp only [PathOnly, List.mem_cons, not_or]
  exact ⟨⟨Ne.symm hquery, h.1⟩, Ne.symm hhash, h.2⟩

theorem pathOnly_append {a b : Text} : PathOnly (a ++ b) ↔ PathOnly a ∧ PathOnly b := by
  simp only [PathOnly, List.mem_append, not_or]
  tauto

/-- Any other text has such a text in front of its first query or fragment. -/
theorem exists_cut_of_not_pathOnly {w : Text} (h : ¬ PathOnly w) :
    ∃ a c r, w = a ++ c :: r ∧ PathOnly a ∧ (c = '?' ∨ c = '#') := by
  induction w with
  | nil => exact absurd (by decide) h
  | cons c w ih =>
    by_cases hc : c = '?' ∨ c = '#'
    · exact ⟨[], c, w, rfl, by decide, hc⟩
    · obtain ⟨a, d, r, rfl, ha, hd⟩ := ih fun hw => h (pathOnly_cons hc hw)
      exact ⟨c :: a, d, r, rfl, pathOnly_cons hc ha, hd⟩

/-! ## The cuts before a query or a fragment -/

section

variable {t k : Text} (hk : ∀ c ∈ k.head?, c = '?' ∨ c = '#')
include hk

theorem clean_append : clean (t ++ k) = clean t ++ kept k := by
  cases k with
  | nil => simp [kept]
  | cons c r =>
    have hc : isSkipped c = false ∧ ¬ c ≤ ' ' := by
      rcases hk c rfl with rfl | rfl
      · exact ⟨rfl, by decide⟩
      · exact ⟨rfl, by decide⟩
    rw [clean_append_cons hc.1 (.inl hc.2)]
    exact congrArg (clean t ++ ·) (List.filter_cons_of_pos (by simp [hc.1])).symm

/-- What counts of a query and a fragment is one. -/
theorem head?_kept : ∀ c ∈ (kept k).head?, c = '?' ∨ c = '#' := by
  cases k with
  | nil => exact hk
  | cons c r =>
    rcases hk c rfl with rfl | rfl
    · have hcons : kept ('?' :: r) = '?' :: kept r := rfl
      rw [hcons]
      simp
    · have hcons : kept ('#' :: r) = '#' :: kept r := rfl
      rw [hcons]
      simp

theorem cutScheme_append : cutScheme (t ++ k) = ((cutScheme t).1, (cutScheme t).2 ++ k) := by
  rcases cutScheme_cases t with ⟨s, rest, hs, rfl⟩ | hno
  · rw [List.append_assoc, List.cons_append, cutScheme_of_isScheme hs, cutScheme_of_isScheme hs]
  · rw [cutScheme_of_not_isScheme hno]
    apply cutScheme_of_not_isScheme
    intro s rest hsplit
    -- a scheme ends in the text, or it would hold the character that starts `k`
    rcases List.append_eq_append_iff.1 hsplit with ⟨a, rfl, ha⟩ | ⟨a, rfl, ha⟩
    · cases a with
      | nil =>
        obtain rfl : k = ':' :: rest := ha
        exact absurd (hk ':' rfl) (by decide)
      | cons d a =>
        have hd : d = '?' ∨ d = '#' := hk d (by rw [ha]; rfl)
        have hout : (d.isAlphanum || d = '+' || d = '-' || d = '.') = false := by
          rcases hd with rfl | rfl
          · decide
          · decide
        cases hs : isScheme (t ++ d :: a) with
        | false => rfl
        | true => exact absurd (by simp) (not_mem_of_isScheme hs hout)
    · cases a with
      | nil =>
        obtain rfl : ':' :: rest = k := ha
        exact absurd (hk ':' rfl) (by decide)
      | cons d a =>
        obtain ⟨rfl, -⟩ := List.cons.inj ha
        exact hno s a rfl

theorem cutAuthority_append :
    cutAuthority (t ++ k) = ((cutAuthority t).1, (cutAuthority t).2 ++ k) := by
  cases k with
  | nil => simp
  | cons c r =>
    have hc : c = '?' ∨ c = '#' := hk c rfl
    rcases cutAuthority_cases t with hno | ⟨a, rest, rfl, ha, hrest⟩
    · have hslash : c ≠ '/' := by rcases hc with rfl | rfl <;> decide
      rw [cutAuthority_of_not_isPrefix hno,
        cutAuthority_of_not_isPrefix (by rwa [slashes_isPrefix_iff hslash])]
    · have hends : endsAuthority c = true := by rcases hc with rfl | rfl <;> rfl
      rw [cutAuthority_written ha hrest, List.cons_append, List.cons_append, List.append_assoc]
      apply cutAuthority_written ha
      rcases hrest with rfl | ⟨d, s, rfl, hd⟩
      · exact .inr ⟨c, r, rfl, hends⟩
      · exact .inr ⟨d, s ++ c :: r, rfl, hd⟩

theorem afterAuthority_append : afterAuthority (t ++ k) = afterAuthority t ++ kept k := by
  have hkept := head?_kept hk
  rw [afterAuthority, clean_append hk, cutScheme_append hkept, cutAuthority_append hkept,
    afterAuthority]

end

/-! ## Reading -/

theorem pathOnly_afterAuthority {w : Text} (hw : PathOnly w) : PathOnly (afterAuthority w) := by
  have hmem {c : Char} (hc : c ∈ afterAuthority w) : c ∈ w := by
    have hclean : c ∈ clean w := mem_of_mem_cutScheme (mem_of_mem_cutAuthority (.inr hc))
    exact (List.dropWhile_sublist _).subset (List.mem_filter.1 hclean).1
  exact ⟨fun h => hw.1 (hmem h), fun h => hw.2 (hmem h)⟩

/-- All that follows the authority of a text without a query and a fragment is its path. -/
theorem path_eq_afterAuthority {w : Text} (hw : PathOnly w) :
    (Reference.parts w).path = afterAuthority w := by
  have hfree := pathOnly_afterAuthority hw
  rw [(parts_behind (List.append_nil (afterAuthority w)).symm hfree.1 hfree.2).1]
  exact List.append_nil _

section

variable {w k : Text} (hw : PathOnly w) (hk : ∀ c ∈ k.head?, c = '?' ∨ c = '#')
include hw hk

/-- A query and a fragment add themselves to the parts. -/
theorem parts_append : Reference.parts (w ++ k) = { Reference.parts w with
    query := (Text.cut '?' (Text.cut '#' (kept k)).1).2.getD []
    fragment := (Text.cut '#' (kept k)).2.getD [] } := by
  have hfree := pathOnly_afterAuthority hw
  have hkept := head?_kept hk
  have hnothing : (Text.cut '?' (Text.cut '#' (kept k)).1).1 = [] := by
    cases hk' : kept k with
    | nil => rfl
    | cons c r =>
      rw [hk'] at hkept
      rcases hkept c rfl with rfl | rfl
      · simp [Text.cut]
      · simp [Text.cut]
  obtain ⟨hpath, hquery, hfragment⟩ := parts_behind (afterAuthority_append (t := w) hk)
    hfree.1 hfree.2
  have hcuts : (Reference.parts (w ++ k)).scheme = (Reference.parts w).scheme ∧
      (Reference.parts (w ++ k)).authority = (Reference.parts w).authority := by
    unfold Reference.parts
    rw [clean_append hk, cutScheme_append hkept, cutAuthority_append hkept]
    exact ⟨rfl, rfl⟩
  have heta (r : Reference) : r = ⟨r.scheme, r.authority, r.path, r.query, r.fragment⟩ := rfl
  rw [heta (Reference.parts (w ++ k)), hcuts.1, hcuts.2, hpath, hquery, hfragment, hnothing,
    List.append_nil, ← path_eq_afterAuthority hw]

theorem ofText_append : Reference.ofText (w ++ k) = (Reference.ofText w).map fun r => { r with
    query := (Text.cut '?' (Text.cut '#' (kept k)).1).2.getD []
    fragment := (Text.cut '#' (kept k)).2.getD [] } := by
  have hof (t : Text) : Reference.ofText t =
      (Authority.validate (Reference.parts t).authority).map fun _ => Reference.parts t := rfl
  rw [hof, hof, parts_append hw hk]
  cases Authority.validate (Reference.parts w).authority with
  | error e => rfl
  | ok _ => rfl

/-- **A query and a fragment change nothing else**: the rest of the URL is the same, or the error
is. -/
theorem parse_append : parse (w ++ k) = (parse w).map fun u => { u with
    query := (Text.cut '?' (Text.cut '#' (kept k)).1).2.getD []
    fragment := (Text.cut '#' (kept k)).2.getD [] } := by
  have hslashes : ['/', '/'] <+: w ++ k ↔ ['/', '/'] <+: w := by
    cases k with
    | nil => rw [List.append_nil]
    | cons c r =>
      have hc : c ≠ '/' := by rcases hk c rfl with rfl | rfl <;> decide
      exact slashes_isPrefix_iff hc r
  unfold parse
  rw [ofText_append hw hk]
  cases Reference.ofText w with
  | error e => rfl
  | ok r =>
    have hauthority : authorityOf (w ++ k) { r with
        query := (Text.cut '?' (Text.cut '#' (kept k)).1).2.getD []
        fragment := (Text.cut '#' (kept k)).2.getD [] } = authorityOf w r := by
      simp only [authorityOf, hslashes]
    simp only [Except.map, bind, Except.bind, hauthority]
    cases (Authority.ofText (authorityOf w r)).portNumber with
    | error e => rfl
    | ok port => rfl

end

/-- **A query and a fragment are what counts behind their markers.** -/
theorem parse_append_tail {w q : Text} (hw : PathOnly w) (hq : '#' ∉ q) (f : Text) :
    parse (w ++ '?' :: (q ++ '#' :: f)) =
      (parse w).map fun u => { u with query := kept q, fragment := kept f } := by
  have hkept : kept ('?' :: (q ++ '#' :: f)) = '?' :: kept q ++ '#' :: kept f := by
    simp [kept, isSkipped]
  have hhash : '#' ∉ '?' :: kept q := by
    simp only [List.mem_cons, not_or]
    exact ⟨by decide, fun h => hq (List.mem_filter.1 h).1⟩
  have hquery : Text.cut '?' ('?' :: kept q) = ([], some (kept q)) :=
    Text.cut_some (a := []) (by simp) (kept q)
  rw [parse_append hw (by simp), hkept, Text.cut_some hhash, hquery]
  rfl

/-- A query behind such a text is its query, and nothing else changes. -/
theorem parse_append_query {w q : Text} {u : Url} (hw : PathOnly w) (hhash : '#' ∉ q)
    (hskip : ∀ c ∈ q, isSkipped c = false) (hu : parse w = .ok u) :
    parse (w ++ '?' :: q) = .ok { u with query := q, fragment := [] } := by
  have hkept : kept ('?' :: q) = '?' :: q := by
    apply List.filter_eq_self.2
    intro c hc
    rcases List.mem_cons.1 hc with rfl | hc
    · rfl
    · simp [hskip c hc]
  have hfragment : Text.cut '#' ('?' :: q) = ('?' :: q, none) :=
    Text.cut_none (by simpa using hhash)
  have hquery : Text.cut '?' ('?' :: q) = ([], some q) := Text.cut_some (a := []) (by simp) q
  rw [parse_append hw (by simp), hu, hkept, hfragment, hquery]
  rfl

end UrlRouting.Url
