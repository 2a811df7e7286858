import UrlRouting.Proofs.Text.Spelling
import UrlRouting.Proofs.Url.Reference
import UrlRouting.Proofs.Url.Rooted

/-!
# A place in the path of a text

Where a character of the path stands in the text that a URL is read from, and what changes when
escapes stand there instead: the path, and no other part. What is skipped in front of the path
or inside it stays skipped.

* `InPath before c after p q`: in `before ++ c :: after`, the character `c` stands in the path,
  between `p` and `q`. `exists_inPath`: every character of the path stands at such a place.
* `InPath.clean_eq`: what stands around the place counts as before.
* `cutScheme_replaced`, `cutAuthority_replaced`: scheme and authority are cut as before.
* `parse_respelled`: **escapes in place of a character of the path change the path only**.
-/

namespace UrlRouting.Url

open Text.Percent (octet? isUnreserved)

/-! ## Characters that count -/

/-- The characters of a text that count behind the first one. -/
def kept (t : Text) : Text := t.filter (!isSkipped ·)

theorem kept_cons {c : Char} (hc : isPathSafe c = true) (t : Text) : kept (c :: t) = c :: kept t :=
  List.filter_cons_of_pos (by simp [not_isSkipped_of_isPathSafe hc])

theorem kept_append_of_safe {m : Text} (hm : ∀ c ∈ m, isPathSafe c = true) (t : Text) :
    kept (m ++ t) = m ++ kept t := by
  have hself : kept m = m := by
    apply List.filter_eq_self.2
    intro c hc
    simp [not_isSkipped_of_isPathSafe (hm c hc)]
  rw [kept, List.filter_append, ← kept, ← kept, hself]

theorem clean_append_cons {before : Text} {c : Char} (hskip : isSkipped c = false)
    (h : ¬ c ≤ ' ' ∨ ∃ d ∈ before, ¬ d ≤ ' ') (after : Text) :
    clean (before ++ c :: after) = clean before ++ c :: kept after := by
  have hdrop : (before ++ c :: after).dropWhile (· ≤ ' ') =
      before.dropWhile (· ≤ ' ') ++ c :: after := by
    induction before with
    | nil =>
      have hc : ¬ c ≤ ' ' := h.resolve_right (by simp)
      exact List.dropWhile_cons_of_neg (by simpa using hc)
    | cons d before ih =>
      by_cases hd : d ≤ ' '
      · have hbefore : ¬ c ≤ ' ' ∨ ∃ d ∈ before, ¬ d ≤ ' ' := by
          rcases h with hc | ⟨e, he, hle⟩
          · exact .inl hc
          · rcases List.mem_cons.1 he with rfl | he
            · exact absurd hd hle
            · exact .inr ⟨e, he, hle⟩
        rw [List.cons_append, List.dropWhile_cons_of_pos (by simpa using hd), ih hbefore,
          List.dropWhile_cons_of_pos (by simpa using hd)]
      · rw [List.cons_append, List.dropWhile_cons_of_neg (by simpa using hd),
          List.dropWhile_cons_of_neg (by simpa using hd)]
        rfl
  have hkept : kept (c :: after) = c :: kept after := List.filter_cons_of_pos (by simp [hskip])
  rw [clean, hdrop, List.filter_append]
  exact congrArg (clean before ++ ·) hkept

theorem clean_around {c : Char} (hc : isPathSafe c = true) (before after : Text) :
    clean (before ++ c :: after) = clean before ++ c :: kept after :=
  clean_append_cons (not_isSkipped_of_isPathSafe hc) (.inl (space_lt_of_isPathSafe hc)) after

/-! ## The cuts around a place -/

theorem cutAuthority_isSuffix (t : Text) : (cutAuthority t).2 <:+ t := by
  rcases cutAuthority_cases t with h | ⟨a, rest, rfl, ha, hrest⟩
  · simp only [cutAuthority_of_not_isPrefix h, List.suffix_rfl]
  · rw [cutAuthority_written ha hrest]
    exact ⟨'/' :: '/' :: a, rfl⟩

theorem cutScheme_isSuffix (t : Text) : (cutScheme t).2 <:+ t := by
  rcases cutScheme_cases t with ⟨s, rest, hs, rfl⟩ | h
  · rw [cutScheme_of_isScheme hs]
    exact ⟨s ++ [':'], by simp⟩
  · simp only [cutScheme_of_not_isScheme h, List.suffix_rfl]

section

variable {r k m : Text} {c : Char}

theorem cutScheme_replaced {f : Text} (h : (cutScheme (f ++ c :: k)).2 = r ++ c :: k) :
    cutScheme (f ++ '%' :: m) = ((cutScheme (f ++ c :: k)).1, r ++ '%' :: m) := by
  rcases cutScheme_cases (f ++ c :: k) with ⟨s, rest, hs, ht⟩ | hno
  · rw [ht, cutScheme_of_isScheme hs] at h ⊢
    obtain rfl : rest = r ++ c :: k := h
    have hf : f ++ c :: k = (s ++ ':' :: r) ++ c :: k := by simpa using ht
    rw [List.append_cancel_right hf, List.append_assoc, List.cons_append, cutScheme_of_isScheme hs]
  · rw [cutScheme_of_not_isScheme hno] at h ⊢
    obtain rfl : f = r := List.append_cancel_right h
    refine cutScheme_of_not_isScheme fun s rest ht => ?_
    rcases List.append_eq_append_iff.1 ht with ⟨a, rfl, ha⟩ | ⟨a, rfl, ha⟩
    · cases hs : isScheme (f ++ a) with
      | false => rfl
      | true =>
        cases a with
        | nil => cases (List.cons.inj ha).1
        | cons d a =>
          obtain rfl := (List.cons.inj ha).1
          exact absurd (by simp) (not_mem_of_isScheme hs (d := '%') (by decide))
    · cases a with
      | nil => cases (List.cons.inj ha).1
      | cons d a =>
        obtain rfl := (List.cons.inj ha).1
        exact hno s (a ++ c :: k) (by simp)

theorem cutAuthority_replaced {p : Text} (hc : endsAuthority c = false)
    (h : (cutAuthority (r ++ c :: k)).2 = p ++ c :: k) :
    cutAuthority (r ++ '%' :: m) = ((cutAuthority (r ++ c :: k)).1, p ++ '%' :: m) := by
  have hslash : c ≠ '/' := by
    rintro rfl
    cases hc
  rcases cutAuthority_cases (r ++ c :: k) with hno | ⟨a, rest, ht, ha, hrest⟩
  · rw [cutAuthority_of_not_isPrefix hno] at h ⊢
    obtain rfl : r = p := List.append_cancel_right h
    rw [slashes_isPrefix_iff hslash] at hno
    apply cutAuthority_of_not_isPrefix
    rwa [slashes_isPrefix_iff (by decide)]
  · rw [ht, cutAuthority_written ha hrest] at h ⊢
    obtain rfl : rest = p ++ c :: k := h
    have hr : r ++ c :: k = ('/' :: '/' :: (a ++ p)) ++ c :: k := by simpa using ht
    rw [List.append_cancel_right hr, List.cons_append, List.cons_append, List.append_assoc]
    refine cutAuthority_written ha (.inr ?_)
    cases p with
    | nil =>
      rcases hrest with hrest | ⟨d, t, hrest, hd⟩
      · cases hrest
      · rw [← (List.cons.inj hrest).1, hc] at hd
        cases hd
    | cons e p =>
      rcases hrest with hrest | ⟨d, t, hrest, hd⟩
      · cases hrest
      · rw [← (List.cons.inj hrest).1] at hd
        exact ⟨e, _, rfl, hd⟩

end

/-! ## A place in the path -/

/-- In `before ++ c :: after`, the character `c` stands in the path: what follows the authority
starts with `p`, this `c` and all of `after` that counts, and the path is `p ++ c :: q`. -/
structure InPath (before : Text) (c : Char) (after p q : Text) : Prop where
  afterAuthority : afterAuthority (before ++ c :: after) = p ++ c :: kept after
  path : (Reference.parts (before ++ c :: after)).path = p ++ c :: q

/-- Every character of the path stands at such a place. -/
theorem exists_inPath {t p q : Text} {c : Char} (h : (Reference.parts t).path = p ++ c :: q) :
    ∃ before after, t = before ++ c :: after ∧ InPath before c after p q := by
  have hprefix : (Reference.parts t).path <+: afterAuthority t :=
    (Text.cut_isPrefix '?' _).trans (Text.cut_isPrefix '#' _)
  have hsuffix : afterAuthority t <:+ clean t :=
    (cutAuthority_isSuffix _).trans (cutScheme_isSuffix _)
  obtain ⟨k, hk⟩ := hprefix
  obtain ⟨front, hfront⟩ := hsuffix
  rw [h, List.append_assoc, List.cons_append] at hk
  rw [← hk, clean] at hfront
  obtain ⟨l, l', hdrop, -, hl'⟩ := List.filter_eq_append_iff.1 hfront.symm
  obtain ⟨l₁, l₂, rfl, -, hl₂⟩ := List.filter_eq_append_iff.1 hl'
  obtain ⟨m, after, rfl, -, -, hafter⟩ := List.filter_eq_cons_iff.1 hl₂
  have ht : t = (t.takeWhile (· ≤ ' ') ++ (l ++ (l₁ ++ m))) ++ c :: after := by
    conv_lhs => rw [← List.takeWhile_append_dropWhile (p := (· ≤ ' ')) (l := t), hdrop]
    simp
  refine ⟨_, after, ht, ?_, ?_⟩
  · rw [← ht, ← hk, kept, hafter]
  · rw [← ht, h]

theorem free_of_path (t : Text) :
    '?' ∉ (Reference.parts t).path ∧ '#' ∉ (Reference.parts t).path :=
  ⟨Text.not_mem_cut '?' _,
    fun h => Text.not_mem_cut '#' (afterAuthority t) (Text.mem_of_mem_cut '?' _ (.inl h))⟩

theorem parts_behind {t w k : Text} (h : afterAuthority t = w ++ k) (hquery : '?' ∉ w)
    (hhash : '#' ∉ w) :
    (Reference.parts t).path = w ++ (Text.cut '?' (Text.cut '#' k).1).1 ∧
      (Reference.parts t).query = (Text.cut '?' (Text.cut '#' k).1).2.getD [] ∧
      (Reference.parts t).fragment = (Text.cut '#' k).2.getD [] := by
  simp only [Reference.parts, h, Text.cut_append hhash, Text.cut_append hquery, and_self]

section

variable {before after p q : Text} {c : Char} (hplace : InPath before c after p q)
include hplace

theorem InPath.clean_eq : clean (before ++ c :: after) = clean before ++ c :: kept after := by
  have hsuffix : p ++ c :: kept after <:+ clean (before ++ c :: after) := by
    rw [← hplace.afterAuthority]
    exact (cutAuthority_isSuffix _).trans (cutScheme_isSuffix _)
  have hskip : isSkipped c = false := by
    have hmem : c ∈ clean (before ++ c :: after) := hsuffix.subset (by simp)
    simpa using (List.mem_filter.1 hmem).2
  refine clean_append_cons hskip ?_ after
  by_contra hdropped
  have hle : ∀ d ∈ before ++ [c], d ≤ ' ' := by
    simp only [not_or, not_exists, not_and, Classical.not_not] at hdropped
    intro d hd
    rcases List.mem_append.1 hd with hd | hd
    · exact hdropped.2 d hd
    · rw [List.mem_singleton.1 hd]
      exact hdropped.1
  -- then `c` would be dropped in front, and the text too short to hold it
  have hclean : clean (before ++ c :: after) = clean after := by
    rw [clean, List.append_cons, List.dropWhile_append_of_pos (by simpa using hle), clean]
  have hlength : (clean after).length ≤ (kept after).length :=
    ((List.dropWhile_sublist (p := (· ≤ ' '))).filter (!isSkipped ·)).length_le
  have hlonger := hsuffix.length_le
  rw [hclean, List.length_append, List.length_cons] at hlonger
  omega

theorem InPath.endsAuthority_eq_false (hc : c ≠ '/') : endsAuthority c = false := by
  obtain ⟨hquery, hhash⟩ := free_of_path (before ++ c :: after)
  rw [hplace.path] at hquery hhash
  have hne : c ≠ '?' ∧ c ≠ '#' := by
    constructor
    · rintro rfl
      exact hquery (by simp)
    · rintro rfl
      exact hhash (by simp)
  simp [endsAuthority, hc, hne.1, hne.2]

end

section

variable {before after p q m : Text} {c : Char} (hplace : InPath before c after p q)
  (hc : c ≠ '/') (hm : ∀ d ∈ m, isPathSafe d = true)
include hplace hc hm

theorem cuts_replaced :
    (Reference.parts (before ++ '%' :: (m ++ after))).scheme =
        (Reference.parts (before ++ c :: after)).scheme ∧
      (Reference.parts (before ++ '%' :: (m ++ after))).authority =
        (Reference.parts (before ++ c :: after)).authority ∧
      afterAuthority (before ++ '%' :: (m ++ after)) = p ++ '%' :: (m ++ kept after) := by
  have hends := hplace.endsAuthority_eq_false hc
  have hclean := hplace.clean_eq
  have hclean' : clean (before ++ '%' :: (m ++ after)) =
      clean before ++ '%' :: (m ++ kept after) := by
    rw [clean_around (by decide), kept_append_of_safe hm]
  have hafter := hplace.afterAuthority
  unfold Reference.parts afterAuthority at *
  rw [hclean] at hafter ⊢
  rw [hclean']
  obtain ⟨r, hr⟩ := cutAuthority_isSuffix (cutScheme (clean before ++ c :: kept after)).2
  rw [hafter, ← List.append_assoc] at hr
  rw [← hr] at hafter ⊢
  rw [cutScheme_replaced hr.symm, cutAuthority_replaced hends hafter]
  exact ⟨rfl, rfl, rfl⟩

/-- **Escapes in place of a character of the path change no other part.** -/
theorem parts_replaced : Reference.parts (before ++ '%' :: (m ++ after)) =
    { Reference.parts (before ++ c :: after) with path := p ++ '%' :: (m ++ q) } := by
  obtain ⟨hscheme, hauthority, hafter⟩ := cuts_replaced hplace hc hm
  obtain ⟨hquery, hhash⟩ := free_of_path (before ++ c :: after)
  rw [hplace.path, List.append_cons, List.mem_append, not_or] at hquery hhash
  have hbefore := parts_behind (w := p ++ [c]) (by simpa using hplace.afterAuthority)
    hquery.1 hhash.1
  have free {d : Char} (hd : isPathSafe d = false) (hp : d ∉ p ++ [c]) : d ∉ p ++ '%' :: m := by
    intro hmem
    rcases List.mem_append.1 hmem with hmem | hmem
    · exact hp (List.mem_append_left _ hmem)
    · rcases List.mem_cons.1 hmem with rfl | hmem
      · cases hd
      · rw [hm d hmem] at hd
        cases hd
  have hbehind := parts_behind (w := p ++ '%' :: m) (by simpa using hafter)
    (free (by decide) hquery.1) (free (by decide) hhash.1)
  have hq : q = (Text.cut '?' (Text.cut '#' (kept after)).1).1 := by
    have hpath := hplace.path.symm.trans hbefore.1
    rw [List.append_cons] at hpath
    exact List.append_cancel_left hpath
  have heta (r : Reference) : r = ⟨r.scheme, r.authority, r.path, r.query, r.fragment⟩ := rfl
  rw [heta (Reference.parts (before ++ '%' :: (m ++ after))), hscheme, hauthority, hbehind.1,
    hbehind.2.1, hbehind.2.2, ← hq, ← hbefore.2.1, ← hbefore.2.2, List.append_assoc]
  rfl

end

/-! ## Reading -/

/-- A path is completed by a slash in front, or not at all, whatever stands at a place. -/
theorem pathOf_around (r : Reference) (p : Text) : ∃ lead, (lead = [] ∨ lead = ['/']) ∧
    ∀ c k, c ≠ '/' → pathOf { r with path := p ++ c :: k } = lead ++ (p ++ c :: k) := by
  have hhead {c : Char} (hc : c ≠ '/') (k : Text) :
      (p ++ c :: k).head? = some '/' ↔ p.head? = some '/' := by
    cases p with
    | nil => simp [hc]
    | cons d p => simp
  by_cases h : r.scheme = [] ∧ p.head? ≠ some '/'
  · refine ⟨['/'], .inr rfl, fun c k hc => ?_⟩
    exact if_pos ⟨h.1, fun hp => h.2 ((hhead hc k).1 hp)⟩
  · refine ⟨[], .inl rfl, fun c k hc => ?_⟩
    unfold pathOf
    rw [if_neg fun hr => h ⟨hr.1, fun hp => hr.2 ((hhead hc k).2 hp)⟩, if_neg fun hr => ?_]
    · rfl
    · simp at hr

section

variable {before after p q : Text} {c : Char} {u : Url} (hplace : InPath before c after p q)
include hplace

/-- **Escapes in place of a character of the path change the path only.** -/
theorem parse_respelled {m : Text} (hc : c ≠ '/') (hm : ∀ d ∈ m, isPathSafe d = true)
    (hu : parse (before ++ c :: after) = .ok u) :
    ∃ lead, (lead = [] ∨ lead = ['/']) ∧
      u.pathname = Path.escape (Path.removeDots (lead ++ (p ++ c :: q))) ∧
      parse (before ++ '%' :: (m ++ after)) = .ok { u with
        pathname := Path.escape (Path.removeDots (lead ++ (p ++ '%' :: (m ++ q)))) } := by
  obtain ⟨r, port, hr, hport, rfl⟩ := parse_eq_ok_iff.1 hu
  obtain ⟨hvalid, hparts⟩ := Reference.ofText_eq_ok_iff.1 hr
  have hreplaced := parts_replaced hplace hc hm
  rw [← hparts] at hreplaced
  obtain ⟨lead, hlead, hpath⟩ := pathOf_around r p
  have hauthority : authorityOf (before ++ '%' :: (m ++ after))
      { r with path := p ++ '%' :: (m ++ q) } = authorityOf (before ++ c :: after) r := by
    have hpercent : '%' ≠ '/' := by decide
    simp only [authorityOf, slashes_isPrefix_iff hc, slashes_isPrefix_iff hpercent]
  have hr' : r = { r with path := p ++ c :: q } := by
    rw [← hplace.path, ← hparts]
  refine ⟨lead, hlead, ?_, parse_eq_ok_iff.2 ⟨{ r with path := p ++ '%' :: (m ++ q) }, port,
    Reference.ofText_eq_ok_iff.2 ⟨hvalid, hreplaced.symm⟩, ?_, ?_⟩⟩
  · have hold := hpath c q hc
    rw [← hr'] at hold
    rw [← hold]
    rfl
  · rw [hauthority]
    exact hport
  · rw [← hpath '%' (m ++ q) (by decide)]
    simp only [resolved, hauthority]
    rfl

theorem hasScheme_respelled {m : Text} (hc : c ≠ '/') (hm : ∀ d ∈ m, isPathSafe d = true)
    (hu : parse (before ++ c :: after) = .ok u) :
    hasScheme (before ++ '%' :: (m ++ after)) = hasScheme (before ++ c :: after) := by
  obtain ⟨r, port, hr, hport, rfl⟩ := parse_eq_ok_iff.1 hu
  obtain ⟨hvalid, hparts⟩ := Reference.ofText_eq_ok_iff.1 hr
  have hreplaced := parts_replaced hplace hc hm
  rw [← hparts] at hreplaced
  have hr' : Reference.ofText (before ++ '%' :: (m ++ after)) =
      .ok { r with path := p ++ '%' :: (m ++ q) } :=
    Reference.ofText_eq_ok_iff.2 ⟨hvalid, hreplaced.symm⟩
  simp only [hasScheme, hr, hr']

end

end UrlRouting.Url
