import UrlRouting.Proofs.Url.BehindPath
import UrlRouting.Proofs.Url.Spelling

/-!
# Texts behind a slash

What path a text has when it is read behind a slash. It may hold dot segments and further slashes,
two slashes in front stand before an authority, and skipped characters do not count.

* `Path.stayed`: the segments that stay when the dot segments are resolved. `stayed_isSuffix`:
  **the last ones stay, whatever stands before them**.
* `exists_parse_behind_slash`: a query and a fragment behind the text do not change its path.
* `pathname_behind_slash`: the path is that of the text, or of what stands behind its authority.
* `last_mem_segments`: the last segment as it is written stays in the path, if there is any
  segment at all.
* `pathname_of_one_segment`: a text without a slash is the only segment.
* `segments_behind_char`: the only segment of a text, and the only one of the same text behind
  other characters.
-/

namespace UrlRouting

namespace Path

/-! ## Segments that stay -/

/-- The segments that stay once the dot segments are resolved. -/
def stayed (ts : List Text) : List Text := (resolveAfter [] ts).filter (· ≠ [])

theorem segments_resolved (t : Text) : segments (escape (removeDots ('/' :: t))) =
    (stayed (t.splitOn '/')).map escape := by
  rw [segments_escape, removeDots, segments_cons_slash,
    segments_join (slash_not_mem_resolveAfter t), stayed]

theorem segments_of_slash_not_mem {s : Text} (hne : s ≠ []) (h : '/' ∉ s) :
    segments ('/' :: escape s) = [escape s] := by
  rw [segments_cons_slash, segments_escape, segments, List.splitOn_eq_singleton h]
  simp [hne]

theorem filter_resolveAfter_closed (kept rest : List Text) :
    (resolveAfter (closed kept rest) rest).filter (· ≠ []) =
      (resolveAfter kept rest).filter (· ≠ []) := by
  cases rest with
  | nil => simp [resolveAfter, closed]
  | cons => rfl

theorem filter_resolveAfter_here (kept rest : List Text) :
    (resolveAfter kept (here :: rest)).filter (· ≠ []) =
      (resolveAfter kept rest).filter (· ≠ []) := by
  rw [resolveAfter_here, filter_resolveAfter_closed]

theorem filter_resolveAfter_up (kept rest : List Text) :
    (resolveAfter kept (up :: rest)).filter (· ≠ []) =
      (resolveAfter kept.tail rest).filter (· ≠ []) := by
  rw [resolveAfter_up, filter_resolveAfter_closed]

theorem stayed_cons_of_isDot {s : Text} (h : IsDot s) (rest : List Text) :
    stayed (s :: rest) = stayed rest := by
  rcases h with rfl | rfl
  · exact filter_resolveAfter_here [] rest
  · exact filter_resolveAfter_up [] rest

/-- Segments drop some of those before them, the same number whatever these are. -/
theorem exists_drop (ts : List Text) : ∃ n, ∀ kept : List Text,
    (resolveAfter kept ts).filter (· ≠ []) =
      (kept.drop n).reverse.filter (· ≠ []) ++ stayed ts := by
  induction ts with
  | nil => exact ⟨0, fun kept => by simp [resolveAfter, stayed]⟩
  | cons s rest ih =>
    obtain ⟨n, hn⟩ := ih
    by_cases hdot : IsDot s
    · rw [stayed_cons_of_isDot hdot]
      rcases hdot with rfl | rfl
      · exact ⟨n, fun kept => by rw [filter_resolveAfter_here, hn]⟩
      · exact ⟨n + 1, fun kept => by rw [filter_resolveAfter_up, hn, List.drop_tail]⟩
    · have hs : stayed (s :: rest) = ([s].drop n).reverse.filter (· ≠ []) ++ stayed rest := by
        rw [stayed, resolveAfter_cons_of_not_isDot hdot, hn]
      -- a segment that goes up drops this one first
      cases n with
      | zero =>
        refine ⟨0, fun kept => ?_⟩
        rw [resolveAfter_cons_of_not_isDot hdot, hn, hs]
        simp
      | succ n =>
        refine ⟨n, fun kept => ?_⟩
        rw [resolveAfter_cons_of_not_isDot hdot, hn, hs]
        simp

theorem exists_resolveAfter_append (before kept : List Text) : ∃ kept', ∀ t ts,
    resolveAfter kept (before ++ t :: ts) = resolveAfter kept' (t :: ts) := by
  induction before generalizing kept with
  | nil => exact ⟨kept, fun t ts => rfl⟩
  | cons s before ih =>
    have hlast (kept : List Text) (t : Text) (ts : List Text) :
        closed kept (before ++ t :: ts) = kept := if_neg (by simp)
    rcases here_or_up_or_not_isDot s with rfl | rfl | hdot
    · obtain ⟨kept', h⟩ := ih kept
      refine ⟨kept', fun t ts => ?_⟩
      rw [← h, List.cons_append, resolveAfter_here, hlast]
    · obtain ⟨kept', h⟩ := ih kept.tail
      refine ⟨kept', fun t ts => ?_⟩
      rw [← h, List.cons_append, resolveAfter_up, hlast]
    · obtain ⟨kept', h⟩ := ih (s :: kept)
      refine ⟨kept', fun t ts => ?_⟩
      rw [← h, List.cons_append, resolveAfter_cons_of_not_isDot hdot]

/-- **What stays of the last segments stays behind any others.** -/
theorem stayed_isSuffix (before ts : List Text) : stayed ts <:+ stayed (before ++ ts) := by
  cases ts with
  | nil => exact List.nil_suffix
  | cons t ts =>
    obtain ⟨kept, hkept⟩ := exists_resolveAfter_append before []
    obtain ⟨n, hn⟩ := exists_drop (t :: ts)
    rw [stayed.eq_def (before ++ t :: ts), hkept, hn]
    exact List.suffix_append _ _

/-- If one segment stays, and one behind another head, they are the same or the two heads. -/
theorem eq_or_eq_of_stayed {before rest : List Text} {q h z s : Text} (hq : ¬ IsDot q)
    (hne : q ≠ []) (hz : stayed (before ++ q :: rest) = [z]) (hs : stayed (h :: rest) = [s]) :
    z = s ∨ z = q ∧ s = h := by
  obtain ⟨kept, hkept⟩ := exists_resolveAfter_append before []
  obtain ⟨n, hn⟩ := exists_drop rest
  rw [stayed, hkept, resolveAfter_cons_of_not_isDot hq, hn] at hz
  cases hrest : stayed rest with
  | cons x xs =>
    left
    obtain ⟨y, hy⟩ := stayed_isSuffix [h] rest
    rw [List.singleton_append, hs, hrest] at hy
    rw [hrest] at hz
    have hzx := (List.append_eq_singleton_iff.1 hz).resolve_right (by simp)
    have hsx := (List.append_eq_singleton_iff.1 hy).resolve_right (by simp)
    exact List.singleton_inj.1 (hzx.2.symm.trans hsx.2)
  | nil =>
    right
    have hh : ¬ IsDot h := by
      intro hdot
      rw [stayed_cons_of_isDot hdot, hrest] at hs
      cases hs
    rw [stayed, resolveAfter_cons_of_not_isDot hh, hn, hrest, List.append_nil] at hs
    rw [hrest, List.append_nil] at hz
    -- the head stays, so that nothing before the rest is dropped
    cases n with
    | succ n => simp at hs
    | zero =>
      rw [List.drop_zero, List.reverse_cons, List.filter_append,
        List.filter_cons_of_pos (by simpa using hne)] at hz
      have hqz := (List.append_eq_singleton_iff.1 hz).resolve_right (by simp)
      refine ⟨(List.singleton_inj.1 hqz.2).symm, ?_⟩
      have hsh : s ∈ [h].filter (· ≠ []) := by
        rw [List.drop_zero, List.reverse_singleton] at hs
        rw [hs]
        exact List.mem_cons_self
      exact List.mem_singleton.1 (List.mem_filter.1 hsh).1

end Path

namespace Url

/-! ## Behind a slash -/

theorem cutScheme_behind_slash (w : Text) : cutScheme (clean ('/' :: w)) = ([], '/' :: kept w) := by
  have hclean : clean ('/' :: w) = '/' :: kept w := clean_around (by decide) [] w
  rw [hclean, cutScheme_rooted]

theorem hasScheme_behind_slash (w : Text) : hasScheme ('/' :: w) = false := by
  unfold hasScheme
  split
  · rename_i r hr
    obtain rfl := (Reference.ofText_eq_ok_iff.1 hr).2
    have hscheme : (Reference.parts ('/' :: w)).scheme = [] :=
      congrArg Prod.fst (cutScheme_behind_slash w)
    rw [hscheme]
    rfl
  · rfl

/-! ## The path behind a slash -/

section

variable {w : Text} (hw : PathOnly w)
include hw

theorem path_behind_slash :
    (Reference.parts ('/' :: w)).path = (cutAuthority ('/' :: kept w)).2 := by
  rw [path_eq_afterAuthority (pathOnly_cons (by decide) hw), afterAuthority, cutScheme_behind_slash]

/-- **A query and a fragment do not change the path.** -/
theorem exists_parse_behind_slash {k : Text} (hk : ∀ c ∈ k.head?, c = '?' ∨ c = '#') {u : Url}
    (h : parse ('/' :: (w ++ k)) = .ok u) :
    ∃ v, parse ('/' :: w) = .ok v ∧ v.pathname = u.pathname := by
  rw [← List.cons_append, parse_append (pathOnly_cons (by decide) hw) hk] at h
  cases hv : parse ('/' :: w) with
  | error e =>
    rw [hv] at h
    cases h
  | ok v =>
    rw [hv] at h
    obtain rfl := Except.ok.inj h
    exact ⟨v, rfl, rfl⟩

variable {u : Url} (h : parse ('/' :: w) = .ok u)
include h

/-- The path is that of the text, or of what stands behind its authority. -/
theorem pathname_behind_slash : ∃ t, u.pathname = Path.escape (Path.removeDots ('/' :: t)) ∧
    (t = kept w ∨ (kept w).head? = some '/' ∧ (t = [] ∨ ∃ x, kept w = x ++ '/' :: t)) := by
  have hscheme : (Reference.parts ('/' :: w)).scheme = [] :=
    congrArg Prod.fst (cutScheme_behind_slash w)
  have hpath := path_behind_slash hw
  obtain ⟨r, hr, hpathname⟩ := pathname_of_parse h
  obtain rfl := (Reference.ofText_eq_ok_iff.1 hr).2
  have rooted {t : Text} (ht : (cutAuthority ('/' :: kept w)).2 = '/' :: t) :
      pathOf (Reference.parts ('/' :: w)) = '/' :: t := by
    rw [← hpath] at ht
    simp [pathOf, ht]
  rw [hpathname]
  rcases cutAuthority_cases ('/' :: kept w) with hno | ⟨a, rest, heq, ha, hrest⟩
  · refine ⟨kept w, ?_, .inl rfl⟩
    rw [rooted (by rw [cutAuthority_of_not_isPrefix hno])]
  · have hkept : kept w = '/' :: (a ++ rest) := (List.cons.inj heq).2
    have hcut := cutAuthority_written ha hrest
    rw [← heq] at hcut
    rcases hrest with rfl | ⟨c, r, rfl, hc⟩
    · refine ⟨[], ?_, .inr ⟨by rw [hkept]; rfl, .inl rfl⟩⟩
      have hnil : (Reference.parts ('/' :: w)).path = [] := by rw [hpath, hcut]
      simp [pathOf, hscheme, hnil]
    · have hslash : c = '/' := by
        have hm : c ∈ w := (List.mem_filter.1 (show c ∈ kept w by simp [hkept])).1
        simp only [endsAuthority, Bool.or_eq_true, decide_eq_true_eq] at hc
        rcases hc with (hc | rfl) | rfl
        · exact hc
        · exact absurd hm hw.1
        · exact absurd hm hw.2
      subst hslash
      refine ⟨r, ?_, .inr ⟨by rw [hkept]; rfl, .inr ⟨'/' :: a, hkept⟩⟩⟩
      rw [rooted (by rw [hcut])]

theorem last_mem_segments {s : Text} (hlast : (Text.cutLast '/' (kept w)).2 = s) (hne : s ≠ [])
    (hdot : ¬ Path.IsDot s) :
    Path.segments u.pathname = [] ∨ Path.escape s ∈ Path.segments u.pathname := by
  obtain ⟨t, hpath, ht⟩ := pathname_behind_slash hw h
  have stays (ht : (Text.cutLast '/' t).2 = s) :
      Path.escape s ∈ Path.segments u.pathname := by
    obtain ⟨init, hsplit⟩ := Text.splitOn_eq_concat '/' t
    have hs : Path.stayed [s] = [s] := by
      rw [Path.stayed, Path.resolveAfter_cons_of_not_isDot hdot]
      simpa [Path.resolveAfter] using hne
    rw [hpath, Path.segments_resolved, hsplit, ht]
    apply List.mem_map_of_mem
    apply (Path.stayed_isSuffix init [s]).subset
    rw [hs]
    exact List.mem_cons_self
  rcases ht with rfl | ⟨-, rfl | ⟨x, hx⟩⟩
  · exact .inr (stays hlast)
  · left
    rw [hpath]
    rfl
  · right
    apply stays
    rwa [hx, Text.cutLast_append_cons] at hlast

theorem pathname_of_one_segment (hslash : '/' ∉ kept w) (hne : Path.segments u.pathname ≠ []) :
    u.pathname = '/' :: Path.escape (kept w) := by
  obtain ⟨t, hpath, ht⟩ := pathname_behind_slash hw h
  obtain rfl : t = kept w := by
    rcases ht with ht | ⟨hhead, -⟩
    · exact ht
    · exact absurd (List.mem_of_head? hhead) hslash
  have hsplit := List.splitOn_eq_singleton hslash
  have hdot : ¬ Path.IsDot (kept w) := by
    intro hdot
    apply hne
    rw [hpath, Path.segments_resolved, hsplit, Path.stayed_cons_of_isDot hdot]
    rfl
  rw [hpath, Path.removeDots_eq_self (by rw [hsplit]; simpa using hdot)]
  rfl

end

/-- **A segment of a text behind a character is one of the text**, or goes on in front of it. -/
theorem segments_behind_char {y w : Text} {d : Char} (hd : d ≠ '/') (hdot : d ≠ '.')
    (hfirst : (kept (y ++ d :: w)).head? ≠ some '/') (hskip : isSkipped d = false) {u v : Url}
    (hu : parse ('/' :: (y ++ d :: w)) = .ok u) (hv : parse ('/' :: w) = .ok v)
    (hyw : PathOnly (y ++ d :: w)) (hw : PathOnly w) {z s : Text}
    (hz : Path.segments u.pathname = [z]) (hs : Path.segments v.pathname = [s]) :
    z = s ∨ ∃ x h, z = Path.escape (x ++ d :: h) ∧ s = Path.escape h := by
  obtain ⟨t, hpath, ht⟩ := pathname_behind_slash hyw hu
  obtain rfl := ht.resolve_right fun ht => hfirst ht.1
  have hkept : kept (y ++ d :: w) = kept y ++ d :: kept w := by simp [kept, hskip]
  rw [hpath, Path.segments_resolved, hkept] at hz
  obtain ⟨t, hpath', ht⟩ := pathname_behind_slash hw hv
  rw [hpath', Path.segments_resolved] at hs
  obtain ⟨z, hzs, rfl⟩ := List.map_eq_singleton_iff.1 hz
  obtain ⟨s, hss, rfl⟩ := List.map_eq_singleton_iff.1 hs
  rcases ht with rfl | ⟨-, rfl | ⟨x, hx⟩⟩
  · obtain ⟨before, x, h, after, hsplit, hsplit'⟩ :=
      Path.exists_splitOn_append_cons (kept y) (kept w) hd
    rw [hsplit'] at hzs
    rw [hsplit] at hss
    have hq : ¬ Path.IsDot (x ++ d :: h) := Path.not_isDot_of_mem hdot (by simp)
    rcases Path.eq_or_eq_of_stayed hq (by simp) hzs hss with rfl | ⟨rfl, rfl⟩
    · exact .inl rfl
    · exact .inr ⟨x, s, rfl, rfl⟩
  · cases hss
  · left
    rw [hx, ← List.cons_append, ← List.append_assoc, List.splitOn_append_cons_self] at hzs
    obtain ⟨r, hr⟩ := Path.stayed_isSuffix ((kept y ++ d :: x).splitOn '/') (t.splitOn '/')
    rw [hzs, hss] at hr
    rw [List.singleton_inj.1 ((List.append_eq_singleton_iff.1 hr).resolve_right (by simp)).2]

end Url

end UrlRouting
