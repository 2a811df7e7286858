import Mathlib.Data.List.Forall2
import UrlRouting.Proofs.Text.Decoding
import UrlRouting.Proofs.Url.Address
import UrlRouting.Proofs.Url.Rooted

/-!
# Spellings of a path

Dot segments are resolved in a path as it is written, and then every segment is compared as it
decodes. Two spellings of one segment therefore make the same path, unless one of them is a dot
segment.

* `segmentAround p w q`: the segment that `w` is part of between `p` and `q`.
* `forall₂_resolveAfter`: lists that agree segment by segment are resolved to lists that do.
* `forall₂_removeDots`: only the segment around a place depends on what stands there.
* `normalForm_respelled`: **a character and its escape stand for the same path**.
-/

namespace UrlRouting

open Text.Percent (InEscape octet? isUnreserved decode decode? unread)

namespace Path

/-! ## The segment around a place -/

/-- The segment that `w` is part of between `p` and `q`, if it holds no slash. -/
def segmentAround (p w q : Text) : Text :=
  (Text.cutLast '/' p).2 ++ (w ++ (Text.cut '/' q).1)

theorem splitOn_append_left (q : Text) : ∃ after : List Text, ∀ w : Text, '/' ∉ w →
    (w ++ q).splitOn '/' = (w ++ (Text.cut '/' q).1) :: after := by
  by_cases h : '/' ∈ q
  · obtain ⟨s, rest, rfl, hs⟩ := List.eq_append_cons_of_mem h
    refine ⟨rest.splitOn '/', fun w hw => ?_⟩
    have hws : '/' ∉ w ++ s := by simp [hw, hs]
    rw [Text.cut_some hs, ← List.append_assoc, List.splitOn_append_cons_self_of_not_mem hws]
  · refine ⟨[], fun w hw => ?_⟩
    have hwq : '/' ∉ w ++ q := by simp [hw, h]
    rw [Text.cut_none h, List.splitOn_eq_singleton hwq]

/-- The last segment of a text goes on in the text behind it. -/
theorem splitOn_append_right (p : Text) : ∃ before : List Text, ∀ t : Text,
    (p ++ t).splitOn '/' = before ++ ((Text.cutLast '/' p).2 ++ t).splitOn '/' := by
  by_cases h : '/' ∈ p
  · obtain ⟨x, s, rfl, hs⟩ := Text.exists_last_cut h
    refine ⟨x.splitOn '/', fun t => ?_⟩
    rw [Text.cutLast_some hs, List.append_assoc, List.cons_append, List.splitOn_append_cons_self]
  · refine ⟨[], fun t => ?_⟩
    rw [Text.cutLast_none h]
    rfl

/-- What stands between two places is part of one segment, if it holds no slash. -/
theorem splitOn_around (p q : Text) : ∃ before after : List Text, ∀ w : Text, '/' ∉ w →
    (p ++ (w ++ q)).splitOn '/' = before ++ segmentAround p w q :: after := by
  obtain ⟨after, hafter⟩ := splitOn_append_left q
  obtain ⟨before, hbefore⟩ := splitOn_append_right p
  refine ⟨before, after, fun w hw => ?_⟩
  have hpw : '/' ∉ (Text.cutLast '/' p).2 ++ w := by simp [Text.not_mem_cutLast, hw]
  rw [hbefore, ← List.append_assoc, hafter _ hpw, List.append_assoc, segmentAround]

/-- A segment that goes on behind a character is the head of the segments behind it. -/
theorem exists_splitOn_append_cons (p q : Text) {c : Char} (hc : c ≠ '/') :
    ∃ before x h after, q.splitOn '/' = h :: after ∧
      (p ++ c :: q).splitOn '/' = before ++ (x ++ c :: h) :: after := by
  obtain ⟨after, hafter⟩ := splitOn_append_left q
  obtain ⟨before, hbefore⟩ := splitOn_append_right p
  have hpc : '/' ∉ (Text.cutLast '/' p).2 ++ [c] := by
    simp [Text.not_mem_cutLast, Ne.symm hc]
  refine ⟨before, (Text.cutLast '/' p).2, (Text.cut '/' q).1, after, hafter [] (by simp), ?_⟩
  rw [hbefore, List.append_cons, hafter _ hpc]
  simp

theorem segmentAround_cons_slash (p w q : Text) :
    segmentAround ('/' :: p) w q = segmentAround p w q := by
  rw [segmentAround, ← List.nil_append ('/' :: p), Text.cutLast_append_cons, segmentAround]

/-! ## Segment by segment -/

section

variable {R : Text → Text → Prop} (hnil : R [] [])
  (hdot : ∀ s s', R s s' → (s = here ↔ s' = here) ∧ (s = up ↔ s' = up))
include hnil hdot

/-- Lists that agree segment by segment, the dot segments included, are resolved to lists that
agree segment by segment. -/
theorem forall₂_resolveAfter {kept kept' segments segments' : List Text}
    (hk : List.Forall₂ R kept kept') (hs : List.Forall₂ R segments segments') :
    List.Forall₂ R (resolveAfter kept segments) (resolveAfter kept' segments') := by
  induction hs generalizing kept kept' with
  | nil => exact List.forall₂_reverse_iff.2 hk
  | @cons s s' rest rest' hss' hrest ih =>
    have hclosed {kept kept' : List Text} (hk : List.Forall₂ R kept kept') :
        List.Forall₂ R (closed kept rest) (closed kept' rest') := by
      cases hrest with
      | nil => exact .cons hnil hk
      | cons _ _ => exact hk
    obtain ⟨hhere, hup⟩ := hdot s s' hss'
    rcases here_or_up_or_not_isDot s with rfl | rfl | h
    · rw [hhere.1 rfl, resolveAfter_here, resolveAfter_here]
      exact ih (hclosed hk)
    · have htail : List.Forall₂ R kept.tail kept'.tail := by
        cases hk with
        | nil => exact .nil
        | cons _ hk => exact hk
      rw [hup.1 rfl, resolveAfter_up, resolveAfter_up]
      exact ih (hclosed htail)
    · have h' : ¬ IsDot s' := fun h' => h (h'.imp hhere.2 hup.2)
      rw [resolveAfter_cons_of_not_isDot h, resolveAfter_cons_of_not_isDot h']
      exact ih (.cons hss' hk)

end

/-! ## Two spellings of one segment -/

/-- Equal segments, or the two spellings `s` and `s'`. -/
def SameOr (s s' x y : Text) : Prop := x = y ∨ x = s ∧ y = s'

theorem forall₂_sameOr_self (s s' : Text) (ts : List Text) :
    List.Forall₂ (SameOr s s') ts ts :=
  List.forall₂_same.2 fun _ _ => .inl rfl

theorem forall₂_sameOr_around (s s' : Text) (before after : List Text) :
    List.Forall₂ (SameOr s s') (before ++ s :: after) (before ++ s' :: after) :=
  List.rel_append (forall₂_sameOr_self s s' before)
    (.cons (.inr ⟨rfl, rfl⟩) (forall₂_sameOr_self s s' after))

theorem dot_iff_of_sameOr {s s' x y : Text} (hs : ¬ IsDot s) (hs' : ¬ IsDot s')
    (h : SameOr s s' x y) : (x = here ↔ y = here) ∧ (x = up ↔ y = up) := by
  rcases h with rfl | ⟨rfl, rfl⟩
  · exact ⟨Iff.rfl, Iff.rfl⟩
  · obtain ⟨hhere, hup⟩ := not_isDot_iff.1 hs
    obtain ⟨hhere', hup'⟩ := not_isDot_iff.1 hs'
    exact ⟨iff_of_false hhere hhere', iff_of_false hup hup'⟩

theorem removeDots_of_head {t : Text} (h : t.head? ≠ some '/') : removeDots t = t := by
  unfold removeDots
  split
  · exact absurd rfl h
  · rfl

theorem resolveAfter_ne_nil (kept : List Text) {segments : List Text} (h : segments ≠ []) :
    resolveAfter kept segments ≠ [] := by
  induction segments generalizing kept with
  | nil => exact absurd rfl h
  | cons s rest ih =>
    -- behind the last segment something is kept: that segment, or an empty one
    have hlast (s : Text) (kept : List Text) : resolveAfter (s :: kept) [] ≠ [] := by
      simp [resolveAfter]
    cases rest with
    | nil =>
      rcases here_or_up_or_not_isDot s with rfl | rfl | hdot
      · exact hlast [] kept
      · exact hlast [] kept.tail
      · rw [resolveAfter_cons_of_not_isDot hdot]
        exact hlast s kept
    | cons s' rest =>
      rcases here_or_up_or_not_isDot s with rfl | rfl | hdot
      · exact ih kept (List.cons_ne_nil s' rest)
      · exact ih kept.tail (List.cons_ne_nil s' rest)
      · rw [resolveAfter_cons_of_not_isDot hdot]
        exact ih (s :: kept) (List.cons_ne_nil s' rest)

theorem splitOn_removeDots_rooted (t : Text) : (removeDots ('/' :: t)).splitOn '/' =
    [] :: resolveAfter [] (t.splitOn '/') := by
  have hjoin := List.splitOn_intercalate '/' (slash_not_mem_resolveAfter t)
    (resolveAfter_ne_nil [] (List.splitOn_ne_nil '/' t))
  rw [removeDots, List.splitOn_cons_eq_if_modifyHead, if_pos (beq_self_eq_true _), hjoin]

section

variable {p q w w' : Text} (hw : w ≠ [] ∧ '/' ∉ w) (hw' : w' ≠ [] ∧ '/' ∉ w')
include hw hw'

/-- Two spellings of a part of one segment leave the other segments alone when the dots are
removed, if they make no dot segment. -/
theorem forall₂_removeDots
    (hdot : (p ++ (w ++ q)).head? = some '/' →
      ¬ IsDot (segmentAround p w q) ∧ ¬ IsDot (segmentAround p w' q)) :
    List.Forall₂ (SameOr (segmentAround p w q) (segmentAround p w' q))
      ((removeDots (p ++ (w ++ q))).splitOn '/') ((removeDots (p ++ (w' ++ q))).splitOn '/') := by
  have hhead {w : Text} (hw : w ≠ [] ∧ '/' ∉ w) : (p ++ (w ++ q)).head? = some '/' →
      ∃ r, p = '/' :: r := by
    intro h
    cases p with
    | nil =>
      obtain ⟨d, w, rfl⟩ := List.exists_cons_of_ne_nil hw.1
      have hd : d = '/' := Option.some.inj h
      subst hd
      exact absurd List.mem_cons_self hw.2
    | cons d r =>
      have hd : d = '/' := Option.some.inj h
      exact ⟨r, by rw [hd]⟩
  by_cases hroot : ∃ r, p = '/' :: r
  · obtain ⟨r, rfl⟩ := hroot
    obtain ⟨before, after, haround⟩ := splitOn_around r q
    obtain ⟨hs, hs'⟩ := hdot rfl
    rw [List.cons_append, List.cons_append, splitOn_removeDots_rooted, splitOn_removeDots_rooted,
      haround w hw.2, haround w' hw'.2]
    simp only [segmentAround_cons_slash] at hs hs' ⊢
    exact .cons (.inl rfl) (forall₂_resolveAfter (.inl rfl) (fun _ _ => dot_iff_of_sameOr hs hs')
      .nil (forall₂_sameOr_around _ _ before after))
  · have hp : (p ++ (w ++ q)).head? ≠ some '/' := fun h => hroot (hhead hw h)
    have hp' : (p ++ (w' ++ q)).head? ≠ some '/' := fun h => hroot (hhead hw' h)
    obtain ⟨before, after, haround⟩ := splitOn_around p q
    rw [removeDots_of_head hp, removeDots_of_head hp', haround w hw.2, haround w' hw'.2]
    exact forall₂_sameOr_around _ _ before after

end

/-! ## Normal forms -/

theorem normalForm_escape (path : Text) : normalForm (escape path) =
    Text.join '/' ((path.splitOn '/').map fun s => Segment.normalForm (escape s)) := by
  rw [normalForm, splitOn_escape, List.map_map]
  rfl

theorem isPathSafe_of_isHexDigit {c : Char} (h : Url.isHexDigit c = true) :
    isPathSafe c = true :=
  Text.of_isAscii (fun c => Url.isHexDigit c = true → isPathSafe c = true) (by decide)
    (Url.isAscii_of_isHexDigit h) h

/-- Escaping a path keeps what it is read as. -/
theorem read_escape (t : Text) : Text.Percent.read (escape t) = Text.Percent.read t := by
  refine Text.Percent.read_encode (fun c hc => ?_) (by decide) (fun _ => isPathSafe_of_isHexDigit) t
  simp only [isPathSafe, Bool.or_eq_true, decide_eq_true_eq] at hc
  rcases hc with (hc | rfl) | rfl
  · exact isAscii_of_isSegmentSafe c hc
  · rfl
  · rfl

theorem decode?_escape (t : Text) : decode? (escape t) = decode? t := by
  rw [decode?, read_escape, decode?]

theorem decode_escape (t : Text) : decode (escape t) = decode t := by
  rw [decode, read_escape, decode]

theorem map_normalForm_congr {s s' : Text} {ts ts' : List Text}
    (h : List.Forall₂ (SameOr s s') ts ts')
    (hs : s ∈ ts → Segment.normalForm (escape s') = Segment.normalForm (escape s)) :
    (ts'.map fun x => Segment.normalForm (escape x)) =
      ts.map fun x => Segment.normalForm (escape x) := by
  induction h with
  | nil => rfl
  | @cons x y ts ts' hxy h ih =>
    have hhead : Segment.normalForm (escape y) = Segment.normalForm (escape x) := by
      rcases hxy with rfl | ⟨rfl, rfl⟩
      · rfl
      · exact hs List.mem_cons_self
    rw [List.map_cons, List.map_cons, hhead, ih fun hmem => hs (List.mem_cons_of_mem x hmem)]

/-- **Two spellings of a segment make one path**, if they make no dot segment and have one normal
form. -/
theorem normalForm_removeDots_congr {p q w w' : Text} (hw : w ≠ [] ∧ '/' ∉ w)
    (hw' : w' ≠ [] ∧ '/' ∉ w')
    (hdot : (p ++ (w ++ q)).head? = some '/' →
      ¬ IsDot (segmentAround p w q) ∧ ¬ IsDot (segmentAround p w' q))
    (hs : segmentAround p w q ∈ (removeDots (p ++ (w ++ q))).splitOn '/' →
      Segment.normalForm (escape (segmentAround p w' q)) =
        Segment.normalForm (escape (segmentAround p w q))) :
    normalForm (escape (removeDots (p ++ (w' ++ q)))) =
      normalForm (escape (removeDots (p ++ (w ++ q)))) := by
  have hrel := forall₂_removeDots hw hw' hdot
  rw [normalForm_escape, normalForm_escape, map_normalForm_congr hrel hs]

end Path

end UrlRouting
