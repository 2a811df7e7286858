import UrlRouting.Proofs.Text.Octets
import UrlRouting.Proofs.Url.Spelling

/-!
# Segments and paths in normal form

A segment that decodes has one normal form, the encoding of what it decodes to, and a segment that
does not decode is its own. So two segments have the same normal form only if they say the same, and
a path in normal form has the segments of the path, one by one. Escaping a path changes how it is
written and nothing that it says.

* `Segment.exists_encode_iff_canonical`: **which texts are encoded segments**.
* `Segment.normalForm_eq_iff`: what two segments of one normal form have in common.
* `Path.splitOn_normalForm`, `Path.normalForm_identifies`: **the segments of a path in normal
  form**.
* `Path.normalForm_escape_eq_iff`: when an escaped path has the normal form of the path.
  `Path.escape_keeps`: **what escaping keeps**.
* `Path.normalForm_escapes`: a character and its escapes make paths of one normal form.
-/

namespace UrlRouting

open Text.Percent (Canonical canonical_iff decode decode? decode_of_decode? Escapes octetsOf
  OfEscape written)

namespace Segment

/-! ## Encoded segments -/

instance (s : Text) : Decidable (Canonical isSegmentSafe s) :=
  decidable_of_iff (s = (octetsOf s).flatMap (written isSegmentSafe))
    (canonical_iff isAscii_of_isSegmentSafe not_isSegmentSafe_percent).symm

theorem exists_encode_iff {s : Text} : (∃ t, s = encode t) ↔
    Canonical isSegmentSafe s ∧ (octetsOf s).toByteArray.IsValidUTF8 :=
  Text.Percent.exists_encode_iff isAscii_of_isSegmentSafe not_isSegmentSafe_percent

/-- **A text is encoded as one segment and decoded again**, and the encoded segments are the texts
of safe characters and of upper-case escapes of other octets whose octets are UTF-8. -/
theorem exists_encode_iff_canonical (t s : Text) :
    decode? (encode t) = some t ∧ '/' ∉ encode t ∧
      ((∃ v, s = encode v) ↔
        Canonical isSegmentSafe s ∧ (octetsOf s).toByteArray.IsValidUTF8) ∧
      (Canonical isSegmentSafe s ∧ (octetsOf s).toByteArray.IsValidUTF8 →
        ∃ v, decode? s = some v ∧ encode v = s) := by
  refine ⟨decode?_encode t, slash_not_mem_encode t, exists_encode_iff, fun h => ?_⟩
  obtain ⟨v, rfl⟩ := exists_encode_iff.2 h
  exact ⟨v, decode?_encode v, rfl⟩

/-- Escapes of a slash, of a percent sign, and of characters of two and of four octets. -/
theorem exists_encode_iff_canonical_escapes :
    Canonical isSegmentSafe "a%2F%25:%C3%A9%F0%9F%98%80" ∧
      (octetsOf "a%2F%25:%C3%A9%F0%9F%98%80").toByteArray.IsValidUTF8 ∧
      ∃ v, decode? "a%2F%25:%C3%A9%F0%9F%98%80" = some v ∧
        encode v = "a%2F%25:%C3%A9%F0%9F%98%80".toList := by
  have hcanonical : Canonical isSegmentSafe "a%2F%25:%C3%A9%F0%9F%98%80" := by decide +kernel
  have hvalid : (octetsOf "a%2F%25:%C3%A9%F0%9F%98%80").toByteArray.IsValidUTF8 :=
    ⟨"a/%:é😀".toList, by decide +kernel⟩
  exact ⟨hcanonical, hvalid, (exists_encode_iff_canonical [] _).2.2.2 ⟨hcanonical, hvalid⟩⟩

/-! ## Segments of one normal form -/

/-- **Two segments have one normal form** if they decode to one text, or are one segment that does
not decode. -/
theorem normalForm_eq_iff {s t : Text} : normalForm s = normalForm t ↔
    (∃ v, decode? s = some v ∧ decode? t = some v) ∨
      decode? s = none ∧ decode? t = none ∧ s = t := by
  constructor
  · intro h
    have hdecode : decode? s = decode? t := by
      rw [← decode?_normalForm s, h, decode?_normalForm]
    cases hs : decode? s with
    | some v => exact .inl ⟨v, rfl, hdecode.symm.trans hs⟩
    | none =>
      have ht : decode? t = none := hdecode.symm.trans hs
      rw [normalForm_of_eq_none hs, normalForm_of_eq_none ht] at h
      exact .inr ⟨rfl, ht, h⟩
  · rintro (⟨v, hs, ht⟩ | ⟨-, -, rfl⟩)
    · rw [normalForm_of_decode? hs, normalForm_of_decode? ht]
    · rfl

theorem decode_congr {s s' : Text} (h : normalForm s = normalForm s') : decode s = decode s' := by
  rcases normalForm_eq_iff.1 h with ⟨v, hs, hs'⟩ | ⟨-, -, rfl⟩
  · rw [decode_of_decode? hs, decode_of_decode? hs']
  · rfl

theorem normalForm_normalForm (s : Text) : normalForm (normalForm s) = normalForm s := by
  cases h : decode? s with
  | some t => rw [normalForm_of_decode? h, normalForm_encode]
  | none => rw [normalForm_of_eq_none h, normalForm_of_eq_none h]

theorem normalForm_eq_nil_iff {s : Text} : normalForm s = [] ↔ s = [] := by
  constructor
  · intro h
    by_contra hne
    exact normalForm_ne_nil hne h
  · rintro rfl
    rfl

end Segment

namespace Path

/-! ## Paths in normal form -/

theorem splitOn_normalForm (path : Text) :
    (normalForm path).splitOn '/' = (path.splitOn '/').map Segment.normalForm := by
  have hslash : ∀ s ∈ (path.splitOn '/').map Segment.normalForm, '/' ∉ s := by
    intro s hs
    obtain ⟨x, hx, rfl⟩ := List.mem_map.1 hs
    exact Segment.slash_not_mem_normalForm (Text.not_mem_of_mem_splitOn hx)
  rw [normalForm, Text.join, List.splitOn_intercalate '/' hslash (by simp [List.splitOn_ne_nil])]

theorem segments_normalForm (path : Text) :
    segments (normalForm path) = (segments path).map Segment.normalForm := by
  rw [segments, splitOn_normalForm, List.filter_map, segments]
  refine congrArg (List.map Segment.normalForm) (List.filter_congr fun s _ => ?_)
  simp [Segment.normalForm_eq_nil_iff]

theorem normalForm_eq_iff {p q : Text} : normalForm p = normalForm q ↔
    (p.splitOn '/').map Segment.normalForm = (q.splitOn '/').map Segment.normalForm := by
  constructor
  · intro h
    rw [← splitOn_normalForm, h, splitOn_normalForm]
  · intro h
    rw [normalForm, h, normalForm]

theorem normalForm_normalForm (path : Text) : normalForm (normalForm path) = normalForm path := by
  rw [normalForm_eq_iff, splitOn_normalForm, List.map_map]
  exact List.map_congr_left fun s _ => Segment.normalForm_normalForm s

/-- **Normal forms tell segments apart** by what they decode to, or by how they are written if they
do not decode; and a path in normal form has as many segments as the path, in the same order, empty
where they were empty. -/
theorem normalForm_identifies (s t path : Text) :
    (Segment.normalForm s = Segment.normalForm t ↔
      (∃ v, decode? s = some v ∧ decode? t = some v) ∨
        decode? s = none ∧ decode? t = none ∧ s = t) ∧
    Segment.normalForm (Segment.normalForm s) = Segment.normalForm s ∧
    normalForm (normalForm path) = normalForm path ∧
    List.Forall₂ (fun a b => b = Segment.normalForm a ∧ (b = [] ↔ a = []))
      (path.splitOn '/') ((normalForm path).splitOn '/') := by
  refine ⟨Segment.normalForm_eq_iff, Segment.normalForm_normalForm s, normalForm_normalForm path,
    ?_⟩
  rw [splitOn_normalForm, List.forall₂_map_right_iff, List.forall₂_same]
  exact fun a _ => ⟨rfl, Segment.normalForm_eq_nil_iff⟩

/-! ## Escaped paths -/

theorem escape_escape (path : Text) : escape (escape path) = escape path :=
  Text.Percent.encode_eq_self (isPathSafe_of_mem_escape path)

/-- **An escaped path has the normal form of the path** if and only if each of its segments decodes
or needs no escaping. -/
theorem normalForm_escape_eq_iff {path : Text} : normalForm (escape path) = normalForm path ↔
    ∀ s ∈ path.splitOn '/', (decode? s).isSome = true ∨ escape s = s := by
  rw [normalForm_eq_iff, splitOn_escape, List.map_map, List.map_inj_left]
  refine forall₂_congr fun s _ => ?_
  rw [Function.comp_apply, Segment.normalForm_eq_iff, decode?_escape]
  cases decode? s with
  | some v => simp
  | none => simp

/-- **Escaping a path keeps what it decodes to**, and its normal form if all its segments
decode. -/
theorem escape_keeps (path : Text) :
    escape (escape path) = escape path ∧ decode (escape path) = decode path ∧
      decode? (escape path) = decode? path ∧
      ((∀ s ∈ path.splitOn '/', (decode? s).isSome = true) →
        normalForm (escape path) = normalForm path) :=
  ⟨escape_escape path, decode_escape path, decode?_escape path,
    fun h => normalForm_escape_eq_iff.2 fun s hs => .inl (h s hs)⟩

/-- A character of two octets, an escape of one, an empty segment, and a percent sign. -/
theorem escape_keeps_spellings :
    (∀ s ∈ "/é%2f//%C3%a9/%".toList.splitOn '/', (decode? s).isSome = true) ∧
      escape "/é%2f//%C3%a9/%" = "/%C3%A9%2f//%C3%a9/%".toList ∧
      normalForm (escape "/é%2f//%C3%a9/%") = normalForm "/é%2f//%C3%a9/%" := by
  have hdecode : ∀ s ∈ "/é%2f//%C3%a9/%".toList.splitOn '/', (decode? s).isSome = true :=
    List.all_eq_true.1 (by decide +kernel)
  exact ⟨hdecode, by decide +kernel, (escape_keeps _).2.2.2 hdecode⟩

/-! ## Escapes in place of a character -/

theorem not_isDot_of_decode? {s v : Text} (h : decode? s = some v) (hv : ¬ IsDot v) :
    ¬ IsDot s := by
  intro hs
  have hself : decode? s = some s := by
    rcases hs with rfl | rfl
    · rfl
    · rfl
  obtain rfl := Option.some.inj (hself.symm.trans h)
  exact hv hs

section

variable {p q w v : Text} {c : Char} (hescape : ¬ OfEscape p c q)
  (hw : Escapes (String.utf8EncodeChar c) w) (hv : decode? (segmentAround p [c] q) = some v)
include hescape hw hv

theorem decode?_segmentAround_escapes : decode? (segmentAround p w q) = some v := by
  have hsegment : ¬ OfEscape (Text.cutLast '/' p).2 c (Text.cut '/' q).1 := fun h =>
    hescape (h.mono (Text.cutLast_isSuffix '/' p) (Text.cut_isPrefix '/' q))
  have hoctets := Text.Percent.octetsOf_respelled hsegment hw
  rw [Text.Percent.decode?_eq_some_iff] at hv ⊢
  rw [← hv, segmentAround, hoctets, segmentAround]
  rfl

/-- **A character and its escapes make paths of one normal form.** -/
theorem normalForm_escapes (hc : c ≠ '/') (hdot : ¬ IsDot v) (lead : Text)
    (hlead : lead = [] ∨ lead = ['/']) :
    normalForm (escape (removeDots (lead ++ (p ++ (w ++ q))))) =
      normalForm (escape (removeDots (lead ++ (p ++ ([c] ++ q))))) := by
  have hv' := decode?_segmentAround_escapes hescape hw hv
  have haround (w : Text) : segmentAround (lead ++ p) w q = segmentAround p w q := by
    rcases hlead with rfl | rfl
    · rfl
    · exact segmentAround_cons_slash p w q
  have hpart : [c] ≠ [] ∧ '/' ∉ [c] := ⟨by simp, by simpa using Ne.symm hc⟩
  have hpart' : w ≠ [] ∧ '/' ∉ w := by
    obtain ⟨m, rfl⟩ := hw.exists_cons String.utf8EncodeChar_ne_nil
    have hslash : ∀ d ∈ '%' :: m, d ≠ '/' := hw.forall_mem (by decide) fun d hd => by
      rintro rfl
      cases hd
    exact ⟨List.cons_ne_nil _ _, fun h => hslash _ h rfl⟩
  rw [← List.append_assoc, ← List.append_assoc lead]
  apply normalForm_removeDots_congr hpart hpart'
  · intro _
    rw [haround, haround]
    exact ⟨not_isDot_of_decode? hv hdot, not_isDot_of_decode? hv' hdot⟩
  · intro _
    rw [haround, haround]
    refine Segment.normalForm_eq_iff.2 (.inl ⟨v, ?_, ?_⟩)
    · rw [decode?_escape, hv']
    · rw [decode?_escape, hv]

end

end Path

end UrlRouting
