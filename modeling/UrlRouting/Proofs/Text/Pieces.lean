import Mathlib.Data.List.Basic
import UrlRouting.Text.Percent

/-!
# Pieces of texts

The pieces of a text between separators, and the characters of texts that are split, joined and
percent-encoded.

* `not_mem_of_mem_splitOn`: no piece holds the separator.
* `forall_mem_join`, `forall_mem_of_mem_splitOn`: characters keep a property when pieces are joined
  and when a text is split.
* `Percent.forall_mem_encode`: so they do when a text is encoded, if safe characters, `%` and the
  hexadecimal digits have the property.
* `Percent.encode_eq_self_of_not_mem`: an encoding without escapes is the text itself.
-/

namespace UrlRouting.Text

/-! ## Cutting -/

section

variable (d : Char) (t : Text)

theorem not_mem_cut : d ∉ (cut d t).1 := by
  by_cases h : d ∈ t
  · obtain ⟨a, b, rfl, ha⟩ := List.eq_append_cons_of_mem h
    rwa [cut_some ha]
  · rwa [cut_none h]

theorem cut_isPrefix : (cut d t).1 <+: t := by
  by_cases h : d ∈ t
  · obtain ⟨a, b, rfl, ha⟩ := List.eq_append_cons_of_mem h
    rw [cut_some ha]
    exact List.prefix_append a _
  · simp only [cut_none h, List.prefix_rfl]

theorem mem_of_mem_cut {c : Char} (hc : c ∈ (cut d t).1 ∨ c ∈ (cut d t).2.getD []) : c ∈ t := by
  by_cases h : d ∈ t
  · obtain ⟨a, b, rfl, ha⟩ := List.eq_append_cons_of_mem h
    rw [cut_some ha] at hc
    exact List.mem_append.2 (hc.imp_right (List.mem_cons_of_mem d))
  · rw [cut_none h] at hc
    exact hc.resolve_right (by simp)

end

theorem cut_append {d : Char} {a : Text} (h : d ∉ a) (b : Text) :
    cut d (a ++ b) = (a ++ (cut d b).1, (cut d b).2) := by
  by_cases hb : d ∈ b
  · obtain ⟨x, y, rfl, hx⟩ := List.eq_append_cons_of_mem hb
    have hax : d ∉ a ++ x := by simp [h, hx]
    rw [← List.append_assoc, cut_some hax, cut_some hx]
  · have hab : d ∉ a ++ b := by simp [h, hb]
    rw [cut_none hab, cut_none hb]

/-- A text with the separator has a last one. -/
theorem exists_last_cut {d : Char} {t : Text} (h : d ∈ t) : ∃ a b, t = a ++ d :: b ∧ d ∉ b := by
  induction t with
  | nil => cases h
  | cons c t ih =>
    by_cases ht : d ∈ t
    · obtain ⟨a, b, rfl, hb⟩ := ih ht
      exact ⟨c :: a, b, rfl, hb⟩
    · obtain rfl := (List.mem_cons.1 h).resolve_right ht
      exact ⟨[], t, rfl, ht⟩

theorem not_mem_cutLast (d : Char) (t : Text) : d ∉ (cutLast d t).2 := by
  by_cases h : d ∈ t
  · obtain ⟨a, b, rfl, hb⟩ := exists_last_cut h
    rwa [cutLast_some hb]
  · rwa [cutLast_none h]

theorem cutLast_isSuffix (d : Char) (t : Text) : (cutLast d t).2 <:+ t := by
  by_cases h : d ∈ t
  · obtain ⟨a, b, rfl, hb⟩ := exists_last_cut h
    rw [cutLast_some hb]
    exact ⟨a ++ [d], by simp⟩
  · simp only [cutLast_none h, List.suffix_rfl]

theorem mem_of_mem_cutLast {d c : Char} {t : Text}
    (hc : c ∈ (cutLast d t).1.getD [] ∨ c ∈ (cutLast d t).2) : c ∈ t := by
  by_cases h : d ∈ t
  · obtain ⟨a, b, rfl, hb⟩ := exists_last_cut h
    rw [cutLast_some hb] at hc
    exact List.mem_append.2 (hc.imp_right (List.mem_cons_of_mem d))
  · rw [cutLast_none h] at hc
    exact hc.resolve_left (by simp)

/-- What stands after the last `d` stands after any `d`. -/
theorem cutLast_append_cons (d : Char) (a b : Text) :
    (cutLast d (a ++ d :: b)).2 = (cutLast d b).2 := by
  by_cases h : d ∈ b
  · obtain ⟨x, y, rfl, hy⟩ := exists_last_cut h
    rw [← List.cons_append, ← List.append_assoc, cutLast_some hy, cutLast_some hy]
  · rw [cutLast_some h, cutLast_none h]

/-! ## Splitting and joining -/

theorem not_mem_of_mem_splitOn {d : Char} {t s : Text} (h : s ∈ t.splitOn d) : d ∉ s := by
  induction hn : t.length using Nat.strongRecOn generalizing t with
  | ind n ih =>
    by_cases hd : d ∈ t
    · obtain ⟨a, b, rfl, ha⟩ := List.eq_append_cons_of_mem hd
      rw [List.splitOn_append_cons_self_of_not_mem ha] at h
      rcases List.mem_cons.1 h with rfl | h
      · exact ha
      · exact ih b.length (by simp at hn; omega) h rfl
    · rw [List.splitOn_eq_singleton hd] at h
      rw [List.mem_singleton.1 h]
      exact hd

/-- The last piece is what stands after the last separator. -/
theorem splitOn_eq_concat (d : Char) (t : Text) :
    ∃ init, t.splitOn d = init ++ [(cutLast d t).2] := by
  by_cases h : d ∈ t
  · obtain ⟨a, b, rfl, hb⟩ := exists_last_cut h
    refine ⟨a.splitOn d, ?_⟩
    rw [cutLast_some hb, List.splitOn_append_cons_self, List.splitOn_eq_singleton hb]
  · refine ⟨[], ?_⟩
    rw [cutLast_none h, List.splitOn_eq_singleton h]
    rfl

/-- With a separator in front, joining writes one before every text. -/
theorem cons_join (d : Char) {ts : List Text} (h : ts ≠ []) :
    d :: join d ts = ts.flatMap (d :: ·) := by
  induction ts with
  | nil => exact absurd rfl h
  | cons s ts ih =>
    cases ts with
    | nil => simp [join]
    | cons s' ts =>
      rw [join, List.intercalate_cons_cons, List.flatMap_cons, ← ih (by simp)]
      simp [join]

theorem join_cons {d : Char} {t : Text} {ts : List Text} (h : ts ≠ []) :
    join d (t :: ts) = t ++ d :: join d ts := by
  rw [join, List.intercalate_cons_of_ne_nil h]
  simp

theorem join_append {d : Char} {ts us : List Text} (hts : ts ≠ []) (hus : us ≠ []) :
    join d (ts ++ us) = join d ts ++ d :: join d us := by
  induction ts with
  | nil => exact absurd rfl hts
  | cons t ts ih =>
    by_cases hnil : ts = []
    · rw [hnil, List.cons_append, List.nil_append, join_cons hus]
      simp [join]
    · rw [List.cons_append, join_cons (by simp [hnil]), ih hnil, join_cons hnil]
      simp

theorem splitOn_join {d : Char} {ts : List Text} (h : ts ≠ []) :
    (join d ts).splitOn d = ts.flatMap (·.splitOn d) := by
  induction ts with
  | nil => exact absurd rfl h
  | cons t ts ih =>
    by_cases hnil : ts = []
    · subst hnil
      simp [join]
    · rw [join_cons hnil, List.splitOn_append_cons_self, ih hnil, List.flatMap_cons]

theorem length_le_flatMap_splitOn (d : Char) (ts : List Text) :
    ts.length ≤ (ts.flatMap (·.splitOn d)).length := by
  induction ts with
  | nil => exact Nat.le_refl 0
  | cons t ts ih =>
    have := List.length_pos_of_ne_nil (List.splitOn_ne_nil d t)
    rw [List.flatMap_cons, List.length_append, List.length_cons]
    omega

/-- Texts that are joined are split again if there are not more pieces than texts. -/
theorem splitOn_join_of_length {d : Char} {ts : List Text} (hne : ts ≠ [])
    (h : ((join d ts).splitOn d).length = ts.length) : (join d ts).splitOn d = ts := by
  rw [splitOn_join hne] at h ⊢
  clear hne
  induction ts with
  | nil => rfl
  | cons t ts ih =>
    have hpos := List.length_pos_of_ne_nil (List.splitOn_ne_nil d t)
    have hle := length_le_flatMap_splitOn d ts
    rw [List.flatMap_cons, List.length_append, List.length_cons] at h
    obtain ⟨x, hx⟩ := List.length_eq_one_iff.1 (show (t.splitOn d).length = 1 by omega)
    have ht : t = x := by
      have hjoin : [d].intercalate (t.splitOn d) = t := List.intercalate_splitOn d
      rw [hx, List.intercalate_singleton] at hjoin
      exact hjoin.symm
    rw [List.flatMap_cons, ih (by omega), hx, ht]
    rfl

/-- The last `c` of joined texts is the last one of some text. -/
theorem exists_mem_of_join_eq {c d : Char} (hcd : c ≠ d) {ts : List Text} {a b : Text}
    (h : join d ts = a ++ c :: b) (hb : c ∉ b) :
    ∃ t ∈ ts, c ∈ t ∧ ((cutLast c t).2 = b ∨ ∃ r, b = (cutLast c t).2 ++ d :: r) := by
  induction ts generalizing a with
  | nil => simp [join] at h
  | cons t ts ih =>
    by_cases hnil : ts = []
    · subst hnil
      have ht : t = a ++ c :: b := by simpa [join] using h
      refine ⟨t, List.mem_cons_self, by simp [ht], .inl ?_⟩
      rw [ht, cutLast_some hb]
    · rw [join_cons hnil] at h
      rcases List.append_eq_append_iff.1 h with ⟨x, rfl, hx⟩ | ⟨x, rfl, hx⟩
      · cases x with
        | nil => exact absurd (List.cons.inj hx).1.symm hcd
        | cons e x =>
          obtain ⟨t', ht', hlast⟩ := ih (List.cons.inj hx).2
          exact ⟨t', List.mem_cons_of_mem t ht', hlast⟩
      · cases x with
        | nil => exact absurd (List.cons.inj hx).1 hcd
        | cons e x =>
          obtain ⟨rfl, rfl⟩ := List.cons.inj hx
          refine ⟨_, List.mem_cons_self, by simp, .inr ⟨join d ts, ?_⟩⟩
          rw [cutLast_some fun hm => hb (List.mem_append_left _ hm)]
          rfl

theorem mem_join_of_mem {d c : Char} {ts : List Text} {t : Text} (ht : t ∈ ts) (hc : c ∈ t) :
    c ∈ join d ts := by
  induction ts with
  | nil => cases ht
  | cons s ts ih =>
    cases ts with
    | nil =>
      rw [List.mem_singleton.1 ht] at hc
      rwa [join, List.intercalate_singleton]
    | cons s' ts =>
      rw [join, List.intercalate_cons_cons, List.mem_append]
      rcases List.mem_cons.1 ht with rfl | ht
      · exact .inl (List.mem_append_left _ hc)
      · exact .inr (ih ht)

theorem forall_mem_join {P : Char → Prop} {d : Char} (hd : P d) {ts : List Text}
    (h : ∀ t ∈ ts, ∀ c ∈ t, P c) : ∀ c ∈ join d ts, P c := by
  cases ts with
  | nil => simp [join]
  | cons s ts =>
    intro c hc
    have hm : c ∈ (s :: ts).flatMap (d :: ·) := by
      rw [← cons_join d (by simp)]
      exact List.mem_cons_of_mem d hc
    obtain ⟨t, ht, hc⟩ := List.mem_flatMap.1 hm
    rcases List.mem_cons.1 hc with rfl | hc
    · exact hd
    · exact h t ht c hc

theorem getLast?_append_ne {a b : Text} {d : Char} (hne : b ≠ []) (hd : d ∉ b) :
    (a ++ b).getLast? ≠ some d := by
  rcases List.eq_nil_or_concat' b with rfl | ⟨b, c, rfl⟩
  · exact absurd rfl hne
  · rw [← List.append_assoc, List.getLast?_concat]
    intro hc
    obtain rfl := Option.some.inj hc
    exact hd (List.mem_append_right _ List.mem_cons_self)

/-- Joined texts end in the last of them. -/
theorem getLast?_cons_join {d : Char} {ts : List Text} (h : ∀ t ∈ ts, t ≠ [] ∧ d ∉ t)
    (hne : ts ≠ []) : (d :: join d ts).getLast? ≠ some d := by
  rcases List.eq_nil_or_concat' ts with rfl | ⟨before, t, rfl⟩
  · exact absurd rfl hne
  · obtain ⟨ht, hd⟩ := h t (List.mem_append_right _ List.mem_cons_self)
    have hlast : d :: join d (before ++ [t]) = (before.flatMap (d :: ·) ++ [d]) ++ t := by
      rw [cons_join d hne]
      simp
    rw [hlast]
    exact getLast?_append_ne ht hd

theorem forall_mem_of_mem_splitOn {P : Char → Prop} {d : Char} {t s : Text} (h : ∀ c ∈ t, P c)
    (hs : s ∈ t.splitOn d) : ∀ c ∈ s, P c := by
  intro c hc
  have hj : c ∈ join d (t.splitOn d) := mem_join_of_mem hs hc
  rw [join, List.intercalate_splitOn] at hj
  exact h c hj

/-! ## Encoding -/

namespace Percent

theorem forall_mem_escape {P : Char → Prop} (hp : P '%') (hd : ∀ n < 16, P (hexDigit n))
    (b : UInt8) : ∀ c ∈ escape b, P c := by
  have hb : b.toNat < 256 := b.toNat_lt
  intro c hc
  simp only [escape, List.mem_cons, List.not_mem_nil, or_false] at hc
  rcases hc with rfl | rfl | rfl
  · exact hp
  · exact hd _ (by omega)
  · exact hd _ (by omega)

theorem forall_mem_encode {P : Char → Prop} {safe : Char → Bool} (hs : ∀ c, safe c = true → P c)
    (hp : P '%') (hd : ∀ n < 16, P (hexDigit n)) (t : Text) : ∀ c ∈ encode safe t, P c := by
  intro c hc
  obtain ⟨a, -, hc⟩ := List.mem_flatMap.1 hc
  unfold encodeChar at hc
  split at hc
  · rename_i ha
    rw [List.mem_singleton.1 hc]
    exact hs a ha
  · obtain ⟨b, -, hc⟩ := List.mem_flatMap.1 hc
    exact forall_mem_escape hp hd b c hc

/-- A text of safe characters is its own encoding. -/
theorem encode_eq_self {safe : Char → Bool} {t : Text} (h : ∀ c ∈ t, safe c = true) :
    encode safe t = t := by
  induction t with
  | nil => rfl
  | cons c t ih =>
    rw [List.forall_mem_cons] at h
    rw [encode, List.flatMap_cons, ← encode, ih h.2, encodeChar, if_pos h.1]
    rfl

theorem encode_append (safe : Char → Bool) (t t' : Text) :
    encode safe (t ++ t') = encode safe t ++ encode safe t' :=
  List.flatMap_append

theorem percent_mem_encodeChar {safe : Char → Bool} {c : Char} (h : safe c = false) :
    '%' ∈ encodeChar safe c := by
  obtain ⟨b, hb⟩ := List.exists_mem_of_ne_nil _ (String.utf8EncodeChar_ne_nil (c := c))
  rw [encodeChar, h]
  exact List.mem_flatMap.2 ⟨b, hb, List.mem_cons_self⟩

theorem encodeChar_ne_nil (safe : Char → Bool) (c : Char) : encodeChar safe c ≠ [] := by
  cases h : safe c with
  | true => simp [encodeChar, h]
  | false => exact List.ne_nil_of_mem (percent_mem_encodeChar h)

theorem encode_ne_nil (safe : Char → Bool) {t : Text} (h : t ≠ []) : encode safe t ≠ [] := by
  cases t with
  | nil => exact absurd rfl h
  | cons c t =>
    intro he
    exact encodeChar_ne_nil safe c (List.append_eq_nil_iff.1 he).1

/-- A text whose encoding has no escape is its own encoding. -/
theorem encode_eq_self_of_not_mem {safe : Char → Bool} {t : Text} (h : '%' ∉ encode safe t) :
    encode safe t = t := by
  refine encode_eq_self fun c hc => ?_
  cases hs : safe c with
  | true => rfl
  | false => exact absurd (List.mem_flatMap.2 ⟨c, hc, percent_mem_encodeChar hs⟩) h

/-- A safe separator stays where it is. -/
theorem encode_join {safe : Char → Bool} {d : Char} (hd : safe d = true) (ts : List Text) :
    encode safe (join d ts) = join d (ts.map (encode safe)) := by
  induction ts with
  | nil => rfl
  | cons s ts ih =>
    cases ts with
    | nil => simp [join]
    | cons s' ts =>
      have hsep : encode safe [d] = [d] := encode_eq_self (by simpa using hd)
      rw [join, List.intercalate_cons_cons, encode_append, encode_append, ih, hsep]
      simp [join]

end Percent

end UrlRouting.Text
