import UrlRouting.Proofs.Text.Lowercase
import UrlRouting.Proofs.Text.Pieces

/-!
# Spellings of a text

A character can be written as itself or as an escape. What a text stands for, octet by octet, is
the same in both spellings, as long as the character was no digit of an escape before.

* `InEscape p c q`: between `p` and `q`, the character `c` is a digit of an escape.
* `unread_append_cons`: **what stands before any other character is read apart**.
  `unread_respelled`: an escape in its place stands for that character.
* `OfEscape p c q`: there, `c` is the `%` or a digit of an escape.
* `Escapes bs w`: `w` writes the octets `bs` as escapes.
* `unread_encode`: encoding keeps the octets, and writes those of every character.
-/

namespace UrlRouting.Text.Percent

/-! ## An escape in place of a character -/

/-- Between `p` and `q`, the character `c` is the first or the second digit of an escape. -/
def InEscape (p : Text) (c : Char) (q : Text) : Prop :=
  ['%'] <:+ p ∧ (∃ d ∈ q.head?, (octet? '%' c d).isSome) ∨
    ∃ d ∈ p.getLast?, ['%', d] <:+ p ∧ (octet? '%' d c).isSome

instance (p : Text) (c : Char) (q : Text) : Decidable (InEscape p c q) :=
  decidable_of_iff (['%'] <:+ p ∧ (q.head?.any fun d => (octet? '%' c d).isSome) = true ∨
      (p.getLast?.any fun d => ['%', d] <:+ p ∧ (octet? '%' d c).isSome) = true)
    (by simp [InEscape, Option.any_eq_true])

theorem InEscape.mono {p p' q q' : Text} {c : Char} (hp : p <:+ p') (hq : q <+: q')
    (h : InEscape p c q) : InEscape p' c q' := by
  rcases h with ⟨hpercent, d, hd, ho⟩ | ⟨d, hd, hpercent, ho⟩
  · obtain ⟨r, rfl⟩ := List.head?_eq_some_iff.1 hd
    obtain ⟨s, rfl⟩ := hq
    exact .inl ⟨hpercent.trans hp, d, rfl, ho⟩
  · obtain ⟨s, rfl⟩ := hpercent.trans hp
    exact .inr ⟨d, by simp, List.suffix_append _ _, ho⟩

/-- Two characters in front that make an escape after a `%`. -/
def StartsWithDigits (t : Text) : Prop :=
  ∃ a b r, t = a :: b :: r ∧ (octet? '%' a b).isSome

/-- Between `p` and `q`, the character `c` is the `%` or a digit of an escape. -/
def OfEscape (p : Text) (c : Char) (q : Text) : Prop :=
  InEscape p c q ∨ c = '%' ∧ StartsWithDigits q

theorem OfEscape.mono {p p' q q' : Text} {c : Char} (hp : p <:+ p') (hq : q <+: q')
    (h : OfEscape p c q) : OfEscape p' c q' := by
  rcases h with h | ⟨hc, a, b, r, rfl, ho⟩
  · exact .inl (h.mono hp hq)
  · obtain ⟨s, rfl⟩ := hq
    exact .inr ⟨hc, a, b, r ++ s, rfl, ho⟩

/-- A `%` before no two digits stands for itself. -/
theorem unread_percent {t : Text} (h : ¬ StartsWithDigits t) :
    unread ('%' :: t) = unescaped '%' :: unread t := by
  match t with
  | [] => simp [unread]
  | [a] => simp [unread]
  | a :: b :: r =>
    have ho : octet? '%' a b = none := by
      by_contra ho
      exact h ⟨a, b, r, rfl, Option.isSome_iff_ne_none.2 ho⟩
    simp [unread, ho]

theorem eq_percent_of_octet? {c a b : Char} {o : UInt8} (h : octet? c a b = some o) :
    c = '%' ∧ (hexValue? a).isSome ∧ (hexValue? b).isSome := by
  unfold octet? at h
  split at h
  · rename_i x y ha hb
    exact ⟨rfl, by rw [ha]; rfl, by rw [hb]; rfl⟩
  · cases h

theorem octet?_percent (a : Char) : octet? '%' a '%' = none := by
  have hvalue : hexValue? '%' = none := rfl
  unfold octet?
  rw [hvalue]
  cases hexValue? a with
  | none => rfl
  | some x => rfl

section

variable {p q : Text} {c : Char}

theorem startsWithDigits_append (h : StartsWithDigits (p ++ c :: q)) :
    StartsWithDigits p ∨ InEscape ('%' :: p) c q := by
  obtain ⟨a, b, r, ht, ho⟩ := h
  rcases p with _ | ⟨e, _ | ⟨f, p⟩⟩
  · obtain ⟨rfl, rfl⟩ := List.cons.inj ht
    exact .inr (.inl ⟨List.suffix_rfl, b, rfl, ho⟩)
  · obtain ⟨rfl, hrest⟩ := List.cons.inj ht
    obtain ⟨rfl, -⟩ := List.cons.inj hrest
    exact .inr (.inr ⟨e, rfl, List.suffix_rfl, ho⟩)
  · obtain ⟨rfl, hrest⟩ := List.cons.inj ht
    obtain ⟨rfl, -⟩ := List.cons.inj hrest
    exact .inl ⟨e, f, p, rfl, ho⟩

end

/-- A `%` is no digit. -/
theorem not_inEscape_percent (p q : Text) : ¬ InEscape p '%' q := by
  rintro (⟨-, d, -, ho⟩ | ⟨d, -, -, ho⟩)
  · cases ho
  · rw [octet?_percent] at ho
    cases ho

/-- **What stands before a character is read apart**, if the character is no digit of an escape. -/
theorem unread_append_cons {p q : Text} {c : Char} (h : ¬ InEscape p c q) :
    unread (p ++ c :: q) = unread p ++ unread (c :: q) := by
  induction hn : p.length using Nat.strongRecOn generalizing p with
  | ind n ih =>
    cases p with
    | nil => rfl
    | cons d p =>
      have hlen : p.length + 1 = n := hn
      have htail : unread (p ++ c :: q) = unread p ++ unread (c :: q) :=
        ih p.length (by omega) (fun hin => h (hin.mono (List.suffix_cons d p) List.prefix_rfl)) rfl
      by_cases hd : d = '%'
      · subst hd
        by_cases hdigits : StartsWithDigits p
        · obtain ⟨a, b, r, rfl, ho⟩ := hdigits
          obtain ⟨o, ho⟩ := Option.isSome_iff_exists.1 ho
          have hrest : unread (r ++ c :: q) = unread r ++ unread (c :: q) := by
            refine ih r.length ?_ (fun hin => h ?_) rfl
            · simp only [List.length_cons] at hlen
              omega
            · exact hin.mono ⟨['%', a, b], rfl⟩ List.prefix_rfl
          simp [unread, ho, hrest]
        · have hbehind : ¬ StartsWithDigits (p ++ c :: q) := fun hs =>
            (startsWithDigits_append hs).elim hdigits h
          rw [List.cons_append, unread_percent hbehind, unread_percent hdigits, htail]
          rfl
      · rw [List.cons_append, unread_cons hd, unread_cons hd, htail]
        rfl

/-- Escapes of some octets, with digits of either case. -/
inductive Escapes : List UInt8 → Text → Prop
  | nil : Escapes [] []
  | cons {b : UInt8} {bs : List UInt8} {x y : Char} {t : Text} : octet? '%' x y = some b →
      Escapes bs t → Escapes (b :: bs) ('%' :: x :: y :: t)

theorem escapes_flatMap_escape (bs : List UInt8) : Escapes bs (bs.flatMap escape) := by
  induction bs with
  | nil => exact .nil
  | cons b bs ih => exact .cons (octet?_escape b) ih

section

variable {bs : List UInt8} {w : Text} (h : Escapes bs w)
include h

theorem Escapes.unread_append (r : Text) : unread (w ++ r) = bs.map .octet ++ unread r := by
  induction h with
  | nil => rfl
  | cons ho _ ih => simp [unread, ho, ih]

theorem Escapes.forall_mem {safe : Char → Prop} (percent : safe '%')
    (digit : ∀ c, (hexValue? c).isSome → safe c) : ∀ c ∈ w, safe c := by
  induction h with
  | nil => simp
  | cons ho _ ih =>
    obtain ⟨-, hx, hy⟩ := eq_percent_of_octet? ho
    simp only [List.forall_mem_cons]
    exact ⟨percent, digit _ hx, digit _ hy, ih⟩

/-- Escapes start with a `%` that no escape holds. -/
theorem Escapes.exists_cons (hne : bs ≠ []) : ∃ m, w = '%' :: m := by
  cases h with
  | nil => exact absurd rfl hne
  | cons => exact ⟨_, rfl⟩

end

/-! ## Encoding -/

/-- The octets of what a text stands for, those of known characters included. -/
def octets : Utf8.Unread → List Utf8.Unread
  | .octet b => [.octet b]
  | .char c => (String.utf8EncodeChar c).map .octet

section

variable {safe : Char → Bool}

/-- A character in front of an encoding is safe, or the `%` of an escape. -/
theorem cons_of_encode {a : Char} {r t : Text} (h : encode safe t = a :: r) (ha : a ≠ '%') :
    ∃ t', t = a :: t' ∧ r = encode safe t' := by
  cases t with
  | nil => cases h
  | cons c t =>
    rw [encode, List.flatMap_cons, ← encode, encodeChar] at h
    split at h
    · obtain ⟨rfl, rfl⟩ := List.cons.inj h
      exact ⟨t, rfl, rfl⟩
    · obtain ⟨b, bs, hb⟩ := List.exists_cons_of_ne_nil (String.utf8EncodeChar_ne_nil (c := c))
      rw [hb] at h
      exact absurd (List.cons.inj h).1.symm ha

theorem ne_percent_of_octet? {a b : Char} (h : (octet? '%' a b).isSome) : a ≠ '%' ∧ b ≠ '%' := by
  constructor
  · rintro rfl
    cases h
  · rintro rfl
    rw [octet?_percent] at h
    cases h

theorem startsWithDigits_of_encode {t : Text} (h : StartsWithDigits (encode safe t)) :
    StartsWithDigits t := by
  obtain ⟨a, b, r, ht, ho⟩ := h
  obtain ⟨ha, hb⟩ := ne_percent_of_octet? ho
  obtain ⟨t', rfl, hr⟩ := cons_of_encode ht ha
  obtain ⟨t', rfl, -⟩ := cons_of_encode hr.symm hb
  exact ⟨a, b, t', rfl, ho⟩

end

section

variable {safe : Char → Bool} (ascii : ∀ c, safe c = true → isAscii c = true)
include ascii

theorem unread_encode_cons {c : Char} {t : Text} (h : c = '%' → ¬ StartsWithDigits t) :
    unread (encode safe (c :: t)) = octets (unescaped c) ++ unread (encode safe t) := by
  rw [encode, List.flatMap_cons, ← encode, encodeChar]
  by_cases hs : safe c = true
  · have hoctet : octets (unescaped c) = [unescaped c] := by
      rw [unescaped, if_pos (ascii c hs)]
      rfl
    rw [if_pos hs, hoctet]
    by_cases hc : c = '%'
    · subst hc
      exact unread_percent fun hd => h rfl (startsWithDigits_of_encode hd)
    · exact unread_cons hc _
  · have hoctets : octets (unescaped c) = (String.utf8EncodeChar c).map .octet := by
      unfold unescaped
      split
      · rename_i ha
        rw [Utf8.utf8EncodeChar_of_lt (isAscii_iff.1 ha)]
        rfl
      · rfl
    rw [if_neg hs, hoctets, unread_escapes]

/-- **Encoding keeps the octets**, and writes those of every known character. -/
theorem unread_encode (percent : safe '%' = true)
    (digit : ∀ c, (hexValue? c).isSome → safe c = true) (t : Text) :
    unread (encode safe t) = (unread t).flatMap octets := by
  fun_induction unread t with
  | case1 => rfl
  | case2 c a b r o ho ih =>
    obtain ⟨rfl, ha, hb⟩ := eq_percent_of_octet? ho
    have hkeep : encode safe ('%' :: a :: b :: r) = '%' :: a :: b :: encode safe r := by
      simp [encode, encodeChar, percent, digit a ha, digit b hb]
    rw [hkeep, unread]
    simp only [ho, List.flatMap_cons, ih]
    rfl
  | case3 c a b r ho ih =>
    rw [unread_encode_cons ascii, ih, List.flatMap_cons]
    rintro rfl ⟨a', b', r', ht, ho'⟩
    obtain ⟨rfl, hrest⟩ := List.cons.inj ht
    obtain ⟨rfl, -⟩ := List.cons.inj hrest
    rw [ho] at ho'
    cases ho'
  | case4 c t hshort ih =>
    rw [unread_encode_cons ascii, ih, List.flatMap_cons]
    rintro rfl ⟨a, b, r, ht, -⟩
    exact hshort a b r ht

end

end UrlRouting.Text.Percent
