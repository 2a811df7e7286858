import UrlRouting.Proofs.Text.Spelling

/-!
# What a text decodes to

Octets are read into characters across escapes and other characters of ASCII. A character that no
escape holds is read as itself, and what stands before it is read apart from what follows, whatever
was begun there.

* `Utf8.read_append_octet`: an octet below 128 ends what was begun before it.
* `Utf8.read_flatMap_octets`: the octets of a known character are read as that character.
* `isDelimiter`: the characters of ASCII that no escape holds. `decode_append`, `decode_join`:
  **what stands around such a character decodes apart**.
* `read_encode`: encoding keeps what a text is read as, if escapes are kept.
* `decode_of_decode?`: a text whose octets form characters decodes to these characters.
-/

namespace UrlRouting.Text

namespace Utf8

/-! ## Octets that end what was begun -/

/-- What is pending needs an octet of those that stand inside a character. -/
def Continues (p : Option Pending) : Prop := ∀ q ∈ p, 0x80 ≤ q.low ∧ q.high ≤ 0xBF

theorem continues_none : Continues none := by
  intro q hq
  cases hq

theorem continues_of_lead {b : Nat} {p : Pending} (h : lead b = .begun p) :
    0x80 ≤ p.low ∧ p.high ≤ 0xBF := by
  unfold lead at h
  repeat' split at h
  all_goals
    cases h
    try exact ⟨by simp, by simp⟩

theorem continues_start (b : Nat) : Continues (start b).2 := by
  unfold start
  split
  · exact continues_none
  · rename_i p hp
    intro q hq
    obtain rfl := Option.some.inj hq
    exact continues_of_lead hp
  · exact continues_none

theorem continues_next {p : Option Pending} (b : Nat) : Continues (next p b).2 := by
  cases p with
  | none => exact continues_start b
  | some q =>
    rw [next, Pending.next]
    split
    · split
      · exact continues_none
      · intro q hq
        obtain rfl := Option.some.inj hq
        exact ⟨Nat.le_refl _, Nat.le_refl _⟩
    · exact continues_start b

theorem read_octet {p : Option Pending} (hp : Continues p) {b : UInt8}
    (hb : b.toNat < 0x80 ∨ 0xBF < b.toNat) (r : List Unread) :
    read p (.octet b :: r) = flush p ++ read none (.octet b :: r) := by
  cases p with
  | none => rfl
  | some q =>
    have hq := hp q rfl
    have hout : ¬ (q.low ≤ b.toNat ∧ b.toNat ≤ q.high) := by omega
    rw [read, next, Pending.next, if_neg hout]
    rfl

/-- An octet below 128 ends what was begun before it. -/
theorem read_append_octet {p : Option Pending} (hp : Continues p) (xs : List Unread) {b : UInt8}
    (hb : b.toNat < 0x80) (ys : List Unread) :
    read p (xs ++ .octet b :: ys) =
      read p xs ++ some (Char.ofNat b.toNat) :: read none ys := by
  induction xs generalizing p with
  | nil =>
    rw [List.nil_append, read_octet hp (.inl hb)]
    simp [read, next, start, lead, hb]
  | cons x xs ih =>
    cases x with
    | char c =>
      rw [List.cons_append, read, read, ih continues_none]
      simp
    | octet b' =>
      rw [List.cons_append, read, read, ih (continues_next _)]
      simp

theorem utf8EncodeChar_head (c : Char) : ∃ b bs, String.utf8EncodeChar c = b :: bs ∧
    (b.toNat < 0x80 ∨ 0xBF < b.toNat) := by
  have hc : c.val.toNat < 0x110000 := by
    have hv : c.val.toNat < 0xD800 ∨ 0xDFFF < c.val.toNat ∧ c.val.toNat < 0x110000 := c.valid
    omega
  simp only [String.utf8EncodeChar]
  generalize c.val.toNat = n at hc
  split
  · refine ⟨_, _, rfl, .inl ?_⟩
    rw [toNat_octet (by omega)]
    omega
  · split
    · refine ⟨_, _, rfl, .inr ?_⟩
      rw [toNat_octet (by omega)]
      omega
    · split
      · refine ⟨_, _, rfl, .inr ?_⟩
        rw [toNat_octet (by omega)]
        omega
      · refine ⟨_, _, rfl, .inr ?_⟩
        rw [toNat_octet (by omega)]
        omega

theorem read_utf8EncodeChar {p : Option Pending} (hp : Continues p) (c : Char) (r : List Unread) :
    read p ((String.utf8EncodeChar c).map .octet ++ r) = read p (.char c :: r) := by
  have hread := read_octets c r
  obtain ⟨b, bs, hb, hrange⟩ := utf8EncodeChar_head c
  rw [hb, List.map_cons, List.cons_append] at hread ⊢
  rw [read_octet hp hrange, hread]
  rfl

/-- The octets of a known character are read as that character. -/
theorem read_flatMap_octets {p : Option Pending} (hp : Continues p) (us : List Unread) :
    read p (us.flatMap Percent.octets) = read p us := by
  induction us generalizing p with
  | nil => rfl
  | cons u us ih =>
    rw [List.flatMap_cons]
    cases u with
    | char c =>
      rw [Percent.octets, read_utf8EncodeChar hp, read, read, ih continues_none]
    | octet b =>
      rw [Percent.octets, List.singleton_append, read, read, ih (continues_next _)]

end Utf8

namespace Percent

/-! ## Characters that no escape holds -/

/-- Whether a character is in ASCII and stands in no escape. -/
def isDelimiter (c : Char) : Bool := isAscii c && c != '%' && (hexValue? c).isNone

section

variable {d : Char} (hd : isDelimiter d = true)
include hd

theorem not_inEscape_of_isDelimiter (p q : Text) : ¬ InEscape p d q := by
  have hhex : (hexValue? d).isSome = false := by
    simp only [isDelimiter, Bool.and_eq_true, Option.isNone_iff_eq_none] at hd
    rw [hd.2]
    rfl
  rintro (⟨-, a, -, ho⟩ | ⟨a, -, -, ho⟩)
  · obtain ⟨o, ho⟩ := Option.isSome_iff_exists.1 ho
    rw [(eq_percent_of_octet? ho).2.1] at hhex
    cases hhex
  · obtain ⟨o, ho⟩ := Option.isSome_iff_exists.1 ho
    rw [(eq_percent_of_octet? ho).2.2] at hhex
    cases hhex

theorem unread_append (z r : Text) :
    unread (z ++ d :: r) = unread z ++ unescaped d :: unread r := by
  have hne : d ≠ '%' := by
    rintro rfl
    cases hd
  rw [unread_append_cons (not_inEscape_of_isDelimiter hd z r), unread_cons hne]

/-- What stands around a delimiter decodes apart. -/
theorem decode_append (z r : Text) : decode (z ++ d :: r) = decode z ++ d :: decode r := by
  have ha : isAscii d = true := by
    simp only [isDelimiter, Bool.and_eq_true] at hd
    exact hd.1.1
  have hlow : d.toNat < 0x80 := isAscii_iff.1 ha
  have hoctet : (UInt8.ofNat d.toNat).toNat = d.toNat := Utf8.toNat_octet (by omega)
  rw [decode, read, unread_append hd, unescaped, if_pos ha,
    Utf8.read_append_octet Utf8.continues_none _ (by rw [hoctet]; exact hlow), hoctet,
    Char.ofNat_toNat, List.map_append]
  rfl

theorem decode_cons (r : Text) : decode (d :: r) = d :: decode r := decode_append hd [] r

/-- **Pieces between delimiters decode apart.** -/
theorem decode_join (ts : List Text) : decode (join d ts) = join d (ts.map decode) := by
  induction ts with
  | nil => rfl
  | cons t ts ih =>
    by_cases hnil : ts = []
    · subst hnil
      simp [join]
    · rw [join_cons hnil, decode_append hd, ih, List.map_cons, join_cons (by simpa using hnil)]

end

/-- Encoding keeps what a text is read as, if `%` and the hexadecimal digits are safe. -/
theorem read_encode {safe : Char → Bool} (ascii : ∀ c, safe c = true → isAscii c = true)
    (percent : safe '%' = true) (digit : ∀ c, (hexValue? c).isSome → safe c = true) (t : Text) :
    read (encode safe t) = read t := by
  rw [read, unread_encode ascii percent digit, Utf8.read_flatMap_octets Utf8.continues_none, read]

/-! ## Octets that form characters -/

theorem eq_of_whole? {l : List (Option Char)} {t : Text} (h : whole? l = some t) :
    l = t.map some := by
  induction l generalizing t with
  | nil =>
    obtain rfl := Option.some.inj h
    rfl
  | cons o l ih =>
    cases o with
    | none => cases h
    | some c =>
      obtain ⟨r, hr, rfl⟩ := Option.map_eq_some_iff.1 h
      rw [ih hr]
      rfl

/-- A text whose octets form characters decodes to these characters. -/
theorem decode_of_decode? {s t : Text} (h : decode? s = some t) : decode s = t := by
  rw [decode, eq_of_whole? h, List.map_map]
  exact List.map_id t

theorem decode?_eq_some_decode {s : Text} (h : (decode? s).isSome = true) :
    decode? s = some (decode s) := by
  obtain ⟨t, ht⟩ := Option.isSome_iff_exists.1 h
  rw [ht, decode_of_decode? ht]

end Percent

end UrlRouting.Text
