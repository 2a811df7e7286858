import UrlRouting.Proofs.Text.Decoding

/-!
# The octets of a text

A text is written in octets by UTF-8, and a text with escapes stands for octets: those of its
escapes, and those that its other characters are written in. Octets are read as a text only if they
are the octets of that text, so that a text decodes if and only if what it stands for is UTF-8.

* `Utf8.read_eq_map_some_iff`: **octets are read as a text if and only if it is written in them**.
* `Percent.octetsOf`: the octets that a text stands for. `decode?_eq_some_iff`: it decodes to the
  text that is written in them.
* `Percent.Canonical`: a text of safe characters and of upper-case escapes of the other octets.
  `exists_encode_iff`: **the encoded texts are those of this form that decode**.
-/

namespace UrlRouting.Text

namespace Utf8

/-! ## The octets of one character -/

section

variable {a b c d : UInt8}

theorem utf8EncodeChar_two {n : Nat} (ha : 0xC2 ≤ a.toNat ∧ a.toNat < 0xE0)
    (hb : 0x80 ≤ b.toNat ∧ b.toNat ≤ 0xBF)
    (hn : n = (a.toNat - 0xC0) * 64 + (b.toNat - 0x80)) :
    String.utf8EncodeChar (Char.ofNat n) = [a, b] := by
  have hv : (Char.ofNat n).val.toNat = n := toNat_ofNat (by omega)
  have h0 : n / 64 % 32 + 192 = a.toNat := by omega
  have h1 : n % 64 + 128 = b.toNat := by omega
  simp only [String.utf8EncodeChar, hv, if_neg (show ¬ n ≤ 127 by omega),
    if_pos (show n ≤ 2047 by omega), h0, h1, UInt8.ofNat_toNat]

theorem utf8EncodeChar_three {n : Nat} (ha : 0xE0 ≤ a.toNat ∧ a.toNat < 0xF0)
    (hb : (if a.toNat = 0xE0 then 0xA0 else 0x80) ≤ b.toNat ∧
      b.toNat ≤ if a.toNat = 0xED then 0x9F else 0xBF)
    (hc : 0x80 ≤ c.toNat ∧ c.toNat ≤ 0xBF)
    (hn : n = ((a.toNat - 0xE0) * 64 + (b.toNat - 0x80)) * 64 + (c.toNat - 0x80)) :
    String.utf8EncodeChar (Char.ofNat n) = [a, b, c] := by
  have hb' : 0x80 ≤ b.toNat ∧ b.toNat ≤ 0xBF ∧ (a.toNat = 0xE0 → 0xA0 ≤ b.toNat) ∧
      (a.toNat = 0xED → b.toNat ≤ 0x9F) := by
    obtain ⟨hlow, hhigh⟩ := hb
    split at hlow <;> split at hhigh <;> omega
  have hv : (Char.ofNat n).val.toNat = n := toNat_ofNat (by omega)
  have h0 : n / 4096 % 16 + 224 = a.toNat := by omega
  have h1 : n / 64 % 64 + 128 = b.toNat := by omega
  have h2 : n % 64 + 128 = c.toNat := by omega
  simp only [String.utf8EncodeChar, hv, if_neg (show ¬ n ≤ 127 by omega),
    if_neg (show ¬ n ≤ 2047 by omega), if_pos (show n ≤ 65535 by omega), h0, h1, h2,
    UInt8.ofNat_toNat]

theorem utf8EncodeChar_four {n : Nat} (ha : 0xF0 ≤ a.toNat ∧ a.toNat < 0xF5)
    (hb : (if a.toNat = 0xF0 then 0x90 else 0x80) ≤ b.toNat ∧
      b.toNat ≤ if a.toNat = 0xF4 then 0x8F else 0xBF)
    (hc : 0x80 ≤ c.toNat ∧ c.toNat ≤ 0xBF) (hd : 0x80 ≤ d.toNat ∧ d.toNat ≤ 0xBF)
    (hn : n = (((a.toNat - 0xF0) * 64 + (b.toNat - 0x80)) * 64 + (c.toNat - 0x80)) * 64 +
      (d.toNat - 0x80)) :
    String.utf8EncodeChar (Char.ofNat n) = [a, b, c, d] := by
  have hb' : 0x80 ≤ b.toNat ∧ b.toNat ≤ 0xBF ∧ (a.toNat = 0xF0 → 0x90 ≤ b.toNat) ∧
      (a.toNat = 0xF4 → b.toNat ≤ 0x8F) := by
    obtain ⟨hlow, hhigh⟩ := hb
    split at hlow <;> split at hhigh <;> omega
  have hv : (Char.ofNat n).val.toNat = n := toNat_ofNat (by omega)
  have h0 : n / 262144 % 8 + 240 = a.toNat := by omega
  have h1 : n / 4096 % 64 + 128 = b.toNat := by omega
  have h2 : n / 64 % 64 + 128 = c.toNat := by omega
  have h3 : n % 64 + 128 = d.toNat := by omega
  simp only [String.utf8EncodeChar, hv, if_neg (show ¬ n ≤ 127 by omega),
    if_neg (show ¬ n ≤ 2047 by omega), if_neg (show ¬ n ≤ 65535 by omega), h0, h1, h2, h3,
    UInt8.ofNat_toNat]

end

/-- Only a character of ASCII is written in an octet below 128. -/
theorem le_of_mem_utf8EncodeChar {c : Char} (hc : 0x80 ≤ c.toNat) :
    ∀ b ∈ String.utf8EncodeChar c, 0x80 ≤ b.toNat := by
  have hv : ¬ c.val.toNat ≤ 127 := Nat.not_le.2 hc
  simp only [String.utf8EncodeChar, if_neg hv]
  split
  · simp only [List.forall_mem_cons, UInt8.toNat_ofNat']
    refine ⟨?_, ?_, by simp⟩ <;> omega
  · split
    · simp only [List.forall_mem_cons, UInt8.toNat_ofNat']
      refine ⟨?_, ?_, ?_, by simp⟩ <;> omega
    · simp only [List.forall_mem_cons, UInt8.toNat_ofNat']
      refine ⟨?_, ?_, ?_, ?_, by simp⟩ <;> omega

/-! ## Reading is exact -/

theorem none_cons_ne (l : List (Option Char)) (t : Text) : none :: l ≠ t.map some := by
  intro h
  have hmem : none ∈ t.map some := h ▸ List.mem_cons_self
  simp at hmem

theorem read_invalid {b : UInt8} (h : 0x80 ≤ b.toNat ∧ b.toNat < 0xC2 ∨ 0xF5 ≤ b.toNat)
    (r : List Unread) : read none (.octet b :: r) = none :: read none r := by
  have hlead : lead b.toNat = .invalid := by
    unfold lead
    repeat' split
    all_goals first | rfl | omega
  simp [read, next, start, hlead]

/-- A begun character goes on with an octet that it needs, if it is read at all. -/
theorem exists_of_read_pending {p : Pending} {bs : List UInt8} {t : Text}
    (h : read (some p) (bs.map .octet) = t.map some) :
    ∃ b r, bs = b :: r ∧ p.low ≤ b.toNat ∧ b.toNat ≤ p.high := by
  cases bs with
  | nil => exact absurd h (none_cons_ne _ t)
  | cons b r =>
    by_cases hb : p.low ≤ b.toNat ∧ b.toNat ≤ p.high
    · exact ⟨b, r, rfl, hb⟩
    · rw [List.map_cons, read, next, Pending.next, if_neg hb] at h
      exact absurd h (none_cons_ne _ t)

/-- The octet that completes a character, and what is read behind it. -/
theorem exists_of_read_last {p : Pending} (hm : p.more = 0) {bs : List UInt8} {t : Text}
    (h : read (some p) (bs.map .octet) = t.map some) :
    ∃ b r, bs = b :: r ∧ (p.low ≤ b.toNat ∧ b.toNat ≤ p.high) ∧
      some (Char.ofNat (p.bits * 64 + (b.toNat - 0x80))) :: read none (r.map .octet) =
        t.map some := by
  obtain ⟨b, r, rfl, hb⟩ := exists_of_read_pending h
  rw [List.map_cons, read_last hb hm] at h
  exact ⟨b, r, rfl, hb, h⟩

/-- An octet in the middle of a character, and what is read behind it. -/
theorem exists_of_read_more {p : Pending} {m : Nat} (hm : p.more = m + 1) {bs : List UInt8}
    {t : Text} (h : read (some p) (bs.map .octet) = t.map some) :
    ∃ b r, bs = b :: r ∧ (p.low ≤ b.toNat ∧ b.toNat ≤ p.high) ∧
      read (some ⟨0x80, 0xBF, m, p.bits * 64 + (b.toNat - 0x80)⟩) (r.map .octet) =
        t.map some := by
  obtain ⟨b, r, rfl, hb⟩ := exists_of_read_pending h
  rw [List.map_cons, read_more hb hm] at h
  exact ⟨b, r, rfl, hb, h⟩

theorem exists_append_of_cons (front : List UInt8) {rest : List UInt8} {c c' : Char} {t : Text}
    (hc : String.utf8EncodeChar c' = front)
    (h : some c' :: read none (rest.map .octet) = (c :: t).map some) :
    ∃ r, front ++ rest = String.utf8EncodeChar c ++ r ∧ read none (r.map .octet) = t.map some := by
  rw [List.map_cons, List.cons.injEq, Option.some.injEq] at h
  obtain ⟨rfl, h⟩ := h
  exact ⟨rest, by rw [hc], h⟩

/-- The octets of the first character stand in front of those of the others. -/
theorem exists_append_of_read {bs : List UInt8} {c : Char} {t : Text}
    (h : read none (bs.map .octet) = (c :: t).map some) :
    ∃ r, bs = String.utf8EncodeChar c ++ r ∧ read none (r.map .octet) = t.map some := by
  cases bs with
  | nil => cases h
  | cons a r =>
    have ha := a.toNat_lt
    rw [List.map_cons] at h
    -- the first octet says how many follow
    by_cases hone : a.toNat < 0x80
    · have hn : (Char.ofNat a.toNat).toNat = a.toNat := toNat_ofNat (by omega)
      have hread : read none (.octet a :: r.map .octet) =
          some (Char.ofNat a.toNat) :: read none (r.map .octet) := by
        simp [read, next, start, lead, hone]
      rw [hread] at h
      refine exists_append_of_cons [a] ?_ h
      rw [utf8EncodeChar_of_lt (by rwa [hn]), hn, UInt8.ofNat_toNat]
    by_cases hinvalid : a.toNat < 0xC2 ∨ 0xF5 ≤ a.toNat
    · rw [read_invalid (by omega)] at h
      exact absurd h (none_cons_ne _ _)
    by_cases htwo : a.toNat < 0xE0
    · rw [read_begun (lead_two (by omega) htwo)] at h
      obtain ⟨b, r, rfl, hb, h⟩ := exists_of_read_last rfl h
      exact exists_append_of_cons [a, b] (utf8EncodeChar_two ⟨by omega, htwo⟩ hb rfl) h
    by_cases hthree : a.toNat < 0xF0
    · rw [read_begun (lead_three (by omega) hthree)] at h
      obtain ⟨b, r, rfl, hb, h⟩ := exists_of_read_more rfl h
      obtain ⟨c, r, rfl, hc, h⟩ := exists_of_read_last rfl h
      exact exists_append_of_cons [a, b, c] (utf8EncodeChar_three (by omega) hb hc rfl) h
    · rw [read_begun (lead_four (by omega) (by omega))] at h
      obtain ⟨b, r, rfl, hb, h⟩ := exists_of_read_more rfl h
      obtain ⟨c, r, rfl, hc, h⟩ := exists_of_read_more rfl h
      obtain ⟨d, r, rfl, hd, h⟩ := exists_of_read_last rfl h
      exact exists_append_of_cons [a, b, c, d] (utf8EncodeChar_four (by omega) hb hc hd rfl) h

/-- **Octets are read as a text if and only if it is written in them.** -/
theorem read_eq_map_some_iff {bs : List UInt8} {t : Text} :
    read none (bs.map .octet) = t.map some ↔ bs = t.flatMap String.utf8EncodeChar := by
  induction t generalizing bs with
  | nil =>
    constructor
    · intro h
      by_contra hne
      exact read_ne_nil (by simpa using hne) h
    · rintro rfl
      rfl
  | cons c t ih =>
    rw [List.flatMap_cons]
    constructor
    · intro h
      obtain ⟨r, rfl, hr⟩ := exists_append_of_read h
      rw [← ih.1 hr]
    · rintro rfl
      rw [List.map_append, read_octets, ih.2 rfl, List.map_cons]

/-- The octets that a part of a stream is, or is written in. -/
def Unread.toOctets : Unread → List UInt8
  | .octet b => [b]
  | .char c => String.utf8EncodeChar c

end Utf8

namespace Percent

/-! ## What a text stands for -/

/-- The octets that a text stands for: those of its escapes, and those that its other characters
are written in. -/
def octetsOf (t : Text) : List UInt8 := (unread t).flatMap (·.toOctets)

theorem map_octet_octetsOf (t : Text) : (octetsOf t).map .octet = (unread t).flatMap octets := by
  rw [octetsOf, List.map_flatMap]
  congr 1
  funext u
  cases u with
  | octet b => rfl
  | char c => rfl

theorem octetsOf_append_cons {p q : Text} {c : Char} (h : ¬ InEscape p c q) :
    octetsOf (p ++ c :: q) = octetsOf p ++ octetsOf (c :: q) := by
  rw [octetsOf, unread_append_cons h, List.flatMap_append, ← octetsOf, ← octetsOf]

theorem octetsOf_cons {q : Text} {c : Char} (h : c = '%' → ¬ StartsWithDigits q) :
    octetsOf (c :: q) = String.utf8EncodeChar c ++ octetsOf q := by
  have hcons : unread (c :: q) = unescaped c :: unread q := by
    by_cases hc : c = '%'
    · subst hc
      exact unread_percent (h rfl)
    · exact unread_cons hc q
  have hoctets : (unescaped c).toOctets = String.utf8EncodeChar c := by
    unfold unescaped
    split
    · rename_i ha
      rw [Utf8.utf8EncodeChar_of_lt (isAscii_iff.1 ha)]
      rfl
    · rfl
  rw [octetsOf, hcons, List.flatMap_cons, hoctets, ← octetsOf]

theorem Escapes.octetsOf_append {bs : List UInt8} {w : Text} (h : Escapes bs w) (q : Text) :
    octetsOf (w ++ q) = bs ++ octetsOf q := by
  have hbs : (bs.map Utf8.Unread.octet).flatMap (·.toOctets) = bs := by
    rw [List.flatMap_map]
    exact List.flatMap_singleton' bs
  rw [octetsOf, h.unread_append, List.flatMap_append, hbs, ← octetsOf]

/-- **A character and the escapes of its octets stand for the same octets.** -/
theorem octetsOf_respelled {p q w : Text} {c : Char} (h : ¬ OfEscape p c q)
    (hw : Escapes (String.utf8EncodeChar c) w) :
    octetsOf (p ++ (w ++ q)) = octetsOf (p ++ c :: q) := by
  obtain ⟨hin, hstart⟩ := not_or.1 h
  obtain ⟨m, rfl⟩ := hw.exists_cons String.utf8EncodeChar_ne_nil
  rw [octetsOf_append_cons hin, octetsOf_cons fun hc hs => hstart ⟨hc, hs⟩, ← hw.octetsOf_append]
  exact octetsOf_append_cons (not_inEscape_percent p (m ++ q))

/-- **A text decodes to what is written in its octets**, and to nothing if they are no UTF-8. -/
theorem decode?_eq_some_iff {s t : Text} :
    decode? s = some t ↔ octetsOf s = t.flatMap String.utf8EncodeChar := by
  have hread : read s = Utf8.read none ((octetsOf s).map .octet) := by
    rw [map_octet_octetsOf, Utf8.read_flatMap_octets Utf8.continues_none, read]
  rw [← Utf8.read_eq_map_some_iff, ← hread]
  constructor
  · exact eq_of_whole?
  · intro h
    rw [decode?, h, whole?_map_some]

theorem isSome_decode?_iff {s : Text} :
    (decode? s).isSome = true ↔ (octetsOf s).toByteArray.IsValidUTF8 := by
  rw [Option.isSome_iff_exists]
  constructor
  · rintro ⟨t, ht⟩
    exact ⟨t, congrArg List.toByteArray (decode?_eq_some_iff.1 ht)⟩
  · rintro ⟨t, ht⟩
    exact ⟨t, decode?_eq_some_iff.2 (List.toByteArray_inj.1 ht)⟩

/-! ## Encoding octet by octet -/

section

variable {safe : Char → Bool}

/-- An octet as the safe character that it is, or as its escape. -/
def written (safe : Char → Bool) (b : UInt8) : Text :=
  if safe (Char.ofNat b.toNat) then [Char.ofNat b.toNat] else escape b

/-- A text of safe characters, and of upper-case escapes of the octets that are none. -/
inductive Canonical (safe : Char → Bool) : Text → Prop
  | nil : Canonical safe []
  | char {c : Char} {r : Text} : safe c = true → Canonical safe r → Canonical safe (c :: r)
  | escape {b : UInt8} {r : Text} : safe (Char.ofNat b.toNat) = false → Canonical safe r →
      Canonical safe (escape b ++ r)

theorem canonical_flatMap_written (bs : List UInt8) :
    Canonical safe (bs.flatMap (written safe)) := by
  induction bs with
  | nil => exact .nil
  | cons b bs ih =>
    rw [List.flatMap_cons, written]
    split
    · rename_i hs
      exact .char hs ih
    · rename_i hs
      exact .escape (by simpa using hs) ih

variable (ascii : ∀ c, safe c = true → isAscii c = true)
include ascii

theorem written_of_le {b : UInt8} (hb : 0x80 ≤ b.toNat) : written safe b = escape b := by
  refine if_neg fun hs => ?_
  have hlow := isAscii_iff.1 (ascii _ hs)
  have hn := b.toNat_lt
  rw [toNat_ofNat (by omega)] at hlow
  omega

/-- A character is encoded octet by octet. -/
theorem encodeChar_eq_flatMap (c : Char) :
    encodeChar safe c = (String.utf8EncodeChar c).flatMap (written safe) := by
  by_cases hc : c.toNat < 0x80
  · have hoctet : Char.ofNat (UInt8.ofNat c.toNat).toNat = c := by
      rw [Utf8.toNat_octet (by omega), Char.ofNat_toNat]
    rw [encodeChar, Utf8.utf8EncodeChar_of_lt hc, List.flatMap_singleton, List.flatMap_singleton,
      written, hoctet]
  · have hs : ¬ safe c = true := fun hs => hc (isAscii_iff.1 (ascii c hs))
    rw [encodeChar, if_neg hs]
    refine List.flatMap_congr fun b hb => ?_
    exact (written_of_le ascii (Utf8.le_of_mem_utf8EncodeChar (by omega) b hb)).symm

theorem encode_eq_flatMap (t : Text) :
    encode safe t = (t.flatMap String.utf8EncodeChar).flatMap (written safe) := by
  rw [encode, List.flatMap_assoc]
  exact List.flatMap_congr fun c _ => encodeChar_eq_flatMap ascii c

variable (percent : safe '%' = false)
include percent

theorem Canonical.eq_flatMap {s : Text} (h : Canonical safe s) :
    s = (octetsOf s).flatMap (written safe) := by
  induction h with
  | nil => rfl
  | @char c r hc _ ih =>
    have hne : c ≠ '%' := by
      rintro rfl
      rw [percent] at hc
      cases hc
    have hlow := isAscii_iff.1 (ascii c hc)
    have hoctet : Char.ofNat (UInt8.ofNat c.toNat).toNat = c := by
      rw [Utf8.toNat_octet (by omega), Char.ofNat_toNat]
    have hcons : octetsOf (c :: r) = UInt8.ofNat c.toNat :: octetsOf r := by
      rw [octetsOf, unread_cons hne, unescaped, if_pos (ascii c hc)]
      rfl
    rw [hcons, List.flatMap_cons, written, hoctet, if_pos hc, ← ih]
    rfl
  | @escape b r hb _ ih =>
    have hcons : octetsOf (Percent.escape b ++ r) = b :: octetsOf r := by
      rw [octetsOf, unread_escape]
      rfl
    rw [hcons, List.flatMap_cons, written, if_neg (by simp [hb]), ← ih]

/-- A canonical text writes the octets that it stands for. -/
theorem canonical_iff {s : Text} : Canonical safe s ↔ s = (octetsOf s).flatMap (written safe) := by
  constructor
  · exact Canonical.eq_flatMap ascii percent
  · intro h
    rw [h]
    exact canonical_flatMap_written _

/-- **The encoded texts** are the canonical ones that stand for octets of a text. -/
theorem exists_encode_iff {s : Text} : (∃ t, s = encode safe t) ↔
    Canonical safe s ∧ (octetsOf s).toByteArray.IsValidUTF8 := by
  rw [← isSome_decode?_iff]
  constructor
  · rintro ⟨t, rfl⟩
    rw [decode?_encode ascii percent, encode_eq_flatMap ascii]
    exact ⟨canonical_flatMap_written _, rfl⟩
  · rintro ⟨hcanonical, hdecode⟩
    obtain ⟨t, ht⟩ := Option.isSome_iff_exists.1 hdecode
    refine ⟨t, ?_⟩
    rw [encode_eq_flatMap ascii, ← decode?_eq_some_iff.1 ht]
    exact (canonical_iff ascii percent).1 hcanonical

end

end Percent

end UrlRouting.Text
