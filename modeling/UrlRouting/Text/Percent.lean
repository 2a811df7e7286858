import UrlRouting.Text.Utf8

/-!
# Percent-encoding

An escape is a `%` with two hexadecimal digits and stands for one octet. Encoding writes the
characters of a chosen safe set as they are and the UTF-8 octets of every other one as escapes
with upper-case digits.

Decoding reads **every** text: a `%` without two hexadecimal digits stands for itself, and a
character outside ASCII stands for itself and ends any octet sequence before it, so an escape
sequence is never read across such a character.

* `decode` puts U+FFFD for octets that form no character.
* `decode?` refuses a text that has such octets.
* `decode?_encode` says that decoding gives back what was encoded.
-/

namespace UrlRouting.Text.Percent

/-- The value of a hexadecimal digit of either case. -/
def hexValue? (c : Char) : Option Nat :=
  if '0' ≤ c ∧ c ≤ '9' then some (c.toNat - '0'.toNat)
  else if 'A' ≤ c ∧ c ≤ 'F' then some (c.toNat - 'A'.toNat + 10)
  else if 'a' ≤ c ∧ c ≤ 'f' then some (c.toNat - 'a'.toNat + 10)
  else none

/-- The upper-case hexadecimal digit of a value below 16. -/
def hexDigit (n : Nat) : Char :=
  if n < 10 then Char.ofNat ('0'.toNat + n) else Char.ofNat ('A'.toNat + (n - 10))

/-- The octet that three characters escape, if they are a `%` and two hexadecimal digits. -/
def octet? (c a b : Char) : Option UInt8 :=
  match c, hexValue? a, hexValue? b with
  | '%', some x, some y => some (UInt8.ofNat (16 * x + y))
  | _, _, _ => none

/-- The escape of an octet. -/
def escape (b : UInt8) : Text := ['%', hexDigit (b.toNat / 16), hexDigit (b.toNat % 16)]

/-! ## Encoding -/

/-- ASCII letters, digits and `-`, `.`, `_`, `~`, which every encoding leaves as they are. -/
def isUnreserved (c : Char) : Bool := c.isAlphanum || "-._~".toList.contains c

/-- A character as it is if it is safe, else the escapes of its octets. -/
def encodeChar (safe : Char → Bool) (c : Char) : Text :=
  if safe c then [c] else (String.utf8EncodeChar c).flatMap escape

/-- Encode every character that is not safe. -/
def encode (safe : Char → Bool) (t : Text) : Text := t.flatMap (encodeChar safe)

/-! ## Decoding -/

/-- A character that is not part of an escape: an octet if it is ASCII. -/
def unescaped (c : Char) : Utf8.Unread :=
  if isAscii c then .octet (UInt8.ofNat c.toNat) else .char c

/-- The octets and the characters outside ASCII that a text stands for. -/
def unread : Text → List Utf8.Unread
  | [] => []
  | c :: a :: b :: r =>
    match octet? c a b with
    | some o => .octet o :: unread r
    | none => unescaped c :: unread (a :: b :: r)
  | c :: t => unescaped c :: unread t

/-- The characters a text stands for, with `none` for octets that form no character. -/
def read (t : Text) : List (Option Char) := Utf8.read none (unread t)

/-- Decode a text, with U+FFFD for octets that form no character. -/
def decode (t : Text) : Text := (read t).map fun c => c.getD '\uFFFD'

/-- All characters of a list that misses none. -/
def whole? : List (Option Char) → Option Text
  | [] => some []
  | none :: _ => none
  | some c :: r => (whole? r).map (c :: ·)

/-- Decode a text, unless some of its octets form no character. -/
def decode? (t : Text) : Option Text := whole? (read t)

/-! ## Decoding yields something -/

theorem unread_ne_nil {t : Text} (h : t ≠ []) : unread t ≠ [] := by
  unfold unread
  split
  · exact absurd rfl h
  · split <;> simp
  · simp

theorem decode_ne_nil {t : Text} (h : t ≠ []) : decode t ≠ [] := by
  simpa [decode, read] using Utf8.read_ne_nil (unread_ne_nil h)

theorem ne_nil_of_decode? {t r : Text} (h : t ≠ []) (hr : decode? t = some r) : r ≠ [] := by
  have hread : read t ≠ [] := Utf8.read_ne_nil (unread_ne_nil h)
  rintro rfl
  unfold decode? at hr
  match hw : read t with
  | [] => exact hread hw
  | none :: l => simp [hw, whole?] at hr
  | some c :: l => simp [hw, whole?] at hr

/-! ## Decoding what was encoded -/

theorem hexValue?_hexDigit {n : Nat} (h : n < 16) : hexValue? (hexDigit n) = some n := by
  revert n; decide

/-- An escape writes its octet. -/
theorem octet?_escape (b : UInt8) :
    octet? '%' (hexDigit (b.toNat / 16)) (hexDigit (b.toNat % 16)) = some b := by
  have hb : b.toNat < 256 := b.toNat_lt
  simp only [octet?, hexValue?_hexDigit (show b.toNat / 16 < 16 by omega),
    hexValue?_hexDigit (show b.toNat % 16 < 16 by omega)]
  rw [show 16 * (b.toNat / 16) + b.toNat % 16 = b.toNat by omega, UInt8.ofNat_toNat]

/-- An escape is read as its octet. -/
theorem unread_escape (b : UInt8) (r : Text) : unread (escape b ++ r) = .octet b :: unread r := by
  simp [escape, unread, octet?_escape]

theorem unread_cons {c : Char} (h : c ≠ '%') (r : Text) :
    unread (c :: r) = unescaped c :: unread r := by
  have ho (a b : Char) : octet? c a b = none := by
    unfold octet?; split <;> simp_all
  match r with
  | [] => simp [unread]
  | [a] => simp [unread]
  | a :: b :: r => simp [unread, ho]

/-- The escapes of some octets are read as those octets. -/
theorem unread_escapes (bs : List UInt8) (r : Text) :
    unread (bs.flatMap escape ++ r) = bs.map .octet ++ unread r := by
  induction bs with
  | nil => rfl
  | cons b bs ih => simp [unread_escape, ih]

/-- An encoded text is read as the characters it encodes, whatever follows. -/
theorem read_encode_append {safe : Char → Bool} (ascii : ∀ c, safe c = true → isAscii c = true)
    (percent : safe '%' = false) (t r : Text) :
    read (encode safe t ++ r) = t.map some ++ read r := by
  induction t with
  | nil => rfl
  | cons c t ih =>
    simp only [read] at ih
    simp only [encode, List.flatMap_cons, List.append_assoc, read] at ih ⊢
    by_cases h : safe c = true
    · have hc : c ≠ '%' := by rintro rfl; simp [percent] at h
      have hn : c.toNat < 128 := by simpa [isAscii] using ascii c h
      have he := Utf8.utf8EncodeChar_of_lt hn
      have := Utf8.read_octets c (unread (List.flatMap (encodeChar safe) t ++ r))
      simp only [he, List.map_cons, List.map_nil, List.cons_append, List.nil_append] at this
      simp only [encodeChar, h, if_true, List.cons_append, List.nil_append, unread_cons hc,
        unescaped, ascii c h, List.map_cons, this, ih]
    · simp only [encodeChar, h, unread_escapes, Utf8.read_octets, ih, List.map_cons,
        List.cons_append, if_false, Bool.false_eq_true]

theorem whole?_map_some (t : Text) : whole? (t.map some) = some t := by
  induction t with
  | nil => rfl
  | cons c t ih => simp [whole?, ih]

/-- Decoding gives back what was encoded. -/
theorem decode?_encode {safe : Char → Bool} (ascii : ∀ c, safe c = true → isAscii c = true)
    (percent : safe '%' = false) (t : Text) : decode? (encode safe t) = some t := by
  have := read_encode_append ascii percent t []
  simp only [List.append_nil] at this
  rw [decode?, this, show read [] = [] from rfl, List.append_nil, whole?_map_some]

end UrlRouting.Text.Percent
