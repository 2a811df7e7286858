import UrlRouting.Text.Basic

/-!
# UTF-8 with replacement

A character is written as one to four octets (`String.utf8EncodeChar`). Reading goes the other
way, one octet at a time, over a stream in which some characters may already be known: an octet
sequence never runs across such a character.

* `Unread` is a stream of octets and known characters; `read` gives the characters it holds, with
  `none` for every **maximal** part of the stream that begins a character and does not finish it.
* `Pending` is what a begun character still needs: the range of its next octet, how many follow
  after that one, and the bits so far. The ranges are those of the table of well-formed sequences,
  so no overlong form, no surrogate and nothing above the last code point is read.
* `read_octets` says that the octets of a character are read as that character, whatever follows.
-/

namespace UrlRouting.Text.Utf8

/-- An octet still to be read, or a character that needs no reading. -/
inductive Unread where
  | octet (b : UInt8)
  | char (c : Char)

/-- What a begun character needs: its next octet lies in `low … high`, `more` octets follow that
one, and `bits` holds the bits read so far. -/
structure Pending where
  low : Nat
  high : Nat
  more : Nat
  bits : Nat

/-- What the first octet of a character says. -/
inductive Lead where
  | done (c : Char)
  | begun (p : Pending)
  | invalid

/-- The meaning of `b` as a first octet. -/
def lead (b : Nat) : Lead :=
  if b < 0x80 then .done (Char.ofNat b)
  else if b < 0xC2 then .invalid
  else if b < 0xE0 then .begun ⟨0x80, 0xBF, 0, b - 0xC0⟩
  else if b = 0xE0 then .begun ⟨0xA0, 0xBF, 1, 0⟩
  else if b = 0xED then .begun ⟨0x80, 0x9F, 1, 0xD⟩
  else if b < 0xF0 then .begun ⟨0x80, 0xBF, 1, b - 0xE0⟩
  else if b = 0xF0 then .begun ⟨0x90, 0xBF, 2, 0⟩
  else if b < 0xF4 then .begun ⟨0x80, 0xBF, 2, b - 0xF0⟩
  else if b = 0xF4 then .begun ⟨0x80, 0x8F, 2, 4⟩
  else .invalid

/-- Read an octet between characters: what it yields, and what is then pending. -/
def start (b : Nat) : List (Option Char) × Option Pending :=
  match lead b with
  | .done c => ([some c], none)
  | .begun p => ([], some p)
  | .invalid => ([none], none)

/-- Read an octet inside a character; one out of range ends the character unfinished and is read
again as a first octet. -/
def Pending.next (p : Pending) (b : Nat) : List (Option Char) × Option Pending :=
  if p.low ≤ b ∧ b ≤ p.high then
    let bits := p.bits * 64 + (b - 0x80)
    match p.more with
    | 0 => ([some (Char.ofNat bits)], none)
    | more + 1 => ([], some ⟨0x80, 0xBF, more, bits⟩)
  else (none :: (start b).1, (start b).2)

/-- Read one octet after what is pending. -/
def next : Option Pending → Nat → List (Option Char) × Option Pending
  | none, b => start b
  | some p, b => p.next b

/-- What a pending character yields when it can get no further octet. -/
def flush : Option Pending → List (Option Char)
  | none => []
  | some _ => [none]

/-- The characters of a stream; `none` stands for octets that form no character. -/
def read (p : Option Pending) : List Unread → List (Option Char)
  | [] => flush p
  | .char c :: r => flush p ++ some c :: read none r
  | .octet b :: r => (next p b.toNat).1 ++ read (next p b.toNat).2 r

/-! ## Reading yields something -/

/-- A begun character yields something, whatever follows. -/
theorem read_pending_ne_nil (p : Pending) (r : List Unread) : read (some p) r ≠ [] := by
  induction r generalizing p with
  | nil => simp [read, flush]
  | cons u r ih =>
    cases u with
    | char c => simp [read, flush]
    | octet b =>
      simp only [read, next, Pending.next]
      split
      · split
        · simp
        · simpa using ih _
      · simp

theorem read_ne_nil {r : List Unread} (h : r ≠ []) : read none r ≠ [] := by
  cases r with
  | nil => exact absurd rfl h
  | cons u r =>
    cases u with
    | char c => simp [read, flush]
    | octet b =>
      simp only [read, next, start]
      split
      · simp
      · simpa using read_pending_ne_nil _ r
      · simp

/-! ## Reading back what was written -/

theorem utf8EncodeChar_of_lt {c : Char} (h : c.toNat < 0x80) :
    String.utf8EncodeChar c = [UInt8.ofNat c.toNat] :=
  if_pos (Nat.lt_succ_iff.1 h)

theorem lead_two {b : Nat} (h : 0xC2 ≤ b) (h' : b < 0xE0) :
    lead b = .begun ⟨0x80, 0xBF, 0, b - 0xC0⟩ := by
  simp [lead, show ¬b < 0x80 by omega, show ¬b < 0xC2 by omega, h']

/-- The first octet of three; two values narrow the range of the second. -/
theorem lead_three {b : Nat} (h : 0xE0 ≤ b) (h' : b < 0xF0) :
    lead b = .begun ⟨if b = 0xE0 then 0xA0 else 0x80, if b = 0xED then 0x9F else 0xBF, 1,
      b - 0xE0⟩ := by
  simp only [lead, show ¬b < 0x80 by omega, show ¬b < 0xC2 by omega, show ¬b < 0xE0 by omega, h',
    if_false, if_true]
  split
  · subst_vars; rfl
  · split
    · subst_vars; rfl
    · rfl

/-- The first octet of four; two values narrow the range of the second. -/
theorem lead_four {b : Nat} (h : 0xF0 ≤ b) (h' : b < 0xF5) :
    lead b = .begun ⟨if b = 0xF0 then 0x90 else 0x80, if b = 0xF4 then 0x8F else 0xBF, 2,
      b - 0xF0⟩ := by
  simp only [lead, show ¬b < 0x80 by omega, show ¬b < 0xC2 by omega, show ¬b < 0xE0 by omega,
    show b ≠ 0xE0 by omega, show b ≠ 0xED by omega, show ¬b < 0xF0 by omega, if_false]
  split
  · subst_vars; rfl
  · split
    · simp [show b ≠ 0xF4 by omega]
    · have : b = 0xF4 := by omega
      subst this; rfl

theorem read_begun {b : UInt8} {p : Pending} (h : lead b.toNat = .begun p) (r : List Unread) :
    read none (.octet b :: r) = read (some p) r := by
  simp [read, next, start, h]

theorem read_last {b : UInt8} {p : Pending} (h : p.low ≤ b.toNat ∧ b.toNat ≤ p.high)
    (hm : p.more = 0) (r : List Unread) :
    read (some p) (.octet b :: r) =
      some (Char.ofNat (p.bits * 64 + (b.toNat - 0x80))) :: read none r := by
  simp [read, next, Pending.next, h, hm]

/-- An octet in the middle of a character adds its six bits. -/
theorem read_more {b : UInt8} {p : Pending} (h : p.low ≤ b.toNat ∧ b.toNat ≤ p.high)
    {m : Nat} (hm : p.more = m + 1) (r : List Unread) :
    read (some p) (.octet b :: r) =
      read (some ⟨0x80, 0xBF, m, p.bits * 64 + (b.toNat - 0x80)⟩) r := by
  simp [read, next, Pending.next, h, hm]

theorem toNat_octet {k : Nat} (h : k < 256) : (UInt8.ofNat k).toNat = k := by
  simp [UInt8.toNat_ofNat', Nat.mod_eq_of_lt h]

/-- The octets of a character are read as that character. -/
theorem read_octets (c : Char) (r : List Unread) :
    read none ((String.utf8EncodeChar c).map .octet ++ r) = some c :: read none r := by
  have hc : Char.ofNat c.val.toNat = c := by simp
  have hv : c.val.toNat < 0xD800 ∨ 0xDFFF < c.val.toNat ∧ c.val.toNat < 0x110000 := c.valid
  simp only [String.utf8EncodeChar]
  generalize c.val.toNat = n at hc hv
  split
  · rename_i h
    have hb : (UInt8.ofNat n).toNat = n := toNat_octet (by omega)
    simp [read, next, start, lead, hb, show n < 128 by omega, hc]
  split
  · have h0 : (UInt8.ofNat (n / 64 % 32 + 192)).toNat = n / 64 + 192 := by
      rw [toNat_octet (by omega)]; omega
    have h1 : (UInt8.ofNat (n % 64 + 128)).toNat = n % 64 + 128 := toNat_octet (by omega)
    simp only [List.map_cons, List.map_nil, List.cons_append, List.nil_append]
    rw [read_begun (by rw [h0]; exact lead_two (by omega) (by omega)),
      read_last (by simp only [h1]; omega) rfl]
    simp only [h1]
    rw [show (n / 64 + 192 - 0xC0) * 64 + (n % 64 + 128 - 0x80) = n by omega, hc]
  split
  · have h0 : (UInt8.ofNat (n / 4096 % 16 + 224)).toNat = n / 4096 + 224 := by
      rw [toNat_octet (by omega)]; omega
    have h1 : (UInt8.ofNat (n / 64 % 64 + 128)).toNat = n / 64 % 64 + 128 := toNat_octet (by omega)
    have h2 : (UInt8.ofNat (n % 64 + 128)).toNat = n % 64 + 128 := toNat_octet (by omega)
    simp only [List.map_cons, List.map_nil, List.cons_append, List.nil_append]
    rw [read_begun (by rw [h0]; exact lead_three (by omega) (by omega)),
      read_more (m := 0) (by simp only [h1]; split <;> split <;> omega) rfl,
      read_last (by simp only [h2]; omega) rfl]
    simp only [h1, h2]
    rw [show ((n / 4096 + 224 - 0xE0) * 64 + (n / 64 % 64 + 128 - 0x80)) * 64 +
      (n % 64 + 128 - 0x80) = n by omega, hc]
  · have h0 : (UInt8.ofNat (n / 262144 % 8 + 240)).toNat = n / 262144 + 240 := by
      rw [toNat_octet (by omega)]; omega
    have h1 : (UInt8.ofNat (n / 4096 % 64 + 128)).toNat = n / 4096 % 64 + 128 :=
      toNat_octet (by omega)
    have h2 : (UInt8.ofNat (n / 64 % 64 + 128)).toNat = n / 64 % 64 + 128 := toNat_octet (by omega)
    have h3 : (UInt8.ofNat (n % 64 + 128)).toNat = n % 64 + 128 := toNat_octet (by omega)
    simp only [List.map_cons, List.map_nil, List.cons_append, List.nil_append]
    rw [read_begun (by rw [h0]; exact lead_four (by omega) (by omega)),
      read_more (m := 1) (by simp only [h1]; split <;> split <;> omega) rfl,
      read_more (m := 0) (by simp only [h2]; omega) rfl,
      read_last (by simp only [h3]; omega) rfl]
    simp only [h1, h2, h3]
    rw [show (((n / 262144 + 240 - 0xF0) * 64 + (n / 4096 % 64 + 128 - 0x80)) * 64 +
      (n / 64 % 64 + 128 - 0x80)) * 64 + (n % 64 + 128 - 0x80) = n by omega, hc]

end UrlRouting.Text.Utf8
