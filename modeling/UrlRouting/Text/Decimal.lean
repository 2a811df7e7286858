import UrlRouting.Text.Basic

/-!
# Decimal text

Natural numbers in decimal digits: written without leading zeros, read with any number of them.

* `decimal` writes a number and `decimal?` reads one.
* `decimal?_padded` says that what is written is read back, also behind zeros.
* `eq_zero_of_head?_decimal` says that there are no leading zeros.
-/

namespace UrlRouting.Text

/-- The decimal digits of a number, without leading zeros. -/
def decimal (n : Nat) : Text := Nat.toDigits 10 n

/-- The number that a non-empty text of decimal digits writes. -/
def decimal? (t : Text) : Option Nat :=
  if t ≠ [] ∧ t.all Char.isDigit then some (Nat.ofDigitChars 10 t 0) else none

theorem ofDigitChars_zeros (zeros : Nat) :
    Nat.ofDigitChars 10 (List.replicate zeros '0') 0 = 0 := by
  induction zeros with
  | zero => rfl
  | succ zeros ih =>
    rw [List.replicate_succ, Nat.ofDigitChars_cons]
    exact ih

/-- A number is read back from its digits, with any number of zeros before them. -/
theorem decimal?_padded (zeros n : Nat) :
    decimal? (List.replicate zeros '0' ++ decimal n) = some n := by
  have h : (List.replicate zeros '0' ++ Nat.toDigits 10 n).all Char.isDigit = true := by
    rw [List.all_append, List.all_replicate, Bool.and_eq_true]
    refine ⟨by split <;> rfl, List.all_eq_true.2 fun c hc => ?_⟩
    exact Nat.isDigit_of_mem_toDigits (by decide) (by decide) hc
  have hne : List.replicate zeros '0' ++ Nat.toDigits 10 n ≠ [] := by simp
  rw [decimal?, decimal, if_pos ⟨hne, h⟩, Nat.ofDigitChars_append, ofDigitChars_zeros,
    Nat.ofDigitChars_toDigits (by decide) (by decide)]

theorem decimal?_decimal (n : Nat) : decimal? (decimal n) = some n := decimal?_padded 0 n

/-- Only the number zero starts with the digit zero. -/
theorem eq_zero_of_head?_decimal {n : Nat} (h : (decimal n).head? = some '0') : n = 0 := by
  induction n using Nat.strongRecOn with
  | ind n ih =>
    unfold decimal at h ih
    by_cases hn : n < 10
    · have hdigit : ∀ m, m < 10 → Nat.digitChar m = '0' → m = 0 := by decide
      rw [Nat.toDigits_of_lt_base hn] at h
      exact hdigit n hn (Option.some.inj h)
    · have hsome : (Nat.toDigits 10 (n / 10)).head?.isSome = true := by simp
      rw [Nat.toDigits_of_base_le (by decide) (Nat.not_lt.1 hn), List.head?_append,
        Option.or_of_isSome hsome] at h
      have hzero := ih (n / 10) (by omega) h
      omega

end UrlRouting.Text
