import UrlRouting.Text.Decimal
import UrlRouting.Text.Quoted

/-!
# Texts on one line

A text on one line holds no line feed and no carriage return.

* `oneLine_append`, `oneLine_cons`, `oneLine_flatMap`: a text of parts on one line.
* `oneLine_decimal`: digits are on one line.
* `oneLine_quote`: **a quoted text is on one line, whatever is quoted**.
-/

namespace UrlRouting.Text

/-- The text holds no line feed and no carriage return. -/
def OneLine (t : Text) : Prop := '\n' ∉ t ∧ '\r' ∉ t

instance (t : Text) : Decidable (OneLine t) :=
  inferInstanceAs (Decidable ('\n' ∉ t ∧ '\r' ∉ t))

/-! ## Parts -/

theorem oneLine_append {s t : Text} : OneLine (s ++ t) ↔ OneLine s ∧ OneLine t := by
  simp only [OneLine, List.mem_append, not_or]
  exact and_and_and_comm

theorem oneLine_cons {c : Char} {t : Text} : OneLine (c :: t) ↔ OneLine [c] ∧ OneLine t :=
  oneLine_append (s := [c])

theorem oneLine_singleton {c : Char} : OneLine [c] ↔ c ≠ '\n' ∧ c ≠ '\r' := by
  simp only [OneLine, List.mem_singleton, ne_eq, eq_comm]

theorem oneLine_of_forall {t : Text} (h : ∀ c ∈ t, OneLine [c]) : OneLine t := by
  induction t with
  | nil => decide
  | cons c t ih =>
    rw [List.forall_mem_cons] at h
    exact oneLine_cons.2 ⟨h.1, ih h.2⟩

theorem oneLine_flatMap {t : Text} {f : Char → Text} (h : ∀ c, OneLine (f c)) :
    OneLine (t.flatMap f) := by
  induction t with
  | nil => exact ⟨List.not_mem_nil, List.not_mem_nil⟩
  | cons c t ih => exact oneLine_append.2 ⟨h c, ih⟩

/-! ## Digits -/

theorem oneLine_toDigits {b : Nat} (hb : 1 < b) (hle : b ≤ 16) (n : Nat) :
    OneLine (Nat.toDigits b n) := by
  have hdigit : ∀ d < 16, OneLine [Nat.digitChar d] := by decide
  induction n using Nat.strongRecOn with
  | ind n ih =>
    by_cases hn : n < b
    · rw [Nat.toDigits_of_lt_base hn]
      exact hdigit n (by omega)
    · have hmod := Nat.mod_lt n (Nat.lt_of_succ_lt hb)
      rw [Nat.toDigits_of_base_le hb (Nat.not_lt.1 hn), oneLine_append]
      exact ⟨ih (n / b) (Nat.div_lt_self (by omega) hb), hdigit (n % b) (by omega)⟩

theorem oneLine_decimal (n : Nat) : OneLine (decimal n) :=
  oneLine_toDigits (by decide) (by decide) n

theorem oneLine_hexDigits (width n : Nat) : OneLine (hexDigits width n) := by
  rw [hexDigits, oneLine_append]
  refine ⟨oneLine_of_forall fun c hc => ?_, oneLine_toDigits (by decide) (by decide) n⟩
  rw [List.eq_of_mem_replicate hc]
  decide

/-! ## Quoted texts -/

theorem oneLine_codeEscape (c : Char) : OneLine (codeEscape c) := by
  have hescape {mark : Char} (hmark : OneLine ['\\', mark]) (width : Nat) :
      OneLine ('\\' :: mark :: hexDigits width c.toNat) :=
    oneLine_append (s := ['\\', mark]).2 ⟨hmark, oneLine_hexDigits width c.toNat⟩
  unfold codeEscape
  split
  · exact hescape (by decide) 2
  · split
    · exact hescape (by decide) 4
    · exact hescape (by decide) 8

/-- No character is written as a line break between quotes. -/
theorem oneLine_escapeChar {q : Char} (hq : OneLine [q]) (c : Char) :
    OneLine (escapeChar q c) := by
  unfold escapeChar
  split
  · rename_i h
    rcases h with rfl | rfl
    · exact oneLine_cons.2 ⟨by decide, hq⟩
    · decide
  split
  · decide
  split
  · decide
  split
  · decide
  split
  · rename_i hfeed hreturn _ _
    exact oneLine_singleton.2 ⟨hfeed, hreturn⟩
  · exact oneLine_codeEscape c

theorem oneLine_quoteMark (t : Text) : OneLine [quoteMark t] := by
  unfold quoteMark
  split
  · decide
  · decide

/-- **A quoted text is on one line.** -/
theorem oneLine_quote (t : Text) : OneLine (quote t) := by
  have hmark := oneLine_quoteMark t
  rw [quote, oneLine_append, oneLine_cons]
  exact ⟨⟨hmark, oneLine_flatMap (oneLine_escapeChar hmark)⟩, hmark⟩

end UrlRouting.Text
