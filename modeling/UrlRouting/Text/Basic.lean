/-!
# Texts

Everything a router reads and writes is a text: a list of characters, counted and cut by
character. A character is a Unicode scalar value, so no text holds a lone surrogate. Splitting at a
separator and joining again are `List.splitOn` and `List.intercalate`; this module adds the cuts at
one separator.

* `cut` divides a text at the **first** occurrence of a character.
* `cutLast` divides it at the **last** one.
* `cut_eq_some_iff` says that nothing is lost and that the first part is free of the separator.
-/

namespace UrlRouting

/-- A text, character by character. -/
abbrev Text := List Char

/-- A string literal stands for the list of its characters. -/
instance : Coe String Text := ⟨String.toList⟩

namespace Text

/-- The part before the first `d`, and the part after it if there is a `d`. -/
def cut (d : Char) : Text → Text × Option Text
  | [] => ([], none)
  | c :: t => if c = d then ([], some t) else (cut d t).map (c :: ·) id

/-- The part before the last `d` if there is a `d`, and the part after it. -/
def cutLast (d : Char) : Text → Option Text × Text
  | [] => (none, [])
  | c :: t =>
    match cutLast d t with
    | (some a, b) => (some (c :: a), b)
    | (none, b) => if c = d then (some [], b) else (none, c :: b)

/-- Join texts with the separator `d` between them. -/
abbrev join (d : Char) (ts : List Text) : Text := [d].intercalate ts

/-- A character of the 128 that one octet below 128 stands for. -/
def isAscii (c : Char) : Bool := c.toNat < 128

/-- Whether the code point of a character lies in one of some ranges, ends included. -/
def inRanges (ranges : List (Nat × Nat)) (c : Char) : Bool :=
  ranges.any fun (a, b) => a ≤ c.toNat && c.toNat ≤ b

/-! ## Laws of the cuts -/

theorem cut_none {d : Char} {t : Text} (h : d ∉ t) : cut d t = (t, none) := by
  induction t with
  | nil => rfl
  | cons c t ih =>
    simp only [List.mem_cons, not_or] at h
    simp [cut, Ne.symm h.1, ih h.2]

/-- A text free of the separator is what stands before the first one. -/
theorem cut_some {d : Char} {a : Text} (h : d ∉ a) (b : Text) :
    cut d (a ++ d :: b) = (a, some b) := by
  induction a with
  | nil => simp [cut]
  | cons c a ih =>
    simp only [List.mem_cons, not_or] at h
    simp [cut, Ne.symm h.1, ih h.2]

/-- **A cut loses nothing**, and its first part is free of the separator. -/
theorem cut_eq_some_iff {d : Char} {t a b : Text} :
    cut d t = (a, some b) ↔ d ∉ a ∧ t = a ++ d :: b := by
  refine ⟨fun h => ?_, fun ⟨ha, ht⟩ => ht ▸ cut_some ha b⟩
  by_cases hd : d ∈ t
  · obtain ⟨x, y, rfl, hx⟩ := List.eq_append_cons_of_mem hd
    rw [cut_some hx, Prod.mk.injEq, Option.some.injEq] at h
    obtain ⟨rfl, rfl⟩ := h
    exact ⟨hx, rfl⟩
  · rw [cut_none hd] at h
    cases h

theorem cutLast_none {d : Char} {t : Text} (h : d ∉ t) : cutLast d t = (none, t) := by
  induction t with
  | nil => rfl
  | cons c t ih =>
    simp only [List.mem_cons, not_or] at h
    simp [cutLast, ih h.2, Ne.symm h.1]

/-- A text free of the separator is what stands after the last one. -/
theorem cutLast_some {d : Char} {b : Text} (h : d ∉ b) (a : Text) :
    cutLast d (a ++ d :: b) = (some a, b) := by
  induction a with
  | nil => simp [cutLast, cutLast_none h]
  | cons c a ih => simp [cutLast, ih]

end Text

end UrlRouting
