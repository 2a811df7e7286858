import UrlRouting.Pattern.Expression

/-!
# Readings of a path expression

The meaning of a path expression as an ordered choice: every item reads the start of a text in
some **ways**, the most preferred one first, and the first way that allows the rest to be read is
taken.

* `Item.ways` lists the ways of an item, and `firstReading` makes the choice.
* `captures?_eq_firstReading`: the table of `Expression.captures?` finds the first reading. The
  choice alone would try every combination of runs; the table reads every suffix once.
-/

namespace UrlRouting.Pattern

/-! ## Ways -/

/-- The words that start a text, each with the rest of the text. -/
def wordWays (words : List Text) (t : Text) : List (Text × Text) :=
  words.filterMap fun w => (w.isPrefixOf? t).map fun rest => (w, rest)

/-- The runs of allowed characters that start a text, each with the rest, the longest first. -/
def runWays (allowed : Char → Bool) : Text → List (Text × Text)
  | [] => []
  | c :: t =>
    if allowed c then (runWays allowed t).map (fun w => (c :: w.1, w.2)) ++ [([c], t)] else []

/-- The ways in which an item reads the start of a text. -/
def Item.ways : Item → Text → List (Text × Text)
  | slash => wordWays [['/']]
  | literal w => wordWays [w]
  | oneOf ws _ => wordWays ws
  | segment _ => runWays (· ≠ '/')
  | segments => runWays (· ≠ '\n')

/-- Whether what an item reads is captured. -/
def Item.captured : Item → Bool
  | slash => false
  | literal _ => false
  | oneOf _ captured => captured
  | segment captured => captured
  | segments => false

/-- The captured texts of the first way to read a whole text. -/
def firstReading : List Item → Text → Option (List Text)
  | [], t => if t = [] ∨ t = ['/'] then some [] else none
  | item :: rest, t =>
    (item.ways t).findSome? fun w => (firstReading rest w.2).map (record item.captured w.1)

/-! ## The table finds the first reading -/

/-- The row of a function of texts: its values at a text and at each of its suffixes. -/
def rowOf (f : Text → Option (List Text)) : Text → Row
  | [] => [f []]
  | c :: t => f (c :: t) :: rowOf f t

theorem first_rowOf (f : Text → Option (List Text)) (t : Text) : Row.first (rowOf f t) = f t := by
  cases t <;> rfl

theorem closingRow_eq (t : Text) : closingRow t = rowOf (firstReading []) t := by
  induction t with
  | nil => rfl
  | cons c t ih =>
    simp only [closingRow, rowOf, ih, firstReading]
    congr 1
    by_cases h : t = [] <;> simp [h]

theorem afterWord_rowOf (f : Text → Option (List Text)) (w t : Text) :
    afterWord w t (rowOf f t) = (w.isPrefixOf? t).bind f := by
  induction w generalizing t with
  | nil =>
    have hnil : ([] : Text).isPrefixOf? t = some t := rfl
    simp [afterWord, hnil, first_rowOf]
  | cons a w ih =>
    cases t with
    | nil => rfl
    | cons c t =>
      have hcons : (a :: w).isPrefixOf? (c :: t) =
          if a == c then w.isPrefixOf? t else none := rfl
      by_cases h : a = c
      · subst h
        simp [afterWord, rowOf, hcons, ih]
      · simp [afterWord, hcons, h]

/-- The choice among words after which a row goes on is the choice among their ways. -/
theorem findSome?_afterWord (f : Text → Option (List Text)) (ws : List Text) (b : Bool)
    (t : Text) :
    (ws.findSome? fun w => (afterWord w t (rowOf f t)).map (record b w)) =
      (wordWays ws t).findSome? fun w => (f w.2).map (record b w.1) := by
  induction ws with
  | nil => rfl
  | cons w ws ih =>
    simp only [wordWays, List.findSome?_cons, List.filterMap_cons, afterWord_rowOf] at ih ⊢
    cases h : w.isPrefixOf? t with
    | none => simpa [h] using ih
    | some r =>
      simp only [Option.bind_some, Option.map_some, List.findSome?_cons]
      rw [ih]

theorem wordsRow_rowOf (f : Text → Option (List Text)) (ws : List Text) (b : Bool) (t : Text) :
    wordsRow ws b t (rowOf f t) =
      rowOf (fun t => (wordWays ws t).findSome? fun w => (f w.2).map (record b w.1)) t := by
  induction t with
  | nil => simp [wordsRow, rowOf, ← findSome?_afterWord f ws b []]
  | cons c t ih =>
    have h := findSome?_afterWord f ws b (c :: t)
    simp only [wordsRow, rowOf, List.tail_cons, ih] at h ⊢
    rw [h]

/-- The run found at the start of a text is the first one after which the rest is read. -/
theorem headD_runs (f : Text → Option (List Text)) (allowed : Char → Bool) (t : Text) :
    (runs allowed t (rowOf f t)).headD none =
      (runWays allowed t).findSome? fun w => (f w.2).map fun caps => (w.1, caps) := by
  induction t with
  | nil => rfl
  | cons c t ih =>
    simp only [runs, rowOf, List.tail_cons, List.headD_cons, ih, runWays, first_rowOf]
    by_cases h : allowed c = true
    · simp only [h, if_true, List.findSome?_append, List.findSome?_map, List.findSome?_cons,
        List.findSome?_nil]
      generalize runWays allowed t = ws
      induction ws with
      | nil => cases f t <;> rfl
      | cons w ws ihw =>
        simp only [List.findSome?_cons, Function.comp_apply]
        cases hf : f w.2 with
        | none => simpa using ihw
        | some caps => rfl
    · simp [h]

theorem runRow_rowOf (f : Text → Option (List Text)) (allowed : Char → Bool) (b : Bool)
    (t : Text) :
    runRow allowed b t (rowOf f t) =
      rowOf (fun t => (runWays allowed t).findSome? fun w => (f w.2).map (record b w.1)) t := by
  have first (t : Text) :
      ((runs allowed t (rowOf f t)).headD none).map (fun found => record b found.1 found.2) =
        (runWays allowed t).findSome? fun w => (f w.2).map (record b w.1) := by
    rw [headD_runs, List.map_findSome?]
    congr 1
    funext w
    simp only [Function.comp_apply]
    cases f w.2 <;> rfl
  induction t with
  | nil => rfl
  | cons c t ih =>
    have h := first (c :: t)
    simp only [runRow, runs, rowOf, List.tail_cons, List.map_cons, List.headD_cons] at ih h ⊢
    rw [ih, ← h]

/-- The row of an item holds its choices at every suffix. -/
theorem Item.row_rowOf (f : Text → Option (List Text)) (item : Item) (t : Text) :
    item.row t (rowOf f t) =
      rowOf (fun t =>
        (item.ways t).findSome? fun w => (f w.2).map (record item.captured w.1)) t := by
  cases item with
  | slash => exact wordsRow_rowOf f _ _ t
  | literal w => exact wordsRow_rowOf f _ _ t
  | oneOf ws b => exact wordsRow_rowOf f _ _ t
  | segment b => exact runRow_rowOf f _ _ t
  | segments => exact runRow_rowOf f _ _ t

/-- **The table finds the first reading.** -/
theorem captures?_eq_firstReading (e : Expression) (t : Text) :
    e.captures? t = firstReading e.items t := by
  have rows (items : List Item) :
      items.foldr (Item.row t) (closingRow t) = rowOf (firstReading items) t := by
    induction items with
    | nil => exact closingRow_eq t
    | cons item items ih => rw [List.foldr_cons, ih, Item.row_rowOf]; rfl
  rw [Expression.captures?, rows, first_rowOf]

end UrlRouting.Pattern
