import UrlRouting.Text.Basic

/-!
# Unions

A union `{a|b|c}` lists the literals that a segment or a query value is restricted to. Its body is
not empty and ends at the first closing brace; none of its alternatives may be empty.

* `Union.cut?` takes the body off a text that starts after the opening brace.
* `Union.alternatives?` splits a body.
-/

namespace UrlRouting.Pattern.Union

/-- The body of a union, and what follows its closing brace. -/
def cut? (t : Text) : Option (Text × Text) :=
  match Text.cut '\x7d' t with
  | (_ :: _, none) => none
  | ([], _) => none
  | (body, some rest) => some (body, rest)

/-- The alternatives of a body, unless one of them is empty. -/
def alternatives? (body : Text) : Option (List Text) :=
  if [] ∈ body.splitOn '|' then none else some (body.splitOn '|')

/-- A body between its braces. -/
def written (body : Text) : Text := '\x7b' :: body ++ ['\x7d']

/-- A text that may stand between the braces. -/
def IsBody (body : Text) : Prop := body ≠ [] ∧ '\x7d' ∉ body

/-! ## Laws -/

theorem cut?_eq_some_iff {t body rest : Text} :
    cut? t = some (body, rest) ↔ IsBody body ∧ t = body ++ '\x7d' :: rest := by
  have h := @Text.cut_eq_some_iff '\x7d' t body rest
  rw [IsBody, and_assoc, ← h, cut?]
  rcases Text.cut '\x7d' t with ⟨a, _ | b⟩
  · cases a <;> simp
  · cases a with
    | nil => simp +contextual
    | cons c a => simp +contextual [eq_comm]

theorem alternatives?_eq_some {body : Text} (h : [] ∉ body.splitOn '|') :
    alternatives? body = some (body.splitOn '|') := if_neg h

theorem alternatives?_eq_none {body : Text} (h : [] ∈ body.splitOn '|') :
    alternatives? body = none := if_pos h

end UrlRouting.Pattern.Union
