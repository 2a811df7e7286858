import UrlRouting.Pattern.Union
import UrlRouting.Url.Path

/-!
# Path tokens

A pattern path is a list of tokens, one for each segment that is not empty:

* `foo` is a literal segment and `{a|b}` one of several;
* `:name` captures one segment, and `:name{a|b}` one of several;
* `*` stands for any one segment and `**` for one or more.

A segment is classified by its **decoded** form (`Token.ofSegment`), so every spelling of it gives
the same token. A literal is kept in its normal form, the alternatives of a union decoded.
-/

namespace UrlRouting.Pattern

/-- What one segment of a pattern path asks for. -/
inductive Token where
  /-- The segment with this normal form. -/
  | literal (segment : Text)
  /-- One of these texts, encoded as a segment. -/
  | union (alternatives : List Text)
  /-- Any one segment, under a name. -/
  | capture (name : Text)
  /-- One of these texts, under a name. -/
  | choice (name : Text) (alternatives : List Text)
  /-- Any one segment. -/
  | anySegment
  /-- One or more segments. -/
  | anySegments
deriving DecidableEq

namespace Token

/-- The name that a token captures a segment under. -/
def name? : Token → Option Text
  | capture name => some name
  | choice name _ => some name
  | literal _ => none
  | union _ => none
  | anySegment => none
  | anySegments => none

/-- The outer form of a token: whether a colon starts it, its text up to a brace, and the body of
the union that ends it. -/
structure Shape where
  marked : Bool
  name : Text
  body : Option Text

/-- Cut a decoded segment into its outer form. -/
def Shape.ofText? (t : Text) : Option Shape :=
  let (marked, unmarked) :=
    match t with
    | ':' :: r => (true, r)
    | r => (false, r)
  let name := unmarked.takeWhile (· ≠ '\x7b')
  match unmarked.dropWhile (· ≠ '\x7b') with
  | [] => some ⟨marked, name, none⟩
  | _ :: r =>
    match Union.cut? r with
    | some (body, []) => some ⟨marked, name, some body⟩
    | _ => none

/-- The alternatives of a body; an empty one is blamed on the union. -/
def alternatives (body : Text) : Except Text (List Text) :=
  match Union.alternatives? body with
  | some alternatives => .ok alternatives
  | none => .error (Union.written body)

/-- The token of a segment that is not empty. A segment of no known form fails with the text to
blame: its decoded form, or the union in it that has an empty alternative. -/
def ofSegment (segment : Text) : Except Text Token :=
  let decoded := Text.Percent.decode segment
  match Shape.ofText? decoded with
  | some ⟨false, [], some body⟩ => (alternatives body).map union
  | some ⟨false, ['*'], none⟩ => .ok anySegment
  | some ⟨false, ['*', '*'], none⟩ => .ok anySegments
  | some ⟨false, _ :: _, none⟩ => .ok (literal (Segment.normalForm segment))
  | some ⟨true, c :: name, none⟩ => .ok (capture (c :: name))
  | some ⟨true, c :: name, some body⟩ => (alternatives body).map (choice (c :: name))
  | _ => .error decoded

/-- The tokens of a path; empty segments have none, and the first bad segment is blamed. -/
def ofPath (path : Text) : Except Text (List Token) :=
  ((path.splitOn '/').filter (· ≠ [])).mapM ofSegment

end Token

end UrlRouting.Pattern
