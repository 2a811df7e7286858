import UrlRouting.OrderedMap
import UrlRouting.Pattern.Union
import UrlRouting.Query

/-!
# Query fields

The query of a pattern lists the fields to take from the query of a URL:

* `name` takes the first value, and `name[]` all of them, in order;
* `name{a|b}` and `name{a|b}[]` take only the values listed.

`QueryField.search` takes all fields of a pattern. A key that does not occur gives nothing, and so
does a first value that is not admitted; neither takes away what an earlier field of the same name
gave.
-/

namespace UrlRouting.Pattern

/-- A field that a pattern takes from a query; with no allowed values it admits every one. -/
structure QueryField where
  name : Text
  isList : Bool
  allowed : List Text
deriving DecidableEq

/-- What a field takes: one value, or a list of them. -/
inductive SearchValue where
  | one (value : Text)
  | many (values : List Text)
deriving DecidableEq

namespace QueryField

/-! ## Reading a field -/

/-- Whether a character may not stand in the written name of a field. -/
def endsName (c : Char) : Bool := c = '\x7b' || c = '[' || c = ']'

/-- What may follow the name and the union of a field: `[]` marks a list. -/
def listMark? : Text → Option Bool
  | [] => some false
  | ['[', ']'] => some true
  | _ => none

/-- Read a piece of a pattern's query. It fails with the text to blame: the piece, or the union in
it that has an empty alternative. -/
def ofPiece (piece : Text) : Except Text QueryField :=
  let name := piece.takeWhile (!endsName ·)
  let rest := piece.dropWhile (!endsName ·)
  let (body, rest) :=
    match rest with
    | '\x7b' :: r =>
      match Union.cut? r with
      | some (body, rest) => (some body, rest)
      | none => (none, '\x7b' :: r)
    | rest => (none, rest)
  match name, listMark? rest, body with
  | [], _, _ => .error piece
  | _, none, _ => .error piece
  | name, some isList, none => .ok ⟨Query.decode name, isList, []⟩
  | name, some isList, some body =>
    match Union.alternatives? body with
    | some alternatives => .ok ⟨Query.decode name, isList, alternatives.map Query.decode⟩
    | none => .error (Union.written body)

/-- The fields of a pattern's query; the first bad piece is blamed. -/
def ofQuery (query : Text) : Except Text (List QueryField) := (Query.pieces query).mapM ofPiece

/-! ## Taking values -/

/-- Whether a field admits a value. -/
def admits (f : QueryField) (value : Text) : Bool := f.allowed.isEmpty || f.allowed.contains value

/-- The cause for which nothing can be taken: a single value is wanted and there is none. -/
inductive Error where
  | noValue

/-- The wording of the cause. -/
def Error.message : Error → Text
  | noValue => "list index out of range"

/-- What a field takes from the values of its name. A list takes those it admits, possibly none;
a single field takes the first value if it admits it. -/
def choose (f : QueryField) (values : List Text) : Except Error (Option SearchValue) :=
  if f.isList then .ok (some (.many (values.filter f.admits)))
  else match values with
    | [] => .error .noValue
    | v :: _ => .ok (if f.admits v then some (.one v) else none)

/-- What a field takes from a query, if its name occurs there. -/
def pick? (ps : List (Text × Text)) (f : QueryField) : Option SearchValue :=
  match Query.valuesOf f.name ps with
  | [] => none
  | v :: vs =>
    match f.choose (v :: vs) with
    | .ok found => found
    | .error _ => none

/-- What some fields take from a query, under their names. -/
def search (fields : List QueryField) (query : Text) : OrderedMap Text SearchValue :=
  let ps := Query.pairs query
  fields.foldl (fun found f =>
    match f.pick? ps with
    | some v => found.insert f.name v
    | none => found) .empty

end QueryField

end UrlRouting.Pattern
