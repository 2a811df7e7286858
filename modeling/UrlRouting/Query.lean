import UrlRouting.Text.Percent

/-!
# Queries

A query is a list of pieces between `&`. A piece is a key and, after its first `=`, a value; both
are percent-encoded, with `+` for a space. Empty pieces are dropped, and a piece without `=` has
the empty value.

* `Query.pairs` reads the keys and values of a query, in order.
* `Query.valuesOf` picks the values of one key.
-/

namespace UrlRouting.Query

/-- Decode a key or a value: first `+` becomes a space, then the escapes are read. -/
def decode (t : Text) : Text :=
  Text.Percent.decode (t.map fun c => if c = '+' then ' ' else c)

/-- The pieces of a query that are not empty. -/
def pieces (query : Text) : List Text := (query.splitOn '&').filter (· ≠ [])

/-- The key and the value of a piece. -/
def pair (piece : Text) : Text × Text :=
  let (key, value) := Text.cut '=' piece
  (decode key, decode (value.getD []))

/-- The keys and values of a query. -/
def pairs (query : Text) : List (Text × Text) := (pieces query).map pair

/-- The values that a key has, in order. -/
def valuesOf (name : Text) (ps : List (Text × Text)) : List Text :=
  ps.filterMap fun p => if p.1 = name then some p.2 else none

end UrlRouting.Query
