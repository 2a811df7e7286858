import UrlRouting.Pattern.Error

/-!
# Why a route table cannot be built

`Error.message` gives the wording of each cause. An error in the pattern of an entry is the error
of the pattern, with the name of the entry before it.
-/

namespace UrlRouting.RouteTable

/-- The greatest number of entries of a table. -/
def maxEntries : Nat := 256

/-- The causes for which a table, or an entry of it, is rejected. -/
inductive Error where
  /-- There are this many entries, which is too many. -/
  | tooMany (count : Nat)
  /-- The pattern of an entry cannot be compiled. -/
  | badPattern (route : Text) (cause : Pattern.Error)
  /-- The target of an entry is neither a text nor a matcher. -/
  | badTarget (route : Text) (kind : Kind)
  /-- An entry of this name is there already. -/
  | duplicate (route : Text)
deriving DecidableEq

/-- The wording of a cause. -/
def Error.message : Error → Text
  | tooMany count =>
    "too many routes: ".toList ++ Text.decimal count ++ " exceeds maximum ".toList ++
      Text.decimal maxEntries
  | badPattern route cause => "route ".toList ++ Text.quote route ++ ": ".toList ++ cause.message
  | badTarget route kind =>
    "route ".toList ++ Text.quote route ++ " must be a pattern str or callable, got ".toList ++
      kind.name
  | duplicate route => "duplicate route name: ".toList ++ Text.quote route

end UrlRouting.RouteTable
