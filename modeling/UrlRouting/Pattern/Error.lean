import UrlRouting.Value

/-!
# Why a pattern cannot be compiled

`Error.message` gives the wording of each cause. Texts of the pattern are quoted, so a message
stays on one line.
-/

namespace UrlRouting.Pattern

/-- The greatest length of a pattern. -/
def maxLength : Nat := 8192

/-- The causes for which a pattern is rejected. -/
inductive Error where
  /-- The pattern is no text. -/
  | notText (kind : Kind)
  /-- The pattern has this length, which is too great. -/
  | tooLong (length : Nat)
  /-- This part of the pattern has no known form. -/
  | badToken (source : Text) (token : Text)
deriving DecidableEq

/-- The wording of a cause. -/
def Error.message : Error → Text
  | notText kind => "pattern must be a str, got ".toList ++ kind.name
  | tooLong length =>
    "pattern length ".toList ++ Text.decimal length ++ " exceeds maximum ".toList ++
      Text.decimal maxLength
  | badToken source token =>
    "invalid token ".toList ++ Text.quote token ++ " in pattern ".toList ++ Text.quote source

end UrlRouting.Pattern
