import UrlRouting.Text.Quoted
import UrlRouting.Text.Decimal

/-!
# Why a URL cannot be read

Only the authority of a URL can be at fault; every other text is read as some path, query or
fragment. `Error.message` gives the wording of each cause.
-/

namespace UrlRouting.Url

/-- The causes for which a URL is rejected. -/
inductive Error where
  /-- Brackets that do not enclose the whole host. -/
  | misplacedBracket
  /-- A bracketed host of the future form `v…` without version and address. -/
  | badFutureAddress
  /-- An IPv4 address between brackets. -/
  | bracketedIPv4
  /-- A bracketed host that is no address. -/
  | notAnAddress (host : Text)
  /-- An authority with a character that normalisation would turn into a delimiter. -/
  | hiddenDelimiter (authority : Text)
  /-- A port with a character other than a digit. -/
  | portNotNumeric (port : Text)
  /-- A port of more digits than are read. -/
  | portTooLong (digits : Nat)
  /-- A port above the greatest one. -/
  | portOutOfRange

/-- The greatest number of digits that a port may have, leading zeros included. -/
def maxPortDigits : Nat := 4300

/-- The greatest port. -/
def maxPort : Nat := 65535

/-- The wording of a cause. -/
def Error.message : Error → Text
  | misplacedBracket => "Invalid IPv6 URL"
  | badFutureAddress => "IPvFuture address is invalid"
  | bracketedIPv4 => "An IPv4 address cannot be in brackets"
  | notAnAddress host =>
    Text.quote host ++ " does not appear to be an IPv4 or IPv6 address".toList
  | hiddenDelimiter authority =>
    "netloc '".toList ++ authority ++
      "' contains invalid characters under NFKC normalization".toList
  | portNotNumeric port =>
    "Port could not be cast to integer value as ".toList ++ Text.quote port
  | portTooLong digits =>
    "Exceeds the limit (4300 digits) for integer string conversion: value has ".toList ++
      Text.decimal digits ++
      " digits; use sys.set_int_max_str_digits() to increase the limit".toList
  | portOutOfRange => "Port out of range 0-65535"

end UrlRouting.Url
