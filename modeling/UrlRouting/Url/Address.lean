import UrlRouting.Text.Decimal
import UrlRouting.Text.Percent

/-!
# IP address literals

The forms of a host between brackets, as predicates on its text.

* An IPv4 address is four decimal octets without leading zeros.
* An IPv6 address is eight groups of one to four hexadecimal digits; one `::` stands for at least
  one group, an IPv4 address may stand for the last two, and a non-empty scope may follow a `%`.
* A future address is `v`, hexadecimal digits, a dot and something after it.
-/

namespace UrlRouting.Url

/-- Whether a character is a hexadecimal digit. -/
def isHexDigit (c : Char) : Bool := (Text.Percent.hexValue? c).isSome

/-- A number up to 255 in one to three digits, without a leading zero. -/
def isDecimalOctet (t : Text) : Bool :=
  t.length ≤ 3 && (t == ['0'] || t.head? != some '0') &&
    match Text.decimal? t with
    | some n => n ≤ 255
    | none => false

/-- Four decimal octets between dots. -/
def isIPv4 (t : Text) : Bool :=
  (t.splitOn '.').length == 4 && (t.splitOn '.').all isDecimalOctet

/-- One to four hexadecimal digits. -/
def isGroup (t : Text) : Bool := t != [] && t.length ≤ 4 && t.all isHexDigit

/-- How many groups the parts of an address stand for, when the last part may be an IPv4 address
in place of two. -/
def groupCount? : List Text → Option Nat
  | [] => some 0
  | [p] => if isGroup p then some 1 else if isIPv4 p then some 2 else none
  | p :: ps => if isGroup p then (groupCount? ps).map (· + 1) else none

/-- The parts between colons; an empty text has none. -/
def colonParts (t : Text) : List Text := if t = [] then [] else t.splitOn ':'

/-- The parts of a text around its first `::`. -/
def cutDoubleColon : Text → Option (Text × Text)
  | [] => none
  | ':' :: ':' :: t => some ([], t)
  | c :: t => (cutDoubleColon t).map fun (a, b) => (c :: a, b)

/-- Eight groups, or fewer around one `::`. -/
def isIPv6Number (t : Text) : Bool :=
  match cutDoubleColon t with
  | none => groupCount? (t.splitOn ':') == some 8
  | some (a, b) =>
    (colonParts a).all isGroup &&
      match groupCount? (colonParts b) with
      | some n => (colonParts a).length + n ≤ 7
      | none => false

/-- An IPv6 number, with or without a scope. -/
def isIPv6 (t : Text) : Bool :=
  match Text.cut '%' t with
  | (number, none) => isIPv6Number number
  | (number, some scope) => isIPv6Number number && scope != [] && !scope.contains '%'

/-- The rest of a future address, after its `v`. -/
def isFutureAddress (t : Text) : Bool :=
  t.takeWhile isHexDigit != [] &&
    match t.dropWhile isHexDigit with
    | '.' :: _ :: _ => true
    | _ => false

end UrlRouting.Url
