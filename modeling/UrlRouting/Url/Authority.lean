import UrlRouting.Url.Address
import UrlRouting.Url.Compatibility
import UrlRouting.Url.Error
import UrlRouting.Text.Lowercase

/-!
# Authorities

The authority of a URL is `username:password@host:port`, every part but the host optional. A host
between brackets is an address, and only there may a host hold a colon.

* `Authority.validate` rejects misplaced brackets, bracketed hosts that are no addresses, and
  hidden delimiters.
* `Authority.ofText` cuts an authority into its parts.
* `Authority.portNumber` reads the port.
-/

namespace UrlRouting.Url

/-- The parts of an authority; a part that is not there is empty. -/
structure Authority where
  username : Text
  password : Text
  hostname : Text
  port : Text

namespace Authority

/-! ## Validation -/

/-- Accept a host that stands between brackets. -/
def validateBracketed : Text → Except Error Unit
  | 'v' :: t => if isFutureAddress t then .ok () else .error .badFutureAddress
  | host =>
    if isIPv4 host then .error .bracketedIPv4
    else if isIPv6 host then .ok ()
    else .error (.notAnAddress host)

/-- Accept the part after the last `@` of an authority that has both brackets. -/
def validateHost (t : Text) : Except Error Unit :=
  match Text.cut '[' t with
  | (host, none) => validateBracketed (Text.cut ':' host).1
  | ([], some inside) =>
    match Text.cut ']' inside with
    | (host, none) => validateBracketed host
    | (host, some []) => validateBracketed host
    | (host, some (':' :: _)) => validateBracketed host
    | (_, some (_ :: _)) => .error .misplacedBracket
  | (_ :: _, some _) => .error .misplacedBracket

/-- Accept the brackets of an authority. -/
def validateBrackets (t : Text) : Except Error Unit :=
  match t.contains '[', t.contains ']' with
  | false, false => .ok ()
  | true, true => validateHost (Text.cutLast '@' t).2
  | _, _ => .error .misplacedBracket

/-- Accept the text of an authority: first its brackets, then its characters. -/
def validate (t : Text) : Except Error Unit := do
  validateBrackets t
  if t.any hidesDelimiter then throw (.hiddenDelimiter t)

/-! ## Parts -/

/-- Lower-case form of a host; what follows a `%` is a scope and stays as it is. -/
def lowerHost (t : Text) : Text :=
  match Text.cut '%' t with
  | (name, none) => Text.lower name
  | (name, some scope) => Text.lower name ++ '%' :: scope

/-- The host and the port of the part after the last `@`. -/
def hostAndPort (t : Text) : Text × Text :=
  match Text.cut '[' t with
  | (_, some inside) =>
    let (host, rest) := Text.cut ']' inside
    (host, ((Text.cut ':' (rest.getD [])).2).getD [])
  | (_, none) =>
    let (host, port) := Text.cut ':' t
    (host, port.getD [])

/-- The parts of an authority. -/
def ofText (t : Text) : Authority :=
  let (user, hostPart) := Text.cutLast '@' t
  let (username, password) := Text.cut ':' (user.getD [])
  let (host, port) := hostAndPort hostPart
  { username, password := password.getD [], hostname := lowerHost host, port }

/-- The number of the port; an empty port is none. -/
def portNumber (a : Authority) : Except Error (Option Nat) :=
  if a.port = [] then .ok none
  else match Text.decimal? a.port with
    | none => .error (.portNotNumeric a.port)
    | some n =>
      if maxPortDigits < a.port.length then .error (.portTooLong a.port.length)
      else if maxPort < n then .error .portOutOfRange
      else .ok (some n)

end Authority

end UrlRouting.Url
