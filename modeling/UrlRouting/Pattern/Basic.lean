import UrlRouting.Pattern.Error
import UrlRouting.Pattern.Expression
import UrlRouting.Pattern.QueryField

/-!
# Patterns

A pattern is compiled once from its source and matched against any number of URLs. The source is
itself read as a URL: its path gives the tokens, its query the fields to take, and, if it carries
a scheme, its origin the only origin it matches.

* `Pattern.compile` compiles a source; the first bad part is blamed, the path before the query.
* `Pattern.match?` matches a URL: the origin must be the same, the path expression must read the
  path in normal form, and every captured segment must decode.
* `Pattern.Match` holds the decoded parameters, the fields found and the URL. A name that is
  captured twice keeps its first place and has the last segment.
-/

namespace UrlRouting

/-- A compiled pattern. -/
structure Pattern where
  source : Text
  tokens : List Pattern.Token
  fields : List Pattern.QueryField
  /-- The only origin of the URLs it matches, if the source carries a scheme. -/
  origin : Option Text
deriving DecidableEq

namespace Pattern

/-! ## Compiling -/

/-- Compile a source. -/
def compile (source : Text) : Except Error Pattern := do
  if maxLength < source.length then throw (.tooLong source.length)
  let url ← (Url.parse source).mapError fun _ => .badToken source source
  let tokens ← (Token.ofPath url.pathname).mapError (.badToken source)
  let fields ← (QueryField.ofQuery url.query).mapError (.badToken source)
  return {
    source, tokens, fields
    origin := if Url.hasScheme source then some url.origin else none }

/-- Compile a value, which must be a text. -/
def ofValue : Value → Except Error Pattern
  | .text source => compile source
  | v => .error (.notText v.kind)

/-! ## Views -/

/-- The expression that the path of a URL is read by. -/
def expression (p : Pattern) : Expression := .ofTokens p.tokens

/-- The names of the captures, in order of declaration. -/
def captureNames (p : Pattern) : List Text := p.tokens.filterMap Token.name?

/-- The names of the captures with the numbers of their groups, counted from one. -/
def captures (p : Pattern) : List (Text × Nat) := p.captureNames.zipIdx 1

/-! ## Matching -/

/-- What a pattern finds in a URL. -/
structure Match where
  params : OrderedMap Text Text
  search : OrderedMap Text SearchValue
  url : Url

/-- Whether a URL has the origin that a pattern asks for. -/
def acceptsOrigin (p : Pattern) (u : Url) : Bool :=
  match p.origin with
  | none => true
  | some origin => u.origin == origin

/-- The parameters of some captured segments, unless one of them does not decode. -/
def params? (names : List Text) (segments : List Text) : Option (OrderedMap Text Text) :=
  (segments.mapM Text.Percent.decode?).map fun values => .ofList (names.zip values)

/-- Match a URL that has been read. -/
def matchUrl? (p : Pattern) (u : Url) : Option Match := do
  guard (p.acceptsOrigin u)
  let segments ← p.expression.captures? (Path.normalForm u.pathname)
  let params ← params? p.captureNames segments
  return { params, search := QueryField.search p.fields u.query, url := u }

/-- Match a URL; a text that is no URL does not match. -/
def match? (p : Pattern) (t : Text) : Option Match :=
  match Url.parse t with
  | .ok u => p.matchUrl? u
  | .error _ => none

/-- Match a candidate of any shape; only a text can match. -/
def respond? (p : Pattern) : Value → Option Match
  | .text t => p.match? t
  | _ => none

end Pattern

end UrlRouting
