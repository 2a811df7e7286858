import UrlRouting.Url.Authority

/-!
# References

A reference is a URL cut at its delimiters, before anything is resolved or decoded. Characters up
to the space are skipped in front of it, and tabs and line breaks are skipped everywhere.

* `clean` skips those characters.
* `Reference.ofText` cuts a text into scheme, authority, path, query and fragment. A part that is
  not there is empty; in particular a reference without a scheme is **relative**.
-/

namespace UrlRouting.Url

/-- The parts of a URL as they are written, without their delimiters. -/
structure Reference where
  scheme : Text
  authority : Text
  path : Text
  query : Text
  fragment : Text

/-- Tab, line feed and carriage return are skipped wherever they stand. -/
def isSkipped (c : Char) : Bool := c = '\t' || c = '\n' || c = '\r'

/-- The characters of a text that count. -/
def clean (t : Text) : Text := (t.dropWhile (· ≤ ' ')).filter (!isSkipped ·)

/-- Letters, digits, `+`, `-` and `.`, the first of them a letter. -/
def isScheme : Text → Bool
  | [] => false
  | c :: t => c.isAlpha && t.all fun d => d.isAlphanum || d = '+' || d = '-' || d = '.'

/-- Cut off a scheme; it is read in lower case. -/
def cutScheme (t : Text) : Text × Text :=
  match Text.cut ':' t with
  | (scheme, some rest) => if isScheme scheme then (scheme.map Char.toLower, rest) else ([], t)
  | (_, none) => ([], t)

/-- Whether a character ends the authority. -/
def endsAuthority (c : Char) : Bool := c = '/' || c = '?' || c = '#'

/-- Cut off an authority, which follows two slashes. -/
def cutAuthority : Text → Text × Text
  | '/' :: '/' :: t => (t.takeWhile (!endsAuthority ·), t.dropWhile (!endsAuthority ·))
  | t => ([], t)

/-- Cut a text at its delimiters. -/
def Reference.ofText (t : Text) : Except Error Reference := do
  let (scheme, afterScheme) := cutScheme (clean t)
  let (authority, afterAuthority) := cutAuthority afterScheme
  Authority.validate authority
  let (beforeFragment, fragment) := Text.cut '#' afterAuthority
  let (path, query) := Text.cut '?' beforeFragment
  return { scheme, authority, path, query := query.getD [], fragment := fragment.getD [] }

/-- Whether a text carries a scheme of its own. -/
def hasScheme (t : Text) : Bool :=
  match Reference.ofText t with
  | .ok r => r.scheme != []
  | .error _ => false

end UrlRouting.Url
