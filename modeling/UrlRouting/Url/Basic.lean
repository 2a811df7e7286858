import UrlRouting.Url.Path
import UrlRouting.Url.Reference

/-!
# URLs

A URL in its canonical parts. A relative text is resolved against the base `http://localhost`, so
that `/posts/1` and `http://example.com/posts/1` have parts of the same shape; a text that starts
with two slashes names its own authority and takes only the scheme from the base.

* `Url.parse` reads a URL: scheme and host in lower case, the default port dropped, dot segments
  resolved, and the path escaped.
* `Url.host`, `Url.origin`, `Url.search`, `Url.hash` and `Url.href` are the written forms of its
  parts and of the whole.
-/

namespace UrlRouting

/-- The parts of a URL; a part that is not there is empty. -/
structure Url where
  scheme : Text
  username : Text
  password : Text
  hostname : Text
  /-- The port, unless it is the default one of the scheme. -/
  port : Option Nat
  /-- Whether `//` and an authority, which may be empty, follow the scheme. -/
  hasAuthority : Bool
  pathname : Text
  /-- The query without its `?`. -/
  query : Text
  /-- The fragment without its `#`. -/
  fragment : Text
deriving DecidableEq

namespace Url

/-! ## Schemes with an origin -/

/-- The default port of a special scheme; only special schemes have an origin. -/
def defaultPort? (scheme : Text) : Option Nat :=
  if scheme = "http".toList then some 80
  else if scheme = "https".toList then some 443
  else if scheme = "ws".toList then some 80
  else if scheme = "wss".toList then some 443
  else if scheme = "ftp".toList then some 21
  else none

/-- Whether a scheme is one of those with a default port. -/
def isSpecial (scheme : Text) : Bool := (defaultPort? scheme).isSome

/-! ## Written forms -/

/-- The scheme with its colon. -/
def protocol (u : Url) : Text := u.scheme ++ [':']

/-- The port in digits, or nothing. -/
def portText (u : Url) : Text :=
  match u.port with
  | some n => Text.decimal n
  | none => []

/-- A host as it is written: with brackets if it holds a colon. -/
def bracketed (hostname : Text) : Text :=
  if hostname.contains ':' then '[' :: hostname ++ [']'] else hostname

/-- The host name and the port. -/
def host (u : Url) : Text :=
  match u.port with
  | some n => bracketed u.hostname ++ ':' :: Text.decimal n
  | none => bracketed u.hostname

/-- The scheme and host of a URL with a special scheme and a host; every other URL has the
opaque origin `null`. -/
def origin (u : Url) : Text :=
  if isSpecial u.scheme ∧ u.hostname ≠ [] then u.scheme ++ "://".toList ++ u.host
  else "null"

/-- A text that is not empty, after a marker. -/
def marked (marker : Char) (t : Text) : Text := if t = [] then [] else marker :: t

/-- The query with its `?`. -/
def search (u : Url) : Text := marked '?' u.query

/-- The fragment with its `#`. -/
def hash (u : Url) : Text := marked '#' u.fragment

/-- User name and password, with their delimiters. -/
def userinfo (u : Url) : Text :=
  if u.username = [] ∧ u.password = [] then []
  else u.username ++ marked ':' u.password ++ ['@']

/-- The whole URL. -/
def href (u : Url) : Text :=
  u.protocol ++ (if u.hasAuthority then "//".toList ++ u.userinfo ++ u.host else []) ++
    u.pathname ++ u.search ++ u.hash

/-! ## Reading -/

/-- The scheme of the base. -/
def baseScheme : Text := "http"

/-- The authority of the base. -/
def baseAuthority : Text := "localhost"

/-- The scheme of a reference, or that of the base. -/
def schemeOf (r : Reference) : Text := if r.scheme = [] then baseScheme else r.scheme

/-- The authority of a reference written as `t`. A reference with neither a scheme nor two
slashes at the very start of `t` has that of the base. -/
def authorityOf (t : Text) (r : Reference) : Text :=
  if r.scheme = [] ∧ ¬ ['/', '/'] <+: t then baseAuthority else r.authority

/-- The path of a reference, completed: a relative path starts at the root, and a special scheme
has a path. -/
def pathOf (r : Reference) : Text :=
  if r.scheme = [] ∧ r.path.head? ≠ some '/' then '/' :: r.path
  else if isSpecial (schemeOf r) ∧ r.path = [] then ['/']
  else r.path

/-- Read a URL. -/
def parse (t : Text) : Except Error Url := do
  let r ← Reference.ofText t
  let scheme := schemeOf r
  let authority := Authority.ofText (authorityOf t r)
  let port ← authority.portNumber
  return {
    scheme
    username := authority.username
    password := authority.password
    hostname := authority.hostname
    port := if port = defaultPort? scheme then none else port
    hasAuthority := isSpecial scheme || authorityOf t r != []
    pathname := Path.escape (Path.removeDots (pathOf r))
    query := r.query
    fragment := r.fragment }

end Url

end UrlRouting
