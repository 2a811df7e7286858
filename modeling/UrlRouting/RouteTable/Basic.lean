import UrlRouting.RouteTable.Error
import UrlRouting.RouteTable.Event
import UrlRouting.RouteTable.Matcher

/-!
# Route tables

A route table is an ordered list of named matchers, and the first one that answers wins. It is
built from a map of names to targets: a text is the source of a pattern, compiled when the table
is built, and a matcher is taken as it is.

* `RouteTable.build` builds a table and tells what it logs. It compiles the patterns in order and
  stops at the first bad entry, so **the events before an error are those of the entries before
  it**; a table that is too large is rejected before anything is compiled.
* `RouteTable.match?` gives the answer of the first matcher that answers, under its name.
-/

namespace UrlRouting

/-- What a name is routed to. -/
inductive Target where
  /-- A value; only a text, the source of a pattern, makes a table entry. -/
  | value (v : Value)
  | matcher (m : Matcher)

/-- The source of a pattern as a target. -/
abbrev Target.source (t : Text) : Target := .value (.text t)

/-- Named matchers in the order in which they are asked, and the targets they were made of. -/
structure RouteTable where
  targets : OrderedMap Text Target
  entries : List (Text × Matcher)

namespace RouteTable

/-- The result of a construction together with what was logged on the way. -/
structure Logged (ε α : Type) where
  events : List Event
  outcome : Except ε α

/-- The same events, with a result made of the old one. -/
def Logged.map {ε α β : Type} (f : α → β) (l : Logged ε α) : Logged ε β :=
  ⟨l.events, l.outcome.map f⟩

/-! ## Building -/

/-- The matcher of one target. -/
def prepare (name : Text) : Target → Logged Error Matcher
  | .matcher m => ⟨[], .ok m⟩
  | .value (.text source) =>
    match Pattern.compile source with
    | .ok p => ⟨[.compiled p], .ok (.pattern p)⟩
    | .error e => ⟨[], .error (.badPattern name e)⟩
  | .value v => ⟨[], .error (.badTarget name v.kind)⟩

/-- The matchers of some targets, in order, up to the first bad one. -/
def prepareAll : List (Text × Target) → Logged Error (List (Text × Matcher))
  | [] => ⟨[], .ok []⟩
  | (name, target) :: rest =>
    match prepare name target with
    | ⟨events, .error e⟩ => ⟨events, .error e⟩
    | ⟨events, .ok m⟩ =>
      let others := prepareAll rest
      ⟨events ++ others.events, others.outcome.map ((name, m) :: ·)⟩

/-- Build the table of a map of targets. -/
def build (targets : OrderedMap Text Target) : Logged Error RouteTable :=
  if maxEntries < targets.size then ⟨[], .error (.tooMany targets.size)⟩
  else
    match prepareAll targets.entries with
    | ⟨events, .error e⟩ => ⟨events, .error e⟩
    | ⟨events, .ok entries⟩ => ⟨events ++ [.built entries.length], .ok ⟨targets, entries⟩⟩

/-- The table without entries. -/
def empty : RouteTable := ⟨.empty, []⟩

/-! ## Views -/

/-- The names, in the order in which the matchers are asked. -/
def names (t : RouteTable) : List Text := t.entries.map Prod.fst

/-- The number of entries. -/
def size (t : RouteTable) : Nat := t.entries.length

/-- The matcher under a name. -/
def get? (t : RouteTable) (name : Text) : Option Matcher := t.entries.lookup name

/-- Whether there is a target under a key. Lists and mappings are no keys and cannot be asked
for. -/
def contains (t : RouteTable) : Scalar → Bool
  | .text name => t.targets.contains name
  | _ => false

/-- A table as a matcher, to be an entry of another one. -/
def toMatcher (t : RouteTable) : Matcher := .table t.entries

/-! ## Matching -/

/-- The answer of the first matcher that answers. -/
def match? (t : RouteTable) (candidate : Value) : Except BadResult (Option Routed) :=
  firstRouted candidate t.entries

end RouteTable

end UrlRouting
