import UrlRouting.RouteTable.Basic

/-!
# Drafts

A draft collects named targets, one at a time, and builds tables from what it has collected. A
name can be added once. Targets are checked when a table is built, not when they are added, and
building leaves the draft as it is.

* `Draft.add` and `Draft.build` are the two things to do with a draft.
* `Draft.call` does one of them, given as a `Call`, and says what comes of it and which draft is
  there afterwards, also when the call fails.
-/

namespace UrlRouting.RouteTable

/-- The targets collected so far. -/
structure Draft where
  targets : OrderedMap Text Target

namespace Draft

/-- The draft without targets. -/
def empty : Draft := ⟨.empty⟩

/-- Add a target under a new name. -/
def add (d : Draft) (name : Text) (target : Target) : Except Error Draft :=
  if d.targets.contains name then .error (.duplicate name)
  else .ok ⟨d.targets.insert name target⟩

/-- Build the table of the targets collected so far. -/
def build (d : Draft) : Logged Error RouteTable := RouteTable.build d.targets

/-! ## Calls -/

/-- What can be asked of a draft. -/
inductive Call where
  | add (name : Text) (target : Target)
  | build

/-- What a call gives that does not fail. -/
inductive Answer where
  | added
  | built (t : RouteTable)

/-- Make a call: what comes of it, and the draft after it. -/
def call (d : Draft) : Call → Logged Error Answer × Draft
  | .add name target =>
    match d.add name target with
    | .ok d' => (⟨[], .ok .added⟩, d')
    | .error e => (⟨[], .error e⟩, d)
  | .build => (d.build.map .built, d)

end Draft

end UrlRouting.RouteTable
