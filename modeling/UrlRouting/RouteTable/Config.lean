import UrlRouting.RouteTable.Basic

/-!
# Configuration

A configuration document is a mapping with the key `routes`. Its value lists the routes in the
order in which they are asked, in one of two forms: a list of mappings with the keys `name` and
`pattern`, or one mapping from names to patterns.

* `Config.ofValue` reads a document. The first bad route is reported, and names that occur twice
  only when every route is well-formed. Patterns are not compiled.
* `RouteTable.ofConfig` builds the table of a configuration.
-/

namespace UrlRouting

/-- A name and the source of its pattern. -/
structure Config.Route where
  name : Text
  pattern : Text
deriving DecidableEq

/-- Routes in the order in which they are asked. -/
structure Config where
  routes : List Config.Route
deriving DecidableEq

namespace Config

/-- The fields of a route. -/
inductive Field where
  | name
  | pattern
deriving DecidableEq

/-- The key of a field. -/
def Field.key : Field → Text
  | name => "name"
  | pattern => "pattern"

/-- The causes for which a document is rejected. -/
inductive Error where
  /-- The document is no mapping. -/
  | notMapping (kind : Kind)
  /-- The document has no routes. -/
  | noRoutes
  /-- The routes are neither a list nor a mapping. -/
  | badRoutes (kind : Kind)
  /-- A route is no mapping. -/
  | badRoute (kind : Kind)
  /-- A route lacks a field. -/
  | missingField (field : Field)
  /-- A field of a route is no text. -/
  | badField (field : Field) (kind : Kind)
  /-- A route has the empty name. -/
  | emptyName
  /-- Two routes have this name. -/
  | duplicate (route : Text)
deriving DecidableEq

/-- The wording of a cause. -/
def Error.message : Error → Text
  | notMapping kind => "expected dict, got ".toList ++ kind.name
  | noRoutes => "missing required field 'routes'"
  | badRoutes kind => "'routes' must be a list or dict, got ".toList ++ kind.name
  | badRoute kind => "route must be a dict, got ".toList ++ kind.name
  | missingField field => "route missing required field ".toList ++ Text.quote field.key
  | badField field kind =>
    "route ".toList ++ Text.quote field.key ++ " must be a string, got ".toList ++ kind.name
  | emptyName => "route 'name' must be non-empty"
  | duplicate route => "duplicate route name: ".toList ++ Text.quote route

/-! ## Reading -/

/-- A field that has to be a text. -/
def textField (field : Field) : Option Value → Except Error Text
  | none => .error (.missingField field)
  | some (.text t) => .ok t
  | some v => .error (.badField field v.kind)

/-- The route of two fields. -/
def Route.ofFields (name pattern : Option Value) : Except Error Route := do
  let name ← textField .name name
  let pattern ← textField .pattern pattern
  if name = [] then throw .emptyName
  return { name, pattern }

/-- The route of an entry of the list form. -/
def Route.ofValue : Value → Except Error Route
  | .mapping entries =>
    Route.ofFields (entries.lookup (.text Field.name.key))
      (entries.lookup (.text Field.pattern.key))
  | v => .error (.badRoute v.kind)

/-- The route of an entry of the mapping form. -/
def Route.ofEntry (entry : Scalar × Value) : Except Error Route :=
  Route.ofFields (some (.scalar entry.1)) (some entry.2)

/-- The routes of a document, under its key `routes`. -/
def routesOf : Value → Except Error (List Route)
  | .list items => items.mapM Route.ofValue
  | .mapping entries => entries.mapM Route.ofEntry
  | .null => .error .noRoutes
  | v => .error (.badRoutes v.kind)

/-- The first text that has occurred before, either in the list or among those seen. -/
def repeated? (seen : List Text) : List Text → Option Text
  | [] => none
  | t :: rest => if t ∈ seen then some t else repeated? (t :: seen) rest

/-- Read a document. -/
def ofValue : Value → Except Error Config
  | .mapping entries => do
    let routes ← routesOf ((entries.lookup (.text "routes".toList)).getD .null)
    match repeated? [] (routes.map Route.name) with
    | some name => throw (.duplicate name)
    | none => return ⟨routes⟩
  | v => .error (.notMapping v.kind)

/-- The names, in order. -/
def names (c : Config) : List Text := c.routes.map Route.name

end Config

/-- Build the table of a configuration. A name that occurs twice keeps its first place and has its
last pattern. -/
def RouteTable.ofConfig (c : Config) : RouteTable.Logged RouteTable.Error RouteTable :=
  RouteTable.build (.ofList (c.routes.map fun r => (r.name, .source r.pattern)))

end UrlRouting
