import UrlRouting.Pattern.Basic

/-!
# Matchers

A matcher answers a candidate or passes it over. It is a compiled pattern, a custom function, or a
whole table of named matchers, so matchers form a tree. In a table the first matcher that answers
wins, and its answer is given the name of its entry.

* `Outcome` is what a matcher answers: the match of a pattern, a match that already has a name, or
  any value. `Outcome.named` brings it into the form of a `Routed` match; a value must be a
  mapping with the keys `params`, `search` and `raw`, whose other keys are kept as `extra`.
* `Matcher.respond` asks a matcher, and `firstRouted` asks the entries of a table in order. An
  answer of the wrong form ends the search with a `BadResult`, also in a table inside a table.
-/

namespace UrlRouting

/-- A match under the name of a table entry. -/
structure Routed where
  name : Text
  params : Value
  search : Value
  raw : Value
  extra : List (Scalar × Value)

/-- What a matcher answers to a candidate that it does not pass over. -/
inductive Outcome where
  | located (m : Pattern.Match)
  | routed (r : Routed)
  | value (v : Value)

/-- An answer that has not the form of a match, and the entry whose matcher gave it. -/
structure BadResult where
  route : Text
  kind : Kind
deriving DecidableEq

/-- The wording of a bad result. -/
def BadResult.message (b : BadResult) : Text :=
  "route ".toList ++ Text.quote b.route ++ " returned ".toList ++ b.kind.name ++
    "; expected None, UrlMatch, RouteMatch or a mapping with 'params', 'search' and 'raw'".toList

namespace Outcome

/-- The answer that a value is; the absent value is none. -/
def ofValue? : Value → Option Outcome
  | .null => none
  | v => some (.value v)

/-- A value that a field takes from a query. -/
def searchValue : Pattern.SearchValue → Value
  | .one v => .text v
  | .many vs => .list (vs.map .text)

/-- The keys of a mapping that are not kept as extra ones. -/
def reserved : List Scalar :=
  [.text "name".toList, .text "params".toList, .text "search".toList, .text "raw".toList]

/-- An answer as a match under a name. -/
def named (name : Text) : Outcome → Except BadResult Routed
  | located m => .ok {
      name
      params := .ofMap .text m.params
      search := .ofMap searchValue m.search
      raw := .url m.url
      extra := [] }
  | routed r => .ok { r with name }
  | value (.mapping entries) =>
    match entries.lookup (.text "params".toList), entries.lookup (.text "search".toList),
        entries.lookup (.text "raw".toList) with
    | some params, some search, some raw =>
      .ok { name, params, search, raw, extra := entries.filter fun e => !reserved.contains e.1 }
    | _, _, _ => .error ⟨name, .mapping⟩
  | value v => .error ⟨name, v.kind⟩

end Outcome

/-- What answers candidates. -/
inductive Matcher where
  | pattern (p : Pattern)
  | custom (answer : Value → Option Outcome)
  | table (entries : List (Text × Matcher))

mutual

/-- The answer of a matcher; `none` when it passes the candidate over. -/
def Matcher.respond (candidate : Value) : Matcher → Except BadResult (Option Outcome)
  | .pattern p => .ok ((p.respond? candidate).map .located)
  | .custom answer => .ok (answer candidate)
  | .table entries => (firstRouted candidate entries).map (Option.map .routed)

/-- The answer of a table entry, under its name. -/
def respondNamed (candidate : Value) : Text × Matcher → Except BadResult (Option Routed)
  | (name, m) =>
    match m.respond candidate with
    | .error e => .error e
    | .ok none => .ok none
    | .ok (some o) => (o.named name).map some

/-- The answer of the first entry that does not pass the candidate over. -/
def firstRouted (candidate : Value) : List (Text × Matcher) → Except BadResult (Option Routed)
  | [] => .ok none
  | entry :: rest =>
    match respondNamed candidate entry with
    | .error e => .error e
    | .ok none => firstRouted candidate rest
    | .ok (some r) => .ok (some r)

end

end UrlRouting
