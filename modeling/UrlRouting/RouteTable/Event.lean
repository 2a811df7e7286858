import UrlRouting.Pattern.Basic

/-!
# Log events

Compiling a pattern and building a table are logged, one line each. `Event.message` is the line.
All texts in it are quoted but the origin, which is written as it is.
-/

namespace UrlRouting

/-- What is logged. -/
inductive Event where
  /-- A pattern was compiled. -/
  | compiled (p : Pattern)
  /-- A table with this many entries was built. -/
  | built (entries : Nat)

/-- The line of an event. -/
def Event.message : Event → Text
  | compiled p =>
    "compiled pattern ".toList ++ Text.quote p.source ++
      ": regex=".toList ++ Text.quote p.expression.written ++
      " params=".toList ++ Text.decimal p.captures.length ++
      " query=".toList ++ Text.decimal p.fields.length ++
      " origin=".toList ++ p.origin.getD "None".toList
  | built entries => "built router with ".toList ++ Text.decimal entries ++ " routes".toList

end UrlRouting
