import UrlRouting.Pattern.Token

/-!
# Path expressions

The tokens of a pattern make one anchored expression over paths. Its written form is a regular
expression; its meaning is the **first** way to read the whole text when every item prefers, in
order, the earlier alternative or the longer run.

* `Expression.written` is the written form. Literal text is escaped, so nothing in it can act as
  an operator.
* `Expression.captures?` gives the captured texts of the first way to read a text. It works from
  the last item to the first, and for each item from the end of the text to its start, so its
  time is bounded by the number of items times the length of the text, whatever the expression.
-/

namespace UrlRouting.Pattern

/-- One item of a path expression. -/
inductive Item where
  /-- A slash. -/
  | slash
  /-- This text. -/
  | literal (text : Text)
  /-- The first of these texts that allows the rest to be read. -/
  | oneOf (alternatives : List Text) (captured : Bool)
  /-- The longest run of characters other than a slash that allows the rest to be read. -/
  | segment (captured : Bool)
  /-- The longest run of characters other than a line feed that allows the rest to be read. -/
  | segments
deriving DecidableEq

/-- The items between the start of a path and the slash that may end it. -/
structure Expression where
  items : List Item
deriving DecidableEq

/-! ## Written form -/

/-- Escape the ASCII characters of a literal other than letters, digits and `_`. -/
def escapeLiteral (t : Text) : Text :=
  t.flatMap fun c =>
    if Text.isAscii c && !c.isAlphanum && c != '_' then ['\\', c] else [c]

/-- Escaped alternatives, with bars between them. -/
def writtenAlternatives (alternatives : List Text) : Text :=
  Text.join '|' (alternatives.map escapeLiteral)

/-- The written form of an item; a captured one is a numbered group. -/
def Item.written : Item → Text
  | slash => ['/']
  | literal t => escapeLiteral t
  | oneOf alternatives true => '(' :: writtenAlternatives alternatives ++ [')']
  | oneOf alternatives false => "(?:".toList ++ writtenAlternatives alternatives ++ [')']
  | segment true => "([^/]+)"
  | segment false => "[^/]+"
  | segments => ".+"

/-- The written form of an expression: anchored, with an optional slash at its end. -/
def Expression.written (e : Expression) : Text :=
  '^' :: e.items.flatMap Item.written ++ "/?$".toList

/-! ## Tokens -/

/-- The item of a token. -/
def Token.item : Token → Item
  | literal segment => .literal segment
  | union alternatives => .oneOf (alternatives.map Segment.encode) false
  | capture _ => .segment true
  | choice _ alternatives => .oneOf (alternatives.map Segment.encode) true
  | anySegment => .segment false
  | anySegments => .segments

/-- A slash and an item for each token. -/
def Expression.ofTokens (tokens : List Token) : Expression :=
  ⟨tokens.flatMap fun t => [.slash, t.item]⟩

/-! ## Meaning -/

/-- For a text and each of its suffixes, the longest first: the texts captured when it is read, if
it can be read. -/
abbrev Row := List (Option (List Text))

/-- The outcome at the start of a row's text. -/
def Row.first (row : Row) : Option (List Text) := row.headD none

/-- What remains after the last item: nothing, or one slash. -/
def closingRow : Text → Row
  | [] => [some []]
  | c :: t => (if c = '/' ∧ t = [] then some [] else none) :: closingRow t

/-- The outcome after a word at the start of a text, from the row of what follows. -/
def afterWord : (word : Text) → Text → Row → Option (List Text)
  | [], _, row => Row.first row
  | _ :: _, [], _ => none
  | a :: word, c :: t, row => if a = c then afterWord word t row.tail else none

/-- Put a text before the captured ones if it is captured. -/
def record (captured : Bool) (t : Text) (caps : List Text) : List Text :=
  if captured then t :: caps else caps

/-- The row of one of some words, from the row of what follows. -/
def wordsRow (words : List Text) (captured : Bool) : Text → Row → Row
  | [], row => [words.findSome? fun w => (afterWord w [] row).map (record captured w)]
  | c :: t, row =>
    (words.findSome? fun w => (afterWord w (c :: t) row).map (record captured w)) ::
      wordsRow words captured t row.tail

/-- For a text and each of its suffixes, the longest run of allowed characters after which the
rest is read, with what the rest captures. -/
def runs (allowed : Char → Bool) : Text → Row → List (Option (Text × List Text))
  | [], _ => [none]
  | c :: t, row =>
    let later := runs allowed t row.tail
    (if allowed c then
      match later.headD none with
      | some (run, caps) => some (c :: run, caps)
      | none => (Row.first row.tail).map fun caps => ([c], caps)
    else none) :: later

/-- The row of a run of allowed characters, from the row of what follows. -/
def runRow (allowed : Char → Bool) (captured : Bool) (t : Text) (row : Row) : Row :=
  (runs allowed t row).map fun found => found.map fun (run, caps) => record captured run caps

/-- The row of an item, from the row of what follows it. -/
def Item.row (t : Text) : Item → Row → Row
  | slash => wordsRow [['/']] false t
  | literal w => wordsRow [w] false t
  | oneOf ws captured => wordsRow ws captured t
  | segment captured => runRow (· ≠ '/') captured t
  | segments => runRow (· ≠ '\n') false t

/-- The captured texts of the first way to read a whole text. -/
def Expression.captures? (e : Expression) (t : Text) : Option (List Text) :=
  Row.first (e.items.foldr (Item.row t) (closingRow t))

end UrlRouting.Pattern
