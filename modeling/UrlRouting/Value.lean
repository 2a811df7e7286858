import UrlRouting.OrderedMap
import UrlRouting.Url.Basic

/-!
# Values

Configuration documents, candidates and the results of custom matchers are data: a scalar, a list,
a mapping that keeps the order of its keys, or a URL. There are no values of other kinds, such as
octet strings, dates, fixed sequences or objects, and the keys of a mapping are scalars.

* `Scalar.same` compares keys. Numbers are compared by value, and `true` and `false` count as one
  and zero, so `1`, `1.0` and `true` are **one key**.
* `Value.ofEntries` makes a mapping by putting its entries one after the other.
* `Kind.name` is the name of a value's kind in messages.
-/

namespace UrlRouting

/-- The number `mantissa / 10 ^ scale`, as it is written. -/
structure Decimal where
  mantissa : Int
  scale : Nat
deriving DecidableEq

/-- A value without parts. -/
inductive Scalar where
  | null
  | bool (b : Bool)
  | int (n : Int)
  | decimal (d : Decimal)
  | text (t : Text)
deriving DecidableEq

namespace Scalar

/-- The number that a scalar counts as when it is a key. -/
def number? : Scalar → Option Decimal
  | bool b => some ⟨if b then 1 else 0, 0⟩
  | int n => some ⟨n, 0⟩
  | decimal d => some d
  | null => none
  | text _ => none

/-- Whether two scalars are the same key. -/
def same (a b : Scalar) : Bool :=
  match a.number?, b.number? with
  | some x, some y => x.mantissa * Int.pow 10 y.scale == y.mantissa * Int.pow 10 x.scale
  | none, none => decide (a = b)
  | _, _ => false

instance : BEq Scalar := ⟨same⟩

/-- A text is the same key as no other scalar. -/
theorem beq_text (s : Scalar) (t : Text) : (s == text t) = decide (s = text t) := by
  cases s with
  | null => rfl
  | text a => rfl
  | bool b => exact (decide_eq_false nofun).symm
  | int n => exact (decide_eq_false nofun).symm
  | decimal d => exact (decide_eq_false nofun).symm

end Scalar

/-- Data of any shape. -/
inductive Value where
  | scalar (s : Scalar)
  | list (items : List Value)
  | mapping (entries : List (Scalar × Value))
  | url (u : Url)

/-- What a value is. -/
inductive Kind where
  | null
  | bool
  | int
  | decimal
  | text
  | list
  | mapping
  | url
deriving DecidableEq

/-- The name of a kind in messages. -/
def Kind.name : Kind → Text
  | null => "NoneType"
  | bool => "bool"
  | int => "int"
  | decimal => "float"
  | text => "str"
  | list => "list"
  | mapping => "dict"
  | url => "RawUrl"

namespace Value

/-- The absent value. -/
@[match_pattern] abbrev null : Value := .scalar .null

/-- A text as a value. -/
@[match_pattern] abbrev text (t : Text) : Value := .scalar (.text t)

instance : Inhabited Value := ⟨null⟩

/-- The kind of a value. -/
def kind : Value → Kind
  | scalar .null => .null
  | scalar (.bool _) => .bool
  | scalar (.int _) => .int
  | scalar (.decimal _) => .decimal
  | scalar (.text _) => .text
  | list _ => .list
  | mapping _ => .mapping
  | url _ => .url

/-- The mapping that a list of entries builds. -/
def ofEntries (entries : List (Scalar × Value)) : Value :=
  .mapping (entries.foldl (fun es e => put e.1 e.2 es) [])

/-- The mapping of an ordered map of texts. -/
def ofMap {β : Type} (f : β → Value) (m : OrderedMap Text β) : Value :=
  .mapping (m.entries.map fun e => (.text e.1, f e.2))

end Value

end UrlRouting
