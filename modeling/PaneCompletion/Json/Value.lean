import PaneCompletion.Json.Decimal
import PaneCompletion.Table

/-!
# JSON values

The values of a JSON document, and the shapes by which they are told apart. An object remembers the
order of its keys; a number that is no integer is kept as it was written.
-/

namespace PaneCompletion

/-- A JSON value. -/
inductive Json where
  | null
  | bool (b : Bool)
  | int (n : Int)
  | decimal (written : Text)
  | string (text : Text)
  | array (items : List Json)
  | object (members : List (Text × Json))
  deriving Inhabited

/-- The shapes of values. -/
inductive Json.Shape where
  | null
  | bool
  | int
  | decimal
  | string
  | array
  | object
  deriving DecidableEq, Repr

namespace Json

/-- The name by which messages speak of a shape. -/
def Shape.name : Shape → Text
  | .null => "NoneType".toList
  | .bool => "bool".toList
  | .int => "int".toList
  | .decimal => "float".toList
  | .string => "str".toList
  | .array => "list".toList
  | .object => "dict".toList

/-- The shape of a value. -/
def shape : Json → Shape
  | .null => .null
  | .bool _ => .bool
  | .int _ => .int
  | .decimal _ => .decimal
  | .string _ => .string
  | .array _ => .array
  | .object _ => .object

/-- The text of a string. -/
def text? : Json → Option Text
  | .string text => some text
  | _ => none

/-- What a value holds one after another: the items of an array, the keys of an object, the
characters of a string. -/
def parts? : Json → Option (List Json)
  | .array items => some items
  | .object members => some (members.map fun member => .string member.1)
  | .string text => some (text.map fun c => .string [c])
  | _ => none

/-- The members of an object. -/
def members? : Json → Option (Table Json)
  | .object members => some members
  | _ => none

/-- The number that a value is, in the form in which equal numbers are alike. A truth value counts
as one or zero. -/
def number? : Json → Option (Int × Int)
  | .bool b => some (if b then 1 else 0, 0)
  | .int n => some (Decimal.shortest n 0)
  | .decimal written => Decimal.number? written
  | _ => none

/-- Whether two values, neither of them array or object, are the same as keys. The names of numbers
that are none are the same where they are written alike. -/
def sameKey : Json → Json → Bool
  | .null, .null => true
  | .string a, .string b => a == b
  | .decimal a, .decimal b =>
    a == b || ((Decimal.number? a).isSome && Decimal.number? a == Decimal.number? b)
  | a, b => a.number?.isSome && a.number? == b.number?

/-- Write a value under a key that need not be a text: in the old place of the key, or at the end
when it is new. -/
def putUnder (key value : Json) : List (Json × Json) → List (Json × Json)
  | [] => [(key, value)]
  | (k, v) :: rest =>
    if sameKey k key then (k, value) :: rest else (k, v) :: putUnder key value rest

/-- Whether a value counts as yes: all but null, false, zero and what is empty. -/
def isYes : Json → Bool
  | .null => false
  | .bool b => b
  | .int n => n != 0
  | .decimal written => !Decimal.vanishes written
  | .string text => !text.isEmpty
  | .array items => !items.isEmpty
  | .object members => !members.isEmpty

end Json

end PaneCompletion
