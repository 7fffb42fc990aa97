import Pipeline.Value.Writer

/-!
# Items

One element of a sequence: a value, or a failure that travels as data.  A failure says what went
wrong (`message`), why (`cause`), and, when it stands for the failed members of a list, holds that
list.  Inside a value a failure is the object of these fields.
-/

namespace Pipeline

/-- A failure attached to one item. -/
structure Failure where
  message : String
  cause : String
  value : Option Value := none
  deriving Inhabited, Repr

namespace Failure

/-- The failure as an object. -/
def toValue (e : Failure) : Value :=
  .object ([("message", .text e.message), ("cause", .text e.cause)] ++
    (e.value.map fun v => ("value", v)).toList)

/-- One failure that stands for every failed member of `list`: messages one to a line, causes
divided by semicolons. -/
def gathered (errors : List Failure) (list : Value) : Failure where
  message := "\n".intercalate (errors.map (·.message))
  cause := "; ".intercalate (errors.map (·.cause))
  value := some list

end Failure

/-- An element of a sequence. -/
inductive Item where
  | value (v : Value)
  | failure (e : Failure)
  deriving Inhabited, Repr

namespace Item

/-- The item is a failure. -/
def isFailure : Item → Bool
  | .failure _ => true
  | .value _ => false

/-- Null, false, zero and the empty text count as false; everything else counts as true. -/
def isTruthy : Item → Bool
  | .value .null => false
  | .value (.bool b) => b
  | .value (.number n) => !n.toBinary.isZero && n.toBinary != .nan
  | .value (.text s) => !s.isEmpty
  | .value (.list _) | .value (.object _) | .failure _ => true

/-- The item is the boolean `true` itself. -/
def isTrue : Item → Bool
  | .value (.bool b) => b
  | _ => false

/-- The text of an item in output; a failure shows its message. -/
def display : Item → String
  | .value v => v.display
  | .failure e => e.message

/-- The item as a value, a failure as its object. -/
def toValue : Item → Value
  | .value v => v
  | .failure e => e.toValue

/-- The failure of an item that is one. -/
def failure? : Item → Option Failure
  | .failure e => some e
  | .value _ => none

/-- The items as one list item.  When some of them failed it is a failure that names them all and
holds the list. -/
def gather (items : List Item) : Item :=
  let list := Value.list (items.map toValue)
  match items.filterMap failure? with
  | [] => .value list
  | errors => .failure (.gathered errors list)

/-- The items that a list-valued result stands for: its members, or the result itself. -/
def expand : Item → List Item
  | .value (.list members) => members.map .value
  | item => [item]

end Item

end Pipeline
