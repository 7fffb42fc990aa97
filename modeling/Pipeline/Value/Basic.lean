import Pipeline.Decimal.Binary64

/-!
# Values

The data that flows through a pipeline: null, booleans, numbers, texts, lists, and objects whose
fields keep the order in which their keys were first written.
-/

namespace Pipeline

/-- A number: a whole number of the machine range, or a finite binary64 number. -/
inductive Number where
  | whole (i : Int)
  | binary (x : Binary64)
  deriving DecidableEq, Repr, Inhabited

namespace Number

/-- The nearest binary64 number. -/
def toBinary : Number → Binary64
  | .whole i => .ofInt i
  | .binary x => x

/-- Equality that keeps whole and binary numbers apart. -/
def same : Number → Number → Bool
  | .whole i, .whole j => i == j
  | .binary x, .binary y => x.same y
  | _, _ => false

end Number

/-- A value. -/
inductive Value where
  | null
  | bool (b : Bool)
  | number (n : Number)
  | text (s : String)
  | list (members : List Value)
  | object (fields : List (String × Value))
  deriving Inhabited, Repr

namespace Value

/-- A whole number as a value. -/
def whole (i : Int) : Value := .number (.whole i)

/-- The field of an object under a key. -/
def field? (fields : List (String × Value)) (key : String) : Option Value :=
  fields.lookup key

/-- Sets the field under a key: an old key keeps its place, a new one goes last. -/
def setField (key : String) (v : Value) : List (String × Value) → List (String × Value)
  | [] => [(key, v)]
  | (k, old) :: rest => if k = key then (k, v) :: rest else (k, old) :: setField key v rest

mutual

/-- Equality of values: numbers by kind, lists member by member, objects whatever the order of
their fields. -/
def same : Value → Value → Bool
  | .null, .null => true
  | .bool a, .bool b => a == b
  | .number a, .number b => a.same b
  | .text a, .text b => a == b
  | .list xs, .list ys => sameMembers xs ys
  | .object fs, .object gs => fs.length == gs.length && sameFields fs gs
  | _, _ => false

/-- Two lists agree member by member. -/
def sameMembers : List Value → List Value → Bool
  | [], [] => true
  | x :: xs, y :: ys => same x y && sameMembers xs ys
  | _, _ => false

/-- Every field of the first object is, with its value, a field of the second. -/
def sameFields : List (String × Value) → List (String × Value) → Bool
  | [], _ => true
  | (key, v) :: fs, gs =>
    match field? gs key with
    | some w => same v w && sameFields fs gs
    | none => false

end

end Value

end Pipeline
