import Pipeline.Item

/-!
# Bindings and environments

What an expression can refer to: the items bound for one evaluation, and the aliases that imports
have bound for all evaluations built later.
-/

namespace Pipeline

/-- The items bound for one evaluation. -/
structure Bindings where
  value : Option Item := none
  index : Option Item := none
  accumulator : Option Item := none
  error : Option Item := none
  deriving Inhabited

namespace Bindings

/-- Nothing is bound. -/
def none : Bindings := {}

/-- A position as an item. -/
def position (i : Nat) : Item := .value (.whole i)

/-- For an item and its position. -/
def ofItem (item : Item) (i : Nat) : Bindings :=
  { value := some item, index := some (position i) }

/-- For a failed item and its position. -/
def ofFailure (item : Item) (i : Nat) : Bindings :=
  { error := some item, index := some (position i) }

/-- For one step of a fold. -/
def ofStep (accumulator item : Item) (i : Nat) : Bindings :=
  { accumulator := some accumulator, value := some item, index := some (position i) }

end Bindings

/-- The aliases bound by imports, each with the value imported under it. -/
structure Environment where
  aliases : List (String × Value) := []
  deriving Inhabited

namespace Environment

/-- The environment without aliases. -/
def empty : Environment := {}

/-- The value bound to an alias. -/
def get? (env : Environment) (name : String) : Option Value := env.aliases.lookup name

/-- Binds an alias; an alias bound before takes the new value. -/
def bind (env : Environment) (name : String) (v : Value) : Environment :=
  ⟨Value.setField name v env.aliases⟩

/-- The number of aliases. -/
def size (env : Environment) : Nat := env.aliases.length

end Environment

end Pipeline
