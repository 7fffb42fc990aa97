import Pipeline.Trace

/-!
# Plans

A plan says how a run is produced.  Every run of a plan starts afresh and repeats the work and the
events of all the plans it is built on, but for a memoized plan: its items are kept in a cell when
it has run once, and later runs take them from there.

A run is opened and then pulled.  Opening reaches the plans that hand their items on one by one;
those that need a whole run of their input open it at their own first pull.  That pull reaches all
the plans below, and it is the one that fills a cell; so the trace of a run is settled, given the
cells at the time of its first pull.
-/

namespace Pipeline

/-- The cells of memoized plans that have run, with their items. -/
structure Memory where
  cells : List (Nat × List Item) := []

namespace Memory

/-- No memoized plan has run. -/
def empty : Memory := {}

/-- The items kept in a cell. -/
def get? (m : Memory) (cell : Nat) : Option (List Item) := m.cells.lookup cell

/-- Keeps items in a cell. -/
def keep (m : Memory) (cell : Nat) (items : List Item) : Memory := ⟨(cell, items) :: m.cells⟩

end Memory

/-- How a run is produced. -/
inductive Plan (ε : Type) where
  /-- Ready items. -/
  | items (xs : List Item)
  /-- Items computed at the first pull of each run; some events may happen when it is opened. -/
  | deferred (opening : List ε) (result : Traced ε (List Item))
  | map (f : Item → Nat → Traced ε Item) (input : Plan ε)
  | filter (keep : Item → Nat → Traced ε Bool) (input : Plan ε)
  | flatMap (f : Item → Nat → Traced ε (List Item)) (input : Plan ε)
  | takeUntil (stop : Item → Nat → Traced ε Bool) (input : Plan ε)
  /-- The fold of a run of the input, as one item. -/
  | fold (seed : Traced ε Item) (f : Item → Item → Nat → Traced ε Item) (input : Plan ε)
  /-- All items of a run of the input, made into one. -/
  | collect (f : List Item → Item) (input : Plan ε)
  | zip (combine : List (Option Item) → Traced ε Item) (members : List (Plan ε))
  | memoized (cell : Nat) (input : Plan ε)

namespace Plan

variable {ε : Type}

/-- The plan of no items. -/
def empty : Plan ε := .items []

mutual

/-- The events of opening a run. -/
def opening : Plan ε → List ε
  | .items _ => []
  | .deferred events _ => events
  | .map _ input => opening input
  | .filter _ input => opening input
  | .flatMap _ input => opening input
  | .takeUntil _ input => opening input
  | .fold _ _ _ => []
  | .collect _ _ => []
  | .zip _ members => openingAll members
  | .memoized _ _ => []

/-- The events of opening the members of a lockstep, from left to right. -/
def openingAll : List (Plan ε) → List ε
  | [] => []
  | plan :: plans => opening plan ++ openingAll plans

end

mutual

/-- The trace of a run whose first pull finds these cells, and the cells after it. -/
def run : Plan ε → Memory → Trace ε × Memory
  | .items xs, m => (.ofItems xs, m)
  | .deferred _ result, m => (.burst result, m)
  | .map f input, m => let r := run input m; (r.1.map f, r.2)
  | .filter keep input, m => let r := run input m; (r.1.filter keep, r.2)
  | .flatMap f input, m => let r := run input m; (r.1.flatMap f, r.2)
  | .takeUntil stop input, m => let r := run input m; (r.1.takeUntil stop, r.2)
  | .fold seed f input, m =>
    let r := run input m
    (.burst (do
      let acc ← seed
      .emitAll input.opening
      return [← r.1.fold f acc]), r.2)
  | .collect f input, m =>
    let r := run input m
    (.burst (do
      .emitAll input.opening
      return [f (← r.1.collect)]), r.2)
  | .zip combine members, m => let r := runAll members m; (.zip combine r.1, r.2)
  | .memoized cell input, m =>
    match m.get? cell with
    | some xs => (.ofItems xs, m)
    | none =>
      let r := run input m
      let whole := r.1.collect
      (.burst (do
        .emitAll input.opening
        whole), r.2.keep cell whole.value)

/-- The traces of the members of a lockstep, pulled from left to right.  The first pull of a member
is taken as one step: it is over before that of the next member begins, so what it keeps in a cell
is there for the members behind it.  Where members are fetched at the same time, this says what
happens as long as none of these pulls has to wait in its midst. -/
def runAll : List (Plan ε) → Memory → List (Trace ε) × Memory
  | [], m => ([], m)
  | plan :: plans, m =>
    let first := run plan m
    let rest := runAll plans first.2
    (first.1 :: rest.1, rest.2)

end

/-- The trace of a run when no cell is filled. -/
def trace (plan : Plan ε) : Trace ε := (plan.run .empty).1

/-- The items of a full run, opening included, when no cell is filled. -/
def collected (plan : Plan ε) : Traced ε (List Item) := do
  .emitAll plan.opening
  plan.trace.collect

end Plan

end Pipeline
