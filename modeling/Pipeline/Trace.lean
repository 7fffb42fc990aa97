import Pipeline.Item
import Pipeline.Traced

/-!
# Traces

A run, pull by pull: what its next pull yields, which events that pull causes, and the run that
remains.  What remains is not worked out before it is pulled again, so a run that is left early
does no more than it was asked for.  Everything that can be seen of a run is in its trace.

Every operation works pull by pull.  A pull that yields nothing, because an item was filtered out
or expanded into no items, leaves its events to the pull that goes on in its place.
-/

namespace Pipeline

/-- A run that has not been pulled yet. -/
inductive Trace (ε : Type) where
  /-- The next pull finds the end, and causes these events. -/
  | ended (events : List ε)
  /-- The next pull yields an item; the rest is there to be pulled. -/
  | pull (first : Traced ε Item) (rest : Unit → Trace ε)

namespace Trace

variable {ε : Type}

/-- The pulls that yield an item. -/
def pulls : Trace ε → List (Traced ε Item)
  | .ended _ => []
  | .pull first rest => first :: pulls (rest ())

/-- The events of the pull that finds the end. -/
def closing : Trace ε → List ε
  | .ended events => events
  | .pull _ rest => closing (rest ())

/-- The items of the run. -/
def items (t : Trace ε) : List Item := t.pulls.map (·.value)

/-- All events of the run. -/
def events (t : Trace ε) : List ε := t.pulls.flatMap (·.events) ++ t.closing

/-- A run that yields ready items first. -/
def prepend (xs : List Item) (t : Unit → Trace ε) : Trace ε :=
  match xs with
  | [] => t ()
  | x :: xs => .pull (pure x) fun _ => prepend xs t

/-- A run over ready items. -/
def ofItems (xs : List Item) : Trace ε := prepend xs fun _ => .ended []

/-- A run whose first pull causes these events before its own. -/
def after (events : List ε) : Trace ε → Trace ε
  | .ended closing => .ended (events ++ closing)
  | .pull first rest => .pull ⟨events ++ first.events, first.value⟩ rest

/-- A run whose items are all computed at its first pull. -/
def burst (result : Traced ε (List Item)) : Trace ε := (ofItems result.value).after result.events

/-! ### One run from another -/

/-- Applies `f` to each item and its position, from position `i` on. -/
def mapFrom (f : Item → Nat → Traced ε Item) (i : Nat) : Trace ε → Trace ε
  | .ended events => .ended events
  | .pull first rest => .pull (first >>= (f · i)) fun _ => mapFrom f (i + 1) (rest ())

/-- Each item replaced by the result of `f` on it and its position. -/
def map (f : Item → Nat → Traced ε Item) (t : Trace ε) : Trace ε := mapFrom f 0 t

/-- Filters the items from position `i` on. -/
def filterFrom (keep : Item → Nat → Traced ε Bool) (i : Nat) : Trace ε → Trace ε
  | .ended events => .ended events
  | .pull first rest =>
    let test := first >>= (keep · i)
    if test.value then
      .pull ⟨test.events, first.value⟩ fun _ => filterFrom keep (i + 1) (rest ())
    else (filterFrom keep (i + 1) (rest ())).after test.events

/-- The items that pass the test on them and their position in the input. -/
def filter (keep : Item → Nat → Traced ε Bool) (t : Trace ε) : Trace ε := filterFrom keep 0 t

/-- Expands the items from position `i` on. -/
def flatMapFrom (f : Item → Nat → Traced ε (List Item)) (i : Nat) : Trace ε → Trace ε
  | .ended events => .ended events
  | .pull first rest =>
    let expansion := first >>= (f · i)
    (prepend expansion.value fun _ => flatMapFrom f (i + 1) (rest ())).after expansion.events

/-- Each item expanded into any number of items. -/
def flatMap (f : Item → Nat → Traced ε (List Item)) (t : Trace ε) : Trace ε := flatMapFrom f 0 t

/-- Takes the items from position `i` on until the test holds. -/
def takeUntilFrom (stop : Item → Nat → Traced ε Bool) (i : Nat) : Trace ε → Trace ε
  | .ended events => .ended events
  | .pull first rest =>
    let test := first >>= (stop · i)
    if test.value then .ended test.events
    else .pull ⟨test.events, first.value⟩ fun _ => takeUntilFrom stop (i + 1) (rest ())

/-- The items before the first on which the test holds; nothing is pulled after that one. -/
def takeUntil (stop : Item → Nat → Traced ε Bool) (t : Trace ε) : Trace ε :=
  takeUntilFrom stop 0 t

/-- Folds the items from position `i` on. -/
def foldFrom (f : Item → Item → Nat → Traced ε Item) (i : Nat) (acc : Item) :
    Trace ε → Traced ε Item
  | .ended events => ⟨events, acc⟩
  | .pull first rest => do
    let item ← first
    let next ← f acc item i
    foldFrom f (i + 1) next (rest ())

/-- The fold of a whole run, with all its events. -/
def fold (f : Item → Item → Nat → Traced ε Item) (seed : Item) (t : Trace ε) : Traced ε Item :=
  foldFrom f 0 seed t

/-- The items of a whole run, with all its events. -/
def collect : Trace ε → Traced ε (List Item)
  | .ended events => ⟨events, []⟩
  | .pull first rest => do
    let item ← first
    let items ← collect (rest ())
    return item :: items

/-! ### Several runs in lockstep -/

/-- One pull: what it yields, and the run that remains unless it has ended. -/
def next : Trace ε → Traced ε (Option Item) × Option (Unit → Trace ε)
  | .ended events => (⟨events, none⟩, none)
  | .pull first rest => (some <$> first, some rest)

/-- One pull of every member that has not ended, from left to right.  A pull is taken as one step:
it is over before the next member is pulled.  Members that are fetched at the same time come to the
same as long as none of these pulls has to wait in its midst. -/
def tick : List (Option (Unit → Trace ε)) →
    Traced ε (List (Option Item)) × List (Option (Unit → Trace ε))
  | [] => (pure [], [])
  | none :: members =>
    let rest := tick members
    ((none :: ·) <$> rest.1, none :: rest.2)
  | some t :: members =>
    let first := (t ()).next
    let rest := tick members
    ((do return (← first.1) :: (← rest.1)), first.2 :: rest.2)

/-- How many items the members still hold. -/
def remaining : List (Option (Unit → Trace ε)) → Nat
  | [] => 0
  | none :: members => remaining members
  | some t :: members => (t ()).pulls.length + remaining members

theorem remaining_tick_le (members : List (Option (Unit → Trace ε))) :
    remaining (tick members).2 ≤ remaining members := by
  induction members with
  | nil => simp [tick, remaining]
  | cons m members ih =>
    match m with
    | none => simpa [tick, remaining] using ih
    | some t =>
      cases h : t () with
      | ended events => simpa [tick, next, remaining, h, pulls] using ih
      | pull first rest =>
        simp only [tick, next, remaining, h, pulls, List.length_cons]
        omega

/-- A tick that yields an item leaves fewer. -/
theorem remaining_tick_lt (members : List (Option (Unit → Trace ε)))
    (h : (tick members).1.value.any (·.isSome) = true) :
    remaining (tick members).2 < remaining members := by
  induction members with
  | nil => simp [tick] at h
  | cons m members ih =>
    match m with
    | none => exact ih (by simpa [tick] using h)
    | some t =>
      cases ht : t () with
      | ended events =>
        simp only [tick, next, remaining, ht, pulls, List.length_nil, Nat.zero_add]
        exact ih (by simpa [tick, next, ht] using h)
      | pull first rest =>
        have := remaining_tick_le members
        simp only [tick, next, remaining, ht, pulls, List.length_cons]
        omega

/-- Ticks until a tick yields nothing, combining what each yields. -/
def zipMembers (combine : List (Option Item) → Traced ε Item)
    (members : List (Option (Unit → Trace ε))) : Trace ε :=
  let t := tick members
  if _h : t.1.value.any (·.isSome) then
    .pull (t.1 >>= combine) fun _ => zipMembers combine t.2
  else .ended t.1.events
termination_by remaining members
decreasing_by exact remaining_tick_lt members _h

/-- Several runs in lockstep, as long as the longest of them. -/
def zip (combine : List (Option Item) → Traced ε Item) (members : List (Trace ε)) : Trace ε :=
  zipMembers combine (members.map fun t => some fun _ => t)

end Trace

end Pipeline
