import Pipeline.Expr.Eval
import Pipeline.Sequence

/-!
# Sessions

Work with sequences by hand: named slots that hold sequences, named streams that hold runs in
progress, and one memory for all of them.  The functions given to sequences are probes: each call
is an event, and its result is that of an expression on the item and its position.
-/

namespace Pipeline

/-- A call of a probe, or a tick of a lockstep with the members that gave nothing. -/
inductive Probe where
  | call (label : String) (index : Nat)
  | tick (label : String) (ended : List Bool)
  deriving DecidableEq, Repr

namespace Probe

/-- The item that an expression gives; one that has none gives a failure. -/
def evaluate (source : String) (b : Bindings) : Item :=
  match evalSource source b .empty with
  | .ok item => item
  | .error e => .failure { message := "closure failed", cause := e.message }

/-- A probe on an item and its position. -/
def onItem (label source : String) (item : Item) (i : Nat) : Traced Probe Item := do
  .emit (.call label i)
  return evaluate source (.ofItem item i)

/-- A probe on one step of a fold. -/
def onStep (label source : String) (acc item : Item) (i : Nat) : Traced Probe Item := do
  .emit (.call label i)
  return evaluate source (.ofStep acc item i)

/-- A probe on a tick: the texts of the items side by side, a dash for a member that has ended. -/
def onTick (label : String) (yields : List (Option Item)) : Traced Probe Item := do
  .emit (.tick label (yields.map (·.isNone)))
  return .value (.text ("|".intercalate (yields.map fun y => (y.map Item.display).getD "-")))

end Probe

/-- Slots, streams and memory. -/
structure Session where
  slots : List (String × Sequence Probe) := []
  streams : List (String × Stream Probe) := []
  memory : Memory := .empty
  nextHandle : Handle := 0

/-- One request to a session; `target` is the slot or stream that it sets. -/
inductive Request where
  | empty (target : String)
  | items (target : String) (xs : List Item)
  | copy (source target : String)
  | fresh (source target : String)
  | memo (source target : String)
  | deferred (target : String) (xs : List Item)
  | map (source target : String) (expr : String)
  | filter (source target : String) (expr : String)
  | flatMap (source target : String) (expr : String)
  | takeUntil (source target : String) (expr : String)
  | zip (sources : List String) (target : String)
  | same (a b : String)
  | collect (source : String)
  | reduce (source : String) (expr : String) (seed : Item)
  | openStream (source target : String)
  | next (stream : String)

/-- What a request answers. -/
inductive Reply where
  | done
  | bool (b : Bool)
  | items (xs : List Item)
  | item (x : Item)
  | ended

namespace Session

/-- Sets an entry of a table. -/
def put {α : Type} (key : String) (a : α) : List (String × α) → List (String × α)
  | [] => [(key, a)]
  | (k, old) :: rest => if k = key then (k, a) :: rest else (k, old) :: put key a rest

/-- The sequence in a slot; an unset slot is empty. -/
def slot (s : Session) (name : String) : Sequence Probe :=
  (s.slots.lookup name).getD ⟨0, .empty⟩

/-- The stream under a name; an unset one has ended. -/
def stream (s : Session) (name : String) : Stream Probe :=
  (s.streams.lookup name).getD .ended

/-- Puts a plan into a slot, under a new handle. -/
def store (s : Session) (target : String) (plan : Plan Probe) : Session :=
  { s with slots := put target ⟨s.nextHandle, plan⟩ s.slots, nextHandle := s.nextHandle + 1 }

/-- Puts a plan built on a slot into a slot. -/
def derive (s : Session) (source target : String) (f : Plan Probe → Plan Probe) : Session :=
  s.store target (f (s.slot source).plan)

/-- A full run of the sequence in a slot: its opening, its trace, and the session after it. -/
def runSlot (s : Session) (source : String) : Traced Probe (Trace Probe) × Session :=
  let plan := (s.slot source).plan
  let r := plan.run s.memory
  (⟨plan.opening, r.1⟩, { s with memory := r.2 })

/-- The reply to a pull. -/
def ofPull : Option Item → Reply
  | some x => .item x
  | none => .ended

/-- Performs a request. -/
def perform (s : Session) : Request → Traced Probe Reply × Session
  | .empty target => (pure .done, s.store target .empty)
  | .items target xs => (pure .done, s.store target (.items xs))
  | .copy source target => (pure .done, { s with slots := put target (s.slot source) s.slots })
  | .fresh source target => (pure .done, s.derive source target id)
  | .memo source target => (pure .done, s.derive source target (.memoized s.nextHandle))
  | .deferred target xs => (pure .done, s.store target (.deferred [.call target 0] (pure xs)))
  | .map source target expr =>
    (pure .done, s.derive source target (.map (Probe.onItem target expr)))
  | .filter source target expr =>
    (pure .done, s.derive source target
      (.filter fun x i => do return (← Probe.onItem target expr x i).isTruthy))
  | .flatMap source target expr =>
    (pure .done, s.derive source target
      (.flatMap fun x i => do return (← Probe.onItem target expr x i).expand))
  | .takeUntil source target expr =>
    (pure .done, s.derive source target
      (.takeUntil fun x i => do return (← Probe.onItem target expr x i).isTrue))
  | .zip sources target =>
    (pure .done, s.store target (.zip (Probe.onTick target) (sources.map fun n => (s.slot n).plan)))
  | .same a b => (pure (.bool ((s.slot a).same (s.slot b))), s)
  | .collect source =>
    let r := s.runSlot source
    ((do return .items (← (← r.1).collect)), r.2)
  | .reduce source expr seed =>
    let r := s.runSlot source
    ((do return .item (← (← r.1).fold (Probe.onStep "reduce" expr) seed)), r.2)
  | .openStream source target =>
    let opened := Stream.ofSequence (s.slot source)
    ((fun _ => .done) <$> opened, { s with streams := put target opened.value s.streams })
  | .next name =>
    let r := (s.stream name).next s.memory
    (ofPull <$> r.1, { s with streams := put name r.2.1 s.streams, memory := r.2.2 })

/-- Performs requests one after the other. -/
def performAll (s : Session) : List Request → List (Traced Probe Reply)
  | [] => []
  | r :: rs => (s.perform r).1 :: performAll (s.perform r).2 rs

end Session

end Pipeline
