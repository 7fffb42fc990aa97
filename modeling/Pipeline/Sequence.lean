import Pipeline.Plan

/-!
# Sequences and streams

A sequence is a plan under a handle.  The handle is its identity: two sequences with one plan can
be different sequences.  A stream is one run of a sequence in progress.
-/

namespace Pipeline

/-- The identity of a sequence. -/
abbrev Handle := Nat

/-- A lazily produced collection of items that can be run any number of times. -/
structure Sequence (ε : Type) where
  handle : Handle
  plan : Plan ε

namespace Sequence

variable {ε : Type}

/-- Two sequences are the same one. -/
def same (a b : Sequence ε) : Bool := a.handle == b.handle

/-- The same runs under another identity. -/
def withHandle (s : Sequence ε) (handle : Handle) : Sequence ε := ⟨handle, s.plan⟩

/-- The items of a run. -/
def items (s : Sequence ε) : List Item := s.plan.trace.items

end Sequence

/-- A run in progress: not pulled yet, pulled and not ended, or ended. -/
inductive Stream (ε : Type) where
  | waiting (plan : Plan ε)
  | running (rest : Unit → Trace ε)
  | ended

namespace Stream

variable {ε : Type}

/-- Opens a run. -/
def ofSequence (s : Sequence ε) : Traced ε (Stream ε) := ⟨s.plan.opening, .waiting s.plan⟩

/-- Goes on with a run after a pull. -/
def ofRest : Option (Unit → Trace ε) → Stream ε
  | some rest => .running rest
  | none => .ended

/-- Pulls one item; an ended run yields nothing ever after. -/
def next (s : Stream ε) (m : Memory) : Traced ε (Option Item) × Stream ε × Memory :=
  match s with
  | .waiting plan =>
    let r := plan.run m
    (r.1.next.1, ofRest r.1.next.2, r.2)
  | .running rest =>
    let t := rest ()
    (t.next.1, ofRest t.next.2, m)
  | .ended => (pure none, .ended, m)

end Stream

end Pipeline
