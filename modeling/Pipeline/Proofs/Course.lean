import Pipeline.Proofs.Building
import Pipeline.Proofs.Transition

/-!
# Courses — the states that stages lead to

A pipeline begins with a sequence, whatever its handle and plan, or with none
(`State.startingFrom`).  A course is what happens from there: stages that could be applied, one
after the other, each with the state it left (`Course`).  Every stage of a course may be applied by
a host of its own, so what holds of all courses holds also where a module loads differently the
next time.

What one stage can do is said by `Move`.  What every move keeps, a course keeps (`Course.keeps`); a
switch that one kind of stage turns off, and none turns on, is off behind a course iff it was off
before or the course has a stage of that kind (`Course.switched_off_iff`).
-/

namespace Pipeline

namespace State

/-- Before the first stage, with any sequence to start from or without. -/
def startingFrom (first : Option (Sequence Event)) : State where
  current := first
  registry := []
  stack := []
  stacking := true
  mustPrint := true
  env := .empty
  nextHandle := first.elim 1 (·.handle + 1)

/-- Items to start from are a sequence to start from. -/
theorem initial_eq_startingFrom (items : Option (List Item)) :
    initial items = startingFrom (items.map fun xs => ⟨0, .items xs⟩) := by
  cases items <;> rfl

end State

open Interpreter (Visit)
open State (Move)

/-- Stages applied one after the other from a state, with what each of them left, to the state
behind them. -/
inductive Course : State → List Visit → State → Prop where
  | nil (s : State) : Course s [] s
  | cons {host : Host} {stage : Stage} {events : List Event} {s t u : State}
      {visits : List Visit} (h : stage.apply host s = ⟨events, .ok t⟩)
      (rest : Course t visits u) : Course s (⟨stage, events, t⟩ :: visits) u

namespace Course

/-- **What every move keeps, a course keeps.** -/
theorem keeps {P : State → Prop}
    (hstep : ∀ {s t : State} {stage : Stage}, Move s stage t → P s → P t)
    {s t : State} {visits : List Visit} (h : Course s visits t) (hs : P s) : P t := by
  induction h with
  | nil => exact hs
  | cons h _ ih => exact ih (hstep (Stage.move_of_apply h) hs)

/-- **A switch that only one stage turns, and only off.** -/
theorem switched_off_iff {switch : State → Bool} {off : Stage}
    (hstep : ∀ {s t : State} {stage : Stage}, Move s stage t →
      (switch t = false ↔ switch s = false ∨ stage = off))
    {s t : State} {visits : List Visit} (h : Course s visits t) :
    switch t = false ↔ switch s = false ∨ ∃ visit ∈ visits, visit.stage = off := by
  induction h with
  | nil => simp
  | cons h _ ih =>
      rw [ih, hstep (Stage.move_of_apply h), or_assoc]
      simp only [List.mem_cons, exists_eq_or_imp]

/-- Stages that can be applied are a course of their own. -/
theorem of_applyAll {host : Host} :
    ∀ {stages : List Stage} {s t : State} {events : List Event},
      Stage.applyAll host stages s = ⟨events, .ok t⟩ →
        ∃ visits, Course s visits t ∧ visits.map (·.stage) = stages
  | [], s, t, _, h => by
      cases h
      exact ⟨[], .nil s, rfl⟩
  | stage :: stages, s, t, _, h => by
      obtain ⟨first, next, _, hfirst, hrest, -⟩ := Traced.andThen_eq_ok h
      obtain ⟨visits, hvisits, hstages⟩ := of_applyAll hrest
      exact ⟨⟨stage, first, next⟩ :: visits, .cons hfirst hvisits, congrArg _ hstages⟩

/-- What the interpreter builds from tokens is the end of a course. -/
theorem of_runFrom {host : Host} {s t : State} {tokens : List String} {events : List Event}
    (h : Interpreter.runFrom host s tokens = ⟨events, .ok t⟩) : ∃ visits, Course s visits t := by
  obtain ⟨visits, hvisits, -⟩ := of_applyAll (Interpreter.runFrom_eq_ok h).2
  exact ⟨visits, hvisits⟩

end Course

end Pipeline
