import Pipeline.Proofs.Handles
import Pipeline.Proofs.Registry

/-!
# Stack — earlier results, in order

A stage leaves the stack alone, puts the sequence that it makes current behind the others, or takes
the newest entry off and goes back to the one below (`StackStep`).  What courses do to the stack
comes from these three ways.

* `Course.stack_discipline`: while stacking is on, the current sequence is the newest entry, or
  without entries the one that the pipeline started from.  Stacking that is off stays off, and from
  then on the stack can only be cut down.  Printing is off iff a stage asked for that.
* `Course.checkpoints_stable`: an entry keeps its place as long as the stack is not cut down to
  that place, and an index counted from the newest entry finds an entry iff there are more entries
  than that.
-/

namespace Pipeline

open Interpreter (Visit)

namespace State

/-! ### One stage -/

/-- The ways of a stage with the stack. -/
inductive StackStep (s t : State) : Prop where
  | kept (stack : t.stack = s.stack) (current : t.stacking = true → t.current = s.current)
  | pushed (stacking : s.stacking = true) (q : Sequence Event) (current : t.current = some q)
      (stack : t.stack = s.stack ++ [q])
  | cut (depth : 2 ≤ s.stack.length) (stack : t.stack = s.stack.dropLast)
      (current : t.current = t.stack.getLast?)

/-- A sequence made current comes on the stack, unless stacking is off and so stays off. -/
theorem stackStep_advance (s u : State) (hstack : u.stack = s.stack)
    (hstacking : u.stacking = s.stacking) (q : Sequence Event) : StackStep s (u.advance q) := by
  cases hon : s.stacking with
  | true =>
      refine .pushed hon q rfl ?_
      rw [advance, hstacking, if_pos hon, hstack]
  | false =>
      refine .kept ?_ fun hstays => ?_
      · rw [advance, hstacking, hon, hstack]
        rfl
      · have hoff : (u.advance q).stacking = false := hstacking.trans hon
        rw [hoff] at hstays
        cases hstays

theorem Move.stackStep {s t : State} {stage : Stage} (h : Move s stage t) : StackStep s t := by
  cases h with
  | produce => exact stackStep_advance s { s with nextHandle := s.nextHandle + 1 } rfl rfl _
  | laterImport env => exact stackStep_advance s (s.withEnvironment env) rfl rfl _
  | name h =>
      obtain ⟨-, -, sequence, _, -, rfl⟩ := name_eq_ok h
      exact .kept rfl fun _ => rfl
  | drop h =>
      obtain ⟨hlen, rfl⟩ := drop_eq_ok h
      exact .cut hlen rfl rfl
  | disableStacking | suppressPrint | firstImport => exact .kept rfl fun _ => rfl

/-- **The switches.**  Each is turned off by one stage, and on by none. -/
theorem Move.switches {s t : State} {stage : Stage} (h : Move s stage t) :
    (t.stacking = false ↔ s.stacking = false ∨ stage = .disableStacking) ∧
      (t.mustPrint = false ↔ s.mustPrint = false ∨ stage = .suppressPrint) := by
  cases h with
  | produce plan hp =>
      have hne : stage ≠ .disableStacking ∧ stage ≠ .suppressPrint := by
        constructor <;> rintro rfl <;> cases hp
      simp [advancePlan, advance, hne]
  | name h =>
      obtain ⟨-, -, sequence, _, -, rfl⟩ := name_eq_ok h
      simp
  | drop h =>
      obtain ⟨-, rfl⟩ := drop_eq_ok h
      simp
  | disableStacking => simp [State.disableStacking]
  | suppressPrint => simp [State.suppressPrint]
  | firstImport => simp [withEnvironment]
  | laterImport => simp [withEnvironment, advance]

/-- The current sequence is the newest entry, or without entries `first`. -/
def OnTop (first : Option (Sequence Event)) (s : State) : Prop :=
  s.stacking = true → s.current = s.stack.getLast?.or first

theorem OnTop.getLast?_stack {first : Option (Sequence Event)} {s : State} (hs : s.OnTop first)
    (hon : s.stacking = true) (hne : s.stack ≠ []) : s.stack.getLast? = s.current := by
  rw [hs hon, List.getLast?_eq_some_getLast hne, Option.some_or]

theorem Move.onTop {first : Option (Sequence Event)} {s t : State} {stage : Stage}
    (h : Move s stage t) (hs : s.OnTop first) : t.OnTop first := by
  intro hon
  have hwas : s.stacking = true := by
    cases hoff : s.stacking with
    | true => rfl
    | false => rw [h.switches.1.mpr (.inl hoff)] at hon; cases hon
  cases h.stackStep with
  | kept stack current => rw [current hon, stack, hs hwas]
  | pushed _ q current stack => rw [current, stack, List.getLast?_concat, Option.some_or]
  | cut depth stack current =>
      -- one entry at least is left, so nothing falls back to `first`
      have hne : t.stack ≠ [] := by
        intro hnil
        have hlen := congrArg List.length (stack.symm.trans hnil)
        rw [List.length_dropLast, List.length_nil] at hlen
        omega
      rw [current, List.getLast?_eq_some_getLast hne, Option.some_or]

/-- Without stacking the stack can only be cut down. -/
theorem Move.stack_prefix {s t : State} {stage : Stage} (h : Move s stage t)
    (hoff : s.stacking = false) : t.stacking = false ∧ t.stack <+: s.stack := by
  refine ⟨h.switches.1.mpr (.inl hoff), ?_⟩
  cases h.stackStep with
  | kept stack _ => exact stack ▸ List.prefix_rfl
  | pushed stacking => rw [hoff] at stacking; cases stacking
  | cut _ stack _ => exact stack ▸ List.dropLast_prefix _

/-- A place of the stack that is filled before and behind a stage holds the same entry. -/
theorem Move.getElem?_stack {s t : State} {stage : Stage} {p : Nat} (h : Move s stage t)
    (hs : p < s.stack.length) (ht : p < t.stack.length) : t.stack[p]? = s.stack[p]? := by
  cases h.stackStep with
  | kept stack _ => rw [stack]
  | pushed _ q _ stack => rw [stack, List.getElem?_append_left hs]
  | cut _ stack _ =>
      rw [stack, List.length_dropLast] at ht
      rw [stack, List.getElem?_dropLast, if_pos ht]

/-! ### Entries from the newest on -/

/-- An index below the depth finds the entry that many places below the newest. -/
theorem stackRef_of_lt {s : State} {n : Nat} (h : n < s.stack.length) :
    ∃ entry, s.stack[s.stack.length - 1 - n]? = some entry ∧
      s.stackRef n = .ok (s.advancePlan entry.plan) := by
  have hplace : s.entry? n = s.stack[s.stack.length - 1 - n]? := List.getElem?_reverse h
  obtain ⟨entry, hentry⟩ : ∃ entry, s.stack[s.stack.length - 1 - n]? = some entry :=
    ⟨_, List.getElem?_eq_getElem (by omega)⟩
  refine ⟨entry, hentry, ?_⟩
  rw [stackRef, hplace, hentry]

theorem stackRef_of_le {s : State} {n : Nat} (h : s.stack.length ≤ n) :
    s.stackRef n = .error (.stackIndexOutOfRange n s.stack.length) := by
  have hnone : s.entry? n = none := by
    refine List.getElem?_eq_none ?_
    rw [List.length_reverse]
    exact h
  rw [stackRef, hnone]

end State

namespace Course
open State

/-! ### Courses -/

theorem onTop {first : Option (Sequence Event)} {visits : List Visit} {s : State}
    (h : Course (.startingFrom first) visits s) : s.OnTop first :=
  h.keeps Move.onTop fun _ => rfl

/-- **Stacking that is off stays off**, and the stack is only cut down. -/
theorem stack_prefix {s t : State} {visits : List Visit} (h : Course s visits t)
    (hoff : s.stacking = false) : t.stacking = false ∧ t.stack <+: s.stack := by
  refine h.keeps (P := fun u => u.stacking = false ∧ u.stack <+: s.stack) ?_ ⟨hoff, List.prefix_rfl⟩
  intro u v stage hmove ⟨hu, hprefix⟩
  obtain ⟨hv, hcut⟩ := hmove.stack_prefix hu
  exact ⟨hv, hcut.trans hprefix⟩

/-- **An entry keeps its place** as long as the stack is not cut down to it. -/
theorem getElem?_stack {p : Nat} {s t : State} {visits : List Visit} (h : Course s visits t)
    (hp : p < s.stack.length) (habove : ∀ visit ∈ visits, p < visit.state.value.stack.length) :
    t.stack[p]? = s.stack[p]? := by
  induction h with
  | nil => rfl
  | cons happly _ ih =>
      obtain ⟨hnext, hlater⟩ := List.forall_mem_cons.mp habove
      rw [ih hnext hlater, (Stage.move_of_apply happly).getElem?_stack hp hnext]

/-- **The stack and the switches.**  Behind every course from the beginning of a pipeline:

* while stacking is on, the current sequence is the newest entry of the stack, and without entries
  it is what the pipeline started from, a sequence or none;
* stacking is off iff a stage turned it off, and then it stays off and every later stack is a
  prefix of this one;
* printing is off iff a stage turned it off. -/
theorem stack_discipline {first : Option (Sequence Event)} {visits : List Visit} {s : State}
    (h : Course (.startingFrom first) visits s) :
    (s.stacking = true →
      (∀ top, s.stack.getLast? = some top → s.current = some top) ∧
        (s.stack = [] → s.current = first)) ∧
      (s.stacking = false ↔ ∃ visit ∈ visits, visit.stage = .disableStacking) ∧
      (s.stacking = false → ∀ (later : List Visit) (t : State), Course s later t →
        t.stacking = false ∧ t.stack <+: s.stack) ∧
      (s.mustPrint = false ↔ ∃ visit ∈ visits, visit.stage = .suppressPrint) := by
  refine ⟨fun hon => ⟨fun top htop => ?_, fun hnil => ?_⟩, ?_, fun hoff later t hlater => ?_, ?_⟩
  · rw [h.onTop hon, htop, Option.some_or]
  · rw [h.onTop hon, hnil, List.getLast?_nil, Option.none_or]
  · rw [h.switched_off_iff fun hmove => hmove.switches.1]
    exact or_iff_right Bool.false_ne_true.symm
  · exact hlater.stack_prefix hoff
  · rw [h.switched_off_iff fun hmove => hmove.switches.2]
    exact or_iff_right Bool.false_ne_true.symm

/-- An import puts what the pipeline started from on the stack, and a drop goes back to it. -/
theorem stack_discipline_import :
    ∃ (visits : List Visit) (s : State),
      Course (.startingFrom (some ⟨7, .items []⟩)) visits s ∧ s.stacking = true ∧
        s.stack.length = 1 ∧ s.current = some ⟨7, .items []⟩ ∧ s.mustPrint = false := by
  have happly : Stage.applyAll
      { Host.inert .standard with load := Services.modulesBy fun _ => .ok .null }
      [.importModule "m" "a", .wholeArray, .suppressPrint, .drop]
      (.startingFrom (some ⟨7, .items []⟩)) = ⟨[.load "m"], .ok _⟩ := rfl
  obtain ⟨visits, hcourse, hstages⟩ := of_applyAll happly
  obtain ⟨htop, -, -, hprint⟩ := stack_discipline hcourse
  have hsuppressed : Stage.suppressPrint ∈ visits.map (·.stage) := by
    rw [hstages]
    decide
  exact ⟨visits, _, hcourse, rfl, rfl, (htop rfl).1 _ rfl,
    hprint.mpr (List.mem_map.mp hsuppressed)⟩

/-- **Stack entries are checkpoints.**  Behind every course from the beginning of a pipeline:

* the entry at a place of the stack is still there behind any further course on which the stack
  never became so short that the place was empty;
* an index smaller than the depth, counted from the newest entry, makes a sequence current that has
  the runs of its entry under a handle that no named sequence has; any other index, however large,
  is out of range. -/
theorem checkpoints_stable {first : Option (Sequence Event)} {visits : List Visit} {s : State}
    (h : Course (.startingFrom first) visits s) :
    (∀ p < s.stack.length, ∀ (later : List Visit) (t : State), Course s later t →
      (∀ visit ∈ later, p < visit.state.value.stack.length) → t.stack[p]? = s.stack[p]?) ∧
      ∀ n : Nat,
        (n < s.stack.length → ∃ (entry resumed : Sequence Event) (t : State),
          s.stack[s.stack.length - 1 - n]? = some entry ∧ s.stackRef n = .ok t ∧
            t.current = some resumed ∧ resumed.plan.SameRuns entry.plan ∧
            ∀ named ∈ s.registry, named.sequence.same resumed = false) ∧
        (¬ n < s.stack.length →
          s.stackRef n = .error (.stackIndexOutOfRange n s.stack.length)) := by
  refine ⟨fun p hp later t hlater habove => hlater.getElem?_stack hp habove, fun n => ⟨?_, ?_⟩⟩
  · intro hn
    obtain ⟨entry, hentry, href⟩ := stackRef_of_lt hn
    exact ⟨entry, ⟨s.nextHandle, entry.plan⟩, _, hentry, href, rfl, .of_eq rfl,
      fun named hnamed => h.fresh.same_named hnamed _⟩
  · intro hn
    exact stackRef_of_le (Nat.not_lt.mp hn)

/-- The oldest of two entries outlasts a drop.  Before the drop it is found one place below the
newest, and the greatest number of 64 bits is out of range. -/
theorem checkpoints_stable_drop :
    ∃ (visits later : List Visit) (s t : State),
      Course (.startingFrom none) visits s ∧ Course s later t ∧
        s.stack.length = 2 ∧ t.stack.length = 1 ∧ t.stack[0]? = s.stack[0]? ∧
        (∃ (entry resumed : Sequence Event) (u : State), s.stack[0]? = some entry ∧
          s.stackRef 1 = .ok u ∧ u.current = some resumed ∧
          resumed.plan.SameRuns entry.plan) ∧
        s.stackRef 18446744073709551615 =
          .error (.stackIndexOutOfRange 18446744073709551615 2) := by
  obtain ⟨s, t, happly, hdrop, hs, ht⟩ : ∃ s t : State,
      Stage.applyAll (.inert .standard) [.wholeArray, .name "a", .wholeArray]
          (.startingFrom none) = ⟨[], .ok s⟩ ∧
        Stage.apply (.inert .standard) .drop s = ⟨[], .ok t⟩ ∧
        s.stack.length = 2 ∧ t.stack.length = 1 :=
    ⟨_, _, rfl, rfl, rfl, rfl⟩
  obtain ⟨visits, hcourse, -⟩ := of_applyAll happly
  have hlater : Course s [⟨.drop, [], t⟩] t := .cons hdrop (.nil t)
  obtain ⟨hkept, href⟩ := checkpoints_stable hcourse
  rw [hs] at hkept href
  have habove : ∀ visit ∈ [Visit.mk .drop ⟨[], t⟩], 0 < visit.state.value.stack.length := by
    simp [ht]
  obtain ⟨entry, resumed, u, hentry, hu, hcurrent, hruns, -⟩ := (href 1).1 (by decide)
  exact ⟨visits, _, s, t, hcourse, hlater, hs, ht, hkept 0 (by decide) _ _ hlater habove,
    ⟨entry, resumed, u, hentry, hu, hcurrent, hruns⟩, (href _).2 (by decide)⟩

end Course

end Pipeline
