import Pipeline.Stage.Apply

/-!
# Transition — what a stage does to a state

Thirteen kinds of stage put a new sequence in place of the current one, under a handle that no
sequence had before (`Stage.produces`).  The other five register the current sequence, go back to
the stack entry below it, turn a switch, or change the environment.  `Move` lists these ways, and
`move_of_apply` says that every stage that can be applied takes one of them; so what every stage
keeps is shown by one case for each way, not by one for each kind of stage.
-/

namespace Pipeline

namespace Stage

/-- The stage puts a new sequence in place of the current one. -/
def produces : Stage → Bool
  | .name _ | .drop | .disableStacking | .suppressPrint | .importModule _ _ => false
  | _ => true

end Stage

namespace State

/-- The ways from a state to the next. -/
inductive Move (s : State) : Stage → State → Prop where
  | produce {stage : Stage} (plan : Plan Event) (h : stage.produces = true) :
      Move s stage (s.advancePlan plan)
  | name {label : String} {t : State} (h : s.name label = .ok t) : Move s (.name label) t
  | drop {t : State} (h : s.drop = .ok t) : Move s .drop t
  | disableStacking : Move s .disableStacking s.disableStacking
  | suppressPrint : Move s .suppressPrint s.suppressPrint
  | firstImport {reference bound : String} (env : Environment) (h : s.current = none) :
      Move s (.importModule reference bound) (s.withEnvironment env)
  | laterImport {reference bound : String} (env : Environment) {current : Sequence Event}
      (h : s.current = some current) :
      Move s (.importModule reference bound) ((s.withEnvironment env).advance current)

/-! ### Transitions that can fail -/

/-- **Naming.**  Where it succeeds the name was free and the current sequence had none.  The
registry gains the current sequence under the name, or where there is none a new one without
items. -/
theorem name_eq_ok_cases {s t : State} {label : String} (h : s.name label = .ok t) :
    s.find? label = none ∧ s.currentNamed? = none ∧
      ((∃ current, s.current = some current ∧
          t = { s with registry := s.registry ++ [⟨label, current⟩] }) ∨
        (s.current = none ∧ t = { s with
          registry := s.registry ++ [⟨label, s.nextHandle, .empty⟩]
          nextHandle := s.nextHandle + 1 })) := by
  unfold State.name at h
  split at h
  · cases h
  · next hfree =>
      split at h
      · cases h
      · next hnew =>
          refine ⟨hfree, hnew, ?_⟩
          split at h
          · next current hc => cases h; exact .inl ⟨current, hc, rfl⟩
          · next hc => cases h; exact .inr ⟨hc, rfl⟩

/-- Either way the registry gains one entry with the runs of the current sequence. -/
theorem name_eq_ok {s t : State} {label : String} (h : s.name label = .ok t) :
    s.find? label = none ∧ s.currentNamed? = none ∧
      ∃ (sequence : Sequence Event) (nextHandle : Handle), sequence.plan = s.input ∧
        t = { s with registry := s.registry ++ [⟨label, sequence⟩], nextHandle } := by
  obtain ⟨hfree, hnew, ⟨current, hc, rfl⟩ | ⟨hc, rfl⟩⟩ := name_eq_ok_cases h
  · exact ⟨hfree, hnew, current, s.nextHandle, by rw [input, hc], rfl⟩
  · exact ⟨hfree, hnew, ⟨s.nextHandle, .empty⟩, s.nextHandle + 1, by rw [input, hc], rfl⟩

theorem lookup_eq_ok {s : State} {label : String} {sequence : Sequence Event}
    (h : s.lookup label = .ok sequence) :
    ∃ named, s.find? label = some named ∧ named.sequence = sequence := by
  unfold State.lookup at h
  split at h
  · next named hf => cases h; exact ⟨named, hf, rfl⟩
  · cases h

theorem seek_eq_ok {s t : State} {label : String} (h : s.seek label = .ok t) :
    ∃ named, s.find? label = some named ∧ t = s.advancePlan named.sequence.plan := by
  cases hl : s.lookup label with
  | error e => simp only [State.seek, hl, bind, Except.bind] at h; cases h
  | ok sequence =>
      simp only [State.seek, hl, bind, Except.bind] at h
      cases h
      obtain ⟨named, hf, rfl⟩ := lookup_eq_ok hl
      exact ⟨named, hf, rfl⟩

theorem stackRef_eq_ok {s t : State} {index : Nat} (h : s.stackRef index = .ok t) :
    ∃ sequence, s.entry? index = some sequence ∧ t = s.advancePlan sequence.plan := by
  unfold State.stackRef at h
  split at h
  · next sequence he => cases h; exact ⟨sequence, he, rfl⟩
  · cases h

theorem drop_eq_ok {s t : State} (h : s.drop = .ok t) :
    2 ≤ s.stack.length ∧
      t = { s with stack := s.stack.dropLast, current := s.stack.dropLast.getLast? } := by
  unfold State.drop at h
  split at h
  · cases h
  · next hlen => cases h; exact ⟨Nat.not_lt.mp hlen, rfl⟩

end State

namespace Stage
open State

theorem applyCombine_eq_ok {s t : State} {names : List String} (h : applyCombine names s = .ok t) :
    ∃ sequences, members s names = .ok sequences ∧
      t = s.advancePlan (combinePlan (sequences.map (·.plan))) := by
  cases hm : members s names with
  | error e => simp only [applyCombine, hm, bind, Except.bind] at h; cases h
  | ok sequences =>
      simp only [applyCombine, hm, bind, Except.bind] at h
      cases h
      exact ⟨sequences, rfl, rfl⟩

/-- **Importing.**  Where it succeeds the module has exports, which are bound for the stages behind
it, and a current sequence is put on the stack once more. -/
theorem applyImport_eq_ok {services : Services} {reference bound : String} {s t : State}
    {events : List Event} (h : applyImport services reference bound s = ⟨events, .ok t⟩) :
    ∃ exports, (services.load reference).value = .ok exports ∧
      ((s.current = none ∧ t = s.withEnvironment (s.env.bind bound exports)) ∨
        ∃ current, s.current = some current ∧
          t = (s.withEnvironment (s.env.bind bound exports)).advance current) := by
  have hv : (applyImport services reference bound s).value = .ok t := by rw [h]
  unfold applyImport at hv
  rw [Traced.value_bind] at hv
  cases hl : (services.load reference).value with
  | error cause => rw [hl] at hv; cases hv
  | ok exports =>
      refine ⟨exports, rfl, ?_⟩
      rw [hl] at hv
      dsimp only at hv
      cases hc : (s.withEnvironment (s.env.bind bound exports)).current with
      | none => rw [hc] at hv; cases hv; exact .inl ⟨hc, rfl⟩
      | some current => rw [hc] at hv; cases hv; exact .inr ⟨current, hc, rfl⟩

/-- **Every stage takes one of the ways.** -/
theorem move_of_apply {host : Host} {stage : Stage} {s t : State} {events : List Event}
    (h : stage.apply host s = ⟨events, .ok t⟩) : Move s stage t := by
  cases stage
  case name label => exact .name (congrArg Traced.value h)
  case drop => exact .drop (congrArg Traced.value h)
  case disableStacking => cases h; exact .disableStacking
  case suppressPrint => cases h; exact .suppressPrint
  case importModule reference bound =>
    obtain ⟨exports, -, ⟨hc, rfl⟩ | ⟨current, hc, rfl⟩⟩ := applyImport_eq_ok h
    · exact .firstImport _ hc
    · exact .laterImport _ hc
  case seek label =>
    obtain ⟨named, -, rfl⟩ := seek_eq_ok (congrArg Traced.value h)
    exact .produce _ rfl
  case stackRef index =>
    obtain ⟨sequence, -, rfl⟩ := stackRef_eq_ok (congrArg Traced.value h)
    exact .produce _ rfl
  case combine names =>
    obtain ⟨sequences, -, rfl⟩ := applyCombine_eq_ok (congrArg Traced.value h)
    exact .produce _ rfl
  all_goals
    cases h
    exact .produce _ rfl

end Stage

end Pipeline
