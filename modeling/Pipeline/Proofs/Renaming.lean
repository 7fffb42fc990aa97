import Pipeline.Proofs.Handles

/-!
# Renaming — handles do not show

A handle says which sequence it is, and nothing else: a stage compares handles, and asks for the
next one.  `State.rename σ` puts the handle `σ h` in the place of every handle `h`.  Where `σ` keeps
handles apart, and from the next one on keeps them in a row (`Shifts`), a renamed state goes the way
of the state it came from: one stage (`apply_rename`), any number of stages (`applyAll_rename`), and
any tokens (`runFrom_rename`).

**Handles do not show** (`Interpreter.outcome_rename`).  A finished pipeline has no handles, so from
a renamed state tokens come to the same pipeline, or to the same error.

A handle that was given away and is not in use can be left out (`State.rename_skip`).
-/

namespace Pipeline

/-- The same runs under the handle that `σ` gives. -/
def Sequence.rename {ε : Type} (σ : Handle → Handle) (q : Sequence ε) : Sequence ε :=
  q.withHandle (σ q.handle)

/-- The same name for the sequence under the handle that `σ` gives. -/
def Named.rename (σ : Handle → Handle) (named : Named) : Named :=
  ⟨named.name, named.sequence.rename σ⟩

/-- `σ` keeps handles apart, and from `k` on the handle behind another stays behind it. -/
structure Shifts (σ : Handle → Handle) (k : Handle) : Prop where
  injective : ∀ {a b : Handle}, σ a = σ b → a = b
  succ : ∀ {n : Handle}, k ≤ n → σ (n + 1) = σ n + 1

theorem Shifts.mono {σ : Handle → Handle} {k l : Handle} (h : Shifts σ k) (hkl : k ≤ l) :
    Shifts σ l :=
  ⟨h.injective, fun hn => h.succ (Nat.le_trans hkl hn)⟩

theorem Shifts.same_rename {ε : Type} {σ : Handle → Handle} {k : Handle} (h : Shifts σ k)
    (a b : Sequence ε) : (a.rename σ).same (b.rename σ) = a.same b := by
  rw [Bool.eq_iff_iff, Sequence.same, Sequence.same, beq_iff_eq, beq_iff_eq]
  exact ⟨h.injective, congrArg σ⟩

namespace State

/-- Every handle `h` replaced by `σ h`. -/
def rename (σ : Handle → Handle) (s : State) : State :=
  { s with
    current := s.current.map (·.rename σ)
    registry := s.registry.map (·.rename σ)
    stack := s.stack.map (·.rename σ)
    nextHandle := σ s.nextHandle }

variable {σ : Handle → Handle}

/-! ### What a state shows without its handles -/

theorem plan_current_rename (s : State) :
    (s.rename σ).current.map (·.plan) = s.current.map (·.plan) := by
  unfold rename
  rw [Option.map_map]
  rfl

theorem input_rename (s : State) : (s.rename σ).input = s.input := by
  unfold input rename
  cases s.current <;> rfl

theorem find?_rename (s : State) (label : String) :
    (s.rename σ).find? label = (s.find? label).map (·.rename σ) := by
  unfold find? rename
  rw [List.find?_map]
  rfl

theorem currentNamed?_rename {k : Handle} (hσ : Shifts σ k) (s : State) :
    (s.rename σ).currentNamed? = s.currentNamed?.map (·.rename σ) := by
  unfold currentNamed? rename
  cases s.current with
  | none => rfl
  | some current =>
      rw [Option.map_some, Option.bind_some, Option.bind_some, List.find?_map]
      congr 2
      funext named
      exact hσ.same_rename _ _

theorem entry?_rename (s : State) (index : Nat) :
    State.entry? (s.rename σ) index = ( s.entry? index).map (·.rename σ) := by
  unfold State.entry? rename
  rw [← List.map_reverse, List.getElem?_map]

theorem lookup_rename (s : State) (label : String) :
    (s.rename σ).lookup label = (s.lookup label).map (·.rename σ) := by
  unfold lookup
  rw [find?_rename]
  cases s.find? label <;> rfl

theorem finish_rename (s : State) : (s.rename σ).finish = s.finish := by
  unfold finish
  rw [input_rename]
  rfl

/-! ### Transitions of renamed states -/

theorem advance_rename (s : State) (q : Sequence Event) :
    (s.rename σ).advance (q.rename σ) = (s.advance q).rename σ := by
  unfold advance rename
  by_cases hst : s.stacking <;> simp [hst]

theorem advancePlan_rename {s : State} (hσ : Shifts σ s.nextHandle) (plan : Plan Event) :
    (s.rename σ).advancePlan plan = (s.advancePlan plan).rename σ := by
  unfold advancePlan
  rw [← advance_rename]
  -- the next handle but one is renamed to the one behind the renamed next handle
  have hnext : σ (s.nextHandle + 1) = σ s.nextHandle + 1 := hσ.succ (Nat.le_refl _)
  unfold rename
  rw [hnext]
  rfl

theorem name_rename {s : State} (hσ : Shifts σ s.nextHandle) (label : String) :
    (s.rename σ).name label = (s.name label).map (rename σ) := by
  have hnext : σ (s.nextHandle + 1) = σ s.nextHandle + 1 := hσ.succ (Nat.le_refl _)
  unfold name
  rw [find?_rename, currentNamed?_rename hσ]
  cases s.find? label with
  | some _ => rfl
  | none =>
      cases s.currentNamed? with
      | some _ => rfl
      | none =>
          cases hc : s.current with
          | none =>
              simp [rename, hc, Except.map, Named.rename, Sequence.rename, Sequence.withHandle,
                hnext]
          | some current => simp [rename, hc, Except.map, Named.rename]

theorem seek_rename {s : State} (hσ : Shifts σ s.nextHandle) (label : String) :
    (s.rename σ).seek label = (s.seek label).map (rename σ) := by
  unfold seek
  rw [lookup_rename]
  cases s.lookup label with
  | error e => rfl
  | ok q => exact congrArg Except.ok (advancePlan_rename hσ q.plan)

theorem stackRef_rename {s : State} (hσ : Shifts σ s.nextHandle) (index : Nat) :
    (s.rename σ).stackRef index = (s.stackRef index).map (rename σ) := by
  unfold stackRef
  rw [entry?_rename]
  cases s.entry? index with
  | none => simp [rename, Except.map]
  | some q => exact congrArg Except.ok (advancePlan_rename hσ q.plan)

theorem drop_rename (s : State) : (s.rename σ).drop = s.drop.map (rename σ) := by
  unfold drop
  have hlen : (s.rename σ).stack.length = s.stack.length := List.length_map _
  rw [hlen]
  by_cases h : s.stack.length < 2
  · rw [if_pos h, if_pos h]; rfl
  · rw [if_neg h, if_neg h]
    simp [rename, Except.map, ← List.map_dropLast, List.getLast?_map]

end State

namespace Stage
open State

variable {σ : Handle → Handle}

theorem members_rename (s : State) : ∀ names : List String,
    members (s.rename σ) names = (members s names).map (·.map (·.rename σ))
  | [] => rfl
  | label :: names => by
      have hrest := members_rename s names
      unfold members at hrest ⊢
      rw [List.mapM_cons, List.mapM_cons, hrest, lookup_rename]
      cases s.lookup label with
      | error e => rfl
      | ok first => cases names.mapM s.lookup <;> rfl

theorem applyCombine_rename {s : State} (hσ : Shifts σ s.nextHandle) (names : List String) :
    applyCombine names (s.rename σ) = (applyCombine names s).map (rename σ) := by
  unfold applyCombine
  rw [members_rename]
  cases members s names with
  | error e => rfl
  | ok sequences =>
      have hplans : (sequences.map (·.rename σ)).map (·.plan) = sequences.map (·.plan) := by
        rw [List.map_map]; rfl
      show Except.ok _ = Except.ok _
      rw [hplans, advancePlan_rename hσ]

theorem applyImport_rename (services : Services) (reference bound : String) (s : State) :
    applyImport services reference bound (s.rename σ) =
      (applyImport services reference bound s).andThen fun t => pure (.ok (t.rename σ)) := by
  unfold applyImport
  obtain ⟨events, cause | exports⟩ := services.load reference
  · exact (Traced.andThen_error (events ++ []) _ _).symm
  · cases hc : s.current with
    | none => simp [rename, withEnvironment, hc, Bind.bind, pure, Traced.andThen]
    | some current =>
        by_cases hst : s.stacking <;>
          simp [rename, withEnvironment, advance, hc, hst, Bind.bind, pure, Traced.andThen]

theorem produce_rename {s : State} (hσ : Shifts σ s.nextHandle) (plan : Plan Event) :
    produce (s.rename σ) plan = (produce s plan).andThen fun t => pure (.ok (t.rename σ)) := by
  unfold produce
  rw [advancePlan_rename hσ]
  rfl

/-- **One stage of a renamed state.** -/
theorem apply_rename {s : State} (hσ : Shifts σ s.nextHandle) (host : Host) (stage : Stage) :
    stage.apply host (s.rename σ) =
      (stage.apply host s).andThen fun t => pure (.ok (t.rename σ)) := by
  cases stage with
  | name label => simp only [apply, Traced.andThen_pure_ok, name_rename hσ]
  | seek label => simp only [apply, Traced.andThen_pure_ok, seek_rename hσ]
  | stackRef index => simp only [apply, Traced.andThen_pure_ok, stackRef_rename hσ]
  | drop => simp only [apply, Traced.andThen_pure_ok, drop_rename]
  | combine names => simp only [apply, Traced.andThen_pure_ok, applyCombine_rename hσ]
  | importModule reference bound => exact applyImport_rename _ _ _ _
  | disableStacking => rfl
  | suppressPrint => rfl
  | _ =>
      simp only [apply, plan_current_rename, input_rename]
      exact produce_rename hσ _

/-- **Any number of stages of a renamed state.** -/
theorem applyAll_rename (host : Host) : ∀ (stages : List Stage) {s : State},
    Shifts σ s.nextHandle →
      applyAll host stages (s.rename σ) =
        (applyAll host stages s).andThen fun t => pure (.ok (t.rename σ))
  | [], _, _ => rfl
  | stage :: stages, s, hσ => by
      rw [applyAll, applyAll, apply_rename hσ, Traced.andThen_assoc, Traced.andThen_assoc]
      refine Traced.andThen_congr fun h => ?_
      exact applyAll_rename host stages (hσ.mono (move_of_apply h).nextHandle_le)

end Stage

namespace Interpreter
open Stage State

/-- What a pipeline comes to that goes on with tokens from a state. -/
def outcome (host : Host) (s : State) (tokens : List String) :
    Traced Event (Except BuildError Output) :=
  (runFrom host s tokens).andThen fun last => pure (.ok last.finish)

/-- A pipeline from its beginning. -/
theorem run_eq_outcome (host : Host) (tokens : List String) (items : Option (List Item)) :
    run host tokens items =
      outcome host (.startingFrom (items.map fun xs => ⟨0, .items xs⟩)) tokens := by
  rw [run_eq_andThen, initial_eq_startingFrom]
  rfl

/-- What tokens come to is what those behind a boundary come to, from where the others end. -/
theorem outcome_append {tokens more : List String} (h : ReadsFully tokens)
    (hm : StartsStage more) (host : Host) (s : State) :
    outcome host s (tokens ++ more) =
      (runFrom host s tokens).andThen fun next => outcome host next more := by
  rw [outcome, runFrom_append h hm, Traced.andThen_assoc]
  rfl

/-- Tokens whose stages agree come to the same error, or to related pipelines. -/
theorem outcome_agree {host other : Host} {R : State → State → Prop} {S : Output → Output → Prop}
    {tokens : List String}
    (hstep : ∀ stage ∈ stagesOf tokens, ∀ {s t : State}, R s t →
      (stage.apply host s).Agree R (stage.apply other t))
    (hfinish : ∀ {s t : State}, R s t → S s.finish t.finish) {s t : State} (h : R s t) :
    (outcome host s tokens).Agree S (outcome other t tokens) := by
  unfold outcome
  rw [runFrom_eq_applyAll, runFrom_eq_applyAll, Traced.andThen_assoc, Traced.andThen_assoc]
  refine (applyAll_agree hstep h).andThen fun hlast => ?_
  rw [Traced.andThen_pure_ok, Traced.andThen_pure_ok]
  unfold settle
  cases (readAll tokens).2 with
  | some e => exact .error _ e
  | none => exact .ok _ (hfinish hlast)

theorem runFrom_rename {σ : Handle → Handle} {s : State} (hσ : Shifts σ s.nextHandle) (host : Host)
    (tokens : List String) :
    runFrom host (s.rename σ) tokens =
      (runFrom host s tokens).andThen fun t => pure (.ok (t.rename σ)) := by
  rw [runFrom_eq_applyAll, runFrom_eq_applyAll, applyAll_rename host _ hσ, Traced.andThen_assoc,
    Traced.andThen_assoc]
  refine Traced.andThen_congr fun {_ last} _ => ?_
  rw [Traced.andThen_pure_ok]
  unfold settle
  cases (readAll tokens).2 <;> rfl

/-- **Handles do not show.** -/
theorem outcome_rename {σ : Handle → Handle} {s : State} (hσ : Shifts σ s.nextHandle) (host : Host)
    (tokens : List String) : outcome host (s.rename σ) tokens = outcome host s tokens := by
  unfold outcome
  rw [runFrom_rename hσ, Traced.andThen_assoc]
  refine Traced.andThen_congr fun {_ last} _ => ?_
  rw [Traced.andThen_pure_ok, Except.map, finish_rename]

end Interpreter

/-! ### One handle left out -/

/-- Leaves out the handle `k`. -/
def skip (k h : Handle) : Handle := if h < k then h else h + 1

theorem shifts_skip (k : Handle) : Shifts (skip k) k where
  injective h := by
    unfold skip at h
    grind
  succ hn := by
    unfold skip
    rw [if_neg (Nat.not_lt.mpr hn), if_neg (Nat.not_lt.mpr (Nat.le_succ_of_le hn))]

namespace State

/-- A renaming that changes none of a state's handles changes the next one at most. -/
theorem rename_eq_self {σ : Handle → Handle} {s : State}
    (h : ∀ q ∈ s.sequences, σ q.handle = q.handle) :
    s.rename σ = { s with nextHandle := σ s.nextHandle } := by
  have hself : ∀ q ∈ s.sequences, q.rename σ = q := fun q hq => by
    rw [Sequence.rename, h q hq]
    rfl
  have hcurrent : s.current.map (·.rename σ) = s.current := by
    cases hc : s.current with
    | none => rfl
    | some q => exact congrArg some (hself q (current_mem_sequences hc))
  have hregistry : s.registry.map (·.rename σ) = s.registry := by
    refine (List.map_congr_left fun named hn => ?_).trans (List.map_id _)
    rw [Named.rename, hself _ (named_mem_sequences hn)]
    rfl
  have hstack : s.stack.map (·.rename σ) = s.stack := by
    refine (List.map_congr_left fun q hq => ?_).trans (List.map_id _)
    exact hself q (entry_mem_sequences hq)
  unfold rename
  rw [hcurrent, hregistry, hstack]

/-- A handle that was never used is not missed. -/
theorem rename_skip {s : State} (hs : s.Fresh) :
    s.rename (skip s.nextHandle) = { s with nextHandle := s.nextHandle + 1 } := by
  rw [rename_eq_self fun q hq => if_pos (hs q hq), skip, if_neg (Nat.lt_irrefl _)]

end State

end Pipeline
