import Pipeline.Proofs.Lexing
import Pipeline.Proofs.Mentions
import Pipeline.Proofs.Registry
import Pipeline.Proofs.Renaming

/-!
# Bookkeeping — stages that leave the data alone

An import binds an alias, `--nostack` turns stacking off, and `-p` turns printing off.  None of them
changes the current sequence or the named ones; an import puts the current sequence on the stack
once more, under the handle it has.  So the states before and behind such a stage are alike
(`State.Alike`): they differ in the stack, in the switches, and in what one alias stands for.

A stage that does not look at the stack, and does not mention the alias, takes alike states to alike
ones, with the same events or the same error (`State.Alike.apply`), and so do all the stages of
tokens (`Interpreter.outcome_of_alike`).  The plans they build are the same, for a plan holds of its
environment what its phrases can see of it.

**Bookkeeping leaves the data alone** (`Interpreter.bookkeeping_undisturbing`): where the stages
behind it are such, each of the three can be put between two parts of a pipeline.
-/

namespace Pipeline

/-! ### Environments -/

theorem Value.lookup_cons_if (n k : String) (v : Value) (fields : List (String × Value)) :
    ((k, v) :: fields).lookup n = if n = k then some v else fields.lookup n := by
  by_cases h : n = k
  · simp [h]
  · rw [List.lookup_cons, beq_false_of_ne h, if_neg h]

theorem Value.lookup_setField (key n : String) (v : Value) (fields : List (String × Value)) :
    (setField key v fields).lookup n = if n = key then some v else fields.lookup n := by
  induction fields with
  | nil => rw [setField, lookup_cons_if]
  | cons field fields ih =>
      obtain ⟨k, old⟩ := field
      by_cases hk : k = key
      · subst hk
        rw [setField, if_pos rfl, lookup_cons_if, lookup_cons_if]
        by_cases h : n = k <;> simp only [h, if_true, if_false]
      · rw [setField, if_neg hk, lookup_cons_if, lookup_cons_if, ih]
        by_cases h : n = k
        · subst h
          rw [if_pos rfl, if_pos rfl, if_neg hk]
        · rw [if_neg h, if_neg h]

theorem Environment.get?_bind (env : Environment) (name n : String) (v : Value) :
    (env.bind name v).get? n = if n = name then some v else env.get? n :=
  Value.lookup_setField name n v env.aliases

/-! ### What a stage looks at -/

namespace Stage

/-- The stage looks at the stack. -/
def readsStack : Stage → Bool
  | .drop | .stackRef _ => true
  | _ => false

/-- A source or a hole of the stage mentions the name. -/
def mentions (name : String) : Stage → Bool
  | .evaluate p | .errorHandler p | .filter p | .flatMap p | .terminate p | .log p | .write p =>
    p.mentions name
  | .reduce p seed => p.mentions name || seed.mentions name
  | .shell p => p.holesMention name
  | _ => false

end Stage

/-! ### Alike states -/

namespace State

/-- The states differ in the stack, in the switches, and in the aliases of `hidden` at most; the
second prints where the first does and `printing` allows it. -/
structure Alike (hidden : List String) (printing : Bool) (s t : State) : Prop where
  current : t.current = s.current
  registry : t.registry = s.registry
  nextHandle : t.nextHandle = s.nextHandle
  mustPrint : t.mustPrint = (s.mustPrint && printing)
  env : ∀ n, n ∉ hidden → s.env.get? n = t.env.get? n

namespace Alike

variable {hidden : List String} {printing : Bool} {s t : State}

theorem input (h : Alike hidden printing s t) : t.input = s.input := by
  rw [State.input, State.input, h.current]

theorem lookup (h : Alike hidden printing s t) : t.lookup = s.lookup := by
  funext label
  rw [State.lookup, State.lookup, State.find?, State.find?, h.registry]

theorem advance (h : Alike hidden printing s t) (sequence : Sequence Event) :
    Alike hidden printing (s.advance sequence) (t.advance sequence) :=
  ⟨rfl, h.registry, h.nextHandle, h.mustPrint, h.env⟩

theorem advancePlan (h : Alike hidden printing s t) (plan : Plan Event) :
    Alike hidden printing (s.advancePlan plan) (t.advancePlan plan) := by
  unfold State.advancePlan
  rw [h.nextHandle]
  exact advance (s := { s with nextHandle := s.nextHandle + 1 })
    (t := { t with nextHandle := s.nextHandle + 1 })
    ⟨h.current, h.registry, rfl, h.mustPrint, h.env⟩ _

theorem bind (h : Alike hidden printing s t) (name : String) (v : Value) :
    Alike hidden printing (s.withEnvironment (s.env.bind name v))
      (t.withEnvironment (t.env.bind name v)) := by
  refine ⟨h.current, h.registry, h.nextHandle, h.mustPrint, fun n hn => ?_⟩
  show (s.env.bind name v).get? n = (t.env.bind name v).get? n
  rw [Environment.get?_bind, Environment.get?_bind, h.env n hn]

theorem name (h : Alike hidden printing s t) (label : String) :
    (pure (s.name label) : Traced Event _).Agree (Alike hidden printing) (pure (t.name label)) := by
  have hfind : t.find? label = s.find? label := by
    rw [State.find?, State.find?, h.registry]
  have hnamed : t.currentNamed? = s.currentNamed? := by
    rw [State.currentNamed?, State.currentNamed?, h.current, h.registry]
  unfold State.name
  rw [hfind, hnamed, h.current, h.registry, h.nextHandle]
  cases s.find? label with
  | some _ => exact .error _ _
  | none =>
      cases s.currentNamed? with
      | some _ => exact .error _ _
      | none =>
          cases s.current with
          | some current => exact .ok _ ⟨rfl, rfl, rfl, h.mustPrint, h.env⟩
          | none => exact .ok _ ⟨rfl, rfl, rfl, h.mustPrint, h.env⟩

theorem produce (h : Alike hidden printing s t) {plan plan' : Plan Event} (hplan : plan = plan') :
    (Stage.produce s plan).Agree (Alike hidden printing) (Stage.produce t plan') := by
  subst hplan
  exact .ok _ (h.advancePlan plan)

theorem applyImport (services : Services) (h : Alike hidden printing s t)
    (reference bound : String) :
    (Stage.applyImport services reference bound s).Agree (Alike hidden printing)
      (Stage.applyImport services reference bound t) := by
  unfold Stage.applyImport
  obtain ⟨events, cause | exports⟩ := services.load reference
  · exact .error _ _
  · have hbound := h.bind bound exports
    simp only [Bind.bind]
    rw [hbound.current]
    cases (s.withEnvironment (s.env.bind bound exports)).current with
    | none => exact .ok _ hbound
    | some current => exact .ok _ (hbound.advance current)

/-- **One stage of alike states**, that looks neither at the stack nor at a hidden alias. -/
theorem apply (services : Services) (h : Alike hidden printing s t) {stage : Stage}
    (hstack : stage.readsStack = false) (hhidden : ∀ n ∈ hidden, stage.mentions n = false) :
    (stage.apply services s).Agree (Alike hidden printing) (stage.apply services t) := by
  have hseen : ∀ n, stage.mentions n = true → s.env.get? n = t.env.get? n := by
    intro n hn
    refine h.env n fun hmem => ?_
    rw [hhidden n hmem] at hn
    cases hn
  cases stage with
  | name label => exact h.name label
  | seek label =>
      simp only [Stage.apply, State.seek, h.lookup]
      cases s.lookup label with
      | error e => exact .error _ e
      | ok sequence => exact .ok _ (h.advancePlan sequence.plan)
  | combine names =>
      simp only [Stage.apply, Stage.applyCombine, Stage.members, h.lookup]
      cases names.mapM s.lookup with
      | error e => exact .error _ e
      | ok sequences => exact .ok _ (h.advancePlan _)
  | importModule reference bound => exact h.applyImport services reference bound
  | disableStacking => exact .ok _ ⟨h.current, h.registry, h.nextHandle, h.mustPrint, h.env⟩
  | suppressPrint => exact .ok _ ⟨h.current, h.registry, h.nextHandle, rfl, h.env⟩
  | drop => cases hstack
  | stackRef index => cases hstack
  | wholeArray => exact h.produce (by rw [h.input])
  -- the other plans hold the environment inside the calls of their phrases
  | evaluate p =>
      refine h.produce ?_
      simp only [h.current, Stage.evaluatePlan, Host.prepare, Prepared.call_congr hseen]
  | shell p =>
      refine h.produce ?_
      simp only [h.current, Stage.shellPlan, Stage.runCommand, Host.prepareCommand,
        PreparedCommand.fill_congr hseen]
  | reduce p seed =>
      refine h.produce ?_
      have hp : ∀ n, p.mentions n = true → s.env.get? n = t.env.get? n := fun n hn =>
        hseen n (by simp [Stage.mentions, hn])
      have hseed : ∀ n, seed.mentions n = true → s.env.get? n = t.env.get? n := fun n hn =>
        hseen n (by simp [Stage.mentions, hn])
      simp only [h.input, Stage.reducePlan, Host.prepare, Prepared.call_congr hp,
        Prepared.call_congr hseed]
  | _ p =>
      refine h.produce ?_
      simp only [h.input, Stage.errorHandlerPlan, Stage.filterPlan, Stage.flatMapPlan,
        Stage.terminatePlan, Stage.tapPlan, Host.prepare, Prepared.call_congr hseen]

/-- The two states finish with the same runs. -/
theorem finish (h : Alike hidden printing s t) :
    t.finish.plan.SameRuns s.finish.plan ∧ t.finish.mustPrint = (s.finish.mustPrint && printing) :=
  ⟨.of_eq h.input, h.mustPrint⟩

end Alike

/-! ### The three stages -/

theorem alike_import {services : Services} {reference bound : String} {loads : List Event}
    {exports : Value} (h : services.load reference = ⟨loads, .ok exports⟩) (s : State) :
    ∃ t, Alike [bound] true s t ∧
      (Stage.importModule reference bound).apply services s = ⟨loads, .ok t⟩ := by
  have henv : ∀ n, n ∉ [bound] → s.env.get? n = (s.env.bind bound exports).get? n := by
    intro n hn
    rw [Environment.get?_bind, if_neg (mt List.mem_singleton.mpr hn)]
  simp only [Stage.apply, Stage.applyImport, h, Bind.bind]
  cases hc : (s.withEnvironment (s.env.bind bound exports)).current with
  | none =>
      refine ⟨s.withEnvironment (s.env.bind bound exports), ?_, by simp [pure]⟩
      exact ⟨rfl, rfl, rfl, (Bool.and_true _).symm, henv⟩
  | some current =>
      refine ⟨(s.withEnvironment (s.env.bind bound exports)).advance current, ?_, by simp [pure]⟩
      exact ⟨hc.symm, rfl, rfl, (Bool.and_true _).symm, henv⟩

theorem alike_disableStacking (s : State) : Alike [] true s s.disableStacking :=
  ⟨rfl, rfl, rfl, (Bool.and_true _).symm, fun _ _ => rfl⟩

theorem alike_suppressPrint (s : State) : Alike [] false s s.suppressPrint :=
  ⟨rfl, rfl, rfl, (Bool.and_false _).symm, fun _ _ => rfl⟩

end State

namespace Interpreter
open Stage State

/-- The pipelines have the same runs, and the second prints where the first does and `printing`
allows it. -/
def SameData (printing : Bool) (plain inserted : Output) : Prop :=
  inserted.plan.SameRuns plain.plan ∧ inserted.mustPrint = (plain.mustPrint && printing)

/-- **Alike states come to the same data**, or to the same error. -/
theorem outcome_of_alike (services : Services) {hidden : List String} {printing : Bool}
    {tokens : List String} (hstack : ∀ stage ∈ stagesOf tokens, stage.readsStack = false)
    (hhidden : ∀ stage ∈ stagesOf tokens, ∀ n ∈ hidden, stage.mentions n = false) {s t : State}
    (h : Alike hidden printing s t) :
    (outcome services s tokens).Agree (SameData printing) (outcome services t tokens) :=
  outcome_agree
    (fun stage hmem {_ _} halike => halike.apply services (hstack stage hmem) (hhidden stage hmem))
    Alike.finish h

/-- What a pipeline comes to with a stage behind `before` is what it comes to without, up to the
events `extra` of that stage, which come behind those of `before` if that ended well, and up to
printing. -/
structure Undisturbed (before : Traced Event (Except BuildError State)) (extra : List Event)
    (printing : Bool) (plain inserted : Traced Event (Except BuildError Output)) : Prop where
  events : ∃ later, plain.events = before.events ++ later ∧
    inserted.events = before.events ++ (if before.value.isOk then extra else []) ++ later
  error : ∀ e, inserted.value = .error e ↔ plain.value = .error e
  output : ∀ out, plain.value = .ok out →
    ∃ out', inserted.value = .ok out' ∧ SameData printing out out'

/-- A stage that leads from every state to an alike one disturbs nothing. -/
theorem undisturbed_of_alike {services : Services} {hidden : List String} {printing : Bool}
    {stage : Stage} {extra : List Event} {n : Nat} {before middle after : List String}
    (hb : ReadsFully before) (hm : StartsStage (middle ++ after)) (ha : StartsStage after)
    (hp : parse (middle ++ after) = .ok (stage, n)) (hn : (middle ++ after).drop n = after)
    (happly : ∀ s, ∃ t, Alike hidden printing s t ∧ stage.apply services s = ⟨extra, .ok t⟩)
    (hstack : ∀ stage ∈ stagesOf after, stage.readsStack = false)
    (hhidden : ∀ stage ∈ stagesOf after, ∀ n ∈ hidden, stage.mentions n = false) (start : State) :
    Undisturbed (runFrom services start before) extra printing
      (outcome services start (before ++ after))
      (outcome services start (before ++ middle ++ after)) := by
  rw [List.append_assoc, outcome_append hb ha, outcome_append hb hm]
  obtain ⟨events, e | s⟩ := runFrom services start before
  · rw [Traced.andThen_error, Traced.andThen_error]
    exact ⟨⟨[], (List.append_nil _).symm, by simp [Except.isOk, Except.toBool]⟩,
      fun _ => Iff.rfl, fun _ h => by cases h⟩
  · obtain ⟨t, halike, hs⟩ := happly s
    -- behind the stage the same tokens are interpreted, from an alike state
    have hstep : outcome services s (middle ++ after) =
        ⟨extra ++ (outcome services t after).events, (outcome services t after).value⟩ := by
      rw [outcome, runFrom_of_ok hp, hn, hs, Traced.andThen_assoc, Traced.andThen_ok]
      rfl
    have hagree := outcome_of_alike services hstack hhidden halike
    rw [Traced.andThen_ok, Traced.andThen_ok, hstep]
    generalize outcome services s after = plain at hagree ⊢
    generalize outcome services t after = inserted at hagree ⊢
    cases hagree with
    | error later e =>
        exact ⟨⟨later, rfl, by simp [Except.isOk, Except.toBool]⟩, fun _ => Iff.rfl,
          fun _ h => by cases h⟩
    | @ok later out out' hsame =>
        refine ⟨⟨later, rfl, by simp [Except.isOk, Except.toBool]⟩, fun e => ?_, ?_⟩
        · constructor <;> intro h <;> cases h
        intro _ h
        cases h
        exact ⟨out', rfl, hsame⟩

/-- **Bookkeeping leaves the data alone.**  Let `before` be read to its end, let `after` be a
boundary, and let no stage of `after` look at the stack.  Then each of these can be put between the
two, whatever sequence the pipeline starts from:

* an import of a module that loads, under an alias that no source and no hole of `after` mentions;
* `--nostack`;
* `-p`.

What is built has the same runs, with the same items and events, or there is the same error.  Only
the import's own events are added to those of building, and `-p` turns printing off. -/
theorem bookkeeping_undisturbing (services : Services) {before after : List String}
    (hb : ReadsFully before) (ha : StartsStage after)
    (hstack : ∀ stage ∈ stagesOf after, stage.readsStack = false)
    (first : Option (Sequence Event)) :
    (∀ (reference bound : String) (loads : List Event) (exports : Value),
      services.load reference = ⟨loads, .ok exports⟩ →
      (∀ stage ∈ stagesOf after, stage.mentions bound = false) →
      Undisturbed (runFrom services (.startingFrom first) before) loads true
        (outcome services (.startingFrom first) (before ++ after))
        (outcome services (.startingFrom first)
          (before ++ ["-i", reference, bound] ++ after))) ∧
    Undisturbed (runFrom services (.startingFrom first) before) [] true
      (outcome services (.startingFrom first) (before ++ after))
      (outcome services (.startingFrom first) (before ++ ["--nostack"] ++ after)) ∧
    Undisturbed (runFrom services (.startingFrom first) before) [] false
      (outcome services (.startingFrom first) (before ++ after))
      (outcome services (.startingFrom first) (before ++ ["-p"] ++ after)) := by
  have hnone : ∀ stage ∈ stagesOf after, ∀ n ∈ ([] : List String), stage.mentions n = false :=
    fun _ _ _ hn => nomatch hn
  refine ⟨?_, ?_, ?_⟩
  · intro reference bound loads exports hload hbound
    have hp : parse (["-i", reference, bound] ++ after) = .ok (.importModule reference bound, 3) :=
      rfl
    have hhidden : ∀ stage ∈ stagesOf after, ∀ n ∈ [bound], stage.mentions n = false := by
      intro stage hmem n hn
      rw [List.mem_singleton.mp hn]
      exact hbound stage hmem
    exact undisturbed_of_alike hb (startsStage_token .importModule _) ha hp rfl
      (alike_import hload) hstack hhidden _
  · have hp : parse (["--nostack"] ++ after) = .ok (.disableStacking, 1) := rfl
    exact undisturbed_of_alike hb (startsStage_token .disableStacking _) ha hp rfl
      (fun s => ⟨_, alike_disableStacking s, rfl⟩) hstack hnone _
  · have hp : parse (["-p"] ++ after) = .ok (.suppressPrint, 1) := rfl
    exact undisturbed_of_alike hb (startsStage_token .suppressPrint _) ha hp rfl
      (fun s => ⟨_, alike_suppressPrint s, rfl⟩) hstack hnone _

/-- Services whose only module is `m.json`. -/
def onlyM : Services where
  command := Services.noCommands
  load := Services.modulesBy (Services.scriptedModule [("m.json", .whole 7)])

theorem readAll_named : readAll ["-m", "x", "-n", "kept"] =
    ([(.flatMap (.source "x"), 2), (.name "kept", 2)], none) := by
  decide +kernel

/-- Behind a quoted text, and before stages that look at the item and give it a name, a module can
be loaded as `m`, stacking turned off, or printing. -/
theorem bookkeeping_undisturbing_module :
    ReadsFully ["-j", "-q", "a"] ∧ StartsStage ["-m", "x", "-n", "kept"] ∧
      onlyM.load "m.json" = ⟨[.load "m.json"], .ok (.whole 7)⟩ ∧
      (∀ stage ∈ stagesOf ["-m", "x", "-n", "kept"],
        stage.readsStack = false ∧ stage.mentions "m" = false) ∧
      Undisturbed (runFrom onlyM (.startingFrom none) ["-j", "-q", "a"]) [.load "m.json"] true
        (outcome onlyM (.startingFrom none) ["-j", "-q", "a", "-m", "x", "-n", "kept"])
        (outcome onlyM (.startingFrom none)
          ["-j", "-q", "a", "-i", "m.json", "m", "-m", "x", "-n", "kept"]) ∧
      Undisturbed (runFrom onlyM (.startingFrom none) ["-j", "-q", "a"]) [] true
        (outcome onlyM (.startingFrom none) ["-j", "-q", "a", "-m", "x", "-n", "kept"])
        (outcome onlyM (.startingFrom none)
          ["-j", "-q", "a", "--nostack", "-m", "x", "-n", "kept"]) ∧
      Undisturbed (runFrom onlyM (.startingFrom none) ["-j", "-q", "a"]) [] false
        (outcome onlyM (.startingFrom none) ["-j", "-q", "a", "-m", "x", "-n", "kept"])
        (outcome onlyM (.startingFrom none)
          ["-j", "-q", "a", "-p", "-m", "x", "-n", "kept"]) := by
  have hb : ReadsFully ["-j", "-q", "a"] := by decide +kernel
  have ha : StartsStage ["-m", "x", "-n", "kept"] := startsStage_token .flatMap _
  have hload : onlyM.load "m.json" = ⟨[.load "m.json"], .ok (.whole 7)⟩ := rfl
  have hlex : Token.lex "x".toList = .ok [.name ['x']] := by
    have hchars : "x".toList = (Token.name ['x']).spelling := by decide +kernel
    rw [hchars]
    exact Token.lex_spelling ⟨'x', [], rfl, by decide, nofun⟩
  have hmentions : (Stage.flatMap (.source "x")).mentions "m" = false := by
    rw [Stage.mentions, Phrase.mentions, sourceMentions, hlex]
    decide +kernel
  have hstages : ∀ stage ∈ stagesOf ["-m", "x", "-n", "kept"],
      stage.readsStack = false ∧ stage.mentions "m" = false := by
    intro stage hmem
    rw [stagesOf, readAll_named] at hmem
    rcases List.mem_cons.mp hmem with rfl | hmem
    · exact ⟨rfl, hmentions⟩
    · rw [List.mem_singleton.mp hmem]
      exact ⟨rfl, rfl⟩
  obtain ⟨himport, hnostack, hsilent⟩ :=
    bookkeeping_undisturbing onlyM hb ha (fun stage hmem => (hstages stage hmem).1) none
  exact ⟨hb, ha, hload, hstages,
    himport _ _ _ _ hload fun stage hmem => (hstages stage hmem).2, hnostack, hsilent⟩

end Interpreter

end Pipeline
