import Mathlib.Data.List.Forall2
import Pipeline.Proofs.Extent
import Pipeline.Proofs.Renaming

/-!
# Loading — what building does, and where it stops

Building a pipeline runs none of it.  The only events of a stage are those of the module that it
loads (`Stage.events_apply`).  And nothing is evaluated: whatever the evaluators and the commands of
two hosts do, and whatever is in the sequences to start from, the hosts build alike if they load
alike (`Interpreter.outcome_of_builtAlike`).  Their plans are put together from the same parts, with
the same ready items in them, and differ in what their functions would answer
(`Plan.BuiltAlike`, `State.BuiltAlike`).

Tokens are interpreted up to a stage that cannot be read or applied, or up to their end
(`Stops`).  Everything before that was read and applied (`Leads`), so that the stage is the first
to fail.

**Building is lazy and stops at the first failure** (`Interpreter.building_lazy`).
-/

namespace Pipeline

namespace Stage

/-- The module that a stage loads. -/
def reference? : Stage → Option String
  | .importModule reference _ => some reference
  | _ => none

/-- The modules that stages load, in their order. -/
def references (stages : List Stage) : List String := stages.filterMap reference?

end Stage

/-- The events of loading modules one after the other. -/
def Services.loads (services : Services) (references : List String) : List Event :=
  references.flatMap fun reference => (services.load reference).events

theorem Services.loads_append (services : Services) (references more : List String) :
    services.loads (references ++ more) = services.loads references ++ services.loads more :=
  List.flatMap_append

namespace Stage

/-- **A stage does nothing but load its module.** -/
theorem events_apply (host : Host) (stage : Stage) (s : State) :
    (stage.apply host s).events = host.loads stage.reference?.toList := by
  cases stage with
  | importModule reference bound =>
      simp only [apply, applyImport, reference?, Services.loads, Option.toList_some,
        List.flatMap_cons, List.flatMap_nil, Traced.events_bind]
      congr 1
      split
      · rfl
      · split <;> rfl
  | _ => rfl

/-- Stages load their modules one after the other, as far as they can be applied. -/
theorem events_applyAll {host : Host} : ∀ {stages : List Stage} {s t : State} {events : List Event},
    applyAll host stages s = ⟨events, .ok t⟩ → events = host.loads (references stages)
  | [], _, _, _, h => by
      cases h
      rfl
  | stage :: stages, s, _, _, h => by
      obtain ⟨first, next, rest, hfirst, hrest, rfl⟩ := Traced.andThen_eq_ok h
      have hevents := events_apply host stage s
      rw [hfirst] at hevents
      rw [events_applyAll hrest, show first = _ from hevents, ← Services.loads_append]
      cases hr : stage.reference? with
      | none => simp [references, hr]
      | some reference => simp [references, hr]

end Stage

/-! ### Plans that were built alike -/

/-- The plans were built alike on plans that `start` relates.  They are put together from the same
parts, with the same ready items in them and the same events of opening; what the functions of their
parts answer may differ, and so may what a deferred part comes to. -/
inductive Plan.BuiltAlike (start : Plan Event → Plan Event → Prop) :
    Plan Event → Plan Event → Prop where
  | given {p q : Plan Event} (h : start p q) : BuiltAlike start p q
  | items (xs : List Item) : BuiltAlike start (.items xs) (.items xs)
  | deferred (opening : List Event) (result result' : Traced Event (List Item)) :
      BuiltAlike start (.deferred opening result) (.deferred opening result')
  | map (f f' : Item → Nat → Traced Event Item) {p q : Plan Event} (h : BuiltAlike start p q) :
      BuiltAlike start (.map f p) (.map f' q)
  | filter (keep keep' : Item → Nat → Traced Event Bool) {p q : Plan Event}
      (h : BuiltAlike start p q) : BuiltAlike start (.filter keep p) (.filter keep' q)
  | flatMap (f f' : Item → Nat → Traced Event (List Item)) {p q : Plan Event}
      (h : BuiltAlike start p q) : BuiltAlike start (.flatMap f p) (.flatMap f' q)
  | takeUntil (stop stop' : Item → Nat → Traced Event Bool) {p q : Plan Event}
      (h : BuiltAlike start p q) : BuiltAlike start (.takeUntil stop p) (.takeUntil stop' q)
  | fold (seed seed' : Traced Event Item) (f f' : Item → Item → Nat → Traced Event Item)
      {p q : Plan Event} (h : BuiltAlike start p q) :
      BuiltAlike start (.fold seed f p) (.fold seed' f' q)
  | collect (f : List Item → Item) {p q : Plan Event} (h : BuiltAlike start p q) :
      BuiltAlike start (.collect f p) (.collect f q)
  | zip (combine : List (Option Item) → Traced Event Item) {ps qs : List (Plan Event)}
      (h : List.Forall₂ (BuiltAlike start) ps qs) :
      BuiltAlike start (.zip combine ps) (.zip combine qs)
  | memoized (cell : Nat) {p q : Plan Event} (h : BuiltAlike start p q) :
      BuiltAlike start (.memoized cell p) (.memoized cell q)

/-- Two plans that were built alike, under one handle. -/
structure Sequence.BuiltAlike (start : Plan Event → Plan Event → Prop) (a b : Sequence Event) :
    Prop where
  handle : b.handle = a.handle
  plan : a.plan.BuiltAlike start b.plan

/-- Two sequences that were built alike, under one name. -/
structure Named.BuiltAlike (start : Plan Event → Plan Event → Prop) (a b : Named) : Prop where
  name : b.name = a.name
  sequence : a.sequence.BuiltAlike start b.sequence

section Pairs

variable {α β : Type} {R : α → β → Prop} {xs : List α} {ys : List β}

/-- Related options are both empty, or hold related members. -/
theorem none_or_some_of_rel {x : Option α} {y : Option β} (h : Option.Rel R x y) :
    (x = none ∧ y = none) ∨ ∃ a b, x = some a ∧ y = some b ∧ R a b := by
  cases h with
  | none => exact .inl ⟨rfl, rfl⟩
  | some hab => exact .inr ⟨_, _, rfl, rfl, hab⟩

theorem rel_find? (h : List.Forall₂ R xs ys) {p : α → Bool} {q : β → Bool}
    (hpq : ∀ {a b}, R a b → p a = q b) : Option.Rel R (xs.find? p) (ys.find? q) := by
  induction h with
  | nil => exact .none
  | @cons a b xs ys hab _ ih =>
      rw [List.find?_cons, List.find?_cons, hpq hab]
      cases q b with
      | true => exact .some hab
      | false => exact ih

theorem rel_getElem? (h : List.Forall₂ R xs ys) (n : Nat) : Option.Rel R xs[n]? ys[n]? := by
  induction h generalizing n with
  | nil => exact .none
  | cons hab _ ih =>
      cases n with
      | zero => exact .some hab
      | succ n => exact ih n

theorem rel_getLast? (h : List.Forall₂ R xs ys) : Option.Rel R xs.getLast? ys.getLast? := by
  rw [List.getLast?_eq_getElem?, List.getLast?_eq_getElem?, h.length_eq]
  exact rel_getElem? h _

theorem forall₂_dropLast (h : List.Forall₂ R xs ys) : List.Forall₂ R xs.dropLast ys.dropLast := by
  rw [List.dropLast_eq_take, List.dropLast_eq_take, h.length_eq]
  exact List.forall₂_take _ h

end Pairs

namespace State

/-- The states differ in their plans at most, and these were built alike. -/
structure BuiltAlike (start : Plan Event → Plan Event → Prop) (s t : State) : Prop where
  current : Option.Rel (Sequence.BuiltAlike start) s.current t.current
  registry : List.Forall₂ (Named.BuiltAlike start) s.registry t.registry
  stack : List.Forall₂ (Sequence.BuiltAlike start) s.stack t.stack
  stacking : t.stacking = s.stacking
  mustPrint : t.mustPrint = s.mustPrint
  env : t.env = s.env
  nextHandle : t.nextHandle = s.nextHandle

namespace BuiltAlike

variable {start : Plan Event → Plan Event → Prop} {s t : State}

theorem input (h : BuiltAlike start s t) : s.input.BuiltAlike start t.input := by
  unfold State.input
  obtain ⟨hs, ht⟩ | ⟨a, b, hs, ht, hab⟩ := none_or_some_of_rel h.current
  · rw [hs, ht]
    exact .items []
  · rw [hs, ht]
    exact hab.plan

theorem advance (h : BuiltAlike start s t) {a b : Sequence Event} (hab : a.BuiltAlike start b) :
    BuiltAlike start (s.advance a) (t.advance b) := by
  refine ⟨.some hab, h.registry, ?_, h.stacking, h.mustPrint, h.env, h.nextHandle⟩
  unfold State.advance
  rw [h.stacking]
  by_cases hon : s.stacking = true
  · simp only [hon, if_true]
    exact List.rel_append h.stack (.cons hab .nil)
  · simp only [hon]
    exact h.stack

theorem advancePlan (h : BuiltAlike start s t) {p q : Plan Event} (hpq : p.BuiltAlike start q) :
    BuiltAlike start (s.advancePlan p) (t.advancePlan q) :=
  advance (s := { s with nextHandle := s.nextHandle + 1 })
    (t := { t with nextHandle := t.nextHandle + 1 })
    ⟨h.current, h.registry, h.stack, h.stacking, h.mustPrint, h.env,
      congrArg (· + 1) h.nextHandle⟩
    ⟨h.nextHandle, hpq⟩

theorem find? (h : BuiltAlike start s t) (label : String) :
    Option.Rel (Named.BuiltAlike start) (s.find? label) (t.find? label) :=
  rel_find? h.registry fun hab => by rw [hab.name]

theorem currentNamed? (h : BuiltAlike start s t) :
    Option.Rel (Named.BuiltAlike start) s.currentNamed? t.currentNamed? := by
  unfold State.currentNamed?
  obtain ⟨hs, ht⟩ | ⟨a, b, hs, ht, hab⟩ := none_or_some_of_rel h.current
  · rw [hs, ht]
    exact .none
  · rw [hs, ht]
    refine rel_find? h.registry fun hnamed => ?_
    rw [Sequence.same, Sequence.same, hnamed.sequence.handle, hab.handle]

theorem register (h : BuiltAlike start s t) (label : String) {a b : Sequence Event}
    (hab : a.BuiltAlike start b) :
    List.Forall₂ (Named.BuiltAlike start) (s.registry ++ [⟨label, a⟩])
      (t.registry ++ [⟨label, b⟩]) :=
  List.rel_append h.registry (.cons ⟨rfl, hab⟩ .nil)

theorem name (h : BuiltAlike start s t) (label : String) :
    (pure (s.name label) : Traced Event _).Agree (BuiltAlike start) (pure (t.name label)) := by
  unfold State.name
  obtain ⟨hs, ht⟩ | ⟨_, _, hs, ht, -⟩ := none_or_some_of_rel (h.find? label)
  · obtain ⟨hs', ht'⟩ | ⟨a, b, hs', ht', hab⟩ := none_or_some_of_rel h.currentNamed?
    · rw [hs, ht, hs', ht']
      obtain ⟨hc, hd⟩ | ⟨a, b, hc, hd, hab⟩ := none_or_some_of_rel h.current
      · have hempty : Sequence.BuiltAlike start ⟨s.nextHandle, .empty⟩ ⟨t.nextHandle, .empty⟩ :=
          ⟨h.nextHandle, .items []⟩
        rw [hc, hd]
        exact .ok _ ⟨.none, h.register label hempty, h.stack, h.stacking, h.mustPrint, h.env,
          congrArg (· + 1) h.nextHandle⟩
      · rw [hc, hd]
        exact .ok _ ⟨.some hab, h.register label hab, h.stack, h.stacking, h.mustPrint, h.env,
          h.nextHandle⟩
    · rw [hs, ht, hs', ht']
      dsimp only
      rw [hab.name]
      exact .error _ _
  · rw [hs, ht]
    exact .error _ _

theorem lookup (h : BuiltAlike start s t) (label : String) :
    (∃ e, s.lookup label = .error e ∧ t.lookup label = .error e) ∨
      ∃ a b, s.lookup label = .ok a ∧ t.lookup label = .ok b ∧ a.BuiltAlike start b := by
  unfold State.lookup
  obtain ⟨hs, ht⟩ | ⟨a, b, hs, ht, hab⟩ := none_or_some_of_rel (h.find? label)
  · rw [hs, ht]
    exact .inl ⟨_, rfl, rfl⟩
  · rw [hs, ht]
    exact .inr ⟨_, _, rfl, rfl, hab.sequence⟩

theorem members (h : BuiltAlike start s t) (names : List String) :
    (∃ e, Stage.members s names = .error e ∧ Stage.members t names = .error e) ∨
      ∃ as bs, Stage.members s names = .ok as ∧ Stage.members t names = .ok bs ∧
        List.Forall₂ (Sequence.BuiltAlike start) as bs := by
  unfold Stage.members
  induction names with
  | nil => exact .inr ⟨[], [], rfl, rfl, .nil⟩
  | cons label names ih =>
      rw [List.mapM_cons, List.mapM_cons]
      obtain ⟨e, hs, ht⟩ | ⟨a, b, hs, ht, hab⟩ := h.lookup label
      · exact .inl ⟨e, by rw [hs]; rfl, by rw [ht]; rfl⟩
      · rw [hs, ht]
        obtain ⟨e, hs, ht⟩ | ⟨as, bs, hs, ht, hall⟩ := ih
        · exact .inl ⟨e, by rw [hs]; rfl, by rw [ht]; rfl⟩
        · exact .inr ⟨a :: as, b :: bs, by rw [hs]; rfl, by rw [ht]; rfl, .cons hab hall⟩

theorem stackRef (h : BuiltAlike start s t) (index : Nat) :
    (pure (s.stackRef index) : Traced Event _).Agree (BuiltAlike start)
      (pure (t.stackRef index)) := by
  have hentry : Option.Rel (Sequence.BuiltAlike start) ( s.entry? index) ( t.entry? index) :=
    rel_getElem? (List.rel_reverse h.stack) index
  unfold State.stackRef
  rw [h.stack.length_eq]
  obtain ⟨hs, ht⟩ | ⟨a, b, hs, ht, hab⟩ := none_or_some_of_rel hentry
  · rw [hs, ht]
    exact .error _ _
  · rw [hs, ht]
    exact .ok _ (h.advancePlan hab.plan)

theorem drop (h : BuiltAlike start s t) :
    (pure s.drop : Traced Event _).Agree (BuiltAlike start) (pure t.drop) := by
  have hkept := forall₂_dropLast h.stack
  unfold State.drop
  rw [h.stack.length_eq]
  by_cases hshort : t.stack.length < 2
  · rw [if_pos hshort, if_pos hshort]
    exact .error _ _
  · rw [if_neg hshort, if_neg hshort]
    exact .ok _ ⟨rel_getLast? hkept, h.registry, hkept, h.stacking, h.mustPrint, h.env,
      h.nextHandle⟩

theorem applyImport (h : BuiltAlike start s t) {services other : Services}
    (hload : other.load = services.load) (reference bound : String) :
    (Stage.applyImport services reference bound s).Agree (BuiltAlike start)
      (Stage.applyImport other reference bound t) := by
  unfold Stage.applyImport
  rw [hload]
  obtain ⟨events, cause | exports⟩ := services.load reference
  · exact .error _ _
  · simp only [Bind.bind]
    have hbound : BuiltAlike start (s.withEnvironment (s.env.bind bound exports))
        (t.withEnvironment (t.env.bind bound exports)) :=
      ⟨h.current, h.registry, h.stack, h.stacking, h.mustPrint,
        congrArg (·.bind bound exports) h.env, h.nextHandle⟩
    obtain ⟨hs, ht⟩ | ⟨a, b, hs, ht, hab⟩ := none_or_some_of_rel hbound.current
    · rw [hs, ht]
      exact .ok _ hbound
    · rw [hs, ht]
      exact .ok _ (hbound.advance hab)

theorem evaluatePlan (h : BuiltAlike start s t) (p p' : Prepared) (env env' : Environment) :
    (Stage.evaluatePlan (s.current.map (·.plan)) p env).BuiltAlike start
      (Stage.evaluatePlan (t.current.map (·.plan)) p' env') := by
  obtain ⟨hs, ht⟩ | ⟨a, b, hs, ht, hab⟩ := none_or_some_of_rel h.current
  · rw [hs, ht]
    exact .deferred _ _ _
  · rw [hs, ht]
    exact .map _ _ hab.plan

theorem shellPlan (h : BuiltAlike start s t) (services other : Services) (c c' : PreparedCommand)
    (env env' : Environment) :
    (Stage.shellPlan services (s.current.map (·.plan)) c env).BuiltAlike start
      (Stage.shellPlan other (t.current.map (·.plan)) c' env') := by
  obtain ⟨hs, ht⟩ | ⟨a, b, hs, ht, hab⟩ := none_or_some_of_rel h.current
  · rw [hs, ht]
    exact .deferred _ _ _
  · rw [hs, ht]
    exact .map _ _ hab.plan

/-- **One stage builds alike** on what was built alike, if it loads the same. -/
theorem apply (h : BuiltAlike start s t) {host other : Host} (hload : other.load = host.load)
    (stage : Stage) :
    (stage.apply host s).Agree (BuiltAlike start) (stage.apply other t) := by
  cases stage with
  | name label => exact h.name label
  | seek label =>
      simp only [Stage.apply, State.seek]
      obtain ⟨e, hs, ht⟩ | ⟨a, b, hs, ht, hab⟩ := h.lookup label
      · rw [hs, ht]
        exact .error _ e
      · rw [hs, ht]
        exact .ok _ (h.advancePlan hab.plan)
  | combine names =>
      simp only [Stage.apply, Stage.applyCombine]
      obtain ⟨e, hs, ht⟩ | ⟨as, bs, hs, ht, hall⟩ := h.members names
      · rw [hs, ht]
        exact .error _ e
      · rw [hs, ht]
        exact .ok _ (h.advancePlan (.zip _ (List.rel_map (fun _ _ hab => hab.plan) hall)))
  | stackRef index => exact h.stackRef index
  | drop => exact h.drop
  | disableStacking =>
      exact .ok _ ⟨h.current, h.registry, h.stack, rfl, h.mustPrint, h.env, h.nextHandle⟩
  | suppressPrint =>
      exact .ok _ ⟨h.current, h.registry, h.stack, h.stacking, rfl, h.env, h.nextHandle⟩
  | importModule reference bound => exact h.applyImport hload reference bound
  | evaluate phrase => exact .ok _ (h.advancePlan (h.evaluatePlan _ _ _ _))
  | shell phrase => exact .ok _ (h.advancePlan (h.shellPlan _ _ _ _ _ _))
  | errorHandler phrase => exact .ok _ (h.advancePlan (.map _ _ h.input))
  | filter phrase => exact .ok _ (h.advancePlan (.filter _ _ h.input))
  | flatMap phrase => exact .ok _ (h.advancePlan (.flatMap _ _ h.input))
  | reduce phrase seed => exact .ok _ (h.advancePlan (.fold _ _ _ _ h.input))
  | terminate phrase => exact .ok _ (h.advancePlan (.takeUntil _ _ h.input))
  | wholeArray => exact .ok _ (h.advancePlan (.collect _ h.input))
  | log phrase | write phrase => exact .ok _ (h.advancePlan (.map _ _ h.input))

end BuiltAlike

/-- Whatever plan a pipeline starts from, nothing has been built on it yet. -/
theorem builtAlike_startingFrom (first : Option (Sequence Event)) (plan : Plan Event) :
    BuiltAlike (fun p q => first.map (·.plan) = some p ∧ q = plan) (.startingFrom first)
      (.startingFrom (first.map fun q => ⟨q.handle, plan⟩)) := by
  cases first with
  | none => exact ⟨.none, .nil, .nil, rfl, rfl, rfl, rfl⟩
  | some q => exact ⟨.some ⟨rfl, .given ⟨rfl, rfl⟩⟩, .nil, .nil, rfl, rfl, rfl, rfl⟩

end State

namespace Interpreter
open Stage State

/-- **Building looks at no plan and evaluates nothing.**  Hosts that load alike build alike on what
was built alike. -/
theorem outcome_of_builtAlike {start : Plan Event → Plan Event → Prop} {s t : State}
    (h : BuiltAlike start s t) {host other : Host} (hload : other.load = host.load)
    (tokens : List String) :
    (outcome host s tokens).Agree
      (fun out out' => out'.mustPrint = out.mustPrint ∧ out.plan.BuiltAlike start out'.plan)
      (outcome other t tokens) :=
  outcome_agree (fun stage _ {_ _} halike => halike.apply hload stage)
    (fun halike => ⟨halike.mustPrint, halike.input⟩) h

end Interpreter

/-! ### Stages that can be refused -/

namespace Stage

/-- The stage asks for something that the state may lack, or for a module. -/
def refusable : Stage → Bool
  | .name _ | .seek _ | .stackRef _ | .drop | .combine _ | .importModule _ _ => true
  | _ => false

theorem refusable_of_error {host : Host} {stage : Stage} {s : State} {e : BuildError}
    (h : (stage.apply host s).value = .error e) : stage.refusable = true := by
  cases stage with
  | name | seek | stackRef | drop | combine | importModule => rfl
  | _ => cases h

/-- Tokens that are not read as an evaluation begin with a marker. -/
theorem startsStage_of_parse {tokens : List String}
    (h : ∀ phrase n, parse tokens ≠ .ok (.evaluate phrase, n)) : StartsStage tokens := by
  cases tokens with
  | nil => trivial
  | cons first args =>
      cases hf : Marker.ofToken? first with
      | none => exact absurd (parse_of_text hf args) (h _ _)
      | some marker =>
          obtain rfl := Marker.eq_token_of_ofToken? hf
          exact startsStage_token marker args

/-- Stages that can be refused have fixed arguments, so any tokens may stand behind them. -/
theorem sameFront_of_refusable {tokens : List String} {stage : Stage} {n : Nat}
    (hp : parse tokens = .ok (stage, n)) (hr : stage.refusable = true) (more : List String) :
    SameFront tokens (tokens.take n ++ more) := by
  have hlen := consumed_parse_le hp
  have hextent := extent_of_parse hp
  refine ⟨?_, by rw [hextent, List.take_append_of_le_length (by simp [hlen]), List.take_take,
    Nat.min_self]⟩
  cases tokens with
  | nil => cases hp
  | cons first args =>
      obtain ⟨k, rfl⟩ := Nat.exists_eq_succ_of_ne_zero (Nat.ne_of_gt (consumed_parse_pos hp))
      rw [List.take_succ_cons, List.cons_append]
      cases hf : Marker.ofToken? first with
      | none =>
          rw [parse_of_text hf] at hp
          obtain ⟨rfl, -⟩ := Prod.mk.inj (Except.ok.inj hp)
          cases hr
      | some marker =>
          rw [parse_of_marker hf] at hp
          rw [extent_of_marker hf, extent_of_marker hf]
          cases marker
          case drop | combine | name | seek | stackRef | importModule => rfl
          case wholeArray | disableStacking | suppressPrint => rfl
          case reduce =>
            simp only [parseMarked, parseReduce] at hp
            split at hp
            · split at hp <;> cases hp
              cases hr
            · cases hp
          all_goals
            cases hp
            cases hr

end Stage

/-! ### Where building stops -/

namespace Interpreter
open Stage State

/-- The stages of `front` are all read and applied, and lead from `start` to `s`. -/
structure Leads (host : Host) (start : State) (front : List String) (s : State) : Prop where
  read : ReadsFully front
  applied : applyAll host (stagesOf front) start =
    ⟨host.loads (references (stagesOf front)), .ok s⟩

/-- How building ends in a state, before the tokens that are left: with the modules that are still
loaded, and with its result. -/
inductive Stops (host : Host) (s : State) :
    List String → List String → Except BuildError State → Prop where
  | built : Stops host s [] [] (.ok s)
  | unread {rest : List String} {e : BuildError} (hne : rest ≠ []) (h : parse rest = .error e) :
      Stops host s rest [] (.error e)
  | refused {rest : List String} {stage : Stage} {n : Nat} {e : BuildError}
      (hp : parse rest = .ok (stage, n)) (h : (stage.apply host s).value = .error e) :
      Stops host s rest stage.reference?.toList (.error e)

theorem Leads.nil (host : Host) (start : State) : Leads host start [] start :=
  ⟨rfl, rfl⟩

/-- One more stage in front. -/
theorem Leads.cons {host : Host} {start t s : State} {stage : Stage} {n : Nat}
    {events : List Event} {tokens front : List String}
    (hp : parse (tokens ++ front) = .ok (stage, n)) (hlen : tokens.length = n)
    (happly : stage.apply host start = ⟨events, .ok t⟩) (h : Leads host t front s) :
    Leads host start (tokens ++ front) s := by
  have hread := readAll_of_ok hp
  rw [← hlen, List.drop_left] at hread
  have hstages : stagesOf (tokens ++ front) = stage :: stagesOf front := by
    rw [stagesOf, hread]
    rfl
  have happlied : applyAll host (stagesOf (tokens ++ front)) start =
      ⟨events ++ host.loads (references (stagesOf front)), .ok s⟩ := by
    rw [hstages, applyAll, happly, Traced.andThen_ok, h.applied]
  refine ⟨?_, ?_⟩
  · rw [ReadsFully, hread]
    exact h.read
  · rw [happlied, events_applyAll happlied]

/-- **Tokens are interpreted up to where building stops.** -/
theorem exists_stops (host : Host) (tokens : List String) (start : State) :
    ∃ front rest s loads result,
      tokens = front ++ rest ∧ Leads host start front s ∧ Stops host s rest loads result := by
  -- the tokens behind the stage at the front are fewer, and the state is the one behind it
  induction hlen : tokens.length using Nat.strongRecOn generalizing tokens start with
  | ind len ih =>
      subst hlen
      by_cases hne : tokens = []
      · subst hne
        exact ⟨[], [], start, [], .ok start, rfl, .nil host start, .built⟩
      · cases hp : parse tokens with
        | error e => exact ⟨[], tokens, start, [], .error e, rfl, .nil host start, .unread hne hp⟩
        | ok r =>
            obtain ⟨stage, n⟩ := r
            cases happly : stage.apply host start with
            | mk events value =>
                cases value with
                | error e =>
                    exact ⟨[], tokens, start, _, .error e, rfl, .nil host start,
                      .refused hp (by rw [happly])⟩
                | ok t =>
                    have hn := consumed_parse_le hp
                    have hlt : (tokens.drop n).length < tokens.length := by
                      have := consumed_parse_pos hp
                      rw [List.length_drop]
                      omega
                    obtain ⟨front, rest, s, loads, result, hdrop, hleads, hstops⟩ :=
                      ih _ hlt (tokens.drop n) t rfl
                    have htokens : tokens = (tokens.take n ++ front) ++ rest := by
                      rw [List.append_assoc, ← hdrop, List.take_append_drop]
                    have htake : (tokens.take n).length = n := by
                      rw [List.length_take, Nat.min_eq_left hn]
                    have hfront : parse (tokens.take n ++ front) = .ok (stage, n) := by
                      rw [htokens] at hp
                      refine parse_of_append hp ?_
                      rw [List.length_append, htake]
                      exact Nat.le_add_right _ _
                    exact ⟨tokens.take n ++ front, rest, s, loads, result, htokens,
                      hleads.cons hfront htake happly, hstops⟩

theorem Stops.startsStage {host : Host} {s : State} {rest loads : List String}
    {result : Except BuildError State} (h : Stops host s rest loads result) : StartsStage rest := by
  cases h with
  | built => trivial
  | unread hne h =>
      refine startsStage_of_parse fun phrase n hp => ?_
      rw [h] at hp
      cases hp
  | refused hp h =>
      refine startsStage_of_parse fun phrase n hp' => ?_
      rw [hp] at hp'
      cases hp'
      cases refusable_of_error h

theorem Stops.runFrom_eq {host : Host} {s : State} {rest loads : List String}
    {result : Except BuildError State} (h : Stops host s rest loads result) :
    runFrom host s rest = ⟨host.loads loads, result⟩ := by
  cases h with
  | built => exact runFrom_nil host s
  | unread hne h => exact runFrom_of_error hne h
  | @refused _ stage _ e hp h =>
      have happly : stage.apply host s = ⟨host.loads stage.reference?.toList, .error e⟩ :=
        Traced.ext (events_apply host stage s) h
      rw [runFrom_of_ok hp, happly, Traced.andThen_error]

/-- **What comes of tokens** is settled by the stages before the stop, and by the stop. -/
theorem outcome_of_stops {host : Host} {start s : State} {front rest loads : List String}
    {result : Except BuildError State} (hleads : Leads host start front s)
    (hstops : Stops host s rest loads result) :
    outcome host start (front ++ rest) =
      ⟨host.loads (references (stagesOf front) ++ loads), result.map finish⟩ := by
  rw [outcome, runFrom_append hleads.read hstops.startsStage, runFrom_of_readsFully hleads.read,
    hleads.applied, Traced.andThen_ok, hstops.runFrom_eq, Services.loads_append]
  cases result with
  | error e => rw [Traced.andThen_error]; rfl
  | ok t => rw [Traced.andThen_ok]; exact congrArg (Traced.mk · _) (List.append_nil _)

/-- A stop is one for all tokens with the same stage at their front. -/
theorem Stops.of_sameFront {host : Host} {s : State} {rest other loads : List String}
    {result : Except BuildError State} (h : Stops host s rest loads result)
    (hsame : SameFront rest other) : Stops host s other loads result := by
  have hparse := parse_congr hsame
  cases h with
  | built =>
      cases other with
      | nil => exact .built
      | cons first args => exact absurd hsame.1 (Nat.ne_of_gt (extent_pos first args))
  | unread hne h =>
      refine .unread ?_ (hparse.trans h)
      rintro rfl
      cases rest with
      | nil => exact hne rfl
      | cons first args => exact absurd hsame.1.symm (Nat.ne_of_gt (extent_pos first args))
  | refused hp h => exact .refused (hparse.trans hp) h

/-- **Building is lazy and stops at the first failure**, whatever sequence it starts from.

The tokens fall into a part whose stages are all read and applied, and the rest, where building
stops: at the end, at a stage that cannot be read, or at one that cannot be applied.  The events are
those of the modules that the stages of the first part load, in their order, and the module of the
stage that could not be applied.  The result is the pipeline, or the error of the stage where
building stopped.  That stage settles the rest: other tokens behind it come to the same, and where
it was read, these may be any tokens.

No expression is evaluated, no command filled or run, and no plan pulled.  With any other evaluator
and other commands, and from any other plan, there are the same events and the same error; or the
pipelines were built alike on the two plans, so that not one ready item in them is an answer. -/
theorem building_lazy (host : Host) (first : Option (Sequence Event)) (tokens : List String) :
    (∃ front rest s loads result,
      tokens = front ++ rest ∧ stagesOf tokens = stagesOf front ++ stagesOf rest ∧
      Leads host (.startingFrom first) front s ∧ Stops host s rest loads result ∧
      outcome host (.startingFrom first) tokens =
        ⟨host.loads (references (stagesOf front) ++ loads), result.map finish⟩ ∧
      ((∀ reference, (host.load reference).events = [.load reference]) →
        (outcome host (.startingFrom first) tokens).events =
          (references (stagesOf front) ++ loads).map .load) ∧
      (∀ other, SameFront rest other →
        outcome host (.startingFrom first) (front ++ other) =
          outcome host (.startingFrom first) tokens) ∧
      (∀ stage n, parse rest = .ok (stage, n) → ∀ more,
        outcome host (.startingFrom first) (front ++ (rest.take n ++ more)) =
          outcome host (.startingFrom first) tokens)) ∧
    ∀ (command : String → Traced Event (Except String (List String))) (evaluator : Evaluator)
      (plan : Plan Event),
      (outcome host (.startingFrom first) tokens).Agree
        (fun out out' => out'.mustPrint = out.mustPrint ∧
          out.plan.BuiltAlike (fun p q => first.map (·.plan) = some p ∧ q = plan) out'.plan)
        (outcome { command, load := host.load, evaluator }
          (.startingFrom (first.map fun q => ⟨q.handle, plan⟩)) tokens) := by
  refine ⟨?_, fun command evaluator plan => ?_⟩
  case refine_2 =>
    have hload : ({ command, load := host.load, evaluator } : Host).load = host.load := rfl
    exact outcome_of_builtAlike (builtAlike_startingFrom first plan) hload tokens
  obtain ⟨front, rest, s, loads, result, htokens, hleads, hstops⟩ :=
    exists_stops host tokens (.startingFrom first)
  have houtcome := outcome_of_stops hleads hstops
  rw [← htokens] at houtcome
  have hother : ∀ other, SameFront rest other →
      outcome host (.startingFrom first) (front ++ other) =
        outcome host (.startingFrom first) tokens := by
    intro other hsame
    rw [outcome_of_stops hleads (hstops.of_sameFront hsame), houtcome]
  refine ⟨front, rest, s, loads, result, htokens, ?_, hleads, hstops, houtcome, ?_, hother, ?_⟩
  · simp only [htokens, stagesOf, readAll_append hstops.startsStage front hleads.read,
      List.map_append]
  · intro hnotes
    simp only [houtcome, Services.loads, hnotes]
    exact List.map_eq_flatMap.symm
  · intro stage n hp more
    cases hstops with
    | built => cases hp
    | unread _ h =>
        rw [h] at hp
        cases hp
    | refused hp' h =>
        rw [hp'] at hp
        cases hp
        exact hother _ (sameFront_of_refusable hp' (refusable_of_error h) more)

/-- A host whose only module is `a.json`. -/
def onlyA : Host where
  command := Services.noCommands
  load := Services.modulesBy (Services.scriptedModule [("a.json", .null)])
  evaluator := .standard

/-- An evaluator that refuses everything. -/
def refusing : Evaluator where
  compile _ := .error "refused"
  evaluate _ _ _ := .error "refused"

/-- The second import fails, so that its module and the one before are loaded, and the third is
not; a refusing evaluator and another sequence to start from change nothing about it.  And a
pipeline that can be built is the same for every evaluator: an evaluation that waits for its first
pull, and what becomes of its items. -/
theorem building_lazy_secondImport :
    (∀ reference, (onlyA.load reference).events = [.load reference]) ∧
      (∃ front rest s loads result,
        ["-i", "a.json", "a", "-j", "1", "-i", "b.json", "b", "-i", "a.json", "c"] = front ++ rest ∧
        Leads onlyA (.startingFrom (some ⟨0, .empty⟩)) front s ∧
        Stops onlyA s rest loads result ∧
        [.load "a.json", .load "b.json"] =
          (references (stagesOf front) ++ loads).map Event.load) ∧
      (∀ plan : Plan Event,
        outcome { command := Services.noCommands, load := onlyA.load, evaluator := refusing }
            (.startingFrom (some ⟨0, plan⟩))
            ["-i", "a.json", "a", "-j", "1", "-i", "b.json", "b", "-i", "a.json", "c"] =
          ⟨[.load "a.json", .load "b.json"],
            .error (.importFailed "b.json" "cannot find module 'b.json'")⟩) ∧
      ∀ evaluator : Evaluator, ∃ f result,
        outcome { command := Services.noCommands, load := onlyA.load, evaluator }
            (.startingFrom none) ["-i", "a.json", "a", "-j", "1", "-m", "x"] =
          ⟨[.load "a.json"], .ok ⟨true, .flatMap f (.deferred [] result)⟩⟩ := by
  have hread : readAll
      ["-i", "a.json", "a", "-j", "1", "-i", "b.json", "b", "-i", "a.json", "c"] =
        ([(.importModule "a.json" "a", 3), (.evaluate (.source "1"), 2),
          (.importModule "b.json" "b", 3), (.importModule "a.json" "c", 3)], none) := by
    decide +kernel
  have houtcome : outcome onlyA (.startingFrom (some ⟨0, .empty⟩))
      ["-i", "a.json", "a", "-j", "1", "-i", "b.json", "b", "-i", "a.json", "c"] =
        ⟨[.load "a.json", .load "b.json"],
          .error (.importFailed "b.json" "cannot find module 'b.json'")⟩ := by
    rw [outcome, runFrom_of_readsFully (congrArg Prod.snd hread), stagesOf, hread]
    rfl
  have hnotes : ∀ reference, (onlyA.load reference).events = [.load reference] :=
    fun _ => rfl
  obtain ⟨⟨front, rest, s, loads, result, htokens, -, hleads, hstops, -, hevents, -, -⟩, hagree⟩ :=
    building_lazy onlyA (some ⟨0, .empty⟩)
      ["-i", "a.json", "a", "-j", "1", "-i", "b.json", "b", "-i", "a.json", "c"]
  refine ⟨hnotes, ⟨front, rest, s, loads, result, htokens, hleads, hstops, ?_⟩, fun plan => ?_,
    fun evaluator => ?_⟩
  · rw [← hevents hnotes, houtcome]
  · have hsame := hagree Services.noCommands refusing plan
    rw [houtcome] at hsame
    dsimp only [Option.map_some] at hsame
    generalize outcome _ _ _ = x at hsame ⊢
    cases hsame
    rfl
  · have hread : readAll ["-i", "a.json", "a", "-j", "1", "-m", "x"] =
        ([(.importModule "a.json" "a", 3), (.evaluate (.source "1"), 2),
          (.flatMap (.source "x"), 2)], none) := by
      decide +kernel
    have hbuilt : outcome onlyA (.startingFrom none) ["-i", "a.json", "a", "-j", "1", "-m", "x"] =
        ⟨[.load "a.json"], .ok ⟨true, flatMapPlan
          (evaluatePlan none (onlyA.prepare (.source "1")) ⟨[("a", .null)]⟩)
          (onlyA.prepare (.source "x")) ⟨[("a", .null)]⟩⟩⟩ := by
      rw [outcome, runFrom_of_readsFully (congrArg Prod.snd hread), stagesOf, hread]
      rfl
    obtain ⟨-, hagree⟩ :=
      building_lazy onlyA none ["-i", "a.json", "a", "-j", "1", "-m", "x"]
    have hsame := hagree Services.noCommands evaluator .empty
    rw [hbuilt] at hsame
    dsimp only [Option.map_none] at hsame
    generalize outcome _ _ _ = x at hsame ⊢
    cases hsame with
    | @ok _ _ out hout =>
        obtain ⟨mustPrint, plan⟩ := out
        obtain ⟨rfl, halike⟩ := hout
        -- there is no plan to start from, so the two were built of the same parts throughout
        cases halike with
        | given h => cases h.1
        | flatMap _ g hinput =>
            cases hinput with
            | given h => cases h.1
            | deferred _ _ result' => exact ⟨g, result', rfl⟩

end Interpreter

end Pipeline
