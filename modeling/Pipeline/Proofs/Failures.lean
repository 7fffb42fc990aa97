import Pipeline.Proofs.Handles
import Pipeline.Proofs.Keeping
import Pipeline.Proofs.Lists

/-!
# Failures — where they come from

A failure travels through a pipeline as data: an expression may return it, a fold may keep it in
its accumulator, a handler may put it back, and a list of items with failures in it becomes a
failure of its own.  None of this invents one.  Every failure is traceable to the texts of the
stages (`Failure.Traceable`): it is either a base failure, one of four messages around such a text,
or it was gathered from failures that are traceable themselves.

* `Expr.eval_keeps`: an expression returns a value or an item that was bound for it.
* `Stage.Closed.keeps_input`: what is closed under the functions of a stage, its new plan keeps;
  traceability is (`Stage.closed_traceable`).
* `State.Move.keeps`, `Assembly.keeps`: so do the plans of all sequences of a state, after one stage
  and after any number of them.
* `Interpreter.failures_traceable`: all failures that a pipeline yields, or hands to a sink, are
  traceable to the texts of its tokens.

Commands and modules may answer as they like, and differently each time: every stage may be applied
by services of its own (`Assembly`), and every call in a run may be answered by others
(`Plan.Mixture`).
-/

namespace Pipeline

/-! ### Traceable failures -/

/-- The messages around the text of a phrase: of an expression that fails or is none, of a command
that cannot be put together, and of one that fails. -/
def faultMessages (text : String) : List String :=
  ["failed to evaluate expression: " ++ text ++ ".",
    "failed to compile expression: " ++ text ++ ".",
    "failed to evaluate command template: " ++ text ++ ".",
    "failed to execute shell command: " ++ text]

/-- The failure is a message around one of the texts, or was gathered from traceable failures. -/
inductive Failure.Traceable (texts : List String) : Failure → Prop where
  | base {text message cause : String} (ht : text ∈ texts) (hm : message ∈ faultMessages text) :
      Traceable texts { message, cause, value := none }
  | gathered {errors : List Failure} {members : List Value} (hne : errors ≠ [])
      (h : ∀ e ∈ errors, Traceable texts e) :
      Traceable texts
        { message := "\n".intercalate (errors.map (·.message))
          cause := "; ".intercalate (errors.map (·.cause))
          value := some (.list members) }

/-- The item is no failure, or a traceable one. -/
def Item.Traceable (texts : List String) (x : Item) : Prop :=
  ∀ e, x = .failure e → e.Traceable texts

/-- The item that an event hands to a sink. -/
def Event.delivered? : Event → Option Item
  | .log x | .write x => some x
  | .command _ | .load _ => none

/-- What the event hands to a sink satisfies `P`. -/
def Event.Delivers (P : Item → Prop) (event : Event) : Prop :=
  ∀ x, event.delivered? = some x → P x

/-- What the event hands to a sink is traceable. -/
def Event.Traceable (texts : List String) (event : Event) : Prop :=
  ∀ x, event.delivered? = some x → x.Traceable texts

/-- In every run, all items and all that is handed to sinks are traceable. -/
def Plan.Traceable (texts : List String) (plan : Plan Event) : Prop :=
  ∀ m : Memory, (∀ x ∈ (plan.run m).1.items, x.Traceable texts) ∧
    ∀ event ∈ plan.opening ++ (plan.run m).1.events, event.Traceable texts

/-- The phrases of a stage: its expression or command, and the seed of a fold. -/
def Stage.phrases : Stage → List Phrase
  | .evaluate p | .shell p | .errorHandler p | .filter p | .flatMap p | .terminate p | .log p
  | .write p => [p]
  | .reduce p seed => [p, seed]
  | _ => []

/-- The texts of the phrases of stages. -/
def Stage.texts (stages : List Stage) : List String :=
  stages.flatMap fun stage => stage.phrases.map (·.words)

/-- Commands and modules hand nothing to the sinks of a pipeline. -/
structure Services.Discreet (services : Services) : Prop where
  command : ∀ text, ∀ event ∈ (services.command text).events, event.delivered? = none
  load : ∀ reference, ∀ event ∈ (services.load reference).events, event.delivered? = none

/-- Commands and modules that are noted as events hand nothing to a sink, whatever they answer. -/
theorem Services.discreet_by (command : String → Except String (List String))
    (load : String → Except String Value) :
    (Services.mk (commandsBy command) (modulesBy load)).Discreet where
  command _ := List.forall_mem_singleton.mpr rfl
  load _ := List.forall_mem_singleton.mpr rfl

variable {texts : List String}

theorem Event.delivers_of_not_delivered {P : Item → Prop} {event : Event}
    (h : event.delivered? = none) : event.Delivers P := by
  intro x hx
  rw [h] at hx
  cases hx

theorem Plan.Keeps.traceable {plan : Plan Event}
    (h : plan.Keeps (Item.Traceable texts) (Event.Traceable texts)) : plan.Traceable texts :=
  h.items_and_events

namespace Item

theorem traceable_value (v : Value) : (Item.value v).Traceable texts := by
  intro e he
  cases he

theorem traceable_failure {e : Failure} (h : e.Traceable texts) :
    (Item.failure e).Traceable texts := by
  intro e' he
  cases he
  exact h

theorem traceable_fault {text message cause : String} (ht : text ∈ texts)
    (hm : message ∈ faultMessages text) :
    (Item.failure { message, cause }).Traceable texts :=
  traceable_failure (.base ht hm)

/-- Gathering names failures of the members only. -/
theorem Traceable.gather {xs : List Item} (h : ∀ x ∈ xs, x.Traceable texts) :
    (Item.gather xs).Traceable texts := by
  unfold Item.gather
  split
  · exact traceable_value _
  · next errors hne =>
      refine traceable_failure (.gathered hne fun e he => ?_)
      obtain ⟨x, hx, hfailed⟩ := List.mem_filterMap.mp he
      cases x with
      | value v => cases hfailed
      | failure e' =>
          cases hfailed
          exact h _ hx e rfl

theorem Traceable.expand {x : Item} (h : x.Traceable texts) :
    ∀ y ∈ x.expand, y.Traceable texts := by
  intro y hy
  unfold Item.expand at hy
  split at hy
  · obtain ⟨v, -, rfl⟩ := List.mem_map.mp hy
    exact traceable_value v
  · cases List.mem_singleton.mp hy
    exact h

end Item

/-! ### Evaluation -/

namespace Bindings

/-- All items that are bound. -/
def items (b : Bindings) : List Item :=
  b.value.toList ++ b.index.toList ++ b.accumulator.toList ++ b.error.toList

variable {P : Item → Prop} {x acc : Item} {i : Nat}

theorem forall_items_none : ∀ y ∈ Bindings.none.items, P y := by
  intro y hy
  cases hy

theorem forall_items_ofItem (hx : P x) (hi : P (position i)) : ∀ y ∈ (ofItem x i).items, P y := by
  simp [items, ofItem, hx, hi]

theorem forall_items_ofFailure (hx : P x) (hi : P (position i)) :
    ∀ y ∈ (ofFailure x i).items, P y := by
  simp [items, ofFailure, hx, hi]

theorem forall_items_ofStep (hacc : P acc) (hx : P x) (hi : P (position i)) :
    ∀ y ∈ (ofStep acc x i).items, P y := by
  simp [items, ofStep, hacc, hx, hi]

theorem mem_items_of_bound? {b : Bindings} {name : String} {x : Item}
    (h : Expr.bound? b name = some x) : x ∈ b.items := by
  simp only [items, List.mem_append, Option.mem_toList]
  unfold Expr.bound? at h
  split at h
  · cases hv : b.value with
    | some y =>
        rw [hv] at h
        exact .inl (.inl (.inl h))
    | none =>
        rw [hv] at h
        exact .inr h
  · split at h
    · exact .inl (.inl (.inr h))
    · split at h
      · exact .inl (.inr h)
      · split at h
        · exact .inr h
        · cases h

/-- All items that are bound are traceable. -/
def Traceable (texts : List String) (b : Bindings) : Prop := ∀ x ∈ b.items, x.Traceable texts

end Bindings

/-- The result, if there is one, satisfies `R`. -/
def Results {α δ : Type} (R : α → Prop) (x : Except δ α) : Prop := ∀ a, x = .ok a → R a

namespace Results

variable {α β δ : Type} {R : α → Prop} {S : β → Prop}

theorem pure {a : α} (h : R a) : Results R (Pure.pure a : Except δ α) := by
  intro a' ha
  cases ha
  exact h

theorem bind {x : Except δ β} {f : β → Except δ α} (hx : Results S x)
    (hf : ∀ b, S b → Results R (f b)) : Results R (x >>= f) := by
  intro a ha
  cases x with
  | error e => cases ha
  | ok b => exact hf b (hx b rfl) a ha

theorem error {e : δ} : Results R (.error e) := by
  intro a ha
  cases ha

theorem mapError {γ : Type} {x : Except δ α} {f : δ → γ} (h : Results R x) :
    Results R (x.mapError f) := by
  intro a ha
  cases x with
  | error e => cases ha
  | ok a' =>
      cases ha
      exact h a rfl

/-- Whatever the first result is, the second satisfies `R`. -/
theorem after {x : Except δ β} {f : β → Except δ α} (hf : ∀ b, Results R (f b)) :
    Results R (x >>= f) :=
  bind (fun _ _ => trivial : Results (fun _ => True) x) fun b _ => hf b

end Results

namespace Expr

theorem lookup_keeps {P : Item → Prop} (hv : ∀ v, P (.value v)) {b : Bindings}
    (hb : ∀ x ∈ b.items, P x) (env : Environment) (name : String) :
    Results P (lookup b env name) := by
  intro x hx
  unfold lookup at hx
  split at hx
  · next y hbound =>
      cases hx
      exact hb _ (Bindings.mem_items_of_bound? hbound)
  · split at hx
    · cases hx
      exact hv _
    · cases hx

/-- **An expression returns a value or an item that was bound for it.** -/
theorem eval_keeps {P : Item → Prop} (hv : ∀ v, P (.value v)) {b : Bindings}
    (hb : ∀ x ∈ b.items, P x) (env : Environment) : ∀ e : Expr, Results P (e.eval b env)
  -- all but names and the two connectives make a value of their own
  | .number _ | .list _ | .object _ | .not _ | .member _ _ => by
      rw [eval]
      exact .after fun _ => .pure (hv _)
  | .literal _ => by
      rw [eval]
      exact .pure (hv _)
  | .name s => by
      rw [eval]
      exact lookup_keeps hv hb env s
  | .negate _ => by
      rw [eval]
      exact .after fun _ => .after fun _ => .after fun _ => .after fun _ => .pure (hv _)
  | .binary _ _ _ => by
      rw [eval]
      exact .after fun _ => .after fun _ => .after fun _ => .after fun _ => .after fun _ =>
        .pure (hv _)
  | .index _ _ => by
      rw [eval]
      exact .after fun _ => .after fun _ => .after fun _ => .after fun _ => .pure (hv _)
  | .call _ _ _ => by
      rw [eval]
      exact .after fun _ => .after fun _ => .after fun _ => .after fun _ => .pure (hv _)
  | .both left right => by
      rw [eval]
      refine .bind (eval_keeps hv hb env left) fun x hx => ?_
      split
      · exact eval_keeps hv hb env right
      · exact .pure hx
  | .either left right => by
      rw [eval]
      refine .bind (eval_keeps hv hb env left) fun x hx => ?_
      split
      · exact .pure hx
      · exact eval_keeps hv hb env right

end Expr

/-! ### Phrases and commands -/

theorem Evaluator.standard_keeps {P : Item → Prop} (hv : ∀ v, P (.value v)) {b : Bindings}
    (hb : ∀ x ∈ b.items, P x) (env : Environment) (source : String) :
    Results P (Evaluator.standard.evaluate source b env) := by
  refine .mapError ?_
  unfold evalSource
  split
  · exact .error
  · next e _ => exact .mapError (Expr.eval_keeps hv hb env e)

/-! ### States -/

namespace State

variable {P : Item → Prop} {Q : Event → Prop}

/-- The plans of all sequences of the state keep `P` and `Q`. -/
def Keeps (P : Item → Prop) (Q : Event → Prop) (s : State) : Prop :=
  ∀ q ∈ s.sequences, q.plan.Keeps P Q

theorem keeps_initial_none : (initial none).Keeps P Q := by
  intro q hq
  cases hq

theorem Keeps.input {s : State} (hs : s.Keeps P Q) : s.input.Keeps P Q := by
  unfold State.input
  split
  · next q hq => exact hs q (current_mem_sequences hq)
  · exact .items (List.forall_mem_nil _)

theorem Keeps.advance {s : State} (hs : s.Keeps P Q) {new : Sequence Event}
    (h : new.plan.Keeps P Q) : (s.advance new).Keeps P Q := by
  intro q hq
  rcases mem_sequences_advance hq with hold | rfl
  · exact hs q hold
  · exact h

theorem Keeps.lookup {s : State} (hs : s.Keeps P Q) {label : String} {named : Named}
    (h : s.find? label = some named) : named.sequence.plan.Keeps P Q :=
  hs _ (named_mem_sequences (List.mem_of_find?_eq_some h))

theorem Keeps.members {s : State} (hs : s.Keeps P Q) :
    ∀ {names : List String}, Results (fun sequences => ∀ q ∈ sequences, q.plan.Keeps P Q)
      (Stage.members s names)
  | [] => .pure (List.forall_mem_nil _)
  | name :: names => by
      have hfirst : Results (fun q => q.plan.Keeps P Q) (s.lookup name) := by
        intro q hq
        obtain ⟨named, hfind, rfl⟩ := lookup_eq_ok hq
        exact hs.lookup hfind
      rw [Stage.members, List.mapM_cons]
      refine .bind hfirst fun q hq => .bind hs.members fun sequences hsequences => .pure ?_
      exact List.forall_mem_cons.mpr ⟨hq, hsequences⟩

/-- **What the new plans of moves keep, moves keep.** -/
theorem Move.keeps {s t : State} {stage : Stage} (h : Move s stage t)
    (hnew : stage.produces = true → t.input.Keeps P Q) (hs : s.Keeps P Q) : t.Keeps P Q := by
  cases h with
  | produce plan hp => exact hs.advance (hnew hp)
  | name h =>
      obtain ⟨-, -, new, _, hplan, rfl⟩ := name_eq_ok h
      intro q hq
      rcases mem_sequences_register hq with hold | rfl
      · exact hs q hold
      · rw [hplan]
        exact hs.input
  | drop h =>
      intro q hq
      rcases (Move.drop h).mem_sequences hq with hold | ⟨-, hnext⟩
      · exact hs q hold
      · obtain ⟨-, rfl⟩ := drop_eq_ok h
        exact absurd hnext (Nat.ne_of_lt (Nat.lt_succ_self _))
  | laterImport env hc => exact Keeps.advance hs (hs _ (current_mem_sequences hc))
  | _ => exact hs

end State

/-! ### Stages -/

namespace Stage
open State

variable {services : Services} {s t : State} {events : List Event}

theorem phrase_mem_texts {stage : Stage} {stages : List Stage} (h : stage ∈ stages) :
    ∀ phrase ∈ stage.phrases, phrase.words ∈ Stage.texts stages :=
  fun _ hp => List.mem_flatMap.mpr ⟨stage, h, List.mem_map_of_mem hp⟩

/-- All that the functions of a stage make satisfies `P`, if all they work on does: what an
evaluation gives, a failure with a message around a text of the stage, the texts of a command, what
is missing in a lockstep, and what is gathered or expanded. -/
structure Closed (env : Environment) (stage : Stage) (P : Item → Prop) : Prop where
  position : ∀ i, P (Bindings.position i)
  evaluate : ∀ (source : String) (b : Bindings), (∀ x ∈ b.items, P x) →
    Results P (Evaluator.standard.evaluate source b env)
  fault : ∀ phrase ∈ stage.phrases, ∀ message ∈ faultMessages phrase.words, ∀ cause,
    P (.failure { message, cause })
  text : ∀ s, P (.value (.text s))
  lines : ∀ texts : List String, P (.value (.list (texts.map .text)))
  missing : P (.value .null)
  gather : ∀ xs, (∀ x ∈ xs, P x) → P (Item.gather xs)
  expand : ∀ x, P x → ∀ y ∈ x.expand, P y

namespace Closed
open Bindings

variable {P : Item → Prop} {env : Environment} {stage : Stage} {phrase : Phrase}

/-- A phrase gives what an evaluation gives, or fails with a message around its text. -/
theorem call (hstage : Closed env stage P) (hp : phrase ∈ stage.phrases) {b : Bindings}
    (hb : ∀ x ∈ b.items, P x) : P ((Prepared.ofPhrase .standard phrase).call env b) := by
  have hanswer : (Prepared.ofPhrase .standard phrase).call env b =
      phrase.answer (.inert .standard) env b := Host.call_prepare (.inert .standard) env b phrase
  have hfault := hstage.fault phrase hp
  rw [hanswer]
  cases phrase with
  | quoted tokens => exact hstage.text _
  | source s =>
      rw [Phrase.answer]
      split
      · exact hfault _ (by simp [faultMessages, Phrase.words]) _
      · exact hfault _ (by simp [faultMessages, Phrase.words]) _
      · next x _ hx => exact hstage.evaluate s b hb x hx

theorem callItem (hstage : Closed env stage P) (hp : phrase ∈ stage.phrases) {x : Item} (hx : P x)
    (i : Nat) : P ((Prepared.ofPhrase .standard phrase).call env (.ofItem x i)) :=
  hstage.call hp (forall_items_ofItem hx (hstage.position i))

/-- A command gives texts, or fails with a message around its text, whatever the services answer. -/
theorem within_runCommand (hstage : Closed env stage P) (hp : phrase ∈ stage.phrases)
    (hd : services.Discreet) (b : Bindings) :
    (runCommand services (.ofPhrase .standard phrase) env b).Within P (Event.Delivers P) := by
  have hanswer : runCommand services (.ofPhrase .standard phrase) env b =
      phrase.command services env b := Host.runCommand_prepareCommand services env b phrase
  have hfault := hstage.fault phrase hp
  rw [hanswer, Phrase.command]
  split
  · exact .pure (hfault _ (by simp [faultMessages]) _)
  · next text _ =>
      refine ⟨?_, fun event he => Event.delivers_of_not_delivered (hd.command text event he)⟩
      dsimp only
      split
      · exact hfault _ (by simp [faultMessages]) _
      · next lines _ =>
          rw [Phrase.printed]
          split
          · exact hstage.text _
          · exact hstage.lines _

theorem keeps_tapPlan (hstage : Closed env stage P) (hp : phrase ∈ stage.phrases)
    {sink : Item → Event} (hsink : ∀ x, (sink x).delivered? = some x) {input : Plan Event}
    (h : input.Keeps P (Event.Delivers P)) :
    (tapPlan sink input (.ofPhrase .standard phrase) env).Keeps P (Event.Delivers P) := by
  refine .map (fun x i hx => ?_) h
  refine (Traced.Within.emitAll (List.forall_mem_singleton.mpr ?_)).bind fun _ _ => .pure hx
  intro y hy
  rw [hsink] at hy
  cases hy
  exact hstage.callItem hp hx i

/-- **What is closed under the functions of a stage, its new plan keeps.** -/
theorem keeps_input (hstage : Closed s.env stage P) (hd : services.Discreet)
    (hs : s.Keeps P (Event.Delivers P)) (hproduces : stage.produces = true)
    (h : stage.apply services s = ⟨events, .ok t⟩) : t.input.Keeps P (Event.Delivers P) := by
  cases stage with
  | evaluate phrase =>
      cases h
      unfold evaluatePlan
      cases hc : s.current with
      | none =>
          refine .deferred (List.forall_mem_nil _) (.pure (hstage.expand _ ?_))
          exact hstage.call List.mem_cons_self forall_items_none
      | some q =>
          refine .map (fun x i hx => .pure ?_) (hs q (current_mem_sequences hc))
          exact hstage.callItem List.mem_cons_self hx i
  | shell phrase =>
      cases h
      have hcommand := hstage.within_runCommand List.mem_cons_self hd
      unfold shellPlan
      cases hc : s.current with
      | none =>
          refine .deferred (List.forall_mem_nil _) ((hcommand .none).bind fun x hx => .pure ?_)
          exact List.forall_mem_singleton.mpr hx
      | some q => exact .map (fun x i _ => hcommand _) (hs q (current_mem_sequences hc))
  | errorHandler phrase =>
      cases h
      refine .map (fun x i hx => .pure ?_) hs.input
      split
      · exact hstage.call List.mem_cons_self (forall_items_ofFailure hx (hstage.position i))
      · exact hx
  | filter =>
      cases h
      exact .filter (fun _ _ _ => .pure trivial) hs.input
  | flatMap phrase =>
      cases h
      refine .flatMap (fun x i hx => .pure (hstage.expand _ ?_)) hs.input
      exact hstage.callItem List.mem_cons_self hx i
  | reduce phrase seed =>
      cases h
      refine .fold (.pure ?_) (fun acc x i hacc hx => .pure ?_) hs.input
      · exact hstage.call (List.mem_cons_of_mem _ List.mem_cons_self) forall_items_none
      · exact hstage.call List.mem_cons_self (forall_items_ofStep hacc hx (hstage.position i))
  | terminate =>
      cases h
      exact .takeUntil (fun _ _ _ => .pure trivial) hs.input
  | wholeArray =>
      cases h
      exact .collect hstage.gather hs.input
  | log phrase | write phrase =>
      cases h
      exact hstage.keeps_tapPlan List.mem_cons_self (fun _ => rfl) hs.input
  | combine names =>
      obtain ⟨sequences, hm, rfl⟩ := applyCombine_eq_ok (congrArg Traced.value h)
      refine .zip (fun yields hyields => .pure (hstage.gather _ ?_)) ?_
      · intro x hx
        obtain ⟨y, hy, rfl⟩ := List.mem_map.mp hx
        cases y with
        | none => exact hstage.missing
        | some y => exact hyields y hy
      · intro p hmem
        obtain ⟨q, hq, rfl⟩ := List.mem_map.mp hmem
        exact hs.members _ hm q hq
  | seek label =>
      obtain ⟨named, hfind, rfl⟩ := seek_eq_ok (congrArg Traced.value h)
      exact hs.lookup hfind
  | stackRef index =>
      obtain ⟨q, hentry, rfl⟩ := stackRef_eq_ok (congrArg Traced.value h)
      exact hs q (entry_mem_sequences (List.mem_reverse.mp (List.mem_of_getElem? hentry)))
  | name | drop | disableStacking | suppressPrint | importModule => cases hproduces

end Closed

/-- Traceability is closed under the functions of a stage. -/
theorem closed_traceable {stage : Stage} (hp : ∀ phrase ∈ stage.phrases, phrase.words ∈ texts)
    (env : Environment) : Closed env stage (Item.Traceable texts) where
  position _ := Item.traceable_value _
  evaluate source _ hb := Evaluator.standard_keeps Item.traceable_value hb env source
  fault phrase hmem _ hm _ := Item.traceable_fault (hp phrase hmem) hm
  text _ := Item.traceable_value _
  lines _ := Item.traceable_value _
  missing := Item.traceable_value _
  gather _ h := Item.Traceable.gather h
  expand _ h := h.expand

/-- Building hands nothing to a sink. -/
theorem not_delivered_of_apply (hd : services.Discreet) (stage : Stage) (s : State) :
    ∀ event ∈ (stage.apply services s).events, event.delivered? = none := by
  cases stage with
  | importModule reference bound =>
      simp only [apply, applyImport, Traced.events_bind]
      refine List.forall_mem_append.mpr ⟨hd.load reference, ?_⟩
      split
      · exact List.forall_mem_nil _
      · split <;> exact List.forall_mem_nil _
  | _ => exact List.forall_mem_nil _

theorem not_delivered_of_applyAll {stages : List Stage} (hd : services.Discreet)
    (h : applyAll services stages s = ⟨events, .ok t⟩) :
    ∀ event ∈ events, event.delivered? = none := by
  induction stages generalizing s events with
  | nil =>
      cases h
      exact List.forall_mem_nil _
  | cons stage stages ih =>
      obtain ⟨first, next, rest, hfirst, hrest, rfl⟩ := Traced.andThen_eq_ok h
      have hevents := not_delivered_of_apply hd stage s
      rw [hfirst] at hevents
      exact List.forall_mem_append.mpr ⟨hevents, ih hrest⟩

end Stage

/-! ### Pipelines -/

/-- Stages applied one after the other, each by services of its own. -/
inductive Assembly : State → List Stage → State → Prop where
  | nil (s : State) : Assembly s [] s
  | cons {services : Services} {stage : Stage} {events : List Event} {s t u : State}
      {stages : List Stage} (hd : services.Discreet)
      (h : stage.apply services s = ⟨events, .ok t⟩) (rest : Assembly t stages u) :
      Assembly s (stage :: stages) u

namespace Assembly

theorem of_applyAll {services : Services} (hd : services.Discreet) {stages : List Stage}
    {s t : State} {events : List Event}
    (h : Stage.applyAll services stages s = ⟨events, .ok t⟩) : Assembly s stages t := by
  induction stages generalizing s events with
  | nil =>
      cases h
      exact .nil _
  | cons stage stages ih =>
      obtain ⟨_, _, _, hfirst, hrest, -⟩ := Traced.andThen_eq_ok h
      exact .cons hd hfirst (ih hrest)

/-- **Stage after stage.**  All sequences of the last state keep traceability. -/
theorem keeps {s t : State} {stages : List Stage} (h : Assembly s stages t)
    (hp : ∀ stage ∈ stages, ∀ phrase ∈ stage.phrases, phrase.words ∈ texts)
    (hs : s.Keeps (Item.Traceable texts) (Event.Traceable texts)) :
    t.Keeps (Item.Traceable texts) (Event.Traceable texts) := by
  induction h with
  | nil => exact hs
  | cons hd h _ ih =>
      obtain ⟨hfirst, hrest⟩ := List.forall_mem_cons.mp hp
      -- the services of this stage matter for its own plan only
      refine ih hrest ((Stage.move_of_apply h).keeps (fun hproduces => ?_) hs)
      exact (Stage.closed_traceable hfirst _).keeps_input hd hs hproduces h

theorem keeps_input {stages : List Stage} {s : State} (h : Assembly (.initial none) stages s) :
    s.input.Keeps (Item.Traceable (Stage.texts stages)) (Event.Traceable (Stage.texts stages)) :=
  (h.keeps (fun _ => Stage.phrase_mem_texts) State.keeps_initial_none).input

end Assembly

namespace Interpreter
open Stage

/-- **Failures have a source.**  Every failure that a pipeline yields or hands to a sink is
traceable to the texts of its stages, and building it hands nothing to a sink.  The same holds where
each stage is applied by services of its own, and each call of a run answered by others. -/
theorem failures_traceable (tokens : List String) :
    (∀ {services : Services} {events : List Event} {out : Output}, services.Discreet →
      run services tokens none = ⟨events, .ok out⟩ →
        (∀ event ∈ events, event.delivered? = none) ∧
          out.plan.Traceable (Stage.texts (stagesOf tokens))) ∧
    ∀ {plan : Plan Event},
      plan.Mixture (fun p => ∃ s, Assembly (.initial none) (stagesOf tokens) s ∧ p = s.input) →
        plan.Traceable (Stage.texts (stagesOf tokens)) := by
  refine ⟨fun hd h => ?_, fun h => ?_⟩
  · obtain ⟨s, hs, rfl⟩ := run_eq_ok h
    have happly := (runFrom_eq_ok hs).2
    have hassembly := Assembly.of_applyAll hd happly
    exact ⟨not_delivered_of_applyAll hd happly, hassembly.keeps_input.traceable⟩
  · refine (h.keeps fun p ⟨s, hs, hp⟩ => ?_).traceable
    rw [hp]
    exact hs.keeps_input

/-- A command that runs twice, side by side. -/
def twice : List String := ["-e", "-q", "ls", "-n", "x", "-c", "x,x"]

/-- Services that answer every command in one way, and load nothing. -/
def answering (answer : Except String (List String)) : Services :=
  ⟨Services.commandsBy fun _ => answer, Services.modulesBy (Services.scriptedModule [])⟩

/-- The plan of the command. -/
def commandPlan (services : Services) : Plan Event :=
  shellPlan services none (.ofPhrase .standard (.quoted ["ls"])) .empty

/-- The failure of the command, as a member of a list. -/
def refusal : Value :=
  .object [("message", .text "failed to execute shell command: ls"), ("cause", .text "refused")]

/-- The two runs of the command make one item. -/
theorem items_twice (first second : Except String (List String)) :
    (combinePlan [commandPlan (answering first), commandPlan (answering second)]).trace.items =
      [.asOne [(PreparedCommand.ofPhrase .standard (.quoted ["ls"])).outcome first,
        (PreparedCommand.ofPhrase .standard (.quoted ["ls"])).outcome second]] := by
  refine (listing_combinePlan fun p hp => ?_).trans rfl
  simp only [List.mem_cons, List.not_mem_nil, or_false] at hp
  rcases hp with rfl | rfl <;> exact Plan.settled_deferred _ _

theorem readAll_twice : readAll twice =
    ([(.shell (.quoted ["ls"]), 3), (.name "x", 2), (.combine ["x", "x"], 2)], none) := by
  decide +kernel

theorem run_twice (answer : Except String (List String)) :
    run (answering answer) twice none = ⟨[], .ok ⟨true,
      combinePlan [commandPlan (answering answer), commandPlan (answering answer)]⟩⟩ :=
  run_of_readAll readAll_twice rfl

/-- The command is refused both times, or only the first time.  Either way one failure is gathered,
and it has the text of the command for its source. -/
theorem failures_traceable_twice :
    (∃ (out : Output) (e : Failure), run (answering (.error "refused")) twice none = ⟨[], .ok out⟩ ∧
      out.plan.trace.items = [.failure e] ∧
      e.value = some (.list [refusal, refusal]) ∧ e.Traceable ["ls"]) ∧
    ∃ (plan : Plan Event) (e : Failure),
      plan.Mixture (fun p => ∃ s, Assembly (.initial none) (stagesOf twice) s ∧ p = s.input) ∧
      plan.trace.items = [.failure e] ∧
      e.value = some (.list [refusal, .text "done"]) ∧ e.Traceable ["ls"] := by
  have hdiscreet : ∀ answer, (answering answer).Discreet :=
    fun answer => Services.discreet_by (fun _ => answer) (Services.scriptedModule [])
  have hbuilt : ∀ answer, ∃ s, Assembly (.initial none) (stagesOf twice) s ∧
      combinePlan [commandPlan (answering answer), commandPlan (answering answer)] = s.input := by
    intro answer
    obtain ⟨s, hs, hout⟩ := run_eq_ok (run_twice answer)
    exact ⟨s, .of_applyAll (hdiscreet answer) (runFrom_eq_ok hs).2, congrArg Output.plan hout⟩
  obtain ⟨hruns, hmixtures⟩ := failures_traceable twice
  have htexts : Stage.texts (stagesOf twice) = ["ls"] := by
    rw [stagesOf, readAll_twice]
    rfl
  rw [htexts] at hruns hmixtures
  constructor
  · have hitems := items_twice (.error "refused") (.error "refused")
    refine ⟨_, _, run_twice (.error "refused"), hitems, rfl, ?_⟩
    obtain ⟨-, htraceable⟩ := hruns (hdiscreet _) (run_twice (.error "refused"))
    exact (htraceable .empty).1 _ (hitems ▸ List.mem_cons_self) _ rfl
  · have hmixture : (combinePlan [commandPlan (answering (.error "refused")),
        commandPlan (answering (.ok ["done"]))]).Mixture
          (fun p => ∃ s, Assembly (.initial none) (stagesOf twice) s ∧ p = s.input) := by
      refine .zip (fun _ => ⟨_, _, hbuilt (.ok []), rfl⟩) ?_
      rintro (_ | _ | k) p hp
      · cases hp
        exact .deferred ⟨_, _, _, hbuilt (.error "refused"), rfl⟩
          ⟨_, _, _, hbuilt (.error "refused"), rfl⟩
      · cases hp
        exact .deferred ⟨_, _, _, hbuilt (.ok ["done"]), rfl⟩
          ⟨_, _, _, hbuilt (.ok ["done"]), rfl⟩
      · cases hp
    have hitems := items_twice (.error "refused") (.ok ["done"])
    refine ⟨_, _, hmixture, hitems, rfl, ?_⟩
    exact (hmixtures hmixture .empty).1 _ (hitems ▸ List.mem_cons_self) _ rfl

end Interpreter

end Pipeline
