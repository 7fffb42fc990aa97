import Pipeline.Interpreter
import Pipeline.Proofs.Reading

/-!
# Building — tokens part by part

The interpreter reads a stage, applies it, and goes on with the tokens that are left.  Here the two
are taken apart: what it builds is what applying the stages of the tokens builds (`applyAll`),
followed by the error that reading ended with, if it did (`runFrom_eq_applyAll`).  A stage that
cannot be applied ends the work before a later one that cannot be read.

So a statement about building is one about lists of stages, and building in two parts is applying
two lists.

* `applyAll_append`: the stages of two lists are applied one list after the other.
* `run_append_eq`: where `tokens` are read to their end and `more` is a boundary, interpreting
  `tokens ++ more` is interpreting `tokens` and going on from the state it ends in with `more`:
  the same output, the same events of building, or the same error.
-/

namespace Pipeline

namespace Traced

variable {ε α β γ δ : Type}

/-- Goes on with `k` from a result that is no error. -/
def andThen (x : Traced ε (Except δ α)) (k : α → Traced ε (Except δ β)) :
    Traced ε (Except δ β) := do
  match ← x with
  | .error e => return .error e
  | .ok a => k a

@[simp] theorem andThen_error (events : List ε) (e : δ) (k : α → Traced ε (Except δ β)) :
    andThen ⟨events, .error e⟩ k = ⟨events, .error e⟩ := by
  show Traced.mk (events ++ []) (Except.error e) = _
  rw [List.append_nil]

@[simp] theorem andThen_ok (events : List ε) (a : α) (k : α → Traced ε (Except δ β)) :
    andThen ⟨events, .ok a⟩ k = ⟨events ++ (k a).events, (k a).value⟩ := rfl

theorem andThen_pure (x : Traced ε (Except δ α)) : andThen x (fun a => pure (.ok a)) = x := by
  obtain ⟨events, e | a⟩ := x
  · exact andThen_error _ _ _
  · show Traced.mk (events ++ []) (Except.ok a) = _
    rw [List.append_nil]

theorem andThen_assoc (x : Traced ε (Except δ α)) (k : α → Traced ε (Except δ β))
    (l : β → Traced ε (Except δ γ)) :
    andThen (andThen x k) l = andThen x fun a => andThen (k a) l := by
  obtain ⟨events, e | a⟩ := x
  · simp only [andThen_error]
  · rw [andThen_ok, andThen_ok]
    obtain ⟨more, e | b⟩ := k a
    · simp only [andThen_error]
    · simp only [andThen_ok, List.append_assoc]

/-- How work goes on matters only for the result it goes on from. -/
theorem andThen_congr {x : Traced ε (Except δ α)} {k l : α → Traced ε (Except δ β)}
    (h : ∀ {events : List ε} {a : α}, x = ⟨events, .ok a⟩ → k a = l a) :
    andThen x k = andThen x l := by
  obtain ⟨events, e | a⟩ := x
  · rw [andThen_error, andThen_error]
  · rw [andThen_ok, andThen_ok, h rfl]

theorem andThen_pure_ok (r : Except δ α) (f : α → β) :
    andThen (pure r : Traced ε (Except δ α)) (fun a => pure (.ok (f a))) = pure (r.map f) := by
  cases r <;> rfl

/-- Work that was gone on with and gave a result gave one at every step. -/
theorem andThen_eq_ok {x : Traced ε (Except δ α)} {k : α → Traced ε (Except δ β)}
    {events : List ε} {b : β} (h : andThen x k = ⟨events, .ok b⟩) :
    ∃ first a rest, x = ⟨first, .ok a⟩ ∧ k a = ⟨rest, .ok b⟩ ∧ events = first ++ rest := by
  obtain ⟨first, e | a⟩ := x
  · rw [andThen_error] at h; cases h
  · rw [andThen_ok] at h
    injection h with hevents hvalue
    exact ⟨first, a, (k a).events, rfl, by rw [← hvalue], hevents.symm⟩

/-- Two pieces of work with the same events, and with the same error or related results. -/
inductive Agree (R : α → β → Prop) : Traced ε (Except δ α) → Traced ε (Except δ β) → Prop where
  | error (events : List ε) (e : δ) : Agree R ⟨events, .error e⟩ ⟨events, .error e⟩
  | ok (events : List ε) {a : α} {b : β} (h : R a b) : Agree R ⟨events, .ok a⟩ ⟨events, .ok b⟩

/-- Work that agrees agrees also when it is gone on with. -/
theorem Agree.andThen {α' β' : Type} {R : α → β → Prop} {S : α' → β' → Prop}
    {x : Traced ε (Except δ α)} {y : Traced ε (Except δ β)} (h : Agree R x y)
    {k : α → Traced ε (Except δ α')} {l : β → Traced ε (Except δ β')}
    (hk : ∀ {a : α} {b : β}, R a b → Agree S (k a) (l b)) : Agree S (x.andThen k) (y.andThen l) := by
  cases h with
  | error events e =>
      rw [andThen_error, andThen_error]
      exact .error events e
  | @ok events a b hab =>
      rw [andThen_ok, andThen_ok]
      have hnext := hk hab
      generalize k a = x' at hnext ⊢
      generalize l b = y' at hnext ⊢
      cases hnext with
      | error later e => exact .error _ e
      | ok later hab => exact .ok _ hab

end Traced

namespace Stage

/-! ### Lists of stages -/

/-- Applies stages one after the other; the first that fails ends the work. -/
def applyAll (host : Host) : List Stage → State → Traced Event (Except BuildError State)
  | [], s => pure (.ok s)
  | stage :: stages, s => (stage.apply host s).andThen (applyAll host stages)

theorem applyAll_append (host : Host) (stages later : List Stage) (s : State) :
    applyAll host (stages ++ later) s =
      (applyAll host stages s).andThen (applyAll host later) := by
  induction stages generalizing s with
  | nil => rfl
  | cons stage stages ih =>
      simp only [List.cons_append, applyAll, Traced.andThen_assoc]
      congr 1
      funext next
      exact ih next

/-- **Stages that agree one by one agree together**: where each of them leads from related states to
related states, or to the same error, so do they all. -/
theorem applyAll_agree {host other : Host} {R : State → State → Prop} {stages : List Stage}
    (hstep : ∀ stage ∈ stages, ∀ {s t : State}, R s t →
      (stage.apply host s).Agree R (stage.apply other t)) {s t : State} (h : R s t) :
    (applyAll host stages s).Agree R (applyAll other stages t) := by
  induction stages generalizing s t with
  | nil => exact .ok _ h
  | cons stage stages ih =>
      rw [List.forall_mem_cons] at hstep
      exact (hstep.1 h).andThen fun hnext => ih hstep.2 hnext

/-- The stages of a token list, as far as they can be read. -/
def stagesOf (tokens : List String) : List Stage := (readAll tokens).1.map (·.1)

/-- The tokens are read to their end. -/
def ReadsFully (tokens : List String) : Prop := (readAll tokens).2 = none

instance (tokens : List String) : Decidable (ReadsFully tokens) :=
  inferInstanceAs (Decidable ((readAll tokens).2 = none))

/-- The state that building ends in, unless reading ended with an error. -/
def settle (tokens : List String) (s : State) : Except BuildError State :=
  match (readAll tokens).2 with
  | none => .ok s
  | some e => .error e

end Stage

namespace Interpreter
open Stage

/-! ### The interpreter applies what it reads -/

theorem walk_of_error {host : Host} {s : State} {tokens : List String} {e : BuildError}
    (hne : tokens ≠ []) (h : parse tokens = .error e) :
    walk host s tokens = ⟨[], some (pure e)⟩ := by
  cases tokens with
  | nil => exact absurd rfl hne
  | cons first args =>
      rw [walk]
      split
      · next e' h' => rw [h] at h'; cases h'; rfl
      · next h' => rw [h] at h'; cases h'

theorem walk_of_ok {host : Host} {s : State} {tokens : List String} {stage : Stage} {n : Nat}
    (h : parse tokens = .ok (stage, n)) :
    walk host s tokens =
      match stage.apply host s with
      | ⟨events, .error e⟩ => ⟨[], some ⟨events, e⟩⟩
      | ⟨events, .ok next⟩ =>
        ⟨⟨stage, events, next⟩ :: (walk host next (tokens.drop n)).visits,
          (walk host next (tokens.drop n)).error⟩ := by
  cases tokens with
  | nil => cases h
  | cons first args =>
      rw [walk]
      split
      · next h' => rw [h] at h'; cases h'
      · next h' => rw [h] at h'; cases h'; rfl

theorem runFrom_nil (host : Host) (s : State) : runFrom host s [] = pure (.ok s) := by
  rw [runFrom, walk]; rfl

theorem runFrom_of_error {host : Host} {s : State} {tokens : List String} {e : BuildError}
    (hne : tokens ≠ []) (h : parse tokens = .error e) :
    runFrom host s tokens = pure (.error e) := by
  rw [runFrom, walk_of_error hne h]; rfl

/-- **One step of the interpreter.**  It applies the stage at the front, and goes on with the
tokens behind it. -/
theorem runFrom_of_ok {host : Host} {s : State} {tokens : List String} {stage : Stage} {n : Nat}
    (h : parse tokens = .ok (stage, n)) :
    runFrom host s tokens =
      (stage.apply host s).andThen fun next => runFrom host next (tokens.drop n) := by
  rw [runFrom, walk_of_ok h]
  obtain ⟨events, e | next⟩ := stage.apply host s
  · rw [Traced.andThen_error]; rfl
  · rw [Traced.andThen_ok, runFrom]
    dsimp only
    -- the last state visited is the last of the rest, or this one where there is no rest
    generalize walk host next (tokens.drop n) = w
    obtain ⟨visits, _ | e⟩ := w
    · simp only [List.map_cons, List.getLast?_cons, Option.getD_some, List.flatMap_cons]
    · simp only [List.flatMap_cons, List.append_assoc]

/-- **Building is applying what is read.**  The stages of the tokens are applied, and an error of
reading comes behind all of them. -/
theorem runFrom_eq_applyAll (host : Host) (s : State) (tokens : List String) :
    runFrom host s tokens =
      (applyAll host (stagesOf tokens) s).andThen fun next => pure (settle tokens next) := by
  -- a stage is applied before the next one is read, so the state changes along the induction too
  induction hlen : tokens.length using Nat.strongRecOn generalizing tokens s with
  | ind len ih =>
      subst hlen
      by_cases hne : tokens = []
      · subst hne; exact runFrom_nil host s
      · cases hp : parse tokens with
        | error e =>
            rw [runFrom_of_error hne hp]
            simp only [stagesOf, settle, readAll_of_error hne hp]
            rfl
        | ok r =>
            obtain ⟨stage, n⟩ := r
            have hlt : (tokens.drop n).length < tokens.length := by
              have := consumed_parse_pos hp
              have := List.length_pos_iff.mpr hne
              rw [List.length_drop]
              omega
            rw [runFrom_of_ok hp]
            simp only [stagesOf, settle, readAll_of_ok hp, List.map_cons, applyAll,
              Traced.andThen_assoc]
            congr 1
            funext next
            exact ih _ hlt next (tokens.drop n) rfl

/-- Tokens that are read to their end build what their stages do. -/
theorem runFrom_of_readsFully {host : Host} {s : State} {tokens : List String}
    (h : ReadsFully tokens) : runFrom host s tokens = applyAll host (stagesOf tokens) s := by
  have hsettle : settle tokens = .ok := by
    funext next
    rw [settle, show (readAll tokens).2 = none from h]
  rw [runFrom_eq_applyAll, hsettle, Traced.andThen_pure]

/-- Tokens that build a state are read to their end, and their stages build it. -/
theorem runFrom_eq_ok {host : Host} {s t : State} {tokens : List String} {events : List Event}
    (h : runFrom host s tokens = ⟨events, .ok t⟩) :
    ReadsFully tokens ∧ applyAll host (stagesOf tokens) s = ⟨events, .ok t⟩ := by
  have hfull : ReadsFully tokens := by
    rw [runFrom_eq_applyAll] at h
    obtain ⟨_, next, _, -, hsettle, -⟩ := Traced.andThen_eq_ok h
    have hvalue : settle tokens next = .ok t := congrArg Traced.value hsettle
    unfold settle at hvalue
    split at hvalue
    · assumption
    · cases hvalue
  exact ⟨hfull, runFrom_of_readsFully hfull ▸ h⟩

theorem run_eq_andThen (host : Host) (tokens : List String) (initial : Option (List Item)) :
    run host tokens initial =
      (runFrom host (.initial initial) tokens).andThen fun s => pure (.ok s.finish) := by
  rw [run]
  obtain ⟨events, e | s⟩ := runFrom host (.initial initial) tokens <;> rfl

/-- A pipeline that is built has a state that its tokens end in. -/
theorem run_eq_ok {host : Host} {tokens : List String} {initial : Option (List Item)}
    {events : List Event} {out : Output} (h : run host tokens initial = ⟨events, .ok out⟩) :
    ∃ s, runFrom host (.initial initial) tokens = ⟨events, .ok s⟩ ∧ out = s.finish := by
  rw [run_eq_andThen] at h
  obtain ⟨first, s, rest, hs, hrest, hevents⟩ := Traced.andThen_eq_ok h
  cases hrest
  rw [List.append_nil] at hevents
  exact ⟨s, hevents ▸ hs, rfl⟩

theorem run_of_runFrom {host : Host} {tokens : List String} {initial : Option (List Item)}
    {events : List Event} {s : State}
    (h : runFrom host (.initial initial) tokens = ⟨events, .ok s⟩) :
    run host tokens initial = ⟨events, .ok s.finish⟩ := by
  rw [run_eq_andThen, h, Traced.andThen_ok]
  exact congrArg (Traced.mk · _) (List.append_nil events)

/-- Where the stages of tokens are known, building is applying them. -/
theorem runFrom_of_readAll {host : Host} {tokens : List String} {stages : List (Stage × Nat)}
    {s : State} {r : Traced Event (Except BuildError State)}
    (hread : readAll tokens = (stages, none)) (h : applyAll host (stages.map (·.1)) s = r) :
    runFrom host s tokens = r := by
  have hfull : ReadsFully tokens := congrArg Prod.snd hread
  rw [runFrom_of_readsFully hfull, stagesOf, hread]
  exact h

/-- A pipeline is built where its stages are known and can all be applied. -/
theorem run_of_readAll {host : Host} {tokens : List String} {stages : List (Stage × Nat)}
    {initial : Option (List Item)} {events : List Event} {s : State}
    (hread : readAll tokens = (stages, none))
    (h : applyAll host (stages.map (·.1)) (.initial initial) = ⟨events, .ok s⟩) :
    run host tokens initial = ⟨events, .ok s.finish⟩ :=
  run_of_runFrom (runFrom_of_readAll hread h)

/-! ### Two parts -/

/-- From any state, tokens before a boundary are interpreted first, and then what is behind it. -/
theorem runFrom_append {tokens more : List String} (h : ReadsFully tokens)
    (hm : StartsStage more) (host : Host) (s : State) :
    runFrom host s (tokens ++ more) =
      (runFrom host s tokens).andThen fun next => runFrom host next more := by
  have hread := readAll_append hm tokens h
  have hstages : stagesOf (tokens ++ more) = stagesOf tokens ++ stagesOf more := by
    simp only [stagesOf, hread, List.map_append]
  have hsettle : settle (tokens ++ more) = settle more := by
    funext next
    simp only [settle, hread]
  rw [runFrom_eq_applyAll, hstages, hsettle, applyAll_append, Traced.andThen_assoc,
    runFrom_of_readsFully h]
  congr 1
  funext next
  exact (runFrom_eq_applyAll host next more).symm

/-- **Interpreting in two parts.**  Let `tokens` be read to their end, and let `more` be empty or
begin with a marker other than the quoting one.  Then `tokens ++ more` has the stages of `tokens`
and behind them the stages, or the error, of `more`; and interpreting it is interpreting `tokens`
and going on with `more` from the state that `tokens` end in: the same output with the same events
of building, or the same error. -/
theorem run_append_eq {tokens more : List String} (h : ReadsFully tokens)
    (hm : StartsStage more) :
    readAll (tokens ++ more) = ((readAll tokens).1 ++ (readAll more).1, (readAll more).2) ∧
      ∀ (host : Host) (initial : Option (List Item)),
        run host (tokens ++ more) initial =
          (runFrom host (.initial initial) tokens).andThen fun s =>
            (runFrom host s more).andThen fun last => pure (.ok last.finish) := by
  refine ⟨readAll_append hm tokens h, fun host initial => ?_⟩
  rw [run_eq_andThen, runFrom_append h hm, Traced.andThen_assoc]

/-- A name that looks like the quoting token is taken as a name, and the filter behind it is read
as if it stood alone. -/
theorem run_append_eq_quoteName :
    ReadsFully ["-j", "-q", "a", "-n", "-q"] ∧ StartsStage ["-f", "x"] ∧
      readAll (["-j", "-q", "a", "-n", "-q"] ++ ["-f", "x"]) =
        ([(.evaluate (.quoted ["a"]), 3), (.name "-q", 2), (.filter (.source "x"), 2)], none) ∧
      run (.inert .standard) (["-j", "-q", "a", "-n", "-q"] ++ ["-f", "x"]) none =
        (runFrom (.inert .standard) (.initial none) ["-j", "-q", "a", "-n", "-q"]).andThen fun s =>
          (runFrom (.inert .standard) s ["-f", "x"]).andThen fun last =>
            pure (.ok last.finish) := by
  have h : ReadsFully ["-j", "-q", "a", "-n", "-q"] := by decide +kernel
  have hm : StartsStage ["-f", "x"] := startsStage_token .filter ["x"]
  obtain ⟨hread, hrun⟩ := run_append_eq h hm
  exact ⟨h, hm, hread.trans (by decide +kernel), hrun (.inert .standard) none⟩

end Interpreter

end Pipeline
