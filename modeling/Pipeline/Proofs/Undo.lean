import Pipeline.Proofs.Renaming
import Pipeline.Proofs.Stack

/-!
# Undo — a drop takes the last stage back

A stage that puts a new sequence in place of the current one puts it on the stack too.  A drop takes
it off and goes back to the entry below, and while stacking is on that entry is what was current
before the stage (`Course.onTop`).  So the two leave the state as it was, but for one thing: the
handle that the stage gave away is not given away again (`State.drop_advancePlan`).  No later stage
can tell, for handles do not show.

**A drop takes the last stage back** (`Course.drop_undoes`), for states and for pipelines: the
tokens of a stage, followed by a drop, can be cut out of the tokens of a pipeline.
-/

namespace Pipeline

open Interpreter (Visit)

namespace Stage

/-- Behind `before`, the tokens are read as this one stage. -/
def ReadsAs (before tokens : List String) (stage : Stage) : Prop :=
  ReadsFully (before ++ tokens) ∧ stagesOf (before ++ tokens) = stagesOf before ++ [stage]

/-- Tokens that begin with a marker are read behind others as they are read alone. -/
theorem readsAs_of_parse {before tokens : List String} {stage : Stage} (hb : ReadsFully before)
    (hm : StartsStage tokens) (hp : parse tokens = .ok (stage, tokens.length)) :
    ReadsAs before tokens stage := by
  have hread : readAll tokens = ([(stage, tokens.length)], none) := by
    rw [readAll_of_ok hp, List.drop_length]
    rfl
  have hall := readAll_append hm before hb
  rw [hread] at hall
  constructor
  · rw [ReadsFully, hall]
  · rw [stagesOf, hall, List.map_append]
    rfl

/-- A stage that makes a new sequence current does nothing else. -/
theorem apply_of_produces {host : Host} {stage : Stage} {s t : State} {events : List Event}
    (hp : stage.produces = true) (h : stage.apply host s = ⟨events, .ok t⟩) :
    events = [] ∧ ∃ plan, t = s.advancePlan plan := by
  constructor
  · have hevents : (stage.apply host s).events = [] := by
      cases stage with
      | importModule => cases hp
      | _ => rfl
    rw [h] at hevents
    exact hevents
  · cases move_of_apply h with
    | produce plan => exact ⟨plan, rfl⟩
    | _ => cases hp

end Stage

namespace State

/-- **A new sequence is dropped again.**  All that is left of it is a handle that was given away. -/
theorem drop_advancePlan {first : Option (Sequence Event)} {s : State} (hs : s.OnTop first)
    (hon : s.stacking = true) (hne : s.stack ≠ []) (plan : Plan Event) :
    (s.advancePlan plan).drop = .ok { s with nextHandle := s.nextHandle + 1 } := by
  have hstack : (s.advancePlan plan).stack = s.stack ++ [⟨s.nextHandle, plan⟩] := if_pos hon
  have hdepth : ¬ (s.advancePlan plan).stack.length < 2 := by
    have := List.length_pos_iff.mpr hne
    rw [hstack, List.length_append, List.length_singleton]
    omega
  rw [drop, if_neg hdepth, hstack, List.dropLast_concat, hs.getLast?_stack hon hne]
  rfl

end State

namespace Interpreter
open Stage State

theorem runFrom_of_readsAs {before tokens : List String} {stage : Stage} (hb : ReadsFully before)
    (h : ReadsAs before tokens stage) (host : Host) (s : State) :
    runFrom host s (before ++ tokens) = (runFrom host s before).andThen (stage.apply host) := by
  have hone : applyAll host [stage] = stage.apply host := funext fun _ => Traced.andThen_pure _
  rw [runFrom_of_readsFully h.1, h.2, applyAll_append, hone, runFrom_of_readsFully hb]

/-- A drop at the front is done first. -/
theorem outcome_drop {host : Host} {s t : State} {post : List String} (h : s.drop = .ok t) :
    outcome host s ("-d" :: post) = outcome host t post := by
  have hparse : parse ("-d" :: post) = .ok (.drop, 1) := rfl
  have happly : Stage.drop.apply host s = ⟨[], .ok t⟩ := congrArg (Traced.mk []) h
  rw [outcome, runFrom_of_ok hparse, happly, Traced.andThen_ok]
  rfl

end Interpreter

namespace Course
open Interpreter Stage State

/-- **A drop takes the last stage back.**  Let stacking be on behind a course from the beginning of
a pipeline, with an entry on the stack, and let a stage that makes a new sequence current be
applied.

* A drop behind it succeeds, and gives back the current sequence, the registry, the stack, both
  switches and the environment.
* Where tokens `before` have built the state and `tokens` are read as the stage, `tokens` and a drop
  can be left out in front of any `post` that is empty or begins with a marker other than the
  quoting one: the pipeline comes to the same output, with the same events of building, or to the
  same error. -/
theorem drop_undoes {first : Option (Sequence Event)} {visits : List Visit} {s t : State}
    {host : Host} {stage : Stage} {events : List Event}
    (h : Course (.startingFrom first) visits s) (hon : s.stacking = true) (hne : s.stack ≠ [])
    (hp : stage.produces = true) (happly : stage.apply host s = ⟨events, .ok t⟩) :
    (∃ u, Stage.drop.apply host t = ⟨[], .ok u⟩ ∧ u.current = s.current ∧
      u.registry = s.registry ∧ u.stack = s.stack ∧ u.stacking = s.stacking ∧
      u.mustPrint = s.mustPrint ∧ u.env = s.env) ∧
    ∀ (before tokens post : List String) (built : List Event),
      runFrom host (.startingFrom first) before = ⟨built, .ok s⟩ → ReadsAs before tokens stage →
        StartsStage post →
          outcome host (.startingFrom first) (before ++ tokens ++ ["-d"] ++ post) =
            outcome host (.startingFrom first) (before ++ post) := by
  obtain ⟨rfl, plan, rfl⟩ := apply_of_produces hp happly
  have hdrop := drop_advancePlan h.onTop hon hne plan
  refine ⟨⟨_, congrArg (Traced.mk []) hdrop, rfl, rfl, rfl, rfl, rfl, rfl⟩, ?_⟩
  intro before tokens post built hs htokens hpost
  have hb : ReadsFully before := (runFrom_eq_ok hs).1
  have hd : StartsStage ("-d" :: post) := startsStage_token .drop post
  have hsplit : before ++ tokens ++ ["-d"] ++ post = before ++ tokens ++ ("-d" :: post) := by simp
  -- the state behind the drop is the one before the stage, with a handle left out
  have hsame : outcome host { s with nextHandle := s.nextHandle + 1 } post =
      outcome host s post := by
    rw [← rename_skip h.fresh, outcome_rename (shifts_skip _)]
  rw [hsplit, outcome_append htokens.1 hd, runFrom_of_readsAs hb htokens, hs, Traced.andThen_ok,
    happly, Traced.andThen_ok, outcome_drop hdrop, hsame, outcome_append hb hpost, hs,
    Traced.andThen_ok, List.append_nil]

/-- A lockstep that is dropped at once leaves no trace, though a name is sought and another given
behind it. -/
theorem drop_undoes_combine :
    ∃ s t u : State,
      runFrom (.inert .standard) (.startingFrom none) ["-q", "x", "-n", "a"] = ⟨[], .ok s⟩ ∧
        s.stacking = true ∧ s.stack ≠ [] ∧
        Stage.apply (.inert .standard) (.combine ["a"]) s = ⟨[], .ok t⟩ ∧
        Stage.apply (.inert .standard) .drop t = ⟨[], .ok u⟩ ∧ u.current = s.current ∧
        run (.inert .standard)
            (["-q", "x", "-n", "a"] ++ ["-c", "a"] ++ ["-d"] ++ ["-s", "a", "-n", "b"]) none =
          run (.inert .standard) (["-q", "x", "-n", "a"] ++ ["-s", "a", "-n", "b"]) none := by
  have hread : readAll ["-q", "x", "-n", "a"] =
      ([(.evaluate (.quoted ["x"]), 2), (.name "a", 2)], none) := by
    decide +kernel
  have hb : ReadsFully ["-q", "x", "-n", "a"] := congrArg Prod.snd hread
  obtain ⟨s, t, hbuild, happly, hon, hne⟩ : ∃ s t : State,
      applyAll (.inert .standard) [.evaluate (.quoted ["x"]), .name "a"] (.startingFrom none) =
          ⟨[], .ok s⟩ ∧
        Stage.apply (.inert .standard) (.combine ["a"]) s = ⟨[], .ok t⟩ ∧
        s.stacking = true ∧ s.stack ≠ [] :=
    ⟨_, _, rfl, rfl, rfl, List.cons_ne_nil _ _⟩
  have hs : runFrom (.inert .standard) (.startingFrom none) ["-q", "x", "-n", "a"] =
      ⟨[], .ok s⟩ := by
    rw [runFrom_of_readsFully hb, stagesOf, hread]
    exact hbuild
  have htokens : ReadsAs ["-q", "x", "-n", "a"] ["-c", "a"] (.combine ["a"]) :=
    readsAs_of_parse hb (startsStage_token .combine ["a"]) (by cbv)
  have hpost : StartsStage ["-s", "a", "-n", "b"] := startsStage_token .seek _
  obtain ⟨visits, hcourse⟩ := of_runFrom hs
  obtain ⟨⟨u, hdrop, hcurrent, -⟩, hcut⟩ := drop_undoes hcourse hon hne rfl happly
  refine ⟨s, t, u, hs, hon, hne, happly, hdrop, hcurrent, ?_⟩
  rw [run_eq_outcome, run_eq_outcome]
  exact hcut _ _ _ _ hs htokens hpost

end Course

end Pipeline
