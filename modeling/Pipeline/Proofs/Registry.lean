import Pipeline.Proofs.Course

/-!
# Registry — names keep their sequences

No stage takes an entry from the registry or changes one: a stage that names a sequence puts an
entry behind the others, and every other stage leaves the registry alone (`Move.registry_grows`).
A name is looked up from the oldest entry on, so a name that is found once is found ever after, with
the same sequence (`find?_of_prefix`).

**Going back to a name** (`seek_returns`).  After a pipeline `before` its result is named, and
after any further stages it is sought.  The pipeline that is built then has the runs of `before`:
pull by pull the same items and events, whatever the stages in between did.  They may have moved
the current sequence, taken entries from the stack, changed the environment and used the name
themselves; the sequence that was registered is a value that none of them can reach into.
-/

namespace Pipeline

namespace State

/-- **The registry only grows**, one stage. -/
theorem Move.registry_grows {s t : State} {stage : Stage} (h : Move s stage t) :
    s.registry <+: t.registry := by
  cases h with
  | name h =>
      obtain ⟨-, -, sequence, _, -, rfl⟩ := name_eq_ok h
      exact List.prefix_append _ _
  | drop h =>
      obtain ⟨-, rfl⟩ := drop_eq_ok h
      exact List.prefix_rfl
  | _ => exact List.prefix_rfl

/-- An entry that is found is found in every registry that goes on from there. -/
theorem find?_of_prefix {s t : State} {label : String} {named : Named}
    (hp : s.registry <+: t.registry) (h : s.find? label = some named) :
    t.find? label = some named := by
  obtain ⟨later, hl⟩ := hp
  unfold find? at h ⊢
  rw [← hl, List.find?_append, h]
  rfl

/-- The entry that naming adds is the one that is found. -/
theorem find?_of_name {s t : State} {label : String} (h : s.name label = .ok t) :
    ∃ named, t.find? label = some named ∧ named.sequence.plan = s.input := by
  obtain ⟨hfree, -, sequence, _, hplan, rfl⟩ := name_eq_ok h
  refine ⟨⟨label, sequence⟩, ?_, hplan⟩
  -- the new entry is the last, and no entry before it has the name
  unfold find? at hfree ⊢
  rw [List.find?_append, hfree]
  simp

end State

/-- **The registry only grows**, any number of stages. -/
theorem Course.registry_grows {s t : State} {visits : List Interpreter.Visit}
    (h : Course s visits t) : s.registry <+: t.registry :=
  h.keeps (P := fun u => s.registry <+: u.registry)
    (fun hmove hgrown => hgrown.trans hmove.registry_grows) List.prefix_rfl

namespace Plan

/-- The two plans cannot be told apart by running them: a run is opened with the same events and
goes the same way pull by pull, whatever the cells hold, and leaves the same cells. -/
def SameRuns {ε : Type} (p q : Plan ε) : Prop :=
  p.opening = q.opening ∧ ∀ m : Memory, p.run m = q.run m

theorem SameRuns.of_eq {ε : Type} {p q : Plan ε} (h : p = q) : SameRuns p q := by
  subst h
  exact ⟨rfl, fun _ => rfl⟩

end Plan

namespace Interpreter
open Stage State

/-- **Naming, any stages, seeking**, from state to state: the state after them goes on from the
plan that was current when the name was given. -/
theorem input_of_name_seek {host : Host} {label : String} {middle : List String} {s t : State}
    {events : List Event} (hm : ReadsFully middle)
    (h : runFrom host s ("-n" :: label :: (middle ++ ["-s", label])) = ⟨events, .ok t⟩) :
    t.input = s.input := by
  have hname : parse ("-n" :: label :: (middle ++ ["-s", label])) = .ok (.name label, 2) := rfl
  have hseek : parse ["-s", label] = .ok (.seek label, 2) := rfl
  rw [runFrom_of_ok hname] at h
  obtain ⟨_, named, _, happly, h, -⟩ := Traced.andThen_eq_ok h
  obtain ⟨entry, hfind, hplan⟩ := find?_of_name (congrArg Traced.value happly)
  -- the stages in between keep the entry
  have hstart : StartsStage ["-s", label] := startsStage_token .seek _
  rw [List.drop_succ_cons, List.drop_succ_cons, List.drop_zero, runFrom_append hm hstart] at h
  obtain ⟨_, moved, _, hmiddle, h, -⟩ := Traced.andThen_eq_ok h
  obtain ⟨_, hcourse⟩ := Course.of_runFrom hmiddle
  have hkept := find?_of_prefix hcourse.registry_grows hfind
  -- so seeking finds what naming has put there
  rw [runFrom_of_ok hseek] at h
  obtain ⟨_, sought, _, happly, h, -⟩ := Traced.andThen_eq_ok h
  obtain ⟨found, hfound, rfl⟩ := seek_eq_ok (congrArg Traced.value happly)
  rw [hkept] at hfound
  cases hfound
  rw [List.drop_succ_cons, List.drop_succ_cons, List.drop_zero, runFrom_nil] at h
  cases h
  exact hplan

/-- **Going back to a name.**  Let `before` and `middle` be read to their end.  If the pipeline
that names the result of `before`, does all of `middle`, and seeks the name is built, then `before`
is built too, and every run of the one goes like a run of the other, with the same items and the
same events. -/
theorem seek_returns {host : Host} {label : String} {before middle : List String}
    {initial : Option (List Item)} {events : List Event} {out : Output}
    (hb : ReadsFully before) (hm : ReadsFully middle)
    (h : run host (before ++ ["-n", label] ++ middle ++ ["-s", label]) initial =
      ⟨events, .ok out⟩) :
    ∃ (first : List Event) (named : Output),
      run host before initial = ⟨first, .ok named⟩ ∧ out.plan.SameRuns named.plan := by
  obtain ⟨t, ht, rfl⟩ := run_eq_ok h
  have hsplit : before ++ ["-n", label] ++ middle ++ ["-s", label] =
      before ++ ("-n" :: label :: (middle ++ ["-s", label])) := by simp
  have hstart : StartsStage ("-n" :: label :: (middle ++ ["-s", label])) :=
    startsStage_token .name _
  rw [hsplit, runFrom_append hb hstart] at ht
  obtain ⟨first, s, _, hs, ht, -⟩ := Traced.andThen_eq_ok ht
  exact ⟨first, s.finish, run_of_runFrom hs, .of_eq (input_of_name_seek hm ht)⟩

/-- The way back past a stage that is named and dropped again, with printing and stacking turned
off behind it. -/
theorem seek_returns_past_drop :
    ∃ (out : Output) (first : List Event) (named : Output),
      run (.inert .standard)
          (["-q", "x"] ++ ["-n", "a"] ++ ["-e", "-q", "y", "-n", "b", "-d", "-p", "--nostack"] ++
            ["-s", "a"]) none = ⟨[], .ok out⟩ ∧
        run (.inert .standard) ["-q", "x"] none = ⟨first, .ok named⟩ ∧
          out.plan.SameRuns named.plan := by
  have hb : ReadsFully ["-q", "x"] := by decide +kernel
  have hm : ReadsFully ["-e", "-q", "y", "-n", "b", "-d", "-p", "--nostack"] := by decide +kernel
  have hread : readAll
      (["-q", "x"] ++ ["-n", "a"] ++ ["-e", "-q", "y", "-n", "b", "-d", "-p", "--nostack"] ++
        ["-s", "a"]) =
        ([(.evaluate (.quoted ["x"]), 2), (.name "a", 2), (.shell (.quoted ["y"]), 3),
          (.name "b", 2), (.drop, 1), (.suppressPrint, 1), (.disableStacking, 1), (.seek "a", 2)],
          none) := by
    decide +kernel
  have h : run (.inert .standard) _ none = ⟨[], _⟩ := run_of_readAll hread rfl
  obtain ⟨first, named, hnamed, hsame⟩ := seek_returns hb hm h
  exact ⟨_, first, named, h, hnamed, hsame⟩

end Interpreter

end Pipeline
