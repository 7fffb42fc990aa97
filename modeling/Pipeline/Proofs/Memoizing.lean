import Mathlib.Data.List.Forall2
import Pipeline.Proofs.Fronts
import Pipeline.Proofs.Settling

/-!
# Memoizing — a memoized plan is run once

What happens to the plan memoized in a cell is noted: that a run reaches it, that it starts a run of
its input, and which events happen in that run (`Plan.noted`).  The notes are made by members
without items, set beside the plan and beside its input (`Plan.beside`); so a plan with notes is a
plan like any other, and is run by the same rules.  Without the notes, its runs are those of the
plan itself (`Plan.run_erased`).

A run notes something at its first pull only, and what it can note is a passage of the memory
(`Plan.Passage`, `Plan.Over.passes`): either the cell stays as it is, or it is filled by one whole
run of the input.  Passages follow each other, from member to member of a lockstep and from turn to
turn of a desk, and at most one of them fills the cell (`Passage.trans`, `Desk.Noted.runsOnce`).

**So a memoized plan is run once** (`Desk.memoized_once`), by the first pull that reaches it, and
every run of it yields the items of that one run of its input.  Its cell has to be its own; in a
session it is (`Session.over_memo`).

All this is about pulls that do not overlap: each is over before the next begins, those of the
members of a lockstep included (`Plan.runAll`).  Nothing is said of a pull that waits in the midst
of its work while another one reaches the same plan.
-/

namespace Pipeline

variable {ε ν : Type}

namespace Trace

theorem after_nil (t : Trace ε) : t.after [] = t := by cases t <;> rfl

theorem after_burst (L : List ε) (result : Traced ε (List Item)) :
    (burst result).after L = burst ⟨L ++ result.events, result.value⟩ := by
  rw [burst, burst]
  cases ofItems result.value with
  | ended events => exact congrArg ended (List.append_assoc ..).symm
  | pull first rest =>
      exact congrArg (fun events => pull ⟨events, first.value⟩ rest) (List.append_assoc ..).symm

/-! ### A note beside a run -/

/-- What the second of two members yields. -/
def second : List (Option Item) → Traced ε Item
  | [_, some x] => pure x
  | _ => pure default

theorem tick_second (L : List ε) (t : Trace ε) :
    tick [some fun _ => .ended L, some fun _ => t] =
      (⟨L ++ t.next.1.events, [none, t.next.1.value]⟩, [none, t.next.2]) := by
  simp [tick, next, Traced.ext_iff]

theorem tick_second_none (t : Trace ε) :
    tick [none, some fun _ => t] =
      (⟨t.next.1.events, [none, t.next.1.value]⟩, [none, t.next.2]) := by
  simp [tick, Traced.ext_iff]

theorem zipMembers_second (t : Trace ε) : zipMembers second [none, some fun _ => t] = t := by
  induction t with
  | ended events =>
      rw [zipMembers_of_none (by rw [tick_second_none]; exact Bool.false_ne_true),
        tick_second_none]
      rfl
  | pull first rest ih =>
      have hfirst : (⟨(pull first rest).next.1.events, [none, some first.value]⟩ >>= second) =
          first := by simp [next, second, Traced.ext_iff]
      rw [zipMembers_of_any (by rw [tick_second_none]; rfl), tick_second_none]
      show pull (_ >>= second) (fun _ => zipMembers second [none, some fun _ => rest ()]) = _
      rw [ih]
      exact congrArg (pull · rest) hfirst

/-- A member without items, beside a run, causes its events at the first pull. -/
theorem zip_second (L : List ε) (t : Trace ε) : zip second [.ended L, t] = t.after L := by
  rw [zip, List.map_cons, List.map_cons, List.map_nil]
  cases t with
  | ended events =>
      rw [zipMembers_of_none (by rw [tick_second]; exact Bool.false_ne_true), tick_second]
      rfl
  | pull first rest =>
      have hfirst : (⟨L ++ (pull first rest).next.1.events, [none, some first.value]⟩ >>= second) =
          ⟨L ++ first.events, first.value⟩ := by simp [next, second, Traced.ext_iff]
      rw [zipMembers_of_any (by rw [tick_second]; rfl), tick_second]
      show pull (_ >>= second) (fun _ => zipMembers second [none, some fun _ => rest ()]) = _
      rw [zipMembers_second]
      exact congrArg (pull · rest) hfirst

end Trace

namespace Plan

/-- The plan beside a member that has no items: opening this member and pulling it makes notes. -/
def beside (opening first : List ε) (p : Plan ε) : Plan ε :=
  .zip Trace.second [.deferred opening ⟨first, []⟩, p]

theorem opening_beside (opening first : List ε) (p : Plan ε) :
    (p.beside opening first).opening = opening ++ p.opening :=
  congrArg (opening ++ ·) (List.append_nil p.opening)

theorem run_beside (opening first : List ε) (p : Plan ε) (m : Memory) :
    (p.beside opening first).run m = ((p.run m).1.after first, (p.run m).2) := by
  have hmember : (Plan.deferred opening ⟨first, []⟩).run m = (.ended (first ++ []), m) := rfl
  rw [beside, run, runAll, hmember, runAll, runAll, List.append_nil, Trace.zip_second]

theorem project_beside (f : ν → Option ε) (opening first : List ν) (p : Plan ν) :
    (p.beside opening first).project f =
      (p.project f).beside (opening.filterMap f) (first.filterMap f) := by
  have hsecond : (fun ys => (Trace.second ys).project f) = (Trace.second : _ → Traced ε Item) := by
    funext ys
    unfold Trace.second
    split <;> rfl
  rw [beside, project, hsecond]
  rfl

end Plan

/-! ### Notes of a memoized plan -/

/-- What is noted of the plan memoized in a cell: a run reaches it; it starts a run of its input; an
event happens in that run; and of all else, the events. -/
inductive Note (ε : Type) where
  | reached
  | started
  | inside (e : ε)
  | outside (e : ε)
  deriving DecidableEq, Repr

namespace Note

/-- The event, if it is one. -/
def event? : Note ε → Option ε
  | .reached | .started => none
  | .inside e | .outside e => some e

/-- The note, if it is about the memoized plan. -/
def note? : Note ε → Option (Note ε)
  | .outside _ => none
  | n => some n

end Note

namespace Plan

mutual

/-- The plan with notes of what is memoized in the cell. -/
def noted (cell : Nat) : Plan ε → Plan (Note ε)
  | .items xs => .items xs
  | .deferred opening result => .deferred (opening.map .outside) (result.label .outside)
  | .map f p => .map (fun x i => (f x i).label .outside) (noted cell p)
  | .filter keep p => .filter (fun x i => (keep x i).label .outside) (noted cell p)
  | .flatMap f p => .flatMap (fun x i => (f x i).label .outside) (noted cell p)
  | .takeUntil stop p => .takeUntil (fun x i => (stop x i).label .outside) (noted cell p)
  | .fold seed f p =>
    .fold (seed.label .outside) (fun acc x i => (f acc x i).label .outside) (noted cell p)
  | .collect f p => .collect f (noted cell p)
  | .zip combine members => .zip (fun ys => (combine ys).label .outside) (notedAll cell members)
  | .memoized other p =>
    if other = cell then
      beside [] [.reached] (.memoized cell (beside [.started] [] (p.project (some ∘ .inside))))
    else .memoized other (noted cell p)

/-- The members of a lockstep with notes. -/
def notedAll (cell : Nat) : List (Plan ε) → List (Plan (Note ε))
  | [] => []
  | p :: members => noted cell p :: notedAll cell members

end

variable (cell : Nat)

theorem notedAll_eq_map (members : List (Plan ε)) :
    notedAll cell members = members.map (noted cell) := by
  induction members with
  | nil => rfl
  | cons p members ih => rw [notedAll, ih, List.map_cons]

theorem noted_memoized (p : Plan ε) :
    (Plan.memoized cell p).noted cell = beside [] [.reached]
      (.memoized cell (beside [.started] [] (p.project (some ∘ .inside)))) := by
  rw [noted, if_pos rfl]

theorem noted_memoized_of_ne {other : Nat} (h : other ≠ cell) (p : Plan ε) :
    (Plan.memoized other p).noted cell = .memoized other (p.noted cell) := by
  rw [noted, if_neg h]

theorem openingAll_noted {members : List (Plan ε)}
    (h : ∀ p ∈ members, (p.noted cell).opening = p.opening.map .outside) :
    openingAll (members.map (noted cell)) = (openingAll members).map .outside := by
  induction members with
  | nil => rfl
  | cons p members ih =>
      obtain ⟨hp, hmembers⟩ := List.forall_mem_cons.mp h
      rw [List.map_cons, openingAll, openingAll, hp, ih hmembers, List.map_append]

/-- Opening a run of a plan never reaches what it memoizes. -/
theorem opening_noted (p : Plan ε) : (p.noted cell).opening = p.opening.map .outside := by
  induction p using Plan.induction with
  | items | deferred | fold | collect => rfl
  | map g p ih | filter g p ih | flatMap g p ih | takeUntil g p ih => exact ih
  | zip combine members ih =>
      rw [noted, opening, opening, notedAll_eq_map]
      exact openingAll_noted cell ih
  | memoized other p ih =>
      by_cases h : other = cell
      · subst h
        rw [noted_memoized]
        rfl
      · rw [noted_memoized_of_ne cell h]
        rfl

theorem opening_erased (p : Plan ε) :
    ((p.noted cell).project Note.event?).opening = p.opening := by
  rw [opening_project, opening_noted, List.filterMap_map]
  exact List.filterMap_some

theorem runAll_erased {members : List (Plan ε)}
    (h : ∀ p ∈ members, ∀ m, ((p.noted cell).project Note.event?).run m = p.run m) (m : Memory) :
    runAll ((members.map (noted cell)).map (project Note.event?)) m = runAll members m := by
  induction members generalizing m with
  | nil => rfl
  | cons p members ih =>
      obtain ⟨hp, hmembers⟩ := List.forall_mem_cons.mp h
      rw [List.map_cons, List.map_cons, runAll, hp, ih hmembers, runAll]

/-- The two members beside the memoized plan and its input make notes, and nothing else. -/
theorem run_erased_memoized (p : Plan ε) (m : Memory) :
    (((Plan.memoized cell p).noted cell).project Note.event?).run m =
      (Plan.memoized cell p).run m := by
  have hinside : ∀ t : Trace ε, (t.project (some ∘ Note.inside)).project Note.event? = t :=
    Trace.project_project fun _ => rfl
  have hinput : ((p.project (some ∘ Note.inside)).project Note.event?).run m = p.run m := by
    rw [run_project, run_project, hinside]
  have hopening : ((p.project (some ∘ Note.inside)).project Note.event?).opening = p.opening := by
    rw [opening_project, opening_project, List.filterMap_filterMap]
    exact List.filterMap_some
  rw [noted_memoized, project_beside, run_beside, project, project_beside]
  cases h : m.get? cell with
  | some xs =>
      rw [run_memoized_of_filled h, run_memoized_of_filled h]
      exact congrArg (·, m) (Trace.after_nil _)
  | none =>
      rw [run_memoized_of_empty h, run_memoized_of_empty h, run_beside, opening_beside, hinput,
        hopening, List.filterMap_nil, Trace.after_nil]
      exact congrArg (·, _) (Trace.after_nil _)

/-- **Without the notes, the runs are the same.** -/
theorem run_erased (p : Plan ε) (m : Memory) :
    ((p.noted cell).project Note.event?).run m = p.run m := by
  have hlabel : ∀ {α : Type} (x : Traced ε α),
      (x.label Note.outside).project Note.event? = x := Traced.project_label fun _ => rfl
  induction p using Plan.induction generalizing m with
  | items xs => rfl
  | deferred opening result => rw [noted, project, hlabel, run, run]
  | map f p ih => rw [noted, project, run, run, ih]; simp only [hlabel]
  | filter keep p ih => rw [noted, project, run, run, ih]; simp only [hlabel]
  | flatMap f p ih => rw [noted, project, run, run, ih]; simp only [hlabel]
  | takeUntil stop p ih => rw [noted, project, run, run, ih]; simp only [hlabel]
  | fold seed f p ih =>
      rw [noted, project, run, run, ih, opening_erased]
      simp only [hlabel]
  | collect f p ih => rw [noted, project, run, run, ih, opening_erased]
  | zip combine members ih =>
      rw [noted, project, run, run, notedAll_eq_map, projectAll_eq_map, runAll_erased cell ih]
      simp only [hlabel]
  | memoized other p ih =>
      by_cases hother : other = cell
      · subst hother
        exact run_erased_memoized other p m
      · rw [noted_memoized_of_ne cell hother, project]
        cases h : m.get? other with
        | some xs => rw [run_memoized_of_filled h, run_memoized_of_filled h]
        | none =>
            rw [run_memoized_of_empty h, run_memoized_of_empty h, ih, opening_erased]

/-! ### One run of the input -/

/-- What is memoized in the cell is `s`, wherever the plan reaches it. -/
inductive Over (cell : Nat) (s : Plan ε) : Plan ε → Prop where
  | items (xs : List Item) : Over cell s (.items xs)
  | deferred (opening : List ε) (result : Traced ε (List Item)) :
      Over cell s (.deferred opening result)
  | map (f : Item → Nat → Traced ε Item) {p : Plan ε} (h : Over cell s p) : Over cell s (.map f p)
  | filter (keep : Item → Nat → Traced ε Bool) {p : Plan ε} (h : Over cell s p) :
      Over cell s (.filter keep p)
  | flatMap (f : Item → Nat → Traced ε (List Item)) {p : Plan ε} (h : Over cell s p) :
      Over cell s (.flatMap f p)
  | takeUntil (stop : Item → Nat → Traced ε Bool) {p : Plan ε} (h : Over cell s p) :
      Over cell s (.takeUntil stop p)
  | fold (seed : Traced ε Item) (f : Item → Item → Nat → Traced ε Item) {p : Plan ε}
      (h : Over cell s p) : Over cell s (.fold seed f p)
  | collect (f : List Item → Item) {p : Plan ε} (h : Over cell s p) : Over cell s (.collect f p)
  | zip (combine : List (Option Item) → Traced ε Item) {members : List (Plan ε)}
      (h : ∀ p ∈ members, Over cell s p) : Over cell s (.zip combine members)
  | other {other : Nat} (hne : other ≠ cell) {p : Plan ε} (h : Over cell s p) :
      Over cell s (.memoized other p)
  | this : Over cell s (.memoized cell s)

/-- What is noted when the memoized plan is reached and its cell is empty: a run of the input is
started, opened and pulled to its end. -/
def wholeRun (s : Plan ε) (m : Memory) : List (Note ε) :=
  .reached :: .started :: (s.opening ++ (s.run m).1.events).map .inside

/-- What can be noted of a memoized plan while the memory goes from `m` to `m'`.  Its cell stays as
it is, and if it is empty, the plan was not reached; or its cell is filled by one whole run of the
input, begun when the plan was first reached. -/
inductive Passage (cell : Nat) (s : Plan ε) (m m' : Memory) : List (Note ε) → Prop where
  | quiet (n : Nat) (hcell : m'.get? cell = m.get? cell)
      (hn : n = 0 ∨ ∃ xs, m.get? cell = some xs) :
      Passage cell s m m' (List.replicate n .reached)
  | first (m₀ : Memory) (n : Nat) (hempty : m.get? cell = none) (hkept : m.Kept m₀)
      (hfilled : m'.get? cell = some (s.run m₀).1.items) :
      Passage cell s m m' (wholeRun s m₀ ++ List.replicate n .reached)

namespace Passage

variable {cell : Nat} {s : Plan ε} {m m₁ m' : Memory} {L K : List (Note ε)}

theorem refl (cell : Nat) (s : Plan ε) (m : Memory) : Passage cell s m m [] :=
  .quiet 0 rfl (.inl rfl)

/-- **One passage behind the other.**  A cell is filled in one of them at most. -/
theorem trans (hL : Passage cell s m m₁ L) (hK : Passage cell s m₁ m' K) (hm : m.Kept m₁) :
    Passage cell s m m' (L ++ K) := by
  cases hL with
  | quiet n hcell hn =>
      cases hK with
      | quiet n' hcell' hn' =>
          rw [List.replicate_append_replicate]
          refine .quiet _ (hcell'.trans hcell) ?_
          rw [hcell] at hn'
          obtain rfl | hfilled := hn
          · rw [Nat.zero_add]
            exact hn'
          · exact .inr hfilled
      | first m₀ n' hempty hkept hfilled =>
          rw [hcell] at hempty
          obtain rfl : n = 0 := hn.resolve_right fun ⟨xs, hxs⟩ => by
            rw [hempty] at hxs
            cases hxs
          exact .first m₀ n' hempty (hm.trans hkept) hfilled
  | first m₀ n hempty hkept hfilled =>
      cases hK with
      | quiet n' hcell' hn' =>
          rw [List.append_assoc, List.replicate_append_replicate]
          exact .first m₀ _ hempty hkept (hcell'.trans hfilled)
      | first m₀' n' hempty' _ _ =>
          rw [hfilled] at hempty'
          cases hempty'

/-- Another cell is filled behind the passage. -/
theorem keep (h : Passage cell s m m' L) {other : Nat} (hne : other ≠ cell) (xs : List Item) :
    Passage cell s m (m'.keep other xs) L := by
  have hget := Memory.get?_keep_of_ne m' hne.symm xs
  cases h with
  | quiet n hcell hn => exact .quiet n (hget.trans hcell) hn
  | first m₀ n hempty hkept hfilled => exact .first m₀ n hempty hkept (hget.trans hfilled)

/-- A filled cell is only read. -/
theorem of_filled (h : Passage cell s m m' L) {xs : List Item} (hfilled : m.get? cell = some xs) :
    ∃ n, L = List.replicate n .reached := by
  cases h with
  | quiet n _ _ => exact ⟨n, rfl⟩
  | first m₀ n hempty _ _ =>
      rw [hfilled] at hempty
      cases hempty

/-- An empty cell is not reached, or filled. -/
theorem of_empty (h : Passage cell s m m' L) (hempty : m.get? cell = none) :
    (L = [] ∧ m'.get? cell = none) ∨
      ∃ m₀ n, m.Kept m₀ ∧ m'.get? cell = some (s.run m₀).1.items ∧
        L = wholeRun s m₀ ++ List.replicate n .reached := by
  cases h with
  | quiet n hcell hn =>
      obtain rfl : n = 0 := hn.resolve_right fun ⟨xs, hxs⟩ => by
        rw [hempty] at hxs
        cases hxs
      exact .inl ⟨rfl, hcell.trans hempty⟩
  | first m₀ n _ hkept hfilled => exact .inr ⟨m₀, n, hkept, hfilled, rfl⟩

end Passage

/-- The plan with the notes alone, without the events of its own functions. -/
def marks (cell : Nat) (p : Plan ε) : Plan (Note ε) := (p.noted cell).project Note.note?

/-- The first pull of a run is the passage, and nothing is noted behind it. -/
def Passes (cell : Nat) (s : Plan ε) (m : Memory) (r : Trace (Note ε) × Memory) : Prop :=
  ∃ L, r.1.Fronted L ∧ Passage cell s m r.2 L

theorem opening_marks (p : Plan ε) : (p.marks cell).opening = [] := by
  rw [marks, opening_project, opening_noted, List.filterMap_map, List.filterMap_eq_nil_iff]
  exact fun _ _ => rfl

theorem passes_runAll {s : Plan ε} {members : List (Plan ε)}
    (h : ∀ p ∈ members, ∀ m, Passes cell s m ((p.marks cell).run m)) (m : Memory) :
    ∃ L, Trace.AllFronted L (runAll (members.map (marks cell)) m).1 ∧
      Passage cell s m (runAll (members.map (marks cell)) m).2 L := by
  induction members generalizing m with
  | nil => exact ⟨[], .nil, .refl cell s m⟩
  | cons p members ih =>
      obtain ⟨hp, hmembers⟩ := List.forall_mem_cons.mp h
      obtain ⟨L, hfirst, hpassage⟩ := hp m
      obtain ⟨K, hrest, hpassages⟩ := ih hmembers ((p.marks cell).run m).2
      exact ⟨L ++ K, .cons hfirst hrest, hpassage.trans hpassages (run_kept _ m)⟩

/-- The memoized plan runs its input when it is reached and its cell is empty. -/
theorem run_marks_of_empty {m : Memory} (h : m.get? cell = none) (s : Plan ε) :
    ((Plan.memoized cell s).marks cell).run m =
      (.burst ⟨wholeRun s m, (s.run m).1.items⟩, (s.run m).2.keep cell (s.run m).1.items) := by
  have hinside : ∀ events : List ε,
      (events.filterMap (some ∘ Note.inside)).filterMap Note.note? = events.map .inside := by
    intro events
    rw [List.filterMap_filterMap]
    exact congrFun List.filterMap_eq_map events
  rw [marks, noted_memoized, project_beside, run_beside, project, project_beside,
    run_memoized_of_empty h, run_beside, opening_beside, run_project, run_project,
    opening_project, opening_project, hinside, List.filterMap_nil, Trace.after_nil,
    Trace.collect_eq, Trace.events_project, Trace.events_project, hinside, Trace.items_project,
    Trace.items_project, Trace.after_burst, wholeRun, List.map_append]
  rfl

/-- The memoized plan hands out what its cell keeps. -/
theorem run_marks_of_filled {m : Memory} {xs : List Item} (h : m.get? cell = some xs)
    (s : Plan ε) :
    ((Plan.memoized cell s).marks cell).run m = ((Trace.ofItems xs).after [.reached], m) := by
  rw [marks, noted_memoized, project_beside, run_beside, project, run_memoized_of_filled h]
  rfl

/-- **A run of a plan over `s`.**  All that it notes is a passage, at its first pull. -/
theorem Over.passes {s p : Plan ε} (h : Over cell s p) (m : Memory) :
    Passes cell s m ((p.marks cell).run m) := by
  -- the functions of the plan make no notes, so what is noted of a derived run is what is noted of
  -- the run it is derived from
  have hsilent : ∀ {α : Type} (x : Traced ε α),
      ((x.label Note.outside).project Note.note?).events = [] :=
    Traced.events_project_label fun _ => rfl
  induction h generalizing m with
  | items xs => exact ⟨[], (Trace.still_ofItems xs).fronted, .refl cell s m⟩
  | deferred opening result =>
      refine ⟨[], ?_, .refl cell s m⟩
      rw [marks, noted, project, run]
      exact Trace.fronted_burst (hsilent result)
  | map f h ih =>
      obtain ⟨L, hfronted, hpassage⟩ := ih m
      exact ⟨L, hfronted.mapFrom (fun x i => hsilent (f x i)) 0, hpassage⟩
  | filter keep h ih =>
      obtain ⟨L, hfronted, hpassage⟩ := ih m
      exact ⟨L, hfronted.filterFrom (fun x i => hsilent (keep x i)) 0, hpassage⟩
  | flatMap f h ih =>
      obtain ⟨L, hfronted, hpassage⟩ := ih m
      exact ⟨L, hfronted.flatMapFrom (fun x i => hsilent (f x i)) 0, hpassage⟩
  | takeUntil stop h ih =>
      obtain ⟨L, hfronted, hpassage⟩ := ih m
      exact ⟨L, hfronted.takeUntilFrom (fun x i => hsilent (stop x i)) 0, hpassage⟩
  | @fold seed f p h ih =>
      obtain ⟨L, hfronted, hpassage⟩ := ih m
      have hmarks : (Plan.fold seed f p).marks cell = .fold _ _ (p.marks cell) := rfl
      have hfold := Trace.events_foldFrom fun acc x i => hsilent (f acc x i)
      rw [hmarks, run, opening_marks]
      refine ⟨L, ?_, hpassage⟩
      dsimp only
      refine Trace.fronted_burst ?_
      simp only [Traced.events_bind, Traced.events_pure, hsilent, Trace.fold, hfold,
        hfronted.events, List.append_nil]
      rfl
  | @collect f p h ih =>
      obtain ⟨L, hfronted, hpassage⟩ := ih m
      have hmarks : (Plan.collect f p).marks cell = .collect f (p.marks cell) := rfl
      rw [hmarks, run, opening_marks]
      refine ⟨L, ?_, hpassage⟩
      dsimp only
      refine Trace.fronted_burst ?_
      simp only [Traced.events_bind, Traced.events_pure, Trace.collect_eq, hfronted.events,
        List.append_nil]
      rfl
  | zip combine h ih =>
      obtain ⟨L, hfronted, hpassage⟩ := passes_runAll cell ih m
      rw [marks, noted, project, run, notedAll_eq_map, projectAll_eq_map, List.map_map]
      exact ⟨L, hfronted.zip fun ys => hsilent (combine ys), hpassage⟩
  | @other other hne p h ih =>
      have hmarks : (Plan.memoized other p).marks cell = .memoized other (p.marks cell) := by
        rw [marks, noted_memoized_of_ne cell hne]
        rfl
      rw [hmarks]
      cases hcell : m.get? other with
      | some xs =>
          rw [run_memoized_of_filled hcell]
          exact ⟨[], (Trace.still_ofItems xs).fronted, .refl cell s m⟩
      | none =>
          obtain ⟨L, hfronted, hpassage⟩ := ih m
          rw [run_memoized_of_empty hcell, opening_marks, Trace.collect_eq, hfronted.events]
          exact ⟨L, Trace.fronted_burst rfl, hpassage.keep hne _⟩
  | this =>
      cases h : m.get? cell with
      | some xs =>
          rw [run_marks_of_filled cell h]
          exact ⟨[.reached], (Trace.still_ofItems xs).after _, .quiet 1 rfl (.inr ⟨xs, h⟩)⟩
      | none =>
          rw [run_marks_of_empty cell h]
          refine ⟨wholeRun s m ++ [], Trace.fronted_burst (List.append_nil _).symm, ?_⟩
          exact .first m 0 h (.refl m) (Memory.get?_keep_self ..)

theorem run_noted (p : Plan ε) (m : Memory) :
    ((p.noted cell).run m).1.project Note.event? = (p.run m).1 ∧
      ((p.noted cell).run m).2 = (p.run m).2 := by
  rw [← run_erased cell p m, run_project]
  exact ⟨rfl, rfl⟩

end Plan

/-! ### Runs side by side with notes -/

namespace Stream

/-- A run with notes, and the same run without. -/
inductive Noted (cell : Nat) (s : Plan ε) : Stream (Note ε) → Stream ε → Prop where
  | waiting {p : Plan ε} (h : Plan.Over cell s p) :
      Noted cell s (.waiting (p.noted cell)) (.waiting p)
  | running {rest' : Unit → Trace (Note ε)} {rest : Unit → Trace ε}
      (hevents : (rest' ()).project Note.event? = rest ())
      (hnotes : ((rest' ()).project Note.note?).Still) :
      Noted cell s (.running rest') (.running rest)
  | ended : Noted cell s .ended .ended

variable {cell : Nat} {s : Plan ε}

theorem noted_ofRest (cell : Nat) (s : Plan ε) {t' : Trace (Note ε)} {t : Trace ε}
    {L : List (Note ε)} (hevents : t'.project Note.event? = t)
    (hnotes : (t'.project Note.note?).Fronted L) :
    t'.next.1.project Note.event? = t.next.1 ∧ t'.next.1.events.filterMap Note.note? = L ∧
      Noted cell s (ofRest t'.next.2) (ofRest t.next.2) := by
  subst hevents
  obtain ⟨hfirst, hrest⟩ := hnotes.next
  rw [Trace.next_project] at hfirst hrest ⊢
  refine ⟨rfl, hfirst, ?_⟩
  cases t' with
  | ended events => exact .ended
  | pull first rest => exact .running rfl (hrest _ rfl)

/-- **A pull.**  Without the notes it is the pull of the run without; its notes are a passage. -/
theorem Noted.next {s' : Stream (Note ε)} {s₀ : Stream ε} (h : Noted cell s s' s₀) (m : Memory) :
    (s'.next m).1.project Note.event? = (s₀.next m).1 ∧
      (s'.next m).2.2 = (s₀.next m).2.2 ∧
      Noted cell s (s'.next m).2.1 (s₀.next m).2.1 ∧
      Plan.Passage cell s m (s₀.next m).2.2 ((s'.next m).1.events.filterMap Note.note?) := by
  cases h with
  | @waiting p h =>
      obtain ⟨L, hfronted, hpassage⟩ := h.passes cell m
      rw [Plan.marks, Plan.run_project] at hfronted hpassage
      obtain ⟨hevents, hmemory⟩ := Plan.run_noted cell p m
      obtain ⟨hfirst, hnotes, hrest⟩ := noted_ofRest cell s hevents hfronted
      rw [hmemory] at hpassage
      exact ⟨hfirst, hmemory, hrest, hnotes ▸ hpassage⟩
  | running hevents hnotes =>
      obtain ⟨hfirst, hnotes, hrest⟩ := noted_ofRest cell s hevents hnotes.fronted
      exact ⟨hfirst, rfl, hrest, hnotes ▸ .refl cell s m⟩
  | ended => exact ⟨rfl, rfl, .ended, .refl cell s m⟩

end Stream

/-- The turn on a desk with notes. -/
def Turn.noted (cell : Nat) : Turn ε → Turn (Note ε)
  | .opening sequence => .opening ⟨sequence.handle, sequence.plan.noted cell⟩
  | .pull number => .pull number

namespace Desk

/-- The answers of turns that are taken one after the other. -/
def answers (d : Desk ε) : List (Turn ε) → List (Traced ε (Option Item))
  | [] => []
  | turn :: turns => (d.take turn).1 :: answers (d.take turn).2 turns

/-- A desk with notes, and the same desk without. -/
structure Noted (cell : Nat) (s : Plan ε) (d' : Desk (Note ε)) (d : Desk ε) : Prop where
  memory : d'.memory = d.memory
  streams : List.Forall₂ (Stream.Noted cell s) d'.streams d.streams

section Pairs

variable {α β : Type} {R : α → β → Prop} {xs : List α} {ys : List β}

theorem getElem?_of_forall₂ (h : List.Forall₂ R xs ys) (n : Nat) :
    (xs[n]? = none ∧ ys[n]? = none) ∨ ∃ x y, xs[n]? = some x ∧ ys[n]? = some y ∧ R x y := by
  induction h generalizing n with
  | nil => exact .inl ⟨rfl, rfl⟩
  | cons hxy _ ih =>
      cases n with
      | zero => exact .inr ⟨_, _, rfl, rfl, hxy⟩
      | succ n => exact ih n

theorem forall₂_set (h : List.Forall₂ R xs ys) {x : α} {y : β} (hxy : R x y) (n : Nat) :
    List.Forall₂ R (xs.set n x) (ys.set n y) := by
  induction h generalizing n with
  | nil => exact .nil
  | cons hhead htail ih =>
      cases n with
      | zero => exact .cons hxy htail
      | succ n => exact .cons hhead (ih n)

end Pairs

namespace Noted

variable {cell : Nat} {s : Plan ε} {d' : Desk (Note ε)} {d : Desk ε}

/-- Opening a run notes nothing. -/
theorem opening (h : Noted cell s d' d) {sequence : Sequence ε}
    (hover : Plan.Over cell s sequence.plan) :
    let noted := d'.take (Turn.noted cell (.opening sequence))
    let plain := d.take (.opening sequence)
    noted.1.project Note.event? = plain.1 ∧ noted.1.events.filterMap Note.note? = [] ∧
      Noted cell s noted.2 plain.2 := by
  intro noted plain
  have hnoted : noted.1.events = sequence.plan.opening.map .outside :=
    (Traced.events_map _ _).trans (Plan.opening_noted cell sequence.plan)
  have hplain : plain.1.events = sequence.plan.opening := Traced.events_map _ _
  refine ⟨Traced.ext ?_ rfl, ?_, h.memory, List.rel_append h.streams (.cons (.waiting hover) .nil)⟩
  · show noted.1.events.filterMap Note.event? = plain.1.events
    rw [hnoted, hplain, List.filterMap_map]
    exact List.filterMap_some
  · rw [hnoted, List.filterMap_map, List.filterMap_eq_nil_iff]
    exact fun _ _ => rfl

/-- A pull answers what it does without the notes, and the notes are a passage. -/
theorem pull (h : Noted cell s d' d) (number : Nat) :
    let noted := d'.take (.pull number)
    let plain := d.take (.pull number)
    noted.1.project Note.event? = plain.1 ∧
      Plan.Passage cell s d.memory plain.2.memory (noted.1.events.filterMap Note.note?) ∧
      Noted cell s noted.2 plain.2 := by
  intro noted plain
  obtain ⟨hs', hs⟩ | ⟨stream', stream, hs', hs, hstream⟩ := getElem?_of_forall₂ h.streams number
  · have hnoted : noted = (pure none, d') := by simp only [noted, take, hs']
    have hplain : plain = (pure none, d) := by simp only [plain, take, hs]
    rw [hnoted, hplain]
    exact ⟨rfl, .refl cell s _, h⟩
  · obtain ⟨hevents, hmemory, hrest, hpassage⟩ := hstream.next d.memory
    have hnoted : noted = _ := take_pull hs'
    have hplain : plain = _ := take_pull hs
    rw [hnoted, hplain, h.memory]
    exact ⟨hevents, hpassage, hmemory, forall₂_set h.streams hrest number⟩

end Noted

/-! ### Turns -/

/-- What each answer notes of the memoized plan. -/
def notes (answers : List (Traced (Note ε) (Option Item))) : List (List (Note ε)) :=
  answers.map fun answer => answer.events.filterMap Note.note?

/-- What turns note of a memoized plan whose cell is empty before them: nothing, and the cell is
empty still; or nothing up to the pull that first reaches it, in this pull one whole run of the
input, whose items are kept for good, and behind that no more than that it is reached again. -/
inductive RunsOnce (cell : Nat) (s : Plan ε) (d : Desk ε) (turns : List (Turn ε)) :
    List (List (Note ε)) → Prop where
  | never (hempty : (d.after turns).memory.get? cell = none) :
      RunsOnce cell s d turns (List.replicate turns.length [])
  | once (before : List (Turn ε)) (number : Nat) (behind : List (Turn ε))
      (hturns : turns = before ++ .pull number :: behind) (m : Memory)
      (hkept : (d.after before).memory.Kept m)
      (hfilled : (d.after turns).memory.get? cell = some (s.run m).1.items)
      (n : Nat) (later : List (List (Note ε)))
      (hlater : ∀ l ∈ later, ∃ n, l = List.replicate n .reached) :
      RunsOnce cell s d turns
        (List.replicate before.length [] ++
          (Plan.wholeRun s m ++ List.replicate n .reached) :: later)

/-- A turn that notes nothing. -/
theorem RunsOnce.cons {cell : Nat} {s : Plan ε} {d : Desk ε} {turn : Turn ε}
    {turns : List (Turn ε)} {later : List (List (Note ε))}
    (h : RunsOnce cell s (d.take turn).2 turns later) :
    RunsOnce cell s d (turn :: turns) ([] :: later) := by
  cases h with
  | never hempty => exact .never hempty
  | once before number behind hturns m hkept hfilled n later hlater =>
      exact .once (turn :: before) number behind (congrArg (turn :: ·) hturns) m hkept hfilled n
        later hlater

namespace Noted

variable {cell : Nat} {s : Plan ε} {d' : Desk (Note ε)} {d : Desk ε} {turns : List (Turn ε)}

/-- Without the notes, the answers are the same. -/
theorem project_answers (h : Noted cell s d' d)
    (hover : ∀ q, .opening q ∈ turns → Plan.Over cell s q.plan) :
    (d'.answers (turns.map (Turn.noted cell))).map (Traced.project Note.event?) =
      d.answers turns := by
  induction turns generalizing d' d with
  | nil => rfl
  | cons turn turns ih =>
      have hturns : ∀ q, .opening q ∈ turns → Plan.Over cell s q.plan :=
        fun q hq => hover q (List.mem_cons_of_mem turn hq)
      rw [List.map_cons, answers, answers, List.map_cons]
      cases turn with
      | opening q =>
          obtain ⟨hanswer, -, hnoted⟩ := h.opening (hover q List.mem_cons_self)
          rw [hanswer, ih hnoted hturns]
      | pull number =>
          obtain ⟨hanswer, -, hnoted⟩ := h.pull number
          rw [Turn.noted, hanswer, ih hnoted hturns]

/-- **Once the cell is filled, no run of the input is started.** -/
theorem notes_of_filled (h : Noted cell s d' d)
    (hover : ∀ q, .opening q ∈ turns → Plan.Over cell s q.plan) {xs : List Item}
    (hfilled : d.memory.get? cell = some xs) :
    ∀ l ∈ notes (d'.answers (turns.map (Turn.noted cell))),
      ∃ n, l = List.replicate n .reached := by
  induction turns generalizing d' d with
  | nil => exact List.forall_mem_nil _
  | cons turn turns ih =>
      have hturns : ∀ q, .opening q ∈ turns → Plan.Over cell s q.plan :=
        fun q hq => hover q (List.mem_cons_of_mem turn hq)
      have hstill := d.take_kept turn cell xs hfilled
      rw [List.map_cons, answers, notes, List.map_cons]
      refine List.forall_mem_cons.mpr ?_
      cases turn with
      | opening q =>
          obtain ⟨-, hnotes, hnoted⟩ := h.opening (hover q List.mem_cons_self)
          exact ⟨⟨0, hnotes⟩, ih hnoted hturns hstill⟩
      | pull number =>
          obtain ⟨-, hpassage, hnoted⟩ := h.pull number
          exact ⟨hpassage.of_filled hfilled, ih hnoted hturns hstill⟩

/-- **One run of the input at most.** -/
theorem runsOnce (h : Noted cell s d' d)
    (hover : ∀ q, .opening q ∈ turns → Plan.Over cell s q.plan)
    (hempty : d.memory.get? cell = none) :
    RunsOnce cell s d turns (notes (d'.answers (turns.map (Turn.noted cell)))) := by
  induction turns generalizing d' d with
  | nil => exact .never hempty
  | cons turn turns ih =>
      have hturns : ∀ q, .opening q ∈ turns → Plan.Over cell s q.plan :=
        fun q hq => hover q (List.mem_cons_of_mem turn hq)
      rw [List.map_cons, answers, notes, List.map_cons]
      cases turn with
      | opening q =>
          obtain ⟨-, hnotes, hnoted⟩ := h.opening (hover q List.mem_cons_self)
          rw [hnotes]
          exact (ih hnoted hturns hempty).cons
      | pull number =>
          obtain ⟨-, hpassage, hnoted⟩ := h.pull number
          obtain ⟨hnotes, hstill⟩ | ⟨m, n, hkept, hfilled, hnotes⟩ := hpassage.of_empty hempty
          · rw [Turn.noted, hnotes]
            exact (ih hnoted hturns hstill).cons
          · rw [Turn.noted, hnotes]
            exact .once [] number turns rfl m hkept (after_kept _ turns cell _ hfilled) n _
              (hnoted.notes_of_filled hturns hfilled)

end Noted

/-- **A memoized plan is run once.**  Let `s` be what is memoized in a cell, wherever the plans of
the sequences reach it on which runs are opened, and let any turns be taken: any number of runs
opened, pulled in any order, and given up at any time.  A pull is one step, over before the next
begins, also where a tick of a lockstep pulls several members (`Plan.runAll`).

* Noting what happens to the memoized plan changes no answer.
* Either the plan is not reached at all; or the pull that first reaches it starts one run of `s`,
  and it is opened and pulled to its end in this pull.  No turn before and behind this pull starts
  a run of `s`, and no event happens in one.
* Every run yields the items of its plan, with the items that are kept in the end in place of what
  it memoizes.  A run of the memoized plan itself yields what its cell keeps: the items of the one
  run of `s`. -/
theorem memoized_once {cell : Nat} {s : Plan ε} {turns : List (Turn ε)}
    (h : ∀ q, .opening q ∈ turns → Plan.Over cell s q.plan) :
    let noted := answers {} (turns.map (Turn.noted cell))
    let last := (after {} turns).memory
    noted.map (Traced.project Note.event?) = answers {} turns ∧
    RunsOnce cell s {} turns (notes noted) ∧
    ∀ before q between behind,
      let d : Desk ε := after {} before
      let number := d.streams.length
      let pull := ((d.take (.opening q)).2.after between).take (.pull number)
      let k := between.countP (·.pulls number)
      turns = before ++ .opening q :: (between ++ .pull number :: behind) →
        pull.1.value = (q.plan.settle last).listing[k]? ∧
        (q.plan = .memoized cell s → ∃ xs, last.get? cell = some xs ∧ pull.1.value = xs[k]?) := by
  intro noted last
  have hstart : Noted cell s {} {} := ⟨rfl, .nil⟩
  refine ⟨hstart.project_answers h, hstart.runsOnce h rfl, ?_⟩
  intro before q between behind d number pull k hturns
  have hlast : pull.2.memory.Kept last := by
    have hafter : after {} turns = pull.2.after behind := by
      rw [hturns, after, List.foldl_append, List.foldl_cons, List.foldl_append, List.foldl_cons]
      rfl
    show pull.2.memory.Kept (after {} turns).memory
    rw [hafter]
    exact pull.2.after_kept behind
  exact ⟨value_of_settle d q between hlast, fun hq => value_of_memoized d q between hq hlast⟩

/-- Two items that are looked at on the way. -/
def lookedAt : Plan Nat := .map (fun x i => ⟨[i], x⟩) (.items [.value .null, .value (.bool true)])

/-- A lockstep over one memoized plan, taken whole and up to its second item. -/
def twice : Plan Nat :=
  .zip (fun _ => ⟨[7], .value .null⟩)
    [.memoized 0 lookedAt, .takeUntil (fun _ i => ⟨[10 + i], i == 1⟩) (.memoized 0 lookedAt)]

/-- A run of a memoized plan is given up behind its first pull; a lockstep over the plan and another
run of it follow. -/
def sharing : List (Turn Nat) :=
  [.opening ⟨0, .memoized 0 lookedAt⟩, .pull 0, .opening ⟨1, twice⟩, .pull 1,
    .opening ⟨2, .memoized 0 lookedAt⟩, .pull 2, .pull 2]

theorem over_sharing : ∀ q, .opening q ∈ sharing → Plan.Over 0 lookedAt q.plan := by
  have htwice : Plan.Over 0 lookedAt twice :=
    .zip _ (List.forall_mem_cons.mpr
      ⟨.this, List.forall_mem_singleton.mpr (.takeUntil _ .this)⟩)
  intro q hq
  simp only [sharing, List.mem_cons, Turn.opening.injEq, reduceCtorEq, List.not_mem_nil, or_false,
    false_or] at hq
  obtain rfl | rfl | rfl := hq
  · exact .this
  · exact htwice
  · exact .this

/-- The items are looked at in the first pull alone; the second pull of the last run yields the
second of those that are kept. -/
theorem memoized_once_sharing :
    (∀ q, .opening q ∈ sharing → Plan.Over 0 lookedAt q.plan) ∧
      ((answers {} (sharing.map (Turn.noted 0))).map (Traced.project Note.event?)).map (·.events) =
        [[], [0, 1], [], [10, 7], [], [], []] ∧
      ∃ xs, (after {} sharing).memory.get? 0 = some xs ∧
        ((after {} (sharing.take 6)).take (.pull 2)).1.value = xs[1]? := by
  have honce := memoized_once over_sharing
  refine ⟨over_sharing, ?_, ?_⟩
  · rw [honce.1]
    decide +kernel
  · exact (honce.2.2 (sharing.take 4) ⟨2, .memoized 0 lookedAt⟩ [.pull 2] [] rfl).2 rfl

end Desk

/-! ### Sessions -/

namespace Session

/-- The session behind some requests. -/
def behind (session : Session) (requests : List Request) : Session :=
  requests.foldl (fun session request => (session.perform request).2) session

/-- What is memoized in the cell is `s`, in every slot of the session. -/
def Over (cell : Nat) (s : Plan Probe) (session : Session) : Prop :=
  ∀ name, Plan.Over cell s (session.slot name).plan

theorem slot_put (session : Session) (target : String) (sequence : Sequence Probe)
    (name : String) :
    ({ session with slots := put target sequence session.slots } : Session).slot name =
      if name = target then sequence else session.slot name := by
  rw [slot, lookup_put]
  split <;> rfl

theorem nextHandle_le_perform (session : Session) (request : Request) :
    session.nextHandle ≤ (session.perform request).2.nextHandle := by
  cases request <;> first | exact Nat.le_refl _ | exact Nat.le_succ _

theorem nextHandle_le_behind (session : Session) (requests : List Request) :
    session.nextHandle ≤ (session.behind requests).nextHandle := by
  induction requests generalizing session with
  | nil => exact Nat.le_refl _
  | cons request requests ih => exact Nat.le_trans (session.nextHandle_le_perform request) (ih _)

namespace Over

variable {cell : Nat} {s : Plan Probe} {session : Session}

theorem put (h : Over cell s session) (sequence : Sequence Probe)
    (hplan : Plan.Over cell s sequence.plan) (target : String) :
    Over cell s { session with slots := Session.put target sequence session.slots } := by
  intro name
  rw [slot_put]
  split
  · exact hplan
  · exact h name

theorem store (h : Over cell s session) {plan : Plan Probe} (hplan : Plan.Over cell s plan)
    (target : String) : Over cell s (session.store target plan) :=
  h.put ⟨session.nextHandle, plan⟩ hplan target

/-- **One request.**  A plan is built on those in the slots, and memoized in a cell that was not
given out before. -/
theorem perform (h : Over cell s session) {request : Request}
    (hcell : (session.perform request).2.nextHandle ≤ cell ∨ cell < session.nextHandle) :
    Over cell s (session.perform request).2 := by
  cases request with
  | empty target => exact h.store (.items []) target
  | items target xs => exact h.store (.items xs) target
  | copy source target => exact h.put (session.slot source) (h source) target
  | fresh source target => exact h.store (h source) target
  | memo source target =>
      have hne : session.nextHandle ≠ cell := by
        obtain hle | hlt := hcell
        · exact Nat.ne_of_lt hle
        · exact Nat.ne_of_gt hlt
      exact h.store (.other hne (h source)) target
  | deferred target xs => exact h.store (.deferred _ _) target
  | map source target expr => exact h.store (.map _ (h source)) target
  | filter source target expr => exact h.store (.filter _ (h source)) target
  | flatMap source target expr => exact h.store (.flatMap _ (h source)) target
  | takeUntil source target expr => exact h.store (.takeUntil _ (h source)) target
  | zip sources target =>
      exact h.store (.zip _ (List.forall_mem_map.mpr fun name _ => h name)) target
  | same | collect | reduce | openStream | next => exact h

/-- **Any requests.** -/
theorem behind (h : Over cell s session) {requests : List Request}
    (hcell : (session.behind requests).nextHandle ≤ cell ∨ cell < session.nextHandle) :
    Over cell s (session.behind requests) := by
  induction requests generalizing session with
  | nil => exact h
  | cons request requests ih =>
      have hfirst := session.nextHandle_le_perform request
      have hrest := (session.perform request).2.nextHandle_le_behind requests
      refine ih (h.perform ?_) ?_
      · exact hcell.imp_left (Nat.le_trans hrest)
      · exact hcell.imp_right (Nat.lt_of_lt_of_le · hfirst)

end Over

/-- **A plan that a session memoizes has a cell of its own**, whatever is asked for before and
behind it. -/
theorem over_memo (earlier later : List Request) (source target : String) :
    let before := behind {} earlier
    Over before.nextHandle (before.slot source).plan
      (behind {} (earlier ++ .memo source target :: later)) := by
  intro before
  have hstart : Over before.nextHandle (before.slot source).plan {} := fun _ => .items []
  have hbefore : Over before.nextHandle (before.slot source).plan before :=
    hstart.behind (.inl (Nat.le_refl _))
  have hmemo := hbefore.store .this target
  rw [behind, List.foldl_append, List.foldl_cons]
  exact hmemo.behind (.inr (Nat.lt_succ_self _))

end Session

end Pipeline
