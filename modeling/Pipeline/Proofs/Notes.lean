import Pipeline.Proofs.Cells

/-!
# Notes — runs with notes among their events

To say who was pulled, and through whom an event happened, a run is looked at with notes among its
events.  A note is nothing that happens: taken out again, it leaves the run that was there before
(`Traced.project`, `Trace.project`).

Taking notes out goes through every operation on runs: what is left of a run that was derived is
derived from what is left, by functions of which the same is left (`project_mapFrom` and so on, up
to `project_zip`).  So it goes through the runs of a plan (`Plan.run_project`).
-/

namespace Pipeline

variable {ε ν α β : Type}

namespace Traced

/-- The result with the events that `f` keeps, each as `f` gives it. -/
def project (f : ν → Option ε) (x : Traced ν α) : Traced ε α := ⟨x.events.filterMap f, x.value⟩

/-- The result with labels on its events. -/
def label (g : ε → ν) (x : Traced ε α) : Traced ν α := ⟨x.events.map g, x.value⟩

@[simp] theorem events_map (f : α → β) (x : Traced ε α) : (f <$> x).events = x.events :=
  List.append_nil x.events

@[simp] theorem value_project (f : ν → Option ε) (x : Traced ν α) :
    (x.project f).value = x.value := rfl

@[simp] theorem project_pure (f : ν → Option ε) (a : α) :
    (pure a : Traced ν α).project f = pure a := rfl

@[simp] theorem project_bind (f : ν → Option ε) (x : Traced ν α) (k : α → Traced ν β) :
    (x >>= k).project f = x.project f >>= fun a => (k a).project f :=
  Traced.ext List.filterMap_append rfl

@[simp] theorem project_map (f : ν → Option ε) (g : α → β) (x : Traced ν α) :
    (g <$> x).project f = g <$> x.project f :=
  project_bind f x (fun a => pure (g a))

theorem project_emitAll (f : ν → Option ε) (events : List ν) :
    (emitAll events).project f = emitAll (events.filterMap f) := rfl

/-- Labels that `f` takes off again. -/
theorem project_label {f : ν → Option ε} {g : ε → ν} (h : ∀ e, f (g e) = some e)
    (x : Traced ε α) : (x.label g).project f = x := by
  refine Traced.ext ?_ rfl
  show (x.events.map g).filterMap f = x.events
  rw [List.filterMap_map, show f ∘ g = some from funext h, List.filterMap_some]

/-- Labels under which `f` keeps nothing. -/
theorem events_project_label {α μ : Type} {f : ν → Option μ} {g : ε → ν}
    (h : ∀ e, f (g e) = none) (x : Traced ε α) : ((x.label g).project f).events = [] := by
  show (x.events.map g).filterMap f = []
  rw [List.filterMap_map, List.filterMap_eq_nil_iff]
  exact fun e _ => h e

end Traced

namespace Trace

/-- The run with the events that `f` keeps. -/
def project (f : ν → Option ε) : Trace ν → Trace ε
  | .ended events => .ended (events.filterMap f)
  | .pull first rest => .pull (first.project f) fun _ => (rest ()).project f

variable (f : ν → Option ε)

theorem items_project (t : Trace ν) : (t.project f).items = t.items := by
  induction t with
  | ended events => rfl
  | pull first rest ih => exact congrArg (first.value :: ·) (ih ())

theorem events_project (t : Trace ν) : (t.project f).events = t.events.filterMap f := by
  induction t with
  | ended events => rfl
  | pull first rest ih =>
      rw [project, events_pull, events_pull, List.filterMap_append, ih]
      rfl

theorem project_project {f : ν → Option ε} {g : ε → Option ν}
    (h : ∀ e, (g e).bind f = some e) (t : Trace ε) : (t.project g).project f = t := by
  have hevents : ∀ events : List ε, (events.filterMap g).filterMap f = events := by
    intro events
    rw [List.filterMap_filterMap, funext h, List.filterMap_some]
  induction t with
  | ended events => exact congrArg ended (hevents events)
  | pull first rest ih =>
      rw [project, project]
      simp only [Traced.project, hevents, ih]

theorem project_collect (t : Trace ν) : (t.project f).collect = t.collect.project f := by
  rw [collect_eq, collect_eq, items_project, events_project]
  rfl

/-! ### One run from another -/

theorem project_after (events : List ν) (t : Trace ν) :
    (t.after events).project f = (t.project f).after (events.filterMap f) := by
  cases t with
  | ended closing => exact congrArg ended List.filterMap_append
  | pull first rest =>
      exact congrArg (pull ⟨·, first.value⟩ fun _ => (rest ()).project f) List.filterMap_append

theorem project_prepend (xs : List Item) (t : Unit → Trace ν) :
    (prepend xs t).project f = prepend xs fun _ => (t ()).project f := by
  induction xs with
  | nil => rfl
  | cons x xs ih => exact congrArg (fun u => pull (pure x) fun _ => u) ih

theorem project_ofItems (xs : List Item) : (ofItems xs : Trace ν).project f = ofItems xs :=
  project_prepend f xs fun _ => .ended []

theorem project_burst (result : Traced ν (List Item)) :
    (burst result).project f = burst (result.project f) := by
  rw [burst, project_after, project_ofItems]
  rfl

theorem project_mapFrom (g : Item → Nat → Traced ν Item) (i : Nat) (t : Trace ν) :
    (mapFrom g i t).project f = mapFrom (fun x i => (g x i).project f) i (t.project f) := by
  induction t generalizing i with
  | ended events => rfl
  | pull first rest ih => simp only [mapFrom, project, Traced.project_bind, ih]

theorem project_filterFrom (keep : Item → Nat → Traced ν Bool) (i : Nat) (t : Trace ν) :
    (filterFrom keep i t).project f =
      filterFrom (fun x i => (keep x i).project f) i (t.project f) := by
  induction t generalizing i with
  | ended events => rfl
  | pull first rest ih =>
      rw [filterFrom, project, filterFrom, ← Traced.project_bind, Traced.value_project]
      by_cases hk : (first >>= (keep · i)).value = true
      · rw [if_pos hk, if_pos hk, project, ← ih]
        rfl
      · rw [if_neg hk, if_neg hk, project_after, ih]
        rfl

theorem project_flatMapFrom (g : Item → Nat → Traced ν (List Item)) (i : Nat) (t : Trace ν) :
    (flatMapFrom g i t).project f =
      flatMapFrom (fun x i => (g x i).project f) i (t.project f) := by
  induction t generalizing i with
  | ended events => rfl
  | pull first rest ih =>
      rw [flatMapFrom, project, flatMapFrom, ← Traced.project_bind, project_after, project_prepend]
      simp only [ih]
      rfl

theorem project_takeUntilFrom (stop : Item → Nat → Traced ν Bool) (i : Nat) (t : Trace ν) :
    (takeUntilFrom stop i t).project f =
      takeUntilFrom (fun x i => (stop x i).project f) i (t.project f) := by
  induction t generalizing i with
  | ended events => rfl
  | pull first rest ih =>
      rw [takeUntilFrom, project, takeUntilFrom, ← Traced.project_bind, Traced.value_project]
      by_cases hs : (first >>= (stop · i)).value = true
      · rw [if_pos hs, if_pos hs]
        rfl
      · rw [if_neg hs, if_neg hs, project, ← ih]
        rfl

theorem project_foldFrom (g : Item → Item → Nat → Traced ν Item) (i : Nat) (acc : Item)
    (t : Trace ν) :
    (foldFrom g i acc t).project f =
      foldFrom (fun acc x i => (g acc x i).project f) i acc (t.project f) := by
  induction t generalizing i acc with
  | ended events => rfl
  | pull first rest ih => simp only [foldFrom, project, Traced.project_bind, ih]

/-! ### Several runs in lockstep -/

theorem zipMembers_of_any {combine : List (Option Item) → Traced ε Item}
    {members : List (Option (Unit → Trace ε))}
    (h : (tick members).1.value.any (·.isSome) = true) :
    zipMembers combine members =
      .pull ((tick members).1 >>= combine) fun _ => zipMembers combine (tick members).2 := by
  rw [zipMembers, dif_pos h]

theorem zipMembers_of_none {combine : List (Option Item) → Traced ε Item}
    {members : List (Option (Unit → Trace ε))}
    (h : ¬ (tick members).1.value.any (·.isSome) = true) :
    zipMembers combine members = .ended (tick members).1.events := by
  rw [zipMembers, dif_neg h]

/-- What is left of a member that has not ended. -/
def projectMember (member : Option (Unit → Trace ν)) : Option (Unit → Trace ε) :=
  member.map fun t _ => (t ()).project f

theorem next_project (t : Trace ν) :
    (t.project f).next = (t.next.1.project f, projectMember f t.next.2) := by
  cases t with
  | ended events => rfl
  | pull first rest =>
      rw [project, next, next, Traced.project_map]
      rfl

theorem tick_project (members : List (Option (Unit → Trace ν))) :
    tick (members.map (projectMember f)) =
      ((tick members).1.project f, (tick members).2.map (projectMember f)) := by
  induction members with
  | nil => rfl
  | cons m members ih =>
      match m with
      | none =>
          rw [List.map_cons, projectMember, Option.map_none, tick, ih, tick, Traced.project_map]
          rfl
      | some t =>
          rw [List.map_cons, projectMember, Option.map_some, tick, ih, next_project, tick]
          simp only [Traced.project_bind, Traced.project_pure, List.map_cons]

theorem project_zipMembers (combine : List (Option Item) → Traced ν Item)
    (members : List (Option (Unit → Trace ν))) :
    (zipMembers combine members).project f =
      zipMembers (fun ys => (combine ys).project f) (members.map (projectMember f)) := by
  induction members using zipMembers.induct with
  | case1 members t hany ih =>
      have hany' : (tick (members.map (projectMember f))).1.value.any (·.isSome) = true := by
        rw [tick_project]
        exact hany
      rw [zipMembers_of_any hany, zipMembers_of_any hany', tick_project, project,
        Traced.project_bind, ih]
  | case2 members t hnone =>
      have hnone' : ¬ (tick (members.map (projectMember f))).1.value.any (·.isSome) = true := by
        rw [tick_project]
        exact hnone
      rw [zipMembers_of_none hnone, zipMembers_of_none hnone', tick_project]
      rfl

theorem project_zip (combine : List (Option Item) → Traced ν Item) (members : List (Trace ν)) :
    (zip combine members).project f =
      zip (fun ys => (combine ys).project f) (members.map (project f)) := by
  rw [zip, project_zipMembers, zip, List.map_map, List.map_map]
  rfl

end Trace

namespace Plan

/-! ### Plans -/

mutual

/-- The plan with the events that `f` keeps. -/
def project (f : ν → Option ε) : Plan ν → Plan ε
  | .items xs => .items xs
  | .deferred opening result => .deferred (opening.filterMap f) (result.project f)
  | .map g p => .map (fun x i => (g x i).project f) (project f p)
  | .filter keep p => .filter (fun x i => (keep x i).project f) (project f p)
  | .flatMap g p => .flatMap (fun x i => (g x i).project f) (project f p)
  | .takeUntil stop p => .takeUntil (fun x i => (stop x i).project f) (project f p)
  | .fold seed g p => .fold (seed.project f) (fun acc x i => (g acc x i).project f) (project f p)
  | .collect g p => .collect g (project f p)
  | .zip combine members => .zip (fun ys => (combine ys).project f) (projectAll f members)
  | .memoized cell p => .memoized cell (project f p)

/-- The members of a lockstep with the events that `f` keeps. -/
def projectAll (f : ν → Option ε) : List (Plan ν) → List (Plan ε)
  | [] => []
  | p :: members => project f p :: projectAll f members

end

theorem projectAll_eq_map (f : ν → Option ε) (members : List (Plan ν)) :
    projectAll f members = members.map (project f) := by
  induction members with
  | nil => rfl
  | cons p members ih => rw [projectAll, ih, List.map_cons]

theorem openingAll_project {f : ν → Option ε} {members : List (Plan ν)}
    (h : ∀ p ∈ members, (p.project f).opening = p.opening.filterMap f) :
    openingAll (members.map (project f)) = (openingAll members).filterMap f := by
  induction members with
  | nil => rfl
  | cons p members ih =>
      obtain ⟨hp, hmembers⟩ := List.forall_mem_cons.mp h
      rw [List.map_cons, openingAll, openingAll, hp, ih hmembers, List.filterMap_append]

theorem opening_project (f : ν → Option ε) (p : Plan ν) :
    (p.project f).opening = p.opening.filterMap f := by
  induction p using Plan.induction with
  | items | deferred | fold | collect | memoized => rfl
  | map g p ih | filter g p ih | flatMap g p ih | takeUntil g p ih => exact ih
  | zip combine members ih =>
      rw [project, opening, opening, projectAll_eq_map]
      exact openingAll_project ih

theorem runAll_project {f : ν → Option ε} {members : List (Plan ν)}
    (h : ∀ p ∈ members, ∀ m, (p.project f).run m = ((p.run m).1.project f, (p.run m).2))
    (m : Memory) :
    runAll (members.map (project f)) m =
      ((runAll members m).1.map (Trace.project f), (runAll members m).2) := by
  induction members generalizing m with
  | nil => rfl
  | cons p members ih =>
      obtain ⟨hp, hmembers⟩ := List.forall_mem_cons.mp h
      rw [List.map_cons, runAll, hp, ih hmembers, runAll]
      rfl

/-- Taking events out of a plan takes them out of its runs. -/
theorem run_project (f : ν → Option ε) (p : Plan ν) (m : Memory) :
    (p.project f).run m = ((p.run m).1.project f, (p.run m).2) := by
  induction p using Plan.induction generalizing m with
  | items xs => rw [project, run, run, Trace.project_ofItems]
  | deferred opening result => rw [project, run, run, Trace.project_burst]
  | map g p ih => rw [project, run, run, ih, Trace.map, Trace.map, Trace.project_mapFrom]
  | filter keep p ih =>
      rw [project, run, run, ih, Trace.filter, Trace.filter, Trace.project_filterFrom]
  | flatMap g p ih =>
      rw [project, run, run, ih, Trace.flatMap, Trace.flatMap, Trace.project_flatMapFrom]
  | takeUntil stop p ih =>
      rw [project, run, run, ih, Trace.takeUntil, Trace.takeUntil, Trace.project_takeUntilFrom]
  | fold seed g p ih =>
      rw [project, run, run, ih, Trace.project_burst]
      simp only [Traced.project_bind, Traced.project_pure, Traced.project_emitAll, Trace.fold,
        Trace.project_foldFrom, opening_project]
  | collect g p ih =>
      rw [project, run, run, ih, Trace.project_burst]
      simp only [Traced.project_bind, Traced.project_pure, Traced.project_emitAll,
        Trace.project_collect, opening_project]
  | zip combine members ih =>
      rw [project, run, run, projectAll_eq_map, runAll_project ih, Trace.project_zip]
  | memoized cell p ih =>
      rw [project]
      cases h : m.get? cell with
      | some xs =>
          rw [run_memoized_of_filled h, run_memoized_of_filled h, Trace.project_ofItems]
      | none =>
          rw [run_memoized_of_empty h, run_memoized_of_empty h, ih, Trace.project_burst,
            Traced.project_bind, Traced.project_emitAll, opening_project, Trace.project_collect,
            Trace.items_project]

end Plan

end Pipeline
