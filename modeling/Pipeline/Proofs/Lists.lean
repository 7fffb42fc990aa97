import Pipeline.Proofs.Building
import Pipeline.Proofs.Meaning
import Pipeline.Proofs.Runs
import Pipeline.Proofs.Transition

/-!
# Lists — a pipeline as list functions

A pipeline is built of plans that work when they are pulled.  Here the same stages work on lists,
all at once and without events: `ListState` holds a list where a state holds a sequence, and
`ListState.after?` gives the lists behind a stage.  Nothing in it is pulled, opened or shared, and
what a phrase gives for an item is the answer that `Meaning` spells out.

**Lazy and eager agree** (`items_run`).  A full run of a pipeline that was built yields the items
that its stages give on lists.

Every sequence in a state has a list, the items of its plan (`State.lists`); and its runs do not
depend on the cells of memoized plans (`State.Settled`), for no stage memoizes.  One stage keeps
this and goes from the lists of a state to the lists of the next (`lists_of_apply`), so any number
of stages do (`lists_of_applyAll`).
-/

namespace Pipeline

/-- What a pipeline holds between two stages, with lists in place of sequences. -/
structure ListState where
  current : Option (List Item)
  named : List (String × List Item)
  stack : List (List Item)
  stacking : Bool
  env : Environment

namespace ListState

/-- Before the first stage, with items to start from or without. -/
def initial (items : Option (List Item)) : ListState where
  current := items
  named := []
  stack := []
  stacking := true
  env := .empty

/-- The current list, without items if there is none. -/
def input (l : ListState) : List Item := l.current.getD []

/-- Makes a list current, and puts it on the stack while stacking is on. -/
def advance (l : ListState) (xs : List Item) : ListState :=
  { l with
    current := some xs
    stack := if l.stacking then l.stack ++ [xs] else l.stack }

/-- Several lists side by side, as long as the longest; one that has ended counts as null. -/
def sideBySide (xss : List (List Item)) : List Item :=
  (List.range (longest xss)).map fun k => .asOne (xss.map fun xs => xs[k]?.getD (.value .null))

/-- The list that a stage puts in place of the current one. -/
def yield? (host : Host) (l : ListState) : Stage → Option (List Item)
  | .evaluate phrase =>
    match l.current with
    | some xs => some (xs.zipIdx.map fun (x, i) => phrase.answerFor host l.env x i)
    | none => some (phrase.answerAlone host l.env).parts
  | .shell phrase =>
    match l.current with
    | some xs => some (xs.zipIdx.map fun (x, i) => (phrase.commandFor host l.env x i).value)
    | none => some [(phrase.commandAlone host l.env).value]
  | .errorHandler phrase =>
    some (l.input.zipIdx.map fun (x, i) =>
      match x with
      | .failure _ => phrase.answerForFailure host l.env x i
      | .value _ => x)
  | .filter phrase =>
    some ((l.input.zipIdx.filter fun (x, i) => ¬ (phrase.answerFor host l.env x i).Falsy).map
      Prod.fst)
  | .flatMap phrase =>
    some (l.input.zipIdx.flatMap fun (x, i) => (phrase.answerFor host l.env x i).parts)
  | .reduce phrase seed =>
    some [l.input.zipIdx.foldl (fun acc (x, i) => phrase.answerForStep host l.env acc x i)
      (seed.answerAlone host l.env)]
  | .terminate phrase =>
    some ((l.input.zipIdx.takeWhile fun (x, i) =>
      phrase.answerFor host l.env x i ≠ .value (.bool true)).map Prod.fst)
  | .wholeArray => some [.asOne l.input]
  | .combine names => (names.mapM fun name => l.named.lookup name).map sideBySide
  | .log _ | .write _ => some l.input
  | .seek name => l.named.lookup name
  | .stackRef index => l.stack.reverse[index]?
  | .name _ | .drop | .disableStacking | .suppressPrint | .importModule _ _ => none

/-- The lists behind a stage, where it finds what it needs. -/
def after? (host : Host) (l : ListState) (stage : Stage) : Option ListState :=
  match stage with
  | .name label => some { l with named := l.named ++ [(label, l.input)] }
  | .drop =>
    l.stack.dropLast.getLast?.map fun xs =>
      { l with stack := l.stack.dropLast, current := some xs }
  | .disableStacking => some { l with stacking := false }
  | .suppressPrint => some l
  | .importModule reference bound =>
    match (host.load reference).value with
    | .error _ => none
    | .ok exports =>
      let l := { l with env := l.env.binding bound exports }
      match l.current with
      | some xs => some (l.advance xs)
      | none => some l
  | stage => (l.yield? host stage).map l.advance

/-- The lists behind stages, one after the other. -/
def afterAll? (host : Host) (l : ListState) (stages : List Stage) : Option ListState :=
  stages.foldlM (after? host) l

end ListState

namespace State

/-! ### The lists of a state -/

/-- Every sequence with the items of its plan in its place. -/
def lists (s : State) : ListState where
  current := s.current.map (·.plan.listing)
  named := s.registry.map fun named => (named.name, named.sequence.plan.listing)
  stack := s.stack.map (·.plan.listing)
  stacking := s.stacking
  env := s.env

/-- The runs of no sequence in the state depend on what is kept in cells. -/
structure Settled (s : State) : Prop where
  current : ∀ sequence ∈ s.current, sequence.plan.Settled
  registry : ∀ named ∈ s.registry, named.sequence.plan.Settled
  stack : ∀ sequence ∈ s.stack, sequence.plan.Settled

theorem lists_initial (items : Option (List Item)) : (initial items).lists = .initial items := by
  cases items with
  | none => rfl
  | some xs => simp [lists, initial, ListState.initial, Plan.listing_items]

theorem settled_initial (items : Option (List Item)) : (initial items).Settled where
  current := by
    rintro sequence h
    obtain ⟨xs, -, rfl⟩ := Option.map_eq_some_iff.mp h
    exact Plan.settled_items xs
  registry := fun _ h => absurd h List.not_mem_nil
  stack := fun _ h => absurd h List.not_mem_nil

theorem lists_input (s : State) : s.lists.input = s.input.listing := by
  unfold ListState.input input lists
  cases s.current with
  | none => exact (Plan.listing_items []).symm
  | some sequence => rfl

theorem Settled.input {s : State} (hs : s.Settled) : s.input.Settled := by
  unfold State.input
  split
  · next sequence h => exact hs.current sequence h
  · exact Plan.settled_items []

theorem lists_advance (s : State) (sequence : Sequence Event) :
    (s.advance sequence).lists = s.lists.advance sequence.plan.listing := by
  unfold lists advance ListState.advance
  by_cases h : s.stacking <;> simp [h]

theorem lists_advancePlan (s : State) (plan : Plan Event) :
    (s.advancePlan plan).lists = s.lists.advance plan.listing :=
  lists_advance _ _

theorem Settled.advance {s : State} (hs : s.Settled) {sequence : Sequence Event}
    (h : sequence.plan.Settled) : (s.advance sequence).Settled where
  current := by
    rintro _ ⟨⟩
    exact h
  registry := hs.registry
  stack := by
    intro entry hentry
    unfold State.advance at hentry
    by_cases hst : s.stacking
    · rw [if_pos hst, List.mem_append, List.mem_singleton] at hentry
      rcases hentry with hold | rfl
      · exact hs.stack entry hold
      · exact h
    · rw [if_neg hst] at hentry
      exact hs.stack entry hentry

theorem Settled.advancePlan {s : State} (hs : s.Settled) {plan : Plan Event} (h : plan.Settled) :
    (s.advancePlan plan).Settled :=
  Settled.advance (s := { s with nextHandle := s.nextHandle + 1 })
    ⟨hs.current, hs.registry, hs.stack⟩ h

/-- A name stands for the list of the sequence under it. -/
theorem lookup_lists (s : State) (label : String) :
    s.lists.named.lookup label = (s.find? label).map (·.sequence.plan.listing) := by
  unfold lists find?
  dsimp only
  induction s.registry with
  | nil => rfl
  | cons entry registry ih =>
      rw [List.map_cons, List.lookup_cons, List.find?_cons]
      -- both look from the oldest entry on, so they stop at the same one
      by_cases hn : entry.name = label
      · simp [hn]
      · rw [decide_eq_false hn, beq_false_of_ne (Ne.symm hn)]
        exact ih

theorem Settled.find? {s : State} (hs : s.Settled) {label : String} {named : Named}
    (h : s.find? label = some named) : named.sequence.plan.Settled :=
  hs.registry named (List.mem_of_find?_eq_some h)

/-- Names stand for the lists of the sequences under them. -/
theorem lists_members {s : State} (hs : s.Settled) :
    ∀ {names : List String} {sequences : List (Sequence Event)},
      Stage.members s names = .ok sequences →
        (∀ sequence ∈ sequences, sequence.plan.Settled) ∧
          (names.mapM fun name => s.lists.named.lookup name) =
            some (sequences.map (·.plan.listing))
  | [], _, h => by
      rw [Stage.members, List.mapM_nil] at h
      cases h
      exact ⟨fun _ hmem => absurd hmem List.not_mem_nil, rfl⟩
  | name :: names, sequences, h => by
      rw [Stage.members, List.mapM_cons] at h
      cases hfirst : s.lookup name with
      | error e => rw [hfirst] at h; cases h
      | ok first =>
          cases hrest : Stage.members s names with
          | error e =>
              rw [hfirst, show names.mapM s.lookup = _ from hrest] at h
              cases h
          | ok rest =>
              rw [hfirst, show names.mapM s.lookup = _ from hrest] at h
              cases h
              obtain ⟨named, hfind, rfl⟩ := lookup_eq_ok hfirst
              obtain ⟨hsettled, hlists⟩ := lists_members hs hrest
              refine ⟨?_, ?_⟩
              · intro sequence hmem
                rcases List.mem_cons.mp hmem with rfl | hmem
                · exact hs.find? hfind
                · exact hsettled sequence hmem
              · rw [List.mapM_cons, lookup_lists, hfind, hlists]
                rfl

end State

namespace Stage
open State

/-! ### Stages that put a new sequence in place of the current one -/

theorem settled_evaluatePlan {s : State} (hs : s.Settled) (p : Prepared) :
    (evaluatePlan (s.current.map (·.plan)) p s.env).Settled := by
  cases h : s.current with
  | none => exact Plan.settled_deferred _ _
  | some sequence => exact (hs.current sequence h).map _

theorem settled_shellPlan {s : State} (hs : s.Settled) (services : Services)
    (c : PreparedCommand) :
    (shellPlan services (s.current.map (·.plan)) c s.env).Settled := by
  cases h : s.current with
  | none => exact Plan.settled_deferred _ _
  | some sequence => exact (hs.current sequence h).map _

theorem listing_tapPlan (sink : Item → Event) (input : Plan Event) (p : Prepared)
    (env : Environment) : (tapPlan sink input p env).listing = input.listing := by
  rw [tapPlan, Plan.listing_map]
  exact List.zipIdx_map_fst 0 input.listing

theorem listing_combinePlan {members : List (Plan Event)} (h : ∀ p ∈ members, p.Settled) :
    (combinePlan members).listing = ListState.sideBySide (members.map Plan.listing) := by
  rw [combinePlan_eq, Plan.listing_zip h, ListState.sideBySide]
  refine List.map_congr_left fun k _ => congrArg Item.asOne ?_
  rw [List.map_map]
  rfl

/-- **A new sequence has the list of its stage.** -/
theorem plan_of_produces {host : Host} {stage : Stage} {s t : State} {events : List Event}
    (hs : s.Settled) (hp : stage.produces = true) (h : stage.apply host s = ⟨events, .ok t⟩) :
    ∃ plan, t = s.advancePlan plan ∧ plan.Settled ∧
      s.lists.yield? host stage = some plan.listing := by
  cases stage with
  | evaluate phrase =>
      cases h
      refine ⟨_, rfl, settled_evaluatePlan hs _, ?_⟩
      cases hc : s.current with
      | none =>
          rw [Option.map_none, evaluatePlan_none, Plan.listing_deferred]
          simp [ListState.yield?, lists, hc]
      | some sequence =>
          rw [Option.map_some, evaluatePlan_some, Plan.listing_map]
          simp [ListState.yield?, lists, hc]
  | shell phrase =>
      cases h
      refine ⟨_, rfl, settled_shellPlan hs _ _, ?_⟩
      cases hc : s.current with
      | none =>
          rw [Option.map_none, shellPlan_none, Plan.listing_deferred]
          simp [ListState.yield?, lists, hc]
      | some sequence =>
          rw [Option.map_some, shellPlan_some, Plan.listing_map]
          simp [ListState.yield?, lists, hc]
  | errorHandler phrase =>
      cases h
      refine ⟨_, rfl, hs.input.map _, ?_⟩
      rw [errorHandlerPlan_eq, Plan.listing_map, ListState.yield?, lists_input]
      rfl
  | filter phrase =>
      cases h
      refine ⟨_, rfl, hs.input.filter _, ?_⟩
      rw [filterPlan_eq, Plan.listing_filter, ListState.yield?, lists_input]
      rfl
  | flatMap phrase =>
      cases h
      refine ⟨_, rfl, hs.input.flatMap _, ?_⟩
      rw [flatMapPlan_eq, Plan.listing_flatMap, ListState.yield?, lists_input]
      rfl
  | reduce phrase seed =>
      cases h
      refine ⟨_, rfl, hs.input.fold _ _, ?_⟩
      rw [reducePlan_eq, Plan.listing_fold, ListState.yield?, lists_input]
      rfl
  | terminate phrase =>
      cases h
      refine ⟨_, rfl, hs.input.takeUntil _, ?_⟩
      rw [terminatePlan_eq, Plan.listing_takeUntil, ListState.yield?, lists_input]
      simp only [ne_eq, decide_not]
      rfl
  | wholeArray =>
      cases h
      refine ⟨_, rfl, hs.input.collect _, ?_⟩
      rw [Plan.listing_collect, Item.gather_eq_asOne, ListState.yield?, lists_input]
  | log phrase | write phrase =>
      cases h
      refine ⟨_, rfl, hs.input.map _, ?_⟩
      rw [listing_tapPlan, ListState.yield?, lists_input]
  | combine names =>
      -- the members are looked up when the stage is applied, and run when it is pulled
      obtain ⟨sequences, hm, rfl⟩ := applyCombine_eq_ok (congrArg Traced.value h)
      obtain ⟨hsettled, hlists⟩ := lists_members hs hm
      have hplans : ∀ p ∈ sequences.map (·.plan), p.Settled := by
        intro p hmem
        obtain ⟨sequence, hsequence, rfl⟩ := List.mem_map.mp hmem
        exact hsettled sequence hsequence
      refine ⟨_, rfl, Plan.settled_zip hplans _, ?_⟩
      rw [listing_combinePlan hplans, ListState.yield?, hlists, List.map_map]
      rfl
  | seek label =>
      obtain ⟨named, hfind, rfl⟩ := seek_eq_ok (congrArg Traced.value h)
      refine ⟨_, rfl, hs.find? hfind, ?_⟩
      rw [ListState.yield?, lookup_lists, hfind]
      rfl
  | stackRef index =>
      obtain ⟨sequence, hentry, rfl⟩ := stackRef_eq_ok (congrArg Traced.value h)
      have hmem : sequence ∈ s.stack := List.mem_reverse.mp (List.mem_of_getElem? hentry)
      refine ⟨_, rfl, hs.stack sequence hmem, ?_⟩
      rw [ListState.yield?, lists, ← List.map_reverse, List.getElem?_map]
      exact congrArg (Option.map _) hentry
  | name | drop | disableStacking | suppressPrint | importModule => cases hp

/-! ### Lazy and eager, stage by stage -/

/-- **One stage.**  It goes from the lists of a state to the lists of the next. -/
theorem lists_of_apply {host : Host} {stage : Stage} {s t : State} {events : List Event}
    (hs : s.Settled) (h : stage.apply host s = ⟨events, .ok t⟩) :
    t.Settled ∧ s.lists.after? host stage = some t.lists := by
  cases stage with
  | name label =>
      obtain ⟨-, -, sequence, _, hplan, rfl⟩ := name_eq_ok (congrArg Traced.value h)
      refine ⟨⟨hs.current, ?_, hs.stack⟩, ?_⟩
      · intro named hmem
        rcases List.mem_append.mp hmem with hold | hnew
        · exact hs.registry named hold
        · rw [List.mem_singleton.mp hnew, hplan]
          exact hs.input
      · rw [ListState.after?, lists_input, ← hplan]
        simp [lists]
  | drop =>
      obtain ⟨hlen, rfl⟩ := drop_eq_ok (congrArg Traced.value h)
      have hkept : ∀ sequence ∈ s.stack.dropLast, sequence.plan.Settled := fun sequence hmem =>
        hs.stack sequence (List.dropLast_subset _ hmem)
      refine ⟨⟨fun sequence hlast => hkept sequence (List.mem_of_getLast? hlast), hs.registry,
        hkept⟩, ?_⟩
      -- two entries at least, so one is left to go on from
      obtain ⟨below, hbelow⟩ : ∃ below, s.stack.dropLast.getLast? = some below := by
        refine Option.isSome_iff_exists.mp (List.getLast?_isSome.mpr fun hnil => ?_)
        have := congrArg List.length hnil
        rw [List.length_dropLast, List.length_nil] at this
        omega
      simp [ListState.after?, lists, ← List.map_dropLast, List.getLast?_map, hbelow]
  | disableStacking =>
      cases h
      exact ⟨⟨hs.current, hs.registry, hs.stack⟩, rfl⟩
  | suppressPrint =>
      cases h
      exact ⟨⟨hs.current, hs.registry, hs.stack⟩, rfl⟩
  | importModule reference bound =>
      obtain ⟨exports, hload, ⟨hc, rfl⟩ | ⟨current, hc, rfl⟩⟩ := applyImport_eq_ok h
      · refine ⟨⟨hs.current, hs.registry, hs.stack⟩, ?_⟩
        simp [ListState.after?, hload, lists, hc, withEnvironment, Environment.bind_eq_binding]
      · -- the current sequence comes on the stack once more, under the new environment
        have hbound : (s.withEnvironment (s.env.bind bound exports)).Settled :=
          ⟨hs.current, hs.registry, hs.stack⟩
        refine ⟨hbound.advance (hs.current current hc), ?_⟩
        rw [lists_advance]
        simp [ListState.after?, hload, lists, hc, withEnvironment, Environment.bind_eq_binding]
  | _ =>
      -- the other thirteen put a new sequence in place of the current one
      obtain ⟨plan, rfl, hplan, hyield⟩ := plan_of_produces hs rfl h
      refine ⟨hs.advancePlan hplan, ?_⟩
      rw [lists_advancePlan]
      exact congrArg (Option.map s.lists.advance) hyield

/-- **Any number of stages.** -/
theorem lists_of_applyAll {host : Host} :
    ∀ {stages : List Stage} {s t : State} {events : List Event},
      s.Settled → applyAll host stages s = ⟨events, .ok t⟩ →
        t.Settled ∧ s.lists.afterAll? host stages = some t.lists
  | [], s, t, _, hs, h => by
      cases h
      exact ⟨hs, rfl⟩
  | stage :: stages, s, t, _, hs, h => by
      obtain ⟨_, next, _, hfirst, hrest, -⟩ := Traced.andThen_eq_ok h
      obtain ⟨hnext, hstep⟩ := lists_of_apply hs hfirst
      obtain ⟨ht, hlists⟩ := lists_of_applyAll hnext hrest
      refine ⟨ht, ?_⟩
      rw [ListState.afterAll?, List.foldlM_cons, hstep]
      exact hlists

end Stage

namespace Interpreter
open Stage State

/-- **Lazy and eager agree.**  If a pipeline is built, with items to start from or without, then
its tokens are read to their end, its stages work on lists, and every full run of it yields the
items of the list they end with. -/
theorem items_run {host : Host} {tokens : List String} {initial : Option (List Item)}
    {events : List Event} {out : Output} (h : run host tokens initial = ⟨events, .ok out⟩) :
    ReadsFully tokens ∧
      ∃ last, (ListState.initial initial).afterAll? host (stagesOf tokens) = some last ∧
        ∀ m : Memory, (out.plan.run m).1.collect.value = last.input := by
  obtain ⟨t, ht, rfl⟩ := run_eq_ok h
  obtain ⟨hfull, happly⟩ := runFrom_eq_ok ht
  obtain ⟨hsettled, hlists⟩ := lists_of_applyAll (settled_initial initial) happly
  refine ⟨hfull, t.lists, ?_, fun m => ?_⟩
  · rw [← lists_initial, hlists]
  · have hrun : t.finish.plan.run m = (t.input.trace, m) := hsettled.input m
    rw [hrun, Trace.collect_eq, lists_input]
    rfl

/-- Answers some sources with what is bound for them, and `all` with a list. -/
def sampleEvaluator : Evaluator where
  compile source := if source = "y >" then .error "unfinished" else .ok ()
  evaluate source b _ :=
    match source, b with
    | "x", ⟨some x, _, _, _⟩ => .ok x
    | "i", ⟨_, some i, _, _⟩ => .ok i
    | "a, x, i", ⟨some (.value x), some (.value i), some (.value a), _⟩ =>
      .ok (.value (.list [a, x, i]))
    | "all", _ =>
      .ok (.value (.list [.text "p", .list [.text "q", .text "r"], .bool true, .text "s"]))
    | _, _ => .error "unbound"

/-- Answers sources as `sampleEvaluator` does, and prints one line for every command. -/
def sampleHost : Host :=
  { command := Services.commandsBy fun _ => .ok ["f", ""]
    load := Services.noModules
    evaluator := sampleEvaluator }

/-- A sequence of three beside what is left of it without its first item, padded with null and made
one list; and, from a list that is expanded twice and ends before `true`, two items beside what
became of them: a fold over the lines of a command, and a source that is refused. -/
theorem items_run_sideBySide :
    (∃ out,
      run sampleHost ["-n", "a", "-f", "i", "-n", "b", "-c", "a,b", "-a"]
          (some [.value (.text "p"), .value (.text "q"), .value (.text "r")]) = ⟨[], .ok out⟩ ∧
        ∀ m : Memory, (out.plan.run m).1.collect.value =
          [.value (.list [.list [.text "p", .text "q"], .list [.text "q", .text "r"],
            .list [.text "r", .null]])]) ∧
    ∃ out,
      run sampleHost ["all", "-m", "x", "-t", "x", "-f", "i", "-n", "n", "-e", "-q", "ls",
          "-r", "a, x, i", "all", "-n", "m", "-j", "y >", "-n", "k", "-c", "n,m,k"] none =
        ⟨[], .ok out⟩ ∧
        ∀ m : Memory, (out.plan.run m).1.collect.value =
          [.failure ⟨"failed to compile expression: y >.", "unfinished", some (.list [.text "q",
              .list [.list [
                .list [.text "p", .list [.text "q", .text "r"], .bool true, .text "s"],
                .text "f", .number (.whole 0)], .text "f", .number (.whole 1)],
              .object [("message", .text "failed to compile expression: y >."),
                ("cause", .text "unfinished")]])⟩,
            .value (.list [.text "r", .null, .null])] := by
  constructor
  · have hread : readAll ["-n", "a", "-f", "i", "-n", "b", "-c", "a,b", "-a"] =
        ([(.name "a", 2), (.filter (.source "i"), 2), (.name "b", 2), (.combine ["a", "b"], 2),
          (.wholeArray, 1)], none) := by
      decide +kernel
    have h : run sampleHost _ (some [.value (.text "p"), .value (.text "q"), .value (.text "r")]) =
        ⟨[], _⟩ := run_of_readAll hread rfl
    obtain ⟨-, last, hlast, hitems⟩ := items_run h
    rw [stagesOf, hread] at hlast
    cases hlast
    exact ⟨_, h, hitems⟩
  · have hread : readAll ["all", "-m", "x", "-t", "x", "-f", "i", "-n", "n", "-e", "-q", "ls",
          "-r", "a, x, i", "all", "-n", "m", "-j", "y >", "-n", "k", "-c", "n,m,k"] =
        ([(.evaluate (.source "all"), 1), (.flatMap (.source "x"), 2),
          (.terminate (.source "x"), 2), (.filter (.source "i"), 2), (.name "n", 2),
          (.shell (.quoted ["ls"]), 3), (.reduce (.source "a, x, i") (.source "all"), 3),
          (.name "m", 2), (.evaluate (.source "y >"), 2), (.name "k", 2),
          (.combine ["n", "m", "k"], 2)], none) := by
      decide +kernel
    have h : run sampleHost _ none = ⟨[], _⟩ := run_of_readAll hread rfl
    obtain ⟨-, last, hlast, hitems⟩ := items_run h
    rw [stagesOf, hread] at hlast
    cases hlast
    exact ⟨_, h, hitems⟩

end Interpreter

end Pipeline
