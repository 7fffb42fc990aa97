import Pipeline.Proofs.Building
import Pipeline.Proofs.Meaning
import Pipeline.Proofs.Runs

/-!
# Depth first — the order of effects in a chain

Eight kinds of stage look at one item at a time: they hand items on in its place, any number of
them, or end the run (`ItemStage.handOn`).  In a pipeline each of them is a run that pulls the one
below.  Here they are a line that items are pushed into: an item goes through all of them before
the next one is taken (`push`), and what a stage hands on goes through all later stages one by one
(`feed`).  The two share no definition: the answers of phrases and commands to an item are spelled
out for the line (`Meaning`), events included.

**Pulling is pushing depth first** (`run_chain`).  A full run of a chain over given items yields
what pushing them yields, with the same events in the same order.  So the events of one item come
before those of the next, a line that has ended does nothing more, and what stands before a stage
that ends the run works up to the item that made it end.

The proof goes from the last stage to the first.  Pulling items through the rest of the chain is
already known to be pushing them (`collect_through`); the stage before hands its items on as a
run, and pushing that run is pushing each item into the longer line (`drive_handOnFrom`).
-/

namespace Pipeline

namespace Trace

variable {ε : Type}

/-! ### One item at a time -/

/-- Puts in the place of each item, from position `i` on, the items that `f` hands on for it and its
position.  The run ends where `f` hands nothing on. -/
def handOnFrom (f : Item → Nat → Traced ε (Option (List Item))) (i : Nat) : Trace ε → Trace ε
  | .ended events => .ended events
  | .pull first rest =>
    let answer := first >>= (f · i)
    match answer.value with
    | none => .ended answer.events
    -- where no item is handed on, the events wait for the next one that is
    | some ys => (prepend ys fun _ => handOnFrom f (i + 1) (rest ())).after answer.events

theorem handOnFrom_none {f : Item → Nat → Traced ε (Option (List Item))} {i : Nat}
    {first : Traced ε Item} (rest : Unit → Trace ε) (h : (f first.value i).value = none) :
    handOnFrom f i (.pull first rest) = .ended (first.events ++ (f first.value i).events) := by
  simp [handOnFrom, h]

theorem handOnFrom_some {f : Item → Nat → Traced ε (Option (List Item))} {i : Nat}
    {first : Traced ε Item} {ys : List Item} (rest : Unit → Trace ε)
    (h : (f first.value i).value = some ys) :
    handOnFrom f i (.pull first rest) =
      (prepend ys fun _ => handOnFrom f (i + 1) (rest ())).after
        (first.events ++ (f first.value i).events) := by
  simp [handOnFrom, h]

theorem mapFrom_eq_handOnFrom (f : Item → Nat → Traced ε Item) (t : Trace ε) (i : Nat) :
    mapFrom f i t = handOnFrom (fun x i => do return some [← f x i]) i t := by
  induction t generalizing i with
  | ended events => rfl
  | pull first rest ih => simp [mapFrom, handOnFrom, prepend, after, ih, bind, pure]

theorem flatMapFrom_eq_handOnFrom (f : Item → Nat → Traced ε (List Item)) (t : Trace ε) (i : Nat) :
    flatMapFrom f i t = handOnFrom (fun x i => do return some (← f x i)) i t := by
  induction t generalizing i with
  | ended events => rfl
  | pull first rest ih => simp [flatMapFrom, handOnFrom, ih, bind, pure]

theorem filterFrom_eq_handOnFrom (keep : Item → Nat → Traced ε Bool) (t : Trace ε) (i : Nat) :
    filterFrom keep i t =
      handOnFrom (fun x i => do return some (if ← keep x i then [x] else [])) i t := by
  induction t generalizing i with
  | ended events => rfl
  | pull first rest ih =>
      -- an item that is kept is handed on by itself, and one that is not hands on an empty list
      by_cases hk : (keep first.value i).value = true
      · simp [filterFrom, handOnFrom, prepend, after, ih, bind, pure, hk]
      · simp [filterFrom, handOnFrom, prepend, ih, bind, pure, hk]

theorem takeUntilFrom_eq_handOnFrom (stop : Item → Nat → Traced ε Bool) (t : Trace ε) (i : Nat) :
    takeUntilFrom stop i t =
      handOnFrom (fun x i => do return if ← stop x i then none else some [x]) i t := by
  induction t generalizing i with
  | ended events => rfl
  | pull first rest ih =>
      by_cases hs : (stop first.value i).value = true
      · simp [takeUntilFrom, handOnFrom, bind, pure, hs]
      · simp [takeUntilFrom, handOnFrom, prepend, after, ih, bind, pure, hs]

end Trace

/-! ### Lines -/

/-- What came of pushing items into a line of stages: how many items each stage has taken so far
(one that is not in the list has taken none), what came out at the end of the line, and whether it
is still going. -/
structure Pushed where
  counts : List Nat
  items : List Item
  going : Bool

namespace Pushed

section
variable (p : Pushed) (more : List Nat → Traced Event Pushed)
  (rest : List Nat → Traced Event (List Item))

/-- Pushes more into a line that is still going. -/
def goOn : Traced Event Pushed :=
  if p.going then do
    let q ← more p.counts
    return { q with items := p.items ++ q.items }
  else return p

/-- Pushes the rest into a line that is still going, and gives all that came out. -/
def finish : Traced Event (List Item) :=
  if p.going then return p.items ++ (← rest p.counts) else return p.items

variable {p}

theorem goOn_stopped (h : p.going = false) : p.goOn more = pure p := by
  simp [goOn, h]

theorem finish_stopped (h : p.going = false) : p.finish rest = pure p.items := by
  simp [finish, h]

theorem goOn_going (h : p.going = true) :
    p.goOn more = ⟨(more p.counts).events, (more p.counts).value.counts,
      p.items ++ (more p.counts).value.items, (more p.counts).value.going⟩ := by
  simp [goOn, h, bind, pure]

theorem finish_going (h : p.going = true) :
    p.finish rest = ⟨(rest p.counts).events, p.items ++ (rest p.counts).value⟩ := by
  simp [finish, h, bind, pure]

variable (p)

theorem events_goOn :
    (p.goOn more).events = if p.going then (more p.counts).events else [] := by
  cases hp : p.going with
  | false => rw [goOn_stopped more hp]; rfl
  | true => rw [goOn_going more hp]; rfl

/-- Going on and then finishing is finishing with both. -/
theorem goOn_finish :
    (p.goOn more >>= fun q => q.finish rest) =
      p.finish fun counts => more counts >>= fun q => q.finish rest := by
  cases hp : p.going with
  | false =>
      rw [goOn_stopped more hp, finish_stopped _ hp]
      exact finish_stopped rest hp
  | true =>
      -- a line that ends on the way keeps on both sides what came out before
      rw [goOn_going more hp, finish_going _ hp]
      generalize more p.counts = q
      obtain ⟨events, counts, items, going⟩ := q
      cases going <;> simp [finish, bind, pure]

theorem goOn_goOn (later : List Nat → Traced Event Pushed) :
    (p.goOn more >>= fun q => q.goOn later) =
      p.goOn fun counts => more counts >>= fun q => q.goOn later := by
  cases hp : p.going with
  | false =>
      rw [goOn_stopped more hp, goOn_stopped _ hp]
      exact goOn_stopped later hp
  | true =>
      rw [goOn_going more hp, goOn_going _ hp]
      generalize more p.counts = q
      obtain ⟨events, counts, items, going⟩ := q
      cases going <;> simp [goOn, bind, pure]

end

end Pushed

section
variable (push : List Nat → Item → Traced Event Pushed) (counts : List Nat)

/-- Pushes items into a line one after the other, each completely before the next is taken, as long
as the line is going. -/
def feed (counts : List Nat) : List Item → Traced Event Pushed
  | [] => pure ⟨counts, [], true⟩
  | x :: xs => do (← push counts x).goOn fun counts => feed counts xs

/-- Pushes the items of a run into a line, as they are pulled. -/
def drive (counts : List Nat) : Trace Event → Traced Event (List Item)
  | .ended events => ⟨events, []⟩
  | .pull first rest => do
    (← push counts (← first)).finish fun counts => drive counts (rest ())

theorem feed_append (xs ys : List Item) :
    feed push counts (xs ++ ys) =
      feed push counts xs >>= fun p => p.goOn fun counts => feed push counts ys := by
  induction xs generalizing counts with
  | nil => simp [feed, Pushed.goOn, bind, pure]
  | cons x xs ih =>
      rw [List.cons_append, feed, feed, bind_assoc]
      congr 1
      funext p
      simp only [ih, Pushed.goOn_goOn]

theorem drive_after (events : List Event) (t : Trace Event) :
    drive push counts (t.after events) = .emitAll events >>= fun _ => drive push counts t := by
  cases t with
  | ended closing => rfl
  | pull first rest => simp [drive, Trace.after, Traced.emitAll, bind]

/-- Ready items in front of a run are fed before it. -/
theorem drive_prepend (xs : List Item) (t : Unit → Trace Event) :
    drive push counts (.prepend xs t) =
      feed push counts xs >>= fun p => p.finish fun counts => drive push counts (t ()) := by
  induction xs generalizing counts with
  | nil => simp [feed, Trace.prepend, Pushed.finish, bind, pure]
  | cons x xs ih =>
      rw [Trace.prepend, drive, feed, bind_assoc, pure_bind]
      congr 1
      funext p
      simp only [ih, Pushed.goOn_finish]

theorem drive_ofItems (xs : List Item) :
    drive push counts (.ofItems xs) =
      ⟨(feed push counts xs).events, (feed push counts xs).value.items⟩ := by
  rw [Trace.ofItems, drive_prepend]
  generalize feed push counts xs = p
  obtain ⟨events, counts, items, going⟩ := p
  cases going <;> simp [drive, Pushed.finish, bind, pure]

end

/-! ### Stages that look at one item at a time -/

/-- A stage that answers every item by itself. -/
inductive ItemStage where
  | evaluate (phrase : Phrase)
  | shell (phrase : Phrase)
  | errorHandler (phrase : Phrase)
  | filter (phrase : Phrase)
  | flatMap (phrase : Phrase)
  | log (phrase : Phrase)
  | write (phrase : Phrase)
  | terminate (phrase : Phrase)
  deriving DecidableEq, Repr

namespace ItemStage

/-- The stage of a pipeline that it is. -/
def toStage : ItemStage → Stage
  | .evaluate phrase => .evaluate phrase
  | .shell phrase => .shell phrase
  | .errorHandler phrase => .errorHandler phrase
  | .filter phrase => .filter phrase
  | .flatMap phrase => .flatMap phrase
  | .log phrase => .log phrase
  | .write phrase => .write phrase
  | .terminate phrase => .terminate phrase

/-- The items that a stage hands on for the item `x`, the one at position `i` of those it takes;
none at all where it ends the run. -/
def handOn (host : Host) (env : Environment) (stage : ItemStage) (x : Item) (i : Nat) :
    Traced Event (Option (List Item)) :=
  match stage with
  | .evaluate phrase => ⟨[], some [phrase.answerFor host env x i]⟩
  | .shell phrase =>
    let run := phrase.commandFor host env x i
    ⟨run.events, some [run.value]⟩
  | .errorHandler phrase =>
    match x with
    | .failure _ => ⟨[], some [phrase.answerForFailure host env x i]⟩
    | .value _ => ⟨[], some [x]⟩
  | .filter phrase => ⟨[], if (phrase.answerFor host env x i).Falsy then some [] else some [x]⟩
  | .flatMap phrase => ⟨[], some (phrase.answerFor host env x i).parts⟩
  | .log phrase => ⟨[.log (phrase.answerFor host env x i)], some [x]⟩
  | .write phrase => ⟨[.write (phrase.answerFor host env x i)], some [x]⟩
  | .terminate phrase =>
    ⟨[], if phrase.answerFor host env x i = .value (.bool true) then none else some [x]⟩

/-- Pushes an item through a line of stages.  The first stage takes it, and each item that it hands
on goes through all later stages before the next one. -/
def push (host : Host) (env : Environment) : List ItemStage → List Nat → Item → Traced Event Pushed
  | [], counts, x => pure ⟨counts, [x], true⟩
  | stage :: line, counts, x => do
    -- a stage counts the items that it takes, whatever becomes of them
    let taken := counts.headD 0
    match ← stage.handOn host env x taken with
    | none => return ⟨(taken + 1) :: counts.tail, [], false⟩
    | some ys =>
      let p ← feed (push host env line) counts.tail ys
      return { p with counts := (taken + 1) :: p.counts }

/-- Pushes items into a line that has not taken any yet. -/
def depthFirst (host : Host) (env : Environment) (line : List ItemStage) (xs : List Item) :
    Traced Event Pushed :=
  feed (push host env line) [] xs

/-- The run that pulls another through stages, each of which has taken some items already. -/
def through (host : Host) (env : Environment) :
    List ItemStage → List Nat → Trace Event → Trace Event
  | [], _, t => t
  | stage :: line, counts, t =>
    through host env line counts.tail (t.handOnFrom (stage.handOn host env) (counts.headD 0))

theorem push_none {host : Host} {env : Environment} {stage : ItemStage} {counts : List Nat}
    {x : Item} (line : List ItemStage)
    (h : (stage.handOn host env x (counts.headD 0)).value = none) :
    push host env (stage :: line) counts x =
      ⟨(stage.handOn host env x (counts.headD 0)).events,
        (counts.headD 0 + 1) :: counts.tail, [], false⟩ := by
  simp only [push, bind, pure, h, List.append_nil]

theorem push_some {host : Host} {env : Environment} {stage : ItemStage} {counts : List Nat}
    {x : Item} {ys : List Item} (line : List ItemStage)
    (h : (stage.handOn host env x (counts.headD 0)).value = some ys) :
    push host env (stage :: line) counts x = do
      .emitAll (stage.handOn host env x (counts.headD 0)).events
      let p ← feed (push host env line) counts.tail ys
      return { p with counts := (counts.headD 0 + 1) :: p.counts } := by
  simp only [push, bind, pure, h, Traced.emitAll]

/-- Pushing what the first stage hands on into the later ones is pushing into the whole line. -/
theorem drive_handOnFrom (host : Host) (env : Environment) (stage : ItemStage)
    (line : List ItemStage) (counts : List Nat) (t : Trace Event) :
    drive (push host env line) counts.tail
        (t.handOnFrom (stage.handOn host env) (counts.headD 0)) =
      drive (push host env (stage :: line)) counts t := by
  induction t generalizing counts with
  | ended events => rfl
  | pull first rest ih =>
      cases ha : (stage.handOn host env first.value (counts.headD 0)).value with
      | none =>
          -- the line ends here, and the rest is not looked at
          rw [Trace.handOnFrom_none rest ha, drive, drive]
          simp only [bind, pure, push_none line ha, Pushed.finish, Bool.false_eq_true, if_false,
            List.append_nil]
      | some ys =>
          rw [Trace.handOnFrom_some rest ha, drive_after, drive_prepend, drive]
          simp only [bind, push_some line ha, Traced.emitAll]
          -- what is handed on is fed to the later stages, while this one has taken one item more
          generalize feed (push host env line) counts.tail ys = p
          obtain ⟨events, later, items, going⟩ := p
          cases going with
          | false => simp [Pushed.finish, pure]
          | true =>
              have hrest := ih () ((counts.headD 0 + 1) :: later)
              rw [List.tail_cons, List.headD_cons] at hrest
              simp only [Pushed.finish, if_true, bind, pure, hrest, List.append_assoc,
                List.append_nil]

/-- **Pulling is pushing**, from any run and any counts. -/
theorem collect_through (host : Host) (env : Environment) (line : List ItemStage)
    (counts : List Nat) (t : Trace Event) :
    (through host env line counts t).collect = drive (push host env line) counts t := by
  induction line generalizing counts t with
  | nil =>
      -- without stages every item comes out as it is pulled
      rw [through]
      induction t with
      | ended events => rfl
      | pull first rest ih =>
          rw [Trace.collect, ih, drive]
          simp [push, Pushed.finish]
  | cons stage line ih => rw [through, ih, drive_handOnFrom]

/-! ### Chains of a pipeline -/

/-- The plan that a stage builds on another. -/
def plan (host : Host) (env : Environment) (input : Plan Event) : ItemStage → Plan Event
  | .evaluate phrase => Stage.evaluatePlan (some input) (host.prepare phrase) env
  | .shell phrase =>
    Stage.shellPlan host.toServices (some input) (host.prepareCommand phrase) env
  | .errorHandler phrase => Stage.errorHandlerPlan input (host.prepare phrase) env
  | .filter phrase => Stage.filterPlan input (host.prepare phrase) env
  | .flatMap phrase => Stage.flatMapPlan input (host.prepare phrase) env
  | .log phrase => Stage.tapPlan .log input (host.prepare phrase) env
  | .write phrase => Stage.tapPlan .write input (host.prepare phrase) env
  | .terminate phrase => Stage.terminatePlan input (host.prepare phrase) env

theorem opening_plan (host : Host) (env : Environment) (input : Plan Event) (stage : ItemStage) :
    (stage.plan host env input).opening = input.opening := by
  cases stage <;> rfl

theorem handOn_terminate (host : Host) (env : Environment) (phrase : Phrase) :
    (terminate phrase).handOn host env = fun x i => do
      return if ← pure (decide (phrase.answerFor host env x i = .value (.bool true)))
        then none else some [x] := by
  funext x i
  by_cases hx : phrase.answerFor host env x i = .value (.bool true) <;> simp [handOn, hx] <;> rfl

/-- A run of the plan pulls one of its input, and hands on what the stage answers. -/
theorem run_plan (host : Host) (env : Environment) (input : Plan Event) (stage : ItemStage)
    (m : Memory) :
    (stage.plan host env input).run m =
      ((input.run m).1.handOnFrom (stage.handOn host env) 0, (input.run m).2) := by
  cases stage with
  | evaluate phrase =>
      rw [plan, Stage.evaluatePlan_some]
      exact Prod.ext (Trace.mapFrom_eq_handOnFrom _ _ 0) rfl
  | shell phrase =>
      have hanswer : (shell phrase).handOn host env = fun x i => do
          return some [← phrase.commandFor host env x i] := by
        funext x i
        exact Traced.ext (List.append_nil _).symm rfl
      rw [plan, Stage.shellPlan_some, hanswer]
      exact Prod.ext (Trace.mapFrom_eq_handOnFrom _ _ 0) rfl
  | errorHandler phrase =>
      have hanswer : (errorHandler phrase).handOn host env = fun x i => do
          let y ← pure (match x with
            | .failure _ => phrase.answerForFailure host env x i
            | .value _ => x)
          return some [y] := by
        funext x i
        cases x <;> rfl
      rw [plan, Stage.errorHandlerPlan_eq, hanswer]
      exact Prod.ext (Trace.mapFrom_eq_handOnFrom _ _ 0) rfl
  | filter phrase =>
      have hanswer : (filter phrase).handOn host env = fun x i => do
          return some (if ← pure (decide (¬ (phrase.answerFor host env x i).Falsy))
            then [x] else []) := by
        funext x i
        by_cases hx : (phrase.answerFor host env x i).Falsy <;> simp [handOn, hx] <;> rfl
      rw [plan, Stage.filterPlan_eq, hanswer]
      exact Prod.ext (Trace.filterFrom_eq_handOnFrom _ _ 0) rfl
  | flatMap phrase =>
      rw [plan, Stage.flatMapPlan_eq]
      exact Prod.ext (Trace.flatMapFrom_eq_handOnFrom _ _ 0) rfl
  | log phrase =>
      rw [plan, Stage.tapPlan_eq]
      exact Prod.ext (Trace.mapFrom_eq_handOnFrom _ _ 0) rfl
  | write phrase =>
      rw [plan, Stage.tapPlan_eq]
      exact Prod.ext (Trace.mapFrom_eq_handOnFrom _ _ 0) rfl
  | terminate phrase =>
      rw [plan, Stage.terminatePlan_eq, handOn_terminate]
      exact Prod.ext (Trace.takeUntilFrom_eq_handOnFrom _ _ 0) rfl

/-- **One stage.**  Where there is a current sequence it can be applied, without events. -/
theorem apply_toStage (host : Host) (stage : ItemStage) {s : State} {q : Sequence Event}
    (hc : s.current = some q) :
    stage.toStage.apply host s = ⟨[], .ok (s.advancePlan (stage.plan host s.env q.plan))⟩ := by
  have hi : s.input = q.plan := by rw [State.input, hc]
  cases stage with
  | evaluate | shell => rw [toStage, Stage.apply, hc]; rfl
  | errorHandler | filter | flatMap | log | write | terminate =>
      rw [toStage, Stage.apply, hi]; rfl

/-- **Any number of stages.**  A run of the last sequence pulls one of the first through all of
them. -/
theorem applyAll_toStage (host : Host) :
    ∀ (line : List ItemStage) {s : State} {q : Sequence Event}, s.current = some q →
      ∃ t, Stage.applyAll host (line.map toStage) s = ⟨[], .ok t⟩ ∧
        t.input.opening = q.plan.opening ∧
        ∀ m : Memory, t.input.run m =
          (through host s.env line [] (q.plan.run m).1, (q.plan.run m).2)
  | [], s, q, hc => by
      have hi : s.input = q.plan := by rw [State.input, hc]
      exact ⟨s, rfl, by rw [hi], fun m => by rw [hi]; rfl⟩
  | stage :: line, s, q, hc => by
      obtain ⟨t, hrest, hopen, hrun⟩ := applyAll_toStage host line
        (s := s.advancePlan (stage.plan host s.env q.plan)) (q := ⟨s.nextHandle, _⟩) rfl
      refine ⟨t, ?_, hopen.trans (opening_plan host s.env q.plan stage), fun m => ?_⟩
      · rw [List.map_cons, Stage.applyAll, apply_toStage host stage hc, Traced.andThen_ok, hrest]
        rfl
      · rw [hrun m, run_plan]
        rfl

/-! ### The item that ends a run -/

theorem through_append (host : Host) (env : Environment) (line later : List ItemStage)
    (t : Trace Event) :
    through host env (line ++ later) [] t =
      through host env later [] (through host env line [] t) := by
  induction line generalizing t with
  | nil => rfl
  | cons stage line ih => exact ih _

end ItemStage

namespace Trace

variable {ε : Type}

/-- The run that ends at its item `k`, with the events of the pull that would have yielded it. -/
def cut : Nat → Trace ε → Trace ε
  | _, .ended events => .ended events
  | 0, .pull first _ => .ended first.events
  | k + 1, .pull first rest => .pull first fun _ => cut k (rest ())

/-- Every pull up to item `k` is there, that of item `k` included, and none behind it. -/
theorem events_cut (t : Trace ε) {k : Nat} (h : k < t.pulls.length) :
    (t.cut k).events = (t.pulls.take (k + 1)).flatMap (·.events) := by
  induction t generalizing k with
  | ended events => cases h
  | pull first rest ih =>
      cases k with
      | zero => simp [cut, pulls]
      | succ k => simp [cut, pulls, ih () (Nat.lt_of_succ_lt_succ h)]

theorem takeUntilFrom_eq_cut (stop : Item → Nat → Traced ε Bool)
    (hpure : ∀ x i, (stop x i).events = []) (t : Trace ε) (i : Nat) {k : Nat}
    (h : (t.items.zipIdx i).findIdx? (fun x => (stop x.1 x.2).value) = some k) :
    takeUntilFrom stop i t = t.cut k := by
  induction t generalizing i k with
  | ended events => cases h
  | pull first rest ih =>
      rw [items_pull, List.zipIdx_cons, List.findIdx?_cons] at h
      by_cases hs : (stop first.value i).value = true
      · rw [if_pos hs] at h
        cases h
        simp [takeUntilFrom, hs, hpure, cut]
      · rw [if_neg hs] at h
        obtain ⟨j, hj, rfl⟩ := Option.map_eq_some_iff.mp h
        simp [takeUntilFrom, hs, hpure, cut, ih () (i + 1) hj]

end Trace

/-- The state with given items as its current sequence. -/
def State.over (s : State) (handle : Handle) (xs : List Item) : State :=
  { s with current := some ⟨handle, .items xs⟩ }

namespace ItemStage

/-- A chain over given items is built without events, and every run of it pulls them through. -/
theorem applyAll_over (host : Host) (s : State) (handle : Handle) (xs : List Item)
    (line : List ItemStage) :
    ∃ t, Stage.applyAll host (line.map toStage) (s.over handle xs) = ⟨[], .ok t⟩ ∧
      t.input.opening = [] ∧
      ∀ m : Memory, (t.input.run m).1 = through host s.env line [] (.ofItems xs) := by
  obtain ⟨t, happly, hopen, hrun⟩ :=
    applyAll_toStage host line (s := s.over handle xs) (q := ⟨handle, .items xs⟩) rfl
  exact ⟨t, happly, hopen, fun m => congrArg Prod.fst (hrun m)⟩

theorem collect_through_ofItems (host : Host) (env : Environment) (line : List ItemStage)
    (xs : List Item) :
    (through host env line [] (.ofItems xs)).collect =
      ⟨(depthFirst host env line xs).events, (depthFirst host env line xs).value.items⟩ := by
  rw [collect_through, drive_ofItems]
  rfl

/-- Behind a stage that ends the run there is what comes before the item that makes it end. -/
theorem through_terminate {host : Host} {env : Environment} {line rest : List ItemStage}
    {phrase : Phrase} {t : Trace Event} {k : Nat}
    (h : ((through host env line [] t).items.zipIdx.findIdx? fun x =>
      phrase.answerFor host env x.1 x.2 = .value (.bool true)) = some k) :
    through host env (line ++ .terminate phrase :: rest) [] t =
      through host env rest [] ((through host env line [] t).cut k) := by
  rw [through_append, through, List.tail_nil, List.headD_nil]
  refine congrArg (through host env rest []) ?_
  rw [← Trace.takeUntilFrom_eq_cut
    (fun x i => pure (decide (phrase.answerFor host env x i = .value (.bool true))))
    (fun _ _ => rfl) _ 0 h, Trace.takeUntilFrom_eq_handOnFrom, handOn_terminate]

/-- **Pulling is pushing depth first.**  Let a chain of stages that look at one item at a time be
applied to a state whose current sequence has the items `xs`.  It is built and opened without
events, and every full run of it yields what pushing the items depth first yields, with the same
events in the same order.

In particular the events of the items in front come before those of the items behind them, which
have none if the line has ended by then.  And where a stage of the chain ends the run, at item `k`
of those that reach it, the stages before it are pulled `k + 1` times and have the events of these
pulls: the chain does what the stages behind do with their first `k` items and that end. -/
theorem run_chain (host : Host) (s : State) (handle : Handle) (xs : List Item)
    (chain : List ItemStage) :
    (∃ t, Stage.applyAll host (chain.map toStage) (s.over handle xs) = ⟨[], .ok t⟩ ∧
      t.input.opening = [] ∧
      ∀ m : Memory, (t.input.run m).1.collect =
        ⟨(depthFirst host s.env chain xs).events, (depthFirst host s.env chain xs).value.items⟩) ∧
    (∀ ys zs, xs = ys ++ zs →
      (depthFirst host s.env chain xs).events =
        (depthFirst host s.env chain ys).events ++
          if (depthFirst host s.env chain ys).value.going then
            (feed (push host s.env chain) (depthFirst host s.env chain ys).value.counts zs).events
          else []) ∧
    ∀ line phrase rest before k, chain = line ++ .terminate phrase :: rest →
      Stage.applyAll host (line.map toStage) (s.over handle xs) = ⟨[], .ok before⟩ →
      (before.input.trace.items.zipIdx.findIdx? fun x =>
        phrase.answerFor host s.env x.1 x.2 = .value (.bool true)) = some k →
      (before.input.trace.cut k).events =
          (before.input.trace.pulls.take (k + 1)).flatMap (·.events) ∧
        drive (push host s.env rest) [] (before.input.trace.cut k) =
          ⟨(depthFirst host s.env chain xs).events,
            (depthFirst host s.env chain xs).value.items⟩ := by
  refine ⟨?_, ?_, ?_⟩
  · obtain ⟨t, happly, hopen, hrun⟩ := applyAll_over host s handle xs chain
    refine ⟨t, happly, hopen, fun m => ?_⟩
    rw [hrun m, collect_through_ofItems]
  · rintro ys zs rfl
    rw [depthFirst, feed_append, Traced.events_bind, Pushed.events_goOn]
    rfl
  · rintro line phrase rest before k rfl hbefore htrigger
    -- the stages before the one that ends the run are a chain of their own
    obtain ⟨t, happly, -, hrun⟩ := applyAll_over host s handle xs line
    rw [hbefore] at happly
    cases happly
    have hlt : k < before.input.trace.pulls.length := by
      have := (List.findIdx?_eq_some_iff_getElem.mp htrigger).1
      rwa [List.length_zipIdx, Trace.items, List.length_map] at this
    have htrace : before.input.trace = through host s.env line [] (.ofItems xs) := hrun .empty
    refine ⟨Trace.events_cut _ hlt, ?_⟩
    rw [htrace] at htrigger ⊢
    rw [← collect_through, ← through_terminate htrigger, collect_through_ofItems]

/-- Answers every source with the item, as the standard evaluator answers `x`, and every command
with two lines and an empty one. -/
def itemHost : Host :=
  { command := Services.commandsBy fun _ => .ok ["a", "", "b"]
    load := Services.noModules
    evaluator :=
      { compile := fun _ => .ok ()
        evaluate := fun _ b _ => .ok (b.value.getD (.value .null)) } }

/-- A list of four is expanded.  Its first member goes all the way, with a command on it; the second
is dropped; the third is logged and ends the run.  The fourth is not logged, and neither is the item
behind the list. -/
theorem run_chain_thirdMember :
    ∃ t before,
      Stage.applyAll itemHost
          ([.flatMap (.source "x"), .filter (.source "x"), .log (.source "x"),
            .terminate (.source "x"), .shell (.quoted ["ls"]), .write (.source "x")].map toStage)
          ((State.initial none).over 0
            [.value (.list [.text "p", .null, .bool true, .text "q"]), .value (.text "r")]) =
        ⟨[], .ok t⟩ ∧
      (∀ m : Memory, (t.input.run m).1.collect =
        ⟨[.log (.value (.text "p")), .command "ls", .write (.value (.list [.text "a", .text "b"])),
            .log (.value (.bool true))],
          [.value (.list [.text "a", .text "b"])]⟩) ∧
      Stage.applyAll itemHost
          ([.flatMap (.source "x"), .filter (.source "x"), .log (.source "x")].map toStage)
          ((State.initial none).over 0
            [.value (.list [.text "p", .null, .bool true, .text "q"]), .value (.text "r")]) =
        ⟨[], .ok before⟩ ∧
      (before.input.trace.pulls.take 2).flatMap (·.events) =
        [.log (.value (.text "p")), .log (.value (.bool true))] := by
  obtain ⟨⟨t, happly, -, hrun⟩, -, htrigger⟩ := run_chain itemHost (.initial none) 0
    [.value (.list [.text "p", .null, .bool true, .text "q"]), .value (.text "r")]
    [.flatMap (.source "x"), .filter (.source "x"), .log (.source "x"), .terminate (.source "x"),
      .shell (.quoted ["ls"]), .write (.source "x")]
  have hbefore := htrigger [.flatMap (.source "x"), .filter (.source "x"), .log (.source "x")]
    (.source "x") [.shell (.quoted ["ls"]), .write (.source "x")] _ 1 rfl rfl rfl
  exact ⟨t, _, happly, hrun, rfl, hbefore.1.symm⟩

end ItemStage

end Pipeline
