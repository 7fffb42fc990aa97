import Pipeline.Proofs.Cells
import Pipeline.Session

/-!
# Independence — runs do not disturb each other

Any number of runs can be in progress at once, on any sequences, several on one sequence among
them, and be pulled in any order.  A desk holds such runs and the one thing that they share, the
memory of memoized plans (`Desk`).  A turn opens a run or pulls one (`Desk.take`).

**Every run goes as if it were alone** (`Desk.runs_independent`), as long as its plan memoizes
nothing: what its pull number `k` answers, and the events of that pull, do not depend on the runs
beside it and on the turns that they took.

A run without memoized plans has one trace, whatever the memory holds (`Unmemoized.settled`).
Where it stands is how often it has been pulled (`Stream.At`).  A pull of its own moves it on by
one (`Stream.At.next`); any other turn leaves it where it is (`Desk.Stands.after`).  The way from
one pull to one turn, and from there to any turns, is the same for all that can be said of a single
run (`Desk.Has.take`, `Desk.Has.after`).

Opening a run is not always silent.  The function of a deferred plan is called when a run is
opened, and what it does before its items are waited for happens then
(`Desk.opening_calls_deferred`).

Sessions hold their runs under names; there the same is true (`Session.reply_next`).
-/

namespace Pipeline

variable {ε : Type}

namespace Trace

/-- What pull number `k` of a run answers, counted from zero.  Behind the end there is nothing. -/
def answer : Trace ε → Nat → Traced ε (Option Item)
  | .ended events, 0 => ⟨events, none⟩
  | .ended _, _ + 1 => pure none
  | .pull first _, 0 => some <$> first
  | .pull _ rest, k + 1 => (rest ()).answer k

theorem value_answer (t : Trace ε) (k : Nat) : (t.answer k).value = t.items[k]? := by
  induction t generalizing k with
  | ended events => cases k <;> rfl
  | pull first rest ih =>
      cases k with
      | zero => rfl
      | succ k => exact ih () k

end Trace

namespace Plan

/-! ### Plans that memoize nothing -/

/-- The plan is built without memoizing. -/
inductive Unmemoized : Plan ε → Prop where
  | items (xs : List Item) : Unmemoized (.items xs)
  | deferred (opening : List ε) (result : Traced ε (List Item)) :
      Unmemoized (.deferred opening result)
  | map (f : Item → Nat → Traced ε Item) {p : Plan ε} (h : Unmemoized p) : Unmemoized (.map f p)
  | filter (keep : Item → Nat → Traced ε Bool) {p : Plan ε} (h : Unmemoized p) :
      Unmemoized (.filter keep p)
  | flatMap (f : Item → Nat → Traced ε (List Item)) {p : Plan ε} (h : Unmemoized p) :
      Unmemoized (.flatMap f p)
  | takeUntil (stop : Item → Nat → Traced ε Bool) {p : Plan ε} (h : Unmemoized p) :
      Unmemoized (.takeUntil stop p)
  | fold (seed : Traced ε Item) (f : Item → Item → Nat → Traced ε Item) {p : Plan ε}
      (h : Unmemoized p) : Unmemoized (.fold seed f p)
  | collect (f : List Item → Item) {p : Plan ε} (h : Unmemoized p) : Unmemoized (.collect f p)
  | zip (combine : List (Option Item) → Traced ε Item) {members : List (Plan ε)}
      (h : ∀ p ∈ members, Unmemoized p) : Unmemoized (.zip combine members)

/-- Without memoizing there is one trace, and no cell is filled. -/
theorem Unmemoized.settled {p : Plan ε} (h : p.Unmemoized) : p.Settled := by
  induction h with
  | items xs => exact settled_items xs
  | deferred opening result => exact settled_deferred opening result
  | map f _ ih => exact ih.map f
  | filter keep _ ih => exact ih.filter keep
  | flatMap f _ ih => exact ih.flatMap f
  | takeUntil stop _ ih => exact ih.takeUntil stop
  | fold seed f _ ih => exact ih.fold seed f
  | collect f _ ih => exact ih.collect f
  | zip combine _ ih => exact settled_zip ih combine

/-- No deferred plan that opening a run reaches does anything before the first pull. -/
inductive Quiet : Plan ε → Prop where
  | items (xs : List Item) : Quiet (.items xs)
  | deferred (result : Traced ε (List Item)) : Quiet (.deferred [] result)
  | map (f : Item → Nat → Traced ε Item) {p : Plan ε} (h : Quiet p) : Quiet (.map f p)
  | filter (keep : Item → Nat → Traced ε Bool) {p : Plan ε} (h : Quiet p) : Quiet (.filter keep p)
  | flatMap (f : Item → Nat → Traced ε (List Item)) {p : Plan ε} (h : Quiet p) :
      Quiet (.flatMap f p)
  | takeUntil (stop : Item → Nat → Traced ε Bool) {p : Plan ε} (h : Quiet p) :
      Quiet (.takeUntil stop p)
  | fold (seed : Traced ε Item) (f : Item → Item → Nat → Traced ε Item) (p : Plan ε) :
      Quiet (.fold seed f p)
  | collect (f : List Item → Item) (p : Plan ε) : Quiet (.collect f p)
  | zip (combine : List (Option Item) → Traced ε Item) {members : List (Plan ε)}
      (h : ∀ p ∈ members, Quiet p) : Quiet (.zip combine members)
  | memoized (cell : Nat) (p : Plan ε) : Quiet (.memoized cell p)

theorem openingAll_eq_nil {members : List (Plan ε)} (h : ∀ p ∈ members, p.opening = []) :
    openingAll members = [] := by
  induction members with
  | nil => rfl
  | cons p members ih =>
      obtain ⟨hp, hmembers⟩ := List.forall_mem_cons.mp h
      rw [openingAll, hp, ih hmembers, List.append_nil]

theorem Quiet.opening_eq_nil {p : Plan ε} (h : p.Quiet) : p.opening = [] := by
  induction h with
  | items | deferred | fold | collect | memoized => rfl
  | map f _ ih | filter f _ ih | flatMap f _ ih | takeUntil f _ ih => rw [opening, ih]
  | zip combine _ ih => rw [opening, openingAll_eq_nil ih]

end Plan

namespace Stream

/-! ### Where a run stands -/

/-- The run has been pulled `k` times and goes on along the trace, whatever the memory holds. -/
inductive At (t : Trace ε) : Nat → Stream ε → Prop where
  | waiting {p : Plan ε} (settled : p.Settled) (h : p.trace = t) : At t 0 (.waiting p)
  | running {k : Nat} {rest : Unit → Trace ε} (h : ∀ j, (rest ()).answer j = t.answer (k + j)) :
      At t k (.running rest)
  | ended {k : Nat} (h : ∀ j, t.answer (k + j) = pure none) : At t k .ended

/-- A run goes on from its first pull to what remains. -/
theorem at_ofRest {t u : Trace ε} {k : Nat} (h : ∀ j, u.answer j = t.answer (k + j)) :
    u.next.1 = t.answer k ∧ At t (k + 1) (ofRest u.next.2) := by
  have hlater : ∀ j, t.answer (k + 1 + j) = u.answer (j + 1) := by
    intro j
    rw [h (j + 1)]
    congr 1
    omega
  cases u with
  | ended events => exact ⟨h 0, .ended hlater⟩
  | pull first rest => exact ⟨h 0, .running fun j => (hlater j).symm⟩

/-- **A pull.**  It answers what is next on the trace, and the run stands one further. -/
theorem At.next {t : Trace ε} {k : Nat} {s : Stream ε} (h : At t k s) (m : Memory) :
    (s.next m).1 = t.answer k ∧ At t (k + 1) (s.next m).2.1 := by
  cases h with
  | waiting settled htrace =>
      rw [Stream.next, settled m, htrace]
      exact at_ofRest fun j => by rw [Nat.zero_add]
  | running hrest => exact at_ofRest hrest
  | ended hend =>
      refine ⟨(hend 0).symm, .ended fun j => ?_⟩
      rw [Nat.add_assoc]
      exact hend (1 + j)

/-- A run that was just opened stands before its first pull. -/
theorem at_ofSequence {s : Sequence ε} (h : s.plan.Unmemoized) :
    At s.plan.trace 0 (ofSequence s).value :=
  .waiting h.settled rfl

end Stream

/-! ### Turns -/

/-- What can be done with runs: one is opened on a sequence, or the run that was opened as number
`number`, counted from zero, is pulled. -/
inductive Turn (ε : Type) where
  | opening (sequence : Sequence ε)
  | pull (number : Nat)

/-- The turn pulls this run. -/
def Turn.pulls (number : Nat) : Turn ε → Bool
  | .opening _ => false
  | .pull n => n == number

/-- Runs in progress, in the order in which they were opened, and the memory that they share. -/
structure Desk (ε : Type) where
  streams : List (Stream ε) := []
  memory : Memory := .empty

namespace Desk

/-- Takes a turn; the answer of a pull is what it yields. -/
def take (d : Desk ε) : Turn ε → Traced ε (Option Item) × Desk ε
  | .opening sequence =>
    let opened := Stream.ofSequence sequence
    ((fun _ => none) <$> opened, { d with streams := d.streams ++ [opened.value] })
  | .pull number =>
    match d.streams[number]? with
    | some stream =>
      let r := stream.next d.memory
      (r.1, ⟨d.streams.set number r.2.1, r.2.2⟩)
    | none => (pure none, d)

/-- The desk behind some turns. -/
def after (d : Desk ε) (turns : List (Turn ε)) : Desk ε :=
  turns.foldl (fun d turn => (d.take turn).2) d

theorem take_kept (d : Desk ε) (turn : Turn ε) : d.memory.Kept (d.take turn).2.memory := by
  cases turn with
  | opening sequence => exact .refl _
  | pull number =>
      rw [take]
      split
      · exact Stream.next_kept _ _
      · exact .refl _

/-- Whatever is done with runs, what was kept is kept. -/
theorem after_kept (d : Desk ε) (turns : List (Turn ε)) :
    d.memory.Kept (d.after turns).memory := by
  induction turns generalizing d with
  | nil => exact .refl _
  | cons turn turns ih => exact (d.take_kept turn).trans (ih _)

/-- The run opened as number `number`, pulled `k` times, is as `P` says, given what is kept. -/
def Has (P : Memory → Nat → Stream ε → Prop) (d : Desk ε) (number k : Nat) : Prop :=
  ∃ stream, d.streams[number]? = some stream ∧ P d.memory k stream

namespace Has

variable {P : Memory → Nat → Stream ε → Prop} {d : Desk ε} {number k : Nat}

/-- **One turn.**  What stays true when more is kept, and is carried along by a pull, is carried
along by every turn. -/
theorem take (mono : ∀ m m' k s, Memory.Kept m m' → P m k s → P m' k s)
    (step : ∀ m k s, P m k s → P (s.next m).2.2 (k + 1) (s.next m).2.1)
    (h : d.Has P number k) (turn : Turn ε) :
    (d.take turn).2.Has P number (k + if turn.pulls number then 1 else 0) := by
  obtain ⟨stream, hstream, hP⟩ := h
  have hlt : number < d.streams.length := (List.getElem?_eq_some_iff.mp hstream).1
  cases turn with
  | opening sequence =>
      refine ⟨stream, ?_, hP⟩
      rw [Desk.take, List.getElem?_append_left hlt, hstream]
  | pull n =>
      by_cases hn : n = number
      · subst hn
        rw [Turn.pulls, beq_self_eq_true, if_pos rfl, Desk.take, hstream]
        exact ⟨_, List.getElem?_set_self hlt, step _ k stream hP⟩
      · rw [Turn.pulls, beq_false_of_ne hn, if_neg Bool.false_ne_true]
        refine ⟨stream, ?_, mono _ _ k stream (d.take_kept (.pull n)) hP⟩
        rw [Desk.take]
        split
        · rw [List.getElem?_set_ne hn, hstream]
        · exact hstream

/-- **Any turns.** -/
theorem after (mono : ∀ m m' k s, Memory.Kept m m' → P m k s → P m' k s)
    (step : ∀ m k s, P m k s → P (s.next m).2.2 (k + 1) (s.next m).2.1)
    (h : d.Has P number k) (turns : List (Turn ε)) :
    (d.after turns).Has P number (k + turns.countP (·.pulls number)) := by
  induction turns generalizing d k with
  | nil => exact h
  | cons turn turns ih =>
      rw [List.countP_cons, Nat.add_comm (turns.countP _), ← Nat.add_assoc]
      exact ih (h.take mono step turn)

end Has

/-- Run `number` has been pulled `k` times and goes on along the trace. -/
def Stands (d : Desk ε) (number : Nat) (t : Trace ε) (k : Nat) : Prop :=
  ∃ stream, d.streams[number]? = some stream ∧ stream.At t k

theorem stands_opening (d : Desk ε) {sequence : Sequence ε} (h : sequence.plan.Unmemoized) :
    (d.take (.opening sequence)).2.Stands d.streams.length sequence.plan.trace 0 :=
  ⟨_, List.getElem?_concat_length, Stream.at_ofSequence h⟩

namespace Stands

variable {d : Desk ε} {number : Nat} {t : Trace ε} {k : Nat}

/-- A pull answers what is next on the trace. -/
theorem answer (h : d.Stands number t k) : (d.take (.pull number)).1 = t.answer k := by
  obtain ⟨stream, hstream, hat⟩ := h
  rw [Desk.take, hstream]
  exact (hat.next d.memory).1

/-- **Any turns.**  A run is moved on by its own pulls alone. -/
theorem after (h : d.Stands number t k) (turns : List (Turn ε)) :
    (d.after turns).Stands number t (k + turns.countP (·.pulls number)) :=
  Has.after (P := fun _ k stream => stream.At t k) (fun _ _ _ _ _ hat => hat)
    (fun m _ _ hat => (hat.next m).2) h turns

end Stands

/-- **A run beside others.**  Its next pull answers what comes behind its own earlier pulls on the
trace of its plan. -/
theorem answer_after (d : Desk ε) {sequence : Sequence ε} (h : sequence.plan.Unmemoized)
    (turns : List (Turn ε)) :
    (((d.take (.opening sequence)).2.after turns).take (.pull d.streams.length)).1 =
      sequence.plan.trace.answer (turns.countP (·.pulls d.streams.length)) := by
  rw [((stands_opening d h).after turns).answer, Nat.zero_add]

/-- **Runs are independent.**  Let a run of a sequence that memoizes nothing be opened on a desk,
whatever runs are in progress there and whatever is kept in memory, and let any turns follow.

* The next pull of the run answers the same item, or the end, with the same events as that pull of
  a run of the sequence that is alone on its desk: it is item `k` of the sequence, or the end, if
  `k` of the turns have pulled the run.
* Opening the run causes the events of calling the functions of the deferred sequences below it,
  the same on every desk, and none if these functions do nothing before they are waited for. -/
theorem runs_independent (d : Desk ε) {sequence : Sequence ε} (h : sequence.plan.Unmemoized)
    (turns : List (Turn ε)) :
    let number := d.streams.length
    let k := turns.countP (·.pulls number)
    let beside := ((d.take (.opening sequence)).2.after turns).take (.pull number)
    let alone :=
      ((Desk.take {} (.opening sequence)).2.after (List.replicate k (.pull 0))).take (.pull 0)
    beside.1 = alone.1 ∧ beside.1.value = sequence.items[k]? ∧
      (d.take (.opening sequence)).1.events = sequence.plan.opening ∧
      (sequence.plan.Quiet → sequence.plan.opening = []) := by
  intro number k beside alone
  have hbeside : beside.1 = sequence.plan.trace.answer k := answer_after d h turns
  have hcount : (List.replicate k (.pull 0 : Turn ε)).countP (·.pulls 0) = k :=
    List.countP_replicate
  have halone : alone.1 = sequence.plan.trace.answer k :=
    (answer_after {} h (List.replicate k (.pull 0))).trans (congrArg _ hcount)
  refine ⟨hbeside.trans halone.symm, ?_, List.append_nil _, Plan.Quiet.opening_eq_nil⟩
  rw [hbeside, Trace.value_answer]
  rfl

/-- Three items that are looked at on the way, up to the third. -/
def looked : Sequence Nat where
  handle := 0
  plan := .takeUntil (fun _ i => ⟨[10 + i], i == 2⟩)
    (.map (fun x i => ⟨[i], x⟩) (.items [.value .null, .value (.bool true), .value .null]))

/-- A second run of a sequence, opened behind the first pull of the first run.  Its own second pull
yields the second item and looks at it alone, whatever the first run and a third one do
meanwhile. -/
theorem runs_independent_secondRun :
    looked.plan.Unmemoized ∧
      ((((Desk.after {} [.opening looked, .pull 0]).take (.opening looked)).2.after
        [.pull 0, .pull 1, .opening looked, .pull 2, .pull 0]).take (.pull 1)).1 =
          ⟨[1, 11], some (.value (.bool true))⟩ := by
  have h : looked.plan.Unmemoized := .takeUntil _ (.map _ (.items _))
  exact ⟨h, (runs_independent (Desk.after {} [.opening looked, .pull 0]) h
    [.pull 0, .pull 1, .opening looked, .pull 2, .pull 0]).1⟩

/-- A deferred sequence of a session memoizes nothing, and yet its function is called when a run is
opened, before anything is pulled. -/
theorem opening_calls_deferred :
    let sequence := (Session.perform {} (.deferred "a" [.value .null])).2.slot "a"
    sequence.plan.Unmemoized ∧
      (Desk.take {} (.opening sequence)).1.events = [Probe.call "a" 0] :=
  ⟨.deferred _ _, rfl⟩

end Desk

/-! ### Sessions -/

namespace Request

/-- The request opens a run under this name. -/
def opens (name : String) : Request → Bool
  | .openStream _ target => target == name
  | _ => false

/-- The request pulls the run under this name. -/
def pulls (name : String) : Request → Bool
  | .next stream => stream == name
  | _ => false

end Request

namespace Session

theorem lookup_put {α : Type} (key name : String) (a : α) (table : List (String × α)) :
    (put key a table).lookup name = if name = key then some a else table.lookup name := by
  induction table with
  | nil =>
      by_cases h : name = key
      · simp [put, h]
      · simp [put, h, List.lookup_cons, beq_false_of_ne h]
  | cons entry table ih =>
      obtain ⟨k, old⟩ := entry
      rw [put]
      split
      · next hk =>
          subst hk
          by_cases h : name = k
          · simp [h]
          · simp [h, List.lookup_cons, beq_false_of_ne h]
      · next hk =>
          rw [List.lookup_cons, ih, List.lookup_cons]
          by_cases h : name = k
          · simp [h, hk]
          · simp [beq_false_of_ne h]

/-- **One request.**  It moves a run on if it pulls it, and leaves it where it is if not. -/
theorem at_perform {s : Session} {name : String} {t : Trace Probe} {k : Nat}
    (h : (s.stream name).At t k) (request : Request) (hkept : request.opens name = false) :
    ((s.perform request).2.stream name).At t (k + if request.pulls name then 1 else 0) := by
  cases request
  case openStream source target =>
    have hne : name ≠ target := by
      rintro rfl
      simp [Request.opens] at hkept
    rw [perform, stream, lookup_put, if_neg hne]
    exact h
  case next pulled =>
    rw [perform, stream, lookup_put]
    by_cases hp : name = pulled
    · subst hp
      rw [Request.pulls, beq_self_eq_true, if_pos rfl, if_pos rfl]
      exact (h.next s.memory).2
    · rw [Request.pulls, beq_false_of_ne (Ne.symm hp), if_neg hp]
      exact h
  all_goals exact h

/-- A run of a session that stands at pull `k` is moved on by its own pulls alone. -/
theorem getLast?_performAll {s : Session} {name : String} {t : Trace Probe} {k : Nat}
    (h : (s.stream name).At t k) {requests : List Request}
    (hkept : ∀ request ∈ requests, request.opens name = false) :
    (s.performAll (requests ++ [.next name])).getLast? =
      some (ofPull <$> t.answer (k + requests.countP (·.pulls name))) := by
  induction requests generalizing s k with
  | nil => exact congrArg (fun answer => some (ofPull <$> answer)) (h.next s.memory).1
  | cons request requests ih =>
      obtain ⟨hfirst, hrest⟩ := List.forall_mem_cons.mp hkept
      rw [List.cons_append, performAll, List.getLast?_cons, ih (at_perform h request hfirst) hrest,
        List.countP_cons, Nat.add_comm (requests.countP _), ← Nat.add_assoc]
      rfl

/-- **Runs of a session are independent.**  A run that was opened on a slot without memoized plans
answers what is next on the trace of that plan, whatever is asked for between its pulls: other runs,
or new sequences in any slot, also in its own. -/
theorem reply_next {s : Session} {source target : String}
    (h : (s.slot source).plan.Unmemoized) {requests : List Request}
    (hkept : ∀ request ∈ requests, request.opens target = false) :
    (s.performAll (.openStream source target :: (requests ++ [.next target]))).getLast? =
      some (ofPull <$>
        (s.slot source).plan.trace.answer (requests.countP (·.pulls target))) := by
  have hopen : ((s.perform (.openStream source target)).2.stream target).At
      (s.slot source).plan.trace 0 := by
    rw [perform, stream, lookup_put, if_pos rfl]
    exact Stream.at_ofSequence h
  rw [performAll, List.getLast?_cons, getLast?_performAll hopen hkept, Nat.zero_add]
  rfl

end Session

end Pipeline
