import Pipeline.Proofs.Independence
import Pipeline.Proofs.Notes

/-!
# Lockstep — who is pulled at each tick, and what happens through whom

A lockstep is watched by notes in the runs of its members: each pull of a member is noted where it
begins, and each event with the member whose pull caused it (`Trace.watched`).  Runs so watched go
through the same lockstep as the runs themselves; without the notes, the lockstep is the one that
is not watched (`project_watchedZip`).

**A lockstep, tick by tick** (`Plan.zip_lockstep`).  A tick pulls every member that has not ended,
once and from left to right, and no other; then the combining function is called on what they
yielded.  So of all that a watched lockstep notes, what concerns one member is what a full run of
this member alone would note (`filter_concerns_watchedZip`): its events once and in order, and one
pull more than it has items.

The form of a tick is read off `Trace.tick` (`tick_eq`, `tickAt_tick`) and carried along the
lockstep by its own recursion (`answer_zipMembers`).

A pull is one step, over before the next begins.  Where the pulls of a tick overlap because one of
them has to wait, its events may mix with those of the others; which members are pulled, and what
each of them causes, stays the same.
-/

namespace Pipeline

variable {ε ν : Type}

namespace Trace

/-! ### The answers of a run -/

/-- Behind the pull that finds the end, nothing is answered and nothing happens. -/
theorem answer_of_length_lt {t : Trace ε} {k : Nat} (h : t.items.length < k) :
    t.answer k = pure none := by
  induction t generalizing k with
  | ended events =>
      cases k with
      | zero => exact absurd h (Nat.not_lt_zero _)
      | succ k => rfl
  | pull first rest ih =>
      cases k with
      | zero => exact absurd h (Nat.not_lt_zero _)
      | succ k => exact ih () (Nat.lt_of_succ_lt_succ h)

/-- The events of a run are those of its pulls, the one that finds the end included. -/
theorem events_eq_flatMap_answer {t : Trace ε} {n : Nat} (h : t.items.length ≤ n) :
    t.events = (List.range (n + 1)).flatMap fun k => (t.answer k).events := by
  induction t generalizing n with
  | ended events =>
      have hlater : ((List.range n).map Nat.succ).flatMap
          (fun k => ((ended events).answer k).events) = [] := by
        rw [List.flatMap_map, List.flatMap_eq_nil_iff]
        exact fun _ _ => rfl
      rw [List.range_succ_eq_map, List.flatMap_cons, hlater, List.append_nil]
      rfl
  | pull first rest ih =>
      cases n with
      | zero => exact absurd h (Nat.not_succ_le_zero _)
      | succ n =>
          rw [events_pull, ih () (Nat.le_of_succ_le_succ h), List.range_succ_eq_map (n := n + 1),
            List.flatMap_cons, List.flatMap_map]
          exact congrArg (· ++ _) (List.append_nil first.events).symm

/-! ### The ticks of a lockstep -/

theorem length_le_longest {xs : List Item} {xss : List (List Item)} (h : xs ∈ xss) :
    xs.length ≤ longest xss := by
  induction xss with
  | nil => exact absurd h List.not_mem_nil
  | cons ys xss ih =>
      have hcons : longest (ys :: xss) = max ys.length (longest xss) := rfl
      rw [hcons]
      obtain rfl | hmem := List.mem_cons.mp h
      · exact Nat.le_max_left _ _
      · exact Nat.le_trans (ih hmem) (Nat.le_max_right _ _)

/-- What pull number `k` of a member answers, from where it is; an ended one is not pulled. -/
def pending (k : Nat) : Option (Unit → Trace ε) → Traced ε (Option Item)
  | none => pure none
  | some t => (t ()).answer k

/-- Tick number `k`: pull number `k` of every member, from left to right. -/
def tickAt (k : Nat) (members : List (Option (Unit → Trace ε))) : Traced ε (List (Option Item)) :=
  ⟨members.flatMap fun m => (pending k m).events, members.map fun m => (pending k m).value⟩

theorem tickAt_cons (k : Nat) (m : Option (Unit → Trace ε))
    (members : List (Option (Unit → Trace ε))) :
    tickAt k (m :: members) = do return (← pending k m) :: (← tickAt k members) := by
  refine Traced.ext ?_ rfl
  exact congrArg ((pending k m).events ++ ·) (List.append_nil _).symm

/-- A pull of a member answers what is next, and leaves what comes behind it. -/
theorem next_eq (t : Trace ε) :
    t.next.1 = t.answer 0 ∧ ∀ k, pending k t.next.2 = t.answer (k + 1) := by
  cases t with
  | ended events => exact ⟨rfl, fun _ => rfl⟩
  | pull first rest => exact ⟨rfl, fun _ => rfl⟩

theorem tick_eq (members : List (Option (Unit → Trace ε))) :
    (tick members).1 = tickAt 0 members := by
  induction members with
  | nil => rfl
  | cons m members ih =>
      rw [tickAt_cons, ← ih]
      match m with
      | none => rfl
      | some t => rw [tick, pending, (next_eq (t ())).1]

theorem tickAt_tick (k : Nat) (members : List (Option (Unit → Trace ε))) :
    tickAt k (tick members).2 = tickAt (k + 1) members := by
  induction members with
  | nil => rfl
  | cons m members ih =>
      rw [tickAt_cons, ← ih]
      match m with
      | none => rw [tick, tickAt_cons]; rfl
      | some t => rw [tick, tickAt_cons, pending, (next_eq (t ())).2 k]

/-- Behind the longest member there is nothing left to happen. -/
theorem events_tickAt_of_lt {members : List (Option (Unit → Trace ε))} {k : Nat}
    (h : longest (members.map left) < k) : (tickAt k members).events = [] := by
  induction members with
  | nil => rfl
  | cons m members ih =>
      have hm : (left m).length < k := Nat.lt_of_le_of_lt (Nat.le_max_left _ _) h
      have hmembers : longest (members.map left) < k :=
        Nat.lt_of_le_of_lt (Nat.le_max_right _ _) h
      have hpending : (pending k m).events = [] := by
        match m with
        | none => rfl
        | some t => rw [pending, answer_of_length_lt hm]; rfl
      have hrest : members.flatMap (fun m => (pending k m).events) = [] := ih hmembers
      rw [tickAt, List.flatMap_cons, hpending, hrest, List.append_nil]

theorem longest_pos_iff (members : List (Option (Unit → Trace ε))) :
    (tick members).1.value.any (·.isSome) = true ↔ 0 < longest (members.map left) := by
  rw [← any_head?_iff_longest_pos, List.map_map, tick_value]
  rfl

/-- **A lockstep, tick by tick.**  As long as a member yields something, the items of the tick are
combined; the tick that finds all members at their ends is the last. -/
theorem answer_zipMembers (combine : List (Option Item) → Traced ε Item)
    (members : List (Option (Unit → Trace ε))) (k : Nat) :
    (zipMembers combine members).answer k =
      if k < longest (members.map left) then tickAt k members >>= fun ys => some <$> combine ys
      else ⟨(tickAt k members).events, none⟩ := by
  induction members using zipMembers.induct generalizing k with
  | case1 members t hany ih =>
      have hpos : 0 < longest (members.map left) := (longest_pos_iff members).mp hany
      rw [zipMembers_of_any hany]
      cases k with
      | zero =>
          rw [if_pos hpos, ← tick_eq]
          exact map_bind ..
      | succ k =>
          have hrest : t.2.map left = (members.map left).map List.tail := by
            rw [List.map_map]
            exact left_tick members
          have hlen : longest (t.2.map left) + 1 = longest (members.map left) := by
            rw [hrest, longest_tail]
            exact Nat.sub_add_cancel hpos
          rw [answer, ih, tickAt_tick, ← hlen]
          simp only [Nat.add_lt_add_iff_right]
  | case2 members t hnone =>
      have hzero : longest (members.map left) = 0 := by
        rw [longest_pos_iff] at hnone
        exact Nat.eq_zero_of_not_pos hnone
      rw [zipMembers_of_none hnone, hzero, if_neg (Nat.not_lt_zero k)]
      cases k with
      | zero => rw [tick_eq]; rfl
      | succ k =>
          rw [events_tickAt_of_lt (hzero ▸ Nat.zero_lt_succ k)]
          rfl

theorem answer_zip (combine : List (Option Item) → Traced ε Item) (members : List (Trace ε))
    (k : Nat) :
    (zip combine members).answer k =
      let tick : Traced ε (List (Option Item)) :=
        ⟨members.flatMap fun t => (t.answer k).events, members.map (·.items[k]?)⟩
      if k < longest (members.map items) then tick >>= fun ys => some <$> combine ys
      else ⟨tick.events, none⟩ := by
  have hleft : (members.map fun t => some fun (_ : Unit) => t).map left = members.map items := by
    rw [List.map_map]; rfl
  have htick : tickAt k (members.map fun t => some fun (_ : Unit) => t) =
      ⟨members.flatMap fun t => (t.answer k).events, members.map (·.items[k]?)⟩ := by
    rw [tickAt, List.flatMap_map, List.map_map]
    refine Traced.ext rfl (List.map_congr_left fun t _ => value_answer t k)
  rw [zip, answer_zipMembers, hleft, htick]

end Trace

/-! ### Watching the members -/

/-- What is noted of a watched lockstep: a member is pulled; an event happens in a pull of a member;
an event happens when the items of a tick are combined. -/
inductive Watched (ε : Type) where
  | pulled (member : Nat)
  | caused (member : Nat) (e : ε)
  | combined (e : ε)
  deriving DecidableEq, Repr

namespace Watched

/-- The event, if it is one. -/
def event? : Watched ε → Option ε
  | .pulled _ => none
  | .caused _ e => some e
  | .combined e => some e

/-- A pull of this member. -/
def pulls (j : Nat) : Watched ε → Bool
  | .pulled i => i == j
  | _ => false

/-- An event that this member caused. -/
def causedBy? (j : Nat) : Watched ε → Option ε
  | .caused i e => if i = j then some e else none
  | _ => none

/-- It is about this member. -/
def concerns (j : Nat) : Watched ε → Bool
  | .pulled i => i == j
  | .caused i _ => i == j
  | .combined _ => false

/-- What is noted of a pull of member `j` that causes these events. -/
def ofPull (j : Nat) (events : List ε) : List (Watched ε) := .pulled j :: events.map (.caused j)

theorem filterMap_event?_ofPull (j : Nat) (events : List ε) :
    (ofPull j events).filterMap event? = events := by
  rw [ofPull, List.filterMap_cons, List.filterMap_map]
  exact List.filterMap_some

theorem filterMap_causedBy?_ofPull (j : Nat) (events : List ε) :
    (ofPull j events).filterMap (causedBy? j) = events := by
  have hcaused : causedBy? j ∘ caused j = @some ε := funext fun _ => if_pos rfl
  rw [ofPull, List.filterMap_cons, List.filterMap_map, hcaused]
  exact List.filterMap_some

theorem countP_pulls_ofPull (j : Nat) (events : List ε) :
    (ofPull j events).countP (·.pulls j) = 1 := by
  simp [ofPull, pulls, Function.comp_def]

theorem concerns_of_mem_ofPull {j : Nat} {events : List ε} (i : Nat) {e : Watched ε}
    (h : e ∈ ofPull j events) : e.concerns i = (j == i) := by
  obtain rfl | hcaused := List.mem_cons.mp h
  · rfl
  · obtain ⟨e, -, rfl⟩ := List.mem_map.mp hcaused
    rfl

end Watched

namespace Trace

/-- A run as member `j` of a watched lockstep. -/
def watched (j : Nat) : Trace ε → Trace (Watched ε)
  | .ended events => .ended (Watched.ofPull j events)
  | .pull first rest =>
    .pull ⟨Watched.ofPull j first.events, first.value⟩ fun _ => (rest ()).watched j

variable (j : Nat)

theorem items_watched (t : Trace ε) : (t.watched j).items = t.items := by
  induction t with
  | ended events => rfl
  | pull first rest ih => exact congrArg (first.value :: ·) (ih ())

/-- A pull is noted up to the one that finds the end, and none behind it. -/
theorem events_answer_watched (t : Trace ε) (k : Nat) :
    ((t.watched j).answer k).events =
      if k ≤ t.items.length then Watched.ofPull j (t.answer k).events else [] := by
  induction t generalizing k with
  | ended events => cases k <;> rfl
  | pull first rest ih =>
      cases k with
      | zero =>
          rw [if_pos (Nat.zero_le _), watched, answer, answer, Traced.events_map, Traced.events_map]
      | succ k =>
          rw [watched, answer, ih, answer, items_pull, List.length_cons]
          simp only [Nat.add_le_add_iff_right]

theorem project_watched (t : Trace ε) : (t.watched j).project Watched.event? = t := by
  induction t with
  | ended events => exact congrArg ended (Watched.filterMap_event?_ofPull j events)
  | pull first rest ih =>
      rw [watched, project, Traced.project]
      simp only [ih, Watched.filterMap_event?_ofPull]

theorem countP_pulls_watched (t : Trace ε) :
    (t.watched j).events.countP (·.pulls j) = t.items.length + 1 := by
  induction t with
  | ended events => exact Watched.countP_pulls_ofPull j events
  | pull first rest ih =>
      rw [watched, events_pull, List.countP_append, ih, Watched.countP_pulls_ofPull, Nat.add_comm]
      rfl

theorem filterMap_causedBy?_watched (t : Trace ε) :
    (t.watched j).events.filterMap (Watched.causedBy? j) = t.events := by
  induction t with
  | ended events => exact Watched.filterMap_causedBy?_ofPull j events
  | pull first rest ih =>
      rw [watched, events_pull, List.filterMap_append, ih, Watched.filterMap_causedBy?_ofPull,
        events_pull]

/-- The lockstep of watched runs. -/
def watchedZip (combine : List (Option Item) → Traced ε Item) (members : List (Trace ε)) :
    Trace (Watched ε) :=
  zip (fun ys => (combine ys).label .combined) (members.zipIdx.map fun x => x.1.watched x.2)

variable (combine : List (Option Item) → Traced ε Item) (members : List (Trace ε))

theorem project_watchedZip :
    (watchedZip combine members).project Watched.event? = zip combine members := by
  have hcombine : (fun ys => ((combine ys).label Watched.combined).project Watched.event?) =
      combine := funext fun ys => Traced.project_label (f := Watched.event?) (fun _ => rfl) _
  have hmembers : (members.zipIdx.map fun x => x.1.watched x.2).map (project Watched.event?) =
      members := by
    rw [List.map_map]
    calc members.zipIdx.map _ = members.zipIdx.map Prod.fst :=
          List.map_congr_left fun x _ => project_watched x.2 x.1
      _ = members := List.zipIdx_map_fst 0 members
  rw [watchedZip, project_zip, hcombine, hmembers]

/-- Watching does not change what the members yield. -/
theorem map_watchedMembers {α : Type} (f : List Item → α) :
    ((members.zipIdx.map fun x => x.1.watched x.2).map fun t => f t.items) =
      members.map fun t => f t.items := by
  rw [List.map_map]
  calc members.zipIdx.map _ = members.zipIdx.map ((fun t => f t.items) ∘ Prod.fst) :=
        List.map_congr_left fun x _ => congrArg f (items_watched x.2 x.1)
    _ = members.map fun t => f t.items := by rw [← List.map_map, List.zipIdx_map_fst]

/-- What tick number `k` notes: a pull of every member that has not ended before, from left to
right, and then what happens when the items are combined, unless there are none. -/
def notesAt (k : Nat) : List (Watched ε) :=
  (members.zipIdx.flatMap fun x =>
    if k ≤ x.1.items.length then Watched.ofPull x.2 (x.1.answer k).events else []) ++
  if k < longest (members.map items) then
    (combine (members.map (·.items[k]?))).events.map .combined
  else []

theorem events_answer_watchedZip (k : Nat) :
    ((watchedZip combine members).answer k).events = notesAt combine members k := by
  have hlongest : (members.zipIdx.map fun x => x.1.watched x.2).map items = members.map items :=
    map_watchedMembers members id
  have hticks : (members.zipIdx.map fun x => x.1.watched x.2).flatMap
      (fun t => (t.answer k).events) = members.zipIdx.flatMap fun x =>
        if k ≤ x.1.items.length then Watched.ofPull x.2 (x.1.answer k).events else [] := by
    rw [List.flatMap_map]
    exact congrArg (List.flatMap · _) (funext fun x => events_answer_watched x.2 x.1 k)
  rw [watchedZip, answer_zip, hlongest, map_watchedMembers members (·[k]?), hticks, notesAt]
  split
  · exact congrArg (_ ++ ·) (List.append_nil _)
  · exact (List.append_nil _).symm

theorem length_items_watchedZip :
    (watchedZip combine members).items.length = longest (members.map items) := by
  rw [watchedZip, items_zip, List.length_map, List.length_range]
  exact congrArg longest (map_watchedMembers members id)

/-- The ticks of a full run are as many as the longest member has pulls. -/
theorem events_watchedZip :
    (watchedZip combine members).events =
      (List.range (longest (members.map items) + 1)).flatMap (notesAt combine members) := by
  rw [events_eq_flatMap_answer (Nat.le_of_eq (length_items_watchedZip combine members))]
  exact congrArg (List.flatMap · _) (funext (events_answer_watchedZip combine members))

/-! ### One member alone -/

/-- Of what is said of the elements of a list one after the other, what is about one of them is
what is said of that one. -/
theorem filter_flatMap_zipIdx {α : Type} {about : ν → Bool} {say : α × Nat → List ν} {j : Nat}
    (h : ∀ x, ∀ e ∈ say x, about e = (x.2 == j)) {l : List α} {start i : Nat} {a : α}
    (ha : l[i]? = some a) (hj : start + i = j) :
    ((l.zipIdx start).flatMap say).filter about = say (a, j) := by
  have hother : ∀ x, x.2 ≠ j → (say x).filter about = [] := by
    intro x hx
    rw [List.filter_eq_nil_iff]
    intro e he
    rw [h x e he, beq_false_of_ne hx]
    exact Bool.false_ne_true
  induction l generalizing start i with
  | nil => simp at ha
  | cons b l ih =>
      rw [List.zipIdx_cons, List.flatMap_cons, List.filter_append]
      cases i with
      | zero =>
          obtain rfl : b = a := by simpa using ha
          obtain rfl : start = j := hj
          have hrest : ((l.zipIdx (start + 1)).flatMap say).filter about = [] := by
            rw [List.filter_flatMap, List.flatMap_eq_nil_iff]
            intro x hx
            exact hother x (Nat.ne_of_gt (List.le_snd_of_mem_zipIdx hx))
          have hself : (say (b, start)).filter about = say (b, start) :=
            List.filter_eq_self.mpr fun e he => (h _ e he).trans (beq_self_eq_true start)
          rw [hself, hrest, List.append_nil]
      | succ i =>
          have hstart : start ≠ j := by omega
          rw [hother (b, start) hstart, List.nil_append]
          exact ih (by simpa using ha) (by omega)

/-- What a tick notes of one member is what that pull of the member alone would note. -/
theorem filter_concerns_notesAt {j : Nat} {t : Trace ε} (h : members[j]? = some t) (k : Nat) :
    (notesAt combine members k).filter (·.concerns j) = ((t.watched j).answer k).events := by
  have hpulls : ∀ x : Trace ε × Nat,
      ∀ e ∈ if k ≤ x.1.items.length then Watched.ofPull x.2 (x.1.answer k).events else [],
        e.concerns j = (x.2 == j) := by
    intro x e he
    split at he
    · exact Watched.concerns_of_mem_ofPull j he
    · exact absurd he List.not_mem_nil
  have hcombined : ∀ e ∈ if k < longest (members.map items) then
      (combine (members.map (·.items[k]?))).events.map Watched.combined else [],
        ¬ e.concerns j = true := by
    intro e he
    split at he
    · obtain ⟨e, -, rfl⟩ := List.mem_map.mp he
      exact Bool.false_ne_true
    · exact absurd he List.not_mem_nil
  rw [notesAt, List.filter_append, filter_flatMap_zipIdx hpulls h (Nat.zero_add j),
    List.filter_eq_nil_iff.mpr hcombined, List.append_nil, events_answer_watched]

/-- **One member of a lockstep.**  What is noted of it is what a full run of it alone would note. -/
theorem filter_concerns_watchedZip {j : Nat} {t : Trace ε} (h : members[j]? = some t) :
    (watchedZip combine members).events.filter (·.concerns j) = (t.watched j).events := by
  have hlength : (t.watched j).items.length ≤ longest (members.map items) := by
    rw [items_watched]
    exact length_le_longest (List.mem_map_of_mem (List.mem_of_getElem? h))
  rw [events_watchedZip, events_eq_flatMap_answer hlength, List.filter_flatMap]
  exact congrArg (List.flatMap · _) (funext (filter_concerns_notesAt combine members h))

theorem countP_pulls_watchedZip {j : Nat} {t : Trace ε} (h : members[j]? = some t) :
    (watchedZip combine members).events.countP (·.pulls j) = t.items.length + 1 := by
  have hpulls : ∀ e : Watched ε, (e.pulls j && e.concerns j) = e.pulls j := by
    intro e
    cases e <;> simp [Watched.pulls, Watched.concerns]
  rw [← countP_pulls_watched, ← filter_concerns_watchedZip combine members h, List.countP_filter]
  simp only [hpulls]

theorem filterMap_causedBy?_watchedZip {j : Nat} {t : Trace ε} (h : members[j]? = some t) :
    (watchedZip combine members).events.filterMap (Watched.causedBy? j) = t.events := by
  have hcaused : ∀ e : Watched ε,
      (if e.concerns j = true then e.causedBy? j else none) = e.causedBy? j := by
    intro e
    cases e <;> simp +contextual [Watched.causedBy?, Watched.concerns]
  rw [← filterMap_causedBy?_watched j t, ← filter_concerns_watchedZip combine members h,
    List.filterMap_filter]
  simp only [hcaused]

end Trace

namespace Plan

theorem openingAll_eq_flatMap (members : List (Plan ε)) :
    openingAll members = members.flatMap opening := by
  induction members with
  | nil => rfl
  | cons p members ih => rw [openingAll, ih, List.flatMap_cons]

/-- **A lockstep.**  Let none of its members memoize anything.  A pull is taken as one step, over
before the next begins (`Trace.tick`).

* It has as many items as its longest member, and item `k` combines what the members have at `k`,
  each its own item number `k` or nothing past its end.
* Watching its members changes nothing about it.
* Tick number `k` pulls every member that has not ended, once and from left to right, with what this
  pull of the member causes, and no member that has; then the items are combined, if there are any.
  A full run is all ticks up to the one that finds every member at its end.
* A member of `n` items is pulled `n + 1` times in all, and what it causes is all that a full run
  of it causes, once and in order.  Opening the lockstep opens its members from left to right. -/
theorem zip_lockstep {members : List (Plan ε)} (h : ∀ p ∈ members, p.Unmemoized)
    (combine : List (Option Item) → Traced ε Item) (m : Memory) :
    let t := ((Plan.zip combine members).run m).1
    let n := longest (members.map listing)
    let watched := Trace.watchedZip combine (members.map trace)
    let notesAt := Trace.notesAt combine (members.map trace)
    (t.items.length = n ∧
      t.items = (List.range n).map fun k => (combine (members.map (·.listing[k]?))).value) ∧
    watched.project Watched.event? = t ∧
    ((∀ k, (watched.answer k).events = notesAt k) ∧
      watched.events = (List.range (n + 1)).flatMap notesAt) ∧
    (∀ (j : Nat) (p : Plan ε), members[j]? = some p →
      watched.events.countP (·.pulls j) = p.listing.length + 1 ∧
      watched.events.filterMap (Watched.causedBy? j) = p.trace.events) ∧
    (Plan.zip combine members).opening = members.flatMap opening := by
  intro t n watched notesAt
  have hsettled : ∀ p ∈ members, p.Settled := fun p hp => (h p hp).settled
  have hrun : t = Trace.zip combine (members.map trace) := by
    show ((Plan.zip combine members).run m).1 = _
    rw [run, runAll_of_settled hsettled]
  have hlistings : (members.map trace).map Trace.items = members.map listing := by
    rw [List.map_map]
    rfl
  have hitems : t.items =
      (List.range n).map fun k => (combine (members.map (·.listing[k]?))).value := by
    rw [hrun, Trace.items_zip, hlistings]
    simp only [List.map_map]
    rfl
  refine ⟨⟨?_, hitems⟩, ?_, ⟨?_, ?_⟩, fun j p hp => ?_, openingAll_eq_flatMap members⟩
  · rw [hitems, List.length_map, List.length_range]
  · rw [hrun]
    exact Trace.project_watchedZip combine (members.map trace)
  · exact Trace.events_answer_watchedZip combine (members.map trace)
  · show watched.events = (List.range (longest (members.map listing) + 1)).flatMap notesAt
    rw [← hlistings]
    exact Trace.events_watchedZip combine (members.map trace)
  · have htrace : (members.map trace)[j]? = some p.trace := by
      rw [List.getElem?_map, hp]
      rfl
    exact ⟨Trace.countP_pulls_watchedZip combine _ htrace,
      Trace.filterMap_causedBy?_watchedZip combine _ htrace⟩

/-- A member that drops all it reads, one without items, and a lockstep of its own. -/
def uneven : List (Plan Nat) :=
  [.filter (fun _ i => ⟨[i], false⟩) (.items [.value .null, .value .null]),
    .items [],
    .zip (fun _ => ⟨[7], .value .null⟩)
      [.map (fun x i => ⟨[10 + i], x⟩) (.items [.value (.bool true)]), .items []]]

theorem unmemoized_uneven : ∀ p ∈ uneven, p.Unmemoized := by
  have hinner : ∀ p ∈ [(.map (fun x i => ⟨[10 + i], x⟩) (.items [.value (.bool true)]) : Plan Nat),
      .items []], p.Unmemoized :=
    List.forall_mem_cons.mpr ⟨.map _ (.items _), List.forall_mem_singleton.mpr (.items _)⟩
  exact List.forall_mem_cons.mpr ⟨.filter _ (.items _), List.forall_mem_cons.mpr
    ⟨.items _, List.forall_mem_singleton.mpr (.zip _ hinner)⟩⟩

/-- The pull that finds the first member at its end causes all that its reading causes; after the
first tick only the inner lockstep is pulled again. -/
theorem zip_lockstep_uneven :
    (∀ p ∈ uneven, p.Unmemoized) ∧
      (Trace.watchedZip (fun _ => ⟨[8], .value .null⟩) (uneven.map trace)).events =
        [.pulled 0, .caused 0 0, .caused 0 1, .pulled 1, .pulled 2, .caused 2 10, .caused 2 7,
          .combined 8, .pulled 2] := by
  refine ⟨unmemoized_uneven, ?_⟩
  rw [(zip_lockstep unmemoized_uneven (fun _ => ⟨[8], .value .null⟩) .empty).2.2.1.2]
  decide +kernel

end Plan

end Pipeline
