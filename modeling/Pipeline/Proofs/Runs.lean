import Pipeline.Plan

/-!
# Runs — the items of a run

What a run yields does not depend on how it is pulled: the items of a derived run are a list
function of the items of the run it is derived from.  Positions are counted by `List.zipIdx`, which
gives every item of a list with its position, so that one statement covers a run from any position
on.

* `items_map`, `items_filter`, `items_flatMap`, `items_takeUntil`, `value_fold`: one run from
  another.
* `items_zip`: item `k` of a lockstep combines the items at `k` of its members, and there are as
  many as the longest member has.
* `collect_eq`: collecting a run gives all its items with all its events.

The plans that stages build keep nothing in cells.  A run of such a plan finds the same whatever
the cells hold, and leaves them as they are (`Settled`).
-/

namespace Pipeline

/-! ### The longest of several lists -/

/-- The length of the longest of several lists. -/
def longest (xss : List (List Item)) : Nat := xss.foldr (fun xs n => max xs.length n) 0

theorem longest_tail (xss : List (List Item)) :
    longest (xss.map List.tail) = longest xss - 1 := by
  induction xss with
  | nil => rfl
  | cons xs xss ih =>
      have hcons : longest (xs :: xss) = max xs.length (longest xss) := rfl
      have htail : longest ((xs :: xss).map List.tail) =
          max xs.tail.length (longest (xss.map List.tail)) := rfl
      rw [htail, hcons, ih, List.length_tail]
      omega

theorem any_head?_iff_longest_pos (xss : List (List Item)) :
    (xss.map List.head?).any (·.isSome) = true ↔ 0 < longest xss := by
  induction xss with
  | nil => simp [longest]
  | cons xs xss ih =>
      have hcons : longest (xs :: xss) = max xs.length (longest xss) := rfl
      rw [List.map_cons, List.any_cons, Bool.or_eq_true, ih, hcons]
      cases xs with
      | nil => simp
      | cons x xs =>
          refine ⟨fun _ => ?_, fun _ => .inl rfl⟩
          rw [List.length_cons]
          omega

namespace Trace

variable {ε : Type}

/-! ### Pull by pull -/

@[simp] theorem items_ended (events : List ε) : (ended events).items = [] := rfl

@[simp] theorem items_pull (first : Traced ε Item) (rest : Unit → Trace ε) :
    (pull first rest).items = first.value :: (rest ()).items := rfl

@[simp] theorem events_ended (closing : List ε) : (ended closing).events = closing := rfl

@[simp] theorem events_pull (first : Traced ε Item) (rest : Unit → Trace ε) :
    (pull first rest).events = first.events ++ (rest ()).events :=
  List.append_assoc _ _ _

@[simp] theorem items_after (events : List ε) (t : Trace ε) : (t.after events).items = t.items := by
  cases t <;> rfl

@[simp] theorem items_prepend (xs : List Item) (t : Unit → Trace ε) :
    (prepend xs t).items = xs ++ (t ()).items := by
  induction xs with
  | nil => rfl
  | cons x xs ih => exact congrArg (x :: ·) ih

@[simp] theorem items_ofItems (xs : List Item) : (ofItems xs : Trace ε).items = xs := by
  rw [ofItems, items_prepend, items_ended, List.append_nil]

@[simp] theorem items_burst (result : Traced ε (List Item)) :
    (burst result).items = result.value := by
  rw [burst, items_after, items_ofItems]

/-- Collecting a run gives all its items, with all its events. -/
theorem collect_eq (t : Trace ε) : t.collect = ⟨t.events, t.items⟩ := by
  induction t with
  | ended events => rfl
  | pull first rest ih =>
      rw [collect, ih, events_pull]
      simp only [bind, pure, List.append_nil, items_pull]

/-! ### One run from another -/

theorem items_mapFrom (f : Item → Nat → Traced ε Item) (t : Trace ε) (i : Nat) :
    (mapFrom f i t).items = (t.items.zipIdx i).map fun x => (f x.1 x.2).value := by
  induction t generalizing i with
  | ended events => rfl
  | pull first rest ih =>
      simp only [mapFrom, items_pull, ih, Traced.value_bind, List.zipIdx_cons, List.map_cons]

theorem items_map (f : Item → Nat → Traced ε Item) (t : Trace ε) :
    (t.map f).items = t.items.zipIdx.map fun x => (f x.1 x.2).value :=
  items_mapFrom f t 0

theorem items_filterFrom (keep : Item → Nat → Traced ε Bool) (t : Trace ε) (i : Nat) :
    (filterFrom keep i t).items =
      ((t.items.zipIdx i).filter fun x => (keep x.1 x.2).value).map (·.1) := by
  induction t generalizing i with
  | ended events => rfl
  | pull first rest ih =>
      rw [filterFrom, items_pull, List.zipIdx_cons, List.filter_cons]
      -- the position moves on whether the item is kept or not
      by_cases hk : (keep first.value i).value = true
      · rw [if_pos hk]
        simp only [Traced.value_bind, if_pos hk, items_pull, ih, List.map_cons]
      · rw [if_neg hk]
        simp only [Traced.value_bind, if_neg hk, items_after, ih]

theorem items_filter (keep : Item → Nat → Traced ε Bool) (t : Trace ε) :
    (t.filter keep).items = (t.items.zipIdx.filter fun x => (keep x.1 x.2).value).map (·.1) :=
  items_filterFrom keep t 0

theorem items_flatMapFrom (f : Item → Nat → Traced ε (List Item)) (t : Trace ε) (i : Nat) :
    (flatMapFrom f i t).items = (t.items.zipIdx i).flatMap fun x => (f x.1 x.2).value := by
  induction t generalizing i with
  | ended events => rfl
  | pull first rest ih =>
      simp only [flatMapFrom, items_after, items_prepend, ih, Traced.value_bind, items_pull,
        List.zipIdx_cons, List.flatMap_cons]

theorem items_flatMap (f : Item → Nat → Traced ε (List Item)) (t : Trace ε) :
    (t.flatMap f).items = t.items.zipIdx.flatMap fun x => (f x.1 x.2).value :=
  items_flatMapFrom f t 0

theorem items_takeUntilFrom (stop : Item → Nat → Traced ε Bool) (t : Trace ε) (i : Nat) :
    (takeUntilFrom stop i t).items =
      ((t.items.zipIdx i).takeWhile fun x => !(stop x.1 x.2).value).map (·.1) := by
  induction t generalizing i with
  | ended events => rfl
  | pull first rest ih =>
      rw [takeUntilFrom, items_pull, List.zipIdx_cons, List.takeWhile_cons]
      by_cases hs : (stop first.value i).value = true
      · simp [hs]
      · simp [hs, ih]

theorem items_takeUntil (stop : Item → Nat → Traced ε Bool) (t : Trace ε) :
    (t.takeUntil stop).items =
      (t.items.zipIdx.takeWhile fun x => !(stop x.1 x.2).value).map (·.1) :=
  items_takeUntilFrom stop t 0

theorem value_foldFrom (f : Item → Item → Nat → Traced ε Item) (t : Trace ε) (i : Nat)
    (acc : Item) :
    (foldFrom f i acc t).value =
      (t.items.zipIdx i).foldl (fun acc x => (f acc x.1 x.2).value) acc := by
  induction t generalizing i acc with
  | ended events => rfl
  | pull first rest ih =>
      simp only [foldFrom, Traced.value_bind, ih, items_pull, List.zipIdx_cons, List.foldl_cons]

theorem value_fold (f : Item → Item → Nat → Traced ε Item) (seed : Item) (t : Trace ε) :
    (t.fold f seed).value = t.items.zipIdx.foldl (fun acc x => (f acc x.1 x.2).value) seed :=
  value_foldFrom f t 0 seed

/-! ### Several runs in lockstep -/

/-- What a member of a lockstep still yields. -/
def left : Option (Unit → Trace ε) → List Item
  | none => []
  | some t => (t ()).items

/-- A tick takes the first item of every member. -/
theorem tick_value (members : List (Option (Unit → Trace ε))) :
    (tick members).1.value = members.map fun m => (left m).head? := by
  induction members with
  | nil => rfl
  | cons m members ih =>
      match m with
      | none => exact congrArg (none :: ·) ih
      | some t =>
          simp only [tick, Traced.value_bind, Traced.value_pure, ih, List.map_cons, left]
          cases t () <;> rfl

/-- A tick leaves every member without its first item. -/
theorem left_tick (members : List (Option (Unit → Trace ε))) :
    (tick members).2.map left = members.map fun m => (left m).tail := by
  induction members with
  | nil => rfl
  | cons m members ih =>
      match m with
      | none => exact congrArg ([] :: ·) ih
      | some t =>
          simp only [tick, ih, List.map_cons, left]
          cases t () <;> rfl

/-- **A lockstep, position by position.** -/
theorem items_zipMembers (combine : List (Option Item) → Traced ε Item)
    (members : List (Option (Unit → Trace ε))) :
    (zipMembers combine members).items =
      (List.range (longest (members.map left))).map fun k =>
        (combine ((members.map left).map (·[k]?))).value := by
  -- by ticks: a tick takes the items at position 0, and shortens the longest member by one
  induction members using zipMembers.induct with
  | case1 members t hany ih =>
      have hvalue : t.1.value = (members.map left).map List.head? := by
        rw [List.map_map]; exact tick_value members
      have hrest : t.2.map left = (members.map left).map List.tail := by
        rw [List.map_map]; exact left_tick members
      have hpos : 0 < longest (members.map left) := by
        rw [hvalue] at hany
        exact (any_head?_iff_longest_pos _).mp hany
      have hlen : longest (members.map left) = longest (t.2.map left) + 1 := by
        rw [hrest, longest_tail]
        omega
      rw [zipMembers, dif_pos hany, items_pull, ih, hlen, List.range_succ_eq_map, List.map_cons,
        hrest]
      refine List.cons_eq_cons.mpr ⟨?_, ?_⟩
      · rw [Traced.value_bind, show (tick members).1.value = _ from hvalue]
        exact congrArg (fun heads => (combine heads).value)
          (List.map_congr_left fun _ _ => List.head?_eq_getElem?)
      · -- the ticks behind the first find at `k` what was at `k + 1`
        rw [List.map_map (l := List.range _)]
        refine List.map_congr_left fun k _ => ?_
        simp only [Function.comp_apply, List.map_map, List.getElem?_tail, Function.comp_def]
  | case2 members t hnone =>
      have hvalue : t.1.value = (members.map left).map List.head? := by
        rw [List.map_map]; exact tick_value members
      have hzero : longest (members.map left) = 0 := by
        rw [hvalue, any_head?_iff_longest_pos] at hnone
        omega
      rw [zipMembers, dif_neg hnone, hzero]
      rfl

theorem items_zip (combine : List (Option Item) → Traced ε Item) (members : List (Trace ε)) :
    (zip combine members).items =
      (List.range (longest (members.map items))).map fun k =>
        (combine ((members.map items).map (·[k]?))).value := by
  have hleft : (members.map fun t => some fun (_ : Unit) => t).map left = members.map items := by
    rw [List.map_map]; rfl
  rw [zip, items_zipMembers, hleft]

end Trace

namespace Plan

variable {ε : Type}

/-! ### Plans without cells -/

/-- A run of the plan finds the same whatever the cells hold, and leaves them as they are. -/
def Settled (p : Plan ε) : Prop := ∀ m : Memory, p.run m = (p.trace, m)

/-- The items of a run when no cell is filled. -/
def listing (p : Plan ε) : List Item := p.trace.items

theorem settled_items (xs : List Item) : Settled (.items xs : Plan ε) := fun _ => rfl

theorem settled_deferred (opening : List ε) (result : Traced ε (List Item)) :
    Settled (.deferred opening result) := fun _ => rfl

namespace Settled

variable {p : Plan ε}

/-- A plan that does no more than to make another trace of one. -/
theorem of_run (h : p.Settled) {q : Plan ε} {g : Trace ε → Trace ε}
    (hq : ∀ m, q.run m = (g (p.run m).1, (p.run m).2)) : q.Settled :=
  fun m => by rw [trace, hq m, hq .empty, h m, h .empty]

theorem map (h : p.Settled) (f : Item → Nat → Traced ε Item) : (Plan.map f p).Settled :=
  h.of_run (g := (·.map f)) fun _ => rfl

theorem filter (h : p.Settled) (keep : Item → Nat → Traced ε Bool) :
    (Plan.filter keep p).Settled :=
  h.of_run (g := (·.filter keep)) fun _ => rfl

theorem flatMap (h : p.Settled) (f : Item → Nat → Traced ε (List Item)) :
    (Plan.flatMap f p).Settled :=
  h.of_run (g := (·.flatMap f)) fun _ => rfl

theorem takeUntil (h : p.Settled) (stop : Item → Nat → Traced ε Bool) :
    (Plan.takeUntil stop p).Settled :=
  h.of_run (g := (·.takeUntil stop)) fun _ => rfl

theorem fold (h : p.Settled) (seed : Traced ε Item) (f : Item → Item → Nat → Traced ε Item) :
    (Plan.fold seed f p).Settled :=
  h.of_run (g := fun t => .burst do
    let acc ← seed
    .emitAll p.opening
    return [← t.fold f acc]) fun _ => rfl

theorem collect (h : p.Settled) (f : List Item → Item) : (Plan.collect f p).Settled :=
  h.of_run (g := fun t => .burst do
    .emitAll p.opening
    return [f (← t.collect)]) fun _ => rfl

end Settled

theorem runAll_of_settled {members : List (Plan ε)} (h : ∀ p ∈ members, p.Settled) (m : Memory) :
    runAll members m = (members.map trace, m) := by
  induction members with
  | nil => rfl
  | cons p members ih =>
      rw [runAll, h p List.mem_cons_self m, ih fun q hq => h q (List.mem_cons_of_mem p hq)]
      rfl

theorem settled_zip {members : List (Plan ε)} (h : ∀ p ∈ members, p.Settled)
    (combine : List (Option Item) → Traced ε Item) : (Plan.zip combine members).Settled :=
  fun m => by rw [trace, run, run, runAll_of_settled h, runAll_of_settled h]

/-! ### The items of a plan -/

theorem listing_items (xs : List Item) : (.items xs : Plan ε).listing = xs :=
  Trace.items_ofItems xs

theorem listing_deferred (opening : List ε) (result : Traced ε (List Item)) :
    (Plan.deferred opening result).listing = result.value := Trace.items_burst result

theorem listing_map (f : Item → Nat → Traced ε Item) (p : Plan ε) :
    (Plan.map f p).listing = p.listing.zipIdx.map fun x => (f x.1 x.2).value :=
  Trace.items_map f p.trace

theorem listing_filter (keep : Item → Nat → Traced ε Bool) (p : Plan ε) :
    (Plan.filter keep p).listing =
      (p.listing.zipIdx.filter fun x => (keep x.1 x.2).value).map (·.1) :=
  Trace.items_filter keep p.trace

theorem listing_flatMap (f : Item → Nat → Traced ε (List Item)) (p : Plan ε) :
    (Plan.flatMap f p).listing = p.listing.zipIdx.flatMap fun x => (f x.1 x.2).value :=
  Trace.items_flatMap f p.trace

theorem listing_takeUntil (stop : Item → Nat → Traced ε Bool) (p : Plan ε) :
    (Plan.takeUntil stop p).listing =
      (p.listing.zipIdx.takeWhile fun x => !(stop x.1 x.2).value).map (·.1) :=
  Trace.items_takeUntil stop p.trace

theorem listing_fold (seed : Traced ε Item) (f : Item → Item → Nat → Traced ε Item) (p : Plan ε) :
    (Plan.fold seed f p).listing =
      [p.listing.zipIdx.foldl (fun acc x => (f acc x.1 x.2).value) seed.value] := by
  rw [listing, trace, run, Trace.items_burst]
  exact congrArg (fun x => [x]) (Trace.value_fold f seed.value p.trace)

theorem listing_collect (f : List Item → Item) (p : Plan ε) :
    (Plan.collect f p).listing = [f p.listing] := by
  rw [listing, trace, run, Trace.items_burst]
  exact congrArg (fun x => [f x]) (congrArg Traced.value (Trace.collect_eq p.trace))

theorem listing_zip {members : List (Plan ε)} (h : ∀ p ∈ members, p.Settled)
    (combine : List (Option Item) → Traced ε Item) :
    (Plan.zip combine members).listing =
      (List.range (longest (members.map listing))).map fun k =>
        (combine ((members.map listing).map (·[k]?))).value := by
  have hrun : (Plan.zip combine members).trace = .zip combine (members.map trace) := by
    rw [trace, run, runAll_of_settled h]
  rw [listing, hrun, Trace.items_zip, List.map_map]
  rfl

end Plan

end Pipeline
