import Pipeline.Proofs.Independence

/-!
# Settling — what every run yields, whatever is memoized on the way

The memory behind all turns knows what every memoized plan gave on the way, since nothing that is
kept is ever given up.  Put the items it keeps in the place of the memoized plans (`Plan.settle`):
**every run yields the items of its plan so settled** (`Desk.value_of_settle`), whatever the order
of the pulls, and whichever runs are left half-way.

A run that has been pulled has filled the cells that it reached, so a run of a memoized plan yields
what its cell keeps (`Desk.value_of_memoized`).
-/

namespace Pipeline

variable {ε : Type}

namespace Plan

mutual

/-- The plan with ready items in place of what it memoizes: those that are kept in `m`. -/
def settle (m : Memory) : Plan ε → Plan ε
  | .items xs => .items xs
  | .deferred opening result => .deferred opening result
  | .map f p => .map f (settle m p)
  | .filter keep p => .filter keep (settle m p)
  | .flatMap f p => .flatMap f (settle m p)
  | .takeUntil stop p => .takeUntil stop (settle m p)
  | .fold seed f p => .fold seed f (settle m p)
  | .collect f p => .collect f (settle m p)
  | .zip combine members => .zip combine (settleAll m members)
  | .memoized cell _ => .items ((m.get? cell).getD [])

/-- The members of a lockstep with ready items in place of what they memoize. -/
def settleAll (m : Memory) : List (Plan ε) → List (Plan ε)
  | [] => []
  | p :: members => settle m p :: settleAll m members

end

theorem settleAll_eq_map (m : Memory) (members : List (Plan ε)) :
    settleAll m members = members.map (settle m) := by
  induction members with
  | nil => rfl
  | cons p members ih => rw [settleAll, ih, List.map_cons]

theorem unmemoized_settle (m : Memory) (p : Plan ε) : (p.settle m).Unmemoized := by
  induction p using Plan.induction with
  | items xs => exact .items xs
  | deferred opening result => exact .deferred opening result
  | map f p ih => exact .map f ih
  | filter keep p ih => exact .filter keep ih
  | flatMap f p ih => exact .flatMap f ih
  | takeUntil stop p ih => exact .takeUntil stop ih
  | fold seed f p ih => exact .fold seed f ih
  | collect f p ih => exact .collect f ih
  | zip combine members ih =>
      rw [settle, settleAll_eq_map]
      exact .zip combine (List.forall_mem_map.mpr ih)
  | memoized cell p ih => exact .items _

theorem items_runAll {members : List (Plan ε)} {last : Memory}
    (h : ∀ p ∈ members, ∀ m, (p.run m).2.Kept last → (p.run m).1.items = (p.settle last).listing)
    {m : Memory} (hlast : (runAll members m).2.Kept last) :
    (runAll members m).1.map Trace.items = members.map fun p => (p.settle last).listing := by
  induction members generalizing m with
  | nil => rfl
  | cons p members ih =>
      obtain ⟨hp, hmembers⟩ := List.forall_mem_cons.mp h
      have hfirst : (p.run m).2.Kept last :=
        (runAll_kept (fun q _ => run_kept q) (p.run m).2).trans hlast
      rw [runAll, List.map_cons, List.map_cons, hp m hfirst, ih hmembers hlast]

/-- **The items of a run.**  They are those of the plan settled by any memory that keeps what the
run leaves. -/
theorem items_run_settle {p : Plan ε} {m last : Memory} (hlast : (p.run m).2.Kept last) :
    (p.run m).1.items = (p.settle last).listing := by
  induction p using Plan.induction generalizing m with
  | items xs => rw [settle, listing_items]; exact Trace.items_ofItems xs
  | deferred opening result => rw [settle, listing_deferred]; exact Trace.items_burst result
  | map f p ih => rw [settle, listing_map, ← ih hlast]; exact Trace.items_map f _
  | filter keep p ih => rw [settle, listing_filter, ← ih hlast]; exact Trace.items_filter keep _
  | flatMap f p ih => rw [settle, listing_flatMap, ← ih hlast]; exact Trace.items_flatMap f _
  | takeUntil stop p ih =>
      rw [settle, listing_takeUntil, ← ih hlast]
      exact Trace.items_takeUntil stop _
  | fold seed f p ih =>
      rw [settle, listing_fold, ← ih hlast, run, Trace.items_burst]
      exact congrArg (fun x => [x]) (Trace.value_fold f seed.value _)
  | collect f p ih =>
      rw [settle, listing_collect, ← ih hlast, run, Trace.items_burst]
      exact congrArg (fun x => [f x]) (congrArg Traced.value (Trace.collect_eq _))
  | zip combine members ih =>
      have hsettled : ∀ p ∈ members.map (settle last), p.Settled :=
        List.forall_mem_map.mpr fun p _ => (unmemoized_settle last p).settled
      have hmembers := items_runAll (fun p hp m => ih p hp) hlast
      rw [settle, settleAll_eq_map, listing_zip hsettled, run, Trace.items_zip, hmembers,
        List.map_map]
      rfl
  | memoized cell p ih =>
      rw [settle, listing_items]
      cases h : m.get? cell with
      | some xs =>
          rw [run_memoized_of_filled h] at hlast ⊢
          rw [hlast cell xs h]
          exact Trace.items_ofItems xs
      | none =>
          rw [run_memoized_of_empty h] at hlast ⊢
          rw [hlast cell _ (Memory.get?_keep_self ..), Trace.items_burst]
          exact congrArg Traced.value (Trace.collect_eq _)

end Plan

namespace Stream

/-- The run has been pulled `k` times, and what it still yields are the items of `xs` from there
on. -/
inductive Awaits (last : Memory) (xs : List Item) : Nat → Stream ε → Prop where
  | waiting {p : Plan ε} (h : (p.settle last).listing = xs) : Awaits last xs 0 (.waiting p)
  | running {k : Nat} {rest : Unit → Trace ε} (h : (rest ()).items = xs.drop k) :
      Awaits last xs k (.running rest)
  | ended {k : Nat} (h : xs.drop k = []) : Awaits last xs k .ended

theorem awaits_ofRest {last : Memory} {xs : List Item} {k : Nat} {t : Trace ε}
    (h : t.items = xs.drop k) :
    t.next.1.value = xs[k]? ∧ Awaits last xs (k + 1) (ofRest t.next.2) := by
  have hvalue : xs[k]? = t.items.head? := by rw [h, List.head?_drop]
  have hrest : xs.drop (k + 1) = t.items.tail := by rw [h, List.tail_drop]
  cases t with
  | ended events => exact ⟨hvalue.symm, .ended hrest⟩
  | pull first rest => exact ⟨hvalue.symm, .running hrest.symm⟩

/-- **A pull.**  It answers the next of the items, if what is kept behind it stays so. -/
theorem Awaits.next {last : Memory} {xs : List Item} {k : Nat} {s : Stream ε}
    (h : s.Awaits last xs k) (m : Memory) (hlast : (s.next m).2.2.Kept last) :
    (s.next m).1.value = xs[k]? ∧ Awaits last xs (k + 1) (s.next m).2.1 := by
  cases h with
  | waiting hlisting =>
      refine awaits_ofRest ?_
      rw [Plan.items_run_settle hlast, hlisting]
      rfl
  | running hrest => exact awaits_ofRest hrest
  | ended hend =>
      have hlater : xs.drop (k + 1) = [] := by rw [← List.drop_drop, hend, List.drop_nil]
      refine ⟨?_, .ended hlater⟩
      rw [← List.head?_drop, hend]
      rfl

/-- A run of the plan memoized in this cell: it has not been pulled yet, or the cell is filled. -/
def Fills (cell : Nat) (p : Plan ε) (m : Memory) (k : Nat) (s : Stream ε) : Prop :=
  (k = 0 ∧ s = .waiting (.memoized cell p)) ∨ ∃ xs, m.get? cell = some xs

theorem Fills.mono {cell : Nat} {p : Plan ε} (m m' : Memory) (k : Nat) (s : Stream ε)
    (hm : m.Kept m') (h : s.Fills cell p m k) : s.Fills cell p m' k :=
  h.imp_right fun ⟨xs, hxs⟩ => ⟨xs, hm cell xs hxs⟩

theorem Fills.next {cell : Nat} {p : Plan ε} (m : Memory) (k : Nat) (s : Stream ε)
    (h : s.Fills cell p m k) : (s.next m).2.1.Fills cell p (s.next m).2.2 (k + 1) := by
  obtain ⟨-, rfl⟩ | ⟨xs, hxs⟩ := h
  · exact .inr (Plan.exists_get?_run_memoized cell p m)
  · exact .inr ⟨xs, s.next_kept m cell xs hxs⟩

end Stream

namespace Desk

theorem take_pull {d : Desk ε} {number : Nat} {stream : Stream ε}
    (h : d.streams[number]? = some stream) :
    d.take (.pull number) =
      ((stream.next d.memory).1,
        ⟨d.streams.set number (stream.next d.memory).2.1, (stream.next d.memory).2.2⟩) := by
  rw [take, h]

variable (d : Desk ε) (sequence : Sequence ε) (turns : List (Turn ε))

/-- **What a run yields.**  Let a run be opened, any turns follow, and then the run be pulled.  Its
pull answers the next item, as often as it was pulled before, of its plan with ready items in place
of what it memoizes: those that are kept at any time behind the pull. -/
theorem value_of_settle {last : Memory} :
    let number := d.streams.length
    let pull := ((d.take (.opening sequence)).2.after turns).take (.pull number)
    pull.2.memory.Kept last →
      pull.1.value = (sequence.plan.settle last).listing[turns.countP (·.pulls number)]? := by
  intro number pull hlast
  have hopened : (d.take (.opening sequence)).2.Has
      (fun m k s => m.Kept last → s.Awaits last (sequence.plan.settle last).listing k) number 0 :=
    ⟨_, List.getElem?_concat_length, fun _ => .waiting rfl⟩
  obtain ⟨stream, hstream, hawaits⟩ :=
    hopened.after (fun m m' k s hm h hm' => h (hm.trans hm'))
      (fun m k s h hm' => ((h ((s.next_kept m).trans hm')).next m hm').2) turns
  have hpull : pull = _ := take_pull hstream
  rw [hpull] at hlast ⊢
  have hnext := (hawaits ((stream.next_kept _).trans hlast)).next _ hlast
  rw [hnext.1, Nat.zero_add]

/-- A run of a memoized plan yields what the cell keeps, and the cell keeps something once the run
has been pulled. -/
theorem value_of_memoized {cell : Nat} {p : Plan ε} (h : sequence.plan = .memoized cell p)
    {last : Memory} :
    let number := d.streams.length
    let pull := ((d.take (.opening sequence)).2.after turns).take (.pull number)
    pull.2.memory.Kept last → ∃ xs, last.get? cell = some xs ∧
      pull.1.value = xs[turns.countP (·.pulls number)]? := by
  intro number pull hlast
  have hvalue := value_of_settle d sequence turns hlast
  have hopened : (d.take (.opening sequence)).2.Has (Stream.Fills cell p) number 0 :=
    ⟨_, List.getElem?_concat_length, .inl ⟨rfl, congrArg Stream.waiting h⟩⟩
  have hpulled :=
    (hopened.after Stream.Fills.mono Stream.Fills.next turns).take Stream.Fills.mono
      Stream.Fills.next (.pull number)
  rw [Turn.pulls, beq_self_eq_true, if_pos rfl] at hpulled
  obtain ⟨-, -, ⟨hzero, -⟩ | ⟨xs, hxs⟩⟩ := hpulled
  · exact absurd hzero (Nat.succ_ne_zero _)
  · refine ⟨xs, hlast cell xs hxs, ?_⟩
    rw [hvalue, h, Plan.settle, Plan.listing_items, hlast cell xs hxs]
    rfl

end Desk

end Pipeline
