import Pipeline.Proofs.Runs
import Pipeline.Sequence

/-!
# Cells — what runs leave in them

A run never empties a cell that is filled, and never changes what is kept in it (`Memory.Kept`,
`Plan.run_kept`).  It fills the cells of those memoized plans that it reaches and finds empty
(`Plan.run_memoized_of_empty`).
-/

namespace Pipeline

variable {ε : Type}

namespace Memory

/-- What is kept in `m` is kept in `m'` too. -/
def Kept (m m' : Memory) : Prop := ∀ cell xs, m.get? cell = some xs → m'.get? cell = some xs

theorem Kept.refl (m : Memory) : m.Kept m := fun _ _ h => h

theorem Kept.trans {m m₁ m' : Memory} (h : m.Kept m₁) (h' : m₁.Kept m') : m.Kept m' :=
  fun cell xs hxs => h' cell xs (h cell xs hxs)

theorem get?_keep_self (m : Memory) (cell : Nat) (xs : List Item) :
    (m.keep cell xs).get? cell = some xs :=
  List.lookup_cons_self

theorem get?_keep_of_ne (m : Memory) {cell other : Nat} (h : other ≠ cell) (xs : List Item) :
    (m.keep cell xs).get? other = m.get? other := by
  rw [get?, keep, List.lookup_cons, beq_false_of_ne h]
  rfl

/-- Filling an empty cell keeps what was there before. -/
theorem Kept.keep {m m' : Memory} (h : m.Kept m') {cell : Nat} (hempty : m.get? cell = none)
    (xs : List Item) : m.Kept (m'.keep cell xs) := by
  intro other ys hys
  have hne : other ≠ cell := by
    rintro rfl
    rw [hempty] at hys
    cases hys
  rw [get?_keep_of_ne m' hne]
  exact h other ys hys

end Memory

namespace Plan

/-- Induction over plans: a lockstep has what all its members have. -/
@[elab_as_elim]
theorem induction {motive : Plan ε → Prop} (items : ∀ xs, motive (.items xs))
    (deferred : ∀ opening result, motive (.deferred opening result))
    (map : ∀ f p, motive p → motive (.map f p))
    (filter : ∀ keep p, motive p → motive (.filter keep p))
    (flatMap : ∀ f p, motive p → motive (.flatMap f p))
    (takeUntil : ∀ stop p, motive p → motive (.takeUntil stop p))
    (fold : ∀ seed f p, motive p → motive (.fold seed f p))
    (collect : ∀ f p, motive p → motive (.collect f p))
    (zip : ∀ combine members, (∀ p ∈ members, motive p) → motive (.zip combine members))
    (memoized : ∀ cell p, motive p → motive (.memoized cell p)) (p : Plan ε) : motive p :=
  @Plan.rec ε motive (fun members => ∀ p ∈ members, motive p) items deferred map filter flatMap
    takeUntil fold collect zip memoized (List.forall_mem_nil _)
    (fun _ _ hp hmembers => List.forall_mem_cons.mpr ⟨hp, hmembers⟩) p

/-! ### Runs fill cells -/

theorem run_memoized_of_filled {cell : Nat} {m : Memory} {xs : List Item}
    (h : m.get? cell = some xs) (p : Plan ε) :
    (Plan.memoized cell p).run m = (.ofItems xs, m) := by
  rw [run, h]

theorem run_memoized_of_empty {cell : Nat} {m : Memory} (h : m.get? cell = none) (p : Plan ε) :
    (Plan.memoized cell p).run m =
      (.burst (do .emitAll p.opening; (p.run m).1.collect),
        (p.run m).2.keep cell (p.run m).1.items) := by
  rw [run, h]
  simp only [Trace.collect_eq]

/-- A memoized plan that has been reached has its items kept. -/
theorem exists_get?_run_memoized (cell : Nat) (p : Plan ε) (m : Memory) :
    ∃ xs, ((Plan.memoized cell p).run m).2.get? cell = some xs := by
  cases h : m.get? cell with
  | some xs =>
      rw [run_memoized_of_filled h]
      exact ⟨xs, h⟩
  | none =>
      rw [run_memoized_of_empty h]
      exact ⟨_, Memory.get?_keep_self ..⟩

theorem runAll_kept {members : List (Plan ε)}
    (h : ∀ p ∈ members, ∀ m : Memory, m.Kept (p.run m).2) (m : Memory) :
    m.Kept (runAll members m).2 := by
  induction members generalizing m with
  | nil => exact .refl m
  | cons p members ih =>
      obtain ⟨hp, hmembers⟩ := List.forall_mem_cons.mp h
      exact (hp m).trans (ih hmembers _)

/-- **A run keeps what was kept.** -/
theorem run_kept (p : Plan ε) (m : Memory) : m.Kept (p.run m).2 := by
  induction p using Plan.induction generalizing m with
  | items xs => exact .refl m
  | deferred opening result => exact .refl m
  | map f p ih | filter f p ih | flatMap f p ih | takeUntil f p ih | collect f p ih => exact ih m
  | fold seed f p ih => exact ih m
  | zip combine members ih => exact runAll_kept ih m
  | memoized cell p ih =>
      cases h : m.get? cell with
      | some xs =>
          rw [run_memoized_of_filled h]
          exact .refl m
      | none =>
          rw [run_memoized_of_empty h]
          exact (ih m).keep h _

end Plan

theorem Stream.next_kept (s : Stream ε) (m : Memory) : m.Kept (s.next m).2.2 := by
  cases s with
  | waiting p => exact p.run_kept m
  | running rest => exact .refl m
  | ended => exact .refl m

end Pipeline
