import Pipeline.Proofs.Keeping
import Pipeline.Proofs.Notes

/-!
# Fronts — runs in which all happens at the first pull

If the functions of a run cause nothing, then whatever happens in it happens at its first pull
(`Trace.Fronted`): this is the pull that reaches all the plans below.  A run derived by functions
that cause nothing has the front of the run it is derived from (`Fronted.mapFrom` and so on), and a
lockstep has the fronts of its members from left to right (`AllFronted.zip`).
-/

namespace Pipeline

variable {ε : Type}

namespace Trace

/-- Nothing happens in the run. -/
def Still (t : Trace ε) : Prop := t.Within (fun _ => True) (fun _ => False)

/-- These events happen at the first pull of the run, and no others. -/
inductive Fronted (L : List ε) : Trace ε → Prop where
  | ended : Fronted L (.ended L)
  | pull {first : Traced ε Item} {rest : Unit → Trace ε} (hfirst : first.events = L)
      (hrest : (rest ()).Still) : Fronted L (.pull first rest)

theorem Still.events {t : Trace ε} (h : t.Still) : t.events = [] :=
  List.eq_nil_iff_forall_not_mem.mpr (Within.events h)

theorem still_ofItems (xs : List Item) : (ofItems xs : Trace ε).Still :=
  within_ofItems fun _ _ => trivial

theorem Still.after {t : Trace ε} (h : t.Still) (L : List ε) : (t.after L).Fronted L := by
  have hevents := h.events
  cases h with
  | ended _ =>
      rw [events_ended] at hevents
      rw [hevents, Trace.after, List.append_nil]
      exact .ended
  | pull hfirst hrest =>
      have hnone : _ = [] := List.eq_nil_iff_forall_not_mem.mpr hfirst.events
      refine .pull ?_ hrest
      rw [hnone, List.append_nil]

theorem Still.fronted {t : Trace ε} (h : t.Still) : t.Fronted [] := by
  have hafter := h.after []
  cases t <;> exact hafter

theorem fronted_burst {result : Traced ε (List Item)} {L : List ε} (h : result.events = L) :
    (burst result).Fronted L :=
  h ▸ (still_ofItems result.value).after result.events

namespace Fronted

variable {L : List ε} {t : Trace ε}

theorem events (h : t.Fronted L) : t.events = L := by
  cases h with
  | ended => rfl
  | pull hfirst hrest => rw [events_pull, hfirst, hrest.events, List.append_nil]

theorem next (h : t.Fronted L) :
    t.next.1.events = L ∧ ∀ rest, t.next.2 = some rest → (rest ()).Still := by
  cases h with
  | ended => exact ⟨rfl, fun _ hrest => nomatch hrest⟩
  | pull hfirst hrest =>
      refine ⟨(Traced.events_map some _).trans hfirst, fun _ heq => ?_⟩
      cases heq
      exact hrest

/-- A call that causes nothing. -/
theorem within {α : Type} {R : α → Prop} (hR : ∀ a, R a) {x : Traced ε α} (h : x.events = []) :
    x.Within R (fun _ => False) :=
  ⟨hR _, h ▸ List.forall_mem_nil _⟩

theorem mapFrom {f : Item → Nat → Traced ε Item} (hf : ∀ x i, (f x i).events = [])
    (h : t.Fronted L) (i : Nat) : (mapFrom f i t).Fronted L := by
  cases h with
  | ended => exact .ended
  | pull hfirst hrest =>
      refine .pull ?_ (Within.mapFrom (fun x i _ => within (fun _ => trivial) (hf x i)) hrest _)
      rw [Traced.events_bind, hf, List.append_nil, hfirst]

theorem filterFrom {keep : Item → Nat → Traced ε Bool} (hk : ∀ x i, (keep x i).events = [])
    (h : t.Fronted L) (i : Nat) : (filterFrom keep i t).Fronted L := by
  cases h with
  | ended => exact .ended
  | @pull first rest hfirst hrest =>
      have htest : (first >>= (keep · i)).events = L := by
        rw [Traced.events_bind, hk, List.append_nil, hfirst]
      have hstill : (Trace.filterFrom keep (i + 1) (rest ())).Still :=
        Within.filterFrom (fun x i _ => within (fun _ => trivial) (hk x i)) hrest _
      rw [Trace.filterFrom, htest]
      split
      · exact .pull rfl hstill
      · exact hstill.after L

theorem flatMapFrom {f : Item → Nat → Traced ε (List Item)} (hf : ∀ x i, (f x i).events = [])
    (h : t.Fronted L) (i : Nat) : (flatMapFrom f i t).Fronted L := by
  cases h with
  | ended => exact .ended
  | @pull first rest hfirst hrest =>
      have hexpansion : (first >>= (f · i)).events = L := by
        rw [Traced.events_bind, hf, List.append_nil, hfirst]
      have hstill : (Trace.flatMapFrom f (i + 1) (rest ())).Still :=
        Within.flatMapFrom (fun x i _ => within (fun _ _ _ => trivial) (hf x i)) hrest _
      rw [Trace.flatMapFrom, hexpansion]
      have hprepend : (Trace.prepend (first >>= (f · i)).value
          fun _ => Trace.flatMapFrom f (i + 1) (rest ())).Still :=
        Within.prepend (fun _ _ => trivial) hstill
      exact hprepend.after L

theorem takeUntilFrom {stop : Item → Nat → Traced ε Bool} (hs : ∀ x i, (stop x i).events = [])
    (h : t.Fronted L) (i : Nat) : (takeUntilFrom stop i t).Fronted L := by
  cases h with
  | ended => exact .ended
  | @pull first rest hfirst hrest =>
      have htest : (first >>= (stop · i)).events = L := by
        rw [Traced.events_bind, hs, List.append_nil, hfirst]
      have hstill : (Trace.takeUntilFrom stop (i + 1) (rest ())).Still :=
        Within.takeUntilFrom (fun x i _ => within (fun _ => trivial) (hs x i)) hrest _
      rw [Trace.takeUntilFrom, htest]
      split
      · exact .ended
      · exact .pull rfl hstill

end Fronted

/-- A fold causes what its run does, if its function causes nothing. -/
theorem events_foldFrom {f : Item → Item → Nat → Traced ε Item}
    (hf : ∀ acc x i, (f acc x i).events = []) (t : Trace ε) (i : Nat) (acc : Item) :
    (foldFrom f i acc t).events = t.events := by
  induction t generalizing i acc with
  | ended events => rfl
  | pull first rest ih =>
      simp only [foldFrom, Traced.events_bind, hf, List.nil_append, ih, events_pull]

/-- The members of a lockstep, with what happens at their first pulls from left to right. -/
inductive AllFronted : List ε → List (Trace ε) → Prop where
  | nil : AllFronted [] []
  | cons {L K : List ε} {t : Trace ε} {members : List (Trace ε)} (h : t.Fronted L)
      (hmembers : AllFronted K members) : AllFronted (L ++ K) (t :: members)

theorem AllFronted.tick {L : List ε} {members : List (Trace ε)} (h : AllFronted L members) :
    (tick (members.map fun t => some fun _ => t)).1.events = L ∧
      AllWithin (fun _ => True) (fun _ => False)
        (tick (members.map fun t => some fun _ => t)).2 := by
  induction h with
  | nil => exact ⟨rfl, fun _ ht => absurd ht List.not_mem_nil⟩
  | cons h hmembers ih =>
      obtain ⟨hevents, hrest⟩ := ih
      obtain ⟨hfirst, hleft⟩ := h.next
      rw [List.map_cons, Trace.tick]
      refine ⟨?_, fun u hu => ?_⟩
      · simp only [Traced.events_bind, Traced.events_pure, List.append_nil, hfirst, hevents]
      · rcases List.mem_cons.mp hu with heq | hu
        · exact hleft u heq.symm
        · exact hrest u hu

theorem AllFronted.zip {combine : List (Option Item) → Traced ε Item}
    (hc : ∀ ys, (combine ys).events = []) {L : List ε} {members : List (Trace ε)}
    (h : AllFronted L members) : (zip combine members).Fronted L := by
  obtain ⟨hevents, hrest⟩ := h.tick
  rw [Trace.zip, zipMembers]
  split
  · refine .pull ?_ (hrest.zipMembers fun ys _ => Fronted.within (fun _ => trivial) (hc ys))
    rw [Traced.events_bind, hevents, hc, List.append_nil]
  · rw [hevents]
    exact .ended

end Trace

end Pipeline
