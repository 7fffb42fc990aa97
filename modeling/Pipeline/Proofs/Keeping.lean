import Pipeline.Proofs.Runs

/-!
# Keeping — what the functions of a plan keep, its runs keep

A plan is made of functions that work on items.  Let `P` be a property of items and `Q` one of
events.  If every function of the plan gives items with `P`, by way of events with `Q`, from items
with `P` (`Plan.Keeps`), then every run of the plan yields items with `P` by way of events with `Q`
(`Plan.Keeps.run`), and is opened with such events (`Plan.Keeps.opening`).

The same is true of runs in which a function does not answer as a function does, with one result
for one argument.  A plan is a mixture of other plans (`Plan.Mixture`) if each single call in it is
answered as in one of these, not always the same one; what all of them keep, a mixture keeps
(`Plan.Mixture.keeps`).
-/

namespace Pipeline

variable {ε α β : Type}

/-- The result satisfies `R`, and every event on the way to it `Q`. -/
structure Traced.Within (R : α → Prop) (Q : ε → Prop) (x : Traced ε α) : Prop where
  value : R x.value
  events : ∀ e ∈ x.events, Q e

namespace Traced.Within

variable {R : α → Prop} {S : β → Prop} {Q : ε → Prop}

theorem pure {a : α} (h : R a) : (Pure.pure a : Traced ε α).Within R Q :=
  ⟨h, List.forall_mem_nil _⟩

theorem bind {x : Traced ε α} {f : α → Traced ε β} (hx : x.Within R Q)
    (hf : ∀ a, R a → (f a).Within S Q) : (x >>= f).Within S Q := by
  refine ⟨(hf _ hx.value).value, fun e he => ?_⟩
  rcases List.mem_append.mp he with hfirst | hlater
  · exact hx.events e hfirst
  · exact (hf _ hx.value).events e hlater

theorem map {x : Traced ε α} {f : α → β} (hx : x.Within R Q) (hf : ∀ a, R a → S (f a)) :
    (f <$> x).Within S Q :=
  hx.bind fun a ha => .pure (hf a ha)

theorem emitAll {events : List ε} (h : ∀ e ∈ events, Q e) :
    (Traced.emitAll events).Within (fun _ => True) Q :=
  ⟨trivial, h⟩

end Traced.Within

namespace Trace

variable {P : Item → Prop} {Q : ε → Prop}

/-- Every item of the run satisfies `P`, and every event `Q`. -/
inductive Within (P : Item → Prop) (Q : ε → Prop) : Trace ε → Prop where
  | ended {events : List ε} (h : ∀ e ∈ events, Q e) : Within P Q (.ended events)
  | pull {first : Traced ε Item} {rest : Unit → Trace ε} (hfirst : first.Within P Q)
      (hrest : Within P Q (rest ())) : Within P Q (.pull first rest)

theorem Within.items {t : Trace ε} (h : t.Within P Q) : ∀ x ∈ t.items, P x := by
  induction t with
  | ended => simp
  | pull first rest ih =>
      cases h with
      | pull hfirst hrest => exact List.forall_mem_cons.mpr ⟨hfirst.value, ih () hrest⟩

theorem Within.events {t : Trace ε} (h : t.Within P Q) : ∀ e ∈ t.events, Q e := by
  induction t with
  | ended events =>
      cases h with
      | ended h => exact h
  | pull first rest ih =>
      cases h with
      | pull hfirst hrest =>
          rw [events_pull]
          exact List.forall_mem_append.mpr ⟨hfirst.events, ih () hrest⟩

/-! ### One run from another -/

theorem Within.after {events : List ε} {t : Trace ε} (he : ∀ e ∈ events, Q e)
    (h : t.Within P Q) : (t.after events).Within P Q := by
  cases h with
  | ended h => exact .ended (List.forall_mem_append.mpr ⟨he, h⟩)
  | pull hfirst hrest =>
      exact .pull ⟨hfirst.value, List.forall_mem_append.mpr ⟨he, hfirst.events⟩⟩ hrest

theorem Within.prepend {xs : List Item} {t : Unit → Trace ε} (hxs : ∀ x ∈ xs, P x)
    (h : (t ()).Within P Q) : (Trace.prepend xs t).Within P Q := by
  induction xs with
  | nil => exact h
  | cons x xs ih =>
      obtain ⟨hx, hxs⟩ := List.forall_mem_cons.mp hxs
      exact .pull (.pure hx) (ih hxs)

theorem within_ofItems {xs : List Item} (h : ∀ x ∈ xs, P x) :
    (ofItems xs : Trace ε).Within P Q :=
  Within.prepend h (.ended (List.forall_mem_nil _))

theorem within_burst {result : Traced ε (List Item)}
    (h : result.Within (fun xs => ∀ x ∈ xs, P x) Q) : (burst result).Within P Q :=
  (within_ofItems h.value).after h.events

theorem Within.mapFrom {f : Item → Nat → Traced ε Item}
    (hf : ∀ x i, P x → (f x i).Within P Q) {t : Trace ε} (h : t.Within P Q) (i : Nat) :
    (mapFrom f i t).Within P Q := by
  induction t generalizing i with
  | ended events => exact h
  | pull first rest ih =>
      cases h with
      | pull hfirst hrest =>
          exact .pull (hfirst.bind fun x hx => hf x i hx) (ih () hrest (i + 1))

theorem Within.filterFrom {keep : Item → Nat → Traced ε Bool}
    (hk : ∀ x i, P x → (keep x i).Within (fun _ => True) Q) {t : Trace ε} (h : t.Within P Q)
    (i : Nat) : (filterFrom keep i t).Within P Q := by
  induction t generalizing i with
  | ended events => exact h
  | pull first rest ih =>
      cases h with
      | pull hfirst hrest =>
          have htest := hfirst.bind fun x hx => hk x i hx
          rw [Trace.filterFrom]
          split
          · exact .pull ⟨hfirst.value, htest.events⟩ (ih () hrest (i + 1))
          · exact (ih () hrest (i + 1)).after htest.events

theorem Within.flatMapFrom {f : Item → Nat → Traced ε (List Item)}
    (hf : ∀ x i, P x → (f x i).Within (fun ys => ∀ y ∈ ys, P y) Q) {t : Trace ε}
    (h : t.Within P Q) (i : Nat) : (flatMapFrom f i t).Within P Q := by
  induction t generalizing i with
  | ended events => exact h
  | pull first rest ih =>
      cases h with
      | pull hfirst hrest =>
          have hexpansion := hfirst.bind fun x hx => hf x i hx
          exact (Within.prepend hexpansion.value (ih () hrest (i + 1))).after hexpansion.events

theorem Within.takeUntilFrom {stop : Item → Nat → Traced ε Bool}
    (hs : ∀ x i, P x → (stop x i).Within (fun _ => True) Q) {t : Trace ε} (h : t.Within P Q)
    (i : Nat) : (takeUntilFrom stop i t).Within P Q := by
  induction t generalizing i with
  | ended events => exact h
  | pull first rest ih =>
      cases h with
      | pull hfirst hrest =>
          have htest := hfirst.bind fun x hx => hs x i hx
          rw [Trace.takeUntilFrom]
          split
          · exact .ended htest.events
          · exact .pull ⟨hfirst.value, htest.events⟩ (ih () hrest (i + 1))

theorem Within.foldFrom {f : Item → Item → Nat → Traced ε Item}
    (hf : ∀ acc x i, P acc → P x → (f acc x i).Within P Q) {t : Trace ε} (h : t.Within P Q)
    (i : Nat) {acc : Item} (hacc : P acc) : (foldFrom f i acc t).Within P Q := by
  induction t generalizing i acc with
  | ended events =>
      cases h with
      | ended h => exact ⟨hacc, h⟩
  | pull first rest ih =>
      cases h with
      | pull hfirst hrest =>
          refine hfirst.bind fun x hx => ?_
          exact (hf acc x i hacc hx).bind fun next hnext => ih () hrest (i + 1) hnext

theorem Within.collect {t : Trace ε} (h : t.Within P Q) :
    t.collect.Within (fun xs => ∀ x ∈ xs, P x) Q := by
  rw [collect_eq]
  exact ⟨h.items, h.events⟩

/-! ### Several runs in lockstep -/

/-- What is left of every member satisfies `P` and `Q`. -/
def AllWithin (P : Item → Prop) (Q : ε → Prop) (members : List (Option (Unit → Trace ε))) : Prop :=
  ∀ t, some t ∈ members → (t ()).Within P Q

theorem Within.next {t : Trace ε} (h : t.Within P Q) :
    t.next.1.Within (fun y => ∀ x, y = some x → P x) Q ∧
      ∀ rest, t.next.2 = some rest → (rest ()).Within P Q := by
  cases h with
  | ended h =>
      refine ⟨⟨fun _ hx => ?_, h⟩, fun _ hrest => ?_⟩
      · cases hx
      · cases hrest
  | pull hfirst hrest =>
      refine ⟨hfirst.map fun x hx y hy => ?_, fun _ heq => ?_⟩
      · cases hy
        exact hx
      · cases heq
        exact hrest

/-- A tick yields items of the members, and leaves what is left of them. -/
theorem AllWithin.tick {members : List (Option (Unit → Trace ε))} (h : AllWithin P Q members) :
    (tick members).1.Within (fun yields => ∀ x, some x ∈ yields → P x) Q ∧
      AllWithin P Q (tick members).2 := by
  induction members with
  | nil => exact ⟨.pure fun _ hx => absurd hx List.not_mem_nil, h⟩
  | cons m members ih =>
      obtain ⟨hvalues, hrest⟩ := ih fun t ht => h t (List.mem_cons_of_mem m ht)
      match m with
      | none =>
          refine ⟨hvalues.map fun yields hy x hx => ?_, fun t ht => ?_⟩
          · rcases List.mem_cons.mp hx with hnone | hx
            · cases hnone
            · exact hy x hx
          · rcases List.mem_cons.mp ht with hnone | ht
            · cases hnone
            · exact hrest t ht
      | some t =>
          obtain ⟨hfirst, hleft⟩ := (h t List.mem_cons_self).next
          refine ⟨hfirst.bind fun y hy => hvalues.bind fun yields hys => .pure ?_, fun u hu => ?_⟩
          · intro x hx
            rcases List.mem_cons.mp hx with heq | hx
            · exact hy x heq.symm
            · exact hys x hx
          · rcases List.mem_cons.mp hu with heq | hu
            · exact hleft u heq.symm
            · exact hrest u hu

theorem AllWithin.zipMembers {combine : List (Option Item) → Traced ε Item}
    (hc : ∀ yields, (∀ x, some x ∈ yields → P x) → (combine yields).Within P Q)
    {members : List (Option (Unit → Trace ε))} (h : AllWithin P Q members) :
    (zipMembers combine members).Within P Q := by
  -- a lockstep goes on with what a tick leaves of its members
  induction members using zipMembers.induct with
  | case1 members t hany ih =>
      rw [Trace.zipMembers, dif_pos hany]
      exact .pull (h.tick.1.bind hc) (ih h.tick.2)
  | case2 members t hnone =>
      rw [Trace.zipMembers, dif_neg hnone]
      exact .ended h.tick.1.events

end Trace

namespace Plan

variable {P : Item → Prop} {Q : ε → Prop}

/-- Every function of the plan gives items with `P` by way of events with `Q`, given items
with `P`. -/
inductive Keeps (P : Item → Prop) (Q : ε → Prop) : Plan ε → Prop where
  | items {xs : List Item} (h : ∀ x ∈ xs, P x) : Keeps P Q (.items xs)
  | deferred {opening : List ε} {result : Traced ε (List Item)} (ho : ∀ e ∈ opening, Q e)
      (h : result.Within (fun xs => ∀ x ∈ xs, P x) Q) : Keeps P Q (.deferred opening result)
  | map {f : Item → Nat → Traced ε Item} {p : Plan ε} (hf : ∀ x i, P x → (f x i).Within P Q)
      (h : Keeps P Q p) : Keeps P Q (.map f p)
  | filter {keep : Item → Nat → Traced ε Bool} {p : Plan ε}
      (hk : ∀ x i, P x → (keep x i).Within (fun _ => True) Q) (h : Keeps P Q p) :
      Keeps P Q (.filter keep p)
  | flatMap {f : Item → Nat → Traced ε (List Item)} {p : Plan ε}
      (hf : ∀ x i, P x → (f x i).Within (fun ys => ∀ y ∈ ys, P y) Q) (h : Keeps P Q p) :
      Keeps P Q (.flatMap f p)
  | takeUntil {stop : Item → Nat → Traced ε Bool} {p : Plan ε}
      (hs : ∀ x i, P x → (stop x i).Within (fun _ => True) Q) (h : Keeps P Q p) :
      Keeps P Q (.takeUntil stop p)
  | fold {seed : Traced ε Item} {f : Item → Item → Nat → Traced ε Item} {p : Plan ε}
      (hs : seed.Within P Q) (hf : ∀ acc x i, P acc → P x → (f acc x i).Within P Q)
      (h : Keeps P Q p) : Keeps P Q (.fold seed f p)
  | collect {f : List Item → Item} {p : Plan ε} (hf : ∀ xs, (∀ x ∈ xs, P x) → P (f xs))
      (h : Keeps P Q p) : Keeps P Q (.collect f p)
  | zip {combine : List (Option Item) → Traced ε Item} {members : List (Plan ε)}
      (hc : ∀ yields, (∀ x, some x ∈ yields → P x) → (combine yields).Within P Q)
      (h : ∀ p ∈ members, Keeps P Q p) : Keeps P Q (.zip combine members)

theorem forall_mem_openingAll {members : List (Plan ε)} (h : ∀ p ∈ members, ∀ e ∈ p.opening, Q e) :
    ∀ e ∈ openingAll members, Q e := by
  induction members with
  | nil => exact List.forall_mem_nil _
  | cons p members ih =>
      obtain ⟨hp, hmembers⟩ := List.forall_mem_cons.mp h
      rw [openingAll]
      exact List.forall_mem_append.mpr ⟨hp, ih hmembers⟩

/-- What functions keep, opening a run keeps. -/
theorem Keeps.opening {p : Plan ε} (h : p.Keeps P Q) : ∀ e ∈ p.opening, Q e := by
  induction h with
  | items | fold | collect => exact List.forall_mem_nil _
  | deferred ho _ => exact ho
  | map _ _ ih | filter _ _ ih | flatMap _ _ ih | takeUntil _ _ ih => exact ih
  | zip _ _ ih => exact forall_mem_openingAll ih

theorem within_runAll {members : List (Plan ε)}
    (h : ∀ p ∈ members, ∀ m, (p.run m).1.Within P Q) (m : Memory) :
    ∀ t ∈ (runAll members m).1, t.Within P Q := by
  induction members generalizing m with
  | nil => exact List.forall_mem_nil _
  | cons p members ih =>
      obtain ⟨hp, hmembers⟩ := List.forall_mem_cons.mp h
      exact List.forall_mem_cons.mpr ⟨hp m, ih hmembers _⟩

/-- **What functions keep, runs keep.** -/
theorem Keeps.run {p : Plan ε} (h : p.Keeps P Q) (m : Memory) : (p.run m).1.Within P Q := by
  induction h generalizing m with
  | items h => exact Trace.within_ofItems h
  | deferred _ h => exact Trace.within_burst h
  | map hf _ ih => exact (ih m).mapFrom hf 0
  | filter hk _ ih => exact (ih m).filterFrom hk 0
  | flatMap hf _ ih => exact (ih m).flatMapFrom hf 0
  | takeUntil hs _ ih => exact (ih m).takeUntilFrom hs 0
  | fold hs hf h ih =>
      rw [Plan.run]
      dsimp only
      refine Trace.within_burst (hs.bind fun acc hacc => ?_)
      refine (Traced.Within.emitAll h.opening).bind fun _ _ => ?_
      refine ((ih m).foldFrom hf 0 hacc).bind fun last hlast => .pure ?_
      exact List.forall_mem_singleton.mpr hlast
  | collect hf h ih =>
      rw [Plan.run]
      dsimp only
      refine Trace.within_burst ((Traced.Within.emitAll h.opening).bind fun _ _ => ?_)
      refine (ih m).collect.bind fun xs hxs => .pure ?_
      exact List.forall_mem_singleton.mpr (hf xs hxs)
  | zip hc _ ih =>
      refine Trace.AllWithin.zipMembers hc fun t ht => ?_
      obtain ⟨u, hu, heq⟩ := List.mem_map.mp ht
      cases heq
      exact within_runAll ih m u hu

/-- All items of a run satisfy `P`, and all its events `Q`, those of opening it included. -/
theorem Keeps.items_and_events {p : Plan ε} (h : p.Keeps P Q) (m : Memory) :
    (∀ x ∈ (p.run m).1.items, P x) ∧ ∀ e ∈ p.opening ++ (p.run m).1.events, Q e :=
  ⟨(h.run m).items, List.forall_mem_append.mpr ⟨h.opening, (h.run m).events⟩⟩

/-! ### Calls that are answered one by one -/

/-- Each single call in the plan is answered as in one of the plans of `S`. -/
inductive Mixture : (Plan ε → Prop) → Plan ε → Prop where
  | items {S : Plan ε → Prop} {xs : List Item} (h : S (.items xs)) : Mixture S (.items xs)
  | deferred {S : Plan ε → Prop} {opening : List ε} {result : Traced ε (List Item)}
      (ho : ∃ r, S (.deferred opening r)) (h : ∃ o, S (.deferred o result)) :
      Mixture S (.deferred opening result)
  | map {S : Plan ε → Prop} {f : Item → Nat → Traced ε Item} {p : Plan ε}
      (hf : ∀ x i, ∃ f' p', S (.map f' p') ∧ f x i = f' x i)
      (h : Mixture (fun p' => ∃ f', S (.map f' p')) p) : Mixture S (.map f p)
  | filter {S : Plan ε → Prop} {keep : Item → Nat → Traced ε Bool} {p : Plan ε}
      (hk : ∀ x i, ∃ keep' p', S (.filter keep' p') ∧ keep x i = keep' x i)
      (h : Mixture (fun p' => ∃ keep', S (.filter keep' p')) p) : Mixture S (.filter keep p)
  | flatMap {S : Plan ε → Prop} {f : Item → Nat → Traced ε (List Item)} {p : Plan ε}
      (hf : ∀ x i, ∃ f' p', S (.flatMap f' p') ∧ f x i = f' x i)
      (h : Mixture (fun p' => ∃ f', S (.flatMap f' p')) p) : Mixture S (.flatMap f p)
  | takeUntil {S : Plan ε → Prop} {stop : Item → Nat → Traced ε Bool} {p : Plan ε}
      (hs : ∀ x i, ∃ stop' p', S (.takeUntil stop' p') ∧ stop x i = stop' x i)
      (h : Mixture (fun p' => ∃ stop', S (.takeUntil stop' p')) p) : Mixture S (.takeUntil stop p)
  | fold {S : Plan ε → Prop} {seed : Traced ε Item} {f : Item → Item → Nat → Traced ε Item}
      {p : Plan ε} (hs : ∃ f' p', S (.fold seed f' p'))
      (hf : ∀ acc x i, ∃ seed' f' p', S (.fold seed' f' p') ∧ f acc x i = f' acc x i)
      (h : Mixture (fun p' => ∃ seed' f', S (.fold seed' f' p')) p) : Mixture S (.fold seed f p)
  | collect {S : Plan ε → Prop} {f : List Item → Item} {p : Plan ε}
      (hf : ∀ xs, ∃ f' p', S (.collect f' p') ∧ f xs = f' xs)
      (h : Mixture (fun p' => ∃ f', S (.collect f' p')) p) : Mixture S (.collect f p)
  | zip {S : Plan ε → Prop} {combine : List (Option Item) → Traced ε Item}
      {members : List (Plan ε)}
      (hc : ∀ yields, ∃ combine' members', S (.zip combine' members') ∧
        combine yields = combine' yields)
      (h : ∀ (k : Nat) (p : Plan ε), members[k]? = some p →
        Mixture (fun p' => ∃ combine' members', S (.zip combine' members') ∧
          members'[k]? = some p') p) :
      Mixture S (.zip combine members)

/-- **What plans keep, their mixtures keep.** -/
theorem Mixture.keeps {S : Plan ε → Prop} {p : Plan ε} (h : Mixture S p)
    (hS : ∀ p', S p' → p'.Keeps P Q) : p.Keeps P Q := by
  induction h with
  | items h => exact hS _ h
  | deferred ho h =>
      obtain ⟨_, ho⟩ := ho
      obtain ⟨_, h⟩ := h
      cases hS _ ho with
      | deferred ho' _ =>
          cases hS _ h with
          | deferred _ h' => exact .deferred ho' h'
  | map hf _ ih =>
      refine .map (fun x i hx => ?_) (ih fun p' ⟨_, hp'⟩ => ?_)
      · obtain ⟨f', p', hp', heq⟩ := hf x i
        rw [heq]
        cases hS _ hp' with
        | map hf' _ => exact hf' x i hx
      · cases hS _ hp' with
        | map _ h' => exact h'
  | filter hk _ ih =>
      refine .filter (fun x i hx => ?_) (ih fun p' ⟨_, hp'⟩ => ?_)
      · obtain ⟨keep', p', hp', heq⟩ := hk x i
        rw [heq]
        cases hS _ hp' with
        | filter hk' _ => exact hk' x i hx
      · cases hS _ hp' with
        | filter _ h' => exact h'
  | flatMap hf _ ih =>
      refine .flatMap (fun x i hx => ?_) (ih fun p' ⟨_, hp'⟩ => ?_)
      · obtain ⟨f', p', hp', heq⟩ := hf x i
        rw [heq]
        cases hS _ hp' with
        | flatMap hf' _ => exact hf' x i hx
      · cases hS _ hp' with
        | flatMap _ h' => exact h'
  | takeUntil hs _ ih =>
      refine .takeUntil (fun x i hx => ?_) (ih fun p' ⟨_, hp'⟩ => ?_)
      · obtain ⟨stop', p', hp', heq⟩ := hs x i
        rw [heq]
        cases hS _ hp' with
        | takeUntil hs' _ => exact hs' x i hx
      · cases hS _ hp' with
        | takeUntil _ h' => exact h'
  | fold hs hf _ ih =>
      refine .fold ?_ (fun acc x i hacc hx => ?_) (ih fun p' ⟨_, _, hp'⟩ => ?_)
      · obtain ⟨f', p', hp'⟩ := hs
        cases hS _ hp' with
        | fold hs' _ _ => exact hs'
      · obtain ⟨seed', f', p', hp', heq⟩ := hf acc x i
        rw [heq]
        cases hS _ hp' with
        | fold _ hf' _ => exact hf' acc x i hacc hx
      · cases hS _ hp' with
        | fold _ _ h' => exact h'
  | collect hf _ ih =>
      refine .collect (fun xs hxs => ?_) (ih fun p' ⟨_, hp'⟩ => ?_)
      · obtain ⟨f', p', hp', heq⟩ := hf xs
        rw [heq]
        cases hS _ hp' with
        | collect hf' _ => exact hf' xs hxs
      · cases hS _ hp' with
        | collect _ h' => exact h'
  | zip hc _ ih =>
      refine .zip (fun yields hyields => ?_) fun p hp => ?_
      · obtain ⟨combine', members', hp', heq⟩ := hc yields
        rw [heq]
        cases hS _ hp' with
        | zip hc' _ => exact hc' yields hyields
      · -- a member is a mixture of the members at its own place
        obtain ⟨k, hk⟩ := List.mem_iff_getElem?.mp hp
        refine ih k p hk fun p' ⟨_, members', hp', hk'⟩ => ?_
        cases hS _ hp' with
        | zip _ h' => exact h' p' (List.mem_of_getElem? hk')

end Plan

end Pipeline
