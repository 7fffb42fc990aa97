import Mathlib.Data.List.Pairwise
import Pipeline.Proofs.Handles
import Pipeline.Proofs.Registry

/-!
# Naming — one name for one sequence

Naming refuses a name that is taken, and a sequence that has a name.  So the entries of a registry
differ in their names, and in their sequences (`State.Distinct`).  For the sequences this is more
than a look at the guard: a sequence that has a name can become current again, by a drop or an
import, and then the guard holds; but going back to a name or to an entry of the stack, and naming
where there is no sequence, take a handle of their own, and it has to be new.

**Naming** (`Course.naming_discipline`).  Behind every course the entries are distinct, they are
there ever after, and naming fails for the two reasons only: first because the name is taken, then
because the current sequence has the name that the error gives.
-/

namespace Pipeline

open Interpreter (Visit)

/-- The two entries share neither name nor sequence. -/
def Named.Apart (a b : Named) : Prop :=
  a.name ≠ b.name ∧ a.sequence.same b.sequence = false

instance : Std.Symm Named.Apart where
  symm _ _ h := ⟨h.1.symm, BEq.comm.trans h.2⟩

namespace State

/-! ### Looking for an entry -/

theorem find?_eq_none_iff {s : State} {label : String} :
    s.find? label = none ↔ ∀ named ∈ s.registry, named.name ≠ label := by
  unfold find?
  simp only [List.find?_eq_none, decide_eq_true_eq, ne_eq]

theorem currentNamed?_eq_none_iff {s : State} :
    s.currentNamed? = none ↔
      ∀ current, s.current = some current →
        ∀ named ∈ s.registry, named.sequence.same current = false := by
  unfold currentNamed?
  cases s.current with
  | none => simp
  | some current => simp [List.find?_eq_none]

/-! ### Entries are distinct -/

/-- No two entries of the registry share a name or a sequence. -/
def Distinct (s : State) : Prop := s.registry.Pairwise Named.Apart

/-- Entries for one sequence are one entry. -/
theorem Distinct.eq_of_same {s : State} (hs : s.Distinct) {a b : Named} (ha : a ∈ s.registry)
    (hb : b ∈ s.registry) {q : Sequence Event} (haq : a.sequence.same q = true)
    (hbq : b.sequence.same q = true) : a = b := by
  by_contra hne
  have hsame : a.sequence.same b.sequence = true :=
    beq_iff_eq.mpr ((beq_iff_eq.mp haq).trans (beq_iff_eq.mp hbq).symm)
  rw [(hs.forall ha hb hne).2] at hsame
  cases hsame

/-- An entry with a free name and a sequence that has none goes with the others. -/
theorem distinct_register {s : State} (hs : s.Distinct) {new : Named}
    (hname : s.find? new.name = none)
    (hsequence : ∀ named ∈ s.registry, named.sequence.same new.sequence = false) :
    (s.registry ++ [new]).Pairwise Named.Apart := by
  refine List.pairwise_append.mpr ⟨hs, List.pairwise_singleton _ _, ?_⟩
  intro named hnamed entry hentry
  rw [List.mem_singleton.mp hentry]
  exact ⟨find?_eq_none_iff.mp hname named hnamed, hsequence named hnamed⟩

/-- **Naming keeps entries distinct.**  The current sequence has no name yet, and a new one has a
new handle. -/
theorem Move.distinct {s t : State} {stage : Stage} (h : Move s stage t) (hfresh : s.Fresh)
    (hs : s.Distinct) : t.Distinct := by
  cases h with
  | name h =>
      obtain ⟨hfree, hunnamed, ⟨current, hc, rfl⟩ | ⟨-, rfl⟩⟩ := name_eq_ok_cases h
      · exact distinct_register hs hfree (currentNamed?_eq_none_iff.mp hunnamed current hc)
      · exact distinct_register hs hfree fun named hnamed => hfresh.same_named hnamed _
  | drop h =>
      obtain ⟨-, rfl⟩ := drop_eq_ok h
      exact hs
  | _ => exact hs

/-! ### Why naming fails -/

theorem name_of_taken {s : State} {named : Named} (h : named ∈ s.registry) :
    s.name named.name = .error (.nameTaken named.name) := by
  cases hfind : s.find? named.name with
  | none => exact absurd rfl (find?_eq_none_iff.mp hfind named h)
  | some found => rw [name, hfind]

theorem name_of_named {s : State} (hs : s.Distinct) {label : String} {current : Sequence Event}
    {named : Named} (hfree : s.find? label = none) (hc : s.current = some current)
    (h : named ∈ s.registry) (hsame : named.sequence.same current = true) :
    s.name label = .error (.alreadyNamed named.name) := by
  cases hfound : s.currentNamed? with
  | none =>
      rw [currentNamed?_eq_none_iff.mp hfound current hc named h] at hsame
      cases hsame
  | some found =>
      -- the oldest entry for the sequence is the only one
      have hfind : s.registry.find? (·.sequence.same current) = some found := by
        rw [currentNamed?, hc, Option.bind_some] at hfound
        exact hfound
      have hfoundSame := List.find?_some hfind
      have hone : found = named :=
        hs.eq_of_same (List.mem_of_find?_eq_some hfind) h hfoundSame hsame
      rw [name, hfree, hfound, hone]

theorem name_of_free {s : State} {label : String} (hfree : s.find? label = none)
    (hunnamed : s.currentNamed? = none) : ∃ t, s.name label = .ok t := by
  rw [name, hfree, hunnamed]
  cases s.current with
  | none => exact ⟨_, rfl⟩
  | some current => exact ⟨_, rfl⟩

theorem lookup_of_prefix {s t : State} {label : String} {q : Sequence Event}
    (hp : s.registry <+: t.registry) (h : s.lookup label = .ok q) : t.lookup label = .ok q := by
  obtain ⟨named, hfind, rfl⟩ := lookup_eq_ok h
  rw [lookup, find?_of_prefix hp hfind]

end State

namespace Course
open State

theorem distinct {first : Option (Sequence Event)} {visits : List Visit} {s : State}
    (h : Course (.startingFrom first) visits s) : s.Distinct :=
  -- that new handles are new is carried along
  (h.keeps (P := fun u => u.Fresh ∧ u.Distinct)
    (fun hmove hu => ⟨hmove.fresh hu.1, hmove.distinct hu.1 hu.2⟩)
    ⟨fresh_startingFrom first, .nil⟩).2

/-- **One name for one sequence.**  Behind every course from the beginning of a pipeline:

* no two entries of the registry share a name or a sequence;
* behind any further course the registry has only gained entries at its end, and every name that
  stood for a sequence stands for the same one;
* naming succeeds iff the name is free and the current sequence, if there is one, has no name;
* a name that is taken is refused first, whatever the current sequence; with a free name, a current
  sequence that has a name is refused with that name. -/
theorem naming_discipline {first : Option (Sequence Event)} {visits : List Visit} {s : State}
    (h : Course (.startingFrom first) visits s) :
    (s.registry.Pairwise fun a b => a.name ≠ b.name ∧ a.sequence.same b.sequence = false) ∧
      (∀ (later : List Visit) (t : State), Course s later t →
        s.registry <+: t.registry ∧
          ∀ label q, s.lookup label = .ok q → t.lookup label = .ok q) ∧
      ∀ label,
        ((∃ t, s.name label = .ok t) ↔
          (∀ named ∈ s.registry, named.name ≠ label) ∧
            ∀ current, s.current = some current →
              ∀ named ∈ s.registry, named.sequence.same current = false) ∧
        ((∃ named ∈ s.registry, named.name = label) → s.name label = .error (.nameTaken label)) ∧
        ((∀ named ∈ s.registry, named.name ≠ label) →
          ∀ current, s.current = some current →
            ∀ named ∈ s.registry, named.sequence.same current = true →
              s.name label = .error (.alreadyNamed named.name)) := by
  refine ⟨h.distinct, fun later t hlater => ⟨hlater.registry_grows, fun label q => ?_⟩,
    fun label => ⟨?_, ?_, ?_⟩⟩
  · exact lookup_of_prefix hlater.registry_grows
  · rw [← find?_eq_none_iff, ← currentNamed?_eq_none_iff]
    constructor
    · rintro ⟨t, ht⟩
      obtain ⟨hfree, hunnamed, -⟩ := name_eq_ok_cases ht
      exact ⟨hfree, hunnamed⟩
    · rintro ⟨hfree, hunnamed⟩
      exact name_of_free hfree hunnamed
  · rintro ⟨named, hnamed, rfl⟩
    exact name_of_taken hnamed
  · intro hfree current hc named hnamed hsame
    exact name_of_named h.distinct (find?_eq_none_iff.mpr hfree) hc hnamed hsame

/-- A sequence that has a name comes back by a drop.  It is refused a second name, with its first,
and a name that is taken is refused before that.  Going back to the name keeps the entry. -/
theorem naming_discipline_drop :
    ∃ (visits later : List Visit) (s t : State) (q : Sequence Event),
      Course (.startingFrom none) visits s ∧ Course s later t ∧
        s.name "b" = .error (.alreadyNamed "a") ∧ s.name "a" = .error (.nameTaken "a") ∧
        s.lookup "a" = .ok q ∧ t.lookup "a" = .ok q := by
  obtain ⟨s, t, q, happly, hseek, hcurrent, hregistry, hlookup⟩ :
      ∃ (s t : State) (q : Sequence Event),
        Stage.applyAll (.inert .standard) [.wholeArray, .name "a", .wholeArray, .drop]
            (.startingFrom none) = ⟨[], .ok s⟩ ∧
          Stage.apply (.inert .standard) (.seek "a") s = ⟨[], .ok t⟩ ∧
          s.current = some q ∧ s.registry = [⟨"a", q⟩] ∧ s.lookup "a" = .ok q :=
    ⟨_, _, _, rfl, rfl, rfl, rfl, rfl⟩
  obtain ⟨visits, hcourse, -⟩ := of_applyAll happly
  have hlater : Course s [⟨.seek "a", [], t⟩] t := .cons hseek (.nil t)
  have hmem : Named.mk "a" q ∈ s.registry := by
    rw [hregistry]
    exact List.mem_singleton_self _
  have hfree : ∀ named ∈ s.registry, named.name ≠ "b" := by
    rw [hregistry]
    simp
  obtain ⟨-, hkept, hname⟩ := naming_discipline hcourse
  exact ⟨visits, _, s, t, q, hcourse, hlater,
    (hname "b").2.2 hfree q hcurrent _ hmem (beq_self_eq_true _),
    (hname "a").2.1 ⟨_, hmem, rfl⟩, hlookup, (hkept _ t hlater).2 "a" q hlookup⟩

end Course

end Pipeline
