import Pipeline.Proofs.Course

/-!
# Handles — new ones are new

A stage gives away one handle at most, and it is the next one (`Move.mem_sequences`).  So behind
every course the next handle is above those of all sequences that are current, named or on the
stack (`Course.fresh`), and the sequence that gets it is none of them.
-/

namespace Pipeline

namespace State

/-- The sequences of a state: the current one, the named ones and those on the stack. -/
def sequences (s : State) : List (Sequence Event) :=
  s.current.toList ++ s.registry.map (·.sequence) ++ s.stack

theorem mem_sequences {s : State} {q : Sequence Event} :
    q ∈ s.sequences ↔
      s.current = some q ∨ (∃ named ∈ s.registry, named.sequence = q) ∨ q ∈ s.stack := by
  simp only [sequences, List.mem_append, Option.mem_toList, List.mem_map, or_assoc]

theorem current_mem_sequences {s : State} {q : Sequence Event} (h : s.current = some q) :
    q ∈ s.sequences :=
  mem_sequences.mpr (.inl h)

theorem named_mem_sequences {s : State} {named : Named} (h : named ∈ s.registry) :
    named.sequence ∈ s.sequences :=
  mem_sequences.mpr (.inr (.inl ⟨named, h, rfl⟩))

theorem entry_mem_sequences {s : State} {q : Sequence Event} (h : q ∈ s.stack) :
    q ∈ s.sequences :=
  mem_sequences.mpr (.inr (.inr h))

/-- The next handle is above all handles of the state. -/
def Fresh (s : State) : Prop := ∀ q ∈ s.sequences, q.handle < s.nextHandle

theorem mem_sequences_advance {s : State} {q new : Sequence Event}
    (h : q ∈ (s.advance new).sequences) : q ∈ s.sequences ∨ q = new := by
  rcases mem_sequences.mp h with hcurrent | ⟨named, hnamed, rfl⟩ | hstack
  · cases hcurrent
    exact .inr rfl
  · exact .inl (named_mem_sequences hnamed)
  · unfold advance at hstack
    by_cases hst : s.stacking
    · rw [if_pos hst, List.mem_append, List.mem_singleton] at hstack
      exact hstack.imp_left entry_mem_sequences
    · rw [if_neg hst] at hstack
      exact .inl (entry_mem_sequences hstack)

theorem mem_sequences_register {s : State} {q : Sequence Event} {new : Named}
    {nextHandle : Handle}
    (h : q ∈ { s with registry := s.registry ++ [new], nextHandle }.sequences) :
    q ∈ s.sequences ∨ q = new.sequence := by
  rcases mem_sequences.mp h with hcurrent | ⟨named, hnamed, rfl⟩ | hstack
  · exact .inl (current_mem_sequences hcurrent)
  · rcases List.mem_append.mp hnamed with hold | hnew
    · exact .inl (named_mem_sequences hold)
    · exact .inr (congrArg Named.sequence (List.mem_singleton.mp hnew))
  · exact .inl (entry_mem_sequences hstack)

/-- **A stage gives away one handle at most**, the next one. -/
theorem Move.mem_sequences {s t : State} {stage : Stage} {q : Sequence Event} (h : Move s stage t)
    (hq : q ∈ t.sequences) :
    q ∈ s.sequences ∨ (q.handle = s.nextHandle ∧ t.nextHandle = s.nextHandle + 1) := by
  cases h with
  | produce plan _ =>
      rcases mem_sequences_advance hq with hold | rfl
      · exact .inl hold
      · exact .inr ⟨rfl, rfl⟩
  | name h =>
      obtain ⟨-, -, ⟨current, hc, rfl⟩ | ⟨-, rfl⟩⟩ := name_eq_ok_cases h
      · rcases mem_sequences_register hq with hold | rfl
        · exact .inl hold
        · exact .inl (current_mem_sequences hc)
      · rcases mem_sequences_register hq with hold | rfl
        · exact .inl hold
        · exact .inr ⟨rfl, rfl⟩
  | drop h =>
      obtain ⟨-, rfl⟩ := drop_eq_ok h
      rcases State.mem_sequences.mp hq with hlast | ⟨named, hnamed, rfl⟩ | hstack
      · have hmem : q ∈ s.stack.dropLast := List.mem_of_getLast? hlast
        exact .inl (entry_mem_sequences (List.dropLast_subset _ hmem))
      · exact .inl (named_mem_sequences hnamed)
      · exact .inl (entry_mem_sequences (List.dropLast_subset _ hstack))
  | laterImport env hc =>
      rcases mem_sequences_advance hq with hold | rfl
      · exact .inl hold
      · exact .inl (current_mem_sequences hc)
  | _ => exact .inl hq

theorem Move.nextHandle_le {s t : State} {stage : Stage} (h : Move s stage t) :
    s.nextHandle ≤ t.nextHandle := by
  cases h with
  | produce => exact Nat.le_succ _
  | name h =>
      obtain ⟨-, -, ⟨_, _, rfl⟩ | ⟨_, rfl⟩⟩ := name_eq_ok_cases h
      · exact Nat.le_refl _
      · exact Nat.le_succ _
  | drop h =>
      obtain ⟨-, rfl⟩ := drop_eq_ok h
      exact Nat.le_refl _
  | _ => exact Nat.le_refl _

theorem fresh_startingFrom (first : Option (Sequence Event)) : (startingFrom first).Fresh := by
  intro q hq
  rcases mem_sequences.mp hq with hcurrent | ⟨_, hnamed, _⟩ | hstack
  · obtain rfl : first = some q := hcurrent
    exact Nat.lt_succ_self _
  · cases hnamed
  · cases hstack

theorem Move.fresh {s t : State} {stage : Stage} (h : Move s stage t) (hs : s.Fresh) :
    t.Fresh := by
  intro q hq
  rcases h.mem_sequences hq with hold | ⟨hnew, hnext⟩
  · exact Nat.lt_of_lt_of_le (hs q hold) h.nextHandle_le
  · rw [hnew, hnext]
    exact Nat.lt_succ_self _

end State

/-- **New handles are new.** -/
theorem Course.fresh {first : Option (Sequence Event)} {visits : List Interpreter.Visit}
    {s : State} (h : Course (.startingFrom first) visits s) : s.Fresh :=
  h.keeps State.Move.fresh (State.fresh_startingFrom first)

/-- A new sequence is none of those with a name. -/
theorem State.Fresh.same_named {s : State} (hs : s.Fresh) {named : Named} (h : named ∈ s.registry)
    (plan : Plan Event) : named.sequence.same ⟨s.nextHandle, plan⟩ = false := by
  have hlt : named.sequence.handle < s.nextHandle :=
    hs _ (named_mem_sequences h)
  exact beq_false_of_ne (Nat.ne_of_lt hlt)

end Pipeline
