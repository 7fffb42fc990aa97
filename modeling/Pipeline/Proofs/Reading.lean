import Pipeline.Stage.Basic

/-!
# Reading — no stage reads past a boundary

`Stage.parse` reads one stage from the front of a token list and says how many tokens it took.
A stage with fixed arguments takes them whatever they look like; a stage with a phrase takes the
longest run of tokens that are no markers, and a quoting token in front of the run changes what the
phrase is.  So what a stage reads can depend on the tokens behind it.

It does not depend on them once they begin with a marker other than the quoting one
(`StartsStage`): such a token ends every run and is the argument of no stage that was read without
it.

* `parse_append`: a stage takes no more tokens than there are, and is read the same in front of a
  boundary.
* `readAll_append`: reading stage after stage, `tokens ++ more` gives the stages of `tokens` and
  then the stages, or the error, of `more`.
-/

namespace Pipeline

/-- The tokens are none, or begin with a token that has a meaning of its own and does not quote. -/
def StartsStage : List String → Prop
  | [] => True
  | first :: _ => isMarker first = true ∧ first ≠ quoteToken

/-- Every marker starts a stage. -/
theorem startsStage_token (marker : Marker) (args : List String) :
    StartsStage (marker.token :: args) := by
  refine ⟨isMarker_token marker, ?_⟩
  cases marker <;> decide

/-! ### Runs of tokens -/

theorem takeWhile_append_of_startsStage {more : List String} (hm : StartsStage more) :
    ∀ run : List String,
      (run ++ more).takeWhile (!isMarker ·) = run.takeWhile (!isMarker ·)
  | [] => by
      cases more with
      | nil => rfl
      | cons first _ => simp [hm.1]
  | token :: run => by
      simp only [List.cons_append, List.takeWhile_cons, takeWhile_append_of_startsStage hm run]

namespace Munch

/-- A run ends where a boundary begins. -/
theorem take_append {more : List String} (hm : StartsStage more) (tokens : List String) :
    take (tokens ++ more) = take tokens := by
  cases tokens with
  | nil =>
      cases more with
      | nil => rfl
      | cons first _ => simp [take, hm.1, hm.2]
  | cons first rest =>
      have hrest := takeWhile_append_of_startsStage hm rest
      have hall := takeWhile_append_of_startsStage hm (first :: rest)
      rw [List.cons_append] at hall ⊢
      simp only [take, hrest, hall]

theorem consumed_take_le (tokens : List String) : (take tokens).consumed ≤ tokens.length := by
  cases tokens with
  | nil => exact Nat.le_refl _
  | cons first rest =>
      by_cases hq : first = quoteToken
      · rw [take, if_pos hq]
        exact Nat.succ_le_succ (List.takeWhile_sublist _).length_le
      · rw [take, if_neg hq]
        exact (List.takeWhile_sublist _).length_le

end Munch

namespace Stage

/-! ### Arguments -/

theorem argument_of_getElem? {marker : Marker} {need : Need} {args : List String} {i : Nat}
    {arg : String} (h : args[i]? = some arg) : argument marker need args i = .ok arg := by
  simp only [argument, h]

/-- What is read behind an argument is read from an argument that is there. -/
theorem argument_bind_eq_ok {α : Type} {marker : Marker} {need : Need} {args : List String}
    {i : Nat} {k : String → Except BuildError α} {r : α}
    (h : (argument marker need args i >>= k) = .ok r) :
    ∃ arg, args[i]? = some arg ∧ i < args.length ∧ k arg = .ok r := by
  cases ha : args[i]? with
  | none => simp only [argument, ha, bind, Except.bind] at h; cases h
  | some arg =>
      rw [argument_of_getElem? ha] at h
      exact ⟨arg, rfl, (List.getElem?_eq_some_iff.mp ha).1, h⟩

theorem getElem?_append_of_some {args : List String} (more : List String) {i : Nat}
    {arg : String} (h : args[i]? = some arg) : (args ++ more)[i]? = some arg := by
  rw [List.getElem?_append_left (List.getElem?_eq_some_iff.mp h).1, h]

/-! ### One stage -/

/-- **A marked stage before a boundary.**  It takes tokens that are there, and reads the same with
a boundary behind them. -/
theorem parseMarked_append {marker : Marker} {args more : List String} {stage : Stage} {n : Nat}
    (h : parseMarked marker args = .ok (stage, n)) (hm : StartsStage more) :
    n ≤ args.length + 1 ∧ parseMarked marker (args ++ more) = .ok (stage, n) := by
  have hrun := Munch.consumed_take_le args
  cases marker
  case wholeArray | drop | disableStacking | suppressPrint =>
    cases h
    exact ⟨Nat.le_add_left _ _, rfl⟩
  case name | seek =>
    -- the argument is taken whatever it looks like, so it must be there already
    obtain ⟨arg, ha, hlt, hr⟩ := argument_bind_eq_ok h
    cases hr
    refine ⟨Nat.succ_le_succ hlt, ?_⟩
    simp only [parseMarked, argument_of_getElem? (getElem?_append_of_some more ha)]
    rfl
  case combine =>
    obtain ⟨arg, ha, hlt, hr⟩ := argument_bind_eq_ok h
    have hn : n = 2 := by
      dsimp only at hr
      split at hr <;> cases hr
      rfl
    refine ⟨hn ▸ Nat.succ_le_succ hlt, ?_⟩
    simp only [parseMarked, argument_of_getElem? (getElem?_append_of_some more ha)]
    exact hr
  case stackRef =>
    obtain ⟨arg, ha, hlt, hr⟩ := argument_bind_eq_ok h
    have hn : n = 2 := by
      split at hr <;> cases hr
      rfl
    refine ⟨hn ▸ Nat.succ_le_succ hlt, ?_⟩
    simp only [parseMarked, argument_of_getElem? (getElem?_append_of_some more ha)]
    exact hr
  case importModule =>
    obtain ⟨reference, ha, -, hr⟩ := argument_bind_eq_ok h
    obtain ⟨bound, hb, hlt, hr⟩ := argument_bind_eq_ok hr
    cases hr
    refine ⟨Nat.succ_le_succ hlt, ?_⟩
    simp only [parseMarked, argument_of_getElem? (getElem?_append_of_some more ha),
      argument_of_getElem? (getElem?_append_of_some more hb)]
    rfl
  case reduce =>
    simp only [parseMarked, parseReduce] at h ⊢
    rw [Munch.take_append hm]
    refine ⟨?_, h⟩
    split at h
    · split at h <;> cases h
      exact Nat.succ_le_succ hrun
    · cases h
  all_goals
    simp only [parseMarked, withPhrase] at h ⊢
    rw [Munch.take_append hm]
    cases h
    exact ⟨Nat.succ_le_succ hrun, rfl⟩

theorem parse_of_marker {first : String} {marker : Marker} (h : Marker.ofToken? first = some marker)
    (args : List String) : parse (first :: args) = parseMarked marker args := by
  simp only [parse, h]

theorem parse_of_text {first : String} (h : Marker.ofToken? first = none) (args : List String) :
    parse (first :: args) =
      .ok (.evaluate (Munch.take (first :: args)).phrase,
        (Munch.take (first :: args)).consumed) := by
  simp only [parse, h]

/-- **A stage before a boundary.**  It takes tokens that are there, and reads the same with a
boundary behind them. -/
theorem parse_append {tokens more : List String} {stage : Stage} {n : Nat}
    (h : parse tokens = .ok (stage, n)) (hm : StartsStage more) :
    n ≤ tokens.length ∧ parse (tokens ++ more) = .ok (stage, n) := by
  cases tokens with
  | nil => cases h
  | cons first args =>
      rw [List.cons_append]
      cases hf : Marker.ofToken? first with
      | some marker =>
          rw [parse_of_marker hf] at h ⊢
          exact parseMarked_append h hm
      | none =>
          rw [parse_of_text hf] at h ⊢
          rw [← List.cons_append, Munch.take_append hm]
          cases h
          exact ⟨Munch.consumed_take_le (first :: args), rfl⟩

/-! ### Stage after stage -/

/-- The stages of a token list, each with the number of tokens it takes, and the error that ends
reading before the tokens do.  No tokens are no stages. -/
def readAll (tokens : List String) : List (Stage × Nat) × Option BuildError :=
  if tokens = [] then ([], none) else parseAll tokens

theorem readAll_of_error {tokens : List String} {e : BuildError} (hne : tokens ≠ [])
    (h : parse tokens = .error e) : readAll tokens = ([], some e) := by
  rw [readAll, if_neg hne, parseAll]
  split
  · next e' h' => rw [h] at h'; cases h'; rfl
  · next h' => rw [h] at h'; cases h'

/-- Reading goes on behind the stage at the front. -/
theorem readAll_of_ok {tokens : List String} {stage : Stage} {n : Nat}
    (h : parse tokens = .ok (stage, n)) :
    readAll tokens =
      ((stage, n) :: (readAll (tokens.drop n)).1, (readAll (tokens.drop n)).2) := by
  have hne : tokens ≠ [] := by
    rintro rfl
    cases h
  rw [readAll, if_neg hne, parseAll]
  split
  · next h' => rw [h] at h'; cases h'
  · next stage' n' h' =>
      rw [h] at h'
      cases h'
      by_cases hd : tokens.drop n = []
      · rw [if_pos hd, hd]; rfl
      · rw [if_neg hd, readAll, if_neg hd]

/-- **Stages read one after the other.**  Tokens that are read to their end give the same stages in
front of a boundary, and reading goes on with what is behind it. -/
theorem readAll_append {more : List String} (hm : StartsStage more) (tokens : List String)
    (h : (readAll tokens).2 = none) :
    readAll (tokens ++ more) = ((readAll tokens).1 ++ (readAll more).1, (readAll more).2) := by
  -- the tokens left behind each stage are fewer, so the induction is on their number
  induction hlen : tokens.length using Nat.strongRecOn generalizing tokens with
  | ind len ih =>
      subst hlen
      cases hp : parse tokens with
      | error e =>
          by_cases hne : tokens = []
          · subst hne; rfl
          · rw [readAll_of_error hne hp] at h; cases h
      | ok r =>
          obtain ⟨stage, n⟩ := r
          obtain ⟨hle, hp'⟩ := parse_append hp hm
          rw [readAll_of_ok hp] at h
          have hlt : (tokens.drop n).length < tokens.length := by
            have := consumed_parse_pos hp
            rw [List.length_drop]
            omega
          rw [readAll_of_ok hp', readAll_of_ok hp, List.drop_append_of_le_length hle,
            ih _ hlt (tokens.drop n) h rfl]
          rfl

end Stage

end Pipeline
