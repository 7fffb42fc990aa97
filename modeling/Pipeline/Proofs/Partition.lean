import Mathlib.Data.List.Forall2
import Pipeline.Proofs.Building
import Pipeline.Proofs.Extent

/-!
# Partition — every token belongs to one stage

Reading a stage takes tokens that are there, and at least one, so reading stage after stage comes to
an end and leaves no token out.  For this the table that ends a run and the one that begins a stage
must name the same tokens (`isMarker_iff`): a token that ended runs and began no stage would be read
as a phrase without any tokens.

* A stage with a phrase lies on its marker, which an evaluation can do without, a quoting token at
  most, and all the tokens up to the next marker; these are its phrase, in their order
  (`Stage.exists_liesOn`).  What is left begins with a marker.
* The stages that the interpreter applies lie on parts of the tokens, one behind the other, none of
  them empty (`Interpreter.exists_parts`); behind them something is left only where a stage could
  not be read or applied.

`Interpreter.tokens_partitioned` says both of every token list.
-/

namespace Pipeline

namespace Munch

theorem length_tokens (m : Munch) : m.tokens.length = m.consumed := by
  obtain ⟨quoted, run⟩ := m
  cases quoted <;> rfl

/-- A run and the tokens behind it are all there are. -/
theorem tokens_append_drop (xs : List String) :
    (take xs).tokens ++ xs.drop (take xs).consumed = xs := by
  rw [← take_consumed, List.take_append_drop]

/-- A quoting token in front is not left out. -/
theorem head?_of_not_quoted {xs : List String} (h : (take xs).quoted = false) :
    xs.head? ≠ some quoteToken := by
  cases xs with
  | nil => nofun
  | cons first rest =>
      rintro ⟨⟩
      rw [take, if_pos rfl] at h
      cases h

theorem isMarker_of_head?_dropWhile {xs : List String} {token : String}
    (h : (xs.dropWhile (!isMarker ·)).head? = some token) : isMarker token = true := by
  have hnot := List.head?_dropWhile_not (!isMarker ·) xs
  rw [h] at hnot
  simpa using hnot

/-- **A run is as long as it can be**: only a marker ends it. -/
theorem isMarker_of_head?_drop {xs : List String} {token : String}
    (h : (xs.drop (take xs).consumed).head? = some token) : isMarker token = true := by
  have hdrop : ∀ ys : List String,
      ys.drop (ys.takeWhile (!isMarker ·)).length = ys.dropWhile (!isMarker ·) := by
    intro ys
    have hsplit := List.takeWhile_append_dropWhile (p := (!isMarker ·)) (l := ys)
    calc ys.drop (ys.takeWhile (!isMarker ·)).length
        = (ys.takeWhile (!isMarker ·) ++ ys.dropWhile (!isMarker ·)).drop
            (ys.takeWhile (!isMarker ·)).length := by rw [hsplit]
      _ = ys.dropWhile (!isMarker ·) := List.drop_left
  cases xs with
  | nil => cases h
  | cons first rest =>
      by_cases hq : first = quoteToken
      · rw [take, if_pos hq, consumed, if_pos rfl, List.drop_succ_cons, hdrop] at h
        exact isMarker_of_head?_dropWhile h
      · rw [take, if_neg hq, consumed, if_neg Bool.false_ne_true, Nat.add_zero, hdrop] at h
        exact isMarker_of_head?_dropWhile h

end Munch

/-- The phrase holds a run of tokens in their order: as they are, where they are quoted, and
otherwise as one source, with a blank between two of them. -/
def Phrase.Holds (quoted : Bool) (run : List String) : Phrase → Prop
  | .quoted tokens => quoted = true ∧ tokens = run
  | .source s => quoted = false ∧ s = " ".intercalate run

theorem Phrase.holds_ofRun (quoted : Bool) (run : List String) :
    (Phrase.ofRun quoted run).Holds quoted run := by
  cases quoted <;> exact ⟨rfl, rfl⟩

namespace Stage

/-! ### The tokens of a stage with a phrase -/

/-- The marker of a stage that is written with a phrase. -/
def phraseMarker? : Stage → Option Marker
  | .evaluate _ => some .evaluate
  | .shell _ => some .shell
  | .errorHandler _ => some .errorHandler
  | .filter _ => some .filter
  | .flatMap _ => some .flatMap
  | .reduce _ _ => some .reduce
  | .terminate _ => some .terminate
  | .log _ => some .log
  | .write _ => some .write
  | .wholeArray | .combine _ | .drop | .importModule _ _ | .name _ | .disableStacking
  | .suppressPrint | .seek _ | .stackRef _ => none

/-- The stage holds the tokens of a run in their order: as its phrase, and a fold the last of them
as its seed. -/
def Holds (m : Munch) : Stage → Prop
  | .evaluate phrase | .shell phrase | .errorHandler phrase | .filter phrase | .flatMap phrase
  | .terminate phrase | .log phrase | .write phrase => phrase.Holds m.quoted m.run
  | .reduce phrase seed =>
    ∃ before last, m.run = before ++ [last] ∧ phrase.Holds m.quoted before ∧
      seed.Holds m.quoted [last]
  | .wholeArray | .combine _ | .drop | .importModule _ _ | .name _ | .disableStacking
  | .suppressPrint | .seek _ | .stackRef _ => False

/-- A stage with a phrase lies on the tokens: `front` is its marker, the run stands behind that, and
`rest` is left. -/
structure LiesOn (stage : Stage) (tokens front : List String) (m : Munch) (rest : List String) :
    Prop where
  whole : tokens = front ++ m.tokens ++ rest
  /-- An evaluation needs no marker, unless the tokens begin with the marker of another stage. -/
  front : (∃ marker, stage.phraseMarker? = some marker ∧ front = [marker.token]) ∨
    stage.phraseMarker? = some .evaluate ∧ front = [] ∧
      ∀ token ∈ tokens.head?, isMarker token = true → token = quoteToken
  run : ∀ token ∈ m.run, isMarker token = false
  /-- Where there is a quoting token, the run is quoted. -/
  unquoted : m.quoted = false → (m.run ++ rest).head? ≠ some quoteToken
  rest : ∀ token ∈ rest.head?, isMarker token = true
  holds : stage.Holds m

/-- The run behind the front is the longest one. -/
theorem liesOn_take {stage : Stage} {tokens front args : List String}
    (htokens : tokens = front ++ args)
    (hfront : (∃ marker, stage.phraseMarker? = some marker ∧ front = [marker.token]) ∨
      stage.phraseMarker? = some .evaluate ∧ front = [] ∧
        ∀ token ∈ tokens.head?, isMarker token = true → token = quoteToken)
    (hholds : stage.Holds (.take args)) :
    stage.LiesOn tokens front (.take args) (args.drop (Munch.take args).consumed) where
  whole := by rw [htokens, List.append_assoc, Munch.tokens_append_drop]
  front := hfront
  run := Munch.not_isMarker_of_mem_run args
  unquoted := by
    intro hq
    have hwhole := Munch.tokens_append_drop args
    rw [Munch.tokens, hq, if_neg Bool.false_ne_true] at hwhole
    rw [hwhole]
    exact Munch.head?_of_not_quoted hq
  rest := fun _ h => Munch.isMarker_of_head?_drop h
  holds := hholds

theorem holds_parseReduce {args : List String} {stage : Stage} {n : Nat}
    (h : parseReduce args = .ok (stage, n)) :
    n = (Munch.take args).consumed + 1 ∧ stage.phraseMarker? = some .reduce ∧
      stage.Holds (.take args) := by
  simp only [parseReduce, Munch.splitLast?] at h
  cases hlast : (Munch.take args).run.getLast? with
  | none => rw [hlast] at h; cases h
  | some last =>
      rw [hlast, Option.map_some] at h
      dsimp only at h
      split at h
      · cases h
      · cases h
        exact ⟨rfl, rfl, _, last, (List.dropLast_append_getLast? last hlast).symm,
          Phrase.holds_ofRun _ _, Phrase.holds_ofRun _ _⟩

/-- **A stage with a phrase and the tokens it takes.** -/
theorem exists_liesOn {tokens : List String} {stage : Stage} {n : Nat}
    (h : parse tokens = .ok (stage, n)) (hphrase : stage.phraseMarker? ≠ none) :
    ∃ front m rest, stage.LiesOn tokens front m rest ∧ n = front.length + m.tokens.length := by
  cases tokens with
  | nil => cases h
  | cons first args =>
      cases hf : Marker.ofToken? first with
      | none =>
          -- an evaluation without a marker: the run begins with the first token
          rw [parse_of_text hf] at h
          cases h
          refine ⟨[], _, _, liesOn_take rfl (.inr ⟨rfl, rfl, ?_⟩) (Phrase.holds_ofRun _ _), ?_⟩
          · rintro _ ⟨⟩ hmarker
            rw [isMarker_iff, hf] at hmarker
            exact hmarker.resolve_left Bool.false_ne_true
          · rw [Munch.length_tokens, List.length_nil, Nat.zero_add]
      | some marker =>
          obtain rfl := Marker.eq_token_of_ofToken? hf
          rw [parse_of_marker hf] at h
          cases marker
          case wholeArray | drop | disableStacking | suppressPrint =>
            cases h
            exact absurd rfl hphrase
          case name | seek =>
            obtain ⟨_, -, -, hr⟩ := argument_bind_eq_ok h
            cases hr
            exact absurd rfl hphrase
          case combine =>
            obtain ⟨_, -, -, hr⟩ := argument_bind_eq_ok h
            dsimp only at hr
            split at hr <;> cases hr
            exact absurd rfl hphrase
          case stackRef =>
            obtain ⟨_, -, -, hr⟩ := argument_bind_eq_ok h
            split at hr <;> cases hr
            exact absurd rfl hphrase
          case importModule =>
            obtain ⟨_, -, -, hr⟩ := argument_bind_eq_ok h
            obtain ⟨_, -, -, hr⟩ := argument_bind_eq_ok hr
            cases hr
            exact absurd rfl hphrase
          case reduce =>
            obtain ⟨rfl, hmarker, hholds⟩ := holds_parseReduce h
            refine ⟨[Marker.reduce.token], _, _,
              liesOn_take rfl (.inl ⟨_, hmarker, rfl⟩) hholds, ?_⟩
            rw [Munch.length_tokens, Nat.add_comm]
            rfl
          all_goals
            simp only [parseMarked, withPhrase] at h
            cases h
            refine ⟨_, _, _, liesOn_take rfl (.inl ⟨_, rfl, rfl⟩) (Phrase.holds_ofRun _ _), ?_⟩
            rw [Munch.length_tokens, Nat.add_comm]
            rfl

end Stage

namespace Interpreter
open Stage

/-! ### The parts of a token list -/

/-- The stage of a visit was read from this part of the tokens, and takes all of it. -/
def ReadFrom (part : List String) (visit : Visit) : Prop :=
  part ≠ [] ∧ parse part = .ok (visit.stage, part.length)

/-- A stage is read from the tokens that it takes alone. -/
theorem readFrom_take {tokens : List String} {stage : Stage} {n : Nat}
    (h : parse tokens = .ok (stage, n)) (state : Traced Event State) :
    ReadFrom (tokens.take n) ⟨stage, state⟩ := by
  have hle : n ≤ tokens.length := consumed_parse_le h
  have hlength : (tokens.take n).length = n := List.length_take_of_le hle
  refine ⟨fun hnil => ?_, ?_⟩
  · rw [hnil] at hlength
    exact absurd hlength (Nat.ne_of_lt (consumed_parse_pos h))
  · have hall : parse (tokens.take n ++ tokens.drop n) = .ok (stage, n) := by
      rw [List.take_append_drop]
      exact h
    rw [hlength]
    exact parse_of_append hall (Nat.le_of_eq hlength.symm)

/-- **The stages that are applied lie on the tokens one behind the other.**  Something is left
behind them only where one could not be read or applied. -/
theorem exists_parts (host : Host) (s : State) (tokens : List String) :
    ∃ parts rest, tokens = parts.flatten ++ rest ∧
      List.Forall₂ ReadFrom parts (walk host s tokens).visits ∧
      ((walk host s tokens).error = none ↔ rest = []) := by
  -- each stage takes a token at least, so the induction is on the number of tokens left
  induction hlen : tokens.length using Nat.strongRecOn generalizing tokens s with
  | ind len ih =>
      subst hlen
      by_cases hne : tokens = []
      · subst hne
        refine ⟨[], [], rfl, ?_, ?_⟩ <;> rw [walk]
        · exact .nil
        · exact ⟨fun _ => rfl, fun _ => rfl⟩
      · cases hp : parse tokens with
        | error e =>
            rw [walk_of_error hne hp]
            refine ⟨[], tokens, rfl, .nil, ?_⟩
            exact iff_of_false (Option.some_ne_none _) hne
        | ok r =>
            obtain ⟨stage, n⟩ := r
            rw [walk_of_ok hp]
            obtain ⟨events, e | next⟩ := stage.apply host s
            · refine ⟨[], tokens, rfl, .nil, ?_⟩
              exact iff_of_false (Option.some_ne_none _) hne
            · have hlt : (tokens.drop n).length < tokens.length := by
                have := consumed_parse_pos hp
                have := List.length_pos_iff.mpr hne
                rw [List.length_drop]
                omega
              obtain ⟨parts, rest, htokens, hparts, herror⟩ := ih _ hlt next (tokens.drop n) rfl
              refine ⟨tokens.take n :: parts, rest, ?_, .cons (readFrom_take hp _) hparts, herror⟩
              rw [List.flatten_cons, List.append_assoc, ← htokens, List.take_append_drop]

/-- How often the interpreter reads a stage. -/
def readings (w : Walk) : Nat := w.visits.length + w.error.toList.length

/-- Parts that are not empty are no more than the tokens they have together. -/
theorem length_le_of_readFrom {parts : List (List String)} {visits : List Visit}
    (h : List.Forall₂ ReadFrom parts visits) : visits.length ≤ parts.flatten.length := by
  induction h with
  | nil => exact Nat.le_refl 0
  | cons hpart _ ih =>
      have := List.length_pos_iff.mpr hpart.1
      rw [List.flatten_cons, List.length_append, List.length_cons]
      omega

/-- **The interpreter comes to an end**: it reads no more stages than there are tokens. -/
theorem readings_walk_le (host : Host) (s : State) (tokens : List String) :
    readings (walk host s tokens) ≤ tokens.length := by
  obtain ⟨parts, rest, htokens, hparts, herror⟩ := exists_parts host s tokens
  have hvisits := length_le_of_readFrom hparts
  have hlength := congrArg List.length htokens
  rw [List.length_append] at hlength
  unfold readings
  cases he : (walk host s tokens).error with
  | none => simp only [Option.toList_none, List.length_nil]; omega
  | some e =>
      have hrest : rest ≠ [] := fun hnil => by
        have := herror.mpr hnil
        rw [he] at this
        cases this
      have := List.length_pos_iff.mpr hrest
      simp only [Option.toList_some, List.length_singleton]
      omega

/-- **Every token belongs to one stage.**

* A run of tokens ends at the tokens that begin a stage of their own kind, and at the quoting one:
  the table that ends runs and the one that begins stages name the same tokens.
* A stage that is read takes at least one token, and none that is not there.  If it is written
  with a phrase, it takes its marker, which an evaluation can do without, a quoting token at most,
  and the longest run of tokens that are no markers; it holds that run in its order, and what is
  left is nothing or begins with a marker.
* Interpreting the tokens, from any state, reads no more stages than there are tokens.  The stages
  that are applied were read from parts of the tokens that lie one behind the other, and where no
  error ended the work they are all the tokens. -/
theorem tokens_partitioned (tokens : List String) :
    (∀ token, isMarker token = true ↔
      (∃ marker, Marker.ofToken? token = some marker) ∨ token = quoteToken) ∧
    (∀ {stage : Stage} {n : Nat}, parse tokens = .ok (stage, n) →
      1 ≤ n ∧ n ≤ tokens.length ∧
        (stage.phraseMarker? ≠ none → ∃ front m rest,
          stage.LiesOn tokens front m rest ∧ n = front.length + m.tokens.length)) ∧
    ∀ (host : Host) (s : State),
      readings (walk host s tokens) ≤ tokens.length ∧
      ∃ parts rest, tokens = parts.flatten ++ rest ∧
        List.Forall₂ ReadFrom parts (walk host s tokens).visits ∧
        ((walk host s tokens).error = none ↔ rest = []) := by
  refine ⟨fun token => ?_, fun h => ⟨consumed_parse_pos h, consumed_parse_le h, exists_liesOn h⟩,
    fun host s => ⟨readings_walk_le host s tokens, exists_parts host s tokens⟩⟩
  rw [isMarker_iff, Option.isSome_iff_exists]

/-- A fold over a quoted run, with a quoting token behind it that begins another stage; and one over
a run that is not quoted. -/
theorem tokens_partitioned_folds :
    parse ["-r", "-q", "a", "b", "-q", "c", "-d"] =
        .ok (.reduce (.quoted ["a"]) (.quoted ["b"]), 4) ∧
      (∃ front m rest,
        LiesOn (.reduce (.quoted ["a"]) (.quoted ["b"])) ["-r", "-q", "a", "b", "-q", "c", "-d"]
          front m rest ∧ 4 = front.length + m.tokens.length) ∧
      readings (walk (.inert .standard) (.initial none) ["-r", "-q", "a", "b", "-q", "c", "-d"]) ≤
        7 ∧
      parse ["-r", "a", "+", "x", "0", "-f", "x"] =
        .ok (.reduce (.source "a + x") (.source "0"), 5) ∧
      ∃ front m rest,
        LiesOn (.reduce (.source "a + x") (.source "0")) ["-r", "a", "+", "x", "0", "-f", "x"]
          front m rest ∧ 5 = front.length + m.tokens.length := by
  have hquoted : parse ["-r", "-q", "a", "b", "-q", "c", "-d"] =
      .ok (.reduce (.quoted ["a"]) (.quoted ["b"]), 4) := by
    decide +kernel
  have hplain : parse ["-r", "a", "+", "x", "0", "-f", "x"] =
      .ok (.reduce (.source "a + x") (.source "0"), 5) := by
    decide +kernel
  obtain ⟨-, hread, hwalk⟩ := tokens_partitioned ["-r", "-q", "a", "b", "-q", "c", "-d"]
  obtain ⟨-, hread', -⟩ := tokens_partitioned ["-r", "a", "+", "x", "0", "-f", "x"]
  exact ⟨hquoted, (hread hquoted).2.2 nofun, (hwalk (.inert .standard) (.initial none)).1, hplain,
    (hread' hplain).2.2 nofun⟩

end Interpreter

end Pipeline
