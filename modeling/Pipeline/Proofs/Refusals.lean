import Pipeline.Proofs.Lexing
import Pipeline.Proofs.Parsing

/-!
# Refusals — the first impossible token

A list that the parser refuses is refused at the one place where it stops being the beginning of an
expression (`Parser.parse_eq_error_iff`): the tokens before that place can be completed, and no
expression begins with them and the token that the error names.

Whatever the machine has open, it can be brought to an end: what it expects next is supplied
(`Expect.supply`), and then every bracket on the stack is closed (`closings`).  So whatever it takes
can be completed (`completable_of_run`); and since what comes later never takes a refusal back,
whatever it refuses cannot (`impossible_of_run`).
-/

namespace Pipeline

namespace Grammar

/-- Tokens that a text can hold complete the list to an expression. -/
def Completable (ts : List Token) : Prop :=
  ∃ us e, (∀ u ∈ us, u.Valid) ∧ Derives .disjunction (ts ++ us) e

/-- No expression begins with the list. -/
def Impossible (ts : List Token) : Prop := ∀ us e, ¬ Derives .disjunction (ts ++ us) e

end Grammar

open Grammar

namespace Parser

/-! ### Bringing the machine to an end -/

/-- The close of a bracket; signs and operators need none. -/
def Frame.closing : Frame → List Symbol
  | .signed _ | .operand _ _ => []
  | .paren | .args _ _ _ => [.closeParen]
  | .list _ | .index _ => [.closeBracket]
  | .field _ _ => [.closeBrace]

/-- The closes of all brackets on the stack, the innermost first. -/
def closings (stack : List Frame) : List Token := (stack.flatMap Frame.closing).map .symbol

/-- An operand, of one token. -/
def anyName : Token := .name ['x']

/-- Tokens that give the machine what it expects, up to the end of an operand. -/
def Expect.supply : Expect → List Token
  | .operand | .operandOrClose | .memberName _ => [anyName]
  | .keyOrClose _ => [.symbol .closeBrace]
  | .colon _ _ => [.symbol .colon, anyName, .symbol .closeBrace]
  | .callOrMore _ _ | .more _ => []

/-- Tokens that bring the machine to the end of an expression. -/
def State.completion (st : State) : List Token := st.expect.supply ++ closings st.stack

theorem valid_completion (st : State) : ∀ u ∈ st.completion, u.Valid := by
  have hname : anyName.Valid := ⟨'x', [], rfl, by decide, nofun⟩
  intro u hu
  rcases List.mem_append.mp hu with hsupply | hclosing
  · cases hexpect : st.expect <;> rw [hexpect] at hsupply <;>
      simp only [Expect.supply, List.mem_cons, List.not_mem_nil, or_false] at hsupply
    case operand | operandOrClose | memberName => exact hsupply ▸ hname
    case keyOrClose => exact hsupply ▸ trivial
    case colon => rcases hsupply with rfl | rfl | rfl <;> first | exact hname | trivial
  · obtain ⟨s, -, rfl⟩ := List.mem_map.mp hclosing
    trivial

theorem exists_closing {frame : Frame} (h : frame.isBracket = true) :
    ∃ s ∈ delimiters, frame.closing = [s] ∧
      ∀ stack e, ∃ tree, closeStep (frame :: stack) e s = some ⟨stack, .more tree⟩ := by
  cases frame with
  | signed | operand => cases h
  | paren | list | index | args | field =>
      exact ⟨_, by decide, rfl, fun _ _ => ⟨_, rfl⟩⟩

theorem closings_bracket {frame : Frame} {s : Symbol} (h : frame.closing = [s])
    (stack : List Frame) : closings (frame :: stack) = .symbol s :: closings stack := by
  rw [closings, List.flatMap_cons, h]
  rfl

/-- **Behind an operand, the closes of all brackets end the expression.**  Signs and operators are
closed on the way, so that the stack counts up to these. -/
theorem run_closings {st : State} {base stack : List Frame} {e operand : Expr}
    (hready : Ready st base operand) (hreduce : reduce 0 base operand = reduce 0 stack e) :
    ∃ last whole, st.run (closings stack) = .ok last ∧ last.result? = some whole := by
  induction stack generalizing st base operand e with
  | nil =>
      refine ⟨st, e, rfl, ?_⟩
      rw [hready.result?, closeAll, hreduce]
      rfl
  | cons frame stack ih =>
      by_cases hbracket : frame.isBracket = true
      · obtain ⟨s, hs, hclosing, hclose⟩ := exists_closing hbracket
        obtain ⟨tree, htree⟩ := hclose stack e
        have hne : s ≠ .openParen := by
          rintro rfl
          exact absurd hs (by decide)
        have hstep : st.step (.symbol s) = some ⟨stack, .more tree⟩ := by
          rw [hready.step hne, moreStep_delimiter hs, hreduce, reduce_bracket hbracket, htree]
        rw [closings_bracket hclosing, run_cons hstep]
        exact ih (.more stack tree) rfl
      · cases frame with
        | signed | operand => exact ih hready hreduce
        | paren | list | index | args | field => exact absurd rfl hbracket

/-- **The machine can always be brought to an end.** -/
theorem run_completion (st : State) :
    ∃ last whole, st.run st.completion = .ok last ∧ last.result? = some whole := by
  obtain ⟨stack, expect⟩ := st
  cases expect with
  | more e => exact run_closings (.more stack e) rfl
  | callOrMore target method => exact run_closings (.member stack target method) rfl
  | memberName target => exact run_closings (.member stack target _) rfl
  | operand | operandOrClose | keyOrClose | colon => exact run_closings (.more stack _) rfl

/-! ### What is taken, and what is refused -/

theorem completable_of_run {ts : List Token} {st : State} (h : State.start.run ts = .ok st) :
    Completable ts := by
  obtain ⟨last, whole, hrun, hresult⟩ := run_completion st
  have hparse : parse (ts ++ st.completion) = .ok whole := by
    rw [parse, run_append h, hrun]
    simp only [hresult]
  exact ⟨st.completion, whole, valid_completion st, derives_of_parse hparse⟩

theorem run_append_of_error {st : State} {ts : List Token} {found : Found}
    (h : st.run ts = .error found) (us : List Token) : st.run (ts ++ us) = .error found := by
  induction ts generalizing st with
  | nil => cases h
  | cons t ts ih =>
      rw [List.cons_append, State.run]
      rw [State.run] at h
      split at h
      · exact ih h
      · exact h

theorem impossible_of_run {ts : List Token} {found : Found}
    (h : State.start.run ts = .error found) : Impossible ts := by
  intro us e hderives
  have hparse := parse_of_derives hderives
  rw [parse, run_append_of_error h] at hparse
  cases hparse

/-- The machine takes what can be completed. -/
theorem run_of_completable {ts : List Token} (h : Completable ts) :
    ∃ st, State.start.run ts = .ok st := by
  obtain ⟨us, e, -, hderives⟩ := h
  cases hrun : State.start.run ts with
  | ok st => exact ⟨st, rfl⟩
  | error found => exact absurd hderives (impossible_of_run hrun us e)

/-- The machine refuses what no expression begins with. -/
theorem run_of_impossible {ts : List Token} (h : Impossible ts) :
    ∃ found, State.start.run ts = .error found := by
  cases hrun : State.start.run ts with
  | ok st =>
      obtain ⟨us, e, -, hderives⟩ := completable_of_run hrun
      exact absurd hderives (h us e)
  | error found => exact ⟨found, rfl⟩

/-! ### Where the machine stops -/

/-- The machine stops at a token that it refuses, and names it. -/
theorem exists_refused {st : State} {ts : List Token} {found : Found}
    (h : st.run ts = .error found) :
    ∃ k t last, ts[k]? = some t ∧ found = .token t ∧ st.run (ts.take k) = .ok last ∧
      last.step t = none := by
  induction ts generalizing st with
  | nil => cases h
  | cons t ts ih =>
      rw [State.run] at h
      split at h
      · next next hstep =>
          obtain ⟨k, u, last, hu, hfound, hrun, hrefused⟩ := ih h
          refine ⟨k + 1, u, last, hu, hfound, ?_, hrefused⟩
          rw [List.take_succ_cons, run_cons hstep, hrun]
      · next hstep =>
          cases h
          exact ⟨0, t, st, rfl, rfl, rfl, hstep⟩

theorem run_take_succ {ts : List Token} {k : Nat} {t : Token} (ht : ts[k]? = some t)
    {last : State} (h : State.start.run (ts.take k) = .ok last) :
    State.start.run (ts.take (k + 1)) = last.run [t] := by
  rw [List.take_add_one, ht, run_append h]
  rfl

theorem parse_eq_token_iff (ts : List Token) (t : Token) :
    parse ts = .error (.token t) ↔
      ∃ k, Completable (ts.take k) ∧ ts[k]? = some t ∧ Impossible (ts.take (k + 1)) := by
  constructor
  · intro h
    have hrun : State.start.run ts = .error (.token t) := by
      unfold parse at h
      split at h
      · split at h <;> cases h
      · next hrun =>
          cases h
          exact hrun
    obtain ⟨k, u, last, hu, hfound, htaken, hrefused⟩ := exists_refused hrun
    cases hfound
    have hnext := run_take_succ hu htaken
    rw [State.run, hrefused] at hnext
    exact ⟨k, completable_of_run htaken, hu, impossible_of_run hnext⟩
  · rintro ⟨k, hcompletable, ht, himpossible⟩
    obtain ⟨last, htaken⟩ := run_of_completable hcompletable
    obtain ⟨found, hnext⟩ := run_of_impossible himpossible
    -- of the one token behind what is taken, the machine refuses that token
    have hfound : found = .token t := by
      rw [run_take_succ ht htaken, State.run] at hnext
      split at hnext <;> cases hnext
      rfl
    have hrun := run_append_of_error hnext (ts.drop (k + 1))
    rw [List.take_append_drop] at hrun
    rw [parse, hrun, hfound]

theorem parse_eq_endOfInput_iff (ts : List Token) :
    parse ts = .error .endOfInput ↔ Completable ts ∧ ∀ e, ¬ Derives .disjunction ts e := by
  constructor
  · intro h
    refine ⟨?_, fun e hderives => ?_⟩
    · cases hrun : State.start.run ts with
      | ok st => exact completable_of_run hrun
      | error found =>
          obtain ⟨k, t, last, -, hfound, -⟩ := exists_refused hrun
          simp only [parse, hrun, hfound, reduceCtorEq, Except.error.injEq] at h
    · rw [parse_of_derives hderives] at h
      cases h
  · rintro ⟨hcompletable, hnot⟩
    obtain ⟨st, hrun⟩ := run_of_completable hcompletable
    cases hparse : parse ts with
    | ok e => exact absurd (derives_of_parse hparse) (hnot e)
    | error found =>
        simp only [parse, hrun] at hparse
        split at hparse <;> cases hparse
        rfl

theorem parse_ne_char (ts : List Token) (c : Char) : parse ts ≠ .error (.char c) := by
  unfold parse
  split
  · split <;> exact nofun
  · next hrun =>
      obtain ⟨-, t, -, -, rfl, -⟩ := exists_refused hrun
      exact nofun

/-- **A refused list is refused at its first impossible token.**  The tokens before the place that
the error names can be completed.  If it names a token, no expression begins with them and that
token; if it names the end of the input, they are the whole list, which is no expression yet. -/
theorem parse_eq_error_iff (ts : List Token) (found : Found) :
    parse ts = .error found ↔
      ∃ k, Completable (ts.take k) ∧
        ((∃ t, ts[k]? = some t ∧ found = .token t ∧ Impossible (ts.take (k + 1))) ∨
          (k = ts.length ∧ found = .endOfInput ∧ ∀ e, ¬ Derives .disjunction ts e)) := by
  cases found with
  | token t =>
      rw [parse_eq_token_iff]
      refine exists_congr fun k => and_congr_right fun _ => ?_
      simp only [Found.token.injEq, reduceCtorEq, false_and, and_false, or_false]
      exact ⟨fun ⟨ht, h⟩ => ⟨t, ht, rfl, h⟩, fun ⟨u, hu, heq, h⟩ => ⟨heq ▸ hu, h⟩⟩
  | endOfInput =>
      rw [parse_eq_endOfInput_iff]
      constructor
      · rintro ⟨hcompletable, hnot⟩
        exact ⟨ts.length, by rwa [List.take_length], .inr ⟨rfl, rfl, hnot⟩⟩
      · rintro ⟨k, hcompletable, ⟨t, -, hfound, -⟩ | ⟨rfl, -, hnot⟩⟩
        · cases hfound
        · rw [List.take_length] at hcompletable
          exact ⟨hcompletable, hnot⟩
  | char c => simp [parse_ne_char]

-- the second comma of a list is the first token that no expression goes on with
example :
    parse [.symbol .openBracket, .number ['1'] [], .symbol .comma, .symbol .comma] =
      .error (.token (.symbol .comma)) := rfl

end Parser

end Pipeline
