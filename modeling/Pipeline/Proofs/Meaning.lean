import Pipeline.Proofs.Whole
import Pipeline.Stage.Apply

/-!
# Meaning — what items, phrases and commands stand for

The work of a stage comes down to a few questions.  What is an item as a member of a list, and what
are several items as one?  Which items does an answer stand for, and does it count as true?  What
does a phrase give for the item at some position, and what does its command?

Here they are answered in full, with every message, field and binding written out, and without the
definitions that the stages themselves are made of.  What is said of runs is said with these
answers, and each definition of the stages is shown to give them:

* `Item.toValue_eq_asMember`, `Item.gather_eq_asOne`, `Item.expand_eq_parts` for items in lists,
* `Item.isTruthy_eq_decide`, `Item.isTrue_eq_decide` for answers that are asked for a truth,
* `Host.call_prepare`, `Host.runCommand_prepareCommand` for phrases and commands, which a stage
  reads only once, for all the items that it meets,
* `Environment.bind_eq_binding` for what is imported.
-/

namespace Pipeline

namespace Item

/-! ### Items in lists -/

/-- The item as a member of a list: a value as it is, a failure as the object of its fields. -/
def asMember : Item → Value
  | .value v => v
  | .failure ⟨message, cause, none⟩ =>
    .object [("message", .text message), ("cause", .text cause)]
  | .failure ⟨message, cause, some held⟩ =>
    .object [("message", .text message), ("cause", .text cause), ("value", held)]

theorem toValue_eq_asMember (x : Item) : x.toValue = x.asMember := by
  rcases x with v | ⟨message, cause, _ | held⟩ <;> rfl

/-- The failures among items, in their order. -/
def failures : List Item → List Failure
  | [] => []
  | .value _ :: xs => failures xs
  | .failure e :: xs => e :: failures xs

theorem filterMap_failure? (xs : List Item) : xs.filterMap failure? = failures xs := by
  induction xs with
  | nil => rfl
  | cons x xs ih =>
      rw [List.filterMap_cons, ih]
      cases x <;> rfl

theorem failures_eq_nil_iff {xs : List Item} :
    failures xs = [] ↔ ∀ x ∈ xs, ∃ v, x = .value v := by
  induction xs with
  | nil => simp [failures]
  | cons x xs ih => cases x <;> simp [failures, ih]

/-- Several items as one: the list of them, or, where some of them failed, a failure that has the
messages of these, one to a line, and their causes, divided by semicolons, and holds the list. -/
def asOne (xs : List Item) : Item :=
  match failures xs with
  | [] => .value (.list (xs.map asMember))
  | e :: es => .failure
    { message := "\n".intercalate ((e :: es).map fun e => e.message)
      cause := "; ".intercalate ((e :: es).map fun e => e.cause)
      value := some (.list (xs.map asMember)) }

theorem gather_eq_asOne (xs : List Item) : gather xs = asOne xs := by
  have hlist : xs.map toValue = xs.map asMember :=
    List.map_congr_left fun x _ => toValue_eq_asMember x
  rw [gather, filterMap_failure?, hlist, asOne]
  cases failures xs <;> rfl

/-- The items that an answer stands for: the members of a list, and anything else by itself. -/
def parts : Item → List Item
  | .value (.list members) => members.map .value
  | .value v => [.value v]
  | .failure e => [.failure e]

theorem expand_eq_parts (x : Item) : x.expand = x.parts := by
  cases x with
  | value v => cases v <;> rfl
  | failure e => rfl

/-! ### Truth -/

/-- What counts as false: null, false, a number that is zero or none, and the empty text. -/
inductive Falsy : Item → Prop where
  | null : Falsy (.value .null)
  | false : Falsy (.value (.bool false))
  | whole : Falsy (.value (.number (.whole 0)))
  | zero (negative : Bool) (exponent : Int) :
      Falsy (.value (.number (.binary (.finite negative 0 exponent))))
  | nan : Falsy (.value (.number (.binary .nan)))
  | text : Falsy (.value (.text ""))

/-- A number is asked for its binary value, and only the whole number zero has that of a zero. -/
theorem falsy_number {n : Number} (h : n.toBinary.isZero = true ∨ n.toBinary = .nan) :
    Falsy (.value (.number n)) := by
  cases n with
  | whole i =>
      obtain hi | hi := Decidable.em (i = 0)
      · rw [hi]
        exact .whole
      · have hround := Binary64.isZero_round (i < 0) (Int.natAbs_ne_zero.mpr hi)
        obtain hzero | hnan := h
        · exact absurd hzero (ne_true_of_eq_false hround)
        · exact absurd hnan (Binary64.round_ne_nan _ _ _)
  | binary x =>
      cases x with
      | finite negative m e =>
          obtain hzero | hnan := h
          · obtain rfl : m = 0 := beq_iff_eq.mp hzero
            exact .zero negative e
          · cases hnan
      | infinite negative => cases h <;> contradiction
      | nan => exact .nan

theorem isTruthy_eq_false_iff {x : Item} : x.isTruthy = false ↔ x.Falsy := by
  constructor
  · intro h
    cases x with
    | failure e => cases h
    | value v =>
        cases v with
        | null => exact .null
        | bool b =>
            cases h
            exact .false
        | number n =>
            refine falsy_number (Decidable.or_iff_not_imp_left.mpr fun hzero => ?_)
            simpa [isTruthy, hzero] using h
        | text s =>
            obtain rfl : s = "" := by simpa [isTruthy] using h
            exact .text
        | list | object => cases h
  · rintro (_ | _ | _ | _ | _ | _) <;> rfl

instance (x : Item) : Decidable x.Falsy := decidable_of_iff _ isTruthy_eq_false_iff

theorem isTruthy_eq_decide (x : Item) : x.isTruthy = decide (¬ x.Falsy) := by
  rw [Bool.eq_iff_iff, decide_eq_true_iff, ← isTruthy_eq_false_iff, Bool.not_eq_false]

theorem isTrue_eq_true_iff {x : Item} : x.isTrue = true ↔ x = .value (.bool true) := by
  constructor
  · intro h
    unfold isTrue at h
    split at h
    · rw [h]
    · cases h
  · rintro rfl
    rfl

instance (x : Item) : Decidable (x = .value (.bool true)) := decidable_of_iff _ isTrue_eq_true_iff

theorem isTrue_eq_decide (x : Item) : x.isTrue = decide (x = .value (.bool true)) := by
  rw [Bool.eq_iff_iff, isTrue_eq_true_iff, decide_eq_true_iff]

end Item

/-! ### Phrases -/

namespace Phrase

/-- The words of a phrase: a source as it stands, quoted tokens with blanks between them. -/
def words : Phrase → String
  | .source s => s
  | .quoted tokens => " ".intercalate tokens

theorem text_eq_words (phrase : Phrase) : phrase.text = phrase.words := by
  cases phrase <;> rfl

variable (host : Host) (env : Environment) (b : Bindings) (phrase : Phrase)

/-- What a phrase gives for some bindings.  Quoted tokens are a text.  A source that is refused, or
that cannot be evaluated, gives a failure around its text. -/
def answer : Phrase → Item
  | .quoted tokens => .value (.text (" ".intercalate tokens))
  | .source s =>
    match host.evaluator.compile s, host.evaluator.evaluate s b env with
    | .error cause, _ =>
      .failure ⟨"failed to compile expression: " ++ s ++ ".", cause, none⟩
    | .ok (), .error cause =>
      .failure ⟨"failed to evaluate expression: " ++ s ++ ".", cause, none⟩
    | .ok (), .ok x => x

/-- What a phrase gives on its own. -/
def answerAlone : Item := answer host env {} phrase

/-- What a phrase gives for the item `x` at position `i`. -/
def answerFor (x : Item) (i : Nat) : Item :=
  answer host env { value := some x, index := some (.value (.number (.whole i))) } phrase

/-- What a phrase gives for the failure `x` at position `i`. -/
def answerForFailure (x : Item) (i : Nat) : Item :=
  answer host env { error := some x, index := some (.value (.number (.whole i))) } phrase

/-- What a phrase gives for the item `x` at position `i` and what was made of those before it. -/
def answerForStep (acc x : Item) (i : Nat) : Item :=
  answer host env
    { accumulator := some acc, value := some x, index := some (.value (.number (.whole i))) } phrase

/-- The text of segments with every hole filled: with a text as it is, or with any other value as it
is written.  The first hole that gives no value is the cause of a failure. -/
def filled : List Segment → Except String (List Char)
  | [] => .ok []
  | .literal text :: rest => do return text ++ (← filled rest)
  | .hole raw :: rest =>
    match host.evaluator.evaluate (String.ofList (Text.trimBlanks raw)) b env with
    | .error cause => .error cause
    | .ok (.failure e) => .error e.message
    | .ok (.value (.text s)) => do return s.toList ++ (← filled rest)
    | .ok (.value v) => do return v.json.toList ++ (← filled rest)

/-- The command of a phrase, or the cause of there being none.  Quoted tokens have no holes. -/
def commandText : Phrase → Except String String
  | .quoted tokens => .ok (" ".intercalate tokens)
  | .source s =>
    match Template.read s with
    | .error ⟨offset⟩ => .error ("unterminated '$\x7b' at offset " ++ toString offset)
    | .ok ⟨segments⟩ => (filled host env b segments).map String.ofList

/-- What a command printed.  One line that is not empty is a text, and any other number of them is a
list. -/
def printed (lines : List String) : Item :=
  match lines.filter (· ≠ "") with
  | [line] => .value (.text line)
  | lines => .value (.list (lines.map .text))

/-- What the command of a phrase gives for some bindings, with the events of running it.  A command
without a text is not run. -/
def command : Traced Event Item :=
  match commandText host env b phrase with
  | .error cause =>
    ⟨[], .failure ⟨"failed to evaluate command template: " ++ phrase.words ++ ".", cause, none⟩⟩
  | .ok text =>
    ⟨(host.command text).events,
      match (host.command text).value with
      | .error cause => .failure ⟨"failed to execute shell command: " ++ phrase.words, cause, none⟩
      | .ok lines => printed lines⟩

/-- What the command of a phrase gives on its own. -/
def commandAlone : Traced Event Item := command host env {} phrase

/-- What the command of a phrase gives for the item `x` at position `i`. -/
def commandFor (x : Item) (i : Nat) : Traced Event Item :=
  command host env { value := some x, index := some (.value (.number (.whole i))) } phrase

end Phrase

namespace Host

variable (host : Host) (env : Environment) (b : Bindings)

/-- **A prepared phrase gives the answers of the phrase.** -/
theorem call_prepare (phrase : Phrase) :
    (host.prepare phrase).call env b = phrase.answer host env b := by
  cases phrase with
  | quoted tokens => rfl
  | source s =>
      rw [prepare, Prepared.ofPhrase, Phrase.answer]
      cases host.evaluator.compile s with
      | error cause => rfl
      | ok _ =>
          rw [Prepared.call]
          cases host.evaluator.evaluate s b env <;> rfl

theorem mapM_renderSegment (segments : List Segment) :
    (segments.mapM (Template.renderSegment host.evaluator b env)).map List.flatten =
      Phrase.filled host env b segments := by
  induction segments with
  | nil => rfl
  | cons segment segments ih =>
      cases segment with
      | literal text =>
          rw [List.mapM_cons, Phrase.filled, ← ih]
          cases segments.mapM (Template.renderSegment host.evaluator b env) <;> rfl
      | hole raw =>
          rw [List.mapM_cons, Phrase.filled, ← ih, Template.renderSegment, Segment.source]
          cases host.evaluator.evaluate (String.ofList (Text.trimBlanks raw)) b env with
          | error cause => rfl
          | ok x =>
              cases x with
              | failure e => rfl
              | value v =>
                  -- only a text is not put in as it is written
                  cases segments.mapM (Template.renderSegment host.evaluator b env) <;>
                    cases v <;> rfl

theorem render_eq_filled (t : Template) :
    t.render b env host.evaluator =
      (Phrase.filled host env b t.segments).map String.ofList := by
  rw [← mapM_renderSegment, Template.render]
  cases t.segments.mapM (Template.renderSegment host.evaluator b env) <;> rfl

/-- Quoted tokens are filled as they are. -/
theorem render_verbatim (text : String) :
    (Template.verbatim text).render b env host.evaluator = .ok text := by
  rw [render_eq_filled]
  simp [Template.verbatim, Phrase.filled, pure, Except.pure, bind, Except.bind, Except.map]

/-- A prepared command is filled with the text of the command. -/
theorem fill_prepareCommand (phrase : Phrase) :
    (host.prepareCommand phrase).fill env b =
      (phrase.commandText host env b).mapError fun cause =>
        ⟨"failed to evaluate command template: " ++ phrase.words ++ ".", cause, none⟩ := by
  cases phrase with
  | quoted tokens =>
      exact congrArg (Except.mapError _) (render_verbatim host env b _)
  | source s =>
      simp only [prepareCommand, PreparedCommand.ofPhrase, PreparedCommand.fill, Phrase.commandText]
      cases Template.read s with
      | error e => rfl
      | ok t => exact congrArg (Except.mapError _) (render_eq_filled host env b t)

theorem shape_eq_printed (lines : List String) :
    PreparedCommand.shape lines = Phrase.printed lines := by
  have hfilled : (fun line : String => !line.isEmpty) = fun line => decide (line ≠ "") := by
    funext line
    rw [Bool.eq_iff_iff]
    simp
  rw [PreparedCommand.shape, hfilled]
  rfl

/-- **A prepared command gives the answers of the command.** -/
theorem runCommand_prepareCommand (phrase : Phrase) :
    Stage.runCommand host.toServices (host.prepareCommand phrase) env b =
      phrase.command host env b := by
  rw [Stage.runCommand, fill_prepareCommand, Phrase.command]
  cases phrase.commandText host env b with
  | error cause => rfl
  | ok text =>
      refine Traced.ext (List.append_nil _) ?_
      show (host.prepareCommand phrase).outcome (host.command text).value = _
      dsimp only
      cases (host.command text).value with
      | error cause =>
          have htext : (host.prepareCommand phrase).text = phrase.words :=
            Phrase.text_eq_words phrase
          rw [PreparedCommand.outcome, htext]
          rfl
      | ok lines => exact shape_eq_printed lines

end Host

namespace Environment

/-- The environment with a value bound under a name.  A name that was bound before keeps its place,
and a new one goes last. -/
def binding (env : Environment) (name : String) (v : Value) : Environment :=
  match env.aliases.findIdx? (·.1 = name) with
  | some k => ⟨env.aliases.set k (name, v)⟩
  | none => ⟨env.aliases ++ [(name, v)]⟩

theorem setField_eq (name : String) (v : Value) (aliases : List (String × Value)) :
    Value.setField name v aliases =
      match aliases.findIdx? (·.1 = name) with
      | some k => aliases.set k (name, v)
      | none => aliases ++ [(name, v)] := by
  induction aliases with
  | nil => rfl
  | cons entry aliases ih =>
      obtain ⟨key, old⟩ := entry
      rw [Value.setField, List.findIdx?_cons]
      by_cases hk : key = name
      · simp [hk]
      · simp only [hk, if_false, decide_false, Bool.false_eq_true, ih]
        cases aliases.findIdx? (·.1 = name) <;> rfl

theorem bind_eq_binding (env : Environment) (name : String) (v : Value) :
    env.bind name v = env.binding name v := by
  rw [bind, setField_eq, binding]
  cases env.aliases.findIdx? (·.1 = name) <;> rfl

end Environment

namespace Stage

/-! ### Plans

The plans that stages build, with the answers of their phrases in them. -/

variable (host : Host) (env : Environment) (input : Plan Event) (phrase : Phrase)

theorem evaluatePlan_some :
    evaluatePlan (some input) (host.prepare phrase) env =
      .map (fun x i => pure (phrase.answerFor host env x i)) input := by
  simp only [evaluatePlan, host.call_prepare]
  rfl

theorem evaluatePlan_none :
    evaluatePlan none (host.prepare phrase) env =
      .deferred [] (pure (phrase.answerAlone host env).parts) := by
  simp only [evaluatePlan, host.call_prepare, Item.expand_eq_parts]
  rfl

theorem shellPlan_some :
    shellPlan host.toServices (some input) (host.prepareCommand phrase) env =
      .map (phrase.commandFor host env) input := by
  simp only [shellPlan, host.runCommand_prepareCommand]
  rfl

theorem shellPlan_none :
    shellPlan host.toServices none (host.prepareCommand phrase) env =
      .deferred [] (do return [← phrase.commandAlone host env]) := by
  simp only [shellPlan, host.runCommand_prepareCommand]
  rfl

theorem errorHandlerPlan_eq :
    errorHandlerPlan input (host.prepare phrase) env =
      .map (fun x i => pure (match x with
        | .failure _ => phrase.answerForFailure host env x i
        | .value _ => x)) input := by
  simp only [errorHandlerPlan, host.call_prepare]
  congr 1
  funext x i
  cases x <;> rfl

theorem filterPlan_eq :
    filterPlan input (host.prepare phrase) env =
      .filter (fun x i => pure (decide (¬ (phrase.answerFor host env x i).Falsy))) input := by
  simp only [filterPlan, host.call_prepare, Item.isTruthy_eq_decide]
  rfl

theorem flatMapPlan_eq :
    flatMapPlan input (host.prepare phrase) env =
      .flatMap (fun x i => pure (phrase.answerFor host env x i).parts) input := by
  simp only [flatMapPlan, host.call_prepare, Item.expand_eq_parts]
  rfl

theorem reducePlan_eq (seed : Phrase) :
    reducePlan input (host.prepare phrase) (host.prepare seed) env =
      .fold (pure (seed.answerAlone host env))
        (fun acc x i => pure (phrase.answerForStep host env acc x i)) input := by
  simp only [reducePlan, host.call_prepare]
  rfl

theorem terminatePlan_eq :
    terminatePlan input (host.prepare phrase) env =
      .takeUntil (fun x i => pure (decide (phrase.answerFor host env x i = .value (.bool true))))
        input := by
  simp only [terminatePlan, host.call_prepare, Item.isTrue_eq_decide]
  rfl

theorem tapPlan_eq (sink : Item → Event) :
    tapPlan sink input (host.prepare phrase) env =
      .map (fun x i => ⟨[sink (phrase.answerFor host env x i)], x⟩) input := by
  simp only [tapPlan, host.call_prepare]
  rfl

theorem combinePlan_eq (members : List (Plan Event)) :
    combinePlan members =
      .zip (fun yields => pure (.asOne (yields.map (·.getD (.value .null))))) members := by
  simp only [combinePlan, Item.gather_eq_asOne]

end Stage

end Pipeline
