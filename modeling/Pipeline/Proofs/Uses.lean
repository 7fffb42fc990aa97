import Pipeline.Proofs.Failures
import Pipeline.Proofs.Holes

/-!
# Uses — what an expression may do with a failed item

An expression evaluates its parts one after the other, each for some use (`Expr.Use`).  Most uses
need a value: an operand, a member of a list, a field, a position, a receiver, an argument.  A
failed item can be tested, it can decide a connective, its fields can be read, and the right side of
a connective hands it on.

`Expr.Part` says which parts an evaluation comes to: those behind a part that is of no use are not
evaluated, nor is the right side that a connective skips.  `Expr.Comes` says the same at any depth.

* `Expr.Part.eval_eq_error`: what breaks a part, breaks the expression.
* `Expr.exists_part_of_eval_eq_error`: a failed item that is refused, is refused as a part.
* `Expr.eval_eq_error_iff`: an evaluation is broken by a failed item iff it comes to one, at any
  depth, for a use that needs a value.

So a failure that an evaluation yields is one that was bound, and none is made into anything else
(`Expr.failures_kept`).
-/

namespace Pipeline

namespace Expr

/-! ### Parts and their uses -/

/-- What a part of an expression is evaluated for. -/
inductive Use where
  /-- The operand of a minus sign, or of an operator for arithmetic, equality or order. -/
  | operand
  /-- A member of a list. -/
  | element
  /-- The value of a field. -/
  | field
  /-- What stands between the brackets behind a target. -/
  | position
  | receiver
  | argument
  /-- The operand of a negation. -/
  | tested
  /-- The left side of a connective. -/
  | condition
  /-- The right side of a connective. -/
  | outcome
  /-- What a member is read from. -/
  | target
  deriving DecidableEq, Repr

/-- The use needs a value. -/
def Use.needsValue : Use → Bool
  | operand | element | field | position | receiver | argument => true
  | tested | condition | outcome | target => false

theorem Use.eq_of_needsValue_eq_false {u : Use} (h : u.needsValue = false) :
    u = .tested ∨ u = .condition ∨ u = .outcome ∨ u = .target := by
  cases u <;> revert h <;> decide

variable {b : Bindings} {env : Environment}

/-- The expressions all give values. -/
def GiveValues (b : Bindings) (env : Environment) (es : List Expr) : Prop :=
  ∀ e ∈ es, ∃ v, e.eval b env = .ok (.value v)

/-- The evaluation of an expression comes to this part of it, for this use. -/
inductive Part (b : Bindings) (env : Environment) : Expr → Use → Expr → Prop where
  | negate (e : Expr) : Part b env (.negate e) .operand e
  | not (e : Expr) : Part b env (.not e) .tested e
  | left (op : BinaryOp) (l r : Expr) : Part b env (.binary op l r) .operand l
  | right (op : BinaryOp) {l : Expr} (r : Expr) {v : Value} (hl : l.eval b env = .ok (.value v)) :
      Part b env (.binary op l r) .operand r
  | element {done : List Expr} (e : Expr) (rest : List Expr) (hdone : GiveValues b env done) :
      Part b env (.list (done ++ e :: rest)) .element e
  | field {done : List (String × Expr)} (key : String) (e : Expr) (rest : List (String × Expr))
      (hdone : GiveValues b env (done.map (·.2))) :
      Part b env (.object (done ++ (key, e) :: rest)) .field e
  | bothLeft (l r : Expr) : Part b env (.both l r) .condition l
  | bothRight {l : Expr} (r : Expr) {x : Item} (hl : l.eval b env = .ok x)
      (hx : x.isTruthy = true) : Part b env (.both l r) .outcome r
  | eitherLeft (l r : Expr) : Part b env (.either l r) .condition l
  | eitherRight {l : Expr} (r : Expr) {x : Item} (hl : l.eval b env = .ok x)
      (hx : x.isTruthy = false) : Part b env (.either l r) .outcome r
  | memberTarget (e : Expr) (key : String) : Part b env (.member e key) .target e
  | indexTarget (e i : Expr) : Part b env (.index e i) .target e
  | position {e : Expr} (i : Expr) {x : Item} (he : e.eval b env = .ok x) :
      Part b env (.index e i) .position i
  | receiver (e : Expr) (method : String) (args : List Expr) :
      Part b env (.call e method args) .receiver e
  | argument {e : Expr} (method : String) {v : Value} {done : List Expr} (a : Expr)
      (rest : List Expr) (he : e.eval b env = .ok (.value v)) (hdone : GiveValues b env done) :
      Part b env (.call e method (done ++ a :: rest)) .argument a

/-- The evaluation of an expression comes to this part, at any depth, for this use. -/
inductive Comes (b : Bindings) (env : Environment) : Expr → Use → Expr → Prop where
  | part {e s : Expr} {u : Use} (h : Part b env e u s) : Comes b env e u s
  | within {e d s : Expr} {u u' : Use} (h : Part b env e u' d) (rest : Comes b env d u s) :
      Comes b env e u s

/-- A part breaks with this error: it has no result, or it gives a failure where a value is
needed. -/
def Use.Breaks (u : Use) (result : Except EvalError Item) (err : EvalError) : Prop :=
  result = .error err ∨
    u.needsValue = true ∧ ∃ f, result = .ok (.failure f) ∧ err = .failedOperand f.message

/-! ### What breaks a part, breaks the expression -/

section Breaking

variable {e s a : Expr} {u : Use} {err : EvalError}

theorem evalAll_cons_eq_error (ha : u.Breaks (a.eval b env) err) (rest : List Expr) :
    evalAll b env (a :: rest) = .error err := by
  rcases ha with ha | ⟨-, f, ha, rfl⟩ <;> rw [evalAll, ha] <;> rfl

theorem evalAll_append_eq_error {done rest : List Expr} (hdone : GiveValues b env done)
    (hrest : evalAll b env rest = .error err) : evalAll b env (done ++ rest) = .error err := by
  induction done with
  | nil => exact hrest
  | cons e done ih =>
      obtain ⟨⟨v, hv⟩, hdone⟩ := List.forall_mem_cons.mp hdone
      rw [List.cons_append, evalAll, hv]
      show (do let vs ← evalAll b env (done ++ rest); return v :: vs) = _
      rw [ih hdone]
      rfl

theorem evalFields_cons_eq_error (ha : u.Breaks (a.eval b env) err) (key : String)
    (rest : List (String × Expr)) (set : List (String × Value)) :
    evalFields b env set ((key, a) :: rest) = .error err := by
  rcases ha with ha | ⟨-, f, ha, rfl⟩ <;> rw [evalFields, ha] <;> rfl

theorem evalFields_append_eq_error {done rest : List (String × Expr)}
    (hdone : GiveValues b env (done.map (·.2)))
    (hrest : ∀ set, evalFields b env set rest = .error err) (set : List (String × Value)) :
    evalFields b env set (done ++ rest) = .error err := by
  induction done generalizing set with
  | nil => exact hrest set
  | cons field done ih =>
      obtain ⟨key, e⟩ := field
      obtain ⟨⟨v, hv⟩, hdone⟩ := List.forall_mem_cons.mp hdone
      rw [List.cons_append, evalFields, hv]
      exact ih hdone _

/-- **What breaks a part, breaks the expression.** -/
theorem Part.eval_eq_error (h : Part b env e u s) (hs : u.Breaks (s.eval b env) err) :
    e.eval b env = .error err := by
  cases h with
  | negate | left | receiver =>
      rcases hs with hs | ⟨-, f, hs, rfl⟩ <;> rw [eval, hs] <;> rfl
  | not | bothLeft | eitherLeft | memberTarget | indexTarget =>
      rcases hs with hs | ⟨hu, -⟩
      · rw [eval, hs]
        rfl
      · cases hu
  | right op r hfirst | position i hfirst =>
      rcases hs with hs | ⟨-, f, hs, rfl⟩ <;> rw [eval, hfirst, hs] <;> rfl
  | bothRight r hl hx | eitherRight r hl hx =>
      rcases hs with hs | ⟨hu, -⟩
      · simp only [eval, hl, hs, bind, Except.bind, hx]
        rfl
      · cases hu
  | element e rest hdone =>
      rw [eval, evalAll_append_eq_error hdone (evalAll_cons_eq_error hs rest)]
      rfl
  | field key e rest hdone =>
      rw [eval, evalFields_append_eq_error hdone (evalFields_cons_eq_error hs key rest)]
      rfl
  | argument method a rest he hdone =>
      rw [eval, he, evalAll_append_eq_error hdone (evalAll_cons_eq_error hs rest)]
      rfl

/-- What breaks a part at any depth, breaks the expression. -/
theorem Comes.eval_eq_error (h : Comes b env e u s) (hs : u.Breaks (s.eval b env) err) :
    e.eval b env = .error err := by
  induction h with
  | part h => exact h.eval_eq_error hs
  | within h _ ih => exact h.eval_eq_error (.inl (ih hs))

end Breaking

/-! ### A failed item that is refused, is refused as a part -/

/-- The result is not that of a failed item refused. -/
def Unrefused {α : Type} (result : Except EvalError α) : Prop :=
  ∀ m, result ≠ .error (.failedOperand m)

theorem unrefused_pure {α : Type} (a : α) : Unrefused (pure a) := by
  intro m h
  cases h

theorem Unrefused.bind {α β : Type} {x : Except EvalError α} {f : α → Except EvalError β}
    (hx : Unrefused x) (hf : ∀ a, Unrefused (f a)) : Unrefused (x >>= f) := by
  intro m h
  cases x with
  | error err =>
      cases h
      exact hx m rfl
  | ok a => exact hf a m h

theorem unrefused_ofBinary (x : Binary64) : Unrefused (Value.ofBinary x) := by
  intro m
  unfold Value.ofBinary
  split
  · split
    · split <;> nofun
    · nofun
  · nofun

theorem unrefused_toBinary (v : Value) : Unrefused v.toBinary := by
  intro m
  unfold Value.toBinary
  split
  · nofun
  · nofun
  · nofun
  · split
    · nofun
    · split <;> nofun
  · nofun

theorem unrefused_arithmetic (f : Binary64 → Binary64 → Binary64) (v w : Value) :
    Unrefused (Value.arithmetic f v w) :=
  (unrefused_toBinary v).bind fun _ => (unrefused_toBinary w).bind fun _ => unrefused_ofBinary _

theorem unrefused_division (f : Binary64 → Binary64 → Binary64) (v w : Value) :
    Unrefused (Value.division f v w) := by
  refine (unrefused_toBinary w).bind fun y => ?_
  split
  · nofun
  · exact (unrefused_toBinary v).bind fun _ => unrefused_ofBinary _

theorem unrefused_binary (op : BinaryOp) (v w : Value) : Unrefused (Value.binary op v w) := by
  cases op with
  | plus =>
      rw [Value.binary]
      split
      · nofun
      · exact unrefused_arithmetic _ v w
  | minus | times | power => exact unrefused_arithmetic _ v w
  | divided | modulo => exact unrefused_division _ v w
  | equal | notEqual | less | atMost | greater | atLeast => nofun

theorem unrefused_atIndex (v i : Value) : Unrefused (v.atIndex i) := by
  intro m
  unfold Value.atIndex
  split <;> nofun

theorem unrefused_textArgument (method : String) (args : List Value) :
    Unrefused (Value.textArgument method args) := by
  cases args <;> nofun

theorem unrefused_call (v : Value) (method : String) (args : List Value) :
    Unrefused (v.call method args) := by
  unfold Value.call
  split
  · exact (unrefused_textArgument _ args).bind fun _ => nofun
  · nofun
  · nofun
  · nofun
  · exact (unrefused_textArgument _ args).bind fun _ => nofun
  · nofun
  · nofun
  · nofun

theorem unrefused_lookup (b : Bindings) (env : Environment) (name : String) :
    Unrefused (lookup b env name) := by
  intro m
  unfold lookup
  split
  · nofun
  · split <;> nofun

section Refusal

variable {α : Type} {e : Expr} {m : String}

/-- An expression that is read as a value breaks as it is, or gives one. -/
theorem breaks_or_value {u : Use} (hu : u.needsValue = true) {g : Value → Except EvalError α}
    {result : Except EvalError Item} {err : EvalError}
    (h : (do g (← asValue (← result))) = .error err) :
    u.Breaks result err ∨ ∃ v, result = .ok (.value v) ∧ g v = .error err := by
  cases result with
  | error err' =>
      cases h
      exact .inl (.inl rfl)
  | ok x =>
      cases x with
      | value v => exact .inr ⟨v, rfl, h⟩
      | failure f =>
          cases h
          exact .inl (.inr ⟨hu, f, rfl, rfl⟩)

/-- An expression that is read as it is has no result, or gives an item. -/
theorem breaks_or_item (u : Use) {g : Item → Except EvalError α}
    {result : Except EvalError Item} {err : EvalError}
    (h : (result >>= g) = .error err) :
    u.Breaks result err ∨ ∃ x, result = .ok x ∧ g x = .error err := by
  cases result with
  | error err' =>
      cases h
      exact .inl (.inl rfl)
  | ok x => exact .inr ⟨x, rfl, h⟩

theorem exists_of_evalAll_eq_error {u : Use} (hu : u.needsValue = true) {es : List Expr}
    {err : EvalError} (h : evalAll b env es = .error err) :
    ∃ done a rest, es = done ++ a :: rest ∧ GiveValues b env done ∧
      u.Breaks (a.eval b env) err := by
  induction es with
  | nil => cases h
  | cons e es ih =>
      rw [evalAll] at h
      rcases breaks_or_value hu h with hbreaks | ⟨v, hv, h⟩
      · exact ⟨[], e, es, rfl, List.forall_mem_nil _, hbreaks⟩
      · cases hes : evalAll b env es with
        | ok vs =>
            rw [hes] at h
            cases h
        | error err' =>
            rw [hes] at h
            cases h
            obtain ⟨done, a, rest, rfl, hdone, hbreaks⟩ := ih hes
            exact ⟨e :: done, a, rest, rfl, List.forall_mem_cons.mpr ⟨⟨v, hv⟩, hdone⟩, hbreaks⟩

theorem exists_of_evalFields_eq_error {u : Use} (hu : u.needsValue = true)
    {fields : List (String × Expr)} {set : List (String × Value)} {err : EvalError}
    (h : evalFields b env set fields = .error err) :
    ∃ done key a rest, fields = done ++ (key, a) :: rest ∧ GiveValues b env (done.map (·.2)) ∧
      u.Breaks (a.eval b env) err := by
  induction fields generalizing set with
  | nil => cases h
  | cons field fields ih =>
      obtain ⟨key, e⟩ := field
      rw [evalFields] at h
      rcases breaks_or_value hu h with hbreaks | ⟨v, hv, h⟩
      · exact ⟨[], key, e, fields, rfl, List.forall_mem_nil _, hbreaks⟩
      · obtain ⟨done, key', a, rest, rfl, hdone, hbreaks⟩ := ih h
        exact ⟨(key, e) :: done, key', a, rest, rfl,
          List.forall_mem_cons.mpr ⟨⟨v, hv⟩, hdone⟩, hbreaks⟩

/-- **A failed item that is refused, is refused as a part**, or inside one. -/
theorem exists_part_of_eval_eq_error (h : e.eval b env = .error (.failedOperand m)) :
    ∃ u s, Part b env e u s ∧ u.Breaks (s.eval b env) (.failedOperand m) := by
  cases e <;> rw [eval] at h
  case number x =>
    exact absurd h ((unrefused_ofBinary x).bind (fun v => unrefused_pure (Item.value v)) m)
  case literal v => cases h
  case name n => exact absurd h (unrefused_lookup b env n m)
  case list members =>
    cases hmembers : evalAll b env members with
    | ok vs =>
        rw [hmembers] at h
        cases h
    | error err =>
        rw [hmembers] at h
        cases h
        obtain ⟨done, a, rest, rfl, hdone, hbreaks⟩ :=
          exists_of_evalAll_eq_error (u := .element) rfl hmembers
        exact ⟨_, _, .element a rest hdone, hbreaks⟩
  case object fields =>
    cases hfields : evalFields b env [] fields with
    | ok set =>
        rw [hfields] at h
        cases h
    | error err =>
        rw [hfields] at h
        cases h
        obtain ⟨done, key, a, rest, rfl, hdone, hbreaks⟩ :=
          exists_of_evalFields_eq_error (u := .field) rfl hfields
        exact ⟨_, _, .field key a rest hdone, hbreaks⟩
  case negate e =>
    rcases breaks_or_value (u := .operand) rfl h with hbreaks | ⟨v, -, h⟩
    · exact ⟨_, _, .negate e, hbreaks⟩
    · refine absurd h ((unrefused_toBinary v).bind (fun x => ?_) m)
      exact (unrefused_ofBinary _).bind fun v => unrefused_pure (Item.value v)
  case not e =>
    rcases breaks_or_item .tested h with hbreaks | ⟨x, -, h⟩
    · exact ⟨_, _, .not e, hbreaks⟩
    · cases h
  case binary op l r =>
    rcases breaks_or_value (u := .operand) rfl h with hbreaks | ⟨v, hl, h⟩
    · exact ⟨_, _, .left op l r, hbreaks⟩
    · rcases breaks_or_value (u := .operand) rfl h with hbreaks | ⟨w, -, h⟩
      · exact ⟨_, _, .right op r hl, hbreaks⟩
      · exact absurd h
          ((unrefused_binary op v w).bind (fun v => unrefused_pure (Item.value v)) m)
  case both l r =>
    rcases breaks_or_item .condition h with hbreaks | ⟨x, hl, h⟩
    · exact ⟨_, _, .bothLeft l r, hbreaks⟩
    · split at h
      · next hx => exact ⟨_, _, .bothRight r hl hx, .inl h⟩
      · cases h
  case either l r =>
    rcases breaks_or_item .condition h with hbreaks | ⟨x, hl, h⟩
    · exact ⟨_, _, .eitherLeft l r, hbreaks⟩
    · split at h
      · cases h
      · next hx => exact ⟨_, _, .eitherRight r hl (Bool.not_eq_true _ ▸ hx), .inl h⟩
  case member e key =>
    rcases breaks_or_item .target h with hbreaks | ⟨x, -, h⟩
    · exact ⟨_, _, .memberTarget e key, hbreaks⟩
    · cases h
  case index e i =>
    rcases breaks_or_item .target h with hbreaks | ⟨x, he, h⟩
    · exact ⟨_, _, .indexTarget e i, hbreaks⟩
    · rcases breaks_or_value (u := .position) rfl h with hbreaks | ⟨w, -, h⟩
      · exact ⟨_, _, .position i he, hbreaks⟩
      · exact absurd h
          ((unrefused_atIndex _ w).bind (fun v => unrefused_pure (Item.value v)) m)
  case call e method args =>
    rcases breaks_or_value (u := .receiver) rfl h with hbreaks | ⟨v, he, h⟩
    · exact ⟨_, _, .receiver e method args, hbreaks⟩
    · cases hargs : evalAll b env args with
      | ok vs =>
          rw [hargs] at h
          exact absurd h
            ((unrefused_call v method vs).bind (fun v => unrefused_pure (Item.value v)) m)
      | error err =>
          rw [hargs] at h
          cases h
          obtain ⟨done, a, rest, rfl, hdone, hbreaks⟩ :=
            exists_of_evalAll_eq_error (u := .argument) rfl hargs
          exact ⟨_, _, .argument method a rest he hdone, hbreaks⟩

/-! ### At any depth -/

theorem Part.sizeOf_lt {s : Expr} {u : Use} (h : Part b env e u s) : sizeOf s < sizeOf e := by
  cases h with
  | @element done e rest =>
      have hmem : s ∈ done ++ s :: rest := List.mem_append_right _ List.mem_cons_self
      have := List.sizeOf_lt_of_mem hmem
      rw [Expr.list.sizeOf_spec]
      omega
  | @field done key e rest =>
      have hmem : (key, s) ∈ done ++ (key, s) :: rest :=
        List.mem_append_right _ List.mem_cons_self
      have := List.sizeOf_lt_of_mem hmem
      rw [Prod.mk.sizeOf_spec] at this
      rw [Expr.object.sizeOf_spec]
      omega
  | @argument _ method _ done a rest =>
      have hmem : s ∈ done ++ s :: rest := List.mem_append_right _ List.mem_cons_self
      have := List.sizeOf_lt_of_mem hmem
      rw [Expr.call.sizeOf_spec]
      omega
  | negate | not | left | right | bothLeft | bothRight | eitherLeft | eitherRight | memberTarget
  | indexTarget | position | receiver =>
      simp only [negate.sizeOf_spec, not.sizeOf_spec, binary.sizeOf_spec, both.sizeOf_spec,
        either.sizeOf_spec, member.sizeOf_spec, index.sizeOf_spec, call.sizeOf_spec]
      omega

/-- **A failed item breaks an evaluation** iff the evaluation comes to it for a use that needs a
value. -/
theorem eval_eq_error_iff : e.eval b env = .error (.failedOperand m) ↔
    ∃ u s f, Comes b env e u s ∧ u.needsValue = true ∧ s.eval b env = .ok (.failure f) ∧
      f.message = m := by
  constructor
  · intro h
    induction hn : sizeOf e using Nat.strongRecOn generalizing e with
    | ind n ih =>
        obtain ⟨u, s, hpart, hs | ⟨hu, f, hs, hm⟩⟩ := exists_part_of_eval_eq_error h
        · obtain ⟨u', s', f, hcomes, hrest⟩ := ih _ (hn ▸ hpart.sizeOf_lt) hs rfl
          exact ⟨u', s', f, .within hpart hcomes, hrest⟩
        · cases hm
          exact ⟨u, s, f, .part hpart, hu, hs, rfl⟩
  · rintro ⟨u, s, f, hcomes, hu, hs, rfl⟩
    exact hcomes.eval_eq_error (.inr ⟨hu, f, hs, rfl⟩)

end Refusal

/-- What the right side of a connective gives is what the connective gives. -/
theorem Part.eval_outcome {e s : Expr} (h : Part b env e .outcome s) :
    e.eval b env = s.eval b env := by
  cases h with
  | bothRight r hl hx | eitherRight r hl hx =>
      rw [eval, hl]
      simp only [bind, Except.bind, hx]
      rfl

/-! ### Sources -/

theorem evalSource_eq_mapError {source : String} {e : Expr} (he : ofSource source = .ok e) :
    evalSource source b env = (e.eval b env).mapError .evaluation := by
  rw [evalSource, he]

theorem evalSource_eq_ok_iff {source : String} {e : Expr} (he : ofSource source = .ok e)
    {x : Item} : evalSource source b env = .ok x ↔ e.eval b env = .ok x := by
  rw [evalSource_eq_mapError he]
  cases e.eval b env <;> simp [Except.mapError]

theorem evalSource_eq_error_iff {source : String} {e : Expr} (he : ofSource source = .ok e)
    {err : EvalError} :
    evalSource source b env = .error (.evaluation err) ↔ e.eval b env = .error err := by
  rw [evalSource_eq_mapError he]
  cases e.eval b env <;> simp [Except.mapError]

/-- **Failures are neither invented nor made into something else.**  A failure that a source gives
is one of those bound.  A source is refused for a failure iff its evaluation comes to that failure
where a value is needed; so where it gives an item, all failures that it came to were tested, stood
on a side of a connective, or had their fields read.  What the right side of a connective gives is
handed on. -/
theorem failures_kept (source : String) (b : Bindings) (env : Environment) :
    (∀ f, evalSource source b env = .ok (.failure f) → .failure f ∈ b.items) ∧
    (∀ e, ofSource source = .ok e →
      (∀ m, evalSource source b env = .error (.evaluation (.failedOperand m)) ↔
        ∃ u s f, Comes b env e u s ∧ u.needsValue = true ∧ s.eval b env = .ok (.failure f) ∧
          f.message = m) ∧
      ∀ x, evalSource source b env = .ok x →
        ∀ u s f, Comes b env e u s → s.eval b env = .ok (.failure f) →
          u = .tested ∨ u = .condition ∨ u = .outcome ∨ u = .target) ∧
    ∀ d s, Part b env d .outcome s → d.eval b env = s.eval b env := by
  refine ⟨fun f hf => ?_, fun e he => ⟨fun m => ?_, fun x hx u s f hcomes hs => ?_⟩,
    fun d s hpart => hpart.eval_outcome⟩
  · cases he : ofSource source with
    | error malformed =>
        rw [evalSource, he] at hf
        cases hf
    | ok e =>
        -- what is no failure is not asked about
        have hkept := eval_keeps (P := fun x => ∀ f, x = .failure f → x ∈ b.items) (b := b)
          (fun v f hv => by cases hv) (fun x hx f _ => hx) env e
        exact hkept _ ((evalSource_eq_ok_iff he).mp hf) f rfl
  · rw [evalSource_eq_error_iff he, eval_eq_error_iff]
  · cases hu : u.needsValue with
    | true =>
        have hrefused := eval_eq_error_iff.mpr ⟨u, s, f, hcomes, hu, hs, rfl⟩
        rw [(evalSource_eq_ok_iff he).mp hx] at hrefused
        cases hrefused
    | false => exact Use.eq_of_needsValue_eq_false hu

/-- A source that hands `e` on, or turns its sign: the value of `x` decides. -/
def guarded : String := "x && - e || e"

/-- Its tokens, with the blanks behind them. -/
def guardedParts : List (Token × List Char) :=
  [(.name ['x'], [' ']), (.symbol .both, [' ']), (.symbol .minus, [' ']), (.name ['e'], [' ']),
    (.symbol .either, [' ']), (.name ['e'], [])]

theorem lex_guarded : Token.lex guarded.toList = .ok (guardedParts.map (·.1)) := by
  have hsource : guarded.toList = Token.spread [] guardedParts := rfl
  have hx : (Token.name ['x']).Valid := ⟨'x', [], rfl, by decide, List.forall_mem_nil _⟩
  have he : (Token.name ['e']).Valid := ⟨'e', [], rfl, by decide, List.forall_mem_nil _⟩
  have hvalid : ∀ part ∈ guardedParts, part.1.Valid := by
    simp only [guardedParts, List.forall_mem_cons]
    exact ⟨hx, trivial, trivial, he, trivial, he, List.forall_mem_nil _⟩
  have hblank : ∀ part ∈ guardedParts, Text.Blank part.2 := by decide
  rw [hsource]
  refine Token.lex_of_cut (Token.cut_spread (by decide) ?_ (by decide)) (by decide)
  exact fun part hpart => ⟨hvalid part hpart, hblank part hpart⟩

theorem ofSource_guarded : ofSource guarded =
    .ok (.either (.both (.name "x") (.negate (.name "e"))) (.name "e")) :=
  ofSource_eq_ok_iff.mpr ⟨_, by decide, lex_guarded, rfl⟩

/-- `x` bound to a condition and `e` to a failure. -/
def guardedBindings (condition : Bool) : Bindings :=
  { value := some (.value (.bool condition)), error := some (.failure ⟨"refused", "", none⟩) }

/-- Under a false condition the failure is handed on by two connectives.  Under a true one its sign
is turned, inside the same two, and that is refused. -/
theorem failures_kept_guarded :
    (evalSource guarded (guardedBindings false) .empty = .ok (.failure ⟨"refused", "", none⟩) ∧
      .failure ⟨"refused", "", none⟩ ∈ (guardedBindings false).items) ∧
    evalSource guarded (guardedBindings true) .empty =
      .error (.evaluation (.failedOperand "refused")) := by
  obtain ⟨hbound, -, -⟩ := failures_kept guarded (guardedBindings false) .empty
  obtain ⟨-, hrefused, -⟩ := failures_kept guarded (guardedBindings true) .empty
  have hfalse : evalSource guarded (guardedBindings false) .empty =
      .ok (.failure ⟨"refused", "", none⟩) := (evalSource_eq_ok_iff ofSource_guarded).mpr rfl
  refine ⟨⟨hfalse, hbound _ hfalse⟩, ((hrefused _ ofSource_guarded).1 _).mpr ?_⟩
  have hcomes : Comes (guardedBindings true) .empty
      (.either (.both (.name "x") (.negate (.name "e"))) (.name "e")) .operand (.name "e") :=
    .within (.eitherLeft _ _) (.within (.bothRight _ rfl rfl) (.part (.negate _)))
  exact ⟨_, _, _, hcomes, rfl, rfl, rfl⟩

end Expr

end Pipeline
