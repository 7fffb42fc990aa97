import Mathlib.Data.List.Forall2
import Mathlib.Data.List.Nodup
import Pipeline.Proofs.Bookkeeping
import Pipeline.Proofs.Failures
import Pipeline.Proofs.Materializing
import Pipeline.Proofs.ReadingBack

/-!
# Keys — no key of an object stands twice

The fields of an object are a list, so that they keep their order, and a list can hold a key twice.
None does: if every object in what comes from outside has distinct keys, at every depth
(`Value.DistinctKeys`), then so has every object that is made of it.

* `Expr.eval_object_eq_ok_iff`: an object literal sets its fields one after the other.  So its keys
  stand in the order in which they are first written (`Value.keys_setFields`), each with the value
  that is written last (`Value.lookup_setFields`).
* `Expr.DistinctKeys.eval`: an evaluation gives distinct keys, given such.
* `Stage.closed_distinctKeys`: so do the functions of a stage, and what is imported for the stages
  behind it (`State.DistinctKeys.apply`).
* `Interpreter.keys_distinct`: so do all items that a pipeline yields or hands to a sink.
-/

namespace Pipeline

/-! ### Distinct keys -/

/-- Every object in the value, at any depth, has distinct keys. -/
inductive Value.DistinctKeys : Value → Prop where
  | null : DistinctKeys .null
  | bool (b : Bool) : DistinctKeys (.bool b)
  | number (n : Number) : DistinctKeys (.number n)
  | text (s : String) : DistinctKeys (.text s)
  | list {members : List Value} (h : ∀ v ∈ members, DistinctKeys v) : DistinctKeys (.list members)
  | object {fields : List (String × Value)} (hkeys : (fields.map (·.1)).Nodup)
      (h : ∀ f ∈ fields, DistinctKeys f.2) : DistinctKeys (.object fields)

/-- Every object in the list that the failure holds has distinct keys. -/
def Failure.DistinctKeys (e : Failure) : Prop := ∀ v, e.value = some v → v.DistinctKeys

/-- Every object in the item has distinct keys. -/
def Item.DistinctKeys : Item → Prop
  | .value v => v.DistinctKeys
  | .failure e => e.DistinctKeys

/-- Every object in the items that are bound has distinct keys. -/
def Bindings.DistinctKeys (b : Bindings) : Prop := ∀ x ∈ b.items, x.DistinctKeys

/-- Every object in what names stand for has distinct keys. -/
def Environment.DistinctKeys (env : Environment) : Prop :=
  ∀ name v, env.get? name = some v → v.DistinctKeys

/-- In every run, every object in the items and in all that is handed to sinks has distinct keys. -/
def Plan.DistinctKeys (plan : Plan Event) : Prop :=
  ∀ m : Memory, (∀ x ∈ (plan.run m).1.items, x.DistinctKeys) ∧
    ∀ event ∈ plan.opening ++ (plan.run m).1.events, event.Delivers Item.DistinctKeys

/-! ### Fields that are set one after the other -/

namespace Value

/-- Sets fields one after the other. -/
def setFields (done written : List (String × Value)) : List (String × Value) :=
  written.foldl (fun fields f => setField f.1 f.2 fields) done

variable {key : String} {v : Value} {fields done : List (String × Value)}

theorem keys_setField_of_mem (h : key ∈ fields.map (·.1)) :
    (setField key v fields).map (·.1) = fields.map (·.1) := by
  induction fields with
  | nil => cases h
  | cons field fields ih =>
      obtain ⟨k, old⟩ := field
      by_cases hk : k = key
      · rw [setField, if_pos hk, List.map_cons, List.map_cons]
      · rw [setField, if_neg hk, List.map_cons, List.map_cons,
          ih ((List.mem_cons.mp h).resolve_left (Ne.symm hk))]

theorem nodup_keys_setField (h : (fields.map (·.1)).Nodup) :
    ((setField key v fields).map (·.1)).Nodup := by
  by_cases hkey : key ∈ fields.map (·.1)
  · rwa [keys_setField_of_mem hkey]
  · have hconcat := List.Nodup.concat hkey h
    rw [List.concat_eq_append] at hconcat
    rwa [setField_of_not_mem v hkey, List.map_append]

theorem forall_mem_setField {P : Value → Prop} (hv : P v) (h : ∀ f ∈ fields, P f.2) :
    ∀ f ∈ setField key v fields, P f.2 := by
  induction fields with
  | nil => exact List.forall_mem_singleton.mpr hv
  | cons field fields ih =>
      obtain ⟨hfield, hfields⟩ := List.forall_mem_cons.mp h
      rw [setField]
      split
      · exact List.forall_mem_cons.mpr ⟨hv, hfields⟩
      · exact List.forall_mem_cons.mpr ⟨hfield, ih hfields⟩

theorem eraseDups_of_nodup {keys : List String} (h : keys.Nodup) : keys.eraseDups = keys := by
  induction keys with
  | nil => rfl
  | cons key keys ih =>
      obtain ⟨hkey, hkeys⟩ := List.nodup_cons.mp h
      have hothers : keys.filter (fun k => !k == key) = keys := by
        refine List.filter_eq_self.mpr fun k hk => ?_
        have hne : k ≠ key := fun heq => hkey (heq ▸ hk)
        rw [beq_false_of_ne hne]
        rfl
      rw [List.eraseDups_cons, hothers, ih hkeys]

theorem eraseDups_append_cons_of_mem {first rest : List String} (h : key ∈ first) :
    (first ++ key :: rest).eraseDups = (first ++ rest).eraseDups := by
  rw [List.eraseDups_append, List.eraseDups_append, List.cons_removeAll,
    List.contains_iff_mem.mpr h, if_neg nofun]

/-- **Keys stand in the order in which they are first written.** -/
theorem keys_setFields {written : List (String × Value)} (h : (done.map (·.1)).Nodup) :
    (setFields done written).map (·.1) = (done.map (·.1) ++ written.map (·.1)).eraseDups := by
  induction written generalizing done with
  | nil => rw [List.map_nil, List.append_nil, eraseDups_of_nodup h, setFields, List.foldl_nil]
  | cons f written ih =>
      rw [setFields, List.foldl_cons, ← setFields, ih (nodup_keys_setField h), List.map_cons]
      by_cases hkey : f.1 ∈ done.map (·.1)
      · rw [keys_setField_of_mem hkey, eraseDups_append_cons_of_mem hkey]
      · rw [setField_of_not_mem f.2 hkey, List.map_append, List.append_assoc]
        rfl

/-- **Each key has the value that is written last.** -/
theorem lookup_setFields {written : List (String × Value)} :
    (setFields done written).lookup key = (written.reverse ++ done).lookup key := by
  induction written generalizing done with
  | nil => rfl
  | cons f written ih =>
      rw [setFields, List.foldl_cons, ← setFields, ih, List.reverse_cons, List.append_assoc,
        List.lookup_append, List.lookup_append, lookup_setField]
      exact congrArg _ (lookup_cons_if key f.1 f.2 done).symm

end Value

namespace Expr

variable {b : Bindings} {env : Environment}

/-- The expression of a field gives this value, which stands under the key of the field. -/
def Gives (b : Bindings) (env : Environment) (field : String × Expr) (f : String × Value) : Prop :=
  field.1 = f.1 ∧ field.2.eval b env = .ok (.value f.2)

/-- A field that comes to be set has given its value. -/
theorem evalFields_cons_eq_ok {key : String} {e : Expr} {fields : List (String × Expr)}
    {done out : List (String × Value)} (h : evalFields b env done ((key, e) :: fields) = .ok out) :
    ∃ v, e.eval b env = .ok (.value v) ∧
      evalFields b env (Value.setField key v done) fields = .ok out := by
  rw [evalFields] at h
  cases he : e.eval b env with
  | error err =>
      rw [he] at h
      cases h
  | ok x =>
      rw [he] at h
      cases x with
      | value v => exact ⟨v, rfl, h⟩
      | failure f => cases h

/-- **Fields are set one after the other**, with the values that their expressions give. -/
theorem evalFields_eq_ok_iff {fields : List (String × Expr)} {done out : List (String × Value)} :
    evalFields b env done fields = .ok out ↔
      ∃ written, List.Forall₂ (Gives b env) fields written ∧
        out = Value.setFields done written := by
  constructor
  · intro h
    induction fields generalizing done with
    | nil =>
        cases h
        exact ⟨[], .nil, rfl⟩
    | cons field fields ih =>
        obtain ⟨v, hv, hrest⟩ := evalFields_cons_eq_ok h
        obtain ⟨written, hwritten, rfl⟩ := ih hrest
        exact ⟨(field.1, v) :: written, .cons ⟨rfl, hv⟩ hwritten, rfl⟩
  · rintro ⟨written, hwritten, rfl⟩
    induction hwritten generalizing done with
    | nil => rfl
    | @cons field f fields written hfirst _ ih =>
        obtain ⟨key, e⟩ := field
        obtain ⟨rfl, hv⟩ := hfirst
        rw [evalFields, hv]
        exact ih

theorem keys_of_gives {fields : List (String × Expr)} {written : List (String × Value)}
    (h : List.Forall₂ (Gives b env) fields written) :
    written.map (·.1) = fields.map (·.1) := by
  induction h with
  | nil => rfl
  | cons hfirst _ ih => rw [List.map_cons, List.map_cons, hfirst.1, ih]

theorem eval_object_eq_ok_iff {fields : List (String × Expr)} {x : Item} :
    (Expr.object fields).eval b env = .ok x ↔
      ∃ written, List.Forall₂ (Gives b env) fields written ∧
        x = .value (.object (Value.setFields [] written)) := by
  constructor
  · intro h
    rw [eval] at h
    cases hfields : evalFields b env [] fields with
    | error err =>
        rw [hfields] at h
        cases h
    | ok out =>
        obtain ⟨written, hwritten, hout⟩ := evalFields_eq_ok_iff.mp hfields
        rw [hfields, hout] at h
        cases h
        exact ⟨written, hwritten, rfl⟩
  · rintro ⟨written, hwritten, rfl⟩
    rw [eval, evalFields_eq_ok_iff.mpr ⟨written, hwritten, rfl⟩]
    rfl

end Expr

/-! ### Operations on values -/

namespace Value

theorem DistinctKeys.members {members : List Value} (h : (Value.list members).DistinctKeys) :
    ∀ v ∈ members, v.DistinctKeys := by
  cases h with
  | list h => exact h

theorem DistinctKeys.fields {fields : List (String × Value)}
    (h : (Value.object fields).DistinctKeys) :
    ∀ f ∈ fields, f.2.DistinctKeys := by
  cases h with
  | object _ h => exact h

theorem distinctKeys_getD {found : Option Value} (h : ∀ v, found = some v → v.DistinctKeys) :
    (found.getD .null).DistinctKeys := by
  cases found with
  | none => exact .null
  | some v => exact h v rfl

theorem DistinctKeys.field? {fields : List (String × Value)}
    (h : (Value.object fields).DistinctKeys) {key : String} {v : Value}
    (hv : Value.field? fields key = some v) : v.DistinctKeys := by
  obtain ⟨before, after, rfl, -⟩ := List.lookup_eq_some_iff.mp hv
  exact h.fields (key, v) (List.mem_append_right _ List.mem_cons_self)

theorem DistinctKeys.element? {v w : Value} (h : v.DistinctKeys) {i : Nat}
    (hw : v.element? i = some w) : w.DistinctKeys := by
  unfold Value.element? at hw
  split at hw
  · exact h.members w (List.mem_of_getElem? hw)
  · obtain ⟨c, -, rfl⟩ := Option.map_eq_some_iff.mp hw
    exact .text _
  · cases hw

theorem DistinctKeys.atPosition {v : Value} (h : v.DistinctKeys) (position : Option Nat) :
    ((position.bind v.element?).getD .null).DistinctKeys := by
  refine distinctKeys_getD fun w hw => ?_
  obtain ⟨i, -, hi⟩ := Option.bind_eq_some_iff.mp hw
  exact h.element? hi

theorem DistinctKeys.member {v : Value} (h : v.DistinctKeys) (key : String) :
    (v.member key).DistinctKeys := by
  unfold Value.member
  split
  · exact distinctKeys_getD fun _ => h.field?
  · split
    · exact .number _
    · exact h.atPosition _
  · split
    · exact .number _
    · exact h.atPosition _
  · exact .null

theorem DistinctKeys.atIndex {v : Value} (h : v.DistinctKeys) (index : Value) :
    Results DistinctKeys (v.atIndex index) := by
  unfold Value.atIndex
  split
  · exact .pure (h.member _)
  · exact .pure (h.atPosition (some _))
  · exact .pure .null
  · exact .error

theorem distinctKeys_ofBinary (x : Binary64) : Results DistinctKeys (ofBinary x) := by
  unfold ofBinary
  split
  · split
    · split <;> exact .pure (.number _)
    · exact .pure (.number _)
  · exact .error

theorem distinctKeys_arithmetic (f : Binary64 → Binary64 → Binary64) (v w : Value) :
    Results DistinctKeys (arithmetic f v w) :=
  .after fun _ => .after fun _ => distinctKeys_ofBinary _

theorem distinctKeys_division (f : Binary64 → Binary64 → Binary64) (v w : Value) :
    Results DistinctKeys (division f v w) := by
  refine .after fun y => ?_
  split
  · exact .error
  · exact .after fun _ => distinctKeys_ofBinary _

theorem distinctKeys_binary (op : BinaryOp) (v w : Value) :
    Results DistinctKeys (binary op v w) := by
  cases op with
  | plus =>
      rw [binary]
      split
      · exact .pure (.text _)
      · exact distinctKeys_arithmetic _ v w
  | minus | times | power => exact distinctKeys_arithmetic _ v w
  | divided | modulo => exact distinctKeys_division _ v w
  | equal | notEqual | less | atMost | greater | atLeast => exact .pure (.bool _)

/-- Texts split into parts are texts. -/
theorem distinctKeys_ofParts (parts : List (List Char)) : (ofParts parts).DistinctKeys := by
  refine .list fun v hv => ?_
  obtain ⟨part, -, rfl⟩ := List.mem_map.mp hv
  exact .text _

theorem distinctKeys_call (receiver : Value) (method : String) (args : List Value) :
    Results DistinctKeys (receiver.call method args) := by
  unfold call
  split
  · exact .after fun _ => .pure (distinctKeys_ofParts _)
  · exact .pure (.text _)
  · exact .pure (.text _)
  · exact .pure (.text _)
  · exact .after fun _ => .pure (.bool _)
  · exact .pure (.bool _)
  · exact .pure (.text _)
  · exact .error

end Value

/-! ### Operations on items -/

namespace Item

theorem distinctKeys_failure {message cause : String} :
    (failure { message, cause }).DistinctKeys := by
  intro v hv
  cases hv

end Item

/-- A failure as an object has the keys of its fields. -/
theorem Failure.DistinctKeys.toValue {e : Failure} (h : e.DistinctKeys) :
    e.toValue.DistinctKeys := by
  obtain ⟨message, cause, value⟩ := e
  cases value with
  | none =>
      have hkeys : ["message", "cause"].Nodup := by decide
      refine .object hkeys (List.forall_mem_cons.mpr ⟨.text _, ?_⟩)
      exact List.forall_mem_singleton.mpr (.text _)
  | some v =>
      have hkeys : ["message", "cause", "value"].Nodup := by decide
      refine .object hkeys (List.forall_mem_cons.mpr ⟨.text _, ?_⟩)
      exact List.forall_mem_cons.mpr ⟨.text _, List.forall_mem_singleton.mpr (h v rfl)⟩

namespace Item

theorem DistinctKeys.toValue {x : Item} (h : x.DistinctKeys) : x.toValue.DistinctKeys := by
  cases x with
  | value v => exact h
  | failure e => exact Failure.DistinctKeys.toValue h

theorem distinctKeys_list {xs : List Item} (h : ∀ x ∈ xs, x.DistinctKeys) :
    (Value.list (xs.map Item.toValue)).DistinctKeys := by
  refine .list fun v hv => ?_
  obtain ⟨x, hx, rfl⟩ := List.mem_map.mp hv
  exact (h x hx).toValue

theorem distinctKeys_gather {xs : List Item} (h : ∀ x ∈ xs, x.DistinctKeys) :
    (gather xs).DistinctKeys := by
  unfold gather
  split
  · exact distinctKeys_list h
  · intro v hv
    cases hv
    exact distinctKeys_list h

theorem DistinctKeys.expand {x : Item} (h : x.DistinctKeys) : ∀ y ∈ x.expand, y.DistinctKeys := by
  intro y hy
  unfold Item.expand at hy
  split at hy
  · obtain ⟨v, hv, rfl⟩ := List.mem_map.mp hy
    exact Value.DistinctKeys.members h v hv
  · cases List.mem_singleton.mp hy
    exact h

end Item

/-! ### Evaluation -/

/-- Every object in the values that the expression contains has distinct keys. -/
inductive Expr.DistinctKeys : Expr → Prop where
  | number (x : Binary64) : DistinctKeys (.number x)
  | literal {v : Value} (h : v.DistinctKeys) : DistinctKeys (.literal v)
  | name (s : String) : DistinctKeys (.name s)
  | list {members : List Expr} (h : ∀ e ∈ members, DistinctKeys e) : DistinctKeys (.list members)
  | object {fields : List (String × Expr)} (h : ∀ f ∈ fields, DistinctKeys f.2) :
      DistinctKeys (.object fields)
  | negate {e : Expr} (h : DistinctKeys e) : DistinctKeys (.negate e)
  | not {e : Expr} (h : DistinctKeys e) : DistinctKeys (.not e)
  | binary (op : BinaryOp) {l r : Expr} (hl : DistinctKeys l) (hr : DistinctKeys r) :
      DistinctKeys (.binary op l r)
  | both {l r : Expr} (hl : DistinctKeys l) (hr : DistinctKeys r) : DistinctKeys (.both l r)
  | either {l r : Expr} (hl : DistinctKeys l) (hr : DistinctKeys r) : DistinctKeys (.either l r)
  | member {e : Expr} (h : DistinctKeys e) (key : String) : DistinctKeys (.member e key)
  | index {e i : Expr} (h : DistinctKeys e) (hi : DistinctKeys i) : DistinctKeys (.index e i)
  | call {e : Expr} {args : List Expr} (h : DistinctKeys e) (method : String)
      (ha : ∀ a ∈ args, DistinctKeys a) : DistinctKeys (.call e method args)

namespace Expr

variable {b : Bindings} {env : Environment}

theorem distinctKeys_asValue {x : Item} (h : x.DistinctKeys) :
    Results Value.DistinctKeys (asValue x) := by
  cases x with
  | value v => exact .pure h
  | failure e => exact .error

theorem distinctKeys_lookup (hb : b.DistinctKeys) (henv : env.DistinctKeys) (name : String) :
    Results Item.DistinctKeys (lookup b env name) := by
  unfold lookup
  split
  · next x hbound => exact .pure (hb x (Bindings.mem_items_of_bound? hbound))
  · split
    · next v hv => exact .pure (henv name v hv)
    · exact .error

theorem distinctKeys_evalAll {es : List Expr}
    (h : ∀ e ∈ es, Results Item.DistinctKeys (e.eval b env)) :
    Results (fun vs => ∀ v ∈ vs, Value.DistinctKeys v) (evalAll b env es) := by
  induction es with
  | nil => exact .pure (List.forall_mem_nil _)
  | cons e es ih =>
      obtain ⟨he, hes⟩ := List.forall_mem_cons.mp h
      rw [evalAll]
      refine .bind he fun x hx => .bind (distinctKeys_asValue hx) fun v hv => ?_
      exact .bind (ih hes) fun vs hvs => .pure (List.forall_mem_cons.mpr ⟨hv, hvs⟩)

theorem distinctKeys_evalFields {fields : List (String × Expr)}
    (h : ∀ f ∈ fields, Results Item.DistinctKeys (f.2.eval b env)) {done : List (String × Value)}
    (hdone : (Value.object done).DistinctKeys) :
    Results (fun out => (Value.object out).DistinctKeys) (evalFields b env done fields) := by
  induction fields generalizing done with
  | nil => exact .pure hdone
  | cons field fields ih =>
      obtain ⟨key, e⟩ := field
      obtain ⟨he, hfields⟩ := List.forall_mem_cons.mp h
      rw [evalFields]
      refine .bind he fun x hx => .bind (distinctKeys_asValue hx) fun v hv => ih hfields ?_
      cases hdone with
      | object hkeys hvalues =>
          exact .object (Value.nodup_keys_setField hkeys) (Value.forall_mem_setField hv hvalues)

/-- **An evaluation gives distinct keys**, given such. -/
theorem DistinctKeys.eval {e : Expr} (he : e.DistinctKeys) (hb : b.DistinctKeys)
    (henv : env.DistinctKeys) : Results Item.DistinctKeys (e.eval b env) := by
  induction he with
  | number x =>
      rw [Expr.eval]
      exact .bind (Value.distinctKeys_ofBinary x) fun _ hv => .pure hv
  | literal h =>
      rw [Expr.eval]
      exact .pure h
  | name s =>
      rw [Expr.eval]
      exact distinctKeys_lookup hb henv s
  | list _ ih =>
      rw [Expr.eval]
      exact .bind (distinctKeys_evalAll ih) fun _ hvs => .pure (.list hvs)
  | object _ ih =>
      have hnone : (Value.object []).DistinctKeys := .object List.nodup_nil (List.forall_mem_nil _)
      rw [Expr.eval]
      exact .bind (distinctKeys_evalFields ih hnone) fun _ hout => .pure hout
  | negate =>
      rw [Expr.eval]
      refine .after fun _ => .after fun _ => .after fun _ => ?_
      exact .bind (Value.distinctKeys_ofBinary _) fun _ hv => .pure hv
  | not =>
      rw [Expr.eval]
      exact .after fun _ => .pure (.bool _)
  | binary op =>
      rw [Expr.eval]
      refine .after fun _ => .after fun v => .after fun _ => .after fun w => ?_
      exact .bind (Value.distinctKeys_binary op v w) fun _ hv => .pure hv
  | both _ _ ihl ihr =>
      rw [Expr.eval]
      refine .bind ihl fun x hx => ?_
      split
      · exact ihr
      · exact .pure hx
  | either _ _ ihl ihr =>
      rw [Expr.eval]
      refine .bind ihl fun x hx => ?_
      split
      · exact .pure hx
      · exact ihr
  | member _ key ih =>
      rw [Expr.eval]
      exact .bind ih fun x hx => .pure (hx.toValue.member key)
  | index _ _ ih _ =>
      rw [Expr.eval]
      refine .bind ih fun x hx => .after fun _ => .after fun i => ?_
      exact .bind (hx.toValue.atIndex i) fun _ hv => .pure hv
  | call _ method =>
      rw [Expr.eval]
      refine .after fun _ => .after fun v => .after fun args => ?_
      exact .bind (Value.distinctKeys_call v method args) fun _ hv => .pure hv

end Expr

theorem Operator.distinctKeys_apply (op : Operator) {l r : Expr} (hl : l.DistinctKeys)
    (hr : r.DistinctKeys) : (op.apply l r).DistinctKeys := by
  cases op with
  | either => exact .either hl hr
  | both => exact .both hl hr
  | binary op => exact .binary op hl hr

theorem Sign.distinctKeys_apply (sign : Sign) {e : Expr} (h : e.DistinctKeys) :
    (sign.apply e).DistinctKeys := by
  cases sign with
  | bang => exact .not h
  | minus => exact .negate h
  | plus => exact h

/-- What is written as a literal has no fields. -/
theorem Grammar.distinctKeys_of_mem_literals {s : String} {v : Value} (h : (s, v) ∈ literals) :
    v.DistinctKeys := by
  simp only [literals, List.mem_cons, List.not_mem_nil, or_false, Prod.mk.injEq] at h
  rcases h with ⟨-, rfl⟩ | ⟨-, rfl⟩ | ⟨-, rfl⟩
  · exact .bool true
  · exact .bool false
  · exact .null

/-- **The grammar has no literals with fields.** -/
theorem Grammar.Derives.distinctKeys {c : Category} {ts : List Token} {e : Expr}
    (h : Derives c ts e) : e.DistinctKeys := by
  induction h with
  | lift _ _ ih | paren _ ih => exact ih
  | left hd hs _ _ ihl ihr =>
      obtain ⟨op, -, rfl, -⟩ := Operator.of_mem_operators hd hs
      exact op.distinctKeys_apply ihl ihr
  | power _ _ ihl ihr => exact .binary .power ihl ihr
  | sign hs _ ih =>
      obtain ⟨sign, -, rfl⟩ := Sign.of_mem_signs hs
      exact sign.distinctKeys_apply ih
  | number => exact .number _
  | text => exact .literal (.text _)
  | literal h => exact .literal (distinctKeys_of_mem_literals h)
  | name => exact .name _
  | list _ _ ih =>
      refine .list fun e he => ?_
      obtain ⟨m, hm, rfl⟩ := List.mem_map.mp he
      exact ih m hm
  | object _ _ ih =>
      refine .object fun f hf => ?_
      obtain ⟨field, hfield, rfl⟩ := List.mem_map.mp hf
      exact ih field hfield
  | member chars _ ih => exact .member ih _
  | call chars _ _ _ ih iha =>
      refine .call ih _ fun e he => ?_
      obtain ⟨a, ha, rfl⟩ := List.mem_map.mp he
      exact iha a ha
  | index _ _ ih ihi => exact .index ih ihi

/-- **What a source gives has distinct keys**, if what it can refer to has. -/
theorem distinctKeys_evalSource (source : String) {b : Bindings} {env : Environment}
    (hb : b.DistinctKeys) (henv : env.DistinctKeys) :
    Results Item.DistinctKeys (evalSource source b env) := by
  unfold evalSource
  split
  · exact .error
  · next e he =>
      obtain ⟨ts, -, -, hparse⟩ := Expr.ofSource_eq_ok_iff.mp he
      exact .mapError ((Parser.derives_of_parse hparse).distinctKeys.eval hb henv)

/-! ### Stages -/

/-- Commands and modules hand nothing to a sink, and every object that a module exports has distinct
keys. -/
structure Services.DistinctKeys (services : Services) : Prop extends services.Discreet where
  exports : ∀ reference v, (services.load reference).value = .ok v → v.DistinctKeys

/-- Distinct keys are closed under the functions of a stage. -/
theorem Stage.closed_distinctKeys {env : Environment} (henv : env.DistinctKeys) (stage : Stage) :
    Closed env stage Item.DistinctKeys where
  position i := .number (.whole i)
  evaluate source _ hb := (distinctKeys_evalSource source hb henv).mapError
  fault _ _ _ _ _ := Item.distinctKeys_failure
  text s := .text s
  lines texts := by
    refine .list fun v hv => ?_
    obtain ⟨line, -, rfl⟩ := List.mem_map.mp hv
    exact .text line
  missing := .null
  gather _ h := Item.distinctKeys_gather h
  expand _ h := h.expand

theorem Environment.DistinctKeys.bind {env : Environment} (h : env.DistinctKeys) {v : Value}
    (hv : v.DistinctKeys) (name : String) : (env.bind name v).DistinctKeys := by
  intro n w hw
  rw [get?_bind] at hw
  split at hw
  · cases hw
    exact hv
  · exact h n w hw

namespace State

variable {services : Services} {s t : State} {stage : Stage} {events : List Event}

/-- All sequences of the state keep distinct keys, and what names stand for has them. -/
structure DistinctKeys (s : State) : Prop where
  keeps : s.Keeps Item.DistinctKeys (Event.Delivers Item.DistinctKeys)
  env : s.env.DistinctKeys

/-- Only an import changes what names stand for. -/
theorem Move.env_eq (h : Move s stage t)
    (hstage : ∀ reference bound, stage ≠ .importModule reference bound) : t.env = s.env := by
  cases h with
  | produce | disableStacking | suppressPrint => rfl
  | name h =>
      obtain ⟨-, -, _, _, -, rfl⟩ := name_eq_ok h
      rfl
  | drop h =>
      obtain ⟨-, rfl⟩ := drop_eq_ok h
      rfl
  | firstImport | laterImport => exact absurd rfl (hstage _ _)

theorem DistinctKeys.env_of_apply (hs : s.DistinctKeys) (hservices : services.DistinctKeys)
    (h : stage.apply services s = ⟨events, .ok t⟩) : t.env.DistinctKeys := by
  by_cases hstage : ∃ reference bound, stage = .importModule reference bound
  · obtain ⟨reference, bound, rfl⟩ := hstage
    obtain ⟨exports, hload, ht⟩ := Stage.applyImport_eq_ok h
    have hbind := hs.env.bind (hservices.exports reference exports hload) bound
    rcases ht with ⟨-, rfl⟩ | ⟨current, -, rfl⟩ <;> exact hbind
  · have hmove := Stage.move_of_apply h
    rw [hmove.env_eq fun reference bound heq => hstage ⟨reference, bound, heq⟩]
    exact hs.env

/-- **One stage.**  The state behind it has distinct keys, if the state before it has. -/
theorem DistinctKeys.apply (hs : s.DistinctKeys) (hservices : services.DistinctKeys)
    (h : stage.apply services s = ⟨events, .ok t⟩) : t.DistinctKeys where
  keeps := by
    refine (Stage.move_of_apply h).keeps (fun hproduces => ?_) hs.keeps
    exact (Stage.closed_distinctKeys hs.env stage).keeps_input hservices.toDiscreet hs.keeps
      hproduces h
  env := hs.env_of_apply hservices h

theorem distinctKeys_initial {items : Option (List Item)}
    (h : ∀ xs ∈ items, ∀ x ∈ xs, x.DistinctKeys) : (initial items).DistinctKeys where
  keeps q hq := by
    cases items with
    | none => cases hq
    | some xs =>
        cases List.mem_singleton.mp hq
        exact .items (h xs rfl)
  env name v hv := by cases hv

end State

/-! ### Pipelines -/

/-- Stages applied one after the other, each by services of its own that satisfy `S`. -/
inductive AssemblyBy (S : Services → Prop) : State → List Stage → State → Prop where
  | nil (s : State) : AssemblyBy S s [] s
  | cons {services : Services} {stage : Stage} {events : List Event} {s t u : State}
      {stages : List Stage} (hS : S services) (h : stage.apply services s = ⟨events, .ok t⟩)
      (rest : AssemblyBy S t stages u) : AssemblyBy S s (stage :: stages) u

namespace AssemblyBy

variable {S : Services → Prop} {s t : State} {stages : List Stage}

theorem of_applyAll {services : Services} (hS : S services) {events : List Event}
    (h : Stage.applyAll services stages s = ⟨events, .ok t⟩) : AssemblyBy S s stages t := by
  induction stages generalizing s events with
  | nil =>
      cases h
      exact .nil _
  | cons stage stages ih =>
      obtain ⟨_, _, _, hfirst, hrest, -⟩ := Traced.andThen_eq_ok h
      exact .cons hS hfirst (ih hrest)

/-- **Stage after stage.** -/
theorem distinctKeys (h : AssemblyBy Services.DistinctKeys s stages t) (hs : s.DistinctKeys) :
    t.DistinctKeys := by
  induction h with
  | nil => exact hs
  | cons hservices h _ ih => exact ih (hs.apply hservices h)

end AssemblyBy

theorem Plan.Keeps.distinctKeys {plan : Plan Event}
    (h : plan.Keeps Item.DistinctKeys (Event.Delivers Item.DistinctKeys)) : plan.DistinctKeys :=
  h.items_and_events

namespace Interpreter
open Stage

/-- **Keys stay distinct.**  Let every object in what comes from outside have distinct keys, at
every depth.  Then so has every object in what a source gives, in a failure as an object, in the
list of several items and in their gathering, and in all that a pipeline yields or hands to a sink;
the last also where each stage is applied by services of its own, and each call of a run answered by
others.

An object literal has a value iff its fields have.  Its keys stand in the order in which they are
first written, each with the value that is written last. -/
theorem keys_distinct :
    (∀ (source : String) (b : Bindings) (env : Environment) (x : Item), b.DistinctKeys →
      env.DistinctKeys → evalSource source b env = .ok x →
        x.DistinctKeys ∧ x.toValue.DistinctKeys) ∧
    (∀ e : Failure, e.DistinctKeys → e.toValue.DistinctKeys) ∧
    (∀ xs : List Item, (∀ x ∈ xs, x.DistinctKeys) →
      (Value.list (xs.map Item.toValue)).DistinctKeys ∧ (Item.gather xs).DistinctKeys) ∧
    (∀ (tokens : List String) (initial : Option (List Item)),
      (∀ xs ∈ initial, ∀ x ∈ xs, x.DistinctKeys) →
        (∀ (services : Services) (events : List Event) (out : Output), services.DistinctKeys →
          run services tokens initial = ⟨events, .ok out⟩ →
            (∀ event ∈ events, event.Delivers Item.DistinctKeys) ∧ out.plan.DistinctKeys) ∧
        ∀ plan : Plan Event,
          plan.Mixture (fun p => ∃ s,
            AssemblyBy Services.DistinctKeys (.initial initial) (stagesOf tokens) s ∧
              p = s.input) → plan.DistinctKeys) ∧
    ∀ (b : Bindings) (env : Environment) (fields : List (String × Expr)),
      (∀ x, (Expr.object fields).eval b env = .ok x →
        ∃ written, List.Forall₂ (Expr.Gives b env) fields written) ∧
      ∀ written, List.Forall₂ (Expr.Gives b env) fields written →
        ∃ out, (Expr.object fields).eval b env = .ok (.value (.object out)) ∧
          out.map (·.1) = (fields.map (·.1)).eraseDups ∧
          ∀ key, Value.field? out key = written.reverse.lookup key := by
  refine ⟨fun source b env x hb henv hx => ?_, fun e he => he.toValue, fun xs hxs => ?_,
    fun tokens initial hinitial => ⟨fun services events out hservices h => ?_, fun plan h => ?_⟩,
    fun b env fields => ⟨fun x hx => ?_, fun written hwritten => ?_⟩⟩
  · have hdistinct := distinctKeys_evalSource source hb henv x hx
    exact ⟨hdistinct, hdistinct.toValue⟩
  · exact ⟨Item.distinctKeys_list hxs, Item.distinctKeys_gather hxs⟩
  · obtain ⟨s, hs, rfl⟩ := run_eq_ok h
    have happly := (runFrom_eq_ok hs).2
    have hstate := (AssemblyBy.of_applyAll hservices happly).distinctKeys
      (State.distinctKeys_initial hinitial)
    refine ⟨fun event hevent => ?_, hstate.keeps.input.distinctKeys⟩
    exact Event.delivers_of_not_delivered
      (not_delivered_of_applyAll hservices.toDiscreet happly event hevent)
  · refine (h.keeps fun p ⟨s, hs, hp⟩ => ?_).distinctKeys
    rw [hp]
    exact (hs.distinctKeys (State.distinctKeys_initial hinitial)).keeps.input
  · obtain ⟨written, hwritten, -⟩ := Expr.eval_object_eq_ok_iff.mp hx
    exact ⟨written, hwritten⟩
  · refine ⟨_, Expr.eval_object_eq_ok_iff.mpr ⟨written, hwritten, rfl⟩, ?_, fun key => ?_⟩
    · have hnone : (([] : List (String × Value)).map (·.1)).Nodup := List.nodup_nil
      rw [Value.keys_setFields hnone, Expr.keys_of_gives hwritten]
      rfl
    · rw [Value.field?, Value.lookup_setFields, List.append_nil]

/-- An object that writes the key `a` twice. -/
def repeated : String := "\x7b a : x , b : x , a : y \x7d"

/-- Its tokens, with the blanks behind them. -/
def repeatedParts : List (Token × List Char) :=
  [(.symbol .openBrace, [' ']), (.name ['a'], [' ']), (.symbol .colon, [' ']), (.name ['x'], [' ']),
    (.symbol .comma, [' ']), (.name ['b'], [' ']), (.symbol .colon, [' ']), (.name ['x'], [' ']),
    (.symbol .comma, [' ']), (.name ['a'], [' ']), (.symbol .colon, [' ']), (.name ['y'], [' ']),
    (.symbol .closeBrace, [])]

theorem lex_repeated : Token.lex repeated.toList = .ok (repeatedParts.map (·.1)) := by
  have hsource : repeated.toList = Token.spread [] repeatedParts := rfl
  have hname : ∀ c : Char, Token.isNameStart c = true → (Token.name [c]).Valid :=
    fun c hc => ⟨c, [], rfl, hc, List.forall_mem_nil _⟩
  have hvalid : ∀ part ∈ repeatedParts, part.1.Valid := by
    simp only [repeatedParts, List.forall_mem_cons]
    exact ⟨trivial, hname 'a' rfl, trivial, hname 'x' rfl, trivial, hname 'b' rfl, trivial,
      hname 'x' rfl, trivial, hname 'a' rfl, trivial, hname 'y' rfl, trivial,
      List.forall_mem_nil _⟩
  have hblank : ∀ part ∈ repeatedParts, Text.Blank part.2 := by decide
  rw [hsource]
  refine Token.lex_of_cut (Token.cut_spread (by decide) ?_ (by decide)) (by decide)
  exact fun part hpart => ⟨hvalid part hpart, hblank part hpart⟩

theorem ofSource_repeated : Expr.ofSource repeated =
    .ok (.object [("a", .name "x"), ("b", .name "x"), ("a", .name "y")]) :=
  Expr.ofSource_eq_ok_iff.mpr ⟨_, by decide, lex_repeated, rfl⟩

/-- Services whose modules all export an object. -/
def exporting : Services :=
  ⟨Services.commandsBy fun _ => .ok [], Services.modulesBy fun _ => .ok (.object [("k", .null)])⟩

theorem distinctKeys_exporting : exporting.DistinctKeys where
  toDiscreet := Services.discreet_by _ _
  exports reference v hv := by
    cases hv
    exact .object (List.nodup_singleton "k") (List.forall_mem_singleton.mpr .null)

/-- The plan of the object, for one item and with what is imported. -/
def repeatedPlan : Plan Event :=
  evaluatePlan (some (.items [.value (.list [])])) (Host.prepare exporting (.source repeated))
    (Environment.empty.bind "y" (.object [("k", .null)]))

theorem items_repeated : repeatedPlan.trace.items =
    [.value (.object [("a", .object [("k", .null)]), ("b", .list [])])] := by
  simp only [repeatedPlan, Plan.trace, evaluatePlan, Plan.run, Trace.items_map,
    Trace.items_ofItems, List.zipIdx_cons, List.zipIdx_nil, List.map_cons, List.map_nil,
    Traced.value_pure]
  exact congrArg (fun x => [x]) (call_prepare_of_ofSource ofSource_repeated rfl)

theorem readAll_repeated : readAll ["-i", "m", "y", "-j", repeated] =
    ([(.importModule "m" "y", 3), (.evaluate (.source repeated), 2)], none) := by
  decide +kernel

/-- The key that stands twice keeps its place, and has the value that is written last. -/
theorem keys_distinct_repeated :
    ∃ out, run exporting ["-i", "m", "y", "-j", repeated] (some [.value (.list [])]) =
        ⟨[.load "m"], .ok out⟩ ∧
      out.plan.trace.items =
        [.value (.object [("a", .object [("k", .null)]), ("b", .list [])])] ∧
      out.plan.DistinctKeys := by
  have hrun : run exporting ["-i", "m", "y", "-j", repeated] (some [.value (.list [])]) =
      ⟨[.load "m"], .ok _⟩ := run_of_readAll readAll_repeated rfl
  have hinitial : ∀ xs ∈ some [Item.value (.list [])], ∀ x ∈ xs, x.DistinctKeys := by
    intro xs hxs
    cases hxs
    exact List.forall_mem_singleton.mpr (.list (List.forall_mem_nil _))
  obtain ⟨-, -, -, hpipelines, -⟩ := keys_distinct
  obtain ⟨hbuilt, -⟩ := hpipelines _ _ hinitial
  obtain ⟨-, hplan⟩ := hbuilt _ _ _ distinctKeys_exporting hrun
  exact ⟨_, hrun, items_repeated, hplan⟩

end Interpreter

end Pipeline
