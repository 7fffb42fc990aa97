import Pipeline.Proofs.Accounts
import Pipeline.Stage.Apply

/-!
# Mentions — what a phrase can see of its environment

An expression looks up names, and sees its environment through them alone (`Expr.eval_congr`).  The
names it looks up are among the tokens that it was read from (`Grammar.Derives.mem_of_mem_names`).
So what a source gives is settled by the aliases that it mentions (`evalSource_congr`), and the same
holds of a prepared phrase (`Prepared.call_congr`) and of a command with its holes
(`PreparedCommand.fill_congr`).
-/

namespace Pipeline

/-! ### The names of an expression -/

namespace Expr

mutual

/-- The names that an expression looks up. -/
def names : Expr → List String
  | .number _ | .literal _ => []
  | .name s => [s]
  | .list members => namesAll members
  | .object fields => namesFields fields
  | .negate e | .not e | .member e _ => names e
  | .binary _ left right | .both left right | .either left right | .index left right =>
    names left ++ names right
  | .call target _ args => names target ++ namesAll args

/-- The names that several expressions look up. -/
def namesAll : List Expr → List String
  | [] => []
  | e :: es => names e ++ namesAll es

/-- The names that the fields of an object look up. -/
def namesFields : List (String × Expr) → List String
  | [] => []
  | (_, e) :: fields => names e ++ namesFields fields

end

theorem mem_namesAll {n : String} {es : List Expr} : n ∈ namesAll es ↔ ∃ e ∈ es, n ∈ e.names := by
  induction es with
  | nil => simp [namesAll]
  | cons e es ih => simp [namesAll, ih]

theorem mem_namesFields {n : String} {fields : List (String × Expr)} :
    n ∈ namesFields fields ↔ ∃ field ∈ fields, n ∈ field.2.names := by
  induction fields with
  | nil => simp [namesFields]
  | cons field fields ih => simp [namesFields, ih]

/-! ### Evaluation sees names -/

variable {b : Bindings} {env env' : Environment}

theorem lookup_congr {n : String} (h : env.get? n = env'.get? n) :
    lookup b env n = lookup b env' n := by
  rw [lookup, lookup, h]

mutual

/-- **An expression sees its environment through its names.** -/
theorem eval_congr : ∀ e : Expr, (∀ n ∈ e.names, env.get? n = env'.get? n) →
    e.eval b env = e.eval b env'
  | .number _, _ | .literal _, _ => rfl
  | .name s, h => by
      rw [eval, eval]
      exact lookup_congr (h s (by simp [names]))
  | .list members, h => by
      rw [names] at h
      rw [eval, eval, evalAll_congr members h]
  | .object fields, h => by
      rw [names] at h
      rw [eval, eval, evalFields_congr fields [] h]
  | .negate e, h | .not e, h | .member e _, h => by
      rw [names] at h
      rw [eval, eval, eval_congr e h]
  | .binary _ left right, h | .both left right, h | .either left right, h
  | .index left right, h => by
      rw [names, List.forall_mem_append] at h
      rw [eval, eval, eval_congr left h.1, eval_congr right h.2]
  | .call target _ args, h => by
      rw [names, List.forall_mem_append] at h
      rw [eval, eval, eval_congr target h.1, evalAll_congr args h.2]

theorem evalAll_congr : ∀ es : List Expr, (∀ n ∈ namesAll es, env.get? n = env'.get? n) →
    evalAll b env es = evalAll b env' es
  | [], _ => rfl
  | e :: es, h => by
      rw [namesAll, List.forall_mem_append] at h
      rw [evalAll, evalAll, eval_congr e h.1, evalAll_congr es h.2]

theorem evalFields_congr : ∀ (fields : List (String × Expr)) (done : List (String × Value)),
    (∀ n ∈ namesFields fields, env.get? n = env'.get? n) →
      evalFields b env done fields = evalFields b env' done fields
  | [], _, _ => rfl
  | (key, e) :: fields, done, h => by
      rw [namesFields, List.forall_mem_append] at h
      rw [evalFields, evalFields, eval_congr e h.1]
      congr 1
      funext item
      congr 1
      funext v
      exact evalFields_congr fields _ h.2

end

end Expr

/-! ### The names of an expression are tokens of its source -/

theorem Operator.names_apply (op : Operator) (left right : Expr) :
    (op.apply left right).names = left.names ++ right.names := by
  cases op <;> simp only [apply, Expr.names]

theorem Sign.names_apply (sign : Sign) (e : Expr) : (sign.apply e).names = e.names := by
  cases sign <;> simp only [apply, Expr.names, id]

namespace Grammar

theorem Separated.mem {parts : List (List Token)} {inner : List Token} (h : Separated parts inner)
    {part : List Token} (hp : part ∈ parts) {t : Token} (ht : t ∈ part) : t ∈ inner := by
  induction h with
  | nothing => cases hp
  | last => rwa [List.mem_singleton.mp hp] at ht
  | comma first _ ih =>
      rcases List.mem_cons.mp hp with rfl | hp
      · exact List.mem_append_left _ ht
      · exact List.mem_append_right _ (List.mem_cons_of_mem _ (ih hp))

/-- **A name that is looked up is a token.** -/
theorem Derives.mem_of_mem_names {c : Category} {ts : List Token} {e : Expr}
    (h : Derives c ts e) {n : String} (hn : n ∈ e.names) : .name n.toList ∈ ts := by
  induction h with
  | lift _ _ ih => exact ih hn
  | left hd hs _ _ ihl ihr =>
      obtain ⟨op, -, rfl, -⟩ := Operator.of_mem_operators hd hs
      rw [Operator.names_apply, List.mem_append] at hn
      rcases hn with hn | hn
      · exact List.mem_append_left _ (ihl hn)
      · exact List.mem_append_right _ (List.mem_cons_of_mem _ (ihr hn))
  | power _ _ ihl ihr =>
      rw [Expr.names, List.mem_append] at hn
      rcases hn with hn | hn
      · exact List.mem_append_left _ (ihl hn)
      · exact List.mem_append_right _ (List.mem_cons_of_mem _ (ihr hn))
  | sign hs _ ih =>
      obtain ⟨sign, -, rfl⟩ := Sign.of_mem_signs hs
      rw [Sign.names_apply] at hn
      exact List.mem_cons_of_mem _ (ih hn)
  | number | text | literal =>
      rw [Expr.names] at hn
      cases hn
  | name =>
      rw [Expr.names, List.mem_singleton] at hn
      rw [hn, String.toList_ofList]
      exact List.mem_singleton_self _
  | list _ hs ihm =>
      rw [Expr.names, Expr.mem_namesAll] at hn
      obtain ⟨_, he, hn⟩ := hn
      obtain ⟨m, hm, rfl⟩ := List.mem_map.mp he
      have hinner := hs.mem (List.mem_map_of_mem hm) (ihm m hm hn)
      exact List.mem_cons_of_mem _ (List.mem_append_left _ hinner)
  | object _ hs ihf =>
      rw [Expr.names, Expr.mem_namesFields] at hn
      obtain ⟨_, he, hn⟩ := hn
      obtain ⟨f, hf, rfl⟩ := List.mem_map.mp he
      -- the value of a field stands behind its key and the colon
      have hwritten : Token.name n.toList ∈ f.written :=
        List.mem_cons_of_mem _ (List.mem_cons_of_mem _ (ihf f hf hn))
      have hinner := hs.mem (List.mem_map_of_mem hf) hwritten
      exact List.mem_cons_of_mem _ (List.mem_append_left _ hinner)
  | paren _ ih => exact List.mem_cons_of_mem _ (List.mem_append_left _ (ih hn))
  | member _ _ ih =>
      rw [Expr.names] at hn
      exact List.mem_append_left _ (ih hn)
  | call _ _ _ hs ih iha =>
      rw [Expr.names, List.mem_append, Expr.mem_namesAll] at hn
      rcases hn with hn | ⟨_, he, hn⟩
      · exact List.mem_append_left _ (ih hn)
      · obtain ⟨a, ha, rfl⟩ := List.mem_map.mp he
        have hinner := hs.mem (List.mem_map_of_mem ha) (iha a ha hn)
        simp [hinner]
  | index _ _ ih ihi =>
      rw [Expr.names, List.mem_append] at hn
      rcases hn with hn | hn
      · exact List.mem_append_left _ (ih hn)
      · have hinner := ihi hn
        simp [hinner]

end Grammar

/-- A name is one of the tokens of a source. -/
def sourceMentions (source name : String) : Bool :=
  match Token.lex source.toList with
  | .ok ts => ts.contains (.name name.toList)
  | .error _ => false

theorem sourceMentions_of_mem_names {source : String} {e : Expr}
    (h : Expr.ofSource source = .ok e) {n : String} (hn : n ∈ e.names) :
    sourceMentions source n = true := by
  unfold Expr.ofSource at h
  unfold sourceMentions
  split at h
  · cases h
  · cases h
  · next ts hne hlex =>
      rw [hlex]
      cases hp : Parser.parse ts with
      | error found => rw [hp] at h; cases h
      | ok e' =>
          rw [hp] at h
          cases h
          exact List.contains_iff_mem.mpr ((Parser.derives_of_parse hp).mem_of_mem_names hn)

/-! ### Sources, phrases and commands -/

section Congruence

variable {env env' : Environment}

/-- **A source sees its environment through the names it mentions.** -/
theorem evalSource_congr {source : String}
    (h : ∀ n, sourceMentions source n = true → env.get? n = env'.get? n) (b : Bindings) :
    evalSource source b env = evalSource source b env' := by
  unfold evalSource
  split
  · rfl
  · next e he =>
      rw [Expr.eval_congr e fun n hn => h n (sourceMentions_of_mem_names he hn)]

/-- The phrase is a source that mentions the name. -/
def Phrase.mentions (name : String) : Phrase → Bool
  | .source text => sourceMentions text name
  | .quoted _ => false

/-- The phrase is a command with a hole that mentions the name. -/
def Phrase.holesMention (name : String) : Phrase → Bool
  | .quoted _ => false
  | .source text =>
    match Template.read text with
    | .ok template => template.holes.any (sourceMentions · name)
    | .error _ => false

theorem Prepared.call_congr {phrase : Phrase}
    (h : ∀ n, phrase.mentions n = true → env.get? n = env'.get? n) (b : Bindings) :
    (Prepared.ofPhrase .standard phrase).call env b =
      (Prepared.ofPhrase .standard phrase).call env' b := by
  cases phrase with
  | quoted tokens => rfl
  | source s =>
      rw [ofPhrase]
      split
      · simp only [call, Evaluator.standard, evalSource_congr h]
      · rfl

theorem mapM_congr {δ α β : Type} {f g : α → Except δ β} {xs : List α} (h : ∀ x ∈ xs, f x = g x) :
    xs.mapM f = xs.mapM g := by
  induction xs with
  | nil => rfl
  | cons x xs ih =>
      rw [List.forall_mem_cons] at h
      rw [List.mapM_cons, List.mapM_cons, h.1, ih h.2]

theorem Template.render_congr {t : Template}
    (h : ∀ hole ∈ t.holes, ∀ n, sourceMentions hole n = true → env.get? n = env'.get? n)
    (b : Bindings) : t.render b env .standard = t.render b env' .standard := by
  have hsegment : ∀ segment ∈ t.segments,
      renderSegment .standard b env segment = renderSegment .standard b env' segment := by
    intro segment hmem
    cases segment with
    | literal text => rfl
    | hole raw =>
        have hhole : Segment.source raw ∈ t.holes := List.mem_filterMap.mpr ⟨_, hmem, rfl⟩
        simp only [renderSegment, Evaluator.standard, evalSource_congr (h _ hhole)]
  rw [render, render, mapM_congr hsegment]

theorem PreparedCommand.fill_congr {phrase : Phrase}
    (h : ∀ n, phrase.holesMention n = true → env.get? n = env'.get? n) (b : Bindings) :
    (PreparedCommand.ofPhrase .standard phrase).fill env b =
      (PreparedCommand.ofPhrase .standard phrase).fill env' b := by
  cases phrase with
  | quoted tokens => rfl
  | source s =>
      cases hread : Template.read s with
      | error unclosed =>
          simp only [fill, ofPhrase, hread]
          rfl
      | ok template =>
          have hholes : ∀ hole ∈ template.holes, ∀ n, sourceMentions hole n = true →
              env.get? n = env'.get? n := by
            intro hole hmem n hn
            refine h n ?_
            rw [Phrase.holesMention, hread]
            exact List.any_eq_true.mpr ⟨hole, hmem, hn⟩
          simp only [fill, ofPhrase, hread]
          show Except.mapError _ (template.render b env .standard) = _
          rw [Template.render_congr hholes]
          rfl

end Congruence

end Pipeline
