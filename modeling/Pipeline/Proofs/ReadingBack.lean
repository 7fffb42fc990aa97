import Mathlib.Data.List.Forall2
import Pipeline.Proofs.Parsing
import Pipeline.Proofs.Registry
import Pipeline.Proofs.Whole

/-!
# Reading back — written values are expressions

The written form of a value is an expression of the language, though the two grammars are not the
same: a value has escapes in its texts, and numbers of many forms; an expression has texts without
escapes, and a sign before a number is an operator.  Where a value is plain (`Value.Plain`) they
meet: no character of its texts and keys needs an escape, its numbers are whole and exact, and no
key of an object stands twice.

`Reads v ts e` says that the written form of `v` is cut into the tokens `ts`, which derive the
expression `e`, which evaluates to `v`.  It is built up with the value: what is written between
commas is cut part by part (`Cuts.intercalate`) and derived part by part
(`Grammar.separated_intercalate`), and fields with distinct keys are set one behind the other
(`Expr.evalFields_eq`).

**Written values read back** (`Value.Plain.reads_back`).
-/

namespace Pipeline

/-! ### Texts that are cut into tokens -/

namespace Token

/-- What can stand behind a value in a written form. -/
def Closes (rest : List Char) : Prop := ∀ c ∈ rest.head?, c = ',' ∨ c = ']' ∨ c = '}'

theorem Closes.endsBefore {rest : List Char} (h : Closes rest) (t : Token) : t.EndsBefore rest := by
  intro c hc
  rcases h c hc with rfl | rfl | rfl <;>
    cases t with
    | number | text | name => rfl
    | symbol s => cases s <;> rfl

/-- In front of what closes a value, the text is cut into the tokens. -/
def Cuts (cs : List Char) (ts : List Token) : Prop :=
  ∀ rest : List Char, Closes rest → cut (cs ++ rest) = (cut rest).map (ts ++ ·)

namespace Cuts

theorem nil : Cuts [] [] := by
  intro rest _
  rw [List.nil_append]
  cases cut rest <;> rfl

theorem append {cs ds : List Char} {ts us : List Token} (h : Cuts cs ts) (h' : Cuts ds us)
    (hclose : ∀ rest : List Char, Closes rest → Closes (ds ++ rest)) :
    Cuts (cs ++ ds) (ts ++ us) := by
  intro rest hrest
  rw [List.append_assoc, h _ (hclose rest hrest), h' rest hrest]
  cases cut rest with
  | error e => rfl
  | ok rs => simp [Except.map]

theorem token {t : Token} (ht : t.Valid) : Cuts t.spelling [t] :=
  fun _ hrest => cut_spelling ht (hrest.endsBefore t)

/-- A token that nothing can extend may stand before anything. -/
theorem behind {t : Token} (ht : t.Valid) (hend : ∀ c, t.extends? c = false) {cs : List Char}
    {ts : List Token} (h : Cuts cs ts) : Cuts (t.spelling ++ cs) (t :: ts) := by
  intro rest hrest
  rw [List.append_assoc, cut_spelling ht fun c _ => hend c, h rest hrest]
  cases cut rest <;> rfl

/-- **What stands between commas** is cut part by part. -/
theorem intercalate {css : List (List Char)} {tss : List (List Token)}
    (h : List.Forall₂ Cuts css tss) :
    Cuts ([','].intercalate css) ([.symbol .comma].intercalate tss) := by
  induction h with
  | nil => exact nil
  | cons hfirst hrest ih =>
      cases hrest with
      | nil => rwa [List.intercalate_singleton, List.intercalate_singleton]
      | cons hnext hrest =>
          rw [List.intercalate_cons_cons, List.intercalate_cons_cons, List.append_assoc,
            List.append_assoc]
          refine hfirst.append (behind (t := .symbol .comma) trivial (fun _ => rfl) ih) ?_
          intro rest _ c hc
          cases hc
          exact .inl rfl

end Cuts

end Token

namespace Grammar

theorem separated_intercalate :
    ∀ parts : List (List Token), Separated parts ([.symbol .comma].intercalate parts)
  | [] => .nothing
  | [part] => by
      rw [List.intercalate_singleton]
      exact .last part
  | part :: next :: parts => by
      rw [List.intercalate_cons_cons, List.append_assoc]
      exact .comma part (separated_intercalate (next :: parts))

theorem Derives.ne_nil {c : Category} {ts : List Token} {e : Expr} (h : Derives c ts e) :
    ts ≠ [] := by
  induction h with
  | lift _ _ ih => exact ih
  | _ => simp

end Grammar

namespace Value

/-! ### The written form of lists and objects -/

/-- The written form of a field. -/
def entryChars (field : String × Value) : List Char := quote field.1 ++ ':' :: chars field.2

theorem intercalate_chars : ∀ (x : Value) (xs : List Value),
    [','].intercalate ((x :: xs).map chars) = chars x ++ memberChars xs
  | x, [] => by
      rw [List.map_singleton, List.intercalate_singleton, memberChars, List.append_nil]
  | x, y :: ys => by
      rw [List.map_cons, List.map_cons, List.intercalate_cons_cons, ← List.map_cons,
        intercalate_chars y ys, memberChars]
      simp

theorem intercalate_entryChars : ∀ (f : String × Value) (fs : List (String × Value)),
    [','].intercalate ((f :: fs).map entryChars) = entryChars f ++ fieldChars fs
  | f, [] => by
      rw [List.map_singleton, List.intercalate_singleton, fieldChars, List.append_nil]
  | f, (key, v) :: fs => by
      rw [List.map_cons, List.map_cons, List.intercalate_cons_cons, ← List.map_cons,
        intercalate_entryChars (key, v) fs, fieldChars]
      simp [entryChars]

theorem chars_list (members : List Value) :
    (Value.list members).chars = '[' :: ([','].intercalate (members.map chars) ++ [']']) := by
  cases members with
  | nil => rfl
  | cons x xs =>
      rw [intercalate_chars, chars]
      simp

theorem chars_object (fields : List (String × Value)) :
    (Value.object fields).chars = '{' :: ([','].intercalate (fields.map entryChars) ++ ['}']) := by
  cases fields with
  | nil => rfl
  | cons f fs =>
      obtain ⟨key, v⟩ := f
      rw [intercalate_entryChars, chars]
      simp [entryChars]

/-! ### Plain values -/

/-- No character of the text is escaped where it is written. -/
def PlainText (s : String) : Prop := ∀ c ∈ s.toList, c ≠ '"' ∧ c ≠ '\\' ∧ 0x20 ≤ c.toNat

instance (s : String) : Decidable (PlainText s) :=
  List.decidableBAll (fun c => c ≠ '"' ∧ c ≠ '\\' ∧ 0x20 ≤ c.toNat) s.toList

theorem quote_of_plainText {s : String} (h : PlainText s) :
    quote s = (Token.text .double s.toList).spelling := by
  have hescape : ∀ c ∈ s.toList, escapeChar c = [c] := by
    intro c hc
    obtain ⟨hquote, hslash, hcontrol⟩ := h c hc
    have hne : ∀ d : Char, d.toNat < 0x20 → c ≠ d := by
      rintro d hd rfl
      omega
    rw [escapeChar, if_neg hquote, if_neg hslash, if_neg (by omega), if_neg (hne '\t' (by decide)),
      if_neg (hne '\n' (by decide)), if_neg (by omega), if_neg (hne '\r' (by decide)),
      if_neg (by omega)]
  rw [quote, List.flatMap_congr hescape, List.flatMap_singleton']
  rfl

theorem valid_text_of_plainText {s : String} (h : PlainText s) :
    (Token.text .double s.toList).Valid :=
  fun hmem => (h _ hmem).1 rfl

/-- The texts and keys of the value need no escapes, its numbers are whole and exact, and no key of
an object stands twice. -/
inductive Plain : Value → Prop where
  | null : Plain .null
  | bool (b : Bool) : Plain (.bool b)
  | whole {i : Int} (h : i.natAbs ≤ exactMax) : Plain (.whole i)
  | text {s : String} (h : PlainText s) : Plain (.text s)
  | list {members : List Value} (h : ∀ v ∈ members, Plain v) : Plain (.list members)
  | object {fields : List (String × Value)} (hkeys : ∀ f ∈ fields, PlainText f.1)
      (hdistinct : (fields.map (·.1)).Nodup) (h : ∀ f ∈ fields, Plain f.2) : Plain (.object fields)

/-! ### Fields with distinct keys -/

theorem setField_of_not_mem {key : String} (v : Value) {fields : List (String × Value)}
    (h : key ∉ fields.map (·.1)) : setField key v fields = fields ++ [(key, v)] := by
  induction fields with
  | nil => rfl
  | cons field fields ih =>
      obtain ⟨k, old⟩ := field
      rw [List.map_cons, List.mem_cons, not_or] at h
      rw [setField, if_neg (Ne.symm h.1), ih h.2, List.cons_append]

end Value

open Grammar (Derives Field)

/-- The written form of the value is cut into the tokens, which derive the expression, which
evaluates to the value. -/
structure Reads (v : Value) (ts : List Token) (e : Expr) : Prop where
  cuts : Token.Cuts v.chars ts
  derives : Derives .signed ts e
  eval : ∀ (b : Bindings) (env : Environment), e.eval b env = .ok (.value v)

section Parts

variable {α β : Type} {R : α → β → Prop} {xs : List α} {ys : List β}

theorem exists_forall₂ (h : ∀ x ∈ xs, ∃ y, R x y) : ∃ ys, List.Forall₂ R xs ys := by
  induction xs with
  | nil => exact ⟨[], .nil⟩
  | cons x xs ih =>
      rw [List.forall_mem_cons] at h
      obtain ⟨y, hy⟩ := h.1
      obtain ⟨ys, hys⟩ := ih h.2
      exact ⟨y :: ys, .cons hy hys⟩

theorem forall_mem_of_forall₂ {P : β → Prop} (h : List.Forall₂ R xs ys)
    (hP : ∀ x y, R x y → P y) : ∀ y ∈ ys, P y := by
  induction h with
  | nil => nofun
  | cons hfirst _ ih => exact List.forall_mem_cons.mpr ⟨hP _ _ hfirst, ih⟩

end Parts

namespace Expr

theorem eval_negate {b : Bindings} {env : Environment} {e : Expr} {v : Value} {x : Binary64}
    (he : e.eval b env = .ok (.value v)) (hv : v.toBinary = .ok x) :
    (Expr.negate e).eval b env = (Value.ofBinary x.neg).map .value := by
  rw [eval, he]
  simp only [bind, Except.bind, asValue, hv]
  cases Value.ofBinary x.neg <;> rfl

theorem evalAll_eq (b : Bindings) (env : Environment) {members : List Value}
    {parts : List (List Token × Expr)}
    (h : List.Forall₂ (fun v m => Reads v m.1 m.2) members parts) :
    evalAll b env (parts.map (·.2)) = .ok members := by
  induction h with
  | nil => rfl
  | cons hfirst _ ih =>
      rw [List.map_cons, evalAll, hfirst.eval, ih]
      rfl

/-- Fields with distinct keys are set one behind the other. -/
theorem evalFields_eq (b : Bindings) (env : Environment) (done : List (String × Value))
    {fields : List (String × Value)} {parts : List Field}
    (h : List.Forall₂ (fun f m => m.name = f.1 ∧ Reads f.2 m.tokens m.tree) fields parts)
    (hdistinct : ((done ++ fields).map (·.1)).Nodup) :
    evalFields b env done (parts.map Field.entry) = .ok (done ++ fields) := by
  induction h generalizing done with
  | nil => rw [List.append_nil]; rfl
  | @cons f m fields parts hfirst _ ih =>
      obtain ⟨key, v⟩ := f
      obtain ⟨rfl, hreads⟩ := hfirst
      have hnew : m.name ∉ done.map (·.1) := by
        intro hmem
        rw [List.map_append, List.nodup_append] at hdistinct
        exact hdistinct.2.2 _ hmem _ (List.mem_cons_self ..) rfl
      rw [List.map_cons, Field.entry, evalFields, hreads.eval]
      show evalFields b env (Value.setField m.name v done) _ = _
      rw [List.append_cons] at hdistinct
      rw [Value.setField_of_not_mem v hnew, ih _ hdistinct, List.append_assoc]
      rfl

end Expr

namespace Reads

/-! ### Value by value -/

theorem literal {v : Value} (hv : (v.json, v) ∈ Grammar.literals)
    (hname : (Token.name v.chars).Valid) : Reads v [.name v.chars] (.literal v) where
  cuts := .token hname
  derives := .lift rfl (.literal hv)
  eval _ _ := rfl

theorem null : Reads .null [.name Value.null.chars] (.literal .null) :=
  literal (.tail _ (.tail _ (.head _))) ⟨_, _, rfl, rfl, List.all_eq_true.mp rfl⟩

theorem bool (b : Bool) : Reads (.bool b) [.name (Value.bool b).chars] (.literal (.bool b)) := by
  cases b with
  | true => exact literal (.head _) ⟨_, _, rfl, rfl, List.all_eq_true.mp rfl⟩
  | false => exact literal (.tail _ (.head _)) ⟨_, _, rfl, rfl, List.all_eq_true.mp rfl⟩

theorem text {s : String} (h : Value.PlainText s) :
    Reads (.text s) [.text .double s.toList] (.literal (.text s)) where
  cuts := by
    rw [Value.chars, Value.quote_of_plainText h]
    exact .token (Value.valid_text_of_plainText h)
  derives := by
    have hderives := Derives.text .double s.toList
    rw [String.ofList_toList] at hderives
    exact .lift rfl hderives
  eval _ _ := rfl

theorem whole {i : Int} (h : i.natAbs ≤ Value.exactMax) : ∃ ts e, Reads (.whole i) ts e := by
  have hnumber : Token.numberValue (Decimal.wholeDigits i.natAbs) [] = .round false i.natAbs 1 :=
    Token.numberValue_wholeDigits h
  have hvalid := Token.valid_wholeDigits i.natAbs
  have hcuts : Token.Cuts (Decimal.wholeDigits i.natAbs)
      [.number (Decimal.wholeDigits i.natAbs) []] := by
    have hcuts := Token.Cuts.token hvalid
    rwa [Token.spelling, List.isEmpty_nil, if_pos rfl, List.append_nil] at hcuts
  have hderives : Derives .signed [.number (Decimal.wholeDigits i.natAbs) []]
      (.number (.round false i.natAbs 1)) := by
    rw [← hnumber]
    exact .lift rfl (.number _ _)
  have heval : ∀ (b : Bindings) (env : Environment),
      (Expr.number (.round false i.natAbs 1)).eval b env = .ok (.value (.whole i.natAbs)) := by
    intro b env
    rw [Expr.eval, Value.ofBinary_round h]
    rfl
  by_cases hi : i < 0
  · -- a negative number is read as the negation of its magnitude
    refine ⟨.symbol .minus :: _, .negate _, ?_, .sign (by simp [Grammar.signs]) hderives, ?_⟩
    · rw [Value.whole, Value.chars, Number.chars, Number.wholeChars, if_pos hi]
      exact .behind (t := .symbol .minus) trivial (fun _ => rfl) hcuts
    · intro b env
      rw [Expr.eval_negate (heval b env) (Value.toBinary_whole _), Value.ofBinary_neg_round h,
        Int.ofNat_natAbs_of_nonpos (Int.le_of_lt hi), Int.neg_neg]
      rfl
  · refine ⟨_, _, ?_, hderives, ?_⟩
    · rw [Value.whole, Value.chars, Number.chars, Number.wholeChars, if_neg hi]
      exact hcuts
    · intro b env
      rw [heval, Int.natAbs_of_nonneg (Int.not_lt.mp hi)]

/-- What stands in brackets, and closes as it opens. -/
theorem cuts_enclosed {opening closing : Symbol} {o c : Char} {cs : List Char} {ts : List Token}
    (ho : opening.chars = [o]) (hc : closing.chars = [c])
    (hopen : ∀ d, (Token.symbol opening).extends? d = false)
    (hclose : c = ']' ∨ c = '}') (h : Token.Cuts cs ts) :
    Token.Cuts (o :: (cs ++ [c])) (.symbol opening :: (ts ++ [.symbol closing])) := by
  have hclosing : Token.Cuts [c] [.symbol closing] := hc ▸ .token (t := .symbol closing) trivial
  have hinner : Token.Cuts (cs ++ [c]) (ts ++ [.symbol closing]) := by
    refine h.append hclosing fun rest _ d hd => ?_
    cases hd
    exact .inr hclose
  have hall := Token.Cuts.behind (t := .symbol opening) trivial hopen hinner
  rwa [Token.spelling, ho] at hall

/-- **Lists** are read member by member. -/
theorem list {members : List Value} {parts : List (List Token × Expr)}
    (h : List.Forall₂ (fun v m => Reads v m.1 m.2) members parts) :
    ∃ ts, Reads (.list members) ts (.list (parts.map (·.2))) := by
  have hcuts : List.Forall₂ Token.Cuts (members.map Value.chars) (parts.map (·.1)) := by
    rw [List.forall₂_map_left_iff, List.forall₂_map_right_iff]
    exact h.imp fun _ _ hreads => hreads.cuts
  have hparts : ∀ m ∈ parts, Derives .disjunction m.1 m.2 :=
    forall_mem_of_forall₂ h fun _ _ hreads => hreads.derives.loosen (by decide)
  refine ⟨_, ?_, .lift rfl (.list hparts (Grammar.separated_intercalate _)), ?_⟩
  · rw [Value.chars_list]
    exact cuts_enclosed rfl rfl (fun _ => rfl) (.inl rfl) (.intercalate hcuts)
  · intro b env
    rw [Expr.eval, Expr.evalAll_eq b env h]
    rfl

/-- A field under a key that is written as it is. -/
theorem field {f : String × Value} (hkey : Value.PlainText f.1)
    (h : ∃ ts e, Reads f.2 ts e) :
    ∃ m : Field, Token.Cuts (Value.entryChars f) m.written ∧ m.name = f.1 ∧
      Reads f.2 m.tokens m.tree := by
  obtain ⟨ts, e, hreads⟩ := h
  have hname : Grammar.keyName? (.text .double f.1.toList) = some f.1 := by
    rw [Grammar.keyName?, String.ofList_toList]
  refine ⟨⟨.text .double f.1.toList, f.1, hname, ts, e⟩, ?_, rfl, hreads⟩
  rw [Value.entryChars, Value.quote_of_plainText hkey]
  exact .behind (Value.valid_text_of_plainText hkey) (fun _ => rfl)
    (.behind (t := .symbol .colon) trivial (fun _ => rfl) hreads.cuts)

/-- **Objects** are read field by field, where no key stands twice. -/
theorem object {fields : List (String × Value)} {parts : List Field}
    (h : List.Forall₂ (fun f (m : Field) => Token.Cuts (Value.entryChars f) m.written ∧
      m.name = f.1 ∧ Reads f.2 m.tokens m.tree) fields parts)
    (hdistinct : (fields.map (·.1)).Nodup) :
    ∃ ts, Reads (.object fields) ts (.object (parts.map Field.entry)) := by
  have hcuts : List.Forall₂ Token.Cuts (fields.map Value.entryChars) (parts.map Field.written) := by
    rw [List.forall₂_map_left_iff, List.forall₂_map_right_iff]
    exact h.imp fun _ _ hpart => hpart.1
  have hparts : ∀ m ∈ parts, Derives .disjunction m.tokens m.tree :=
    forall_mem_of_forall₂ h fun _ _ hpart => hpart.2.2.derives.loosen (by decide)
  refine ⟨_, ?_, .lift rfl (.object hparts (Grammar.separated_intercalate _)), ?_⟩
  · rw [Value.chars_object]
    exact cuts_enclosed rfl rfl (fun _ => rfl) (.inr rfl) (.intercalate hcuts)
  · intro b env
    have hfields := Expr.evalFields_eq b env [] (h.imp fun _ _ hpart => hpart.2) hdistinct
    rw [Expr.eval, hfields]
    rfl

end Reads

/-- **A plain value is read from its written form.** -/
theorem Value.Plain.reads {v : Value} (h : Plain v) : ∃ ts e, Reads v ts e := by
  induction h with
  | null => exact ⟨_, _, .null⟩
  | bool b => exact ⟨_, _, .bool b⟩
  | whole h => exact Reads.whole h
  | text h => exact ⟨_, _, .text h⟩
  | @list members _ ih =>
      have hmembers : ∀ v ∈ members, ∃ m : List Token × Expr, Reads v m.1 m.2 := by
        intro v hv
        obtain ⟨ts, e, hreads⟩ := ih v hv
        exact ⟨(ts, e), hreads⟩
      obtain ⟨parts, hparts⟩ := exists_forall₂ hmembers
      obtain ⟨ts, hreads⟩ := Reads.list hparts
      exact ⟨ts, _, hreads⟩
  | object hkeys hdistinct _ ih =>
      obtain ⟨parts, hparts⟩ := exists_forall₂ fun f hf => Reads.field (hkeys f hf) (ih f hf)
      obtain ⟨ts, hreads⟩ := Reads.object hparts hdistinct
      exact ⟨ts, _, hreads⟩

/-! ### Sources and pipelines -/

theorem Reads.ofSource {v : Value} {ts : List Token} {e : Expr} (h : Reads v ts e) :
    Expr.ofSource v.json = .ok e := by
  have hend : Token.Closes [] := nofun
  have hcut : Token.cut v.chars = .ok ts := by
    have hcut := h.cuts [] hend
    rw [List.append_nil, Token.cut_nil] at hcut
    rw [hcut]
    exact congrArg Except.ok (List.append_nil ts)
  have hlex : Token.lex v.json.toList = .ok ts := by
    rw [Value.json, String.toList_ofList]
    exact Token.lex_of_cut hcut h.derives.ne_nil
  have hparse := Parser.parse_of_derives (h.derives.loosen (by decide))
  rw [Expr.ofSource, hlex]
  split
  · next heq => cases heq
  · next heq => exact absurd (Except.ok.inj heq) h.derives.ne_nil
  · next heq =>
      cases heq
      rw [hparse]
      rfl

/-- No marker begins as a number does. -/
theorem toList_of_mem_markerTokens :
    ∀ token ∈ markerTokens, ∃ c cs, token.toList = '-' :: c :: cs ∧ c.isDigit = false := by
  simp only [markerTokens, List.forall_mem_cons, List.not_mem_nil, false_imp_iff, implies_true,
    and_true]
  and_intros <;> exact ⟨_, _, rfl, by decide⟩

namespace Value.Plain

variable {v : Value}

/-- Behind a dash that begins a written form there is a digit. -/
theorem isDigit_of_chars (h : Plain v) {c : Char} {cs : List Char}
    (hchars : v.chars = '-' :: c :: cs) : c.isDigit = true := by
  have hdigits : ∀ {n : Nat} {d : Char}, d ∈ Decimal.wholeDigits n → d.isDigit = true :=
    fun hd => Nat.isDigit_of_mem_toDigits (by decide) (by decide) hd
  cases h with
  | null => cases hchars
  | bool b => cases b <;> cases hchars
  | text h =>
      rw [chars, quote] at hchars
      cases hchars
  | list h =>
      rw [chars_list] at hchars
      cases hchars
  | object =>
      rw [chars_object] at hchars
      cases hchars
  | @whole i h =>
      rw [Value.whole, chars, Number.chars, Number.wholeChars] at hchars
      split at hchars
      · rw [List.cons.injEq] at hchars
        exact hdigits (hchars.2 ▸ List.mem_cons_self ..)
      · exact absurd (hdigits (hchars ▸ List.mem_cons_self ..)) (by decide)

/-- **No written form is a marker.** -/
theorem isMarker_json (h : Plain v) : isMarker v.json = false := by
  refine eq_false_of_ne_true fun hmarker => ?_
  obtain ⟨c, cs, hchars, hdigit⟩ :=
    toList_of_mem_markerTokens _ (List.contains_iff_mem.mp hmarker)
  rw [Value.json, String.toList_ofList] at hchars
  rw [h.isDigit_of_chars hchars] at hdigit
  cases hdigit

theorem readAll_json (h : Plain v) :
    Stage.readAll [v.json] = ([(.evaluate (.source v.json), 1)], none) := by
  obtain ⟨hmarker, hquote⟩ := eq_none_of_isMarker h.isMarker_json
  have htake : Munch.take [v.json] = ⟨false, [v.json]⟩ := by
    rw [Munch.take, if_neg hquote]
    simp [h.isMarker_json]
  have hparse : Stage.parse [v.json] = .ok (.evaluate (.source v.json), 1) := by
    rw [Stage.parse_of_text hmarker, htake]
    rfl
  rw [Stage.readAll_of_ok hparse]
  rfl

end Value.Plain

namespace Plan

/-- Items that are computed without events are as good as ready ones. -/
theorem sameRuns_deferred {ε : Type} (xs : List Item) :
    (Plan.deferred ([] : List ε) (pure xs)).SameRuns (.items xs) := by
  refine ⟨rfl, fun m => ?_⟩
  have hburst : Trace.burst (pure xs : Traced ε (List Item)) = .ofItems xs := by
    rw [Trace.burst, Traced.events_pure, Traced.value_pure]
    cases xs <;> rfl
  rw [run, run, hburst]

end Plan

namespace Value.Plain

open Interpreter (run)

/-- **Written values read back.**  The written form of a plain value compiles, and evaluates to the
value whatever is bound.  As the only token of a pipeline it builds one without any events, whose
runs are those of the members of the value if that is a list, and of the value alone if not. -/
theorem reads_back {v : Value} (h : Plain v) :
    Evaluator.standard.compile v.json = .ok () ∧
      (∀ (b : Bindings) (env : Environment),
        Evaluator.standard.evaluate v.json b env = .ok (.value v)) ∧
      ∀ services : Services, ∃ out,
        run services [v.json] none = ⟨[], .ok out⟩ ∧
        (∀ members, v = .list members → out.plan.SameRuns (.items (members.map .value))) ∧
        ((∀ members, v ≠ .list members) → out.plan.SameRuns (.items [.value v])) := by
  obtain ⟨ts, e, hreads⟩ := h.reads
  have hcompile : Evaluator.standard.compile v.json = .ok () := by
    simp only [Evaluator.standard, hreads.ofSource]
  have hevaluate : ∀ (b : Bindings) (env : Environment),
      Evaluator.standard.evaluate v.json b env = .ok (.value v) := by
    intro b env
    simp only [Evaluator.standard, evalSource, hreads.ofSource, hreads.eval]
    rfl
  refine ⟨hcompile, hevaluate, fun services => ?_⟩
  have hcall : (Host.prepare services (.source v.json)).call .empty .none = .value v := by
    rw [Host.prepare, Prepared.ofPhrase, hcompile]
    simp only [Prepared.call, hevaluate]
  -- without input the value is computed at the first pull, and expanded if it is a list
  have hrun : run services [v.json] none =
      ⟨[], .ok ⟨true, .deferred [] (pure (Item.value v).expand)⟩⟩ := by
    rw [← hcall]
    exact Interpreter.run_of_readAll h.readAll_json rfl
  refine ⟨_, hrun, ?_, ?_⟩
  · rintro members rfl
    exact Plan.sameRuns_deferred (members.map .value)
  · intro hlist
    have hexpand : (Item.value v).expand = [.value v] := by
      cases v with
      | list members => exact absurd rfl (hlist members)
      | _ => rfl
    rw [hexpand]
    exact Plan.sameRuns_deferred [.value v]

/-- The least exact number, and an object that holds a text of delimiters. -/
def nested : List Value :=
  [.whole (-9007199254740991), .object [("a b", .list [.bool true, .text "],"]), ("", .null)]]

theorem plain_nested : Plain (.list nested) := by
  refine .list fun v hv => ?_
  rcases List.mem_cons.mp hv with rfl | hv
  · exact .whole (by decide)
  · rw [List.mem_singleton.mp hv]
    refine .object (by decide +kernel) (by decide +kernel) ?_
    rintro f hf
    rcases List.mem_cons.mp hf with rfl | hf
    · refine .list fun v hv => ?_
      rcases List.mem_cons.mp hv with rfl | hv
      · exact .bool true
      · rw [List.mem_singleton.mp hv]
        exact .text (by decide +kernel)
    · rw [List.mem_singleton.mp hf]
      exact .null

/-- A nested list, written out and read back as its two members. -/
theorem reads_back_nested :
    Plain (.list nested) ∧
      (Value.list nested).json =
        "[-9007199254740991,\x7b\"a b\":[true,\"],\"],\"\":null\x7d]" ∧
      Evaluator.standard.compile (Value.list nested).json = .ok () ∧
      ∀ services : Services, ∃ out,
        run services [(Value.list nested).json] none = ⟨[], .ok out⟩ ∧
        out.plan.SameRuns (.items (nested.map .value)) := by
  obtain ⟨hcompile, -, hruns⟩ := reads_back plain_nested
  refine ⟨plain_nested, by decide +kernel, hcompile, fun services => ?_⟩
  obtain ⟨out, hrun, hlist, -⟩ := hruns services
  exact ⟨out, hrun, hlist nested rfl⟩

end Value.Plain

end Pipeline
