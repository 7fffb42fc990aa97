import Pipeline.Proofs.Accounts

/-!
# Parsing — the machine reads its grammar

The parser accepts a list of tokens exactly if the grammar derives it, and returns the tree that it
derives (`Parser.parse_eq_ok_iff`).  One half is in `Proofs.Accounts`; the other half is here.

Whatever waits on the stack, a list of a stratum that the top of the stack can take is read to its
end (`Parses`).  The frames it leaves on top are signs and operators of its own, all at least as
tight as its stratum; so what closes the operand later closes them first, and finds the tree
(`Collapse.reduce_eq`).  Every rule of the grammar keeps this (`parses_of_derives`).
-/

namespace Pipeline

open Grammar

namespace Parser

/-! ### Closing operators -/

/-- The frames of the first stack above the second are signs and operators that bind at least as
tightly as `r`; given the first tree they make the second one. -/
inductive Collapse (r : Nat) : List Frame → Expr → List Frame → Expr → Prop where
  | refl (stack : List Frame) (e : Expr) : Collapse r stack e stack e
  | signed {sign : Sign} {stack base : List Frame} {e whole : Expr} (hr : r ≤ 8)
      (h : Collapse r stack (sign.apply e) base whole) :
      Collapse r (.signed sign :: stack) e base whole
  | operand {left : Expr} {op : Operator} {stack base : List Frame} {e whole : Expr}
      (hr : r ≤ op.level) (h : Collapse r stack (op.apply left e) base whole) :
      Collapse r (.operand left op :: stack) e base whole

namespace Collapse

theorem trans {r : Nat} {stack middle base : List Frame} {e e' whole : Expr}
    (h : Collapse r stack e middle e') (h' : Collapse r middle e' base whole) :
    Collapse r stack e base whole := by
  induction h with
  | refl => exact h'
  | signed hr _ ih => exact .signed hr (ih h')
  | operand hr _ ih => exact .operand hr (ih h')

theorem mono {r r' : Nat} (hle : r' ≤ r) {stack base : List Frame} {e whole : Expr}
    (h : Collapse r stack e base whole) : Collapse r' stack e base whole := by
  induction h with
  | refl => exact .refl _ _
  | signed hr _ ih => exact .signed (Nat.le_trans hle hr) ih
  | operand hr _ ih => exact .operand (Nat.le_trans hle hr) ih

/-- What closes more than these frames closes them on the way. -/
theorem reduce_eq {r l : Nat} (hle : l ≤ r) {stack base : List Frame} {e whole : Expr}
    (h : Collapse r stack e base whole) : reduce l stack e = reduce l base whole := by
  induction h with
  | refl => rfl
  | signed _ _ ih => exact ih
  | operand hr _ ih =>
      rw [reduce, if_pos (Nat.le_trans hle hr)]
      exact ih

/-- Nothing binds as tightly as a suffix. -/
theorem eq_of_suffixed {stack base : List Frame} {e whole : Expr}
    (h : Collapse Category.suffixed.rank stack e base whole) : stack = base ∧ e = whole := by
  cases h with
  | refl => exact ⟨rfl, rfl⟩
  | signed hr => exact absurd hr (by decide)
  | operand hr => exact absurd (Nat.le_trans hr (Operator.level_le _)) (by decide)

end Collapse

/-- An operator that can be part of what the stack waits for closes nothing on it. -/
theorem reduce_of_wants {stack : List Frame} {op : Operator}
    (h : (wants stack).rank ≤ op.level) (e : Expr) : reduce op.closes stack e = (stack, e) := by
  match stack with
  | .signed _ :: _ => exact absurd (show 8 ≤ 7 from Nat.le_trans h op.level_le) (by decide)
  | .operand left below :: stack =>
      have hlt : below.level < op.closes := (below.level_lt_closes_iff op).mpr h
      rw [reduce, if_neg (Nat.not_le.mpr hlt)]
  | [] => rfl
  | .paren :: _ => rfl
  | .list _ :: _ => rfl
  | .index _ :: _ => rfl
  | .args _ _ _ :: _ => rfl
  | .field _ _ :: _ => rfl

/-- The frame waits for a closing bracket. -/
def Frame.isBracket : Frame → Bool
  | .signed _ | .operand _ _ => false
  | .paren | .list _ | .index _ | .args _ _ _ | .field _ _ => true

theorem wants_bracket {frame : Frame} (h : frame.isBracket = true) (stack : List Frame) :
    wants (frame :: stack) = .disjunction := by
  cases frame <;> first | rfl | cases h

theorem reduce_bracket {frame : Frame} (h : frame.isBracket = true) (l : Nat) (stack : List Frame)
    (e : Expr) : reduce l (frame :: stack) e = (frame :: stack, e) := by
  cases frame <;> first | rfl | cases h

/-! ### Steps -/

/-- The symbols that end the operand of a bracket. -/
def delimiters : List Symbol := [.comma, .closeParen, .closeBracket, .closeBrace]

theorem moreStep_operator {s : Symbol} {op : Operator} (h : Operator.ofSymbol? s = some op)
    (stack : List Frame) (e : Expr) :
    moreStep stack e s = some
      ⟨.operand (reduce op.closes stack e).2 op :: (reduce op.closes stack e).1, .operand⟩ := by
  cases s <;> cases h <;> rfl

theorem moreStep_delimiter {s : Symbol} (h : s ∈ delimiters) (stack : List Frame) (e : Expr) :
    moreStep stack e s = closeStep (reduce 0 stack e).1 (reduce 0 stack e).2 s := by
  simp only [delimiters, List.mem_cons, List.not_mem_nil, or_false] at h
  rcases h with rfl | rfl | rfl | rfl <;> rfl

theorem Ready.result? {st : State} {stack : List Frame} {e : Expr} (h : Ready st stack e) :
    st.result? = closeAll stack e := by
  cases h <;> rfl

theorem run_cons {st next : State} {t : Token} (h : st.step t = some next) (ts : List Token) :
    st.run (t :: ts) = next.run ts := by
  rw [State.run, h]

theorem run_append {st next : State} {ts : List Token} (h : st.run ts = .ok next)
    (us : List Token) : st.run (ts ++ us) = next.run us := by
  induction ts generalizing st with
  | nil =>
      cases h
      rfl
  | cons t ts ih =>
      rw [State.run] at h
      split at h
      · next hstep =>
          rw [List.cons_append, run_cons hstep]
          exact ih h
      · cases h

/-! ### What is derived is read -/

/-- On every stack that can take it, the list is read to its end, and leaves its tree or operators
of its own that make it. -/
def Parses (c : Category) (ts : List Token) (e : Expr) : Prop :=
  ∀ stack : List Frame, (wants stack).rank ≤ c.rank → ∃ st top e',
    State.run ⟨stack, .operand⟩ ts = .ok st ∧ Ready st top e' ∧ Collapse c.rank top e' stack e

namespace Parses

theorem lift {c d : Category} {ts : List Token} {e : Expr} (hd : c.tighter? = some d)
    (h : Parses d ts e) : Parses c ts e := by
  intro stack hstack
  have hrank : c.rank ≤ d.rank := by
    rw [Category.rank_of_tighter? hd]
    exact Nat.le_succ _
  obtain ⟨st, top, e', hrun, hready, hcollapse⟩ := h stack (Nat.le_trans hstack hrank)
  exact ⟨st, top, e', hrun, hready, hcollapse.mono hrank⟩

/-- **Two operands and an operator between them.**  The operator closes what the left operand left
open, and nothing below. -/
theorem operator {s : Symbol} {op : Operator} (hs : Operator.ofSymbol? s = some op)
    {ls rs : List Token} {l r : Expr} (hl : Parses op.leftCategory ls l)
    (hr : Parses op.rightCategory rs r) :
    Parses op.category (ls ++ .symbol s :: rs) (op.apply l r) := by
  intro stack hstack
  rw [op.rank_category] at hstack
  have hclosed : (wants stack).rank ≤ op.leftCategory.rank := by
    rw [op.rank_leftCategory]
    exact Nat.le_trans hstack op.level_le_closes
  obtain ⟨st, top, l', hrun, hready, hcollapse⟩ := hl stack hclosed
  have hne : s ≠ .openParen := by
    rintro rfl
    cases hs
  -- what is left open of the left operand is closed, and the stack below stays as it was
  have hstep : st.step (.symbol s) = some ⟨.operand l op :: stack, .operand⟩ := by
    have hreduce := hcollapse.reduce_eq (Nat.le_of_eq op.rank_leftCategory.symm)
    rw [hready.step hne, moreStep_operator hs, hreduce, reduce_of_wants hstack]
  obtain ⟨st', top', r', hrun', hready', hcollapse'⟩ := hr (.operand l op :: stack) (Nat.le_refl _)
  refine ⟨st', top', r', ?_, hready', ?_⟩
  · rw [run_append hrun, run_cons hstep, hrun']
  · rw [op.rank_category]
    exact (hcollapse'.mono op.level_le_rank_rightCategory).trans
      (.operand (Nat.le_refl _) (.refl _ _))

theorem sign {s : Symbol} {sign : Sign} (hs : Sign.ofSymbol? s = some sign) {ts : List Token}
    {e : Expr} (h : Parses .signed ts e) : Parses .signed (.symbol s :: ts) (sign.apply e) := by
  intro stack _
  obtain ⟨st, top, e', hrun, hready, hcollapse⟩ := h (.signed sign :: stack) (Nat.le_refl _)
  have hstep : State.step ⟨stack, .operand⟩ (.symbol s) =
      some ⟨.signed sign :: stack, .operand⟩ := by
    cases s <;> cases hs <;> rfl
  refine ⟨st, top, e', ?_, hready, hcollapse.trans (.signed (Nat.le_refl _) (.refl _ _))⟩
  rw [run_cons hstep, hrun]

/-- One token that is an operand. -/
theorem token {t : Token} {e : Expr}
    (h : ∀ stack, operandStep stack t = some ⟨stack, .more e⟩) : Parses .suffixed [t] e := by
  intro stack _
  refine ⟨_, stack, e, ?_, .more stack e, .refl _ _⟩
  rw [run_cons (show State.step ⟨stack, .operand⟩ t = _ from h stack), State.run]

/-- An operand without a sign leaves the stack as it was. -/
theorem suffixed {ts : List Token} {e : Expr} (h : Parses .suffixed ts e) (stack : List Frame) :
    ∃ st, State.run ⟨stack, .operand⟩ ts = .ok st ∧ Ready st stack e := by
  obtain ⟨st, top, e', hrun, hready, hcollapse⟩ :=
    h stack (Nat.le_trans (rank_wants_le stack) (by decide))
  obtain ⟨rfl, rfl⟩ := hcollapse.eq_of_suffixed
  exact ⟨st, hrun, hready⟩

theorem of_suffixed {ts : List Token} {e : Expr}
    (h : ∀ stack, ∃ st, State.run ⟨stack, .operand⟩ ts = .ok st ∧ Ready st stack e) :
    Parses .suffixed ts e := by
  intro stack _
  obtain ⟨st, hrun, hready⟩ := h stack
  exact ⟨st, stack, e, hrun, hready, .refl _ _⟩

/-- An operand in a bracket, with the symbol behind it. -/
theorem delimited {ts : List Token} {e : Expr} (h : Parses .disjunction ts e) {frame : Frame}
    (hframe : frame.isBracket = true) {stack : List Frame} {s : Symbol} (hs : s ∈ delimiters)
    {next : State} (hclose : closeStep (frame :: stack) e s = some next) :
    State.run ⟨frame :: stack, .operand⟩ (ts ++ [.symbol s]) = .ok next := by
  have hwants : (wants (frame :: stack)).rank ≤ Category.disjunction.rank :=
    Nat.le_of_eq (congrArg Category.rank (wants_bracket hframe stack))
  obtain ⟨st, top, e', hrun, hready, hcollapse⟩ := h (frame :: stack) hwants
  have hne : s ≠ .openParen := by
    rintro rfl
    exact absurd hs (by decide)
  have hstep : st.step (.symbol s) = some next := by
    have hreduce := hcollapse.reduce_eq (Nat.zero_le _)
    rw [hready.step hne, moreStep_delimiter hs, hreduce, reduce_bracket hframe, hclose]
  rw [run_append hrun, run_cons hstep, State.run]

end Parses

/-! ### Lists and objects -/

/-- Where a list may be closed at once, it may also go on. -/
theorem run_operandOrClose {stack : List Frame} {ts : List Token} {st : State} (hne : ts ≠ [])
    (h : State.run ⟨stack, .operand⟩ ts = .ok st) :
    State.run ⟨stack, .operandOrClose⟩ ts = .ok st := by
  cases ts with
  | nil => exact absurd rfl hne
  | cons t ts =>
      rw [State.run] at h ⊢
      have hstep : ∀ next, operandStep stack t = some next →
          State.step ⟨stack, .operandOrClose⟩ t = some next := by
        intro next hnext
        cases t with
        | symbol s =>
            -- no symbol both closes a list and starts an operand
            have hnone : emptyClose stack s = none := by
              unfold emptyClose
              split
              · cases hnext
              · cases hnext
              · rfl
            simp only [State.step, hnone]
            exact hnext
        | _ => exact hnext
      cases hfirst : operandStep stack t with
      | none =>
          rw [show State.step ⟨stack, .operand⟩ t = none from hfirst] at h
          cases h
      | some next =>
          rw [show State.step ⟨stack, .operand⟩ t = some next from hfirst] at h
          rw [hstep next hfirst]
          exact h

/-- A bracket around operands: its frame with the operands so far, its close, and its tree. -/
structure Enclosure where
  frame : List Expr → Frame
  close : Symbol
  tree : List Expr → Expr
  isBracket : ∀ done, (frame done).isBracket = true
  close_mem : close ∈ delimiters
  empty : ∀ done stack, emptyClose (frame done :: stack) close = some ⟨stack, .more (tree done)⟩
  next : ∀ done stack e, closeStep (frame done :: stack) e .comma =
    some ⟨frame (done ++ [e]) :: stack, .operandOrClose⟩
  last : ∀ done stack e, closeStep (frame done :: stack) e close =
    some ⟨stack, .more (tree (done ++ [e]))⟩

/-- Lists. -/
def Enclosure.list : Enclosure where
  frame := .list
  close := .closeBracket
  tree := .list
  isBracket _ := rfl
  close_mem := by decide
  empty _ _ := rfl
  next _ _ _ := rfl
  last _ _ _ := rfl

/-- The arguments of a method call. -/
def Enclosure.call (target : Expr) (method : String) : Enclosure where
  frame := .args target method
  close := .closeParen
  tree := .call target method
  isBracket _ := rfl
  close_mem := by decide
  empty _ _ := rfl
  next _ _ _ := rfl
  last _ _ _ := rfl

/-- **Operands between commas**, up to the close. -/
theorem run_separated (b : Enclosure) (stack : List Frame) {members : List (List Token × Expr)}
    (hm : ∀ m ∈ members, Parses .disjunction m.1 m.2) {inner : List Token}
    (hs : Separated (members.map (·.1)) inner) (done : List Expr) :
    State.run ⟨b.frame done :: stack, .operandOrClose⟩ (inner ++ [.symbol b.close]) =
      .ok ⟨stack, .more (b.tree (done ++ members.map (·.2)))⟩ := by
  induction members generalizing inner done with
  | nil =>
      cases hs
      have hstep : State.step ⟨b.frame done :: stack, .operandOrClose⟩ (.symbol b.close) =
          some ⟨stack, .more (b.tree done)⟩ := by
        simp only [State.step, b.empty]
      rw [List.nil_append, run_cons hstep, List.map_nil, List.append_nil, State.run]
  | cons m members ih =>
      obtain ⟨hfirst, hmembers⟩ := List.forall_mem_cons.mp hm
      rw [List.map_cons] at hs
      rcases hs.cons_cases with ⟨hnil, rfl⟩ | ⟨rest, rfl, hrest⟩
      · rw [List.map_eq_nil_iff] at hnil
        subst hnil
        refine run_operandOrClose (by simp) ?_
        exact hfirst.delimited (b.isBracket done) b.close_mem (b.last done stack m.2)
      · have hcomma := run_operandOrClose (by simp)
          (hfirst.delimited (b.isBracket done) (by decide) (b.next done stack m.2))
        have hlater := ih hmembers hrest (done ++ [m.2])
        rw [List.append_assoc, List.cons_append, List.append_cons m.1, run_append hcomma, hlater,
          List.map_cons, ← List.append_cons]

/-- **Fields between commas**, up to the close. -/
theorem run_fields (stack : List Frame) {fields : List Field}
    (hf : ∀ f ∈ fields, Parses .disjunction f.tokens f.tree) {inner : List Token}
    (hs : Separated (fields.map Field.written) inner) (done : List (String × Expr)) :
    State.run ⟨stack, .keyOrClose done⟩ (inner ++ [.symbol .closeBrace]) =
      .ok ⟨stack, .more (.object (done ++ fields.map Field.entry))⟩ := by
  induction fields generalizing inner done with
  | nil =>
      cases hs
      simp [State.run, State.step]
  | cons f fields ih =>
      obtain ⟨hfirst, hfields⟩ := List.forall_mem_cons.mp hf
      have hkey : ∀ ts, State.run ⟨stack, .keyOrClose done⟩ (f.written ++ ts) =
          State.run ⟨.field done f.name :: stack, .operand⟩ (f.tokens ++ ts) := by
        intro ts
        obtain ⟨key, name, hname, tokens, tree⟩ := f
        cases key with
        | name chars => cases hname; rfl
        | text quote body => cases hname; rfl
        | number | symbol => cases hname
      rw [List.map_cons] at hs
      rcases hs.cons_cases with ⟨hnil, rfl⟩ | ⟨rest, rfl, hrest⟩
      · rw [List.map_eq_nil_iff] at hnil
        subst hnil
        rw [hkey]
        exact hfirst.delimited rfl (by decide) rfl
      · have hcomma : State.run ⟨.field done f.name :: stack, .operand⟩
            (f.tokens ++ [.symbol .comma]) = .ok ⟨stack, .keyOrClose (done ++ [f.entry])⟩ :=
          hfirst.delimited rfl (by decide) rfl
        have hlater := ih hfields hrest (done ++ [f.entry])
        rw [List.append_assoc, hkey, List.cons_append, List.append_cons f.tokens,
          run_append hcomma, hlater, List.map_cons, ← List.append_cons]

/-- **What is derived is read.** -/
theorem parses_of_derives {c : Category} {ts : List Token} {e : Expr} (h : Derives c ts e) :
    Parses c ts e := by
  induction h with
  | lift hd _ ih => exact ih.lift hd
  | left hd hs _ _ ihl ihr =>
      obtain ⟨op, hop, rfl, rfl, hleft, rfl⟩ := Operator.of_mem_operators hd hs
      exact .operator hop (hleft ▸ ihl) ihr
  | power _ _ ihl ihr =>
      have hop : Operator.ofSymbol? .power = some (.binary .power) := rfl
      exact .operator hop ihl ihr
  | sign hs _ ih =>
      obtain ⟨sign, hsign, rfl⟩ := Sign.of_mem_signs hs
      exact .sign hsign ih
  | number | text => exact .token fun _ => rfl
  | literal h =>
      refine .token fun stack => ?_
      rw [operandStep, atom_of_literal h]
  | name h =>
      refine .token fun stack => ?_
      rw [operandStep, atom_of_not_literal h]
  | list _ hs ihm =>
      refine .of_suffixed fun stack => ⟨_, ?_, .more _ _⟩
      exact run_separated .list stack ihm hs []
  | object _ hs ihf =>
      refine .of_suffixed fun stack => ⟨_, ?_, .more _ _⟩
      exact run_fields stack ihf hs []
  | paren _ ih =>
      refine .of_suffixed fun stack => ⟨_, ?_, .more _ _⟩
      exact ih.delimited (show Frame.paren.isBracket = true from rfl) (by decide) rfl
  | member chars _ ih =>
      refine .of_suffixed fun stack => ?_
      obtain ⟨st, hrun, hready⟩ := ih.suffixed stack
      refine ⟨_, ?_, .member _ _ _⟩
      rw [run_append hrun, run_cons ((hready.step (by decide)).trans rfl)]
      rfl
  | call chars _ _ hs ih iha =>
      refine .of_suffixed fun stack => ?_
      obtain ⟨st, hrun, hready⟩ := ih.suffixed stack
      refine ⟨_, ?_, .more _ _⟩
      rw [run_append hrun, run_cons ((hready.step (by decide)).trans rfl)]
      exact run_separated (.call _ _) stack iha hs []
  | index _ _ ih ihi =>
      refine .of_suffixed fun stack => ?_
      obtain ⟨st, hrun, hready⟩ := ih.suffixed stack
      refine ⟨_, ?_, .more _ _⟩
      rw [run_append hrun, run_cons ((hready.step (by decide)).trans rfl)]
      exact ihi.delimited (show (Frame.index _).isBracket = true from rfl) (by decide) rfl

theorem parse_of_derives {ts : List Token} {e : Expr} (h : Derives .disjunction ts e) :
    parse ts = .ok e := by
  obtain ⟨st, top, e', hrun, hready, hcollapse⟩ := parses_of_derives h [] (Nat.le_refl _)
  have hresult : st.result? = some e := by
    rw [hready.result?, closeAll, hcollapse.reduce_eq (Nat.zero_le _)]
    rfl
  rw [parse, show State.start.run ts = .ok st from hrun]
  simp only [hresult]

/-- **The parser reads its grammar.**  It accepts a list exactly if the grammar derives it, and
returns the tree that it derives. -/
theorem parse_eq_ok_iff (ts : List Token) (e : Expr) :
    parse ts = .ok e ↔ Derives .disjunction ts e :=
  ⟨derives_of_parse, parse_of_derives⟩

-- a sign binds more tightly than a power, and powers group to the right
example :
    parse [.symbol .minus, .name ['x'], .symbol .power, .name ['y'], .symbol .power, .name ['z']] =
      .ok (.binary .power (.negate (.name "x")) (.binary .power (.name "y") (.name "z"))) := rfl

end Parser

/-- **A list has one tree at most.** -/
theorem Grammar.Derives.unique {ts : List Token} {e e' : Expr} (h : Derives .disjunction ts e)
    (h' : Derives .disjunction ts e') : e = e' :=
  Except.ok.inj ((Parser.parse_of_derives h).symm.trans (Parser.parse_of_derives h'))

end Pipeline
