import Pipeline.Proofs.Grammar

/-!
# Accounts — what the parser has read is derived

The parser is a machine with a stack, and its only guide is how tightly operators bind.  Between two
tokens, the stack and what is expected next account for all tokens taken so far (`Stacked`,
`Reading`): every frame for the tokens that opened it and for the operands it holds.

Closing operators keeps the account, since every frame waits for a stratum (`wants`) that the frames
above it make (`Stacked.reduce`); and so does every token (`Reading.step`).  In the end the account
is a derivation of the whole list (`derives_of_parse`).
-/

namespace Pipeline

open Grammar

/-! ### Operators and their strata -/

namespace Operator

/-- The stratum of the trees of an operator. -/
def category : Operator → Category
  | .either => .disjunction
  | .both => .conjunction
  | .binary .equal | .binary .notEqual => .equality
  | .binary .atMost | .binary .atLeast | .binary .less | .binary .greater => .order
  | .binary .plus | .binary .minus => .sum
  | .binary .times | .binary .divided | .binary .modulo => .product
  | .binary .power => .power

/-- The stratum of the left operand. -/
def leftCategory : Operator → Category
  | .binary .power => .signed
  | op => op.category

/-- The stratum of the right operand. -/
def rightCategory : Operator → Category
  | .binary .power => .power
  | op => op.category.tighter?.getD .suffixed

theorem rank_category (op : Operator) : op.category.rank = op.level := by
  rcases op with _ | _ | op
  · rfl
  · rfl
  · cases op <;> rfl

theorem rank_leftCategory (op : Operator) : op.leftCategory.rank = op.closes := by
  rcases op with _ | _ | op
  · rfl
  · rfl
  · cases op <;> rfl

/-- An operator groups to the left, or it is the power operator. -/
theorem grouping (op : Operator) :
    (op ≠ .binary .power ∧ op.level ≤ 6 ∧ op.closes = op.level ∧ op.leftCategory = op.category ∧
      op.category.tighter? = some op.rightCategory ∧ op.rightCategory.rank = op.level + 1) ∨
    op = .binary .power := by
  rcases op with _ | _ | op
  · exact .inl (by decide)
  · exact .inl (by decide)
  · cases op with
    | power => exact .inr rfl
    | _ => exact .inl (by decide)

theorem level_le (op : Operator) : op.level ≤ 7 := by
  rcases op.grouping with ⟨-, hle, -⟩ | rfl
  · omega
  · decide

theorem level_le_rank_rightCategory (op : Operator) : op.level ≤ op.rightCategory.rank := by
  rcases op.grouping with ⟨-, -, -, -, -, hright⟩ | rfl
  · omega
  · decide

theorem level_le_closes (op : Operator) : op.level ≤ op.closes := by
  rcases op.grouping with ⟨-, -, hcloses, -⟩ | rfl
  · omega
  · decide

theorem closes_le (op : Operator) : op.closes ≤ 8 := by
  rcases op.grouping with ⟨-, hle, hcloses, -⟩ | rfl
  · omega
  · decide

/-- An operator leaves those open whose right operand it can be part of. -/
theorem level_lt_closes_iff (op above : Operator) :
    op.level < above.closes ↔ op.rightCategory.rank ≤ above.level := by
  have hpower : (Operator.binary .power).level = 7 ∧ (Operator.binary .power).closes = 8 ∧
      (Operator.binary .power).rightCategory.rank = 7 := by decide
  rcases op.grouping with ⟨-, hle, -, -, -, hright⟩ | rfl
  · rcases above.grouping with ⟨-, -, hcloses, -⟩ | rfl <;> omega
  · rcases above.grouping with ⟨-, hle, hcloses, -⟩ | rfl <;> omega

/-- The symbols of a stratum are operators of that stratum. -/
theorem of_mem_operators {c d : Category} {s : Symbol} {tree : Expr → Expr → Expr}
    (hd : c.tighter? = some d) (h : (s, tree) ∈ c.operators) :
    ∃ op, ofSymbol? s = some op ∧ tree = op.apply ∧ op.category = c ∧ op.leftCategory = c ∧
      op.rightCategory = d := by
  simp only [Category.operators] at h
  cases c with
  | disjunction | conjunction =>
      cases hd
      cases List.mem_singleton.mp h
      exact ⟨_, rfl, rfl, rfl, rfl, rfl⟩
  | equality | sum =>
      cases hd
      simp only [List.mem_cons, List.not_mem_nil, or_false, Prod.mk.injEq] at h
      rcases h with ⟨rfl, rfl⟩ | ⟨rfl, rfl⟩ <;> exact ⟨_, rfl, rfl, rfl, rfl, rfl⟩
  | product =>
      cases hd
      simp only [List.mem_cons, List.not_mem_nil, or_false, Prod.mk.injEq] at h
      rcases h with ⟨rfl, rfl⟩ | ⟨rfl, rfl⟩ | ⟨rfl, rfl⟩ <;> exact ⟨_, rfl, rfl, rfl, rfl, rfl⟩
  | order =>
      cases hd
      simp only [List.mem_cons, List.not_mem_nil, or_false, Prod.mk.injEq] at h
      rcases h with ⟨rfl, rfl⟩ | ⟨rfl, rfl⟩ | ⟨rfl, rfl⟩ | ⟨rfl, rfl⟩ <;>
        exact ⟨_, rfl, rfl, rfl, rfl, rfl⟩
  | power | signed | suffixed => cases h

/-- Two operands and an operator between them are in the stratum of the operator. -/
theorem derives {s : Symbol} {op : Operator} (hs : ofSymbol? s = some op) {ls rs : List Token}
    {l r : Expr} (hl : Derives op.leftCategory ls l) (hr : Derives op.rightCategory rs r) :
    Derives op.category (ls ++ .symbol s :: rs) (op.apply l r) := by
  rcases op.grouping with ⟨hpower, -, -, hleft, htighter, -⟩ | rfl
  · rw [hleft] at hl
    refine .left htighter ?_ hl hr
    cases s <;> cases hs <;>
      first | exact absurd rfl hpower | simp [category, Category.operators, apply]
  · cases s <;> cases hs
    exact .power hl hr

end Operator

/-- The trees of signs. -/
theorem Sign.of_mem_signs {s : Symbol} {tree : Expr → Expr} (h : (s, tree) ∈ signs) :
    ∃ sign, Sign.ofSymbol? s = some sign ∧ tree = sign.apply := by
  simp only [signs, List.mem_cons, List.not_mem_nil, or_false, Prod.mk.injEq] at h
  rcases h with ⟨rfl, rfl⟩ | ⟨rfl, rfl⟩ | ⟨rfl, rfl⟩ <;> exact ⟨_, rfl, rfl⟩

theorem Sign.derives {s : Symbol} {sign : Sign} (hs : Sign.ofSymbol? s = some sign)
    {ts : List Token} {e : Expr} (h : Derives .signed ts e) :
    Derives .signed (.symbol s :: ts) (sign.apply e) := by
  refine .sign ?_ h
  cases s <;> cases hs <;> simp [signs, apply]

namespace Parser

/-! ### Stacks -/

/-- The stratum of what the top of the stack waits for. -/
def wants : List Frame → Category
  | .signed _ :: _ => .signed
  | .operand _ op :: _ => op.rightCategory
  | _ => .disjunction

theorem rank_wants_le (stack : List Frame) : (wants stack).rank ≤ 8 := by
  unfold wants
  split
  · decide
  · next op _ =>
      rcases op.grouping with ⟨-, hle, -, -, -, hright⟩ | rfl
      · omega
      · decide
  · decide

/-- The machine has read an operand that it may still add a suffix to. -/
inductive Ready : State → List Frame → Expr → Prop where
  | more (stack : List Frame) (e : Expr) : Ready ⟨stack, .more e⟩ stack e
  | member (stack : List Frame) (target : Expr) (method : String) :
      Ready ⟨stack, .callOrMore target method⟩ stack (.member target method)

theorem Ready.step {st : State} {stack : List Frame} {e : Expr} (h : Ready st stack e) {s : Symbol}
    (hs : s ≠ .openParen) : st.step (.symbol s) = moreStep stack e s := by
  cases h with
  | more => rfl
  | member => cases s <;> first | rfl | exact absurd rfl hs

/-! ### Atoms -/

theorem atom_of_literal {name : String} {v : Value} (h : (name, v) ∈ literals) :
    atom name = .literal v := by
  simp only [literals, List.mem_cons, List.not_mem_nil, or_false, Prod.mk.injEq] at h
  rcases h with ⟨rfl, rfl⟩ | ⟨rfl, rfl⟩ | ⟨rfl, rfl⟩ <;> rfl

theorem atom_of_not_literal {name : String} (h : ∀ v, (name, v) ∉ literals) :
    atom name = .name name := by
  have htrue : name ≠ "true" := fun heq => h (.bool true) (by simp [heq, literals])
  have hfalse : name ≠ "false" := fun heq => h (.bool false) (by simp [heq, literals])
  have hnull : name ≠ "null" := fun heq => h .null (by simp [heq, literals])
  rw [atom, if_neg htrue, if_neg hfalse, if_neg hnull]

/-- A name is a literal or not, and its atom says so. -/
theorem derives_atom (chars : List Char) :
    Derives .suffixed [.name chars] (atom (String.ofList chars)) := by
  by_cases h : ∃ v, (String.ofList chars, v) ∈ literals
  · obtain ⟨v, hv⟩ := h
    rw [atom_of_literal hv]
    exact .literal hv
  · have hnone := not_exists.mp h
    rw [atom_of_not_literal hnone]
    exact .name hnone

/-! ### Accounts -/

/-- The frames account for the tokens: each of them for those that opened it, and for the operands
it holds.  An operand holds a left side of its operator, and stands where the frame below can take
a tree of that operator. -/
inductive Stacked : List Frame → List Token → Prop where
  | nil : Stacked [] []
  | signed {s : Symbol} {sign : Sign} {stack : List Frame} {ts : List Token}
      (hs : Sign.ofSymbol? s = some sign) (h : Stacked stack ts) :
      Stacked (.signed sign :: stack) (ts ++ [.symbol s])
  | operand {s : Symbol} {op : Operator} {left : Expr} {stack : List Frame} {ts us : List Token}
      (hs : Operator.ofSymbol? s = some op) (hleft : Derives op.leftCategory us left)
      (hwants : (wants stack).rank ≤ op.level) (h : Stacked stack ts) :
      Stacked (.operand left op :: stack) (ts ++ us ++ [.symbol s])
  | paren {stack : List Frame} {ts : List Token} (h : Stacked stack ts) :
      Stacked (.paren :: stack) (ts ++ [.symbol .openParen])
  | list {members : List (List Token × Expr)} {stack : List Frame} {ts : List Token}
      (hm : ∀ m ∈ members, Derives .disjunction m.1 m.2) (h : Stacked stack ts) :
      Stacked (.list (members.map (·.2)) :: stack)
        (ts ++ .symbol .openBracket :: commas (members.map (·.1)))
  | index {target : Expr} {stack : List Frame} {ts us : List Token}
      (ht : Derives .suffixed us target) (h : Stacked stack ts) :
      Stacked (.index target :: stack) (ts ++ us ++ [.symbol .openBracket])
  | args {target : Expr} (chars : List Char) {done : List (List Token × Expr)}
      {stack : List Frame} {ts us : List Token} (ht : Derives .suffixed us target)
      (hd : ∀ a ∈ done, Derives .disjunction a.1 a.2) (h : Stacked stack ts) :
      Stacked (.args target (String.ofList chars) (done.map (·.2)) :: stack)
        (ts ++ us ++ .symbol .dot :: .name chars :: .symbol .openParen ::
          commas (done.map (·.1)))
  | field {done : List Field} {key : Token} {name : String} {stack : List Frame}
      {ts : List Token} (hd : ∀ f ∈ done, Derives .disjunction f.tokens f.tree)
      (hk : keyName? key = some name) (h : Stacked stack ts) :
      Stacked (.field (done.map Field.entry) name :: stack)
        (ts ++ .symbol .openBrace :: (commas (done.map Field.written) ++ [key, .symbol .colon]))

/-- The stack and what is expected next account for the tokens. -/
inductive Reading : State → List Token → Prop where
  | operand {stack : List Frame} {ts : List Token} (h : Stacked stack ts) :
      Reading ⟨stack, .operand⟩ ts
  | operandOrClose {stack : List Frame} {ts : List Token} (h : Stacked stack ts) :
      Reading ⟨stack, .operandOrClose⟩ ts
  | keyOrClose {done : List Field} {stack : List Frame} {ts : List Token}
      (hd : ∀ f ∈ done, Derives .disjunction f.tokens f.tree) (h : Stacked stack ts) :
      Reading ⟨stack, .keyOrClose (done.map Field.entry)⟩
        (ts ++ .symbol .openBrace :: commas (done.map Field.written))
  | colon {done : List Field} {key : Token} {name : String} {stack : List Frame}
      {ts : List Token} (hd : ∀ f ∈ done, Derives .disjunction f.tokens f.tree)
      (hk : keyName? key = some name) (h : Stacked stack ts) :
      Reading ⟨stack, .colon (done.map Field.entry) name⟩
        (ts ++ .symbol .openBrace :: (commas (done.map Field.written) ++ [key]))
  | memberName {target : Expr} {stack : List Frame} {ts us : List Token}
      (ht : Derives .suffixed us target) (h : Stacked stack ts) :
      Reading ⟨stack, .memberName target⟩ (ts ++ us ++ [.symbol .dot])
  | callOrMore {target : Expr} (chars : List Char) {stack : List Frame} {ts us : List Token}
      (ht : Derives .suffixed us target) (h : Stacked stack ts) :
      Reading ⟨stack, .callOrMore target (String.ofList chars)⟩
        (ts ++ us ++ [.symbol .dot, .name chars])
  | more {e : Expr} {stack : List Frame} {ts us : List Token} (he : Derives .suffixed us e)
      (h : Stacked stack ts) : Reading ⟨stack, .more e⟩ (ts ++ us)

/-- Nothing on top of the stack binds as tightly as `l`. -/
def Stuck (l : Nat) : List Frame → Prop
  | .signed _ :: _ => False
  | .operand _ op :: _ => op.level < l
  | _ => True

theorem stuck_reduce (l : Nat) (stack : List Frame) (e : Expr) : Stuck l (reduce l stack e).1 := by
  fun_induction reduce l stack e with
  | case1 s stack e ih => exact ih
  | case2 left op stack e hle ih => exact ih
  | case3 left op stack e hlt => exact Nat.not_le.mp hlt
  | case4 stack e hsigned hoperand =>
      match stack with
      | [] => trivial
      | .signed s :: stack => exact hsigned s stack rfl
      | .operand left op :: stack => exact (hoperand left op stack rfl).elim
      | .paren :: _ | .list _ :: _ | .index _ :: _ | .args _ _ _ :: _ | .field _ _ :: _ => trivial

/-- What an operator does not close can take a tree of it. -/
theorem rank_wants_le_of_stuck {op : Operator} {stack : List Frame} (h : Stuck op.closes stack) :
    (wants stack).rank ≤ op.level := by
  have hpos : 1 ≤ op.level := op.rank_category ▸ op.category.rank_pos
  match stack with
  | .operand left below :: _ => exact (below.level_lt_closes_iff op).mp h
  | [] | .paren :: _ | .list _ :: _ | .index _ :: _ | .args _ _ _ :: _ | .field _ _ :: _ =>
      exact hpos

/-- **Closing operators keeps the account.** -/
theorem Stacked.reduce {l : Nat} (hl : l ≤ 8) {stack : List Frame} {ts : List Token}
    (h : Stacked stack ts) {c : Category} {us : List Token} {e : Expr} (he : Derives c us e)
    (hc : (wants stack).rank ≤ c.rank) (hlc : l ≤ c.rank) :
    ∃ ts' us' c', Stacked (reduce l stack e).1 ts' ∧ Derives c' us' (reduce l stack e).2 ∧
      l ≤ c'.rank ∧ ts ++ us = ts' ++ us' := by
  induction h generalizing c us e with
  | signed hs h ih =>
      -- a sign takes a signed operand, and makes one
      have hsigned := Sign.derives hs (he.loosen hc)
      obtain ⟨ts', us', c', hstacked, hderives, hle, heq⟩ :=
        ih hsigned (rank_wants_le _) hl
      exact ⟨ts', us', c', hstacked, hderives, hle, by rw [← heq]; simp⟩
  | operand hs hleft hwants h ih =>
      next s op left stack ts ls =>
      rw [Parser.reduce]
      split
      · next hle =>
          -- the frame above made a right operand, and this one makes what the frame below waits for
          have hwhole := op.derives hs hleft (he.loosen hc)
          rw [← op.rank_category] at hwants hle
          obtain ⟨ts', us', c', hstacked, hderives, hle', heq⟩ := ih hwhole hwants hle
          exact ⟨ts', us', c', hstacked, hderives, hle', by rw [← heq]; simp⟩
      · exact ⟨_, us, c, .operand hs hleft hwants h, he, hlc, rfl⟩
  | nil => exact ⟨_, us, c, .nil, he, hlc, rfl⟩
  | paren h => exact ⟨_, us, c, .paren h, he, hlc, rfl⟩
  | list hm h => exact ⟨_, us, c, .list hm h, he, hlc, rfl⟩
  | index ht h => exact ⟨_, us, c, .index ht h, he, hlc, rfl⟩
  | args chars ht hd h => exact ⟨_, us, c, .args chars ht hd h, he, hlc, rfl⟩
  | field hd hk h => exact ⟨_, us, c, .field hd hk h, he, hlc, rfl⟩

namespace Reading

theorem of_eq {st : State} {ts us : List Token} (h : Reading st ts) (heq : ts = us) :
    Reading st us :=
  heq ▸ h

theorem operandStep {stack : List Frame} {ts : List Token} (h : Stacked stack ts) {t : Token}
    {next : State} (hstep : operandStep stack t = some next) : Reading next (ts ++ [t]) := by
  cases t with
  | number whole fraction =>
      cases hstep
      exact .more (.number whole fraction) h
  | text quote body =>
      cases hstep
      exact .more (.text quote body) h
  | name chars =>
      cases hstep
      exact .more (derives_atom chars) h
  | symbol s =>
      cases s with
      | openBracket =>
          cases hstep
          have hlist : ∀ m ∈ ([] : List (List Token × Expr)), Derives .disjunction m.1 m.2 :=
            List.forall_mem_nil _
          exact .operandOrClose (.list hlist h)
      | openBrace =>
          cases hstep
          have hfields : ∀ f ∈ ([] : List Field), Derives .disjunction f.tokens f.tree :=
            List.forall_mem_nil _
          exact .keyOrClose hfields h
      | openParen =>
          cases hstep
          exact .operand (.paren h)
      | minus | plus | bang =>
          cases hstep
          exact .operand (.signed rfl h)
      | _ => cases hstep

theorem emptyClose {stack : List Frame} {ts : List Token} (h : Stacked stack ts) {s : Symbol}
    {next : State} (hstep : emptyClose stack s = some next) : Reading next (ts ++ [.symbol s]) := by
  unfold Parser.emptyClose at hstep
  split at hstep
  · cases hstep
    cases h with
    | list hm h =>
        refine (Reading.more (.list hm (separated_commas _)) h).of_eq ?_
        simp
  · cases hstep
    cases h with
    | args chars ht hd h =>
        refine (Reading.more (.call chars ht hd (separated_commas _)) h).of_eq ?_
        simp
  · cases hstep

/-- One more member behind those that there are. -/
theorem forall_mem_concat {members : List (List Token × Expr)}
    (hm : ∀ m ∈ members, Derives .disjunction m.1 m.2) {us : List Token} {e : Expr}
    (he : Derives .disjunction us e) :
    ∀ m ∈ members ++ [(us, e)], Derives .disjunction m.1 m.2 :=
  List.forall_mem_append.mpr ⟨hm, List.forall_mem_singleton.mpr he⟩

/-- One more field behind those that there are. -/
theorem forall_mem_concat_field {fields : List Field}
    (hf : ∀ f ∈ fields, Derives .disjunction f.tokens f.tree) {key : Token} {name : String}
    (hk : keyName? key = some name) {us : List Token} {e : Expr} (he : Derives .disjunction us e) :
    ∀ f ∈ fields ++ [⟨key, name, hk, us, e⟩], Derives .disjunction f.tokens f.tree :=
  List.forall_mem_append.mpr ⟨hf, List.forall_mem_singleton.mpr he⟩

/-- A comma or a closing bracket behind an operand. -/
theorem closeStep {stack : List Frame} {ts us : List Token} {e : Expr} (h : Stacked stack ts)
    (he : Derives .disjunction us e) {s : Symbol} {next : State}
    (hstep : closeStep stack e s = some next) : Reading next (ts ++ us ++ [.symbol s]) := by
  unfold Parser.closeStep at hstep
  split at hstep <;> cases hstep
  · cases h with
    | paren h =>
        refine (Reading.more (.paren he) h).of_eq ?_
        simp
  · cases h with
    | list hm h =>
        have hlist := Stacked.list (forall_mem_concat hm he) h
        rw [List.map_append, List.map_append] at hlist
        refine (Reading.operandOrClose hlist).of_eq ?_
        simp [commas]
  · cases h with
    | list hm h =>
        have hlist := Derives.list (forall_mem_concat hm he) (separated_commas_concat _ (us, e) _)
        rw [List.map_append] at hlist
        refine (Reading.more hlist h).of_eq ?_
        simp
  · cases h with
    | index ht h =>
        refine (Reading.more (.index ht he) h).of_eq ?_
        simp
  · cases h with
    | args chars ht hd h =>
        have hargs := Stacked.args chars ht (forall_mem_concat hd he) h
        rw [List.map_append, List.map_append] at hargs
        refine (Reading.operandOrClose hargs).of_eq ?_
        simp [commas]
  · cases h with
    | args chars ht hd h =>
        have hcall := Derives.call chars ht (forall_mem_concat hd he)
          (separated_commas_concat _ (us, e) _)
        rw [List.map_append] at hcall
        refine (Reading.more hcall h).of_eq ?_
        simp
  · cases h with
    | field hd hk h =>
        have hfields := forall_mem_concat_field hd hk he
        have hread := Reading.keyOrClose hfields h
        rw [List.map_append, List.map_append] at hread
        refine hread.of_eq ?_
        simp [commas, Field.written]
  · cases h with
    | field hd hk h =>
        have hfields := forall_mem_concat_field hd hk he
        have hobject := Derives.object hfields (separated_commas_concat _ _ _)
        rw [List.map_append] at hobject
        refine (Reading.more hobject h).of_eq ?_
        simp [Field.written]

/-- A symbol behind a complete operand. -/
theorem moreStep {stack : List Frame} {ts us : List Token} {e : Expr} (h : Stacked stack ts)
    (he : Derives .suffixed us e) {s : Symbol} {next : State}
    (hstep : moreStep stack e s = some next) : Reading next (ts ++ us ++ [.symbol s]) := by
  have hwants : (wants stack).rank ≤ Category.suffixed.rank :=
    Nat.le_trans (rank_wants_le stack) (by decide)
  unfold Parser.moreStep at hstep
  split at hstep
  · cases hstep
    exact .memberName he h
  · cases hstep
    exact .operand (.index he h)
  · split at hstep
    · next op hop =>
        cases hstep
        obtain ⟨ts', us', c', hstacked, hderives, hle, heq⟩ :=
          h.reduce op.closes_le he hwants (Nat.le_trans op.closes_le (by decide))
        rw [← op.rank_leftCategory] at hle
        rw [heq]
        refine .operand (.operand hop (hderives.loosen hle) ?_ hstacked)
        exact rank_wants_le_of_stuck (stuck_reduce op.closes stack e)
    · obtain ⟨ts', us', c', hstacked, hderives, -, heq⟩ :=
        h.reduce (Nat.zero_le 8) he hwants (Nat.zero_le _)
      rw [heq]
      exact .closeStep hstacked (hderives.loosen c'.rank_pos) hstep

/-- **One token.** -/
theorem step {st next : State} {ts : List Token} (h : Reading st ts) {t : Token}
    (hstep : st.step t = some next) : Reading next (ts ++ [t]) := by
  cases h with
  | operand h => exact .operandStep h hstep
  | operandOrClose h =>
      cases t with
      | symbol s =>
          simp only [State.step] at hstep
          split at hstep
          · next hclose =>
              cases hstep
              exact .emptyClose h hclose
          · exact .operandStep h hstep
      | _ => exact .operandStep h hstep
  | keyOrClose hd h =>
      cases t with
      | number => cases hstep
      | name chars =>
          cases hstep
          refine (Reading.colon hd (show keyName? (.name chars) = _ from rfl) h).of_eq ?_
          simp
      | text quote body =>
          cases hstep
          refine (Reading.colon hd (show keyName? (.text quote body) = _ from rfl) h).of_eq ?_
          simp
      | symbol s =>
          cases s <;> cases hstep
          refine (Reading.more (.object hd (separated_commas _)) h).of_eq ?_
          simp
  | colon hd hk h =>
      cases t with
      | symbol s =>
          cases s <;> cases hstep
          refine (Reading.operand (.field hd hk h)).of_eq ?_
          simp
      | _ => cases hstep
  | memberName ht h =>
      cases t with
      | name chars =>
          cases hstep
          refine (Reading.callOrMore chars ht h).of_eq ?_
          simp
      | _ => cases hstep
  | callOrMore chars ht h =>
      cases t with
      | symbol s =>
          by_cases hs : s = .openParen
          · subst hs
            cases hstep
            have hnone : ∀ a ∈ ([] : List (List Token × Expr)), Derives .disjunction a.1 a.2 :=
              List.forall_mem_nil _
            refine (Reading.operandOrClose (.args chars ht hnone h)).of_eq ?_
            simp [commas]
          · rw [(Ready.member _ _ _).step hs] at hstep
            refine (Reading.moreStep h (.member chars ht) hstep).of_eq ?_
            simp
      | _ => cases hstep
  | more he h =>
      cases t with
      | symbol s => exact .moreStep h he hstep
      | _ => cases hstep

/-- **Token after token.** -/
theorem run {st last : State} {ts us : List Token} (h : Reading st ts)
    (hrun : st.run us = .ok last) : Reading last (ts ++ us) := by
  induction us generalizing st ts with
  | nil =>
      cases hrun
      exact h.of_eq (List.append_nil ts).symm
  | cons t us ih =>
      rw [State.run] at hrun
      split at hrun
      · next hstep => exact (ih (h.step hstep) hrun).of_eq (List.append_cons ts t us).symm
      · cases hrun

theorem closeAll {stack : List Frame} {ts us : List Token} {e whole : Expr} (h : Stacked stack ts)
    (he : Derives .suffixed us e) (hclose : closeAll stack e = some whole) :
    Derives .disjunction (ts ++ us) whole := by
  obtain ⟨ts', us', c', hstacked, hderives, -, heq⟩ :=
    h.reduce (Nat.zero_le 8) he (Nat.le_trans (rank_wants_le stack) (by decide)) (Nat.zero_le _)
  unfold Parser.closeAll at hclose
  split at hclose
  · next hreduce =>
      cases hclose
      rw [hreduce] at hstacked hderives
      cases hstacked
      rw [heq]
      exact hderives.loosen c'.rank_pos
  · cases hclose

theorem result {st : State} {ts : List Token} {e : Expr} (h : Reading st ts)
    (hresult : st.result? = some e) : Derives .disjunction ts e := by
  cases h with
  | more he h => exact closeAll h he hresult
  | callOrMore chars ht h =>
      rw [List.append_assoc]
      exact closeAll h (.member chars ht) hresult
  | _ => cases hresult

end Reading

theorem derives_of_parse {ts : List Token} {e : Expr} (h : parse ts = .ok e) :
    Derives .disjunction ts e := by
  unfold parse at h
  split at h
  · next st hrun =>
      split at h
      · next hresult =>
          cases h
          exact ((Reading.operand .nil).run hrun).result hresult
      · cases h
  · cases h

end Parser

end Pipeline
