import Pipeline.Expr.Parser

/-!
# Grammar — the trees that token lists stand for

The grammar of expressions has nine strata, from loose to tight.  The first six are built from
operands of the next stratum and group to the left; powers group to the right; signs stand before
signed operands; and an operand without a sign is an atom with suffixes behind it.

`Derives c ts e` says that the whole list `ts` is in the stratum `c`, and that `e` is its tree.
Nothing here looks at how a list is read: `Proofs.Parsing` shows that reading a list gives exactly
the trees that it derives.
-/

namespace Pipeline

namespace Grammar

/-! ### Strata -/

/-- The strata, from loose to tight. -/
inductive Category where
  | disjunction | conjunction | equality | order | sum | product | power | signed | suffixed
  deriving DecidableEq, Repr

namespace Category

/-- The next stratum. -/
def tighter? : Category → Option Category
  | disjunction => some conjunction
  | conjunction => some equality
  | equality => some order
  | order => some sum
  | sum => some product
  | product => some power
  | power => some signed
  | signed => some suffixed
  | suffixed => none

/-- The symbols between the operands of a stratum that groups to the left, with their trees. -/
def operators : Category → List (Symbol × (Expr → Expr → Expr))
  | disjunction => [(.either, .either)]
  | conjunction => [(.both, .both)]
  | equality => [(.equal, .binary .equal), (.notEqual, .binary .notEqual)]
  | order =>
    [(.atMost, .binary .atMost), (.atLeast, .binary .atLeast), (.less, .binary .less),
      (.greater, .binary .greater)]
  | sum => [(.plus, .binary .plus), (.minus, .binary .minus)]
  | product => [(.times, .binary .times), (.divided, .binary .divided), (.modulo, .binary .modulo)]
  | power | signed | suffixed => []

end Category

/-- The signs, with their trees; a plus sign leaves none. -/
def signs : List (Symbol × (Expr → Expr)) :=
  [(.minus, .negate), (.plus, id), (.bang, .not)]

/-- The names that stand for a value. -/
def literals : List (String × Value) :=
  [("true", .bool true), ("false", .bool false), ("null", .null)]

/-- The key of a field, by a name or by a text. -/
def keyName? : Token → Option String
  | .name chars => some (String.ofList chars)
  | .text _ body => some (String.ofList body)
  | _ => none

/-! ### Parts between commas -/

/-- The parts, with commas between them.  Behind a comma there may be no further part, so that one
comma may end the list. -/
inductive Separated : List (List Token) → List Token → Prop where
  | nothing : Separated [] []
  | last (part : List Token) : Separated [part] part
  | comma (part : List Token) {parts : List (List Token)} {rest : List Token}
      (h : Separated parts rest) : Separated (part :: parts) (part ++ .symbol .comma :: rest)

/-- A field of an object: the token of its key, and the tokens and the tree of its value. -/
structure Field where
  key : Token
  name : String
  isKey : keyName? key = some name
  tokens : List Token
  tree : Expr

namespace Field

/-- The tokens of a field. -/
def written (f : Field) : List Token := f.key :: .symbol .colon :: f.tokens

/-- The entry of a field in the tree of an object. -/
def entry (f : Field) : String × Expr := (f.name, f.tree)

end Field

/-! ### Derivations -/

/-- The whole list is in the stratum and has the tree. -/
inductive Derives : Category → List Token → Expr → Prop where
  | lift {c d : Category} {ts : List Token} {e : Expr} (hd : c.tighter? = some d)
      (h : Derives d ts e) : Derives c ts e
  | left {c d : Category} {s : Symbol} {tree : Expr → Expr → Expr} {ls rs : List Token}
      {l r : Expr} (hd : c.tighter? = some d) (hs : (s, tree) ∈ c.operators)
      (hl : Derives c ls l) (hr : Derives d rs r) : Derives c (ls ++ .symbol s :: rs) (tree l r)
  | power {ls rs : List Token} {l r : Expr} (hl : Derives .signed ls l)
      (hr : Derives .power rs r) :
      Derives .power (ls ++ .symbol .power :: rs) (.binary .power l r)
  | sign {s : Symbol} {tree : Expr → Expr} {ts : List Token} {e : Expr}
      (hs : (s, tree) ∈ signs) (h : Derives .signed ts e) :
      Derives .signed (.symbol s :: ts) (tree e)
  | number (whole fraction : List Char) :
      Derives .suffixed [.number whole fraction] (.number (Token.numberValue whole fraction))
  | text (quote : Quote) (body : List Char) :
      Derives .suffixed [.text quote body] (.literal (.text (String.ofList body)))
  | literal {chars : List Char} {v : Value} (h : (String.ofList chars, v) ∈ literals) :
      Derives .suffixed [.name chars] (.literal v)
  | name {chars : List Char} (h : ∀ v, (String.ofList chars, v) ∉ literals) :
      Derives .suffixed [.name chars] (.name (String.ofList chars))
  | list {members : List (List Token × Expr)} {inner : List Token}
      (hm : ∀ m ∈ members, Derives .disjunction m.1 m.2)
      (hs : Separated (members.map (·.1)) inner) :
      Derives .suffixed (.symbol .openBracket :: (inner ++ [.symbol .closeBracket]))
        (.list (members.map (·.2)))
  | object {fields : List Field} {inner : List Token}
      (hf : ∀ f ∈ fields, Derives .disjunction f.tokens f.tree)
      (hs : Separated (fields.map Field.written) inner) :
      Derives .suffixed (.symbol .openBrace :: (inner ++ [.symbol .closeBrace]))
        (.object (fields.map Field.entry))
  | paren {ts : List Token} {e : Expr} (h : Derives .disjunction ts e) :
      Derives .suffixed (.symbol .openParen :: (ts ++ [.symbol .closeParen])) e
  | member {ts : List Token} {e : Expr} (chars : List Char) (h : Derives .suffixed ts e) :
      Derives .suffixed (ts ++ [.symbol .dot, .name chars]) (.member e (String.ofList chars))
  | call {ts inner : List Token} {e : Expr} (chars : List Char)
      {args : List (List Token × Expr)} (h : Derives .suffixed ts e)
      (ha : ∀ a ∈ args, Derives .disjunction a.1 a.2)
      (hs : Separated (args.map (·.1)) inner) :
      Derives .suffixed
        (ts ++ .symbol .dot :: .name chars :: .symbol .openParen ::
          (inner ++ [.symbol .closeParen]))
        (.call e (String.ofList chars) (args.map (·.2)))
  | index {ts inner : List Token} {e i : Expr} (h : Derives .suffixed ts e)
      (hi : Derives .disjunction inner i) :
      Derives .suffixed (ts ++ .symbol .openBracket :: (inner ++ [.symbol .closeBracket]))
        (.index e i)

/-! ### From tight to loose -/

/-- The place of a stratum, counted from the loosest one. -/
def Category.rank : Category → Nat
  | disjunction => 1
  | conjunction => 2
  | equality => 3
  | order => 4
  | sum => 5
  | product => 6
  | power => 7
  | signed => 8
  | suffixed => 9

theorem Category.rank_pos (c : Category) : 1 ≤ c.rank := by
  cases c <;> decide

theorem Category.rank_of_tighter? {c d : Category} (h : c.tighter? = some d) :
    d.rank = c.rank + 1 := by
  cases c <;> cases h <;> rfl

theorem Category.eq_of_rank_eq {c d : Category} (h : c.rank = d.rank) : c = d := by
  cases c <;> cases d <;> first | rfl | cases h

theorem Category.exists_tighter? {c d : Category} (h : c.rank < d.rank) :
    ∃ next, c.tighter? = some next := by
  cases c with
  | suffixed => exact absurd h (by cases d <;> decide)
  | _ => exact ⟨_, rfl⟩

/-- What is in a stratum is in all looser ones. -/
theorem Derives.loosen {c d : Category} {ts : List Token} {e : Expr} (h : Derives d ts e)
    (hrank : c.rank ≤ d.rank) : Derives c ts e := by
  induction hn : d.rank - c.rank generalizing c with
  | zero =>
      obtain rfl : c = d := Category.eq_of_rank_eq (by omega)
      exact h
  | succ n ih =>
      obtain ⟨next, hnext⟩ := Category.exists_tighter? (show c.rank < d.rank by omega)
      have hrank' := Category.rank_of_tighter? hnext
      exact .lift hnext (ih (by omega) (by omega))

/-! ### Lists of parts -/

theorem Separated.cons_cases {part : List Token} {parts : List (List Token)} {inner : List Token}
    (h : Separated (part :: parts) inner) :
    (parts = [] ∧ inner = part) ∨
      ∃ rest, inner = part ++ .symbol .comma :: rest ∧ Separated parts rest := by
  cases h with
  | last => exact .inl ⟨rfl, rfl⟩
  | comma _ h => exact .inr ⟨_, rfl, h⟩

/-- The parts, each with a comma behind it. -/
def commas (parts : List (List Token)) : List Token :=
  parts.flatMap (· ++ [.symbol .comma])

theorem separated_commas : ∀ parts : List (List Token), Separated parts (commas parts)
  | [] => .nothing
  | part :: parts => by
      rw [commas, List.flatMap_cons, List.append_assoc]
      exact .comma part (separated_commas parts)

theorem separated_commas_concat {α : Type} (written : α → List Token) (last : α) :
    ∀ xs : List α, Separated ((xs ++ [last]).map written) (commas (xs.map written) ++ written last)
  | [] => .last _
  | x :: xs => by
      rw [List.map_cons, commas, List.flatMap_cons, List.append_assoc, List.append_assoc]
      exact .comma _ (separated_commas_concat written last xs)

end Grammar

end Pipeline
