import Pipeline.Proofs.Reading

/-!
# Extent — the tokens of the stage at the front

How far the stage at the front of a token list reaches can be said before it is read
(`Stage.extent`): a marker with fixed arguments reaches as far as these, whether they are there or
not, and any other stage as far as its run of tokens.  A stage that is read takes just these tokens
(`extent_of_parse`).

**Nothing else is looked at** (`parse_congr`): lists whose front stages reach equally far, over the
same tokens, are read alike, be it as a stage or with an error.
-/

namespace Pipeline

namespace Munch

/-- The tokens of a run, with the quoting token. -/
def tokens (m : Munch) : List String :=
  if m.quoted then quoteToken :: m.run else m.run

theorem not_isMarker_of_mem_run (xs : List String) :
    ∀ token ∈ (take xs).run, isMarker token = false := by
  intro token hmem
  cases xs with
  | nil => cases hmem
  | cons first rest =>
      by_cases hq : first = quoteToken
      · rw [take, if_pos hq] at hmem
        simpa using List.all_eq_true.mp List.all_takeWhile token hmem
      · rw [take, if_neg hq] at hmem
        simpa using List.all_eq_true.mp List.all_takeWhile token hmem

theorem take_consumed (xs : List String) : xs.take (take xs).consumed = (take xs).tokens := by
  cases xs with
  | nil => rfl
  | cons first rest =>
      by_cases hq : first = quoteToken
      · rw [take, if_pos hq]
        have hrun := List.prefix_iff_eq_take.mp (List.takeWhile_prefix (l := rest) (!isMarker ·))
        simp only [consumed, tokens, if_true, List.take_succ_cons, ← hrun, hq]
      · rw [take, if_neg hq]
        have hrun :=
          List.prefix_iff_eq_take.mp (List.takeWhile_prefix (l := first :: rest) (!isMarker ·))
        simp only [consumed, tokens, Bool.false_eq_true, if_false, Nat.add_zero, ← hrun]

/-- A run is known by its tokens, for the quoting token is in no run. -/
theorem eq_of_tokens_eq {m m' : Munch} (hm : ∀ token ∈ m.run, isMarker token = false)
    (hm' : ∀ token ∈ m'.run, isMarker token = false) (h : m.tokens = m'.tokens) : m = m' := by
  have hquote := isMarker_quoteToken
  obtain ⟨quoted, run⟩ := m
  obtain ⟨quoted', run'⟩ := m'
  cases quoted <;> cases quoted' <;> simp only [tokens, if_true, Bool.false_eq_true, if_false] at h
  · rw [h]
  · have hmem : quoteToken ∈ run := by rw [h]; exact List.mem_cons_self ..
    exact absurd hquote (by rw [hm _ hmem]; decide)
  · have hmem : quoteToken ∈ run' := by rw [← h]; exact List.mem_cons_self ..
    exact absurd hquote (by rw [hm' _ hmem]; decide)
  · rw [(List.cons.inj h).2]

/-- Lists whose runs are equally long, over the same tokens, have the same run. -/
theorem take_congr {xs ys : List String} (hc : (take ys).consumed = (take xs).consumed)
    (h : ys.take (take xs).consumed = xs.take (take xs).consumed) : take ys = take xs := by
  refine eq_of_tokens_eq (not_isMarker_of_mem_run ys) (not_isMarker_of_mem_run xs) ?_
  rw [← take_consumed, ← take_consumed, hc, h]

theorem takeWhile_of_append {p : String → Bool} {xs zs : List String}
    (h : ((xs ++ zs).takeWhile p).length ≤ xs.length) :
    xs.takeWhile p = (xs ++ zs).takeWhile p := by
  rw [List.takeWhile_append] at h ⊢
  split at h
  · next hall =>
      rw [if_pos hall, (List.takeWhile_prefix p).eq_of_length hall]
      rw [List.length_append] at h
      have hnil : zs.takeWhile p = [] := List.length_eq_zero_iff.mp (by omega)
      rw [hnil, List.append_nil]
  · next hall => rw [if_neg hall]

/-- A run that ends in the first part of the tokens is the run of that part. -/
theorem take_of_append {xs zs : List String} (h : (take (xs ++ zs)).consumed ≤ xs.length) :
    take xs = take (xs ++ zs) := by
  cases xs with
  | nil =>
      have hzero : (take zs).consumed = 0 := Nat.le_zero.mp h
      refine take_congr hzero.symm ?_
      rw [List.nil_append, hzero, List.take_zero, List.take_zero]
  | cons first rest =>
      rw [List.cons_append] at h ⊢
      by_cases hq : first = quoteToken
      · rw [take, if_pos hq, take, if_pos hq] at *
        have hrun : ((rest ++ zs).takeWhile (!isMarker ·)).length ≤ rest.length :=
          Nat.le_of_succ_le_succ h
        rw [takeWhile_of_append hrun]
      · rw [take, if_neg hq, take, if_neg hq] at *
        rw [Munch.consumed, ← List.cons_append] at h
        rw [takeWhile_of_append h, List.cons_append]

end Munch

namespace Stage

/-! ### The extent of a stage -/

/-- How many tokens a stage reaches over with its marker. -/
def markedExtent (marker : Marker) (args : List String) : Nat :=
  match marker with
  | .wholeArray | .drop | .disableStacking | .suppressPrint => 1
  | .combine | .name | .seek | .stackRef => 2
  | .importModule => 3
  | _ => (Munch.take args).consumed + 1

/-- How many tokens the stage at the front reaches over. -/
def extent : List String → Nat
  | [] => 0
  | first :: args =>
    match Marker.ofToken? first with
    | some marker => markedExtent marker args
    | none => (Munch.take (first :: args)).consumed

theorem extent_of_marker {first : String} {marker : Marker}
    (h : Marker.ofToken? first = some marker) (args : List String) :
    extent (first :: args) = markedExtent marker args := by
  simp only [extent, h]

theorem extent_of_text {first : String} (h : Marker.ofToken? first = none) (args : List String) :
    extent (first :: args) = (Munch.take (first :: args)).consumed := by
  simp only [extent, h]

/-- **A stage that is read takes the tokens that it reaches over.** -/
theorem extent_of_parse {tokens : List String} {stage : Stage} {n : Nat}
    (h : parse tokens = .ok (stage, n)) : extent tokens = n := by
  cases tokens with
  | nil => cases h
  | cons first args =>
      cases hf : Marker.ofToken? first with
      | none =>
          rw [parse_of_text hf] at h
          rw [extent_of_text hf]
          cases h
          rfl
      | some marker =>
          rw [parse_of_marker hf] at h
          rw [extent_of_marker hf]
          cases marker
          case combine =>
            obtain ⟨_, -, -, hr⟩ := argument_bind_eq_ok h
            dsimp only at hr
            split at hr <;> cases hr
            rfl
          case stackRef =>
            obtain ⟨_, -, -, hr⟩ := argument_bind_eq_ok h
            split at hr <;> cases hr
            rfl
          case name | seek =>
            obtain ⟨_, -, -, hr⟩ := argument_bind_eq_ok h
            cases hr
            rfl
          case importModule =>
            obtain ⟨_, -, -, hr⟩ := argument_bind_eq_ok h
            obtain ⟨_, -, -, hr⟩ := argument_bind_eq_ok hr
            cases hr
            rfl
          case reduce =>
            simp only [parseMarked, parseReduce] at h
            split at h
            · split at h <;> cases h
              rfl
            · cases h
          all_goals
            cases h
            rfl

theorem extent_pos (first : String) (args : List String) : 0 < extent (first :: args) := by
  cases hf : Marker.ofToken? first with
  | none =>
      rw [extent_of_text hf]
      exact consumed_take_pos args hf
  | some marker =>
      rw [extent_of_marker hf]
      cases marker <;> simp [markedExtent, Munch.take, Munch.consumed]

/-- A stage that ends in the first part of the tokens reaches as far in that part alone. -/
theorem extent_of_append {xs zs : List String} (h : extent (xs ++ zs) ≤ xs.length) :
    extent xs = extent (xs ++ zs) := by
  cases xs with
  | nil =>
      cases zs with
      | nil => rfl
      | cons first args => exact absurd h (Nat.not_le.mpr (extent_pos first args))
  | cons first args =>
      rw [List.cons_append] at h ⊢
      cases hf : Marker.ofToken? first with
      | none =>
          rw [extent_of_text hf, ← List.cons_append] at h
          rw [extent_of_text hf, extent_of_text hf, Munch.take_of_append h, List.cons_append]
      | some marker =>
          rw [extent_of_marker hf] at h
          rw [extent_of_marker hf, extent_of_marker hf]
          cases marker
          case wholeArray | drop | disableStacking | suppressPrint => rfl
          case combine | name | seek | stackRef | importModule => rfl
          all_goals
            simp only [markedExtent] at h ⊢
            rw [Munch.take_of_append (Nat.le_of_succ_le_succ h)]

/-- A stage takes no more tokens than there are. -/
theorem consumed_parse_le {tokens : List String} {stage : Stage} {n : Nat}
    (h : parse tokens = .ok (stage, n)) : n ≤ tokens.length := by
  have hend : StartsStage [] := trivial
  exact (parse_append h hend).1

/-! ### Reading within the extent -/

theorem argument_congr {args args' : List String} {k : Nat} (h : args'.take k = args.take k)
    (marker : Marker) (need : Need) {i : Nat} (hi : i < k) :
    argument marker need args' i = argument marker need args i := by
  have hi : args'[i]? = args[i]? := by
    rw [← List.getElem?_take_of_lt hi, h, List.getElem?_take_of_lt hi]
  simp only [argument, hi]

theorem parseMarked_congr {marker : Marker} {args args' : List String} {k : Nat}
    (hargs : markedExtent marker args = k + 1) (hargs' : markedExtent marker args' = k + 1)
    (h : args'.take k = args.take k) : parseMarked marker args' = parseMarked marker args := by
  cases marker
  case wholeArray | drop | disableStacking | suppressPrint => rfl
  case name | seek | combine | stackRef =>
    obtain rfl : 1 = k := Nat.succ.inj hargs
    simp only [parseMarked, argument_congr h _ _ Nat.zero_lt_one]
  case importModule =>
    obtain rfl : 2 = k := Nat.succ.inj hargs
    simp only [parseMarked, argument_congr h _ _ Nat.zero_lt_two,
      argument_congr h _ _ Nat.one_lt_two]
  all_goals
    have hrun : Munch.take args' = Munch.take args := by
      refine Munch.take_congr (Nat.succ.inj (hargs'.trans hargs.symm)) ?_
      rw [show (Munch.take args).consumed = k from Nat.succ.inj hargs, h]
    simp only [parseMarked, parseReduce, withPhrase, hrun]

/-- The front stages of the two lists reach equally far, over the same tokens. -/
def SameFront (tokens other : List String) : Prop :=
  extent other = extent tokens ∧ other.take (extent tokens) = tokens.take (extent tokens)

/-- **Reading looks at the extent of a stage.** -/
theorem parse_congr {tokens other : List String} (h : SameFront tokens other) :
    parse other = parse tokens := by
  obtain ⟨hextent, h⟩ := h
  cases tokens with
  | nil =>
      cases other with
      | nil => rfl
      | cons first args => exact absurd hextent (Nat.ne_of_gt (extent_pos first args))
  | cons first args =>
      obtain ⟨k, hk⟩ := Nat.exists_eq_succ_of_ne_zero (Nat.ne_of_gt (extent_pos first args))
      rw [hk] at hextent h
      cases other with
      | nil => cases hextent
      | cons first' args' =>
          rw [List.take_succ_cons, List.take_succ_cons] at h
          obtain ⟨rfl, hargs⟩ := List.cons.inj h
          cases hf : Marker.ofToken? first' with
          | none =>
              rw [extent_of_text hf] at hk hextent
              have hrun := Munch.take_congr (hextent.trans hk.symm) (by
                rw [hk, List.take_succ_cons, List.take_succ_cons, hargs])
              rw [parse_of_text hf, parse_of_text hf, hrun]
          | some marker =>
              rw [extent_of_marker hf] at hk hextent
              rw [parse_of_marker hf, parse_of_marker hf, parseMarked_congr hk hextent hargs]

/-- A stage is read the same without tokens behind those that it takes. -/
theorem parse_of_append {xs zs : List String} {stage : Stage} {n : Nat}
    (h : parse (xs ++ zs) = .ok (stage, n)) (hn : n ≤ xs.length) : parse xs = .ok (stage, n) := by
  have hextent := extent_of_parse h
  rw [← h]
  refine parse_congr ⟨extent_of_append (by rw [hextent]; exact hn), ?_⟩
  rw [hextent, List.take_append_of_le_length hn]

end Stage

end Pipeline
