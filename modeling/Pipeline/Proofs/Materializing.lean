import Pipeline.Proofs.Building
import Pipeline.Proofs.Holes
import Pipeline.Proofs.Meaning
import Pipeline.Proofs.Runs

/-!
# Materializing — a sequence as one list, and back

`-a` makes one item of a whole sequence: the list of its items, or, where some of them failed, one
failure that names them all and holds the list.  Nothing is lost on the way.  Behind it
`--error e.value` takes the list out of such a failure, and `-m x` hands the members of the list on
one by one.

* `Item.asOne_of_values`, `Item.asOne_of_failed`: which of the two the one item is, and what it
  says.
* `Interpreter.materializing_lossless`: the three stages together give back every item in its place,
  a failure as the object of its fields.

An item that is a list stays one, for a list is expanded by one level only; and no items are an
empty list, which is expanded into no items.
-/

namespace Pipeline

namespace Item

/-! ### Gathering -/

theorem values_or_failed (xs : List Item) :
    (∀ x ∈ xs, ∃ v, x = .value v) ∨ ∃ e, .failure e ∈ xs := by
  by_cases h : ∃ e, .failure e ∈ xs
  · exact .inr h
  · refine .inl fun x hx => ?_
    cases x with
    | value v => exact ⟨v, rfl⟩
    | failure e => exact absurd ⟨e, hx⟩ h

/-- Several items of which none failed are their list. -/
theorem asOne_of_values {xs : List Item} (h : ∀ x ∈ xs, ∃ v, x = .value v) :
    asOne xs = .value (.list (xs.map asMember)) := by
  rw [asOne, failures_eq_nil_iff.mpr h]

/-- Several items of which one failed are a failure that names all that failed, in their order, and
holds the list. -/
theorem asOne_of_failed {xs : List Item} (h : ∃ e, .failure e ∈ xs) :
    asOne xs = .failure
      { message := "\n".intercalate ((failures xs).map (·.message))
        cause := "; ".intercalate ((failures xs).map (·.cause))
        value := some (.list (xs.map asMember)) } := by
  obtain ⟨e, he⟩ := h
  cases hfailures : failures xs with
  | nil =>
      obtain ⟨v, hv⟩ := failures_eq_nil_iff.mp hfailures _ he
      cases hv
  | cons e es => rw [asOne, hfailures]

/-- The one item of several is a list if and only if none of them failed. -/
theorem asOne_eq_list_iff (xs : List Item) :
    (∃ members, asOne xs = .value (.list members)) ↔ ∀ x ∈ xs, ∃ v, x = .value v := by
  refine ⟨fun ⟨members, hlist⟩ => ?_, fun h => ⟨_, asOne_of_values h⟩⟩
  obtain h | h := values_or_failed xs
  · exact h
  · rw [asOne_of_failed h] at hlist
    cases hlist

/-- Items of which none failed are the members of their list. -/
theorem map_asMember_of_values {xs : List Item} (h : ∀ x ∈ xs, ∃ v, x = .value v) :
    xs.map (fun x => .value x.asMember) = xs := by
  refine (List.map_congr_left fun x hx => ?_).trans (List.map_id xs)
  obtain ⟨v, rfl⟩ := h x hx
  rfl

end Item

namespace Stage

/-! ### The two sources -/

theorem ofSource_value : Expr.ofSource "x" = .ok (.name "x") := by
  have hvalid : (Token.name ['x']).Valid := ⟨'x', [], rfl, by decide, List.forall_mem_nil _⟩
  exact Expr.ofSource_eq_ok_iff.mpr ⟨_, by decide, Token.lex_spelling hvalid, rfl⟩

theorem ofSource_errorValue : Expr.ofSource "e.value" = .ok (.member (.name "e") "value") := by
  have hchars : "e.value".toList = ['e', '.', 'v', 'a', 'l', 'u', 'e'] := by decide +kernel
  have hname : Token.takeOne 'e' ['.', 'v', 'a', 'l', 'u', 'e'] =
      .ok (.name ['e'], ['.', 'v', 'a', 'l', 'u', 'e']) := rfl
  have hdot : Token.takeOne '.' ['v', 'a', 'l', 'u', 'e'] =
      .ok (.symbol .dot, ['v', 'a', 'l', 'u', 'e']) := rfl
  have hkey : Token.takeOne 'v' ['a', 'l', 'u', 'e'] =
      .ok (.name ['v', 'a', 'l', 'u', 'e'], []) := rfl
  have hcut : Token.cut ['e', '.', 'v', 'a', 'l', 'u', 'e'] =
      .ok [.name ['e'], .symbol .dot, .name ['v', 'a', 'l', 'u', 'e']] := by
    rw [Token.cut_of_takeOne (by decide) hname, Token.cut_of_takeOne (by decide) hdot,
      Token.cut_of_takeOne (by decide) hkey, Token.cut_nil]
    rfl
  have hlex := Token.lex_of_cut hcut (List.cons_ne_nil _ _)
  rw [← hchars] at hlex
  exact Expr.ofSource_eq_ok_iff.mpr ⟨_, by decide, hlex, rfl⟩

/-- A source that is an expression gives what the expression stands for. -/
theorem call_prepare_of_ofSource {services : Services} {source : String} {e : Expr}
    (h : Expr.ofSource source = .ok e) {b : Bindings} {env : Environment} {item : Item}
    (heval : e.eval b env = .ok item) :
    (Host.prepare services (.source source)).call env b = item := by
  have hcompile : Evaluator.standard.compile source = .ok () := by
    simp only [Evaluator.standard, h]
  have hevaluate : Evaluator.standard.evaluate source b env = .ok item := by
    simp only [Evaluator.standard, evalSource, h, heval]
    rfl
  rw [Host.prepare, Prepared.ofPhrase, hcompile]
  simp only [Prepared.call, hevaluate]

/-- The value of an item is the item, whatever is imported. -/
theorem answerFor_value (services : Services) (env : Environment) (x : Item) (i : Nat) :
    (Phrase.source "x").answerFor services env x i = x :=
  (Host.call_prepare services env (.ofItem x i) (.source "x")).symm.trans
    (call_prepare_of_ofSource ofSource_value rfl)

/-- A failure that holds a value gives it up. -/
theorem answerForFailure_value (services : Services) (env : Environment) {e : Failure} {v : Value}
    (h : e.value = some v) (i : Nat) :
    (Phrase.source "e.value").answerForFailure services env (.failure e) i = .value v := by
  obtain ⟨message, cause, held⟩ := e
  cases h
  exact (Host.call_prepare services env (.ofFailure (.failure _) i) (.source "e.value")).symm.trans
    (call_prepare_of_ofSource ofSource_errorValue rfl)

/-! ### The three plans -/

theorem items_collect_gather (input : Plan Event) (m : Memory) :
    ((Plan.collect Item.gather input).run m).1.items = [.asOne (input.run m).1.items] := by
  rw [Plan.run, Trace.items_burst, ← Item.gather_eq_asOne]
  exact congrArg (fun xs => [Item.gather xs]) (congrArg Traced.value (Trace.collect_eq _))

/-- The list of several items is taken out of the failure that holds it. -/
theorem items_errorHandlerPlan {services : Services} {env : Environment} {input : Plan Event}
    {m : Memory} {xs : List Item} (h : (input.run m).1.items = [.asOne xs]) :
    ((errorHandlerPlan input (Host.prepare services (.source "e.value")) env).run m).1.items =
      [.value (.list (xs.map Item.asMember))] := by
  rw [errorHandlerPlan_eq, Plan.run, Trace.items_map, h]
  obtain hvalues | hfailed := Item.values_or_failed xs
  · rw [Item.asOne_of_values hvalues]
    rfl
  · rw [Item.asOne_of_failed hfailed]
    exact congrArg (fun x => [x]) (answerForFailure_value services env rfl 0)

/-- A list is expanded into its members. -/
theorem items_flatMapPlan {services : Services} {env : Environment} {input : Plan Event}
    {m : Memory} {members : List Value} (h : (input.run m).1.items = [.value (.list members)]) :
    ((flatMapPlan input (Host.prepare services (.source "x")) env).run m).1.items =
      members.map .value := by
  rw [flatMapPlan_eq, Plan.run, Trace.items_flatMap, h]
  simp only [List.zipIdx_cons, List.zipIdx_nil, List.flatMap_cons, List.flatMap_nil,
    Traced.value_pure, answerFor_value, List.append_nil]
  rfl

end Stage

namespace Interpreter
open Stage

/-- **Materializing loses nothing.**  From every state, whatever the current sequence is, the
stages are built without events, and every run of what they build finds these items `xs` of the
current sequence:

* `-a`, `--error e.value`, `-m x` yields the items again, one for one, a value as it is and a
  failure as the object of its message, its cause and the value that it holds, if there is one;
* `-a`, `-m x` yields the items themselves, if none of them failed;
* `-a` yields one item.  It is a list if and only if none failed, and then it is the list of the
  items; otherwise it is a failure with the messages of those that failed, one to a line, and their
  causes, divided by semicolons, in the order of the items, and holds the list. -/
theorem materializing_lossless (services : Services) (s : State) :
    ∃ gathered expanded restored : State,
      runFrom services s ["-a"] = ⟨[], .ok gathered⟩ ∧
      runFrom services s ["-a", "-m", "x"] = ⟨[], .ok expanded⟩ ∧
      runFrom services s ["-a", "--error", "e.value", "-m", "x"] = ⟨[], .ok restored⟩ ∧
      ∀ m : Memory,
        let xs := (s.input.run m).1.items
        let members := xs.map fun
          | .value v => v
          | .failure ⟨message, cause, none⟩ =>
            .object [("message", .text message), ("cause", .text cause)]
          | .failure ⟨message, cause, some held⟩ =>
            .object [("message", .text message), ("cause", .text cause), ("value", held)]
        (restored.input.run m).1.items = members.map .value ∧
        ((∀ x ∈ xs, ∃ v, x = .value v) → (expanded.input.run m).1.items = xs) ∧
        ∃ whole, (gathered.input.run m).1.items = [whole] ∧
          ((∃ list, whole = .value (.list list)) ↔ ∀ x ∈ xs, ∃ v, x = .value v) ∧
          ((∀ x ∈ xs, ∃ v, x = .value v) → whole = .value (.list members)) ∧
          ((∃ e, .failure e ∈ xs) → whole = .failure
            { message := "\n".intercalate ((Item.failures xs).map (·.message))
              cause := "; ".intercalate ((Item.failures xs).map (·.cause))
              value := some (.list members) }) := by
  have hgathered : readAll ["-a"] = ([(.wholeArray, 1)], none) := by decide +kernel
  have hexpanded : readAll ["-a", "-m", "x"] =
      ([(.wholeArray, 1), (.flatMap (.source "x"), 2)], none) := by decide +kernel
  have hrestored : readAll ["-a", "--error", "e.value", "-m", "x"] =
      ([(.wholeArray, 1), (.errorHandler (.source "e.value"), 2), (.flatMap (.source "x"), 2)],
        none) := by decide +kernel
  refine ⟨_, _, _, runFrom_of_readAll hgathered rfl, runFrom_of_readAll hexpanded rfl,
    runFrom_of_readAll hrestored rfl, fun m => ?_⟩
  intro xs members
  have hmembers : members = xs.map Item.asMember :=
    List.map_congr_left fun x _ => by rcases x with v | ⟨message, cause, _ | held⟩ <;> rfl
  have hwhole : ((Plan.collect Item.gather s.input).run m).1.items = [.asOne xs] :=
    items_collect_gather s.input m
  rw [hmembers]
  refine ⟨items_flatMapPlan (items_errorHandlerPlan hwhole), fun hvalues => ?_, _, hwhole,
    Item.asOne_eq_list_iff xs, Item.asOne_of_values, Item.asOne_of_failed⟩
  rw [Item.asOne_of_values hvalues] at hwhole
  refine (items_flatMapPlan hwhole).trans ?_
  rw [List.map_map]
  exact Item.map_asMember_of_values hvalues

/-- A list, a failure, and a failure that was gathered before and holds a list with one in it. -/
def mixedItems : List Item :=
  [.value (.list [.text "q"]), .failure ⟨"m", "c", none⟩,
    .failure ⟨"n", "d", some (.list [.text "p",
      .object [("message", .text "n"), ("cause", .text "d")]])⟩]

/-- They come back one for one, the failures as objects; and so do a list and null, as they are. -/
theorem materializing_lossless_gathered :
    ∃ gathered restored expanded : State,
      let members := [Value.list [.text "q"],
        .object [("message", .text "m"), ("cause", .text "c")],
        .object [("message", .text "n"), ("cause", .text "d"), ("value", .list [.text "p",
          .object [("message", .text "n"), ("cause", .text "d")]])]]
      let services := Services.mk Services.noCommands Services.noModules
      runFrom services (.initial (some mixedItems)) ["-a"] = ⟨[], .ok gathered⟩ ∧
      gathered.input.trace.items = [.failure ⟨"m\nn", "c; d", some (.list members)⟩] ∧
      runFrom services (.initial (some mixedItems)) ["-a", "--error", "e.value", "-m", "x"] =
        ⟨[], .ok restored⟩ ∧
      restored.input.trace.items = members.map .value ∧
      runFrom services (.initial (some [.value (.list [.text "q"]), .value .null]))
        ["-a", "-m", "x"] = ⟨[], .ok expanded⟩ ∧
      expanded.input.trace.items = [.value (.list [.text "q"]), .value .null] := by
  obtain ⟨gathered, _, restored, hgathered, -, hrestored, hitems⟩ :=
    materializing_lossless ⟨Services.noCommands, Services.noModules⟩ (.initial (some mixedItems))
  obtain ⟨_, expanded, _, -, hexpanded, -, hvalues⟩ :=
    materializing_lossless ⟨Services.noCommands, Services.noModules⟩
      (.initial (some [.value (.list [.text "q"]), .value .null]))
  obtain ⟨hback, -, whole, hwhole, -, -, hfailed⟩ := hitems .empty
  obtain rfl := hfailed ⟨⟨"m", "c", none⟩, .tail _ (.head _)⟩
  obtain ⟨-, hsame, -⟩ := hvalues .empty
  have hplain : ∀ x ∈ [Item.value (.list [.text "q"]), .value .null], ∃ v, x = .value v := by
    simp
  exact ⟨gathered, restored, expanded, hgathered, hwhole, hrestored, hback, hexpanded,
    hsame hplain⟩

end Interpreter

end Pipeline
