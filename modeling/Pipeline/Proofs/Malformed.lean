import Pipeline.Proofs.Building
import Pipeline.Proofs.Lexing
import Pipeline.Proofs.Runs

/-!
# Malformed — stages whose phrase is no expression

A source that the evaluator refuses is no error of building: the stage is built with it, and what
the refused source gives, on every use, is one failure that names it (`Failure.refused`).  What
becomes of an item then depends on the stage.

* An evaluation puts the failure in the place of every item, and so does an expansion.
* A filter asks whether what the source gives counts as true, and a failure does.  So it hands
  every item on as it is, and the failure is seen nowhere.

`Stage.refused_runs` says so for every input, and `Interpreter.filter_hands_on` shows a value that
passes a filter by a source that was refused.
-/

namespace Pipeline

/-- The failure on every use of a source that was refused for this cause. -/
def Failure.refused (source cause : String) : Failure where
  message := compileMessage source
  cause

namespace Stage

/-- What a refused source gives does not depend on what is bound. -/
theorem call_prepare_of_refused {host : Host} {source cause : String}
    (h : host.evaluator.compile source = .error cause) (env : Environment) (b : Bindings) :
    (host.prepare (.source source)).call env b = .failure (.refused source cause) := by
  rw [Host.prepare, Prepared.ofPhrase, h]
  rfl

section Plans

variable {p : Prepared} {env : Environment} {failure : Failure}

theorem items_evaluatePlan_of_failing (h : ∀ b, p.call env b = .failure failure)
    (input : Plan Event) (m : Memory) :
    ((evaluatePlan (some input) p env).run m).1.items =
      List.replicate (input.run m).1.items.length (.failure failure) := by
  simp only [evaluatePlan, Plan.run, Trace.items_map, Traced.value_pure, h, List.map_const',
    List.length_zipIdx]

theorem items_flatMapPlan_of_failing (h : ∀ b, p.call env b = .failure failure)
    (input : Plan Event) (m : Memory) :
    ((flatMapPlan input p env).run m).1.items =
      List.replicate (input.run m).1.items.length (.failure failure) := by
  -- a failure is expanded into itself alone
  have hone : ∀ b, (p.call env b).expand = [.failure failure] := fun b => by rw [h]; rfl
  simp only [flatMapPlan, Plan.run, Trace.items_flatMap, Traced.value_pure, hone, List.flatMap_def,
    List.map_const', List.flatten_replicate_singleton, List.length_zipIdx]

/-- A failure counts as true, so nothing is filtered out. -/
theorem items_filterPlan_of_failing (h : ∀ b, p.call env b = .failure failure)
    (input : Plan Event) (m : Memory) :
    ((filterPlan input p env).run m).1.items = (input.run m).1.items := by
  have htrue : ∀ b, (p.call env b).isTruthy = true := fun b => by rw [h]; rfl
  simp only [filterPlan, Plan.run, Trace.items_filter, Traced.value_pure]
  rw [List.filter_eq_self.mpr fun x _ => htrue _, List.zipIdx_map_fst]

end Plans

/-- **Stages whose source is refused.**  On every input, an evaluation and an expansion yield the
failure that names the source, one for each item; a filter yields the items themselves. -/
theorem refused_runs {host : Host} {source cause : String}
    (h : host.evaluator.compile source = .error cause) {s : State} {input : Sequence Event}
    (hc : s.current = some input) :
    ∃ evaluated expanded filtered : State,
      apply host (.evaluate (.source source)) s = ⟨[], .ok evaluated⟩ ∧
      apply host (.flatMap (.source source)) s = ⟨[], .ok expanded⟩ ∧
      apply host (.filter (.source source)) s = ⟨[], .ok filtered⟩ ∧
      ∀ m : Memory,
        (evaluated.input.run m).1.items =
          List.replicate (input.plan.run m).1.items.length (.failure (.refused source cause)) ∧
        (expanded.input.run m).1.items =
          List.replicate (input.plan.run m).1.items.length (.failure (.refused source cause)) ∧
        (filtered.input.run m).1.items = (input.plan.run m).1.items := by
  have hcall := call_prepare_of_refused h s.env
  have hinput : s.input = input.plan := by rw [State.input, hc]
  refine ⟨_, _, _, rfl, rfl, rfl, fun m => ⟨?_, ?_, ?_⟩⟩
  · rw [hc]
    exact items_evaluatePlan_of_failing hcall input.plan m
  · rw [hinput]
    exact items_flatMapPlan_of_failing hcall input.plan m
  · rw [hinput]
    exact items_filterPlan_of_failing hcall input.plan m

theorem lex_lacking : Token.lex "x >".toList = .ok [.name ['x'], .symbol .greater] := by
  have hchars : "x >".toList = ['x', ' ', '>'] := by decide +kernel
  have hname : Token.takeOne 'x' [' ', '>'] = .ok (.name ['x'], [' ', '>']) := rfl
  have hsymbol : Token.takeOne '>' [] = .ok (.symbol .greater, []) := rfl
  have hcut : Token.cut ['x', ' ', '>'] = .ok [.name ['x'], .symbol .greater] := by
    rw [Token.cut_of_takeOne (by decide) hname, Token.cut_blank (by decide),
      Token.cut_of_takeOne (by decide) hsymbol, Token.cut_nil]
    rfl
  rw [hchars]
  exact Token.lex_of_cut hcut (List.cons_ne_nil _ _)

theorem compile_lacking : Evaluator.standard.compile "x >" = .error "found end of input" := by
  have hsource : Expr.ofSource "x >" = .error (.unexpected .endOfInput) := by
    rw [Expr.ofSource, lex_lacking]
    rfl
  simp only [Evaluator.standard, hsource]
  rfl

/-- `x >` lacks an operand: an evaluation and an expansion fail on both items, and a filter hands
both on. -/
theorem refused_runs_lacking :
    Evaluator.standard.compile "x >" = .error "found end of input" ∧
      ∃ evaluated expanded filtered : State,
        apply (.inert .standard) (.evaluate (.source "x >"))
            (.initial (some [.value .null, .value (.bool true)])) = ⟨[], .ok evaluated⟩ ∧
        apply (.inert .standard) (.flatMap (.source "x >"))
            (.initial (some [.value .null, .value (.bool true)])) = ⟨[], .ok expanded⟩ ∧
        apply (.inert .standard) (.filter (.source "x >"))
            (.initial (some [.value .null, .value (.bool true)])) = ⟨[], .ok filtered⟩ ∧
        ∀ m : Memory,
          (evaluated.input.run m).1.items =
            [.failure (.refused "x >" "found end of input"),
              .failure (.refused "x >" "found end of input")] ∧
          (expanded.input.run m).1.items =
            [.failure (.refused "x >" "found end of input"),
              .failure (.refused "x >" "found end of input")] ∧
          (filtered.input.run m).1.items = [.value .null, .value (.bool true)] := by
  have h : (Host.inert .standard).evaluator.compile "x >" = .error "found end of input" :=
    compile_lacking
  have hc : (State.initial (some [.value .null, .value (.bool true)])).current =
      some ⟨0, .items [.value .null, .value (.bool true)]⟩ := rfl
  exact ⟨h, refused_runs h hc⟩

end Stage

namespace Interpreter

/-- A value passes a filter by a source that was refused, where one failure that names the source
should stand in its place. -/
theorem filter_hands_on :
    Evaluator.standard.compile "x >" = .error "found end of input" ∧
      ∃ out,
        run (.inert .standard) ["-f", "x >"] (some [.value (.whole 1)]) = ⟨[], .ok out⟩ ∧
        out.plan.trace.items = [.value (.whole 1)] ∧
        out.plan.trace.items ≠ [.failure (.refused "x >" "found end of input")] := by
  have h : (Host.inert .standard).evaluator.compile "x >" = .error "found end of input" :=
    Stage.compile_lacking
  have hread : Stage.readAll ["-f", "x >"] = ([(.filter (.source "x >"), 2)], none) := by
    decide +kernel
  have hitems : (Stage.filterPlan (.items [.value (.whole 1)])
      ((Host.inert .standard).prepare (.source "x >")) .empty).trace.items =
        [.value (.whole 1)] :=
    Stage.items_filterPlan_of_failing (Stage.call_prepare_of_refused h .empty) _ .empty
  refine ⟨h, _, run_of_readAll hread rfl, hitems, fun hfailed => ?_⟩
  cases hitems.symm.trans hfailed

end Interpreter

end Pipeline
