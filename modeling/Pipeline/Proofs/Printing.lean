import Pipeline.Printer
import Pipeline.Proofs.Building
import Pipeline.Proofs.Runs

/-!
# Printing — three policies for failed items

What a pull writes is what its events write and then the line of its item (`pullWrites`).  A
printer that goes on writes this for every pull, and what the events of the end write
(`printTrace_of_going`).  A printer that ends at a failed item writes it for the pulls up to that
one, and looks at none behind it (`printTrace_fail_of_failure`); without a failed item it goes on
like the others (`printTrace_of_values`).

So the outputs of the three policies are related as lists of writes, each tagged with its origin:

* ending at a failure writes a prefix of printing all failures;
* ignoring failures writes what is left of printing them without the lines of failures;
* not printing values writes what is left of printing them without the lines of values.

`policies_agree` says this of whole pipelines, with their exit codes.
-/

namespace Pipeline

namespace Output.Write

/-- The write is the line of a failed item. -/
def isFailure : Output.Write → Bool
  | .failure _ => true
  | _ => false

/-- The write is the line of a value. -/
def isValue : Output.Write → Bool
  | .value _ => true
  | _ => false

end Output.Write

/-- The same output, its values not to be printed. -/
def Output.silent (out : Output) : Output := { out with mustPrint := false }

namespace Printed

/-- The lines of failed items taken out. -/
def withoutFailures (p : Printed) : Printed := ⟨p.writes.filter (!·.isFailure), p.code⟩

/-- The lines of values taken out. -/
def withoutValues (p : Printed) : Printed := ⟨p.writes.filter (!·.isValue), p.code⟩

theorem text_of_append {p : Printed} {writes more : List Output.Write}
    (h : p.writes = writes ++ more) :
    p.text = String.join (writes.map (·.text)) ++ String.join (more.map (·.text)) := by
  rw [text, h, List.map_append, String.join_append]

theorem text_of_concat {p : Printed} {writes : List Output.Write} {last : Output.Write}
    (h : p.writes = writes ++ [last]) :
    p.text = String.join (writes.map (·.text)) ++ last.text := by
  rw [text_of_append h, List.map_singleton, String.join_cons, String.join_nil, String.append_empty]

end Printed

namespace Printer

/-! ### The writes of a pull -/

/-- The line of an item, if it has one. -/
def itemWrites (policy : ErrorPolicy) (mustPrint : Bool) : Item → List Output.Write
  | .value v => if mustPrint then [.value (.value v)] else []
  | .failure e => if policy = .ignore then [] else [.failure e.message]

/-- What a pull writes: what its events write, and the line of its item. -/
def pullWrites (policy : ErrorPolicy) (mustPrint : Bool) (pull : Traced Event Item) :
    List Output.Write :=
  eventWrites pull.events ++ itemWrites policy mustPrint pull.value

/-- Events write no lines of the printer. -/
theorem eventWrites_origin {events : List Event} {w : Output.Write} (h : w ∈ eventWrites events) :
    w.isFailure = false ∧ w.isValue = false := by
  obtain ⟨event, -, hw⟩ := List.mem_filterMap.mp h
  cases event <;> cases hw <;> exact ⟨rfl, rfl⟩

theorem filter_eventWrites_failure (events : List Event) :
    (eventWrites events).filter (!·.isFailure) = eventWrites events :=
  List.filter_eq_self.mpr fun _ h => by rw [(eventWrites_origin h).1]; rfl

theorem filter_eventWrites_value (events : List Event) :
    (eventWrites events).filter (!·.isValue) = eventWrites events :=
  List.filter_eq_self.mpr fun _ h => by rw [(eventWrites_origin h).2]; rfl

theorem pullWrites_ignore (mustPrint : Bool) (pull : Traced Event Item) :
    pullWrites .ignore mustPrint pull =
      (pullWrites .print mustPrint pull).filter (!·.isFailure) := by
  rw [pullWrites, pullWrites, List.filter_append, filter_eventWrites_failure]
  obtain ⟨events, v | e⟩ := pull
  · cases mustPrint <;> rfl
  · rfl

theorem pullWrites_false (policy : ErrorPolicy) (mustPrint : Bool) (pull : Traced Event Item) :
    pullWrites policy false pull = (pullWrites policy mustPrint pull).filter (!·.isValue) := by
  rw [pullWrites, pullWrites, List.filter_append, filter_eventWrites_value]
  obtain ⟨events, v | e⟩ := pull
  · cases mustPrint <;> rfl
  · cases policy <;> rfl

/-- What a printer writes that goes on to the end of a run. -/
def allWrites (policy : ErrorPolicy) (mustPrint : Bool) (t : Trace Event) : List Output.Write :=
  t.pulls.flatMap (pullWrites policy mustPrint) ++ eventWrites t.closing

theorem allWrites_pull (policy : ErrorPolicy) (mustPrint : Bool) (first : Traced Event Item)
    (rest : Unit → Trace Event) :
    allWrites policy mustPrint (.pull first rest) =
      pullWrites policy mustPrint first ++ allWrites policy mustPrint (rest ()) := by
  rw [allWrites, Trace.pulls, List.flatMap_cons, List.append_assoc]
  rfl

theorem allWrites_ignore (mustPrint : Bool) (t : Trace Event) :
    allWrites .ignore mustPrint t = (allWrites .print mustPrint t).filter (!·.isFailure) := by
  rw [allWrites, allWrites, List.filter_append, List.filter_flatMap, filter_eventWrites_failure,
    show pullWrites .ignore mustPrint = _ from funext (pullWrites_ignore mustPrint)]

theorem allWrites_false (policy : ErrorPolicy) (mustPrint : Bool) (t : Trace Event) :
    allWrites policy false t = (allWrites policy mustPrint t).filter (!·.isValue) := by
  rw [allWrites, allWrites, List.filter_append, List.filter_flatMap, filter_eventWrites_value,
    show pullWrites policy false = _ from funext (pullWrites_false policy mustPrint)]

/-! ### The writes of a run -/

/-- **A printer that goes on** writes for every pull. -/
theorem printTrace_of_going {policy : ErrorPolicy} (h : policy ≠ .fail) (mustPrint : Bool)
    (t : Trace Event) : printTrace policy mustPrint t = ⟨allWrites policy mustPrint t, 0⟩ := by
  induction t with
  | ended events => rfl
  | pull first rest ih =>
      obtain ⟨events, v | e⟩ := first
      · rw [printTrace, ih, allWrites_pull]
        rfl
      · cases policy
        case fail => exact absurd rfl h
        case print =>
          rw [printTrace, ih, allWrites_pull]
          rfl
        case ignore =>
          rw [printTrace, ih, allWrites_pull, pullWrites, itemWrites, if_pos rfl, List.append_nil]
          rfl

/-- Without a failed item every policy goes on. -/
theorem printTrace_of_values {t : Trace Event} (h : ∀ pull ∈ t.pulls, pull.value.isFailure = false)
    (policy : ErrorPolicy) (mustPrint : Bool) :
    printTrace policy mustPrint t = ⟨allWrites .print mustPrint t, 0⟩ := by
  induction t with
  | ended events => rfl
  | pull first rest ih =>
      obtain ⟨hfirst, hrest⟩ := List.forall_mem_cons.mp h
      obtain ⟨events, v | e⟩ := first
      · rw [printTrace, ih () hrest, allWrites_pull]
        rfl
      · cases hfirst

/-- **A printer that ends at a failed item** writes for the pulls up to the first one. -/
theorem printTrace_fail_of_failure {t : Trace Event} {before after : List (Traced Event Item)}
    {events : List Event} {e : Failure} (h : t.pulls = before ++ ⟨events, .failure e⟩ :: after)
    (hbefore : ∀ pull ∈ before, pull.value.isFailure = false) (mustPrint : Bool) :
    printTrace .fail mustPrint t =
      ⟨before.flatMap (pullWrites .print mustPrint) ++
        (eventWrites events ++ [.failure e.message]), 1⟩ := by
  induction t generalizing before with
  | ended closing => simp [Trace.pulls] at h
  | pull first rest ih =>
      cases before with
      | nil =>
          obtain ⟨rfl, -⟩ := List.cons_eq_cons.mp h
          rfl
      | cons pull before =>
          obtain ⟨rfl, hrest⟩ := List.cons_eq_cons.mp h
          obtain ⟨hfirst, hlater⟩ := List.forall_mem_cons.mp hbefore
          obtain ⟨events, v | e⟩ := first
          · rw [printTrace, ih () hrest hlater, List.flatMap_cons, List.append_assoc]
            rfl
          · cases hfirst

/-! ### Outputs -/

/-- A run has no failed item, or a first one. -/
theorem values_or_first_failure (pulls : List (Traced Event Item)) :
    (∀ pull ∈ pulls, pull.value.isFailure = false) ∨
      ∃ before events e after, pulls = before ++ ⟨events, .failure e⟩ :: after ∧
        ∀ pull ∈ before, pull.value.isFailure = false := by
  cases hfind : pulls.find? (·.value.isFailure) with
  | none => exact .inl fun pull h => Bool.eq_false_iff.mpr (List.find?_eq_none.mp hfind pull h)
  | some pull =>
      obtain ⟨hfailed, before, after, hpulls, hbefore⟩ := List.find?_eq_some_iff_append.mp hfind
      obtain ⟨events, v | e⟩ := pull
      · cases hfailed
      · refine .inr ⟨before, events, e, after, hpulls, fun pull h => ?_⟩
        simpa using hbefore pull h

theorem print_of_going {policy : ErrorPolicy} (h : policy ≠ .fail) (out : Output) :
    print policy out =
      ⟨eventWrites out.plan.opening ++ allWrites policy out.mustPrint out.plan.trace, 0⟩ := by
  rw [print, printTrace_of_going h]
  rfl

theorem print_of_values {out : Output}
    (h : ∀ pull ∈ out.plan.trace.pulls, pull.value.isFailure = false) (policy : ErrorPolicy) :
    print policy out =
      ⟨eventWrites out.plan.opening ++ allWrites .print out.mustPrint out.plan.trace, 0⟩ := by
  rw [print, printTrace_of_values h]
  rfl

theorem print_fail_of_failure {out : Output} {before after : List (Traced Event Item)}
    {events : List Event} {e : Failure}
    (h : out.plan.trace.pulls = before ++ ⟨events, .failure e⟩ :: after)
    (hbefore : ∀ pull ∈ before, pull.value.isFailure = false) :
    print .fail out =
      ⟨eventWrites out.plan.opening ++ (before.flatMap (pullWrites .print out.mustPrint) ++
        (eventWrites events ++ [.failure e.message])), 1⟩ := by
  rw [print, printTrace_fail_of_failure h hbefore]
  rfl

/-- **Ending at a failure writes a prefix of printing all failures.** -/
theorem print_fail_starts_print (out : Output) :
    (print .fail out).writes <+: (print .print out).writes := by
  rcases values_or_first_failure out.plan.trace.pulls with
    hvalues | ⟨before, events, e, after, h, hbefore⟩
  · have heq : print .fail out = print .print out :=
      (print_of_values hvalues _).trans (print_of_values hvalues _).symm
    exact heq ▸ List.prefix_rfl
  · rw [print_fail_of_failure h hbefore, print_of_going (show ErrorPolicy.print ≠ .fail by decide),
      allWrites, h, List.flatMap_append, List.flatMap_cons, List.append_assoc, List.append_assoc]
    refine (List.prefix_append_right_inj _).mpr ((List.prefix_append_right_inj _).mpr ?_)
    exact List.prefix_append _ _

/-- **Ignoring failures writes all but their lines.** -/
theorem print_ignore (out : Output) : print .ignore out = (print .print out).withoutFailures := by
  rw [print_of_going (show ErrorPolicy.ignore ≠ .fail by decide),
    print_of_going (show ErrorPolicy.print ≠ .fail by decide), Printed.withoutFailures,
    List.filter_append, filter_eventWrites_failure, allWrites_ignore]

/-- **Not printing writes all but the lines of values**, and changes no exit code. -/
theorem print_silent (policy : ErrorPolicy) (out : Output) :
    print policy out.silent = (print policy out).withoutValues := by
  have hgoing : ∀ policy ≠ .fail, print policy out.silent = (print policy out).withoutValues := by
    intro policy h
    rw [print_of_going h, print_of_going h, Printed.withoutValues, List.filter_append,
      filter_eventWrites_value, ← allWrites_false]
    rfl
  by_cases hfail : policy = .fail
  · subst hfail
    rcases values_or_first_failure out.plan.trace.pulls with
      hvalues | ⟨before, events, e, after, h, hbefore⟩
    · -- without a failed item it is as if failures were printed
      have hsilent : ∀ pull ∈ out.silent.plan.trace.pulls, pull.value.isFailure = false := hvalues
      rw [print_of_values hvalues, ← print_of_values hvalues .print, ← hgoing .print (by decide),
        print_of_values hsilent, print_of_values hsilent]
    · have hsilent : out.silent.plan.trace.pulls = before ++ ⟨events, .failure e⟩ :: after := h
      rw [print_fail_of_failure h hbefore, print_fail_of_failure hsilent hbefore,
        Printed.withoutValues]
      simp only [List.filter_append, List.filter_flatMap, filter_eventWrites_value,
        ← pullWrites_false]
      rfl
  · exact hgoing policy hfail

theorem not_failure_mem_items {t : Trace Event}
    (h : ∀ pull ∈ t.pulls, pull.value.isFailure = false) (e : Failure) : .failure e ∉ t.items := by
  intro he
  obtain ⟨pull, hpull, hvalue⟩ := List.mem_map.mp he
  have hfailed := h pull hpull
  rw [hvalue] at hfailed
  cases hfailed

theorem failure_mem_items {t : Trace Event} {before after : List (Traced Event Item)}
    {events : List Event} {e : Failure} (h : t.pulls = before ++ ⟨events, .failure e⟩ :: after) :
    .failure e ∈ t.items := by
  rw [Trace.items, h, List.map_append, List.map_cons]
  exact List.mem_append_right _ List.mem_cons_self

/-- The exit code tells whether there was a failed item to end at. -/
theorem code_print_fail (out : Output) :
    ((print .fail out).code = 1 ↔ ∃ e, .failure e ∈ out.plan.trace.items) ∧
      ((print .fail out).code = 0 ↔ ∀ e, .failure e ∉ out.plan.trace.items) := by
  rcases values_or_first_failure out.plan.trace.pulls with
    hvalues | ⟨before, events, e, after, h, hbefore⟩
  · have hnone := not_failure_mem_items hvalues
    rw [print_of_values hvalues]
    exact ⟨iff_of_false Nat.zero_ne_one fun ⟨e, he⟩ => hnone e he, iff_of_true rfl hnone⟩
  · have hmem := failure_mem_items h
    rw [print_fail_of_failure h hbefore]
    exact ⟨iff_of_true rfl ⟨e, hmem⟩, iff_of_false Nat.one_ne_zero fun hnone => hnone e hmem⟩

/-- **The end at the first failure.**  Its message is the last line, and nothing behind it counts:
every output that goes the same way up to it is printed the same. -/
theorem print_fail_ends {out : Output} {before after : List (Traced Event Item)}
    {events : List Event} {e : Failure}
    (h : out.plan.trace.pulls = before ++ ⟨events, .failure e⟩ :: after)
    (hbefore : ∀ pull ∈ before, pull.value.isFailure = false) :
    (∃ writes, (print .fail out).writes = writes ++ [.failure e.message]) ∧
      ∀ (other : Output) (rest : List (Traced Event Item)),
        other.mustPrint = out.mustPrint → other.plan.opening = out.plan.opening →
        other.plan.trace.pulls = before ++ ⟨events, .failure e⟩ :: rest →
        print .fail other = print .fail out := by
  rw [print_fail_of_failure h hbefore]
  refine ⟨⟨eventWrites out.plan.opening ++ (before.flatMap (pullWrites .print out.mustPrint) ++
    eventWrites events), by simp only [List.append_assoc]⟩, ?_⟩
  intro other rest hmust hopening hpulls
  rw [print_fail_of_failure hpulls hbefore, hmust, hopening]

/-! ### Pipelines -/

/-- Printing a pipeline that is built. -/
theorem run_of_built {host : Host} {tokens : List String} {events : List Event} {out : Output}
    (h : Interpreter.run host tokens none = ⟨events, .ok out⟩) (policy : ErrorPolicy) :
    run host policy tokens = .ok (print policy out) := by
  rw [run, h]
  rfl

/-- A stage that asks for no printing, put behind all others, changes nothing else. -/
theorem built_silent {host : Host} {tokens : List String} {events : List Event} {out : Output}
    (h : Interpreter.run host tokens none = ⟨events, .ok out⟩) :
    Interpreter.run host (tokens ++ [Marker.suppressPrint.token]) none =
      ⟨events, .ok out.silent⟩ := by
  obtain ⟨s, hs, rfl⟩ := Interpreter.run_eq_ok h
  have hstart : StartsStage [Marker.suppressPrint.token] :=
    startsStage_token .suppressPrint []
  have hparse : Stage.parse [Marker.suppressPrint.token] = .ok (.suppressPrint, 1) := rfl
  have hrun : Interpreter.runFrom host s [Marker.suppressPrint.token] =
      ⟨[], .ok s.suppressPrint⟩ := by
    rw [Interpreter.runFrom_of_ok hparse]
    show Traced.andThen ⟨[], .ok s.suppressPrint⟩ _ = _
    rw [Traced.andThen_ok, List.drop_succ_cons, List.drop_nil, Interpreter.runFrom_nil]
    rfl
  have hboth : Interpreter.runFrom host (.initial none) (tokens ++ [Marker.suppressPrint.token]) =
      ⟨events, .ok s.suppressPrint⟩ := by
    rw [Interpreter.runFrom_append (Interpreter.runFrom_eq_ok hs).1 hstart, hs, Traced.andThen_ok,
      hrun, List.append_nil]
  exact Interpreter.run_of_runFrom hboth

/-- **The policies of one pipeline.**  Let a pipeline be built, and let `fails`, `prints` and
`ignores` be what is printed under the three policies into one output.

* `fails` is a prefix of `prints`, write by write and as text.
* Its exit code is 1 iff there is a failed item; then its last line is the message of the first
  one, and nothing behind that item is looked at: any other output that goes the same way up to it
  is printed the same.  The other exit codes are 0.
* `ignores` is what remains of `prints` without the lines of failed items.
* Without a failed item the three are equal.
* With a stage behind it that asks for no printing, each of them is what remains of it without the
  lines of values, with the same exit code. -/
theorem policies_agree {host : Host} {tokens : List String} {events : List Event} {out : Output}
    (h : Interpreter.run host tokens none = ⟨events, .ok out⟩) :
    ∃ fails prints ignores : Printed,
      run host .fail tokens = .ok fails ∧ run host .print tokens = .ok prints ∧
      run host .ignore tokens = .ok ignores ∧
      (fails.writes <+: prints.writes ∧ ∃ rest, prints.text = fails.text ++ rest) ∧
      ((fails.code = 1 ↔ ∃ e, .failure e ∈ out.plan.trace.items) ∧
        (fails.code = 0 ↔ ∀ e, .failure e ∉ out.plan.trace.items) ∧
        ∀ before pulled e after, out.plan.trace.pulls = before ++ ⟨pulled, .failure e⟩ :: after →
          (∀ pull ∈ before, pull.value.isFailure = false) →
          (∃ writes, fails.writes = writes ++ [.failure e.message]) ∧
            (∃ text, fails.text = text ++ (e.message ++ "\n")) ∧
            ∀ (other : Output) (rest : List (Traced Event Item)),
              other.mustPrint = out.mustPrint → other.plan.opening = out.plan.opening →
              other.plan.trace.pulls = before ++ ⟨pulled, .failure e⟩ :: rest →
              print .fail other = fails) ∧
      prints.code = 0 ∧ ignores.code = 0 ∧
      ignores.writes = prints.writes.filter (!·.isFailure) ∧
      ((∀ e, .failure e ∉ out.plan.trace.items) → fails = prints ∧ prints = ignores) ∧
      ∀ policy printed, run host policy tokens = .ok printed →
        run host policy (tokens ++ [Marker.suppressPrint.token]) =
          .ok ⟨printed.writes.filter (!·.isValue), printed.code⟩ := by
  refine ⟨print .fail out, print .print out, print .ignore out, run_of_built h _, run_of_built h _,
    run_of_built h _, ⟨print_fail_starts_print out, ?_⟩,
    ⟨(code_print_fail out).1, (code_print_fail out).2,
      fun before pulled e after hpulls hbefore => ?_⟩, ?_, ?_, ?_, fun hnone => ?_, ?_⟩
  · obtain ⟨rest, hrest⟩ := print_fail_starts_print out
    exact ⟨_, Printed.text_of_append hrest.symm⟩
  · obtain ⟨⟨writes, hwrites⟩, hother⟩ := print_fail_ends hpulls hbefore
    exact ⟨⟨writes, hwrites⟩, ⟨_, Printed.text_of_concat hwrites⟩, hother⟩
  · rw [print_of_going (show ErrorPolicy.print ≠ .fail by decide)]
  · rw [print_of_going (show ErrorPolicy.ignore ≠ .fail by decide)]
  · rw [print_ignore]
    rfl
  · rcases values_or_first_failure out.plan.trace.pulls with hvalues | ⟨_, _, e, _, hpulls, -⟩
    · simp only [print_of_values hvalues, and_self]
    · exact absurd (failure_mem_items hpulls) (hnone e)
  · intro policy printed hprinted
    rw [run_of_built h] at hprinted
    cases hprinted
    rw [run_of_built (built_silent h), print_silent]
    rfl

/-- Answers three texts where there is no item, and refuses the second of them. -/
def pickyEvaluator : Evaluator where
  compile _ := .ok ()
  evaluate _ b _ :=
    match b.value with
    | none => .ok (.value (.list [.text "p", .text "q", .text "r"]))
    | some (.value (.text "q")) => .error "refused"
    | some item => .ok item

/-- Three items are written out and then looked at, and the second one fails.  Ending there leaves
out the third one altogether, also what is written for it. -/
theorem policies_agree_secondItem :
    ∃ fails prints : Printed,
      run (.inert pickyEvaluator) .fail ["a", "-w", "-q", "w", "-j", "b"] = .ok fails ∧
      run (.inert pickyEvaluator) .print ["a", "-w", "-q", "w", "-j", "b"] = .ok prints ∧
      fails.writes.length = 4 ∧ prints.writes.length = 6 ∧ fails.writes <+: prints.writes ∧
      fails.code = 1 ∧ prints.code = 0 ∧
      (∃ text, fails.text = text ++ ("failed to evaluate expression: b." ++ "\n")) ∧
      run (.inert pickyEvaluator) .print ["a", "-w", "-q", "w", "-j", "b", "-p"] =
        .ok ⟨prints.writes.filter (!·.isValue), 0⟩ := by
  have hread : Stage.readAll ["a", "-w", "-q", "w", "-j", "b"] =
      ([(.evaluate (.source "a"), 1), (.write (.quoted ["w"]), 3), (.evaluate (.source "b"), 2)],
        none) := by
    decide +kernel
  obtain ⟨out, h, hpulls, hfails, hprints⟩ : ∃ out,
      Interpreter.run (.inert pickyEvaluator) ["a", "-w", "-q", "w", "-j", "b"] none =
        ⟨[], .ok out⟩ ∧
      out.plan.trace.pulls =
        [⟨[.write (.value (.text "w"))], .value (.text "p")⟩] ++
          ⟨[.write (.value (.text "w"))], .failure ⟨evaluationMessage "b", "refused", none⟩⟩ ::
            [⟨[.write (.value (.text "w"))], .value (.text "r")⟩] ∧
      (print .fail out).writes.length = 4 ∧ (print .print out).writes.length = 6 :=
    ⟨_, Interpreter.run_of_readAll hread rfl, rfl, rfl, rfl⟩
  obtain ⟨fails, prints, -, hrunFails, hrunPrints, -, ⟨hstart, -⟩, ⟨hcode, -, hend⟩, hzero, -, -, -,
    hsilent⟩ := policies_agree h
  have hsilently := hsilent .print prints hrunPrints
  rw [hzero] at hsilently
  obtain ⟨-, htext, -⟩ := hend _ _ _ _ hpulls (by decide)
  have hone : fails.code = 1 := hcode.mpr ⟨_, failure_mem_items hpulls⟩
  rw [run_of_built h] at hrunFails hrunPrints
  cases hrunFails
  cases hrunPrints
  exact ⟨_, _, run_of_built h _, run_of_built h _, hfails, hprints, hstart, hone, hzero, htext,
    hsilently⟩

end Printer

end Pipeline
