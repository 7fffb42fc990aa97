import Mathlib.Data.List.Infix
import Pipeline.Expr.Eval

/-!
# Splitting — parts of a text and the separator between them

A text is split by a scan from the left that goes on behind every separator it finds.  The
separator may overlap itself, stand at either end, or be empty; still no character is lost:

* `Text.join_split`: the parts with the separator between them are the text again.
* `Text.not_infix_of_mem_splitAt`: a separator that is not empty is in none of the parts.
* `Text.one_lt_length_splitAt_iff`: there is more than one part iff the text contains it.

So the three methods of the language agree with each other (`Value.split_join_agree`).
-/

namespace Pipeline

namespace Text

variable {lead needle text rest : List Char}

/-! ### Searching -/

theorem after?_eq_some_iff : after? lead text = some rest ↔ text = lead ++ rest := by
  induction lead generalizing text with
  | nil => rw [after?, Option.some.injEq, List.nil_append]
  | cons a lead ih =>
      cases text with
      | nil => simp [after?]
      | cons b text =>
          rw [after?]
          split
          · next h => simp [h, ih]
          · next h => simp [Ne.symm h]

theorem isSome_after?_iff : (after? lead text).isSome = true ↔ lead <+: text := by
  rw [Option.isSome_iff_exists]
  exact exists_congr fun _ => after?_eq_some_iff.trans eq_comm

/-- **Searching** finds what is a part of the text. -/
theorem contains_eq_true_iff : contains needle text = true ↔ needle <:+: text := by
  induction text with
  | nil => rw [contains, List.isEmpty_iff, List.infix_nil]
  | cons c text ih => rw [contains, Bool.or_eq_true, isSome_after?_iff, ih, List.infix_cons_iff]

/-! ### Joining -/

variable {sep : List Char} {parts : List (List Char)}

theorem join_consHead (c : Char) (h : parts ≠ []) :
    join sep (consHead c parts) = c :: join sep parts := by
  match parts with
  | [_] => simp [consHead, join]
  | _ :: _ :: _ => simp [consHead, join, List.intercalate_cons_cons]

theorem join_nil_cons (h : parts ≠ []) : join sep ([] :: parts) = sep ++ join sep parts := by
  match parts with
  | _ :: _ => simp [join, List.intercalate_cons_cons]

theorem prefix_join (part : List Char) (parts : List (List Char)) :
    part <+: join sep (part :: parts) := by
  match parts with
  | [] => simp [join]
  | _ :: _ => simp [join, List.intercalate_cons_cons]

/-! ### Splitting -/

theorem length_consHead (c : Char) (h : parts ≠ []) :
    (consHead c parts).length = parts.length := by
  match parts with
  | _ :: _ => rfl

theorem splitAt_ne_nil (s : Char) (sep text : List Char) : splitAt s sep text ≠ [] := by
  fun_induction splitAt s sep text with
  | case1 | case2 => simp
  | case3 c text h ih =>
      intro hnil
      exact ih (List.eq_nil_of_length_eq_zero (by rw [← length_consHead c ih, hnil]; rfl))

theorem join_splitAt (s : Char) (sep text : List Char) :
    join (s :: sep) (splitAt s sep text) = text := by
  fun_induction splitAt s sep text with
  | case1 => rfl
  | case2 c text rest h ih =>
      rw [join_nil_cons (splitAt_ne_nil s sep rest), ih, after?_eq_some_iff.mp h]
  | case3 c text h ih => rw [join_consHead c (splitAt_ne_nil s sep text), ih]

theorem join_singletons (text : List Char) : join [] (text.map ([·])) = text := by
  induction text with
  | nil => rfl
  | cons c text ih =>
      cases text with
      | nil => rfl
      | cons d text =>
          calc join [] ((c :: d :: text).map ([·]))
            _ = [c] ++ join [] ((d :: text).map ([·])) := by
                simp [join, List.intercalate_cons_cons]
            _ = c :: d :: text := by rw [ih, List.singleton_append]

/-- **Nothing is lost.**  The parts with the separator between them are the text again. -/
theorem join_split (sep text : List Char) : join sep (split sep text) = text := by
  cases sep with
  | nil => exact join_singletons text
  | cons s sep => exact join_splitAt s sep text

/-- **Nothing is missed.**  No part contains the separator. -/
theorem not_infix_of_mem_splitAt (s : Char) (sep text : List Char) :
    ∀ part ∈ splitAt s sep text, ¬ s :: sep <:+: part := by
  fun_induction splitAt s sep text with
  | case1 => simp
  | case2 c text rest h ih => exact List.forall_mem_cons.mpr ⟨by simp, ih⟩
  | case3 c text h ih =>
      obtain ⟨first, parts, heq⟩ := List.exists_cons_of_ne_nil (splitAt_ne_nil s sep text)
      rw [heq] at ih ⊢
      obtain ⟨hfirst, hparts⟩ := List.forall_mem_cons.mp ih
      refine List.forall_mem_cons.mpr ⟨fun hinfix => ?_, hparts⟩
      rcases List.infix_cons_iff.mp hinfix with hstart | hinfix
      · -- the part begins the text that is left, where no separator begins
        have htext : c :: first <+: c :: text := by
          rw [List.prefix_cons_inj, ← join_splitAt s sep text, heq]
          exact prefix_join first parts
        have hbegins := isSome_after?_iff.mpr (hstart.trans htext)
        rw [h] at hbegins
        cases hbegins
      · exact hfirst hinfix

/-- There is more than one part iff the text contains the separator. -/
theorem one_lt_length_splitAt_iff (s : Char) (sep text : List Char) :
    1 < (splitAt s sep text).length ↔ s :: sep <:+: text := by
  fun_induction splitAt s sep text with
  | case1 => simp
  | case2 c text rest h ih =>
      have hlength := List.length_pos_iff.mpr (splitAt_ne_nil s sep rest)
      have hstart : s :: sep <+: c :: text := ⟨rest, (after?_eq_some_iff.mp h).symm⟩
      simp only [List.length_cons, hstart.isInfix, iff_true]
      omega
  | case3 c text h ih =>
      have hstart : ¬ s :: sep <+: c :: text := by rw [← isSome_after?_iff, h]; simp
      rw [length_consHead c (splitAt_ne_nil s sep text), ih, List.infix_cons_iff,
        or_iff_right hstart]

end Text

/-! ### The methods of the language -/

namespace Value

theorem call_split (s sep : String) :
    call (.text s) "split" [.text sep] =
      .ok (.list (((Text.split sep.toList s.toList).map String.ofList).map .text)) := by
  rw [List.map_map]
  rfl

theorem call_join (parts : List String) (sep : String) :
    call (.list (parts.map .text)) "join" [.text sep] =
      .ok (.text (String.ofList (Text.join sep.toList (parts.map String.toList)))) := by
  rw [call, List.map_map]
  rfl

theorem call_includes (s needle : String) :
    call (.text s) "includes" [.text needle] =
      .ok (.bool (Text.contains needle.toList s.toList)) :=
  rfl

/-- **Splitting, joining and searching agree.**  Joining the parts of a text gives the text back.
Where the separator is not empty, no part contains it, and the text is said to include it iff it is
a part of the text, that is, iff there is more than one part. -/
theorem split_join_agree (s sep : String) :
    ∃ parts : List String,
      call (.text s) "split" [.text sep] = .ok (.list (parts.map .text)) ∧
      call (.list (parts.map .text)) "join" [.text sep] = .ok (.text s) ∧
      (sep ≠ "" →
        (∀ part ∈ parts, ¬ sep.toList <:+: part.toList) ∧
        ∃ found, call (.text s) "includes" [.text sep] = .ok (.bool found) ∧
          (found = true ↔ sep.toList <:+: s.toList) ∧ (found = true ↔ 1 < parts.length)) := by
  refine ⟨_, call_split s sep, ?_, fun hsep => ?_⟩
  · rw [call_join, List.map_map]
    simp only [Function.comp_def, String.toList_ofList, List.map_id', Text.join_split,
      String.ofList_toList]
  · obtain ⟨first, rest, hchars⟩ : ∃ first rest, sep.toList = first :: rest :=
      List.exists_cons_of_ne_nil fun h => hsep (String.toList_eq_nil_iff.mp h)
    refine ⟨fun part hpart => ?_, _, call_includes s sep, Text.contains_eq_true_iff, ?_⟩
    · obtain ⟨cs, hcs, rfl⟩ := List.mem_map.mp hpart
      rw [hchars, Text.split] at hcs
      rw [hchars, String.toList_ofList]
      exact Text.not_infix_of_mem_splitAt first rest s.toList cs hcs
    · rw [Text.contains_eq_true_iff, hchars, Text.split, List.length_map,
        Text.one_lt_length_splitAt_iff]

/-- A separator that overlaps itself in the text. -/
theorem split_join_agree_overlapping :
    "aa" ≠ "" ∧ ∃ parts : List String,
      call (.text "aaa") "split" [.text "aa"] = .ok (.list (parts.map .text)) ∧
      call (.list (parts.map .text)) "join" [.text "aa"] = .ok (.text "aaa") ∧
      (∀ part ∈ parts, ¬ "aa".toList <:+: part.toList) ∧
      call (.text "aaa") "includes" [.text "aa"] = .ok (.bool true) ∧ 1 < parts.length := by
  have hsep : "aa" ≠ "" := by decide
  obtain ⟨parts, hsplit, hjoin, hagree⟩ := split_join_agree "aaa" "aa"
  obtain ⟨hparts, found, hfound, hinfix, hmore⟩ := hagree hsep
  obtain rfl : found = true := hinfix.mpr ⟨[], ['a'], rfl⟩
  exact ⟨hsep, parts, hsplit, hjoin, hparts, hfound, hmore.mp rfl⟩

end Value

end Pipeline
