import Pipeline.Printer
import Pipeline.Shell.Runner

/-!
# Piping — the lines of a text that is handed in

A text lays lines out (`Text.LaidOut`): behind each line stands a line feed, or a carriage return
and a line feed, empty lines stand anywhere, and the last line needs no ending.  Either ending may
stand behind a line that does not end in a carriage return (`Text.Ending.fits_of_getLast?_ne`);
behind one that does, a lone line feed would be read as one ending with that carriage return.

* `Text.lines_ended`: reading takes one line and its ending off the front of a text.
* `Text.laidOut_iff`: a text lays out the lines that are read from it, and no others.
* `Text.LaidOut.filled`: lines that a text lays out are not empty and hold no line feed.

The tokens of piped input (`piped_lines_recovered`) and the output of a command
(`Shell.Ended.lines_eq_ok_iff`) are read by this one rule.
-/

namespace Pipeline

namespace Text

/-- What may end a line. -/
inductive Ending where
  | feed
  | returnFeed

namespace Ending

/-- The characters of an ending. -/
def chars : Ending → List Char
  | feed => ['\n']
  | returnFeed => ['\r', '\n']

/-- The ending can stand behind the line. -/
def Fits (line : List Char) : Ending → Prop
  | feed => line.getLast? ≠ some '\r'
  | returnFeed => True

/-- Either ending can stand behind a line that does not end in a carriage return. -/
theorem fits_of_getLast?_ne {line : List Char} (h : line.getLast? ≠ some '\r') :
    ∀ ending : Ending, ending.Fits line
  | feed => h
  | returnFeed => trivial

end Ending

/-- The line holds something, and no line feed. -/
def Filled (line : List Char) : Prop := line ≠ [] ∧ '\n' ∉ line

/-- The text lays out the lines: in their order, each with an ending that fits, and among empty
lines.  The last ending may be missing. -/
inductive LaidOut : List (List Char) → List Char → Prop where
  | nothing : LaidOut [] []
  | blank {lines text} (ending : Ending) : LaidOut lines text → LaidOut lines (ending.chars ++ text)
  | line {line lines text} (ending : Ending) : Filled line → ending.Fits line →
      LaidOut lines text → LaidOut (line :: lines) (line ++ ending.chars ++ text)
  | last {line} : Filled line → LaidOut [line] line

variable {line text : List Char} {ls : List (List Char)} {ending : Ending}

/-- **A line that a text lays out** holds something, and no line feed. -/
theorem LaidOut.filled (h : LaidOut ls text) : ∀ line ∈ ls, Filled line := by
  induction h with
  | nothing => exact List.forall_mem_nil _
  | blank ending _ ih => exact ih
  | line ending hfilled _ _ ih => exact List.forall_mem_cons.mpr ⟨hfilled, ih⟩
  | last hfilled => exact List.forall_mem_singleton.mpr hfilled

/-! ### Reading what is laid out -/

/-- Characters that are no line feeds go on with the line that is being read. -/
theorem linesFrom_append (h : '\n' ∉ line) (read rest : List Char) :
    linesFrom read (line ++ rest) = linesFrom (read ++ line) rest := by
  induction line generalizing read with
  | nil => rw [List.nil_append, List.append_nil]
  | cons c line ih =>
      obtain ⟨hc, hline⟩ := List.ne_and_not_mem_of_not_mem_cons h
      rw [List.cons_append, linesFrom, if_neg hc.symm, ih hline, List.append_assoc,
        List.singleton_append]

theorem dropReturn_append_return (line : List Char) : dropReturn (line ++ ['\r']) = line := by
  rw [dropReturn, List.getLast?_concat, if_pos rfl, List.dropLast_concat]

/-- **One line and its ending.** -/
theorem lines_ended (h : '\n' ∉ line) (hfits : ending.Fits line) (text : List Char) :
    lines (line ++ ending.chars ++ text) = line :: lines text := by
  rw [lines, List.append_assoc, linesFrom_append h, List.nil_append]
  cases ending with
  | feed =>
      show dropReturn line :: lines text = _
      rw [dropReturn, if_neg hfits]
  | returnFeed =>
      show dropReturn (line ++ ['\r']) :: lines text = _
      rw [dropReturn_append_return]

/-- What no line feed ends is one line. -/
theorem lines_of_filled (h : Filled line) : lines line = [line] := by
  have hread := linesFrom_append h.2 [] []
  rw [List.append_nil, List.nil_append] at hread
  rw [lines, hread, linesFrom, if_neg fun hempty => h.1 (List.isEmpty_iff.mp hempty)]

theorem filter_cons_of_filled (h : Filled line) (ls : List (List Char)) :
    (line :: ls).filter (!·.isEmpty) = line :: ls.filter (!·.isEmpty) := by
  have hkept : (!line.isEmpty) = true := by simpa using h.1
  exact List.filter_cons_of_pos hkept

/-- **Lines that a text lays out** are read from it. -/
theorem LaidOut.filter_lines (h : LaidOut ls text) : (lines text).filter (!·.isEmpty) = ls := by
  induction h with
  | nothing => rfl
  | @blank ls text ending _ ih =>
      have hread : lines (ending.chars ++ text) = [] :: lines text :=
        lines_ended List.not_mem_nil (Ending.fits_of_getLast?_ne (by decide) ending) text
      rw [hread, List.filter_cons_of_neg (by simp), ih]
  | line ending hfilled hfits _ ih =>
      rw [lines_ended hfilled.2 hfits, filter_cons_of_filled hfilled, ih]
  | last hfilled => rw [lines_of_filled hfilled, filter_cons_of_filled hfilled, List.filter_nil]

/-! ### Laying out what is read -/

theorem mem_of_mem_dropReturn {c : Char} (h : c ∈ dropReturn line) : c ∈ line := by
  rw [dropReturn] at h
  split at h
  · exact (List.dropLast_prefix line).subset h
  · exact h

/-- What a line feed ends is a line with an ending that fits. -/
theorem exists_ending (read : List Char) :
    ∃ ending : Ending, ending.Fits (dropReturn read) ∧
      read ++ ['\n'] = dropReturn read ++ ending.chars := by
  by_cases h : read.getLast? = some '\r'
  · obtain ⟨line, rfl⟩ := List.getLast?_eq_some_iff.mp h
    refine ⟨.returnFeed, trivial, ?_⟩
    rw [dropReturn_append_return, List.append_assoc]
    rfl
  · have hline : dropReturn read = read := if_neg h
    rw [hline]
    exact ⟨.feed, h, rfl⟩

/-- A line in front of others is laid out with them, unless it is empty. -/
theorem LaidOut.filter_cons (h : LaidOut (ls.filter (!·.isEmpty)) text) (hline : '\n' ∉ line)
    (hfits : ending.Fits line) :
    LaidOut ((line :: ls).filter (!·.isEmpty)) (line ++ ending.chars ++ text) := by
  cases line with
  | nil => exact .blank ending h
  | cons c line => exact .line ending ⟨List.cons_ne_nil c line, hline⟩ hfits h

/-- The induction is on what is left of the text; what has been read since the last line feed goes
along. -/
theorem laidOut_linesFrom {read : List Char} (hread : '\n' ∉ read) (text : List Char) :
    LaidOut ((linesFrom read text).filter (!·.isEmpty)) (read ++ text) := by
  induction text generalizing read with
  | nil =>
      rw [List.append_nil]
      cases read with
      | nil => exact .nothing
      | cons c read => exact .last ⟨List.cons_ne_nil c read, hread⟩
  | cons c text ih =>
      rw [linesFrom]
      split
      · next hfeed =>
          obtain ⟨ending, hfits, hended⟩ := exists_ending read
          rw [hfeed, List.append_cons, hended]
          exact (ih List.not_mem_nil).filter_cons (fun h => hread (mem_of_mem_dropReturn h)) hfits
      · next hfeed =>
          have hmore : '\n' ∉ read ++ [c] := by
            rw [List.mem_append, List.mem_singleton, not_or]
            exact ⟨hread, Ne.symm hfeed⟩
          have htext : read ++ c :: text = read ++ [c] ++ text := List.append_cons read c text
          rw [htext]
          exact ih hmore

/-- **A text lays out the lines that are read from it**, and no others. -/
theorem laidOut_iff : LaidOut ls text ↔ (lines text).filter (!·.isEmpty) = ls := by
  refine ⟨LaidOut.filter_lines, ?_⟩
  rintro rfl
  exact laidOut_linesFrom List.not_mem_nil text

/-- The filled lines of a string are those that it lays out. -/
theorem filledLines_eq_iff {text : String} {ls : List String} :
    filledLines text = ls ↔ LaidOut (ls.map String.toList) text.toList := by
  have hchars : ∀ cs : List (List Char), (cs.map String.ofList).map String.toList = cs := by
    intro cs
    simp only [List.map_map, Function.comp_def, String.toList_ofList, List.map_id']
  rw [laidOut_iff, filledLines]
  constructor
  · rintro rfl
    rw [hchars]
  · intro h
    rw [h]
    simp [Function.comp_def]

end Text

/-! ### Tokens and the output of commands -/

/-- **Piped lines are recovered.**  The tokens of a piped text are the lines that it lays out, in
front of the arguments, and it lays out no other list of lines.  No token that comes from the text
is empty or holds a line feed. -/
theorem piped_lines_recovered (text : String) (args : List String) :
    (∀ lines : List String, assembleTokens (some text) args = lines ++ args ↔
      Text.LaidOut (lines.map String.toList) text.toList) ∧
    ∃ piped : List String, assembleTokens (some text) args = piped ++ args ∧
      ∀ token ∈ piped, token ≠ "" ∧ '\n' ∉ token.toList := by
  have htokens : assembleTokens (some text) args = Text.filledLines text ++ args := rfl
  refine ⟨fun lines => ?_, Text.filledLines text, htokens, fun token htoken => ?_⟩
  · rw [htokens, List.append_left_inj, Text.filledLines_eq_iff]
  · have hlaid := Text.filledLines_eq_iff.mp (rfl : Text.filledLines text = _)
    obtain ⟨hne, hfeed⟩ := hlaid.filled token.toList (List.mem_map_of_mem htoken)
    exact ⟨fun h => hne (String.toList_eq_nil_iff.mpr h), hfeed⟩

/-- Both endings, empty lines, a carriage return inside a line, and no ending at the end. -/
theorem piped_lines_recovered_mixed :
    Text.LaidOut (["a\rb", "c"].map String.toList) "\r\na\rb\r\n\nc".toList ∧
      assembleTokens (some "\r\na\rb\r\n\nc") ["-j"] = ["a\rb", "c", "-j"] ∧
      "a\rb" ≠ "" ∧ '\n' ∉ "a\rb".toList := by
  have hlaid : Text.LaidOut (["a\rb", "c"].map String.toList) "\r\na\rb\r\n\nc".toList :=
    .blank .returnFeed (.line .returnFeed ⟨by decide, by decide⟩ trivial
      (.blank .feed (.last ⟨by decide, by decide⟩)))
  obtain ⟨htokens, piped, hpiped, hclean⟩ := piped_lines_recovered "\r\na\rb\r\n\nc" ["-j"]
  have hread := (htokens ["a\rb", "c"]).mpr hlaid
  obtain rfl : piped = ["a\rb", "c"] := List.append_cancel_right (hpiped.symm.trans hread)
  exact ⟨hlaid, hread, hclean "a\rb" List.mem_cons_self⟩

namespace Shell

/-- A command that succeeds gives the lines that its output lays out; no other command gives
lines. -/
theorem Ended.lines_eq_ok_iff {e : Ended} {lines : List String} :
    e.lines = .ok lines ↔
      e.status = some 0 ∧ Text.LaidOut (lines.map String.toList) (Text.decodeLossy e.out) := by
  rw [Ended.lines]
  split
  · next h => rw [Except.ok.injEq, Text.filledLines_eq_iff, String.toList_ofList, and_iff_right h]
  · next h => exact iff_of_false nofun fun hlines => h hlines.1

end Shell

end Pipeline
