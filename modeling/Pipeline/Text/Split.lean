/-!
# Text — separators

Searching for, splitting at and joining with a separator.  The scan is leftmost and does not
overlap: after a separator is found, the search goes on behind it.
-/

namespace Pipeline.Text

/-- What follows `lead` in a text that starts with it. -/
def after? : List Char → List Char → Option (List Char)
  | [], text => some text
  | _ :: _, [] => none
  | a :: lead, b :: text => if a = b then after? lead text else none

theorem length_after? {lead text rest : List Char} (h : after? lead text = some rest) :
    rest.length + lead.length = text.length := by
  induction lead generalizing text with
  | nil => simp_all [after?]
  | cons a lead ih =>
    cases text with
    | nil => simp [after?] at h
    | cons b text =>
      simp only [after?] at h
      split at h
      · have := ih h; simp; omega
      · simp at h

/-- Some part of the text reads `needle`. -/
def contains (needle : List Char) : List Char → Bool
  | [] => needle.isEmpty
  | c :: text => (after? needle (c :: text)).isSome || contains needle text

/-- Puts a character in front of the first part. -/
def consHead (c : Char) : List (List Char) → List (List Char)
  | [] => [[c]]
  | part :: parts => (c :: part) :: parts

/-- The parts of a text between the occurrences of the separator `s :: sep`. -/
def splitAt (s : Char) (sep : List Char) : List Char → List (List Char)
  | [] => [[]]
  | c :: text =>
    match _h : after? (s :: sep) (c :: text) with
    | some rest => [] :: splitAt s sep rest
    | none => consHead c (splitAt s sep text)
termination_by text => text.length
decreasing_by
  · have := length_after? _h
    simp only [List.length_cons] at this ⊢
    omega
  · simp

/-- The parts of a text at a separator; the empty separator gives its characters one by one. -/
def split (sep text : List Char) : List (List Char) :=
  match sep with
  | [] => text.map ([·])
  | s :: sep => splitAt s sep text

/-- The parts with the separator between them. -/
def join (sep : List Char) (parts : List (List Char)) : List Char :=
  sep.intercalate parts

end Pipeline.Text
