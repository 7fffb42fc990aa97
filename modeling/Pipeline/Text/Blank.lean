/-!
# Text — blank characters

The characters with the Unicode property White_Space, and the trimming they define.  Every part
of the library that skips or trims white space uses this one class.
-/

namespace Pipeline.Text

/-- The character has the Unicode property White_Space. -/
def isBlank (c : Char) : Bool :=
  let n := c.toNat
  (0x9 ≤ n && n ≤ 0xD) || n == 0x20 || n == 0x85 || n == 0xA0 || n == 0x1680 ||
    (0x2000 ≤ n && n ≤ 0x200A) || n == 0x2028 || n == 0x2029 || n == 0x202F || n == 0x205F ||
    n == 0x3000

/-- Every character of the text is blank. -/
def Blank (cs : List Char) : Prop := ∀ c ∈ cs, isBlank c = true

instance (cs : List Char) : Decidable (Blank cs) :=
  decidable_of_iff (cs.all isBlank = true) List.all_eq_true

/-- The text without the blanks at its end. -/
def trimEnd (cs : List Char) : List Char :=
  (cs.reverse.dropWhile isBlank).reverse

/-- The text without the blanks at its two ends. -/
def trimBlanks (cs : List Char) : List Char :=
  trimEnd (cs.dropWhile isBlank)

theorem blank_takeWhile (cs : List Char) : Blank (cs.takeWhile isBlank) :=
  List.all_eq_true.mp List.all_takeWhile

theorem eq_trimEnd_append (cs : List Char) : ∃ after, Blank after ∧ cs = trimEnd cs ++ after := by
  refine ⟨(cs.reverse.takeWhile isBlank).reverse, ?_, ?_⟩
  · exact fun c hc => blank_takeWhile cs.reverse c (List.mem_reverse.mp hc)
  · rw [trimEnd, ← List.reverse_append, List.takeWhile_append_dropWhile, List.reverse_reverse]

/-- Trimming takes off blanks only. -/
theorem eq_append_trimBlanks (cs : List Char) :
    ∃ before after, Blank before ∧ Blank after ∧ cs = before ++ trimBlanks cs ++ after := by
  obtain ⟨after, hafter, heq⟩ := eq_trimEnd_append (cs.dropWhile isBlank)
  refine ⟨cs.takeWhile isBlank, after, blank_takeWhile cs, hafter, ?_⟩
  rw [List.append_assoc, trimBlanks, ← heq, List.takeWhile_append_dropWhile]

/-- The text has no blank at either end. -/
structure Trimmed (cs : List Char) : Prop where
  head : ∀ c ∈ cs.head?, isBlank c = false
  last : ∀ c ∈ cs.getLast?, isBlank c = false

theorem trimmed_trimBlanks (cs : List Char) : Trimmed (trimBlanks cs) := by
  constructor
  · intro c hc
    obtain ⟨after, -, heq⟩ := eq_trimEnd_append (cs.dropWhile isBlank)
    have hhead : (cs.dropWhile isBlank).head? = some c := by
      rw [heq, List.head?_append]
      exact congrArg (Option.or · after.head?) hc
    have hnot := List.head?_dropWhile_not isBlank cs
    rw [hhead] at hnot
    simpa using hnot
  · intro c hc
    have hnot := List.head?_dropWhile_not isBlank (cs.dropWhile isBlank).reverse
    rw [trimBlanks, trimEnd, List.getLast?_reverse] at hc
    rw [hc] at hnot
    simpa using hnot

theorem dropWhile_isBlank_eq_self {cs : List Char} (h : ∀ c ∈ cs.head?, isBlank c = false) :
    cs.dropWhile isBlank = cs := by
  cases cs with
  | nil => rfl
  | cons c cs => exact List.dropWhile_cons_of_neg (by simp [h c rfl])

theorem Trimmed.trimBlanks_eq {cs : List Char} (h : Trimmed cs) : trimBlanks cs = cs := by
  have hlast : ∀ c ∈ cs.reverse.head?, isBlank c = false := by
    rw [List.head?_reverse]
    exact h.last
  rw [trimBlanks, dropWhile_isBlank_eq_self h.head, trimEnd, dropWhile_isBlank_eq_self hlast,
    List.reverse_reverse]

/-- The trimming of strings. -/
def trim (s : String) : String :=
  String.ofList (trimBlanks s.toList)

end Pipeline.Text
