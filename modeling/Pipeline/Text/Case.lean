import Pipeline.Text.CaseData

/-!
# Text — letter case

Full case conversion: every character maps to one or more characters, whatever stands around it,
but for the capital sigma, which at the end of a word becomes the final sigma.
-/

namespace Pipeline.Text

/-- Does some range of the table hold the code point? -/
def inRanges (table : List (Nat × Nat)) (n : Nat) : Bool :=
  table.any fun r => r.1 ≤ n && n ≤ r.2

/-- The image of a character: an expansion, the target of a run, or the character itself. -/
def convert (runs : List CaseRun) (expansions : List (Nat × List Nat)) (c : Char) : List Char :=
  match expansions.lookup c.toNat with
  | some image => image.map Char.ofNat
  | none =>
    match runs.findSome? (·.target? c.toNat) with
    | some n => [Char.ofNat n]
    | none => [c]

/-- The upper-case form of one character. -/
def upperChar (c : Char) : List Char := convert upperRuns upperExpansions c

/-- The lower-case form of one character, with the sigma that stands inside a word. -/
def lowerChar (c : Char) : List Char := convert lowerRuns lowerExpansions c

/-- The nearest character that does not ignore case is cased. -/
def meetsCased (cs : List Char) : Bool :=
  match cs.dropWhile fun c => inRanges caseIgnorableRanges c.toNat with
  | c :: _ => inRanges casedRanges c.toNat
  | [] => false

/-- Lower case of a text; `before` holds what has been read, nearest character first. -/
def lowerFrom (before : List Char) : List Char → List Char
  | [] => []
  | c :: rest =>
    if c.toNat == 0x3A3 then
      Char.ofNat (if meetsCased before && !meetsCased rest then 0x3C2 else 0x3C3) ::
        lowerFrom (c :: before) rest
    else
      lowerChar c ++ lowerFrom (c :: before) rest

/-- The text in upper case. -/
def upper (s : String) : String := String.ofList (s.toList.flatMap upperChar)

/-- The text in lower case. -/
def lower (s : String) : String := String.ofList (lowerFrom [] s.toList)

end Pipeline.Text
