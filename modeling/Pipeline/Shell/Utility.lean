import Pipeline.Shell.Machine
import Pipeline.Text.Lines

/-!
# Shell — utilities

The small programs that commands call.  Each takes its arguments and what is left of the input,
writes to the outputs of its context and sets the status.
-/

namespace Pipeline.Shell

/-- One byte. -/
def byte (n : Nat) : UInt8 := UInt8.ofNat n

/-- A digit of base eight. -/
def isOctal (c : Char) : Bool := '0' ≤ c && c ≤ '7'

/-- The value of digits of base eight. -/
def octalValue (cs : List Char) : Nat := cs.foldl (fun n c => n * 8 + (c.toNat - '0'.toNat)) 0

/-- The byte of an escape letter. -/
def escapeLetter? : Char → Option Nat
  | 'a' => some 7
  | 'b' => some 8
  | 'f' => some 12
  | 'n' => some 10
  | 'r' => some 13
  | 't' => some 9
  | 'v' => some 11
  | '\\' => some 92
  | _ => none

/-! ### Printing -/

/-- The bytes of an escape behind its backslash, and the rest. -/
def formatEscape (cs : List Char) : List UInt8 × List Char :=
  match cs with
  | [] => ([byte 92], [])
  | c :: rest =>
    if isOctal c then
      let digits := (cs.take 3).takeWhile isOctal
      ([byte (octalValue digits)], cs.drop digits.length)
    else
      match escapeLetter? c with
      | some n => ([byte n], rest)
      | none =>
        if c = '"' || c = '\'' then (Text.encode [c], rest) else (Text.encode ['\\', c], rest)

/-- A text padded to a width, on the right if it is to stand left. -/
def pad (width : Nat) (left : Bool) (fill : Char) (text : List Char) : List Char :=
  let room := List.replicate (width - text.length) fill
  if left then text ++ List.replicate (width - text.length) ' ' else room ++ text

/-- The whole number at the start of an argument. -/
def argumentNumber (cs : List Char) : Int := (String.ofList cs).toInt?.getD 0

/-- The text of one conversion. -/
def convert (kind : Char) (arg : List Char) : List Char :=
  if kind = 'd' || kind = 'i' || kind = 'u' then (toString (argumentNumber arg)).toList
  else if kind = 'x' then Nat.toDigits 16 (argumentNumber arg).toNat
  else if kind = 'X' then (Nat.toDigits 16 (argumentNumber arg).toNat).map Char.toUpper
  else if kind = 'o' then Nat.toDigits 8 (argumentNumber arg).toNat
  else if kind = 'c' then arg.take 1
  else arg

/-- The bytes of a text with its escapes, and whether one of them ends all output. -/
def echoText : Nat → List Char → List UInt8 × Bool
  | 0, _ => ([], false)
  | fuel + 1, cs =>
    match cs with
    | [] => ([], false)
    | '\\' :: 'c' :: _ => ([], true)
    | '\\' :: '0' :: rest =>
      let digits := (rest.take 3).takeWhile isOctal
      let more := echoText fuel (rest.drop digits.length)
      (byte (octalValue digits) :: more.1, more.2)
    | '\\' :: c :: rest =>
      let more := echoText fuel rest
      match escapeLetter? c with
      | some n => (byte n :: more.1, more.2)
      | none => (Text.encode ['\\', c] ++ more.1, more.2)
    | c :: rest =>
      let more := echoText fuel rest
      (Text.encode [c] ++ more.1, more.2)

/-- One pass over a format: the bytes, and the arguments that are left. -/
def formatOnce : Nat → List Char → List (List Char) → List UInt8 × List (List Char)
  | 0, _, args => ([], args)
  | fuel + 1, cs, args =>
    match cs with
    | [] => ([], args)
    | '\\' :: rest =>
      let (bytes, rest) := formatEscape rest
      let more := formatOnce fuel rest args
      (bytes ++ more.1, more.2)
    | '%' :: '%' :: rest =>
      let more := formatOnce fuel rest args
      (byte 37 :: more.1, more.2)
    | '%' :: rest =>
      let flags := rest.takeWhile fun c => c = '-' || c = '0'
      let afterFlags := rest.dropWhile fun c => c = '-' || c = '0'
      let width := (String.ofList (afterFlags.takeWhile Char.isDigit)).toNat?.getD 0
      match afterFlags.dropWhile Char.isDigit with
      | kind :: rest =>
        let text := convert kind (args.head?.getD [])
        let left := flags.contains '-'
        let fill := if flags.contains '0' && !left then '0' else ' '
        let more := formatOnce fuel rest (args.drop 1)
        let bytes := if kind = 'b' then (echoText (text.length + 1) text).1
          else Text.encode (pad width left fill text)
        (bytes ++ more.1, more.2)
      | [] => ([byte 37], args)
    | c :: rest =>
      let more := formatOnce fuel rest args
      (Text.encode [c] ++ more.1, more.2)

/-- The bytes of a format that is used again while arguments are left. -/
def formatAll : Nat → List Char → List (List Char) → List UInt8
  | 0, _, _ => []
  | fuel + 1, format, args =>
    let (bytes, rest) := formatOnce (format.length + 1) format args
    if rest.isEmpty || rest.length = args.length then bytes
    else bytes ++ formatAll fuel format rest

/-- The words with blanks between them and a line ending, unless the first word forbids it. -/
def echo (args : List (List Char)) : List UInt8 :=
  let silent := args.head? = some ['-', 'n']
  let text := [' '].intercalate (if silent then args.drop 1 else args)
  let printed := echoText (text.length + 1) text
  if silent || printed.2 then printed.1 else printed.1 ++ [byte 10]

/-- A word of options for `echo` as a program of its own. -/
def isEchoOption : List Char → Bool
  | '-' :: c :: cs => (c :: cs).all fun c => c = 'n' || c = 'e' || c = 'E'
  | _ => false

/-- What `echo` prints as a program of its own: escapes only if an option asks for them. -/
def echoProgram (args : List (List Char)) : List UInt8 :=
  let options := (args.takeWhile isEchoOption).flatten
  let text := [' '].intercalate (args.dropWhile isEchoOption)
  let printed := if options.contains 'e' then echoText (text.length + 1) text
    else (Text.encode text, false)
  if options.contains 'n' || printed.2 then printed.1 else printed.1 ++ [byte 10]

/-! ### Input -/

/-- The first line of bytes without its ending, whether it was ended, and the rest. -/
def takeLine (bytes : List UInt8) : List UInt8 × Bool × List UInt8 :=
  match bytes.dropWhile (· ≠ byte 10) with
  | _ :: rest => (bytes.takeWhile (· ≠ byte 10), true, rest)
  | [] => (bytes, false, [])

/-- The lines of bytes, endings dropped. -/
def byteLines : Nat → List UInt8 → List (List UInt8)
  | 0, _ => []
  | fuel + 1, bytes =>
    if bytes.isEmpty then []
    else
      let (line, _, rest) := takeLine bytes
      line :: byteLines fuel rest

/-- Lines put together, each with its ending. -/
def unlines (lines : List (List UInt8)) : List UInt8 := lines.flatMap (· ++ [byte 10])

/-- Copies files, or the input, to the output. -/
def cat (ctx : Context) (m : Machine) : List (List Char) → Machine
  | [] => m
  | arg :: args =>
    if arg = ['-'] then cat ctx { m.write ctx.out m.input with input := [] } args
    else
      let path := String.ofList arg
      match ctx.files.bytes? path with
      | some bytes => cat ctx (m.write ctx.out bytes) args
      | none =>
        let cause := if ctx.files.isDirectory path then "Is a directory"
          else "No such file or directory"
        let m := m.say ctx.err ("cat: " ++ path ++ ": " ++ cause ++ "\n").toList
        cat ctx (m.ended 1) args

/-- The count that options such as `-n 3`, `-n3` or `-3` give. -/
def lineCount (args : List (List Char)) : Nat :=
  let digits := (args.flatten.filter Char.isDigit)
  (String.ofList digits).toNat?.getD 10

/-- Counts of the input. -/
def wordCount (args : List (List Char)) (bytes : List UInt8) : Nat :=
  if args.head? = some ['-', 'l'] then (bytes.filter (· = byte 10)).length
  else if args.head? = some ['-', 'w'] then
    ((String.ofList (Text.decodeLossy bytes)).split Char.isWhitespace).toList.length
  else bytes.length

/-- The whole numbers from one to another. -/
def numbers (first step last : Int) : Nat → List Int
  | 0 => []
  | fuel + 1 =>
    if (step > 0 && first ≤ last) || (step < 0 && first ≥ last) then
      first :: numbers (first + step) step last fuel
    else []

/-- The numbers that `seq` prints. -/
def sequenceOf (args : List (List Char)) : List Int :=
  match args.map argumentNumber with
  | [last] => numbers 1 1 last 100000
  | [first, last] => numbers first 1 last 100000
  | [first, step, last] => numbers first step last 100000
  | _ => []

/-- The characters of a set with ranges and escapes. -/
def charSet : List Char → List Char
  | '\\' :: 'n' :: rest => '\n' :: charSet rest
  | '\\' :: 't' :: rest => '\t' :: charSet rest
  | '\\' :: c :: rest => c :: charSet rest
  | a :: '-' :: b :: rest =>
    (List.range (b.toNat + 1 - a.toNat)).map (fun k => Char.ofNat (a.toNat + k)) ++ charSet rest
  | c :: rest => c :: charSet rest
  | [] => []

/-- Characters of one set replaced by those of another, or deleted. -/
def replaceChars (args : List (List Char)) (text : List Char) : List Char :=
  match args with
  | [['-', 'd'], set] => text.filter fun c => !(charSet set).contains c
  | [source, target] =>
    let targets := charSet target
    let last := targets.getLast?.getD ' '
    text.map fun c =>
      match (charSet source).idxOf? c with
      | some i => (targets[i]?).getD last
      | none => c
  | _ => text

/-- The order of two lines by their bytes. -/
def lineLe (a b : List UInt8) : Bool := !(decide (b < a))

/-- A test of its arguments; `none` if it makes no sense. -/
def testArgs (files : Files) : List (List Char) → Option Bool
  | [] => some false
  | [['!']] => some true
  | ['!'] :: args => (testArgs files args).map (!·)
  | [a] => some (!a.isEmpty)
  | [['-', op], a] =>
    let path := String.ofList a
    match op with
    | 'n' => some (!a.isEmpty)
    | 'z' => some a.isEmpty
    | 'e' => some (files.pathExists path)
    | 'f' => some (files.isFile path)
    | 'd' => some (files.isDirectory path)
    | 't' => some false
    | _ => none
  | [a, op, b] =>
    let x := argumentNumber a
    let y := argumentNumber b
    match String.ofList op with
    | "=" => some (a = b)
    | "!=" => some (a ≠ b)
    | "-eq" => some (x = y)
    | "-ne" => some (x ≠ y)
    | "-lt" => some (x < y)
    | "-le" => some (x ≤ y)
    | "-gt" => some (x > y)
    | "-ge" => some (x ≥ y)
    | _ => none
  | _ => none

/-- The names of a directory in order, hidden ones left out. -/
def visibleNames (entries : List (String × FileNode)) : List (List Char) :=
  let names := (entries.map (·.1.toList)).filter fun name => name.head? ≠ some '.'
  names.mergeSort fun a b => !(decide (Text.encode b < Text.encode a))

/-- Lists a directory, or names a file. -/
def listPath (ctx : Context) (m : Machine) (path : String) : Machine :=
  match ctx.files.at? path with
  | some (.directory entries) =>
    (m.say ctx.out ((visibleNames entries).flatMap (· ++ ['\n']))).ended 0
  | some _ => (m.say ctx.out (path ++ "\n").toList).ended 0
  | none =>
    let complaint := "ls: cannot access '" ++ path ++ "': No such file or directory\n"
    (m.say ctx.err complaint.toList).ended 2

/-- A status from a truth value. -/
def statusOf (b : Bool) : Nat := if b then 0 else 1

/-- Runs a utility; `none` if there is none of this name. -/
def utility? (ctx : Context) (m : Machine) (name : String) (args : List (List Char)) :
    Option Machine :=
  let lines := byteLines (m.input.length + 1) m.input
  let consumed := { m with input := [], status := 0 }
  match name with
  | "true" | "sleep" => some (m.ended 0)
  | "false" => some (m.ended 1)
  | "printf" =>
    match args with
    | format :: rest => some ((m.write ctx.out (formatAll (rest.length + 1) format rest)).ended 0)
    | [] => some (m.complain ctx 2 "printf: usage: printf format [arg ...]")
  | "cat" => some (cat ctx (m.ended 0) (if args.isEmpty then [['-']] else args))
  | "ls" =>
    some (listPath ctx m (((args.filter (·.head? ≠ some '-')).head?.map String.ofList).getD "."))
  | "test" => some (m.ended ((testArgs ctx.files args).elim 2 statusOf))
  | "[" => some (m.ended ((testArgs ctx.files args.dropLast).elim 2 statusOf))
  | "seq" =>
    some ((m.say ctx.out ((sequenceOf args).flatMap fun i => (toString i ++ "\n").toList)).ended 0)
  | "head" => some (consumed.write ctx.out (unlines (lines.take (lineCount args))))
  | "tail" => some (consumed.write ctx.out (unlines (lines.drop (lines.length - lineCount args))))
  | "sort" =>
    let sorted := lines.mergeSort lineLe
    let kept := if args.contains ['-', 'r'] then sorted.reverse else sorted
    some (consumed.write ctx.out (unlines kept))
  | "wc" => some (consumed.say ctx.out (toString (wordCount args m.input) ++ "\n").toList)
  | "tr" => some (consumed.say ctx.out (replaceChars args (Text.decodeLossy m.input)))
  | "pwd" =>
    let path := Files.absolute ctx.files.workingDirectory
    some ((m.say ctx.out (path ++ "\n").toList).ended 0)
  | _ => none

end Pipeline.Shell
