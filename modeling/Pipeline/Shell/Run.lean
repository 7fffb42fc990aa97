import Pipeline.Shell.Arithmetic
import Pipeline.Shell.Expansion
import Pipeline.Shell.Parser
import Pipeline.Shell.Utility

/-!
# Shell — running commands

A command takes a machine to a machine.  Loops and nested shells are bounded by fuel; a machine
that has ended its work is passed on as it is.
-/

namespace Pipeline.Shell

/-- The sink behind the number of a descriptor. -/
def Context.sink (ctx : Context) : Nat → Sink
  | 1 => ctx.out
  | 2 => ctx.err
  | _ => .nowhere

/-- Leads the output of a descriptor to a sink. -/
def Context.lead (ctx : Context) (descriptor : Nat) (sink : Sink) : Context :=
  match descriptor with
  | 1 => { ctx with out := sink }
  | 2 => { ctx with err := sink }
  | _ => ctx

/-- The sink behind the path of a file. -/
def Context.sinkOf (ctx : Context) (path : String) : Sink :=
  match path with
  | "/dev/stdout" => ctx.out
  | "/dev/stderr" => ctx.err
  | _ => .nowhere

/-- The directories where programs are found. -/
def programDirectories : List String := ["/bin/", "/usr/bin/"]

/-- The name of a program without the directory where programs are found. -/
def programName (path : String) : String :=
  match programDirectories.find? fun d => path.startsWith d with
  | some d => (path.drop d.length).toString
  | none => path

/-- The name is that of a shell. -/
def isShellName (name : String) : Bool := name = "sh" || name = "dash" || name = "bash"

/-- The options and operands of a shell. -/
structure Invocation where
  exitOnError : Bool := false
  command : Bool := false
  operands : List (List Char) := []

/-- Reads the options of a shell up to the first operand. -/
def Invocation.read (i : Invocation) : List (List Char) → Invocation
  | ['-', '-'] :: args => { i with operands := args }
  | ('-' :: c :: cs) :: args =>
    Invocation.read { i with
      exitOnError := i.exitOnError || (c :: cs).contains 'e'
      command := i.command || (c :: cs).contains 'c' } args
  | args => { i with operands := args }

/-- Ends the shell with the status that an argument names. -/
def exitWith (ctx : Context) (m : Machine) : List (List Char) → Machine
  | [] => m.exited m.status
  | arg :: _ =>
    if !arg.isEmpty && arg.all Char.isDigit then m.exited (argumentNumber arg).toNat.toUInt8.toNat
    else (m.complain ctx 2 ("exit: Illegal number: " ++ String.ofList arg)).exited 2

/-- Sends a signal; only the shell itself can be named. -/
def sendSignal (ctx : Context) (m : Machine) (args : List (List Char)) : Machine :=
  if args.getLast? = some (toString processNumber).toList then
    if args.head? = some ['-', '0'] then m.ended 0 else { m with flow := .killed }
  else m.complain ctx 1 "kill: No such process"

/-- Reads a line of the input into variables; the last one takes what is left. -/
def readLine (m : Machine) (names : List (List Char)) : Machine :=
  let line := takeLine m.input
  let fields := (Fields.cut {} (Text.decodeLossy line.1)).close.done
  let names := (names.filter fun n => n.head? ≠ some '-').map String.ofList
  let last := [' '].intercalate (fields.drop (names.length - 1))
  let values := fields.take (names.length - 1) ++ [last]
  let assigned := (names.zip (values ++ List.replicate names.length [])).foldl
    (fun m (name, value) => m.assign name value) m
  { assigned with input := line.2.2, status := statusOf line.2.1 }

/-- Gives variables the values of words such as `a=b`. -/
def assignWords (m : Machine) (args : List (List Char)) : Machine :=
  (args.foldl (fun m arg =>
    match arg.dropWhile (· ≠ '=') with
    | _ :: value => m.assign (String.ofList (arg.takeWhile (· ≠ '='))) value
    | [] => m) m).ended 0

/-- Changes the options and parameters of the shell. -/
def setOptions (m : Machine) : List (List Char) → Machine
  | ['-', '-'] :: args => { m with parameters := args, status := 0 }
  | ('-' :: cs) :: args =>
    setOptions { m with exitOnError := m.exitOnError || cs.contains 'e' } args
  | ('+' :: cs) :: args =>
    setOptions { m with exitOnError := m.exitOnError && !cs.contains 'e' } args
  | [] => m.ended 0
  | args => { m with parameters := args, status := 0 }

/-- Commands that act on the shell itself and run no other command. -/
def builtin? (ctx : Context) (m : Machine) (name : String) (args : List (List Char)) :
    Option Machine :=
  match name with
  | "exit" => some (exitWith ctx m args)
  | "echo" => some ((m.write ctx.out (echo args)).ended 0)
  | "kill" => some (sendSignal ctx m args)
  | "read" => some (readLine m args)
  | "export" => some (assignWords m args)
  | "set" => some (setOptions m args)
  | ":" => some (m.ended 0)
  | "shift" => some { m with parameters := m.parameters.drop 1, status := 0 }
  | "unset" =>
    some { m with
      assigned := m.assigned.filter fun v => !args.contains v.1.toList
      status := 0 }
  | _ => none

/-- The parts of a text as they stand between double quotes. -/
def quotedParts (text : List Char) : Word :=
  ((doubleQuoted (text.length + 2) (text ++ ['"'])).map (·.1)).getD []

/-- Takes over what a shell inside another one leaves behind. -/
def Machine.leave (inner outer : Machine) : Machine :=
  { outer with
    status := inner.status
    input := inner.input
    out := inner.out
    err := inner.err
    flow := if inner.flow = .killed then .killed else outer.flow }

mutual

/-- Expands a part of a word. -/
def expandPart : Nat → Context → Part → Machine → List Piece × Machine
  | 0, _, _, m => ([], m)
  | fuel + 1, ctx, part, m =>
    match part with
    | .plain chars quoted => ([.solid chars quoted], m)
    | .parameter name quoted => (m.pieces name quoted, m)
    | .default name fallback quoted =>
      if ((m.parameter? name).getD []).isEmpty then
        let r := expandParts fuel ctx (quotedParts fallback) m
        ([.ofExpansion (r.1.flatMap Piece.text) quoted], r.2)
      else (m.pieces name quoted, m)
    | .arithmetic source quoted =>
      let r := expandParts fuel ctx (quotedParts source) m
      let text := r.1.flatMap Piece.text
      match arithmetic r.2.number text with
      | .ok i => ([.ofExpansion (toString i).toList quoted], r.2)
      | .error e =>
        let quoted := "\"" ++ String.ofList text ++ "\""
        ([], (r.2.complain ctx 2 ("arithmetic expression: " ++ e.message ++ ": " ++ quoted)).exited 2)
    | .command source quoted =>
      let inner := runText fuel { ctx with out := .out } source { m with out := [], status := 0 }
      ([.ofExpansion (capturedText inner.out) quoted], { inner.leave m with out := m.out })

/-- Expands the parts of a word from left to right. -/
def expandParts : Nat → Context → Word → Machine → List Piece × Machine
  | 0, _, _, m => ([], m)
  | fuel + 1, ctx, parts, m =>
    parts.foldl (fun acc part =>
      let r := expandPart fuel ctx part acc.2
      (acc.1 ++ r.1, r.2)) ([], m)

/-- Expands words to fields. -/
def expandWords : Nat → Context → List Word → Machine → List (List Char) × Machine
  | 0, _, _, m => ([], m)
  | fuel + 1, ctx, words, m =>
    words.foldl (fun acc parts =>
      let r := expandParts fuel ctx parts acc.2
      (acc.1 ++ Fields.ofPieces r.1, r.2)) ([], m)

/-- Expands assignments to values. -/
def expandAssignments : Nat → Context → List (String × Word) → Machine →
    List (String × List Char) × Machine
  | 0, _, _, m => ([], m)
  | fuel + 1, ctx, assigned, m =>
    assigned.foldl (fun acc a =>
      let r := expandParts fuel ctx a.2 acc.2
      (acc.1 ++ [(a.1, r.1.flatMap Piece.text)], r.2)) ([], m)

/-- Applies redirections from left to right; without a context if a file cannot be opened. -/
def redirectAll : Nat → Context → List Redirect → Machine → Option Context × Machine
  | 0, _, _, m => (none, m)
  | fuel + 1, ctx, rs, m =>
    rs.foldl (fun acc r =>
      match acc.1, r with
      | none, _ => acc
      | some c, .duplicate target source => (some (c.lead target (c.sink source)), acc.2)
      | some c, .output descriptor file =>
        let e := expandParts fuel c file acc.2
        (some (c.lead descriptor (c.sinkOf (String.ofList (e.1.flatMap Piece.text)))), e.2)
      | some c, .input file =>
        let e := expandParts fuel c file acc.2
        let path := String.ofList (e.1.flatMap Piece.text)
        match c.files.bytes? path with
        | some bytes => (some c, { e.2 with input := bytes })
        | none => (none, e.2.complain c 2 ("cannot open " ++ path ++ ": No such file")))
      (some ctx, m)

/-- Runs the text of a command in a machine. -/
def runText : Nat → Context → List Char → Machine → Machine
  | 0, _, _, m => m.exited 2
  | fuel + 1, ctx, source, m =>
    match parse source with
    | .ok c => run fuel ctx c m
    | .error e => (m.complain ctx 2 e.message).exited 2

/-- Runs a shell with its arguments inside a machine. -/
def runShell : Nat → Context → String → List (List Char) → Machine → Machine
  | 0, _, _, _, m => m.exited 2
  | fuel + 1, ctx, name, args, m =>
    let i := Invocation.read {} args
    let start : Machine :=
      { name, exitOnError := i.exitOnError, input := m.input, out := m.out, err := m.err }
    let complaint := fun text : String =>
      { m.say ctx.err (name ++ ": 0: " ++ text ++ "\n").toList with status := 2 }
    match i.command, i.operands with
    | true, [] => complaint "-c requires an argument"
    | true, source :: operands =>
      let start := { start with
        name := ((operands.head?).map String.ofList).getD name
        parameters := operands.drop 1 }
      (runText fuel ctx source start).leave m
    | false, [] => (runText fuel ctx (Text.decodeLossy m.input) { start with input := [] }).leave m
    | false, path :: operands =>
      match ctx.files.bytes? (String.ofList path) with
      | some bytes =>
        (runText fuel ctx (Text.decodeLossy bytes)
          { start with name := String.ofList path, parameters := operands }).leave m
      | none => complaint ("cannot open " ++ String.ofList path ++ ": No such file")

/-- Runs a program; `none` if there is none of this name. -/
def runProgram : Nat → Context → String → List (List Char) → Machine → Option Machine
  | 0, _, _, _, _ => none
  | fuel + 1, ctx, path, args, m =>
    let name := programName path
    if isShellName name then some (runShell fuel ctx path args m)
    else if name = "echo" then some ((m.write ctx.out (echoProgram args)).ended 0)
    else if name = "env" then
      match args with
      | program :: args => runProgram fuel ctx (String.ofList program) args m
      | [] => some (m.ended 0)
    else utility? ctx m name args

/-- Runs a command with its fields. -/
def runFields : Nat → Context → String → List (List Char) → Machine → Machine
  | 0, _, _, _, m => m.exited 2
  | fuel + 1, ctx, name, args, m =>
    match builtin? ctx m name args, name, args with
    | some m, _, _ => m
    | none, "eval", _ => runText fuel ctx ([' '].intercalate args) m
    | none, "command", [] => m.ended 0
    | none, "command", name :: args => runFields fuel ctx (String.ofList name) args m
    | none, "exec", [] => m.ended 0
    | none, "exec", name :: args =>
      let ended := runFields fuel ctx (String.ofList name) args m
      if ended.flow = .going then ended.exited ended.status else ended
    | none, _, _ =>
      match runProgram fuel ctx name args m with
      | some m => m
      | none =>
        if name.toList.contains '/' && ctx.files.pathExists name then
          m.complain ctx 126 (name ++ ": Permission denied")
        else m.complain ctx 127 (name ++ ": not found")

/-- Runs a command. -/
def run : Nat → Context → Command → Machine → Machine
  | 0, _, _, m => m.exited 2
  | fuel + 1, ctx, c, m =>
    if m.flow ≠ .going then m
    else
      let unchecked := { ctx with checked := false }
      match c with
      | .nothing => m
      | .simple assigned words rs =>
        let expanded := expandWords fuel ctx words m
        let values := expandAssignments fuel ctx assigned expanded.2
        let start := if !words.isEmpty then values.2.ended m.status
          else if assigned.any fun a => a.2.any Part.isCommand then values.2 else values.2.ended 0
        if values.2.flow ≠ .going then values.2
        else
          match redirectAll fuel ctx rs start with
          | (none, failed) => failed.checkFailure ctx
          | (some inner, ready) =>
            match expanded.1 with
            | [] => (values.1.foldl (fun m a => m.assign a.1 a.2) ready).checkFailure ctx
            | name :: args =>
              let ended := runFields fuel inner (String.ofList name) args ready
              (if rs.isEmpty then ended else { ended with input := m.input }).checkFailure ctx
      | .sequence first second => run fuel ctx second (run fuel ctx first m)
      | .both first second =>
        let m := run fuel unchecked first m
        if m.status = 0 then run fuel ctx second m else m
      | .either first second =>
        let m := run fuel unchecked first m
        if m.status = 0 then m else run fuel ctx second m
      | .negated c =>
        let m := run fuel unchecked c m
        if m.flow = .going then m.ended (if m.status = 0 then 1 else 0) else m
      | .background c => ((run fuel unchecked c m).leave m).ended 0
      | .pipe first second =>
        let left := run fuel { ctx with out := .out } first { m with out := [] }
        let right := run fuel ctx second { m with input := left.out, err := left.err }
        let both := { right.leave m with input := left.input }
        (if left.flow = .killed then { both with flow := .killed } else both).checkFailure ctx
      | .subshell c rs =>
        match redirectAll fuel ctx rs m with
        | (none, failed) => failed.checkFailure ctx
        | (some inner, ready) => ((run fuel inner c ready).leave m).checkFailure ctx
      | .group c rs =>
        match redirectAll fuel ctx rs m with
        | (none, failed) => failed.checkFailure ctx
        | (some inner, ready) => run fuel inner c ready
      | .cond test yes no =>
        let m := run fuel unchecked test m
        if m.status = 0 then run fuel ctx yes m
        else
          match no, m.flow with
          | .nothing, .going => m.ended 0
          | _, _ => run fuel ctx no m
      | .forEach name words body =>
        let expanded := expandWords fuel ctx words m
        expanded.1.foldl (fun m value => run fuel ctx body
          (if m.flow = .going then m.assign name value else m)) (expanded.2.ended 0)
      | .loop negated test body =>
        let tested := run fuel unchecked test m
        if tested.flow ≠ .going then tested
        else if (tested.status = 0) = negated then tested.ended 0
        else run fuel ctx (.loop negated test body) (run fuel ctx body tested)

end

/-- How far nested commands and loops are followed. -/
def depthLimit : Nat := 100000

end Pipeline.Shell
