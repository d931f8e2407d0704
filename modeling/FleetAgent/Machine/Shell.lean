/-
# The shell of a device

The shell runs the commands of a script one after another.  It keeps variables, a folder, the
targets of its output streams and what is left of its input.  A script ends with the status
of its last command, by `exit`, or by a signal that the shell sends itself and does not trap.

The steps of the shell are functions of a runner for inner lists of commands (`Runner`); the
shell itself (`runFrom`) ties them together, with a bound on how deep lists stand inside one
another.
-/
import FleetAgent.Machine.Expression
import FleetAgent.Machine.Programs
import FleetAgent.Machine.Script
import FleetAgent.Text.Blank

namespace FleetAgent.Machine.Shell

open FleetAgent.Machine.Script

/-- Where output goes. -/
inductive Sink where
  | stream (s : Stream)
  | pipe
  | nowhere
deriving DecidableEq, Repr, Inhabited

/-- A shell between two commands. -/
structure State where
  /-- The number of its process. -/
  number : Nat
  /-- The name and the arguments that it was started with. -/
  args : List String
  bindings : List (String × String)
  /-- What is done on signals that do not end the shell; zero stands for its end. -/
  traps : List (Nat × List Char)
  folder : String
  input : List UInt8
  out : Sink
  err : Sink
  lastCode : Nat
  /-- What has been written, the latest first. -/
  written : List (Sink × List UInt8)
  /-- Whether the loop in progress is being left. -/
  breaking : Bool
  /-- How the shell has ended, if it has. -/
  ended : Option Status
deriving Repr, Inhabited

/-- Runs a list of commands. -/
abbrev Runner := State → List Pipeline → State

/-- The number of the process of the first shell. -/
def firstNumber : Nat := 1000

/-- A shell that has just been started. -/
def State.start (number : Nat) (args : List String) (environment : List (String × String))
    (folder : String) (input : List UInt8) : State where
  number := number
  args := args
  bindings := ("PWD", folder) :: environment
  traps := []
  folder := folder
  input := input
  out := .stream .out
  err := .stream .err
  lastCode := 0
  written := []
  breaking := false
  ended := none

/-- The state after output to a sink. -/
def State.write (s : State) (k : Sink) (bytes : List UInt8) : State :=
  match k with
  | .nowhere => s
  | _ => if bytes.isEmpty then s else { s with written := (k, bytes) :: s.written }

/-- The state after a command that ended with a code. -/
def State.code (s : State) (n : Nat) : State :=
  { s with lastCode := n }

/-- What a message of the shell begins with. -/
def State.prompt (s : State) : String :=
  s.args.headD "" ++ ": 1: "

/-- Whether the shell goes on with its list. -/
def State.goesOn (s : State) : Bool :=
  s.ended.isNone && !s.breaking

/-- The bytes that were written to a pipe. -/
def State.piped (s : State) : List UInt8 :=
  (s.written.filter fun w => w.1 == .pipe).reverse.flatMap Prod.snd

/-- The code that stands for a status. -/
def codeOf : Status → Nat
  | .exited n => n
  | .killed n => 128 + n

/-! ## Words -/

/-- The value of a parameter. -/
def State.value (s : State) (name : String) : String :=
  if name = "$" then toString s.number
  else if name = "?" then toString s.lastCode
  else if name = "#" then toString (s.args.length - 1)
  else if name = "@" ∨ name = "*" then Text.join " " (s.args.drop 1)
  else match Numeral.natural? name.toList with
    | some n => s.args.getD n ""
    | none => (s.bindings.lookup name).getD ""

/-- Whether a character separates fields. -/
def isFieldBlank (c : Char) : Bool :=
  c == ' ' || c == '\t' || c == '\n'

/-- The fields so far, the latest first, and the field in progress. -/
structure Fields where
  done : List String
  current : Option (List Char)
deriving Repr

/-- Adds text to the field in progress. -/
def Fields.add (f : Fields) (text : List Char) : Fields :=
  { f with current := some (f.current.getD [] ++ text) }

/-- Ends the field in progress. -/
def Fields.stop (f : Fields) : Fields :=
  match f.current with
  | some text => ⟨String.ofList text :: f.done, none⟩
  | none => f

/-- Adds pieces, each of which but the first begins a new field. -/
def Fields.addPieces (f : Fields) : List (List Char) → Fields
  | [] => f
  | [piece] => f.add piece
  | piece :: rest => (f.add piece).stop.addPieces rest

/-- Adds what an expansion has given: as it is if it is quoted, and otherwise as fields. -/
def Fields.addExpansion (f : Fields) (quoted : Bool) (text : List Char) : Fields :=
  if quoted then f.add text
  else f.addPieces ((Text.splitAt isFieldBlank text).filter fun p => !p.isEmpty)

/-- The commands of a script; a script that cannot be read has none. -/
def commandsOf (script : List Char) : List Pipeline :=
  (ofChars? script).getD []

/-- The output of a script without the line ends behind it. -/
def outputOf (run : Runner) (s : State) (script : List Char) : List Char :=
  let inner := run { s with out := .pipe, written := [] } (commandsOf script)
  Text.dropWhileEnd (· == '\n') (Text.Utf8.decodeLossyChars inner.piped)

/-- Adds a part of a word. -/
def Fields.addPart (run : Runner) (s : State) (f : Fields) : Part → Fields
  | .text text _ => f.add text
  | .parameter name quoted =>
    if name = "@" ∧ quoted then f.addPieces ((s.args.drop 1).map String.toList)
    else f.addExpansion quoted (s.value name).toList
  | .parameterOr name other quoted =>
    let value := (s.value name).toList
    f.addExpansion quoted (if value.isEmpty then other else value)
  | .output script quoted => f.addExpansion quoted (outputOf run s script)
  | .value expression quoted =>
    f.addExpansion quoted (toString ((Expression.value? s.value expression).getD 0)).toList

/-- The fields that a word becomes. -/
def expand (run : Runner) (s : State) (w : Word) : List String :=
  (w.foldl (Fields.addPart run s) ⟨[], none⟩).stop.done.reverse

/-! ## Redirections -/

/-- The streams of a command. -/
structure Streams where
  input : List UInt8
  out : Sink
  err : Sink
deriving Repr

/-- The sink at a path, or why nothing can be written there. -/
def sinkAt (path : String) (streams : Streams) : Except String Sink :=
  if path = "/dev/stdout" then .ok streams.out
  else if path = "/dev/stderr" then .ok streams.err
  else if Tree.isFolder path then .error ("cannot create " ++ path ++ ": Is a directory")
  else
    let outer := (path.toList.reverse.dropWhile (· != '/')).reverse
    if outer.isEmpty || Tree.isFolder (String.ofList outer) then .ok .nowhere
    else .error ("cannot create " ++ path ++ ": Directory nonexistent")

/-- The streams with the target of an output descriptor replaced. -/
def Streams.setOutput (streams : Streams) (descriptor : Nat) (k : Sink) : Streams :=
  if descriptor = 1 then { streams with out := k }
  else if descriptor = 2 then { streams with err := k }
  else streams

/-- The streams after a redirection, or why it is not possible. -/
def redirect (run : Runner) (s : State) (streams : Streams) :
    Nat × Redirection → Except String Streams
  | (_, .readFrom word) =>
    let path := String.join (expand run s word)
    if Tree.isFile path then .ok { streams with input := [] }
    else if path = "/dev/stdin" then .ok streams
    else .error ("cannot open " ++ path ++ ": No such file")
  | (d, .writeTo word) =>
    (sinkAt (String.join (expand run s word)) streams).map (streams.setOutput d)
  | (d, .duplicate n) =>
    if n = 1 then .ok (streams.setOutput d streams.out)
    else if n = 2 then .ok (streams.setOutput d streams.err)
    else .ok streams
  | (d, .close) =>
    .ok (if d = 0 then { streams with input := [] } else streams.setOutput d .nowhere)

/-- The streams of a command with its redirections. -/
def streamsOf (run : Runner) (s : State) (rs : List (Nat × Redirection)) :
    Except String Streams :=
  rs.foldlM (redirect run s) ⟨s.input, s.out, s.err⟩

/-- The state after a redirection that is not possible. -/
def State.misdirect (s : State) (reason : String) : State :=
  (s.write s.err (Text.Utf8.encode (s.prompt ++ reason ++ "\n"))).code 2

/-! ## Signals and the end -/

/-- The number of a signal, by its number or its name; zero is the end of the shell. -/
def signalOf? (text : String) : Option Nat :=
  match Numeral.natural? text.toList with
  | some n => some n
  | none =>
    let name := if "SIG".toList.isPrefixOf text.toList then text.toList.drop 3 else text.toList
    if String.ofList name = "EXIT" then some 0 else Status.signalNumber? (String.ofList name)

/-- The signal that the words of `kill` name, with the targets. -/
def killSignal? : List String → Option (Nat × List String)
  | "-s" :: name :: targets => (signalOf? name).map fun n => (n, targets)
  | option :: targets =>
    match option.toList with
    | '-' :: name => (signalOf? (String.ofList name)).map fun n => (n, targets)
    | _ => some (15, option :: targets)
  | [] => none

/-- Whether a signal can be trapped. -/
def isTrappable (n : Nat) : Bool :=
  n != 9 && n != 19

/-- Whether a target of a signal is the shell or its group. -/
def State.hits (s : State) (target : String) : Bool :=
  target == "0" || target == toString s.number || target == "-" ++ toString s.number

/-- Sends a signal. -/
def kill (run : Runner) (s : State) (streams : Streams) (words : List String) : State :=
  match killSignal? words with
  | none => s.code 2
  | some (n, targets) =>
    if n = 0 then s.code 0
    else if !targets.any s.hits then
      (s.write streams.err (Text.Utf8.encode (s.prompt ++ "kill: No such process\n\n"))).code 1
    else match s.traps.lookup n with
      | some action => if isTrappable n then run (s.code 0) (commandsOf action)
        else { s with ended := some (.killed n) }
      | none => { s with ended := some (.killed n) }

/-- Sets what is done on signals. -/
def State.trap (s : State) : List String → State
  | [] => s.code 0
  | action :: signals =>
    let ns := signals.filterMap signalOf?
    let others := s.traps.filter fun t => !ns.contains t.1
    let added := if action = "-" then [] else ns.map fun n => (n, action.toList)
    { s with traps := added ++ others, lastCode := 0 }

/-- The state after the shell has ended with a code. -/
def State.stop (s : State) (n : Nat) : State :=
  { s with ended := some (.exited (n % 256)), lastCode := n % 256 }

/-- Ends the shell with a code, or with that of the last command. -/
def State.exit (s : State) (streams : Streams) (words : List String) : State :=
  match words with
  | [] => s.stop s.lastCode
  | word :: _ =>
    match Numeral.natural? word.toList with
    | some n => s.stop n
    | none =>
      let line := s.prompt ++ "exit: Illegal number: " ++ word ++ "\n"
      (s.write streams.err (Text.Utf8.encode line)).stop 2

/-- Does what is to be done at the end of the shell, and gives its status. -/
def conclude (run : Runner) (s : State) : State × Status :=
  let status := s.ended.getD (.exited s.lastCode)
  match status, s.traps.lookup 0 with
  | .exited _, some action =>
    let after := run { s with ended := none, traps := [] } (commandsOf action)
    (after, after.ended.getD status)
  | _, _ => (s, status)

/-! ## Programs -/

/-- The names of the shell. -/
def shellNames : List String := ["sh", "bash", "dash"]

/-- The arguments and the script of a shell that is started with words, and the input that is
left: a script is among them, or it is a file or the input.  If there is no script, what is
wrong. -/
def scriptOf (i : Invocation) : Except String (List String × List Char × List UInt8) :=
  let fromInput := (i.program :: i.args, Text.Utf8.decodeLossyChars i.input, [])
  match i.args with
  | "-c" :: script :: rest =>
    .ok (if rest.isEmpty then [i.program] else rest, script.toList, i.input)
  | ["-c"] => .error "-c requires an argument"
  | path :: _ =>
    if path.toList.head? = some '-' then .ok fromInput
    else if Tree.isFolder path then .ok (i.args, [], i.input)
    else .error ("cannot open " ++ path ++ ": No such file")
  | [] => .ok fromInput

/-- Runs a shell whose process has a number. -/
def runShell (run : Runner) (number : Nat) (i : Invocation) : Completed :=
  let refusal := fun text => (⟨[(.err, Text.Utf8.encode text)], .exited 2⟩ : Completed)
  match scriptOf i with
  | .error e => refusal (i.program ++ ": 0: " ++ e ++ "\n")
  | .ok (args, script, input) =>
    match ofChars? script with
    | none => refusal (args.headD "" ++ ": 1: Syntax error\n")
    | some ps =>
      let s := run (State.start number args i.environment i.workingDir input) ps
      let (s, status) := conclude run s
      let written := s.written.reverse.filterMap fun w =>
        match w.1 with
        | .stream k => some (k, w.2)
        | _ => none
      ⟨written, status⟩

/-- What a program does that is called by a name or a path. -/
def program? (run : Runner) (number : Nat) (path : String) : Option Program :=
  match Tree.baseName? path with
  | none => none
  | some name =>
    if shellNames.contains name then some (runShell run number)
    else Program.standard.lookup name

/-- The state after a program has written to the streams. -/
def State.receive (s : State) (streams : Streams) (c : Completed) : State :=
  c.written.foldl (fun s w => s.write (if w.1 == .out then streams.out else streams.err) w.2) s

/-- The programs that read their input up to its end. -/
def readers : List String := ["cat", "grep", "head", "rev", "sort", "tail", "tr", "wc"]

/-- Runs a program, or tells that there is none. -/
def launchProgram (run : Runner) (s : State) (number : Nat) (streams : Streams) (name : String)
    (args : List String) : State × Status :=
  match program? run number name with
  | some program =>
    let c := program ⟨name, args, s.folder, s.bindings, streams.input⟩
    let s := s.receive streams c
    let reads := (Tree.baseName? name).any readers.contains
    (if reads then { s with input := [] } else s, c.status)
  | none =>
    let (text, code) :=
      if Tree.programFault name == .permissionDenied then ("Permission denied", 126)
      else ("not found", 127)
    let line := s.prompt ++ name ++ ": " ++ text ++ "\n"
    (s.write streams.err (Text.Utf8.encode line), .exited code)

/-! ## Commands of the shell itself -/

/-- The first line of the input into a variable. -/
def State.readLine (s : State) (name : String) : State :=
  if s.input.isEmpty then s.code 1
  else
    let line := s.input.takeWhile (· != 0x0A)
    { s with
      bindings := (name, Text.Utf8.decodeLossy line) :: s.bindings
      input := s.input.drop (line.length + 1)
      lastCode := 0 }

/-- Enters a folder. -/
def State.enter (s : State) (streams : Streams) (path : String) : State :=
  let full := if path.toList.head? = some '/' then path
    else if s.folder = "/" then "/" ++ path else s.folder ++ "/" ++ path
  match Tree.enter full with
  | .ok full => { s with folder := full, bindings := ("PWD", full) :: s.bindings, lastCode := 0 }
  | .error _ =>
    let line := s.prompt ++ "cd: can\x27t cd to " ++ path ++ "\n"
    (s.write streams.err (Text.Utf8.encode line)).code 2

/-- Writes words on a line, with their escapes replaced. -/
def State.echo (s : State) (streams : Streams) (words : List String) : State :=
  let (words, stop) := match words with
    | "-n" :: rest => (rest, "")
    | words => (words, "\n")
  let bytes := Program.unescape true (Text.join " " words).toList ++ Text.Utf8.encode stop
  (s.write streams.out bytes).code 0

/-- What the shell tells about a program that was killed by a signal. -/
def obituaries : List (Nat × String) :=
  [(1, "Hangup"), (3, "Quit"), (4, "Illegal instruction"), (6, "Aborted"),
    (8, "Floating point exception"), (9, "Killed"), (10, "User defined signal 1"),
    (11, "Segmentation fault"), (12, "User defined signal 2"), (14, "Alarm clock"),
    (15, "Terminated")]

/-- The state after a program of its own has ended. -/
def State.bury (s : State) (status : Status) : State :=
  let line := match status with
    | .killed n => (obituaries.lookup n).map (· ++ "\n")
    | .exited _ => none
  (s.write s.err (Text.Utf8.encode (line.getD ""))).code (codeOf status)

/-- Runs a command by its name; what is no command of the shell itself is a program. -/
def invoke (run : Runner) (s : State) (streams : Streams) (name : String) (args : List String) :
    State :=
  match name with
  | "exit" => s.exit streams args
  | "kill" => kill run s streams args
  | "trap" => s.trap args
  | "cd" => s.enter streams (args.headD "/root")
  | "read" => s.readLine (args.getLast?.getD "REPLY")
  | "break" => { s with breaking := true }
  | "echo" => s.echo streams args
  | "eval" => run s (commandsOf (Text.join " " args).toList)
  | "set" =>
    if args.head? = some "--" then { s with args := s.args.take 1 ++ args.tail, lastCode := 0 }
    else s.code 0
  | "shift" => { s with args := s.args.head?.toList ++ s.args.drop 2, lastCode := 0 }
  | _ =>
    if [":", "wait", "export", "umask", "unset"].contains name then s.code 0
    else
      let (s, status) := launchProgram run s (s.number + 1) streams name args
      s.bury status

/-- Replaces the shell by a program. -/
def exec (run : Runner) (s : State) (streams : Streams) : List String → State
  | [] => { s with input := streams.input, out := streams.out, err := streams.err, lastCode := 0 }
  | name :: args =>
    let (s, status) := launchProgram run s s.number streams name args
    { s with ended := some status, traps := [], lastCode := codeOf status }

/-! ## Lists -/

/-- Whether a word sets a variable: the name and the rest of the word. -/
def assignment? : Word → Option (String × Word)
  | .text text false :: rest =>
    match Text.cutAt? '=' text with
    | some (name, after) =>
      if !name.isEmpty && name.all isNameChar && !(name.head?.map Numeral.isDigit).getD true then
        some (String.ofList name, .text after true :: rest)
      else none
    | none => none
  | _ => none

/-- Sets the variables in front of a command and gives its words. -/
def assignments (run : Runner) (s : State) : List Word → State × List Word
  | [] => (s, [])
  | w :: ws =>
    match assignment? w with
    | some (name, value) =>
      let text := Text.join " " (expand run s value)
      assignments run { s with bindings := (name, text) :: s.bindings } ws
    | none => (s, w :: ws)

/-- Runs a command that is a row of words. -/
def runWords (run : Runner) (s : State) (ws : List Word) (rs : List (Nat × Redirection)) :
    State :=
  match streamsOf run s rs with
  | .error reason => s.misdirect reason
  | .ok streams =>
    let (s, ws) := assignments run s ws
    match ws.flatMap (expand run s) with
    | [] => s.code 0
    | "exec" :: words => exec run s streams words
    | name :: args => invoke run s streams name args

/-- Runs the body of a loop as long as the test has an outcome; `fuel` bounds how often. -/
def loop (run : Runner) (outcome : Bool) (test body : List Pipeline) : Nat → State → State
  | 0, s => s
  | fuel + 1, s =>
    let tested := run s test
    if !tested.goesOn || ((tested.lastCode == 0) != outcome) then tested.code 0
    else
      let after := run tested body
      if after.goesOn then loop run outcome test body fuel after else after

/-- Runs the body of a loop for each item. -/
def forEach (run : Runner) (name : String) (body : List Pipeline) : List String → State → State
  | [], s => s
  | item :: items, s =>
    let after := run { s with bindings := (name, item) :: s.bindings } body
    if after.goesOn then forEach run name body items after else after

/-- The bound on the turns of a loop. -/
def maxTurns : Nat := 100000

/-- The state after a shell inside the shell has run. -/
def leaveSubshell (s inner : State) : State :=
  let code := (inner.ended.map codeOf).getD inner.lastCode
  { s with
    written := inner.written
    input := inner.input
    lastCode := code
    ended := match inner.ended with
      | some (.killed n) => some (.killed n)
      | _ => none }

/-- Runs an action. -/
def act (run : Runner) (s : State) : Action → State
  | .words ws => runWords run s ws []
  | .group body => run s body
  | .subshell body => leaveSubshell s (run s body)
  | .choice test body otherwise =>
    let tested := run s test
    if !tested.goesOn then tested
    else if tested.lastCode = 0 then run tested body
    else if otherwise.isEmpty then tested.code 0
    else run tested otherwise
  | .loop outcome test body => { loop run outcome test body maxTurns s with breaking := false }
  | .forEach name items body =>
    { forEach run name body (items.flatMap (expand run s)) s with breaking := false }

/-- Runs a command. -/
def runCommand (run : Runner) (s : State) : Command → State
  | .mk (.words ws) rs => runWords run s ws rs
  | .mk a [] => act run s a
  | .mk a rs =>
    match streamsOf run s rs with
    | .error reason => s.misdirect reason
    | .ok streams =>
      let redirected := { s with input := streams.input, out := streams.out, err := streams.err }
      { act run redirected a with out := s.out, err := s.err, input := s.input }

/-- Runs the commands of a pipeline, each in a shell of its own if there are several; the
output of each but the last is the input of the next. -/
def runCommands (run : Runner) (s : State) : List Command → State
  | [] => s
  | [c] => runCommand run s c
  | c :: rest =>
    let inner := leaveSubshell s (runCommand run { s with out := .pipe } c)
    let others := inner.written.filter fun w => w.1 != .pipe
    let fed := { s with input := inner.piped, written := others }
    { leaveSubshell s (runCommands run fed rest) with input := s.input }

/-- Whether a pipeline runs after the last code. -/
def runs (joint : Joint) (code : Nat) : Bool :=
  match joint with
  | .always => true
  | .onSuccess => code == 0
  | .onFailure => code != 0

/-- Runs pipelines until the shell ends or leaves a loop. -/
def runPipelines (run : Runner) : List Pipeline → State → State
  | [], s => s
  | .mk joint negated commands background :: rest, s =>
    if !s.goesOn then s
    else if !runs joint s.lastCode then runPipelines run rest s
    else if background then
      runPipelines run rest ({ s with written := (runCommands run s commands).written }.code 0)
    else
      let after := runCommands run s commands
      runPipelines run rest
        (if negated then after.code (if after.lastCode = 0 then 1 else 0) else after)

/-- Runs lists of commands that stand inside one another at most `fuel` deep. -/
def runFrom : Nat → Runner
  | 0 => fun s _ => s
  | fuel + 1 => fun s ps => runPipelines (runFrom fuel) ps s

/-- The bound on how deep lists stand inside one another. -/
def maxDepth : Nat := 64

/-- The program with a name on a device. -/
def find? (path : String) : Option Program :=
  program? (runFrom maxDepth) firstNumber path

end FleetAgent.Machine.Shell
