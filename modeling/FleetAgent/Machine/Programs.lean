/-
# The standard programs of a device

The programs that every device has, as far as commands for it are made of them.  A program
is a function of its invocation; what it writes comes in order, with the stream each piece is
written to.
-/
import FleetAgent.Machine.Launch
import FleetAgent.Machine.Tree
import FleetAgent.Numeral.Integer
import FleetAgent.Text.Pieces
import FleetAgent.Text.Utf8

namespace FleetAgent.Machine

/-- A program. -/
abbrev Program := Invocation → Completed

namespace Program

/-- Ends with a code and writes nothing. -/
def quiet (code : Nat) : Completed := ⟨[], .exited code⟩

/-- Writes a text and ends well. -/
def tells (text : String) : Completed := ⟨[(.out, Text.Utf8.encode text)], .exited 0⟩

/-- Complaints, each on a line of its own behind the name that the program was called by. -/
def complains (i : Invocation) (complaints : List String) : List (Stream × List UInt8) :=
  complaints.map fun c => (.err, Text.Utf8.encode (i.program ++ ": " ++ c ++ "\n"))

/-- Copies its input, or files, one after another; the files of a device are empty as far as
commands look at them. -/
def cat : Program := fun i =>
  let missing := i.args.filterMap fun a =>
    if a = "-" ∨ Tree.isFile a then none
    else if Tree.isFolder a then some (a ++ ": Is a directory")
    else some (a ++ ": No such file or directory")
  let copied := if i.args.isEmpty || i.args.contains "-" then i.input else []
  ⟨(.out, copied) :: complains i missing, .exited (if missing.isEmpty then 0 else 1)⟩

/-- Writes its arguments on a line. -/
def echo : Program := fun i =>
  match i.args with
  | "-n" :: rest => tells (Text.join " " rest)
  | args => tells (Text.join " " args ++ "\n")

/-- Whether a text is a number of seconds, with or without a unit. -/
def isInterval (s : String) : Bool :=
  let digits := if (s.toList.getLast?.map fun c => "smhd".toList.contains c) = some true
    then s.toList.dropLast else s.toList
  !digits.isEmpty && digits.all fun c => Numeral.isDigit c || c == '.'

/-- Waits for given times. -/
def sleep : Program := fun i =>
  let wrong := i.args.filter fun a => !isInterval a
  let complaints := if i.args.isEmpty then ["missing operand"]
    else wrong.map fun a => "invalid time interval \x27" ++ a ++ "\x27"
  let hint := "Try \x27" ++ i.program ++ " --help\x27 for more information.\n"
  if complaints.isEmpty then quiet 0
  else ⟨complains i complaints ++ [(.err, Text.Utf8.encode hint)], .exited 1⟩

/-- Writes the folder it is run in. -/
def pwd : Program := fun i => tells (i.workingDir ++ "\n")

/-- The character that a letter stands for behind a backslash. -/
def escaped (c : Char) : List Char :=
  if c = 'n' then ['\n'] else if c = 't' then ['\t'] else if c = 'r' then ['\r']
  else if c = 'a' then ['\x07'] else if c = 'b' then ['\x08'] else if c = '\\' then ['\\']
  else ['\\', c]

/-- The value of an octal digit. -/
def octal? (c : Char) : Option Nat :=
  (Numeral.digit? c).filter (· < 8)

/-- Where a reader of escapes is: in plain text, behind a backslash, or in the number of a byte
that may go on with some more digits. -/
inductive Escape where
  | plain
  | begun
  | number (value digits : Nat)
deriving DecidableEq, Repr

/-- The bytes that are due when a text ends here, or no longer goes on with digits. -/
def Escape.bytes : Escape → List UInt8
  | .plain => []
  | .begun => Text.Utf8.encode "\\"
  | .number value _ => [UInt8.ofNat value]

/-- What a character makes of a reader of escapes: the bytes that are due and the new reader.
If `zeroFirst`, the number of a byte begins with a zero that does not count as a digit. -/
def Escape.step (zeroFirst : Bool) (e : Escape) (c : Char) : List UInt8 × Escape :=
  let afresh := if c = '\\' then ([], .begun) else (Text.Utf8.encode c.toString, .plain)
  match e with
  | .plain => afresh
  | .begun =>
    match octal? c with
    | some d =>
      if !zeroFirst then ([], .number d 2)
      else if d = 0 then ([], .number 0 3)
      else (Text.Utf8.encode (String.ofList ['\\', c]), .plain)
    | none => (Text.Utf8.encode (String.ofList (escaped c)), .plain)
  | .number value digits =>
    match octal? c with
    | some d =>
      if digits = 0 then (UInt8.ofNat value :: afresh.1, afresh.2)
      else ([], .number (8 * value + d) (digits - 1))
    | none => (UInt8.ofNat value :: afresh.1, afresh.2)

/-- The bytes of a text behind a reader of escapes. -/
def unescapeFrom (zeroFirst : Bool) : Escape → List Char → List UInt8
  | e, [] => e.bytes
  | e, c :: s => (e.step zeroFirst c).1 ++ unescapeFrom zeroFirst (e.step zeroFirst c).2 s

/-- The bytes of a text with its escapes replaced. -/
def unescape (zeroFirst : Bool) (s : List Char) : List UInt8 :=
  unescapeFrom zeroFirst .plain s

/-- A format with its arguments put in behind the text `acc`, which is in reverse, and the
arguments that are left. -/
def format (acc : List Char) : List Char → List String → List UInt8 × List String
  | [], args => (unescape false acc.reverse, args)
  | '\\' :: c :: s, args => format (c :: '\\' :: acc) s args
  | '%' :: '%' :: s, args => format ('%' :: acc) s args
  | '%' :: c :: s, args =>
    let shown := if c = 's' then args.headD "" else args.headD "0"
    if c = 's' ∨ c = 'd' then
      let (after, rest) := format [] s args.tail
      (unescape false acc.reverse ++ Text.Utf8.encode shown ++ after, rest)
    else format (c :: '%' :: acc) s args
  | c :: s, args => format (c :: acc) s args

/-- A format that is used again as long as it takes up arguments; `fuel` bounds how often. -/
def formatAll (f : List Char) : Nat → List String → List UInt8
  | 0, _ => []
  | fuel + 1, args =>
    let (bytes, rest) := format [] f args
    if rest.isEmpty || rest.length == args.length then bytes else bytes ++ formatAll f fuel rest

/-- Writes its arguments in a format. -/
def printf : Program := fun i =>
  match i.args with
  | f :: rest => ⟨[(.out, formatAll f.toList (rest.length + 1) rest)], .exited 0⟩
  | [] => quiet 2

/-- Compares two numbers given as texts. -/
def compare? (p : Int → Int → Bool) (a b : String) : Option Bool :=
  match Numeral.integer? a.toList, Numeral.integer? b.toList with
  | some m, some n => some (p m n)
  | _, _ => none

/-- The truth of a condition with two operands. -/
def binary? (a operator b : String) : Option Bool :=
  match operator with
  | "=" => some (a == b)
  | "!=" => some (a != b)
  | "-eq" => compare? (fun m n => m == n) a b
  | "-ne" => compare? (fun m n => m != n) a b
  | "-lt" => compare? (fun m n => m < n) a b
  | "-le" => compare? (fun m n => m ≤ n) a b
  | "-gt" => compare? (fun m n => n < m) a b
  | "-ge" => compare? (fun m n => n ≤ m) a b
  | _ => none

/-- The truth of a condition with one operand.  No stream of the agent is a terminal. -/
def unary? (operator a : String) : Option Bool :=
  match operator with
  | "-n" => some (!a.isEmpty)
  | "-z" => some a.isEmpty
  | "-t" => some false
  | "-d" => some (Tree.isFolder a)
  | "-f" => some (Tree.isFile a && a != "/dev/null")
  | "-e" => some (Tree.isFolder a || Tree.isFile a)
  | "!" => some a.isEmpty
  | _ => none

/-- The truth of a condition. -/
def condition? : List String → Option Bool
  | [] => some false
  | [a] => some (!a.isEmpty)
  | [operator, a] => unary? operator a
  | [a, operator, b] =>
    match binary? a operator b with
    | some r => some r
    | none => if a = "!" then (unary? operator b).map not else none
  | ["!", a, operator, b] => (binary? a operator b).map not
  | _ => none

/-- Tells by its status whether a condition holds. -/
def test : Program := fun i =>
  match condition? i.args with
  | some true => quiet 0
  | some false => quiet 1
  | none => quiet 2

/-- Tells by its status whether the condition in front of a closing bracket holds. -/
def bracket : Program := fun i =>
  if i.args.getLast? == some "]" then test { i with args := i.args.dropLast } else quiet 2

/-- The first lines of a byte string, with their ends. -/
def firstLines : Nat → List UInt8 → List UInt8
  | 0, _ => []
  | _, [] => []
  | n + 1, b :: bs => b :: firstLines (if b = 0x0A then n else n + 1) bs

/-- A number given as a text, or zero. -/
def numberOf (s : String) : Nat :=
  (Numeral.natural? s.toList).getD 0

/-- Copies the first bytes or lines of its input. -/
def head : Program := fun i =>
  match i.args with
  | ["-c", n] => ⟨[(.out, i.input.take (numberOf n))], .exited 0⟩
  | ["-n", n] => ⟨[(.out, firstLines (numberOf n) i.input)], .exited 0⟩
  | _ => ⟨[(.out, firstLines 10 i.input)], .exited 0⟩

/-- The lines of a byte string without their ends. -/
def linesOf (bytes : List UInt8) : List (List UInt8) :=
  let pieces := Text.splitAt (· == 0x0A) bytes
  if pieces.getLast? = some [] then pieces.dropLast else pieces

/-- Lines with their ends. -/
def ofLines (lines : List (List UInt8)) : List UInt8 :=
  lines.flatMap (· ++ [0x0A])

/-- Copies the last bytes or lines of its input. -/
def tail : Program := fun i =>
  let last := fun n =>
    i.input.length - (firstLines ((linesOf i.input).length - n) i.input).length
  let ending := fun n => i.input.drop (i.input.length - n)
  match i.args with
  | ["-c", n] => ⟨[(.out, ending (numberOf n))], .exited 0⟩
  | ["-n", n] => ⟨[(.out, ending (last (numberOf n)))], .exited 0⟩
  | _ => ⟨[(.out, ending (last 10))], .exited 0⟩

/-- Copies its input with every line read backwards. -/
def rev : Program := fun i =>
  let pieces := Text.splitAt (· == '\n') (Text.Utf8.decodeLossyChars i.input)
  tells (Text.join "\n" (pieces.map fun p => String.ofList p.reverse))

/-- Whether a byte string does not come behind another one. -/
def isInOrder : List UInt8 → List UInt8 → Bool
  | [], _ => true
  | _ :: _, [] => false
  | a :: as, b :: bs => a < b || a == b && isInOrder as bs

/-- Copies the lines of its input in their order, or the other way round. -/
def sort : Program := fun i =>
  let sorted := (linesOf i.input).mergeSort isInOrder
  ⟨[(.out, ofLines (if i.args = ["-r"] then sorted.reverse else sorted))], .exited 0⟩

/-- The characters of a set in which a range is written with a hyphen. -/
def members : List Char → List Char
  | a :: '-' :: b :: s =>
    (List.range (b.toNat + 1 - a.toNat)).map (fun k => Char.ofNat (a.toNat + k)) ++ members s
  | '\\' :: c :: s => escaped c ++ members s
  | c :: s => c :: members s
  | [] => []

/-- Copies its input with the characters of one set replaced by those of another, or left
out. -/
def tr : Program := fun i =>
  let text := Text.Utf8.decodeLossyChars i.input
  match i.args with
  | ["-d", a] => tells (String.ofList (text.filter fun c => !(members a.toList).contains c))
  | [a, b] =>
    let replacements := members b.toList
    tells (String.ofList (text.map fun c =>
      match (members a.toList).idxOf? c with
      | some k => replacements.getD k (replacements.getLast?.getD c)
      | none => c))
  | _ => quiet 1

/-- Whether a line has a text in it; a text behind `^` has to begin the line, and one in front
of `$` to end it. -/
def matchesLine (pattern line : List Char) : Bool :=
  let atStart := pattern.head? = some '^'
  let text := if atStart then pattern.tail else pattern
  let atEnd := text.getLast? = some '$'
  let text := if atEnd then text.dropLast else text
  if atStart ∧ atEnd then line == text
  else if atStart then text.isPrefixOf line
  else if atEnd then text.isSuffixOf line
  else (List.range (line.length + 1)).any fun k => text.isPrefixOf (line.drop k)

/-- Copies the lines of its input that have a text in them. -/
def grep : Program := fun i =>
  let found := fun (pattern : String) => (linesOf i.input).filter fun line =>
    matchesLine pattern.toList (Text.Utf8.decodeLossyChars line)
  match i.args with
  | ["-q", pattern] => quiet (if (found pattern).isEmpty then 1 else 0)
  | ["-c", pattern] =>
    ⟨[(.out, Text.Utf8.encode (toString (found pattern).length ++ "\n"))],
      .exited (if (found pattern).isEmpty then 1 else 0)⟩
  | [pattern] =>
    ⟨[(.out, ofLines (found pattern))], .exited (if (found pattern).isEmpty then 1 else 0)⟩
  | _ => quiet 2

/-- Counts the bytes or the lines of its input. -/
def wc : Program := fun i =>
  match i.args with
  | ["-c"] => tells (toString i.input.length ++ "\n")
  | ["-l"] => tells (toString (i.input.countP (· == 0x0A)) ++ "\n")
  | _ => quiet 1

/-- Writes the numbers up to one, or between two, each on a line. -/
def seq : Program := fun i =>
  let lines := fun (first last : Nat) =>
    tells (String.join ((List.range (last + 1 - first)).map fun k => toString (first + k) ++ "\n"))
  match i.args with
  | [n] => lines 1 (numberOf n)
  | [m, n] => lines (numberOf m) (numberOf n)
  | _ => quiet 1

/-- Writes the values of variables of the environment. -/
def printenv : Program := fun i =>
  let found := i.args.filterMap fun name => i.environment.lookup name
  let text := String.join (found.map (· ++ "\n"))
  ⟨[(.out, Text.Utf8.encode text)], .exited (if found.length = i.args.length then 0 else 1)⟩

/-- Tells that its input is no terminal. -/
def tty : Program := fun _ => ⟨[(.out, Text.Utf8.encode "not a tty\n")], .exited 1⟩

/-- Writes the same line until nobody reads it any more, which is the case at the latest after
a full pipe. -/
def yes : Program := fun i =>
  let line := Text.Utf8.encode (if i.args.isEmpty then "y\n" else Text.join " " i.args ++ "\n")
  ⟨[(.out, ((List.replicate 65536 line).flatten).take 65536)], .killed 13⟩

/-- The programs with their names. -/
def standard : List (String × Program) :=
  [("cat", cat), ("echo", echo), ("pwd", pwd), ("printf", printf), ("test", test),
    ("[", bracket), ("head", head), ("wc", wc), ("seq", seq), ("printenv", printenv),
    ("tty", tty), ("yes", yes), ("true", fun _ => quiet 0), ("false", fun _ => quiet 1),
    ("sleep", sleep), ("tail", tail), ("rev", rev), ("sort", sort), ("tr", tr), ("grep", grep)]

end Program

end FleetAgent.Machine
