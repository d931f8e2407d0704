/-
# Shell scripts

A script is a list of pipelines, which are joined by `&&` and `||` and ended by `;`, `&` or a
line end.  A pipeline is a row of commands between bars.  A command is a row of words, or it
is built from lists: a group, a list in a shell of its own, a choice, or a loop.  Every
command may have redirections.

A word is made of quoted and unquoted parts; parameters, the output of commands and the
values of expressions are put in when the command runs.  A script is first cut into tokens
(`lexFrom`), from which commands are read (`parseList`).
-/
import FleetAgent.Numeral.Integer

namespace FleetAgent.Machine.Script

/-- A part of a word. -/
inductive Part where
  | text (s : List Char) (quoted : Bool)
  | parameter (name : String) (quoted : Bool)
  /-- A parameter, or another text where it is empty. -/
  | parameterOr (name : String) (other : List Char) (quoted : Bool)
  /-- The output of a script. -/
  | output (script : List Char) (quoted : Bool)
  /-- The value of an expression. -/
  | value (expression : List Char) (quoted : Bool)
deriving DecidableEq, Repr, Inhabited

/-- A word. -/
abbrev Word := List Part

/-- What a redirection does with a file descriptor. -/
inductive Redirection where
  | readFrom (path : Word)
  | writeTo (path : Word)
  | duplicate (source : Nat)
  | close
deriving DecidableEq, Repr, Inhabited

/-- How a pipeline is joined to what precedes it. -/
inductive Joint where
  | always
  | onSuccess
  | onFailure
deriving DecidableEq, Repr, Inhabited

mutual

/-- A command without its redirections. -/
inductive Action where
  | words (ws : List Word)
  | group (body : List Pipeline)
  | subshell (body : List Pipeline)
  | choice (test body otherwise : List Pipeline)
  /-- A loop that goes on while the test has the given outcome. -/
  | loop (outcome : Bool) (test body : List Pipeline)
  | forEach (name : String) (items : List Word) (body : List Pipeline)

/-- A command. -/
inductive Command where
  | mk (action : Action) (redirections : List (Nat × Redirection))

/-- A pipeline; a negated one has the opposite outcome. -/
inductive Pipeline where
  | mk (joint : Joint) (negated : Bool) (commands : List Command) (background : Bool)

end

/-! ## Tokens -/

/-- A token. -/
inductive Token where
  | word (w : Word)
  | redirect (descriptor : Option Nat) (output : Bool) (duplicates : Bool)
  | pipe
  | andThen
  | orElse
  | background
  | stop
  | openParen
  | closeParen
deriving DecidableEq, Repr, Inhabited

/-- Whether a character may stand in the name of a parameter. -/
def isNameChar (c : Char) : Bool :=
  c.isAlphanum || c == '_'

/-- Cuts a text at the parenthesis that closes one which has been opened `depth` further
times. -/
def balanced : Nat → List Char → List Char → Option (List Char × List Char)
  | _, _, [] => none
  | depth, acc, '(' :: s => balanced (depth + 1) ('(' :: acc) s
  | 0, acc, ')' :: s => some (acc.reverse, s)
  | depth + 1, acc, ')' :: s => balanced depth (')' :: acc) s
  | depth, acc, c :: s => balanced depth (c :: acc) s

/-- What a dollar sign and the text behind it stand for. -/
def expansion? (quoted : Bool) : List Char → Option (Part × List Char)
  | '(' :: '(' :: s =>
    match balanced 1 [] s with
    | some (inside, rest) => some (.value inside.dropLast quoted, rest)
    | none => none
  | '(' :: s =>
    match balanced 0 [] s with
    | some (inside, rest) => some (.output inside quoted, rest)
    | none => none
  | '\x7b' :: s =>
    let name := String.ofList (s.takeWhile isNameChar)
    match s.dropWhile isNameChar with
    | '\x7d' :: rest => some (.parameter name quoted, rest)
    | ':' :: '-' :: rest =>
      match rest.dropWhile (· != '\x7d') with
      | _ :: after => some (.parameterOr name (rest.takeWhile (· != '\x7d')) quoted, after)
      | [] => none
    | _ => none
  | c :: s =>
    if "$?#@*!-".toList.contains c || Numeral.isDigit c then
      some (.parameter c.toString quoted, s)
    else if isNameChar c then
      some (.parameter (String.ofList ((c :: s).takeWhile isNameChar)) quoted,
        (c :: s).dropWhile isNameChar)
    else none
  | [] => none

/-- The quotes that the reader is in. -/
inductive Quotes where
  | none
  | single
  | double
deriving DecidableEq, Repr

/-- The reader of tokens: the word in progress, if any, with its parts in reverse, and the
tokens so far in reverse. -/
structure Lexer where
  word : Option (List Part)
  tokens : List Token
deriving Repr

namespace Lexer

/-- Adds a character to the word in progress. -/
def add (l : Lexer) (c : Char) (quoted : Bool) : Lexer :=
  match l.word with
  | some (.text s q :: parts) =>
    if q == quoted then { l with word := some (.text (c :: s) q :: parts) }
    else { l with word := some (.text [c] quoted :: .text s q :: parts) }
  | some parts => { l with word := some (.text [c] quoted :: parts) }
  | none => { l with word := some [.text [c] quoted] }

/-- Adds a part to the word in progress. -/
def addPart (l : Lexer) (p : Part) : Lexer :=
  { l with word := some (p :: l.word.getD []) }

/-- A part with its text in order. -/
def finishPart : Part → Part
  | .text s q => .text s.reverse q
  | p => p

/-- Ends the word in progress. -/
def endWord (l : Lexer) : Lexer :=
  match l.word with
  | some parts => ⟨none, .word (parts.reverse.map finishPart) :: l.tokens⟩
  | none => l

/-- Adds a token. -/
def push (l : Lexer) (t : Token) : Lexer :=
  let l := l.endWord
  { l with tokens := t :: l.tokens }

/-- Adds a redirection; digits right in front of it are its descriptor. -/
def pushRedirect (l : Lexer) (output duplicates : Bool) : Lexer :=
  match l.word with
  | some [.text s false] =>
    match Numeral.natural? s.reverse with
    | some n => ⟨none, .redirect (some n) output duplicates :: l.tokens⟩
    | none => l.push (.redirect none output duplicates)
  | _ => l.push (.redirect none output duplicates)

end Lexer

/-- The script between two backticks, and what follows it. -/
def ticked? (s : List Char) : Option (List Char × List Char) :=
  match s.dropWhile (· != '\x60') with
  | _ :: rest => some (s.takeWhile (· != '\x60'), rest)
  | [] => none

/-- Reads tokens; `fuel` bounds the number of steps. -/
def lexFrom : Nat → Quotes → Lexer → List Char → Option (List Token)
  | 0, _, _, _ => none
  | fuel + 1, .single, l, s =>
    match s with
    | [] => none
    | '\x27' :: s => lexFrom fuel .none l s
    | c :: s => lexFrom fuel .single (l.add c true) s
  | fuel + 1, .double, l, s =>
    match s with
    | [] => none
    | '"' :: s => lexFrom fuel .none l s
    | '\\' :: c :: s =>
      if c = '\n' then lexFrom fuel .double l s
      else if "$\"\\".toList.contains c || c == '\x60' then
        lexFrom fuel .double (l.add c true) s
      else lexFrom fuel .double ((l.add '\\' true).add c true) s
    | '$' :: s =>
      match expansion? true s with
      | some (part, s) => lexFrom fuel .double (l.addPart part) s
      | none => lexFrom fuel .double (l.add '$' true) s
    | '\x60' :: s =>
      match ticked? s with
      | some (script, s) => lexFrom fuel .double (l.addPart (.output script true)) s
      | none => none
    | c :: s => lexFrom fuel .double (l.add c true) s
  | fuel + 1, .none, l, s =>
    match s with
    | [] => some l.endWord.tokens.reverse
    | '\x27' :: s => lexFrom fuel .single (l.addPart (.text [] true)) s
    | '"' :: s => lexFrom fuel .double (l.addPart (.text [] true)) s
    | '\\' :: '\n' :: s => lexFrom fuel .none l s
    | '\\' :: c :: s => lexFrom fuel .none (l.add c true) s
    | '$' :: s =>
      match expansion? false s with
      | some (part, s) => lexFrom fuel .none (l.addPart part) s
      | none => lexFrom fuel .none (l.add '$' false) s
    | '\x60' :: s =>
      match ticked? s with
      | some (script, s) => lexFrom fuel .none (l.addPart (.output script false)) s
      | none => none
    | '&' :: '&' :: s => lexFrom fuel .none (l.push .andThen) s
    | '|' :: '|' :: s => lexFrom fuel .none (l.push .orElse) s
    | '&' :: s => lexFrom fuel .none (l.push .background) s
    | '|' :: s => lexFrom fuel .none (l.push .pipe) s
    | ';' :: s | '\n' :: s => lexFrom fuel .none (l.push .stop) s
    | '(' :: s => lexFrom fuel .none (l.push .openParen) s
    | ')' :: s => lexFrom fuel .none (l.push .closeParen) s
    | '>' :: '&' :: s => lexFrom fuel .none (l.pushRedirect true true) s
    | '<' :: '&' :: s => lexFrom fuel .none (l.pushRedirect false true) s
    | '>' :: '>' :: s => lexFrom fuel .none (l.pushRedirect true false) s
    | '>' :: s => lexFrom fuel .none (l.pushRedirect true false) s
    | '<' :: s => lexFrom fuel .none (l.pushRedirect false false) s
    | '#' :: s =>
      if l.word.isNone then lexFrom fuel .none l (s.dropWhile (· != '\n'))
      else lexFrom fuel .none (l.add '#' false) s
    | c :: s =>
      if c = ' ' ∨ c = '\t' then lexFrom fuel .none l.endWord s
      else lexFrom fuel .none (l.add c false) s

/-! ## Commands -/

/-- The text of a word without expansions. -/
def Word.literal? (w : Word) : Option (List Char) :=
  w.foldlM (fun acc p =>
    match p with
    | .text s _ => some (acc ++ s)
    | _ => none) []

/-- The redirection of a descriptor to a word. -/
def redirection? (output duplicates : Bool) (w : Word) : Option Redirection :=
  if duplicates then
    match w.literal? with
    | some ['-'] => some .close
    | some s => (Numeral.natural? s).map .duplicate
    | none => none
  else if output then some (.writeTo w)
  else some (.readFrom w)

/-- The word that the script begins with, if it is written without quotes. -/
def leading? : List Token → Option String
  | .word [.text s false] :: _ => some (String.ofList s)
  | _ => none

/-- The words that end a list. -/
def closers : List String := ["then", "else", "elif", "fi", "do", "done", "\x7d"]

/-- Whether a list ends here. -/
def endsList (ts : List Token) : Bool :=
  match ts with
  | [] | .closeParen :: _ => true
  | _ => match leading? ts with
    | some w => closers.contains w
    | none => false

/-- Skips line ends. -/
def skipStops : List Token → List Token
  | .stop :: ts => skipStops ts
  | ts => ts

/-- Skips an expected word. -/
def expect? (w : String) (ts : List Token) : Option (List Token) :=
  if leading? ts = some w then some ts.tail else none

/-- Reads words and redirections in their order. -/
def wordsFrom : List Word → List (Nat × Redirection) → List Token →
    Option ((List Word × List (Nat × Redirection)) × List Token)
  | ws, rs, .word w :: ts => wordsFrom (w :: ws) rs ts
  | ws, rs, .redirect d output duplicates :: .word w :: ts =>
    match redirection? output duplicates w with
    | some r => wordsFrom ws ((d.getD (if output then 1 else 0), r) :: rs) ts
    | none => none
  | _, _, .redirect _ _ _ :: _ => none
  | ws, rs, ts => some ((ws.reverse, rs.reverse), ts)

/-- A command built from lists, with the redirections behind it. -/
def withRedirections (a : Action) (ts : List Token) : Option (Command × List Token) :=
  match wordsFrom [] [] ts with
  | some (([], rs), ts) => some (.mk a rs, ts)
  | _ => none

/-- The name and the items of a loop over items. -/
def forHead? (ts : List Token) : Option ((String × List Word) × List Token) := do
  let name ← leading? ts
  let ts ← expect? "in" ts.tail
  match wordsFrom [] [] ts with
  | some ((items, []), ts) => return ((name, items), skipStops ts)
  | _ => none

mutual

/-- Reads a list; `fuel` bounds the number of steps. -/
def parseList : Nat → Joint → List Token → Option (List Pipeline × List Token)
  | 0, _, _ => none
  | fuel + 1, joint, ts =>
    let ts := skipStops ts
    if endsList ts then
      if joint = .always then some ([], ts) else none
    else do
      let negated := leading? ts = some "!"
      let (commands, ts) ← parsePipeline fuel (if negated then ts.tail else ts)
      let (background, next, ts) := match ts with
        | .andThen :: ts => (false, Joint.onSuccess, ts)
        | .orElse :: ts => (false, Joint.onFailure, ts)
        | .background :: ts => (true, Joint.always, ts)
        | ts => (false, Joint.always, ts)
      let (rest, ts) ← parseList fuel next ts
      return (.mk joint negated commands background :: rest, ts)

/-- Reads the commands of a pipeline. -/
def parsePipeline : Nat → List Token → Option (List Command × List Token)
  | 0, _ => none
  | fuel + 1, ts => do
    let (c, ts) ← parseCommand fuel ts
    match ts with
    | .pipe :: ts =>
      let (rest, ts) ← parsePipeline fuel (skipStops ts)
      return (c :: rest, ts)
    | ts => return ([c], ts)

/-- Reads a command. -/
def parseCommand : Nat → List Token → Option (Command × List Token)
  | 0, _ => none
  | fuel + 1, .openParen :: ts => do
    let (body, ts) ← parseList fuel .always ts
    match ts with
    | .closeParen :: ts => withRedirections (.subshell body) ts
    | _ => none
  | fuel + 1, ts =>
    match leading? ts with
    | some "\x7b" => do
      let (body, ts) ← parseList fuel .always ts.tail
      withRedirections (.group body) (← expect? "\x7d" ts)
    | some "if" => do
      let (a, ts) ← parseChoice fuel ts.tail
      withRedirections a ts
    | some "while" => do
      let (a, ts) ← parseLoop fuel true ts.tail
      withRedirections a ts
    | some "until" => do
      let (a, ts) ← parseLoop fuel false ts.tail
      withRedirections a ts
    | some "for" => do
      let ((name, items), ts) ← forHead? ts.tail
      let (body, ts) ← parseList fuel .always (← expect? "do" ts)
      withRedirections (.forEach name items body) (← expect? "done" ts)
    | _ =>
      match wordsFrom [] [] ts with
      | some (([], []), _) => none
      | some ((ws, rs), ts) => some (.mk (.words ws) rs, ts)
      | none => none

/-- Reads a choice behind its first word. -/
def parseChoice : Nat → List Token → Option (Action × List Token)
  | 0, _ => none
  | fuel + 1, ts => do
    let (test, ts) ← parseList fuel .always ts
    let (body, ts) ← parseList fuel .always (← expect? "then" ts)
    if leading? ts = some "elif" then
      let (a, ts) ← parseChoice fuel ts.tail
      return (.choice test body [.mk .always false [.mk a []] false], ts)
    else if leading? ts = some "else" then
      let (otherwise, ts) ← parseList fuel .always ts.tail
      return (.choice test body otherwise, ← expect? "fi" ts)
    else return (.choice test body [], ← expect? "fi" ts)

/-- Reads a loop behind its first word. -/
def parseLoop : Nat → Bool → List Token → Option (Action × List Token)
  | 0, _, _ => none
  | fuel + 1, outcome, ts => do
    let (test, ts) ← parseList fuel .always ts
    let (body, ts) ← parseList fuel .always (← expect? "do" ts)
    return (.loop outcome test body, ← expect? "done" ts)

end

/-- The pipelines of a script. -/
def ofChars? (s : List Char) : Option (List Pipeline) := do
  let ts ← lexFrom (2 * s.length + 1) .none ⟨none, []⟩ s
  match ← parseList (4 * ts.length + 4) .always ts with
  | (ps, []) => return ps
  | _ => none

end FleetAgent.Machine.Script
