/-
# The command line

The agent has two commands: `run`, which is also what it does without a command, and
`register`.  Either takes the path of its settings.  A command line can also ask for help or
for the version, and it can be wrong.

Words are read from the left, and the first one that settles the matter ends the reading: a
request for help is granted before words that are wrong, and refused behind them.
-/
namespace FleetAgent.Agent

/-- The commands. -/
inductive CommandName where
  | run
  | register
deriving DecidableEq, Repr, Inhabited

/-- The word for a command. -/
def CommandName.word : CommandName → String
  | run => "run"
  | register => "register"

/-- The command with a word. -/
def CommandName.ofWord? (s : String) : Option CommandName :=
  [CommandName.run, .register].find? fun c => c.word == s

/-- A command with the path of its settings, if one is given. -/
structure Command where
  name : CommandName
  settingsPath : Option String
deriving DecidableEq, Repr, Inhabited

/-- What help can be about. -/
inductive Topic where
  | program
  | command (name : CommandName)
  | help
deriving DecidableEq, Repr, Inhabited

/-- What can be wrong with a command line. -/
inductive UsageError where
  | unknownArgument (word : String)
  | unknownCommand (word : String)
  | unexpectedValue (word : String)
  | missingValue
  | repeatedOption
deriving DecidableEq, Repr, Inhabited

/-- What a command line comes to. -/
inductive Reading where
  | command (c : Command)
  | help (topic : Topic)
  | version
  | wrong (e : UsageError)
deriving DecidableEq, Repr, Inhabited

namespace Reading

/-- The option that names the settings. -/
def settingsOption : String := "--config"

/-- The settings option with its value in one word. -/
def attachedValue? (word : String) : Option String :=
  let start := (settingsOption ++ "=").toList
  if start.isPrefixOf word.toList then some (String.ofList (word.toList.drop start.length))
  else none

/-- Whether a word is an option rather than a value; a single hyphen is a value. -/
def isOption (word : String) : Bool :=
  match word.toList with
  | '-' :: _ :: _ => true
  | _ => false

/-- The first letter of a word of short options. -/
def shortOption? (word : String) : Option Char :=
  match word.toList with
  | '-' :: '-' :: _ => none
  | '-' :: c :: _ => some c
  | _ => none

/-- Whether a word asks for help. -/
def asksHelp (word : String) : Bool :=
  word == "--help" || shortOption? word == some 'h'

/-- Whether a word asks for the version. -/
def asksVersion (word : String) : Bool :=
  word == "--version" || shortOption? word == some 'V'

/-- The error of a word that nothing expects. -/
def unexpected (word : String) : UsageError :=
  if "--help=".toList.isPrefixOf word.toList then .unexpectedValue word
  else .unknownArgument word

/-- Reads the words behind a command. -/
def ofOptions (name : CommandName) : Option String → List String → Reading
  | path, [] => .command ⟨name, path⟩
  | path, "--" :: rest =>
    match rest with
    | [] => .command ⟨name, path⟩
    | word :: _ => .wrong (.unknownArgument word)
  | path, word :: rest =>
    if word = settingsOption then
      match rest with
      | [] => .wrong .missingValue
      | value :: rest =>
        if isOption value then .wrong .missingValue
        else if path.isSome then .wrong .repeatedOption
        else ofOptions name (some value) rest
    else match attachedValue? word with
      | some value =>
        if path.isSome then .wrong .repeatedOption else ofOptions name (some value) rest
      | none =>
        if asksHelp word then .help (.command name) else .wrong (unexpected word)

/-- Reads the words behind the request for help in words: the name of a topic, if any. -/
def ofTopic : List String → Reading
  | [] => .help .program
  | ["help"] => .help .help
  | "help" :: word :: _ => .wrong (.unknownCommand word)
  | word :: rest =>
    match CommandName.ofWord? word with
    | none => .wrong (.unknownCommand word)
    | some name =>
      match rest with
      | [] => .help (.command name)
      | word :: _ => .wrong (.unknownCommand word)

/-- Reads a command line. -/
def ofWords : List String → Reading
  | [] => .command ⟨.run, none⟩
  | ["--"] => .command ⟨.run, none⟩
  | "--" :: word :: _ => .wrong (.unknownArgument word)
  | word :: rest =>
    match CommandName.ofWord? word with
    | some name => ofOptions name none rest
    | none =>
      if word = "help" then ofTopic rest
      else if asksHelp word then .help .program
      else if asksVersion word then .version
      else if isOption word then .wrong (unexpected word)
      else .wrong (.unknownCommand word)

end Reading

end FleetAgent.Agent
