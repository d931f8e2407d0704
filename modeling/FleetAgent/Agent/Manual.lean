/-
# What the program tells about itself

The texts for those who ask for help or for the version, or who have written a command line
that is wrong.
-/
import FleetAgent.Agent.CommandLine

namespace FleetAgent.Agent

/-- The name of the program. -/
def programName : String := "fleetd"

/-- The version of the program. -/
def version : String := "0.1.0"

/-- What a command is for. -/
def CommandName.summary : CommandName → String
  | run => "Run the agent (default when no subcommand given)"
  | register => "Send one registration request and print the token lifetime"

/-- What the request for help in words is for. -/
def helpSummary : String := "Print this message or the help of the given subcommand(s)"

namespace Manual

/-- The line that shows how a command line about a topic is built. -/
def usage : Topic → String
  | .program => "Usage: " ++ programName ++ " [COMMAND]"
  | .command c => "Usage: " ++ programName ++ " " ++ c.word ++ " [OPTIONS]"
  | .help => "Usage: " ++ programName ++ " help [COMMAND]..."

/-- The lines of the help about a topic. -/
def help : Topic → List String
  | .program =>
    ["Device agent for fleet management", "", usage .program, "", "Commands:",
      "  run       " ++ CommandName.run.summary, "  register  " ++ CommandName.register.summary,
      "  help      " ++ helpSummary, "", "Options:", "  -h, --help     Print help",
      "  -V, --version  Print version"]
  | .command c =>
    [c.summary, "", usage (.command c), "", "Options:",
      "      --config <CONFIG>  Path to TOML config file",
      "  -h, --help             Print help"]
  | .help =>
    [helpSummary, "", usage .help, "", "Arguments:",
      "  [COMMAND]...  Print help for the subcommand(s)"]

/-- The line with the version. -/
def versionLine : String := programName ++ " " ++ version

/-- A text between quotes. -/
def quoted (s : String) : String := "\x27" ++ s ++ "\x27"

/-- What is wrong with a command line. -/
def complaint : UsageError → String
  | .unknownArgument word => "unexpected argument " ++ quoted word ++ " found"
  | .unknownCommand word => "unrecognized subcommand " ++ quoted word
  | .unexpectedValue word =>
    let value := String.ofList (word.toList.drop "--help=".length)
    "unexpected value " ++ quoted value ++ " for " ++ quoted "--help"
      ++ " found; no more were expected"
  | .missingValue =>
    "a value is required for " ++ quoted "--config <CONFIG>" ++ " but none was supplied"
  | .repeatedOption =>
    "the argument " ++ quoted "--config <CONFIG>" ++ " cannot be used multiple times"

/-- The lines for a command line that is wrong. -/
def usageError (e : UsageError) : List String :=
  ["error: " ++ complaint e, "", usage .program, "",
    "For more information, try " ++ quoted "--help" ++ "."]

end Manual

end FleetAgent.Agent
