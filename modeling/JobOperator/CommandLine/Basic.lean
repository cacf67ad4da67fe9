/-!
The command line of the operator: its commands, its help, and how its arguments can be wrong.
-/

namespace JobOperator.CommandLine

/-- The name of the program. -/
def programName : String := "lp_operator"

/-- What the program is for. -/
def about : String := "Reconciles LpJob resources into pods, services and pod groups"

/-- The configuration file that is read unless another one is given. -/
def usualConfig : String := "/etc/lp-operator/config.yaml"

/-- A command. -/
inductive Command where
  /-- Runs the controller. -/
  | run
  /-- Prints the definition of jobs. -/
  | crd
  deriving DecidableEq, Repr

namespace Command

/-- All commands. -/
def all : List Command := [run, crd]

/-- The name of a command. -/
def name : Command → String
  | run => "run"
  | crd => "crd"

/-- What a command does. -/
def about : Command → String
  | run => "Watch LpJob resources and reconcile them until a shutdown signal arrives"
  | crd => "Print the LpJob CustomResourceDefinition as YAML"

/-- The command of this name. -/
def ofName? (name : String) : Option Command := all.find? (·.name == name)

end Command

/-- The word that asks for help, as a command. -/
def helpName : String := "help"

/-- What the help command does. -/
def helpAbout : String := "Print this message or the help of the given subcommand(s)"

/-- What help is about. -/
inductive Topic where
  | program
  | command (command : Command)
  | help
  deriving DecidableEq, Repr

namespace Topic

/-- A name and what is said of it, the latter in its column. -/
def entry (width : Nat) (name said : String) : String :=
  "  " ++ name ++ String.ofList (List.replicate (width - name.length) ' ') ++ "  " ++ said ++ "\n"

/-- The options that every command takes. -/
def options : String :=
  let config := "-c, --config <CONFIG>"
  "Options:\n" ++ entry config.length config ("[default: " ++ usualConfig ++ "]") ++
    entry config.length "-h, --help" "Print help"

/-- The commands. -/
def commands : String :=
  let entries := Command.all.map (fun c => (c.name, c.about)) ++ [(helpName, helpAbout)]
  "Commands:\n" ++ String.join (entries.map fun (name, about) => entry helpName.length name about)

/-- The help on a topic. -/
def text : Topic → String
  | program =>
    about ++ "\n\nUsage: " ++ programName ++ " [OPTIONS] <COMMAND>\n\n" ++ commands ++ "\n" ++ options
  | command c =>
    c.about ++ "\n\nUsage: " ++ programName ++ " " ++ c.name ++ " [OPTIONS]\n\n" ++ options
  | help =>
    helpAbout ++ "\n\nUsage: " ++ programName ++ " " ++ helpName ++ " [COMMAND]...\n\nArguments:\n" ++
      entry 0 "[COMMAND]..." "Print help for the subcommand(s)"

end Topic

/-- What the arguments ask for. -/
inductive Invocation where
  | help (topic : Topic)
  /-- A command, with the path of the configuration file. -/
  | start (command : Command) (config : String)
  deriving DecidableEq, Repr

/-- How arguments are wrong. -/
inductive UsageError where
  | noArguments
  | missingCommand
  | unknownCommand (name : String)
  | unexpectedArgument (argument : String)
  | missingPath
  | repeatedPath
  | helpWithValue (value : String)
  deriving DecidableEq, Repr

namespace UsageError

/-- The words of an error. Without arguments, the help is shown in its place. -/
def message : UsageError → String
  | noArguments => Topic.program.text
  | missingCommand =>
    "error: '" ++ programName ++ "' requires a subcommand but one was not provided"
  | unknownCommand name => "error: unrecognized subcommand '" ++ name ++ "'"
  | unexpectedArgument argument => "error: unexpected argument '" ++ argument ++ "' found"
  | missingPath => "error: a value is required for '--config <CONFIG>' but none was supplied"
  | repeatedPath => "error: the argument '--config <CONFIG>' cannot be used multiple times"
  | helpWithValue value =>
    "error: unexpected value '" ++ value ++ "' for '--help' found; no more were expected"

end UsageError

end JobOperator.CommandLine
