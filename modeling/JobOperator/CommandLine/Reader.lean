import JobOperator.CommandLine.Basic

/-!
Reading the arguments of the program. The path of the configuration file may be given before the
command and after it, once in each place, and the one after it counts. A path is only looked at when
the next option is met or the arguments end, so an argument that is not known is reported before a
path that cannot be used.
-/

namespace JobOperator.CommandLine

/-- An argument by its form. -/
inductive Argument where
  /-- What follows is no option, whatever its form. -/
  | separator
  /-- The path of the configuration file, here or in the next argument. -/
  | config (path : Option String)
  /-- A wish for help, which takes no value. -/
  | help (value : Option String)
  | unknownOption (option : String)
  | word (word : String)
  deriving DecidableEq, Repr

namespace Argument

/-- An option with its full name, and perhaps a value behind an equals sign. -/
def ofLong (text : List Char) : Argument :=
  let name := String.ofList (text.takeWhile (· ≠ '='))
  let value := (text.dropWhile (· ≠ '=')).tail?.map String.ofList
  if name = "config" then .config value
  else if name = "help" then .help value
  else .unknownOption ("--" ++ name)

/-- An option with a short name. What follows the name is its value, if it takes one. -/
def ofShort (name : Char) (rest : List Char) : Argument :=
  match name, rest with
  | 'c', [] => .config none
  | 'c', '=' :: path | 'c', path => .config (some (String.ofList path))
  | 'h', _ => .help none
  | other, _ => .unknownOption (String.ofList ['-', other])

/-- The form of an argument. -/
def ofText (text : String) : Argument :=
  match text.toList with
  | ['-', '-'] => .separator
  | '-' :: '-' :: rest => ofLong rest
  | '-' :: name :: rest => ofShort name rest
  | _ => .word text

end Argument

/-- A path that has not been looked at. -/
inductive Pending where
  | nothing
  /-- The next argument is the path. -/
  | awaited
  | given (path : String)
  deriving DecidableEq, Repr

/-- What has been read of the options of a command. -/
structure Options where
  config : Option String := none
  pending : Pending := .nothing
  deriving DecidableEq, Repr

namespace Options

/-- Takes a path. -/
def accept (options : Options) (path : String) : Except UsageError Options :=
  if options.config.isSome then .error .repeatedPath
  else if path.isEmpty then .error .missingPath
  else .ok { options with config := some path }

/-- Looks at the path that has been read last. -/
def settle (options : Options) : Except UsageError Options :=
  match options.pending with
  | .nothing => .ok options
  | .awaited => .error .missingPath
  | .given path => { options with pending := .nothing }.accept path

/-- Takes the option that gives a path, in itself or in the next argument. -/
def give (options : Options) (path : Option String) : Except UsageError Options := do
  let options ← options.settle
  match path with
  | some path => options.accept path
  | none => return { options with pending := .awaited }

end Options

/-- What one argument does. -/
inductive Step where
  | goOn (options : Options)
  | showHelp
  | separate
  | meet (word : String)
  deriving DecidableEq, Repr

/-- Reads one argument. -/
def step (options : Options) (argument : String) : Except UsageError Step :=
  match Argument.ofText argument with
  | .separator => .ok .separate
  | .config path => .goOn <$> options.give path
  | .help (some value) => .error (.helpWithValue value)
  | .help none => (fun _ => .showHelp) <$> options.settle
  | .unknownOption option => .error (.unexpectedArgument option)
  | .word word =>
    if options.pending = .awaited then .ok (.goOn { options with pending := .given word })
    else .ok (.meet word)

/-- Reads the arguments of a command: the path they give, or nothing if they ask for help. -/
def readOptions (options : Options) : List String → Except UsageError (Option (Option String))
  | [] => (some ·.config) <$> options.settle
  | argument :: rest => do
    match ← step options argument with
    | .goOn options => readOptions options rest
    | .showHelp => return none
    | .separate =>
      match rest with
      | [] => (some ·.config) <$> options.settle
      | word :: _ => .error (.unexpectedArgument word)
    | .meet word => .error (.unexpectedArgument word)

/-- Reads the arguments of the help command. -/
def readTopic : List String → Except UsageError Topic
  | [] => .ok .program
  | name :: rest => do
    let topic ← match Command.ofName? name with
      | some command => pure (.command command)
      | none => if name = helpName then pure .help else .error (.unknownCommand name)
    match rest with
    | [] => return topic
    | other :: _ => .error (.unknownCommand other)

/-- What is wrong with arguments that end before a command. -/
def endsEarly (options : Options) : UsageError :=
  match options.settle with
  | .error e => e
  | .ok options => if options.config.isSome then .missingCommand else .noArguments

/-- What is wrong with a word behind a separator: there is no command there. -/
def strayWord (word : String) : UsageError :=
  if (Command.ofName? word).isSome || word == helpName then .unexpectedArgument word
  else .unknownCommand word

/-- Reads arguments, given the options read before them. -/
def readArguments (options : Options) : List String → Except UsageError Invocation
  | [] => .error (endsEarly options)
  | argument :: rest => do
    match ← step options argument with
    | .goOn options => readArguments options rest
    | .showHelp => return .help .program
    | .separate =>
      match rest with
      | [] => .error (endsEarly options)
      | word :: _ => .error (strayWord word)
    | .meet word =>
      match Command.ofName? word with
      | some command =>
        match ← readOptions {} rest with
        | none => return .help (.command command)
        | some config =>
          let options ← options.settle
          return .start command ((config.or options.config).getD usualConfig)
      | none =>
        if word = helpName then return .help (← readTopic rest)
        else .error (.unknownCommand word)

/-- What the arguments of the program ask for. -/
def read (arguments : List String) : Except UsageError Invocation := readArguments {} arguments

end JobOperator.CommandLine
