import LinearGrammar.Text.Natural

/-!
# The command line

The program takes a saved grammar to start from and a few options. An option with a value takes it
after an equals sign or as the next argument; `--` ends the options. Arguments are read from left to
right. An option or a saved grammar is only settled when something known follows it, so that
an unknown argument is complained about before the value in front of it.
-/

namespace LinearGrammar

/-- How the program was asked to run. -/
structure Options where
  /-- The saved grammar to start from. -/
  grammar : Option String
  serverUrl : String
  /-- The time that a request may take, in seconds. -/
  timeout : Nat
  /-- The file to read commands from, in place of the standard input. -/
  script : Option String
  logLevel : String
  deriving DecidableEq, Repr

/-- Why the program does not run. -/
inductive UsageError where
  | unknownArgument
  /-- A value is missing, or is an empty path. -/
  | invalidValue
  /-- A value is no machine natural. -/
  | valueValidation
  /-- An option is given twice. -/
  | argumentConflict
  /-- A value is given to an option that takes none. -/
  | tooManyValues
  | displayHelp
  | displayVersion
  deriving DecidableEq, Repr

def UsageError.message : UsageError → String
  | .unknownArgument => "error: unexpected argument found"
  | .invalidValue => "error: a value is required but none was supplied"
  | .valueValidation => "error: invalid value for an option"
  | .argumentConflict => "error: an option cannot be used multiple times"
  | .tooManyValues => "error: unexpected value for an option"
  | .displayHelp => "help was asked for"
  | .displayVersion => "the version was asked for"

namespace Options

/-- The options that take a value. -/
inductive Name where
  | serverUrl
  | timeout
  | script
  | logLevel
  deriving DecidableEq, Repr

/-- The environment variable that stands in for an option. -/
def Name.environmentKey? : Name → Option String
  | .serverUrl => some "GRAMTREE_SERVER_URL"
  | .timeout => some "GRAMTREE_TIMEOUT"
  | .script | .logLevel => none

/-- What has been settled so far. -/
structure Draft where
  grammar : Option String
  serverUrl : Option String
  timeout : Option Nat
  script : Option String
  logLevel : Option String

namespace Draft

def blank : Draft := ⟨none, none, none, none, none⟩

def has (d : Draft) : Name → Bool
  | .serverUrl => d.serverUrl.isSome
  | .timeout => d.timeout.isSome
  | .script => d.script.isSome
  | .logLevel => d.logLevel.isSome

def set (d : Draft) (name : Name) (value : String) : Except UsageError Draft :=
  match name with
  | .serverUrl => .ok { d with serverUrl := some value }
  | .timeout =>
    match Text.natural? value with
    | some n => .ok { d with timeout := some n }
    | none => .error .valueValidation
  | .script => if value.isEmpty then .error .invalidValue else .ok { d with script := some value }
  | .logLevel => .ok { d with logLevel := some value }

/-- Settles an option that comes from the command line. -/
def settle (d : Draft) (name : Name) (value : String) : Except UsageError Draft :=
  if d.has name then .error .argumentConflict else d.set name value

end Draft

/-- What waits to be settled. -/
inductive Pending where
  | nothing
  | option (name : Name) (value : Option String)
  | grammar (path : String)
  deriving DecidableEq, Repr

/-- How far the arguments have been read. -/
structure Reading where
  draft : Draft
  pending : Pending
  hasGrammar : Bool
  /-- Whether the options have ended. -/
  isTrailing : Bool

namespace Reading

def initial : Reading := ⟨.blank, .nothing, false, false⟩

def settle (r : Reading) : Except UsageError Draft :=
  match r.pending with
  | .nothing => .ok r.draft
  | .option _ none => .error .invalidValue
  | .option name (some value) => r.draft.settle name value
  | .grammar path =>
    if path.isEmpty then .error .invalidValue else .ok { r.draft with grammar := some path }

def plain (r : Reading) (arg : String) : Except UsageError Reading :=
  if r.hasGrammar then .error .unknownArgument
  else r.settle.map fun d => { r with draft := d, pending := .grammar arg, hasGrammar := true }

/-- Takes an option, with its value if that is in the same argument. -/
def option (r : Reading) (name : Name) : Option String → Except UsageError Reading
  | none => r.settle.map fun d => { r with draft := d, pending := .option name none }
  | some value => do
    let d ← r.settle
    let d ← d.settle name value
    return { r with draft := d, pending := .nothing }

/-- Takes an option that stops the reading. -/
def stop (r : Reading) (reason : UsageError) : Except UsageError Reading :=
  match r.settle with
  | .ok _ => .error reason
  | .error e => .error e

/-- Takes a long option, without its dashes. -/
def long (r : Reading) (name : String) (value : Option String) : Except UsageError Reading :=
  match name with
  | "server-url" => r.option .serverUrl value
  | "timeout" => r.option .timeout value
  | "script" => r.option .script value
  | "log-level" => r.option .logLevel value
  | "help" => if value.isSome then .error .tooManyValues else r.stop .displayHelp
  | "version" => if value.isSome then .error .tooManyValues else r.stop .displayVersion
  | _ => .error .unknownArgument

/-- Takes a short option, and what follows its letter in the same argument. -/
def short (r : Reading) (letter : Char) (rest : List Char) : Except UsageError Reading :=
  match letter, rest with
  | 's', [] => r.option .script none
  | 's', '=' :: value => r.option .script (some (String.ofList value))
  | 's', value => r.option .script (some (String.ofList value))
  | 'h', _ => r.stop .displayHelp
  | 'V', _ => r.stop .displayVersion
  | _, _ => .error .unknownArgument

def step (r : Reading) (arg : String) : Except UsageError Reading :=
  if r.isTrailing then r.plain arg
  else
    match arg.toList with
    | ['-', '-'] => .ok { r with isTrailing := true }
    | '-' :: '-' :: rest =>
      let name := rest.takeWhile (· != '=')
      let value :=
        match rest.dropWhile (· != '=') with
        | [] => none
        | _ :: value => some (String.ofList value)
      r.long (String.ofList name) value
    | '-' :: letter :: rest => r.short letter rest
    | _ =>
      match r.pending with
      | .option name none => .ok { r with pending := .option name (some arg) }
      | _ => r.plain arg

end Reading

/-- The draft with the environment's value for an option that was not given. -/
def fromEnvironment (environment : List (String × String)) (d : Draft) (name : Name) :
    Except UsageError Draft :=
  if d.has name then .ok d
  else
    match name.environmentKey?.bind (List.lookup · environment) with
    | some value => d.set name value
    | none => .ok d

/-- Reads the arguments, and the environment for what they leave open. -/
def ofArguments (environment : List (String × String)) (args : List String) :
    Except UsageError Options := do
  let r ← args.foldlM Reading.step Reading.initial
  let d ← r.settle
  let d ← fromEnvironment environment d .serverUrl
  let d ← fromEnvironment environment d .timeout
  return {
    grammar := d.grammar
    serverUrl := d.serverUrl.getD "http://localhost:8080"
    timeout := d.timeout.getD 30
    script := d.script
    logLevel := d.logLevel.getD "warn" }

def versionText : String := "gramtree 0.1.0\n"

def helpText : String :=
  "Build a linear grammar and check words against a grammar service\n\n" ++
  "Usage: gramtree [OPTIONS] [GRAMMAR]\n\n" ++
  "Arguments:\n" ++
  "  [GRAMMAR]  Saved grammar to start from\n\n" ++
  "Options:\n" ++
  "      --server-url <SERVER_URL>  Base URL of the grammar service\n" ++
  "      --timeout <SECONDS>        Request timeout in seconds\n" ++
  "  -s, --script <FILE>            Read commands from a file instead of stdin\n" ++
  "      --log-level <LOG_LEVEL>    Log filter\n" ++
  "  -h, --help                     Print help\n" ++
  "  -V, --version                  Print version\n"

end Options

end LinearGrammar
