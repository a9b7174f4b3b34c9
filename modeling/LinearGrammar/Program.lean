import LinearGrammar.Options
import LinearGrammar.Service.Client
import LinearGrammar.Session.Script

/-!
# The program

The program loads the saved grammar it was given, if any, and then runs a script or its standard
input. It fails when one of the files cannot be used or when a line of input is no text; an error of a
command is shown and the program goes on. Only what there is no room for breaks it off.
-/

namespace LinearGrammar

/-- Why the program ends with a failure. -/
inductive ProgramError where
  | load (e : LoadError)
  | openScript (path : String) (fault : FileFault)
  | command (fault : Text.Utf8Fault)
  /-- The script turned out to be unreadable. -/
  | readScript (fault : FileFault)
  deriving DecidableEq, Repr

namespace ProgramError

def context : ProgramError → String
  | .load e => e.context
  | .openScript path _ => "Failed to open " ++ path
  | .command _ | .readScript _ => "Failed to read command"

/-- Why it went wrong, where that is told. -/
def cause? : ProgramError → Option String
  | .load e => e.cause?
  | .openScript _ fault => some fault.message
  | .command fault => some fault.message
  | .readScript fault => some fault.message

/-- A text with its second and further lines set in. -/
def setIn (text : String) : String :=
  String.intercalate "\n    " (Text.splitOn '\n' text)

/-- The report on the standard error output. -/
def report (e : ProgramError) : String :=
  match e.cause? with
  | some cause => "Error: " ++ e.context ++ "\n\nCaused by:\n    " ++ setIn cause ++ "\n"
  | none => "Error: " ++ e.context ++ "\n"

def message (e : ProgramError) : String :=
  match e.cause? with
  | some cause => e.context ++ ": " ++ cause
  | none => e.context

end ProgramError

/-- A service that nothing reaches. -/
def Service.unreachable (client : ServiceClient) : Service where
  check _ := client.receiveCheck none
  submit _ _ := client.receiveTree none

namespace Program

variable {φ : Type} [FileSystem φ]

/-- The line that is shown before the first typed command. -/
def greeting : String := "Type `help` for the list of commands"

inductive Ending where
  | finished
  | failed (e : ProgramError)
  /-- The program broke off. What is then written of it on the standard error output is not its own
  report, and is left out. -/
  | crashed
  deriving DecidableEq, Repr

/-- The code with which the program ends. -/
def Ending.code : Ending → Nat
  | .finished => 0
  | .failed _ => 1
  | .crashed => 101

/-- How the program ends with its input. -/
def Ending.ofEnd : Session.End → Ending
  | .finished => .finished
  | .unreadable fault => .failed (.command fault)
  | .cutOff fault => .failed (.readScript fault)
  | .crashed => .crashed

structure Exit (φ : Type) where
  lines : List String
  files : φ
  ending : Ending

def start (w : World φ) : Option String → Except LoadError Session.Result
  | none => .ok ([], .initial)
  | some path => Session.initial.loadText path (FileSystem.readText w.files path)

/-- What is run: what was typed, or a script that was opened. -/
inductive Input (φ : Type) [FileSystem φ] where
  | typed (bytes : List UInt8)
  | script (handle : FileSystem.Handle φ)

/-- The lines that are shown before the first command. -/
def Input.greeted : Input φ → List String
  | .typed _ => [greeting]
  | .script _ => []

def Input.run (input : Input φ) (s : Session) (w : World φ) : Progress φ × Session.End :=
  match input with
  | .typed bytes => s.runIn w false bytes
  | .script handle => s.runScript w handle

/-- The input that the options ask for. -/
def findInput (w : World φ) (stdin : List UInt8) : Option String → Except ProgramError (Input φ)
  | none => .ok (.typed stdin)
  | some path =>
    match FileSystem.openFile w.files path with
    | .ok handle => .ok (.script handle)
    | .error fault => .error (.openScript path fault)

def run (o : Options) (w : World φ) (stdin : List UInt8) : Exit φ :=
  match start w o.grammar with
  | .error e => ⟨[], w.files, .failed (.load e)⟩
  | .ok (shown, s) =>
    match findInput w stdin o.script with
    | .error e => ⟨shown, w.files, .failed e⟩
    | .ok input =>
      let (p, ending) := input.run s w
      ⟨shown ++ input.greeted ++ p.lines, p.world.files, .ofEnd ending⟩

end Program

end LinearGrammar
