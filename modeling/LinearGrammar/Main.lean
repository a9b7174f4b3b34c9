import LinearGrammar.Program

/-!
# The command line program

The outer layer: it meets the demands of a session from the file system and the system's randomness,
reads lines and prints them. No request leaves this machine, so every request to the service fails as
one that was not answered.
-/

namespace LinearGrammar.Main

/-- A system code, which may come with either sign. -/
def unsigned (code : UInt32) : Nat := min code.toNat (Nat.pow 2 32 - code.toNat)

/-- The fault of a system error. -/
def faultOf : IO.Error → FileFault
  | .noFileOrDirectory .. => .notFound
  | .inappropriateType _ code _ => if unsigned code = 20 then .notDirectory else .isDirectory
  | .invalidArgument _ code _ => if unsigned code = 36 then .nameTooLong else .nulInName
  | .permissionDenied .. => .other "Permission denied (os error 13)"
  | e => .other (toString e)

def onFile {α : Type} (action : IO α) : IO (Except FileFault α) := do
  try
    return .ok (← action)
  catch e =>
    return .error (faultOf e)

def readBytes (path : String) : IO (Except FileFault (List UInt8)) :=
  onFile do return (← IO.FS.readBinFile path).toList

def readText (path : String) : IO (Except FileFault String) := do
  match ← readBytes path with
  | .error fault => return .error fault
  | .ok bytes =>
    match Text.decode bytes with
    | .ok text => return .ok text
    | .error _ => return .error .notText

/-- How many draws a sampling is given. -/
def drawCount : Nat := 65536

def drawAll : IO Draws := do
  let values ← (List.range drawCount).mapM fun _ => IO.rand 0 (Draws.span - 1)
  return .ofList (values.map UInt32.ofNat)

def meet (service : Service) : (d : Demand) → IO d.Reply
  | .readFile path => readText path
  | .writeFile path text => onFile (IO.FS.writeFile path text)
  | .submit s => return service.submit 0 s
  | .draws => drawAll

def carryOut {α : Type} (service : Service) : Plan α → IO (Option α)
  | .done a => return some a
  | .ask d resume => return some (resume (← meet service d))
  | .crash => return none

def printAll (lines : List String) : IO Unit := do
  for line in lines do
    IO.println line
  (← IO.getStdout).flush

/-- Answers the outstanding check and shows the answer. -/
def settle (service : Service) (s : Session) : IO Session := do
  match s.inFlight with
  | none => return s
  | some ticket =>
    let (lines, s) := (s.answer (service.check ⟨ticket.word⟩)).receiveAll
    printAll lines
    return s

/-- Runs one line of input, and tells how the program ends if it ends with this line. -/
def runLine (service : Service) (s : Session) (line : List UInt8) :
    IO (Except Program.Ending Session) := do
  match Text.decode line with
  | .error fault => return .error (.failed (.command fault))
  | .ok text =>
    match Command.ofLine text with
    | .quit => return .error .finished
    | c =>
      match ← carryOut service (s.execute c) with
      | none => return .error .crashed
      | some (lines, s) =>
        printAll lines
        return .ok s

/-- Reads from a stream up to a line feed or its end, so that a typed line is run at once. -/
partial def readTyped (stream : IO.FS.Stream) (read : ByteArray) : IO ByteArray := do
  let byte ← stream.read 1
  if byte.isEmpty then return read
  else if byte.toList == [0x0A] then return read ++ byte
  else readTyped stream (read ++ byte)

/-- Runs the lines that `readPiece` brings. `pending` holds what was read of the next line. A last line
without a line feed is run too, and then there may be more to read. -/
partial def runPieces (service : Service) (readPiece : IO ByteArray) (s : Session)
    (pending : List UInt8) : IO Program.Ending := do
  let s ← settle service s
  let next (line rest : List UInt8) : IO Program.Ending := do
    match ← runLine service s line with
    | .error ending => return ending
    | .ok s => runPieces service readPiece s rest
  match Text.firstByteLine? pending with
  | some (line, rest) => next line rest
  | none =>
    let piece ← readPiece
    if !piece.isEmpty then runPieces service readPiece s (pending ++ piece.toList)
    else if pending.isEmpty then return .finished
    else next pending []

/-- Reports a failure and gives the exit code. -/
def finish (ending : Program.Ending) : IO UInt32 := do
  if let .failed e := ending then IO.eprint e.report
  return ending.code.toUInt32

def run (o : Options) : IO UInt32 := do
  let service := Service.unreachable (.ofAddress o.serverUrl)
  let loaded : Except LoadError Session.Result ←
    match o.grammar with
    | none => pure (.ok ([], .initial))
    | some path => do
      let text ← readText path
      pure (Session.initial.loadText path text)
  match loaded with
  | .error e => finish (.failed (.load e))
  | .ok (lines, s) =>
    printAll lines
    let input : Except ProgramError (IO ByteArray) ←
      match o.script with
      | none => do
        printAll [Program.greeting]
        pure (.ok (readTyped (← IO.getStdin) .empty))
      | some path => do
        match ← onFile (IO.FS.Handle.mk path .read) with
        | .error fault => pure (.error (.openScript path fault))
        | .ok handle => pure (.ok (handle.read pieceLength.toUSize))
    match input with
    | .error e => finish (.failed e)
    | .ok readPiece =>
      try
        finish (← runPieces service readPiece s [])
      catch e => finish (.failed (.readScript (faultOf e)))

/-- The variables of the environment that stand in for options. -/
def environment : IO (List (String × String)) := do
  let mut found : List (String × String) := []
  for name in [Options.Name.serverUrl, .timeout, .script, .logLevel] do
    if let some key := name.environmentKey? then
      if let some value ← IO.getEnv key then
        found := (key, value) :: found
  return found

end LinearGrammar.Main

def main (args : List String) : IO UInt32 := do
  match LinearGrammar.Options.ofArguments (← LinearGrammar.Main.environment) args with
  | .ok o => LinearGrammar.Main.run o
  | .error .displayVersion =>
    IO.print LinearGrammar.Options.versionText
    return 0
  | .error .displayHelp =>
    IO.print LinearGrammar.Options.helpText
    return 0
  | .error e =>
    IO.eprintln e.message
    return 2
