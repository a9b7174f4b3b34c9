import LinearGrammar.Session.Basic
import LinearGrammar.Session.FileSystem

/-!
# A world for sessions

Everything outside of a session, as values: the files of some file system, a service whose answers are
known beforehand, and draws. In such a world a session is a function, and what it asked of the service
is on record.
-/

namespace LinearGrammar

/-- How a service behaves: what it answers to a word, and to the submission with a given number,
counted from zero. -/
structure Service where
  check : CheckRequest → Outcome CheckResponse
  submit : Nat → Submission → Outcome Json

inductive Sent where
  | submission (s : Submission)
  | check (word : String)
  deriving DecidableEq, Repr

structure World (φ : Type) where
  files : φ
  service : Service
  /-- The draws that each sampling is given. -/
  draws : List UInt32
  /-- A submission takes so long that the outstanding check is answered meanwhile. -/
  isSlow : Bool
  /-- What reached the service, in order. -/
  log : List Sent

variable {φ : Type} [FileSystem φ]

namespace World

def submissions (w : World φ) : Nat :=
  w.log.countP fun
    | .submission _ => true
    | .check _ => false

def meet (w : World φ) : (d : Demand) → d.Reply × World φ
  | .readFile path => (FileSystem.readText w.files path, w)
  | .writeFile path text =>
    let (reply, files) := FileSystem.writeText w.files path text
    (reply, { w with files := files })
  | .submit s => (w.service.submit w.submissions s, { w with log := w.log ++ [.submission s] })
  | .draws => (.ofList w.draws, w)

/-- Nothing comes of a plan at which the program breaks off. -/
def carryOut {α : Type} (w : World φ) : Plan α → Option (α × World φ)
  | .done a => some (a, w)
  | .ask d resume =>
    let (reply, w) := w.meet d
    some (resume reply, w)
  | .crash => none

end World

/-- What is printed, and the session and the world after it. -/
structure Progress (φ : Type) where
  lines : List String
  session : Session
  world : World φ

/-- The next progress after this one, with the lines of both. -/
def Progress.andThen (p : Progress φ) (next : Session → World φ → Progress φ) : Progress φ :=
  let q := next p.session p.world
  { q with lines := p.lines ++ q.lines }

namespace Session

/-- The outstanding check reaches the service, and its answer goes into the queue. -/
def answerIn (s : Session) (w : World φ) : Session × World φ :=
  match s.inFlight with
  | none => (s, w)
  | some ticket =>
    (s.answer (w.service.check ⟨ticket.word⟩), { w with log := w.log ++ [.check ticket.word] })

/-- Runs a command, unless the program breaks off at it. -/
def executeIn (s : Session) (w : World φ) (c : Command) : Option (Progress φ) :=
  match w.carryOut (s.execute c) with
  | none => none
  | some ((lines, s), after) =>
    if w.isSlow && w.submissions < after.submissions then
      let (s, after) := s.answerIn after
      some ⟨lines, s, after⟩
    else some ⟨lines, s, after⟩

/-- Waits for the outstanding check and receives all the answers. -/
def settleIn (s : Session) (w : World φ) : Progress φ :=
  let (s, w) := s.answerIn w
  let (lines, s) := s.receiveAll
  ⟨lines, s, w⟩

/-- How an input ended. -/
inductive End where
  /-- At its end or at a `quit`. -/
  | finished
  /-- At a line that is no text. -/
  | unreadable (fault : Text.Utf8Fault)
  /-- At a place from which the script could not be read on. -/
  | cutOff (fault : FileFault)
  /-- At a command at which the program broke off. -/
  | crashed
  deriving DecidableEq, Repr

/-- Goes on with a command, unless the program breaks off at it. -/
def runCommand (p : Progress φ) (c : Command) : Progress φ × Option End :=
  match p.session.executeIn p.world c with
  | none => (p, some .crashed)
  | some q => ({ q with lines := p.lines ++ q.lines }, none)

/-- Runs a line of input, and tells how the input ended if it ended with this line. An input that is
typed leaves time, before each line and before its end, for the outstanding check to be answered; any
other input is done before an answer comes. A line that is no text ends the input at once, and nothing
is waited for. -/
def runLine (isTyped : Bool) (line : List UInt8) (s : Session) (w : World φ) :
    Progress φ × Option End :=
  let p : Progress φ := if isTyped then s.settleIn w else ⟨[], s, w⟩
  match Text.decode line with
  | .error fault => (p, some (.unreadable fault))
  | .ok text =>
    match Command.ofLine text with
    | .quit => (p.andThen settleIn, some .finished)
    | c => runCommand p c

def runLines (isTyped : Bool) : List (List UInt8) → Session → World φ → Progress φ × End
  | [], s, w => (s.settleIn w, .finished)
  | line :: rest, s, w =>
    match runLine isTyped line s w with
    | (p, some ending) => (p, ending)
    | (p, none) =>
      let (q, ending) := runLines isTyped rest p.session p.world
      ({ q with lines := p.lines ++ q.lines }, ending)

def runIn (s : Session) (w : World φ) (isTyped : Bool) (input : List UInt8) : Progress φ × End :=
  runLines isTyped (Text.byteLines input) s w

end Session

end LinearGrammar
