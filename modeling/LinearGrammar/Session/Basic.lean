import LinearGrammar.Command
import LinearGrammar.Derivation
import LinearGrammar.Grammar.Submission
import LinearGrammar.Outline
import LinearGrammar.Report
import LinearGrammar.Sampling.Word
import LinearGrammar.Service.Codec
import LinearGrammar.Session.Demand

/-!
# A session of the workbench

A session owns the grammar, the word under test and the last tree, and runs one command at a time.
Checks are the exception to that: a check is outstanding until its answer is in the queue, and
an answer waits in the queue until it is received. A new word, or the empty one, calls off the check
that is outstanding, but not an answer that is in the queue already.
-/

namespace LinearGrammar

/-- The answer to a check, with the number of the edit that asked for it. -/
structure CheckReply where
  seq : Nat
  outcome : Outcome CheckResponse
  deriving Repr

structure Session where
  grammar : Grammar
  view : WordView
  tree : Option Json
  /-- The check that is outstanding. -/
  inFlight : Option Ticket
  /-- Answers that were not received yet, the oldest first. -/
  replies : List CheckReply
  deriving Repr

/-- Why a file gave no grammar. -/
inductive LoadError where
  | unreadable (path : String) (fault : FileFault)
  | notSaved (path : String) (e : Json.ReadError)
  | invalid (path : String) (e : EditError)
  deriving DecidableEq, Repr

namespace LoadError

def context : LoadError → String
  | .unreadable path _ => "Failed to read " ++ path
  | .notSaved path _ => path ++ " is not a saved grammar"
  | .invalid path _ => "Invalid grammar in " ++ path

/-- Why it went wrong. Of a text that is no saved grammar a reader of JSON has more to say, with the
line and the column in it, and that text is left out. -/
def cause? : LoadError → Option String
  | .unreadable _ fault => some fault.message
  | .notSaved _ _ => none
  | .invalid _ e => some e.message

def message (e : LoadError) : String :=
  match e.cause? with
  | some cause => e.context ++ ": " ++ cause
  | none => e.context

end LoadError

namespace Session

/-- The lines that a command prints, and the session after it. -/
abbrev Result := List String × Session

def initial : Session := ⟨.empty, .initial, none, none, []⟩

/-! ## What is shown -/

def terminalsLine (g : Grammar) : String := "T = " ++ g.terminals.display

/-- The line of the nonterminals and the start symbol. -/
def nonterminalsLine (g : Grammar) : String :=
  "N = " ++ g.nonterminals.display ++ ", axiom = " ++ g.start.getD "-"

/-- A line for each rule that matches the alphabets no more. -/
def invalidLines (g : Grammar) : List String :=
  g.invalidRules.map fun (r, e) => "! " ++ r.display ++ ": " ++ e.message

/-- Whether the grammar can be submitted, in words. -/
def readiness (g : Grammar) : String :=
  match g.toSubmission with
  | .ok _ => "ready to submit"
  | .error e => "not ready: " ++ e.message

def grammarLines (g : Grammar) : List String :=
  [terminalsLine g, nonterminalsLine g, "P ="] ++ g.rules.map (fun r => "  " ++ r.display) ++
    ["levels = " ++ g.levels, readiness g] ++ invalidLines g

/-- A sample with the forms that led to it. -/
def sampleLine (s : Sample) : String :=
  s.word ++ "    (" ++ String.intercalate " ⇒ " s.forms ++ ")"

def ruleEditLines (edit : RuleEdit) : List String :=
  edit.rejected.map (fun e => report .rules e.message) ++
    edit.duplicates.map (fun r => r.display ++ " is already a rule") ++
    edit.added.map (fun r => "+ " ++ r.display)

/-! ## Commands -/

/-- Takes in symbols one by one and goes on after a refusal. -/
def enter (field : ReportField) (add : Grammar → String → Except EditError (Bool × Grammar)) :
    List String → Grammar → List String × Grammar
  | [], g => ([], g)
  | symbol :: rest, g =>
    match add g symbol with
    | .ok (_, g) => enter field add rest g
    | .error e =>
      let (lines, g) := enter field add rest g
      (report field e.message :: lines, g)

/-- Replaces the word under test, and calls off the check of the old one. -/
def setWord (s : Session) (text : String) : Result :=
  match s.view.setQuery text with
  | .ok (ticket, view) => ([], { s with view := view, inFlight := ticket })
  | .error e => ([report .word e.message], s)

/-- Takes out the rule of a line. A bar in the line belongs to the body. -/
def unrule (s : Session) (line : String) : Result :=
  let removed : Except EditError (Rule × Grammar) :=
    match RuleLine.ofText line with
    | .ok ⟨head, alternatives⟩ => s.grammar.removeRule head (String.intercalate "|" alternatives)
    | .error e => .error e
  match removed with
  | .ok (r, g) => (["- " ++ r.display], { s with grammar := g })
  | .error e => ([report .rules e.message], s)

/-- Puts the grammar of a saved text in the place of the current one. -/
def loadText (s : Session) (path : String) (text : Except FileFault String) :
    Except LoadError Result :=
  match text with
  | .error fault => .error (.unreadable path fault)
  | .ok text =>
    match Json.readText Submission.read text with
    | .error e => .error (.notSaved path e)
    | .ok submission =>
      match Grammar.ofSubmission submission with
      | .error e => .error (.invalid path e)
      | .ok g => .ok (grammarLines g, { s with grammar := g, tree := none })

def showTree (s : Session) : Outcome Json → Result
  | .ok tree => (tree.treeLines, { s with tree := some tree })
  | .error e => ([report .tree e.message], s)

def showSamples (s : Session) : Except SampleError (List Sample) → Result
  | .ok samples => (samples.map sampleLine, s)
  | .error e => ([report .levels e.message], s)

/-- Runs a command. The command `quit` does nothing here: it ends the input. -/
def execute (s : Session) : Command → Plan Result
  | .terminals symbols =>
    let (lines, g) := enter .terminals Grammar.addTerminal symbols s.grammar
    .done (lines ++ [terminalsLine g], { s with grammar := g })
  | .nonterminals symbols =>
    let (lines, g) := enter .nonterminals Grammar.addNonterminal symbols s.grammar
    .done (lines ++ [nonterminalsLine g], { s with grammar := g })
  | .removeTerminals symbols =>
    let g := symbols.foldl Grammar.removeTerminal s.grammar
    .done (terminalsLine g :: invalidLines g, { s with grammar := g })
  | .removeNonterminals symbols =>
    let g := symbols.foldl Grammar.removeNonterminal s.grammar
    .done (nonterminalsLine g :: invalidLines g, { s with grammar := g })
  | .start symbol =>
    match s.grammar.chooseStart symbol with
    | .ok g => .done ([nonterminalsLine g], { s with grammar := g })
    | .error e => .done ([report .start e.message], s)
  | .rule line =>
    match s.grammar.addRules line with
    | .ok (edit, g) => .done (ruleEditLines edit, { s with grammar := g })
    | .error e => .done ([report .rules e.message], s)
  | .unrule line => .done (s.unrule line)
  | .levels text =>
    let g := s.grammar.setLevels text
    .done (["levels = " ++ g.levels], { s with grammar := g })
  | .word text => .done (s.setWord text)
  | .tree =>
    match s.grammar.toSubmission with
    | .error e => .done ([report .tree e.message], s)
    | .ok submission => .ask (.submit submission) s.showTree
  | .display => .done (grammarLines s.grammar, s)
  | .check =>
    let lines := invalidLines s.grammar
    .done (if lines.isEmpty then ["All rules match the alphabets"] else lines, s)
  | .prune =>
    let (removed, g) := s.grammar.pruneRules
    .done (removed.map (fun r => "removed " ++ r.display), { s with grammar := g })
  | .sample amount =>
    match s.grammar.sample amount with
    | none => .crash
    | some run => .ask .draws fun draws => s.showSamples (run draws).1
  | .save path =>
    .ask (.writeFile path s.grammar.snapshot.toJson.pretty) fun
      | .ok () => ([], s)
      | .error fault => ([report .file ("Failed to write " ++ path ++ ": " ++ fault.message)], s)
  | .load path =>
    .ask (.readFile path) fun text =>
      match s.loadText path text with
      | .ok result => result
      | .error e => ([report .file e.message], s)
  | .help => .done ([Command.helpText], s)
  | .unknown what => .done (["Unknown command: " ++ what ++ " (try `help`)"], s)
  | .quit | .empty => .done ([], s)

/-! ## Answers to checks -/

/-- The outstanding check ends with an outcome, which is put into the queue. -/
def answer (s : Session) (outcome : Outcome CheckResponse) : Session :=
  match s.inFlight with
  | none => s
  | some ticket =>
    { s with inFlight := none, replies := s.replies ++ [⟨ticket.seq, outcome⟩] }

/-- Takes an answer. One that is not awaited any more is dropped without a word. -/
def take (s : Session) (reply : CheckReply) : Result :=
  let (wasAwaited, view) := s.view.apply reply.seq reply.outcome
  let lines :=
    match view.verdict with
    | .failed e => report .word e.message :: view.lines
    | _ => view.lines
  (if wasAwaited then lines else [], { s with view := view })

def receive (s : Session) : Result :=
  match s.replies with
  | [] => ([], s)
  | reply :: rest => { s with replies := rest }.take reply

def takeAll : List CheckReply → Session → Result
  | [], s => ([], s)
  | reply :: rest, s =>
    let (lines, s) := s.take reply
    let (more, s) := takeAll rest s
    (lines ++ more, s)

def receiveAll (s : Session) : Result := takeAll s.replies { s with replies := [] }

end Session

end LinearGrammar
