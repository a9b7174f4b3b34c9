import LinearGrammar.Grammar.Basic
import LinearGrammar.Service.Payload

/-!
# Grammars as submissions

A snapshot is taken of any grammar, complete or not; it is what a saved file holds. Only a complete
grammar whose rules all match the alphabets is submitted. Reading a snapshot back puts its symbols
and its start symbol through the same checks as typed edits, but keeps rules that match no alphabet,
as they were kept while they were edited.
-/

namespace LinearGrammar

def Rule.toWire (r : Rule) : WireRule := ⟨r.head, r.text⟩

namespace Grammar

def missing (g : Grammar) : List Component :=
  (if g.terminals.isEmpty then [.terminals] else []) ++
  (if g.nonterminals.isEmpty then [.nonterminals] else []) ++
  (if g.rules.isEmpty then [.rules] else []) ++
  (if (Text.trim g.levels).isEmpty then [.levels] else [])

def isComplete (g : Grammar) : Bool := g.missing.isEmpty

/-- The grammar as it stands. -/
def snapshot (g : Grammar) : Submission where
  terminalSymbols := g.terminals.symbols
  nonTerminalSymbols := g.nonterminals.symbols
  axiomaticSymbol := g.start.getD ""
  productionRules := g.rules.map Rule.toWire
  levels := g.levels

/-- The grammar for the service, if it is fit to be sent. -/
def toSubmission (g : Grammar) : Except EditError Submission :=
  if !g.missing.isEmpty then .error (.incomplete g.missing)
  else if !g.invalidRules.isEmpty then .error (.staleRules g.invalidRules.length)
  else .ok g.snapshot

/-! ## Reading a snapshot -/

def addTerminals : List String → Grammar → Except EditError Grammar
  | [], g => .ok g
  | symbol :: rest, g =>
    match g.addTerminal symbol with
    | .ok (_, g) => addTerminals rest g
    | .error e => .error e

def addNonterminals : List String → Grammar → Except EditError Grammar
  | [], g => .ok g
  | symbol :: rest, g =>
    match g.addNonterminal symbol with
    | .ok (_, g) => addNonterminals rest g
    | .error e => .error e

/-- Reads a rule of a snapshot. Its body is cut anew, whatever it is made of, so only a blank head
and a blank body are refused. -/
def readRule (g : Grammar) (wire : WireRule) : Except EditError Rule :=
  let head := Text.trim wire.nonTerminalSymbol
  let body := Body.symbols g.terminals g.nonterminals wire.symbolProduced
  if head.isEmpty then .error (.malformedRule ("->" ++ wire.symbolProduced))
  else if body.isEmpty then .error (.emptyAlternative head)
  else .ok ⟨head, body⟩

/-- Appends a rule unless one that is the same is there. -/
def storeRule (g : Grammar) (r : Rule) : Grammar :=
  if r.isAmong g.rules then g else { g with rules := g.rules ++ [r] }

/-- Takes in the rules of a snapshot, repetitions dropped. -/
def readRules : List WireRule → Grammar → Except EditError Grammar
  | [], g => .ok g
  | wire :: rest, g =>
    match g.readRule wire with
    | .ok r => readRules rest (g.storeRule r)
    | .error e => .error e

/-- Chooses the start symbol of a snapshot. An empty one leaves the choice to the grammar. -/
def readStart (symbol : String) (g : Grammar) : Except EditError Grammar :=
  if symbol.isEmpty then .ok g else g.chooseStart symbol

/-- The grammar that a snapshot describes. Terminals come first, then nonterminals, the start symbol
and the rules; the first thing that is refused refuses the whole. -/
def ofSubmission (s : Submission) : Except EditError Grammar := do
  let g ← addTerminals s.terminalSymbols empty
  let g ← addNonterminals s.nonTerminalSymbols g
  let g ← readStart s.axiomaticSymbol g
  let g ← readRules s.productionRules g
  return g.setLevels s.levels

end Grammar

end LinearGrammar
