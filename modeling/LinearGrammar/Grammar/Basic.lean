import LinearGrammar.Rule.Line
import LinearGrammar.Rule.Validity

/-!
# The grammar being edited

A grammar is two alphabets, the symbol that derivations start from, the rules and the expansion
depth. Each edit is a function to the grammar after it, and a refused edit gives an `EditError` and
no grammar. The depth is kept as text: what it means is decided by whoever expands the grammar.
-/

namespace LinearGrammar

/-- A linear grammar, complete or not. -/
structure Grammar where
  terminals : Alphabet
  nonterminals : Alphabet
  start : Option String
  rules : List Rule
  levels : String
  deriving DecidableEq, Repr

/-- What became of the alternatives of a rule line: entered, there already, or refused. -/
structure RuleEdit where
  added : List Rule
  duplicates : List Rule
  rejected : List EditError
  deriving DecidableEq, Repr

namespace Grammar

def empty : Grammar := ⟨.empty .terminal, .empty .nonterminal, none, [], ""⟩

/-! ## Symbols -/

/-- Falls back to the first nonterminal when the start symbol is no nonterminal (any more). -/
def refreshStart (g : Grammar) : Grammar :=
  if g.start.any g.nonterminals.contains then g
  else { g with start := g.nonterminals.first? }

/-- Takes a terminal in. The flag says whether it is new. -/
def addTerminal (g : Grammar) (text : String) : Except EditError (Bool × Grammar) :=
  (g.terminals.insert g.nonterminals text).map fun (grew, a) => (grew, { g with terminals := a })

/-- Takes a nonterminal in. The flag says whether it is new. -/
def addNonterminal (g : Grammar) (text : String) : Except EditError (Bool × Grammar) :=
  (g.nonterminals.insert g.terminals text).map fun (grew, a) =>
    (grew, { g with nonterminals := a }.refreshStart)

def removeTerminal (g : Grammar) (symbol : String) : Grammar :=
  { g with terminals := g.terminals.erase symbol }

def removeNonterminal (g : Grammar) (symbol : String) : Grammar :=
  { g with nonterminals := g.nonterminals.erase symbol }.refreshStart

def chooseStart (g : Grammar) (text : String) : Except EditError Grammar :=
  let symbol := Text.trim text
  if g.nonterminals.contains symbol then .ok { g with start := some symbol }
  else .error (.invalidStart symbol)

/-- Sets the expansion depth, whatever the text says. Blanks are dropped. -/
def setLevels (g : Grammar) (text : String) : Grammar :=
  { g with levels := Text.squeeze text }

/-! ## Rules -/

/-- Tells the rules that are new from those that are the same as a stored one or as a new one
before them. -/
def sortOut (stored : List Rule) : List Rule → List Rule × List Rule
  | [] => ([], [])
  | r :: rest =>
    if r.isAmong stored then
      let (added, duplicates) := sortOut stored rest
      (added, r :: duplicates)
    else
      let (added, duplicates) := sortOut (stored ++ [r]) rest
      (r :: added, duplicates)

/-- Enters the alternatives of a rule line, new ones at the end. -/
def addRules (g : Grammar) (line : String) : Except EditError (RuleEdit × Grammar) :=
  (ParsedLine.ofText g.terminals g.nonterminals line).map fun parsed =>
    let (added, duplicates) := sortOut g.rules parsed.rules
    (⟨added, duplicates, parsed.rejected⟩, { g with rules := g.rules ++ added })

/-- Takes out the rule with this head and this body text. Blanks in the body do not count. -/
def removeRule (g : Grammar) (head body : String) : Except EditError (Rule × Grammar) :=
  let body := Text.squeeze body
  let isIt := fun r : Rule => r.head == head && r.text == body
  match g.rules.find? isIt with
  | some r => .ok (r, { g with rules := g.rules.eraseP isIt })
  | none => .error (.unknownRule head body)

/-- Whether a rule matches the alphabets as they are now. -/
def isValid (g : Grammar) (r : Rule) : Bool := r.isValid g.terminals g.nonterminals

/-- The rules that the alphabets as they are now do not allow, and why. -/
def invalidRules (g : Grammar) : List (Rule × EditError) :=
  Rule.invalid g.terminals g.nonterminals g.rules

/-- Takes out the invalid rules and hands them back. -/
def pruneRules (g : Grammar) : List Rule × Grammar :=
  (g.rules.filter (!g.isValid ·), { g with rules := g.rules.filter g.isValid })

/-! ## Sameness -/

/-- Grammars are the same when everything in them is, rules being taken by their identity. -/
def isSame (g h : Grammar) : Bool :=
  g.terminals == h.terminals && g.nonterminals == h.nonterminals && g.start == h.start &&
    g.rules.map Rule.identity == h.rules.map Rule.identity && g.levels == h.levels

theorem isSame_refl (g : Grammar) : g.isSame g = true := by simp [isSame]

end Grammar

end LinearGrammar
