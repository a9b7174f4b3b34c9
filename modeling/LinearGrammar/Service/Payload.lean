/-!
# What goes over the wire

The grammar service takes a whole grammar, and words to check against the grammar it was sent
last. A submission is also the form in which a grammar is saved to a file. Rules travel by head and
body text; the cut of a body into symbols stays at home.
-/

namespace LinearGrammar

/-- A production rule as the service spells it. -/
structure WireRule where
  nonTerminalSymbol : String
  symbolProduced : String
  deriving DecidableEq, Repr

/-- A whole grammar, complete or not. -/
structure Submission where
  terminalSymbols : List String
  nonTerminalSymbols : List String
  axiomaticSymbol : String
  productionRules : List WireRule
  levels : String
  deriving DecidableEq, Repr

structure CheckRequest where
  word : String
  deriving DecidableEq, Repr

/-- The answer to a check: the rules applied and the forms they led to, side by side. Empty lists
mean that the word is not in the language. -/
structure CheckResponse where
  axiomaticSymbol : String
  derivationSteps : List String
  derivativeProducts : List WireRule
  deriving DecidableEq, Repr

end LinearGrammar
