/-!
# Refused edits

Every edit of a grammar either happens as a whole or is refused for one of these causes. A refused
edit leaves the grammar as it was. `EditError.message` is the wording shown to the user.
-/

namespace LinearGrammar

inductive SymbolKind where
  | terminal
  | nonterminal
  deriving DecidableEq, Repr

def SymbolKind.name : SymbolKind → String
  | .terminal => "terminal"
  | .nonterminal => "nonterminal"

/-- The parts without which a grammar cannot be submitted. -/
inductive Component where
  | terminals
  | nonterminals
  | rules
  | levels
  deriving DecidableEq, Repr

def Component.name : Component → String
  | .terminals => "terminals"
  | .nonterminals => "nonterminals"
  | .rules => "rules"
  | .levels => "levels"

/-- Why an edit, a word or a submission was refused. -/
inductive EditError where
  /-- The symbol belongs to the alphabet of the other kind. -/
  | crossMembership (symbol : String) (other : SymbolKind)
  /-- A symbol has a blank inside. -/
  | blankInSymbol (symbol : String)
  /-- A rule line has no arrow, or nothing on one side of it. -/
  | malformedRule (line : String)
  /-- The head of a rule is no nonterminal. -/
  | unknownHead (head : String)
  /-- An alternative has no symbol. -/
  | emptyAlternative (head : String)
  /-- A body has more than one nonterminal, so the rule is not linear. -/
  | manyNonterminals (body : String) (count : Nat)
  /-- A body has symbols of neither alphabet, each named once. -/
  | unknownSymbols (body : String) (symbols : List String)
  /-- The symbol chosen to start from is no nonterminal. -/
  | invalidStart (symbol : String)
  /-- There is no such rule to take out. -/
  | unknownRule (head body : String)
  /-- A word under test has a blank somewhere. -/
  | blankInWord
  /-- Parts of the grammar are still empty. -/
  | incomplete (missing : List Component)
  /-- Some rules broke when an alphabet changed after they were entered. -/
  | staleRules (count : Nat)
  deriving DecidableEq, Repr

def EditError.message : EditError → String
  | .crossMembership symbol other =>
    "`" ++ symbol ++ "` is already a " ++ other.name ++ " symbol, it cannot be both"
  | .blankInSymbol symbol => "Symbol `" ++ symbol ++ "` contains whitespace"
  | .malformedRule line => "Expected a rule of the form `A->b|c`, got `" ++ line ++ "`"
  | .unknownHead head => "`" ++ head ++ "` is not in the nonterminal set"
  | .emptyAlternative head => "Empty alternative for `" ++ head ++ "`"
  | .manyNonterminals body count =>
    "`" ++ body ++ "` has " ++ toString count ++ " nonterminals, only one is allowed"
  | .unknownSymbols body symbols =>
    "`" ++ body ++ "` uses symbols outside both alphabets: " ++ String.intercalate ", " symbols
  | .invalidStart symbol => "Axiom `" ++ symbol ++ "` is not in the nonterminal set"
  | .unknownRule head body => "No rule `" ++ head ++ " -> " ++ body ++ "`"
  | .blankInWord => "The word may not contain whitespace"
  | .incomplete missing =>
    "Grammar is incomplete, missing: " ++ String.intercalate ", " (missing.map Component.name)
  | .staleRules count => toString count ++ " rules no longer match the alphabets"

end LinearGrammar
