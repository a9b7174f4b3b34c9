/-!
# Reports

Every error shown to the user names the field that it came from, and is set off by terminal colours.
-/

namespace LinearGrammar

inductive ReportField where
  | terminals
  | nonterminals
  | start
  | rules
  | levels
  | word
  | tree
  | file
  deriving DecidableEq, Repr

def ReportField.name : ReportField → String
  | .terminals => "terminals"
  | .nonterminals => "nonterminals"
  | .start => "axiom"
  | .rules => "rules"
  | .levels => "levels"
  | .word => "word"
  | .tree => "tree"
  | .file => "file"

/-- The line that shows an error: its field in bold red, and its message in bold. -/
def report (field : ReportField) (message : String) : String :=
  "\x1b[31;49;1m[" ++ field.name ++ "]\x1b[39;49;1m  " ++ message ++ "\x1b[0m"

end LinearGrammar
