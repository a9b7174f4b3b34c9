import LinearGrammar.Grammar.Submission

/-!
# Histories of edits

What can happen to a grammar is one of ten edits, the last of which puts a saved grammar in its
place. An edit that is refused leaves the grammar as it was, so every list of edits leads to some
grammar, and the grammars that a session can come to are those that a list of edits leads to.
-/

namespace LinearGrammar

/-- An edit, with what was typed or read for it. -/
inductive Edit where
  | addTerminal (text : String)
  | addNonterminal (text : String)
  | removeTerminal (symbol : String)
  | removeNonterminal (symbol : String)
  | chooseStart (text : String)
  | addRules (line : String)
  | removeRule (head body : String)
  | setLevels (text : String)
  | pruneRules
  /-- Puts the grammar of a submission in the place of the current one. -/
  | load (s : Submission)
  deriving DecidableEq, Repr

namespace Grammar

/-- The grammar after an edit, if the edit is not refused. -/
def tryEdit (g : Grammar) : Edit → Except EditError Grammar
  | .addTerminal text => (g.addTerminal text).map (·.2)
  | .addNonterminal text => (g.addNonterminal text).map (·.2)
  | .removeTerminal symbol => .ok (g.removeTerminal symbol)
  | .removeNonterminal symbol => .ok (g.removeNonterminal symbol)
  | .chooseStart text => g.chooseStart text
  | .addRules line => (g.addRules line).map (·.2)
  | .removeRule head body => (g.removeRule head body).map (·.2)
  | .setLevels text => .ok (g.setLevels text)
  | .pruneRules => .ok g.pruneRules.2
  | .load s => ofSubmission s

/-- The grammar after an edit. One that is refused changes nothing. -/
def edit (g : Grammar) (e : Edit) : Grammar :=
  match g.tryEdit e with
  | .ok g => g
  | .error _ => g

def editAll (g : Grammar) (edits : List Edit) : Grammar := edits.foldl edit g

def ofEdits (edits : List Edit) : Grammar := empty.editAll edits

end Grammar

end LinearGrammar
