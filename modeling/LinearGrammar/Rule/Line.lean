import LinearGrammar.Rule.Basic
import LinearGrammar.Rule.Body
import LinearGrammar.Text.Cut

/-!
# Rule lines

A rule line is a head, an arrow and one or more alternatives with bars between them. The last arrow
of the line counts, so a head may hold arrows. The head has to be a nonterminal, or the whole line is
refused; an alternative that is empty, not linear or made of unknown symbols is refused on its own.
-/

namespace LinearGrammar

/-- A rule line cut at its last arrow and at the bars after it. -/
structure RuleLine where
  head : String
  alternatives : List String
  deriving DecidableEq, Repr

/-- The rules of a line, and what was wrong with its other alternatives, both in order. -/
structure ParsedLine where
  rules : List Rule
  rejected : List EditError
  deriving DecidableEq, Repr

namespace RuleLine

def arrow : List Char := ['-', '>']

def bar : Char := '|'

/-- Cuts a line. Neither side of the arrow may be blank; the alternatives keep their blanks. -/
def ofText (line : String) : Except EditError RuleLine :=
  let line := Text.trim line
  match Text.cutLast arrow line.toList with
  | none => .error (.malformedRule line)
  | some (before, after) =>
    let head := Text.trim (String.ofList before)
    let body := Text.trim (String.ofList after)
    if head.isEmpty || body.isEmpty then .error (.malformedRule line)
    else .ok ⟨head, Text.splitOn bar body⟩

end RuleLine

namespace Rule

/-- The rule of one alternative. The head is not looked at. -/
def ofAlternative (terminals nonterminals : Alphabet) (head text : String) :
    Except EditError Rule :=
  let body := Body.symbols terminals nonterminals text
  if body.isEmpty then .error (.emptyAlternative head)
  else (Body.check terminals nonterminals body).map fun _ => ⟨head, body⟩

end Rule

namespace ParsedLine

/-- The outcomes of the alternatives, the good ones apart from the bad ones. -/
def ofOutcomes : List (Except EditError Rule) → ParsedLine
  | [] => ⟨[], []⟩
  | .ok r :: rest => let p := ofOutcomes rest; { p with rules := r :: p.rules }
  | .error e :: rest => let p := ofOutcomes rest; { p with rejected := e :: p.rejected }

def ofText (terminals nonterminals : Alphabet) (line : String) : Except EditError ParsedLine :=
  match RuleLine.ofText line with
  | .error e => .error e
  | .ok ⟨head, alternatives⟩ =>
    if nonterminals.contains head then
      .ok (ofOutcomes (alternatives.map (Rule.ofAlternative terminals nonterminals head)))
    else .error (.unknownHead head)

end ParsedLine

end LinearGrammar
