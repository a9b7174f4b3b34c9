import LinearGrammar.Alphabet

/-!
# Cutting a body into symbols

The text of a body is read from left to right. A blank is skipped. Anywhere else the longest symbol
of either alphabet that the rest begins with is taken, and where none fits, the next character
alone. So the cut depends on the alphabets only as one set, and nothing but blanks is lost.
-/

namespace LinearGrammar.Body

/-- The longer of the two, the first if they are of one length. -/
def longer (s t : List Char) : List Char := if s.length < t.length then t else s

/-- The longest of the known symbols that the text begins with, and the empty one if none does. -/
def longestStart (known : List (List Char)) (cs : List Char) : List Char :=
  (known.filter (·.isPrefixOf cs)).foldl longer []

/-- The symbol to take where the text goes on with the character `c` and then `cs`. -/
def nextSymbol (known : List (List Char)) (c : Char) (cs : List Char) : List Char :=
  match longestStart known (c :: cs) with
  | [] => [c]
  | symbol => symbol

/-- Something is taken at every place, so cutting ends. -/
theorem length_nextSymbol_pos (known : List (List Char)) (c : Char) (cs : List Char) :
    0 < (nextSymbol known c cs).length := by
  unfold nextSymbol
  split
  · simp
  · rename_i symbol hne
    exact List.length_pos_iff.2 hne

def cut (known : List (List Char)) : List Char → List (List Char)
  | [] => []
  | c :: cs =>
    if Text.isBlank c then cut known cs
    else
      let symbol := nextSymbol known c cs
      symbol :: cut known ((c :: cs).drop symbol.length)
termination_by cs => cs.length
decreasing_by
  · simp
  · have := length_nextSymbol_pos known c cs
    simp only [List.length_drop, List.length_cons]
    omega

/-- The symbols of both alphabets, terminals first. -/
def known (terminals nonterminals : Alphabet) : List (List Char) :=
  (terminals.symbols ++ nonterminals.symbols).map String.toList

def symbols (terminals nonterminals : Alphabet) (text : String) : List String :=
  (cut (known terminals nonterminals) text.toList).map String.ofList

/-- How many positions of a body hold a nonterminal. -/
def nonterminalCount (nonterminals : Alphabet) (body : List String) : Nat :=
  body.countP nonterminals.contains

/-- The symbols of a body that neither alphabet has, each once, in the order in which they first
occur. -/
def strangers (terminals nonterminals : Alphabet) (body : List String) : List String :=
  (body.filter fun s => !terminals.contains s && !nonterminals.contains s).eraseDups

/-- A body may have one nonterminal at most, and no symbol outside the alphabets. A second
nonterminal weighs more than an unknown symbol. -/
def check (terminals nonterminals : Alphabet) (body : List String) : Except EditError Unit :=
  let count := nonterminalCount nonterminals body
  let unknown := strangers terminals nonterminals body
  if 1 < count then .error (.manyNonterminals (String.join body) count)
  else if !unknown.isEmpty then .error (.unknownSymbols (String.join body) unknown)
  else .ok ()

end LinearGrammar.Body
