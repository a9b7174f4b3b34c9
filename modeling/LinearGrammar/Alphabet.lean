import LinearGrammar.EditError
import LinearGrammar.Text.Blank

/-!
# Alphabets

A grammar has two alphabets, one of terminals and one of nonterminals. An alphabet remembers the
order in which its symbols came in: the order is shown, and the first nonterminal is what a grammar
starts from when nothing else was chosen. A symbol enters trimmed, without a blank inside, once, and
only if the other alphabet does not have it.
-/

namespace LinearGrammar

/-- The symbols of one kind, in the order in which they came in. -/
structure Alphabet where
  kind : SymbolKind
  symbols : List String
  deriving DecidableEq, Repr

namespace Alphabet

/-- The alphabet of a kind before any symbol came in. -/
def empty (kind : SymbolKind) : Alphabet := ⟨kind, []⟩

/-- Whether the alphabet has a symbol, compared as it stands. -/
def contains (a : Alphabet) (symbol : String) : Bool := a.symbols.contains symbol

/-- The symbol that came in before all the others. -/
def first? (a : Alphabet) : Option String := a.symbols.head?

def isEmpty (a : Alphabet) : Bool := a.symbols.isEmpty

/-- Takes a symbol in. The flag says whether the alphabet grew: a blank text and a symbol that it
has already leave it as it is. -/
def insert (a other : Alphabet) (text : String) : Except EditError (Bool × Alphabet) :=
  let symbol := Text.trim text
  if symbol.isEmpty then .ok (false, a)
  else if Text.hasBlank symbol then .error (.blankInSymbol symbol)
  else if other.contains symbol then .error (.crossMembership symbol other.kind)
  else if a.contains symbol then .ok (false, a)
  else .ok (true, { a with symbols := a.symbols ++ [symbol] })

/-- Takes a symbol out, compared as it stands, so that a text with blanks around it removes
nothing. -/
def erase (a : Alphabet) (symbol : String) : Alphabet :=
  { a with symbols := a.symbols.erase symbol }

/-- The symbols between braces, as the workbench shows them. -/
def display (a : Alphabet) : String :=
  "\x7b " ++ String.intercalate ", " a.symbols ++ " \x7d"

@[simp] theorem kind_erase (a : Alphabet) (symbol : String) : (a.erase symbol).kind = a.kind := rfl

theorem contains_iff_mem {a : Alphabet} {symbol : String} :
    a.contains symbol = true ↔ symbol ∈ a.symbols := by
  simp [contains]

theorem kind_of_insert {a other b : Alphabet} {text : String} {grew : Bool}
    (h : a.insert other text = .ok (grew, b)) : b.kind = a.kind := by
  simp only [insert] at h
  repeat' split at h
  all_goals cases h <;> rfl

end Alphabet

end LinearGrammar
