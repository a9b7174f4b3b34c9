/-!
# Production rules

A rule has a head and a body, the body being the list of its symbols. What identifies a rule is its
head and the text of its body: the grammar service never sees how the text was cut into symbols,
so two rules that differ only in the cut are one rule.
-/

namespace LinearGrammar

structure Rule where
  head : String
  body : List String
  deriving DecidableEq, Repr

namespace Rule

/-- The symbols of the body, one after the other. -/
def text (r : Rule) : String := String.join r.body

def identity (r : Rule) : String × String := (r.head, r.text)

/-- The same head and the same body text, whatever symbols the bodies were cut into. -/
def isSame (r s : Rule) : Bool := r.identity == s.identity

def display (r : Rule) : String := r.head ++ " → " ++ r.text

def isAmong (r : Rule) (rules : List Rule) : Bool := rules.any r.isSame

theorem isSame_iff {r s : Rule} : r.isSame s = true ↔ r.head = s.head ∧ r.text = s.text := by
  simp [isSame, identity]

theorem isSame_refl (r : Rule) : r.isSame r = true := by simp [isSame]

end Rule

end LinearGrammar
