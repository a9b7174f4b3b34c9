import LinearGrammar.Rule.Basic
import LinearGrammar.Rule.Body

/-!
# Valid rules

An edit of the alphabets never touches the rules that were entered before it. Whether a rule still
matches is looked up whenever it matters, so a rule may break and be whole again.
-/

namespace LinearGrammar.Rule

/-- Whether a stored rule still matches the alphabets. The head is looked at first. -/
def check (terminals nonterminals : Alphabet) (r : Rule) : Except EditError Unit :=
  if nonterminals.contains r.head then Body.check terminals nonterminals r.body
  else .error (.unknownHead r.head)

def isValid (terminals nonterminals : Alphabet) (r : Rule) : Bool :=
  (r.check terminals nonterminals).isOk

/-- The rules that do not match the alphabets, each with what is wrong with it. -/
def invalid (terminals nonterminals : Alphabet) (rules : List Rule) : List (Rule × EditError) :=
  rules.filterMap fun r =>
    match r.check terminals nonterminals with
    | .ok () => none
    | .error e => some (r, e)

/-- The rules that are reported are those that are not valid, in order. -/
theorem map_fst_invalid (terminals nonterminals : Alphabet) (rules : List Rule) :
    (invalid terminals nonterminals rules).map Prod.fst =
      rules.filter (!·.isValid terminals nonterminals) := by
  induction rules with
  | nil => rfl
  | cons r rest ih =>
      rw [invalid, List.filterMap_cons]
      cases hcheck : r.check terminals nonterminals with
      | ok =>
          have hvalid : r.isValid terminals nonterminals = true := by
            rw [isValid, hcheck]
            rfl
          rw [List.filter_cons_of_neg (by simp [hvalid])]
          exact ih
      | error e =>
          have hinvalid : r.isValid terminals nonterminals = false := by
            rw [isValid, hcheck]
            rfl
          rw [List.filter_cons_of_pos (by simp [hinvalid])]
          exact congrArg (r :: ·) ih

end LinearGrammar.Rule
