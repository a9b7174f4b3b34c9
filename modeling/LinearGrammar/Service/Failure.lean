/-!
# Failed requests

A request to the grammar service fails in one of three ways. The workbench stays usable after any of
them.
-/

namespace LinearGrammar

/-- Why a request brought no answer. -/
inductive ServiceFailure where
  | network (detail : String)
  /-- The response has a status other than success. -/
  | status (code : Nat)
  /-- The response cannot be read, or makes no sense. -/
  | body (detail : String)
  deriving DecidableEq, Repr

abbrev Outcome (α : Type) := Except ServiceFailure α

def ServiceFailure.message : ServiceFailure → String
  | .network detail => "Could not reach the grammar service: " ++ detail
  | .status code => "Grammar service answered with status " ++ toString code
  | .body detail => "Unreadable answer from the grammar service: " ++ detail

end LinearGrammar
