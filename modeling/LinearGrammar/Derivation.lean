import LinearGrammar.EditError
import LinearGrammar.Service.Failure
import LinearGrammar.Service.Payload
import LinearGrammar.Text.Blank

/-!
# The word under test

A word is typed in and checked by the service, and the answer may come late or never. Each accepted
edit of the word gets a number of its own; an answer carries the number of the edit that asked for it
and is dropped unless that edit is the last one and still waits. So the verdict shown always belongs
to the word shown.
-/

namespace LinearGrammar

/-- A check to be sent for a word. Its answer comes back with the same number. Numbers are naturals
here; where they are machine words, fewer than 2 ^ 64 accepted edits of the word are assumed. -/
structure Ticket where
  seq : Nat
  word : String
  deriving DecidableEq, Repr

/-- One step of a derivation: the rule applied and the form it led to. -/
structure DerivationStep where
  rule : WireRule
  form : String
  deriving DecidableEq, Repr

structure Derivation where
  root : String
  steps : List DerivationStep
  deriving DecidableEq, Repr

/-- The derivation that an answer tells. The rules and the forms have to be as many. -/
def Derivation.ofResponse (r : CheckResponse) : Except ServiceFailure Derivation :=
  if r.derivationSteps.length = r.derivativeProducts.length then
    .ok ⟨r.axiomaticSymbol, List.zipWith .mk r.derivativeProducts r.derivationSteps⟩
  else
    .error (.body (toString r.derivationSteps.length ++ " derivation steps for " ++
      toString r.derivativeProducts.length ++ " applied rules"))

/-- What is known of the word under test. -/
inductive Verdict where
  | idle
  /-- The check with this number is on its way. -/
  | pending (seq : Nat)
  | member (d : Derivation)
  | nonMember
  | failed (e : ServiceFailure)
  deriving DecidableEq, Repr

/-- The verdict of an outcome. An answer without steps says that the word is no member. -/
def Verdict.ofOutcome (outcome : Outcome CheckResponse) : Verdict :=
  match outcome.bind Derivation.ofResponse with
  | .error e => .failed e
  | .ok d => if d.steps.isEmpty then .nonMember else .member d

/-- The word under test, how often it was edited, and what is known of it. Of the edits there are fewer
than 2 ^ 64 where they are counted in a machine word. -/
structure WordView where
  query : String
  latest : Nat
  verdict : Verdict
  deriving DecidableEq, Repr

namespace WordView

def initial : WordView := ⟨"", 0, .idle⟩

/-- Whether an answer is awaited. -/
def isPending (v : WordView) : Bool :=
  match v.verdict with
  | .pending _ => true
  | _ => false

/-- Replaces the word. A word with a blank is refused; the empty word asks for no check. -/
def setQuery (v : WordView) (text : String) : Except EditError (Option Ticket × WordView) :=
  if Text.hasBlank text then .error .blankInWord
  else
    let seq := v.latest + 1
    if text.isEmpty then .ok (none, ⟨text, seq, .idle⟩)
    else .ok (some ⟨seq, text⟩, ⟨text, seq, .pending seq⟩)

/-- Takes the answer to the check with the given number. The flag says whether it was awaited; one
that was not changes nothing. -/
def apply (v : WordView) (seq : Nat) (outcome : Outcome CheckResponse) : Bool × WordView :=
  if seq = v.latest && v.isPending then (true, { v with verdict := .ofOutcome outcome })
  else (false, v)

def stepLine (s : DerivationStep) : String :=
  "  → " ++ s.rule.nonTerminalSymbol ++ " → " ++ s.rule.symbolProduced ++ "    " ++ s.form

def lines (v : WordView) : List String :=
  match v.verdict with
  | .idle => []
  | .pending _ => ["checking " ++ v.query ++ " ..."]
  | .member d => d.root :: (d.steps.map stepLine ++ [v.query ++ " ∈ L(G)"])
  | .nonMember => [v.query ++ " ∉ L(G)"]
  | .failed _ => [v.query ++ " ?"]

end WordView

end LinearGrammar
