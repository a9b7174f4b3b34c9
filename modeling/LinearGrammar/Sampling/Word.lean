import LinearGrammar.Grammar.Basic
import LinearGrammar.Sampling.Draws
import LinearGrammar.Text.Natural

/-!
# Sampling words

A word is sampled by expanding the leftmost nonterminal of a form, beginning with the start symbol,
until no nonterminal is left. The expansion depth of the grammar bounds the number of expansions, and
is itself bounded, because every form on the way is kept. A form in which no rule can go on fails
at once; running into the bound is bad luck, and is tried again a few times. How many words are sampled
is bounded only by what a list can hold.
-/

namespace LinearGrammar

/-- The largest expansion depth that is sampled. -/
def depthLimit : Nat := 1000

/-- How often a word is tried before it is given up. -/
def attemptLimit : Nat := 16

/-- The most samples that room can be reserved for, at 48 bytes each and less than 2 ^ 63 bytes in all.
Whether so much memory is there is not asked. -/
def sampleCapacity : Nat := (Nat.pow 2 63 - 1) / 48

/-- Why no word could be sampled. -/
inductive SampleError where
  | noStart
  /-- No rule has this nonterminal as its head. -/
  | undefinedNonterminal (symbol : String)
  /-- The expansion depth is no machine natural. -/
  | invalidLevels (text : String)
  /-- A nonterminal was left after as many expansions as the depth allows. -/
  | depthExhausted (depth : Nat)
  | tooDeep (depth : Nat)
  deriving DecidableEq, Repr

def SampleError.message : SampleError → String
  | .noStart => "No axiom to start from"
  | .undefinedNonterminal symbol => "No rule for nonterminal `" ++ symbol ++ "`"
  | .invalidLevels text => "Expansion depth `" ++ text ++ "` is not a number"
  | .depthExhausted depth => "No word reached within " ++ toString depth ++ " expansions"
  | .tooDeep depth =>
    "Expansion depth " ++ toString depth ++ " is over the sampling limit of " ++
      toString depthLimit

/-- A word with the forms that led to it, from the start symbol to the word itself. -/
structure Sample where
  word : String
  forms : List String
  deriving DecidableEq, Repr

/-- A form: the symbols of a text that may still hold nonterminals. -/
abbrev Form := List String

namespace Grammar

def depth (g : Grammar) : Except SampleError Nat :=
  match Text.natural? g.levels with
  | none => .error (.invalidLevels g.levels)
  | some depth => if depthLimit < depth then .error (.tooDeep depth) else .ok depth

/-- What stands before the leftmost nonterminal of a form, that nonterminal, and what stands after
it. -/
def leftmost (g : Grammar) (form : Form) : Option (Form × String × Form) :=
  match form.dropWhile (!g.nonterminals.contains ·) with
  | [] => none
  | symbol :: after => some (form.takeWhile (!g.nonterminals.contains ·), symbol, after)

def rulesFor (g : Grammar) (symbol : String) : List Rule := g.rules.filter (·.head == symbol)

/-- The forms that follow a form, up to the first one without a nonterminal. `budget` is the number of
expansions that the depth still allows. -/
def expand (g : Grammar) (depth : Nat) :
    Nat → Form → Draws → Except SampleError (List Form) × Draws
  | budget, form, d =>
    match g.leftmost form with
    | none => (.ok [], d)
    | some (before, symbol, after) =>
      match budget with
      | 0 => (.error (.depthExhausted depth), d)
      | budget + 1 =>
        match d.choose (g.rulesFor symbol) with
        | (none, d) => (.error (.undefinedNonterminal symbol), d)
        | (some r, d) =>
          let next := before ++ r.body ++ after
          match g.expand depth budget next d with
          | (.ok forms, d) => (.ok (next :: forms), d)
          | (.error e, d) => (.error e, d)

/-- The sample that a derivation from `first` through `rest` gives. -/
def sampleOf (first : Form) (rest : List Form) : Sample where
  word := String.join ((first :: rest).getLast (by simp))
  forms := (first :: rest).map String.join

def generate (g : Grammar) (d : Draws) : Except SampleError Sample × Draws :=
  match g.start, g.depth with
  | none, _ => (.error .noStart, d)
  | some _, .error e => (.error e, d)
  | some symbol, .ok depth =>
    match g.expand depth depth [symbol] d with
    | (.ok forms, d) => (.ok (sampleOf [symbol] forms), d)
    | (.error e, d) => (.error e, d)

/-- What came of trying for a word: a word, an exhausted depth each time, or an error that trying
again would not mend. -/
inductive Attempt where
  | found (s : Sample)
  | givenUp (e : SampleError)
  | failed (e : SampleError)
  deriving DecidableEq, Repr

/-- Tries for a word once, and then `again` times more while the depth is exhausted. -/
def attempt (g : Grammar) : Nat → Draws → Attempt × Draws
  | again, d =>
    match g.generate d with
    | (.ok s, d) => (.found s, d)
    | (.error (.depthExhausted depth), d) =>
      match again with
      | 0 => (.givenUp (.depthExhausted depth), d)
      | again + 1 => g.attempt again d
    | (.error e, d) => (.failed e, d)

/-- Goes on sampling `amount` words after those found already. A word that was given up is skipped,
unless none was found before it. -/
def sampleAfter (g : Grammar) (found : List Sample) :
    Nat → Draws → Except SampleError (List Sample) × Draws
  | 0, d => (.ok found, d)
  | amount + 1, d =>
    match g.attempt (attemptLimit - 1) d with
    | (.found s, d) => g.sampleAfter (found ++ [s]) amount d
    | (.givenUp e, d) => if found.isEmpty then (.error e, d) else g.sampleAfter found amount d
    | (.failed e, d) => (.error e, d)

/-- Samples up to `amount` words. Room for all of them is reserved first. Where that cannot be there is
nothing to run, and the program breaks off without a draw. -/
def sample (g : Grammar) (amount : Nat) :
    Option (Draws → Except SampleError (List Sample) × Draws) :=
  if amount ≤ sampleCapacity then some (g.sampleAfter [] amount) else none

end Grammar

end LinearGrammar
