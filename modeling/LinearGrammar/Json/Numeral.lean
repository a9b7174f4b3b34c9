import LinearGrammar.Json.Double
import LinearGrammar.Text.Natural

/-!
# The value of a JSON number

A numeral without a fraction and an exponent that fits a 64-bit word, signed or unsigned, is an
integer. All others are doubles, `-0` included, because integers have no negative zero. Of the digits
of a long numeral only those count that fit in 64 bits together; digits of the whole part that come
after them still move the point. A numeral too large for a double has no value.
-/

namespace LinearGrammar

inductive Number where
  | int (n : Int)
  | real (x : Double)
  deriving DecidableEq, Repr

/-- The parts of a numeral, as digits. -/
structure Numeral where
  negative : Bool
  whole : List Char
  fraction : List Char
  exponentNegative : Bool
  exponent : List Char
  /-- Written with a point or an exponent. -/
  isReal : Bool
  deriving DecidableEq, Repr

namespace Numeral

/-- Takes digits into a significand while it fits in 64 bits: the significand, and how many digits were
taken. -/
def take (significand : Nat) : List Char → Nat × Nat
  | [] => (significand, 0)
  | c :: rest =>
    let next := significand * 10 + Text.digitValue c
    if next < Text.wordLimit then
      let (significand, count) := take next rest
      (significand, count + 1)
    else (significand, 0)

/-- Splits the text of a number, which is known to be well formed, into its parts. -/
def ofText (text : List Char) : Numeral :=
  let (negative, text) :=
    match text with
    | '-' :: rest => (true, rest)
    | _ => (false, text)
  let whole := text.takeWhile Char.isDigit
  let text := text.dropWhile Char.isDigit
  let (fraction, text, point) :=
    match text with
    | '.' :: rest => (rest.takeWhile Char.isDigit, rest.dropWhile Char.isDigit, true)
    | _ => ([], text, false)
  match text with
  | [] => ⟨negative, whole, fraction, false, [], point⟩
  | _ :: '-' :: digits => ⟨negative, whole, fraction, true, digits, true⟩
  | _ :: '+' :: digits => ⟨negative, whole, fraction, false, digits, true⟩
  | _ :: digits => ⟨negative, whole, fraction, false, digits, true⟩

/-- The value of a numeral, or none if it is too large for a double. -/
def number? (n : Numeral) : Option Number :=
  let (significand, taken) := take 0 n.whole
  let dropped := n.whole.length - taken
  let real := fun (significand : Nat) (exponent : Int) =>
    (Magnitude.ofParts? significand exponent).map fun m => Number.real ⟨n.negative, m⟩
  if n.isReal then
    let (significand, places) := take significand n.fraction
    let power : Int := Text.digitsValue n.exponent
    real significand (dropped - places + if n.exponentNegative then -power else power)
  else if 0 < dropped then real significand dropped
  else if n.negative then
    if significand = 0 || Nat.pow 2 63 < significand then real significand 0
    else some (.int (-significand))
  else some (.int significand)

end Numeral

namespace Number

def text : Number → List Char
  | .int (.ofNat n) => Nat.toDigits 10 n
  | .int (.negSucc n) => '-' :: Nat.toDigits 10 (n + 1)
  | .real x => x.text

end Number

end LinearGrammar
