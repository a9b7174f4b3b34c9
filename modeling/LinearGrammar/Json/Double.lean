/-!
# Doubles as exact numbers

JSON numbers that are no 64-bit integers are held as finite binary floating-point numbers of 53 bits.
Here such a number is a sign, a mantissa and a power of two, all exact, and rounding a fraction to
the nearest one is integer arithmetic. The text of a double is the shortest decimal that is nearer
to it than to any other double.
-/

namespace LinearGrammar

/-- The size of a double: `mantissa * 2 ^ exponent`. -/
structure Magnitude where
  mantissa : Nat
  exponent : Int
  deriving DecidableEq, Repr

/-- A finite double. Zero has a sign too. -/
structure Double where
  negative : Bool
  magnitude : Magnitude
  deriving DecidableEq, Repr

namespace Magnitude

def leastExponent : Int := -1074

def greatestExponent : Int := 971

def zero : Magnitude := ⟨0, leastExponent⟩

/-- A fraction whose value is `numerator / denominator * 2 ^ shift`. -/
def shifted (numerator denominator : Nat) (shift : Int) : Nat × Nat :=
  (numerator * Nat.pow 2 shift.toNat, denominator * Nat.pow 2 (-shift).toNat)

/-- The power of two of the mantissa's last place for a fraction: as small as 53 bits allow. -/
def placeOf (numerator denominator : Nat) : Int :=
  let estimate : Int := (numerator.log2 : Int) - (denominator.log2 : Int) - 53
  let (n, d) := shifted numerator denominator (-estimate)
  let place := if n / d < Nat.pow 2 53 then estimate else estimate + 1
  max place leastExponent

/-- The double nearest to a fraction, a tie going to the even mantissa. None if it is too large. -/
def nearest? (numerator denominator : Nat) : Option Magnitude :=
  if numerator = 0 then some zero
  else
    let place := placeOf numerator denominator
    let (n, d) := shifted numerator denominator (-place)
    let q := n / d
    let twice := 2 * (n % d)
    let q := if d < twice || (twice == d && q % 2 == 1) then q + 1 else q
    let m : Magnitude := if q = Nat.pow 2 53 then ⟨Nat.pow 2 52, place + 1⟩ else ⟨q, place⟩
    if greatestExponent < m.exponent then none else some m

def numerator (m : Magnitude) : Nat := m.mantissa * Nat.pow 2 m.exponent.toNat

def denominator (m : Magnitude) : Nat := Nat.pow 2 (-m.exponent).toNat

def mul? (a b : Magnitude) : Option Magnitude :=
  nearest? (a.numerator * b.numerator) (a.denominator * b.denominator)

def div? (a b : Magnitude) : Option Magnitude :=
  nearest? (a.numerator * b.denominator) (a.denominator * b.numerator)

def powerOfTen? (n : Nat) : Option Magnitude := nearest? (Nat.pow 10 n) 1

def greatestPowerOfTen : Nat := 308

/-- Divides by the largest power of ten again and again, each quotient being rounded. -/
def divideTimes : Nat → Magnitude → Option Magnitude
  | 0, m => some m
  | times + 1, m =>
    if m.mantissa = 0 then some m
    else ((powerOfTen? greatestPowerOfTen).bind m.div?).bind (divideTimes times)

/-- Divides by a power of ten, by the largest one as often as it takes to come down to one that a
double can hold. -/
def scaleDown (m : Magnitude) (n : Nat) : Option Magnitude :=
  let times := (n - 1) / greatestPowerOfTen
  (m.divideTimes times).bind fun m =>
    (powerOfTen? (n - times * greatestPowerOfTen)).bind m.div?

/-- Multiplies by a power of ten, which is rounded and so is the product. None if either is too
large. -/
def scaleUp (m : Magnitude) (n : Nat) : Option Magnitude :=
  if n ≤ greatestPowerOfTen then (powerOfTen? n).bind m.mul?
  else if m.mantissa = 0 then some m
  else none

/-- The double read from `significand * 10 ^ exponent`. The significand is rounded before it is
scaled, so the outcome may be a last place off the nearest double. -/
def ofParts? (significand : Nat) (exponent : Int) : Option Magnitude :=
  match nearest? significand 1 with
  | none => none
  | some m => if 0 ≤ exponent then m.scaleUp exponent.toNat else m.scaleDown (-exponent).toNat

/-! ## Shortest digits -/

/-- The number of decimal digits, none for zero. -/
def digitCount (n : Nat) : Nat := if n = 0 then 0 else (Nat.toDigits 10 n).length

/-- The place of the first digit of a positive fraction: the least `k` with the fraction below
`10 ^ k`. -/
def decimalPlace (numerator denominator : Nat) : Int :=
  if denominator ≤ numerator then digitCount (numerator / denominator)
  else 1 - (digitCount ((denominator + numerator - 1) / numerator - 1) : Int)

/-- A fraction, and the ends of the stretch of fractions that round to the same double, as numerators
over one denominator. -/
structure Stretch where
  low : Nat
  value : Nat
  high : Nat
  denominator : Nat
  /-- Whether the ends themselves round to the double too. -/
  isClosed : Bool
  deriving DecidableEq, Repr

/-- The stretch of a positive double. It ends half way to either neighbour, and below a power of two
the neighbour is half as far. A tie goes to the even mantissa, so the ends belong to that one. -/
def stretch (m : Magnitude) : Stretch :=
  let scale := Nat.pow 2 m.exponent.toNat
  let below := if m.mantissa = Nat.pow 2 52 && leastExponent < m.exponent then 1 else 2
  ⟨(4 * m.mantissa - below) * scale, 4 * m.mantissa * scale, (4 * m.mantissa + 2) * scale,
    4 * m.denominator, m.mantissa % 2 == 0⟩

def Stretch.contains (s : Stretch) (numerator denominator : Nat) : Bool :=
  let scaled := numerator * s.denominator
  if s.isClosed then s.low * denominator ≤ scaled && scaled ≤ s.high * denominator
  else s.low * denominator < scaled && scaled < s.high * denominator

/-- A decimal with few digits: `digits * 10 ^ exponent`. -/
structure Decimal where
  digits : Nat
  exponent : Int
  deriving DecidableEq, Repr

/-- The decimal with `count` digits at most that is nearest to the double and rounds to it. Of two
that are equally near, the even one is taken. -/
def decimalWith (m : Magnitude) (count : Nat) : Option Decimal :=
  let s := m.stretch
  let exponent := decimalPlace s.value s.denominator - count
  let up := Nat.pow 10 exponent.toNat
  let down := Nat.pow 10 (-exponent).toNat
  let floor := s.value * down / (s.denominator * up)
  let gapBelow := s.value * down - floor * up * s.denominator
  let gapAbove := (floor + 1) * up * s.denominator - s.value * down
  let takesLower := floor != 0 && s.contains (floor * up) down
  let takesUpper := s.contains ((floor + 1) * up) down
  let lowerIsNearer := gapBelow < gapAbove || (gapBelow == gapAbove && floor % 2 == 0)
  if takesLower && (lowerIsNearer || !takesUpper) then some ⟨floor, exponent⟩
  else if takesUpper then some ⟨floor + 1, exponent⟩
  else none

/-- The shortest decimal that rounds to a positive double; seventeen digits always suffice. -/
def shortest (m : Magnitude) : Decimal :=
  ((List.range 17).findSome? fun count => m.decimalWith (count + 1)).getD ⟨m.mantissa, m.exponent⟩

end Magnitude

/-! ## Text -/

/-- Where positional notation ends. -/
structure DoubleFormat where
  /-- The least power of ten of the first digit that is written positionally. -/
  least : Int
  /-- The greatest power of ten of the first digit that is written positionally. -/
  greatest : Int

/-- Doubles are positional from `0.00001` up to sixteen digits before the point. -/
def DoubleFormat.json : DoubleFormat := ⟨-5, 15⟩

namespace Double

/-- Digits with a point after `before` of them, padded with zeros, and one digit at least on either
side of the point. -/
def positional (digits : List Char) (before : Int) : List Char :=
  if before ≤ 0 then '0' :: '.' :: (List.replicate (-before).toNat '0' ++ digits)
  else
    let whole := digits.take before.toNat
    let padded := whole ++ List.replicate (before.toNat - whole.length) '0'
    let fraction := digits.drop before.toNat
    padded ++ '.' :: (if fraction.isEmpty then ['0'] else fraction)

/-- Digits with a point after the first of them, and a power of ten. -/
def scientific (digits : List Char) (power : Int) : List Char :=
  let fraction := digits.drop 1
  digits.take 1 ++ (if fraction.isEmpty then [] else '.' :: fraction) ++
    'e' :: (if power < 0 then '-' else '+') :: Nat.toDigits 10 power.natAbs

/-- The zeros at the end of a number say nothing and are left out. -/
def significant (digits : List Char) : List Char :=
  (digits.reverse.dropWhile (· == '0')).reverse

def magnitudeText (format : DoubleFormat) (m : Magnitude) : List Char :=
  if m.mantissa = 0 then ['0', '.', '0']
  else
    let decimal := m.shortest
    let all := Nat.toDigits 10 decimal.digits
    let digits := significant all
    let power := decimal.exponent + all.length - 1
    if format.least ≤ power && power ≤ format.greatest then positional digits (power + 1)
    else scientific digits power

def text (x : Double) : List Char :=
  if x.negative then '-' :: magnitudeText .json x.magnitude else magnitudeText .json x.magnitude

end Double

end LinearGrammar
