/-!
# Machine naturals

Amounts, depths and timeouts are written in ASCII digits with at most one plus sign in front, with
as many leading zeros as one likes, and have to fit in 64 bits. Every other text is refused.
-/

namespace LinearGrammar.Text

/-- The first natural that a machine word cannot hold. -/
def wordLimit : Nat := Nat.pow 2 64

def digitValue (c : Char) : Nat := c.toNat - '0'.toNat

/-- The value of a list of ASCII digits. -/
def digitsValue (digits : List Char) : Nat :=
  digits.foldl (fun value c => value * 10 + digitValue c) 0

/-- Reads one or more ASCII digits whose value fits in 64 bits. -/
def naturalOfDigits? (digits : List Char) : Option Nat :=
  if digits.isEmpty || !digits.all Char.isDigit then none
  else if digitsValue digits < wordLimit then some (digitsValue digits)
  else none

/-- Reads a machine natural, with or without a plus sign. -/
def natural? (text : String) : Option Nat :=
  match text.toList with
  | '+' :: digits => naturalOfDigits? digits
  | digits => naturalOfDigits? digits

theorem naturalOfDigits?_lt {digits : List Char} {n : Nat} (h : naturalOfDigits? digits = some n) :
    n < wordLimit := by
  unfold naturalOfDigits? at h
  split at h
  · simp at h
  · split at h
    · rename_i hlt
      simp only [Option.some.injEq] at h
      omega
    · simp at h

end LinearGrammar.Text
