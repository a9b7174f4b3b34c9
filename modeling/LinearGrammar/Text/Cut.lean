import LinearGrammar.Text.Blank

/-!
# Cutting a text into pieces

`splitWhere` cuts at every character of a class and keeps the empty pieces between two neighbours;
words and alternatives are read through it. `cutLast` cuts once, at the last place where a
separator stands.
-/

namespace LinearGrammar.Text

/-- The pieces between the characters that satisfy `p`. A text with `n` of them has `n + 1` pieces,
empty ones included. -/
def splitWhere (p : Char → Bool) : List Char → List (List Char)
  | [] => [[]]
  | c :: cs =>
    if p c then [] :: splitWhere p cs
    else
      match splitWhere p cs with
      | [] => [[c]]
      | piece :: pieces => (c :: piece) :: pieces

/-- The text before and after the last place where `separator` stands. -/
def cutLast (separator : List Char) : List Char → Option (List Char × List Char)
  | [] => none
  | c :: cs =>
    match cutLast separator cs with
    | some (before, after) => some (c :: before, after)
    | none =>
      if separator.isPrefixOf (c :: cs) then some ([], (c :: cs).drop separator.length) else none

/-- The pieces between the occurrences of one character. -/
def splitOn (separator : Char) (text : String) : List String :=
  (splitWhere (· == separator) text.toList).map String.ofList

/-- The maximal runs of characters that are not blank. -/
def words (text : String) : List String :=
  ((splitWhere isBlank text.toList).filter (!·.isEmpty)).map String.ofList

/-- The text up to the first blank, and what follows that blank. Without a blank nothing follows. -/
def cutBlank (text : String) : String × String :=
  let cs := text.toList
  (String.ofList (cs.takeWhile isInk), String.ofList ((cs.dropWhile isInk).drop 1))

theorem splitWhere_ne_nil (p : Char → Bool) (cs : List Char) : splitWhere p cs ≠ [] := by
  cases cs with
  | nil => simp [splitWhere]
  | cons c cs =>
    simp only [splitWhere]
    split
    · simp
    · split <;> simp

end LinearGrammar.Text
