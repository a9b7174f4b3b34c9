/-!
# Blank characters

Blanks are the code points with the Unicode property `White_Space`, and nothing else: the
zero-width space is none, the ideographic space is one. Symbols, words, rule lines and commands all
cut and clean their text with the four functions of this module, each defined on a list of
characters and lifted to `String`.
-/

namespace LinearGrammar.Text

/-- The ranges of the Unicode property `White_Space`, both ends included. -/
def blankRanges : List (Nat × Nat) :=
  [(0x09, 0x0D), (0x20, 0x20), (0x85, 0x85), (0xA0, 0xA0), (0x1680, 0x1680), (0x2000, 0x200A),
   (0x2028, 0x2029), (0x202F, 0x202F), (0x205F, 0x205F), (0x3000, 0x3000)]

/-- A character that separates symbols and is dropped at the ends of a text. -/
def isBlank (c : Char) : Bool :=
  blankRanges.any fun (low, high) => low ≤ c.toNat && c.toNat ≤ high

/-- A character that may stand in a symbol. -/
def isInk (c : Char) : Bool := !isBlank c

/-- The characters without the blanks at either end. -/
def trimChars (cs : List Char) : List Char :=
  ((cs.dropWhile isBlank).reverse.dropWhile isBlank).reverse

/-- The text without the blanks at either end. -/
def trim (text : String) : String := String.ofList (trimChars text.toList)

/-- The text without any of its blanks. -/
def squeeze (text : String) : String := String.ofList (text.toList.filter isInk)

/-- A text with a blank somewhere in it. -/
def hasBlank (text : String) : Bool := text.toList.any isBlank

@[simp] theorem toList_trim (text : String) : (trim text).toList = trimChars text.toList :=
  String.toList_ofList

@[simp] theorem toList_squeeze (text : String) :
    (squeeze text).toList = text.toList.filter isInk :=
  String.toList_ofList

end LinearGrammar.Text
