import LinearGrammar.Json.Numeral

/-!
# JSON values and how they are written

The members of an object are kept in the order in which they are written. A value that was read has
its members sorted by key, each key once; a payload has its members in the order of its fields.
Both written forms, the compact one and the one indented by two blanks, are lists of characters.
-/

namespace LinearGrammar

inductive Json where
  | null
  | bool (b : Bool)
  | num (n : Number)
  | str (s : String)
  | arr (items : List Json)
  | obj (members : List (String × Json))
  deriving Repr

namespace Json

def get? (key : String) : Json → Option Json
  | .obj members => members.lookup key
  | _ => none

def texts (l : List String) : Json := .arr (l.map .str)

/-! ## Strings -/

def hexDigit (n : Nat) : Char := Char.ofNat (if n < 10 then '0'.toNat + n else 'a'.toNat + (n - 10))

/-- A character inside a written string. Only the quote, the backslash and the control characters
below the blank are escaped. -/
def escape (c : Char) : List Char :=
  if c = '"' then ['\\', '"']
  else if c = '\\' then ['\\', '\\']
  else if c = '\x08' then ['\\', 'b']
  else if c = '\x0c' then ['\\', 'f']
  else if c = '\n' then ['\\', 'n']
  else if c = '\r' then ['\\', 'r']
  else if c = '\t' then ['\\', 't']
  else if c.toNat < 0x20 then
    ['\\', 'u', '0', '0', hexDigit (c.toNat / 16), hexDigit (c.toNat % 16)]
  else [c]

def quote (s : String) : List Char := '"' :: (s.toList.flatMap escape ++ ['"'])

/-! ## Compact text -/

def nullText : List Char := ['n', 'u', 'l', 'l']

def boolText : Bool → List Char
  | true => ['t', 'r', 'u', 'e']
  | false => ['f', 'a', 'l', 's', 'e']

mutual

/-- The compact text, without any blank between tokens. -/
def compactChars : Json → List Char
  | .null => nullText
  | .bool b => boolText b
  | .num n => n.text
  | .str s => quote s
  | .arr [] => ['[', ']']
  | .arr (item :: rest) => '[' :: (compactChars item ++ compactItems rest)
  | .obj [] => ['{', '}']
  | .obj ((key, value) :: rest) =>
    '{' :: (quote key ++ ':' :: (compactChars value ++ compactMembers rest))

/-- The further items of an array, and its end. -/
def compactItems : List Json → List Char
  | [] => [']']
  | item :: rest => ',' :: (compactChars item ++ compactItems rest)

/-- The further members of an object, and its end. -/
def compactMembers : List (String × Json) → List Char
  | [] => ['}']
  | (key, value) :: rest =>
    ',' :: (quote key ++ ':' :: (compactChars value ++ compactMembers rest))

end

/-! ## Pretty text -/

/-- A line end and the indentation of a depth. -/
def newline (depth : Nat) : List Char := '\n' :: List.replicate (2 * depth) ' '

mutual

/-- The text with every item and every member on a line of its own, at the given depth. -/
def prettyChars (depth : Nat) : Json → List Char
  | .null => nullText
  | .bool b => boolText b
  | .num n => n.text
  | .str s => quote s
  | .arr [] => ['[', ']']
  | .arr (item :: rest) =>
    '[' :: (newline (depth + 1) ++ (prettyChars (depth + 1) item ++ prettyItems depth rest))
  | .obj [] => ['{', '}']
  | .obj ((key, value) :: rest) =>
    '{' :: (newline (depth + 1) ++
      (quote key ++ ':' :: ' ' :: (prettyChars (depth + 1) value ++ prettyMembers depth rest)))

/-- The further items of an array, and its end. -/
def prettyItems (depth : Nat) : List Json → List Char
  | [] => newline depth ++ [']']
  | item :: rest =>
    ',' :: (newline (depth + 1) ++ (prettyChars (depth + 1) item ++ prettyItems depth rest))

/-- The further members of an object, and its end. -/
def prettyMembers (depth : Nat) : List (String × Json) → List Char
  | [] => newline depth ++ ['}']
  | (key, value) :: rest =>
    ',' :: (newline (depth + 1) ++
      (quote key ++ ':' :: ' ' :: (prettyChars (depth + 1) value ++ prettyMembers depth rest)))

end

def compact (v : Json) : String := String.ofList v.compactChars

def pretty (v : Json) : String := String.ofList (v.prettyChars 0)

end Json

end LinearGrammar
