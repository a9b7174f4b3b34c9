import LinearGrammar.Json.Numeral
import LinearGrammar.Text.Utf8

/-!
# JSON tokens

A text is read one character at a time by an automaton that hands out tokens. The first character that
fits nowhere becomes the token `bad`, and nothing is handed out after it: whoever reads the tokens can
tell a mistake of meaning before that place from a mistake of form at it.

A string may hold escaped halves of surrogate pairs. Two halves that belong together are one
character; a string with a half on its own is a token without a text, which is an error only for
those who need the text. The same goes for a string with a stray byte, one that is part of no
character; anywhere else a stray byte is bad.
-/

namespace LinearGrammar.Json

/-- The smallest parts of a JSON text that mean something. -/
inductive Token where
  | openArray
  | closeArray
  | openObject
  | closeObject
  | comma
  | colon
  | null
  | bool (b : Bool)
  /-- A number, without a value if it is too large for a double. -/
  | num (value : Option Number)
  /-- A string, without a text if half of a surrogate pair is missing or a byte is astray. -/
  | str (text : Option String)
  /-- The place where the text stops being JSON. -/
  | bad
  deriving DecidableEq, Repr

/-! ## Strings -/

def isHighHalf (unit : Nat) : Bool := 0xD800 ≤ unit && unit < 0xDC00

def isLowHalf (unit : Nat) : Bool := 0xDC00 ≤ unit && unit < 0xE000

def joinHalves (high low : Nat) : Char :=
  Char.ofNat (0x10000 + (high - 0xD800) * 0x400 + (low - 0xDC00))

/-- What a stray byte counts as: above every code point. -/
def strayUnit : Nat := 0x110000

/-- The characters of code points and halves of surrogate pairs, if no half is on its own and no byte
is astray. -/
def joinUnits : List Nat → Option (List Char)
  | [] => some []
  | [unit] => if unit.isValidChar then some [Char.ofNat unit] else none
  | unit :: next :: rest =>
    if isHighHalf unit && isLowHalf next then (joinUnits rest).map (joinHalves unit next :: ·)
    else if unit.isValidChar then (joinUnits (next :: rest)).map (Char.ofNat unit :: ·)
    else none

def hexValue? (c : Char) : Option Nat :=
  if '0' ≤ c && c ≤ '9' then some (c.toNat - '0'.toNat)
  else if 'a' ≤ c && c ≤ 'f' then some (c.toNat - 'a'.toNat + 10)
  else if 'A' ≤ c && c ≤ 'F' then some (c.toNat - 'A'.toNat + 10)
  else none

/-- What a backslash and this letter stand for. -/
def unescape? (c : Char) : Option Nat :=
  if c = '"' then some '"'.toNat
  else if c = '\\' then some '\\'.toNat
  else if c = '/' then some '/'.toNat
  else if c = 'b' then some 0x08
  else if c = 'f' then some 0x0C
  else if c = 'n' then some 0x0A
  else if c = 'r' then some 0x0D
  else if c = 't' then some 0x09
  else none

/-! ## Numbers -/

/-- How far a number has been read. -/
inductive NumberPhase where
  /-- After the minus sign: a digit has to come. -/
  | minus
  /-- After a leading zero: no digit may come. -/
  | zero
  | whole
  /-- After the point: a digit has to come. -/
  | point
  | fraction
  /-- After the `e`: a sign or a digit has to come. -/
  | mark
  /-- After the sign of the exponent: a digit has to come. -/
  | sign
  | exponent
  deriving DecidableEq, Repr

/-- What the next character does to a number. -/
inductive NumberStep where
  | goOn (phase : NumberPhase)
  | stop
  | bad
  deriving DecidableEq, Repr

def NumberPhase.step (phase : NumberPhase) (c : Char) : NumberStep :=
  let isMark := c == 'e' || c == 'E'
  let isSign := c == '+' || c == '-'
  match phase with
  | .minus => if c == '0' then .goOn .zero else if c.isDigit then .goOn .whole else .bad
  | .zero =>
    if c.isDigit then .bad
    else if c == '.' then .goOn .point
    else if isMark then .goOn .mark
    else .stop
  | .whole =>
    if c.isDigit then .goOn .whole
    else if c == '.' then .goOn .point
    else if isMark then .goOn .mark
    else .stop
  | .point => if c.isDigit then .goOn .fraction else .bad
  | .fraction => if c.isDigit then .goOn .fraction else if isMark then .goOn .mark else .stop
  | .mark => if c.isDigit then .goOn .exponent else if isSign then .goOn .sign else .bad
  | .sign => if c.isDigit then .goOn .exponent else .bad
  | .exponent => if c.isDigit then .goOn .exponent else .stop

/-- Whether a number may end here. -/
def NumberPhase.isComplete : NumberPhase → Bool
  | .zero | .whole | .fraction | .exponent => true
  | .minus | .point | .mark | .sign => false

/-- The token of a number whose characters were collected backwards. -/
def numberToken (reversed : List Char) : Token := .num (Numeral.ofText reversed.reverse).number?

/-! ## The automaton -/

/-- Where in a token the automaton is. What was read of a string or a number is kept backwards. -/
inductive Scan where
  | between
  /-- Inside a word, with the letters that have to come. -/
  | word (rest : List Char) (token : Token)
  | number (phase : NumberPhase) (reversed : List Char)
  | string (reversed : List Nat)
  | escape (reversed : List Nat)
  /-- Inside a `\u` escape, with the number of digits that have to come and the value so far. -/
  | hex (missing : Nat) (value : Nat) (reversed : List Nat)
  | dead
  deriving DecidableEq, Repr

/-- The next character where a token may begin. -/
def Scan.start (c : Char) : Scan × List Token :=
  if c = ' ' || c = '\t' || c = '\n' || c = '\r' then (.between, [])
  else if c = '[' then (.between, [.openArray])
  else if c = ']' then (.between, [.closeArray])
  else if c = '{' then (.between, [.openObject])
  else if c = '}' then (.between, [.closeObject])
  else if c = ',' then (.between, [.comma])
  else if c = ':' then (.between, [.colon])
  else if c = '"' then (.string [], [])
  else if c = 'n' then (.word ['u', 'l', 'l'] .null, [])
  else if c = 't' then (.word ['r', 'u', 'e'] (.bool true), [])
  else if c = 'f' then (.word ['a', 'l', 's', 'e'] (.bool false), [])
  else if c = '-' then (.number .minus [c], [])
  else if c = '0' then (.number .zero [c], [])
  else if c.isDigit then (.number .whole [c], [])
  else (.dead, [.bad])

/-- The next character, wherever the automaton is. -/
def Scan.step (scan : Scan) (c : Char) : Scan × List Token :=
  match scan with
  | .between => Scan.start c
  | .word [] _ => (.dead, [.bad])
  | .word [letter] token => if c = letter then (.between, [token]) else (.dead, [.bad])
  | .word (letter :: rest) token => if c = letter then (.word rest token, []) else (.dead, [.bad])
  | .number phase reversed =>
    match phase.step c with
    | .goOn phase => (.number phase (c :: reversed), [])
    | .stop =>
      let (scan, tokens) := Scan.start c
      (scan, numberToken reversed :: tokens)
    | .bad => (.dead, [.bad])
  | .string reversed =>
    if c = '"' then (.between, [.str ((joinUnits reversed.reverse).map String.ofList)])
    else if c = '\\' then (.escape reversed, [])
    else if c.toNat < 0x20 then (.dead, [.bad])
    else (.string (c.toNat :: reversed), [])
  | .escape reversed =>
    if c = 'u' then (.hex 4 0 reversed, [])
    else
      match unescape? c with
      | some unit => (.string (unit :: reversed), [])
      | none => (.dead, [.bad])
  | .hex missing value reversed =>
    match hexValue? c with
    | none => (.dead, [.bad])
    | some digit =>
      let value := value * 16 + digit
      if missing ≤ 1 then (.string (value :: reversed), [])
      else (.hex (missing - 1) value reversed, [])
  | .dead => (.dead, [])

/-- The next byte, if it is part of no character. Outside a string it fits as little as a NUL does. -/
def Scan.stray : Scan → Scan × List Token
  | .string reversed => (.string (strayUnit :: reversed), [])
  | scan => scan.step '\x00'

/-- The tokens that the end of the text brings out. -/
def Scan.finish : Scan → List Token
  | .between => []
  | .number phase reversed => if phase.isComplete then [numberToken reversed] else [.bad]
  | .dead => []
  | _ => [.bad]

/-- The tokens from a state of the automaton on. -/
def Scan.tokens (scan : Scan) : List Char → List Token
  | [] => scan.finish
  | c :: rest =>
    let (scan, tokens) := scan.step c
    tokens ++ Scan.tokens scan rest

/-- The tokens from a state of the automaton on, where bytes may be astray. -/
def Scan.letterTokens (scan : Scan) : List (Option Char) → List Token
  | [] => scan.finish
  | letter :: rest =>
    let (scan, tokens) := letter.elim scan.stray scan.step
    tokens ++ Scan.letterTokens scan rest

def tokens (text : String) : List Token := Scan.tokens .between text.toList

/-- The tokens of bytes, which need not be a text. -/
def byteTokens (bytes : List UInt8) : List Token := Scan.letterTokens .between (Text.letters bytes)

theorem Scan.letterTokens_map_some (cs : List Char) (scan : Scan) :
    scan.letterTokens (cs.map some) = scan.tokens cs := by
  induction cs generalizing scan with
  | nil => rfl
  | cons c cs ih => simp [Scan.letterTokens, Scan.tokens, ih]

theorem byteTokens_of_decode {bytes : List UInt8} {text : String}
    (h : Text.decode bytes = .ok text) : byteTokens bytes = tokens text := by
  unfold Text.decode at h
  cases hd : Text.decodeAt 0 bytes with
  | error fault => rw [hd] at h; cases h
  | ok cs =>
    rw [hd] at h
    cases h
    simp [byteTokens, tokens, Text.letters_of_decodeAt hd, Scan.letterTokens_map_some]

end LinearGrammar.Json
