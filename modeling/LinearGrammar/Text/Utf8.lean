/-!
# UTF-8

Bytes are decoded strictly: no overlong forms, no surrogates, nothing above the last code point. When
that fails, the fault tells where the bytes stopped being text, and whether what stands there can be
no character or is merely cut off. Whoever can do with less than the whole text has `letters`, which
steps over the bytes that are part of no character; where there are none, both say the same.
-/

namespace LinearGrammar.Text

/-- What is wrong with the bytes at some place. -/
inductive Utf8Flaw where
  /-- So many bytes cannot be the beginning of a character together with the byte after them. -/
  | invalid (length : Nat)
  | incomplete
  deriving DecidableEq, Repr

/-- Where bytes stop being text, and why. -/
structure Utf8Fault where
  index : Nat
  flaw : Utf8Flaw
  deriving DecidableEq, Repr

def Utf8Fault.message (f : Utf8Fault) : String :=
  match f.flaw with
  | .invalid length =>
    "invalid utf-8 sequence of " ++ toString length ++ " bytes from index " ++ toString f.index
  | .incomplete => "incomplete utf-8 byte sequence from index " ++ toString f.index

/-- A byte that may follow the second byte of a character. -/
def isContinuation (b : UInt8) : Bool := 0x80 ≤ b && b ≤ 0xBF

/-- How many bytes a character has that begins with this byte, and which second bytes it allows. -/
def leadOf (b : UInt8) : Option (Nat × UInt8 × UInt8) :=
  if 0xC2 ≤ b && b ≤ 0xDF then some (2, 0x80, 0xBF)
  else if b = 0xE0 then some (3, 0xA0, 0xBF)
  else if b = 0xED then some (3, 0x80, 0x9F)
  else if 0xE1 ≤ b && b ≤ 0xEF then some (3, 0x80, 0xBF)
  else if b = 0xF0 then some (4, 0x90, 0xBF)
  else if b = 0xF4 then some (4, 0x80, 0x8F)
  else if 0xF1 ≤ b && b ≤ 0xF3 then some (4, 0x80, 0xBF)
  else none

/-- Takes the low six bits of a continuation byte into a code point. -/
def extend (code : Nat) (b : UInt8) : Nat := code * 0x40 + b.toNat % 0x40

/-- Takes in the continuation bytes that a character still lacks. `seen` of its bytes went before. -/
def continueChar (code seen : Nat) : Nat → List UInt8 → Except Utf8Flaw (Char × List UInt8)
  | 0, rest => .ok (Char.ofNat code, rest)
  | _ + 1, [] => .error .incomplete
  | missing + 1, b :: rest =>
    if isContinuation b then continueChar (extend code b) (seen + 1) missing rest
    else .error (.invalid seen)

/-- The first character of some bytes, and what follows it. -/
def firstChar (b : UInt8) (rest : List UInt8) : Except Utf8Flaw (Char × List UInt8) :=
  if b < 0x80 then .ok (Char.ofNat b.toNat, rest)
  else
    match leadOf b with
    | none => .error (.invalid 1)
    | some (width, low, high) =>
      match rest with
      | [] => .error .incomplete
      | second :: rest =>
        if low ≤ second && second ≤ high then
          continueChar (extend (b.toNat % Nat.pow 2 (7 - width)) second) 2 (width - 2) rest
        else .error (.invalid 1)

/-- A character takes bytes away and adds none. -/
theorem length_continueChar {code seen : Nat} {missing : Nat} {bytes rest : List UInt8} {c : Char}
    (h : continueChar code seen missing bytes = .ok (c, rest)) : rest.length ≤ bytes.length := by
  fun_induction continueChar code seen missing bytes with
  | case1 code seen r => cases h; exact Nat.le_refl _
  | case2 => cases h
  | case3 code seen missing b r hb ih => exact Nat.le_succ_of_le (ih h)
  | case4 => cases h

/-- What follows the first character is no longer than what follows its first byte. -/
theorem length_firstChar {b : UInt8} {bytes rest : List UInt8} {c : Char}
    (h : firstChar b bytes = .ok (c, rest)) : rest.length ≤ bytes.length := by
  unfold firstChar at h
  split at h
  · cases h; exact Nat.le_refl _
  · split at h
    · cases h
    · split at h
      · cases h
      · split at h
        · exact Nat.le_succ_of_le (length_continueChar h)
        · cases h

/-- Decodes bytes that stand at an index. -/
def decodeAt (index : Nat) : List UInt8 → Except Utf8Fault (List Char)
  | [] => .ok []
  | b :: bytes =>
    match _h : firstChar b bytes with
    | .error flaw => .error ⟨index, flaw⟩
    | .ok (c, rest) =>
      match decodeAt (index + c.utf8Size) rest with
      | .error fault => .error fault
      | .ok cs => .ok (c :: cs)
termination_by bytes => bytes.length
decreasing_by
  have := length_firstChar _h
  simp only [List.length_cons]
  omega

def decode (bytes : List UInt8) : Except Utf8Fault String := (decodeAt 0 bytes).map String.ofList

/-- The characters of some bytes, with `none` for every byte that is part of no character. -/
def letters : List UInt8 → List (Option Char)
  | [] => []
  | b :: bytes =>
    match _h : firstChar b bytes with
    | .error _ => none :: letters bytes
    | .ok (c, rest) => some c :: letters rest
termination_by bytes => bytes.length
decreasing_by
  · simp
  · have := length_firstChar _h
    simp only [List.length_cons]
    omega

theorem letters_of_decodeAt {index : Nat} {bytes : List UInt8} {cs : List Char}
    (h : decodeAt index bytes = .ok cs) : letters bytes = cs.map some := by
  fun_induction decodeAt index bytes generalizing cs with
  | case1 => cases h; simp [letters]
  | case2 => cases h
  | case3 => cases h
  | case4 index b bytes c rest hfirst ds hds ih =>
    cases h
    rw [letters]
    split
    · rename_i hbad
      rw [hfirst] at hbad
      cases hbad
    · rename_i d rest' hok
      rw [hfirst] at hok
      cases hok
      simp [ih hds]

def encode (text : String) : List UInt8 := text.toList.flatMap String.utf8EncodeChar

end LinearGrammar.Text
