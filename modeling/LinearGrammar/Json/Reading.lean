import LinearGrammar.Json.Document
import LinearGrammar.Text.Quotation

/-!
# Reading records from JSON

A reader turns a document into a value or says what was wrong first, going through the text from its
beginning: a text that is no JSON at some place, or a value of another kind than the reader expected
there. A record is read from an object, whose unknown members are skipped and whose known ones may
not be repeated, or from the array of its fields.
-/

namespace LinearGrammar.Json

/-- What a reader came upon. -/
inductive Found where
  | null
  | bool (b : Bool)
  | num (n : Number)
  | str (s : String)
  | sequence
  | map
  deriving DecidableEq, Repr

def Found.text : Found → String
  | .null => "null"
  | .bool true => "boolean `true`"
  | .bool false => "boolean `false`"
  | .num (.int n) => "integer `" ++ String.ofList (Number.int n).text ++ "`"
  | .num (.real x) => "floating point `" ++ String.ofList x.text ++ "`"
  | .str s => "string " ++ Text.quotation s
  | .sequence => "sequence"
  | .map => "map"

/-- What is wrong with a text that is JSON, but not of the kind that was expected. -/
inductive Mismatch where
  | missingField (name : String)
  | duplicateField (name : String)
  | invalidType (found : Found) (expected : String)
  | invalidLength (length : Nat) (expected : String)
  deriving DecidableEq, Repr

def Mismatch.message : Mismatch → String
  | .missingField name => "missing field `" ++ name ++ "`"
  | .duplicateField name => "duplicate field `" ++ name ++ "`"
  | .invalidType found expected => "invalid type: " ++ found.text ++ ", expected " ++ expected
  | .invalidLength length expected =>
    "invalid length " ++ toString length ++ ", expected " ++ expected

/-- The first thing that was wrong with a text. -/
inductive ReadError where
  | malformed
  | mismatch (m : Mismatch)
  deriving DecidableEq, Repr

/-- Turns a document into a value. -/
abbrev Reader (α : Type) := Document → Except ReadError α

/-- The error of a document that is not of the expected kind. A part of the text that is no JSON is an
error of its own, and so is a string without a text and a number without a value. -/
def wrongType {α : Type} (expected : String) (d : Document) : Except ReadError α :=
  let mismatch := fun found => Except.error (.mismatch (.invalidType found expected))
  match d with
  | .null => mismatch .null
  | .bool b => mismatch (.bool b)
  | .num (some n) => mismatch (.num n)
  | .str (some s) => mismatch (.str s)
  | .arr _ => mismatch .sequence
  | .obj _ => mismatch .map
  | .num none | .str none | .broken => .error .malformed

def readString : Reader String
  | .str (some s) => .ok s
  | d => wrongType "a string" d

/-- Reads the items of an array, one after the other. -/
def readItems {α : Type} (read : Reader α) : List Document → Except ReadError (List α)
  | [] => .ok []
  | item :: rest =>
    match read item with
    | .error e => .error e
    | .ok a =>
      match readItems read rest with
      | .error e => .error e
      | .ok as => .ok (a :: as)

def readList {α : Type} (read : Reader α) : Reader (List α)
  | .arr items => readItems read items
  | d => wrongType "a sequence" d

def readValue : Reader Json := fun d =>
  match d.toJson? Document.nestingLimit with
  | some v => .ok v
  | none => .error .malformed

/-! ## Records -/

/-- A field of a record that is being put together in a draft. -/
structure Field (δ : Type) where
  name : String
  isSet : δ → Bool
  read : δ → Document → Except ReadError δ

/-- A field that is kept in the draft by `get` and `set`. -/
def Field.of {δ α : Type} (name : String) (get : δ → Option α) (set : δ → α → δ)
    (read : Reader α) : Field δ where
  name := name
  isSet draft := (get draft).isSome
  read draft d := (read d).map (set draft)

/-- How a record is read. -/
structure RecordShape (δ α : Type) where
  name : String
  fields : List (Field δ)
  /-- The draft without any field. -/
  blank : δ
  /-- Whether an array may leave out fields at its end. -/
  isLenient : Bool
  /-- The record of a draft, or the first field that is missing. -/
  build : δ → Except String α

namespace RecordShape

variable {δ α : Type}

/-- Reads the members of an object into a draft. -/
def readMembers (shape : RecordShape δ α) :
    List (Option String × Document) → δ → Except ReadError δ
  | [], draft => .ok draft
  | (none, _) :: _, _ => .error .malformed
  | (some key, value) :: rest, draft =>
    match shape.fields.find? (·.name == key) with
    | none => if value.isIntact then shape.readMembers rest draft else .error .malformed
    | some field =>
      if field.isSet draft then .error (.mismatch (.duplicateField key))
      else
        match field.read draft value with
        | .error e => .error e
        | .ok draft => shape.readMembers rest draft

/-- Reads the items of an array into a draft, field by field, and gives back the items that are
left over. -/
def readFields : List (Field δ) → List Document → δ → Except ReadError (List Document × δ)
  | field :: fields, item :: items, draft =>
    match field.read draft item with
    | .error e => .error e
    | .ok draft => readFields fields items draft
  | _, items, draft => .ok (items, draft)

/-- The record of a complete draft. -/
def finish (shape : RecordShape δ α) (draft : δ) : Except ReadError α :=
  match shape.build draft with
  | .ok a => .ok a
  | .error name => .error (.mismatch (.missingField name))

/-- The kind of the record in words, with the number of its fields. -/
def arity (shape : RecordShape δ α) : String :=
  let count := shape.fields.length
  "struct " ++ shape.name ++ " with " ++ toString count ++
    (if count = 1 then " element" else " elements")

def read (shape : RecordShape δ α) : Reader α
  | .obj members =>
    match shape.readMembers members shape.blank with
    | .error e => .error e
    | .ok draft => shape.finish draft
  | .arr items =>
    match readFields shape.fields items shape.blank with
    | .error e => .error e
    | .ok (rest, draft) =>
      if items.length < shape.fields.length && !shape.isLenient then
        .error (.mismatch (.invalidLength items.length shape.arity))
      else if rest.isEmpty then shape.finish draft
      else .error .malformed
  | d => wrongType ("struct " ++ shape.name) d

end RecordShape

/-! ## Texts -/

/-- Reads tokens up to their end. What comes after the value is looked at last. -/
def readTokens {α : Type} (read : Reader α) (tokens : List Token) : Except ReadError α :=
  let (root, isWhole) := Document.ofTokens tokens
  match read root with
  | .error e => .error e
  | .ok a => if isWhole then .ok a else .error .malformed

def readText {α : Type} (read : Reader α) (text : String) : Except ReadError α :=
  readTokens read (tokens text)

/-- Reads bytes, of which those in the strings that are skipped need not be text. -/
def readBytes {α : Type} (read : Reader α) (bytes : List UInt8) : Except ReadError α :=
  readTokens read (byteTokens bytes)

theorem readBytes_of_decode {α : Type} {bytes : List UInt8} {text : String} (read : Reader α)
    (h : Text.decode bytes = .ok text) : readBytes read bytes = readText read text := by
  rw [readBytes, byteTokens_of_decode h, readText]

end LinearGrammar.Json
