import LinearGrammar.Json.Reading
import LinearGrammar.Service.Payload

/-!
# Payloads as JSON

Each payload is written as an object with its fields in the order in which they are declared. In the
answer to a check any field may be left out, and is empty then; the other payloads have to be
complete.
-/

namespace LinearGrammar

open Json (Field Reader RecordShape readString readList)

namespace WireRule

def toJson (r : WireRule) : Json :=
  .obj [("nonTerminalSymbol", .str r.nonTerminalSymbol), ("symbolProduced", .str r.symbolProduced)]

structure Draft where
  nonTerminalSymbol : Option String
  symbolProduced : Option String

/-- Both fields of a rule have to be there. -/
def shape : RecordShape Draft WireRule where
  name := "WireRule"
  fields := [
    .of "nonTerminalSymbol" (·.nonTerminalSymbol) (fun d s => { d with nonTerminalSymbol := s })
      readString,
    .of "symbolProduced" (·.symbolProduced) (fun d s => { d with symbolProduced := s }) readString]
  blank := ⟨none, none⟩
  isLenient := false
  build d :=
    match d.nonTerminalSymbol, d.symbolProduced with
    | some head, some body => .ok ⟨head, body⟩
    | none, _ => .error "nonTerminalSymbol"
    | _, none => .error "symbolProduced"

def read : Reader WireRule := shape.read

end WireRule

namespace Submission

def toJson (s : Submission) : Json :=
  .obj [("terminalSymbols", .texts s.terminalSymbols),
    ("nonTerminalSymbols", .texts s.nonTerminalSymbols),
    ("axiomaticSymbol", .str s.axiomaticSymbol),
    ("productionRules", .arr (s.productionRules.map WireRule.toJson)),
    ("levels", .str s.levels)]

structure Draft where
  terminalSymbols : Option (List String)
  nonTerminalSymbols : Option (List String)
  axiomaticSymbol : Option String
  productionRules : Option (List WireRule)
  levels : Option String

/-- All the fields of a submission have to be there. -/
def shape : RecordShape Draft Submission where
  name := "Submission"
  fields := [
    .of "terminalSymbols" (·.terminalSymbols) (fun d l => { d with terminalSymbols := l })
      (readList readString),
    .of "nonTerminalSymbols" (·.nonTerminalSymbols) (fun d l => { d with nonTerminalSymbols := l })
      (readList readString),
    .of "axiomaticSymbol" (·.axiomaticSymbol) (fun d s => { d with axiomaticSymbol := s })
      readString,
    .of "productionRules" (·.productionRules) (fun d l => { d with productionRules := l })
      (readList WireRule.read),
    .of "levels" (·.levels) (fun d s => { d with levels := s }) readString]
  blank := ⟨none, none, none, none, none⟩
  isLenient := false
  build d :=
    match d.terminalSymbols, d.nonTerminalSymbols, d.axiomaticSymbol, d.productionRules,
      d.levels with
    | some t, some n, some start, some rules, some levels => .ok ⟨t, n, start, rules, levels⟩
    | none, _, _, _, _ => .error "terminalSymbols"
    | _, none, _, _, _ => .error "nonTerminalSymbols"
    | _, _, none, _, _ => .error "axiomaticSymbol"
    | _, _, _, none, _ => .error "productionRules"
    | _, _, _, _, none => .error "levels"

def read : Reader Submission := shape.read

end Submission

namespace CheckRequest

def toJson (r : CheckRequest) : Json := .obj [("word", .str r.word)]

structure Draft where
  word : Option String

/-- A request has to have its word. -/
def shape : RecordShape Draft CheckRequest where
  name := "CheckRequest"
  fields := [.of "word" (·.word) (fun d s => { d with word := s }) readString]
  blank := ⟨none⟩
  isLenient := false
  build d :=
    match d.word with
    | some word => .ok ⟨word⟩
    | none => .error "word"

def read : Reader CheckRequest := shape.read

end CheckRequest

namespace CheckResponse

def toJson (r : CheckResponse) : Json :=
  .obj [("axiomaticSymbol", .str r.axiomaticSymbol), ("derivationSteps", .texts r.derivationSteps),
    ("derivativeProducts", .arr (r.derivativeProducts.map WireRule.toJson))]

structure Draft where
  axiomaticSymbol : Option String
  derivationSteps : Option (List String)
  derivativeProducts : Option (List WireRule)

/-- An answer may leave out any of its fields. -/
def shape : RecordShape Draft CheckResponse where
  name := "CheckResponse"
  fields := [
    .of "axiomaticSymbol" (·.axiomaticSymbol) (fun d s => { d with axiomaticSymbol := s })
      readString,
    .of "derivationSteps" (·.derivationSteps) (fun d l => { d with derivationSteps := l })
      (readList readString),
    .of "derivativeProducts" (·.derivativeProducts) (fun d l => { d with derivativeProducts := l })
      (readList WireRule.read)]
  blank := ⟨none, none, none⟩
  isLenient := true
  build d := .ok ⟨d.axiomaticSymbol.getD "", d.derivationSteps.getD [],
    d.derivativeProducts.getD []⟩

def read : Reader CheckResponse := shape.read

end CheckResponse

end LinearGrammar
