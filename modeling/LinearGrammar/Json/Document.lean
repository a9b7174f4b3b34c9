import LinearGrammar.Json.Token
import LinearGrammar.Json.Value

/-!
# Documents

A document is what a text says as far as it is JSON: where the text stops being JSON, or is cut off,
the tree has a `broken` node, and everything before that place is there to be looked at. Members keep
their order and their repetitions. A tree is built from tokens with the open containers on a stack.
-/

namespace LinearGrammar.Json

/-- What a JSON text says, up to the place where it is no JSON any more. -/
inductive Document where
  | null
  | bool (b : Bool)
  | num (value : Option Number)
  | str (text : Option String)
  | arr (items : List Document)
  | obj (members : List (Option String × Document))
  | broken
  deriving Repr

/-- A container whose end has not come, with what it has so far, backwards. -/
inductive Open where
  | items (done : List Document)
  /-- An object, with the key that waits for its value. -/
  | members (done : List (Option String × Document)) (key : Option (Option String))
  deriving Repr

/-- What has to come next. -/
inductive Building where
  | value (stack : List Open)
  /-- The end of the container just opened, or its first item or key. -/
  | first (stack : List Open)
  /-- A comma, or the end of the innermost container. -/
  | next (stack : List Open)
  | key (stack : List Open)
  | colon (stack : List Open)
  /-- Nothing: the document is complete. -/
  | complete (root : Document)
  /-- Something came after the document was complete. -/
  | overfull (root : Document)
  /-- The text stopped being JSON before the document was complete. -/
  | failed (root : Document)
  deriving Repr

namespace Open

def abandon (inner : Document) : Open → Document
  | .items done => .arr (inner :: done).reverse
  | .members done key => .obj ((key.getD none, inner) :: done).reverse

/-- The document as it is when the text breaks off inside these containers. -/
def abandonAll (stack : List Open) : Document := stack.foldl abandon .broken

end Open

namespace Building

def afterValue (v : Document) : List Open → Building
  | [] => .complete v
  | .items done :: stack => .next (.items (v :: done) :: stack)
  | .members done pending :: stack =>
    .next (.members ((pending.getD none, v) :: done) none :: stack)

def afterEnd : List Open → Building
  | .items done :: stack => afterValue (.arr done.reverse) stack
  | .members done _ :: stack => afterValue (.obj done.reverse) stack
  | [] => .failed .broken

def afterKey (text : Option String) : List Open → Building
  | .members done _ :: stack => .colon (.members done (some text) :: stack)
  | stack => .failed (Open.abandonAll stack)

/-- What has to come after a token in the place of a value. -/
def atValue (stack : List Open) : Token → Building
  | .null => afterValue .null stack
  | .bool b => afterValue (.bool b) stack
  | .num n => afterValue (.num n) stack
  | .str s => afterValue (.str s) stack
  | .openArray => .first (.items [] :: stack)
  | .openObject => .first (.members [] none :: stack)
  | _ => .failed (Open.abandonAll stack)

def step : Building → Token → Building
  | .value stack, token => atValue stack token
  | .first (.items done :: stack), token =>
    if token = .closeArray then afterEnd (.items done :: stack)
    else atValue (.items done :: stack) token
  | .first stack, token =>
    match token with
    | .closeObject => afterEnd stack
    | .str s => afterKey s stack
    | _ => .failed (Open.abandonAll stack)
  | .next (.items done :: stack), token =>
    match token with
    | .closeArray => afterEnd (.items done :: stack)
    | .comma => .value (.items done :: stack)
    | _ => .failed (Open.abandonAll (.items done :: stack))
  | .next stack, token =>
    match token with
    | .closeObject => afterEnd stack
    | .comma => .key stack
    | _ => .failed (Open.abandonAll stack)
  | .key stack, token =>
    match token with
    | .str s => afterKey s stack
    | _ => .failed (Open.abandonAll stack)
  | .colon stack, token =>
    match token with
    | .colon => .value stack
    | _ => .failed (Open.abandonAll stack)
  | .complete root, _ => .overfull root
  | .overfull root, _ => .overfull root
  | .failed root, _ => .failed root

/-- The document when no token is left, and whether it is the whole text. -/
def finish : Building → Document × Bool
  | .complete root => (root, true)
  | .overfull root => (root, false)
  | .failed root => (root, false)
  | .value stack | .first stack | .next stack | .key stack | .colon stack =>
    (Open.abandonAll stack, false)

end Building

namespace Document

/-- The document at the beginning of some tokens, and whether it is all of them. -/
def ofTokens (tokens : List Token) : Document × Bool :=
  (tokens.foldl Building.step (.value [])).finish

mutual

/-- Whether the text was JSON all through this node. -/
def isIntact : Document → Bool
  | .broken => false
  | .arr items => allIntact items
  | .obj members => allMembersIntact members
  | _ => true

def allIntact : List Document → Bool
  | [] => true
  | item :: rest => isIntact item && allIntact rest

def allMembersIntact : List (Option String × Document) → Bool
  | [] => true
  | (_, value) :: rest => isIntact value && allMembersIntact rest

end

/-! ## Values -/

/-- Puts a member into its place among members sorted by key. A key that is there already gets the
new value. -/
def insertMember (key : String) (value : Json) : List (String × Json) → List (String × Json)
  | [] => [(key, value)]
  | (k, v) :: rest =>
    if key = k then (key, value) :: rest
    else if key < k then (key, value) :: (k, v) :: rest
    else (k, v) :: insertMember key value rest

/-- How deep containers may be nested in a value that is kept. -/
def nestingLimit : Nat := 127

mutual

/-- The value of a document that is JSON all through, with texts for its strings and values for its
numbers, and not nested too deeply. Of repeated keys the last one counts. -/
def toJson? (depth : Nat) : Document → Option Json
  | .null => some .null
  | .bool b => some (.bool b)
  | .num value => value.map .num
  | .str text => text.map .str
  | .arr items =>
    match depth with
    | 0 => none
    | depth + 1 => (toItems? depth items).map .arr
  | .obj members =>
    match depth with
    | 0 => none
    | depth + 1 => (toMembers? depth members []).map .obj
  | .broken => none

def toItems? (depth : Nat) : List Document → Option (List Json)
  | [] => some []
  | item :: rest =>
    match toJson? depth item, toItems? depth rest with
    | some v, some vs => some (v :: vs)
    | _, _ => none

/-- The members of an object, put in among those that are done. -/
def toMembers? (depth : Nat) :
    List (Option String × Document) → List (String × Json) → Option (List (String × Json))
  | [], done => some done
  | (none, _) :: _, _ => none
  | (some key, value) :: rest, done =>
    match toJson? depth value with
    | some v => toMembers? depth rest (insertMember key v done)
    | none => none

end

mutual

/-- The document that says just this value. -/
def ofJson : Json → Document
  | .null => .null
  | .bool b => .bool b
  | .num n => .num (some n)
  | .str s => .str (some s)
  | .arr items => .arr (ofItems items)
  | .obj members => .obj (ofMembers members)

def ofItems : List Json → List Document
  | [] => []
  | item :: rest => ofJson item :: ofItems rest

def ofMembers : List (String × Json) → List (Option String × Document)
  | [] => []
  | (key, value) :: rest => (some key, ofJson value) :: ofMembers rest

end

end Document

end LinearGrammar.Json
