import LinearGrammar.Service.Codec
import LinearGrammar.Service.Failure

/-!
# The client of the grammar service

A request is a JSON payload posted to one of two endpoints. What comes of it is decided here from the
response alone: no response, a status other than success, a body that cannot be read, or an answer.
Sending the request is left to whoever has a network.
-/

namespace LinearGrammar

/-- What the service can be asked to do. -/
inductive Endpoint where
  | submit
  | check
  deriving DecidableEq, Repr

/-- Where the endpoint lies below the address of the service. -/
def Endpoint.path : Endpoint → String
  | .submit => "/formal-grammar/cqc"
  | .check => "/formal-grammar/check"

structure ServiceRequest where
  url : String
  contentType : String
  body : String
  deriving DecidableEq, Repr

structure ServiceResponse where
  status : Nat
  body : List UInt8
  deriving DecidableEq, Repr

def ServiceResponse.isSuccess (r : ServiceResponse) : Bool := 200 ≤ r.status && r.status < 300

/-- A client, by the address of its service, which ends in no slash. -/
structure ServiceClient where
  address : String
  deriving DecidableEq, Repr

namespace ServiceClient

/-- The client for an address. Slashes at its end do not count. -/
def ofAddress (address : String) : ServiceClient :=
  ⟨String.ofList (address.toList.reverse.dropWhile (· == '/')).reverse⟩

def url (c : ServiceClient) (endpoint : Endpoint) : String := c.address ++ endpoint.path

def post (c : ServiceClient) (endpoint : Endpoint) (payload : Json) : ServiceRequest :=
  ⟨c.url endpoint, "application/json", payload.compact⟩

def submitRequest (c : ServiceClient) (s : Submission) : ServiceRequest := c.post .submit s.toJson

def checkRequest (c : ServiceClient) (r : CheckRequest) : ServiceRequest := c.post .check r.toJson

/-- The failure of a request that was never answered. -/
def unreachable (url : String) : ServiceFailure :=
  .network ("error sending request for url (" ++ url ++ ")")

/-- The failure of a response whose body cannot be read. -/
def unreadable : ServiceFailure := .body "error decoding response body"

def readBody {α : Type} (read : Json.Reader α) (body : List UInt8) : Outcome α :=
  match Json.readBytes read body with
  | .error _ => .error unreadable
  | .ok a => .ok a

def receive {α : Type} (read : Json.Reader α) (url : String) :
    Option ServiceResponse → Outcome α
  | none => .error (unreachable url)
  | some r => if r.isSuccess then readBody read r.body else .error (.status r.status)

def receiveCheck (c : ServiceClient) (r : Option ServiceResponse) : Outcome CheckResponse :=
  receive CheckResponse.read (c.url .check) r

/-- The outcome of a submission, with the tree as the service drew it. -/
def receiveTree (c : ServiceClient) (r : Option ServiceResponse) : Outcome Json :=
  receive Json.readValue (c.url .submit) r

end ServiceClient

end LinearGrammar
