import LinearGrammar.Proofs.PayloadText
import LinearGrammar.Proofs.TextBytes
import LinearGrammar.Proofs.ValueText
import LinearGrammar.Service.Client

/-!
# What one side sends the other side reads

A payload goes over the network as the bytes of a JSON text. A body is read without being decoded
first, because a byte that is part of no character does no harm in a string that is skipped. For a body
that is text this makes no difference, and then the payload comes back from its bytes in whatever
layout it was written. What the client sends, a service that uses the same readers takes, and what such
a service answers the client takes.
-/

namespace LinearGrammar

open Json (Document Reader readBytes readText readValue)

/-- Bytes that are a text are read as the text is. -/
theorem Json.readBytes_encode {α : Type} (read : Reader α) (text : String) :
    readBytes read (Text.encode text) = readText read text :=
  readBytes_of_decode read (Text.decode_encode text)

namespace ServiceClient

/-! ## Requests -/

theorem readBytes_checkRequest (c : ServiceClient) (r : CheckRequest) :
    readBytes CheckRequest.read (Text.encode (c.checkRequest r).body) = .ok r := by
  rw [Json.readBytes_encode]
  exact (Json.readText_of_ofJson r.isLegible_toJson r.read_ofJson).1

theorem readBytes_submitRequest (c : ServiceClient) (s : Submission) :
    readBytes Submission.read (Text.encode (c.submitRequest s).body) = .ok s := by
  rw [Json.readBytes_encode]
  exact (Json.readText_of_ofJson s.isLegible_toJson s.read_ofJson).1

/-! ## Responses -/

variable {r : ServiceResponse} {v : Json}

/-- A success whose body is one of the texts of a value is received as what the value says. -/
theorem receive_of_text {α : Type} {read : Reader α} {a : α} (hv : v.IsLegible)
    (hread : read (Document.ofJson v) = .ok a) (hsuccess : r.isSuccess = true)
    (hbody : r.body = Text.encode v.compact ∨ r.body = Text.encode v.pretty) (url : String) :
    receive read url (some r) = .ok a := by
  obtain ⟨hcompact, hpretty⟩ := Json.readText_of_ofJson hv hread
  have hbytes : readBytes read r.body = .ok a := by
    cases hbody with
    | inl h => rw [h, Json.readBytes_encode, hcompact]
    | inr h => rw [h, Json.readBytes_encode, hpretty]
  rw [receive, if_pos hsuccess, readBody, hbytes]

theorem receiveCheck_of_text (c : ServiceClient) {a : CheckResponse} (hsuccess : r.isSuccess = true)
    (hbody : r.body = Text.encode a.toJson.compact ∨ r.body = Text.encode a.toJson.pretty) :
    c.receiveCheck (some r) = .ok a :=
  receive_of_text a.isLegible_toJson a.read_ofJson hsuccess hbody _

/-- A tree is received as it was drawn if it could come from a reader at all. -/
theorem receiveTree_of_text (c : ServiceClient) (hintegral : v.IsIntegral) (hordered : v.IsOrdered)
    (hdepth : v.nesting ≤ Document.nestingLimit) (hsuccess : r.isSuccess = true)
    (hbody : r.body = Text.encode v.compact ∨ r.body = Text.encode v.pretty) :
    c.receiveTree (some r) = .ok v := by
  have hread : readValue (Document.ofJson v) = .ok v := by
    rw [Json.readValue_eq_ok_iff, Json.toJson?_ofJson v hordered, if_pos hdepth]
  exact receive_of_text (Json.isLegible_of_parts v hintegral) hread hsuccess hbody _

end ServiceClient

end LinearGrammar
