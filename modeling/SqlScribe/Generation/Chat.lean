import SqlScribe.Generation.Degradation
import SqlScribe.Generation.Settings

/-!
# The chat endpoint

A completion model behind a chat endpoint. A prompt is one request; the answer is the
content of the first choice in the response. The transport that carries requests is a
parameter.
-/

namespace SqlScribe

/-- A request to a server. -/
structure ChatRequest where
  method : Text
  url : Text
  /-- What is sent along, in JSON. -/
  body : Option Text
deriving DecidableEq, Repr

/-- The answer of a server. -/
structure ChatReply where
  status : Nat
  body : Text
deriving DecidableEq, Repr

/-- Whether the status tells of success. -/
def ChatReply.isSuccess (r : ChatReply) : Bool := 200 ≤ r.status && r.status ≤ 299

/-- What carries a request: it brings a reply, or says why there is none. -/
abbrev Transport := ChatRequest → Except Text ChatReply

/-- Said of a reply that cannot be read. -/
def unreadableReply : Text := "error decoding response body"

namespace ModelSettings

/-- The address of the server without slashes at its end. -/
def root (m : ModelSettings) : Text := Text.dropEnd (· == '/') m.baseUrl

/-- The body of the request for a completion. -/
def completionBody (m : ModelSettings) (prompt : Text) : Json := .ofMembers [
  ("model", .ofText m.model),
  ("messages", .array [.ofMembers [("role", .ofText "user"), ("content", .ofText prompt)]]),
  ("max_tokens", .ofNat m.maxTokens),
  ("temperature", .ofSingle m.temperature)]

/-- The request for a completion. -/
def completionRequest (m : ModelSettings) (prompt : Text) : ChatRequest :=
  ⟨"POST", m.root ++ "/v1/chat/completions", some (m.completionBody prompt).render⟩

/-- The request that asks whether the server is there. -/
def healthRequest (m : ModelSettings) : ChatRequest :=
  ⟨"GET", m.root ++ "/api/tags", none⟩

end ModelSettings

namespace Chat

/-- The content of a message, `none` when it has none. -/
def messageOfJson? (j : Json) : Option (Option Text) := do
  match ← j.fields? ["content"] with
  | [content] =>
      match content with
      | none => some none
      | some .null => some none
      | some c => (c.text?).map some
  | _ => none

/-- The content of the message of a choice. -/
def choiceOfJson? (j : Json) : Option (Option Text) := do
  match ← j.fields? ["message"] with
  | [message] => Json.required? messageOfJson? message
  | _ => none

/-- The contents of the choices of a response. -/
def choicesOfJson? (j : Json) : Option (List (Option Text)) := do
  match ← j.fields? ["choices"] with
  | [choices] => Json.orDefault? (Json.listOf? choiceOfJson?) [] choices
  | _ => none

/-- The content of the first choice, without the blanks around it. -/
def completionOf (choices : List (Option Text)) : Except ModelError Text :=
  match choices with
  | some content :: _ =>
      let t := content.trim
      if t.isEmpty then .error .empty else .ok t
  | _ => .error .empty

/-- The completion in a reply. -/
def completionIn (r : ChatReply) : Except ModelError Text :=
  if !r.isSuccess then .error (.status r.status)
  else
    match (Json.parse? r.body).bind choicesOfJson? with
    | none => .error (.decode unreadableReply)
    | some choices => completionOf choices

/-- Asks for the completion of a prompt. -/
def complete (m : ModelSettings) (send : Transport) (prompt : Text) : Except ModelError Text :=
  match send (m.completionRequest prompt) with
  | .error e => .error (.transport e)
  | .ok r => completionIn r

/-- Whether the server answers with success. -/
def isHealthy (m : ModelSettings) (send : Transport) : Bool :=
  match send m.healthRequest with
  | .error _ => false
  | .ok r => r.isSuccess

end Chat

end SqlScribe
