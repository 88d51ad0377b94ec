import SqlScribe.Statement.Wire

/-!
# Settings

Which completion model is asked and how. Settings are written as a JSON record; every
field that is missing has its default.
-/

namespace SqlScribe

/-- How the completion model is reached. -/
structure ModelSettings where
  /-- The root address of the server. -/
  baseUrl : Text := "http://localhost:11434"
  /-- The name of the model, sent with every request. -/
  model : Text := "ttsql-model"
  /-- How long a request may take, in milliseconds. -/
  timeoutMs : Nat := 10000
  maxTokens : Nat := 200
  temperature : Float32 := 0.1

namespace ModelSettings

/-- The settings a record describes. -/
def ofJson? (j : Json) : Option ModelSettings := do
  let default : ModelSettings := {}
  match ← j.fields? ["base_url", "model", "timeout_ms", "max_tokens", "temperature"] with
  | [baseUrl, model, timeoutMs, maxTokens, temperature] =>
      let baseUrl ← Json.orDefault? Json.text? default.baseUrl baseUrl
      let model ← Json.orDefault? Json.text? default.model model
      let timeoutMs ← Json.orDefault? (Json.nat? 18446744073709551615) default.timeoutMs timeoutMs
      let maxTokens ← Json.orDefault? (Json.nat? 4294967295) default.maxTokens maxTokens
      let temperature ← Json.orDefault? Json.single? default.temperature temperature
      some ⟨baseUrl, model, timeoutMs, maxTokens, temperature⟩
  | _ => none

/-- The record that describes the settings. -/
def toJson (m : ModelSettings) : Json := .ofMembers [
  ("base_url", .ofText m.baseUrl), ("model", .ofText m.model),
  ("timeout_ms", .ofNat m.timeoutMs), ("max_tokens", .ofNat m.maxTokens),
  ("temperature", .ofSingle m.temperature)]

end ModelSettings

/-- The settings of a desk. -/
structure Settings where
  /-- Whether the model is asked before the rules answer. -/
  useModel : Bool := true
  /-- The dialect the model writes. -/
  modelDialect : Dialect := .canonical
  model : ModelSettings := {}

namespace Settings

/-- The model is never asked. -/
def rulesOnly : Settings := { useModel := false }

/-- The model of this name at this address is asked. -/
def withModel (baseUrl model : Text) : Settings :=
  { model := { baseUrl := baseUrl, model := model } }

/-- The settings a record describes. -/
def ofJson? (j : Json) : Option Settings := do
  let default : Settings := {}
  match ← j.fields? ["use_model", "model_dialect", "model"] with
  | [useModel, modelDialect, model] =>
      let useModel ← Json.orDefault? Json.bool? default.useModel useModel
      let modelDialect ← Json.orDefault? Dialect.ofJson? default.modelDialect modelDialect
      let model ← Json.orDefault? ModelSettings.ofJson? default.model model
      some ⟨useModel, modelDialect, model⟩
  | _ => none

/-- The settings a document describes. -/
def ofDocument? (document : Text) : Option Settings :=
  (Json.parse? document).bind ofJson?

/-- The record that describes the settings. -/
def toJson (s : Settings) : Json := .ofMembers [
  ("use_model", .bool s.useModel), ("model_dialect", .ofText s.modelDialect.name),
  ("model", s.model.toJson)]

end Settings

/-! ## Settings from files -/

/-- Why a file gives no settings. -/
inductive SettingsError where
  /-- There is no file, or it is not a text in UTF-8. -/
  | unreadable
  /-- It is no JSON document of the shape of settings. -/
  | malformed
deriving DecidableEq, Repr

/-- The settings in a file of these bytes; `none` stands for a file that is not there. -/
def Settings.ofFile (bytes : Option ByteArray) : Except SettingsError Settings :=
  match bytes.bind String.fromUTF8? with
  | none => .error .unreadable
  | some document =>
    match ofDocument? document.toList with
    | none => .error .malformed
    | some s => .ok s

end SqlScribe
