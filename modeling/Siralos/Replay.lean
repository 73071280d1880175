import Siralos.Provider

/-!
# Replay body validation

The gate a recorded body passes before it is stored or played back. Each validator
returns the message of the first check that fails.
-/

set_option autoImplicit false

namespace Siralos.Replay
open Text Json Provider

abbrev Check (α : Type) := Except Text α

def ensure (condition : Bool) (message : Text) : Check Unit :=
  if condition then .ok () else .error message

def require {α : Type} (value : Option α) (message : Text) : Check α :=
  match value with
  | some value => .ok value
  | none => .error message

def optional (value : Option Value) (check : Value → Check Unit) : Check Unit :=
  match value with
  | some value => check value
  | none => .ok ()

def unlessNull (check : Value → Check Unit) (value : Value) : Check Unit :=
  if value.isNull then .ok () else check value

theorem bind_ok {α β : Type} (c : Check α) (f : α → Check β) (b : β) :
    (c >>= f) = .ok b ↔ ∃ a, c = .ok a ∧ f a = .ok b := by
  cases c <;> simp [bind, Except.bind]

theorem ensure_ok (condition : Bool) (message : Text) (u : Unit) :
    ensure condition message = .ok u ↔ condition = true := by
  cases condition <;> simp [ensure]

theorem require_ok {α : Type} (value : Option α) (message : Text) (a : α) :
    require value message = .ok a ↔ value = some a := by
  cases value <;> simp [require]

def maxProviderToolNameBytes : ℕ := 64

def maxReplayIdBytes : ℕ := 256

def validReplayIdentifier (value : Text) (maxBytes : ℕ) : Bool :=
  !value.isEmpty && !(trim value).isEmpty && utf8Len value ≤ maxBytes && !value.any isControl

def rejectUnknownFields (object : Value) (allowed : List String) : Check Unit :=
  ensure ((object.asObject.getD []).all fun field => (allowed.map String.toList).contains field.1)
    "replay response contains an unsupported field"

def oneOf (names : List String) (text : Text) : Bool := (names.map String.toList).contains text

def validSuccessStatus (status : Text) : Bool :=
  oneOf ["success", "succeeded", "complete", "completed", "ok"] (toAsciiLowercase status)

def validOpenaiFinishReason (reason : Text) : Bool :=
  oneOf ["stop", "length", "tool_calls", "function_call", "content_filter", "stop_sequence"]
    (toAsciiLowercase reason)

def validAnthropicStopReason (reason : Text) : Bool :=
  oneOf ["end_turn", "max_tokens", "stop_sequence", "tool_use", "pause_turn"]
    (toAsciiLowercase reason)

def isText (expected : Text) (value : Value) : Bool := value.asStr == some expected

def nonEmptyText (value : Option Value) : Option Text :=
  (value >>= Value.asStr).filter fun text => !text.isEmpty

def isTextKind (kind : Text) : Bool := oneOf ["text", "output_text", "input_text"] kind

/-- A loop that ends with whether any of its items was usable. -/
def eachUsable (check : Value → Check Bool) : List Value → Bool → Check Bool
  | [], usable => .ok usable
  | value :: values, usable => do
    let item ← check value
    eachUsable check values (usable || item)

def eachValue (check : Value → Check Unit) : List Value → Check Unit
  | [] => .ok ()
  | value :: values => do
    check value
    eachValue check values

section Envelope

def envelopeFields : List String :=
  ["id", "type", "role", "object", "created", "created_at", "model", "choices", "content",
    "output", "usage", "status", "stop_reason", "stop_sequence", "error", "system_fingerprint",
    "service_tier", "container", "response_id", "instructions", "warnings", "metadata", "index",
    "parallel_tool_calls", "tool_choice", "tools", "previous_response_id", "reasoning",
    "max_output_tokens", "truncation", "text", "include", "temperature", "top_p", "store", "user",
    "prompt_cache_key", "background", "max_tool_calls", "anthropic_version"]

def successCode (status : Value) : Bool :=
  match status.asU64 with
  | some status => 200 ≤ status && status < 300
  | none => false

def validateStatus (status : Value) : Check Unit :=
  match status with
  | .string status =>
    ensure (validSuccessStatus status) "replay response reports a non-success status"
  | .number status =>
    ensure (successCode (.number status)) "replay response reports a non-success status"
  | .null => .ok ()
  | _ => .error "replay response status has an invalid type"

def validateStopReason (reason : Value) : Check Unit := do
  let reason ← require reason.asStr "replay response stop_reason must be text"
  ensure (validAnthropicStopReason reason) "replay response reports an unsupported stop reason"

def recognizedShapes (value : Value) : ℕ :=
  (["choices", "content", "output"].filter fun field => (value.get field).isSome).length

def validateEnvelope (value : Value) : Check Unit := do
  ensure value.isObject "replay recording is not a JSON object"
  rejectUnknownFields value envelopeFields
  optional (value.get "type") fun kind =>
    ensure (isText "message" kind) "replay response type is invalid"
  optional (value.get "role") fun role =>
    ensure (isText "assistant" role) "replay response role is invalid"
  optional (value.get "stop_sequence") (unlessNull fun sequence =>
    ensure (sequence.asStr.any fun text => validReplayIdentifier text maxReplayIdBytes)
      "replay response stop_sequence is invalid")
  ensure (value.get "error").isNone "replay recording contains an explicit error"
  optional (value.get "status") validateStatus
  optional (value.get "stop_reason") (unlessNull validateStopReason)
  ensure (decide (recognizedShapes value ≤ 1)) "replay response contains multiple provider shapes"

end Envelope

section Shapes

variable (parse : Text → Option Value)

/-- Arguments text has to be the JSON of an object. -/
def validateArguments (arguments notJson notObject : Text) : Check Unit := do
  let parsed ← require (parse arguments) notJson
  ensure parsed.isObject notObject

def validateMessageBlock (block : Value) : Check Bool := do
  ensure block.isObject "replay content block must be an object"
  let kind ← require (block.get "type" >>= Value.asStr) "replay content block needs a type"
  ensure (isTextKind kind) "replay content block type is not supported"
  rejectUnknownFields block ["type", "text", "annotations", "citations"]
  let text ← require (nonEmptyText (block.get "text"))
    "replay content block needs non-empty text"
  return !text.isEmpty

def validateMessageContent (content : Option Value) : Check Bool :=
  match content with
  | none | some .null => .ok false
  | some (.string text) => do
    ensure (!text.isEmpty) "replay message content is empty"
    return true
  | some (.array blocks) => do
    ensure (!blocks.isEmpty) "replay message content array is empty"
    eachUsable validateMessageBlock blocks false
  | some _ => .error "replay message content has an invalid shape"

def validateReasoning (reasoning : Option Value) : Check Bool :=
  match reasoning with
  | none | some .null => .ok false
  | some reasoning => do
    let text ← require reasoning.asStr "replay message reasoning must be a string"
    ensure (!text.isEmpty) "replay message reasoning is empty"
    return true

/-- The last test repeats, for the name, what the identifier test has established. -/
def validateToolCall (call : Value) : Check Bool := do
  ensure call.isObject "replay tool call must be an object"
  rejectUnknownFields call ["id", "type", "function", "index"]
  let kind ← require (call.get "type" >>= Value.asStr) "replay tool call needs a type"
  ensure (kind == ("function" : Text)) "replay tool call type is not supported"
  let function ← require ((call.get "function").filter Value.isObject)
    "replay tool call needs a function object"
  rejectUnknownFields function ["name", "arguments"]
  let id ← require (call.get "id" >>= Value.asStr) "replay tool call needs an id"
  let name ← require (function.get "name" >>= Value.asStr) "replay tool call needs a name"
  let arguments ← require (function.get "arguments" >>= Value.asStr)
    "replay tool call needs arguments text"
  ensure (validReplayIdentifier id maxReplayIdBytes &&
      validReplayIdentifier name maxProviderToolNameBytes && !(trim arguments).isEmpty)
    "replay tool call is missing id, name, or arguments"
  validateArguments parse arguments "replay tool call arguments are not JSON"
    "replay tool call arguments must be an object"
  ensure (decide (utf8Len name ≤ maxProviderToolNameBytes) && !name.any isControl)
    "replay tool call name is invalid"
  return true

def validateToolCalls (calls : Option Value) (usable : Bool) : Check Bool :=
  match calls with
  | none => .ok usable
  | some calls => do
    let calls ← require calls.asArray "replay tool_calls must be an array"
    eachUsable (validateToolCall parse) calls usable

def validateOpenaiMessage (message : Value) : Check Bool := do
  rejectUnknownFields message
    ["role", "content", "reasoning", "tool_calls", "name", "annotations", "refusal", "audio",
      "function_call"]
  optional (message.get "role") (unlessNull fun role =>
    ensure (isText "assistant" role) "replay message role is invalid")
  optional (message.get "refusal") (unlessNull fun _ =>
    .error "replay message contains a refusal")
  optional (message.get "function_call") (unlessNull fun _ =>
    .error "replay message contains an unsupported function_call")
  optional (message.get "audio") (unlessNull fun _ =>
    .error "replay message contains unsupported audio")
  let content ← validateMessageContent (message.get "content")
  let reasoning ← validateReasoning (message.get "reasoning")
  validateToolCalls parse (message.get "tool_calls") (content || reasoning)

def validateFinishReason (reason : Value) : Check Unit := do
  let reason ← require reason.asStr "replay choice finish_reason must be text"
  ensure (validOpenaiFinishReason reason) "replay choice reports an unsupported finish reason"

def validateChoice (choice : Value) : Check Bool := do
  ensure choice.isObject "replay choice must be an object"
  rejectUnknownFields choice ["index", "message", "finish_reason", "logprobs"]
  ensure (choice.get "error").isNone "replay choice contains an explicit error"
  optional (choice.get "finish_reason") (unlessNull validateFinishReason)
  let message ← require ((choice.get "message").filter Value.isObject)
    "replay choice needs an object message"
  let usable ← validateOpenaiMessage parse message
  ensure usable "replay choice contains no usable completion event"
  return true

def validateChoices (choices : Value) : Check Unit := do
  let choices ← require choices.asArray "replay choices must be an array"
  ensure (!choices.isEmpty) "replay recording contains no choices"
  let usable ← eachUsable (validateChoice parse) choices false
  ensure usable "replay recording contains no usable completion event"

def validateTextBlock (block : Value) : Check Bool := do
  rejectUnknownFields block ["type", "text", "annotations", "citations"]
  let text ← require (nonEmptyText (block.get "text")) "replay text block needs non-empty text"
  return !text.isEmpty

/-- `object.get(first).or_else(|| object.get(second))` -/
def eitherField (object : Value) (first second : Text) : Option Value :=
  (object.get first).or (object.get second)

def validateToolInput (block : Value) : Check Unit :=
  match block.get "arguments" with
  | some arguments => do
    let arguments ← require arguments.asStr "replay tool_use arguments must be JSON text"
    validateArguments parse arguments "replay tool_use arguments are not JSON"
      "replay tool_use arguments must be an object"
  | none =>
    ensure ((block.get "input").any Value.isObject) "replay tool_use input must be an object"

def validateToolUse (block : Value) : Check Bool := do
  rejectUnknownFields block
    ["type", "id", "call_id", "name", "input", "arguments", "cache_control", "stop_reason",
      "index", "text"]
  ensure (!((block.get "input").isSome && (block.get "arguments").isSome))
    "replay tool_use must not declare both input and arguments"
  let id := eitherField block "id" "call_id" >>= Value.asStr
  let name := block.get "name" >>= Value.asStr
  ensure (id.any (fun id => validReplayIdentifier id maxReplayIdBytes) &&
      name.any (fun name => validReplayIdentifier name maxProviderToolNameBytes) &&
      ((block.get "input").isSome || (block.get "arguments").isSome))
    "replay tool_use block is incomplete"
  validateToolInput parse block
  return true

def validateThinking (block : Value) (message : Text) : Check Bool := do
  rejectUnknownFields block ["type", "thinking", "signature"]
  ensure (nonEmptyText (block.get "thinking")).isSome message
  return true

/-- Redacted thinking is skipped in a replay: it never makes a body usable. -/
def validateRedactedThinking (block : Value) (message : Text) : Check Bool := do
  rejectUnknownFields block ["type", "data"]
  ensure ((block.get "data" >>= Value.asStr).isSome) message
  return false

def validateContentBlock (block : Value) : Check Bool := do
  ensure block.isObject "replay content block must be an object"
  let kind ← require (block.get "type" >>= Value.asStr) "replay content block needs a type"
  if isTextKind kind then validateTextBlock block
  else if oneOf ["tool_use", "function_call"] kind then validateToolUse parse block
  else if kind = ("thinking" : Text) then
    validateThinking block "replay thinking block needs non-empty text"
  else if kind = ("redacted_thinking" : Text) then
    validateRedactedThinking block "replay redacted thinking block is incomplete"
  else .error "replay content block type is not supported"

def validateContent (content : Value) : Check Unit := do
  let content ← require content.asArray "replay content must be an array"
  ensure (!content.isEmpty) "replay recording contains no content blocks"
  let usable ← eachUsable (validateContentBlock parse) content false
  ensure usable "replay recording contains no usable content block"

def validateOutputTextBlock (block : Value) : Check Bool := do
  rejectUnknownFields block ["type", "text", "annotations", "citations"]
  ensure (nonEmptyText (block.get "text")).isSome "replay output text block needs non-empty text"
  return true

def validateOutputBlock (block : Value) : Check Bool := do
  ensure block.isObject "replay output block must be an object"
  let kind ← require (block.get "type" >>= Value.asStr) "replay output block needs a type"
  if isTextKind kind then validateOutputTextBlock block
  else if kind = ("thinking" : Text) then
    validateThinking block "replay output thinking block needs non-empty text"
  else if kind = ("redacted_thinking" : Text) then
    validateRedactedThinking block "replay output redacted thinking block is incomplete"
  else .error "replay output content block type is not supported"

def validateOutputMessage (item : Value) : Check Bool := do
  rejectUnknownFields item ["type", "id", "status", "role", "content", "index"]
  optional (item.get "role") (unlessNull fun role =>
    ensure (isText "assistant" role) "replay output message role is invalid")
  let content ← require (item.get "content") "replay output message needs content"
  let blocks ← require content.asArray "replay output content must be an array"
  ensure (!blocks.isEmpty) "replay output message has no content blocks"
  let usable ← eachUsable validateOutputBlock blocks false
  ensure usable "replay output message has no usable content"
  return true

def textOr (value : Option Value) : Text := (value >>= Value.asStr).getD []

def validateFunctionCall (item : Value) : Check Bool := do
  rejectUnknownFields item ["type", "id", "call_id", "name", "arguments", "status", "index"]
  ensure (!((item.get "id").isSome && (item.get "call_id").isSome))
    "replay function call declares two identifiers"
  let arguments := textOr (item.get "arguments")
  ensure (validReplayIdentifier (textOr (eitherField item "call_id" "id")) maxReplayIdBytes &&
      validReplayIdentifier (textOr (item.get "name")) maxProviderToolNameBytes &&
      !(trim arguments).isEmpty)
    "replay function call is incomplete"
  validateArguments parse arguments "replay function call arguments are not JSON"
    "replay function call arguments must be an object"
  return true

def validateSummaryPart (part : Value) : Check Unit := do
  ensure part.isObject "replay reasoning summary part must be an object"
  rejectUnknownFields part ["type", "text"]
  ensure ((part.get "type" >>= Value.asStr) == some "summary_text".toList &&
      (nonEmptyText (part.get "text")).isSome)
    "replay reasoning summary is malformed"

def validateReasoningItem (item : Value) : Check Bool := do
  rejectUnknownFields item ["type", "id", "summary", "encrypted_content", "status", "index"]
  optional (item.get "encrypted_content") fun encrypted =>
    ensure encrypted.asStr.isSome "replay reasoning encrypted_content must be text"
  optional (item.get "summary") fun summary => do
    let summary ← require summary.asArray "replay reasoning summary must be an array"
    eachValue validateSummaryPart summary
  return false

def validateItemStatus (status : Value) : Check Unit := do
  let status ← require status.asStr "replay output item status must be text"
  ensure (validSuccessStatus status) "replay output item reports a non-success status"

def validateOutputItem (item : Value) : Check Bool := do
  ensure item.isObject "replay output item must be an object"
  let kind ← require (item.get "type" >>= Value.asStr) "replay output item needs a type"
  optional (item.get "status") (unlessNull validateItemStatus)
  if kind = ("message" : Text) then validateOutputMessage item
  else if kind = ("function_call" : Text) then validateFunctionCall parse item
  else if kind = ("reasoning" : Text) then validateReasoningItem item
  else .error "replay output item type is not supported"

def validateOutput (output : Value) : Check Unit := do
  let output ← require output.asArray "replay output must be an array"
  ensure (!output.isEmpty) "replay recording contains no output items"
  let usable ← eachUsable (validateOutputItem parse) output false
  ensure usable "replay recording contains no usable output item"

def validateShapes (value : Value) : Check Unit :=
  match value.get "choices" with
  | some choices => validateChoices parse choices
  | none =>
    match value.get "content" with
    | some content => validateContent parse content
    | none =>
      match value.get "output" with
      | some output => validateOutput parse output
      | none => .error "replay recording has no recognized response shape"

def validateReplayShape (value : Value) : Check Unit := do
  validateEnvelope value
  validateShapes parse value

end Shapes

def validReplayText (text : Text) : Bool :=
  text.all fun c => !isControl c || c == '\n' || c == '\r' || c == '\t'

mutual

/-- Tool payloads are arbitrary JSON; every other text field is provider text. -/
def replayTextFieldsValid : Value → Bool
  | .object fields => replayFieldsValid fields
  | .array values => replayValuesValid values
  | _ => true

def replayValuesValid : List Value → Bool
  | [] => true
  | value :: values => replayTextFieldsValid value && replayValuesValid values

def replayFieldsValid : List (Text × Value) → Bool
  | [] => true
  | (key, value) :: fields =>
    (if oneOf ["arguments", "input", "tool_calls", "function"] key then true
      else if key = ("content" : Text) then
        match value.asStr with
        | some text => validReplayText text
        | none => replayTextFieldsValid value
      else if oneOf ["text", "thinking", "reasoning"] key then
        (key == ("reasoning" : Text) && value.isNull) || value.asStr.any validReplayText
      else replayTextFieldsValid value) && replayFieldsValid fields

end

def validateReplayBody (parse : Text → Option Value) (value : Value) : Check Unit := do
  validateReplayShape parse value
  ensure (replayTextFieldsValid value)
    "replay response text contains an unsupported control character"

end Siralos.Replay
