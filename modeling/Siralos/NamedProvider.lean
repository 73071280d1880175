import Siralos.Text
import Siralos.Replay
import Siralos.StreamRedactor
import Siralos.StreamingTurn

/-!
# Named providers

The walks over the response bodies of the two named providers, from the parsed body to the events
that are shown.
-/

set_option autoImplicit false

namespace Siralos.NamedProvider

open Text Json Provider Replay Redaction Streaming

/-- `text.replace('\r', "")` -/
def withoutCr (text : Text) : Text := text.filter (· ≠ '\r')

def textDelta (text : Text) : ProviderEvent := .event (.textDelta (withoutCr text))

/-- A loop whose items each push some events; the first refusal ends it. -/
def eachEvents (walk : Value → Check (List ProviderEvent)) :
    List Value → Check (List ProviderEvent)
  | [] => .ok []
  | value :: values => do
    let events ← walk value
    let rest ← eachEvents walk values
    return events ++ rest

/-- An identifier of a tool call that the walks refuse. -/
def badIdentifier (text : Text) (maxBytes : ℕ) : Bool :=
  text.isEmpty || decide (maxBytes < utf8Len text) || text.any isControl

/-- The events of the content so far, and whether one of its texts was invalid. -/
structure OpenaiContent where
  events : List ProviderEvent
  invalidText : Bool

def OpenaiContent.addText (s : OpenaiContent) (text : Text) : OpenaiContent :=
  if text.isEmpty || !validReplayText text then { s with invalidText := true }
  else { s with events := s.events ++ [textDelta text] }

def openaiParts : List Value → OpenaiContent → Check OpenaiContent
  | [], s => .ok s
  | part :: parts, s => do
    ensure part.isObject "openai response content block must be an object"
    let kind := ((part.get "type" >>= Value.asStr).getD "text")
    ensure (isTextKind kind) "openai response content block type is not supported"
    let text ← require (part.get "text" >>= Value.asStr) "openai response content block needs text"
    openaiParts parts (s.addText text)

def openaiContent (content : Option Value) : Check OpenaiContent :=
  match content with
  | none | some .null => .ok ⟨[], false⟩
  | some (.string text) => .ok (OpenaiContent.addText ⟨[], false⟩ text)
  | some (.array parts) => do
    ensure (!parts.isEmpty) "openai response content array is empty"
    openaiParts parts ⟨[], false⟩
  | some _ => .error "openai response message content has an invalid shape"

def openaiReasoning (reasoning : Option Value) : Check (List ProviderEvent) :=
  match reasoning with
  | none | some .null => .ok []
  | some reasoning => do
    let text ← require reasoning.asStr "openai response reasoning must be a string"
    ensure (!text.isEmpty) "openai response reasoning is empty"
    ensure (validReplayText text) "openai response reasoning contains disallowed controls"
    return [.event (.reasoningDelta text)]

section Openai

variable (parse : Text → Option Value)

def openaiToolCall (call : Value) : Check (List ProviderEvent) := do
  let function := call.get "function"
  let id := textOr (call.get "id")
  let name := textOr (function >>= (·.get "name"))
  ensure (!(badIdentifier id maxReplayIdBytes || badIdentifier name maxProviderToolNameBytes))
    "openai response contains an invalid tool call"
  let arguments ← require (function >>= (·.get "arguments") >>= Value.asStr)
    "openai response tool call is missing arguments"
  let input ← require (parse arguments) "openai response tool arguments are not valid JSON"
  ensure input.isObject "openai response tool arguments must be a JSON object"
  return [.event (.toolCall id name (.fromValue input))]

def openaiToolCalls (calls : Option Value) : Check (List ProviderEvent) :=
  match calls with
  | none => .ok []
  | some calls => do
    let calls ← require calls.asArray "openai response tool_calls must be an array"
    eachEvents (openaiToolCall parse) calls

def reportsError (choice : Value) : Bool :=
  (choice.get "error").isSome ||
    (choice.get "finish_reason" >>= Value.asStr).any fun reason =>
      toAsciiLowercase reason == "error".toList

def openaiChoice (choice : Value) : Check (List ProviderEvent) := do
  ensure (!reportsError choice) "openai response choice contains an explicit error"
  let message ← require ((choice.get "message").filter Value.isObject)
    "openai response choice is missing an object message"
  let content ← openaiContent (message.get "content")
  let reasoning ← openaiReasoning (message.get "reasoning")
  ensure (!content.invalidText) "openai response text contains disallowed controls"
  let calls ← openaiToolCalls parse (message.get "tool_calls")
  return content.events ++ (reasoning ++ calls)

/-- Every event that the walk pushes makes the completion usable. -/
def openaiBody (value : Value) : Check (List ProviderEvent) := do
  ensure (value.get "error").isNone "openai response contains an explicit error"
  let choices ← require ((value.get "choices" >>= Value.asArray).filter fun choices =>
    !choices.isEmpty) "openai response did not contain a usable completion"
  let events ← eachEvents (openaiChoice parse) choices
  ensure (!events.isEmpty) "openai response did not contain a usable completion"
  return events

end Openai

def textFieldIsValid (block : Value) : Bool :=
  (block.get "text").all fun text => text.asStr.any validReplayText

def pushTextDelta (block : Value) : List ProviderEvent :=
  match nonEmptyText (block.get "text") with
  | some text => if validReplayText text then [textDelta text] else []
  | none => []

def toolCallEvent (block : Value) : Option ProviderEvent :=
  let id := textOr (block.get "id")
  let name := textOr (block.get "name")
  let input := (block.get "input").getD .null
  if badIdentifier id maxReplayIdBytes || badIdentifier name maxProviderToolNameBytes then none
  else if input.isObject then some (.event (.toolCall id name (.fromValue input)))
  else none

def anthropicText (block : Value) : Check (List ProviderEvent) := do
  let text ← require (block.get "text" >>= Value.asStr) "anthropic text block is missing text"
  ensure (!text.isEmpty) "anthropic text block is empty"
  ensure (textFieldIsValid block) "anthropic text block contains disallowed controls"
  return pushTextDelta block

/-- Only the first block of a body shows a text before its call. -/
def anthropicToolUse (first : Bool) (block : Value) : Check (List ProviderEvent) := do
  ensure (!first || textFieldIsValid block) "anthropic text block contains disallowed controls"
  ensure ((block.get "input").isSome && (block.get "id" >>= Value.asStr).isSome &&
    (block.get "name" >>= Value.asStr).isSome) "anthropic tool_use block is incomplete"
  let event ← require (toolCallEvent block) "anthropic tool_use block is invalid"
  return (if first then pushTextDelta block else []) ++ [event]

def anthropicThinking (block : Value) : Check (List ProviderEvent) := do
  let thinking ← require (block.get "thinking" >>= Value.asStr)
    "anthropic thinking block is incomplete"
  ensure (!(thinking.isEmpty || !validReplayText thinking)) "anthropic thinking block is invalid"
  return [.event (.reasoningDelta (withoutCr thinking))]

/-- A block of another kind is checked, and not shown. -/
def anthropicOther (block : Value) : Check (List ProviderEvent) := do
  ensure ((block.get "text" >>= Value.asStr).all validReplayText)
    "anthropic content block contains disallowed controls"
  return []

def anthropicBlock (first : Bool) (block : Value) : Check (List ProviderEvent) := do
  let kind ← require (block.get "type" >>= Value.asStr) "anthropic content block needs a type"
  if kind = ("text" : Text) then anthropicText block
  else if kind = ("tool_use" : Text) then anthropicToolUse first block
  else if kind = ("thinking" : Text) then anthropicThinking block
  else if kind = ("redacted_thinking" : Text) then do
    ensure (block.get "data" >>= Value.asStr).isSome
      "anthropic redacted thinking block is incomplete"
    return []
  else anthropicOther block

def anthropicBlocks : List Value → Check (List ProviderEvent)
  | [] => .ok []
  | block :: blocks => do
    let events ← anthropicBlock true block
    let rest ← eachEvents (anthropicBlock false) blocks
    return events ++ rest

/-- A text that is shown before a call does not stand without the call. -/
def anthropicBody (value : Value) : Check (List ProviderEvent) := do
  ensure (value.get "error").isNone "anthropic response contains an explicit error"
  let blocks ← require ((value.get "content" >>= Value.asArray).filter fun blocks =>
    !blocks.isEmpty) "anthropic response did not contain a usable completion"
  let events ← anthropicBlocks blocks
  ensure (!events.isEmpty) "anthropic response did not contain a usable completion"
  return events

section Shown

variable (serde : SerdeJson) (credential : Text) (names : ToolNames)

/-- The names are restored, the credential redacted and the turn completed. -/
def showEvents (events : List ProviderEvent) : List ProviderEvent :=
  let (redactor, shown) := redactEvents serde (.new (some credential)) (names.restoreEvents events)
  shown ++ (redactor.finish.2.map fun tail => .event (.textDelta tail)).toList ++
    [.event .completed]

/-- The call ends after the walk over a body of a successful response. -/
def callNamed (provider : Text) (walk : Value → Check (List ProviderEvent)) (text : Text) :
    List ProviderEvent :=
  match serde.fromStr text with
  | none => [.failed (provider ++ " response JSON parse failed".toList)]
  | some value =>
    match walk value with
    | .error reason => [.failed reason]
    | .ok events => showEvents serde credential names events

def callOpenai (text : Text) : List ProviderEvent :=
  callNamed serde credential names "openai" (openaiBody serde.fromStr) text

def callAnthropic (text : Text) : List ProviderEvent :=
  callNamed serde credential names "anthropic" anthropicBody text

end Shown

end Siralos.NamedProvider
