import Siralos.Emission
import Siralos.Replay

/-!
# Replay playback

A validated body turned back into provider events, one response shape after the other.
-/

set_option autoImplicit false

namespace Siralos.Replay
open Text Json Provider Emission

abbrev Player := Emission Unit ProviderEvent Unit

/-- `events.push(Failed(message)); return events` -/
def stop (message : Text) : Player := do
  emit (.failed message)
  leave

def playText (text : Option Value) : Player :=
  match nonEmptyText text with
  | some text => emit (.event (.textDelta text))
  | none => pure ()

def playReasoning (text : Option Value) : Player :=
  match nonEmptyText text with
  | some text => emit (.event (.reasoningDelta text))
  | none => pure ()

def kindOf (block : Value) : Option Text := block.get "type" >>= Value.asStr

def playMessageBlock (hasChoices : Bool) (block : Value) : Player :=
  if kindOf block = some ("thinking" : Text) then playReasoning (block.get "thinking")
  else if hasChoices && !(kindOf block).any isTextKind then pure ()
  else playText (block.get "text")

def playMessageContent (hasChoices : Bool) (content : Option Value) : Player :=
  match content with
  | none => pure ()
  | some content =>
    match nonEmptyText (some content), content.asArray with
    | some text, _ => emit (.event (.textDelta text))
    | none, some blocks => each (playMessageBlock hasChoices) blocks
    | none, none => pure ()

section Parsed

variable (parse : Text → Option Value)

def playToolCall (call : Value) : Player :=
  let function := call.get "function"
  match function >>= (·.get "arguments") >>= Value.asStr with
  | none => stop "replay tool call arguments are missing"
  | some arguments =>
    match parse arguments with
    | none => stop "replay tool call arguments are invalid JSON"
    | some input =>
      let id := textOr (call.get "id")
      let name := textOr (function >>= (·.get "name"))
      if input.isObject = false then stop "replay tool call arguments must be an object"
      else if id.isEmpty || name.isEmpty then stop "replay tool call is incomplete"
      else emit (.event (.toolCall id name (.fromValue input)))

def playToolCalls (calls : Option Value) : Player :=
  match calls >>= Value.asArray with
  | some calls => each (playToolCall parse) calls
  | none => pure ()

def playChoice (hasChoices : Bool) (choice : Value) : Player := do
  let message := (choice.get "message").getD .null
  playReasoning (message.get "reasoning")
  playMessageContent hasChoices (message.get "content")
  playToolCalls parse (message.get "tool_calls")

def choicesOf (value : Value) : List Value := (value.get "choices" >>= Value.asArray).getD []

def playOutputBlock (block : Value) : Player :=
  if kindOf block = some ("thinking" : Text) then playReasoning (block.get "thinking")
  else playText (block.get "text")

def playFunctionCall (item : Value) : Player :=
  match item.get "arguments" >>= Value.asStr with
  | none => stop "replay function call arguments are missing"
  | some arguments =>
    match parse arguments with
    | none => stop "replay function call arguments are invalid JSON"
    | some input =>
      let id := textOr (eitherField item "call_id" "id")
      let name := textOr (item.get "name")
      if input.isObject = false then stop "replay function call arguments must be an object"
      else if id.isEmpty || name.isEmpty || decide (maxReplayIdBytes < utf8Len id) ||
          id.any isControl || decide (maxProviderToolNameBytes < utf8Len name) ||
          name.any isControl then
        stop "replay function call is incomplete"
      else emit (.event (.toolCall id name (.fromValue input)))

def playOutputItem (item : Value) : Player := do
  match item.get "content" >>= Value.asArray with
  | some blocks => each playOutputBlock blocks
  | none => pure ()
  if kindOf item = some ("function_call" : Text) then playFunctionCall parse item else pure ()

def playOutput (value : Value) : Player :=
  match value.get "output" >>= Value.asArray with
  | some items => each (playOutputItem parse) items
  | none => pure ()

/-- An input that is JSON text is read; any other input stands as it is. -/
def toolInput (block : Value) : Value :=
  match eitherField block "input" "arguments" with
  | none => .null
  | some input => (input.asStr >>= parse).getD input

def playToolUse (block : Value) : Player :=
  let id := textOr (eitherField block "id" "call_id")
  let name := textOr (block.get "name")
  let input := toolInput parse block
  if validReplayIdentifier id maxReplayIdBytes &&
      validReplayIdentifier name maxProviderToolNameBytes && input.isObject then
    emit (.event (.toolCall id name (.fromValue input)))
  else stop "replay tool call is incomplete"

def playContentBlock (block : Value) : Player :=
  match kindOf block with
  | none => stop "replay content block needs a type"
  | some kind =>
    if isTextKind kind then playText (block.get "text")
    else if kind = ("thinking" : Text) then playReasoning (block.get "thinking")
    else if oneOf ["tool_use", "function_call"] kind then playToolUse parse block
    else if kind = ("redacted_thinking" : Text) then
      if (block.get "data" >>= Value.asStr).isSome then pure ()
      else stop "replay redacted thinking block is incomplete"
    else pure ()

def playContent (value : Value) : Player :=
  if (value.get "choices").isSome || (value.get "output").isSome then pure ()
  else
    match value.get "content" >>= Value.asArray with
    | some blocks => each (playContentBlock parse) blocks
    | none => pure ()

def playBody (value : Value) : Player := do
  let choices := choicesOf value
  each (playChoice parse (!choices.isEmpty)) choices
  playOutput parse value
  playContent parse value

end Parsed

/-- The refusals after the loops; each drops the events before it. -/
def closeRefusal (value : Value) (events : List ProviderEvent) : Option Text :=
  let choices := value.get "choices"
  let content := value.get "content"
  if choices.isNone && content.isNone && (value.get "output").isNone then
    some "replay recording has an unsupported response shape"
  else if choices.isSome && (choices >>= Value.asArray).isNone then
    some "replay recording choices must be an array"
  else if content.isSome && (content >>= Value.asArray).isNone then
    some "replay recording content must be an array"
  else if choices.isSome && (choices >>= Value.asArray).any List.isEmpty then
    some "replay recording contains no choices"
  else if content.isSome && (content >>= Value.asArray).any List.isEmpty then
    some "replay recording contains no content blocks"
  else if events.isEmpty then some "replay recording contains no usable completion event"
  else none

def closeReplay (value : Value) (events : List ProviderEvent) : List ProviderEvent :=
  match closeRefusal value events with
  | some message => [.failed message]
  | none => events ++ [.event .completed]

def eventsOfValue (parse : Text → Option Value) (value : Value) : List ProviderEvent :=
  match validateReplayBody parse value with
  | .error reason => [.failed reason]
  | .ok () =>
    match (playBody parse value).run () with
    | (none, _, events) => events
    | (some _, _, events) => closeReplay value events

def completionEventsFromBody (parse : Text → Option Value) (text : Text) : List ProviderEvent :=
  match (parse text).filter Value.isObject with
  | none => [.failed "replay recording is not a JSON object"]
  | some value => eventsOfValue parse value

end Siralos.Replay
