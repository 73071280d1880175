import Siralos.Json

/-!
# Provider events

The provider-neutral event set, the trust boundary for external event data and
the typed failures of one bounded turn.
-/

set_option autoImplicit false

namespace Siralos.Provider
open Json

/-- `serde_json` is a dependency: its reader and writer are parameters. -/
structure SerdeJson where
  fromStr : Text → Option Value
  toStr : Value → Text

/-- Detached tool input. Only the trusted typed-event path knows its source text. -/
structure ToolCallInput where
  value : Value
  orderedJson : Option Text
  deriving Repr

namespace ToolCallInput

def fromValue (value : Value) : ToolCallInput := { value, orderedJson := none }

def maxOrderedJsonBytes : ℕ := 1024 * 1024

def fromOrderedJson (serde : SerdeJson) (value : Value) (orderedJson : Text) : ToolCallInput :=
  { value
    orderedJson :=
      if Text.utf8Len orderedJson ≤ maxOrderedJsonBytes ∧ (serde.fromStr orderedJson).isSome then
        some orderedJson
      else none }

def serializedJson (serde : SerdeJson) (input : ToolCallInput) : Text :=
  input.orderedJson.getD (serde.toStr input.value)

end ToolCallInput

inductive ModelEvent where
  | textDelta (text : Text)
  | reasoningDelta (text : Text)
  | toolCall (callId toolName : Text) (input : ToolCallInput)
  | completed
  deriving Repr

inductive ProtocolFailure where
  | unknownEventType
  | malformedEvent
  | malformedTextEvent
  | malformedToolCall
  | invalidToolArgumentJson
  deriving DecidableEq, Repr

inductive LimitClass where
  | assistantTextBytes
  | textEventCount
  | toolCallCount
  | callIdBytes
  | toolNameBytes
  | toolArgumentBytes
  | aggregateTurnBytes
  deriving DecidableEq, Repr

inductive TurnFailure where
  | limitExceeded (limit : LimitClass)
  | eventAfterCompletion
  | eofWithoutCompletion
  | protocol (failure : ProtocolFailure)
  | providerFailed (message : Text)
  | invalidTranscript (detail : Text)
  deriving DecidableEq, Repr

inductive ProviderEvent where
  | event (event : ModelEvent)
  | raw (value : Value)
  | cancelled (message : Text)
  | failed (message : Text)
  deriving Repr

structure ProviderTurnLimits where
  maxAssistantTextBytes : ℕ := 64 * 1024
  maxTextEvents : ℕ := 4096
  maxToolCallsPerTurn : ℕ := 32
  maxCallIdBytes : ℕ := 256
  maxToolNameBytes : ℕ := 256
  maxToolArgumentBytes : ℕ := 128 * 1024
  maxTurnBytes : ℕ := 256 * 1024
  deriving DecidableEq, Repr

structure ToolDefinition where
  name : Text
  description : Text
  inputSchema : Value
  deriving Repr

def limitFragment : LimitClass → Text
  | .assistantTextBytes => "the assistant-text byte limit"
  | .textEventCount => "the text-event count"
  | .toolCallCount => "the tool-call count"
  | .callIdBytes => "the tool-call id byte limit"
  | .toolNameBytes => "the tool-name byte limit"
  | .toolArgumentBytes => "the tool-argument byte limit"
  | .aggregateTurnBytes => "the aggregate turn byte limit"

def applicationMessage : TurnFailure → Text
  | .limitExceeded limit =>
    ("The provider exceeded " : Text) ++ limitFragment limit ++
      (" limit; the response was rejected." : Text)
  | .eventAfterCompletion =>
    "The provider exceeded an event after completion limit; the response was rejected."
  | .eofWithoutCompletion =>
    "The provider stream ended without a completion event; the response was rejected."
  | .protocol .unknownEventType =>
    "The provider emitted an unknown event type; the response was rejected."
  | .protocol .malformedEvent =>
    "The provider emitted a malformed event; the response was rejected."
  | .protocol .malformedTextEvent =>
    "The provider emitted a text event without a string payload; the response was rejected."
  | .protocol .malformedToolCall =>
    "The provider emitted a tool call with a non-string id or name; the response was rejected."
  | .protocol .invalidToolArgumentJson =>
    "The provider exceeded the tool-argument JSON validity limit; the response was rejected."
  | .providerFailed message => message
  | .invalidTranscript detail =>
    ("The conversation transcript is structurally invalid; the provider request was blocked: "
      : Text) ++ detail

/-- The discriminator decides; a malformed known variant is never coerced. -/
def validateExternalEvent (raw : Value) : Except ProtocolFailure ModelEvent :=
  match raw with
  | .object _ =>
    match raw.get "type" with
    | some (.string kind) =>
      if kind = ("completed" : Text) then .ok .completed
      else if kind = ("text_delta" : Text) then
        match raw.get "text" with
        | some (.string text) => .ok (.textDelta text)
        | _ => .error .malformedTextEvent
      else if kind = ("reasoning_delta" : Text) then
        match raw.get "text" with
        | some (.string text) => .ok (.reasoningDelta text)
        | _ => .error .malformedTextEvent
      else if kind = ("tool_call" : Text) then
        match raw.get "callId", raw.get "toolName" with
        | some (.string callId), some (.string toolName) =>
          match raw.get "input" with
          | some input => .ok (.toolCall callId toolName (.fromValue input))
          | none => .error .invalidToolArgumentJson
        | _, _ => .error .malformedToolCall
      else .error .unknownEventType
    | _ => .error .unknownEventType
  | _ => .error .malformedEvent

end Siralos.Provider
