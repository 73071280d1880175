import Siralos.Provider

/-!
# The conversation transcript

Provider-visible conversation items, the pairing rule every transcript has
to pass before a provider turn opens, and what the items are estimated at: four
UTF-8 bytes a token, rounded up once for each text or item.
-/

set_option autoImplicit false

namespace Siralos.Conversation
open Json Provider

inductive ToolExecutionResult where
  | success (output : Value) (summary : Text)
  | invalidInput (message : Text)
  | denied (message : Text)
  | conflict (message : Text)
  | failed (message : Text)
  | cancelled (message : Text)
  | timedOut (message : Text)
  | outputLimit (message : Text)
  | sandboxDenied (message : Text)
  | sandboxUnavailable (message : Text)
  | workspaceViolation (message : Text)
  | unavailable (message : Text)
  deriving Repr

inductive AssistantToolCallInput where
  | present (value : Value)
  | omitted
  deriving Repr

inductive ConversationItem where
  | userMessage (content : Text)
  | assistantMessage (content : Text)
  | assistantToolCall (callId toolName : Text) (input : AssistantToolCallInput)
  | toolResult (callId toolName : Text) (result : ToolExecutionResult)
  deriving Repr

inductive TranscriptFailure where
  | unresolvedBeforeUser (callId toolName : Text)
  | emptyCallId
  | duplicateCallId (callId : Text)
  | orphanResult (callId : Text)
  | unresolvedAtEnd (callId toolName : Text)
  deriving DecidableEq, Repr

def TranscriptFailure.message : TranscriptFailure → Text
  | .unresolvedBeforeUser callId toolName =>
    ("Tool call " : Text) ++ callId ++ (" (" : Text) ++ toolName ++
      (") has no result before the next user message." : Text)
  | .emptyCallId => "A tool call has an empty call id."
  | .duplicateCallId callId =>
    ("Tool call id " : Text) ++ callId ++ (" appears more than once." : Text)
  | .orphanResult callId =>
    ("Tool result for " : Text) ++ callId ++ (" has no recorded call." : Text)
  | .unresolvedAtEnd callId toolName =>
    ("Tool call " : Text) ++ callId ++ (" (" : Text) ++ toolName ++ (") has no result." : Text)

structure PendingCall where
  callId : Text
  toolName : Text
  resolved : Bool
  deriving DecidableEq, Repr

/-- Marks the first unresolved entry of `callId`; `none` when there is none. -/
def resolveCall (callId : Text) : List PendingCall → Option (List PendingCall)
  | [] => none
  | call :: rest =>
    if call.callId = callId ∧ call.resolved = false then
      some ({ call with resolved := true } :: rest)
    else (resolveCall callId rest).map (call :: ·)

def firstUnresolved (pending : List PendingCall) : Option PendingCall :=
  pending.find? fun call => !call.resolved

def validateItem (pending : List PendingCall) :
    ConversationItem → Except TranscriptFailure (List PendingCall)
  | .userMessage _ =>
    match firstUnresolved pending with
    | some call => .error (.unresolvedBeforeUser call.callId call.toolName)
    | none => .ok pending
  | .assistantToolCall callId toolName _ =>
    if callId = [] then .error .emptyCallId
    else if pending.any fun call => call.callId == callId && !call.resolved then
      .error (.duplicateCallId callId)
    else .ok (pending ++ [{ callId, toolName, resolved := false }])
  | .toolResult callId _ _ =>
    match resolveCall callId pending with
    | some pending => .ok pending
    | none => .error (.orphanResult callId)
  | .assistantMessage _ => .ok pending

def validateFrom (pending : List PendingCall) :
    List ConversationItem → Except TranscriptFailure Unit
  | [] =>
    match firstUnresolved pending with
    | some call => .error (.unresolvedAtEnd call.callId call.toolName)
    | none => .ok ()
  | item :: items =>
    match validateItem pending item with
    | .error failure => .error failure
    | .ok pending => validateFrom pending items

def validateConversationItems (items : List ConversationItem) : Except TranscriptFailure Unit :=
  validateFrom [] items

end Siralos.Conversation

namespace Siralos.Projection

open Json Provider Conversation

def tokensOfBytes (bytes : ℕ) : ℕ := (bytes + 3) / 4

def estimateTokens (text : Text) : ℕ := tokensOfBytes (Text.utf8Len text)

/-- The summary of a success, else the message. -/
def resultText : ToolExecutionResult → Text
  | .success _ summary => summary
  | .invalidInput message | .denied message | .conflict message | .failed message
  | .cancelled message | .timedOut message | .outputLimit message | .sandboxDenied message
  | .sandboxUnavailable message | .workspaceViolation message | .unavailable message => message

section Conversations

variable (serde : SerdeJson)

def itemBytes : ConversationItem → ℕ
  | .userMessage content => Text.utf8Len content
  | .assistantMessage content => Text.utf8Len content
  | .assistantToolCall callId toolName (.present value) =>
    Text.utf8Len callId + Text.utf8Len toolName + Text.utf8Len (serde.toStr value)
  | .assistantToolCall callId toolName .omitted => Text.utf8Len callId + Text.utf8Len toolName
  | .toolResult callId toolName result =>
    Text.utf8Len callId + Text.utf8Len toolName + Text.utf8Len (resultText result)

def estimateConversationItemTokens (item : ConversationItem) : ℕ :=
  tokensOfBytes (itemBytes serde item)

def estimateConversationTokens (items : List ConversationItem) : ℕ :=
  (items.map (estimateConversationItemTokens serde)).sum

end Conversations

end Siralos.Projection
