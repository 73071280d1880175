import Siralos.Conversation
import Mathlib.Data.List.Nodup

/-!
# One bounded provider turn

Events are accounted in provider order against seven dimensions and collected into
assistant text and tool-call proposals. A call with an empty or repeated id keeps its
place under a synthetic id.
-/

set_option autoImplicit false

namespace Siralos.Turn
open Json Provider Conversation

inductive TurnToolCall where
  | execute (callId toolName : Text) (input : ToolCallInput)
  | invalid (callId toolName message : Text)
  deriving Repr

namespace TurnToolCall

def callId : TurnToolCall → Text
  | execute callId _ _ => callId
  | invalid callId _ _ => callId

def toolName : TurnToolCall → Text
  | execute _ toolName _ => toolName
  | invalid _ toolName _ => toolName

end TurnToolCall

inductive TurnOutcome where
  | turn (assistantText : Text) (textDeltas : List Text) (toolCalls : List TurnToolCall)
  | cancelled
  | failed (failure : TurnFailure)
  deriving Repr

structure BoundedTurnState where
  limits : ProviderTurnLimits := {}
  assistantText : Text := []
  assistantTextBytes : ℕ := 0
  reasoningBytes : ℕ := 0
  textEvents : ℕ := 0
  turnBytes : ℕ := 0
  completionSeen : Bool := false
  deriving Repr

def pushText (state : BoundedTurnState) (text : Text) : Except TurnFailure BoundedTurnState :=
  let textEvents := state.textEvents + 1
  let assistantTextBytes := state.assistantTextBytes + Text.utf8Len text
  let turnBytes := state.turnBytes + Text.utf8Len text
  if textEvents > state.limits.maxTextEvents then .error (.limitExceeded .textEventCount)
  else if assistantTextBytes > state.limits.maxAssistantTextBytes then
    .error (.limitExceeded .assistantTextBytes)
  else if turnBytes > state.limits.maxTurnBytes then .error (.limitExceeded .aggregateTurnBytes)
  else .ok { state with
    textEvents, assistantTextBytes, turnBytes, assistantText := state.assistantText ++ text }

/-- Reasoning has its own byte count against the text allowance. -/
def pushReasoning (state : BoundedTurnState) (text : Text) : Except TurnFailure BoundedTurnState :=
  let textEvents := state.textEvents + 1
  let reasoningBytes := state.reasoningBytes + Text.utf8Len text
  let turnBytes := state.turnBytes + Text.utf8Len text
  if textEvents > state.limits.maxTextEvents then .error (.limitExceeded .textEventCount)
  else if reasoningBytes > state.limits.maxAssistantTextBytes then
    .error (.limitExceeded .assistantTextBytes)
  else if turnBytes > state.limits.maxTurnBytes then .error (.limitExceeded .aggregateTurnBytes)
  else .ok { state with textEvents, reasoningBytes, turnBytes }

def pushToolCall (state : BoundedTurnState) (callIdBytes toolNameBytes argumentBytes : ℕ) :
    Except TurnFailure BoundedTurnState :=
  let turnBytes := state.turnBytes + (callIdBytes + toolNameBytes + argumentBytes)
  if callIdBytes > state.limits.maxCallIdBytes then .error (.limitExceeded .callIdBytes)
  else if toolNameBytes > state.limits.maxToolNameBytes then .error (.limitExceeded .toolNameBytes)
  else if argumentBytes > state.limits.maxToolArgumentBytes then
    .error (.limitExceeded .toolArgumentBytes)
  else if turnBytes > state.limits.maxTurnBytes then .error (.limitExceeded .aggregateTurnBytes)
  else .ok { state with turnBytes }

/-- What accepted events of one turn have added up to. -/
structure Collected where
  state : BoundedTurnState := {}
  toolCalls : List TurnToolCall := []
  seenCallIds : List Text := []
  invalidCallIndex : ℕ := 0
  textDeltas : List Text := []
  reasoningDeltas : List Text := []
  deriving Repr

def invalidCallId (index : ℕ) : Text := ("invalid-call-" : Text) ++ Text.ofNat index

def emptyToolName : Text := ("<empty>" : Text)

def emptyCallMessage : Text :=
  "Provider emitted a tool call with an empty call id or tool name."

def duplicateCallMessage (callId : Text) : Text :=
  ("Duplicate tool call id: " : Text) ++ callId ++ ("." : Text)

def addToolCall (collected : Collected) (callId toolName : Text) (input : ToolCallInput) :
    Collected :=
  if callId = [] ∨ toolName = [] then
    let index := collected.invalidCallIndex + 1
    { collected with
      invalidCallIndex := index
      toolCalls := collected.toolCalls ++
        [.invalid (invalidCallId index) (if toolName = [] then emptyToolName else toolName)
          emptyCallMessage] }
  else if callId ∈ collected.seenCallIds then
    let index := collected.invalidCallIndex + 1
    { collected with
      invalidCallIndex := index
      toolCalls := collected.toolCalls ++
        [.invalid (invalidCallId index) toolName (duplicateCallMessage callId)] }
  else
    { collected with
      seenCallIds := callId :: collected.seenCallIds
      toolCalls := collected.toolCalls ++ [.execute callId toolName input] }

def applyEvent (serde : SerdeJson) (collected : Collected) :
    ModelEvent → Except TurnFailure Collected
  | .completed => .ok { collected with state := { collected.state with completionSeen := true } }
  | .textDelta text =>
    match pushText collected.state text with
    | .error failure => .error failure
    | .ok state => .ok { collected with state, textDeltas := collected.textDeltas ++ [text] }
  | .reasoningDelta text =>
    match pushReasoning collected.state text with
    | .error failure => .error failure
    | .ok state =>
      .ok { collected with state, reasoningDeltas := collected.reasoningDeltas ++ [text] }
  | .toolCall callId toolName input =>
    match pushToolCall collected.state (Text.utf8Len callId) (Text.utf8Len toolName)
        (Text.utf8Len (input.serializedJson serde)) with
    | .error failure => .error failure
    | .ok state =>
      if collected.toolCalls.length ≥ state.limits.maxToolCallsPerTurn then
        .error (.limitExceeded .toolCallCount)
      else .ok (addToolCall { collected with state } callId toolName input)

inductive TurnStep where
  | continue
  | stop
  | terminal (outcome : TurnOutcome)
  deriving Repr

structure ProviderTurnCollector where
  collected : Collected := {}
  failure : Option TurnFailure := none
  terminal : Option TurnOutcome := none
  deriving Repr

namespace ProviderTurnCollector

/-- A failing event may have been counted before it was refused; only `failure` is read
after that. -/
def apply (serde : SerdeJson) (collector : ProviderTurnCollector) (event : ModelEvent) :
    TurnStep × ProviderTurnCollector :=
  match applyEvent serde collector.collected event with
  | .error limit => (.stop, { collector with failure := some limit })
  | .ok collected => (.continue, { collector with collected })

def push (serde : SerdeJson) (collector : ProviderTurnCollector) :
    ProviderEvent → TurnStep × ProviderTurnCollector
  | .cancelled _ => (.terminal .cancelled, { collector with terminal := some .cancelled })
  | .failed message =>
    let outcome := .failed (.providerFailed message)
    (.terminal outcome, { collector with terminal := some outcome })
  | .event event =>
    if collector.collected.state.completionSeen then
      (.stop, { collector with failure := some .eventAfterCompletion })
    else collector.apply serde event
  | .raw raw =>
    if collector.collected.state.completionSeen then
      (.stop, { collector with failure := some .eventAfterCompletion })
    else
      match validateExternalEvent raw with
      | .ok event => collector.apply serde event
      | .error protocol => (.stop, { collector with failure := some (.protocol protocol) })

def finish (collector : ProviderTurnCollector) : TurnOutcome :=
  match collector.terminal with
  | some terminal => terminal
  | none =>
    match collector.failure with
    | some failure => .failed failure
    | none =>
      if collector.collected.state.completionSeen = false then .failed .eofWithoutCompletion
      else .turn collector.collected.state.assistantText collector.collected.textDeltas
        collector.collected.toolCalls

end ProviderTurnCollector

structure ModelRequest where
  messages : List ConversationItem
  tools : List ToolDefinition
  system : Option Text

/-- The provider's own stream of events stays outside the model. -/
def openProviderTurn (history : List ConversationItem) (tools : List ToolDefinition)
    (system : Option Text) (cancelled : Bool) :
    Except TurnOutcome (ModelRequest × ProviderTurnCollector) :=
  match validateConversationItems history with
  | .error failure => .error (.failed (.invalidTranscript failure.message))
  | .ok () =>
    if cancelled then .error .cancelled
    else .ok ({ messages := history, tools, system }, {})

def executeIds (calls : List TurnToolCall) : List Text :=
  calls.filterMap fun
    | .execute callId _ _ => some callId
    | .invalid .. => none

def invalidIds (calls : List TurnToolCall) : List Text :=
  calls.filterMap fun
    | .invalid callId _ _ => some callId
    | .execute .. => none

/-- Provider ids are fresh and named; the synthetic ids count up from one. -/
structure Numbered (collected : Collected) : Prop where
  seen : ∀ callId, callId ∈ collected.seenCallIds ↔ callId ∈ executeIds collected.toolCalls
  named : [] ∉ executeIds collected.toolCalls
  fresh : (executeIds collected.toolCalls).Nodup
  counted : invalidIds collected.toolCalls =
    (List.range collected.invalidCallIndex).map fun index => invalidCallId (index + 1)

@[simp] theorem invalid_ids_append (cs ds : List TurnToolCall) :
    invalidIds (cs ++ ds) = invalidIds cs ++ invalidIds ds := by
  simp [invalidIds]

theorem invalid_call_id_inj {m n : ℕ} (h : invalidCallId m = invalidCallId n) : m = n :=
  Text.of_nat_inj (List.append_cancel_left h)

theorem invalid_call_id_ne_nil (index : ℕ) : invalidCallId index ≠ [] := by
  intro h
  exact absurd (List.append_eq_nil_iff.mp h).1 (by decide)

theorem empty_numbered : Numbered {} := by
  constructor <;> simp [executeIds, invalidIds]

theorem add_invalid_numbered (collected : Collected) (toolName message : Text)
    (h : Numbered collected) :
    Numbered { collected with
      invalidCallIndex := collected.invalidCallIndex + 1
      toolCalls := collected.toolCalls ++
        [.invalid (invalidCallId (collected.invalidCallIndex + 1)) toolName message] } := by
  have hsame : executeIds (collected.toolCalls ++
      [.invalid (invalidCallId (collected.invalidCallIndex + 1)) toolName message]) =
      executeIds collected.toolCalls := by simp [executeIds]
  constructor
  case seen => simpa only [hsame] using h.seen
  case named => simpa only [hsame] using h.named
  case fresh => simpa only [hsame] using h.fresh
  case counted =>
    rw [invalid_ids_append, h.counted, List.range_succ, List.map_append]
    simp [invalidIds]

theorem add_execute_numbered (collected : Collected) (callId toolName : Text)
    (input : ToolCallInput) (hnamed : callId ≠ []) (hfresh : callId ∉ collected.seenCallIds)
    (h : Numbered collected) :
    Numbered { collected with
      seenCallIds := callId :: collected.seenCallIds
      toolCalls := collected.toolCalls ++ [.execute callId toolName input] } := by
  have hids : executeIds (collected.toolCalls ++ [.execute callId toolName input]) =
      executeIds collected.toolCalls ++ [callId] := by simp [executeIds]
  constructor
  case seen =>
    intro id
    simp only [hids, List.mem_cons, List.mem_append, List.not_mem_nil, or_false, h.seen id]
    exact or_comm
  case named =>
    simp only [hids, List.mem_append, List.mem_singleton, not_or]
    exact ⟨h.named, hnamed.symm⟩
  case fresh =>
    rw [hids]
    refine List.Nodup.append h.fresh (by simp) ?_
    simpa using fun hm => hfresh ((h.seen callId).mpr hm)
  case counted =>
    rw [invalid_ids_append, h.counted]
    simp [invalidIds]

theorem add_tool_call_numbered (collected : Collected) (callId toolName : Text)
    (input : ToolCallInput) (h : Numbered collected) :
    Numbered (addToolCall collected callId toolName input) := by
  unfold addToolCall
  split
  · exact add_invalid_numbered collected _ _ h
  · rename_i hnamed
    split
    · exact add_invalid_numbered collected _ _ h
    · rename_i hfresh
      exact add_execute_numbered collected callId toolName input (fun hc => hnamed (.inl hc))
        hfresh h

theorem apply_event_numbered (serde : SerdeJson) (collected collected' : Collected)
    (event : ModelEvent) (h : Numbered collected)
    (he : applyEvent serde collected event = .ok collected') : Numbered collected' := by
  cases event with
  | completed =>
    simp only [applyEvent, Except.ok.injEq] at he
    subst he
    exact ⟨h.seen, h.named, h.fresh, h.counted⟩
  | textDelta text =>
    simp only [applyEvent] at he
    split at he
    · simp at he
    · simp only [Except.ok.injEq] at he
      subst he
      exact ⟨h.seen, h.named, h.fresh, h.counted⟩
  | reasoningDelta text =>
    simp only [applyEvent] at he
    split at he
    · simp at he
    · simp only [Except.ok.injEq] at he
      subst he
      exact ⟨h.seen, h.named, h.fresh, h.counted⟩
  | toolCall callId toolName input =>
    simp only [applyEvent] at he
    split at he
    · simp at he
    · rename_i state _
      split at he
      · simp at he
      · simp only [Except.ok.injEq] at he
        subst he
        exact add_tool_call_numbered _ _ _ _ ⟨h.seen, h.named, h.fresh, h.counted⟩

theorem push_numbered (serde : SerdeJson) (collector : ProviderTurnCollector)
    (event : ProviderEvent) (h : Numbered collector.collected) :
    Numbered (collector.push serde event).2.collected := by
  have happly : ∀ model, Numbered (collector.apply serde model).2.collected := by
    intro model
    unfold ProviderTurnCollector.apply
    split
    · exact h
    · rename_i collected' hok
      exact apply_event_numbered serde _ _ model h hok
  cases event with
  | cancelled message => exact h
  | failed message => exact h
  | event model =>
    simp only [ProviderTurnCollector.push]
    split
    · exact h
    · exact happly model
  | raw value =>
    simp only [ProviderTurnCollector.push]
    split
    · exact h
    · split
      · exact happly _
      · exact h

def isTurn : TurnOutcome → Bool
  | .turn .. => true
  | _ => false

theorem push_step (serde : SerdeJson) (collector : ProviderTurnCollector) (event : ProviderEvent) :
    (∃ outcome, (collector.push serde event).1 = .terminal outcome ∧ isTurn outcome = false) ∨
    ((collector.push serde event).1 = .stop ∧
      (collector.push serde event).2.terminal = collector.terminal ∧
      (collector.push serde event).2.failure.isSome) ∨
    ((collector.push serde event).1 = .continue ∧
      (collector.push serde event).2.terminal = collector.terminal) := by
  have happly : ∀ model,
      ((collector.apply serde model).1 = .stop ∧
        (collector.apply serde model).2.terminal = collector.terminal ∧
        (collector.apply serde model).2.failure.isSome) ∨
      ((collector.apply serde model).1 = .continue ∧
        (collector.apply serde model).2.terminal = collector.terminal) := by
    intro model
    unfold ProviderTurnCollector.apply
    split
    · exact .inl ⟨rfl, rfl, rfl⟩
    · exact .inr ⟨rfl, rfl⟩
  cases event with
  | cancelled message => exact .inl ⟨_, rfl, rfl⟩
  | failed message => exact .inl ⟨_, rfl, rfl⟩
  | event model =>
    simp only [ProviderTurnCollector.push]
    split
    · exact .inr (.inl ⟨rfl, rfl, rfl⟩)
    · exact .inr (happly model)
  | raw value =>
    simp only [ProviderTurnCollector.push]
    split
    · exact .inr (.inl ⟨rfl, rfl, rfl⟩)
    · split
      · exact .inr (happly _)
      · exact .inr (.inl ⟨rfl, rfl, rfl⟩)

theorem finish_failed (collector : ProviderTurnCollector) (hterminal : collector.terminal = none)
    (hfailure : collector.failure.isSome) : isTurn collector.finish = false := by
  obtain ⟨failure, hf⟩ := Option.isSome_iff_exists.mp hfailure
  simp [ProviderTurnCollector.finish, hterminal, hf, isTurn]

theorem open_provider_turn_error (history : List ConversationItem) (tools : List ToolDefinition)
    (system : Option Text) (cancelled : Bool) (outcome : TurnOutcome)
    (h : openProviderTurn history tools system cancelled = .error outcome) :
    isTurn outcome = false := by
  unfold openProviderTurn at h
  split at h
  · simp only [Except.error.injEq] at h
    subst h
    rfl
  · split at h
    · simp only [Except.error.injEq] at h
      subst h
      rfl
    · simp at h

theorem open_provider_turn_ok (history : List ConversationItem) (tools : List ToolDefinition)
    (system : Option Text) (cancelled : Bool) (request : ModelRequest)
    (collector : ProviderTurnCollector)
    (h : openProviderTurn history tools system cancelled = .ok (request, collector)) :
    collector = {} := by
  unfold openProviderTurn at h
  split at h
  · simp at h
  · split at h
    · simp at h
    · simp only [Except.ok.injEq, Prod.mk.injEq] at h
      exact h.2.symm

theorem finish_turn (collector : ProviderTurnCollector) (assistantText : Text)
    (textDeltas : List Text) (toolCalls : List TurnToolCall) (hterminal : collector.terminal = none)
    (h : collector.finish = .turn assistantText textDeltas toolCalls) :
    collector.collected.state.completionSeen = true ∧
      toolCalls = collector.collected.toolCalls := by
  unfold ProviderTurnCollector.finish at h
  rw [hterminal] at h
  dsimp only at h
  split at h
  · simp at h
  · split at h
    · simp at h
    · rename_i hseen
      simp only [TurnOutcome.turn.injEq] at h
      exact ⟨by simpa using hseen, h.2.2.symm⟩

end Siralos.Turn
