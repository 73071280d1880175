import Siralos.SessionHistory

/-!
# Streamed provider turns

The session pulls one event of the provider at a time and shows what the event added. What it
commits in the end is what the collection of the whole turn returns on the same events.
-/

set_option autoImplicit false

namespace Siralos.StreamedTurn

open Provider Conversation Turn Approval ToolGate ToolRound Session

/-- `cancelled` is what the token tells at each reading. -/
def collectFrom (serde : SerdeJson) :
    (ℕ → Bool) → ProviderTurnCollector → List ProviderEvent → TurnOutcome
  | cancelled, collector, [] =>
    if cancelled 0 || cancelled 1 then .cancelled else collector.finish
  | cancelled, collector, event :: events =>
    if cancelled 0 then .cancelled
    else
      let pushed := collector.push serde event
      match pushed.1 with
      | .continue => collectFrom serde (fun i => cancelled (i + 1)) pushed.2 events
      | .stop => if cancelled 1 then .cancelled else pushed.2.finish
      | .terminal outcome => outcome

def collectProviderTurn (serde : SerdeJson) (history : List ConversationItem)
    (tools : List ToolDefinition) (system : Option Text) (cancelled : ℕ → Bool)
    (events : List ProviderEvent) : TurnOutcome :=
  match openProviderTurn history tools system (cancelled 0) with
  | .error outcome => outcome
  | .ok (_, collector) => collectFrom serde (fun i => cancelled (i + 1)) collector events

/-- The call for the request that a machine is about to stream. -/
def collectRequest (serde : SerdeJson) (machine : ResponseMachine) (request : ProviderRequest)
    (events : List ProviderEvent) : TurnOutcome :=
  match request with
  | .raw =>
    collectProviderTurn serde machine.history (providerToolDefinitions machine.host) none
      (fun _ => false) events
  | .projected projected _ =>
    collectProviderTurn serde projected.messages projected.tools projected.system
      (fun _ => false) events

def inProvider : Phase → Bool
  | .invokeProvider _ => true
  | .streamTurn _ => true
  | _ => false

/-- Only a pull takes an event from the stream. -/
def unread (phase : Phase) (stream : List ProviderEvent) : List ProviderEvent :=
  match phase with
  | .streamTurn _ => stream.tail
  | _ => stream

def returnedEvents : LoopTurn → List ToolLoopEvent
  | .returned (some event) => [event]
  | _ => []

section Driving

variable {D : Type} [DecidableEq D]

/-- Rounds of the session's loop until the provider's turn is over. -/
def drive (lib : Libraries D) (projection : Bool) (environment : Environment) :
    ℕ → List ProviderEvent → ResponseMachine → ActionApprovals D →
      List ToolLoopEvent × ResponseMachine × ActionApprovals D
  | 0, _, machine, approvals => ([], machine, approvals)
  | fuel + 1, stream, machine, approvals =>
    if inProvider machine.phase then
      let turn := nextEventTurn lib projection { environment with streamNext := stream.head? }
        machine approvals
      let rest := drive lib projection environment fuel (unread machine.phase stream)
        turn.2.1 turn.2.2
      (returnedEvents turn.1 ++ rest.1, rest.2)
    else ([], machine, approvals)

end Driving

/-- The event that the collector takes a provider's event for. -/
def trusted : ProviderEvent → Option ModelEvent
  | .event event => some event
  | .raw raw => (validateExternalEvent raw).toOption
  | _ => none

def modelText : ModelEvent → Option Text
  | .textDelta text => some text
  | _ => none

def modelReasoning : ModelEvent → Option Text
  | .reasoningDelta text => some text
  | _ => none

def textOf (event : ProviderEvent) : Option Text := (trusted event).bind modelText

def reasoningOf (event : ProviderEvent) : Option Text := (trusted event).bind modelReasoning

def shownTexts (shown : List ToolLoopEvent) : List Text :=
  shown.filterMap fun
    | .textDelta text => some text
    | _ => none

def shownReasoning (shown : List ToolLoopEvent) : List Text :=
  shown.filterMap fun
    | .reasoningDelta text => some text
    | _ => none

def Unblocked : ProviderRequest → Prop
  | .raw => True
  | .projected projected _ => projected.blocked = none

section Pushing

variable {serde : SerdeJson} {before after : Collected}

structure Added (text reasoning : Option Text) (before after : Collected) : Prop where
  texts : after.textDeltas = before.textDeltas ++ text.toList
  reasoning : after.reasoningDeltas = before.reasoningDeltas ++ reasoning.toList
  assistant : after.state.assistantText = before.state.assistantText ++ text.getD []

theorem add_tool_call_text (collected : Collected) (callId toolName : Text)
    (input : ToolCallInput) :
    (addToolCall collected callId toolName input).textDeltas = collected.textDeltas ∧
      (addToolCall collected callId toolName input).reasoningDeltas = collected.reasoningDeltas ∧
      (addToolCall collected callId toolName input).state = collected.state := by
  rw [addToolCall]
  split
  · exact ⟨rfl, rfl, rfl⟩
  · split
    · exact ⟨rfl, rfl, rfl⟩
    · exact ⟨rfl, rfl, rfl⟩

theorem push_text_assistant {state next : BoundedTurnState} {text : Text}
    (h : pushText state text = .ok next) : next.assistantText = state.assistantText ++ text := by
  rw [pushText] at h
  split_ifs at h
  cases h
  rfl

theorem push_reasoning_assistant {state next : BoundedTurnState} {text : Text}
    (h : pushReasoning state text = .ok next) : next.assistantText = state.assistantText := by
  rw [pushReasoning] at h
  split_ifs at h
  cases h
  rfl

theorem push_tool_call_assistant {state next : BoundedTurnState} {id name arguments : ℕ}
    (h : pushToolCall state id name arguments = .ok next) :
    next.assistantText = state.assistantText := by
  rw [pushToolCall] at h
  split_ifs at h
  cases h
  rfl

theorem apply_event_added {event : ModelEvent} (h : applyEvent serde before event = .ok after) :
    Added (modelText event) (modelReasoning event) before after := by
  cases event with
  | completed =>
    cases h
    exact ⟨(List.append_nil _).symm, (List.append_nil _).symm, (List.append_nil _).symm⟩
  | textDelta text =>
    simp only [applyEvent] at h
    cases hpush : pushText before.state text with
    | error failure =>
      rw [hpush] at h
      cases h
    | ok state =>
      rw [hpush] at h
      cases h
      exact ⟨rfl, (List.append_nil _).symm, push_text_assistant hpush⟩
  | reasoningDelta text =>
    simp only [applyEvent] at h
    cases hpush : pushReasoning before.state text with
    | error failure =>
      rw [hpush] at h
      cases h
    | ok state =>
      rw [hpush] at h
      cases h
      refine ⟨(List.append_nil _).symm, rfl, ?_⟩
      exact (push_reasoning_assistant hpush).trans (List.append_nil _).symm
  | toolCall callId toolName input =>
    simp only [applyEvent] at h
    cases hpush : pushToolCall before.state (Text.utf8Len callId) (Text.utf8Len toolName)
        (Text.utf8Len (input.serializedJson serde)) with
    | error failure =>
      rw [hpush] at h
      cases h
    | ok state =>
      rw [hpush] at h
      simp only at h
      split_ifs at h
      cases h
      obtain ⟨htexts, hreasoning, hstate⟩ :=
        add_tool_call_text { before with state } callId toolName input
      refine ⟨htexts.trans (List.append_nil _).symm, hreasoning.trans (List.append_nil _).symm, ?_⟩
      rw [hstate]
      exact (push_tool_call_assistant hpush).trans (List.append_nil _).symm

theorem apply_added {collector next : ProviderTurnCollector} {event : ModelEvent}
    (h : collector.apply serde event = (.continue, next)) :
    Added (modelText event) (modelReasoning event) collector.collected next.collected := by
  rw [ProviderTurnCollector.apply] at h
  cases happly : applyEvent serde collector.collected event with
  | error failure =>
    rw [happly] at h
    cases h
  | ok collected =>
    rw [happly] at h
    cases h
    exact apply_event_added happly

theorem push_added {collector next : ProviderTurnCollector} {event : ProviderEvent}
    (h : collector.push serde event = (.continue, next)) :
    Added (textOf event) (reasoningOf event) collector.collected next.collected := by
  cases event with
  | cancelled reason => cases h
  | failed message => cases h
  | event event =>
    rw [ProviderTurnCollector.push] at h
    split_ifs at h
    · cases h
    · exact apply_added h
  | raw raw =>
    rw [ProviderTurnCollector.push] at h
    split_ifs at h
    · cases h
    · cases hvalid : validateExternalEvent raw with
      | error protocol =>
        rw [hvalid] at h
        cases h
      | ok event =>
        rw [hvalid] at h
        have htrusted : trusted (.raw raw) = some event := by
          rw [trusted, hvalid]
          rfl
        rw [textOf, reasoningOf, htrusted]
        exact apply_added h

theorem text_or_reasoning (event : ProviderEvent) :
    textOf event = none ∨ reasoningOf event = none := by
  rw [textOf, reasoningOf]
  cases trusted event with
  | none => exact .inl rfl
  | some event =>
    cases event with
    | textDelta text => exact .inr rfl
    | reasoningDelta text => exact .inl rfl
    | toolCall callId toolName input => exact .inl rfl
    | completed => exact .inl rfl

end Pushing

section Pulling

variable {serde : SerdeJson} {collector next : ProviderTurnCollector} {event : ProviderEvent}

theorem push_streamed_shown (machine : ResponseMachine)
    (h : collector.push serde event = (.continue, next)) :
    returnedEvents (pushStreamed serde machine collector event).1 =
        (textOf event).toList.map .textDelta ++ (reasoningOf event).toList.map .reasoningDelta ∧
      (pushStreamed serde machine collector event).2 =
        { machine with phase := .streamTurn next } := by
  have hadded := push_added h
  rw [pushStreamed, h]
  simp only [hadded.texts, hadded.reasoning]
  cases htext : textOf event with
  | some text =>
    have hnone : reasoningOf event = none := by
      rcases text_or_reasoning event with hno | hno
      · rw [hno] at htext
        cases htext
      · exact hno
    rw [hnone]
    simp [returnedEvents]
  | none =>
    cases reasoningOf event with
    | none => simp [returnedEvents]
    | some reasoning => simp [returnedEvents]

theorem outcome_phase (machine : ResponseMachine) (phase : Phase) (outcome : TurnOutcome) :
    handleProviderOutcome { machine with phase } outcome =
      handleProviderOutcome machine outcome := by
  cases outcome with
  | cancelled => rfl
  | failed failure => rfl
  | turn assistantText textDeltas toolCalls =>
    simp only [handleProviderOutcome, handleCollectedTurn]

theorem outcome_left (machine : ResponseMachine) (outcome : TurnOutcome) :
    inProvider (handleProviderOutcome machine (withoutTextDeltas outcome)).phase = false := by
  cases outcome with
  | cancelled => rfl
  | failed failure => rfl
  | turn assistantText textDeltas toolCalls =>
    simp only [withoutTextDeltas, handleProviderOutcome, handleCollectedTurn, if_true]
    split_ifs
    · rfl
    · rfl
    · rfl

theorem failure_without_deltas {outcome : TurnOutcome} (h : isTurn outcome = false) :
    withoutTextDeltas outcome = outcome := by
  cases outcome with
  | cancelled => rfl
  | failed failure => rfl
  | turn assistantText textDeltas toolCalls => cases h

end Pulling

section Streaming

variable {D : Type} [DecidableEq D] (lib : Libraries D) (projection : Bool)
  (environment : Environment) (approvals : ActionApprovals D)

theorem drive_left (fuel : ℕ) (stream : List ProviderEvent) {machine : ResponseMachine}
    (h : inProvider machine.phase = false) :
    drive lib projection environment fuel stream machine approvals = ([], machine, approvals) := by
  cases fuel with
  | zero => rfl
  | succ fuel => rw [drive, if_neg (by simp [h])]

theorem drive_next (fuel : ℕ) (stream : List ProviderEvent) {machine next : ResponseMachine}
    {returned : LoopTurn} {later : ActionApprovals D} (h : inProvider machine.phase = true)
    (hturn : nextEventTurn lib projection { environment with streamNext := stream.head? } machine
      approvals = (returned, next, later)) :
    drive lib projection environment (fuel + 1) stream machine approvals =
      (returnedEvents returned ++ (drive lib projection environment fuel
        (unread machine.phase stream) next later).1,
        (drive lib projection environment fuel (unread machine.phase stream) next later).2) := by
  rw [drive, if_pos h, hturn]

/-- The events of the stream that were taken are shown, each with what it added. -/
structure Shows (shown : List ToolLoopEvent) (taken : List ProviderEvent) : Prop where
  texts : shownTexts shown = taken.filterMap textOf
  reasoning : shownReasoning shown = taken.filterMap reasoningOf

theorem shows_nil : Shows [] [] := ⟨rfl, rfl⟩

theorem Shows.cons {shown : List ToolLoopEvent} {taken : List ProviderEvent} (h : Shows shown taken)
    (event : ProviderEvent) : Shows ((textOf event).toList.map .textDelta ++
      (reasoningOf event).toList.map .reasoningDelta ++ shown) (event :: taken) where
  texts := by
    have hrest := h.texts
    rw [shownTexts] at hrest ⊢
    rw [List.filterMap_append, hrest, List.filterMap_cons]
    cases textOf event <;> cases reasoningOf event <;> rfl
  reasoning := by
    have hrest := h.reasoning
    rw [shownReasoning] at hrest ⊢
    rw [List.filterMap_append, hrest, List.filterMap_cons]
    cases textOf event <;> cases reasoningOf event <;> rfl

def Silent (events : List ToolLoopEvent) : Prop :=
  shownTexts events = [] ∧ shownReasoning events = []

theorem silent_texts {events : List ToolLoopEvent} (h : Silent events)
    (shown : List ToolLoopEvent) : shownTexts (events ++ shown) = shownTexts shown := by
  have hnone := h.1
  rw [shownTexts] at hnone
  rw [shownTexts, List.filterMap_append, hnone, List.nil_append, shownTexts]

theorem Shows.silent {shown : List ToolLoopEvent} {taken : List ProviderEvent}
    (h : Shows shown taken) {events : List ToolLoopEvent} (hevents : Silent events) : Shows (events ++ shown) taken where
  texts := (silent_texts hevents shown).trans h.texts
  reasoning := by
    have hnone := hevents.2
    have hrest := h.reasoning
    rw [shownReasoning] at hnone hrest ⊢
    rw [List.filterMap_append, hnone, List.nil_append, hrest]

theorem finish_text {collector : ProviderTurnCollector} {assistantText : Text}
    {textDeltas : List Text} {toolCalls : List TurnToolCall} (hterminal : collector.terminal = none)
    (h : collector.finish = .turn assistantText textDeltas toolCalls) :
    textDeltas = collector.collected.textDeltas ∧
      assistantText = collector.collected.state.assistantText := by
  rw [ProviderTurnCollector.finish, hterminal] at h
  cases hfailure : collector.failure with
  | some failure =>
    rw [hfailure] at h
    cases h
  | none =>
    rw [hfailure] at h
    simp only at h
    split_ifs at h
    cases h
    exact ⟨rfl, rfl⟩

theorem push_ends (serde : SerdeJson) (machine : ResponseMachine)
    {collector : ProviderTurnCollector} (event : ProviderEvent)
    (hterminal : collector.terminal = none) :
    (∃ outcome, isTurn outcome = false ∧
      pushStreamed serde machine collector event =
        (.again, handleProviderOutcome machine (withoutTextDeltas outcome)) ∧
      ∀ stream, collectFrom serde (fun _ => false) collector (event :: stream) = outcome) ∨
    ∃ next, collector.push serde event = (.continue, next) ∧ next.terminal = none := by
  rcases push_step serde collector event with
    ⟨outcome, hstep, houtcome⟩ | ⟨hstep, hsame, hfailure⟩ | ⟨hstep, hsame⟩
  · refine .inl ⟨outcome, houtcome, ?_, ?_⟩
    · rw [pushStreamed, failure_without_deltas houtcome]
      simp only [hstep]
    · intro stream
      rw [collectFrom]
      simp only [Bool.false_eq_true, if_false, hstep]
  · refine .inl ⟨_, finish_failed _ (hsame.trans hterminal) hfailure, ?_, ?_⟩
    · rw [pushStreamed]
      simp only [hstep]
    · intro stream
      rw [collectFrom]
      simp only [Bool.false_eq_true, if_false, hstep]
  · exact .inr ⟨_, Prod.ext hstep rfl, hsame.trans hterminal⟩

theorem drive_stream (stream : List ProviderEvent) (machine : ResponseMachine)
    (collector : ProviderTurnCollector) (fuel : ℕ) (hphase : machine.phase = .streamTurn collector)
    (hcancelled : machine.cancelled = false) (hterminal : collector.terminal = none)
    (hfuel : stream.length < fuel) :
    ∃ shown taken, drive lib projection environment fuel stream machine approvals =
        (shown, handleProviderOutcome machine (withoutTextDeltas
          (collectFrom lib.serde (fun _ => false) collector stream)), approvals) ∧
      taken <+: stream ∧ Shows shown taken ∧
      ∀ assistantText textDeltas toolCalls,
        collectFrom lib.serde (fun _ => false) collector stream =
            .turn assistantText textDeltas toolCalls →
          taken = stream ∧ textDeltas = collector.collected.textDeltas ++ shownTexts shown ∧
            assistantText =
              collector.collected.state.assistantText ++ (shownTexts shown).flatten := by
  induction stream generalizing machine collector fuel with
  | nil =>
    obtain ⟨fuel, rfl⟩ : ∃ less, fuel = less + 1 := ⟨fuel - 1, by omega⟩
    refine ⟨[], [], ?_, List.prefix_rfl, shows_nil, ?_⟩
    · have hturn : nextEventTurn lib projection
          { environment with streamNext := ([] : List ProviderEvent).head? } machine
          approvals = (.again, handleProviderOutcome machine
            (withoutTextDeltas collector.finish), approvals) := by
        simp only [nextEventTurn, hphase, hcancelled, Bool.false_eq_true, if_false, List.head?_nil]
      rw [drive_next lib projection environment approvals fuel _ (by rw [hphase]; rfl) hturn]
      simp only [drive_left lib projection environment approvals fuel _ (outcome_left machine _)]
      rfl
    · intro assistantText textDeltas toolCalls h
      obtain ⟨hdeltas, htext⟩ := finish_text hterminal h
      refine ⟨rfl, hdeltas.trans (List.append_nil _).symm, htext.trans (List.append_nil _).symm⟩
  | cons event stream ih =>
    obtain ⟨fuel, rfl⟩ : ∃ less, fuel = less + 1 := ⟨fuel - 1, by omega⟩
    have hturn : nextEventTurn lib projection
        { environment with streamNext := (event :: stream).head? } machine
        approvals = ((pushStreamed lib.serde machine collector event).1,
          (pushStreamed lib.serde machine collector event).2, approvals) := by
      simp only [nextEventTurn, hphase, hcancelled, Bool.false_eq_true, if_false, List.head?_cons]
    rw [drive_next lib projection environment approvals fuel _ (by rw [hphase]; rfl) hturn]
    simp only [hphase, unread, List.tail_cons]
    rcases push_ends lib.serde machine event hterminal with
      ⟨outcome, houtcome, hpush, hcollect⟩ | ⟨next, hnext, hnone⟩
    · refine ⟨[], [], ?_, List.nil_prefix, shows_nil, ?_⟩
      · rw [hpush, hcollect]
        simp only [drive_left lib projection environment approvals fuel _ (outcome_left machine _)]
        rfl
      · intro assistantText textDeltas toolCalls h
        rw [hcollect] at h
        rw [h] at houtcome
        cases houtcome
    · have hadded := push_added hnext
      obtain ⟨hshown, hmachine⟩ := push_streamed_shown machine hnext
      have hcollect : collectFrom lib.serde (fun _ => false) collector (event :: stream) =
          collectFrom lib.serde (fun _ => false) next stream := by
        rw [collectFrom]
        simp only [Bool.false_eq_true, if_false, hnext]
      obtain ⟨shown, taken, hdrive, htaken, hshows, hcommitted⟩ :=
        ih { machine with phase := .streamTurn next } next fuel rfl hcancelled hnone
          (by simpa using hfuel)
      rw [outcome_phase machine] at hdrive
      refine ⟨_, event :: taken, ?_, List.cons_prefix_cons.mpr ⟨rfl, htaken⟩, hshows.cons event, ?_⟩
      · rw [hshown, hmachine, hdrive, hcollect]
      · intro assistantText textDeltas toolCalls h
        rw [hcollect] at h
        obtain ⟨hall, hdeltas, htext⟩ := hcommitted _ _ _ h
        refine ⟨by rw [hall], ?_, ?_⟩
        · rw [hdeltas, hadded.texts, (hshows.cons event).texts, hshows.texts, List.filterMap_cons]
          cases textOf event <;> simp
        · rw [htext, hadded.assistant, (hshows.cons event).texts, hshows.texts,
            List.filterMap_cons]
          cases textOf event <;> simp

theorem collect_request_open (serde : SerdeJson) (machine : ResponseMachine)
    (request : ProviderRequest) (stream : List ProviderEvent)
    (hcancelled : machine.cancelled = false) :
    collectRequest serde machine request stream =
      match openTurn machine request with
      | .error outcome => outcome
      | .ok (_, collector) => collectFrom serde (fun _ => false) collector stream := by
  cases request with
  | raw => rw [openTurn, hcancelled]; rfl
  | projected projected pending => rw [openTurn, hcancelled]; rfl

/-- What the machine holds when the turn is over. -/
def committed (serde : SerdeJson) (machine : ResponseMachine) (request : ProviderRequest)
    (stream : List ProviderEvent) : ResponseMachine :=
  handleProviderOutcome { machine with providerTurns := machine.providerTurns + 1 }
    (withoutTextDeltas (collectRequest serde machine request stream))

theorem drive_open (stream : List ProviderEvent) (machine : ResponseMachine)
    (request : ProviderRequest) (fuel : ℕ) (hphase : inProvider machine.phase = true)
    (hunread : unread machine.phase stream = stream)
    (hturn : nextEventTurn lib projection { environment with streamNext := stream.head? } machine
      approvals =
        ((invokeProvider machine request).1, (invokeProvider machine request).2, approvals))
    (hcancelled : machine.cancelled = false) (hfuel : stream.length + 1 < fuel) :
    ∃ shown taken, drive lib projection environment fuel stream machine approvals =
        (shown, committed lib.serde machine request stream, approvals) ∧
      taken <+: stream ∧ Shows shown taken ∧
      ∀ assistantText textDeltas toolCalls,
        collectRequest lib.serde machine request stream =
            .turn assistantText textDeltas toolCalls →
          taken = stream ∧ textDeltas = shownTexts shown ∧
            assistantText = (shownTexts shown).flatten := by
  obtain ⟨fuel, rfl⟩ : ∃ less, fuel = less + 1 := ⟨fuel - 1, by omega⟩
  rw [drive_next lib projection environment approvals fuel stream hphase hturn, hunread]
  have hopened := collect_request_open lib.serde machine request stream hcancelled
  have hsame : openTurn { machine with providerTurns := machine.providerTurns + 1 } request =
      openTurn machine request := by
    cases request with
    | raw => rfl
    | projected projected pending => rfl
  rw [committed, invokeProvider]
  simp only [hsame]
  cases hopen : openTurn machine request with
  | error outcome =>
    rw [hopen] at hopened
    have hnot := SessionHistory.open_turn_error machine request outcome hopen
    have hleft := outcome_left { machine with providerTurns := machine.providerTurns + 1 } outcome
    rw [failure_without_deltas hnot] at hleft
    refine ⟨[], [], ?_, List.nil_prefix, shows_nil, ?_⟩
    · rw [hopened]
      simp only [drive_left lib projection environment approvals fuel _ hleft,
        failure_without_deltas hnot]
      rfl
    · intro assistantText textDeltas toolCalls h
      rw [hopened] at h
      simp only at h
      rw [h] at hnot
      cases hnot
  | ok opened =>
    obtain ⟨sent, collector⟩ := opened
    rw [hopen] at hopened
    have hnew := SessionHistory.open_turn_ok machine request sent collector hopen
    subst hnew
    obtain ⟨shown, taken, hdrive, htaken, hshows, hcommitted⟩ :=
      drive_stream lib projection environment approvals stream
        { machine with providerTurns := machine.providerTurns + 1, phase := .streamTurn {} } {} fuel
        rfl hcancelled rfl (by omega)
    have hsilent : Silent (returnedEvents
        (if machine.progressTicks then .returned (some .providerPending) else .again)) := by
      split
      · exact ⟨rfl, rfl⟩
      · exact ⟨rfl, rfl⟩
    refine ⟨_ ++ shown, taken, ?_, htaken, hshows.silent hsilent, ?_⟩
    · simp only [hdrive, hopened]
      exact Prod.ext rfl (Prod.ext (outcome_phase
        { machine with providerTurns := machine.providerTurns + 1 } (.streamTurn {}) _) rfl)
    · intro assistantText textDeltas toolCalls h
      rw [hopened] at h
      obtain ⟨hall, hdeltas, htext⟩ := hcommitted _ _ _ h
      rw [silent_texts hsilent]
      exact ⟨hall, hdeltas, htext⟩

def leaves (history : List ConversationItem) : TurnOutcome → List ConversationItem
  | .turn assistantText _ [] => pushAssistant history assistantText
  | _ => history

theorem committed_history (serde : SerdeJson) (machine : ResponseMachine)
    (request : ProviderRequest) (stream : List ProviderEvent) :
    (committed serde machine request stream).history =
      leaves machine.history (collectRequest serde machine request stream) := by
  rw [committed]
  cases collectRequest serde machine request stream with
  | cancelled => rfl
  | failed failure => rfl
  | turn assistantText textDeltas toolCalls =>
    simp only [withoutTextDeltas, handleProviderOutcome, handleCollectedTurn, if_true]
    cases toolCalls with
    | nil => rfl
    | cons call calls =>
      rw [if_neg (List.cons_ne_nil _ _)]
      split
      · rfl
      · rfl

/-- What becomes of the machine when its provider turn has ended. -/
inductive Concludes (machine : ResponseMachine) : TurnOutcome → ResponseMachine → Prop
  | cancelled :
      Concludes machine .cancelled { machine with phase := .terminal .responseCancelled }
  | failed (failure : TurnFailure) :
      Concludes machine (.failed failure)
        { machine with phase := .terminal (.responseFailed (applicationMessage failure)) }
  | completed (assistantText : Text) (textDeltas : List Text) :
      Concludes machine (.turn assistantText textDeltas [])
        { machine with
          history := pushAssistant machine.history assistantText
          phase := .terminal .responseCompleted }
  | round (assistantText : Text) (textDeltas : List Text) (toolCalls : List TurnToolCall)
      (hcalls : toolCalls ≠ [])
      (hroom : machine.attemptedToolRounds < machine.maxToolRounds.rounds) :
      Concludes machine (.turn assistantText textDeltas toolCalls)
        { machine with
          attemptedToolRounds := machine.attemptedToolRounds + 1
          phase := .runningRound (.new toolCalls machine.host) assistantText }
  | capped (assistantText : Text) (textDeltas : List Text) (toolCalls : List TurnToolCall)
      (hcalls : toolCalls ≠ [])
      (hfull : machine.maxToolRounds.rounds ≤ machine.attemptedToolRounds) :
      Concludes machine (.turn assistantText textDeltas toolCalls)
        { machine with phase := .terminal (.responseFailed machine.maxToolRounds.capMessage) }

theorem committed_concludes (serde : SerdeJson) (machine : ResponseMachine)
    (request : ProviderRequest) (stream : List ProviderEvent) :
    Concludes { machine with providerTurns := machine.providerTurns + 1 }
      (collectRequest serde machine request stream) (committed serde machine request stream) := by
  rw [committed]
  cases collectRequest serde machine request stream with
  | cancelled => exact .cancelled
  | failed failure => exact .failed failure
  | turn assistantText textDeltas toolCalls =>
    simp only [withoutTextDeltas, handleProviderOutcome, handleCollectedTurn, if_true]
    by_cases hcalls : toolCalls = []
    · subst hcalls
      exact .completed assistantText textDeltas
    · rw [if_neg hcalls]
      split
      · rename_i hfull
        exact .capped assistantText textDeltas toolCalls hcalls hfull
      · rename_i hroom
        exact .round assistantText textDeltas toolCalls hcalls (by simpa using hroom)

/-- The session ends the turn as the collection of the whole turn would, the text it has shown is
the text it commits, and no reasoning is part of it. -/
theorem streamed_turn_collects (stream : List ProviderEvent) (machine : ResponseMachine)
    (request : ProviderRequest) (fuel : ℕ) (hphase : machine.phase = .invokeProvider request)
    (hopen : Unblocked request) (hcancelled : machine.cancelled = false)
    (hfuel : stream.length + 3 ≤ fuel) :
    ∃ shown taken, drive lib projection environment fuel stream machine approvals =
        (shown, committed lib.serde machine request stream, approvals) ∧
      taken <+: stream ∧ Shows shown taken ∧
      (committed lib.serde machine request stream).history =
        leaves machine.history (collectRequest lib.serde machine request stream) ∧
      Concludes { machine with providerTurns := machine.providerTurns + 1 }
        (collectRequest lib.serde machine request stream)
        (committed lib.serde machine request stream) ∧
      ∀ assistantText textDeltas toolCalls,
        collectRequest lib.serde machine request stream =
            .turn assistantText textDeltas toolCalls →
          taken = stream ∧ textDeltas = shownTexts shown ∧
            assistantText = (shownTexts shown).flatten := by
  have hin : inProvider machine.phase = true := by
    rw [hphase]
    rfl
  have hunread : unread machine.phase stream = stream := by
    rw [hphase]
    rfl
  have hhistory := committed_history lib.serde machine request stream
  have hconcludes := committed_concludes lib.serde machine request stream
  cases request with
  | raw =>
    obtain ⟨shown, taken, hdrive, htaken, hshows, hcommitted⟩ :=
      drive_open lib projection environment approvals stream machine .raw fuel hin hunread
        (by simp only [nextEventTurn, hphase, hcancelled, Bool.false_eq_true, if_false]) hcancelled
        (by omega)
    exact ⟨shown, taken, hdrive, htaken, hshows, hhistory, hconcludes, hcommitted⟩
  | projected projected pending =>
    have hblocked : projected.blocked = none := hopen
    cases pending with
    | false =>
      obtain ⟨shown, taken, hdrive, htaken, hshows, hcommitted⟩ :=
        drive_open lib projection environment approvals stream machine (.projected projected false)
          fuel hin hunread
          (by simp only [nextEventTurn, hphase, hcancelled, Bool.false_eq_true, if_false, hblocked])
          hcancelled (by omega)
      exact ⟨shown, taken, hdrive, htaken, hshows, hhistory, hconcludes, hcommitted⟩
    | true =>
      obtain ⟨fuel, rfl⟩ : ∃ less, fuel = less + 1 := ⟨fuel - 1, by omega⟩
      obtain ⟨shown, taken, hdrive, htaken, hshows, hcommitted⟩ :=
        drive_open lib projection environment approvals stream
          { machine with phase := .invokeProvider (.projected projected false) }
          (.projected projected false) fuel rfl rfl
          (by simp only [nextEventTurn, hcancelled, Bool.false_eq_true, if_false, hblocked])
          hcancelled (by omega)
      have hturn : nextEventTurn lib projection
          { environment with streamNext := stream.head? } machine approvals =
          (.returned (some (.contextPressure projected.pressure.state.asStr
            projected.pressure.estimatedTokens projected.pressure.workingMaximum)),
            { machine with phase := .invokeProvider (.projected projected false) }, approvals) := by
        simp only [nextEventTurn, hphase, hcancelled, Bool.false_eq_true, if_false]
      have hsilent : Silent [.contextPressure projected.pressure.state.asStr
          projected.pressure.estimatedTokens projected.pressure.workingMaximum] := ⟨rfl, rfl⟩
      refine ⟨_ ++ shown, taken, ?_, htaken, hshows.silent hsilent, hhistory, hconcludes, ?_⟩
      · rw [drive_next lib projection environment approvals fuel stream hin hturn, hunread, hdrive]
        exact Prod.ext rfl (Prod.ext (outcome_phase
          { machine with providerTurns := machine.providerTurns + 1 }
          (.invokeProvider (.projected projected false)) _) rfl)
      · intro assistantText textDeltas toolCalls h
        rw [silent_texts hsilent]
        exact hcommitted _ _ _ h

end Streaming

def asking : ResponseMachine where
  host :=
    { registry := { entries := [], distinct := List.nodup_nil }, policy := { rules := [] },
      surface := none, taskRevision := none, resolver := false }
  maxToolRounds := .default
  history := [.userMessage ['p']]
  progressTicks := true
  phase := .invokeProvider .raw

def reasoned : List ProviderEvent :=
  [.event (.reasoningDelta ['r']), .event (.textDelta ['a']), .event .completed]

def broken : List ProviderEvent := [.event (.textDelta ['a']), .failed ['m']]

def proposing : List ProviderEvent :=
  [.event (.textDelta ['a']), .event (.toolCall ['c'] ['t'] (.fromValue .null)), .event .completed]

/-- After a thought and a word the word is the answer; a turn that breaks off answers nothing; a
proposal starts a round. -/
theorem streamed_turn_reasoned :
    (∃ shown machine,
      drive SessionHistory.plainLibraries false (SessionHistory.streaming none) 6 reasoned asking
        {} = (shown, machine, {}) ∧
      shownTexts shown = [['a']] ∧ shownReasoning shown = [['r']] ∧
      machine.phase = .terminal .responseCompleted ∧
      machine.history = [.userMessage ['p'], .assistantMessage ['a']]) ∧
    (∃ shown machine,
      drive SessionHistory.plainLibraries false (SessionHistory.streaming none) 6 broken asking
        {} = (shown, machine, {}) ∧
      machine.phase =
        .terminal (.responseFailed (applicationMessage (.providerFailed ['m']))) ∧
      machine.history = [.userMessage ['p']]) ∧
    ∃ shown machine,
      drive SessionHistory.plainLibraries false (SessionHistory.streaming none) 6 proposing asking
        {} = (shown, machine, {}) ∧
      shownTexts shown = [['a']] ∧
      machine.phase =
        .runningRound (.new [.execute ['c'] ['t'] (.fromValue .null)] asking.host) ['a'] ∧
      machine.history = [.userMessage ['p']] := by
  refine ⟨?_, ?_, ?_⟩
  · obtain ⟨shown, taken, hdrive, -, hshows, hhistory, -, hcommitted⟩ :=
      streamed_turn_collects SessionHistory.plainLibraries false (SessionHistory.streaming none) {}
        reasoned asking .raw 6 rfl trivial rfl (by decide)
    obtain ⟨hall, hdeltas, -⟩ := hcommitted ['a'] [['a']] [] rfl
    refine ⟨shown, _, hdrive, hdeltas.symm, ?_, rfl, hhistory⟩
    rw [hshows.reasoning, hall]
    rfl
  · obtain ⟨shown, taken, hdrive, -, -, hhistory, -⟩ :=
      streamed_turn_collects SessionHistory.plainLibraries false (SessionHistory.streaming none) {}
        broken asking .raw 6 rfl trivial rfl (by decide)
    exact ⟨shown, _, hdrive, rfl, hhistory⟩
  · obtain ⟨shown, taken, hdrive, -, -, hhistory, -, hcommitted⟩ :=
      streamed_turn_collects SessionHistory.plainLibraries false (SessionHistory.streaming none) {}
        proposing asking .raw 6 rfl trivial rfl (by decide)
    obtain ⟨-, hdeltas, -⟩ :=
      hcommitted ['a'] [['a']] [.execute ['c'] ['t'] (.fromValue .null)] rfl
    exact ⟨shown, _, hdrive, hdeltas.symm, rfl, hhistory⟩

end Siralos.StreamedTurn
