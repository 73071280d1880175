import Siralos.ToolRound

/-!
# The application loop

One prompt response at a time runs as a pull machine over the authoritative history.
`poll_event` goes round its loop until an event is returned; one round of that loop is
`nextEventTurn`, and a run interleaves such rounds with host calls. What the provider,
the tools, the resolver and the projection answer in a round is its `Environment`.
-/

set_option autoImplicit false

namespace Siralos.Session
open Provider Conversation Turn Approval ToolGate ToolRound

def maxPromptBytes : ℕ := 64 * 1024

def maxHistoryItems : ℕ := 256

def maxHistoryBytes : ℕ := 1024 * 1024

inductive PromptStartError where
  | alreadyResponding
  | tooLong
  deriving DecidableEq, Repr

def PromptStartError.message : PromptStartError → Text
  | .alreadyResponding => "Siralos is already responding to a prompt."
  | .tooLong => "Prompt exceeds the Host conversation budget."

def maxToolRoundBudget : ℕ := 32

/-- A budget above the hard maximum cannot be built. -/
structure RoundBudget where
  rounds : ℕ
  bounded : rounds ≤ maxToolRoundBudget

def RoundBudget.default : RoundBudget := { rounds := 8, bounded := by decide }

def RoundBudget.capMessage (budget : RoundBudget) : Text :=
  ("Siralos reached the maximum of " : Text) ++ Text.ofNat budget.rounds ++
    (" tool rounds; the requested tool round was not executed." : Text)

inductive PressureState where
  | normal
  | warn
  | auto
  | hard
  deriving DecidableEq, Repr

def PressureState.asStr : PressureState → Text
  | .normal => "normal"
  | .warn => "warn"
  | .auto => "auto"
  | .hard => "hard"

structure ContextPressure where
  state : PressureState
  estimatedTokens : ℕ
  workingMaximum : ℤ

/-- What the loop reads of a projected request; `blocked` carries its message. -/
structure ProjectedRequest where
  messages : List ConversationItem
  tools : List ToolDefinition
  system : Option Text
  pressure : ContextPressure
  approvedNames : List Text
  blocked : Option Text

structure CollectedTurn where
  assistantText : Text
  textDeltas : List Text
  toolCalls : List TurnToolCall

/-- Only a projected request can have its pressure still to report. -/
inductive ProviderRequest where
  | raw
  | projected (request : ProjectedRequest) (pressurePending : Bool)

inductive Phase where
  | start
  | collectTurn
  | invokeProvider (request : ProviderRequest)
  | emitText (turn : CollectedTurn)
  | streamTurn (collector : ProviderTurnCollector)
  | runningRound (runner : ToolRoundRunner HostToolExecutor) (assistantText : Text)
  | terminal (event : ToolLoopEvent)
  | done

structure ResponseMachine where
  host : HostToolExecutor
  cancelled : Bool := false
  maxToolRounds : RoundBudget
  history : List ConversationItem
  attemptedToolRounds : ℕ := 0
  completedToolRounds : ℕ := 0
  providerTurns : ℕ := 0
  progressTicks : Bool
  phase : Phase := .start

structure Environment where
  tools : ToolWorld
  streamNext : Option ProviderEvent
  project : List ConversationItem → ProjectedRequest

def withoutTextDeltas : TurnOutcome → TurnOutcome
  | .turn assistantText _ toolCalls => .turn assistantText [] toolCalls
  | other => other

def pushAssistant (history : List ConversationItem) (assistantText : Text) :
    List ConversationItem :=
  if assistantText = [] then history else history ++ [.assistantMessage assistantText]

def handleCollectedTurn (machine : ResponseMachine) (turn : CollectedTurn) : ResponseMachine :=
  if turn.toolCalls = [] then
    { machine with
      history := pushAssistant machine.history turn.assistantText
      phase := .terminal .responseCompleted }
  else if machine.attemptedToolRounds ≥ machine.maxToolRounds.rounds then
    { machine with phase := .terminal (.responseFailed machine.maxToolRounds.capMessage) }
  else
    { machine with
      attemptedToolRounds := machine.attemptedToolRounds + 1
      phase := .runningRound (.new turn.toolCalls machine.host) turn.assistantText }

def handleProviderOutcome (machine : ResponseMachine) : TurnOutcome → ResponseMachine
  | .cancelled => { machine with phase := .terminal .responseCancelled }
  | .failed failure =>
    { machine with phase := .terminal (.responseFailed (applicationMessage failure)) }
  | .turn assistantText textDeltas toolCalls =>
    let turn := { assistantText, textDeltas, toolCalls }
    if textDeltas = [] then handleCollectedTurn machine turn
    else { machine with phase := .emitText turn }

def finishRound (machine : ResponseMachine) (assistantText : Text) (outcome : ToolRoundOutcome) :
    ResponseMachine :=
  match outcome.kind with
  | .completed =>
    { machine with
      completedToolRounds := machine.completedToolRounds + 1
      history := pushAssistant machine.history assistantText ++ outcome.transcript
      phase := .collectTurn }
  | .cancelled =>
    -- a cancelled round commits its transcript and never the assistant text
    { machine with
      history := machine.history ++ outcome.transcript
      phase := .terminal .responseCancelled }

def openTurn (machine : ResponseMachine) :
    ProviderRequest → Except TurnOutcome (ModelRequest × ProviderTurnCollector)
  | .raw =>
    openProviderTurn machine.history (providerToolDefinitions machine.host) none machine.cancelled
  | .projected request _ =>
    openProviderTurn request.messages request.tools request.system machine.cancelled

inductive LoopTurn where
  | again
  | returned (event : Option ToolLoopEvent)

def invokeProvider (machine : ResponseMachine) (request : ProviderRequest) :
    LoopTurn × ResponseMachine :=
  let machine := { machine with providerTurns := machine.providerTurns + 1 }
  match openTurn machine request with
  | .ok (_, collector) =>
    (if machine.progressTicks then .returned (some .providerPending) else .again,
      { machine with phase := .streamTurn collector })
  | .error outcome => (.again, handleProviderOutcome machine outcome)

/-- The event the frontend sees at once is what this push added to the collector. -/
def pushStreamed (lib : SerdeJson) (machine : ResponseMachine)
    (collector : ProviderTurnCollector) (event : ProviderEvent) : LoopTurn × ResponseMachine :=
  let pushed := collector.push lib event
  match pushed.1 with
  | .terminal outcome => (.again, handleProviderOutcome machine outcome)
  | .stop => (.again, handleProviderOutcome machine (withoutTextDeltas pushed.2.finish))
  | .continue =>
    let machine := { machine with phase := .streamTurn pushed.2 }
    match pushed.2.collected.textDeltas[collector.collected.textDeltas.length]? with
    | some text => (.returned (some (.textDelta text)), machine)
    | none =>
      match pushed.2.collected.reasoningDeltas[collector.collected.reasoningDeltas.length]? with
      | some text => (.returned (some (.reasoningDelta text)), machine)
      | none => (.again, machine)

def serializedInputBytes (serde : SerdeJson) : AssistantToolCallInput → ℕ
  | .present value => Text.utf8Len (serde.toStr value)
  | .omitted => 0

def resultBytes (serde : SerdeJson) : ToolExecutionResult → ℕ
  | .success output summary => Text.utf8Len (serde.toStr output) + Text.utf8Len summary
  | other => Text.utf8Len (resultMessage other)

def historyItemBytes (serde : SerdeJson) : ConversationItem → ℕ
  | .userMessage content => Text.utf8Len content + 32
  | .assistantMessage content => Text.utf8Len content + 32
  | .assistantToolCall callId toolName input =>
    Text.utf8Len callId + Text.utf8Len toolName + serializedInputBytes serde input + 48
  | .toolResult callId toolName result =>
    Text.utf8Len callId + Text.utf8Len toolName + resultBytes serde result + 48

def historyBytes (serde : SerdeJson) (history : List ConversationItem) : ℕ :=
  (history.map (historyItemBytes serde)).sum

def isUserItem : ConversationItem → Bool
  | .userMessage _ => true
  | _ => false

def Fits (serde : SerdeJson) (history : List ConversationItem) : Prop :=
  history.length ≤ maxHistoryItems ∧ historyBytes serde history ≤ maxHistoryBytes

instance (serde : SerdeJson) (history : List ConversationItem) :
    Decidable (Fits serde history) :=
  inferInstanceAs (Decidable (_ ∧ _))

/-- What follows the first item from its first user message on. -/
def dropTurn (history : List ConversationItem) : List ConversationItem :=
  history.tail.dropWhile fun item => !isUserItem item

theorem drop_turn_length (history : List ConversationItem) (h : history ≠ []) :
    (dropTurn history).length < history.length := by
  have hdrop := (List.dropWhile_suffix (fun item => !isUserItem item) (l := history.tail)).length_le
  have hpos := List.length_pos_iff.mpr h
  rw [List.length_tail] at hdrop
  unfold dropTurn
  omega

theorem fits_nil (serde : SerdeJson) : Fits serde [] := ⟨Nat.zero_le _, Nat.zero_le _⟩

def pruneHistory (serde : SerdeJson) (history : List ConversationItem) :
    List ConversationItem :=
  if _ : Fits serde history then history else pruneHistory serde (dropTurn history)
termination_by history.length
decreasing_by
  rename_i hover
  exact drop_turn_length history fun he => hover (he ▸ fits_nil serde)

section Application

variable {D : Type}

inductive AppState where
  | idle
  | responding (machine : ResponseMachine)

/-- `projection` says whether a projection service is configured. -/
structure SiralosApplication (D : Type) where
  registry : ToolRegistry
  policy : PermissionPolicy
  surface : Option (List Text)
  maxToolRounds : RoundBudget
  history : List ConversationItem := []
  completedToolRounds : ℕ := 0
  providerTurnCount : ℕ := 0
  state : AppState := .idle
  projection : Bool := false
  taskRevision : Option ℕ := none
  progressTicks : Bool := false
  approvals : ActionApprovals D := {}
  approvalResolver : Bool := false

def SiralosApplication.new (registry : ToolRegistry) (policy : PermissionPolicy)
    (surface : Option (List Text)) (maxToolRounds : RoundBudget) : SiralosApplication D :=
  { registry, policy, surface, maxToolRounds }

def SiralosApplication.currentHistory (app : SiralosApplication D) : List ConversationItem :=
  match app.state with
  | .idle => app.history
  | .responding machine => machine.history

def respondTo (app : SiralosApplication D) (history : List ConversationItem) (text : Text) :
    SiralosApplication D :=
  let surface := if app.projection then none else app.surface
  { app with
    approvals := record app.approvals (.surfaced surface)
    state := .responding
      { host :=
          { registry := app.registry, policy := app.policy, surface,
            taskRevision := app.taskRevision, resolver := app.approvalResolver }
        maxToolRounds := app.maxToolRounds
        history := history ++ [.userMessage text]
        progressTicks := app.progressTicks } }

def sendPrompt (lib : Libraries D) (app : SiralosApplication D) (text : Text) :
    Except PromptStartError (SiralosApplication D) :=
  match app.state with
  | .responding _ => .error .alreadyResponding
  | .idle =>
    let history := pruneHistory lib.serde app.history
    if Text.utf8Len text > maxPromptBytes then .error .tooLong
    else if history.length + 1 > maxHistoryItems ∨
        historyBytes lib.serde history + historyItemBytes lib.serde (.userMessage text) >
          maxHistoryBytes then .error .tooLong
    else .ok (respondTo app history text)

def restoreMachine (serde : SerdeJson) (app : SiralosApplication D) (machine : ResponseMachine) :
    SiralosApplication D :=
  { app with
    state := .idle
    history := pruneHistory serde machine.history
    completedToolRounds := machine.completedToolRounds
    providerTurnCount := machine.providerTurns }

def whenIdle (app idle : SiralosApplication D) :
    Except PromptStartError (SiralosApplication D) :=
  match app.state with
  | .responding _ => .error .alreadyResponding
  | .idle => .ok idle

def setApprovalResolver (app : SiralosApplication D) :
    Except PromptStartError (SiralosApplication D) :=
  whenIdle app { app with approvalResolver := true }

def withProjection (app : SiralosApplication D) (taskRevision : Option ℕ) :
    SiralosApplication D :=
  { app with projection := true, taskRevision }

def setProjection (app : SiralosApplication D) (taskRevision : Option ℕ) :
    Except PromptStartError (SiralosApplication D) :=
  whenIdle app (withProjection app taskRevision)

def cancel (app : SiralosApplication D) : SiralosApplication D :=
  match app.state with
  | .idle => app
  | .responding machine => { app with state := .responding { machine with cancelled := true } }

def enableProviderProgressTicks (app : SiralosApplication D) : SiralosApplication D :=
  match app.state with
  | .idle => { app with progressTicks := true }
  | .responding machine =>
    { app with
      progressTicks := true
      state := .responding { machine with progressTicks := true } }

variable [DecidableEq D]

/-- One round of the loop of `next_event`. -/
def nextEventTurn (lib : Libraries D) (projection : Bool) (environment : Environment)
    (machine : ResponseMachine) (approvals : ActionApprovals D) :
    LoopTurn × ResponseMachine × ActionApprovals D :=
  let cancelledTurn : LoopTurn × ResponseMachine × ActionApprovals D :=
    (.again, { machine with phase := .terminal .responseCancelled }, approvals)
  match machine.phase with
  | .start => (.returned (some .responseStarted), { machine with phase := .collectTurn }, approvals)
  | .collectTurn =>
    if machine.cancelled then cancelledTurn
    else if projection then
      let request := environment.project machine.history
      (.again,
        { machine with
          host := { machine.host with surface := some request.approvedNames }
          phase := .invokeProvider
            (.projected request (request.pressure.state ≠ PressureState.normal)) },
        record approvals (.surfaced (some request.approvedNames)))
    else (.again, { machine with phase := .invokeProvider .raw }, approvals)
  | .invokeProvider request =>
    if machine.cancelled then cancelledTurn
    else
      match request with
      | .projected projected true =>
        (.returned (some (.contextPressure projected.pressure.state.asStr
            projected.pressure.estimatedTokens projected.pressure.workingMaximum)),
          { machine with phase := .invokeProvider (.projected projected false) }, approvals)
      | .projected projected false =>
        match projected.blocked with
        | some message =>
          (.again, { machine with phase := .terminal (.responseFailed message) }, approvals)
        | none =>
          let turn := invokeProvider machine request
          (turn.1, turn.2, approvals)
      | .raw =>
        let turn := invokeProvider machine request
        (turn.1, turn.2, approvals)
  | .streamTurn collector =>
    if machine.cancelled then cancelledTurn
    else
      match environment.streamNext with
      | none =>
        (.again, handleProviderOutcome machine (withoutTextDeltas collector.finish), approvals)
      | some event =>
        let turn := pushStreamed lib.serde machine collector event
        (turn.1, turn.2, approvals)
  | .emitText turn =>
    match turn.textDeltas with
    | text :: textDeltas =>
      (.returned (some (.textDelta text)),
        { machine with phase := .emitText { turn with textDeltas } }, approvals)
    | [] => (.again, handleCollectedTurn machine turn, approvals)
  | .runningRound runner assistantText =>
    match next (executeCall lib environment.tools) machine.cancelled runner approvals with
    | (some (.event event), runner, approvals) =>
      (.returned (some event), { machine with phase := .runningRound runner assistantText },
        approvals)
    | (some (.finished outcome), _, approvals) =>
      (.again, finishRound machine assistantText outcome, approvals)
    | (none, _, approvals) => (.again, { machine with phase := .done }, approvals)
  | .terminal event => (.returned (some event), { machine with phase := .done }, approvals)
  | .done => (.returned none, machine, approvals)

/-- One round of the loop inside `poll_event`; the round that returns nothing hands the
machine's history back. -/
def pollTurn (lib : Libraries D) (app : SiralosApplication D) (environment : Environment) :
    LoopTurn × SiralosApplication D :=
  match app.state with
  | .idle => (.returned none, app)
  | .responding machine =>
    match nextEventTurn lib app.projection environment machine app.approvals with
    | (.returned none, machine, approvals) =>
      (.returned none, restoreMachine lib.serde { app with approvals } machine)
    | (turn, machine, approvals) => (turn, { app with approvals, state := .responding machine })

/-- `none` while the answers given do not carry the loop to its return. -/
def pollEvent (lib : Libraries D) (app : SiralosApplication D) :
    List Environment → Option (Option ToolLoopEvent × SiralosApplication D)
  | [] => none
  | environment :: environments =>
    match pollTurn lib app environment with
    | (.returned event, app) => some (event, app)
    | (.again, app) => pollEvent lib app environments

inductive Action (D : Type) where
  | sendPrompt (text : Text)
  | pollTurn (environment : Environment)
  | cancel
  | approve (approval : ActionApproval D)
  | setApprovalResolver
  | setProjection (taskRevision : Option ℕ)
  | withProjection (taskRevision : Option ℕ)
  | enableProviderProgressTicks

/-- A rejected call leaves the application as it was. -/
def accepted (app : SiralosApplication D) :
    Except PromptStartError (SiralosApplication D) → SiralosApplication D
  | .ok app => app
  | .error _ => app

def step (lib : Libraries D) (app : SiralosApplication D) : Action D → SiralosApplication D
  | .sendPrompt text => accepted app (Session.sendPrompt lib app text)
  | .pollTurn environment => (Session.pollTurn lib app environment).2
  | .cancel => Session.cancel app
  | .approve approval => { app with approvals := Approval.approve app.approvals approval }
  | .setApprovalResolver => accepted app (Session.setApprovalResolver app)
  | .setProjection taskRevision => accepted app (Session.setProjection app taskRevision)
  | .withProjection taskRevision => Session.withProjection app taskRevision
  | .enableProviderProgressTicks => Session.enableProviderProgressTicks app

def run (lib : Libraries D) (app : SiralosApplication D) (actions : List (Action D)) :
    SiralosApplication D :=
  actions.foldl (step lib) app

@[simp] theorem run_nil (lib : Libraries D) (app : SiralosApplication D) :
    run lib app [] = app := rfl

@[simp] theorem run_cons (lib : Libraries D) (app : SiralosApplication D) (action : Action D)
    (actions : List (Action D)) :
    run lib app (action :: actions) = run lib (step lib app action) actions := rfl

theorem run_append (lib : Libraries D) (app : SiralosApplication D)
    (before after : List (Action D)) :
    run lib app (before ++ after) = run lib (run lib app before) after :=
  List.foldl_append

/-- Every step of a run meets a condition on the state it starts from. -/
def EveryStep (lib : Libraries D) (condition : SiralosApplication D → Action D → Prop) :
    SiralosApplication D → List (Action D) → Prop
  | _, [] => True
  | app, action :: actions =>
    condition app action ∧ EveryStep lib condition (step lib app action) actions

instance instDecidableEveryStep (lib : Libraries D)
    (condition : SiralosApplication D → Action D → Prop)
    [h : ∀ app action, Decidable (condition app action)] :
    (app : SiralosApplication D) → (actions : List (Action D)) →
      Decidable (EveryStep lib condition app actions)
  | _, [] => .isTrue trivial
  | app, action :: actions =>
    @instDecidableAnd _ _ (h app action)
      (instDecidableEveryStep lib condition (step lib app action) actions)

theorem run_keeps (lib : Libraries D) (condition : SiralosApplication D → Action D → Prop)
    (P : SiralosApplication D → Prop)
    (hstep : ∀ app action, condition app action → P app → P (step lib app action))
    (app : SiralosApplication D) (actions : List (Action D))
    (hcondition : EveryStep lib condition app actions) (h : P app) :
    P (run lib app actions) := by
  induction actions generalizing app with
  | nil => exact h
  | cons action actions ih =>
    exact ih (step lib app action) hcondition.2 (hstep app action hcondition.1 h)

theorem run_preserves (lib : Libraries D) (P : SiralosApplication D → Prop)
    (hstep : ∀ app action, P app → P (step lib app action)) (app : SiralosApplication D)
    (actions : List (Action D)) (h : P app) : P (run lib app actions) := by
  have hevery : ∀ app, EveryStep lib (fun _ _ => True) app actions := by
    induction actions with
    | nil => exact fun _ => trivial
    | cons action actions ih => exact fun app => ⟨trivial, ih (step lib app action)⟩
  exact run_keeps lib _ P (fun app action _ => hstep app action) app actions (hevery app) h

theorem poll_event_run (lib : Libraries D) (app final : SiralosApplication D)
    (environments : List Environment) (event : Option ToolLoopEvent)
    (h : pollEvent lib app environments = some (event, final)) :
    ∃ used, used <+: environments ∧ final = run lib app (used.map .pollTurn) := by
  induction environments generalizing app with
  | nil => simp [pollEvent] at h
  | cons environment environments ih =>
    simp only [pollEvent] at h
    split at h
    · rename_i event' app' hturn
      simp only [Option.some.injEq, Prod.mk.injEq] at h
      obtain ⟨rfl, rfl⟩ := h
      exact ⟨[environment], by simp, by simp [step, hturn]⟩
    · rename_i app' hturn
      obtain ⟨used, hbelow, hfinal⟩ := ih app' h
      refine ⟨environment :: used, by simpa using hbelow, ?_⟩
      simpa [step, hturn] using hfinal

end Application

theorem prune_history_fits (serde : SerdeJson) (history : List ConversationItem) :
    Fits serde (pruneHistory serde history) := by
  fun_induction pruneHistory serde history with
  | case1 history h => exact h
  | case2 history _ ih => exact ih

theorem prune_history_of_fits (serde : SerdeJson) (history : List ConversationItem)
    (h : Fits serde history) : pruneHistory serde history = history := by
  rw [pruneHistory, dif_pos h]

/-- Room for one more user message of `bytes` bytes. -/
def HasRoom (serde : SerdeJson) (history : List ConversationItem) (bytes : ℕ) : Prop :=
  history.length < maxHistoryItems ∧ historyBytes serde history + (bytes + 32) ≤ maxHistoryBytes

instance (serde : SerdeJson) (history : List ConversationItem) (bytes : ℕ) :
    Decidable (HasRoom serde history bytes) :=
  inferInstanceAs (Decidable (_ ∧ _))

theorem send_prompt_of_fits {D : Type} (lib : Libraries D) (app : SiralosApplication D)
    (text : Text) (hidle : app.state = .idle) (hfits : Fits lib.serde app.history) :
    sendPrompt lib app text =
      if Text.utf8Len text ≤ maxPromptBytes ∧ HasRoom lib.serde app.history (Text.utf8Len text) then
        .ok (respondTo app app.history text)
      else .error .tooLong := by
  unfold sendPrompt HasRoom
  rw [hidle]
  simp only [prune_history_of_fits lib.serde app.history hfits, historyItemBytes]
  by_cases htext : Text.utf8Len text ≤ maxPromptBytes
  · rw [if_neg (by omega)]
    by_cases hroom : app.history.length < maxHistoryItems ∧
        historyBytes lib.serde app.history + (Text.utf8Len text + 32) ≤ maxHistoryBytes
    · rw [if_neg (by omega), if_pos ⟨htext, hroom⟩]
    · rw [if_pos (by omega), if_neg fun h => hroom h.2]
  · rw [if_pos (by omega), if_neg fun h => htext h.1]

end Siralos.Session
