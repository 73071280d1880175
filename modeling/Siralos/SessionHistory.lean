import Siralos.Session
import Siralos.Transcript

/-!
# The retained history over whole runs

A history stays settled as long as no turn commits a round in which a synthetic id is
also an id the provider chose. Admission of a prompt asks the idle history for room.
-/

set_option autoImplicit false

namespace Siralos.SessionHistory
open Provider Conversation Turn Approval ToolGate ToolRound Transcript Session

def Answerable (calls : List TurnToolCall) : Prop :=
  [] ∉ calls.map TurnToolCall.callId ∧ (calls.map TurnToolCall.callId).Nodup

def PhaseSound : Phase → Prop
  | .emitText _ => False
  | .streamTurn collector => Numbered collector.collected ∧ collector.terminal = none
  | .runningRound runner _ =>
    runner.finished = false ∧
      ∃ calls, Answerable calls ∧ Balanced calls runner.calls runner.transcript
  | _ => True

structure MachineSound (machine : ResponseMachine) : Prop where
  history : Settled machine.history
  phase : PhaseSound machine.phase

theorem push_assistant_settled (history : List ConversationItem) (assistantText : Text)
    (h : Settled history) : Settled (pushAssistant history assistantText) := by
  unfold pushAssistant
  split
  · exact h
  · exact settled_append _ _ h (settled_assistant assistantText)

theorem handle_collected_turn_sound (machine : ResponseMachine) (turn : CollectedTurn)
    (h : Settled machine.history)
    (hcalls : machine.attemptedToolRounds < machine.maxToolRounds.rounds →
      Answerable turn.toolCalls) :
    MachineSound (handleCollectedTurn machine turn) := by
  unfold handleCollectedTurn
  split
  · exact ⟨push_assistant_settled _ _ h, trivial⟩
  · split
    · exact ⟨h, trivial⟩
    · rename_i hbudget
      exact ⟨h, rfl, turn.toolCalls, hcalls (by omega), new_balanced turn.toolCalls⟩

theorem handle_failure_sound (machine : ResponseMachine) (outcome : TurnOutcome)
    (h : Settled machine.history) (houtcome : isTurn outcome = false) :
    MachineSound (handleProviderOutcome machine outcome) := by
  cases outcome with
  | turn assistantText textDeltas toolCalls => simp [isTurn] at houtcome
  | cancelled => exact ⟨h, trivial⟩
  | failed failure => exact ⟨h, trivial⟩

theorem without_text_deltas_is_turn (outcome : TurnOutcome) :
    isTurn (withoutTextDeltas outcome) = isTurn outcome := by
  cases outcome <;> rfl

theorem finish_round_sound (machine : ResponseMachine) (assistantText : Text)
    (outcome : ToolRoundOutcome) (calls : List TurnToolCall) (h : Settled machine.history)
    (hcalls : Answerable calls) (hpaired : Paired calls outcome.transcript) :
    MachineSound (finishRound machine assistantText outcome) := by
  have hround := settled_paired calls _ hcalls.1 hcalls.2 hpaired
  unfold finishRound
  split
  · exact ⟨settled_append _ _ (push_assistant_settled _ _ h) hround, trivial⟩
  · exact ⟨settled_append _ _ h hround, trivial⟩

theorem open_turn_error (machine : ResponseMachine) (request : ProviderRequest)
    (outcome : TurnOutcome) (h : openTurn machine request = .error outcome) :
    isTurn outcome = false := by
  cases request with
  | raw => exact open_provider_turn_error _ _ _ _ _ h
  | projected request pending => exact open_provider_turn_error _ _ _ _ _ h

theorem open_turn_ok (machine : ResponseMachine) (request : ProviderRequest)
    (opened : ModelRequest) (collector : ProviderTurnCollector)
    (h : openTurn machine request = .ok (opened, collector)) : collector = {} := by
  cases request with
  | raw => exact open_provider_turn_ok _ _ _ _ _ _ h
  | projected request pending => exact open_provider_turn_ok _ _ _ _ _ _ h

theorem invoke_provider_sound (machine : ResponseMachine) (request : ProviderRequest)
    (h : Settled machine.history) : MachineSound (invokeProvider machine request).2 := by
  unfold invokeProvider
  dsimp only
  split
  · rename_i opened collector hopened
    have hfresh := open_turn_ok _ _ _ _ hopened
    subst hfresh
    exact ⟨h, empty_numbered, rfl⟩
  · rename_i outcome hopened
    exact handle_failure_sound _ _ h (open_turn_error _ _ _ hopened)

theorem push_streamed_sound (serde : SerdeJson) (machine : ResponseMachine)
    (collector : ProviderTurnCollector) (event : ProviderEvent) (h : Settled machine.history)
    (hcollected : Numbered collector.collected) (hterminal : collector.terminal = none) :
    MachineSound (pushStreamed serde machine collector event).2 := by
  have hnumbered := push_numbered serde collector event hcollected
  unfold pushStreamed
  dsimp only
  rcases push_step serde collector event with
    ⟨outcome, hstep, houtcome⟩ | ⟨hstep, hsame, hfailure⟩ | ⟨hstep, hsame⟩
  · rw [hstep]
    exact handle_failure_sound _ _ h houtcome
  · rw [hstep]
    refine handle_failure_sound _ _ h ?_
    rw [without_text_deltas_is_turn]
    exact finish_failed _ (hsame.trans hterminal) hfailure
  · rw [hstep]
    have hsound : MachineSound
        { machine with phase := .streamTurn (collector.push serde event).2 } :=
      ⟨h, hnumbered, hsame.trans hterminal⟩
    dsimp only
    split
    · exact hsound
    · split <;> exact hsound

/-- The calls of the round that starts when the stream of a completed turn ends with
rounds left in the budget. -/
def roundCalls (machine : ResponseMachine) (environment : Environment) :
    Option (List TurnToolCall) :=
  match machine.phase, environment.streamNext with
  | .streamTurn collector, none =>
    if machine.cancelled = false ∧ collector.collected.state.completionSeen = true ∧
        machine.attemptedToolRounds < machine.maxToolRounds.rounds then
      some collector.collected.toolCalls
    else none
  | _, _ => none

theorem stream_end_sound (machine : ResponseMachine) (collector : ProviderTurnCollector)
    (h : Settled machine.history) (hcollected : Numbered collector.collected)
    (hterminal : collector.terminal = none)
    (hclash : collector.collected.state.completionSeen = true →
      machine.attemptedToolRounds < machine.maxToolRounds.rounds →
      Unclashing collector.collected.toolCalls) :
    MachineSound (handleProviderOutcome machine (withoutTextDeltas collector.finish)) := by
  cases hfinish : collector.finish with
  | cancelled => exact ⟨h, trivial⟩
  | failed failure => exact ⟨h, trivial⟩
  | turn assistantText textDeltas toolCalls =>
    obtain ⟨hseen, rfl⟩ := finish_turn collector _ _ _ hterminal hfinish
    exact handle_collected_turn_sound machine _ h fun hbudget =>
      collected_ids_distinct _ hcollected (hclash hseen hbudget)

/-- Pruning keeps whole turns, so a settled history stays settled. -/
theorem drop_turn_settled (history : List ConversationItem) (h : Settled history) :
    Settled (dropTurn history) := by
  unfold dropTurn
  cases hdrop : history.tail.dropWhile fun item => !isUserItem item with
  | nil => exact settled_nil
  | cons item rest =>
    have hsuffix : (item :: rest) <:+ history := by
      rw [← hdrop]
      exact (List.dropWhile_suffix _).trans (List.tail_suffix _)
    have hhead : isUserItem item = true := by
      have hne : history.tail.dropWhile (fun item => !isUserItem item) ≠ [] := by simp [hdrop]
      have := List.head_dropWhile_not (fun item => !isUserItem item) hne
      simpa [hdrop] using this
    cases item with
    | userMessage content =>
      obtain ⟨before, rfl⟩ := hsuffix
      exact settled_from_user before rest content h
    | assistantMessage content => simp [isUserItem] at hhead
    | assistantToolCall callId toolName input => simp [isUserItem] at hhead
    | toolResult callId toolName result => simp [isUserItem] at hhead

theorem prune_history_settled (serde : SerdeJson) (history : List ConversationItem)
    (h : Settled history) : Settled (pruneHistory serde history) := by
  fun_induction pruneHistory serde history with
  | case1 history _ => exact h
  | case2 history _ ih => exact ih (drop_turn_settled history h)

section Application

variable {D : Type}

structure AppSound (app : SiralosApplication D) : Prop where
  idle : Settled app.history
  responding : ∀ machine, app.state = .responding machine → MachineSound machine

theorem new_sound (registry : ToolRegistry) (policy : PermissionPolicy)
    (surface : Option (List Text)) (budget : RoundBudget) :
    AppSound (.new registry policy surface budget : SiralosApplication D) :=
  ⟨settled_nil, fun _ hm => by simp [SiralosApplication.new] at hm⟩

theorem when_idle_sound (app idle : SiralosApplication D) (h : AppSound app)
    (hidle : idle.history = app.history) (hstate : idle.state = app.state) :
    AppSound (accepted app (whenIdle app idle)) := by
  unfold whenIdle
  split
  · exact h
  · exact ⟨by rw [accepted, hidle]; exact h.idle,
      fun machine hm => h.responding machine (hstate ▸ hm)⟩

theorem send_prompt_sound (lib : Libraries D) (app : SiralosApplication D) (text : Text)
    (h : AppSound app) : AppSound (accepted app (sendPrompt lib app text)) := by
  unfold sendPrompt
  split
  · exact h
  · dsimp only
    split
    · exact h
    · split
      · exact h
      · refine ⟨h.idle, fun machine hm => ?_⟩
        simp only [accepted, respondTo, AppState.responding.injEq] at hm
        subst hm
        exact ⟨settled_append _ _ (prune_history_settled _ _ h.idle) (settled_user text), trivial⟩

variable [DecidableEq D]

theorem next_event_turn_sound (lib : Libraries D) (projection : Bool)
    (environment : Environment) (machine : ResponseMachine) (approvals : ActionApprovals D)
    (h : MachineSound machine) (hids : ∀ calls ∈ roundCalls machine environment, Unclashing calls) :
    MachineSound (nextEventTurn lib projection environment machine approvals).2.1 := by
  obtain ⟨hhistory, hphase⟩ := h
  have hcancelled : MachineSound { machine with phase := .terminal .responseCancelled } :=
    ⟨hhistory, trivial⟩
  unfold nextEventTurn
  dsimp only
  cases hp : machine.phase with
  | start => exact ⟨hhistory, trivial⟩
  | collectTurn =>
    dsimp only
    split
    · exact hcancelled
    · split <;> exact ⟨hhistory, trivial⟩
  | invokeProvider request =>
    dsimp only
    split
    · exact hcancelled
    · cases request with
      | raw => exact invoke_provider_sound machine _ hhistory
      | projected projected pending =>
        cases pending with
        | true => exact ⟨hhistory, trivial⟩
        | false =>
          dsimp only
          split
          · exact ⟨hhistory, trivial⟩
          · exact invoke_provider_sound machine _ hhistory
  | emitText turn =>
    rw [hp] at hphase
    exact hphase.elim
  | streamTurn collector =>
    rw [hp] at hphase
    dsimp only
    split
    · exact hcancelled
    · rename_i hlive
      cases hstream : environment.streamNext with
      | none =>
        refine stream_end_sound machine collector hhistory hphase.1 hphase.2 fun hseen hbudget =>
          hids _ ?_
        rw [roundCalls, hp, hstream]
        exact if_pos ⟨by simpa using hlive, hseen, hbudget⟩
      | some event =>
        exact push_streamed_sound lib.serde machine collector event hhistory hphase.1 hphase.2
  | runningRound runner assistantText =>
    rw [hp] at hphase
    obtain ⟨hlive, calls, hcalls, hbalanced⟩ := hphase
    have hround := next_from_round (executeCall lib environment.tools) machine.cancelled calls
      runner.calls runner approvals runner.executor rfl hlive hbalanced
    dsimp only
    rw [next]
    generalize nextFrom (executeCall lib environment.tools) machine.cancelled runner.calls runner
      approvals = result at hround
    cases hround with
    | event event runner' approvals' hlive' hexecutor hbalanced' =>
      exact ⟨hhistory, hlive', calls, hcalls, hbalanced'⟩
    | finished outcome runner' approvals' hpaired =>
      exact finish_round_sound machine assistantText outcome calls hhistory hcalls hpaired
  | terminal event => exact ⟨hhistory, trivial⟩
  | done => exact ⟨hhistory, by simp [hp, PhaseSound]⟩

def startedCalls (app : SiralosApplication D) : Action D → Option (List TurnToolCall)
  | .pollTurn environment =>
    match app.state with
    | .idle => none
    | .responding machine => roundCalls machine environment
  | _ => none

def StepIds (app : SiralosApplication D) (action : Action D) : Prop :=
  ∀ calls ∈ startedCalls app action, Unclashing calls

instance (app : SiralosApplication D) (action : Action D) : Decidable (StepIds app action) :=
  inferInstanceAs (Decidable (∀ calls ∈ startedCalls app action, Unclashing calls))

theorem poll_turn_sound (lib : Libraries D) (app : SiralosApplication D)
    (environment : Environment) (h : AppSound app) (hids : StepIds app (.pollTurn environment)) :
    AppSound (pollTurn lib app environment).2 := by
  unfold pollTurn
  cases hstate : app.state with
  | idle => exact h
  | responding machine =>
    have hsound := next_event_turn_sound lib app.projection environment machine app.approvals
      (h.responding machine hstate) fun calls hm => hids calls (by simpa [startedCalls, hstate])
    dsimp only
    split
    · rename_i machine' approvals' hturn
      rw [hturn] at hsound
      exact ⟨prune_history_settled _ _ hsound.history, fun _ hm => by simp [restoreMachine] at hm⟩
    · rename_i turn machine' approvals' _ hturn
      rw [hturn] at hsound
      refine ⟨h.idle, fun other hm => ?_⟩
      simp only [AppState.responding.injEq] at hm
      exact hm ▸ hsound

theorem step_sound (lib : Libraries D) (app : SiralosApplication D) (action : Action D)
    (hids : StepIds app action) (h : AppSound app) : AppSound (step lib app action) := by
  cases action with
  | sendPrompt text => exact send_prompt_sound lib app text h
  | pollTurn environment => exact poll_turn_sound lib app environment h hids
  | cancel =>
    simp only [step, cancel]
    split
    · exact h
    · rename_i machine hstate
      refine ⟨h.idle, fun other hm => ?_⟩
      simp only [AppState.responding.injEq] at hm
      subst hm
      exact ⟨(h.responding machine hstate).history, (h.responding machine hstate).phase⟩
  | approve approval => exact ⟨h.idle, h.responding⟩
  | setApprovalResolver => exact when_idle_sound app _ h rfl rfl
  | setProjection taskRevision => exact when_idle_sound app _ h rfl rfl
  | withProjection taskRevision => exact ⟨h.idle, h.responding⟩
  | enableProviderProgressTicks =>
    simp only [step, enableProviderProgressTicks]
    split
    · rename_i hstate
      exact ⟨h.idle, fun machine hm => h.responding machine hm⟩
    · rename_i machine hstate
      refine ⟨h.idle, fun other hm => ?_⟩
      simp only [AppState.responding.injEq] at hm
      subst hm
      exact ⟨(h.responding machine hstate).history, (h.responding machine hstate).phase⟩

/-- In every state of a run whose turns keep synthetic and chosen ids apart, the history
passes the validation that opens a provider turn. -/
theorem retained_history_validates (lib : Libraries D) (registry : ToolRegistry)
    (policy : PermissionPolicy) (surface : Option (List Text)) (budget : RoundBudget)
    (actions : List (Action D))
    (hids : EveryStep lib StepIds (.new registry policy surface budget) actions) :
    validateConversationItems
      (run lib (.new registry policy surface budget) actions).currentHistory = .ok () := by
  have hsound := run_keeps lib StepIds AppSound (step_sound lib) _ actions hids
    (new_sound registry policy surface budget)
  rw [validate_ok_iff]
  unfold SiralosApplication.currentHistory
  split
  · exact hsound.idle
  · rename_i machine hstate
    exact (hsound.responding machine hstate).history

theorem step_fits (lib : Libraries D) (app : SiralosApplication D) (action : Action D)
    (h : Fits lib.serde app.history) : Fits lib.serde (step lib app action).history := by
  have hwhen : ∀ idle : SiralosApplication D, idle.history = app.history →
      Fits lib.serde (accepted app (whenIdle app idle)).history := by
    intro idle hidle
    unfold whenIdle
    split
    · exact h
    · rw [accepted, hidle]
      exact h
  cases action with
  | sendPrompt text =>
    simp only [step, sendPrompt]
    split
    · exact h
    · split
      · exact h
      · split <;> exact h
  | pollTurn environment =>
    simp only [step, pollTurn]
    split
    · exact h
    · split
      · exact prune_history_fits _ _
      · exact h
  | cancel =>
    simp only [step, cancel]
    split <;> exact h
  | approve approval => exact h
  | setApprovalResolver => exact hwhen _ rfl
  | setProjection taskRevision => exact hwhen _ rfl
  | withProjection taskRevision => exact h
  | enableProviderProgressTicks =>
    simp only [step, enableProviderProgressTicks]
    split <;> exact h

/-- An idle application takes every prompt of legal size exactly when its history has
room for the largest one. -/
theorem prompt_admission_iff (lib : Libraries D) (registry : ToolRegistry)
    (policy : PermissionPolicy) (surface : Option (List Text)) (budget : RoundBudget)
    (actions : List (Action D))
    (hidle : (run lib (.new registry policy surface budget) actions).state = .idle) :
    (∀ text, Text.utf8Len text ≤ maxPromptBytes → ∃ next,
      sendPrompt lib (run lib (.new registry policy surface budget) actions) text = .ok next) ↔
    HasRoom lib.serde (run lib (.new registry policy surface budget) actions).history
      maxPromptBytes := by
  have hfits := run_preserves lib (fun app => Fits lib.serde app.history) (step_fits lib)
    (.new registry policy surface budget) actions (fits_nil lib.serde)
  generalize run lib (.new registry policy surface budget) actions = app at hidle hfits ⊢
  constructor
  · intro h
    have hlen : Text.utf8Len (List.replicate maxPromptBytes 'a') = maxPromptBytes := by
      rw [Text.utf8Len, List.map_replicate, List.sum_replicate_nat]
      exact Nat.mul_one _
    obtain ⟨next, hnext⟩ := h (List.replicate maxPromptBytes 'a') (le_of_eq hlen)
    rw [send_prompt_of_fits lib app _ hidle hfits, hlen] at hnext
    by_contra hroom
    rw [if_neg fun h => hroom h.2] at hnext
    simp at hnext
  · rintro ⟨hitems, hbytes⟩ text htext
    rw [send_prompt_of_fits lib app text hidle hfits,
      if_pos ⟨htext, hitems, by omega⟩]
    exact ⟨_, rfl⟩

end Application

section Runs

def plainLibraries : Libraries Text :=
  { serde := { fromStr := fun _ => none, toStr := fun _ => [] }, sha256Hex := id }

def freshApplication : SiralosApplication Text :=
  .new { entries := [], distinct := List.nodup_nil } { rules := [] } none .default

/-- A world without tools, in which the provider's next event is `event`. -/
def streaming (event : Option ProviderEvent) : Environment where
  tools :=
    { approvalPreview := fun _ _ => none
      resolve := fun _ => .deny
      execute := fun _ _ _ => none }
  streamNext := event
  project := fun messages =>
    { messages, tools := [], system := none,
      pressure := { state := .normal, estimatedTokens := 0, workingMaximum := 0 },
      approvedNames := [], blocked := none }

def polls (events : List (Option ProviderEvent)) : List (Action Text) :=
  events.map fun event => .pollTurn (streaming event)

def callEvent (callId : Text) : Option ProviderEvent :=
  some (.event (.toolCall callId ['t'] (.fromValue .null)))

/-- The provider first uses `invalid-call-1` itself, then leaves an id empty. -/
def clashingRun : List (Action Text) :=
  .sendPrompt ['p'] :: polls ([none, none, none, callEvent (invalidCallId 1), callEvent [],
    some (.event .completed), none] ++ List.replicate 5 none)

theorem fresh_prompt :
    step plainLibraries freshApplication (.sendPrompt ['p']) =
      respondTo freshApplication [] ['p'] := by
  have h := send_prompt_of_fits plainLibraries freshApplication ['p'] rfl (fits_nil _)
  rw [if_pos (by decide)] at h
  simp only [step, h, accepted]
  rfl

/-- The machine is about to open a provider turn. -/
def opening (app : SiralosApplication Text) : Bool :=
  match app.state with
  | .responding { phase := .invokeProvider _, .. } => true
  | _ => false

theorem retained_history_breaks :
    opening (run plainLibraries freshApplication clashingRun) = true ∧
      validateConversationItems
        (run plainLibraries freshApplication clashingRun).currentHistory =
          .error (.duplicateCallId (invalidCallId 1)) := by
  rw [clashingRun, run_cons, fresh_prompt]
  decide +kernel

def callingRun : List (Action Text) :=
  .sendPrompt ['p'] :: polls ([none, none, none, callEvent ['c'], callEvent [],
    some (.event .completed), none] ++ List.replicate 5 none)

theorem retained_history_validates_calling_run :
    validateConversationItems
      (run plainLibraries freshApplication callingRun).currentHistory = .ok () :=
  retained_history_validates plainLibraries _ _ _ _ callingRun (by
    rw [callingRun, EveryStep]
    refine ⟨fun _ hm => by simp [startedCalls] at hm, ?_⟩
    change EveryStep plainLibraries StepIds (step plainLibraries freshApplication _) _
    rw [fresh_prompt]
    decide +kernel)

theorem prompt_admission_fresh :
    ∃ next, sendPrompt plainLibraries (run plainLibraries freshApplication []) ['p'] = .ok next :=
  (prompt_admission_iff plainLibraries _ _ _ _ [] rfl).mpr (by decide) ['p'] (by decide)

def exchange : List (Action Text) :=
  .sendPrompt ['p'] :: polls [none, none, none, some (.event (.textDelta ['a'])),
    some (.event .completed), none, none, none]

def exchanged : List ConversationItem := [.userMessage ['p'], .assistantMessage ['a']]

structure AtRest (app : SiralosApplication Text) (exchanges : ℕ) : Prop where
  idle : app.state = .idle
  projection : app.projection = false
  quiet : app.progressTicks = false
  history : app.history = (List.replicate exchanges exchanged).flatten

theorem exchanges_settled (n : ℕ) : Settled (List.replicate n exchanged).flatten := by
  induction n with
  | zero => exact settled_nil
  | succ n ih => exact settled_append exchanged _ ⟨[], rfl, by simp [Closed]⟩ ih

theorem exchanges_bytes (n : ℕ) :
    historyBytes plainLibraries.serde (List.replicate n exchanged).flatten = 66 * n := by
  induction n with
  | zero => rfl
  | succ n ih =>
    rw [List.replicate_succ, List.flatten_cons, historyBytes, List.map_append, List.sum_append,
      ← historyBytes, ← historyBytes, ih]
    have : historyBytes plainLibraries.serde exchanged = 66 := by decide
    omega

theorem exchanges_length (n : ℕ) : (List.replicate n exchanged).flatten.length = 2 * n := by
  simp [exchanged, Nat.mul_comm]

/-- What the collector holds after the one word, and after its completion. -/
def answered : ProviderTurnCollector :=
  { collected :=
      { state := { assistantText := ['a'], assistantTextBytes := 1, textEvents := 1, turnBytes := 1 }
        textDeltas := [['a']] } }

def completed : ProviderTurnCollector :=
  { collected :=
      { state :=
          { assistantText := ['a'], assistantTextBytes := 1, textEvents := 1, turnBytes := 1,
            completionSeen := true }
        textDeltas := [['a']] } }

theorem exchange_rest (app : SiralosApplication Text) (n : ℕ) (h : AtRest app n)
    (hn : n < 128) : AtRest (run plainLibraries app exchange) (n + 1) := by
  obtain ⟨hidle, hprojection, hquiet, hhistory⟩ := h
  have hlength := exchanges_length n
  have hbytes := exchanges_bytes n
  rw [← hhistory] at hlength hbytes
  have hfits : Fits plainLibraries.serde app.history := by
    constructor
    · simp only [maxHistoryItems]
      omega
    · simp only [maxHistoryBytes]
      omega
  have hroom : HasRoom plainLibraries.serde app.history (Text.utf8Len ['p']) := by
    have : Text.utf8Len ['p'] = 1 := by decide
    constructor
    · simp only [maxHistoryItems]
      omega
    · simp only [maxHistoryBytes]
      omega
  have hsend : step plainLibraries app (.sendPrompt ['p']) = respondTo app app.history ['p'] := by
    rw [step, send_prompt_of_fits plainLibraries app ['p'] hidle hfits,
      if_pos ⟨by decide, hroom⟩]
    rfl
  have hvalid : validateConversationItems (app.history ++ [.userMessage ['p']]) = .ok () := by
    rw [validate_ok_iff]
    exact settled_append _ _ (hhistory ▸ exchanges_settled n) (settled_user _)
  have hfinal : Fits plainLibraries.serde
      (app.history ++ [.userMessage ['p']] ++ [.assistantMessage ['a']]) := by
    have : historyBytes plainLibraries.serde [.userMessage ['p'], .assistantMessage ['a']] = 66 := by
      decide
    constructor
    · simp only [List.length_append, List.length_singleton, maxHistoryItems]
      omega
    · simp only [List.append_assoc, List.singleton_append, historyBytes, List.map_append,
        List.sum_append] at this hbytes ⊢
      simp only [maxHistoryBytes]
      omega
  have htext : ProviderTurnCollector.push plainLibraries.serde {} (.event (.textDelta ['a'])) =
      (.continue, answered) := rfl
  have htexts : answered.collected.textDeltas = [['a']] := rfl
  have hdone : answered.push plainLibraries.serde (.event .completed) = (.continue, completed) := rfl
  have hdones : completed.collected.textDeltas = [['a']] ∧
      completed.collected.reasoningDeltas = answered.collected.reasoningDeltas := ⟨rfl, rfl⟩
  have hfinish : completed.finish = .turn ['a'] [['a']] [] := rfl
  have hpruned := prune_history_of_fits _ _ hfinal
  rw [List.append_assoc, List.singleton_append] at hpruned
  have hrun : run plainLibraries app exchange =
      { app with
        history := app.history ++ [.userMessage ['p']] ++ [.assistantMessage ['a']]
        completedToolRounds := 0
        providerTurnCount := 1
        approvals := record app.approvals (.surfaced app.surface) } := by
    rw [exchange, run_cons, hsend]
    simp [polls, streaming, step, pollTurn, respondTo, nextEventTurn, invokeProvider, openTurn,
      openProviderTurn, pushStreamed, withoutTextDeltas, handleProviderOutcome,
      handleCollectedTurn, pushAssistant, restoreMachine, hprojection, hquiet, hvalid, htext,
      htexts, hdone, hdones, hfinish, hpruned]
    exact hidle.symm
  rw [hrun]
  refine ⟨hidle, hprojection, hquiet, ?_⟩
  rw [List.replicate_succ', List.flatten_concat, ← hhistory]
  simp [exchanged]

def exchanges (n : ℕ) : List (Action Text) := (List.replicate n exchange).flatten

theorem exchanges_rest (n : ℕ) (hn : n ≤ 128) :
    AtRest (run plainLibraries freshApplication (exchanges n)) n := by
  induction n with
  | zero => exact ⟨rfl, rfl, rfl, rfl⟩
  | succ n ih =>
    rw [exchanges, List.replicate_succ', List.flatten_concat, run_append]
    exact exchange_rest _ n (ih (by omega)) (by omega)

/-- After 128 answered prompts the idle application refuses even the empty prompt. -/
theorem prompt_admission_wedges :
    (run plainLibraries freshApplication (exchanges 128)).state = .idle ∧
      sendPrompt plainLibraries (run plainLibraries freshApplication (exchanges 128)) [] =
        .error .tooLong := by
  obtain ⟨hidle, -, -, hhistory⟩ := exchanges_rest 128 (le_refl _)
  refine ⟨hidle, ?_⟩
  have hlength := exchanges_length 128
  have hbytes := exchanges_bytes 128
  rw [← hhistory] at hlength hbytes
  rw [send_prompt_of_fits _ _ _ hidle ⟨hlength.le, hbytes.le.trans (by decide)⟩, if_neg]
  rintro ⟨-, hitems, -⟩
  rw [hlength] at hitems
  exact absurd hitems (by decide)

end Runs
end Siralos.SessionHistory
