import Siralos.ToolRound

/-!
# Whole rounds

A round is pulled until it is finished, and before each pull the host may have cancelled. What comes
out of it is determined by the calls it performs: their events, in order, and the transcript.
-/

set_option autoImplicit false

namespace Siralos.RoundPairing

open Provider Conversation Turn ToolGate ToolRound

section Rounds

variable {E S : Type}
variable (executeCall : E → ExecutableToolCall → Bool → S → ToolCallExecution × S)

/-- Pulls as long as there is a step; the schedule tells which pulls find the token cancelled. -/
def pulls (schedule : ℕ → Bool) : ℕ → ToolRoundRunner E → S → List ToolRoundStep
  | 0, _, _ => []
  | count + 1, runner, state =>
    match next executeCall (schedule 0) runner state with
    | (none, _) => []
    | (some step, runner, state) =>
      step :: pulls (fun i => schedule (i + 1)) count runner state

/-- A call that is reached without cancellation: an invalid one fails and is not executed. -/
def performCall (executor : E) (state : S) : TurnToolCall → ToolCallExecution × S
  | .invalid callId toolName message =>
    ({ result := .failed message, events := [.toolFailed callId toolName message] }, state)
  | .execute callId toolName input =>
    executeCall executor
      { callId, toolName, input := input.value, orderedJson := input.orderedJson } false state

def perform (executor : E) : List TurnToolCall → S → List ToolCallExecution
  | [], _ => []
  | call :: calls, state =>
    (performCall executeCall executor state call).1 ::
      perform executor calls (performCall executeCall executor state call).2

def resultItem (call : TurnToolCall) (execution : ToolCallExecution) : ConversationItem :=
  .toolResult call.callId call.toolName execution.result

def shown (executions : List ToolCallExecution) : List ToolLoopEvent :=
  executions.flatMap ToolCallExecution.events

def anyCancelled (executions : List ToolCallExecution) : Bool :=
  executions.any fun execution => isCancelled execution.result

theorem perform_length (executor : E) (calls : List TurnToolCall) (state : S) :
    (perform executeCall executor calls state).length = calls.length := by
  induction calls generalizing state with
  | nil => rfl
  | cons call calls ih => rw [perform, List.length_cons, ih, List.length_cons]

/-- The runner after it has performed a call, in the same pull. -/
def performed (runner : ToolRoundRunner E) (queue : List TurnToolCall) (call : TurnToolCall)
    (execution : ToolCallExecution) : ToolRoundRunner E :=
  { runner with
    calls := queue
    pendingEvents := execution.events
    finishCancelledAfterEvents := isCancelled execution.result
    transcript := runner.transcript ++ [resultItem call execution] }

theorem next_from_calls (cancelled : Bool) (queue calls : List TurnToolCall)
    (runner : ToolRoundRunner E) (state : S) :
    nextFrom executeCall cancelled queue { runner with calls } state =
      nextFrom executeCall cancelled queue runner state := by
  induction queue generalizing runner state with
  | nil => rw [nextFrom, nextFrom]
  | cons call queue ih =>
    rw [next_from_def, next_from_def executeCall cancelled (call :: queue) runner]
    obtain ⟨ownCalls, transcript, pendingEvents, flag, finished, executor⟩ := runner
    cases finished with
    | true => rfl
    | false =>
      cases pendingEvents with
      | cons event pendingEvents => rfl
      | nil =>
        cases flag with
        | true => rfl
        | false =>
          cases cancelled with
          | true => rfl
          | false =>
            simp only [Bool.false_eq_true, if_false]
            cases call with
            | invalid callId toolName message => exact ih ⟨ownCalls, _, _, _, _, _⟩ state
            | execute callId toolName input => exact ih ⟨ownCalls, _, _, _, _, _⟩ _

theorem next_perform (runner : ToolRoundRunner E) (state : S) (call : TurnToolCall)
    (queue : List TurnToolCall) (hcalls : runner.calls = call :: queue)
    (hlive : runner.finished = false) (hpending : runner.pendingEvents = [])
    (hflag : runner.finishCancelledAfterEvents = false) :
    next executeCall false runner state =
      next executeCall false
        (performed runner queue call (performCall executeCall runner.executor state call).1)
        (performCall executeCall runner.executor state call).2 := by
  rw [next, next, hcalls, next_from_def]
  obtain ⟨calls, transcript, pendingEvents, flag, finished, executor⟩ := runner
  simp only at hcalls hlive hpending hflag
  subst hlive hpending hflag
  simp only [Bool.false_eq_true, if_false]
  cases call with
  | invalid callId toolName message =>
    exact (next_from_calls executeCall false queue queue ⟨calls, _, _, _, _, _⟩ _).symm
  | execute callId toolName input =>
    exact (next_from_calls executeCall false queue queue ⟨calls, _, _, _, _, _⟩ _).symm

theorem next_event (cancelled : Bool) (runner : ToolRoundRunner E) (state : S)
    (event : ToolLoopEvent) (events : List ToolLoopEvent) (hlive : runner.finished = false)
    (hpending : runner.pendingEvents = event :: events) :
    next executeCall cancelled runner state =
      (some (.event event), { runner with pendingEvents := events }, state) := by
  rw [next, next_from_def]
  simp only [hlive, hpending, Bool.false_eq_true, if_false]

def Delivers (schedule : ℕ → Bool) (runner : ToolRoundRunner E) (state : S)
    (steps : List ToolRoundStep) : Prop :=
  ∀ count, pulls executeCall schedule count runner state = steps.take count

section Delivering

variable {executeCall} {schedule : ℕ → Bool} {runner : ToolRoundRunner E} {state : S}
  {steps : List ToolRoundStep}

theorem delivers_event {event : ToolLoopEvent} {events : List ToolLoopEvent}
    (hlive : runner.finished = false) (hpending : runner.pendingEvents = event :: events)
    (h : Delivers executeCall (fun i => schedule (i + 1))
      { runner with pendingEvents := events } state steps) :
    Delivers executeCall schedule runner state (.event event :: steps) := by
  intro count
  cases count with
  | zero => rfl
  | succ count =>
    rw [pulls, next_event executeCall _ runner state event events hlive hpending,
      List.take_succ_cons]
    exact congrArg _ (h count)

theorem delivers_events (events : List ToolLoopEvent) (hlive : runner.finished = false)
    (hpending : runner.pendingEvents = events)
    (h : Delivers executeCall (fun i => schedule (i + events.length))
      { runner with pendingEvents := [] } state steps) :
    Delivers executeCall schedule runner state (events.map .event ++ steps) := by
  induction events generalizing runner schedule with
  | nil =>
    have hsame : { runner with pendingEvents := [] } = runner := by
      rw [← hpending]
    rwa [hsame] at h
  | cons event events ih =>
    have hshift : (fun i => schedule (i + (event :: events).length)) =
        fun i => schedule (i + events.length + 1) := by
      funext i
      rw [List.length_cons, Nat.add_assoc]
    rw [hshift] at h
    exact delivers_event hlive hpending (@ih _ { runner with pendingEvents := events } hlive rfl h)

theorem delivers_finished {outcome : ToolRoundOutcome} {last : ToolRoundRunner E} {state' : S}
    (h : next executeCall (schedule 0) runner state = (some (.finished outcome), last, state'))
    (hdone : last.finished = true) :
    Delivers executeCall schedule runner state [.finished outcome] := by
  intro count
  cases count with
  | zero => rfl
  | succ count =>
    rw [pulls, h, List.take_succ_cons]
    have hnothing : ∀ schedule, pulls executeCall schedule count last state' = [] := by
      intro schedule
      cases count with
      | zero => rfl
      | succ count =>
        rw [pulls, next, next_from_def, if_pos hdone]
    simp only [hnothing, List.take_nil]

theorem delivers_same {runner' : ToolRoundRunner E} {state' : S}
    (hsame : next executeCall (schedule 0) runner state =
      next executeCall (schedule 0) runner' state')
    (h : Delivers executeCall schedule runner' state' steps) :
    Delivers executeCall schedule runner state steps := by
  intro count
  rw [← h count]
  cases count with
  | zero => rfl
  | succ count => rw [pulls, pulls, hsame]

end Delivering

/-- The outcome of a round that performs the calls `done` and skips the others. A call is performed
in the pull after the last event of the calls before it. -/
structure Outcome (schedule : ℕ → Bool) (done skipped : List TurnToolCall)
    (executions : List ToolCallExecution) (before : List ConversationItem)
    (outcome : ToolRoundOutcome) : Prop where
  transcript : outcome.transcript =
    before ++ List.zipWith resultItem done executions ++ skipped.map skippedResult
  kind : outcome.kind = .completed ↔ skipped = [] ∧ anyCancelled executions = false
  reached : ∀ i < done.length, schedule (shown (executions.take i)).length = false ∧
    anyCancelled (executions.take i) = false
  stopped : skipped ≠ [] → anyCancelled executions = true ∨
    schedule (shown executions).length = true

theorem Outcome.cons {schedule : ℕ → Bool} {done skipped : List TurnToolCall}
    {executions : List ToolCallExecution} {before : List ConversationItem}
    {outcome : ToolRoundOutcome} {call : TurnToolCall} {execution : ToolCallExecution}
    (h : Outcome (fun i => schedule (i + execution.events.length)) done skipped executions
      (before ++ [resultItem call execution]) outcome)
    (hfree : schedule 0 = false) (hresult : isCancelled execution.result = false) :
    Outcome schedule (call :: done) skipped (execution :: executions) before outcome where
  transcript := by
    rw [h.transcript, List.zipWith_cons_cons]
    simp
  kind := by
    rw [h.kind]
    simp [anyCancelled, hresult]
  reached i hi := by
    cases i with
    | zero => exact ⟨hfree, rfl⟩
    | succ i =>
      obtain ⟨hschedule, hnone⟩ := h.reached i (by simpa using hi)
      have hlength : (shown ((execution :: executions).take (i + 1))).length =
          (shown (executions.take i)).length + execution.events.length := by
        simp [shown, Nat.add_comm]
      rw [hlength]
      refine ⟨hschedule, ?_⟩
      rw [anyCancelled] at hnone
      simp [anyCancelled, hresult, hnone]
  stopped hne := by
    have hlength : (shown (execution :: executions)).length =
        (shown executions).length + execution.events.length := by
      simp [shown, Nat.add_comm]
    rw [hlength]
    rcases h.stopped hne with hany | hschedule
    · left
      rw [anyCancelled] at hany
      simp [anyCancelled, hany]
    · exact .inr hschedule

def cutShort (runner : ToolRoundRunner E) : ToolRoundOutcome :=
  { kind := .cancelled, transcript := runner.transcript ++ runner.calls.map skippedResult }

theorem next_cancelled (cancelled : Bool) (runner : ToolRoundRunner E) (state : S)
    (hlive : runner.finished = false) (hpending : runner.pendingEvents = [])
    (h : runner.finishCancelledAfterEvents = true ∨
      runner.finishCancelledAfterEvents = false ∧ cancelled = true ∧ runner.calls ≠ []) :
    ∃ last, next executeCall cancelled runner state =
      (some (.finished (cutShort runner)), last, state) ∧ last.finished = true := by
  obtain ⟨calls, transcript, pendingEvents, flag, finished, executor⟩ := runner
  simp only at hlive hpending h
  subst hlive hpending
  rw [next, next_from_def]
  rcases h with rfl | ⟨rfl, rfl, hne⟩
  · exact ⟨_, rfl, rfl⟩
  · cases calls with
    | nil => exact absurd rfl hne
    | cons call calls => exact ⟨_, rfl, rfl⟩

theorem round_from (schedule : ℕ → Bool) (queue : List TurnToolCall) (runner : ToolRoundRunner E)
    (state : S) (hcalls : runner.calls = queue) (hlive : runner.finished = false)
    (hpending : runner.pendingEvents = []) (hflag : runner.finishCancelledAfterEvents = false) :
    ∃ done skipped outcome, queue = done ++ skipped ∧
      Delivers executeCall schedule runner state
        ((shown (perform executeCall runner.executor done state)).map .event ++
          [.finished outcome]) ∧
      Outcome schedule done skipped (perform executeCall runner.executor done state)
        runner.transcript outcome := by
  induction queue generalizing schedule runner state with
  | nil =>
    refine ⟨[], [], { kind := .completed, transcript := runner.transcript }, rfl, ?_, ?_⟩
    · obtain ⟨calls, transcript, pendingEvents, flag, finished, executor⟩ := runner
      simp only at hcalls hlive hpending hflag
      subst hcalls hlive hpending hflag
      exact delivers_finished rfl rfl
    · refine ⟨by simp [perform], by simp [perform, anyCancelled], ?_, ?_⟩
      · intro i hi
        exact absurd hi (Nat.not_lt_zero _)
      · intro hne
        exact absurd rfl hne
  | cons call queue ih =>
    by_cases hcancelled : schedule 0 = true
    · obtain ⟨last, hnext, hlast⟩ := next_cancelled executeCall _ runner state hlive hpending
        (.inr ⟨hflag, hcancelled, by simp [hcalls]⟩)
      refine ⟨[], call :: queue, _, rfl, delivers_finished hnext hlast, ?_⟩
      refine ⟨by simp [perform, cutShort, hcalls], by simp [cutShort], ?_, ?_⟩
      · intro i hi
        exact absurd hi (Nat.not_lt_zero _)
      · intro _
        exact .inr hcancelled
    · rw [Bool.not_eq_true] at hcancelled
      have hperform := next_perform executeCall runner state call queue hcalls hlive hpending hflag
      rw [← hcancelled] at hperform
      generalize hexecution : performCall executeCall runner.executor state call = execution at *
      obtain ⟨execution, state'⟩ := execution
      have hrest : ∀ calls, perform executeCall runner.executor (call :: calls) state =
          execution :: perform executeCall runner.executor calls state' := by
        intro calls
        rw [perform, hexecution]
      by_cases hresult : isCancelled execution.result = true
      · obtain ⟨last, hnext, hlast⟩ := next_cancelled executeCall
          (schedule (0 + execution.events.length))
          { performed runner queue call execution with pendingEvents := [] } state' hlive rfl
          (.inl hresult)
        refine ⟨[call], queue, cutShort
          { performed runner queue call execution with pendingEvents := [] }, rfl, ?_, ?_⟩
        · rw [hrest, perform, shown, List.flatMap_singleton]
          exact delivers_same hperform
            (delivers_events _ hlive rfl (delivers_finished hnext hlast))
        · rw [hrest, perform]
          refine ⟨by simp [cutShort, performed], by simp [cutShort, anyCancelled, hresult], ?_, ?_⟩
          · intro i hi
            have hzero : i = 0 := by simpa using hi
            subst hzero
            exact ⟨hcancelled, rfl⟩
          · intro _
            exact .inl (by simp [anyCancelled, hresult])
      · rw [Bool.not_eq_true] at hresult
        obtain ⟨done, skipped, outcome, hsplit, hdelivers, houtcome⟩ :=
          ih (fun i => schedule (i + execution.events.length))
            { performed runner queue call execution with pendingEvents := [] } state' rfl hlive rfl
            hresult
        refine ⟨call :: done, skipped, outcome, by rw [hsplit, List.cons_append], ?_, ?_⟩
        · rw [hrest, shown, List.flatMap_cons, List.map_append, List.append_assoc]
          exact delivers_same hperform (delivers_events _ hlive rfl hdelivers)
        · rw [hrest]
          exact houtcome.cons hcancelled hresult

theorem results_answered (calls : List TurnToolCall) (executions : List ToolCallExecution)
    (h : executions.length = calls.length) :
    Answered calls (List.zipWith resultItem calls executions) := by
  induction calls generalizing executions with
  | nil => exact .nil
  | cons call calls ih =>
    cases executions with
    | nil => exact absurd h (by simp)
    | cons execution executions =>
      exact .cons ⟨_, rfl⟩ (ih executions (by simpa using h))

/-- The assistant item of one retained call: an invalid call keeps no input. -/
inductive Proposes : TurnToolCall → ConversationItem → Prop
  | execute (callId toolName : Text) (input : ToolCallInput) :
      Proposes (.execute callId toolName input)
        (.assistantToolCall callId toolName (.present input.value))
  | invalid (callId toolName message : Text) :
      Proposes (.invalid callId toolName message) (.assistantToolCall callId toolName .omitted)

/-- The transcript written out: the calls as the provider ordered them, then in that order the
results of the calls performed and one cancelled result for each call skipped. -/
def WrittenOut (done skipped : List TurnToolCall) (executions : List ToolCallExecution)
    (transcript : List ConversationItem) : Prop :=
  ∃ proposals, List.Forall₂ Proposes (done ++ skipped) proposals ∧
    transcript = proposals ++
      List.zipWith (fun call execution =>
        .toolResult call.callId call.toolName execution.result) done executions ++
      skipped.map fun call =>
        .toolResult call.callId call.toolName
          (.cancelled "The tool call was cancelled before it executed.")

theorem seed_proposes (calls : List TurnToolCall) :
    List.Forall₂ Proposes calls (seedTranscript calls) := by
  induction calls with
  | nil => exact .nil
  | cons call calls ih =>
    refine .cons ?_ ih
    cases call with
    | execute callId toolName input => exact .execute callId toolName input
    | invalid callId toolName message => exact .invalid callId toolName message

/-- Every round finishes. The calls it performs come first; all their events are delivered before
the outcome, and the transcript pairs every call with one result. -/
theorem tool_round_paired (executor : E) (state : S) (calls : List TurnToolCall)
    (schedule : ℕ → Bool) :
    ∃ done skipped outcome, calls = done ++ skipped ∧
      Delivers executeCall schedule (.new calls executor) state
        ((shown (perform executeCall executor done state)).map .event ++
          [.finished outcome]) ∧
      Outcome schedule done skipped (perform executeCall executor done state)
        (seedTranscript calls) outcome ∧
      Paired calls outcome.transcript ∧
      WrittenOut done skipped (perform executeCall executor done state) outcome.transcript := by
  obtain ⟨done, skipped, outcome, hsplit, hdelivers, houtcome⟩ :=
    round_from executeCall schedule calls (.new calls executor) state rfl rfl rfl rfl
  refine ⟨done, skipped, outcome, hsplit, hdelivers, houtcome, ?_, ?_⟩
  · refine ⟨_, ?_, houtcome.transcript.trans (List.append_assoc _ _ _)⟩
    rw [hsplit]
    exact answered_append _ _ _ _
      (results_answered done _ (perform_length executeCall executor done state))
      (skipped_answered skipped)
  · refine ⟨seedTranscript calls, ?_, houtcome.transcript⟩
    rw [← hsplit]
    exact seed_proposes calls

end Rounds

def counting (_ : Unit) (call : ExecutableToolCall) (_ : Bool) (count : ℕ) :
    ToolCallExecution × ℕ :=
  ({ events := [.toolStarted call.callId call.toolName [],
      .toolCompleted call.callId call.toolName ['d']]
     result := .success .null ['d'] }, count + 1)

def nullCall (callId : Text) : TurnToolCall := .execute callId ['t'] (.fromValue .null)

/-- The host cancels after the events of the first call. -/
def afterFirst (pull : ℕ) : Bool := pull ≥ 2

theorem tool_round_paired_cancelled :
    pulls counting afterFirst 4 (.new [nullCall ['a'], nullCall ['b']] ()) 0 =
      [.event (.toolStarted ['a'] ['t'] []), .event (.toolCompleted ['a'] ['t'] ['d']),
        .finished
          { kind := .cancelled
            transcript :=
              [.assistantToolCall ['a'] ['t'] (.present .null),
                .assistantToolCall ['b'] ['t'] (.present .null),
                .toolResult ['a'] ['t'] (.success .null ['d']),
                .toolResult ['b'] ['t']
                  (.cancelled "The tool call was cancelled before it executed.")] }] ∧
    ∃ done skipped outcome, [nullCall ['a'], nullCall ['b']] = done ++ skipped ∧
      Delivers counting afterFirst (.new [nullCall ['a'], nullCall ['b']] ()) 0
        ((shown (perform counting () done 0)).map .event ++ [.finished outcome]) ∧
      Outcome afterFirst done skipped (perform counting () done 0)
        (seedTranscript [nullCall ['a'], nullCall ['b']]) outcome ∧
      Paired [nullCall ['a'], nullCall ['b']] outcome.transcript ∧
      WrittenOut done skipped (perform counting () done 0) outcome.transcript :=
  ⟨rfl, tool_round_paired counting () 0 [nullCall ['a'], nullCall ['b']] afterFirst⟩

end Siralos.RoundPairing
