import Siralos.ToolGate

/-!
# The tool round

The transcript is seeded with every retained call; calls then run one after another and
each gets one result of its own id and name, also when the round is cancelled.
-/

set_option autoImplicit false

namespace Siralos.ToolRound
open Provider Conversation Turn ToolGate

def cancelledBeforeExecution : Text := "The tool call was cancelled before it executed."

inductive ToolRoundKind where
  | completed
  | cancelled
  deriving DecidableEq, Repr

structure ToolRoundOutcome where
  kind : ToolRoundKind
  transcript : List ConversationItem
  deriving Repr

inductive ToolRoundStep where
  | event (event : ToolLoopEvent)
  | finished (outcome : ToolRoundOutcome)
  deriving Repr

structure ToolRoundRunner (E : Type) where
  calls : List TurnToolCall
  transcript : List ConversationItem
  pendingEvents : List ToolLoopEvent := []
  finishCancelledAfterEvents : Bool := false
  finished : Bool := false
  executor : E

def seedCall : TurnToolCall → ConversationItem
  | .execute callId toolName input => .assistantToolCall callId toolName (.present input.value)
  | .invalid callId toolName _ => .assistantToolCall callId toolName .omitted

def seedTranscript (calls : List TurnToolCall) : List ConversationItem := calls.map seedCall

def isCancelled : ToolExecutionResult → Bool
  | .cancelled _ => true
  | _ => false

def skippedResult (call : TurnToolCall) : ConversationItem :=
  .toolResult call.callId call.toolName (.cancelled cancelledBeforeExecution)

section Round

variable {E S : Type}

def ToolRoundRunner.new (calls : List TurnToolCall) (executor : E) : ToolRoundRunner E :=
  { calls, transcript := seedTranscript calls, executor }

def finishCancelled (runner : ToolRoundRunner E) : ToolRoundOutcome × ToolRoundRunner E :=
  ({ kind := .cancelled, transcript := runner.transcript ++ runner.calls.map skippedResult },
    { runner with calls := [], transcript := [], finished := true })

/-- `calls` is the runner's own queue; `state` is what executors share. -/
def nextFrom (executeCall : E → ExecutableToolCall → Bool → S → ToolCallExecution × S)
    (cancelled : Bool) (calls : List TurnToolCall) (runner : ToolRoundRunner E) (state : S) :
    Option ToolRoundStep × ToolRoundRunner E × S :=
  if runner.finished then (none, { runner with calls }, state)
  else
    match runner.pendingEvents with
    | event :: pendingEvents => (some (.event event), { runner with calls, pendingEvents }, state)
    | [] =>
      if runner.finishCancelledAfterEvents then
        let finish := finishCancelled { runner with calls, finishCancelledAfterEvents := false }
        (some (.finished finish.1), finish.2, state)
      else
        match calls with
        | [] =>
          (some (.finished { kind := .completed, transcript := runner.transcript }),
            { runner with calls, transcript := [], finished := true }, state)
        | call :: calls =>
          if cancelled then
            let finish := finishCancelled { runner with calls := call :: calls }
            (some (.finished finish.1), finish.2, state)
          else
            match call with
            | .invalid callId toolName message =>
              nextFrom executeCall cancelled calls
                { runner with
                  pendingEvents := [.toolFailed callId toolName message]
                  transcript := runner.transcript ++
                    [.toolResult callId toolName (.failed message)] } state
            | .execute callId toolName input =>
              let executed := executeCall runner.executor
                { callId, toolName, input := input.value, orderedJson := input.orderedJson }
                cancelled state
              nextFrom executeCall cancelled calls
                { runner with
                  pendingEvents := executed.1.events
                  finishCancelledAfterEvents := isCancelled executed.1.result
                  transcript := runner.transcript ++
                    [.toolResult callId toolName executed.1.result] } executed.2

def next (executeCall : E → ExecutableToolCall → Bool → S → ToolCallExecution × S)
    (cancelled : Bool) (runner : ToolRoundRunner E) (state : S) :
    Option ToolRoundStep × ToolRoundRunner E × S :=
  nextFrom executeCall cancelled runner.calls runner state

/-- One result for each call, in order, under the call's own id and name. -/
def Answered : List TurnToolCall → List ConversationItem → Prop :=
  List.Forall₂ fun call item => ∃ result, item = .toolResult call.callId call.toolName result

/-- The transcript proposes all of `calls` and answers those of `done`. -/
def Transcribes (calls done : List TurnToolCall) (transcript : List ConversationItem) : Prop :=
  ∃ results, Answered done results ∧ transcript = seedTranscript calls ++ results

/-- The calls that have left the queue are the ones answered. -/
def Balanced (calls queue : List TurnToolCall) (transcript : List ConversationItem) : Prop :=
  ∃ done, calls = done ++ queue ∧ Transcribes calls done transcript

def Paired (calls : List TurnToolCall) (transcript : List ConversationItem) : Prop :=
  Transcribes calls calls transcript

theorem answered_append (cs ds : List TurnToolCall) (is js : List ConversationItem)
    (hc : Answered cs is) (hd : Answered ds js) : Answered (cs ++ ds) (is ++ js) :=
  List.rel_append hc hd

theorem skipped_answered (calls : List TurnToolCall) :
    Answered calls (calls.map skippedResult) := by
  induction calls with
  | nil => exact .nil
  | cons call calls ih => exact .cons ⟨_, rfl⟩ ih

theorem new_balanced (calls : List TurnToolCall) :
    Balanced calls calls (seedTranscript calls) :=
  ⟨[], rfl, [], .nil, by simp⟩

theorem balanced_done (calls : List TurnToolCall) (transcript : List ConversationItem)
    (h : Balanced calls [] transcript) : Paired calls transcript := by
  obtain ⟨done, rfl, hd⟩ := h
  simpa [Paired] using hd

theorem balanced_answer (calls queue : List TurnToolCall) (call : TurnToolCall)
    (transcript : List ConversationItem) (result : ToolExecutionResult)
    (h : Balanced calls (call :: queue) transcript) :
    Balanced calls queue (transcript ++ [.toolResult call.callId call.toolName result]) := by
  obtain ⟨done, hcalls, results, hanswered, rfl⟩ := h
  refine ⟨done ++ [call], by simpa using hcalls,
    results ++ [.toolResult call.callId call.toolName result], ?_, by simp⟩
  exact answered_append _ _ _ _ hanswered (.cons ⟨result, rfl⟩ .nil)

theorem finish_cancelled_paired (calls : List TurnToolCall) (runner : ToolRoundRunner E)
    (h : Balanced calls runner.calls runner.transcript) :
    Paired calls (finishCancelled runner).1.transcript := by
  obtain ⟨done, hcalls, results, hanswered, htranscript⟩ := h
  refine ⟨results ++ runner.calls.map skippedResult, ?_, ?_⟩
  · rw [hcalls]
    exact answered_append _ _ _ _ hanswered (skipped_answered _)
  · simp [finishCancelled, htranscript]

/-- What one step of a running round is: an event after which the round still runs in
balance, or the end with every call paired. -/
inductive RoundStep (calls : List TurnToolCall) (executor : E) :
    Option ToolRoundStep × ToolRoundRunner E × S → Prop
  | event (event : ToolLoopEvent) (runner : ToolRoundRunner E) (state : S)
      (hlive : runner.finished = false) (hexecutor : runner.executor = executor)
      (hbalanced : Balanced calls runner.calls runner.transcript) :
      RoundStep calls executor (some (.event event), runner, state)
  | finished (outcome : ToolRoundOutcome) (runner : ToolRoundRunner E) (state : S)
      (hpaired : Paired calls outcome.transcript) :
      RoundStep calls executor (some (.finished outcome), runner, state)

alias next_from_def := nextFrom.eq_def

theorem next_from_round (executeCall : E → ExecutableToolCall → Bool → S → ToolCallExecution × S)
    (cancelled : Bool) (calls queue : List TurnToolCall) (runner : ToolRoundRunner E) (state : S)
    (executor : E) (hexecutor : runner.executor = executor) (hlive : runner.finished = false)
    (h : Balanced calls queue runner.transcript) :
    RoundStep calls executor (nextFrom executeCall cancelled queue runner state) := by
  induction queue generalizing runner state with
  | nil =>
    unfold nextFrom
    rw [if_neg (by simp [hlive])]
    split
    · exact .event _ _ _ hlive hexecutor h
    · split
      · exact .finished _ _ _ (finish_cancelled_paired calls _ h)
      · exact .finished _ _ _ (balanced_done _ _ h)
  | cons call queue ih =>
    unfold nextFrom
    rw [if_neg (by simp [hlive])]
    split
    · exact .event _ _ _ hlive hexecutor h
    · split
      · exact .finished _ _ _ (finish_cancelled_paired calls _ h)
      · dsimp only
        split
        · exact .finished _ _ _ (finish_cancelled_paired calls _ h)
        · cases call with
          | invalid callId toolName message => exact ih _ _ hexecutor hlive (balanced_answer _ _ _ _ _ h)
          | execute callId toolName input => exact ih _ _ hexecutor hlive (balanced_answer _ _ _ _ _ h)

theorem next_from_executor
    (executeCall : E → ExecutableToolCall → Bool → S → ToolCallExecution × S) (cancelled : Bool)
    (queue : List TurnToolCall) (runner : ToolRoundRunner E) (state : S) :
    (nextFrom executeCall cancelled queue runner state).2.1.executor = runner.executor := by
  induction queue generalizing runner state with
  | nil =>
    unfold nextFrom
    split
    · rfl
    · split
      · rfl
      · split <;> rfl
  | cons call queue ih =>
    unfold nextFrom
    split
    · rfl
    · split
      · rfl
      · split
        · rfl
        · dsimp only
          split
          · rfl
          · cases call with
            | invalid callId toolName message => exact ih _ _
            | execute callId toolName input => exact ih _ _

theorem next_from_keeps (P : S → Prop)
    (executeCall : E → ExecutableToolCall → Bool → S → ToolCallExecution × S)
    (cancelled : Bool) (queue : List TurnToolCall) (runner : ToolRoundRunner E) (state : S)
    (executor : E) (hexecutor : runner.executor = executor)
    (hcall : ∀ callId toolName input state, .execute callId toolName input ∈ queue → P state →
      P (executeCall executor
        { callId, toolName, input := input.value, orderedJson := input.orderedJson } cancelled
        state).2)
    (h : P state) : P (nextFrom executeCall cancelled queue runner state).2.2 := by
  induction queue generalizing runner state with
  | nil =>
    unfold nextFrom
    split
    · exact h
    · split
      · exact h
      · split <;> exact h
  | cons call queue ih =>
    unfold nextFrom
    split
    · exact h
    · split
      · exact h
      · split
        · exact h
        · dsimp only
          split
          · exact h
          · cases call with
            | invalid callId toolName message =>
              exact ih _ _ hexecutor
                (fun callId toolName input state hm =>
                  hcall callId toolName input state (List.mem_cons_of_mem _ hm)) h
            | execute callId toolName input =>
              have hnext := hcall callId toolName input state List.mem_cons_self h
              rw [← hexecutor] at hnext
              exact ih _ _ hexecutor
                (fun callId toolName input state hm =>
                  hcall callId toolName input state (List.mem_cons_of_mem _ hm)) hnext

end Round
end Siralos.ToolRound
