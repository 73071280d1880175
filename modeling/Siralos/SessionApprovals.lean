import Siralos.Session
import Mathlib.Logic.Equiv.Basic

/-!
# Approvals over whole runs

The trace of a session is built from mints, surfaces, plain executions, and executions
that directly follow the consumption of a record minted for the same action. Every run
only writes such traces, so no approval authorizes two executions.
-/

set_option autoImplicit false

namespace Siralos.SessionApprovals
open Json Provider Turn Approval ToolGate ToolRound Session

section Traces

variable {D : Type}

/-- The surface the host approved last; none before the first. -/
def currentSurface (effects : List (Effect D)) : Option (List Text) :=
  effects.foldl (fun current effect =>
    match effect with
    | .surfaced surface => surface
    | _ => current) none

/-- The tool may run on the permission of its capability alone. -/
structure PlainCall (registry : ToolRegistry) (policy : PermissionPolicy)
    (before : List (Effect D)) (toolName : Text) (tool : Tool) : Prop where
  registered : registry.get toolName = some tool
  surfaced : ∀ names, currentSurface before = some names → toolName ∈ names
  plain : tool.requiresApproval = false
  allowed : policy.rule tool.capability = some .allow

structure GatedCall (registry : ToolRegistry) (policy : PermissionPolicy)
    (before : List (Effect D)) (toolName : Text) (tool : Tool) : Prop where
  registered : registry.get toolName = some tool
  surfaced : ∀ names, currentSurface before = some names → toolName ∈ names
  requires : tool.requiresApproval = true
  permitted : policy.rule tool.capability = some .allow ∨ policy.rule tool.capability = some .ask

inductive Orderly (lib : Libraries D) (registry : ToolRegistry) (policy : PermissionPolicy) :
    List (Effect D) → Prop
  | nil : Orderly lib registry policy []
  | minted (effects : List (Effect D)) (serial : ℕ) (approval : ActionApproval D)
      (h : Orderly lib registry policy effects) :
      Orderly lib registry policy (effects ++ [.minted serial approval])
  | surfaced (effects : List (Effect D)) (surface : Option (List Text))
      (h : Orderly lib registry policy effects) :
      Orderly lib registry policy (effects ++ [.surfaced surface])
  | plain (effects : List (Effect D)) (toolName : Text) (input : Value) (revision : Option ℕ)
      (tool : Tool) (h : Orderly lib registry policy effects)
      (hcall : PlainCall registry policy effects toolName tool) :
      Orderly lib registry policy (effects ++ [.executed toolName input revision])
  | approved (effects : List (Effect D)) (serial : ℕ) (approval : ActionApproval D)
      (toolName : Text) (input : Value) (revision : Option ℕ) (tool : Tool)
      (h : Orderly lib registry policy effects) (hminted : .minted serial approval ∈ effects)
      (hcall : GatedCall registry policy effects toolName tool)
      (hauthorizes : Authorizes lib approval toolName input revision) :
      Orderly lib registry policy
        (effects ++ [.consumed serial approval] ++ [.executed toolName input revision])

theorem snoc_split {α : Type} (es before after : List α) (e x : α)
    (h : es ++ [e] = before ++ x :: after) :
    (before = es ∧ x = e ∧ after = []) ∨
      ∃ rest, after = rest ++ [e] ∧ es = before ++ x :: rest := by
  rcases List.eq_nil_or_concat after with rfl | ⟨rest, last, rfl⟩
  · obtain ⟨hes, he⟩ := List.append_inj' h rfl
    exact .inl ⟨hes.symm, (List.cons.inj he).1.symm, rfl⟩
  · rw [List.concat_eq_append] at h ⊢
    have h' : es ++ [e] = (before ++ x :: rest) ++ [last] := by simpa using h
    obtain ⟨hes, he⟩ := List.append_inj' h' rfl
    exact .inr ⟨rest, by rw [(List.cons.inj he).1], hes⟩

/-- A record consumed right before a call, minted earlier for this very action. -/
def Authorized (lib : Libraries D) (before : List (Effect D)) (toolName : Text) (input : Value)
    (revision : Option ℕ) : Prop :=
  ∃ earlier serial approval, before = earlier ++ [.consumed serial approval] ∧
    .minted serial approval ∈ earlier ∧ Authorizes lib approval toolName input revision

def Licensed (lib : Libraries D) (registry : ToolRegistry) (policy : PermissionPolicy)
    (before : List (Effect D)) (toolName : Text) (input : Value) (revision : Option ℕ) : Prop :=
  ∃ tool, PlainCall registry policy before toolName tool ∨
    (GatedCall registry policy before toolName tool ∧
      Authorized lib before toolName input revision)

theorem current_surface_consumed (effects : List (Effect D)) (serial : ℕ)
    (approval : ActionApproval D) :
    currentSurface (effects ++ [.consumed serial approval]) = currentSurface effects := by
  simp [currentSurface]

theorem orderly_licensed (lib : Libraries D) (registry : ToolRegistry)
    (policy : PermissionPolicy) (effects : List (Effect D))
    (h : Orderly lib registry policy effects) (before after : List (Effect D)) (toolName : Text)
    (input : Value) (revision : Option ℕ)
    (hsplit : effects = before ++ .executed toolName input revision :: after) :
    Licensed lib registry policy before toolName input revision := by
  induction h generalizing before after with
  | nil => simp at hsplit
  | minted effects serial approval h ih =>
    rcases snoc_split _ _ _ _ _ hsplit with ⟨-, hx, -⟩ | ⟨rest, -, hrest⟩
    · simp at hx
    · exact ih before rest hrest
  | surfaced effects surface h ih =>
    rcases snoc_split _ _ _ _ _ hsplit with ⟨-, hx, -⟩ | ⟨rest, -, hrest⟩
    · simp at hx
    · exact ih before rest hrest
  | plain effects name value revision' tool h hcall ih =>
    rcases snoc_split _ _ _ _ _ hsplit with ⟨rfl, hx, -⟩ | ⟨rest, -, hrest⟩
    · simp only [Effect.executed.injEq] at hx
      obtain ⟨rfl, rfl, rfl⟩ := hx
      exact ⟨tool, .inl hcall⟩
    · exact ih before rest hrest
  | approved effects serial approval name value revision' tool h hminted hcall hauthorizes ih =>
    rcases snoc_split _ _ _ _ _ hsplit with ⟨rfl, hx, -⟩ | ⟨rest, -, hrest⟩
    · simp only [Effect.executed.injEq] at hx
      obtain ⟨rfl, rfl, rfl⟩ := hx
      refine ⟨tool, .inr ⟨⟨hcall.registered, ?_, hcall.requires, hcall.permitted⟩, effects, serial,
        approval, rfl, hminted, hauthorizes⟩⟩
      rw [current_surface_consumed]
      exact hcall.surfaced
    · rcases snoc_split _ _ _ _ _ hrest with ⟨-, hx, -⟩ | ⟨rest', -, hrest'⟩
      · simp at hx
      · exact ih before rest' hrest'

/-- Every consumption is directly followed by the execution it was for. -/
theorem orderly_consumed (lib : Libraries D) (registry : ToolRegistry)
    (policy : PermissionPolicy) (effects : List (Effect D))
    (h : Orderly lib registry policy effects) (before after : List (Effect D)) (serial : ℕ)
    (approval : ActionApproval D) (hsplit : effects = before ++ .consumed serial approval :: after) :
    ∃ toolName input revision tool rest, after = .executed toolName input revision :: rest ∧
      GatedCall registry policy before toolName tool ∧
      Authorizes lib approval toolName input revision := by
  induction h generalizing before after with
  | nil => simp at hsplit
  | minted effects serial' approval' h ih =>
    rcases snoc_split _ _ _ _ _ hsplit with ⟨-, hx, -⟩ | ⟨rest, rfl, hrest⟩
    · simp at hx
    · obtain ⟨toolName, input, revision, tool, rest', rfl, hcall⟩ := ih before rest hrest
      exact ⟨toolName, input, revision, tool, _, rfl, hcall⟩
  | surfaced effects surface h ih =>
    rcases snoc_split _ _ _ _ _ hsplit with ⟨-, hx, -⟩ | ⟨rest, rfl, hrest⟩
    · simp at hx
    · obtain ⟨toolName, input, revision, tool, rest', rfl, hcall⟩ := ih before rest hrest
      exact ⟨toolName, input, revision, tool, _, rfl, hcall⟩
  | plain effects name value revision' tool' h hcall' ih =>
    rcases snoc_split _ _ _ _ _ hsplit with ⟨-, hx, -⟩ | ⟨rest, rfl, hrest⟩
    · simp at hx
    · obtain ⟨toolName, input, revision, tool, rest', rfl, hcall⟩ := ih before rest hrest
      exact ⟨toolName, input, revision, tool, _, rfl, hcall⟩
  | approved effects serial' approval' name value revision' tool' h hminted hcall' hauthorizes ih =>
    rcases snoc_split _ _ _ _ _ hsplit with ⟨-, hx, -⟩ | ⟨rest, rfl, hrest⟩
    · simp at hx
    · rcases snoc_split _ _ _ _ _ hrest with ⟨rfl, hx, rfl⟩ | ⟨rest', rfl, hrest'⟩
      · simp only [Effect.consumed.injEq] at hx
        obtain ⟨rfl, rfl⟩ := hx
        exact ⟨name, value, revision', tool', [], rfl, hcall', hauthorizes⟩
      · obtain ⟨toolName, input, revision, tool, rest'', rfl, hcall⟩ := ih before rest' hrest'
        exact ⟨toolName, input, revision, tool, _, rfl, hcall⟩

end Traces

section Steps

variable {D : Type}

/-- What holds of the ledger while `host` is the machine's executor. -/
structure Kept (lib : Libraries D) (host : HostToolExecutor) (approvals : ActionApprovals D) :
    Prop where
  accounted : Accounted approvals
  orderly : Orderly lib host.registry host.policy approvals.effects
  surface : currentSurface approvals.effects = host.surface

def PhaseHost (host : HostToolExecutor) : Phase → Prop
  | .runningRound runner _ => runner.executor = host
  | _ => True

structure MachineKept (lib : Libraries D) (registry : ToolRegistry) (policy : PermissionPolicy)
    (machine : ResponseMachine) (approvals : ActionApprovals D) : Prop where
  sameRegistry : machine.host.registry = registry
  samePolicy : machine.host.policy = policy
  ledger : Kept lib machine.host approvals
  phase : PhaseHost machine.host machine.phase

structure AppKept (lib : Libraries D) (registry : ToolRegistry) (policy : PermissionPolicy)
    (app : SiralosApplication D) : Prop where
  sameRegistry : app.registry = registry
  samePolicy : app.policy = policy
  accounted : Accounted app.approvals
  orderly : Orderly lib registry policy app.approvals.effects
  responding : ∀ machine, app.state = .responding machine →
    MachineKept lib registry policy machine app.approvals

theorem surfaced_accounted (approvals : ActionApprovals D) (surface : Option (List Text))
    (h : Accounted approvals) : Accounted (record approvals (.surfaced surface)) :=
  record_accounted approvals _ rfl rfl h

theorem surfaced_kept (lib : Libraries D) (host : HostToolExecutor)
    (approvals : ActionApprovals D) (surface : Option (List Text)) (h : Accounted approvals)
    (horderly : Orderly lib host.registry host.policy approvals.effects) :
    Kept lib { host with surface } (record approvals (.surfaced surface)) :=
  ⟨surfaced_accounted approvals surface h, .surfaced _ surface horderly, by
    simp [currentSurface, record]⟩

theorem handle_collected_turn_host (machine : ResponseMachine) (turn : CollectedTurn) :
    (handleCollectedTurn machine turn).host = machine.host ∧
      PhaseHost machine.host (handleCollectedTurn machine turn).phase := by
  unfold handleCollectedTurn
  split
  · exact ⟨rfl, trivial⟩
  · split
    · exact ⟨rfl, trivial⟩
    · exact ⟨rfl, rfl⟩

theorem handle_provider_outcome_host (machine : ResponseMachine) (outcome : TurnOutcome) :
    (handleProviderOutcome machine outcome).host = machine.host ∧
      PhaseHost machine.host (handleProviderOutcome machine outcome).phase := by
  cases outcome with
  | turn assistantText textDeltas toolCalls =>
    simp only [handleProviderOutcome]
    split
    · exact handle_collected_turn_host machine _
    · exact ⟨rfl, trivial⟩
  | cancelled => exact ⟨rfl, trivial⟩
  | failed failure => exact ⟨rfl, trivial⟩

theorem finish_round_host (machine : ResponseMachine) (assistantText : Text)
    (outcome : ToolRoundOutcome) :
    (finishRound machine assistantText outcome).host = machine.host ∧
      PhaseHost machine.host (finishRound machine assistantText outcome).phase := by
  unfold finishRound
  split <;> exact ⟨rfl, trivial⟩

theorem invoke_provider_host (machine : ResponseMachine) (request : ProviderRequest) :
    (invokeProvider machine request).2.host = machine.host ∧
      PhaseHost machine.host (invokeProvider machine request).2.phase := by
  unfold invokeProvider
  dsimp only
  split
  · exact ⟨rfl, trivial⟩
  · exact handle_provider_outcome_host _ _

theorem push_streamed_host (serde : SerdeJson) (machine : ResponseMachine)
    (collector : ProviderTurnCollector) (event : ProviderEvent) :
    (pushStreamed serde machine collector event).2.host = machine.host ∧
      PhaseHost machine.host (pushStreamed serde machine collector event).2.phase := by
  unfold pushStreamed
  dsimp only
  split
  · exact handle_provider_outcome_host _ _
  · exact handle_provider_outcome_host _ _
  · split
    · exact ⟨rfl, trivial⟩
    · split <;> exact ⟨rfl, trivial⟩

theorem when_idle_kept (lib : Libraries D) (registry : ToolRegistry) (policy : PermissionPolicy)
    (app idle : SiralosApplication D) (h : AppKept lib registry policy app)
    (hidle : AppKept lib registry policy idle) :
    AppKept lib registry policy (accepted app (whenIdle app idle)) := by
  unfold whenIdle
  split
  · exact h
  · exact hidle

theorem respond_to_kept (lib : Libraries D) (registry : ToolRegistry) (policy : PermissionPolicy)
    (app : SiralosApplication D) (history : List Conversation.ConversationItem) (text : Text)
    (h : AppKept lib registry policy app) :
    AppKept lib registry policy (respondTo app history text) := by
  obtain ⟨rfl, rfl, haccounted, horderly, -⟩ := h
  refine ⟨rfl, rfl, surfaced_accounted _ _ haccounted, .surfaced _ _ horderly, ?_⟩
  intro machine hm
  simp only [respondTo, AppState.responding.injEq] at hm
  subst hm
  exact ⟨rfl, rfl, surfaced_kept lib
    { registry := app.registry, policy := app.policy, surface := none,
      taskRevision := app.taskRevision, resolver := app.approvalResolver }
    app.approvals _ haccounted horderly, trivial⟩

theorem new_kept (lib : Libraries D) (registry : ToolRegistry) (policy : PermissionPolicy)
    (surface : Option (List Text)) (budget : RoundBudget) :
    AppKept lib registry policy (.new registry policy surface budget) :=
  ⟨rfl, rfl, empty_accounted, .nil, fun _ hm => by simp [SiralosApplication.new] at hm⟩

/-- An approval names one action: no other tool, input or revision has its digest. -/
def BindsOnly (lib : Libraries D) (approval : ActionApproval D) (toolName : Text) (input : Value)
    (revision : Option ℕ) : Prop :=
  approval.toolName = toolName ∧ approval.taskRevision = revision ∧
    ∀ (otherName : Text) (otherInput : Value) (otherRevision : Option ℕ),
      approval.actionDigest = actionDigest lib.sha256Hex otherName
        (canonicalInputJson lib.serde otherInput) otherRevision →
      otherName = toolName ∧
        canonicalInputJson lib.serde otherInput = canonicalInputJson lib.serde input ∧
        otherRevision = revision

/-- Use of approvals and permissions in a trace is linear. -/
structure Linear (lib : Libraries D) (registry : ToolRegistry) (policy : PermissionPolicy)
    (effects : List (Effect D)) : Prop where
  executed : ∀ before toolName input revision after,
    effects = before ++ .executed toolName input revision :: after →
    ∃ tool, PlainCall registry policy before toolName tool ∨
      (GatedCall registry policy before toolName tool ∧
        ∃ earlier serial approval, before = earlier ++ [.consumed serial approval] ∧
          .minted serial approval ∈ earlier ∧ BindsOnly lib approval toolName input revision)
  consumed : ∀ before serial approval after,
    effects = before ++ .consumed serial approval :: after →
    ∃ toolName input revision tool rest, after = .executed toolName input revision :: rest ∧
      GatedCall registry policy before toolName tool ∧
      BindsOnly lib approval toolName input revision
  mintedOnce : (mintedSerials effects).Nodup
  consumedOnce : (consumedSerials effects).Nodup

theorem authorizes_binds_only (lib : Libraries D) (approval : ActionApproval D) (toolName : Text)
    (input : Value) (revision : Option ℕ) (hsha : Function.Injective lib.sha256Hex)
    (hserde : ∀ value, '\n' ∉ lib.serde.toStr value)
    (h : Authorizes lib approval toolName input revision) :
    BindsOnly lib approval toolName input revision := by
  refine ⟨h.tool, h.revision, fun otherName otherInput otherRevision hdigest => ?_⟩
  rw [h.action] at hdigest
  obtain ⟨hname, hinput, hrevision⟩ :=
    action_preimage_inj (hserde input) (hserde otherInput) (hsha hdigest)
  exact ⟨hname.symm, hinput.symm, hrevision.symm⟩

/-- The host approves the record, or the resolver approves a call still queued in the
running round. -/
inductive Grants (lib : Libraries D) (app : SiralosApplication D) :
    Action D → ActionApproval D → Prop
  | host (approval : ActionApproval D) : Grants lib app (.approve approval) approval
  | resolver (environment : Environment) (machine : ResponseMachine)
      (runner : ToolRoundRunner HostToolExecutor) (assistantText callId toolName : Text)
      (input : ToolCallInput) (approval : ActionApproval D)
      (hstate : app.state = .responding machine)
      (hphase : machine.phase = .runningRound runner assistantText)
      (hcall : .execute callId toolName input ∈ runner.calls)
      (hresolved : Resolved lib environment.tools machine.host
        { callId, toolName, input := input.value, orderedJson := input.orderedJson } approval) :
      Grants lib app (.pollTurn environment) approval

variable [DecidableEq D]

/-- One step of the run put the record into the ledger, and that step granted it. -/
def MintedBy (lib : Libraries D) (app : SiralosApplication D) (actions : List (Action D))
    (serial : ℕ) (approval : ActionApproval D) : Prop :=
  ∃ earlier action later, actions = earlier ++ action :: later ∧
    .minted serial approval ∉ (run lib app earlier).approvals.effects ∧
    .minted serial approval ∈ (run lib app (earlier ++ [action])).approvals.effects ∧
    Grants lib (run lib app earlier) action approval

theorem approve_orderly (lib : Libraries D) (registry : ToolRegistry) (policy : PermissionPolicy)
    (approvals : ActionApprovals D) (approval : ActionApproval D)
    (h : Orderly lib registry policy approvals.effects) :
    Orderly lib registry policy (approve approvals approval).effects :=
  .minted _ _ approval h

theorem approve_kept (lib : Libraries D) (host : HostToolExecutor)
    (approvals : ActionApprovals D) (approval : ActionApproval D) (h : Kept lib host approvals) :
    Kept lib host (approve approvals approval) :=
  ⟨approve_accounted approvals approval h.accounted,
    approve_orderly lib _ _ approvals approval h.orderly, by
    rw [← h.surface]
    simp [currentSurface, approve]⟩

theorem execute_call_kept (lib : Libraries D) (world : ToolWorld) (host : HostToolExecutor)
    (call : ExecutableToolCall) (cancelled : Bool) (approvals : ActionApprovals D)
    (h : Kept lib host approvals) :
    Kept lib host (executeCall lib world host call cancelled approvals).2 := by
  have heffect := execute_call_effect lib world host call cancelled approvals
  generalize (executeCall lib world host call cancelled approvals).2 = result at heffect ⊢
  cases heffect with
  | refused => exact h
  | plain tool hget hsurface hplain hallow =>
    refine ⟨record_accounted approvals _ rfl rfl h.accounted,
      .plain _ _ _ _ tool h.orderly ⟨hget, ?_, hplain, hallow⟩, ?_⟩
    · rw [h.surface]
      exact hsurface
    · rw [← h.surface]
      simp [currentSurface, record]
  | approved tool before after approval hget hsurface hrequires hrule hbefore htake =>
    have hkept : Kept lib host before := by
      rcases hbefore with rfl | ⟨minted, rfl, -⟩
      · exact h
      · exact approve_kept lib host approvals minted h
    have haccounted := take_accounted before after _ _ _ _ htake hkept.accounted
    have hauthorizes := take_authorizes lib host call before after approval htake
    obtain ⟨serial, hm, -, -, -, rfl⟩ := take_some _ _ _ _ _ _ htake
    refine ⟨record_accounted _ _ rfl rfl haccounted,
      .approved _ serial approval _ _ _ tool hkept.orderly (hkept.accounted.minted _ hm)
        ⟨hget, ?_, hrequires, hrule⟩ hauthorizes, ?_⟩
    · rw [hkept.surface]
      exact hsurface
    · rw [← hkept.surface]
      simp [currentSurface, record]

theorem next_event_turn_kept (lib : Libraries D) (registry : ToolRegistry)
    (policy : PermissionPolicy) (projection : Bool) (environment : Environment)
    (machine : ResponseMachine) (approvals : ActionApprovals D)
    (h : MachineKept lib registry policy machine approvals) :
    MachineKept lib registry policy
      (nextEventTurn lib projection environment machine approvals).2.1
      (nextEventTurn lib projection environment machine approvals).2.2 := by
  obtain ⟨hregistry, hpolicy, hledger, hphase⟩ := h
  have hkeep : ∀ (next : ResponseMachine) (after : ActionApprovals D),
      Kept lib machine.host after →
      next.host = machine.host ∧ PhaseHost machine.host next.phase →
      MachineKept lib registry policy next after := by
    rintro next after hafter ⟨hhost, hnext⟩
    exact ⟨by rw [hhost, hregistry], by rw [hhost, hpolicy], by rwa [hhost], by rwa [hhost]⟩
  have hsame := fun next => hkeep next approvals hledger
  unfold nextEventTurn
  dsimp only
  cases hp : machine.phase with
  | start => exact hsame _ ⟨rfl, trivial⟩
  | collectTurn =>
    dsimp only
    split
    · exact hsame _ ⟨rfl, trivial⟩
    · split
      · refine ⟨hregistry, hpolicy, ?_, trivial⟩
        exact surfaced_kept lib machine.host approvals _ hledger.accounted hledger.orderly
      · exact hsame _ ⟨rfl, trivial⟩
  | invokeProvider request =>
    dsimp only
    split
    · exact hsame _ ⟨rfl, trivial⟩
    · cases request with
      | raw => exact hsame _ (invoke_provider_host machine _)
      | projected projected pending =>
        cases pending with
        | true => exact hsame _ ⟨rfl, trivial⟩
        | false =>
          dsimp only
          split
          · exact hsame _ ⟨rfl, trivial⟩
          · exact hsame _ (invoke_provider_host machine _)
  | emitText turn =>
    dsimp only
    split
    · exact hsame _ ⟨rfl, trivial⟩
    · exact hsame _ (handle_collected_turn_host machine turn)
  | streamTurn collector =>
    dsimp only
    split
    · exact hsame _ ⟨rfl, trivial⟩
    · split
      · exact hsame _ (handle_provider_outcome_host machine _)
      · exact hsame _ (push_streamed_host lib.serde machine collector _)
  | runningRound runner assistantText =>
    rw [hp] at hphase
    have hkept := next_from_keeps (Kept lib machine.host) (executeCall lib environment.tools)
      machine.cancelled runner.calls runner approvals machine.host hphase
      (fun _ _ _ state _ hstate => execute_call_kept lib environment.tools machine.host _
        machine.cancelled state hstate) hledger
    have hexecutor := (next_from_executor (executeCall lib environment.tools) machine.cancelled
      runner.calls runner approvals).trans hphase
    dsimp only
    rw [next]
    generalize nextFrom (executeCall lib environment.tools) machine.cancelled runner.calls runner
      approvals = result at hkept hexecutor ⊢
    obtain ⟨advance, runner', approvals'⟩ := result
    cases advance with
    | none => exact hkeep _ _ hkept ⟨rfl, trivial⟩
    | some advance =>
      cases advance with
      | event event => exact hkeep _ _ hkept ⟨rfl, hexecutor⟩
      | finished outcome => exact hkeep _ _ hkept (finish_round_host machine assistantText outcome)
  | terminal event => exact hsame _ ⟨rfl, trivial⟩
  | done => exact hsame _ ⟨rfl, by simp [hp, PhaseHost]⟩

theorem poll_turn_kept (lib : Libraries D) (registry : ToolRegistry) (policy : PermissionPolicy)
    (app : SiralosApplication D) (environment : Environment)
    (h : AppKept lib registry policy app) :
    AppKept lib registry policy (pollTurn lib app environment).2 := by
  unfold pollTurn
  cases hstate : app.state with
  | idle => exact h
  | responding machine =>
    have hkept := next_event_turn_kept lib registry policy app.projection environment machine
      app.approvals (h.responding machine hstate)
    dsimp only
    split
    · rename_i machine' approvals' hturn
      rw [hturn] at hkept
      obtain ⟨hregistry, hpolicy, hledger, -⟩ := hkept
      exact ⟨h.sameRegistry, h.samePolicy, hledger.accounted,
        hregistry ▸ hpolicy ▸ hledger.orderly, fun _ hm => by simp [restoreMachine] at hm⟩
    · rename_i turn machine' approvals' _ hturn
      rw [hturn] at hkept
      refine ⟨h.sameRegistry, h.samePolicy, hkept.ledger.accounted, ?_, fun other hm => ?_⟩
      · exact hkept.sameRegistry ▸ hkept.samePolicy ▸ hkept.ledger.orderly
      · simp only [AppState.responding.injEq] at hm
        exact hm ▸ hkept

theorem step_kept (lib : Libraries D) (registry : ToolRegistry) (policy : PermissionPolicy)
    (app : SiralosApplication D) (action : Action D) (h : AppKept lib registry policy app) :
    AppKept lib registry policy (step lib app action) := by
  have hfields : ∀ other : SiralosApplication D, other.registry = app.registry →
      other.policy = app.policy → other.approvals = app.approvals →
      (∀ machine, other.state = .responding machine →
        MachineKept lib registry policy machine app.approvals) →
      AppKept lib registry policy other := by
    intro other hr hp ha hm
    exact ⟨hr.trans h.sameRegistry, hp.trans h.samePolicy, ha ▸ h.accounted, ha ▸ h.orderly,
      fun machine hmachine => ha ▸ hm machine hmachine⟩
  cases action with
  | sendPrompt text =>
    simp only [step, sendPrompt]
    split
    · exact h
    · split
      · exact h
      · split
        · exact h
        · exact respond_to_kept lib registry policy app _ text h
  | pollTurn environment => exact poll_turn_kept lib registry policy app environment h
  | cancel =>
    simp only [step, cancel]
    split
    · exact h
    · rename_i machine hstate
      refine hfields _ rfl rfl rfl fun other hm => ?_
      simp only [AppState.responding.injEq] at hm
      subst hm
      obtain ⟨hregistry, hpolicy, hledger, hphase⟩ := h.responding machine hstate
      exact ⟨hregistry, hpolicy, hledger, hphase⟩
  | approve approval =>
    refine ⟨h.sameRegistry, h.samePolicy, approve_accounted _ approval h.accounted,
      approve_orderly lib _ _ _ approval h.orderly, fun machine hm => ?_⟩
    obtain ⟨hregistry, hpolicy, hledger, hphase⟩ := h.responding machine hm
    exact ⟨hregistry, hpolicy, approve_kept lib _ _ approval hledger, hphase⟩
  | setApprovalResolver =>
    exact when_idle_kept lib registry policy app _ h (hfields _ rfl rfl rfl h.responding)
  | setProjection taskRevision =>
    exact when_idle_kept lib registry policy app _ h (hfields _ rfl rfl rfl h.responding)
  | withProjection taskRevision => exact hfields _ rfl rfl rfl h.responding
  | enableProviderProgressTicks =>
    simp only [step, enableProviderProgressTicks]
    split
    · exact hfields _ rfl rfl rfl fun machine hm => h.responding machine hm
    · rename_i machine hstate
      refine hfields _ rfl rfl rfl fun other hm => ?_
      simp only [AppState.responding.injEq] at hm
      subst hm
      obtain ⟨hregistry, hpolicy, hledger, hphase⟩ := h.responding machine hstate
      exact ⟨hregistry, hpolicy, hledger, hphase⟩

theorem execute_call_mints (lib : Libraries D) (world : ToolWorld) (host : HostToolExecutor)
    (call : ExecutableToolCall) (cancelled : Bool) (approvals : ActionApprovals D) (serial : ℕ)
    (approval : ActionApproval D)
    (h : .minted serial approval ∈ (executeCall lib world host call cancelled approvals).2.effects) :
    .minted serial approval ∈ approvals.effects ∨ Resolved lib world host call approval := by
  have heffect := execute_call_effect lib world host call cancelled approvals
  generalize (executeCall lib world host call cancelled approvals).2 = result at heffect h
  cases heffect with
  | refused => exact .inl h
  | plain => exact .inl (by simpa [record] using h)
  | approved tool before after taken hget hsurface hrequires hrule hbefore htake =>
    obtain ⟨consumed, -, -, -, -, rfl⟩ := take_some _ _ _ _ _ _ htake
    have hm : .minted serial approval ∈ before.effects := by simpa [record] using h
    rcases hbefore with rfl | ⟨minted, rfl, hresolved⟩
    · exact .inl hm
    · simp only [approve, List.mem_append, List.mem_singleton, Effect.minted.injEq] at hm
      rcases hm with hm | ⟨-, rfl⟩
      · exact .inl hm
      · exact .inr hresolved

theorem no_round_mints (lib : Libraries D) (projection : Bool) (environment : Environment)
    (machine : ResponseMachine) (approvals : ActionApprovals D) (serial : ℕ)
    (approval : ActionApproval D)
    (hround : ∀ runner assistantText, machine.phase ≠ .runningRound runner assistantText)
    (h : .minted serial approval ∈
      (nextEventTurn lib projection environment machine approvals).2.2.effects) :
    .minted serial approval ∈ approvals.effects := by
  unfold nextEventTurn at h
  dsimp only at h
  cases hp : machine.phase with
  | start => simpa [hp] using h
  | collectTurn =>
    rw [hp] at h
    dsimp only at h
    split at h
    · exact h
    · split at h
      · simpa [record] using h
      · exact h
  | invokeProvider request =>
    rw [hp] at h
    dsimp only at h
    split at h
    · exact h
    · split at h
      · exact h
      · split at h <;> exact h
      · exact h
  | emitText turn =>
    rw [hp] at h
    dsimp only at h
    split at h <;> exact h
  | streamTurn collector =>
    rw [hp] at h
    dsimp only at h
    split at h
    · exact h
    · split at h <;> exact h
  | runningRound runner assistantText => exact absurd hp (hround runner assistantText)
  | terminal event => simpa [hp] using h
  | done => simpa [hp] using h

theorem next_event_turn_mints (lib : Libraries D) (registry : ToolRegistry)
    (policy : PermissionPolicy) (projection : Bool) (environment : Environment)
    (machine : ResponseMachine) (approvals : ActionApprovals D) (serial : ℕ)
    (approval : ActionApproval D) (hkept : MachineKept lib registry policy machine approvals)
    (h : .minted serial approval ∈
      (nextEventTurn lib projection environment machine approvals).2.2.effects) :
    .minted serial approval ∈ approvals.effects ∨
      ∃ runner assistantText callId toolName input,
        machine.phase = .runningRound runner assistantText ∧
        .execute callId toolName input ∈ runner.calls ∧
        Resolved lib environment.tools machine.host
          { callId, toolName, input := input.value, orderedJson := input.orderedJson } approval := by
  by_cases hround : ∃ runner assistantText, machine.phase = .runningRound runner assistantText
  · obtain ⟨runner, assistantText, hp⟩ := hround
    have hexecutor : runner.executor = machine.host := by
      have hphase := hkept.phase
      rwa [hp] at hphase
    -- every call of the queue either leaves the mints alone or was granted
    have hgranted := next_from_keeps
      (fun state => .minted serial approval ∈ state.effects →
        .minted serial approval ∈ approvals.effects ∨
          ∃ callId toolName input, .execute callId toolName input ∈ runner.calls ∧
            Resolved lib environment.tools machine.host
              { callId, toolName, input := input.value, orderedJson := input.orderedJson } approval)
      (executeCall lib environment.tools) machine.cancelled runner.calls runner approvals
      machine.host hexecutor
      (fun callId toolName input state hqueued hstate hminted => by
        rcases execute_call_mints lib _ _ _ _ state serial approval hminted with hold | hnew
        · exact hstate hold
        · exact .inr ⟨callId, toolName, input, hqueued, hnew⟩)
      .inl
    have hminted : .minted serial approval ∈ (nextFrom (executeCall lib environment.tools)
        machine.cancelled runner.calls runner approvals).2.2.effects := by
      unfold nextEventTurn at h
      dsimp only at h
      rw [hp] at h
      dsimp only at h
      rw [next] at h
      split at h <;> simp_all
    rcases hgranted hminted with hold | ⟨callId, toolName, input, hcall, hresolved⟩
    · exact .inl hold
    · exact .inr ⟨runner, assistantText, callId, toolName, input, hp, hcall, hresolved⟩
  · push Not at hround
    exact .inl (no_round_mints lib projection environment machine approvals serial approval hround h)

theorem poll_turn_mints (lib : Libraries D) (registry : ToolRegistry) (policy : PermissionPolicy)
    (app : SiralosApplication D) (environment : Environment) (serial : ℕ)
    (approval : ActionApproval D) (hkept : AppKept lib registry policy app)
    (h : .minted serial approval ∈ (pollTurn lib app environment).2.approvals.effects) :
    .minted serial approval ∈ app.approvals.effects ∨
      Grants lib app (.pollTurn environment) approval := by
  unfold pollTurn at h
  cases hstate : app.state with
  | idle => exact .inl (by simpa [hstate] using h)
  | responding machine =>
    have hminted : .minted serial approval ∈
        (nextEventTurn lib app.projection environment machine app.approvals).2.2.effects := by
      rw [hstate] at h
      dsimp only at h
      split at h <;> simp_all [restoreMachine]
    rcases next_event_turn_mints lib registry policy _ _ machine _ _ _
      (hkept.responding machine hstate) hminted with
      hold | ⟨runner, assistantText, callId, toolName, input, hphase, hcall, hresolved⟩
    · exact .inl hold
    · exact .inr (.resolver environment machine runner assistantText callId toolName input approval
        hstate hphase hcall hresolved)

theorem step_mints (lib : Libraries D) (registry : ToolRegistry) (policy : PermissionPolicy)
    (app : SiralosApplication D) (action : Action D) (serial : ℕ) (approval : ActionApproval D)
    (hkept : AppKept lib registry policy app)
    (h : .minted serial approval ∈ (step lib app action).approvals.effects) :
    .minted serial approval ∈ app.approvals.effects ∨ Grants lib app action approval := by
  cases action with
  | sendPrompt text =>
    simp only [step, sendPrompt] at h
    split at h
    · exact .inl h
    · split at h
      · exact .inl h
      · split at h
        · exact .inl h
        · exact .inl (by simpa [accepted, respondTo, record] using h)
  | pollTurn environment =>
    exact poll_turn_mints lib registry policy app environment serial approval hkept h
  | cancel =>
    simp only [step, cancel] at h
    split at h <;> exact .inl h
  | approve granted =>
    simp only [step, approve, List.mem_append, List.mem_singleton, Effect.minted.injEq] at h
    rcases h with h | ⟨-, rfl⟩
    · exact .inl h
    · exact .inr (.host approval)
  | setApprovalResolver =>
    simp only [step, setApprovalResolver, whenIdle] at h
    split at h <;> exact .inl h
  | setProjection taskRevision =>
    simp only [step, setProjection, whenIdle] at h
    split at h <;> exact .inl h
  | withProjection taskRevision => exact .inl h
  | enableProviderProgressTicks =>
    simp only [step, enableProviderProgressTicks] at h
    split at h <;> exact .inl h

/-- Every record of a run was minted by one of its steps. -/
theorem run_minted (lib : Libraries D) (registry : ToolRegistry) (policy : PermissionPolicy)
    (app : SiralosApplication D) (actions : List (Action D)) (serial : ℕ)
    (approval : ActionApproval D) (hkept : AppKept lib registry policy app)
    (hnone : app.approvals.effects = [])
    (h : .minted serial approval ∈ (run lib app actions).approvals.effects) :
    MintedBy lib app actions serial approval := by
  induction actions using List.reverseRecOn with
  | nil => simp [hnone] at h
  | append_singleton actions action ih =>
    by_cases hearlier : .minted serial approval ∈ (run lib app actions).approvals.effects
    · obtain ⟨earlier, minting, later, rfl, hrest⟩ := ih hearlier
      exact ⟨earlier, minting, later ++ [action], by simp, hrest⟩
    · have hlast := h
      rw [run_append] at hlast
      have hbefore := run_preserves lib (AppKept lib registry policy)
        (step_kept lib registry policy) app actions hkept
      rcases step_mints lib registry policy _ action serial approval hbefore hlast with
        hold | hgrant
      · exact absurd hold hearlier
      · exact ⟨actions, action, [], rfl, hearlier, h, hgrant⟩

/-- The preimage of the call `t null` outside a task, and its SHA-256. -/
def callPreimage : Text := ['t', '\n', 'n', 'o', 'n', 'e', '\n', 'n', 'u', 'l', 'l']

def callHash : Text :=
  ("50cd9b574f0982fafec7eff1bddd41573e5b5978fde02c0fa96d63b73d650583" : Text)

/-- Agrees with the real digest on that one preimage. -/
def nullLibraries : Libraries Text :=
  { serde := { fromStr := fun _ => some .null, toStr := fun _ => ['n', 'u', 'l', 'l'] }
    sha256Hex := Equiv.swap callPreimage callHash }

def writingTool : Tool :=
  { definition := { name := ['t'], description := [], inputSchema := .null }
    capability := ['w']
    requiresApproval := true }

def writing : SiralosApplication Text :=
  .new { entries := [writingTool], distinct := List.nodup_singleton _ }
    (.fromRules [{ capability := ['w'], rule := .ask }]) none .default

/-- The resolver approves whatever the provider calls. -/
def approving (event : Option ProviderEvent) : Environment where
  tools :=
    { approvalPreview := fun _ _ => some { title := ['t'], lines := [] }
      resolve := fun _ => .approve
      execute := fun _ _ _ => some (.success .null []) }
  streamNext := event
  project := fun messages =>
    { messages, tools := [], system := none,
      pressure := { state := .normal, estimatedTokens := 0, workingMaximum := 0 },
      approvedNames := [], blocked := none }

def approvedRun : List (Action Text) :=
  [Action.setApprovalResolver, .sendPrompt ['p']] ++
    ([none, none, none, some (.event (.toolCall ['c'] ['t'] (.fromValue .null))),
      some (.event .completed), none, none].map fun event => .pollTurn (approving event))

end Steps
end Siralos.SessionApprovals
