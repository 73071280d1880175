import Siralos.Approval
import Siralos.Turn

/-!
# The per-call authorization gate

Every executable call passes registry, surface, permission and approval in that order
before its tool runs. Tools, their previews and the approval resolver are code outside
the loop; one `ToolWorld` says how they answer.
-/

set_option autoImplicit false

namespace Siralos.ToolGate
open Json Provider Conversation Turn Approval

abbrev CapabilityId := Text

inductive PermissionRule where
  | allow
  | ask
  | deny
  deriving DecidableEq, Repr

structure PolicyRule where
  capability : CapabilityId
  rule : PermissionRule
  deriving DecidableEq, Repr

structure PermissionPolicy where
  rules : List (CapabilityId × PermissionRule)
  deriving Repr

/-- A later rule for the same capability replaces the earlier one. -/
def PermissionPolicy.fromRules (rules : List PolicyRule) : PermissionPolicy :=
  { rules := (rules.map fun entry => (entry.capability, entry.rule)).reverse }

def PermissionPolicy.rule (policy : PermissionPolicy) (capability : CapabilityId) :
    Option PermissionRule :=
  policy.rules.lookup capability

inductive PermissionDecision where
  | allow
  | ask (reason : Text)
  | deny (reason : Text)
  deriving Repr

def evaluatePermission (capability : CapabilityId) (policy : PermissionPolicy) :
    PermissionDecision :=
  match policy.rule capability with
  | none =>
    .deny (("No permission rule is defined for " : Text) ++ capability ++
      ("; failing closed." : Text))
  | some .deny => .deny (("Policy denies " : Text) ++ capability ++ ("." : Text))
  | some .ask => .ask (("Policy requires approval for " : Text) ++ capability ++ ("." : Text))
  | some .allow => .allow

structure Tool where
  definition : ToolDefinition
  capability : CapabilityId
  requiresApproval : Bool

/-- Two tools of one name cannot be registered. -/
structure ToolRegistry where
  entries : List Tool
  distinct : (entries.map fun tool => tool.definition.name).Nodup

def ToolRegistry.get (registry : ToolRegistry) (name : Text) : Option Tool :=
  registry.entries.find? fun tool => tool.definition.name = name

inductive ToolRegistryError where
  | duplicateName (name : Text)
  deriving DecidableEq, Repr

def ToolRegistryError.message : ToolRegistryError → Text
  | .duplicateName name => ("Duplicate tool name: " : Text) ++ name

def firstDuplicate : List Text → List Text → Option Text
  | _, [] => none
  | seen, name :: names => if name ∈ seen then some name else firstDuplicate (name :: seen) names

theorem first_duplicate_none (seen names : List Text) (h : firstDuplicate seen names = none) :
    names.Nodup ∧ ∀ name ∈ names, name ∉ seen := by
  induction names generalizing seen with
  | nil => simp
  | cons name names ih =>
    simp only [firstDuplicate] at h
    split at h
    · simp at h
    · rename_i hname
      obtain ⟨hnodup, hunseen⟩ := ih _ h
      refine ⟨List.nodup_cons.mpr ⟨fun hm => (hunseen name hm) (by simp), hnodup⟩, ?_⟩
      intro other hm
      rcases List.mem_cons.mp hm with rfl | hm
      · exact hname
      · exact fun hs => hunseen other hm (List.mem_cons_of_mem _ hs)

def ToolRegistry.new (tools : List Tool) : Except ToolRegistryError ToolRegistry :=
  match h : firstDuplicate [] (tools.map fun tool => tool.definition.name) with
  | some name => .error (.duplicateName name)
  | none => .ok { entries := tools, distinct := (first_duplicate_none _ _ h).1 }

structure ApprovalPreview where
  title : Text
  lines : List Text
  deriving Repr

structure ApprovalRequest where
  toolName : Text
  taskRevision : Option ℕ
  preview : ApprovalPreview
  deriving Repr

inductive ApprovalVerdict where
  | approve
  | deny
  deriving DecidableEq, Repr

def encodeUtf16 (t : Text) : List ℕ :=
  t.flatMap fun c =>
    if c.toNat < 0x10000 then [c.toNat]
    else [0xD800 + (c.toNat - 0x10000) / 0x400, 0xDC00 + (c.toNat - 0x10000) % 0x400]

abbrev DisplayInput := List ℕ

def maxDisplayInputLength : ℕ := 200

def toDisplayInput (serializedJson : Text) : DisplayInput :=
  let units := encodeUtf16 serializedJson
  if units.length ≤ maxDisplayInputLength then units
  else units.take maxDisplayInputLength ++ encodeUtf16 ("..." : Text)

inductive ToolLoopEvent where
  | responseStarted
  | textDelta (text : Text)
  | providerPending
  | reasoningDelta (text : Text)
  | responseCompleted
  | responseCancelled
  | responseFailed (message : Text)
  | toolStarted (callId toolName : Text) (displayInput : DisplayInput)
  | toolCompleted (callId toolName summary : Text)
  | toolFailed (callId toolName message : Text)
  | toolCancelled (callId toolName : Text)
  | contextPressure (state : Text) (estimatedTokens : ℕ) (workingMaximum : ℤ)
  deriving Repr

structure ExecutableToolCall where
  callId : Text
  toolName : Text
  input : Value
  orderedJson : Option Text
  deriving Repr

structure Libraries (D : Type) where
  serde : SerdeJson
  sha256Hex : Text → D

def ExecutableToolCall.displayInput {D : Type} (lib : Libraries D) (call : ExecutableToolCall) :
    DisplayInput :=
  toDisplayInput (call.orderedJson.getD (lib.serde.toStr call.input))

structure ToolCallExecution where
  events : List ToolLoopEvent
  result : ToolExecutionResult
  deriving Repr

/-- Answers of the tools by name and of the resolver. A tool that panics gives no result. -/
structure ToolWorld where
  approvalPreview : Text → Value → Option ApprovalPreview
  resolve : ApprovalRequest → ApprovalVerdict
  execute : Text → Value → Bool → Option ToolExecutionResult

/-- `resolver` says whether an approval resolver is installed. -/
structure HostToolExecutor where
  registry : ToolRegistry
  policy : PermissionPolicy
  surface : Option (List Text)
  taskRevision : Option ℕ
  resolver : Bool

def providerToolDefinitions (host : HostToolExecutor) : List ToolDefinition :=
  (host.registry.entries.filter fun tool =>
    match evaluatePermission tool.capability host.policy with
    | .deny _ => false
    | _ => true).map Tool.definition

def oneTimeApproval (capability : CapabilityId) : Text :=
  ("Capability " : Text) ++ capability ++
    (" requires a one-time host approval for this exact action; " : Text)

def missingDenial (capability : CapabilityId) : Text :=
  oneTimeApproval capability ++
    ("no matching approval was recorded, so the call was denied without execution." : Text)

def hostDenial (capability : CapabilityId) : Text :=
  oneTimeApproval capability ++
    ("the host denied the request, so the call was denied without execution." : Text)

def unreviewableDenial (capability : CapabilityId) : Text :=
  ("Capability " : Text) ++ capability ++
    (" requires approval, but this tool does not support a reviewable preparation protocol; the call was denied without execution."
      : Text)

def unknownTool (name : Text) : Text := ("Unknown tool: " : Text) ++ name ++ ("." : Text)

def outsideSurface (name : Text) : Text :=
  ("Tool " : Text) ++ name ++
    (" is not in the projected tool schema for this session and was denied before execution."
      : Text)

def deniedByPolicy (capability : CapabilityId) (reason : Text) : Text :=
  ("Capability " : Text) ++ capability ++ (" is denied by policy: " : Text) ++ reason

def unknownError : Text := "The provider failed with an unknown error."

def resultMessage : ToolExecutionResult → Text
  | .success .. => []
  | .invalidInput message | .denied message | .conflict message | .failed message
  | .cancelled message | .timedOut message | .outputLimit message | .sandboxDenied message
  | .sandboxUnavailable message | .workspaceViolation message | .unavailable message => message

def outcomeEvent (callId toolName : Text) : ToolExecutionResult → ToolLoopEvent
  | .success _ summary => .toolCompleted callId toolName summary
  | .cancelled _ => .toolCancelled callId toolName
  | other => .toolFailed callId toolName (resultMessage other)

def executeGuarded (world : ToolWorld) (call : ExecutableToolCall) (cancelled : Bool) :
    ToolExecutionResult :=
  (world.execute call.toolName call.input cancelled).getD (.failed unknownError)

/-- A refused call leaves its started event and one failure. -/
def refuse (started : ToolLoopEvent) (call : ExecutableToolCall) (message : Text)
    (result : Text → ToolExecutionResult) : ToolCallExecution :=
  { events := [started, .toolFailed call.callId call.toolName message], result := result message }

section Gate

variable {D : Type}

def callDigest (lib : Libraries D) (host : HostToolExecutor) (call : ExecutableToolCall) : D :=
  actionDigest lib.sha256Hex call.toolName (canonicalInputJson lib.serde call.input)
    host.taskRevision

structure Authorizes (lib : Libraries D) (approval : ActionApproval D) (toolName : Text)
    (input : Value) (taskRevision : Option ℕ) : Prop where
  tool : approval.toolName = toolName
  action : approval.actionDigest =
    actionDigest lib.sha256Hex toolName (canonicalInputJson lib.serde input) taskRevision
  revision : approval.taskRevision = taskRevision

/-- The installed resolver was shown a preview of this call and approved it; the record is
for this call. -/
structure Resolved (lib : Libraries D) (world : ToolWorld) (host : HostToolExecutor)
    (call : ExecutableToolCall) (approval : ActionApproval D) : Prop where
  installed : host.resolver = true
  approved : ∃ preview, world.approvalPreview call.toolName call.input = some preview ∧
    world.resolve { toolName := call.toolName, taskRevision := host.taskRevision, preview } =
      .approve
  authorizes : Authorizes lib approval call.toolName call.input host.taskRevision

theorem approval_new_ok (toolName : Text) (digest : D) (revision : Option ℕ)
    (approval : ActionApproval D) (h : ActionApproval.new toolName digest revision = .ok approval) :
    approval.toolName = toolName ∧ approval.actionDigest = digest ∧
      approval.taskRevision = revision := by
  unfold ActionApproval.new at h
  split at h
  · simp at h
  · simp only [Except.ok.injEq] at h
    subst h
    exact ⟨rfl, rfl, rfl⟩

variable [DecidableEq D]

/-- The denial message, or `none` when execution may proceed. -/
def approvalGate (lib : Libraries D) (host : HostToolExecutor) (world : ToolWorld)
    (capability : CapabilityId) (call : ExecutableToolCall) (approvals : ActionApprovals D) :
    Option Text × ActionApprovals D :=
  let digest := callDigest lib host call
  match take approvals call.toolName digest host.taskRevision with
  | (some _, approvals) => (none, approvals)
  | (none, approvals) =>
    match world.approvalPreview call.toolName call.input with
    | none => (some (unreviewableDenial capability), approvals)
    | some preview =>
      if host.resolver = false then (some (missingDenial capability), approvals)
      else
        match world.resolve
          { toolName := call.toolName, taskRevision := host.taskRevision, preview } with
        | .deny => (some (hostDenial capability), approvals)
        | .approve =>
          match ActionApproval.new call.toolName digest host.taskRevision with
          | .error _ => (some (unreviewableDenial capability), approvals)
          | .ok approval =>
            match take (approve approvals approval) call.toolName digest host.taskRevision with
            | (none, approvals) => (some (missingDenial capability), approvals)
            | (some _, approvals) => (none, approvals)

/-- The tool runs exactly once; the ledger's trace shows it. -/
def invoke (host : HostToolExecutor) (world : ToolWorld) (call : ExecutableToolCall)
    (cancelled : Bool) (started : ToolLoopEvent) (approvals : ActionApprovals D) :
    ToolCallExecution × ActionApprovals D :=
  let result := executeGuarded world call cancelled
  ({ events := [started, outcomeEvent call.callId call.toolName result], result },
    record approvals (.executed call.toolName call.input host.taskRevision))

def executeCall (lib : Libraries D) (world : ToolWorld) (host : HostToolExecutor)
    (call : ExecutableToolCall) (cancelled : Bool) (approvals : ActionApprovals D) :
    ToolCallExecution × ActionApprovals D :=
  let started := .toolStarted call.callId call.toolName (call.displayInput lib)
  match host.registry.get call.toolName with
  | none => (refuse started call (unknownTool call.toolName) .failed, approvals)
  | some tool =>
    if host.surface.any fun surface => call.toolName ∉ surface then
      (refuse started call (outsideSurface call.toolName) .denied, approvals)
    else
      let gated :=
        match approvalGate lib host world tool.capability call approvals with
        | (some message, approvals) => (refuse started call message .denied, approvals)
        | (none, approvals) => invoke host world call cancelled started approvals
      match evaluatePermission tool.capability host.policy with
      | .deny reason =>
        (refuse started call (deniedByPolicy tool.capability reason) .denied, approvals)
      | .ask _ =>
        if tool.requiresApproval then gated
        else (refuse started call (unreviewableDenial tool.capability) .denied, approvals)
      | .allow =>
        if tool.requiresApproval then gated
        else invoke host world call cancelled started approvals

theorem take_approve (approvals : ActionApprovals D) (approval : ActionApproval D) :
    (take (approve approvals approval) approval.toolName approval.actionDigest
      approval.taskRevision).1 = some approval := by
  simp [take, find, approve]

/-- What one call can do to the ledger: nothing, a plain execution, or an execution under
a record consumed for it. The record was there before, or the resolver granted it. -/
inductive CallEffect (lib : Libraries D) (world : ToolWorld) (host : HostToolExecutor)
    (call : ExecutableToolCall) (approvals : ActionApprovals D) : ActionApprovals D → Prop
  | refused : CallEffect lib world host call approvals approvals
  | plain (tool : Tool) (hget : host.registry.get call.toolName = some tool)
      (hsurface : ∀ surface, host.surface = some surface → call.toolName ∈ surface)
      (hplain : tool.requiresApproval = false)
      (hallow : host.policy.rule tool.capability = some .allow) :
      CallEffect lib world host call approvals
        (record approvals (.executed call.toolName call.input host.taskRevision))
  | approved (tool : Tool) (before after : ActionApprovals D) (approval : ActionApproval D)
      (hget : host.registry.get call.toolName = some tool)
      (hsurface : ∀ surface, host.surface = some surface → call.toolName ∈ surface)
      (hrequires : tool.requiresApproval = true)
      (hrule : host.policy.rule tool.capability = some .allow ∨
        host.policy.rule tool.capability = some .ask)
      (hbefore : before = approvals ∨
        ∃ minted, before = approve approvals minted ∧ Resolved lib world host call minted)
      (htake : take before call.toolName (callDigest lib host call) host.taskRevision =
        (some approval, after)) :
      CallEffect lib world host call approvals
        (record after (.executed call.toolName call.input host.taskRevision))

theorem approval_gate_effect (lib : Libraries D) (host : HostToolExecutor) (world : ToolWorld)
    (capability : CapabilityId) (call : ExecutableToolCall) (approvals after : ActionApprovals D)
    (verdict : Option Text)
    (h : approvalGate lib host world capability call approvals = (verdict, after)) :
    (verdict ≠ none ∧ after = approvals) ∨
    (verdict = none ∧ ∃ before approval,
      (before = approvals ∨
        ∃ minted, before = approve approvals minted ∧ Resolved lib world host call minted) ∧
      take before call.toolName (callDigest lib host call) host.taskRevision =
        (some approval, after)) := by
  unfold approvalGate at h
  dsimp only at h
  split at h
  · rename_i approval taken htake
    simp only [Prod.mk.injEq] at h
    obtain ⟨rfl, rfl⟩ := h
    exact .inr ⟨rfl, approvals, approval, .inl rfl, htake⟩
  · rename_i untouched htake
    have hsame := take_none _ _ _ _ _ htake
    subst hsame
    split at h
    · simp only [Prod.mk.injEq] at h
      exact .inl ⟨by simp [← h.1], h.2.symm⟩
    · rename_i preview hpreview
      split at h
      · simp only [Prod.mk.injEq] at h
        exact .inl ⟨by simp [← h.1], h.2.symm⟩
      · rename_i hresolver
        split at h
        · simp only [Prod.mk.injEq] at h
          exact .inl ⟨by simp [← h.1], h.2.symm⟩
        · rename_i hverdict
          split at h
          · simp only [Prod.mk.injEq] at h
            exact .inl ⟨by simp [← h.1], h.2.symm⟩
          · rename_i minted hnew
            obtain ⟨hname, hdigest, hrevision⟩ := approval_new_ok _ _ _ _ hnew
            have hresolved : Resolved lib world host call minted :=
              ⟨by simpa using hresolver, ⟨preview, hpreview, hverdict⟩,
                ⟨hname, hdigest, hrevision⟩⟩
            have hfound := take_approve untouched minted
            rw [hname, hdigest, hrevision] at hfound
            split at h
            · rename_i left hmissing
              rw [hmissing] at hfound
              simp at hfound
            · rename_i approval taken hconsumed
              simp only [Prod.mk.injEq] at h
              obtain ⟨rfl, rfl⟩ := h
              exact .inr ⟨rfl, _, approval, .inr ⟨minted, rfl, hresolved⟩, hconsumed⟩

theorem surface_admits (surface : Option (List Text)) (name : Text)
    (h : ¬ (surface.any fun names => name ∉ names) = true) :
    ∀ names, surface = some names → name ∈ names := by
  rintro names rfl
  simpa using h

theorem execute_call_effect (lib : Libraries D) (world : ToolWorld) (host : HostToolExecutor)
    (call : ExecutableToolCall) (cancelled : Bool) (approvals : ActionApprovals D) :
    CallEffect lib world host call approvals
      (executeCall lib world host call cancelled approvals).2 := by
  unfold executeCall
  dsimp only
  split
  · exact .refused
  · rename_i tool hget
    split
    · exact .refused
    · rename_i hsurface
      have hsurface := surface_admits _ _ hsurface
      -- both permitting rules run the same gate for a tool that requires approval
      have hgated : ∀ (_ : tool.requiresApproval = true)
          (_ : host.policy.rule tool.capability = some .allow ∨
            host.policy.rule tool.capability = some .ask),
          CallEffect lib world host call approvals
            (match approvalGate lib host world tool.capability call approvals with
              | (some message, approvals) =>
                (refuse (.toolStarted call.callId call.toolName (call.displayInput lib)) call
                  message .denied, approvals)
              | (none, approvals) => invoke host world call cancelled
                (.toolStarted call.callId call.toolName (call.displayInput lib)) approvals).2 := by
        intro hrequires hrule
        split
        · rename_i message after hgate
          rcases approval_gate_effect _ _ _ _ _ _ _ _ hgate with ⟨-, rfl⟩ | ⟨hnone, -⟩
          · exact .refused
          · simp at hnone
        · rename_i after hgate
          rcases approval_gate_effect _ _ _ _ _ _ _ _ hgate with
            ⟨hsome, -⟩ | ⟨-, before, approval, hbefore, htake⟩
          · simp at hsome
          · exact .approved tool before after approval hget hsurface hrequires hrule hbefore htake
      unfold evaluatePermission
      cases hrule : host.policy.rule tool.capability with
      | none => exact .refused
      | some rule =>
        cases rule with
        | deny => exact .refused
        | ask =>
          dsimp only
          split
          · rename_i hrequires
            exact hgated hrequires (.inr hrule)
          · exact .refused
        | allow =>
          dsimp only
          split
          · rename_i hrequires
            exact hgated hrequires (.inl hrule)
          · rename_i hplain
            exact .plain tool hget hsurface (by simpa using hplain) hrule

theorem take_authorizes (lib : Libraries D) (host : HostToolExecutor) (call : ExecutableToolCall)
    (before after : ActionApprovals D) (approval : ActionApproval D)
    (h : take before call.toolName (callDigest lib host call) host.taskRevision =
      (some approval, after)) :
    Authorizes lib approval call.toolName call.input host.taskRevision := by
  obtain ⟨-, -, hname, hdigest, hrevision, -⟩ := take_some _ _ _ _ _ _ h
  exact ⟨hname, hdigest, hrevision⟩

end Gate
end Siralos.ToolGate
