import Siralos.PlanBinding

/-!
# The planning flow

Depth selection, the planner run and the gate before mutations. The flow remembers the
latest routing decision only; what the gate knows of the plan is the summary in the task
state, whose depth is a label that routing overwrites.
-/

set_option autoImplicit false

namespace Siralos.PlanningFlow
open Contract TaskModel TaskRuntime TaskPlanning TaskQuiet PlanBinding

section Policy

inductive PlanningDecisionReason where
  | explicitPlanRequest
  | inspectionOrNoMutation
  | protectedConfig
  | multiSubsystem
  | researchRequired
  | capabilityUncertainty
  | sceneResourceRelationships
  | mixedSurfaceRelationships
  | narrowRepairKnownSurface
  | unknownSurfaceBounded
  | broadSurfaceOrManyCriteria
  | boundedNonTrivial
  deriving DecidableEq, Repr

def PlanningDecisionReason.asStr : PlanningDecisionReason → Text
  | .explicitPlanRequest => "explicit-plan-request"
  | .inspectionOrNoMutation => "inspection-or-no-mutation"
  | .protectedConfig => "protected-config"
  | .multiSubsystem => "multi-subsystem"
  | .researchRequired => "research-required"
  | .capabilityUncertainty => "capability-uncertainty"
  | .sceneResourceRelationships => "scene-resource-relationships"
  | .mixedSurfaceRelationships => "mixed-surface-relationships"
  | .narrowRepairKnownSurface => "narrow-repair-known-surface"
  | .unknownSurfaceBounded => "unknown-surface-bounded"
  | .broadSurfaceOrManyCriteria => "broad-surface-or-many-criteria"
  | .boundedNonTrivial => "bounded-non-trivial"

structure PlanningDecision where
  depth : PlanningDepth
  reason : PlanningDecisionReason
  deriving DecidableEq, Repr

inductive SurfaceKind where
  | scriptOnly
  | nativeOnly
  | mixed
  | none
  deriving DecidableEq, Repr

inductive RequestedDepth where
  | light
  | full
  deriving DecidableEq, Repr

/-- The request text is not among the fields: the decision never reads it. -/
structure PlanningDecisionInput where
  explicitPlanRequest : Bool
  requestedDepth : Option RequestedDepth
  inspectionOnly : Bool
  expectedMutation : Bool
  acceptanceCriterionCount : ℕ
  protectedConfigInvolved : Bool
  spansMultipleSubsystems : Bool
  researchRequired : Bool
  capabilityUncertainty : Bool
  narrowRepair : Bool
  knownTouchpoints : ℕ
  involvesGodotSceneOrResource : Option Bool
  surface : Option SurfaceKind
  deriving DecidableEq, Repr

def decideDepth (input : PlanningDecisionInput) : PlanningDecision :=
  if input.explicitPlanRequest then
    match input.requestedDepth with
    | some .light => ⟨.light, .explicitPlanRequest⟩
    | some .full | none => ⟨.full, .explicitPlanRequest⟩
  else if input.inspectionOnly || !input.expectedMutation then ⟨.none, .inspectionOrNoMutation⟩
  else if input.protectedConfigInvolved then ⟨.full, .protectedConfig⟩
  else if input.spansMultipleSubsystems then ⟨.full, .multiSubsystem⟩
  else if input.researchRequired then ⟨.full, .researchRequired⟩
  else if input.capabilityUncertainty then ⟨.full, .capabilityUncertainty⟩
  else if input.involvesGodotSceneOrResource = some true ∧
      (input.knownTouchpoints > 2 ∨ input.acceptanceCriterionCount ≥ 3) then
    ⟨.full, .sceneResourceRelationships⟩
  else if input.surface = some .mixed then ⟨.full, .mixedSurfaceRelationships⟩
  else if input.narrowRepair ∧ input.knownTouchpoints > 0 ∧ input.knownTouchpoints ≤ 2 then
    ⟨.none, .narrowRepairKnownSurface⟩
  else if input.knownTouchpoints = 0 then ⟨.light, .unknownSurfaceBounded⟩
  else if input.acceptanceCriterionCount ≥ 4 ∨ input.knownTouchpoints > 4 then
    ⟨.full, .broadSurfaceOrManyCriteria⟩
  else ⟨.light, .boundedNonTrivial⟩

end Policy

section Revisions

variable {C : Type}

def isHexDigit (c : Char) : Bool := c.isDigit || decide ('a' ≤ c ∧ c ≤ 'f')

def isSha256Hex (value : Text) : Bool :=
  decide (Text.utf8Len value = 64) && value.all isHexDigit

def contractDigestMessage : Text :=
  "A plan requires the exact 64-hex TaskContract content digest it binds to."

structure CreateTaskPlanInput (C : Type) where
  id : Text
  taskId : Text
  taskContractRevision : ℕ
  taskContractDigest : Text
  depth : PlanningDepth
  content : C
  createdAt : ℤ

def createTaskPlan (planning : PlanLibrary C) (input : CreateTaskPlanInput C) :
    Except Text (TaskPlan C) :=
  if isValidPlanId input.id = false then .error (invalidPlanIdMessage input.id)
  else if input.taskContractRevision < 1 then
    .error "A plan requires a positive safe-integer task contract revision."
  else if isSha256Hex input.taskContractDigest = false then .error contractDigestMessage
  else if input.depth = .none then .error "A plan requires depth light or full."
  else if input.createdAt < 0 then
    .error "A plan requires a non-negative safe-integer createdAt timestamp."
  else
    match planning.storedPlanDigest input.content with
    | .error message => .error message
    | .ok digest =>
      .ok { id := input.id
            revision := 1
            digest := digest
            taskId := input.taskId
            taskContractRevision := input.taskContractRevision
            taskContractDigest := input.taskContractDigest
            depth := input.depth
            content := input.content
            createdAt := input.createdAt }

structure ReviseTaskPlanInput (C : Type) where
  content : C
  taskContractDigest : Option Text

def maxPlanRevisionNumber : ℕ := 2 ^ 64 - 2

/-- The contract revision and the depth are the previous plan's. -/
def reviseTaskPlan (planning : PlanLibrary C) (previous : TaskPlan C)
    (changes : ReviseTaskPlanInput C) : Except Text (TaskPlan C) :=
  if isValidPlanId previous.id = false then .error (invalidPlanIdMessage previous.id)
  else if previous.revision < 1 ∨ previous.revision ≥ maxPlanRevisionNumber then
    .error "A previous plan revision must be a positive incrementable safe integer."
  else if previous.taskContractRevision < 1 then
    .error "A previous plan requires a positive safe-integer task contract revision."
  else if previous.createdAt < 0 then
    .error "A previous plan requires a non-negative safe-integer createdAt timestamp."
  else if previous.depth = .none then .error "A previous plan requires depth light or full."
  else
    let taskContractDigest := changes.taskContractDigest.getD previous.taskContractDigest
    if isSha256Hex taskContractDigest = false then .error contractDigestMessage
    else
      match planning.storedPlanDigest changes.content with
      | .error message => .error message
      | .ok digest =>
        .ok { previous with
              revision := previous.revision + 1
              digest := digest
              taskContractDigest := taskContractDigest
              content := changes.content }

end Revisions

section Flow

variable {V C : Type}

/-- `ready` carries the candidate in raw planner form. -/
inductive PlannerOutcome (V : Type) where
  | ready (candidate : V)
  | failed (message : Text)
  | cancelled
  | timedOut (message : Text)

/-- A planner answers the contract and the routed depth. -/
abbrev PlannerPort (V : Type) := TaskContract → PlanningDepth → PlannerOutcome V

inductive PlanFlowResult (C : Type) where
  | routed (decision : PlanningDecision)
  | planned (decision : PlanningDecision) (plan : TaskPlan C)
  | failed (decision : Option PlanningDecision) (message : Text)
  | cancelled (decision : Option PlanningDecision)
  | timedOut (decision : Option PlanningDecision) (message : Text)

structure FlowEnvironment (V C : Type) extends Environment C where
  validateCandidate : V → TaskContract → PlanningDepth → Except (List Text) C

structure PlanningFlowState where
  routed : Option PlanningDecision
  deriving DecidableEq, Repr

def PlanningFlowState.new : PlanningFlowState := ⟨none⟩

structure Planned (C : Type) where
  record : TaskRecord C
  flow : PlanningFlowState

def route (input : PlanningDecisionInput) (planned : Planned C) : Planned C where
  record := routePlanning planned.record (decideDepth input).depth
    (decideDepth input).reason.asStr
  flow := ⟨some (decideDepth input)⟩

def notRoutedMessage : Text :=
  "Planning was not routed before run; the host must route planning first."

def terminalPlanningMessage (phase : TaskPhase) : Text :=
  ("Planning cannot run for a terminal task (" : Text) ++ phase.asStr ++ (")." : Text)

def invalidCandidateMessage (reasons : List Text) : Text :=
  ("The planner returned an invalid plan: " : Text) ++ joinReasons reasons

def flowPlanId (record : TaskRecord C) : Text := planPrefix ++ record.id

/-- The plan made of a valid candidate: a revision of the previous plan where there is one. -/
def nextPlan (planning : PlanLibrary C) (record : TaskRecord C) (depth : PlanningDepth)
    (content : C) (now : ℤ) : Except Text (TaskPlan C) :=
  let fresh := createTaskPlan planning
    { id := flowPlanId record
      taskId := record.id
      taskContractRevision := record.contract.revision
      taskContractDigest := record.contract.digest
      depth := depth
      content := content
      createdAt := now }
  match record.plans.getLast? with
  | none => fresh
  | some previous =>
    if previous.id = flowPlanId record then
      reviseTaskPlan planning previous
        { content := content, taskContractDigest := some record.contract.digest }
    else fresh

def refuse (record : TaskRecord C) (routed : PlanningDecision) (message : Text) :
    PlanFlowResult C × TaskRecord C :=
  (.failed (some routed) message, rejectPlan record message)

def storeCandidate (env : FlowEnvironment V C) (clock : Clock) (record : TaskRecord C)
    (routed : PlanningDecision) (candidate : V) (now : ℤ) :
    PlanFlowResult C × TaskRecord C :=
  match env.validateCandidate candidate record.contract routed.depth with
  | .error reasons => refuse record routed (invalidCandidateMessage reasons)
  | .ok content =>
    match nextPlan env.planning record routed.depth content now with
    | .error message => refuse record routed message
    | .ok plan =>
      match setPlan env.planning clock record plan with
      | (record, .error reason) => refuse record routed reason
      | (record, .ok ()) => (.planned routed plan, record)

def runPlanner (env : FlowEnvironment V C) (clock : Clock) (planner : PlannerPort V) (now : ℤ)
    (planned : Planned C) : PlanFlowResult C × TaskRecord C :=
  match planned.flow.routed with
  | none =>
    (.failed (some ⟨.none, .inspectionOrNoMutation⟩) notRoutedMessage, planned.record)
  | some routed =>
    if routed.depth = .none then (.routed routed, planned.record)
    else if planned.record.terminal then
      (.failed (some routed) (terminalPlanningMessage planned.record.state.phase),
        planned.record)
    else
      match planner planned.record.contract routed.depth with
      | .cancelled => (.cancelled (some routed), planned.record)
      | .timedOut message => (.timedOut (some routed) message, planned.record)
      | .failed message => refuse planned.record routed message
      | .ready candidate => storeCandidate env clock planned.record routed candidate now

def planInvalidated : Text := "plan invalidated"

def staleGateMessage (reason : Option Text) : Text :=
  ("The current plan is stale (" : Text) ++ reason.getD planInvalidated ++
    ("); revalidate or replan before mutation." : Text)

def criteriaGateMessage : Text :=
  "Full-plan execution requires explicit acceptance criteria in the TaskContract (at least two criteria, one host-verifiable); the contract does not meet that bar, so mutation execution is blocked."

def planGateMessage : Text :=
  "Full-plan execution requires a current full plan; no matching current plan exists, so mutation execution is blocked."

def approvalGateMessage : Text :=
  "Full-plan execution requires approval of the exact current plan revision; approval is absent or invalidated, so mutation execution is blocked."

def PlanningFlowState.full (flow : PlanningFlowState) : Bool :=
  match flow.routed with
  | none => false
  | some decision => decision.depth == .full

def mutationExecutionBlocked (planned : Planned C) (contractHasMeaningfulCriteria : Bool) :
    Option Text :=
  let state := planned.record.state.plan
  if state.state = .stale then some (staleGateMessage state.staleReason)
  else if planned.flow.full && !contractHasMeaningfulCriteria then some criteriaGateMessage
  else if planned.flow.full then
    if state.state ≠ .current ∨ state.planId.isNone ∨ state.depth ≠ .full then
      some planGateMessage
    else if state.approval ≠ .approved then some approvalGateMessage
    else none
  else none

/-- What a host does with a task and its flow. `routeElsewhere` is a route of the same flow
over another task's handle. -/
inductive FlowCall (V C : Type) where
  | route (input : PlanningDecisionInput)
  | routeElsewhere (input : PlanningDecisionInput)
  | run (planner : PlannerPort V) (now : ℤ)
  | direct (op : TaskOp C)

def flowStep (env : FlowEnvironment V C) (clock : Clock) (planned : Planned C) :
    FlowCall V C → Planned C
  | .route input => route input planned
  | .routeElsewhere input => { planned with flow := ⟨some (decideDepth input)⟩ }
  | .run planner now => { planned with record := (runPlanner env clock planner now planned).2 }
  | .direct op => { planned with record := perform env.toEnvironment clock planned.record op }

end Flow

section Gate

variable {V C : Type}

/-- The last stored plan is a full plan, approved as it is, for the current contract. -/
def FullPlanApproved (record : TaskRecord C) : Prop :=
  ∃ plan approval, record.plans.getLast? = some plan ∧ plan.depth = .full ∧
    record.planApproval = some approval ∧ approval.planId = plan.id ∧
    approval.planRevision = plan.revision ∧ approval.planDigest = plan.digest ∧
    plan.taskContractRevision = record.contract.revision ∧
    plan.taskContractDigest = record.contract.digest

/-- Under a full routing the gate opens for an approved full plan only. -/
def GateSound (planned : Planned C) : Prop :=
  planned.flow.full = true → ∀ contractHasMeaningfulCriteria,
    mutationExecutionBlocked planned contractHasMeaningfulCriteria = none →
      FullPlanApproved planned.record

def RunGated (env : FlowEnvironment V C) : Planned C → List (Clock × FlowCall V C) → Prop
  | planned, [] => GateSound planned
  | planned, (clock, call) :: calls =>
    GateSound planned ∧ RunGated env (flowStep env clock planned call) calls

/-- The last plan is approved and is not a full one. -/
def ApprovedOther (view : PlanView C) : Prop :=
  view.plan.approval = .approved ∧
    ∃ plan, view.plans.getLast? = some plan ∧ plan.depth ≠ .full

/-- No full label is put on an approved plan of another depth, and no plan of another depth
is approved under a full label. -/
def KeepsLabel (env : FlowEnvironment V C) (planned : Planned C) : FlowCall V C → Prop
  | .route input =>
    (decideDepth input).depth = .full → ApprovedOther (planView planned.record) →
      planned.record.terminal = true ∧ planned.record.state.plan.depth ≠ .full
  | .routeElsewhere input =>
    (decideDepth input).depth = .full → ApprovedOther (planView planned.record) →
      planned.record.state.plan.depth ≠ .full
  | .run _ _ => True
  | .direct (.routePlanning depth _) =>
    depth = .full → planned.flow.full = true → ApprovedOther (planView planned.record) →
      planned.record.terminal = true
  | .direct (.approvePlan planId planRevision) =>
    planned.flow.full = true → planned.record.state.plan.depth = .full →
      ∀ plan, checkApproval env.planning planned.record planId planRevision = .ok plan →
        plan.depth = .full
  | .direct _ => True

def RunKeepsLabel (env : FlowEnvironment V C) : Planned C → List (Clock × FlowCall V C) → Prop
  | _, [] => True
  | planned, (clock, call) :: calls =>
    KeepsLabel env planned call ∧ RunKeepsLabel env (flowStep env clock planned call) calls

/-- The gate is open for a plan that is not a full one. -/
structure Mislabelled (planned : Planned C) : Prop where
  routed : planned.flow.full = true
  labelled : planned.record.state.plan.depth = .full
  other : ApprovedOther (planView planned.record)

theorem approved_named (planning : PlanLibrary C) (record : TaskRecord C)
    (hbound : Bound planning (planView record))
    (happroved : record.state.plan.approval = .approved) :
    ∃ approval plan, record.planApproval = some approval ∧
      Names planning (planView record) approval plan := by
  obtain ⟨approval, happroval⟩ := Option.isSome_iff_exists.mp (hbound.approved.mp happroved)
  obtain ⟨plan, hnames⟩ := hbound.names approval happroval
  exact ⟨approval, plan, happroval, hnames⟩

theorem blocked_none_iff (planned : Planned C) (hfull : planned.flow.full = true) :
    mutationExecutionBlocked planned true = none ↔
      planned.record.state.plan.state = .current ∧
        planned.record.state.plan.planId.isSome = true ∧
        planned.record.state.plan.depth = .full ∧
        planned.record.state.plan.approval = .approved := by
  unfold mutationExecutionBlocked
  simp only [hfull, Bool.not_true, Bool.and_false, Bool.false_eq_true, if_false, if_true]
  constructor
  · intro h
    split at h
    · cases h
    · split at h
      · cases h
      · rename_i hplan
        rw [not_or, not_or, not_not, not_not] at hplan
        split at h
        · cases h
        · rename_i happroved
          exact ⟨hplan.1, Option.ne_none_iff_isSome.mp (by simpa using hplan.2.1), hplan.2.2,
            not_not.mp happroved⟩
  · rintro ⟨hcurrent, hid, hdepth, happroved⟩
    obtain ⟨planId, hid⟩ := Option.isSome_iff_exists.mp hid
    simp [hcurrent, hdepth, happroved, hid]

theorem blocked_without_criteria (planned : Planned C) (hfull : planned.flow.full = true)
    (criteria : Bool) (h : mutationExecutionBlocked planned criteria = none) :
    mutationExecutionBlocked planned true = none := by
  cases criteria with
  | true => exact h
  | false =>
    unfold mutationExecutionBlocked at h
    simp only [hfull, Bool.not_false, Bool.and_true, if_true] at h
    split at h <;> cases h

theorem gate_sound_state (planning : PlanLibrary C) (planned : Planned C)
    (hbound : Bound planning (planView planned.record)) :
    GateSound planned ↔ ¬Mislabelled planned := by
  constructor
  · intro hsound hmislabelled
    obtain ⟨happroved, plan, hlast, hother⟩ := hmislabelled.other
    obtain ⟨approval, named, -, hnames⟩ := approved_named planning _ hbound happroved
    have hplans : (planView planned.record).plans ≠ [] := by
      intro hnil
      rw [hnil] at hlast
      cases hlast
    have hopen := (blocked_none_iff planned hmislabelled.routed).mpr
      ⟨hnames.current, hbound.identified hplans, hmislabelled.labelled, happroved⟩
    obtain ⟨current, -, hcurrent, hfull, -⟩ := hsound hmislabelled.routed true hopen
    have hsame : plan = current := Option.some.inj (hlast.symm.trans hcurrent)
    exact hother (hsame ▸ hfull)
  · intro hlabel hfull criteria hopen
    obtain ⟨-, -, hdepth, happroved⟩ := (blocked_none_iff planned hfull).mp
      (blocked_without_criteria planned hfull criteria hopen)
    obtain ⟨approval, plan, happroval, hnames⟩ := approved_named planning _ hbound happroved
    have hplan : plan.depth = .full := by
      by_contra hother
      exact hlabel ⟨hfull, hdepth, happroved, plan, hnames.last, hother⟩
    exact ⟨plan, approval, hnames.last, hplan, happroval, hnames.id, hnames.revision,
      hnames.digest, hnames.contractRevision, hnames.contractDigest⟩

theorem reject_plan_view (record : TaskRecord C) (reason : Text) :
    planView (rejectPlan record reason) = planView record := by
  rw [rejectPlan]
  split <;> rfl

theorem store_candidate_renewal (env : FlowEnvironment V C) (clock : Clock)
    (record : TaskRecord C) (routed : PlanningDecision) (candidate : V) (now : ℤ) :
    Renewal (planView record)
      (planView (storeCandidate env clock record routed candidate now).2) := by
  rw [storeCandidate]
  split
  · rw [refuse, reject_plan_view]
    exact .stays
  · split
    · rw [refuse, reject_plan_view]
      exact .stays
    · rename_i plan _
      have hstored := set_plan_renewal env.planning clock record plan
      split
      · rename_i after _ heq
        rw [refuse, reject_plan_view]
        rwa [heq] at hstored
      · rename_i after heq
        rwa [heq] at hstored

theorem run_planner_renewal (env : FlowEnvironment V C) (clock : Clock)
    (planner : PlannerPort V) (now : ℤ) (planned : Planned C) :
    Renewal (planView planned.record)
      (planView (runPlanner env clock planner now planned).2) := by
  rw [runPlanner]
  split
  · exact .stays
  · split
    · exact .stays
    · split
      · exact .stays
      · split
        · exact .stays
        · exact .stays
        · rw [refuse, reject_plan_view]
          exact .stays
        · exact store_candidate_renewal env clock planned.record _ _ now

theorem route_planning_move (planning : PlanLibrary C) (record : TaskRecord C)
    (depth : PlanningDepth) (reason : Text) :
    PlanMove planning (planView record) (planView (routePlanning record depth reason)) := by
  rw [routePlanning]
  split
  · exact .renewed _ .stays
  · exact @PlanMove.routed _ planning (planView record) depth

theorem flow_step_bound (env : FlowEnvironment V C) (clock : Clock) (planned : Planned C)
    (call : FlowCall V C) (h : Bound env.planning (planView planned.record)) :
    Bound env.planning (planView (flowStep env clock planned call).record) := by
  cases call with
  | route input =>
    exact move_bound env.planning _ _ h (route_planning_move env.planning planned.record _ _)
  | routeElsewhere input => exact h
  | run planner now =>
    exact renewal_bound env.planning _ _ h (run_planner_renewal env clock planner now planned)
  | direct op =>
    exact move_bound env.planning _ _ h
      (perform_plan_move env.toEnvironment clock planned.record op)

def OpenForOther (view : PlanView C) : Prop :=
  view.plan.depth = .full ∧ ApprovedOther view

theorem mislabelled_iff (planned : Planned C) :
    Mislabelled planned ↔ planned.flow.full = true ∧ OpenForOther (planView planned.record) :=
  ⟨fun h => ⟨h.routed, h.labelled, h.other⟩, fun h => ⟨h.1, h.2.1, h.2.2⟩⟩

theorem approved_other_label (view : PlanView C) (depth : PlanningDepth) :
    ApprovedOther { view with plan := { view.plan with depth } } ↔ ApprovedOther view :=
  Iff.rfl

theorem renewal_closed (planning : PlanLibrary C) (view after : PlanView C)
    (hbound : Bound planning view) (hmove : Renewal view after) (h : OpenForOther after) :
    OpenForOther view := by
  cases hmove with
  | stays => exact h
  | revisedUnplanned contract hplans => exact h
  | revised contract hplans => exact absurd h.2.1 (stale_not_approved _ _ _ hbound.approved)
  | stored plan hsequence bound => exact absurd h.2.1 (superseded_not_approved _ _)
  | invalidated reason hplans =>
    exact absurd h.2.1 (stale_not_approved _ _ _ hbound.approved)

theorem decided_full (input : PlanningDecisionInput) :
    PlanningFlowState.full ⟨some (decideDepth input)⟩ = true ↔
      (decideDepth input).depth = .full := by
  simp [PlanningFlowState.full]

theorem relabelled_view (record : TaskRecord C) (depth : PlanningDepth) (reason : Text)
    (hrunning : ¬record.terminal = true) :
    planView (routePlanning record depth reason) =
      { planView record with plan := { (planView record).plan with depth } } := by
  rw [routePlanning, if_neg hrunning]
  rfl

theorem route_mislabels (env : FlowEnvironment V C) (planned : Planned C)
    (input : PlanningDecisionInput) :
    Mislabelled (route input planned) ↔ ¬KeepsLabel env planned (.route input) := by
  rw [mislabelled_iff, route, decided_full]
  simp only [KeepsLabel, Classical.not_imp]
  by_cases hterminal : planned.record.terminal = true
  · rw [routePlanning, if_pos hterminal]
    simp only [OpenForOther, hterminal, true_and, ne_eq, not_not]
    exact ⟨fun h => ⟨h.1, h.2.2, h.2.1⟩, fun h => ⟨h.1, h.2.2, h.2.1⟩⟩
  · rw [relabelled_view _ _ _ hterminal, OpenForOther, approved_other_label]
    exact ⟨fun h => ⟨h.1, h.2.2, fun hboth => hterminal hboth.1⟩,
      fun h => ⟨h.1, h.1, h.2.1⟩⟩

theorem direct_route_mislabels (env : FlowEnvironment V C) (clock : Clock)
    (planned : Planned C) (depth : PlanningDepth) (reason : Text)
    (hlabel : ¬Mislabelled planned) :
    Mislabelled (flowStep env clock planned (.direct (.routePlanning depth reason))) ↔
      ¬KeepsLabel env planned (.direct (.routePlanning depth reason)) := by
  rw [mislabelled_iff] at hlabel ⊢
  simp only [flowStep, perform, KeepsLabel, Classical.not_imp]
  by_cases hterminal : planned.record.terminal = true
  · rw [routePlanning, if_pos hterminal]
    exact ⟨fun h => absurd h hlabel, fun h => absurd hterminal h.2.2.2⟩
  · rw [relabelled_view _ _ _ hterminal, OpenForOther, approved_other_label]
    exact ⟨fun h => ⟨h.2.1, h.1, h.2.2, hterminal⟩, fun h => ⟨h.2.1, h.1, h.2.2.1⟩⟩

theorem approve_mislabels (env : FlowEnvironment V C) (clock : Clock) (planned : Planned C)
    (planId : Text) (planRevision : ℕ) (hlabel : ¬Mislabelled planned) :
    Mislabelled (flowStep env clock planned (.direct (.approvePlan planId planRevision))) ↔
      ¬KeepsLabel env planned (.direct (.approvePlan planId planRevision)) := by
  rw [mislabelled_iff] at hlabel ⊢
  simp only [flowStep, perform, KeepsLabel]
  cases hchecked : checkApproval env.planning planned.record planId planRevision with
  | error reason =>
    rw [approvePlan, hchecked]
    simp only [reduceCtorEq, IsEmpty.forall_iff, implies_true, not_true_eq_false, iff_false]
    exact hlabel
  | ok plan =>
    have hlast := (check_approval_ok _ _ _ _ _ hchecked).last
    have hview : planView (approvePlan env.planning clock planned.record planId
        planRevision).1 =
        { planView planned.record with
          planApproval := some (approvalOf plan (clock 0))
          plan := { planned.record.state.plan with approval := .approved } } := by
      rw [approvePlan, hchecked]
      rfl
    rw [hview]
    simp only [OpenForOther, ApprovedOther, hlast, Option.some.injEq, exists_eq_left', true_and]
    simp only [Except.ok.injEq, forall_eq', not_forall]
    exact ⟨fun h => ⟨h.1, h.2.1, h.2.2⟩, fun h => ⟨h.1, h.2.1, h.2.2⟩⟩

theorem step_mislabels (env : FlowEnvironment V C) (clock : Clock) (planned : Planned C)
    (call : FlowCall V C) (hbound : Bound env.planning (planView planned.record))
    (hlabel : ¬Mislabelled planned) :
    Mislabelled (flowStep env clock planned call) ↔ ¬KeepsLabel env planned call := by
  cases call with
  | route input => exact route_mislabels env planned input
  | routeElsewhere input =>
    rw [mislabelled_iff]
    simp only [flowStep, KeepsLabel, decided_full, OpenForOther, Classical.not_imp, ne_eq, not_not]
    exact ⟨fun h => ⟨h.1, h.2.2, h.2.1⟩, fun h => ⟨h.1, h.2.2, h.2.1⟩⟩
  | run planner now =>
    rw [mislabelled_iff] at hlabel ⊢
    refine ⟨fun h => ?_, fun h => absurd trivial h⟩
    exact absurd ⟨h.1, renewal_closed env.planning _ _ hbound
      (run_planner_renewal env clock planner now planned) h.2⟩ hlabel
  | direct op =>
    by_cases hop : endorses op = true
    · cases op with
      | routePlanning depth reason =>
        exact direct_route_mislabels env clock planned depth reason hlabel
      | approvePlan planId planRevision =>
        exact approve_mislabels env clock planned planId planRevision hlabel
      | _ => cases hop
    · have hrenewal := perform_renewal env.toEnvironment clock planned.record op
        (Bool.not_eq_true _ ▸ hop)
      have hkeeps : KeepsLabel env planned (.direct op) := by
        cases op <;> trivial
      rw [mislabelled_iff] at hlabel ⊢
      refine ⟨fun h => ?_, fun h => absurd hkeeps h⟩
      exact absurd ⟨h.1, renewal_closed env.planning _ _ hbound hrenewal h.2⟩ hlabel

theorem run_gated (env : FlowEnvironment V C) (calls : List (Clock × FlowCall V C))
    (planned : Planned C) (h : RunGated env planned calls) : GateSound planned := by
  cases calls with
  | nil => exact h
  | cons entry calls => exact h.1

theorem bound_run_iff (env : FlowEnvironment V C) (calls : List (Clock × FlowCall V C))
    (planned : Planned C) (hbound : Bound env.planning (planView planned.record))
    (hlabel : ¬Mislabelled planned) :
    RunGated env planned calls ↔ RunKeepsLabel env planned calls := by
  induction calls generalizing planned with
  | nil => exact ⟨fun _ => trivial, fun _ => (gate_sound_state _ _ hbound).mpr hlabel⟩
  | cons entry calls ih =>
    obtain ⟨clock, call⟩ := entry
    rw [RunGated, RunKeepsLabel]
    have hafter := flow_step_bound env clock planned call hbound
    have hstep := step_mislabels env clock planned call hbound hlabel
    by_cases hkeeps : KeepsLabel env planned call
    · have hrun := ih (flowStep env clock planned call) hafter
        fun h => hstep.mp h hkeeps
      exact ⟨fun h => ⟨hkeeps, hrun.mp h.2⟩,
        fun h => ⟨(gate_sound_state _ _ hbound).mpr hlabel, hrun.mpr h.2⟩⟩
    · refine ⟨fun h => ?_, fun h => absurd h.1 hkeeps⟩
      have hsound := run_gated env calls _ h.2
      exact absurd (hstep.mpr hkeeps) ((gate_sound_state _ _ hafter).mp hsound)

/-- A created task with a flow that has not routed yet. -/
def Planned.start (contract : TaskContract) (specs : List TaskStepSpec) (iteration : ℕ)
    (now : ℤ) : Planned C :=
  ⟨buildRecord contract specs iteration now, .new⟩

theorem start_run_iff (env : FlowEnvironment V C) (contract : TaskContract)
    (specs : List TaskStepSpec) (iteration : ℕ) (now : ℤ) (calls : List (Clock × FlowCall V C)) :
    RunGated env (Planned.start contract specs iteration now) calls ↔
      RunKeepsLabel env (Planned.start contract specs iteration now) calls :=
  bound_run_iff env calls _ (build_record_bound env.planning contract specs iteration now)
    fun h => nomatch h.routed

/-- The gate is sound exactly in the runs that never put a full label on an approved plan
of another depth. -/
theorem full_gate_iff (env : FlowEnvironment V C) (contract : TaskContract)
    (specs : List TaskStepSpec) (iteration : ℕ) (now : ℤ) (calls : List (Clock × FlowCall V C)) :
    RunGated env (Planned.start contract specs iteration now) calls ↔
      RunKeepsLabel env (Planned.start contract specs iteration now) calls :=
  start_run_iff env contract specs iteration now calls

end Gate

section Relabelled

def flowEnvironment : FlowEnvironment Unit Text :=
  { planningEnvironment with validateCandidate := fun _ _ _ => .error [] }

def fullRequest : PlanningDecisionInput where
  explicitPlanRequest := true
  requestedDepth := some .full
  inspectionOnly := false
  expectedMutation := true
  acceptanceCriterionCount := 1
  protectedConfigInvolved := false
  spansMultipleSubsystems := false
  researchRequired := false
  capabilityUncertainty := false
  narrowRepair := false
  knownTouchpoints := 1
  involvesGodotSceneOrResource := none
  surface := none

/-- A light plan is stored and approved, then the task is routed to a full plan. -/
def relabelCalls : List (Clock × FlowCall Unit Text) :=
  [(fun _ => 0, .direct (.setPlan (lightPlan 1))),
   (fun _ => 0, .direct (.approvePlan "plan-task-1" 1)),
   (fun _ => 0, .route fullRequest)]

theorem full_gate_fails :
    ¬∀ calls : List (Clock × FlowCall Unit Text),
      RunGated flowEnvironment (Planned.start TaskCompletion.sampleContract [] 0 0) calls := by
  intro hclaim
  have hkeeps := (start_run_iff flowEnvironment _ _ _ _ relabelCalls).mp (hclaim relabelCalls)
  have hopen := hkeeps.2.2.1 rfl ⟨by decide, lightPlan 1, rfl, by decide⟩
  exact absurd hopen.1 (by decide)

end Relabelled

end Siralos.PlanningFlow
