import Siralos.TaskRuntime

/-!
# Plans of a task, and runs of the runtime

Plan storage, approval and invalidation; then a run: any calls on any tasks, each through
its handle, starting from the runtime without tasks.
-/

set_option autoImplicit false

namespace Siralos.TaskPlanning
open Contract Evidence TaskModel TaskRuntime

/-- `validateContent` is `validate_plan_candidate` of the content's raw JSON view. -/
structure PlanLibrary (C : Type) where
  validateContent : C → TaskContract → PlanningDepth → Except (List Text) C
  storedPlanDigest : C → Except Text Text

def maxPlanRevisions : ℕ := 16

def planPrefix : Text := "plan-"

def isValidPlanId (id : Text) : Bool :=
  match Text.stripPrefix planPrefix id with
  | none => false
  | some rest =>
    !rest.isEmpty && decide (Text.utf8Len rest ≤ 95) && rest.all Identity.isIdTail

section Messages

def otherTaskMessage (planId planTask task : Text) : Text :=
  ("Plan " : Text) ++ planId ++ (" belongs to task " : Text) ++ planTask ++ (", not " : Text) ++
    task ++ ("." : Text)

def otherRevisionMessage (planId : Text) (bound current : ℕ) : Text :=
  ("Plan " : Text) ++ planId ++ (" binds to TaskContract revision " : Text) ++
    Text.ofNat bound ++ (", but the current revision is " : Text) ++ Text.ofNat current ++
    ("." : Text)

def invalidPlanIdMessage (planId : Text) : Text := ("Invalid plan id: " : Text) ++ planId

def planRevisionMessage : Text := "A plan revision must be a positive safe integer."

def createdAtMessage : Text := "A plan requires a valid createdAt timestamp."

/-- `reasons.join(" ")` -/
def joinReasons (reasons : List Text) : Text := ([' '] : Text).intercalate reasons

def invalidPlanMessage (reasons : List Text) : Text :=
  ("The plan is invalid: " : Text) ++ joinReasons reasons

def firstRevisionMessage : Text := "The first plan revision must be 1."

def notFollowingMessage (planId : Text) (revision previous : ℕ) : Text :=
  ("Plan " : Text) ++ planId ++ (" revision " : Text) ++ Text.ofNat revision ++
    (" does not follow revision " : Text) ++ Text.ofNat previous ++
    ("; plans are immutable and revisions only ever advance by one." : Text)

def replacementMessage (planId : Text) : Text :=
  ("Replacement plan " : Text) ++ planId ++ (" must begin at revision 1." : Text)

def reusedIdMessage (planId : Text) : Text :=
  ("Plan id " : Text) ++ planId ++
    (" was already used by this task and cannot be restarted." : Text)

def planLimitMessage : Text :=
  ("The task already holds the maximum of " : Text) ++ Text.ofNat maxPlanRevisions ++
    (" plan revisions; replanning is not possible within this bound." : Text)

def planAdvancedReason : Text :=
  "The plan identity or revision advanced; the previous approval no longer applies."

def noCurrentPlanMessage (planId : Text) : Text :=
  ("No current plan matches " : Text) ++ planId ++ ("; nothing was approved." : Text)

def staleApprovalMessage (planId : Text) (current requested : ℕ) : Text :=
  ("Approval binds to the exact plan revision: plan " : Text) ++ planId ++
    (" is revision " : Text) ++ Text.ofNat current ++ (", not " : Text) ++
    Text.ofNat requested ++ ("; the stale approval is refused." : Text)

def otherContractMessage (planId : Text) (bound : ℕ) : Text :=
  ("Plan " : Text) ++ planId ++ (" binds to TaskContract revision " : Text) ++
    Text.ofNat bound ++ (", which is no longer current; the approval is refused." : Text)

def otherDigestMessage (planId : Text) : Text :=
  ("Plan " : Text) ++ planId ++
    (" binds to a different TaskContract content digest; the approval is refused." : Text)

def contentDigestMessage (planId : Text) : Text :=
  ("Plan " : Text) ++ planId ++
    (" content does not match its own identity digest; the approval is refused." : Text)

def stalePlanMessage : Text := "The current plan is stale and cannot be approved."

end Messages

section Plans

variable {C : Type}

def routePlanning (record : TaskRecord C) (depth : PlanningDepth) (reason : Text) :
    TaskRecord C :=
  if record.terminal then record
  else
    appendActivity (withPlan record { record.state.plan with depth })
      (.planningRouted depth reason)

def rejectPlan (record : TaskRecord C) (reason : Text) : TaskRecord C :=
  if record.terminal then record else appendActivity record (.planRejected reason)

/-- How a plan has to continue the stored ones. -/
def checkSequence (plans : List (TaskPlan C)) (plan : TaskPlan C) : Except Text Unit :=
  match plans.getLast? with
  | none => if plan.revision ≠ 1 then .error firstRevisionMessage else .ok ()
  | some previous =>
    if previous.id = plan.id then
      if plan.revision ≠ previous.revision + 1 then
        .error (notFollowingMessage plan.id plan.revision previous.revision)
      else .ok ()
    else if plan.revision ≠ 1 then .error (replacementMessage plan.id)
    else if plans.any (fun entry => entry.id = plan.id) then .error (reusedIdMessage plan.id)
    else .ok ()

/-- Every refusal of `set_plan`, in its order; the stored content when there is none. -/
def checkPlan (planning : PlanLibrary C) (record : TaskRecord C) (plan : TaskPlan C) :
    Except Text C :=
  if record.terminal then .error record.terminalMessage
  else if plan.taskId ≠ record.id then
    .error (otherTaskMessage plan.id plan.taskId record.id)
  else if plan.taskContractRevision ≠ record.contract.revision then
    .error (otherRevisionMessage plan.id plan.taskContractRevision record.contract.revision)
  else if isValidPlanId plan.id = false then .error (invalidPlanIdMessage plan.id)
  else if plan.revision < 1 then .error planRevisionMessage
  else if plan.createdAt < 0 then .error createdAtMessage
  else
    match planning.validateContent plan.content record.contract plan.depth with
    | .error reasons => .error (invalidPlanMessage reasons)
    | .ok content =>
      match checkSequence record.plans plan with
      | .error reason => .error reason
      | .ok () =>
        if record.plans.length ≥ maxPlanRevisions then .error planLimitMessage else .ok content

def priorApproval (record : TaskRecord C) (plan : TaskPlan C) : Option PlanApproval :=
  record.planApproval.filter fun approval =>
    approval.planId ≠ plan.id ∨ approval.planRevision ≠ plan.revision

def currentPlanState (plan : TaskPlan C) (approval : TaskPlanApprovalKind) : TaskPlanState where
  planId := some plan.id
  planRevision := plan.revision
  planDigest := some plan.digest
  depth := plan.depth
  state := .current
  approval := approval
  staleReason := none

def supersede (record : TaskRecord C) (plan : TaskPlan C) : TaskRecord C :=
  match priorApproval record plan with
  | some approval =>
    appendActivity (withPlan record (currentPlanState plan .invalidated))
      (.planInvalidated approval.planId approval.planRevision planAdvancedReason)
  | none => withPlan record (currentPlanState plan .none)

def storePlan (clock : Clock) (record : TaskRecord C) (plan : TaskPlan C) : TaskRecord C :=
  let created := appendActivity { supersede record plan with planApproval := none }
    (.planCreated plan.id plan.revision plan.depth)
  let observed := (observe clock created
    { action := "plan.created"
      fingerprint := plan.id ++ ':' :: Text.ofNat plan.revision
      progress := true }).1
  { observed with plans := observed.plans ++ [plan] }

def setPlan (planning : PlanLibrary C) (clock : Clock) (record : TaskRecord C)
    (plan : TaskPlan C) : TaskRecord C × Except Text Unit :=
  match checkPlan planning record plan with
  | .error reason => (record, .error reason)
  | .ok content => (storePlan clock record { plan with content }, .ok ())

def checkApproval (planning : PlanLibrary C) (record : TaskRecord C) (planId : Text)
    (planRevision : ℕ) : Except Text (TaskPlan C) :=
  if record.terminal then .error record.terminalMessage
  else
    match record.plans.getLast? with
    | none => .error (noCurrentPlanMessage planId)
    | some current =>
      if current.id ≠ planId then .error (noCurrentPlanMessage planId)
      else if current.revision ≠ planRevision then
        .error (staleApprovalMessage planId current.revision planRevision)
      else if current.taskContractRevision ≠ record.contract.revision then
        .error (otherContractMessage planId current.taskContractRevision)
      else if current.taskContractDigest ≠ record.contract.digest then
        .error (otherDigestMessage planId)
      else
        match planning.storedPlanDigest current.content with
        | .error reason => .error reason
        | .ok recomputed =>
          if current.digest ≠ recomputed then .error (contentDigestMessage planId)
          else if record.state.plan.state = .stale then .error stalePlanMessage
          else .ok current

def approvalOf (plan : TaskPlan C) (approvedAt : ℤ) : PlanApproval where
  planId := plan.id
  planRevision := plan.revision
  planDigest := plan.digest
  taskContractRevision := plan.taskContractRevision
  taskContractDigest := plan.taskContractDigest
  approvedAt := approvedAt

def approvePlan (planning : PlanLibrary C) (clock : Clock) (record : TaskRecord C)
    (planId : Text) (planRevision : ℕ) : TaskRecord C × Except Text Unit :=
  match checkApproval planning record planId planRevision with
  | .error reason => (record, .error reason)
  | .ok current =>
    (appendActivity
        { withPlan record { record.state.plan with approval := .approved } with
          planApproval := some (approvalOf current (clock 0)) }
        (.planApproved current.id current.revision current.digest),
      .ok ())

def invalidatePlan (record : TaskRecord C) (reason : Text) : TaskRecord C :=
  if record.terminal then record
  else
    match record.plans.getLast? with
    | none => record
    | some current =>
      let approval :=
        if record.planApproval.isSome then .invalidated else record.state.plan.approval
      appendActivity
        { withPlan record
            { record.state.plan with state := .stale, staleReason := some reason, approval } with
          planApproval := none }
        (.planInvalidated current.id current.revision reason)

end Plans

section Runs

variable {C : Type}

inductive TaskOp (C : Type) where
  | reviseContract (changes : ReviseTaskContractInput)
  | transitionPhase (phase : TaskPhase)
  | beginStep (stepId : Text)
  | failStep (stepId reason : Text)
  | completeStep (stepId : Text) (refs : List EvidenceRef)
  | attachEvidence (id : Text) (kind : EvidenceKind) (source : EvidenceSource)
      (verification : Option EvidenceVerification)
  | verifyCriterion (criterionId : Text) (verifiedBy note : Option Text)
  | markCriterionFailed (criterionId : Text) (note : Option Text)
  | setFindings (findings : List FindingInput)
  | setValidationStatus (status : TaskValidationStatus)
  | setReviewStatus (status : TaskReviewStatus)
  | setIteration (iteration : ℕ)
  | completeTask
  | cancel (reason : Text)
  | fail (reason : Text)
  | markBlocked (reason : Text)
  | submitDisposition (disposition : WorkflowDisposition) (source : DispositionSource)
  | observe (observation : HostObservation)
  | routePlanning (depth : PlanningDepth) (reason : Text)
  | rejectPlan (reason : Text)
  | setPlan (plan : TaskPlan C)
  | approvePlan (planId : Text) (planRevision : ℕ)
  | invalidatePlan (reason : Text)

structure Environment (C : Type) where
  sha256Hex : Text → Text
  planning : PlanLibrary C

def perform (env : Environment C) (clock : Clock) (record : TaskRecord C) :
    TaskOp C → TaskRecord C
  | .reviseContract changes => (reviseContract env.sha256Hex record changes).1
  | .transitionPhase phase => (transitionPhase clock record phase).1
  | .beginStep stepId => (beginStep record stepId).1
  | .failStep stepId reason => (failStep record stepId reason).1
  | .completeStep stepId refs => (completeStep clock record stepId refs).1
  | .attachEvidence id kind source verification =>
    (attachEvidence clock record id kind source verification).1
  | .verifyCriterion criterionId verifiedBy note =>
    (verifyCriterion clock record criterionId verifiedBy note).1
  | .markCriterionFailed criterionId note => (markCriterionFailed record criterionId note).1
  | .setFindings findings => (setFindings record findings).1
  | .setValidationStatus status => setValidationStatus record status
  | .setReviewStatus status => setReviewStatus record status
  | .setIteration iteration => setIteration record iteration
  | .completeTask => (completeTask clock record).1
  | .cancel reason => cancel clock record reason
  | .fail reason => fail clock record reason
  | .markBlocked reason => markBlocked clock record reason
  | .submitDisposition disposition source =>
    (submitDisposition clock record disposition source).1
  | .observe observation => (observe clock record observation).1
  | .routePlanning depth reason => routePlanning record depth reason
  | .rejectPlan reason => rejectPlan record reason
  | .setPlan plan => (setPlan env.planning clock record plan).1
  | .approvePlan planId planRevision =>
    (approvePlan env.planning clock record planId planRevision).1
  | .invalidatePlan reason => invalidatePlan record reason

structure TaskRuntime (C : Type) where
  records : List (TaskRecord C)

/-- `iteration` is already normalized to a count. -/
structure CreateTaskInput where
  contract : TaskContract
  steps : List TaskStepSpec
  iteration : ℕ

def createTask (clock : Clock) (runtime : TaskRuntime C) (input : CreateTaskInput) :
    TaskRuntime C × Except TaskCreateError Text :=
  if runtime.records.any (fun record => record.id = input.contract.id) then
    (runtime, .error .duplicateTask)
  else
    match prepareStepSpecs input.steps with
    | .error error => (runtime, .error (.steps error))
    | .ok specs =>
      ({ records := runtime.records ++
          [buildRecord input.contract specs input.iteration (clock 0)] },
        .ok input.contract.id)

/-- A handle is the exclusive borrow of the first record of its id. -/
def onTask (runtime : TaskRuntime C) (taskId : Text) (f : TaskRecord C → TaskRecord C) :
    TaskRuntime C :=
  { records := Keyed.updateFirst TaskRecord.id taskId f runtime.records }

inductive RuntimeCall (C : Type) where
  | createTask (input : CreateTaskInput)
  | task (taskId : Text) (op : TaskOp C)

def call (env : Environment C) (clock : Clock) (runtime : TaskRuntime C) :
    RuntimeCall C → TaskRuntime C
  | .createTask input => (createTask clock runtime input).1
  | .task taskId op => onTask runtime taskId fun record => perform env clock record op

/-- Each call comes with what the clock says while it runs. -/
def run (env : Environment C) (calls : List (Clock × RuntimeCall C)) : TaskRuntime C :=
  calls.foldl (fun runtime entry => call env entry.1 runtime entry.2) { records := [] }

theorem run_keeps (env : Environment C) (P : TaskRecord C → Prop)
    (hbuild : ∀ contract specs iteration now, P (buildRecord contract specs iteration now))
    (hkeep : ∀ clock record op, P record → P (perform env clock record op))
    (calls : List (Clock × RuntimeCall C)) : ∀ record ∈ (run env calls).records, P record := by
  have hcall : ∀ clock (runtime : TaskRuntime C) request,
      (∀ record ∈ runtime.records, P record) →
        ∀ record ∈ (call env clock runtime request).records, P record := by
    intro clock runtime request h record hr
    cases request with
    | createTask input =>
      rw [call, createTask] at hr
      split at hr
      · exact h record hr
      · split at hr
        · exact h record hr
        · rcases List.mem_append.mp hr with hr | hr
          · exact h record hr
          · rw [List.mem_singleton] at hr
            subst hr
            exact hbuild _ _ _ _
    | task taskId op =>
      rcases Keyed.mem_update_first _ _ _ _ _ hr with hr | ⟨before, hb, _, rfl⟩
      · exact h record hr
      · exact hkeep clock before op (h before hb)
  have hfold : ∀ (runtime : TaskRuntime C), (∀ record ∈ runtime.records, P record) →
      ∀ record ∈ (calls.foldl (fun runtime entry => call env entry.1 runtime entry.2)
        runtime).records, P record := by
    induction calls with
    | nil => exact fun _ h => h
    | cons entry rest ih => exact fun runtime h => ih _ (hcall entry.1 runtime entry.2 h)
  exact hfold _ fun record hr => absurd hr List.not_mem_nil

end Runs
end Siralos.TaskPlanning
