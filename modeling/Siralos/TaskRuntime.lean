import Siralos.Keyed
import Siralos.TaskModel

/-!
# The task runtime

The operations of a task handle on its contract, phases, steps, evidence and gates, as
functions from a record to a record. `Clock` is what the clock says, reading after reading,
during one operation.
-/

set_option autoImplicit false

namespace Siralos.TaskRuntime
open Contract Evidence TaskModel Keyed

abbrev Clock := ℕ → ℤ

inductive OpError where
  | terminal
  | alreadyPhase
  | invalidTransition
  | unknownStep
  | stepAlreadyActive
  | stepAlreadyCompleted
  | stepNotActive
  | stepRequiresEvidence
  | duplicateEvidenceRef
  | stepRejectsEvidenceKind
  | unknownEvidenceRef
  | evidenceKindMismatch
  | unknownCriterion
  | criterionRequiresVerificationEvidence
  | unknownEvidence
  | evidenceNotBoundToContract
  | evidenceNotBoundToCriterion
  | evidenceNotSuccessful
  | evidenceKindCannotVerifyCriterion
  | completionGate
  deriving DecidableEq, Repr

def OpError.code : OpError → Text
  | .terminal => "terminal"
  | .alreadyPhase => "already_phase"
  | .invalidTransition => "invalid_transition"
  | .unknownStep => "unknown_step"
  | .stepAlreadyActive => "step_already_active"
  | .stepAlreadyCompleted => "step_already_completed"
  | .stepNotActive => "step_not_active"
  | .stepRequiresEvidence => "step_requires_evidence"
  | .duplicateEvidenceRef => "duplicate_evidence_ref"
  | .stepRejectsEvidenceKind => "step_rejects_evidence_kind"
  | .unknownEvidenceRef => "unknown_evidence_ref"
  | .evidenceKindMismatch => "evidence_kind_mismatch"
  | .unknownCriterion => "unknown_criterion"
  | .criterionRequiresVerificationEvidence => "criterion_requires_verification_evidence"
  | .unknownEvidence => "unknown_evidence"
  | .evidenceNotBoundToContract => "evidence_not_bound_to_contract"
  | .evidenceNotBoundToCriterion => "evidence_not_bound_to_criterion"
  | .evidenceNotSuccessful => "evidence_not_successful"
  | .evidenceKindCannotVerifyCriterion => "evidence_kind_cannot_verify_criterion"
  | .completionGate => "completion_gate"

inductive AttachRejection where
  | terminal
  | invalid (error : EvidenceError)
  | duplicateId
  | recordLimit
  deriving DecidableEq, Repr

def AttachRejection.code : AttachRejection → Text
  | .terminal => "terminal"
  | .invalid error => error.code
  | .duplicateId => "duplicate_evidence_id"
  | .recordLimit => "evidence_limit"

inductive CriterionResult where
  | verified
  | failed
  | rejected (error : OpError)
  deriving DecidableEq, Repr

structure CompletionEvaluation where
  allowed : Bool
  missing : List Text
  deriving DecidableEq, Repr

inductive CompletionResult where
  | completed
  | rejected (reasons : List Text)
  deriving DecidableEq, Repr

structure DispositionResult where
  accepted : Bool
  evaluation : Option CompletionEvaluation
  code : Option OpError
  deriving DecidableEq, Repr

inductive StepSpecError where
  | tooManySteps
  | invalidStepId
  | duplicateStepId
  | emptyStepDescription
  | stepDescriptionTooLarge
  | emptyStepAccepts
  | duplicateStepEvidenceKind
  deriving DecidableEq, Repr

def StepSpecError.code : StepSpecError → Text
  | .tooManySteps => "too_many_steps"
  | .invalidStepId => "invalid_step_id"
  | .duplicateStepId => "duplicate_step_id"
  | .emptyStepDescription => "empty_step_description"
  | .stepDescriptionTooLarge => "step_description_too_large"
  | .emptyStepAccepts => "empty_step_accepts"
  | .duplicateStepEvidenceKind => "duplicate_step_evidence_kind"

inductive TaskCreateError where
  | duplicateTask
  | steps (error : StepSpecError)
  deriving DecidableEq, Repr

def TaskCreateError.code : TaskCreateError → Text
  | .duplicateTask => "duplicate_task"
  | .steps error => error.code

inductive ReviseError where
  | terminal
  | contract (error : ContractError)
  deriving DecidableEq, Repr

def ReviseError.code : ReviseError → Text
  | .terminal => "terminal"
  | .contract error => error.code

def stepIdPatternOk (value : Text) : Bool := entryIdPatternOk value

def prepareSpecList : List Text → List TaskStepSpec → Except StepSpecError (List TaskStepSpec)
  | _, [] => .ok []
  | seen, spec :: rest =>
    let description := Text.trim spec.description
    if stepIdPatternOk spec.id = false then .error .invalidStepId
    else if spec.id ∈ seen then .error .duplicateStepId
    else if description = [] then .error .emptyStepDescription
    else if Text.utf8Len description > Evidence.Limits.maxTaskStepDescriptionBytes then
      .error .stepDescriptionTooLarge
    else if spec.accepts = [] then .error .emptyStepAccepts
    else if ¬spec.accepts.Nodup then .error .duplicateStepEvidenceKind
    else (prepareSpecList (spec.id :: seen) rest).map ({ spec with description } :: ·)

def prepareStepSpecs (steps : List TaskStepSpec) : Except StepSpecError (List TaskStepSpec) :=
  if steps.length > Evidence.Limits.maxTaskSteps then .error .tooManySteps
  else prepareSpecList [] steps

def pendingStep (spec : TaskStepSpec) : TaskStepState where
  id := spec.id
  description := spec.description
  kind := spec.kind
  status := .pending
  evidenceRefs := []
  failedReason := none
  blockedReason := none

def pendingCriterion (criterion : AcceptanceCriterion) : AcceptanceState where
  criterionId := criterion.id
  description := criterion.description
  verificationKind := criterion.verificationKind
  status := .pending
  verifiedBy := none
  note := none

section Record

variable {C : Type}

def appendActivity (record : TaskRecord C) (event : ActivityEvent) : TaskRecord C :=
  { record with
    sequence := record.sequence + 1
    activity := record.activity ++ [{ sequence := record.sequence + 1, event }] }

def observeRecord (record : TaskRecord C) (observation : HostObservation) (now : ℤ) :
    TaskRecord C :=
  { record with progress := observeProgress record.progress observation now }

/-- The record before its start is logged and observed. -/
def initialRecord (contract : TaskContract) (specs : List TaskStepSpec) (iteration : ℕ)
    (now : ℤ) : TaskRecord C where
  id := contract.id
  specs := specs
  contract := contract
  contractRevisions := [contract]
  plans := []
  planApproval := none
  state :=
    { taskId := contract.id
      contractRevision := contract.revision
      contractDigest := contract.digest
      phase := .prepared
      plan := noTaskPlan
      steps := specs.map pendingStep
      acceptance := contract.acceptanceCriteria.map pendingCriterion
      currentFindings := []
      evidence := []
      validationStatus := .notRun
      reviewStatus := .notRun
      iteration := iteration
      progress := progressSnapshot createInternalProgress
      startedAtMs := now
      completedAtMs := none
      terminalReason := none }
  activity := []
  sequence := 0
  progress := createInternalProgress

def buildRecord (contract : TaskContract) (specs : List TaskStepSpec) (iteration : ℕ)
    (now : ℤ) : TaskRecord C :=
  observeRecord
    (appendActivity (initialRecord contract specs iteration now)
      (.taskStarted contract.revision))
    { action := "task.started", fingerprint := Text.ofNat contract.revision, progress := false }
    now

def contractAdvancedReason : Text :=
  "The TaskContract revision advanced after this plan was created."

def approvalLapsedReason : Text :=
  "The TaskContract revision advanced; the plan approval no longer applies."

def planStaleReason : Text :=
  "The TaskContract revision advanced; the plan is stale until revalidated or replanned."

def withPlan (record : TaskRecord C) (plan : TaskPlanState) : TaskRecord C :=
  { record with state := { record.state with plan } }

def takeApproval (record : TaskRecord C) : TaskRecord C :=
  match record.planApproval with
  | none => record
  | some approval =>
    appendActivity
      { withPlan record { record.state.plan with approval := .invalidated } with
        planApproval := none }
      (.planInvalidated approval.planId approval.planRevision approvalLapsedReason)

def invalidatePlanForContractRevision (record : TaskRecord C) : TaskRecord C :=
  match record.plans.getLast? with
  | none => record
  | some current =>
    appendActivity
      (takeApproval (withPlan record
        { record.state.plan with state := .stale, staleReason := some contractAdvancedReason }))
      (.planInvalidated current.id current.revision planStaleReason)

/-- Every criterion of the new revision starts over. -/
def reconcileAcceptance (record : TaskRecord C) (contract : TaskContract) : TaskRecord C :=
  { record with
    state := { record.state with acceptance := contract.acceptanceCriteria.map pendingCriterion } }

def adoptRevision (record : TaskRecord C) (revision : TaskContract) : TaskRecord C :=
  { record with
    contractRevisions := record.contractRevisions ++ [revision]
    contract := revision
    state :=
      { record.state with
        contractRevision := revision.revision
        contractDigest := revision.digest } }

def reviseContract (sha256Hex : Text → Text) (record : TaskRecord C)
    (changes : ReviseTaskContractInput) : TaskRecord C × Except ReviseError TaskContract :=
  if record.terminal then (record, .error .terminal)
  else
    match revise sha256Hex record.contract changes with
    | .error error => (record, .error (.contract error))
    | .ok revision =>
      (appendActivity
          (invalidatePlanForContractRevision
            (reconcileAcceptance (adoptRevision record revision) revision))
          (.taskContractRevised revision.revision),
        .ok revision)

def transitionPhase (clock : Clock) (record : TaskRecord C) (phase : TaskPhase) :
    TaskRecord C × Except OpError Unit :=
  if record.state.phase = phase then (record, .error .alreadyPhase)
  else if phase ∉ allowedTransitions record.state.phase then (record, .error .invalidTransition)
  else
    let completedAtMs :=
      if isTerminalPhase phase then some (clock 0) else record.state.completedAtMs
    (appendActivity { record with state := { record.state with phase, completedAtMs } }
        (.taskPhaseChanged phase),
      .ok ())

def findStep (record : TaskRecord C) (stepId : Text) : Option TaskStepState :=
  record.state.steps.find? fun step => step.id = stepId

def updateStep (record : TaskRecord C) (stepId : Text) (f : TaskStepState → TaskStepState) :
    TaskRecord C :=
  { record with
    state :=
      { record.state with steps := updateFirst TaskStepState.id stepId f record.state.steps } }

def beginStep (record : TaskRecord C) (stepId : Text) : TaskRecord C × Except OpError Unit :=
  if record.terminal then (record, .error .terminal)
  else
    match findStep record stepId with
    | none => (record, .error .unknownStep)
    | some step =>
      if step.status = .active then (record, .error .stepAlreadyActive)
      else if step.status = .completed then (record, .error .stepAlreadyCompleted)
      else
        (appendActivity
            (updateStep record stepId fun step =>
              { step with status := .active, failedReason := none, blockedReason := none })
            (.stepStarted stepId),
          .ok ())

def failStep (record : TaskRecord C) (stepId reason : Text) :
    TaskRecord C × Except OpError Unit :=
  if record.terminal then (record, .error .terminal)
  else
    match findStep record stepId with
    | none => (record, .error .unknownStep)
    | some step =>
      if step.status = .completed then (record, .error .stepAlreadyCompleted)
      else
        (appendActivity
            (updateStep record stepId fun step =>
              { step with status := .failed, failedReason := some reason })
            (.stepFailed stepId reason),
          .ok ())

def findEvidence (record : TaskRecord C) (evidenceId : Text) : Option EvidenceRecord :=
  record.state.evidence.find? fun entry => entry.id = evidenceId

/-- The first refusal among the references, in their order. -/
def checkRefs (record : TaskRecord C) (accepts : List EvidenceKind) :
    List Text → List EvidenceRef → Except OpError Unit
  | _, [] => .ok ()
  | seen, reference :: rest =>
    if reference.evidenceId ∈ seen then .error .duplicateEvidenceRef
    else if reference.kind ∉ accepts then .error .stepRejectsEvidenceKind
    else
      match findEvidence record reference.evidenceId with
      | none => .error .unknownEvidenceRef
      | some evidence =>
        if evidence.taskId ≠ record.id then .error .unknownEvidenceRef
        else if evidence.kind ≠ reference.kind then .error .evidenceKindMismatch
        else checkRefs record accepts (reference.evidenceId :: seen) rest

def completeStep (clock : Clock) (record : TaskRecord C) (stepId : Text)
    (refs : List EvidenceRef) : TaskRecord C × Except OpError Unit :=
  if record.terminal then (record, .error .terminal)
  else
    match findStep record stepId, record.specs.find? (fun spec => spec.id = stepId) with
    | some step, some spec =>
      if step.status ≠ .active then (record, .error .stepNotActive)
      else if refs = [] then (record, .error .stepRequiresEvidence)
      else
        match checkRefs record spec.accepts [] refs with
        | .error error => (record, .error error)
        | .ok () =>
          (observeRecord
              (appendActivity
                (updateStep record stepId fun step =>
                  { step with
                    status := .completed
                    failedReason := none
                    blockedReason := none
                    evidenceRefs := refs })
                (.stepCompleted stepId refs))
              { action := "step.completed", fingerprint := stepId, progress := true } (clock 0),
            .ok ())
    | _, _ => (record, .error .unknownStep)

def newEvidence (clock : Clock) (record : TaskRecord C) (id : Text) (kind : EvidenceKind)
    (validated : ValidatedEvidence) : EvidenceRecord where
  id := id
  kind := kind
  taskId := record.id
  taskContractRevision := record.contract.revision
  taskContractDigest := record.contract.digest
  source := validated.source
  verification := validated.verification
  attachedAtMs := clock 0

def attachEvidence (clock : Clock) (record : TaskRecord C) (id : Text) (kind : EvidenceKind)
    (source : EvidenceSource) (verification : Option EvidenceVerification) :
    TaskRecord C × Except AttachRejection Unit :=
  if record.terminal then (record, .error .terminal)
  else
    match validateEvidencePayload id kind source verification with
    | .error error => (record, .error (.invalid error))
    | .ok validated =>
      if record.state.evidence.any (fun entry => entry.id = id) then
        (record, .error .duplicateId)
      else if record.state.evidence.length ≥ Evidence.Limits.maxTaskEvidenceRecords then
        (record, .error .recordLimit)
      else
        (observeRecord
            (appendActivity
              { record with
                state :=
                  { record.state with
                    evidence := record.state.evidence ++
                      [newEvidence clock record id kind validated] } }
              (.evidenceAttached id kind))
            { action := "evidence.attached", fingerprint := kind.asStr, progress := true }
            (clock 0),
          .ok ())

/-- Which evidence kinds can verify a criterion. -/
def kindVerifies : VerificationKind → EvidenceKind → Bool
  | .user, kind => kind == .userApproval
  | .review, kind => kind == .reviewResult
  | .deterministic, kind => kind != .reviewResult && kind != .userApproval

def checkVerifier (record : TaskRecord C) (criterion : AcceptanceState) (criterionId : Text)
    (evidence : EvidenceRecord) : Except OpError Unit :=
  if evidence.taskId ≠ record.id ∨ evidence.taskContractRevision ≠ record.contract.revision ∨
      evidence.taskContractDigest ≠ record.contract.digest then
    .error .evidenceNotBoundToContract
  else
    match evidence.verification with
    | none => .error .evidenceNotBoundToCriterion
    | some verification =>
      if verification.criterionId ≠ some criterionId ∨ verification.checkId ≠ criterionId then
        .error .evidenceNotBoundToCriterion
      else if verification.outcome ≠ .passed ∨
          sourceSupportsSuccessfulOutcome evidence.kind evidence.source = false then
        .error .evidenceNotSuccessful
      else if kindVerifies criterion.verificationKind evidence.kind = false then
        .error .evidenceKindCannotVerifyCriterion
      else .ok ()

def findCriterion (record : TaskRecord C) (criterionId : Text) : Option AcceptanceState :=
  record.state.acceptance.find? fun criterion => criterion.criterionId = criterionId

def updateCriterion (record : TaskRecord C) (criterionId : Text)
    (f : AcceptanceState → AcceptanceState) : TaskRecord C :=
  { record with
    state :=
      { record.state with
        acceptance :=
          updateFirst AcceptanceState.criterionId criterionId f record.state.acceptance } }

def verifyCriterion (clock : Clock) (record : TaskRecord C) (criterionId : Text)
    (verifiedBy note : Option Text) : TaskRecord C × CriterionResult :=
  if record.terminal then (record, .rejected .terminal)
  else
    match findCriterion record criterionId with
    | none => (record, .rejected .unknownCriterion)
    | some criterion =>
      match verifiedBy with
      | none => (record, .rejected .criterionRequiresVerificationEvidence)
      | some verifiedBy =>
        match findEvidence record verifiedBy with
        | none => (record, .rejected .unknownEvidence)
        | some evidence =>
          match checkVerifier record criterion criterionId evidence with
          | .error error => (record, .rejected error)
          | .ok () =>
            (observeRecord
                (appendActivity
                  (updateCriterion record criterionId fun criterion =>
                    { criterion with
                      status := .satisfied
                      verifiedBy := some verifiedBy
                      note })
                  (.criterionVerified criterionId verifiedBy))
                { action := "criterion.verified", fingerprint := criterionId, progress := true }
                (clock 0),
              .verified)

def markCriterionFailed (record : TaskRecord C) (criterionId : Text) (note : Option Text) :
    TaskRecord C × CriterionResult :=
  if record.terminal then (record, .rejected .terminal)
  else
    match findCriterion record criterionId with
    | none => (record, .rejected .unknownCriterion)
    | some _ =>
      (updateCriterion record criterionId fun criterion =>
          { criterion with status := .failed, verifiedBy := none, note },
        .failed)

def setFindings (record : TaskRecord C) (findings : List FindingInput) :
    TaskRecord C × Except FindingError Unit :=
  if record.terminal then (record, .ok ())
  else
    match validateFindings findings with
    | .error error => (record, .error error)
    | .ok currentFindings =>
      ({ record with state := { record.state with currentFindings } }, .ok ())

def setValidationStatus (record : TaskRecord C) (validationStatus : TaskValidationStatus) :
    TaskRecord C :=
  if record.terminal then record
  else { record with state := { record.state with validationStatus } }

def setReviewStatus (record : TaskRecord C) (reviewStatus : TaskReviewStatus) : TaskRecord C :=
  if record.terminal then record
  else { record with state := { record.state with reviewStatus } }

def setIteration (record : TaskRecord C) (iteration : ℕ) : TaskRecord C :=
  if record.terminal then record
  else { record with state := { record.state with iteration } }

def missingSteps (steps : List TaskStepState) : List Text :=
  (steps.filter fun step => step.status ≠ .completed).map fun step =>
    ("step not completed: " : Text) ++ step.id

def missingCriteria (acceptance : List AcceptanceState) : List Text :=
  (acceptance.filter fun criterion => criterion.status ≠ .satisfied).map fun criterion =>
    ("acceptance criterion not satisfied: " : Text) ++ criterion.criterionId

def cleanRequired (subject status : Text) : Text :=
  subject ++ (" is " : Text) ++ status ++ (" (clean required)" : Text)

def missingValidation (status : TaskValidationStatus) : List Text :=
  if status.isAcceptableForCompletion then [] else [cleanRequired "validation" status.asStr]

def missingReview (status : TaskReviewStatus) : List Text :=
  if status ≠ .clean then [cleanRequired "review" status.asStr] else []

def missingFindings (findings : List FindingRef) : List Text :=
  let blocking := (findings.filter fun finding => finding.severity.isBlocking).length
  if blocking > 0 then
    [Text.ofNat blocking ++ (" blocking finding(s) unresolved" : Text)]
  else []

def evaluateCompletion (record : TaskRecord C) : CompletionEvaluation :=
  let missing := missingSteps record.state.steps ++ missingCriteria record.state.acceptance ++
    missingValidation record.state.validationStatus ++
    missingReview record.state.reviewStatus ++ missingFindings record.state.currentFindings
  { allowed := missing.isEmpty, missing }

def finish (record : TaskRecord C) (phase : TaskPhase) (terminalReason : Option Text)
    (now : ℤ) : TaskRecord C :=
  { record with state := { record.state with phase, completedAtMs := some now, terminalReason } }

def completeTask (clock : Clock) (record : TaskRecord C) : TaskRecord C × CompletionResult :=
  if record.terminal then (record, .rejected [record.terminalMessage])
  else if (evaluateCompletion record).allowed = false then
    (record, .rejected (evaluateCompletion record).missing)
  else
    (observeRecord (appendActivity (finish record .completed none (clock 0)) .taskCompleted)
        { action := "task.completed", fingerprint := record.id, progress := true } (clock 1),
      .completed)

def cancel (clock : Clock) (record : TaskRecord C) (reason : Text) : TaskRecord C :=
  if record.terminal then record
  else appendActivity (finish record .cancelled (some reason) (clock 0)) (.taskCancelled reason)

def fail (clock : Clock) (record : TaskRecord C) (reason : Text) : TaskRecord C :=
  if record.terminal then record
  else appendActivity (finish record .failed (some reason) (clock 0)) (.taskFailed reason)

def withReason (record : TaskRecord C) (reason : Text) : TaskRecord C :=
  { record with state := { record.state with terminalReason := some reason } }

def markBlocked (clock : Clock) (record : TaskRecord C) (reason : Text) : TaskRecord C :=
  match transitionPhase clock record .blocked with
  | (record, .error _) => record
  | (record, .ok ()) => appendActivity (withReason record reason) (.taskBlocked reason)

def gatePassedNote : Text := "completion gate passed"

def gateNotSatisfied : Text := "completion gate not satisfied"

def submitCompletion (clock : Clock) (record : TaskRecord C) (source : DispositionSource) :
    TaskRecord C × DispositionResult :=
  let evaluation := evaluateCompletion record
  let refused := fun record : TaskRecord C =>
    (appendActivity record (.dispositionSubmitted .complete source false
        (some (evaluation.missing.head?.getD gateNotSatisfied))),
      ({ accepted := false, evaluation := some evaluation, code := some .completionGate }
        : DispositionResult))
  if evaluation.allowed then
    match completeTask clock record with
    | (completed, .completed) =>
      (appendActivity completed
          (.dispositionSubmitted .complete source true (some gatePassedNote)),
        { accepted := true, evaluation := some evaluation, code := none })
    | (record, .rejected _) => refused record
  else refused record

def submitBlocked (clock : Clock) (record : TaskRecord C) (reason : Text)
    (source : DispositionSource) : TaskRecord C × DispositionResult :=
  match transitionPhase clock record .blocked with
  | (record, .error error) =>
    (appendActivity record
        (.dispositionSubmitted (.blocked reason) source false (some error.code)),
      { accepted := false, evaluation := none, code := some error })
  | (record, .ok ()) =>
    (appendActivity (appendActivity (withReason record reason) (.taskBlocked reason))
        (.dispositionSubmitted (.blocked reason) source true none),
      { accepted := true, evaluation := none, code := none })

def submitDisposition (clock : Clock) (record : TaskRecord C) (disposition : WorkflowDisposition)
    (source : DispositionSource) : TaskRecord C × DispositionResult :=
  if record.terminal then
    let evaluation :=
      if disposition = .complete then some (evaluateCompletion record) else none
    (record, { accepted := false, evaluation, code := some .terminal })
  else
    match disposition with
    | .complete => submitCompletion clock record source
    | .blocked reason => submitBlocked clock record reason source
    | .continue nextAction =>
      (appendActivity record
          (.dispositionSubmitted (.continue nextAction) source true nextAction),
        { accepted := true, evaluation := none, code := none })

def observe (clock : Clock) (record : TaskRecord C) (observation : HostObservation) :
    TaskRecord C × ProgressState :=
  if record.terminal then (record, progressSnapshot record.progress)
  else
    let observed := observeRecord record observation (clock 0)
    (observed, progressSnapshot observed.progress)

end Record
end Siralos.TaskRuntime
