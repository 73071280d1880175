import Siralos.Evidence

/-!
# Task state

The record a task runtime owns: the materialized state, the contract history, the stored
plans and the progress tracker. Plan content is opaque here; only the planning library
reads it.
-/

set_option autoImplicit false

namespace Siralos.TaskModel
open Identity Contract Evidence

inductive TaskPhase where
  | prepared
  | working
  | validating
  | reviewing
  | blocked
  | completed
  | cancelled
  | failed
  deriving DecidableEq, Repr

def TaskPhase.asStr : TaskPhase → Text
  | .prepared => "prepared"
  | .working => "working"
  | .validating => "validating"
  | .reviewing => "reviewing"
  | .blocked => "blocked"
  | .completed => "completed"
  | .cancelled => "cancelled"
  | .failed => "failed"

def isTerminalPhase : TaskPhase → Bool
  | .completed | .cancelled | .failed => true
  | _ => false

def allowedTransitions : TaskPhase → List TaskPhase
  | .prepared => [.working, .cancelled, .failed]
  | .working => [.validating, .reviewing, .blocked, .cancelled, .failed]
  | .validating => [.working, .reviewing, .blocked, .cancelled, .failed]
  | .reviewing => [.working, .validating, .blocked, .cancelled, .failed]
  | .blocked => [.working, .cancelled, .failed]
  | .completed | .cancelled | .failed => []

/-- No transition enters `completed`, and none leaves a terminal phase. -/
theorem allowed_transitions_open (phase next : TaskPhase) (h : next ∈ allowedTransitions phase) :
    isTerminalPhase phase = false ∧ next ≠ .completed := by
  cases phase <;> cases next <;> simp_all [allowedTransitions, isTerminalPhase]

inductive TaskStepStatus where
  | pending
  | active
  | completed
  | failed
  | blocked
  deriving DecidableEq, Repr

inductive TaskStepKind where
  | research
  | implementation
  | review
  deriving DecidableEq, Repr

structure TaskStepSpec where
  id : Text
  description : Text
  kind : TaskStepKind
  accepts : List EvidenceKind
  deriving DecidableEq, Repr

structure TaskStepState where
  id : Text
  description : Text
  kind : TaskStepKind
  status : TaskStepStatus
  evidenceRefs : List EvidenceRef
  failedReason : Option Text
  blockedReason : Option Text
  deriving DecidableEq, Repr

inductive AcceptanceStatus where
  | pending
  | satisfied
  | failed
  deriving DecidableEq, Repr

structure AcceptanceState where
  criterionId : Text
  description : Text
  verificationKind : VerificationKind
  status : AcceptanceStatus
  verifiedBy : Option Text
  note : Option Text
  deriving DecidableEq, Repr

inductive TaskValidationStatus where
  | notRun
  | clean
  | warnings
  | failed
  | incomplete
  deriving DecidableEq, Repr

def TaskValidationStatus.asStr : TaskValidationStatus → Text
  | .notRun => "not_run"
  | .clean => "clean"
  | .warnings => "warnings"
  | .failed => "failed"
  | .incomplete => "incomplete"

def TaskValidationStatus.isAcceptableForCompletion : TaskValidationStatus → Bool
  | .clean | .warnings => true
  | _ => false

inductive TaskReviewStatus where
  | notRun
  | clean
  | findings
  | incomplete
  deriving DecidableEq, Repr

def TaskReviewStatus.asStr : TaskReviewStatus → Text
  | .notRun => "not_run"
  | .clean => "clean"
  | .findings => "findings"
  | .incomplete => "incomplete"

section Progress

inductive ProgressStateValue where
  | healthy
  | degraded
  | stalled
  deriving DecidableEq, Repr

structure ProgressState where
  state : ProgressStateValue
  usefulObservations : ℕ
  repeatedActions : ℕ
  lastProgressAtMs : Option ℤ
  stalledAtMs : Option ℤ
  deriving DecidableEq, Repr

structure HostObservation where
  action : Text
  fingerprint : Text
  progress : Bool
  deriving DecidableEq, Repr

structure InternalProgress where
  usefulObservations : ℕ
  repeatedActions : ℕ
  state : ProgressStateValue
  lastProgressAtMs : Option ℤ
  stalledAtMs : Option ℤ
  window : List (Text × Bool)
  deriving DecidableEq, Repr

def createInternalProgress : InternalProgress where
  usefulObservations := 0
  repeatedActions := 0
  state := .healthy
  lastProgressAtMs := none
  stalledAtMs := none
  window := []

def progressSnapshot (progress : InternalProgress) : ProgressState where
  state := progress.state
  usefulObservations := progress.usefulObservations
  repeatedActions := progress.repeatedActions
  lastProgressAtMs := progress.lastProgressAtMs
  stalledAtMs := progress.stalledAtMs

def observationKey (observation : HostObservation) : Text :=
  observation.action ++ ':' :: observation.fingerprint

def pushWindow (window : List (Text × Bool)) (entry : Text × Bool) : List (Text × Bool) :=
  let grown := window ++ [entry]
  if grown.length > Limits.progressWindowSize then grown.tail else grown

def observeProgress (progress : InternalProgress) (observation : HostObservation) (now : ℤ) :
    InternalProgress :=
  let key := observationKey observation
  let alreadyInWindow := progress.window.any fun entry => entry.1 = key
  let fresh := observation.progress || !alreadyInWindow
  let window := pushWindow progress.window (key, fresh)
  let occurrences := (window.filter fun entry => entry.1 = key).length
  let usefulInWindow := (window.filter fun entry => entry.2).length
  let state :=
    if occurrences ≥ Limits.progressStalledRepetitions ∨ usefulInWindow = 0 then .stalled
    else if occurrences ≥ Limits.progressDegradedRepetitions then .degraded
    else .healthy
  { usefulObservations := progress.usefulObservations + if fresh then 1 else 0
    lastProgressAtMs := if fresh then some now else progress.lastProgressAtMs
    repeatedActions := occurrences
    state := state
    stalledAtMs := if state = .stalled then some (progress.stalledAtMs.getD now) else none
    window := window }

end Progress

section Plans

inductive PlanningDepth where
  | none
  | light
  | full
  deriving DecidableEq, Repr

inductive TaskPlanStateKind where
  | none
  | current
  | stale
  deriving DecidableEq, Repr

inductive TaskPlanApprovalKind where
  | none
  | approved
  | invalidated
  deriving DecidableEq, Repr

structure TaskPlanState where
  planId : Option Text
  planRevision : ℕ
  planDigest : Option Text
  depth : PlanningDepth
  state : TaskPlanStateKind
  approval : TaskPlanApprovalKind
  staleReason : Option Text
  deriving DecidableEq, Repr

def noTaskPlan : TaskPlanState where
  planId := none
  planRevision := 0
  planDigest := none
  depth := .none
  state := .none
  approval := .none
  staleReason := none

structure PlanApproval where
  planId : Text
  planRevision : ℕ
  planDigest : Text
  taskContractRevision : ℕ
  taskContractDigest : Text
  approvedAt : ℤ
  deriving DecidableEq, Repr

structure TaskPlan (C : Type) where
  id : Text
  revision : ℕ
  digest : Text
  taskId : Text
  taskContractRevision : ℕ
  taskContractDigest : Text
  depth : PlanningDepth
  content : C
  createdAt : ℤ

end Plans

section Activity

inductive WorkflowDisposition where
  | continue (nextAction : Option Text)
  | complete
  | blocked (reason : Text)
  deriving DecidableEq, Repr

inductive DispositionSource where
  | host
  | model
  deriving DecidableEq, Repr

inductive ActivityEvent where
  | taskStarted (contractRevision : ℕ)
  | taskPhaseChanged (phase : TaskPhase)
  | stepStarted (stepId : Text)
  | stepCompleted (stepId : Text) (evidenceRefs : List EvidenceRef)
  | stepFailed (stepId reason : Text)
  | evidenceAttached (evidenceId : Text) (kind : EvidenceKind)
  | criterionVerified (criterionId verifiedBy : Text)
  | taskBlocked (reason : Text)
  | taskCompleted
  | taskCancelled (reason : Text)
  | taskFailed (reason : Text)
  | taskContractRevised (revision : ℕ)
  | dispositionSubmitted (disposition : WorkflowDisposition) (source : DispositionSource)
      (accepted : Bool) (note : Option Text)
  | planningRouted (depth : PlanningDepth) (reason : Text)
  | planCreated (planId : Text) (revision : ℕ) (depth : PlanningDepth)
  | planRejected (reason : Text)
  | planApproved (planId : Text) (revision : ℕ) (digest : Text)
  | planInvalidated (planId : Text) (revision : ℕ) (reason : Text)
  deriving DecidableEq, Repr

/-- Every variant of the source carries its sequence number; here it stands beside it. -/
structure Activity where
  sequence : ℕ
  event : ActivityEvent
  deriving DecidableEq, Repr

end Activity

structure TaskState where
  taskId : Text
  contractRevision : ℕ
  contractDigest : Text
  phase : TaskPhase
  plan : TaskPlanState
  steps : List TaskStepState
  acceptance : List AcceptanceState
  currentFindings : List FindingRef
  evidence : List EvidenceRecord
  validationStatus : TaskValidationStatus
  reviewStatus : TaskReviewStatus
  iteration : ℕ
  progress : ProgressState
  startedAtMs : ℤ
  completedAtMs : Option ℤ
  terminalReason : Option Text
  deriving DecidableEq, Repr

structure TaskRecord (C : Type) where
  id : Text
  specs : List TaskStepSpec
  contract : TaskContract
  contractRevisions : List TaskContract
  state : TaskState
  plans : List (TaskPlan C)
  planApproval : Option PlanApproval
  activity : List Activity
  sequence : ℕ
  progress : InternalProgress

def TaskRecord.terminal {C : Type} (record : TaskRecord C) : Bool :=
  isTerminalPhase record.state.phase

def TaskRecord.terminalMessage {C : Type} (record : TaskRecord C) : Text :=
  ("The task is terminal (" : Text) ++ record.state.phase.asStr ++
    ("); authoritative state can no longer be changed." : Text)

end Siralos.TaskModel
