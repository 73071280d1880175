import Siralos.TaskRuntime

/-!
# What completion rests on

The part of a task record the completion gate and its evidence live in, the steps it can
take, and the invariant that ties every `completed` and `satisfied` flag to attached
evidence of the current contract. The runtime's operations refine these steps.
-/

set_option autoImplicit false

namespace Siralos.TaskLedger
open Contract Evidence TaskModel TaskRuntime Keyed

structure Ledger where
  id : Text
  specs : List TaskStepSpec
  contract : TaskContract
  boundRevision : ℕ
  boundDigest : Text
  phase : TaskPhase
  steps : List TaskStepState
  acceptance : List AcceptanceState
  findings : List FindingRef
  evidence : List EvidenceRecord
  validation : TaskValidationStatus
  review : TaskReviewStatus

/-- Distinct references, each to an attached record of the task and of an accepted kind. -/
structure Backs (taskId : Text) (evidence : List EvidenceRecord) (accepts : List EvidenceKind)
    (refs : List EvidenceRef) : Prop where
  nonempty : refs ≠ []
  distinct : (refs.map EvidenceRef.evidenceId).Nodup
  accepted : ∀ reference ∈ refs, reference.kind ∈ accepts
  attached : ∀ reference ∈ refs, ∃ entry ∈ evidence,
    entry.id = reference.evidenceId ∧ entry.kind = reference.kind ∧ entry.taskId = taskId

/-- The record verifies the criterion under exactly this contract revision. -/
structure Verifies (taskId : Text) (contract : TaskContract) (criterionId : Text)
    (kind : VerificationKind) (entry : EvidenceRecord) : Prop where
  task : entry.taskId = taskId
  revision : entry.taskContractRevision = contract.revision
  digest : entry.taskContractDigest = contract.digest
  kindAllowed : kindVerifies kind entry.kind = true
  supported : sourceSupportsSuccessfulOutcome entry.kind entry.source = true
  passed : ∃ verification, entry.verification = some verification ∧
    verification.outcome = .passed ∧ verification.criterionId = some criterionId ∧
    verification.checkId = criterionId

structure StepSound (taskId : Text) (evidence : List EvidenceRecord) (spec : TaskStepSpec)
    (step : TaskStepState) : Prop where
  id : spec.id = step.id
  backed : step.status = .completed → Backs taskId evidence spec.accepts step.evidenceRefs

structure CriterionSound (taskId : Text) (contract : TaskContract)
    (evidence : List EvidenceRecord) (criterion : AcceptanceCriterion)
    (state : AcceptanceState) : Prop where
  id : criterion.id = state.criterionId
  kind : criterion.verificationKind = state.verificationKind
  verified : state.status = .satisfied → ∃ entry ∈ evidence,
    state.verifiedBy = some entry.id ∧
      Verifies taskId contract criterion.id criterion.verificationKind entry

structure Gate (ledger : Ledger) : Prop where
  steps : ∀ step ∈ ledger.steps, step.status = .completed
  acceptance : ∀ criterion ∈ ledger.acceptance, criterion.status = .satisfied
  validation : ledger.validation = .clean ∨ ledger.validation = .warnings
  review : ledger.review = .clean
  findings : ∀ finding ∈ ledger.findings, finding.severity.isBlocking = false

structure Sound (ledger : Ledger) : Prop where
  revision : ledger.boundRevision = ledger.contract.revision
  digest : ledger.boundDigest = ledger.contract.digest
  steps : List.Forall₂ (StepSound ledger.id ledger.evidence) ledger.specs ledger.steps
  acceptance : List.Forall₂ (CriterionSound ledger.id ledger.contract ledger.evidence)
    ledger.contract.acceptanceCriteria ledger.acceptance
  evidenceIds : (ledger.evidence.map EvidenceRecord.id).Nodup
  gate : ledger.phase = .completed → Gate ledger

/-- What an operation that is not refused does to the ledger. -/
inductive Change : Ledger → Ledger → Prop
  | enter (ledger : Ledger) (phase : TaskPhase) (h : phase ≠ .completed) :
    Change ledger { ledger with phase }
  | complete (ledger : Ledger) (h : Gate ledger) :
    Change ledger { ledger with phase := .completed }
  | revise (ledger : Ledger) (contract : TaskContract) :
    Change ledger
      { ledger with
        contract
        boundRevision := contract.revision
        boundDigest := contract.digest
        acceptance := contract.acceptanceCriteria.map pendingCriterion }
  | reopenStep (ledger : Ledger) (stepId : Text) (step : TaskStepState)
    (f : TaskStepState → TaskStepState)
    (hstep : ledger.steps.find? (fun step => step.id = stepId) = some step)
    (hid : (f step).id = step.id) (hstatus : (f step).status ≠ .completed) :
    Change ledger { ledger with steps := updateFirst TaskStepState.id stepId f ledger.steps }
  | completeStep (ledger : Ledger) (stepId : Text) (step : TaskStepState) (spec : TaskStepSpec)
    (f : TaskStepState → TaskStepState)
    (hstep : ledger.steps.find? (fun step => step.id = stepId) = some step)
    (hspec : ledger.specs.find? (fun spec => spec.id = stepId) = some spec)
    (hid : (f step).id = step.id)
    (hbacks : Backs ledger.id ledger.evidence spec.accepts (f step).evidenceRefs) :
    Change ledger { ledger with steps := updateFirst TaskStepState.id stepId f ledger.steps }
  | attach (ledger : Ledger) (entry : EvidenceRecord)
    (hfresh : ∀ other ∈ ledger.evidence, other.id ≠ entry.id) :
    Change ledger { ledger with evidence := ledger.evidence ++ [entry] }
  | satisfy (ledger : Ledger) (criterionId : Text) (criterion : AcceptanceState)
    (entry : EvidenceRecord) (f : AcceptanceState → AcceptanceState)
    (hcriterion : ledger.acceptance.find? (fun entry => entry.criterionId = criterionId) =
      some criterion)
    (hid : (f criterion).criterionId = criterion.criterionId)
    (hkind : (f criterion).verificationKind = criterion.verificationKind)
    (hby : (f criterion).verifiedBy = some entry.id) (hentry : entry ∈ ledger.evidence)
    (hverifies : Verifies ledger.id ledger.contract criterionId criterion.verificationKind
      entry) :
    Change ledger
      { ledger with
        acceptance := updateFirst AcceptanceState.criterionId criterionId f ledger.acceptance }
  | reopenCriterion (ledger : Ledger) (criterionId : Text) (criterion : AcceptanceState)
    (f : AcceptanceState → AcceptanceState)
    (hcriterion : ledger.acceptance.find? (fun entry => entry.criterionId = criterionId) =
      some criterion)
    (hid : (f criterion).criterionId = criterion.criterionId)
    (hkind : (f criterion).verificationKind = criterion.verificationKind)
    (hstatus : (f criterion).status ≠ .satisfied) :
    Change ledger
      { ledger with
        acceptance := updateFirst AcceptanceState.criterionId criterionId f ledger.acceptance }
  | report (ledger : Ledger) (findings : List FindingRef) (validation : TaskValidationStatus)
    (review : TaskReviewStatus) :
    Change ledger { ledger with findings, validation, review }

/-- A refused operation leaves the ledger; any other changes one that is not terminal. -/
def Moves (before after : Ledger) : Prop :=
  after = before ∨ isTerminalPhase before.phase = false ∧ Change before after

theorem backs_append (taskId : Text) (evidence : List EvidenceRecord)
    (accepts : List EvidenceKind) (refs : List EvidenceRef) (entry : EvidenceRecord)
    (h : Backs taskId evidence accepts refs) :
    Backs taskId (evidence ++ [entry]) accepts refs := by
  refine ⟨h.nonempty, h.distinct, h.accepted, ?_⟩
  intro reference hr
  obtain ⟨attached, hmem, hfacts⟩ := h.attached reference hr
  exact ⟨attached, List.mem_append_left _ hmem, hfacts⟩

theorem steps_append (taskId : Text) (evidence : List EvidenceRecord) (entry : EvidenceRecord)
    (specs : List TaskStepSpec) (steps : List TaskStepState)
    (h : List.Forall₂ (StepSound taskId evidence) specs steps) :
    List.Forall₂ (StepSound taskId (evidence ++ [entry])) specs steps := by
  apply h.imp
  intro spec step hs
  exact ⟨hs.id, fun hc => backs_append _ _ _ _ _ (hs.backed hc)⟩

theorem acceptance_append (taskId : Text) (contract : TaskContract)
    (evidence : List EvidenceRecord) (entry : EvidenceRecord)
    (criteria : List AcceptanceCriterion) (states : List AcceptanceState)
    (h : List.Forall₂ (CriterionSound taskId contract evidence) criteria states) :
    List.Forall₂ (CriterionSound taskId contract (evidence ++ [entry])) criteria states := by
  apply h.imp
  intro criterion state hc
  refine ⟨hc.id, hc.kind, ?_⟩
  intro hs
  obtain ⟨verifier, hmem, hfacts⟩ := hc.verified hs
  exact ⟨verifier, List.mem_append_left _ hmem, hfacts⟩

theorem pending_steps (taskId : Text) (evidence : List EvidenceRecord)
    (specs : List TaskStepSpec) :
    List.Forall₂ (StepSound taskId evidence) specs (specs.map pendingStep) := by
  apply aligned_map
  intro spec
  exact ⟨rfl, fun h => by simp [pendingStep] at h⟩

theorem pending_criteria (taskId : Text) (contract : TaskContract)
    (evidence : List EvidenceRecord) (criteria : List AcceptanceCriterion) :
    List.Forall₂ (CriterionSound taskId contract evidence) criteria
      (criteria.map pendingCriterion) := by
  apply aligned_map
  intro criterion
  exact ⟨rfl, rfl, fun h => by simp [pendingCriterion] at h⟩

theorem open_gate (ledger : Ledger) (h : isTerminalPhase ledger.phase = false) :
    ledger.phase ≠ .completed := by
  intro hc
  rw [hc] at h
  exact absurd h (by decide)

theorem change_sound (before after : Ledger) (h : Change before after)
    (hopen : isTerminalPhase before.phase = false) (hs : Sound before) : Sound after := by
  have hgate := open_gate before hopen
  cases h with
  | enter phase h =>
    exact ⟨hs.revision, hs.digest, hs.steps, hs.acceptance, hs.evidenceIds,
      fun hc => absurd hc h⟩
  | complete h =>
    exact ⟨hs.revision, hs.digest, hs.steps, hs.acceptance, hs.evidenceIds,
      fun _ => ⟨h.steps, h.acceptance, h.validation, h.review, h.findings⟩⟩
  | revise contract =>
    exact ⟨rfl, rfl, hs.steps, pending_criteria _ _ _ _, hs.evidenceIds,
      fun hc => absurd hc hgate⟩
  | reopenStep stepId step f hstep hid hstatus =>
    refine ⟨hs.revision, hs.digest, ?_, hs.acceptance, hs.evidenceIds,
      fun hc => absurd hc hgate⟩
    apply aligned_update TaskStepSpec.id TaskStepState.id stepId f (fun _ _ h => h.id) _ _ step
      hs.steps hstep
    intro spec _ hsound
    exact ⟨hsound.id.trans hid.symm, fun hc => absurd hc hstatus⟩
  | completeStep stepId step spec f hstep hspec hid hbacks =>
    refine ⟨hs.revision, hs.digest, ?_, hs.acceptance, hs.evidenceIds,
      fun hc => absurd hc hgate⟩
    apply aligned_update TaskStepSpec.id TaskStepState.id stepId f (fun _ _ h => h.id) _ _ step
      hs.steps hstep
    intro found hfound hsound
    have hsame : found = spec := by
      rw [hspec] at hfound
      exact (Option.some.inj hfound).symm
    subst hsame
    exact ⟨hsound.id.trans hid.symm, fun _ => hbacks⟩
  | attach entry hfresh =>
    refine ⟨hs.revision, hs.digest, steps_append _ _ _ _ _ hs.steps,
      acceptance_append _ _ _ _ _ _ hs.acceptance, ?_, fun hc => absurd hc hgate⟩
    rw [List.map_append, List.nodup_append]
    refine ⟨hs.evidenceIds, by simp, ?_⟩
    intro id hid new hnew hsame
    obtain ⟨other, hmem, rfl⟩ := List.mem_map.mp hid
    rw [List.map_singleton, List.mem_singleton] at hnew
    exact hfresh other hmem (hsame.trans hnew)
  | satisfy criterionId criterion entry f hcriterion hid hkind hby hentry hverifies =>
    refine ⟨hs.revision, hs.digest, hs.steps, ?_, hs.evidenceIds, fun hc => absurd hc hgate⟩
    apply aligned_update AcceptanceCriterion.id AcceptanceState.criterionId criterionId f
      (fun _ _ h => h.id) _ _ criterion hs.acceptance hcriterion
    intro required hrequired hsound
    have hname : required.id = criterionId :=
      find_key AcceptanceCriterion.id criterionId _ _ hrequired
    refine ⟨hsound.id.trans hid.symm, hsound.kind.trans hkind.symm, ?_⟩
    intro _
    refine ⟨entry, hentry, hby, ?_⟩
    rw [hname, hsound.kind]
    exact hverifies
  | reopenCriterion criterionId criterion f hcriterion hid hkind hstatus =>
    refine ⟨hs.revision, hs.digest, hs.steps, ?_, hs.evidenceIds, fun hc => absurd hc hgate⟩
    apply aligned_update AcceptanceCriterion.id AcceptanceState.criterionId criterionId f
      (fun _ _ h => h.id) _ _ criterion hs.acceptance hcriterion
    intro required _ hsound
    exact ⟨hsound.id.trans hid.symm, hsound.kind.trans hkind.symm, fun hc => absurd hc hstatus⟩
  | report findings validation review =>
    exact ⟨hs.revision, hs.digest, hs.steps, hs.acceptance, hs.evidenceIds,
      fun hc => absurd hc hgate⟩

theorem moves_sound (before after : Ledger) (h : Moves before after) (hs : Sound before) :
    Sound after := by
  rcases h with rfl | ⟨hopen, hchange⟩
  · exact hs
  · exact change_sound before after hchange hopen hs

end Siralos.TaskLedger
