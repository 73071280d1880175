import Siralos.TaskLedger
import Siralos.TaskPlanning

/-!
# Completed tasks are backed by evidence

Every operation of a handle is a move of the ledger, so the ledger's invariant holds of
every record of every run.
-/

set_option autoImplicit false

namespace Siralos.TaskCompletion
open Contract Evidence TaskModel TaskRuntime TaskPlanning TaskLedger Keyed

section Operations

variable {C : Type}

def ledgerOf (record : TaskRecord C) : Ledger where
  id := record.id
  specs := record.specs
  contract := record.contract
  boundRevision := record.state.contractRevision
  boundDigest := record.state.contractDigest
  phase := record.state.phase
  steps := record.state.steps
  acceptance := record.state.acceptance
  findings := record.state.currentFindings
  evidence := record.state.evidence
  validation := record.state.validationStatus
  review := record.state.reviewStatus

@[simp] theorem ledger_append (record : TaskRecord C) (event : ActivityEvent) :
    ledgerOf (appendActivity record event) = ledgerOf record := rfl

@[simp] theorem ledger_with_plan (record : TaskRecord C) (plan : TaskPlanState) :
    ledgerOf (withPlan record plan) = ledgerOf record := rfl

@[simp] theorem ledger_with_reason (record : TaskRecord C) (reason : Text) :
    ledgerOf (withReason record reason) = ledgerOf record := rfl

@[simp] theorem ledger_take_approval (record : TaskRecord C) :
    ledgerOf (takeApproval record) = ledgerOf record := by
  unfold takeApproval
  split <;> rfl

@[simp] theorem ledger_invalidated (record : TaskRecord C) :
    ledgerOf (invalidatePlanForContractRevision record) = ledgerOf record := by
  unfold invalidatePlanForContractRevision
  split
  · rfl
  · rw [ledger_append, ledger_take_approval, ledger_with_plan]

theorem not_terminal (record : TaskRecord C) (h : ¬record.terminal = true) :
    isTerminalPhase (ledgerOf record).phase = false := by
  rw [Bool.not_eq_true] at h
  exact h

theorem stays (record after : TaskRecord C) (h : ledgerOf after = ledgerOf record) :
    Moves (ledgerOf record) (ledgerOf after) := .inl h

theorem changes (record after : TaskRecord C) (hopen : ¬record.terminal = true)
    (h : Change (ledgerOf record) (ledgerOf after)) :
    Moves (ledgerOf record) (ledgerOf after) := .inr ⟨not_terminal record hopen, h⟩

theorem revise_contract_moves (sha256Hex : Text → Text) (record : TaskRecord C)
    (changed : ReviseTaskContractInput) :
    Moves (ledgerOf record) (ledgerOf (reviseContract sha256Hex record changed).1) := by
  unfold reviseContract
  split
  · exact stays _ _ rfl
  · rename_i hopen
    split
    · exact stays _ _ rfl
    · rename_i revision _
      apply changes _ _ hopen
      rw [ledger_append, ledger_invalidated]
      exact .revise _ revision

theorem transition_phase_moves (clock : Clock) (record : TaskRecord C) (phase : TaskPhase) :
    Moves (ledgerOf record) (ledgerOf (transitionPhase clock record phase).1) := by
  unfold transitionPhase
  split
  · exact stays _ _ rfl
  · split
    · exact stays _ _ rfl
    · rename_i hallowed
      obtain ⟨hopen, hphase⟩ := allowed_transitions_open _ _ (not_not.mp hallowed)
      exact .inr ⟨hopen, .enter _ phase hphase⟩

theorem begin_step_moves (record : TaskRecord C) (stepId : Text) :
    Moves (ledgerOf record) (ledgerOf (beginStep record stepId).1) := by
  unfold beginStep
  split
  · exact stays _ _ rfl
  · rename_i hopen
    split
    · exact stays _ _ rfl
    · rename_i step hstep
      split
      · exact stays _ _ rfl
      · split
        · exact stays _ _ rfl
        · apply changes _ _ hopen
          exact .reopenStep _ stepId step _ hstep rfl (by simp)

theorem fail_step_moves (record : TaskRecord C) (stepId reason : Text) :
    Moves (ledgerOf record) (ledgerOf (failStep record stepId reason).1) := by
  unfold failStep
  split
  · exact stays _ _ rfl
  · rename_i hopen
    split
    · exact stays _ _ rfl
    · rename_i step hstep
      split
      · exact stays _ _ rfl
      · apply changes _ _ hopen
        exact .reopenStep _ stepId step _ hstep rfl (by simp)

theorem find_evidence_some (record : TaskRecord C) (evidenceId : Text) (entry : EvidenceRecord)
    (h : findEvidence record evidenceId = some entry) :
    entry ∈ record.state.evidence ∧ entry.id = evidenceId :=
  ⟨List.mem_of_find?_eq_some h, find_key EvidenceRecord.id evidenceId _ _ h⟩

theorem check_refs_ok (record : TaskRecord C) (accepts : List EvidenceKind) (seen : List Text)
    (refs : List EvidenceRef) (h : checkRefs record accepts seen refs = .ok ()) :
    (refs.map EvidenceRef.evidenceId).Nodup ∧
      ∀ reference ∈ refs, reference.evidenceId ∉ seen ∧ reference.kind ∈ accepts ∧
        ∃ entry ∈ record.state.evidence, entry.id = reference.evidenceId ∧
          entry.kind = reference.kind ∧ entry.taskId = record.id := by
  induction refs generalizing seen with
  | nil => simp
  | cons reference rest ih =>
    unfold checkRefs at h
    split at h
    · simp at h
    · rename_i hseen
      split at h
      · simp at h
      · rename_i hkind
        split at h
        · simp at h
        · rename_i entry hentry
          split at h
          · simp at h
          · rename_i htask
            split at h
            · simp at h
            · rename_i hsame
              obtain ⟨hnodup, hrest⟩ := ih _ h
              obtain ⟨hmem, hid⟩ := find_evidence_some _ _ _ hentry
              constructor
              · rw [List.map_cons, List.nodup_cons]
                refine ⟨?_, hnodup⟩
                intro hm
                obtain ⟨other, ho, hoid⟩ := List.mem_map.mp hm
                exact (hrest other ho).1 (by simp [hoid])
              · intro other ho
                rcases List.mem_cons.mp ho with rfl | ho
                · exact ⟨hseen, not_not.mp hkind, entry, hmem, hid, not_not.mp hsame,
                    not_not.mp htask⟩
                · obtain ⟨hunseen, hfacts⟩ := hrest other ho
                  exact ⟨fun hs => hunseen (List.mem_cons_of_mem _ hs), hfacts⟩

theorem complete_step_moves (clock : Clock) (record : TaskRecord C) (stepId : Text)
    (refs : List EvidenceRef) :
    Moves (ledgerOf record) (ledgerOf (completeStep clock record stepId refs).1) := by
  unfold completeStep
  split
  · exact stays _ _ rfl
  · rename_i hopen
    split
    · rename_i step spec hstep hspec
      split
      · exact stays _ _ rfl
      · split
        · exact stays _ _ rfl
        · rename_i hrefs
          split
          · exact stays _ _ rfl
          · rename_i hchecked
            obtain ⟨hnodup, hfacts⟩ := check_refs_ok _ _ _ _ hchecked
            apply changes _ _ hopen
            have hbacks : Backs record.id record.state.evidence spec.accepts refs :=
              ⟨hrefs, hnodup, fun r hr => (hfacts r hr).2.1, fun r hr => (hfacts r hr).2.2⟩
            exact .completeStep _ stepId step spec _ hstep hspec rfl hbacks
    · exact stays _ _ rfl

theorem attach_evidence_moves (clock : Clock) (record : TaskRecord C) (id : Text)
    (kind : EvidenceKind) (source : EvidenceSource)
    (verification : Option EvidenceVerification) :
    Moves (ledgerOf record)
      (ledgerOf (attachEvidence clock record id kind source verification).1) := by
  unfold attachEvidence
  split
  · exact stays _ _ rfl
  · rename_i hopen
    split
    · exact stays _ _ rfl
    · rename_i validated _
      split
      · exact stays _ _ rfl
      · rename_i hfresh
        split
        · exact stays _ _ rfl
        · apply changes _ _ hopen
          refine .attach _ (newEvidence clock record id kind validated) ?_
          intro other ho hsame
          have hid : other.id = id := hsame
          exact hfresh (List.any_eq_true.mpr ⟨other, ho, by simpa using hid⟩)

theorem check_verifier_ok (record : TaskRecord C) (criterion : AcceptanceState)
    (criterionId : Text) (entry : EvidenceRecord)
    (h : checkVerifier record criterion criterionId entry = .ok ()) :
    Verifies record.id record.contract criterionId criterion.verificationKind entry := by
  unfold checkVerifier at h
  split at h
  · simp at h
  · rename_i hbound
    split at h
    · simp at h
    · rename_i verification hverification
      split at h
      · simp at h
      · rename_i hcriterion
        split at h
        · simp at h
        · rename_i hpassed
          split at h
          · simp at h
          · rename_i hkind
            simp only [ne_eq, not_or, not_not, Bool.not_eq_false] at hbound hcriterion hpassed hkind
            exact ⟨hbound.1, hbound.2.1, hbound.2.2, hkind, hpassed.2,
              ⟨verification, hverification, hpassed.1, hcriterion.1, hcriterion.2⟩⟩

theorem verify_criterion_moves (clock : Clock) (record : TaskRecord C) (criterionId : Text)
    (verifiedBy note : Option Text) :
    Moves (ledgerOf record)
      (ledgerOf (verifyCriterion clock record criterionId verifiedBy note).1) := by
  unfold verifyCriterion
  split
  · exact stays _ _ rfl
  · rename_i hopen
    split
    · exact stays _ _ rfl
    · rename_i criterion hcriterion
      split
      · exact stays _ _ rfl
      · rename_i verifier
        split
        · exact stays _ _ rfl
        · rename_i entry hentry
          split
          · exact stays _ _ rfl
          · rename_i hchecked
            obtain ⟨hmem, hid⟩ := find_evidence_some _ _ _ hentry
            apply changes _ _ hopen
            exact .satisfy _ criterionId criterion entry _ hcriterion rfl rfl
              (congrArg some hid.symm) hmem (check_verifier_ok _ _ _ _ hchecked)

theorem mark_criterion_failed_moves (record : TaskRecord C) (criterionId : Text)
    (note : Option Text) :
    Moves (ledgerOf record) (ledgerOf (markCriterionFailed record criterionId note).1) := by
  unfold markCriterionFailed
  split
  · exact stays _ _ rfl
  · rename_i hopen
    split
    · exact stays _ _ rfl
    · rename_i criterion hcriterion
      apply changes _ _ hopen
      exact .reopenCriterion _ criterionId criterion _ hcriterion rfl rfl (by simp)

theorem set_findings_moves (record : TaskRecord C) (findings : List FindingInput) :
    Moves (ledgerOf record) (ledgerOf (setFindings record findings).1) := by
  unfold setFindings
  split
  · exact stays _ _ rfl
  · rename_i hopen
    split
    · exact stays _ _ rfl
    · rename_i validated _
      apply changes _ _ hopen
      exact .report _ validated _ _

theorem set_validation_moves (record : TaskRecord C) (status : TaskValidationStatus) :
    Moves (ledgerOf record) (ledgerOf (setValidationStatus record status)) := by
  unfold setValidationStatus
  split
  · exact stays _ _ rfl
  · rename_i hopen
    exact changes _ _ hopen (.report _ _ status _)

theorem set_review_moves (record : TaskRecord C) (status : TaskReviewStatus) :
    Moves (ledgerOf record) (ledgerOf (setReviewStatus record status)) := by
  unfold setReviewStatus
  split
  · exact stays _ _ rfl
  · rename_i hopen
    exact changes _ _ hopen (.report _ _ _ status)

theorem set_iteration_moves (record : TaskRecord C) (iteration : ℕ) :
    Moves (ledgerOf record) (ledgerOf (setIteration record iteration)) := by
  unfold setIteration
  split <;> exact stays _ _ rfl

theorem evaluation_gate (record : TaskRecord C) (h : (evaluateCompletion record).allowed = true) :
    Gate (ledgerOf record) := by
  simp only [evaluateCompletion, List.isEmpty_iff, List.append_eq_nil_iff] at h
  obtain ⟨⟨⟨⟨hsteps, hcriteria⟩, hvalidation⟩, hreview⟩, hfindings⟩ := h
  refine ⟨?_, ?_, ?_, ?_, ?_⟩
  · intro step hstep
    simp only [missingSteps, List.map_eq_nil_iff, List.filter_eq_nil_iff] at hsteps
    simpa using hsteps step hstep
  · intro criterion hcriterion
    simp only [missingCriteria, List.map_eq_nil_iff, List.filter_eq_nil_iff] at hcriteria
    simpa using hcriteria criterion hcriterion
  · change record.state.validationStatus = _ ∨ record.state.validationStatus = _
    unfold missingValidation at hvalidation
    cases hstatus : record.state.validationStatus <;>
      simp [hstatus, TaskValidationStatus.isAcceptableForCompletion] at hvalidation ⊢
  · by_contra hreviewed
    have hnot : record.state.reviewStatus ≠ .clean := hreviewed
    simp [missingReview, hnot] at hreview
  · intro finding hfinding
    simp only [missingFindings] at hfindings
    split at hfindings
    · simp at hfindings
    · rename_i hnone
      have hempty := List.length_eq_zero_iff.mp (Nat.eq_zero_of_not_pos hnone)
      rw [List.filter_eq_nil_iff] at hempty
      simpa using hempty finding hfinding

theorem complete_task_moves (clock : Clock) (record : TaskRecord C) :
    Moves (ledgerOf record) (ledgerOf (completeTask clock record).1) := by
  unfold completeTask
  split
  · exact stays _ _ rfl
  · rename_i hopen
    split
    · exact stays _ _ rfl
    · rename_i hallowed
      apply changes _ _ hopen
      exact .complete _ (evaluation_gate record (by simpa using hallowed))

theorem cancel_moves (clock : Clock) (record : TaskRecord C) (reason : Text) :
    Moves (ledgerOf record) (ledgerOf (cancel clock record reason)) := by
  unfold cancel
  split
  · exact stays _ _ rfl
  · rename_i hopen
    exact changes _ _ hopen (.enter _ .cancelled (by decide))

theorem fail_moves (clock : Clock) (record : TaskRecord C) (reason : Text) :
    Moves (ledgerOf record) (ledgerOf (fail clock record reason)) := by
  unfold fail
  split
  · exact stays _ _ rfl
  · rename_i hopen
    exact changes _ _ hopen (.enter _ .failed (by decide))

theorem mark_blocked_moves (clock : Clock) (record : TaskRecord C) (reason : Text) :
    Moves (ledgerOf record) (ledgerOf (markBlocked clock record reason)) := by
  have hmoves := transition_phase_moves clock record .blocked
  unfold markBlocked
  split
  · rename_i after _ hafter
    rw [hafter] at hmoves
    exact hmoves
  · rename_i after hafter
    rw [hafter] at hmoves
    rw [ledger_append, ledger_with_reason]
    exact hmoves

theorem submit_completion_moves (clock : Clock) (record : TaskRecord C)
    (source : DispositionSource) :
    Moves (ledgerOf record) (ledgerOf (submitCompletion clock record source).1) := by
  have hmoves := complete_task_moves clock record
  unfold submitCompletion
  simp only
  split
  · split
    · rename_i completed hcompleted
      rw [hcompleted] at hmoves
      exact hmoves
    · rename_i after _ hafter
      rw [hafter] at hmoves
      exact hmoves
  · exact stays _ _ rfl

theorem submit_blocked_moves (clock : Clock) (record : TaskRecord C) (reason : Text)
    (source : DispositionSource) :
    Moves (ledgerOf record) (ledgerOf (submitBlocked clock record reason source).1) := by
  have hmoves := transition_phase_moves clock record .blocked
  unfold submitBlocked
  split
  · rename_i after _ hafter
    rw [hafter] at hmoves
    exact hmoves
  · rename_i after hafter
    rw [hafter] at hmoves
    exact hmoves

theorem submit_disposition_moves (clock : Clock) (record : TaskRecord C)
    (disposition : WorkflowDisposition) (source : DispositionSource) :
    Moves (ledgerOf record) (ledgerOf (submitDisposition clock record disposition source).1) := by
  unfold submitDisposition
  split
  · exact stays _ _ rfl
  · cases disposition with
    | complete => exact submit_completion_moves clock record source
    | blocked reason => exact submit_blocked_moves clock record reason source
    | «continue» nextAction => exact stays _ _ rfl

@[simp] theorem ledger_observe (clock : Clock) (record : TaskRecord C)
    (observation : HostObservation) :
    ledgerOf (observe clock record observation).1 = ledgerOf record := by
  unfold observe
  split <;> rfl

theorem ledger_route_planning (record : TaskRecord C) (depth : PlanningDepth) (reason : Text) :
    ledgerOf (routePlanning record depth reason) = ledgerOf record := by
  unfold routePlanning
  split <;> rfl

theorem ledger_reject_plan (record : TaskRecord C) (reason : Text) :
    ledgerOf (rejectPlan record reason) = ledgerOf record := by
  unfold rejectPlan
  split <;> rfl

theorem ledger_supersede (record : TaskRecord C) (plan : TaskPlan C) :
    ledgerOf (supersede record plan) = ledgerOf record := by
  unfold supersede
  split <;> rfl

theorem ledger_store_plan (clock : Clock) (record : TaskRecord C) (plan : TaskPlan C) :
    ledgerOf (storePlan clock record plan) = ledgerOf record := by
  have hobserved := ledger_observe clock
    (appendActivity { supersede record plan with planApproval := none }
      (.planCreated plan.id plan.revision plan.depth))
    { action := "plan.created"
      fingerprint := plan.id ++ ':' :: Text.ofNat plan.revision
      progress := true }
  exact hobserved.trans (ledger_supersede record plan)

theorem ledger_set_plan (planning : PlanLibrary C) (clock : Clock) (record : TaskRecord C)
    (plan : TaskPlan C) :
    ledgerOf (setPlan planning clock record plan).1 = ledgerOf record := by
  unfold setPlan
  split
  · rfl
  · exact ledger_store_plan clock record _

theorem ledger_approve_plan (planning : PlanLibrary C) (clock : Clock) (record : TaskRecord C)
    (planId : Text) (planRevision : ℕ) :
    ledgerOf (approvePlan planning clock record planId planRevision).1 = ledgerOf record := by
  unfold approvePlan
  split <;> rfl

theorem ledger_invalidate_plan (record : TaskRecord C) (reason : Text) :
    ledgerOf (invalidatePlan record reason) = ledgerOf record := by
  unfold invalidatePlan
  split
  · rfl
  · split <;> rfl

theorem perform_moves (env : Environment C) (clock : Clock) (record : TaskRecord C)
    (op : TaskOp C) : Moves (ledgerOf record) (ledgerOf (perform env clock record op)) := by
  cases op with
  | reviseContract changes => exact revise_contract_moves _ _ _
  | transitionPhase phase => exact transition_phase_moves _ _ _
  | beginStep stepId => exact begin_step_moves _ _
  | failStep stepId reason => exact fail_step_moves _ _ _
  | completeStep stepId refs => exact complete_step_moves _ _ _ _
  | attachEvidence id kind source verification => exact attach_evidence_moves _ _ _ _ _ _
  | verifyCriterion criterionId verifiedBy note => exact verify_criterion_moves _ _ _ _ _
  | markCriterionFailed criterionId note => exact mark_criterion_failed_moves _ _ _
  | setFindings findings => exact set_findings_moves _ _
  | setValidationStatus status => exact set_validation_moves _ _
  | setReviewStatus status => exact set_review_moves _ _
  | setIteration iteration => exact set_iteration_moves _ _
  | completeTask => exact complete_task_moves _ _
  | cancel reason => exact cancel_moves _ _ _
  | fail reason => exact fail_moves _ _ _
  | markBlocked reason => exact mark_blocked_moves _ _ _
  | submitDisposition disposition source => exact submit_disposition_moves _ _ _ _
  | observe observation => exact stays _ _ (ledger_observe _ _ _)
  | routePlanning depth reason => exact stays _ _ (ledger_route_planning _ _ _)
  | rejectPlan reason => exact stays _ _ (ledger_reject_plan _ _)
  | setPlan plan => exact stays _ _ (ledger_set_plan _ _ _ _)
  | approvePlan planId planRevision => exact stays _ _ (ledger_approve_plan _ _ _ _ _)
  | invalidatePlan reason => exact stays _ _ (ledger_invalidate_plan _ _)

end Operations

section Runs

variable {C : Type}

theorem build_record_sound (contract : TaskContract) (specs : List TaskStepSpec)
    (iteration : ℕ) (now : ℤ) :
    Sound (ledgerOf (buildRecord (C := C) contract specs iteration now)) where
  revision := rfl
  digest := rfl
  steps := pending_steps _ _ _
  acceptance := pending_criteria _ _ _ _
  evidenceIds := List.nodup_nil
  gate := fun hc => absurd hc (show TaskPhase.prepared ≠ TaskPhase.completed by decide)

def AllSound (runtime : TaskRuntime C) : Prop := ∀ record ∈ runtime.records, Sound (ledgerOf record)

theorem run_sound (env : Environment C) (calls : List (Clock × RuntimeCall C)) :
    AllSound (run env calls) :=
  run_keeps env (fun record => Sound (ledgerOf record)) build_record_sound
    (fun clock record op h => moves_sound _ _ (perform_moves env clock record op) h) calls

structure EvidenceBacked (record : TaskRecord C) : Prop where
  steps : List.Forall₂ (fun (spec : TaskStepSpec) (step : TaskStepState) =>
      step.id = spec.id ∧ step.status = .completed ∧
        Backs record.id record.state.evidence spec.accepts step.evidenceRefs)
    record.specs record.state.steps
  criteria : List.Forall₂ (fun (criterion : AcceptanceCriterion) (state : AcceptanceState) =>
      state.criterionId = criterion.id ∧ state.status = .satisfied ∧
        ∃ entry ∈ record.state.evidence, state.verifiedBy = some entry.id ∧
          Verifies record.id record.contract criterion.id criterion.verificationKind entry)
    record.contract.acceptanceCriteria record.state.acceptance
  revision : record.state.contractRevision = record.contract.revision
  digest : record.state.contractDigest = record.contract.digest
  evidenceIds : (record.state.evidence.map EvidenceRecord.id).Nodup
  validation : record.state.validationStatus = .clean ∨ record.state.validationStatus = .warnings
  review : record.state.reviewStatus = .clean
  findings : ∀ finding ∈ record.state.currentFindings,
    finding.severity ≠ .critical ∧ finding.severity ≠ .high

theorem not_blocking (severity : FindingSeverity) (h : severity.isBlocking = false) :
    severity ≠ .critical ∧ severity ≠ .high := by
  cases severity <;> simp_all [FindingSeverity.isBlocking]

/-- In every record of every run, a completed task is backed by evidence. -/
theorem completed_task_is_backed (env : Environment C) (calls : List (Clock × RuntimeCall C))
    (record : TaskRecord C) (hr : record ∈ (run env calls).records)
    (hcompleted : record.state.phase = .completed) : EvidenceBacked record := by
  have hsound := run_sound env calls record hr
  have hgate := hsound.gate hcompleted
  have hsteps : ∀ step ∈ record.state.steps, step.status = .completed := hgate.steps
  have hcriteria : ∀ state ∈ record.state.acceptance, state.status = .satisfied :=
    hgate.acceptance
  refine ⟨?_, ?_, hsound.revision, hsound.digest, hsound.evidenceIds, hgate.validation,
    hgate.review, fun finding hf => not_blocking _ (hgate.findings finding hf)⟩
  · apply aligned_mem _ _ hsound.steps
    intro spec step hstep hs
    exact ⟨hs.id.symm, hsteps step hstep, hs.backed (hsteps step hstep)⟩
  · apply aligned_mem _ _ hsound.acceptance
    intro criterion state hstate hc
    exact ⟨hc.id.symm, hcriteria state hstate, hc.verified (hcriteria state hstate)⟩

/-! A task that runs to completion: one step, one deterministic criterion. -/

def sampleDigest : Text := "cfc155baae2d2a56c1675518185cc4ffab948d909f60ca34f431553c6f3f0a8a"

def taskName : Text := "task-1"

def parsesName : Text := "parses"

def stepName : Text := "inspect"

def readName : Text := "read"

def parsedName : Text := "parsed"

def sampleContract : TaskContract where
  id := taskName
  revision := 1
  digest := sampleDigest
  request := "Add a health component"
  context := none
  constraints := [{ id := "scope", description := "Workspace only.", kind := .scope }]
  acceptanceCriteria :=
    [{ id := parsesName, description := "Parses cleanly.", verificationKind := .deterministic }]
  pausePolicy := .onApproval
  required := by simp
  distinct := by simp

def sampleEnvironment : Environment Unit where
  sha256Hex := fun _ => sampleDigest
  planning := { validateContent := fun _ _ _ => .error [], storedPlanDigest := fun _ => .error [] }

def sampleStep : TaskStepSpec where
  id := stepName
  description := "Inspect"
  kind := .research
  accepts := [.workspaceRead]

def sampleVerification : EvidenceVerification where
  checkId := parsesName
  criterionId := some parsesName
  milestone := none
  outcome := .passed

def sampleOps : List (TaskOp Unit) :=
  [.transitionPhase .working, .beginStep stepName,
    .attachEvidence readName .workspaceRead (.workspaceRead [parsesName] none) none,
    .completeStep stepName [{ evidenceId := readName, kind := .workspaceRead }],
    .attachEvidence parsedName .parserResult (.parser 1 1 0) (some sampleVerification),
    .verifyCriterion parsesName (some parsedName) none,
    .setValidationStatus .clean, .setReviewStatus .clean, .completeTask]

def sampleCalls : List (Clock × RuntimeCall Unit) :=
  (fun _ => 0, .createTask { contract := sampleContract, steps := [sampleStep], iteration := 0 }) ::
    sampleOps.map fun op => (fun _ => 1, .task taskName op)

theorem sample_created : (run sampleEnvironment sampleCalls).records ≠ [] := by
  decide

theorem completed_task_is_backed_sample :
    EvidenceBacked ((run sampleEnvironment sampleCalls).records.head sample_created) :=
  completed_task_is_backed _ _ _ (List.head_mem _) (by decide)

end Runs
end Siralos.TaskCompletion
