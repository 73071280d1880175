import Siralos.TaskCompletion

/-!
# What the operations leave alone

No operation of a handle writes the materialized progress, and none but the planning and
contract operations touches the plans, their state or the contract.
-/

set_option autoImplicit false

namespace Siralos.TaskQuiet
open Contract Evidence TaskModel TaskRuntime TaskPlanning

variable {C : Type}

structure PlanView (C : Type) where
  contract : TaskContract
  plans : List (TaskPlan C)
  planApproval : Option PlanApproval
  plan : TaskPlanState

def planView (record : TaskRecord C) : PlanView C where
  contract := record.contract
  plans := record.plans
  planApproval := record.planApproval
  plan := record.state.plan

/-- The materialized progress stays, the tracker only counts on. -/
structure Tracked (record after : TaskRecord C) : Prop where
  shown : after.state.progress = record.state.progress
  counted : record.progress.usefulObservations ≤ after.progress.usefulObservations

structure Quiet (record after : TaskRecord C) : Prop extends Tracked record after where
  view : planView after = planView record

theorem observe_counts (progress : InternalProgress) (observation : HostObservation) (now : ℤ) :
    progress.usefulObservations ≤
      (observeProgress progress observation now).usefulObservations :=
  Nat.le_add_right _ _

theorem tracked_same (record after : TaskRecord C)
    (hshown : after.state.progress = record.state.progress)
    (hprogress : after.progress = record.progress) : Tracked record after :=
  ⟨hshown, by rw [hprogress]⟩

theorem tracked_observed (record after : TaskRecord C) (observation : HostObservation) (now : ℤ)
    (h : Tracked record after) : Tracked record (observeRecord after observation now) :=
  ⟨h.shown, h.counted.trans (observe_counts _ _ _)⟩

theorem quiet_same (record after : TaskRecord C) (hview : planView after = planView record)
    (hshown : after.state.progress = record.state.progress)
    (hprogress : after.progress = record.progress) : Quiet record after :=
  { tracked_same record after hshown hprogress with view := hview }

theorem quiet_refl (record : TaskRecord C) : Quiet record record := quiet_same _ _ rfl rfl rfl

theorem quiet_observed (record after : TaskRecord C) (observation : HostObservation) (now : ℤ)
    (h : Quiet record after) : Quiet record (observeRecord after observation now) :=
  { tracked_observed record after observation now h.toTracked with view := h.view }

theorem quiet_logged (record after : TaskRecord C) (event : ActivityEvent)
    (h : Quiet record after) : Quiet record (appendActivity after event) :=
  ⟨⟨h.shown, h.counted⟩, h.view⟩

theorem transition_phase_quiet (clock : Clock) (record : TaskRecord C) (phase : TaskPhase) :
    Quiet record (transitionPhase clock record phase).1 := by
  rw [transitionPhase]
  split
  · exact quiet_refl _
  · split
    · exact quiet_refl _
    · exact quiet_same _ _ rfl rfl rfl

theorem begin_step_quiet (record : TaskRecord C) (stepId : Text) :
    Quiet record (beginStep record stepId).1 := by
  rw [beginStep]
  split
  · exact quiet_refl _
  · split
    · exact quiet_refl _
    · split
      · exact quiet_refl _
      · split
        · exact quiet_refl _
        · exact quiet_same _ _ rfl rfl rfl

theorem fail_step_quiet (record : TaskRecord C) (stepId reason : Text) :
    Quiet record (failStep record stepId reason).1 := by
  rw [failStep]
  split
  · exact quiet_refl _
  · split
    · exact quiet_refl _
    · split
      · exact quiet_refl _
      · exact quiet_same _ _ rfl rfl rfl

theorem complete_step_quiet (clock : Clock) (record : TaskRecord C) (stepId : Text)
    (refs : List EvidenceRef) : Quiet record (completeStep clock record stepId refs).1 := by
  rw [completeStep]
  split
  · exact quiet_refl _
  · split
    · split
      · exact quiet_refl _
      · split
        · exact quiet_refl _
        · split
          · exact quiet_refl _
          · exact quiet_observed _ _ _ _ (quiet_same _ _ rfl rfl rfl)
    · exact quiet_refl _

theorem attach_evidence_quiet (clock : Clock) (record : TaskRecord C) (id : Text)
    (kind : EvidenceKind) (source : EvidenceSource) (verification : Option EvidenceVerification) :
    Quiet record (attachEvidence clock record id kind source verification).1 := by
  rw [attachEvidence]
  split
  · exact quiet_refl _
  · split
    · exact quiet_refl _
    · split
      · exact quiet_refl _
      · split
        · exact quiet_refl _
        · exact quiet_observed _ _ _ _ (quiet_same _ _ rfl rfl rfl)

theorem verify_criterion_quiet (clock : Clock) (record : TaskRecord C) (criterionId : Text)
    (verifiedBy note : Option Text) :
    Quiet record (verifyCriterion clock record criterionId verifiedBy note).1 := by
  rw [verifyCriterion]
  split
  · exact quiet_refl _
  · split
    · exact quiet_refl _
    · split
      · exact quiet_refl _
      · split
        · exact quiet_refl _
        · split
          · exact quiet_refl _
          · exact quiet_observed _ _ _ _ (quiet_same _ _ rfl rfl rfl)

theorem mark_criterion_failed_quiet (record : TaskRecord C) (criterionId : Text)
    (note : Option Text) : Quiet record (markCriterionFailed record criterionId note).1 := by
  rw [markCriterionFailed]
  split
  · exact quiet_refl _
  · split
    · exact quiet_refl _
    · exact quiet_same _ _ rfl rfl rfl

theorem set_findings_quiet (record : TaskRecord C) (findings : List FindingInput) :
    Quiet record (setFindings record findings).1 := by
  rw [setFindings]
  split
  · exact quiet_refl _
  · split
    · exact quiet_refl _
    · exact quiet_same _ _ rfl rfl rfl

theorem complete_task_quiet (clock : Clock) (record : TaskRecord C) :
    Quiet record (completeTask clock record).1 := by
  rw [completeTask]
  split
  · exact quiet_refl _
  · split
    · exact quiet_refl _
    · exact quiet_observed _ _ _ _ (quiet_same _ _ rfl rfl rfl)

theorem with_reason_quiet (record after : TaskRecord C) (reason : Text)
    (h : Quiet record after) : Quiet record (withReason after reason) :=
  ⟨⟨h.shown, h.counted⟩, h.view⟩

theorem mark_blocked_quiet (clock : Clock) (record : TaskRecord C) (reason : Text) :
    Quiet record (markBlocked clock record reason) := by
  have hphase := transition_phase_quiet clock record .blocked
  rw [markBlocked]
  split
  · rename_i after _ heq
    rw [heq] at hphase
    exact hphase
  · rename_i after heq
    rw [heq] at hphase
    exact quiet_logged _ _ _ (with_reason_quiet _ _ _ hphase)

theorem submit_completion_quiet (clock : Clock) (record : TaskRecord C)
    (source : DispositionSource) : Quiet record (submitCompletion clock record source).1 := by
  have hcompleted := complete_task_quiet clock record
  unfold submitCompletion
  simp only
  split
  · split
    · rename_i completed heq
      rw [heq] at hcompleted
      exact quiet_logged _ _ _ hcompleted
    · rename_i after _ heq
      rw [heq] at hcompleted
      exact quiet_logged _ _ _ hcompleted
  · exact quiet_logged _ _ _ (quiet_refl _)

theorem submit_blocked_quiet (clock : Clock) (record : TaskRecord C) (reason : Text)
    (source : DispositionSource) : Quiet record (submitBlocked clock record reason source).1 := by
  have hphase := transition_phase_quiet clock record .blocked
  rw [submitBlocked]
  split
  · rename_i after _ heq
    rw [heq] at hphase
    exact quiet_logged _ _ _ hphase
  · rename_i after heq
    rw [heq] at hphase
    exact quiet_logged _ _ _ (quiet_logged _ _ _ (with_reason_quiet _ _ _ hphase))

theorem submit_disposition_quiet (clock : Clock) (record : TaskRecord C)
    (disposition : WorkflowDisposition) (source : DispositionSource) :
    Quiet record (submitDisposition clock record disposition source).1 := by
  unfold submitDisposition
  split
  · exact quiet_refl _
  · cases disposition with
    | complete => exact submit_completion_quiet clock record source
    | blocked reason => exact submit_blocked_quiet clock record reason source
    | «continue» nextAction => exact quiet_logged _ _ _ (quiet_refl _)

theorem observe_quiet (clock : Clock) (record : TaskRecord C) (observation : HostObservation) :
    Quiet record (observe clock record observation).1 := by
  rw [observe]
  split
  · exact quiet_refl _
  · exact quiet_observed _ _ _ _ (quiet_refl _)

/-- The operations that work on the contract and the plans. -/
def plans : TaskOp C → Bool
  | .reviseContract _ | .routePlanning _ _ | .setPlan _ | .approvePlan _ _
  | .invalidatePlan _ => true
  | _ => false

theorem perform_quiet (env : Environment C) (clock : Clock) (record : TaskRecord C)
    (op : TaskOp C) (h : plans op = false) : Quiet record (perform env clock record op) := by
  cases op with
  | reviseContract => cases h
  | transitionPhase phase => exact transition_phase_quiet clock record phase
  | beginStep stepId => exact begin_step_quiet record stepId
  | failStep stepId reason => exact fail_step_quiet record stepId reason
  | completeStep stepId refs => exact complete_step_quiet clock record stepId refs
  | attachEvidence id kind source verification =>
    exact attach_evidence_quiet clock record id kind source verification
  | verifyCriterion criterionId verifiedBy note =>
    exact verify_criterion_quiet clock record criterionId verifiedBy note
  | markCriterionFailed criterionId note =>
    exact mark_criterion_failed_quiet record criterionId note
  | setFindings findings => exact set_findings_quiet record findings
  | setValidationStatus status =>
    rw [perform, setValidationStatus]
    split <;> exact quiet_same _ _ rfl rfl rfl
  | setReviewStatus status =>
    rw [perform, setReviewStatus]
    split <;> exact quiet_same _ _ rfl rfl rfl
  | setIteration iteration =>
    rw [perform, setIteration]
    split <;> exact quiet_same _ _ rfl rfl rfl
  | completeTask => exact complete_task_quiet clock record
  | cancel reason =>
    rw [perform, cancel]
    split <;> exact quiet_same _ _ rfl rfl rfl
  | fail reason =>
    rw [perform, fail]
    split <;> exact quiet_same _ _ rfl rfl rfl
  | markBlocked reason => exact mark_blocked_quiet clock record reason
  | submitDisposition disposition source =>
    exact submit_disposition_quiet clock record disposition source
  | observe observation => exact observe_quiet clock record observation
  | routePlanning => cases h
  | rejectPlan reason =>
    rw [perform, rejectPlan]
    split <;> exact quiet_same _ _ rfl rfl rfl
  | setPlan => cases h
  | approvePlan => cases h
  | invalidatePlan => cases h

theorem take_approval_tracked (record : TaskRecord C) : Tracked record (takeApproval record) := by
  rw [takeApproval]
  split <;> exact tracked_same _ _ rfl rfl

theorem invalidated_tracked (record : TaskRecord C) :
    Tracked record (invalidatePlanForContractRevision record) := by
  rw [invalidatePlanForContractRevision]
  split
  · exact tracked_same _ _ rfl rfl
  · have htaken := take_approval_tracked (withPlan record
      { record.state.plan with state := .stale, staleReason := some contractAdvancedReason })
    exact ⟨htaken.shown, htaken.counted⟩

theorem revise_contract_tracked (sha256Hex : Text → Text) (record : TaskRecord C)
    (changes : ReviseTaskContractInput) :
    Tracked record (reviseContract sha256Hex record changes).1 := by
  rw [reviseContract]
  split
  · exact tracked_same _ _ rfl rfl
  · split
    · exact tracked_same _ _ rfl rfl
    · rename_i revision _
      have hinvalidated := invalidated_tracked
        (reconcileAcceptance (adoptRevision record revision) revision)
      exact ⟨hinvalidated.shown, hinvalidated.counted⟩

theorem supersede_tracked (record : TaskRecord C) (plan : TaskPlan C) :
    Tracked record (supersede record plan) := by
  rw [supersede]
  split <;> exact tracked_same _ _ rfl rfl

theorem store_plan_tracked (clock : Clock) (record : TaskRecord C) (plan : TaskPlan C) :
    Tracked record (storePlan clock record plan) := by
  have hsuperseded := supersede_tracked record plan
  have hobserved := (observe_quiet clock
    (appendActivity { supersede record plan with planApproval := none }
      (.planCreated plan.id plan.revision plan.depth))
    { action := "plan.created"
      fingerprint := plan.id ++ ':' :: Text.ofNat plan.revision
      progress := true }).toTracked
  exact ⟨hobserved.shown.trans hsuperseded.shown, hsuperseded.counted.trans hobserved.counted⟩

theorem perform_tracked (env : Environment C) (clock : Clock) (record : TaskRecord C)
    (op : TaskOp C) : Tracked record (perform env clock record op) := by
  by_cases hop : plans op = true
  · cases op with
    | reviseContract changes => exact revise_contract_tracked env.sha256Hex record changes
    | routePlanning depth reason =>
      rw [perform, routePlanning]
      split <;> exact tracked_same _ _ rfl rfl
    | setPlan plan =>
      rw [perform, setPlan]
      split
      · exact tracked_same _ _ rfl rfl
      · exact store_plan_tracked clock record _
    | approvePlan planId planRevision =>
      rw [perform, approvePlan]
      split <;> exact tracked_same _ _ rfl rfl
    | invalidatePlan reason =>
      rw [perform, invalidatePlan]
      split
      · exact tracked_same _ _ rfl rfl
      · split <;> exact tracked_same _ _ rfl rfl
    | _ => cases hop
  · exact (perform_quiet env clock record op (Bool.not_eq_true _ ▸ hop)).toTracked

/-- The materialized progress is the one of a fresh tracker, while the tracker has counted
the start of the task at least. -/
structure LeftBehind (record : TaskRecord C) : Prop where
  shown : record.state.progress = progressSnapshot createInternalProgress
  counted : 1 ≤ record.progress.usefulObservations

theorem first_observation_counts (progress : InternalProgress) (observation : HostObservation)
    (now : ℤ) (h : progress.window = []) :
    (observeProgress progress observation now).usefulObservations =
      progress.usefulObservations + 1 := by
  change progress.usefulObservations + (if (observation.progress ||
    !progress.window.any fun entry => entry.1 = observationKey observation) then 1 else 0) = _
  rw [h, List.any_nil, Bool.not_false, Bool.or_true, if_pos rfl]

theorem build_record_left_behind (contract : TaskContract) (specs : List TaskStepSpec)
    (iteration : ℕ) (now : ℤ) :
    LeftBehind (buildRecord (C := C) contract specs iteration now) :=
  ⟨rfl, (first_observation_counts createInternalProgress _ now rfl).ge⟩

theorem run_left_behind (env : Environment C) (calls : List (Clock × RuntimeCall C)) :
    ∀ record ∈ (run env calls).records, LeftBehind record := by
  apply run_keeps env LeftBehind build_record_left_behind
  intro clock record op h
  have htracked := perform_tracked env clock record op
  exact ⟨htracked.shown.trans h.shown, h.counted.trans htracked.counted⟩

theorem LeftBehind.differs {record : TaskRecord C} (h : LeftBehind record) :
    record.state.progress ≠ progressSnapshot record.progress := by
  intro hsame
  have huseful := congrArg ProgressState.usefulObservations (h.shown.symm.trans hsame)
  have hcounted := h.counted
  change 0 = record.progress.usefulObservations at huseful
  omega

/-- In no state of any run is the materialized progress the tracker's. -/
theorem progress_views_differ (env : Environment C) (calls : List (Clock × RuntimeCall C))
    (record : TaskRecord C) (hr : record ∈ (run env calls).records) :
    record.state.progress ≠ progressSnapshot record.progress :=
  (run_left_behind env calls record hr).differs

theorem progress_views_differ_sample :
    let record := (run TaskCompletion.sampleEnvironment TaskCompletion.sampleCalls).records.head
      TaskCompletion.sample_created
    record.state.progress ≠ progressSnapshot record.progress :=
  progress_views_differ TaskCompletion.sampleEnvironment TaskCompletion.sampleCalls _
    (List.head_mem _)

theorem progress_views_disagree :
    ¬∀ (env : Environment Unit) (calls : List (Clock × RuntimeCall Unit)),
      ∀ record ∈ (run env calls).records,
        record.state.progress = progressSnapshot record.progress := by
  intro hclaim
  have hfirst := hclaim TaskCompletion.sampleEnvironment [(fun _ => 0,
    .createTask { contract := TaskCompletion.sampleContract, steps := [], iteration := 0 })]
    (buildRecord TaskCompletion.sampleContract [] 0 0) (List.mem_singleton_self _)
  exact (build_record_left_behind _ _ _ _).differs hfirst

end Siralos.TaskQuiet
