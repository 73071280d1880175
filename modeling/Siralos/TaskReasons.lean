import Siralos.TaskCompletion

/-!
# Reasons

The reason a task shows against the reason of the operation that entered its phase. Leaving
`Blocked` by a bare transition keeps the reason of the block.
-/

set_option autoImplicit false

namespace Siralos.TaskReasons
open Contract Evidence TaskModel TaskRuntime TaskPlanning

variable {C : Type}

structure Closing where
  phase : TaskPhase
  reason : Option Text
  deriving DecidableEq, Repr

def closing (record : TaskRecord C) : Closing where
  phase := record.state.phase
  reason := record.state.terminalReason

def suppliedReason : TaskOp C → Option Text
  | .cancel reason | .fail reason | .markBlocked reason
  | .submitDisposition (.blocked reason) _ => some reason
  | _ => none

def mayShow : TaskPhase → Bool
  | .blocked | .cancelled | .failed => true
  | _ => false

/-- What any operation but a bare transition does to the phase and the reason. -/
inductive Closes (supplied : Option Text) (before : Closing) : Closing → Prop where
  | kept : Closes supplied before before
  | entered (phase : TaskPhase) (reason : Text) (hsupplied : supplied = some reason)
      (hne : before.phase ≠ phase) (hshown : mayShow phase = true) :
      Closes supplied before ⟨phase, some reason⟩
  | completed : Closes supplied before ⟨.completed, none⟩

def isTransition : TaskOp C → Bool
  | .transitionPhase _ => true
  | _ => false

theorem begin_step_closing (record : TaskRecord C) (stepId : Text) :
    closing (beginStep record stepId).1 = closing record := by
  rw [beginStep]
  repeat' split
  all_goals rfl

theorem fail_step_closing (record : TaskRecord C) (stepId reason : Text) :
    closing (failStep record stepId reason).1 = closing record := by
  rw [failStep]
  repeat' split
  all_goals rfl

theorem complete_step_closing (clock : Clock) (record : TaskRecord C) (stepId : Text)
    (refs : List EvidenceRef) :
    closing (completeStep clock record stepId refs).1 = closing record := by
  rw [completeStep]
  repeat' split
  all_goals rfl

theorem attach_evidence_closing (clock : Clock) (record : TaskRecord C) (id : Text)
    (kind : EvidenceKind) (source : EvidenceSource) (verification : Option EvidenceVerification) :
    closing (attachEvidence clock record id kind source verification).1 = closing record := by
  rw [attachEvidence]
  repeat' split
  all_goals rfl

theorem verify_criterion_closing (clock : Clock) (record : TaskRecord C) (criterionId : Text)
    (verifiedBy note : Option Text) :
    closing (verifyCriterion clock record criterionId verifiedBy note).1 = closing record := by
  rw [verifyCriterion]
  repeat' split
  all_goals rfl

theorem mark_criterion_failed_closing (record : TaskRecord C) (criterionId : Text)
    (note : Option Text) :
    closing (markCriterionFailed record criterionId note).1 = closing record := by
  rw [markCriterionFailed]
  repeat' split
  all_goals rfl

theorem set_findings_closing (record : TaskRecord C) (findings : List FindingInput) :
    closing (setFindings record findings).1 = closing record := by
  rw [setFindings]
  repeat' split
  all_goals rfl

theorem observe_closing (clock : Clock) (record : TaskRecord C) (observation : HostObservation) :
    closing (observe clock record observation).1 = closing record := by
  rw [observe]
  split
  · rfl
  · rfl

theorem take_approval_closing (record : TaskRecord C) :
    closing (takeApproval record) = closing record := by
  rw [takeApproval]
  split
  · rfl
  · rfl

theorem revise_contract_closing (sha256Hex : Text → Text) (record : TaskRecord C)
    (changes : ReviseTaskContractInput) :
    closing (reviseContract sha256Hex record changes).1 = closing record := by
  have hinvalidated : ∀ record : TaskRecord C,
      closing (invalidatePlanForContractRevision record) = closing record := by
    intro record
    rw [invalidatePlanForContractRevision]
    split
    · rfl
    · exact take_approval_closing (withPlan record _)
  rw [reviseContract]
  split
  · rfl
  · split
    · rfl
    · rename_i revision _
      exact hinvalidated (reconcileAcceptance (adoptRevision record revision) revision)

theorem store_plan_closing (clock : Clock) (record : TaskRecord C) (plan : TaskPlan C) :
    closing (storePlan clock record plan) = closing record := by
  have hsuperseded : closing (supersede record plan) = closing record := by
    rw [supersede]
    split
    · rfl
    · rfl
  have hobserved := observe_closing clock
    (appendActivity { supersede record plan with planApproval := none }
      (.planCreated plan.id plan.revision plan.depth))
    { action := "plan.created"
      fingerprint := plan.id ++ ':' :: Text.ofNat plan.revision
      progress := true }
  exact hobserved.trans hsuperseded

section Steps

variable (clock : Clock) (record : TaskRecord C)

theorem transition_phase_cases (phase : TaskPhase) :
    (∃ error, transitionPhase clock record phase = (record, .error error) ∧
      (record.state.phase = phase ∨ phase ∉ allowedTransitions record.state.phase)) ∨
      ∃ after, transitionPhase clock record phase = (after, .ok ()) ∧
        closing after = ⟨phase, record.state.terminalReason⟩ ∧ record.state.phase ≠ phase ∧
        phase ∈ allowedTransitions record.state.phase := by
  rw [transitionPhase]
  by_cases hsame : record.state.phase = phase
  · rw [if_pos hsame]
    exact .inl ⟨_, rfl, .inl hsame⟩
  · rw [if_neg hsame]
    by_cases hallowed : phase ∈ allowedTransitions record.state.phase
    · rw [if_neg (not_not.mpr hallowed)]
      exact .inr ⟨_, rfl, rfl, hsame, hallowed⟩
    · rw [if_pos hallowed]
      exact .inl ⟨_, rfl, .inr hallowed⟩

theorem mark_blocked_closes (reason : Text) :
    Closes (some reason) (closing record) (closing (markBlocked clock record reason)) := by
  rw [markBlocked]
  rcases transition_phase_cases clock record .blocked with
    ⟨error, h, _⟩ | ⟨after, h, hclosing, hne, _⟩
  · rw [h]
    exact .kept
  · rw [h]
    have hphase : after.state.phase = .blocked := congrArg Closing.phase hclosing
    change Closes _ _ ⟨after.state.phase, some reason⟩
    rw [hphase]
    exact .entered .blocked reason rfl hne rfl

theorem submit_blocked_closes (reason : Text) (source : DispositionSource) :
    Closes (some reason) (closing record)
      (closing (submitBlocked clock record reason source).1) := by
  rw [submitBlocked]
  rcases transition_phase_cases clock record .blocked with
    ⟨error, h, _⟩ | ⟨after, h, hclosing, hne, _⟩
  · rw [h]
    exact .kept
  · rw [h]
    have hphase : after.state.phase = .blocked := congrArg Closing.phase hclosing
    change Closes _ _ ⟨after.state.phase, some reason⟩
    rw [hphase]
    exact .entered .blocked reason rfl hne rfl

theorem open_phase (hopen : ¬ record.terminal = true) (phase : TaskPhase)
    (hterminal : isTerminalPhase phase = true) : record.state.phase ≠ phase := by
  intro h
  rw [TaskRecord.terminal, h] at hopen
  exact hopen hterminal

theorem complete_task_closes (supplied : Option Text) :
    Closes supplied (closing record) (closing (completeTask clock record).1) := by
  rw [completeTask]
  split
  · exact .kept
  · split
    · exact .kept
    · exact .completed

theorem submit_completion_closes (source : DispositionSource) (supplied : Option Text) :
    Closes supplied (closing record) (closing (submitCompletion clock record source).1) := by
  have hcompleted := complete_task_closes clock record supplied
  unfold submitCompletion
  simp only
  split
  · split
    · rename_i completed heq
      rw [heq] at hcompleted
      exact hcompleted
    · rename_i after _ heq
      rw [heq] at hcompleted
      exact hcompleted
  · exact .kept

theorem submit_disposition_closes (disposition : WorkflowDisposition) (source : DispositionSource) :
    Closes (suppliedReason (C := C) (.submitDisposition disposition source)) (closing record)
      (closing (submitDisposition clock record disposition source).1) := by
  unfold submitDisposition
  split
  · exact .kept
  · cases disposition with
    | complete => exact submit_completion_closes clock record source _
    | blocked reason => exact submit_blocked_closes clock record reason source
    | «continue» nextAction => exact .kept

theorem closes_same (op : TaskOp C) (after : TaskRecord C) (h : closing after = closing record) :
    Closes (suppliedReason op) (closing record) (closing after) := by
  rw [h]
  exact .kept

theorem perform_closes (env : Environment C) (op : TaskOp C) (hop : isTransition op = false) :
    Closes (suppliedReason op) (closing record) (closing (perform env clock record op)) := by
  cases op with
  | reviseContract changes => exact closes_same _ _ _ (revise_contract_closing _ _ _)
  | transitionPhase phase => cases hop
  | beginStep stepId => exact closes_same _ _ _ (begin_step_closing _ _)
  | failStep stepId reason => exact closes_same _ _ _ (fail_step_closing _ _ _)
  | completeStep stepId refs => exact closes_same _ _ _ (complete_step_closing _ _ _ _)
  | attachEvidence id kind source verification =>
    exact closes_same _ _ _ (attach_evidence_closing _ _ _ _ _ _)
  | verifyCriterion criterionId verifiedBy note =>
    exact closes_same _ _ _ (verify_criterion_closing _ _ _ _ _)
  | markCriterionFailed criterionId note =>
    exact closes_same _ _ _ (mark_criterion_failed_closing _ _ _)
  | setFindings findings => exact closes_same _ _ _ (set_findings_closing _ _)
  | setValidationStatus status =>
    rw [perform, setValidationStatus]
    split <;> exact .kept
  | setReviewStatus status =>
    rw [perform, setReviewStatus]
    split <;> exact .kept
  | setIteration iteration =>
    rw [perform, setIteration]
    split <;> exact .kept
  | completeTask => exact complete_task_closes clock record _
  | cancel reason =>
    rw [perform, cancel]
    split
    · exact .kept
    · rename_i hopen
      exact .entered .cancelled reason rfl (open_phase record hopen .cancelled rfl) rfl
  | fail reason =>
    rw [perform, fail]
    split
    · exact .kept
    · rename_i hopen
      exact .entered .failed reason rfl (open_phase record hopen .failed rfl) rfl
  | markBlocked reason => exact mark_blocked_closes clock record reason
  | submitDisposition disposition source =>
    exact submit_disposition_closes clock record disposition source
  | observe observation => exact closes_same _ _ _ (observe_closing _ _ _)
  | routePlanning depth reason =>
    rw [perform, routePlanning]
    split <;> exact .kept
  | rejectPlan reason =>
    rw [perform, rejectPlan]
    split <;> exact .kept
  | setPlan plan =>
    rw [perform, setPlan]
    split
    · exact .kept
    · exact closes_same _ _ _ (store_plan_closing _ _ _)
  | approvePlan planId planRevision =>
    rw [perform, approvePlan]
    split <;> exact .kept
  | invalidatePlan reason =>
    rw [perform, invalidatePlan]
    split
    · exact .kept
    · split <;> exact .kept

end Steps

/-- A task with the reason that came with the operation that entered its phase. -/
structure Episode (C : Type) where
  record : TaskRecord C
  entered : Option Text

def Episode.start (contract : TaskContract) (specs : List TaskStepSpec) (iteration : ℕ) (now : ℤ) :
    Episode C where
  record := buildRecord contract specs iteration now
  entered := none

def Episode.perform (env : Environment C) (clock : Clock) (e : Episode C) (op : TaskOp C) :
    Episode C where
  record := TaskPlanning.perform env clock e.record op
  entered :=
    if (TaskPlanning.perform env clock e.record op).state.phase = e.record.state.phase then
      e.entered
    else suppliedReason op

def Episode.performAll (env : Environment C) (ops : List (Clock × TaskOp C)) (e : Episode C) :
    Episode C :=
  ops.foldl (fun e entry => e.perform env entry.1 entry.2) e

/-- A reason is shown in these phases only, and is the one the phase was entered with. -/
def PhaseConsistent (e : Episode C) : Prop :=
  ∀ reason, e.record.state.terminalReason = some reason →
    mayShow e.record.state.phase = true ∧ e.entered = some reason

/-- No transition leaves `Blocked` while there is a reason. -/
def KeepsBlock (record : TaskRecord C) (op : TaskOp C) : Prop :=
  ∀ phase, op = .transitionPhase phase → record.state.phase = .blocked →
    phase ∈ allowedTransitions .blocked → record.state.terminalReason = none

def AllConsistent (env : Environment C) : List (Clock × TaskOp C) → Episode C → Prop
  | [], e => PhaseConsistent e
  | (clock, op) :: rest, e => PhaseConsistent e ∧ AllConsistent env rest (e.perform env clock op)

def AllKeepBlock (env : Environment C) : List (Clock × TaskOp C) → Episode C → Prop
  | [], _ => True
  | (clock, op) :: rest, e => KeepsBlock e.record op ∧ AllKeepBlock env rest (e.perform env clock op)

theorem closes_consistent (env : Environment C) (clock : Clock) (e : Episode C) (op : TaskOp C)
    (h : PhaseConsistent e) (hcloses : Closes (suppliedReason op) (closing e.record)
      (closing (TaskPlanning.perform env clock e.record op))) :
    PhaseConsistent (e.perform env clock op) := by
  have hentered : (e.perform env clock op).entered =
      if (closing (TaskPlanning.perform env clock e.record op)).phase = (closing e.record).phase then
        e.entered
      else suppliedReason op := rfl
  intro reason hreason
  change (closing (TaskPlanning.perform env clock e.record op)).reason = some reason at hreason
  change mayShow (closing (TaskPlanning.perform env clock e.record op)).phase = true ∧ _
  rw [hentered]
  generalize closing (TaskPlanning.perform env clock e.record op) = after at hcloses hreason
  cases hcloses with
  | kept =>
    rw [if_pos rfl]
    exact h reason hreason
  | entered phase supplied hsupplied hne hshown =>
    rw [if_neg (Ne.symm hne), hsupplied]
    exact ⟨hshown, hreason⟩
  | completed => cases hreason

theorem transition_consistent_iff (env : Environment C) (clock : Clock) (e : Episode C)
    (phase : TaskPhase) (h : PhaseConsistent e) :
    PhaseConsistent (e.perform env clock (.transitionPhase phase)) ↔
      KeepsBlock e.record (.transitionPhase (C := C) phase) := by
  rcases transition_phase_cases clock e.record phase with
    ⟨error, hresult, hrefused⟩ | ⟨after, hresult, hclosing, hne, hallowed⟩
  · have hsame : e.perform env clock (.transitionPhase phase) = e := by
      rw [Episode.perform, TaskPlanning.perform, hresult, if_pos rfl]
    rw [hsame]
    constructor
    · intro _ other hother hblocked hleaves
      cases hother
      rw [hblocked] at hrefused
      rcases hrefused with rfl | hnot
      · exact absurd hleaves (by decide)
      · exact absurd hleaves hnot
    · intro _
      exact h
  · have hphase : after.state.phase = phase := congrArg Closing.phase hclosing
    have hreason : after.state.terminalReason = e.record.state.terminalReason :=
      congrArg Closing.reason hclosing
    have hnext : e.perform env clock (.transitionPhase phase) = ⟨after, none⟩ := by
      rw [Episode.perform, TaskPlanning.perform, hresult, if_neg (hphase ▸ Ne.symm hne)]
      rfl
    have hnone : PhaseConsistent (⟨after, none⟩ : Episode C) ↔
        e.record.state.terminalReason = none := by
      rw [← hreason, Option.eq_none_iff_forall_ne_some]
      constructor
      · intro hafter reason hshown
        cases (hafter reason hshown).2
      · intro hafter reason hshown
        exact absurd hshown (hafter reason)
    rw [hnext, hnone]
    constructor
    · intro hempty _ _ _ _
      exact hempty
    · intro hkeeps
      by_contra hshown
      obtain ⟨reason, hsome⟩ := Option.ne_none_iff_exists'.mp hshown
      have hshows := (h reason hsome).1
      -- only `Blocked` both shows a reason and may be left
      have hblocked : e.record.state.phase = .blocked := by
        revert hshows hallowed
        cases e.record.state.phase <;> simp [mayShow, allowedTransitions]
      exact hshown (hkeeps phase rfl hblocked (hblocked ▸ hallowed))

theorem perform_consistent_iff (env : Environment C) (clock : Clock) (e : Episode C)
    (op : TaskOp C) (h : PhaseConsistent e) :
    PhaseConsistent (e.perform env clock op) ↔ KeepsBlock e.record op := by
  cases hop : isTransition op with
  | false =>
    constructor
    · intro _ phase htransition
      rw [htransition] at hop
      cases hop
    · intro _
      exact closes_consistent env clock e op h (perform_closes clock e.record env op hop)
  | true =>
    cases op with
    | transitionPhase phase => exact transition_consistent_iff env clock e phase h
    | _ => cases hop

/-- The run is consistent throughout exactly when no step breaks a block. -/
theorem all_consistent_iff (env : Environment C) (ops : List (Clock × TaskOp C)) (e : Episode C)
    (h : PhaseConsistent e) : AllConsistent env ops e ↔ AllKeepBlock env ops e := by
  induction ops generalizing e with
  | nil => exact ⟨fun _ => trivial, fun _ => h⟩
  | cons entry rest ih =>
    obtain ⟨clock, op⟩ := entry
    have hstep := perform_consistent_iff env clock e op h
    constructor
    · intro hall
      have hnext : PhaseConsistent (e.perform env clock op) := by
        cases rest with
        | nil => exact hall.2
        | cons _ _ => exact hall.2.1
      exact ⟨hstep.mp hnext, (ih _ hnext).mp hall.2⟩
    · intro hall
      exact ⟨h, (ih _ (hstep.mpr hall.1)).mpr hall.2⟩

/-- Over every run of operations on a task, from its creation. -/
theorem reasons_consistent_iff (env : Environment C) (contract : TaskContract)
    (specs : List TaskStepSpec) (iteration : ℕ) (now : ℤ) (ops : List (Clock × TaskOp C)) :
    AllConsistent env ops (.start contract specs iteration now) ↔
      AllKeepBlock env ops (.start contract specs iteration now) := by
  apply all_consistent_iff
  intro reason hreason
  cases hreason

/-- Every record of every run of the runtime is the record of such a run. -/
theorem run_episodes (env : Environment C) (calls : List (Clock × RuntimeCall C)) :
    ∀ record ∈ (run env calls).records, ∃ contract specs iteration now,
      ∃ ops : List (Clock × TaskOp C),
        record = ((Episode.start contract specs iteration now).performAll env ops).record := by
  apply run_keeps env
  · intro contract specs iteration now
    exact ⟨contract, specs, iteration, now, [], rfl⟩
  · rintro clock record op ⟨contract, specs, iteration, now, ops, rfl⟩
    refine ⟨contract, specs, iteration, now, ops ++ [(clock, op)], ?_⟩
    rw [Episode.performAll, Episode.performAll, List.foldl_append]
    rfl

def resumedOps : List (Clock × TaskOp Unit) :=
  [(fun _ => 1, .transitionPhase .working), (fun _ => 2, .markBlocked "waiting"),
    (fun _ => 3, .transitionPhase .working)]

/-- The reason of the block is still there after the task went back to work. -/
theorem reasons_left_over : ¬ ∀ (env : Environment Unit) contract specs iteration now ops,
    AllConsistent env ops (.start contract specs iteration now) := by
  intro hall
  have hrun := hall TaskCompletion.sampleEnvironment TaskCompletion.sampleContract [] 0 0 resumedOps
  have hlast := hrun.2.2.2 "waiting" rfl
  exact absurd hlast.1 (by decide)

end Siralos.TaskReasons
