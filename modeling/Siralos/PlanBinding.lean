import Siralos.TaskQuiet
import Mathlib.Data.List.Nodup

/-!
# Plan approval binding

All that a call on a task can do to its plans, and what holds of the approval and of the
stored plans after any calls: an approval names the last plan, which is current and bound
to the current contract.
-/

set_option autoImplicit false

namespace Siralos.PlanBinding
open Contract TaskModel TaskRuntime TaskPlanning TaskQuiet

variable {C : Type}

/-- A plan state gone stale; the approval lapses with it. -/
def staleState (plan : TaskPlanState) (approval : Option PlanApproval) (reason : Text) :
    TaskPlanState :=
  { plan with
    state := .stale
    staleReason := some reason
    approval := if approval.isSome then .invalidated else plan.approval }

def supersededApproval (approval : Option PlanApproval) (plan : TaskPlan C) :
    TaskPlanApprovalKind :=
  if (approval.filter fun prior =>
    prior.planId ≠ plan.id ∨ prior.planRevision ≠ plan.revision).isSome then .invalidated
  else .none

/-- What `approve_plan` has checked of the plan it approves. -/
structure Approvable (planning : PlanLibrary C) (view : PlanView C) (plan : TaskPlan C) :
    Prop where
  last : view.plans.getLast? = some plan
  revision : plan.taskContractRevision = view.contract.revision
  digest : plan.taskContractDigest = view.contract.digest
  content : planning.storedPlanDigest plan.content = .ok plan.digest
  fresh : view.plan.state ≠ .stale

/-- The moves of a plan's life that approve nothing. -/
inductive Renewal (view : PlanView C) : PlanView C → Prop
  | stays : Renewal view view
  | revisedUnplanned (contract : TaskContract) (h : view.plans = []) :
    Renewal view { view with contract }
  | revised (contract : TaskContract) (h : view.plans ≠ []) :
    Renewal view
      { view with
        contract := contract
        planApproval := none
        plan := staleState view.plan view.planApproval contractAdvancedReason }
  | stored (plan : TaskPlan C) (h : checkSequence view.plans plan = .ok ())
    (bound : plan.taskContractRevision = view.contract.revision) :
    Renewal view
      { view with
        plans := view.plans ++ [plan]
        planApproval := none
        plan := currentPlanState plan (supersededApproval view.planApproval plan) }
  | invalidated (reason : Text) (h : view.plans ≠ []) :
    Renewal view
      { view with
        planApproval := none
        plan := staleState view.plan view.planApproval reason }

/-- All that a call can do to the plans of a task. -/
inductive PlanMove (planning : PlanLibrary C) (view : PlanView C) : PlanView C → Prop
  | renewed (after : PlanView C) (h : Renewal view after) : PlanMove planning view after
  | routed (depth : PlanningDepth) :
    PlanMove planning view { view with plan := { view.plan with depth } }
  | approved (plan : TaskPlan C) (approvedAt : ℤ) (h : Approvable planning view plan) :
    PlanMove planning view
      { view with
        planApproval := some (approvalOf plan approvedAt)
        plan := { view.plan with approval := .approved } }

theorem invalidated_view (record : TaskRecord C) (h : record.plans ≠ []) :
    planView (invalidatePlanForContractRevision record) =
      { planView record with
        planApproval := none
        plan := staleState record.state.plan record.planApproval contractAdvancedReason } := by
  rw [invalidatePlanForContractRevision]
  split
  · rename_i hnone
    exact absurd (List.getLast?_eq_none_iff.mp hnone) h
  · cases happroval : record.planApproval with
    | none => simp [planView, appendActivity, takeApproval, withPlan, staleState, happroval]
    | some approval =>
      simp [planView, appendActivity, takeApproval, withPlan, staleState, happroval]

theorem revise_contract_renewal (sha256Hex : Text → Text) (record : TaskRecord C)
    (changes : ReviseTaskContractInput) :
    Renewal (planView record) (planView (reviseContract sha256Hex record changes).1) := by
  rw [reviseContract]
  split
  · exact .stays
  · split
    · exact .stays
    · rename_i revision _
      by_cases hplans : record.plans = []
      · have hview : planView (invalidatePlanForContractRevision
            (reconcileAcceptance (adoptRevision record revision) revision)) =
            { planView record with contract := revision } := by
          rw [invalidatePlanForContractRevision]
          split
          · rfl
          · rename_i plan hlast
            simp [reconcileAcceptance, adoptRevision, hplans] at hlast
        exact hview ▸ Renewal.revisedUnplanned revision hplans
      · exact invalidated_view (reconcileAcceptance (adoptRevision record revision) revision)
          hplans ▸ Renewal.revised revision hplans

theorem supersede_view (record : TaskRecord C) (plan : TaskPlan C) :
    planView { supersede record plan with planApproval := none } =
      { planView record with
        planApproval := none
        plan := currentPlanState plan (supersededApproval record.planApproval plan) } := by
  rw [supersede, supersededApproval]
  cases h : priorApproval record plan with
  | none =>
    rw [priorApproval] at h
    rw [h]
    rfl
  | some approval =>
    rw [priorApproval] at h
    rw [h]
    rfl

theorem store_plan_view (clock : Clock) (record : TaskRecord C) (plan : TaskPlan C) :
    planView (storePlan clock record plan) =
      { planView record with
        plans := record.plans ++ [plan]
        planApproval := none
        plan := currentPlanState plan (supersededApproval record.planApproval plan) } := by
  have hobserved := (observe_quiet clock
    (appendActivity { supersede record plan with planApproval := none }
      (.planCreated plan.id plan.revision plan.depth))
    { action := "plan.created"
      fingerprint := plan.id ++ ':' :: Text.ofNat plan.revision
      progress := true }).view
  have hview := hobserved.trans (supersede_view record plan)
  simp only [planView, PlanView.mk.injEq] at hview
  obtain ⟨hcontract, hplans, happroval, hplan⟩ := hview
  simp only [storePlan, planView, PlanView.mk.injEq]
  exact ⟨hcontract, congrArg (· ++ [plan]) hplans, happroval, hplan⟩

/-- What `set_plan` has checked of the plan it stores. -/
structure Storable (planning : PlanLibrary C) (record : TaskRecord C) (plan : TaskPlan C)
    (content : C) : Prop where
  running : ¬record.terminal = true
  task : plan.taskId = record.id
  bound : plan.taskContractRevision = record.contract.revision
  id : isValidPlanId plan.id = true
  revision : 1 ≤ plan.revision
  created : 0 ≤ plan.createdAt
  valid : planning.validateContent plan.content record.contract plan.depth = .ok content
  sequence : checkSequence record.plans plan = .ok ()
  room : record.plans.length < maxPlanRevisions

theorem check_plan_iff (planning : PlanLibrary C) (record : TaskRecord C) (plan : TaskPlan C)
    (content : C) :
    checkPlan planning record plan = .ok content ↔ Storable planning record plan content := by
  constructor
  · intro h
    unfold checkPlan at h
    split at h
    · cases h
    rename_i hrunning
    split at h
    · cases h
    rename_i htask
    split at h
    · cases h
    rename_i hbound
    split at h
    · cases h
    rename_i hid
    split at h
    · cases h
    rename_i hrevision
    split at h
    · cases h
    rename_i hcreated
    split at h
    · cases h
    rename_i validated hvalid
    split at h
    · cases h
    rename_i hsequence
    split at h
    · cases h
    rename_i hroom
    cases h
    exact ⟨hrunning, not_not.mp htask, not_not.mp hbound, by simpa using hid, by omega,
      by omega, hvalid, hsequence, by omega⟩
  · intro h
    have hrevision := h.revision
    have hcreated := h.created
    have hroom := h.room
    rw [checkPlan, if_neg h.running, if_neg (not_not.mpr h.task), if_neg (not_not.mpr h.bound),
      if_neg (by simp [h.id]), if_neg (by omega), if_neg (by omega), h.valid]
    simp only [h.sequence]
    rw [if_neg (by omega)]

theorem set_plan_renewal (planning : PlanLibrary C) (clock : Clock) (record : TaskRecord C)
    (plan : TaskPlan C) :
    Renewal (planView record) (planView (setPlan planning clock record plan).1) := by
  rw [setPlan]
  split
  · exact .stays
  · rename_i content hchecked
    have hstorable := (check_plan_iff _ _ _ _).mp hchecked
    exact store_plan_view clock record { plan with content } ▸
      Renewal.stored { plan with content } hstorable.sequence hstorable.bound

theorem check_approval_ok (planning : PlanLibrary C) (record : TaskRecord C) (planId : Text)
    (planRevision : ℕ) (plan : TaskPlan C)
    (h : checkApproval planning record planId planRevision = .ok plan) :
    Approvable planning (planView record) plan := by
  unfold checkApproval at h
  split at h
  · cases h
  split at h
  · cases h
  rename_i current hlast
  split at h
  · cases h
  split at h
  · cases h
  split at h
  · cases h
  rename_i hrevision
  split at h
  · cases h
  rename_i hdigest
  split at h
  · cases h
  rename_i recomputed hcontent
  split at h
  · cases h
  rename_i hsame
  split at h
  · cases h
  rename_i hfresh
  cases h
  refine ⟨hlast, not_not.mp hrevision, not_not.mp hdigest, ?_, hfresh⟩
  rw [hcontent, not_not.mp hsame]

theorem approve_plan_move (planning : PlanLibrary C) (clock : Clock) (record : TaskRecord C)
    (planId : Text) (planRevision : ℕ) :
    PlanMove planning (planView record)
      (planView (approvePlan planning clock record planId planRevision).1) := by
  rw [approvePlan]
  split
  · exact .renewed _ .stays
  · rename_i plan hchecked
    exact PlanMove.approved plan (clock 0) (check_approval_ok _ _ _ _ _ hchecked)

theorem invalidate_plan_renewal (record : TaskRecord C) (reason : Text) :
    Renewal (planView record) (planView (invalidatePlan record reason)) := by
  rw [invalidatePlan]
  split
  · exact .stays
  · split
    · exact .stays
    · rename_i plan hlast
      have hplans : record.plans ≠ [] := by
        intro hnil
        rw [hnil] at hlast
        cases hlast
      exact @Renewal.invalidated _ (planView record) reason hplans

/-- The operations that may approve a plan or relabel its depth. -/
def endorses : TaskOp C → Bool
  | .routePlanning _ _ | .approvePlan _ _ => true
  | _ => false

theorem perform_renewal (env : Environment C) (clock : Clock) (record : TaskRecord C)
    (op : TaskOp C) (h : endorses op = false) :
    Renewal (planView record) (planView (perform env clock record op)) := by
  by_cases hop : plans op = true
  · cases op with
    | reviseContract changes => exact revise_contract_renewal env.sha256Hex record changes
    | setPlan plan => exact set_plan_renewal env.planning clock record plan
    | invalidatePlan reason => exact invalidate_plan_renewal record reason
    | routePlanning => cases h
    | approvePlan => cases h
    | _ => cases hop
  · rw [(perform_quiet env clock record op (Bool.not_eq_true _ ▸ hop)).view]
    exact .stays

theorem perform_plan_move (env : Environment C) (clock : Clock) (record : TaskRecord C)
    (op : TaskOp C) :
    PlanMove env.planning (planView record) (planView (perform env clock record op)) := by
  by_cases hop : endorses op = true
  · cases op with
    | routePlanning depth reason =>
      rw [perform, routePlanning]
      split
      · exact .renewed _ .stays
      · exact @PlanMove.routed _ env.planning (planView record) depth
    | approvePlan planId planRevision =>
      exact approve_plan_move env.planning clock record planId planRevision
    | _ => cases hop
  · exact .renewed _ (perform_renewal env clock record op (Bool.not_eq_true _ ▸ hop))

def planKey (plan : TaskPlan C) : Text × ℕ := (plan.id, plan.revision)

/-- The revisions `1 … n` of one plan id. -/
def planRun (run : Text × ℕ) : List (Text × ℕ) := (List.range' 1 run.2).map (run.1, ·)

/-- One contiguous run for each plan id, with all its revisions from the first. -/
def PlanHistory (plans : List (TaskPlan C)) : Prop :=
  ∃ runs : List (Text × ℕ), (runs.map Prod.fst).Nodup ∧ (∀ run ∈ runs, 0 < run.2) ∧
    plans.map planKey = runs.flatMap planRun

theorem plan_run_succ (id : Text) (n : ℕ) : planRun (id, n + 1) = planRun (id, n) ++ [(id, n + 1)] := by
  simp [planRun, List.range'_concat, Nat.add_comm]

theorem mem_plan_run (run : Text × ℕ) (h : 0 < run.2) : run ∈ planRun run := by
  obtain ⟨id, n⟩ := run
  exact List.mem_map.mpr ⟨n, by simp at h ⊢; omega, rfl⟩

theorem history_nil : PlanHistory ([] : List (TaskPlan C)) := ⟨[], List.nodup_nil, by simp, rfl⟩

theorem check_sequence_cases (plans : List (TaskPlan C)) (plan : TaskPlan C)
    (h : checkSequence plans plan = .ok ()) :
    (∃ previous, plans.getLast? = some previous ∧ previous.id = plan.id ∧
      plan.revision = previous.revision + 1) ∨
    plan.revision = 1 ∧ plan.id ∉ plans.map TaskPlan.id := by
  unfold checkSequence at h
  split at h
  · rename_i hnone
    rw [List.getLast?_eq_none_iff] at hnone
    subst hnone
    split at h
    · cases h
    · rename_i hone
      exact .inr ⟨not_not.mp hone, by simp⟩
  · rename_i previous hlast
    split at h
    · rename_i hid
      split at h
      · cases h
      · rename_i hnext
        exact .inl ⟨previous, hlast, hid, not_not.mp hnext⟩
    · split at h
      · cases h
      · rename_i hone
        split at h
        · cases h
        · rename_i hunused
          right
          exact ⟨not_not.mp hone, by simpa using hunused⟩

theorem history_store (plans : List (TaskPlan C)) (plan : TaskPlan C) (h : PlanHistory plans)
    (hsequence : checkSequence plans plan = .ok ()) : PlanHistory (plans ++ [plan]) := by
  obtain ⟨runs, hdistinct, hpositive, hkeys⟩ := h
  rcases check_sequence_cases plans plan hsequence with
    ⟨previous, hlast, hid, hnext⟩ | ⟨hone, hunused⟩
  · -- the last run goes on
    rcases List.eq_nil_or_concat runs with rfl | ⟨earlier, run, rfl⟩
    · rw [List.flatMap_nil, List.map_eq_nil_iff] at hkeys
      rw [hkeys] at hlast
      cases hlast
    · obtain ⟨id, n⟩ := run
      have hn : 0 < n := hpositive (id, n) (by simp)
      obtain ⟨m, rfl⟩ : ∃ m, n = m + 1 := ⟨n - 1, by omega⟩
      have hprevious : planKey previous = (id, m + 1) := by
        have hgot := congrArg List.getLast? hkeys
        rw [List.getLast?_map, hlast, List.concat_eq_append, List.flatMap_append,
          List.flatMap_singleton, plan_run_succ, ← List.append_assoc,
          List.getLast?_concat] at hgot
        exact Option.some.inj hgot
      have hplan : planKey plan = (id, m + 1 + 1) := by
        simp only [planKey, Prod.mk.injEq] at hprevious ⊢
        exact ⟨hid ▸ hprevious.1, by rw [hnext, hprevious.2]⟩
      refine ⟨earlier ++ [(id, m + 1 + 1)], by simpa using hdistinct, ?_, ?_⟩
      · intro run hrun
        rcases List.mem_append.mp hrun with hrun | hrun
        · exact hpositive run (by simp [hrun])
        · rw [List.mem_singleton.mp hrun]
          exact Nat.succ_pos _
      · rw [List.map_append, hkeys, List.concat_eq_append, List.flatMap_append,
          List.flatMap_append, List.flatMap_singleton, List.flatMap_singleton,
          plan_run_succ id (m + 1), List.map_cons, List.map_nil, hplan, List.append_assoc]
  · -- a new run begins
    refine ⟨runs ++ [(plan.id, 1)], ?_, ?_, ?_⟩
    · rw [List.map_append, List.nodup_append']
      refine ⟨hdistinct, by simp, ?_⟩
      intro id hid hnew
      rw [List.map_cons, List.map_nil, List.mem_singleton] at hnew
      obtain ⟨run, hrun, rfl⟩ := List.mem_map.mp hid
      apply hunused
      have hmem : run ∈ plans.map planKey := by
        rw [hkeys]
        exact List.mem_flatMap.mpr ⟨run, hrun, mem_plan_run run (hpositive run hrun)⟩
      obtain ⟨stored, hstored, rfl⟩ := List.mem_map.mp hmem
      exact List.mem_map.mpr ⟨stored, hstored, hnew⟩
    · intro run hrun
      rcases List.mem_append.mp hrun with hrun | hrun
      · exact hpositive run hrun
      · rw [List.mem_singleton.mp hrun]
        exact Nat.one_pos
    · rw [List.map_append, hkeys, List.flatMap_append, List.flatMap_singleton]
      simp [planRun, planKey, hone]

/-- The approval is the one of the last plan, which is current for the current contract. -/
structure Names (planning : PlanLibrary C) (view : PlanView C) (approval : PlanApproval)
    (plan : TaskPlan C) : Prop where
  last : view.plans.getLast? = some plan
  id : approval.planId = plan.id
  revision : approval.planRevision = plan.revision
  digest : approval.planDigest = plan.digest
  current : view.plan.state = .current
  content : planning.storedPlanDigest plan.content = .ok plan.digest
  contractRevision : plan.taskContractRevision = view.contract.revision
  contractDigest : plan.taskContractDigest = view.contract.digest

structure ApprovalBinding (planning : PlanLibrary C) (view : PlanView C) : Prop where
  approved : view.plan.approval = .approved ↔ view.planApproval.isSome
  names : ∀ approval, view.planApproval = some approval →
    ∃ plan, Names planning view approval plan
  history : PlanHistory view.plans

/-- What the moves keep: a stored plan also is named, and current or stale. -/
structure Bound (planning : PlanLibrary C) (view : PlanView C) : Prop extends
    ApprovalBinding planning view where
  placed : view.plans ≠ [] → view.plan.state = .current ∨ view.plan.state = .stale
  identified : view.plans ≠ [] → view.plan.planId.isSome

theorem build_record_bound (planning : PlanLibrary C) (contract : TaskContract)
    (specs : List TaskStepSpec) (iteration : ℕ) (now : ℤ) :
    Bound planning (planView (buildRecord (C := C) contract specs iteration now)) :=
  { approved := ⟨(nomatch ·), (nomatch ·)⟩
    names := fun _ => (nomatch ·)
    history := history_nil
    placed := fun h => absurd rfl h
    identified := fun h => absurd rfl h }

theorem stale_not_approved (plan : TaskPlanState) (approval : Option PlanApproval)
    (reason : Text) (h : plan.approval = .approved ↔ approval.isSome) :
    (staleState plan approval reason).approval ≠ .approved := by
  cases approval with
  | none =>
    intro happroved
    exact absurd (h.mp happroved) (by simp)
  | some approval => simp [staleState]

theorem superseded_not_approved (approval : Option PlanApproval) (plan : TaskPlan C) :
    supersededApproval approval plan ≠ .approved := by
  rw [supersededApproval]
  split <;> simp

theorem unapproved_bound (planning : PlanLibrary C) (view : PlanView C)
    (hnone : view.planApproval = none) (hkind : view.plan.approval ≠ .approved)
    (hhistory : PlanHistory view.plans)
    (hplaced : view.plans ≠ [] → view.plan.state = .current ∨ view.plan.state = .stale)
    (hidentified : view.plans ≠ [] → view.plan.planId.isSome) : Bound planning view :=
  { approved := ⟨fun h => absurd h hkind, fun h => by rw [hnone] at h; cases h⟩
    names := fun approval h => by rw [hnone] at h; cases h
    history := hhistory
    placed := hplaced
    identified := hidentified }

theorem unplanned_unapproved (planning : PlanLibrary C) (view : PlanView C)
    (h : Bound planning view) (hplans : view.plans = []) : view.planApproval = none := by
  rw [Option.eq_none_iff_forall_ne_some]
  intro approval happroval
  obtain ⟨plan, hnames⟩ := h.names approval happroval
  have hlast := hnames.last
  rw [hplans] at hlast
  cases hlast

theorem renewal_bound (planning : PlanLibrary C) (view after : PlanView C)
    (h : Bound planning view) (hmove : Renewal view after) : Bound planning after := by
  cases hmove with
  | stays => exact h
  | revisedUnplanned contract hplans =>
    have hnone := unplanned_unapproved planning view h hplans
    refine unapproved_bound planning _ hnone ?_ h.history h.placed h.identified
    intro happroved
    have := h.approved.mp happroved
    rw [hnone] at this
    cases this
  | revised contract hplans =>
    exact unapproved_bound planning _ rfl (stale_not_approved _ _ _ h.approved) h.history
      (fun _ => .inr rfl) h.identified
  | stored plan hsequence bound =>
    exact unapproved_bound planning _ rfl (superseded_not_approved _ _)
      (history_store _ _ h.history hsequence) (fun _ => .inl rfl) fun _ => rfl
  | invalidated reason hplans =>
    exact unapproved_bound planning _ rfl (stale_not_approved _ _ _ h.approved) h.history
      (fun _ => .inr rfl) h.identified

theorem move_bound (planning : PlanLibrary C) (view after : PlanView C)
    (h : Bound planning view) (hmove : PlanMove planning view after) : Bound planning after := by
  cases hmove with
  | renewed _ hrenewal => exact renewal_bound planning view after h hrenewal
  | routed depth =>
    exact
      { approved := h.approved
        names := by
          intro approval happroval
          obtain ⟨plan, hnames⟩ := h.names approval happroval
          exact ⟨plan, { hnames with }⟩
        history := h.history
        placed := h.placed
        identified := h.identified }
  | approved plan approvedAt happrovable =>
    have hplans : view.plans ≠ [] := by
      intro hnil
      have hlast := happrovable.last
      rw [hnil] at hlast
      cases hlast
    have hcurrent := (h.placed hplans).resolve_right happrovable.fresh
    exact
      { approved := ⟨fun _ => rfl, fun _ => rfl⟩
        names := by
          intro approval happroval
          cases happroval
          exact ⟨plan, happrovable.last, rfl, rfl, rfl, hcurrent, happrovable.content,
            happrovable.revision, happrovable.digest⟩
        history := h.history
        placed := h.placed
        identified := h.identified }

theorem run_bound (env : Environment C) (calls : List (Clock × RuntimeCall C)) :
    ∀ record ∈ (run env calls).records, Bound env.planning (planView record) := by
  apply run_keeps env (fun record => Bound env.planning (planView record))
    (build_record_bound env.planning)
  intro clock record op h
  exact move_bound env.planning _ _ h (perform_plan_move env clock record op)

/-- In every record of every run, an approval names the last plan, current for the current
contract, and the stored plans are whole runs of revisions. -/
theorem approval_names_current_plan (env : Environment C)
    (calls : List (Clock × RuntimeCall C)) (record : TaskRecord C)
    (hr : record ∈ (run env calls).records) : ApprovalBinding env.planning (planView record) :=
  (run_bound env calls record hr).toApprovalBinding

def planningEnvironment : Environment Text where
  sha256Hex := fun _ => TaskCompletion.sampleDigest
  planning :=
    { validateContent := fun content _ _ => .ok content
      storedPlanDigest := .ok }

def lightPlan (revision : ℕ) : TaskPlan Text where
  id := "plan-task-1"
  revision := revision
  digest := TaskCompletion.sampleDigest
  taskId := TaskCompletion.taskName
  taskContractRevision := 1
  taskContractDigest := TaskCompletion.sampleDigest
  depth := .light
  content := TaskCompletion.sampleDigest
  createdAt := 0

/-- Two revisions of a plan; the second is approved. -/
def planningCalls : List (Clock × RuntimeCall Text) :=
  (fun _ => 0, .createTask
    { contract := TaskCompletion.sampleContract, steps := [], iteration := 0 }) ::
    [TaskOp.setPlan (lightPlan 1), .setPlan (lightPlan 2),
      .approvePlan "plan-task-1" 2].map fun op => (fun _ => 1, .task TaskCompletion.taskName op)

theorem planning_created : (run planningEnvironment planningCalls).records ≠ [] := by
  decide

theorem approval_names_second_revision :
    let record := (run planningEnvironment planningCalls).records.head planning_created
    record.planApproval = some (approvalOf (lightPlan 2) 1) ∧
      ApprovalBinding planningEnvironment.planning (planView record) :=
  ⟨by decide,
    approval_names_current_plan planningEnvironment planningCalls _ (List.head_mem _)⟩

end Siralos.PlanBinding
