import Siralos.PlanClosure

/-!
# What an accepted plan promises

Stored again it is the same plan, its references and ids hold, and which of its texts were
screened is known field by field.
-/

set_option autoImplicit false

namespace Siralos.PlanValidation

open Json Identity Contract TaskModel PlanContent

variable (toLowercase : Text → Text) (jsNumber : Number → Text)

structure Closed (context : PlanCandidateContext) (content : TaskPlanContent) : Prop where
  stored : validatePlanCandidate toLowercase jsNumber (contentCandidateValue content) context =
    .ok content
  touchpointReferences : ∀ step ∈ content.steps, ∀ reference ∈ step.expectedTouchpoints,
    ∃ touchpoint ∈ content.touchpoints, touchpoint.id = reference
  criterionReferences : ∀ step ∈ content.steps, ∀ references, step.verification = some references →
    ∀ reference ∈ references, ∃ criterion ∈ context.contract.acceptanceCriteria,
      criterion.id = reference
  touchpointIds : (content.touchpoints.map PlanTouchpoint.id).Nodup
  constraintIds : (content.constraints.map PlanConstraint.id).Nodup
  riskIds : (content.risks.map PlanRisk.id).Nodup
  stepIds : (content.steps.map PlanStep.id).Nodup
  verified : ∀ touchpoint ∈ content.touchpoints, touchpoint.confidence = .verified →
    ∃ revision, touchpoint.revision = some revision ∧ isValidRevisionHandle revision = true

/-- The texts of a content that neither screen looks at. -/
def unscreenedTexts (content : TaskPlanContent) : List Text :=
  content.scope.inScope ++ content.scope.outOfScope ++ content.nonGoals ++
    content.touchpoints.flatMap (fun t => t.note.toList) ++ content.risks.map PlanRisk.description ++
    content.steps.flatMap (fun s => s.description.toList) ++ content.validation.checks ++
    content.rollback.toList.map PlanRollbackStrategy.description ++ content.rationale.toList

/-- The texts that are screened for policy claims only. -/
def policyTexts (content : TaskPlanContent) : List Text :=
  content.constraints.map PlanConstraint.description ++ content.steps.map PlanStep.title ++
    content.validation.requirements.getD []

def contentTexts (content : TaskPlanContent) : List Text :=
  content.objective :: (policyTexts content ++ unscreenedTexts content)

structure Screened (text : Text) : Prop where
  policy : rejectPlanPolicyClaims toLowercase text = none
  secret : rejectSecretContent text = none

def stringsOf : Value → List Text
  | .string text => [text]
  | .array values => values.filterMap Value.asStr
  | _ => []

def textsAt (key : Text) (fields : List (Text × Value)) : List Text :=
  (fieldOf key fields).toList.flatMap stringsOf

def entryTexts (key : Text) : Value → List Text
  | .object fields => textsAt key fields
  | _ => []

/-- The texts under one key of a section, which is an object or an array of objects. -/
def memberTexts (name key : Text) (object : List (Text × Value)) : List Text :=
  match fieldOf name object with
  | some (.array entries) => entries.flatMap (entryTexts key)
  | some value => entryTexts key value
  | none => []

def unscreenedDocument (object : List (Text × Value)) : List Text :=
  memberTexts "scope" "inScope" object ++ memberTexts "scope" "outOfScope" object ++
    textsAt "nonGoals" object ++ memberTexts "touchpoints" "note" object ++
    memberTexts "risks" "description" object ++ memberTexts "steps" "description" object ++
    memberTexts "validation" "checks" object ++ memberTexts "rollback" "description" object ++
    textsAt "rationale" object

def policyDocument (object : List (Text × Value)) : List Text :=
  memberTexts "constraints" "description" object ++ memberTexts "steps" "title" object ++
    memberTexts "validation" "requirements" object

/-- The condition of the law: what validation leaves unscreened passes the screens by itself. -/
def ScreenedDocument (raw : Value) : Prop :=
  ∀ object, raw = .object object →
    (∀ text ∈ unscreenedDocument object, Screened toLowercase text) ∧
      ∀ text ∈ policyDocument object, rejectSecretContent text = none

/-- What an accepted document says, and what the checks of it have shown. -/
structure States (context : PlanCandidateContext) (object : List (Text × Value))
    (content : TaskPlanContent) : Prop where
  objective : fieldOf "objective" object = some (.string content.objective) ∧
    Screened toLowercase content.objective
  scope : ∃ fields, fieldOf "scope" object = some (.object fields) ∧
    ∀ key ∈ scopeKeys, fieldOf key fields = fieldOf key content.scope.candidateFields
  nonGoals : fieldOf "nonGoals" object = some (stringArray content.nonGoals) ∨
    fieldOf "nonGoals" object = none ∧ content.nonGoals = []
  touchpointIds : (content.touchpoints.map PlanTouchpoint.id).Nodup
  touchpoints : ∃ entries, fieldOf "touchpoints" object = some (.array entries) ∧
    List.Forall₂ (Says touchpointKeys checkTouchpoint PlanTouchpoint.candidateFields
      PlanTouchpoint.id) entries content.touchpoints
  constraintIds : (content.constraints.map PlanConstraint.id).Nodup
  constraints : fieldOf "constraints" object = none ∧ content.constraints = [] ∨
    ∃ entries, fieldOf "constraints" object = some (.array entries) ∧
      List.Forall₂ (Says constraintKeys (checkConstraint toLowercase)
        PlanConstraint.candidateFields PlanConstraint.id) entries content.constraints
  riskIds : (content.risks.map PlanRisk.id).Nodup
  risks : fieldOf "risks" object = none ∧ content.risks = [] ∨
    ∃ entries, fieldOf "risks" object = some (.array entries) ∧
      List.Forall₂ (Says riskKeys checkRisk PlanRisk.candidateFields PlanRisk.id) entries
        content.risks
  stepIds : (content.steps.map PlanStep.id).Nodup
  steps : ∃ entries, fieldOf "steps" object = some (.array entries) ∧
    List.Forall₂ (Says stepKeys (checkStep toLowercase
      (content.touchpoints.map PlanTouchpoint.id)
      (context.contract.acceptanceCriteria.map AcceptanceCriterion.id))
      PlanStep.candidateFields PlanStep.id) entries content.steps
  requirements : ∀ texts, content.validation.requirements = some texts → ∀ text ∈ texts,
    rejectPlanPolicyClaims toLowercase text = none
  validation : ∃ fields, fieldOf "validation" object = some (.object fields) ∧
    ∀ key ∈ validationKeys, fieldOf key fields = fieldOf key content.validation.candidateFields
  rollback : fieldOf "rollback" object = none ∧ content.rollback = none ∨
    ∃ fields rollback, fieldOf "rollback" object = some (.object fields) ∧
      content.rollback = some rollback ∧
      fieldOf "description" fields = some (.string rollback.description)
  rationale : fieldOf "rationale" object = content.rationale.map .string

/-- Every section of the document passes its check and gives the content's part. -/
structure Passed (context : PlanCandidateContext) (object : List (Text × Value))
    (content : TaskPlanContent) : Prop where
  depth : checkDepth context.depth object = []
  objective : checkObjective toLowercase object = ⟨[], some content.objective⟩
  scope : checkScope context.depth object = ⟨[], some content.scope⟩
  nonGoals : checkNonGoals context.depth object = ⟨[], content.nonGoals⟩
  touchpoints : checkTouchpoints object =
    ⟨[], content.touchpoints.map PlanTouchpoint.id, content.touchpoints⟩
  constraints : checkConstraints toLowercase object =
    ⟨[], content.constraints.map PlanConstraint.id, content.constraints⟩
  risks : checkRisks object = ⟨[], content.risks.map PlanRisk.id, content.risks⟩
  stepReasons : (checkSteps toLowercase context.depth (content.touchpoints.map PlanTouchpoint.id)
    (context.contract.acceptanceCriteria.map AcceptanceCriterion.id) object).reasons = []
  steps : (checkSteps toLowercase context.depth (content.touchpoints.map PlanTouchpoint.id)
    (context.contract.acceptanceCriteria.map AcceptanceCriterion.id) object).values = content.steps
  validation : checkValidation toLowercase object = ⟨[], some content.validation⟩
  rollback : checkRollback object = ⟨[], content.rollback⟩
  rationale : checkRationale object = ⟨[], content.rationale⟩

section Passed

variable {toLowercase} {context : PlanCandidateContext} {object : List (Text × Value)}
  {content : TaskPlanContent}

theorem checked_eq {α : Type} {checked : Checked α} {value : α} (hreasons : checked.reasons = [])
    (hvalue : checked.value = value) : checked = ⟨[], value⟩ := by
  rw [← hreasons, ← hvalue]

theorem collected_eq {α : Type} {collected : Collected α} {ids : List Text} {values : List α}
    (hreasons : collected.reasons = []) (hids : collected.ids = ids)
    (hvalues : collected.values = values) : collected = ⟨[], ids, values⟩ := by
  rw [← hreasons, ← hids, ← hvalues]

theorem accepted_passed
    (h : validatePlanCandidate toLowercase jsNumber (.object object) context = .ok content) :
    Passed toLowercase context object content := by
  obtain ⟨_, hreasons, _, hbuild⟩ := (accepted_iff _ _ _ _ _).mp h
  rw [build_content_ok] at hbuild
  obtain ⟨b₁, b₂, b₃, b₄, b₅, b₆, b₇, b₈, b₉, b₁₀⟩ := hbuild
  unfold checkSections at hreasons b₁ b₂ b₃ b₄ b₅ b₆ b₇ b₈ b₉ b₁₀
  dsimp only at hreasons b₁ b₂ b₃ b₄ b₅ b₆ b₇ b₈ b₉ b₁₀
  simp only [List.append_eq_nil_iff] at hreasons
  obtain ⟨⟨⟨⟨⟨⟨⟨⟨⟨⟨r₀, r₁⟩, r₂⟩, r₃⟩, r₄⟩, r₅⟩, r₆⟩, r₇⟩, r₈⟩, r₉⟩, r₁₀⟩ := hreasons
  obtain ⟨-, hids, -⟩ := touchpoints_ok r₄ (b₄ ▸ (content_fields content).touchpoints)
  obtain ⟨constraints, hconstraints, -⟩ :=
    optional_ok (constraint_rebuilds toLowercase) "constraint" _ _ _ r₅
  obtain ⟨risks, hrisks, -⟩ := optional_ok risk_rebuilds "risk" _ _ _ r₆
  have hconstraintsSame : constraints = content.constraints := by
    rw [← b₅, checkConstraints, hconstraints]
  have hrisksSame : risks = content.risks := by
    rw [← b₆, checkRisks, hrisks]
  subst hconstraintsSame hrisksSame
  rw [b₄] at hids
  rw [hids] at r₇ b₇
  exact ⟨r₀, checked_eq r₁ b₁, checked_eq r₂ b₂, checked_eq r₃ b₃, collected_eq r₄ hids b₄,
    hconstraints, hrisks, r₇, b₇, checked_eq r₈ b₈, checked_eq r₉ b₉, checked_eq r₁₀ b₁₀⟩

theorem Passed.non_goals (h : Passed toLowercase context object content) :
    checkNonGoals context.depth (contentCandidateFields content) = ⟨[], content.nonGoals⟩ ∧
      (fieldOf "nonGoals" object = some (stringArray content.nonGoals) ∨
        fieldOf "nonGoals" object = none ∧ content.nonGoals = []) := by
  have hvalue : (checkNonGoals context.depth object).value = content.nonGoals :=
    congrArg Checked.value h.nonGoals
  have hok := non_goals_ok context.depth (congrArg Checked.reasons h.nonGoals)
    (hvalue ▸ (content_fields content).nonGoals)
  rwa [hvalue] at hok

theorem Passed.touchpoints_say (h : Passed toLowercase context object content) :
    checkTouchpoints (contentCandidateFields content) = checkTouchpoints object ∧
      (content.touchpoints.map PlanTouchpoint.id).Nodup ∧ ∃ entries,
        fieldOf "touchpoints" object = some (.array entries) ∧
          List.Forall₂ (Says touchpointKeys checkTouchpoint PlanTouchpoint.candidateFields
            PlanTouchpoint.id) entries content.touchpoints := by
  have hvalues : (checkTouchpoints object).values = content.touchpoints :=
    congrArg Collected.values h.touchpoints
  have hids : (checkTouchpoints object).ids = content.touchpoints.map PlanTouchpoint.id :=
    congrArg Collected.ids h.touchpoints
  obtain ⟨hagain, -, hnodup, hsays⟩ := touchpoints_ok (congrArg Collected.reasons h.touchpoints)
    (hvalues ▸ (content_fields content).touchpoints)
  rw [hids] at hnodup
  rw [hvalues] at hsays
  exact ⟨hagain, hnodup, hsays⟩

theorem optional_rebuilt {α : Type} {keys : List Text}
    {check : Text → List (Text × Value) → Checked (Option α)}
    {toFields : α → List (Text × Value)} {idOf : α → Text} (h : Rebuilds keys check toFields idOf)
    (kind reason : Text) (max : ℕ) (value : Option Value) (values : List α)
    (hpassed : collectOptional value max reason (identifiedEntry kind check) =
      ⟨[], values.map idOf, values⟩) :
    (values.map idOf).Nodup ∧
      collectOptional (some (objectsOf toFields values)) max reason (identifiedEntry kind check) =
        ⟨[], values.map idOf, values⟩ ∧
      (value = none ∧ values = [] ∨ ∃ entries, value = some (.array entries) ∧
        List.Forall₂ (Says keys check toFields idOf) entries values) := by
  obtain ⟨found, hfound, hrest⟩ := optional_ok h kind reason max value
    (congrArg Collected.reasons hpassed)
  have hsame : found = values := congrArg Collected.values (hfound.symm.trans hpassed)
  subst hsame
  exact hrest

theorem Passed.steps_say (h : Passed toLowercase context object content) :
    checkSteps toLowercase context.depth (content.touchpoints.map PlanTouchpoint.id)
        (context.contract.acceptanceCriteria.map AcceptanceCriterion.id)
        (contentCandidateFields content) =
      checkSteps toLowercase context.depth (content.touchpoints.map PlanTouchpoint.id)
        (context.contract.acceptanceCriteria.map AcceptanceCriterion.id) object ∧
      (content.steps.map PlanStep.id).Nodup ∧ ∃ entries,
        fieldOf "steps" object = some (.array entries) ∧
          List.Forall₂ (Says stepKeys (checkStep toLowercase
            (content.touchpoints.map PlanTouchpoint.id)
            (context.contract.acceptanceCriteria.map AcceptanceCriterion.id))
            PlanStep.candidateFields PlanStep.id) entries content.steps := by
  have hok := steps_ok toLowercase context.depth _ _ h.stepReasons
    (h.steps ▸ (content_fields content).steps)
  rwa [h.steps] at hok

theorem Passed.validation_says (h : Passed toLowercase context object content) :
    checkValidation toLowercase (contentCandidateFields content) =
        ⟨[], some content.validation⟩ ∧
      (∀ texts, content.validation.requirements = some texts → ∀ text ∈ texts,
        rejectPlanPolicyClaims toLowercase text = none) ∧
      ∃ fields, fieldOf "validation" object = some (.object fields) ∧
        ∀ key ∈ validationKeys,
          fieldOf key fields = fieldOf key content.validation.candidateFields :=
  validation_ok toLowercase content.validation (congrArg Checked.reasons h.validation)
    (congrArg Checked.value h.validation) (content_fields content).validation

theorem Passed.rollback_says (h : Passed toLowercase context object content) :
    checkRollback (contentCandidateFields content) = ⟨[], content.rollback⟩ ∧
      (fieldOf "rollback" object = none ∧ content.rollback = none ∨
        ∃ fields rollback, fieldOf "rollback" object = some (.object fields) ∧
          content.rollback = some rollback ∧
          fieldOf "description" fields = some (.string rollback.description)) := by
  have hvalue : (checkRollback object).value = content.rollback :=
    congrArg Checked.value h.rollback
  have hok := rollback_ok (congrArg Checked.reasons h.rollback)
    (hvalue ▸ (content_fields content).rollback)
  rwa [hvalue] at hok

theorem Passed.states (h : Passed toLowercase context object content) :
    States toLowercase context object content where
  objective := by
    obtain ⟨hobjective, hpolicy, hsecret⟩ := objective_ok toLowercase content.objective
      (congrArg Checked.reasons h.objective) (congrArg Checked.value h.objective)
    exact ⟨hobjective, hpolicy, hsecret⟩
  scope := (scope_ok context.depth content.scope (congrArg Checked.reasons h.scope)
    (congrArg Checked.value h.scope) (content_fields content).scope).2
  nonGoals := h.non_goals.2
  touchpointIds := h.touchpoints_say.2.1
  touchpoints := h.touchpoints_say.2.2
  constraintIds := (optional_rebuilt (constraint_rebuilds toLowercase) "constraint" _ _ _ _
    h.constraints).1
  constraints := (optional_rebuilt (constraint_rebuilds toLowercase) "constraint" _ _ _ _
    h.constraints).2.2
  riskIds := (optional_rebuilt risk_rebuilds "risk" _ _ _ _ h.risks).1
  risks := (optional_rebuilt risk_rebuilds "risk" _ _ _ _ h.risks).2.2
  stepIds := h.steps_say.2.1
  steps := h.steps_say.2.2
  requirements := h.validation_says.2.1
  validation := h.validation_says.2.2
  rollback := h.rollback_says.2
  rationale := by
    have hsays := optional_text_ok _ _ _ (congrArg Checked.reasons h.rationale)
    rwa [← checkRationale, h.rationale] at hsays

theorem Passed.again (h : Passed toLowercase context object content) :
    Passed toLowercase context (contentCandidateFields content) content where
  depth := by rw [checkDepth, (content_fields content).depth]
  objective := by
    rw [checkObjective, (content_fields content).objective, ← h.states.objective.1,
      ← checkObjective]
    exact h.objective
  scope := (scope_ok context.depth content.scope (congrArg Checked.reasons h.scope)
    (congrArg Checked.value h.scope) (content_fields content).scope).1
  nonGoals := h.non_goals.1
  touchpoints := h.touchpoints_say.1.trans h.touchpoints
  constraints := by
    rw [checkConstraints, (content_fields content).constraints]
    exact (optional_rebuilt (constraint_rebuilds toLowercase) "constraint" _ _ _ _
      h.constraints).2.1
  risks := by
    rw [checkRisks, (content_fields content).risks]
    exact (optional_rebuilt risk_rebuilds "risk" _ _ _ _ h.risks).2.1
  stepReasons := by
    rw [h.steps_say.1]
    exact h.stepReasons
  steps := by
    rw [h.steps_say.1]
    exact h.steps
  validation := h.validation_says.1
  rollback := h.rollback_says.1
  rationale := by
    rw [checkRationale, (content_fields content).rationale, ← h.states.rationale,
      ← checkRationale]
    exact h.rationale

theorem Passed.builds (h : Passed toLowercase context object content) :
    (checkSections toLowercase context object).reasons = [] ∧
      buildContent (checkSections toLowercase context object) = .ok content := by
  rw [build_content_ok]
  unfold checkSections
  dsimp only
  rw [h.depth, h.objective, h.scope, h.nonGoals, h.touchpoints, h.constraints, h.risks,
    h.stepReasons, h.steps, h.validation, h.rollback, h.rationale]
  simp

end Passed

section Smaller

variable {toLowercase} {context : PlanCandidateContext} {object : List (Text × Value)}
  {content : TaskPlanContent}

theorem agreeing_size (keys : List Text) (fields fields' : List (Text × Value))
    (hsub : (fields'.map Prod.fst).Sublist keys) (hkeys : keys.Nodup)
    (h : ∀ key ∈ keys, fieldOf key fields = fieldOf key fields') :
    sizeOf jsNumber (.object fields') ≤ sizeOf jsNumber (.object fields) := by
  have hdistinct := hsub.nodup hkeys
  apply object_size_le jsNumber fields fields' hdistinct
  intro key value hmem
  rw [h key (hsub.subset (List.mem_map.mpr ⟨_, hmem, rfl⟩))]
  exact field_of_mem key fields' value hdistinct hmem

theorem empty_array_size : sizeOf jsNumber (.array []) ≤ sizeOf jsNumber .null := by
  change Text.utf8Len ('[' :: [','].intercalate [] ++ [']']) ≤ Text.utf8Len "null"
  decide

theorem States.size (h : States toLowercase context object content) :
    aggregateCandidateBytes jsNumber (contentCandidateFields content) ≤
      aggregateCandidateBytes jsNumber object := by
  have hfields := content_fields content
  apply aggregate_le
  intro key hkey
  simp only [aggregateKeys, List.mem_cons, List.not_mem_nil, or_false] at hkey
  rcases hkey with rfl | rfl | rfl | rfl | rfl | rfl | rfl | rfl | rfl | rfl
  · rw [hfields.objective, h.objective.1]
  · obtain ⟨fields, hscope, hsame⟩ := h.scope
    rw [hfields.scope, hscope]
    exact agreeing_size jsNumber scopeKeys fields _ (List.Sublist.refl scopeKeys) (by decide) hsame
  · rw [hfields.nonGoals]
    rcases h.nonGoals with hpresent | ⟨hnone, hempty⟩
    · rw [hpresent]
    · rw [hnone, hempty]
      exact empty_array_size jsNumber
  · obtain ⟨entries, htouchpoints, hsaid⟩ := h.touchpoints
    rw [hfields.touchpoints, htouchpoints]
    exact objects_size touchpoint_rebuilds jsNumber entries _ hsaid
  · rw [hfields.constraints]
    rcases h.constraints with ⟨hnone, hempty⟩ | ⟨entries, hconstraints, hsaid⟩
    · rw [hnone, hempty]
      exact empty_array_size jsNumber
    · rw [hconstraints]
      exact objects_size (constraint_rebuilds toLowercase) jsNumber entries _ hsaid
  · rw [hfields.risks]
    rcases h.risks with ⟨hnone, hempty⟩ | ⟨entries, hrisks, hsaid⟩
    · rw [hnone, hempty]
      exact empty_array_size jsNumber
    · rw [hrisks]
      exact objects_size risk_rebuilds jsNumber entries _ hsaid
  · obtain ⟨entries, hsteps, hsaid⟩ := h.steps
    rw [hfields.steps, hsteps]
    exact objects_size (step_rebuilds toLowercase _ _) jsNumber entries _ hsaid
  · obtain ⟨fields, hvalidation, hsame⟩ := h.validation
    rw [hfields.validation, hvalidation]
    refine agreeing_size jsNumber validationKeys fields _ ?_ (by decide) hsame
    cases hrequirements : content.validation.requirements <;>
      simp [PlanValidationStrategy.candidateFields, hrequirements, member, optionalField,
        validationKeys]
  · rw [hfields.rollback]
    rcases h.rollback with ⟨hnone, hempty⟩ | ⟨fields, rollback, hrollback, hsome, hdescription⟩
    · rw [hnone, hempty]
      exact le_refl _
    · rw [hrollback, hsome]
      refine agreeing_size jsNumber ["description"] fields rollback.candidateFields
        (List.Sublist.refl _) (by decide) ?_
      intro key hkey
      rw [List.mem_singleton] at hkey
      rw [hkey]
      exact hdescription
  · rw [hfields.rationale, h.rationale]

end Smaller

section Promises

variable {toLowercase} {context : PlanCandidateContext} {object : List (Text × Value)}
  {content : TaskPlanContent}

theorem says_of_mem {α : Type} {R : Value → α → Prop} {entries : List Value} {values : List α}
    (h : List.Forall₂ R entries values) (v : α) (hv : v ∈ values) : ∃ entry, R entry v := by
  obtain ⟨entry, -, hentry⟩ := Keyed.aligned_left h v hv
  exact ⟨entry, hentry⟩

theorem touchpoint_verified (entry : Value) (t : PlanTouchpoint)
    (h : Says touchpointKeys checkTouchpoint PlanTouchpoint.candidateFields PlanTouchpoint.id
      entry t) (hverified : t.confidence = .verified) :
    ∃ revision, t.revision = some revision ∧ isValidRevisionHandle revision = true := by
  obtain ⟨fields, rfl, hchecked, hsame⟩ := h
  have hid : fieldOf "id" fields = some (.string t.id) :=
    (hsame "id" touchpoint_rebuilds.identified).trans (touchpoint_fields t).1
  obtain ⟨kept, hkept, -, hhandle, -⟩ := touchpoint_kept t.id fields hid (by rw [hchecked])
  rw [hchecked] at hkept
  cases hkept
  exact hhandle hverified

theorem step_checked (touchpointIds criterionIds : List Text) (entry : Value) (s : PlanStep)
    (h : Says stepKeys (checkStep toLowercase touchpointIds criterionIds) PlanStep.candidateFields
      PlanStep.id entry s) : StepChecked toLowercase touchpointIds criterionIds s := by
  obtain ⟨fields, rfl, hchecked, hsame⟩ := h
  have hid : fieldOf "id" fields = some (.string s.id) :=
    (hsame "id" (step_rebuilds toLowercase touchpointIds criterionIds).identified).trans
      (step_fields s).1
  obtain ⟨kept, hkept, -, hstep, -⟩ := step_kept toLowercase touchpointIds criterionIds s.id fields
    hid (by rw [hchecked])
  rw [hchecked] at hkept
  cases hkept
  exact hstep

theorem constraint_screened (entry : Value) (c : PlanConstraint)
    (h : Says constraintKeys (checkConstraint toLowercase) PlanConstraint.candidateFields
      PlanConstraint.id entry c) : rejectPlanPolicyClaims toLowercase c.description = none := by
  obtain ⟨fields, rfl, hchecked, hsame⟩ := h
  obtain ⟨kept, hkept, -, hclaim, -⟩ := constraint_kept toLowercase c.id fields
    (hsame "id" (constraint_rebuilds toLowercase).identified) (by rw [hchecked])
  rw [hchecked] at hkept
  cases hkept
  exact hclaim

theorem accepted_closed (h : validatePlanCandidate toLowercase jsNumber (.object object) context =
    .ok content) : Closed toLowercase jsNumber context content := by
  have hpassed := accepted_passed jsNumber h
  have hstates := hpassed.states
  obtain ⟨hreasons, hbuild⟩ := hpassed.again.builds
  obtain ⟨hdepth, -, hbytes, -⟩ := (accepted_iff _ _ _ _ _).mp h
  obtain ⟨entries, -, hsteps⟩ := hstates.steps
  refine ⟨?_, ?_, ?_, hstates.touchpointIds, hstates.constraintIds, hstates.riskIds,
    hstates.stepIds, ?_⟩
  · exact (accepted_iff _ _ _ _ _).mpr ⟨hdepth, hreasons,
      (hstates.size jsNumber).trans hbytes, hbuild⟩
  · intro step hstep reference hreference
    obtain ⟨entry, hsaid⟩ := says_of_mem hsteps step hstep
    exact List.mem_map.mp ((step_checked _ _ entry step hsaid).expected reference hreference)
  · intro step hstep references hsome reference hreference
    obtain ⟨entry, hsaid⟩ := says_of_mem hsteps step hstep
    exact List.mem_map.mp
      ((step_checked _ _ entry step hsaid).verification references hsome reference hreference)
  · intro touchpoint htouchpoint hverified
    obtain ⟨others, -, htouchpoints⟩ := hstates.touchpoints
    obtain ⟨entry, hsaid⟩ := says_of_mem htouchpoints touchpoint htouchpoint
    exact touchpoint_verified entry touchpoint hsaid hverified

/-- Policy claims are looked for in the objective, the constraints, the step titles and the
requirements. -/
theorem States.policy (h : States toLowercase context object content) :
    ∀ text ∈ policyTexts content, rejectPlanPolicyClaims toLowercase text = none := by
  intro text htext
  unfold policyTexts at htext
  rw [List.mem_append, List.mem_append] at htext
  rcases htext with (hconstraint | htitle) | hrequirement
  · obtain ⟨c, hc, rfl⟩ := List.mem_map.mp hconstraint
    rcases h.constraints with ⟨-, hempty⟩ | ⟨entries, -, hsaid⟩
    · rw [hempty] at hc
      cases hc
    · obtain ⟨entry, hentry⟩ := says_of_mem hsaid c hc
      exact constraint_screened entry c hentry
  · obtain ⟨s, hs, rfl⟩ := List.mem_map.mp htitle
    obtain ⟨entries, -, hsaid⟩ := h.steps
    obtain ⟨entry, hentry⟩ := says_of_mem hsaid s hs
    exact (step_checked _ _ entry s hentry).title
  · cases hrequirements : content.validation.requirements with
    | none =>
      rw [hrequirements] at hrequirement
      cases hrequirement
    | some texts =>
      rw [hrequirements] at hrequirement
      exact h.requirements texts hrequirements text hrequirement

end Promises

section Texts

variable {toLowercase} {context : PlanCandidateContext} {object : List (Text × Value)}
  {content : TaskPlanContent}

theorem texts_of_string (key : Text) (fields : List (Text × Value)) (text : Option Text)
    (h : fieldOf key fields = text.map .string) : textsAt key fields = text.toList := by
  rw [textsAt, h]
  cases text <;> rfl

theorem texts_of_array (key : Text) (fields : List (Text × Value)) (texts : Option (List Text))
    (h : fieldOf key fields = texts.map stringArray) : textsAt key fields = texts.getD [] := by
  rw [textsAt, h]
  cases texts with
  | none => rfl
  | some texts =>
    rw [Option.map_some, Option.toList_some, List.flatMap_singleton]
    exact string_list_array texts

theorem says_texts {α : Type} {keys : List Text}
    {check : Text → List (Text × Value) → Checked (Option α)}
    {toFields : α → List (Text × Value)} {idOf : α → Text} {entries : List Value}
    {values : List α} (h : List.Forall₂ (Says keys check toFields idOf) entries values)
    (key : Text) (hkey : key ∈ keys) (texts : α → List Text)
    (htexts : ∀ v, textsAt key (toFields v) = texts v) :
    entries.flatMap (entryTexts key) = values.flatMap texts := by
  induction h with
  | nil => rfl
  | cons hsaid hrest ih =>
    rename_i entry v entries values
    obtain ⟨fields, rfl, -, hsame⟩ := hsaid
    have hentry : entryTexts key (.object fields) = texts v := by
      rw [← htexts, entryTexts, textsAt, textsAt, hsame key hkey]
    rw [List.flatMap_cons, List.flatMap_cons, ih, hentry]

theorem member_object (name key : Text) (fields : List (Text × Value))
    (h : fieldOf name object = some (.object fields)) :
    memberTexts name key object = textsAt key fields := by
  rw [memberTexts, h]
  rfl

theorem member_array (name key : Text) (entries : List Value)
    (h : fieldOf name object = some (.array entries)) :
    memberTexts name key object = entries.flatMap (entryTexts key) := by
  rw [memberTexts, h]

theorem member_none (name key : Text) (h : fieldOf name object = none) :
    memberTexts name key object = [] := by
  rw [memberTexts, h]

theorem flat_map_singletons {α : Type} (f : α → Text) (values : List α) :
    values.flatMap (fun v => [f v]) = values.map f := by
  rw [← List.map_eq_flatMap]

theorem States.unscreened (h : States toLowercase context object content) :
    unscreenedDocument object = unscreenedTexts content := by
  obtain ⟨scope, hscope, hscopeSame⟩ := h.scope
  obtain ⟨touchpoints, htouchpoints, htouchpointsSay⟩ := h.touchpoints
  obtain ⟨steps, hsteps, hstepsSay⟩ := h.steps
  obtain ⟨validation, hvalidation, hvalidationSame⟩ := h.validation
  have hin : memberTexts "scope" "inScope" object = content.scope.inScope := by
    rw [member_object _ _ scope hscope]
    exact texts_of_array _ _ (some content.scope.inScope) (hscopeSame _ (by simp [scopeKeys]))
  have hout : memberTexts "scope" "outOfScope" object = content.scope.outOfScope := by
    rw [member_object _ _ scope hscope]
    exact texts_of_array _ _ (some content.scope.outOfScope) (hscopeSame _ (by simp [scopeKeys]))
  have hnonGoals : textsAt "nonGoals" object = content.nonGoals := by
    rcases h.nonGoals with hpresent | ⟨hnone, hempty⟩
    · exact texts_of_array _ _ (some content.nonGoals) hpresent
    · rw [hempty]
      exact texts_of_array _ _ none hnone
  have hnotes : memberTexts "touchpoints" "note" object =
      content.touchpoints.flatMap fun t => t.note.toList := by
    rw [member_array _ _ touchpoints htouchpoints]
    exact says_texts htouchpointsSay "note" (by simp [touchpointKeys]) _ fun t =>
      texts_of_string _ _ t.note (touchpoint_fields t).2.2.2.2.2
  have hrisks : memberTexts "risks" "description" object = content.risks.map PlanRisk.description := by
    rcases h.risks with ⟨hnone, hempty⟩ | ⟨entries, hrisks, hsaid⟩
    · rw [member_none _ _ hnone, hempty, List.map_nil]
    · rw [member_array _ _ entries hrisks, ← flat_map_singletons]
      exact says_texts hsaid "description" (by simp [riskKeys]) _ fun r =>
        texts_of_string _ _ (some r.description) rfl
  have hdescriptions : memberTexts "steps" "description" object =
      content.steps.flatMap fun s => s.description.toList := by
    rw [member_array _ _ steps hsteps]
    exact says_texts hstepsSay "description" (by simp [stepKeys]) _ fun s =>
      texts_of_string _ _ s.description (step_fields s).2.2.1
  have hchecks : memberTexts "validation" "checks" object = content.validation.checks := by
    rw [member_object _ _ validation hvalidation]
    exact texts_of_array _ _ (some content.validation.checks)
      ((hvalidationSame _ (by simp [validationKeys])).trans (validation_fields _).1)
  have hrollback : memberTexts "rollback" "description" object =
      content.rollback.toList.map PlanRollbackStrategy.description := by
    rcases h.rollback with ⟨hnone, hempty⟩ | ⟨fields, rollback, hrollback, hsome, hdescription⟩
    · rw [member_none _ _ hnone, hempty]
      rfl
    · rw [member_object _ _ fields hrollback, hsome]
      exact texts_of_string _ _ (some rollback.description) hdescription
  have hrationale : textsAt "rationale" object = content.rationale.toList :=
    texts_of_string _ _ content.rationale h.rationale
  rw [unscreenedDocument, unscreenedTexts, hin, hout, hnonGoals, hnotes, hrisks, hdescriptions,
    hchecks, hrollback, hrationale]

theorem States.policy_texts (h : States toLowercase context object content) :
    policyDocument object = policyTexts content := by
  obtain ⟨steps, hsteps, hstepsSay⟩ := h.steps
  obtain ⟨validation, hvalidation, hvalidationSame⟩ := h.validation
  have hconstraints : memberTexts "constraints" "description" object =
      content.constraints.map PlanConstraint.description := by
    rcases h.constraints with ⟨hnone, hempty⟩ | ⟨entries, hconstraints, hsaid⟩
    · rw [member_none _ _ hnone, hempty, List.map_nil]
    · rw [member_array _ _ entries hconstraints, ← flat_map_singletons]
      exact says_texts hsaid "description" (by simp [constraintKeys]) _ fun c =>
        texts_of_string _ _ (some c.description) rfl
  have htitles : memberTexts "steps" "title" object = content.steps.map PlanStep.title := by
    rw [member_array _ _ steps hsteps, ← flat_map_singletons]
    exact says_texts hstepsSay "title" (by simp [stepKeys]) _ fun s =>
      texts_of_string _ _ (some s.title) (step_fields s).2.1
  have hrequirements : memberTexts "validation" "requirements" object =
      content.validation.requirements.getD [] := by
    rw [member_object _ _ validation hvalidation]
    exact texts_of_array _ _ content.validation.requirements
      ((hvalidationSame _ (by simp [validationKeys])).trans (validation_fields _).2)
  rw [policyDocument, policyTexts, hconstraints, htitles, hrequirements]

end Texts

/-- An accepted plan is closed under storage, and all its texts pass the screens exactly when the
ones that validation leaves out do. -/
theorem storage_iff (context : PlanCandidateContext) (raw : Value) (content : TaskPlanContent)
    (h : validatePlanCandidate toLowercase jsNumber raw context = .ok content) :
    (Closed toLowercase jsNumber context content ∧
      ∀ text ∈ contentTexts content, Screened toLowercase text) ↔
      ScreenedDocument toLowercase raw := by
  obtain ⟨object, rfl⟩ := accepted_object toLowercase jsNumber raw context content h
  have hstates := (accepted_passed jsNumber h).states
  constructor
  · rintro ⟨-, hscreened⟩ other ⟨⟩
    rw [hstates.unscreened, hstates.policy_texts]
    constructor
    · intro text htext
      exact hscreened text (by simp [contentTexts, htext])
    · intro text htext
      exact (hscreened text (by simp [contentTexts, htext])).secret
  · intro hdocument
    obtain ⟨hboth, hsecret⟩ := hdocument object rfl
    rw [hstates.unscreened] at hboth
    rw [hstates.policy_texts] at hsecret
    refine ⟨accepted_closed jsNumber h, ?_⟩
    intro text htext
    unfold contentTexts at htext
    rw [List.mem_cons, List.mem_append] at htext
    rcases htext with rfl | hpolicy | hunscreened
    · exact hstates.objective.2
    · exact ⟨hstates.policy text hpolicy, hsecret text hpolicy⟩
    · exact hboth text hunscreened

def sampleRationale : Text := "allow network access"

/-- The sample candidate with a rationale that claims a capability. -/
def sampleClaiming : Value :=
  .object (contentCandidateFields { sampleContent with rationale := some sampleRationale })

theorem claiming_accepted : validatePlanCandidate asciiLowercase (fun _ => []) sampleClaiming
    sampleContext = .ok { sampleContent with rationale := some sampleRationale } := by
  decide +kernel

theorem storage_sample :
    (Closed asciiLowercase (fun _ => []) sampleContext sampleContent ∧
      ∀ text ∈ contentTexts sampleContent, Screened asciiLowercase text) ↔
      ScreenedDocument asciiLowercase sampleCandidate :=
  storage_iff asciiLowercase (fun _ => []) sampleContext sampleCandidate sampleContent
    sample_accepted

theorem storage_fails :
    ¬ ∀ (toLowercase : Text → Text) (jsNumber : Number → Text) (context : PlanCandidateContext)
      (raw : Value) (content : TaskPlanContent),
      validatePlanCandidate toLowercase jsNumber raw context = .ok content →
      Closed toLowercase jsNumber context content ∧
        ∀ text ∈ contentTexts content, Screened toLowercase text := by
  intro h
  have hscreened := (h asciiLowercase (fun _ => []) sampleContext sampleClaiming _
    claiming_accepted).2 sampleRationale (by simp [contentTexts, unscreenedTexts])
  have hclaim := hscreened.policy
  revert hclaim
  decide +kernel

end Siralos.PlanValidation
