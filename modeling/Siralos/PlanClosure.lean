import Siralos.PlanStorage

/-!
# Closure of accepted plans

The sections of an accepted candidate, read back one by one, and the whole document built from
them again.
-/

set_option autoImplicit false

namespace Siralos.PlanValidation

open Json Identity Contract TaskModel PlanContent

structure Rebuilt (content : TaskPlanContent) (fields : List (Text × Value)) : Prop where
  depth : fieldOf "depth" fields = none
  objective : fieldOf "objective" fields = some (.string content.objective)
  scope : fieldOf "scope" fields = some (.object content.scope.candidateFields)
  nonGoals : fieldOf "nonGoals" fields = some (stringArray content.nonGoals)
  touchpoints : fieldOf "touchpoints" fields =
    some (objectsOf PlanTouchpoint.candidateFields content.touchpoints)
  constraints : fieldOf "constraints" fields =
    some (objectsOf PlanConstraint.candidateFields content.constraints)
  risks : fieldOf "risks" fields = some (objectsOf PlanRisk.candidateFields content.risks)
  steps : fieldOf "steps" fields = some (objectsOf PlanStep.candidateFields content.steps)
  validation : fieldOf "validation" fields = some (.object content.validation.candidateFields)
  rollback : fieldOf "rollback" fields =
    content.rollback.map fun rollback => .object rollback.candidateFields
  rationale : fieldOf "rationale" fields = content.rationale.map .string

theorem content_fields (content : TaskPlanContent) :
    Rebuilt content (contentCandidateFields content) := by
  obtain ⟨objective, scope, nonGoals, touchpoints, constraints, risks, steps, validation, rollback,
    rationale⟩ := content
  cases rollback <;> cases rationale <;>
    exact ⟨rfl, rfl, rfl, rfl, rfl, rfl, rfl, rfl, rfl, rfl, rfl⟩

section Sections

variable (toLowercase : Text → Text) (depth : PlanningDepth) {object object' : List (Text × Value)}

theorem objective_ok (text : Text) (hreasons : (checkObjective toLowercase object).reasons = [])
    (hvalue : (checkObjective toLowercase object).value = some text) :
    fieldOf "objective" object = some (.string text) ∧
      rejectPlanPolicyClaims toLowercase text = none ∧ rejectSecretContent text = none := by
  unfold checkObjective at hreasons hvalue
  cases hfield : nonEmptyString (fieldOf "objective" object) with
  | none =>
    rw [hfield] at hreasons
    cases hreasons
  | some found =>
    rw [hfield] at hreasons hvalue
    dsimp only at hreasons hvalue
    split at hreasons
    · cases hreasons
    · rename_i hbounded
      rw [if_neg hbounded] at hvalue
      cases hvalue
      rw [List.append_eq_nil_iff, Option.toList_eq_nil_iff, Option.toList_eq_nil_iff] at hreasons
      have hpresent : (nonEmptyString (fieldOf "objective" object)).filter (fun _ => true) =
          some text := by
        rw [hfield]
        rfl
      exact ⟨((non_empty_filter _ _ _).mp hpresent).1, hreasons⟩

theorem scope_reasons_nil (name : Text) (value : Option Value)
    (h : scopeReasons name value = []) : value = some (stringArray (stringList value)) := by
  unfold scopeReasons at h
  cases htexts : boundedTexts value PlanningLimits.maxScopeEntries with
  | none =>
    rw [htexts] at h
    cases h
  | some texts =>
    obtain ⟨rfl, -⟩ := (bounded_texts _ _ _).mp htexts
    rw [string_list_array]

def scopeKeys : List Text := ["inScope", "outOfScope"]

theorem scope_ok (scope : PlanScope) (hreasons : (checkScope depth object).reasons = [])
    (hvalue : (checkScope depth object).value = some scope)
    (hagain : fieldOf "scope" object' = some (.object scope.candidateFields)) :
    checkScope depth object' = ⟨[], some scope⟩ ∧ ∃ fields,
      fieldOf "scope" object = some (.object fields) ∧
        ∀ key ∈ scopeKeys, fieldOf key fields = fieldOf key scope.candidateFields := by
  unfold checkScope at hreasons hvalue
  cases hfield : fieldOf "scope" object with
  | none =>
    rw [hfield] at hvalue
    dsimp only at hvalue
    split at hvalue <;> cases hvalue
  | some value =>
    rw [hfield] at hreasons hvalue
    cases value with
    | object fields =>
      dsimp only at hreasons hvalue
      cases hvalue
      rw [List.append_eq_nil_iff] at hreasons
      have hin := scope_reasons_nil _ _ hreasons.1
      have hout := scope_reasons_nil _ _ hreasons.2
      have hkeys : ∀ key ∈ scopeKeys, fieldOf key fields = fieldOf key (PlanScope.candidateFields
          ⟨stringList (fieldOf "inScope" fields), stringList (fieldOf "outOfScope" fields)⟩) := by
        intro key hkey
        simp only [scopeKeys, List.mem_cons, List.not_mem_nil, or_false] at hkey
        rcases hkey with rfl | rfl
        · exact hin
        · exact hout
      refine ⟨?_, fields, rfl, hkeys⟩
      have hin' := (hkeys "inScope" (by simp [scopeKeys])).symm
      have hout' := (hkeys "outOfScope" (by simp [scopeKeys])).symm
      rw [checkScope, hagain]
      dsimp only
      rw [hin', hout', hreasons.1, hreasons.2]
      rfl
    | _ => cases hvalue

theorem non_goals_ok (hreasons : (checkNonGoals depth object).reasons = [])
    (hagain : fieldOf "nonGoals" object' = some (stringArray (checkNonGoals depth object).value)) :
    checkNonGoals depth object' = ⟨[], (checkNonGoals depth object).value⟩ ∧
      (fieldOf "nonGoals" object = some (stringArray (checkNonGoals depth object).value) ∨
        fieldOf "nonGoals" object = none ∧ (checkNonGoals depth object).value = []) := by
  unfold checkNonGoals at hreasons hagain ⊢
  dsimp only at hreasons hagain ⊢
  by_cases homitted : ((fieldOf "nonGoals" object).isNone && depth == .light) = true
  · rw [if_pos homitted] at hagain ⊢
    rw [Bool.and_eq_true, Option.isNone_iff_eq_none] at homitted
    rw [hagain]
    exact ⟨rfl, .inr ⟨homitted.1, rfl⟩⟩
  · rw [if_neg homitted] at hreasons hagain ⊢
    cases htexts : boundedTexts (fieldOf "nonGoals" object) PlanningLimits.maxNonGoals with
    | none =>
      rw [htexts] at hreasons
      cases hreasons
    | some texts =>
      rw [htexts] at hreasons hagain
      dsimp only at hreasons hagain ⊢
      by_cases hbounded : boundedStatements texts = true
      · have hnot : ¬ (!boundedStatements texts) = true := by simp [hbounded]
        rw [if_neg hnot] at hagain ⊢
        obtain ⟨hfield, hlength⟩ := (bounded_texts _ _ _).mp htexts
        have htexts' := (bounded_texts (some (stringArray texts)) PlanningLimits.maxNonGoals
          texts).mpr ⟨rfl, hlength⟩
        have hsome : ¬ ((some (stringArray texts)).isNone && depth == .light) = true := by simp
        rw [hagain]
        dsimp only [accept]
        rw [if_neg hsome, htexts']
        dsimp only
        rw [if_neg hnot]
        exact ⟨rfl, .inl hfield⟩
      · rw [if_pos (by simp [hbounded])] at hreasons
        cases hreasons

theorem entries_bounded {α : Type} {R : Value → α → Prop} (make : α → Value) {max : ℕ}
    {entries : List Value} {values : List α} (h : List.Forall₂ R entries values)
    (hlength : ¬ max < entries.length) : ¬ max < (values.map make).length := by
  rw [List.length_map, ← h.length_eq]
  exact hlength

theorem touchpoints_ok (hreasons : (checkTouchpoints object).reasons = [])
    (hagain : fieldOf "touchpoints" object' =
      some (objectsOf PlanTouchpoint.candidateFields (checkTouchpoints object).values)) :
    checkTouchpoints object' = checkTouchpoints object ∧
      (checkTouchpoints object).ids = (checkTouchpoints object).values.map PlanTouchpoint.id ∧
      (checkTouchpoints object).ids.Nodup ∧ ∃ entries,
        fieldOf "touchpoints" object = some (.array entries) ∧
          List.Forall₂ (Says touchpointKeys checkTouchpoint PlanTouchpoint.candidateFields
            PlanTouchpoint.id) entries (checkTouchpoints object).values := by
  unfold checkTouchpoints at hreasons hagain ⊢
  dsimp only at hreasons hagain ⊢
  cases hfield : fieldOf "touchpoints" object with
  | none =>
    rw [hfield] at hreasons
    cases hreasons
  | some value =>
    rw [hfield] at hreasons hagain
    cases value with
    | array entries =>
      dsimp only at hreasons hagain ⊢
      by_cases hlength : PlanningLimits.maxTouchpoints < entries.length
      · rw [if_pos hlength] at hreasons
        cases hreasons
      · rw [if_neg hlength] at hreasons hagain ⊢
        obtain ⟨values, hcollected, hnodup, hrebuilt, hsaid⟩ := collected_ok touchpoint_rebuilds
          "touchpoint" entries [] List.nodup_nil hreasons
        rw [hcollected] at hagain ⊢
        rw [hagain]
        dsimp only [objectsOf]
        rw [if_neg (entries_bounded _ hsaid hlength), hrebuilt]
        exact ⟨rfl, rfl, hnodup, entries, rfl, hsaid⟩
    | _ => cases hreasons

theorem optional_ok {α : Type} {keys : List Text}
    {check : Text → List (Text × Value) → Checked (Option α)}
    {toFields : α → List (Text × Value)} {idOf : α → Text}
    (h : Rebuilds keys check toFields idOf) (kind reason : Text) (max : ℕ) (value : Option Value)
    (hreasons : (collectOptional value max reason (identifiedEntry kind check)).reasons = []) :
    ∃ values, collectOptional value max reason (identifiedEntry kind check) =
        ⟨[], values.map idOf, values⟩ ∧ (values.map idOf).Nodup ∧
      collectOptional (some (objectsOf toFields values)) max reason (identifiedEntry kind check) =
        ⟨[], values.map idOf, values⟩ ∧
      (value = none ∧ values = [] ∨ ∃ entries, value = some (.array entries) ∧
        List.Forall₂ (Says keys check toFields idOf) entries values) := by
  cases value with
  | none =>
    refine ⟨[], rfl, List.nodup_nil, ?_, .inl ⟨rfl, rfl⟩⟩
    simp [collectOptional, objectsOf, collectEntries]
  | some value =>
    cases value with
    | array entries =>
      unfold collectOptional at hreasons ⊢
      dsimp only at hreasons ⊢
      by_cases hlength : max < entries.length
      · rw [if_pos hlength] at hreasons
        cases hreasons
      · rw [if_neg hlength] at hreasons ⊢
        obtain ⟨values, hcollected, hnodup, hrebuilt, hsaid⟩ := collected_ok h kind entries []
          List.nodup_nil hreasons
        refine ⟨values, hcollected, hnodup, ?_, .inr ⟨entries, rfl, hsaid⟩⟩
        dsimp only [objectsOf]
        rw [if_neg (entries_bounded _ hsaid hlength)]
        exact hrebuilt
    | _ => cases hreasons

theorem steps_ok (touchpointIds criterionIds : List Text)
    (hreasons : (checkSteps toLowercase depth touchpointIds criterionIds object).reasons = [])
    (hagain : fieldOf "steps" object' = some (objectsOf PlanStep.candidateFields
      (checkSteps toLowercase depth touchpointIds criterionIds object).values)) :
    checkSteps toLowercase depth touchpointIds criterionIds object' =
        checkSteps toLowercase depth touchpointIds criterionIds object ∧
      ((checkSteps toLowercase depth touchpointIds criterionIds object).values.map
        PlanStep.id).Nodup ∧ ∃ entries, fieldOf "steps" object = some (.array entries) ∧
          List.Forall₂ (Says stepKeys (checkStep toLowercase touchpointIds criterionIds)
            PlanStep.candidateFields PlanStep.id) entries
            (checkSteps toLowercase depth touchpointIds criterionIds object).values := by
  unfold checkSteps at hreasons hagain ⊢
  dsimp only at hreasons hagain ⊢
  cases hfield : fieldOf "steps" object with
  | none =>
    rw [hfield] at hreasons
    cases hreasons
  | some value =>
    rw [hfield] at hreasons hagain
    cases value with
    | array entries =>
      dsimp only at hreasons hagain ⊢
      by_cases hlength : (entries.isEmpty || decide (maxStepsFor depth < entries.length)) = true
      · rw [if_pos hlength] at hreasons
        cases hreasons
      · rw [if_neg hlength] at hreasons hagain ⊢
        obtain ⟨values, hcollected, hnodup, hrebuilt, hsaid⟩ := collected_ok
          (step_rebuilds toLowercase touchpointIds criterionIds) "step" entries [] List.nodup_nil
          hreasons
        have hlength' : ¬ ((values.map fun v => Value.object (PlanStep.candidateFields v)).isEmpty ||
            decide (maxStepsFor depth < (values.map fun v =>
              Value.object (PlanStep.candidateFields v)).length)) = true := by
          rw [Bool.or_eq_true, List.isEmpty_iff_length_eq_zero] at hlength ⊢
          rw [List.length_map, ← hsaid.length_eq]
          exact hlength
        rw [hcollected] at hagain ⊢
        rw [hagain]
        dsimp only [objectsOf]
        rw [if_neg hlength', hrebuilt]
        exact ⟨rfl, hnodup, entries, rfl, hsaid⟩
    | _ => cases hreasons

theorem requirement_reasons_nil (texts : List Text)
    (h : requirementReasons toLowercase texts = []) : boundedStatements texts = true ∧
      ∀ text ∈ texts, rejectPlanPolicyClaims toLowercase text = none := by
  induction texts with
  | nil => exact ⟨rfl, fun text htext => by cases htext⟩
  | cons text texts ih =>
    unfold requirementReasons at h
    split at h
    · cases h
    · rename_i hbounded
      rw [List.append_eq_nil_iff, Option.toList_eq_nil_iff] at h
      obtain ⟨hrest, hscreened⟩ := ih h.2
      refine ⟨?_, ?_⟩
      · unfold boundedStatements at hrest ⊢
        rw [List.all_cons, hrest]
        simpa using hbounded
      · intro other hother
        rcases List.mem_cons.mp hother with rfl | hother
        · exact h.1
        · exact hscreened other hother

theorem requirements_ok (value : Option Value)
    (h : (checkRequirements toLowercase value).reasons = []) :
    value = (checkRequirements toLowercase value).value.map stringArray ∧
      ∀ texts, (checkRequirements toLowercase value).value = some texts →
        ∀ text ∈ texts, rejectPlanPolicyClaims toLowercase text = none := by
  cases value with
  | none => exact ⟨rfl, fun texts hsome => by cases hsome⟩
  | some present =>
    unfold checkRequirements at h ⊢
    dsimp only at h ⊢
    cases htexts : boundedTexts (some present) PlanningLimits.maxValidationRequirements with
    | none =>
      rw [htexts] at h
      cases h
    | some texts =>
      rw [htexts] at h
      dsimp only at h ⊢
      obtain ⟨hbounded, hscreened⟩ := requirement_reasons_nil toLowercase texts h
      rw [if_pos hbounded]
      refine ⟨((bounded_texts _ _ _).mp htexts).1, ?_⟩
      rintro _ ⟨⟩
      exact hscreened

theorem check_reasons_nil (value : Option Value) (h : checkReasons value = []) :
    value = some (stringArray (stringList value)) := by
  unfold checkReasons at h
  cases htexts : (boundedTexts value PlanningLimits.maxValidationChecks).filter (!·.isEmpty) with
  | none =>
    rw [htexts] at h
    cases h
  | some texts =>
    obtain ⟨rfl, -⟩ := (bounded_texts _ _ _).mp (Option.filter_eq_some_iff.mp htexts).1
    rw [string_list_array]

def validationKeys : List Text := ["checks", "requirements"]

theorem validation_fields (validation : PlanValidationStrategy) :
    fieldOf "checks" validation.candidateFields = some (stringArray validation.checks) ∧
      fieldOf "requirements" validation.candidateFields =
        validation.requirements.map stringArray := by
  obtain ⟨checks, requirements⟩ := validation
  cases requirements <;> exact ⟨rfl, rfl⟩

theorem validation_ok (validation : PlanValidationStrategy)
    (hreasons : (checkValidation toLowercase object).reasons = [])
    (hvalue : (checkValidation toLowercase object).value = some validation)
    (hagain : fieldOf "validation" object' = some (.object validation.candidateFields)) :
    checkValidation toLowercase object' = ⟨[], some validation⟩ ∧
      (∀ texts, validation.requirements = some texts → ∀ text ∈ texts,
        rejectPlanPolicyClaims toLowercase text = none) ∧
      ∃ fields, fieldOf "validation" object = some (.object fields) ∧
        ∀ key ∈ validationKeys, fieldOf key fields = fieldOf key validation.candidateFields := by
  unfold checkValidation at hreasons hvalue
  cases hfield : fieldOf "validation" object with
  | none =>
    rw [hfield] at hvalue
    cases hvalue
  | some value =>
    rw [hfield] at hreasons hvalue
    cases value with
    | object fields =>
      dsimp only at hreasons hvalue
      cases hvalue
      rw [List.append_eq_nil_iff] at hreasons
      have hchecks := check_reasons_nil _ hreasons.1
      obtain ⟨hrequirements, hscreened⟩ := requirements_ok toLowercase _ hreasons.2
      obtain ⟨hchecks', hrequirements'⟩ := validation_fields
        ⟨stringList (fieldOf "checks" fields),
          (checkRequirements toLowercase (fieldOf "requirements" fields)).value⟩
      have hkeys := And.intro (hchecks.trans hchecks'.symm)
        (hrequirements.trans hrequirements'.symm)
      refine ⟨?_, hscreened, fields, rfl, ?_⟩
      · rw [checkValidation, hagain]
        dsimp only
        rw [← hkeys.1, ← hkeys.2, hreasons.1, hreasons.2]
        rfl
      · intro key hkey
        simp only [validationKeys, List.mem_cons, List.not_mem_nil, or_false] at hkey
        rcases hkey with rfl | rfl
        · exact hkeys.1
        · exact hkeys.2
    | _ => cases hvalue

theorem rollback_ok (hreasons : (checkRollback object).reasons = [])
    (hagain : fieldOf "rollback" object' =
      (checkRollback object).value.map fun rollback => .object rollback.candidateFields) :
    checkRollback object' = ⟨[], (checkRollback object).value⟩ ∧
      (fieldOf "rollback" object = none ∧ (checkRollback object).value = none ∨
        ∃ fields rollback, fieldOf "rollback" object = some (.object fields) ∧
          (checkRollback object).value = some rollback ∧
          fieldOf "description" fields = some (.string rollback.description)) := by
  unfold checkRollback at hreasons hagain ⊢
  cases hfield : fieldOf "rollback" object with
  | none =>
    rw [hfield] at hagain
    have hnone : fieldOf "rollback" object' = none := hagain
    rw [hnone]
    exact ⟨rfl, .inl ⟨rfl, rfl⟩⟩
  | some value =>
    rw [hfield] at hreasons hagain
    cases value with
    | object fields =>
      dsimp only at hreasons hagain ⊢
      obtain ⟨text, htext, hdescription, -⟩ := required_text_ok _ _ _ hreasons
      rw [htext] at hagain ⊢
      have hsome : fieldOf "rollback" object' =
          some (.object (PlanRollbackStrategy.candidateFields ⟨text⟩)) := hagain
      have hagain' : fieldOf "description" (PlanRollbackStrategy.candidateFields ⟨text⟩) =
          fieldOf "description" fields := hdescription.symm
      rw [hsome]
      dsimp only
      rw [hagain', htext]
      exact ⟨rfl, .inr ⟨fields, ⟨text⟩, rfl, rfl, hdescription⟩⟩
    | _ => cases hreasons

end Sections

end Siralos.PlanValidation
