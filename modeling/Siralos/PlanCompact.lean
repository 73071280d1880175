import Siralos.PlanValidation
import Siralos.TaskCompletion

/-!
# Compact light plans

A light candidate may leave out its scope and its non-goals as far as the section checks go. The
construction of the content asks for the scope again.
-/

set_option autoImplicit false

namespace Siralos.PlanValidation

open Json TaskModel PlanContent

variable (toLowercase : Text → Text) (jsNumber : Number → Text)

theorem accepted_iff (context : PlanCandidateContext) (object : List (Text × Value))
    (content : TaskPlanContent) :
    validatePlanCandidate toLowercase jsNumber (.object object) context = .ok content ↔
      context.depth ≠ .none ∧ (checkSections toLowercase context object).reasons = [] ∧
        aggregateCandidateBytes jsNumber object ≤ PlanningLimits.maxPlanContentBytes ∧
        buildContent (checkSections toLowercase context object) = .ok content := by
  unfold validatePlanCandidate
  dsimp only
  by_cases hdepth : context.depth = .none
  · simp [hdepth]
  · rw [if_neg hdepth]
    by_cases hreasons : (checkSections toLowercase context object).reasons = []
    · rw [if_neg (by simp [hreasons])]
      by_cases hbytes : PlanningLimits.maxPlanContentBytes < aggregateCandidateBytes jsNumber object
      · rw [if_pos hbytes]
        simp [Nat.not_le.mpr hbytes]
      · rw [if_neg hbytes]
        simp [hdepth, hreasons, Nat.le_of_not_lt hbytes]
    · rw [if_pos (by simp [hreasons])]
      simp [hreasons]

theorem accepted_object (raw : Value) (context : PlanCandidateContext) (content : TaskPlanContent)
    (h : validatePlanCandidate toLowercase jsNumber raw context = .ok content) :
    ∃ object, raw = .object object := by
  cases raw with
  | object object => exact ⟨object, rfl⟩
  | _ => cases h

theorem build_content_ok (sections : Sections) (content : TaskPlanContent) :
    buildContent sections = .ok content ↔
      sections.objective = some content.objective ∧ sections.scope = some content.scope ∧
        sections.nonGoals = content.nonGoals ∧ sections.touchpoints = content.touchpoints ∧
        sections.constraints = content.constraints ∧ sections.risks = content.risks ∧
        sections.steps = content.steps ∧ sections.validation = some content.validation ∧
        sections.rollback = content.rollback ∧ sections.rationale = content.rationale := by
  unfold buildContent
  cases sections.objective with
  | none => simp
  | some objective =>
    cases sections.scope with
    | none => simp
    | some scope =>
      cases sections.validation with
      | none => simp
      | some validation =>
        cases content
        simp

inductive Omission where
  | scope
  | nonGoals
  | both
  deriving DecidableEq, Repr

def Omission.keys : Omission → List Text
  | scope => ["scope"]
  | nonGoals => ["nonGoals"]
  | both => ["scope", "nonGoals"]

def Omission.fields (omission : Omission) (object : List (Text × Value)) : List (Text × Value) :=
  object.filter fun field => !omission.keys.contains field.1

def Omission.apply (omission : Omission) : Value → Value
  | .object object => .object (omission.fields object)
  | raw => raw

theorem field_omitted (omission : Omission) (object : List (Text × Value)) (key : Text) :
    fieldOf key (omission.fields object) =
      if omission.keys.contains key then none else fieldOf key object := by
  unfold Omission.fields fieldOf
  induction object with
  | nil => simp
  | cons field object ih =>
    obtain ⟨other, value⟩ := field
    by_cases hother : key = other
    · subst hother
      by_cases hkey : omission.keys.contains key = true
      · rw [List.filter_cons_of_neg (by simpa using hkey), ih, if_pos hkey, if_pos hkey]
      · rw [List.filter_cons_of_pos (by simpa using hkey), if_neg hkey]
        simp
    · have hbeq : (key == other) = false := by simpa using hother
      by_cases hkey : omission.keys.contains other = true
      · rw [List.filter_cons_of_neg (by simpa using hkey), ih, List.lookup_cons, hbeq]
      · rw [List.filter_cons_of_pos (by simpa using hkey), List.lookup_cons, List.lookup_cons, hbeq,
          ih]

/-- The candidate without the omitted sections is accepted as well, and the rest of the content is
the same. -/
def StaysAccepted (context : PlanCandidateContext) (raw : Value) (content : TaskPlanContent)
    (omission : Omission) : Prop :=
  ∃ content', validatePlanCandidate toLowercase jsNumber (omission.apply raw) context =
      .ok content' ∧
    (omission = .scope → content'.nonGoals = content.nonGoals) ∧
    (omission = .nonGoals → content'.scope = content.scope) ∧
    { content' with scope := content.scope, nonGoals := content.nonGoals } = content

/-- Whatever is omitted, only the checks of the scope and of the non-goals can tell. -/
theorem sections_omitted (context : PlanCandidateContext) (object : List (Text × Value))
    (omission : Omission) :
    checkSections toLowercase context (omission.fields object) =
      { checkSections toLowercase context object with
        reasons := checkDepth context.depth object ++ (checkObjective toLowercase object).reasons ++
          (checkScope context.depth (omission.fields object)).reasons ++
          (checkNonGoals context.depth (omission.fields object)).reasons ++
          (checkTouchpoints object).reasons ++ (checkConstraints toLowercase object).reasons ++
          (checkRisks object).reasons ++
          (checkSteps toLowercase context.depth (checkTouchpoints object).ids
            (context.contract.acceptanceCriteria.map Contract.AcceptanceCriterion.id)
            object).reasons ++
          (checkValidation toLowercase object).reasons ++ (checkRollback object).reasons ++
          (checkRationale object).reasons
        scope := (checkScope context.depth (omission.fields object)).value
        nonGoals := (checkNonGoals context.depth (omission.fields object)).value } := by
  have hsame : ∀ key, omission.keys.contains key = false →
      fieldOf key (omission.fields object) = fieldOf key object := by
    intro key hkey
    rw [field_omitted, hkey]
    rfl
  have hdepth := hsame "depth" (by cases omission <;> decide)
  have hobjective := hsame "objective" (by cases omission <;> decide)
  have htouchpoints := hsame "touchpoints" (by cases omission <;> decide)
  have hconstraints := hsame "constraints" (by cases omission <;> decide)
  have hrisks := hsame "risks" (by cases omission <;> decide)
  have hsteps := hsame "steps" (by cases omission <;> decide)
  have hvalidation := hsame "validation" (by cases omission <;> decide)
  have hrollback := hsame "rollback" (by cases omission <;> decide)
  have hrationale := hsame "rationale" (by cases omission <;> decide)
  simp only [checkSections, checkDepth, checkObjective, checkTouchpoints, checkConstraints,
    checkRisks, checkSteps, checkValidation, checkRollback, checkRationale, hdepth, hobjective,
    htouchpoints, hconstraints, hrisks, hsteps, hvalidation, hrollback, hrationale]

/-- An omitted scope is refused at the construction, after every check has let it through. -/
theorem scope_required (context : PlanCandidateContext) (hlight : context.depth = .light)
    (object : List (Text × Value)) (hscope : fieldOf "scope" object = none)
    (content : TaskPlanContent) :
    validatePlanCandidate toLowercase jsNumber (.object object) context ≠ .ok content := by
  intro haccepted
  obtain ⟨_, _, _, hbuild⟩ := (accepted_iff _ _ _ _ _).mp haccepted
  have hkept := ((build_content_ok _ _).mp hbuild).2.1
  have hnone : (checkSections toLowercase context object).scope = none := by
    change (checkScope context.depth object).value = none
    rw [checkScope, hscope, hlight]
    rfl
  rw [hnone] at hkept
  cases hkept

/-- Of an accepted light candidate the non-goals alone may be left out, as long as the `null` that
then counts for them still fits. -/
theorem compact_iff (context : PlanCandidateContext) (hlight : context.depth = .light)
    (raw : Value) (content : TaskPlanContent)
    (haccepted : validatePlanCandidate toLowercase jsNumber raw context = .ok content)
    (omission : Omission) :
    StaysAccepted toLowercase jsNumber context raw content omission ↔
      omission = .nonGoals ∧ ∀ object, omission.apply raw = .object object →
        aggregateCandidateBytes jsNumber object ≤ PlanningLimits.maxPlanContentBytes := by
  obtain ⟨object, rfl⟩ := accepted_object toLowercase jsNumber raw context content haccepted
  constructor
  · rintro ⟨content', hstays, -⟩
    have hscope : ∀ key : Text, key = "scope" → omission.keys.contains key = false := by
      rintro key rfl
      by_contra homitted
      rw [Bool.not_eq_false] at homitted
      refine scope_required toLowercase jsNumber context hlight (omission.fields object) ?_ content'
        hstays
      rw [field_omitted, if_pos homitted]
    refine ⟨?_, ?_⟩
    · cases omission with
      | nonGoals => rfl
      | scope => exact absurd (hscope _ rfl) (by decide)
      | both => exact absurd (hscope _ rfl) (by decide)
    · rintro fields ⟨⟩
      exact ((accepted_iff _ _ _ _ _).mp hstays).2.2.1
  · rintro ⟨rfl, hbytes⟩
    obtain ⟨hdepth, hreasons, _, hbuild⟩ := (accepted_iff _ _ _ _ _).mp haccepted
    have hscope : checkScope context.depth (Omission.nonGoals.fields object) =
        checkScope context.depth object := by
      have hsame : fieldOf "scope" (Omission.nonGoals.fields object) = fieldOf "scope" object :=
        field_omitted .nonGoals object "scope"
      rw [checkScope, hsame, checkScope]
    have hnonGoals : checkNonGoals context.depth (Omission.nonGoals.fields object) = accept [] := by
      have hnone : fieldOf "nonGoals" (Omission.nonGoals.fields object) = none :=
        field_omitted .nonGoals object "nonGoals"
      rw [checkNonGoals, hnone, hlight]
      rfl
    have hsections := sections_omitted toLowercase context object .nonGoals
    rw [hscope, hnonGoals] at hsections
    refine ⟨{ content with nonGoals := [] }, ?_, by simp, by simp, rfl⟩
    refine (accepted_iff _ _ _ _ _).mpr ⟨hdepth, ?_, hbytes _ rfl, ?_⟩
    · rw [hsections]
      unfold checkSections at hreasons
      simp only [List.append_eq_nil_iff] at hreasons
      simp [hreasons, accept]
    · rw [hsections]
      rw [build_content_ok] at hbuild ⊢
      obtain ⟨h₁, h₂, _, h₄, h₅, h₆, h₇, h₈, h₉, h₁₀⟩ := hbuild
      exact ⟨h₁, h₂, rfl, h₄, h₅, h₆, h₇, h₈, h₉, h₁₀⟩

def asciiLowercase (text : Text) : Text := text.map Char.toLower

def sampleCandidate : Value :=
  .object [member "objective" (.string "Add a flag"),
    member "scope" (.object (PlanScope.candidateFields ⟨[], []⟩)),
    member "nonGoals" (stringArray []), member "touchpoints" (.array []),
    member "steps" (.array [.object [member "id" (.string "s1"), member "title" (.string "Do it"),
      member "expectedTouchpoints" (stringArray [])]]),
    member "validation" (.object [member "checks" (stringArray ["run the tests"])])]

def sampleContent : TaskPlanContent where
  objective := "Add a flag"
  scope := ⟨[], []⟩
  nonGoals := []
  touchpoints := []
  constraints := []
  risks := []
  steps := [⟨"s1", "Do it", none, [], none⟩]
  validation := ⟨["run the tests"], none⟩
  rollback := none
  rationale := none

def sampleContext : PlanCandidateContext := ⟨TaskCompletion.sampleContract, .light⟩

theorem sample_accepted : validatePlanCandidate asciiLowercase (fun _ => []) sampleCandidate
    sampleContext = .ok sampleContent := by
  decide +kernel

theorem compact_sample :
    StaysAccepted asciiLowercase (fun _ => []) sampleContext sampleCandidate sampleContent
        .nonGoals ↔
      Omission.nonGoals = .nonGoals ∧ ∀ object,
        Omission.nonGoals.apply sampleCandidate = .object object →
        aggregateCandidateBytes (fun _ => []) object ≤ PlanningLimits.maxPlanContentBytes :=
  compact_iff asciiLowercase (fun _ => []) sampleContext rfl sampleCandidate sampleContent
    sample_accepted .nonGoals

theorem compact_fails :
    ¬ ∀ (toLowercase : Text → Text) (jsNumber : Number → Text) (context : PlanCandidateContext)
      (raw : Value) (content : TaskPlanContent) (omission : Omission), context.depth = .light →
      validatePlanCandidate toLowercase jsNumber raw context = .ok content →
      StaysAccepted toLowercase jsNumber context raw content omission := by
  intro h
  obtain ⟨content', hstays, -⟩ := h asciiLowercase (fun _ => []) sampleContext sampleCandidate
    sampleContent .scope rfl sample_accepted
  exact scope_required asciiLowercase (fun _ => []) sampleContext rfl _ rfl content' hstays

end Siralos.PlanValidation
