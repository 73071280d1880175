import Siralos.Json

/-!
# Plan content

What a validated plan says, and the candidate document it is validated from again when stored.
-/

set_option autoImplicit false

namespace Siralos.PlanContent

open Json

inductive TouchpointConfidence where
  | verified
  | candidate
  deriving DecidableEq, Repr

def TouchpointConfidence.asStr : TouchpointConfidence → Text
  | verified => "verified"
  | candidate => "candidate"

inductive PlanRiskSeverity where
  | low
  | medium
  | high
  deriving DecidableEq, Repr

def PlanRiskSeverity.asStr : PlanRiskSeverity → Text
  | low => "low"
  | medium => "medium"
  | high => "high"

structure PlanScope where
  inScope : List Text
  outOfScope : List Text
  deriving DecidableEq, Repr

structure PlanTouchpoint where
  id : Text
  path : Text
  confidence : TouchpointConfidence
  revision : Option Text
  evidence : Option Text
  note : Option Text
  deriving DecidableEq, Repr

structure PlanConstraint where
  id : Text
  description : Text
  deriving DecidableEq, Repr

structure PlanRisk where
  id : Text
  severity : PlanRiskSeverity
  description : Text
  deriving DecidableEq, Repr

structure PlanStep where
  id : Text
  title : Text
  description : Option Text
  expectedTouchpoints : List Text
  verification : Option (List Text)
  deriving DecidableEq, Repr

structure PlanValidationStrategy where
  checks : List Text
  requirements : Option (List Text)
  deriving DecidableEq, Repr

structure PlanRollbackStrategy where
  description : Text
  deriving DecidableEq, Repr

structure TaskPlanContent where
  objective : Text
  scope : PlanScope
  nonGoals : List Text
  touchpoints : List PlanTouchpoint
  constraints : List PlanConstraint
  risks : List PlanRisk
  steps : List PlanStep
  validation : PlanValidationStrategy
  rollback : Option PlanRollbackStrategy
  rationale : Option Text
  deriving DecidableEq, Repr

namespace PlanningLimits

def maxSteps : ℕ := 12
def maxStepsLight : ℕ := 6
def maxTouchpoints : ℕ := 24
def maxConstraints : ℕ := 12
def maxRisks : ℕ := 12
def maxNonGoals : ℕ := 16
def maxScopeEntries : ℕ := 16
def maxValidationChecks : ℕ := 12
def maxValidationRequirements : ℕ := 8
def maxExpectedTouchpointsPerStep : ℕ := 12
def maxVerificationRefsPerStep : ℕ := 12
def maxPlanContentBytes : ℕ := 32 * 1024
def maxObjectiveBytes : ℕ := 2048
def maxStatementBytes : ℕ := 512
def maxStepTitleBytes : ℕ := 256
def maxStepDescriptionBytes : ℕ := 1024
def maxRollbackBytes : ℕ := 1024
def maxRationaleBytes : ℕ := 1024
def maxPathBytes : ℕ := 1024
def maxRevisionBytes : ℕ := 128
def maxNoteBytes : ℕ := 512

end PlanningLimits

def stringArray (texts : List Text) : Value := .array (texts.map .string)

def member (key : Text) (value : Value) : Text × Value := (key, value)

def fieldOf (key : Text) (fields : List (Text × Value)) : Option Value := fields.lookup key

/-- A field of an optional value stays absent without it. -/
def optionalField (key : Text) : Option Value → List (Text × Value)
  | none => []
  | some value => [member key value]

def PlanTouchpoint.candidateFields (touchpoint : PlanTouchpoint) : List (Text × Value) :=
  [member "id" (.string touchpoint.id), member "path" (.string touchpoint.path),
    member "confidence" (.string touchpoint.confidence.asStr)] ++
  optionalField "revision" (touchpoint.revision.map .string) ++
  optionalField "evidence" (touchpoint.evidence.map .string) ++
  optionalField "note" (touchpoint.note.map .string)

def PlanConstraint.candidateFields (constraint : PlanConstraint) : List (Text × Value) :=
  [member "id" (.string constraint.id), member "description" (.string constraint.description)]

def PlanRisk.candidateFields (risk : PlanRisk) : List (Text × Value) :=
  [member "id" (.string risk.id), member "severity" (.string risk.severity.asStr),
    member "description" (.string risk.description)]

def PlanStep.candidateFields (step : PlanStep) : List (Text × Value) :=
  [member "id" (.string step.id), member "title" (.string step.title)] ++
  optionalField "description" (step.description.map .string) ++
  [member "expectedTouchpoints" (stringArray step.expectedTouchpoints)] ++
  optionalField "verification" (step.verification.map stringArray)

def PlanScope.candidateFields (scope : PlanScope) : List (Text × Value) :=
  [member "inScope" (stringArray scope.inScope), member "outOfScope" (stringArray scope.outOfScope)]

def PlanValidationStrategy.candidateFields (validation : PlanValidationStrategy) :
    List (Text × Value) :=
  member "checks" (stringArray validation.checks) ::
    optionalField "requirements" (validation.requirements.map stringArray)

def PlanRollbackStrategy.candidateFields (rollback : PlanRollbackStrategy) : List (Text × Value) :=
  [member "description" (.string rollback.description)]

def objectsOf {α : Type} (toFields : α → List (Text × Value)) (values : List α) : Value :=
  .array (values.map fun value => .object (toFields value))

def contentCandidateFields (content : TaskPlanContent) : List (Text × Value) :=
  [member "objective" (.string content.objective),
    member "scope" (.object content.scope.candidateFields),
    member "nonGoals" (stringArray content.nonGoals),
    member "touchpoints" (objectsOf PlanTouchpoint.candidateFields content.touchpoints),
    member "constraints" (objectsOf PlanConstraint.candidateFields content.constraints),
    member "risks" (objectsOf PlanRisk.candidateFields content.risks),
    member "steps" (objectsOf PlanStep.candidateFields content.steps),
    member "validation" (.object content.validation.candidateFields)] ++
  optionalField "rollback" (content.rollback.map fun rollback => .object rollback.candidateFields) ++
  optionalField "rationale" (content.rationale.map .string)

def contentCandidateValue (content : TaskPlanContent) : Value :=
  .object (contentCandidateFields content)

end Siralos.PlanContent
