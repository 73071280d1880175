import Siralos.Contract
import Siralos.PlanContent
import Siralos.PlanScreen
import Siralos.TaskModel
import Mathlib.Data.Char
import Mathlib.Data.List.Lex
import Mathlib.Data.List.Sort

/-!
# Plan candidates

A planner's candidate becomes plan content only when no section of it gives a reason against it.
Each section is checked on its own, and all of them are checked.
-/

set_option autoImplicit false

namespace Siralos.PlanValidation

open Json Identity Contract TaskModel PlanContent

def isValidPlanElementId (id : Text) : Bool := idPatternOk 64 Char.isAlpha id

def revisionPrefix : Text := "rev_"

def isLowerHexdigit (c : Char) : Bool := c.isDigit || decide ('a' ≤ c ∧ c ≤ 'f')

def isValidRevisionHandle (value : Text) : Bool :=
  match Text.stripPrefix revisionPrefix value with
  | none => false
  | some rest => decide (rest.length = 32) && rest.all isLowerHexdigit

def removeDoubleStars : Text → Text
  | '*' :: '*' :: rest => removeDoubleStars rest
  | c :: rest => c :: removeDoubleStars rest
  | [] => []

def hasWildcard (path : Text) : Bool := path.contains '*' || path.contains '?'

def hasDrivePrefix : Text → Bool
  | c :: ':' :: _ => c.isAlpha
  | _ => false

def referencePrefixes : List Text := ["@reference/", "@research/"]

def isSafePlanPath (path : Text) (allowGlob : Bool) : Bool :=
  !path.isEmpty && decide (Text.utf8Len path ≤ PlanningLimits.maxPathBytes) &&
    !path.contains (Char.ofNat 0) && !path.contains '\\' && !Text.startsWith "/" path &&
    !hasDrivePrefix path && !referencePrefixes.any (fun p => Text.startsWith p path) &&
    !(path.splitOn '/').any (fun segment => segment == ['.', '.'] || segment == ['.'] ||
      segment.isEmpty) &&
    if allowGlob then !hasWildcard ((removeDoubleStars path).filter (· != '*'))
    else !hasWildcard path

def evidenceKinds : List Text :=
  ["read", "api", "reference", "research", "knowledge", "instruction", "scene", "resource"]

def isEvidenceReference (value : Text) : Bool :=
  let kind := value.takeWhile (· != ':')
  match value.dropWhile (· != ':') with
  | [] => false
  | _ :: reference =>
    !kind.isEmpty && evidenceKinds.contains kind && !reference.isEmpty &&
      decide (Text.utf8Len reference ≤ 256) && !reference.contains (Char.ofNat 0)

def bounded (max : ℕ) (value : Text) : Bool := decide (Text.utf8Len value ≤ max)

def nonEmptyString : Option Value → Option Text
  | some (.string text) => if (Text.trim text).isEmpty then none else some text
  | _ => none

def stringArrayTexts : Option Value → Option (List Text)
  | some (.array values) => values.mapM Value.asStr
  | _ => none

/-- What a section gives: reasons against the candidate, and what is kept of it. -/
structure Checked (α : Type) where
  reasons : List Text
  value : α
  deriving DecidableEq, Repr

def reject {α : Type} (reason : Text) (value : α) : Checked α := ⟨[reason], value⟩

def accept {α : Type} (value : α) : Checked α := ⟨[], value⟩

/-- A required text: one reason for all that may be wrong with it. -/
def requiredText (value : Option Value) (ok : Text → Bool) (reason : Text) :
    Checked (Option Text) :=
  match (nonEmptyString value).filter ok with
  | none => reject reason none
  | some text => accept (some text)

/-- An optional text: absent is fine, and `null` is not absent. -/
def optionalText (value : Option Value) (ok : Text → Bool) (reason : Text) :
    Checked (Option Text) :=
  match value with
  | none => accept none
  | some present => requiredText (some present) ok reason

/-- `if`s of one chain, where a passed check adds nothing. -/
def reasonIf (refused : Bool) (reason : Text) : List Text := if refused then [reason] else []

def boundedStatements (texts : List Text) : Bool :=
  texts.all (bounded PlanningLimits.maxStatementBytes)

def boundedTexts (value : Option Value) (max : ℕ) : Option (List Text) :=
  (stringArrayTexts value).filter fun texts => decide (texts.length ≤ max)

def stringList (value : Option Value) : List Text :=
  match value with
  | some (.array values) => values.filterMap Value.asStr
  | _ => []

/-- One entry of a list: its id is taken even where the rest of it is refused. -/
structure Entry (α : Type) where
  reasons : List Text
  id : Option Text
  value : Option α
  deriving DecidableEq, Repr

def Entry.refused {α : Type} (reason : Text) : Entry α := ⟨[reason], none, none⟩

/-- The checks that touchpoints, constraints, risks and steps share. -/
def identifiedEntry {α : Type} (kind : Text)
    (check : Text → List (Text × Value) → Checked (Option α)) (ids : List Text) (entry : Value) :
    Entry α :=
  match entry with
  | .object fields =>
    match (nonEmptyString (fieldOf "id" fields)).filter isValidPlanElementId with
    | none => .refused ("Each " ++ kind ++ " requires a valid id.")
    | some id =>
      if ids.contains id then .refused ("Duplicate " ++ kind ++ " id: " ++ id)
      else
        let checked := check id fields
        ⟨checked.reasons, some id, checked.value⟩
  | _ => .refused ("Each " ++ kind ++ " must be an object.")

structure Collected (α : Type) where
  reasons : List Text
  ids : List Text
  values : List α
  deriving DecidableEq, Repr

def collectEntries {α : Type} (check : List Text → Value → Entry α) :
    List Text → List Value → Collected α
  | ids, [] => ⟨[], ids, []⟩
  | ids, entry :: rest =>
    let found := check ids entry
    let others := collectEntries check (ids ++ found.id.toList) rest
    ⟨found.reasons ++ others.reasons, others.ids, found.value.toList ++ others.values⟩

/-- An optional array of entries, as constraints and risks are. -/
def collectOptional {α : Type} (value : Option Value) (max : ℕ) (reason : Text)
    (check : List Text → Value → Entry α) : Collected α :=
  match value with
  | none => ⟨[], [], []⟩
  | some (.array entries) =>
    if max < entries.length then ⟨[reason], [], []⟩ else collectEntries check [] entries
  | some _ => ⟨[reason], [], []⟩

section Candidate

variable (toLowercase : Text → Text)

def parseConfidence : Option Value → Option TouchpointConfidence
  | some (.string text) =>
    if text = "verified" then some .verified
    else if text = "candidate" then some .candidate
    else none
  | _ => none

def touchpointRevision (id : Text) (confidence : TouchpointConfidence) (value : Option Value) :
    Checked (Option Text) :=
  match confidence with
  | .verified =>
    match (nonEmptyString value).filter isValidRevisionHandle with
    | none => reject ("Verified touchpoint " ++ id ++
        " requires the exact inspected workspace revision handle (rev_ + 32 hex).") none
    | some revision =>
      if bounded PlanningLimits.maxRevisionBytes revision then accept (some revision)
      else reject ("Touchpoint " ++ id ++ " revision exceeds the byte bound.") none
  | .candidate =>
    optionalText value (fun _ => true)
      ("Touchpoint " ++ id ++ " revision must be a string when present.")

def checkTouchpoint (id : Text) (fields : List (Text × Value)) : Checked (Option PlanTouchpoint) :=
  match (nonEmptyString (fieldOf "path" fields)).filter (bounded PlanningLimits.maxPathBytes) with
  | none => reject ("Touchpoint " ++ id ++ " requires a bounded path.") none
  | some path =>
    match parseConfidence (fieldOf "confidence" fields) with
    | none => reject ("Touchpoint " ++ id ++ " requires confidence verified or candidate.") none
    | some confidence =>
      let pathReasons := reasonIf (!isSafePlanPath path (confidence == .candidate))
        ("Touchpoint " ++ id ++ " path " ++ jsonEscape path ++
          " is not a safe workspace-relative path.")
      let revision := touchpointRevision id confidence (fieldOf "revision" fields)
      let evidence := optionalText (fieldOf "evidence" fields) isEvidenceReference
        ("Touchpoint " ++ id ++
          " evidence must be a bounded kind:ref reference (read|api|reference|research|knowledge|instruction).")
      let note := optionalText (fieldOf "note" fields) (bounded PlanningLimits.maxNoteBytes)
        ("Touchpoint " ++ id ++ " note exceeds the byte bound.")
      ⟨pathReasons ++ revision.reasons ++ evidence.reasons ++ note.reasons,
        some ⟨id, path, confidence, revision.value, evidence.value, note.value⟩⟩

def checkConstraint (id : Text) (fields : List (Text × Value)) : Checked (Option PlanConstraint) :=
  match (nonEmptyString (fieldOf "description" fields)).filter
      (bounded PlanningLimits.maxStatementBytes) with
  | none => reject ("Constraint " ++ id ++ " requires a bounded description.") none
  | some description =>
    match rejectPlanPolicyClaims toLowercase description with
    | some claim => reject claim none
    | none => accept (some ⟨id, description⟩)

def parseSeverity : Option Value → Option PlanRiskSeverity
  | some (.string text) =>
    if text = "low" then some .low
    else if text = "medium" then some .medium
    else if text = "high" then some .high
    else none
  | _ => none

def checkRisk (id : Text) (fields : List (Text × Value)) : Checked (Option PlanRisk) :=
  let severity := parseSeverity (fieldOf "severity" fields)
  let severityReasons := reasonIf severity.isNone
    ("Risk " ++ id ++ " requires severity low, medium, or high.")
  let description := requiredText (fieldOf "description" fields)
    (bounded PlanningLimits.maxStatementBytes)
    ("Risk " ++ id ++ " requires a bounded description.")
  ⟨severityReasons ++ description.reasons,
    description.value.map fun text => ⟨id, severity.getD .low, text⟩⟩

def expectedReferences (id : Text) (touchpointIds : List Text) (value : Option Value) :
    Checked (List Text) :=
  match boundedTexts value PlanningLimits.maxExpectedTouchpointsPerStep with
  | none => reject ("Step " ++ id ++ " expectedTouchpoints must be a bounded id array.") []
  | some references =>
    ⟨(references.filter (fun reference => !touchpointIds.contains reference)).map fun reference =>
      "Step " ++ id ++ " references unknown touchpoint " ++ jsonEscape reference ++ ".", references⟩

def verificationReferences (id : Text) (criterionIds : List Text) (value : Option Value) :
    Checked (Option (List Text)) :=
  match value with
  | none => accept none
  | some present =>
    match boundedTexts (some present) PlanningLimits.maxVerificationRefsPerStep with
    | none => reject ("Step " ++ id ++ " verification must be a bounded criterion-id array.") none
    | some references =>
      ⟨(references.filter (fun reference => !criterionIds.contains reference)).map fun reference =>
        "Step " ++ id ++ " references unknown acceptance criterion " ++ jsonEscape reference ++ ".",
        some references⟩

def stepTitle (id : Text) (value : Option Value) : Checked (Option Text) :=
  match (nonEmptyString value).filter (bounded PlanningLimits.maxStepTitleBytes) with
  | none => reject ("Step " ++ id ++ " requires a bounded title.") none
  | some title =>
    match rejectPlanPolicyClaims toLowercase title with
    | some claim => reject claim none
    | none => accept (some title)

def checkStep (touchpointIds criterionIds : List Text) (id : Text) (fields : List (Text × Value)) :
    Checked (Option PlanStep) :=
  let title := stepTitle toLowercase id (fieldOf "title" fields)
  let description := optionalText (fieldOf "description" fields)
    (bounded PlanningLimits.maxStepDescriptionBytes)
    ("Step " ++ id ++ " description exceeds the byte bound.")
  let expected := expectedReferences id touchpointIds (fieldOf "expectedTouchpoints" fields)
  let verification := verificationReferences id criterionIds (fieldOf "verification" fields)
  ⟨title.reasons ++ description.reasons ++ expected.reasons ++ verification.reasons,
    title.value.map fun text =>
      ⟨id, text, description.value, expected.value, verification.value⟩⟩

def PlanningDepth.asStr : PlanningDepth → Text
  | .none => "none"
  | .light => "light"
  | .full => "full"

def checkDepth (depth : PlanningDepth) (object : List (Text × Value)) : List Text :=
  match fieldOf "depth" object with
  | some (.string declared) =>
    reasonIf (declared != PlanningDepth.asStr depth) ("The plan depth " ++ jsonEscape declared ++
      " does not match the host-routed depth " ++ PlanningDepth.asStr depth ++ ".")
  | _ => []

def checkObjective (object : List (Text × Value)) : Checked (Option Text) :=
  match nonEmptyString (fieldOf "objective" object) with
  | none => reject "A plan requires a non-empty objective." none
  | some text =>
    if !bounded PlanningLimits.maxObjectiveBytes text then
      reject ("The objective exceeds the " ++ Text.ofNat PlanningLimits.maxObjectiveBytes ++
        "-byte bound.") none
    else ⟨(rejectPlanPolicyClaims toLowercase text).toList ++ (rejectSecretContent text).toList,
      some text⟩

/-- One direction of a scope; its strings are kept whatever is wrong with them. -/
def scopeReasons (name : Text) (value : Option Value) : List Text :=
  match boundedTexts value PlanningLimits.maxScopeEntries with
  | none => ["A plan requires an " ++ name ++ " string array within bounds."]
  | some texts =>
    reasonIf (!boundedStatements texts) "A scope entry exceeds the statement byte bound."

def checkScope (depth : PlanningDepth) (object : List (Text × Value)) :
    Checked (Option PlanScope) :=
  match fieldOf "scope" object with
  | none =>
    if depth = .light then accept none else reject "A plan requires a scope object." none
  | some (.object fields) =>
    ⟨scopeReasons "inScope" (fieldOf "inScope" fields) ++
      scopeReasons "outOfScope" (fieldOf "outOfScope" fields),
      some ⟨stringList (fieldOf "inScope" fields), stringList (fieldOf "outOfScope" fields)⟩⟩
  | some _ => reject "A plan requires a scope object." none

def checkNonGoals (depth : PlanningDepth) (object : List (Text × Value)) : Checked (List Text) :=
  let value := fieldOf "nonGoals" object
  if value.isNone && depth == .light then accept []
  else
    match boundedTexts value PlanningLimits.maxNonGoals with
    | none => reject "nonGoals must be a bounded string array." []
    | some texts =>
      if !boundedStatements texts then reject "A non-goal exceeds the statement byte bound." []
      else accept texts

def checkTouchpoints (object : List (Text × Value)) : Collected PlanTouchpoint :=
  let reason : Text := "touchpoints must be a bounded array."
  match fieldOf "touchpoints" object with
  | some (.array entries) =>
    if PlanningLimits.maxTouchpoints < entries.length then ⟨[reason], [], []⟩
    else collectEntries (identifiedEntry "touchpoint" checkTouchpoint) [] entries
  | _ => ⟨[reason], [], []⟩

def checkConstraints (object : List (Text × Value)) : Collected PlanConstraint :=
  collectOptional (fieldOf "constraints" object) PlanningLimits.maxConstraints
    "constraints must be a bounded array."
    (identifiedEntry "constraint" (checkConstraint toLowercase))

def checkRisks (object : List (Text × Value)) : Collected PlanRisk :=
  collectOptional (fieldOf "risks" object) PlanningLimits.maxRisks "risks must be a bounded array."
    (identifiedEntry "risk" checkRisk)

def maxStepsFor (depth : PlanningDepth) : ℕ :=
  if depth = .light then PlanningLimits.maxStepsLight else PlanningLimits.maxSteps

def checkSteps (depth : PlanningDepth) (touchpointIds criterionIds : List Text)
    (object : List (Text × Value)) : Collected PlanStep :=
  let reason := "steps must be a non-empty bounded array (at most " ++
    Text.ofNat (maxStepsFor depth) ++ " for " ++ PlanningDepth.asStr depth ++ " plans)."
  match fieldOf "steps" object with
  | some (.array entries) =>
    if entries.isEmpty || decide (maxStepsFor depth < entries.length) then ⟨[reason], [], []⟩
    else collectEntries
      (identifiedEntry "step" (checkStep toLowercase touchpointIds criterionIds)) [] entries
  | _ => ⟨[reason], [], []⟩

def checkReasons (value : Option Value) : List Text :=
  match (boundedTexts value PlanningLimits.maxValidationChecks).filter (!·.isEmpty) with
  | none => ["validation.checks must be a non-empty bounded string array."]
  | some texts =>
    reasonIf (!boundedStatements texts) "A validation check exceeds the statement byte bound."

/-- The first oversized requirement ends the scan; the ones before it are screened. -/
def requirementReasons : List Text → List Text
  | [] => []
  | requirement :: rest =>
    if !bounded PlanningLimits.maxStatementBytes requirement then
      ["A validation requirement exceeds the statement byte bound."]
    else (rejectPlanPolicyClaims toLowercase requirement).toList ++ requirementReasons rest

def checkRequirements (value : Option Value) : Checked (Option (List Text)) :=
  match value with
  | none => accept none
  | some present =>
    match boundedTexts (some present) PlanningLimits.maxValidationRequirements with
    | none => reject "validation.requirements must be a bounded string array." none
    | some texts => ⟨requirementReasons toLowercase texts,
        if boundedStatements texts then some texts else none⟩

def checkValidation (object : List (Text × Value)) : Checked (Option PlanValidationStrategy) :=
  match fieldOf "validation" object with
  | some (.object fields) =>
    let requirements := checkRequirements toLowercase (fieldOf "requirements" fields)
    ⟨checkReasons (fieldOf "checks" fields) ++ requirements.reasons,
      some ⟨stringList (fieldOf "checks" fields), requirements.value⟩⟩
  | _ => reject "A plan requires a validation object." none

def checkRollback (object : List (Text × Value)) : Checked (Option PlanRollbackStrategy) :=
  match fieldOf "rollback" object with
  | none => accept none
  | some (.object fields) =>
    let description := requiredText (fieldOf "description" fields)
      (bounded PlanningLimits.maxRollbackBytes) "rollback requires a bounded description."
    ⟨description.reasons, description.value.map PlanRollbackStrategy.mk⟩
  | some _ => reject "rollback requires an object." none

def checkRationale (object : List (Text × Value)) : Checked (Option Text) :=
  optionalText (fieldOf "rationale" object) (bounded PlanningLimits.maxRationaleBytes)
    "rationale must be a bounded string."

section Canonical

-- `js_number_to_string` of a number's double.
variable (jsNumber : Number → Text)

/-- An object of canonical members, in the order of their keys. -/
def joinMembers (members : List (Text × Text)) : Text :=
  [','].intercalate ((members.insertionSort fun a b => a.1 ≤ b.1).map fun m =>
    jsonEscape m.1 ++ ':' :: m.2)

mutual

def canonicalJsonValue : Value → Text
  | .null => "null"
  | .bool true => "true"
  | .bool false => "false"
  | .number n => jsNumber n
  | .string text => jsonEscape text
  | .array values => '[' :: [','].intercalate (canonicalJsonValues values) ++ [']']
  | .object fields =>
    Char.ofNat 0x7B :: joinMembers (canonicalJsonFields fields) ++ [Char.ofNat 0x7D]

def canonicalJsonValues : List Value → List Text
  | [] => []
  | value :: values => canonicalJsonValue value :: canonicalJsonValues values

def canonicalJsonFields : List (Text × Value) → List (Text × Text)
  | [] => []
  | (key, value) :: fields => (key, canonicalJsonValue value) :: canonicalJsonFields fields

end

def aggregateKeys : List Text :=
  ["objective", "scope", "nonGoals", "touchpoints", "constraints", "risks", "steps", "validation",
    "rollback", "rationale"]

/-- The size of the fixed field set; a field that is absent counts as `null`. -/
def aggregateCandidateBytes (object : List (Text × Value)) : ℕ :=
  Text.utf8Len (canonicalJsonValue jsNumber
    (.object (aggregateKeys.map fun key => (key, (fieldOf key object).getD .null))))

structure PlanCandidateContext where
  contract : TaskContract
  depth : PlanningDepth

/-- All sections of a candidate, with every reason against it in the order of the checks. -/
structure Sections where
  reasons : List Text
  objective : Option Text
  scope : Option PlanScope
  nonGoals : List Text
  touchpoints : List PlanTouchpoint
  constraints : List PlanConstraint
  risks : List PlanRisk
  steps : List PlanStep
  validation : Option PlanValidationStrategy
  rollback : Option PlanRollbackStrategy
  rationale : Option Text

def checkSections (context : PlanCandidateContext) (object : List (Text × Value)) : Sections :=
  let objective := checkObjective toLowercase object
  let scope := checkScope context.depth object
  let nonGoals := checkNonGoals context.depth object
  let touchpoints := checkTouchpoints object
  let constraints := checkConstraints toLowercase object
  let risks := checkRisks object
  let steps := checkSteps toLowercase context.depth touchpoints.ids
    (context.contract.acceptanceCriteria.map AcceptanceCriterion.id) object
  let validation := checkValidation toLowercase object
  let rollback := checkRollback object
  let rationale := checkRationale object
  { reasons := checkDepth context.depth object ++ objective.reasons ++ scope.reasons ++
      nonGoals.reasons ++ touchpoints.reasons ++ constraints.reasons ++ risks.reasons ++
      steps.reasons ++ validation.reasons ++ rollback.reasons ++ rationale.reasons
    objective := objective.value
    scope := scope.value
    nonGoals := nonGoals.value
    touchpoints := touchpoints.values
    constraints := constraints.values
    risks := risks.values
    steps := steps.values
    validation := validation.value
    rollback := rollback.value
    rationale := rationale.value }

def aggregateReason : Text :=
  "The plan exceeds the " ++ Text.ofNat PlanningLimits.maxPlanContentBytes ++
    "-byte content bound."

/-- Every section that has to be there is asked for once more, in the order of the source. -/
def buildContent (sections : Sections) : Except (List Text) TaskPlanContent :=
  match sections.objective with
  | none => .error ["A plan requires a non-empty objective."]
  | some objective =>
    match sections.scope with
    | none => .error ["A plan requires a scope object."]
    | some scope =>
      match sections.validation with
      | none => .error ["A plan requires a validation object."]
      | some validation => .ok {
          objective := objective
          scope := scope
          nonGoals := sections.nonGoals
          touchpoints := sections.touchpoints
          constraints := sections.constraints
          risks := sections.risks
          steps := sections.steps
          validation := validation
          rollback := sections.rollback
          rationale := sections.rationale }

def validatePlanCandidate (raw : Value) (context : PlanCandidateContext) :
    Except (List Text) TaskPlanContent :=
  match raw with
  | .object object =>
    if context.depth = .none then .error ["A plan cannot be created at depth none."]
    else
      let sections := checkSections toLowercase context object
      if !sections.reasons.isEmpty then .error (sections.reasons.take 8)
      else if PlanningLimits.maxPlanContentBytes < aggregateCandidateBytes jsNumber object then
        .error [aggregateReason]
      else buildContent sections
  | _ => .error ["The plan candidate must be a JSON object."]

end Canonical

end Candidate

end Siralos.PlanValidation
