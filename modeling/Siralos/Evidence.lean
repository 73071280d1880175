import Siralos.Contract

/-!
# Task evidence

Evidence is bounded structured data bound to one contract revision. A claimed `passed`
outcome is not trusted: the structured source has to support it.
-/

set_option autoImplicit false

namespace Siralos.Evidence
open Identity Contract

inductive EvidenceKind where
  | workspaceRead
  | parserResult
  | validationResult
  | reviewResult
  | userApproval
  deriving DecidableEq, Repr

def EvidenceKind.asStr : EvidenceKind → Text
  | .workspaceRead => "workspace_read"
  | .parserResult => "parser_result"
  | .validationResult => "validation_result"
  | .reviewResult => "review_result"
  | .userApproval => "user_approval"

inductive ApprovalDecision where
  | approved
  | denied
  deriving DecidableEq, Repr

def ApprovalDecision.asStr : ApprovalDecision → Text
  | .approved => "approved"
  | .denied => "denied"

inductive EvidenceSource where
  | workspaceRead (paths : List Text) (revision : Option Text)
  | parser (checkedFiles validFiles errors : ℕ)
  | validation (outcome : Text) (workspaceIntegrityVerified : Bool) (unexpectedChanges : ℕ)
  | review (status : Text) (blockingFindings : ℕ)
  | userApproval (approvalId subjectId : Text) (decision : ApprovalDecision)
  deriving DecidableEq, Repr

inductive VerificationOutcome where
  | passed
  | failed
  | incomplete
  deriving DecidableEq, Repr

structure MilestoneEvidenceTarget where
  manifestId : Text
  manifestVersion : ℕ
  requirementId : Text
  deriving DecidableEq, Repr

structure EvidenceVerification where
  checkId : Text
  criterionId : Option Text
  milestone : Option MilestoneEvidenceTarget
  outcome : VerificationOutcome
  deriving DecidableEq, Repr

structure EvidenceRecord where
  id : Text
  kind : EvidenceKind
  taskId : Text
  taskContractRevision : ℕ
  taskContractDigest : Text
  source : EvidenceSource
  verification : Option EvidenceVerification
  attachedAtMs : ℤ
  deriving DecidableEq, Repr

structure EvidenceRef where
  evidenceId : Text
  kind : EvidenceKind
  deriving DecidableEq, Repr

inductive FindingSeverity where
  | critical
  | high
  | medium
  | low
  deriving DecidableEq, Repr

def FindingSeverity.isBlocking : FindingSeverity → Bool
  | .critical | .high => true
  | .medium | .low => false

structure FindingRef where
  findingId : Text
  severity : FindingSeverity
  source : Text
  deriving DecidableEq, Repr

namespace Limits

def maxEvidenceSourceBytes : ℕ := 4096
def maxTaskEvidenceRecords : ℕ := 256
def maxTaskSteps : ℕ := 128
def maxTaskFindings : ℕ := 128
def maxTaskStepDescriptionBytes : ℕ := 4096
def maxTaskFindingFieldBytes : ℕ := 4096
def maxTaskEvidenceIdBytes : ℕ := 256
def maxBindingIdBytes : ℕ := 128
def progressWindowSize : ℕ := 8
def progressDegradedRepetitions : ℕ := 3
def progressStalledRepetitions : ℕ := 5

end Limits

def cleanStatus : Text := "clean"

def sourceSupportsSuccessfulOutcome (kind : EvidenceKind) : EvidenceSource → Bool
  | .workspaceRead paths _ => kind == .workspaceRead && !paths.isEmpty
  | .parser checkedFiles validFiles errors =>
    kind == .parserResult && decide (checkedFiles > 0) && errors == 0 &&
      validFiles == checkedFiles
  | .validation _ verified unexpectedChanges =>
    kind == .validationResult && verified && unexpectedChanges == 0
  | .review status blockingFindings =>
    kind == .reviewResult && status == cleanStatus && blockingFindings == 0
  | .userApproval _ _ decision => kind == .userApproval && decision == .approved

def bindingIdPatternOk (value : Text) : Bool :=
  idPatternOk Limits.maxBindingIdBytes Char.isAlpha value

structure ValidatedEvidence where
  source : EvidenceSource
  verification : Option EvidenceVerification
  deriving DecidableEq, Repr

inductive EvidenceError where
  | emptyId
  | idTooLarge
  | sourceKindMismatch
  | invalidVerification
  | sourceTooLarge
  | passedOutcomeWithoutSuccessfulSource
  deriving DecidableEq, Repr

def EvidenceError.code : EvidenceError → Text
  | .emptyId => "empty_evidence_id"
  | .idTooLarge => "evidence_id_too_large"
  | .sourceKindMismatch => "evidence_source_kind_mismatch"
  | .invalidVerification => "invalid_evidence_verification"
  | .sourceTooLarge => "evidence_source_too_large"
  | .passedOutcomeWithoutSuccessfulSource => "passed_verification_without_successful_source"

def revisionField : Option Text → List (Text × CanonicalValue)
  | none => []
  | some revision => [field "revision" (.str revision)]

def sourceToCanonical : EvidenceSource → CanonicalValue
  | .workspaceRead paths revision =>
    .ofFields (field "type" (.str "workspace_read") ::
      field "paths" (.array (paths.map .str)) :: revisionField revision)
  | .parser checkedFiles validFiles errors =>
    .ofFields [field "type" (.str "parser"), field "checkedFiles" (.u64 checkedFiles),
      field "validFiles" (.u64 validFiles), field "errors" (.u64 errors)]
  | .validation outcome verified unexpectedChanges =>
    .ofFields [field "type" (.str "validation"), field "outcome" (.str outcome),
      field "workspaceIntegrityVerified" (.bool verified),
      field "unexpectedChanges" (.u64 unexpectedChanges)]
  | .review status blockingFindings =>
    .ofFields [field "type" (.str "review"), field "status" (.str status),
      field "blockingFindings" (.u64 blockingFindings)]
  | .userApproval approvalId subjectId decision =>
    .ofFields [field "type" (.str "user_approval"), field "approvalId" (.str approvalId),
      field "subjectId" (.str subjectId), field "decision" (.str decision.asStr)]

def sourceCanonicalBytes (source : EvidenceSource) : Text := toCanonical (sourceToCanonical source)

def sourceKindMatches : EvidenceKind → EvidenceSource → Bool
  | .workspaceRead, .workspaceRead _ _ => true
  | .parserResult, .parser _ _ _ => true
  | .validationResult, .validation _ _ _ => true
  | .reviewResult, .review _ _ => true
  | .userApproval, .userApproval _ _ _ => true
  | _, _ => false

/-- A binding without a criterion is refused whatever its check id is. -/
def verificationValid (verification : EvidenceVerification) : Bool :=
  bindingIdPatternOk verification.checkId && verification.criterionId.any bindingIdPatternOk

def validateEvidencePayload (id : Text) (kind : EvidenceKind) (source : EvidenceSource)
    (verification : Option EvidenceVerification) : Except EvidenceError ValidatedEvidence :=
  if Text.trim id = [] then .error .emptyId
  else if Text.utf8Len id > Limits.maxTaskEvidenceIdBytes then .error .idTooLarge
  else if sourceKindMatches kind source = false then .error .sourceKindMismatch
  else if verification.any (fun entry => !verificationValid entry) then
    .error .invalidVerification
  else if Text.utf8Len (sourceCanonicalBytes source) > Limits.maxEvidenceSourceBytes then
    .error .sourceTooLarge
  else if verification.any (fun entry => entry.outcome == .passed) &&
      !sourceSupportsSuccessfulOutcome kind source then
    .error .passedOutcomeWithoutSuccessfulSource
  else .ok { source, verification }

structure FindingInput where
  findingId : Text
  severity : FindingSeverity
  source : Text
  deriving DecidableEq, Repr

inductive FindingError where
  | tooMany
  | emptyField
  | fieldTooLarge
  | duplicateId
  deriving DecidableEq, Repr

def FindingError.code : FindingError → Text
  | .tooMany => "too_many_findings"
  | .emptyField => "empty_finding_field"
  | .fieldTooLarge => "finding_field_too_large"
  | .duplicateId => "duplicate_finding_id"

def FindingInput.toRef (finding : FindingInput) : FindingRef :=
  { findingId := finding.findingId, severity := finding.severity, source := finding.source }

def validateFindingList : List Text → List FindingInput → Except FindingError (List FindingRef)
  | _, [] => .ok []
  | seen, finding :: rest =>
    if Text.trim finding.findingId = [] ∨ Text.trim finding.source = [] then .error .emptyField
    else if Text.utf8Len finding.findingId > Limits.maxTaskFindingFieldBytes ∨
        Text.utf8Len finding.source > Limits.maxTaskFindingFieldBytes then .error .fieldTooLarge
    else if finding.findingId ∈ seen then .error .duplicateId
    else (validateFindingList (finding.findingId :: seen) rest).map (finding.toRef :: ·)

def validateFindings (findings : List FindingInput) : Except FindingError (List FindingRef) :=
  if findings.length > Limits.maxTaskFindings then .error .tooMany
  else validateFindingList [] findings

end Siralos.Evidence
