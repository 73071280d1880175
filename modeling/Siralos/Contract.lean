import Siralos.Identity

/-!
# Task contracts

A contract is validated when it is built and never changed: a material change is a new
revision. The digest covers the content only, so equal contents share it across revisions.
-/

set_option autoImplicit false

namespace Siralos.Contract
open Identity

inductive VerificationKind where
  | deterministic
  | review
  | user
  deriving DecidableEq, Repr

def VerificationKind.asStr : VerificationKind → Text
  | .deterministic => "deterministic"
  | .review => "review"
  | .user => "user"

inductive ConstraintKind where
  | scope
  | process
  | security
  | escalation
  deriving DecidableEq, Repr

def ConstraintKind.asStr : ConstraintKind → Text
  | .scope => "scope"
  | .process => "process"
  | .security => "security"
  | .escalation => "escalation"

inductive PausePolicy where
  | none
  | onApproval
  | onEscalation
  deriving DecidableEq, Repr

def PausePolicy.asStr : PausePolicy → Text
  | .none => "none"
  | .onApproval => "on_approval"
  | .onEscalation => "on_escalation"

structure AcceptanceCriterion where
  id : Text
  description : Text
  verificationKind : VerificationKind
  deriving DecidableEq, Repr

structure TaskConstraint where
  id : Text
  description : Text
  kind : ConstraintKind
  deriving DecidableEq, Repr

namespace Limits

def maxIdBytes : ℕ := 95
def maxRequestBytes : ℕ := 16 * 1024
def maxContextBytes : ℕ := 32 * 1024
def maxConstraints : ℕ := 32
def maxAcceptanceCriteria : ℕ := 64
def maxEntryIdBytes : ℕ := 64
def maxEntryDescriptionBytes : ℕ := 4096

end Limits

def taskIdPatternOk (value : Text) : Bool := idPatternOk Limits.maxIdBytes Char.isAlphanum value

def entryIdPatternOk (value : Text) : Bool := idPatternOk Limits.maxEntryIdBytes Char.isAlpha value

/-- The source's other variants name values its typed inputs cannot carry. -/
inductive ContractError where
  | invalidTaskContractId
  | emptyRequest
  | requestTooLarge
  | invalidRevision
  | tooManyAcceptanceCriteria
  | tooManyConstraints
  | invalidCriterionId
  | duplicateCriterionId
  | emptyCriterionDescription
  | criterionDescriptionTooLarge
  | noAcceptanceCriteria
  | invalidConstraintId
  | duplicateConstraintId
  | emptyConstraintDescription
  | constraintDescriptionTooLarge
  | contextTooLarge
  | revisionIdMismatch
  deriving DecidableEq, Repr

def ContractError.code : ContractError → Text
  | .invalidTaskContractId => "invalid_task_contract_id"
  | .emptyRequest => "empty_request"
  | .requestTooLarge => "request_too_large"
  | .invalidRevision => "invalid_revision"
  | .tooManyAcceptanceCriteria => "too_many_acceptance_criteria"
  | .tooManyConstraints => "too_many_constraints"
  | .invalidCriterionId => "invalid_criterion_id"
  | .duplicateCriterionId => "duplicate_criterion_id"
  | .emptyCriterionDescription => "empty_criterion_description"
  | .criterionDescriptionTooLarge => "criterion_description_too_large"
  | .noAcceptanceCriteria => "no_acceptance_criteria"
  | .invalidConstraintId => "invalid_constraint_id"
  | .duplicateConstraintId => "duplicate_constraint_id"
  | .emptyConstraintDescription => "empty_constraint_description"
  | .constraintDescriptionTooLarge => "constraint_description_too_large"
  | .contextTooLarge => "context_too_large"
  | .revisionIdMismatch => "revision_id_mismatch"

def ContractError.message : ContractError → Text
  | .invalidTaskContractId => "Invalid task contract id"
  | .emptyRequest => "A task contract requires a non-empty request."
  | .requestTooLarge => "A task contract request exceeds the UTF-8 byte bound."
  | .invalidRevision => "A task contract revision must be at least 1."
  | .tooManyAcceptanceCriteria => "A task contract accepts at most 64 acceptance criteria."
  | .tooManyConstraints => "A task contract accepts at most 32 constraints."
  | .invalidCriterionId => "Invalid acceptance criterion id"
  | .duplicateCriterionId => "Duplicate acceptance criterion id"
  | .emptyCriterionDescription => "An acceptance criterion requires a non-empty description."
  | .criterionDescriptionTooLarge => "An acceptance criterion description exceeds the byte bound."
  | .noAcceptanceCriteria => "A task contract requires at least one acceptance criterion."
  | .invalidConstraintId => "Invalid task constraint id"
  | .duplicateConstraintId => "Duplicate task constraint id"
  | .emptyConstraintDescription => "A task constraint requires a non-empty description."
  | .constraintDescriptionTooLarge => "A task constraint description exceeds the byte bound."
  | .contextTooLarge => "A task contract context exceeds the UTF-8 byte bound."
  | .revisionIdMismatch => "A task contract revision must preserve the contract id."

def validateEntryDescription (description : Text) (empty tooLarge : ContractError) :
    Except ContractError Text :=
  let trimmed := Text.trim description
  if trimmed = [] then .error empty
  else if Text.utf8Len trimmed > Limits.maxEntryDescriptionBytes then .error tooLarge
  else .ok trimmed

/-- Criteria and constraints are validated by one loop over different errors. -/
structure EntryRules (E : Type) where
  id : E → Text
  description : E → Text
  describe : Text → E → E
  invalidId : ContractError
  duplicateId : ContractError
  emptyDescription : ContractError
  descriptionTooLarge : ContractError

def criterionRules : EntryRules AcceptanceCriterion where
  id := AcceptanceCriterion.id
  description := AcceptanceCriterion.description
  describe := fun description criterion => { criterion with description }
  invalidId := .invalidCriterionId
  duplicateId := .duplicateCriterionId
  emptyDescription := .emptyCriterionDescription
  descriptionTooLarge := .criterionDescriptionTooLarge

def constraintRules : EntryRules TaskConstraint where
  id := TaskConstraint.id
  description := TaskConstraint.description
  describe := fun description constraint => { constraint with description }
  invalidId := .invalidConstraintId
  duplicateId := .duplicateConstraintId
  emptyDescription := .emptyConstraintDescription
  descriptionTooLarge := .constraintDescriptionTooLarge

section Entries

variable {E : Type} (rules : EntryRules E)

def validateEntries : List Text → List E → Except ContractError (List E)
  | _, [] => .ok []
  | seen, entry :: rest =>
    if entryIdPatternOk (rules.id entry) = false then .error rules.invalidId
    else if rules.id entry ∈ seen then .error rules.duplicateId
    else
      match validateEntryDescription (rules.description entry) rules.emptyDescription
        rules.descriptionTooLarge with
      | .error error => .error error
      | .ok description =>
        match validateEntries (rules.id entry :: seen) rest with
        | .error error => .error error
        | .ok entries => .ok (rules.describe description entry :: entries)

theorem validate_entries_cons (seen : List Text) (entry : E) (rest entries : List E)
    (h : validateEntries rules seen (entry :: rest) = .ok entries) :
    rules.id entry ∉ seen ∧ ∃ description tail,
      validateEntries rules (rules.id entry :: seen) rest = .ok tail ∧
      entries = rules.describe description entry :: tail := by
  simp only [validateEntries] at h
  split at h
  · simp at h
  · split at h
    · simp at h
    · rename_i hseen
      split at h
      · simp at h
      · rename_i description _
        split at h
        · simp at h
        · rename_i tail htail
          simp only [Except.ok.injEq] at h
          exact ⟨hseen, description, tail, htail, h.symm⟩

theorem validate_entries_ids (hid : ∀ description entry,
    rules.id (rules.describe description entry) = rules.id entry) (seen : List Text)
    (input entries : List E) (h : validateEntries rules seen input = .ok entries) :
    (entries.map rules.id).Nodup ∧ ∀ id ∈ entries.map rules.id, id ∉ seen := by
  induction input generalizing seen entries with
  | nil =>
    simp only [validateEntries, Except.ok.injEq] at h
    subst h
    simp
  | cons entry rest ih =>
    obtain ⟨hseen, description, tail, htail, rfl⟩ := validate_entries_cons rules _ _ _ _ h
    obtain ⟨hnodup, hunseen⟩ := ih _ _ htail
    simp only [List.map_cons, hid, List.nodup_cons, List.mem_cons, forall_eq_or_imp]
    refine ⟨⟨fun hm => hunseen _ hm (by simp), hnodup⟩, hseen, ?_⟩
    intro id hm hs
    exact hunseen id hm (List.mem_cons_of_mem _ hs)

end Entries

/-- Private fields of the source: a contract that exists has passed validation. -/
structure TaskContract where
  id : Text
  revision : ℕ
  digest : Text
  request : Text
  context : Option Text
  constraints : List TaskConstraint
  acceptanceCriteria : List AcceptanceCriterion
  pausePolicy : PausePolicy
  required : acceptanceCriteria ≠ []
  distinct : (acceptanceCriteria.map AcceptanceCriterion.id).Nodup
  deriving DecidableEq

def taskContractIdentitySchema : ℕ := 1

def criterionPayload (criterion : AcceptanceCriterion) : CanonicalValue :=
  .ofFields [field "description" (.str criterion.description), field "id" (.str criterion.id),
    field "verificationKind" (.str criterion.verificationKind.asStr)]

def constraintPayload (constraint : TaskConstraint) : CanonicalValue :=
  .ofFields [field "description" (.str constraint.description), field "id" (.str constraint.id),
    field "kind" (.str constraint.kind.asStr)]

def contextPayload : Option Text → List (Text × CanonicalValue)
  | none => []
  | some context => [field "context" (.str context)]

def contentPayload (id request : Text) (context : Option Text)
    (constraints : List TaskConstraint) (acceptanceCriteria : List AcceptanceCriterion)
    (pausePolicy : PausePolicy) : CanonicalValue :=
  .ofFields (field "acceptanceCriteria" (.array (acceptanceCriteria.map criterionPayload)) ::
    field "constraints" (.array (constraints.map constraintPayload)) ::
    contextPayload context ++
    [field "id" (.str id), field "pausePolicy" (.str pausePolicy.asStr),
      field "request" (.str request)])

def normalizeContext : Option Text → Except ContractError (Option Text)
  | none => .ok none
  | some value =>
    let trimmed := Text.trim value
    if trimmed = [] then .ok none
    else if Text.utf8Len trimmed > Limits.maxContextBytes then .error .contextTooLarge
    else .ok (some trimmed)

theorem criteria_distinct (input criteria : List AcceptanceCriterion)
    (h : validateEntries criterionRules [] input = .ok criteria) :
    (criteria.map AcceptanceCriterion.id).Nodup :=
  (validate_entries_ids criterionRules (fun _ _ => rfl) _ _ _ h).1

section Digest

variable (sha256Hex : Text → Text)

def buildContract (id request : Text) (context : Option Text) (constraints : List TaskConstraint)
    (criteria : List AcceptanceCriterion) (pausePolicy : PausePolicy) (revision : ℕ)
    (required : criteria ≠ []) (distinct : (criteria.map AcceptanceCriterion.id).Nodup) :
    TaskContract :=
  { id, revision, request, context, constraints, pausePolicy, required, distinct
    acceptanceCriteria := criteria
    digest := artifactDigestHex sha256Hex "TaskContract" taskContractIdentitySchema
      (toCanonical (contentPayload id request context constraints criteria pausePolicy)) }

def validateShape (id request : Text) (context : Option Text) (constraints : List TaskConstraint)
    (acceptanceCriteria : List AcceptanceCriterion) (pausePolicy : PausePolicy) (revision : ℕ) :
    Except ContractError TaskContract :=
  let request := Text.trim request
  if taskIdPatternOk id = false then .error .invalidTaskContractId
  else if request = [] then .error .emptyRequest
  else if Text.utf8Len request > Limits.maxRequestBytes then .error .requestTooLarge
  else if revision < 1 then .error .invalidRevision
  else if acceptanceCriteria.length > Limits.maxAcceptanceCriteria then
    .error .tooManyAcceptanceCriteria
  else if constraints.length > Limits.maxConstraints then .error .tooManyConstraints
  else
    match h : validateEntries criterionRules [] acceptanceCriteria with
    | .error error => .error error
    | .ok criteria =>
      if required : criteria = [] then .error .noAcceptanceCriteria
      else
        match validateEntries constraintRules [] constraints with
        | .error error => .error error
        | .ok constraints =>
          match normalizeContext context with
          | .error error => .error error
          | .ok context =>
            .ok (buildContract sha256Hex id request context constraints criteria pausePolicy
              revision required (criteria_distinct _ _ h))

structure CreateTaskContractInput where
  id : Text
  request : Text
  context : Option Text
  constraints : Option (List TaskConstraint)
  acceptanceCriteria : List AcceptanceCriterion
  pausePolicy : Option PausePolicy
  deriving Repr

inductive ReviseContext where
  | keep
  | set (value : Text)
  deriving Repr

structure ReviseTaskContractInput where
  id : Text
  request : Option Text
  context : Option ReviseContext
  constraints : Option (List TaskConstraint)
  acceptanceCriteria : Option (List AcceptanceCriterion)
  pausePolicy : Option PausePolicy
  deriving Repr

def create (input : CreateTaskContractInput) : Except ContractError TaskContract :=
  validateShape sha256Hex input.id input.request input.context (input.constraints.getD [])
    input.acceptanceCriteria (input.pausePolicy.getD .none) 1

def revisedContext (contract : TaskContract) : Option ReviseContext → Option Text
  | some (.set value) => some value
  | some .keep => contract.context
  | none => contract.context

def revise (contract : TaskContract) (changes : ReviseTaskContractInput) :
    Except ContractError TaskContract :=
  if changes.id ≠ contract.id then .error .revisionIdMismatch
  else
    validateShape sha256Hex changes.id (changes.request.getD contract.request)
      (revisedContext contract changes.context) (changes.constraints.getD contract.constraints)
      (changes.acceptanceCriteria.getD contract.acceptanceCriteria)
      (changes.pausePolicy.getD contract.pausePolicy) (contract.revision + 1)

end Digest

end Siralos.Contract
