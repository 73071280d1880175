import Siralos.Text

/-!
# The workspace scope

A derived scope holds verified files, which carry evidence, and candidate files, which are merely
relevant. Budgets bound the source context; eviction demotes exact views and keeps the files.
-/

set_option autoImplicit false

namespace Siralos.Scope

inductive SourceFileConfidence where
  | verified
  | candidate
  deriving DecidableEq, Repr

inductive SourceView where
  | exact
  | structural
  | summary
  | none
  deriving DecidableEq, Repr

structure SourceFileRef where
  path : Text
  confidence : SourceFileConfidence
  view : SourceView
  revision : Option Text
  evidence : Option Text
  reason : Option Text
  deriving DecidableEq, Repr

structure ScopePromotionRecord where
  path : Text
  evidence : Text
  revision : Text
  reason : Text
  deriving DecidableEq, Repr

structure WorkspaceContextBudget where
  maxActiveExactFiles : ℕ := 4
  maxExactBytes : ℕ := 32 * 1024
  maxStructuralSummaries : ℕ := 12
  maxCandidateFiles : ℕ := 16
  maxRetainedHistoricalViews : ℕ := 4
  deriving DecidableEq, Repr

structure WorkspaceScope where
  verifiedFiles : List SourceFileRef
  candidateFiles : List SourceFileRef
  allowedCreateRoots : List Text
  excludedPaths : List Text
  budget : WorkspaceContextBudget
  promotions : List ScopePromotionRecord
  deriving DecidableEq, Repr

def maxVerifiedFiles : ℕ := 64
def maxCandidateFiles : ℕ := 64
def maxCreateRoots : ℕ := 8
def maxExcludedPaths : ℕ := 32
def maxPromotions : ℕ := 128
def maxPathBytes : ℕ := 1024
def maxEvidenceBytes : ℕ := 256
def maxReasonBytes : ℕ := 512
def maxRevisionBytes : ℕ := 128

def isLowerHex (c : Char) : Bool := c.isDigit || ('a' ≤ c && c ≤ 'f')

def isRevisionHandle (value : Text) : Bool :=
  match Text.stripPrefix "rev_" value with
  | some rest => rest.length == 32 && rest.all isLowerHex
  | none => false

def requireBoundedText (value : Text) (maxBytes : ℕ) (field : Text) : Except Text Text := do
  let text := Text.trim value
  refuse text.isEmpty (field ++ " must not be empty.".toList)
  refuse (decide (maxBytes < Text.utf8Len text))
    (field ++ " exceeds ".toList ++ Text.ofNat maxBytes ++ " UTF-8 bytes.".toList)
  .ok text

def boundedOption (maxBytes : ℕ) (field : Text) : Option Text → Except Text (Option Text)
  | some value => (requireBoundedText value maxBytes field).map some
  | none => .ok none

def looksAbsolute : Text → Bool
  | '/' :: _ => true
  | drive :: ':' :: _ => drive.isAlpha
  | _ => false

def validatePath (path : Text) : Except Text Text := do
  let text ← requireBoundedText path maxPathBytes "A source path"
  refuse (text.contains '\\' || looksAbsolute text || text.contains (Char.ofNat 0))
    ("Source paths must be workspace-relative (no drive, absolute, or backslash): ".toList ++ text)
  refuse ((text.splitOn '/').contains ['.', '.'])
    ("Source paths must not traverse parents: ".toList ++ text)
  .ok text

/-- Only a file that calls itself verified has to carry the handle and the evidence. -/
def validateFileRef (input : SourceFileRef) : Except Text SourceFileRef := do
  let path ← validatePath input.path
  let revision ← boundedOption maxRevisionBytes ("Revision for ".toList ++ path) input.revision
  let evidence ← boundedOption maxEvidenceBytes ("Evidence for ".toList ++ path) input.evidence
  let reason ← boundedOption maxReasonBytes ("Reason for ".toList ++ path) input.reason
  refuse (input.confidence == .verified && !revision.any isRevisionHandle)
    ("Verified file ".toList ++ path ++ " requires an exact revision handle (rev_ + 32 hex).".toList)
  refuse (input.confidence == .verified && evidence.isNone)
    ("Verified file ".toList ++ path ++ " requires evidence; a guess is never verified.".toList)
  .ok { path, confidence := input.confidence, view := input.view, revision, evidence, reason }

structure CreateWorkspaceScopeInput where
  verifiedFiles : List SourceFileRef
  candidateFiles : List SourceFileRef
  allowedCreateRoots : List Text
  excludedPaths : List Text
  budget : Option WorkspaceContextBudget
  promotions : List ScopePromotionRecord
  deriving DecidableEq, Repr

def paths (files : List SourceFileRef) : List Text := files.map SourceFileRef.path

/-- Reads the files in order; `taken` are the paths of the files that may not come again. -/
def collectFiles (taken : List Text) (duplicate : Text) :
    List SourceFileRef → Except Text (List SourceFileRef)
  | [] => .ok []
  | file :: files => do
    let reference ← validateFileRef file
    refuse (taken.contains reference.path) (duplicate ++ reference.path)
    let references ← collectFiles (taken ++ [reference.path]) duplicate files
    .ok (reference :: references)

def collectPaths : List Text → Except Text (List Text)
  | [] => .ok []
  | path :: rest => do
    let text ← validatePath path
    let texts ← collectPaths rest
    .ok (text :: texts)

def validatePromotion (record : ScopePromotionRecord) : Except Text ScopePromotionRecord := do
  let path ← validatePath record.path
  let evidence ← requireBoundedText record.evidence maxEvidenceBytes "Promotion evidence"
  let revision ← requireBoundedText record.revision maxRevisionBytes "Promotion revision"
  refuse (!isRevisionHandle revision)
    ("Promotion for ".toList ++ path ++ " requires an exact revision handle.".toList)
  let reason ← requireBoundedText record.reason maxReasonBytes "Promotion reason"
  .ok { path, evidence, revision, reason }

def collectPromotions : List ScopePromotionRecord → Except Text (List ScopePromotionRecord)
  | [] => .ok []
  | record :: records => do
    let promotion ← validatePromotion record
    let promotions ← collectPromotions records
    .ok (promotion :: promotions)

def atMost (limit : ℕ) (what : Text) : Text :=
  "A workspace scope accepts at most ".toList ++ Text.ofNat limit ++ ' ' :: what ++ ['.']

def requirePositive (field : Text) (value : ℕ) : Except Text Unit :=
  refuse (decide (value < 1))
    ("Budget ".toList ++ field ++ " must be a positive safe integer.".toList)

def validateBudget (budget : WorkspaceContextBudget) : Except Text Unit := do
  requirePositive "maxActiveExactFiles" budget.maxActiveExactFiles
  requirePositive "maxExactBytes" budget.maxExactBytes
  requirePositive "maxStructuralSummaries" budget.maxStructuralSummaries
  requirePositive "maxCandidateFiles" budget.maxCandidateFiles
  requirePositive "maxRetainedHistoricalViews" budget.maxRetainedHistoricalViews

def createWorkspaceScope (input : CreateWorkspaceScopeInput) : Except Text WorkspaceScope := do
  refuse (decide (maxVerifiedFiles < input.verifiedFiles.length))
    (atMost maxVerifiedFiles "verified files")
  refuse (decide (maxCandidateFiles < input.candidateFiles.length))
    (atMost maxCandidateFiles "candidate files")
  let verifiedFiles ← collectFiles [] "Duplicate verified file: " input.verifiedFiles
  let candidateFiles ← collectFiles (paths verifiedFiles) "Duplicate file across scope sets: "
    input.candidateFiles
  let allowedCreateRoots ← collectPaths input.allowedCreateRoots
  refuse (decide (maxCreateRoots < allowedCreateRoots.length))
    (atMost maxCreateRoots "create roots")
  let excludedPaths ← collectPaths input.excludedPaths
  refuse (decide (maxExcludedPaths < excludedPaths.length))
    (atMost maxExcludedPaths "excluded paths")
  let promotions ← collectPromotions input.promotions
  refuse (decide (maxPromotions < promotions.length))
    (atMost maxPromotions "promotion records")
  let budget := input.budget.getD {}
  validateBudget budget
  .ok { verifiedFiles, candidateFiles, allowedCreateRoots, excludedPaths, budget, promotions }

def holds (files : List SourceFileRef) (path : Text) : Bool := files.any fun file => file.path == path

/-- Over the candidate budget the oldest candidate is dropped. -/
def dropOldest (budget : ℕ) (files : List SourceFileRef) : List SourceFileRef :=
  if budget < files.length then files.tail else files

def candidateOf (path : Text) (note : Option Text) : SourceFileRef where
  path := path
  confidence := .candidate
  view := .none
  revision := none
  evidence := none
  reason := note

def addCandidateFile (scope : WorkspaceScope) (path : Text) (note : Option Text) :
    Except Text WorkspaceScope := do
  let reference ← validateFileRef (candidateOf path note)
  if holds scope.verifiedFiles reference.path then .ok scope
  else if holds scope.candidateFiles reference.path then .ok scope
  else
    .ok { scope with
      candidateFiles :=
        dropOldest scope.budget.maxCandidateFiles (scope.candidateFiles ++ [reference]) }

structure PromotionRequest where
  evidence : Text
  revision : Text
  reason : Text
  deriving DecidableEq, Repr

/-- The last records, as many as the limit allows. -/
def lastPromotions (promotions : List ScopePromotionRecord) : List ScopePromotionRecord :=
  promotions.drop (promotions.length - maxPromotions)

def promotedFile (record : ScopePromotionRecord) : SourceFileRef where
  path := record.path
  confidence := .verified
  view := .structural
  revision := some record.revision
  evidence := some record.evidence
  reason := some record.reason

def promoteCandidateFile (scope : WorkspaceScope) (path : Text) (promotion : PromotionRequest) :
    Except Text (WorkspaceScope × ScopePromotionRecord) := do
  refuse (!holds scope.candidateFiles path) ("Cannot promote unknown candidate: ".toList ++ path)
  let evidence ← requireBoundedText promotion.evidence maxEvidenceBytes "Promotion evidence"
  let revision ← requireBoundedText promotion.revision maxRevisionBytes "Promotion revision"
  refuse (!isRevisionHandle revision)
    ("Promotion for ".toList ++ path ++ " requires an exact revision handle.".toList)
  let reason ← requireBoundedText promotion.reason maxReasonBytes "Promotion reason"
  let record : ScopePromotionRecord := { path, evidence, revision, reason }
  let verifiedFiles := scope.verifiedFiles ++ [promotedFile record]
  refuse (decide (maxVerifiedFiles < verifiedFiles.length))
    (atMost maxVerifiedFiles "verified files")
  .ok ({ scope with
    verifiedFiles
    candidateFiles := scope.candidateFiles.filter fun file => file.path != path
    promotions := lastPromotions (scope.promotions ++ [record]) }, record)

def setView (path : Text) (view : SourceView) (files : List SourceFileRef) : List SourceFileRef :=
  files.map fun file => if file.path = path then { file with view } else file

def setFileView (scope : WorkspaceScope) (path : Text) (view : SourceView) :
    Except Text WorkspaceScope := do
  let inVerified := holds scope.verifiedFiles path
  let inCandidates := holds scope.candidateFiles path
  refuse (!inVerified && !inCandidates) ("Cannot set view for unknown file: ".toList ++ path)
  .ok { scope with
    verifiedFiles := if inVerified then setView path view scope.verifiedFiles else scope.verifiedFiles
    candidateFiles :=
      if inCandidates then setView path view scope.candidateFiles else scope.candidateFiles }

structure EvictionRecord where
  path : Text
  droppedView : SourceView
  retainedView : SourceView
  reason : Text
  deriving DecidableEq, Repr

/-- Only the paths of a working set matter to the eviction. -/
structure ActiveWorkingSet where
  files : List Text
  deriving DecidableEq, Repr

structure EvictLowValueContextInput where
  workingSet : Option ActiveWorkingSet
  exactBytesOf : List (Text × ℕ)
  deriving DecidableEq, Repr

def exactFiles (files : List SourceFileRef) : List SourceFileRef :=
  files.filter fun file => file.view == .exact

/-- The size of the first entry for a path; an unreported file counts as empty. -/
def sizeOf (sizes : List (Text × ℕ)) (path : Text) : ℕ :=
  ((sizes.find? fun size => size.1 == path).map Prod.snd).getD 0

structure Demotion where
  scope : WorkspaceScope
  exactCount : ℕ
  exactBytes : ℕ
  evicted : List EvictionRecord
  deriving DecidableEq, Repr

def Demotion.over (d : Demotion) : Bool :=
  decide (d.scope.budget.maxActiveExactFiles < d.exactCount) ||
    decide (d.scope.budget.maxExactBytes < d.exactBytes)

def evictionReason (working : Bool) : Text :=
  if working then
    "over budget; exact source demoted to summary with revision/evidence retained"
  else "over budget; low-value exact source demoted to summary with revision/evidence retained"

section Eviction

variable (working : List Text) (estimated : List (Text × ℕ))

def demote (d : Demotion) (file : SourceFileRef) : Except Text Demotion := do
  let scope ← setFileView d.scope file.path .summary
  .ok {
    scope
    exactCount := d.exactCount - 1
    exactBytes := d.exactBytes - sizeOf estimated file.path
    evicted := d.evicted ++
      [⟨file.path, .exact, .summary, evictionReason (working.contains file.path)⟩] }

/-- The files of all tiers in order, until the budget holds. -/
def demoteWhileOver (d : Demotion) : List SourceFileRef → Except Text Demotion
  | [] => .ok d
  | file :: files =>
    if d.over then do
      let next ← demote working estimated d file
      demoteWhileOver next files
    else .ok d

end Eviction

def evictLowValueContext (scope : WorkspaceScope) (input : EvictLowValueContextInput) :
    Except Text (WorkspaceScope × List EvictionRecord) := do
  let working := (input.workingSet.map ActiveWorkingSet.files).getD []
  let exactVerified := exactFiles scope.verifiedFiles
  let exactCandidates := exactFiles scope.candidateFiles
  let estimated := (exactVerified ++ exactCandidates).map fun file => (file.path, sizeOf input.exactBytesOf file.path)
  let start : Demotion :=
    { scope
      exactCount := exactVerified.length + exactCandidates.length
      exactBytes := (estimated.map Prod.snd).sum
      evicted := [] }
  let tiers := exactCandidates ++
    exactVerified.filter (fun file => !working.contains file.path) ++
    exactVerified.filter fun file => working.contains file.path
  let final ← demoteWhileOver working estimated start tiers
  .ok (final.scope, final.evicted)

end Siralos.Scope
