import Mathlib.Data.Finset.Sort
import Siralos.Json
import Siralos.KnowledgePolicy
import Siralos.Text

/-!
# Project knowledge

Facts evolve by revisions of a subject or stand alone; a current pointer says which revision is
active, and the pinned subjects are kept beside the activation of their facts.
-/

set_option autoImplicit false

namespace Siralos.Knowledge

open Json Identity

structure KnowledgeLimits where
  maxFacts : ℕ := 256
  maxRevisionsPerSubject : ℕ := 64
  maxContentBytes : ℕ := 4 * 1024
  maxPinnedFacts : ℕ := 6
  maxPinnedBytes : ℕ := 1200
  maxRetrievalFacts : ℕ := 8
  maxRetrievalBytes : ℕ := 6000
  deriving DecidableEq, Repr

structure KnowledgePorts where
  nowMs : ℕ
  secrets : List Text
  fileStates : List (Text × Text)
  researchEvidenceIds : Option (List Text)
  deriving DecidableEq, Repr

/-- The hash and the Unicode lower case are dependencies. -/
structure KnowledgeLibrary where
  sha256Hex : Text → Text
  toLowercase : Text → Text

/-- `value[key]`, which is null where there is no such field. -/
def valueAt (value : Value) (key : Text) : Value := (value.get key).getD .null

/-- `value[key].as_str().unwrap_or_default()` -/
def textAt (value : Value) (key : Text) : Text := ((valueAt value key).asStr).getD []

def asBool : Value → Option Bool
  | .bool b => some b
  | _ => none

def isNumber : Value → Bool
  | .number _ => true
  | _ => false

section Validation

variable (lib : KnowledgeLibrary) (ports : KnowledgePorts) (limits : KnowledgeLimits)

def isAsciiLower (c : Char) : Bool := 'a' ≤ c && c ≤ 'z'

def isValidSubjectKey : Text → Bool
  | [] => false
  | first :: rest =>
    decide (Text.utf8Len (first :: rest) ≤ 128) && isAsciiLower first &&
      rest.all fun c => isAsciiLower c || c.isDigit || c == '.' || c == '_' || c == '-'

def requireThat (condition : Bool) (message : Text) : Except Text Unit :=
  if condition then .ok () else .error message

def validateEvidenceRef (reference : Value) : Except Text Unit :=
  requireThat (!(textAt reference "evidenceId").isEmpty)
    "An evidence provenance reference requires an evidence id."

def isPathChar (c : Char) : Bool :=
  c.isAlphanum || c == '.' || c == '/' || c == ' ' || c == '-'

def isLowerHex (c : Char) : Bool := c.isDigit || ('a' ≤ c && c ≤ 'f')

def validateFileRef (reference : Value) : Except Text Unit := do
  let path := textAt reference "path"
  let sha256 := textAt reference "sha256"
  requireThat (!path.isEmpty && path.all isPathChar)
    ("The workspace-file provenance path \"" ++ path ++ "\" is malformed.".toList)
  requireThat (decide (Text.utf8Len sha256 = 64) && sha256.all isLowerHex)
    "A workspace-file provenance reference requires the exact 64-hex-digit SHA-256."
  requireThat (ports.fileStates.contains (path, sha256))
    ("The referenced file state \"" ++ path ++
      "\" does not match the current workspace; reread the file before citing it.".toList)

def researchKinds : List Text :=
  ["repository".toList, "godot-docs".toList, "fake".toList]

def bounded128 (text : Text) : Bool := !text.isEmpty && decide (Text.utf8Len text ≤ 128)

def validateResearchRef (reference : Value) : Except Text Unit := do
  let evidenceId := textAt reference "evidenceId"
  let source := valueAt reference "source"
  requireThat (!evidenceId.isEmpty)
    "A research-evidence provenance reference requires an evidence id."
  requireThat (researchKinds.contains (textAt source "kind") && bounded128 (textAt source "id") &&
      bounded128 (textAt source "label"))
    "A research-evidence provenance reference requires a valid research source."
  requireThat (isNumber (valueAt reference "fetchedAtMs"))
    "A research-evidence provenance reference requires a valid fetch timestamp."
  match ports.researchEvidenceIds with
  | none =>
    .error "Research-evidence provenance requires host verification; no research-evidence verifier is configured."
  | some ids =>
    requireThat (ids.contains evidenceId)
      ("The referenced research evidence \"" ++ evidenceId ++
        "\" does not exist; a fact cannot cite missing evidence.".toList)

def validateProvenanceRef (reference : Value) : Except Text Unit :=
  let kind := textAt reference "type"
  if kind = ("evidence" : Text) then validateEvidenceRef reference
  else if kind = ("workspace_file" : Text) then validateFileRef ports reference
  else if kind = ("research_evidence" : Text) then validateResearchRef ports reference
  else .error "Unknown provenance reference type."

def validateProvenance : List Value → Except Text Unit
  | [] => .ok ()
  | reference :: references => do
    validateProvenanceRef ports reference
    validateProvenance references

def factKinds : List Text := ["fact".toList, "decision".toList, "convention".toList]

def validateContent (content : Text) : Except Text Unit := do
  requireThat (!Text.blank content) "A knowledge fact requires non-empty content."
  requireThat (decide (Text.utf8Len content ≤ limits.maxContentBytes))
    ("Knowledge content exceeds the limit of ".toList ++ Text.ofNat limits.maxContentBytes ++
      " bytes.".toList)

def validateSubject : Option Value → Except Text Unit
  | none => .ok ()
  | some subjectKey =>
    let key := subjectKey.asStr.getD []
    requireThat (isValidSubjectKey key)
      ("The subject key \"" ++ key ++
        "\" is malformed; use a lowercase dotted key such as project.godot.version.".toList)

def rejectClaims (content : Text) : Except Text Unit :=
  match rejectPolicyShapedContent lib.toLowercase content with
  | some reason => .error reason
  | none => .ok ()

def validateCandidate (candidate : Value) : Except Text Unit := do
  let content := textAt candidate "content"
  validateContent limits content
  validateSubject (candidate.get "subjectKey")
  requireThat (((valueAt candidate "type").asStr).all factKinds.contains) "Unknown knowledge fact type."
  validateProvenance ports ((valueAt candidate "provenance").asArray.getD [])
  requireThat (ports.secrets.all fun secret => !decide (secret <:+: content))
    "The candidate contains a known secret and cannot be stored as knowledge."
  rejectClaims lib content

end Validation

inductive Confidence where
  | low
  | medium
  | high
  deriving DecidableEq, Repr

def Confidence.asStr : Confidence → Text
  | .low => "low"
  | .medium => "medium"
  | .high => "high"

inductive Activation where
  | retrieved
  | pinned
  deriving DecidableEq, Repr

structure Fact where
  id : Text
  subjectKey : Option Text
  kind : Text
  content : Text
  contentDigest : Text
  revision : ℕ
  provenance : Value
  confidence : Confidence
  volatility : Text
  createdAtMs : ℕ
  updatedAtMs : ℕ
  lastVerifiedAtMs : Option ℕ
  expiresAtMs : Option ℕ
  activation : Activation
  deriving Repr

def confidenceFor (candidate : Value) : Confidence :=
  match (valueAt candidate "proposedConfidence").asStr with
  | some proposed =>
    if proposed = ("high" : Text) then .high
    else if proposed = ("medium" : Text) then .medium
    else .low
  | none =>
    if (((valueAt candidate "provenance").asArray).getD []).isEmpty then .low else .medium

section Identities

variable (sha256Hex : Text → Text)

def subjectPayload : Option Text → CanonicalValue
  | some subjectKey => .str subjectKey
  | none => .null

def computeFactId (subjectKey : Option Text) (content : Text) (revision : ℕ) : Text :=
  let payload := CanonicalValue.ofFields [field "content" (.str content),
    field "revision" (.u64 revision), field "scope" (.str "project"),
    field "subjectKey" (subjectPayload subjectKey)]
  "kf_" ++ (sha256Hex (toCanonical payload)).take 24

def computeKnowledgeFactContentDigest (content : Text) : Text :=
  artifactDigestHex sha256Hex "KnowledgeFact" 1
    (toCanonical (.ofFields [field "content" (.str content)]))

def buildFact (ports : KnowledgePorts) (subjectKey : Option Text) (revision : ℕ)
    (candidate : Value) (activation : Activation) : Fact :=
  let content := textAt candidate "content"
  { id := computeFactId sha256Hex subjectKey content revision
    subjectKey := subjectKey
    kind := ((valueAt candidate "type").asStr).getD "fact"
    content := content
    contentDigest := computeKnowledgeFactContentDigest sha256Hex content
    revision := revision
    provenance := (candidate.get "provenance").getD (.array [])
    confidence := confidenceFor candidate
    volatility := ((valueAt candidate "proposedVolatility").asStr).getD "normal"
    createdAtMs := ports.nowMs
    updatedAtMs := ports.nowMs
    lastVerifiedAtMs := candidate.get "lastVerifiedAtMs" >>= Value.asU64
    expiresAtMs := candidate.get "expiresAtMs" >>= Value.asU64
    activation := activation }

end Identities

/-- The bytes of the subject key, a space and the content. -/
def projectionBytes (label content : Text) : ℕ :=
  Text.utf8Len (label ++ ' ' :: content)

def factProjectionBytes (fact : Fact) : ℕ :=
  projectionBytes (fact.subjectKey.getD fact.id) fact.content

def isExpired (fact : Fact) (atMs : ℕ) : Bool :=
  fact.expiresAtMs.any fun expiresAt => decide (expiresAt ≤ atMs)

structure Selection where
  factId : Text
  subjectKey : Option Text
  revision : ℕ
  confidence : Confidence
  volatility : Text
  score : ℕ
  matchReasons : List Text
  expiresAtMs : Option ℕ
  deriving DecidableEq, Repr

structure RetrievalTrace where
  atMs : ℕ
  text : Option Text
  subjectKey : Option Text
  paths : List Text
  factTypes : Value
  selected : List Selection
  consideredCount : ℕ
  omittedCount : ℕ
  limit : ℕ
  maxBytes : ℕ
  usedBytes : ℕ
  deriving Repr

structure KnowledgeCoordinator where
  ports : KnowledgePorts
  limits : KnowledgeLimits
  bySubject : TextMap (List Fact) := ∅
  current : TextMap ℕ := ∅
  oneOff : TextMap Fact := ∅
  retired : Finset Text := ∅
  pinned : Finset Text := ∅
  lastTrace : Option RetrievalTrace := none

inductive ProposalResult where
  | accepted (fact : Fact)
  | unchanged
  | rejected (reason : Text)
  deriving Repr

namespace KnowledgeCoordinator

def new (ports : KnowledgePorts) (overrides : KnowledgeLimits) : KnowledgeCoordinator where
  ports := { ports with secrets := ports.secrets.filter fun secret => !secret.isEmpty }
  limits := { maxPinnedFacts := overrides.maxPinnedFacts }

def fact (k : KnowledgeCoordinator) (subjectKey : Text) : Option Fact := do
  let entry ← k.bySubject.lookup subjectKey
  let index ← k.current.lookup subjectKey
  entry[index - 1]?

def history (k : KnowledgeCoordinator) (subjectKey : Text) : List Fact :=
  (k.bySubject.lookup subjectKey).getD []

def held (k : KnowledgeCoordinator) : ℕ := k.oneOff.keys.length + k.bySubject.keys.length

def factsLimitMessage (limits : KnowledgeLimits) : Text :=
  "The knowledge store reached the limit of ".toList ++ Text.ofNat limits.maxFacts ++
    " active facts.".toList

def historyLimitMessage (limits : KnowledgeLimits) (subjectKey : Text) : Text :=
  "The subject \"".toList ++ subjectKey ++
    "\" has reached the revision-history limit of ".toList ++
    Text.ofNat limits.maxRevisionsPerSubject ++
    "; retire and re-create it instead of churning revisions.".toList

def pinBudgetMessage (limits : KnowledgeLimits) : Text :=
  "The pinned-knowledge budget (".toList ++ Text.ofNat limits.maxPinnedFacts ++
    ") is exhausted; unpin another fact first.".toList

def wantsPin (candidate : Value) : Bool := asBool (valueAt candidate "pinned") == some true

def hasPinRoom (k : KnowledgeCoordinator) : Bool :=
  decide (k.pinned.card < k.limits.maxPinnedFacts)

/-- What ends a proposal for a subject before anything is stored. -/
def subjectRefusal (k : KnowledgeCoordinator) (candidate : Value) (subjectKey : Text) :
    Option ProposalResult :=
  if (k.fact subjectKey).any fun current =>
      normalizeFactContent current.content == normalizeFactContent (textAt candidate "content")
  then some .unchanged
  else if k.limits.maxRevisionsPerSubject ≤ (k.history subjectKey).length then
    some (.rejected (historyLimitMessage k.limits subjectKey))
  else if subjectKey ∉ k.bySubject ∧ k.limits.maxFacts ≤ k.held then
    some (.rejected (factsLimitMessage k.limits))
  else if wantsPin candidate && !k.hasPinRoom then
    some (.rejected (pinBudgetMessage k.limits))
  else none

variable (lib : KnowledgeLibrary)

def storeRevision (k : KnowledgeCoordinator) (candidate : Value) (subjectKey : Text) :
    KnowledgeCoordinator × ProposalResult :=
  let entry := k.history subjectKey
  let activation := if wantsPin candidate then .pinned else .retrieved
  let fact := buildFact lib.sha256Hex k.ports (some subjectKey) (entry.length + 1) candidate activation
  ({ k with
      bySubject := k.bySubject.insert subjectKey (entry ++ [fact])
      current := k.current.insert subjectKey (entry.length + 1)
      retired := k.retired.erase subjectKey
      pinned := if wantsPin candidate then insert subjectKey k.pinned else k.pinned },
    .accepted fact)

def proposeSubject (k : KnowledgeCoordinator) (candidate : Value) (subjectKey : Text) :
    KnowledgeCoordinator × ProposalResult :=
  match k.subjectRefusal candidate subjectKey with
  | some result => (k, result)
  | none => k.storeRevision lib candidate subjectKey

def proposeOneOff (k : KnowledgeCoordinator) (candidate : Value) :
    KnowledgeCoordinator × ProposalResult :=
  if k.limits.maxFacts ≤ k.held then (k, .rejected (factsLimitMessage k.limits))
  else
    let fact := buildFact lib.sha256Hex k.ports none 1 candidate .retrieved
    ({ k with oneOff := k.oneOff.insert fact.id fact }, .accepted fact)

def subjectOf (candidate : Value) : Option Text := candidate.get "subjectKey" >>= Value.asStr

def propose (k : KnowledgeCoordinator) (candidate : Value) :
    KnowledgeCoordinator × ProposalResult :=
  match validateCandidate lib k.ports k.limits candidate with
  | .error reason => (k, .rejected reason)
  | .ok () =>
    match subjectOf candidate with
    | some subjectKey => k.proposeSubject lib candidate subjectKey
    | none => k.proposeOneOff lib candidate

def subjectFacts (k : KnowledgeCoordinator) : List Fact :=
  (sortedKeys k.bySubject).filterMap k.fact

def activeFacts (k : KnowledgeCoordinator) : List Fact :=
  (k.subjectFacts ++ (sortedKeys k.oneOff).filterMap k.oneOff.lookup).mergeSort
    fun left right => left.id ≤ right.id

def retiredSubjects (k : KnowledgeCoordinator) : List Text := k.retired.sort

def pinnedFacts (k : KnowledgeCoordinator) : List Fact :=
  (k.pinned.sort.filterMap k.fact).mergeSort fun left right =>
    left.subjectKey.getD [] ≤ right.subjectKey.getD []

def replaceActivation (k : KnowledgeCoordinator) (subjectKey : Text) (activation : Activation) :
    KnowledgeCoordinator :=
  match k.bySubject.lookup subjectKey, k.current.lookup subjectKey with
  | some entry, some index =>
    { k with
      bySubject := k.bySubject.insert subjectKey
        (entry.modify (index - 1) fun current => { current with activation }) }
  | _, _ => k

def pinnedProjectionBytes (k : KnowledgeCoordinator) : ℕ :=
  ((k.pinned.sort.filterMap k.fact).map factProjectionBytes).sum

def noActiveFactMessage (subjectKey : Text) : Text :=
  "No active fact exists for subject \"".toList ++ subjectKey ++ "\".".toList

def pinFactsMessage (limits : KnowledgeLimits) : Text :=
  "The pinned-knowledge budget (".toList ++ Text.ofNat limits.maxPinnedFacts ++
    " facts) is exhausted; unpin another fact first.".toList

def pinBytesMessage (limits : KnowledgeLimits) (subjectKey : Text) : Text :=
  "Pinning \"".toList ++ subjectKey ++
    "\" would exceed the pinned-knowledge byte budget (".toList ++
    Text.ofNat limits.maxPinnedBytes ++ ").".toList

/-- The byte check counts the content of the new fact without its subject key. -/
def pin (k : KnowledgeCoordinator) (subjectKey : Text) : KnowledgeCoordinator × Except Text Unit :=
  match k.fact subjectKey with
  | none => (k, .error (noActiveFactMessage subjectKey))
  | some fact =>
    if subjectKey ∈ k.pinned then (k, .ok ())
    else if k.limits.maxPinnedFacts ≤ k.pinned.card then (k, .error (pinFactsMessage k.limits))
    else if k.limits.maxPinnedBytes < k.pinnedProjectionBytes + Text.utf8Len fact.content then
      (k, .error (pinBytesMessage k.limits subjectKey))
    else
      (({ k with pinned := insert subjectKey k.pinned } : KnowledgeCoordinator).replaceActivation
        subjectKey .pinned, .ok ())

def unpin (k : KnowledgeCoordinator) (subjectKey : Text) : KnowledgeCoordinator :=
  if subjectKey ∈ k.pinned then
    ({ k with pinned := k.pinned.erase subjectKey } : KnowledgeCoordinator).replaceActivation
      subjectKey .retrieved
  else k

/-- The current pointer becomes absent; the revisions stay. -/
def retire (k : KnowledgeCoordinator) (subjectKey : Text) : KnowledgeCoordinator :=
  if subjectKey ∈ k.bySubject then
    { k with
      current := k.current.erase subjectKey
      retired := insert subjectKey k.retired
      pinned := k.pinned.erase subjectKey }
  else k

def size (k : KnowledgeCoordinator) : ℕ := k.bySubject.keys.length + k.oneOff.keys.length

end KnowledgeCoordinator

end Siralos.Knowledge
