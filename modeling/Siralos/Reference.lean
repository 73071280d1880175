import Mathlib.Data.Finset.Insert
import Siralos.ReferencePath
import Siralos.Text

/-!
# References

A reference is a read-only external source with an immutable current revision. The registry owns
the references, replaces a revision only in a refresh, and hands out snapshots to tasks.
-/

set_option autoImplicit false

namespace Siralos.References

open Identity

inductive ReferenceKind where
  | localDirectory
  | repository
  deriving DecidableEq, Repr

inductive RepositoryRef where
  | commit (commit : Text)
  | tag (tag : Text)
  | branch (branch : Text)
  deriving DecidableEq, Repr

inductive ReferenceSource where
  | localDirectory (path : Text)
  | repository (repository : Text) (ref : RepositoryRef)
  deriving DecidableEq, Repr

inductive ResolvedReferenceIdentity where
  | localDirectory (canonicalPath fingerprint : Text)
  | repository (origin commit : Text) (requestedRef : RepositoryRef)
  deriving DecidableEq, Repr

structure ReferenceRevision where
  identity : ResolvedReferenceIdentity
  resolvedAtMs : ℕ
  deriving DecidableEq, Repr

inductive ReferenceStatus where
  | ready
  | resolutionFailed
  | unavailable
  | declined
  deriving DecidableEq, Repr

inductive ReferenceTrustClass where
  | explicitUser
  | trustedProject
  | untrustedProject
  | managed
  deriving DecidableEq, Repr

structure ReferenceDeclaration where
  aliasName : Text
  kind : ReferenceKind
  source : ReferenceSource
  description : Option Text
  deriving DecidableEq, Repr

structure Reference where
  id : Text
  aliasName : Text
  kind : ReferenceKind
  source : ReferenceSource
  trust : ReferenceTrustClass
  description : Option Text
  status : ReferenceStatus
  failureReason : Option Text
  deriving DecidableEq, Repr

/-- The revisions a task started with, by reference id. -/
structure ReferenceTaskBinding where
  taskId : Text
  revisions : TextMap ReferenceRevision
  boundAtMs : ℕ

inductive ReferenceResolutionOutcome where
  | resolved (identity : ResolvedReferenceIdentity)
  | unavailable (reason : Text)
  | refused (reason : Text)
  | failed (reason : Text)
  deriving DecidableEq, Repr

inductive ReferenceRefreshResult where
  | refreshed (revision : ReferenceRevision)
  | unchanged (revision : ReferenceRevision)
  | unavailable (reason : Text)
  | refused (reason : Text)
  | failed (reason : Text)
  deriving DecidableEq, Repr

def mutableRefRefusal : Text := "mutable repository ref requires an explicit pinned commit/tag"

def workspaceContainmentRefusal : Text := "reference root must be outside the workspace namespace"

def duplicateAliasReason : Text := "duplicate alias"

def invalidAliasReason : Text := "invalid alias"

section Names

def createReferenceId (sha256Hex : Text → Text) (aliasName : Text) : Text :=
  "ref_" ++ (sha256Hex (toCanonical (.ofFields [field "alias" (.str aliasName)]))).take 24

def isAliasChar (c : Char) : Bool :=
  c.isLower || c.isDigit || c == '.' || c == '_' || c == '-'

def validateReferenceAlias : Text → Bool
  | [] => false
  | first :: rest =>
    decide (2 ≤ Text.utf8Len (first :: rest) ∧ Text.utf8Len (first :: rest) ≤ 64) &&
      first.isLower && rest.all isAliasChar

end Names

/-- What the registry is given. The resolver and the clock may answer differently at every call;
they see how many calls came before. -/
structure ReferenceRegistryOptions where
  sha256Hex : Text → Text
  lower : LowerCase
  trustFor : ReferenceDeclaration → ReferenceTrustClass
  workspaceRoot : Text
  resolver : ℕ → ReferenceSource → Bool → ReferenceResolutionOutcome
  allowMutableRefs : Bool
  now : ℕ → ℕ
  maxRevisionBindings : ℕ

/-- The sources the resolver was asked for, and how often the clock was read. -/
structure PortCalls where
  resolved : List ReferenceSource := []
  ticks : ℕ := 0
  deriving DecidableEq, Repr

section Resolution

variable (options : ReferenceRegistryOptions)

def resolveIdentity (calls : PortCalls) (source : ReferenceSource) :
    ReferenceResolutionOutcome × PortCalls :=
  (options.resolver calls.resolved.length source options.allowMutableRefs,
    { calls with resolved := calls.resolved ++ [source] })

def isBranchPinned : ReferenceSource → Bool
  | .repository _ (.branch _) => true
  | _ => false

/-- A local directory that resolves to a path in the workspace. -/
def insideWorkspace : ReferenceSource → ResolvedReferenceIdentity → Bool
  | .localDirectory _, .localDirectory canonicalPath _ =>
    isPathWithin options.lower options.workspaceRoot canonicalPath
  | _, _ => false

def identitiesEqual : ResolvedReferenceIdentity → ResolvedReferenceIdentity → Bool
  | .localDirectory pathA fpA, .localDirectory pathB fpB => pathA == pathB && fpA == fpB
  | .repository originA commitA _, .repository originB commitB _ =>
    originA == originB && commitA == commitB
  | _, _ => false

def declaredReference (declaration : ReferenceDeclaration) (status : ReferenceStatus)
    (failureReason : Option Text) : Reference where
  id := createReferenceId options.sha256Hex declaration.aliasName
  aliasName := declaration.aliasName
  kind := declaration.kind
  source := declaration.source
  trust := options.trustFor declaration
  description := declaration.description
  status := status
  failureReason := failureReason

structure Resolution where
  reference : Reference
  revision : Option ReferenceRevision
  calls : PortCalls

def resolveDeclaration (calls : PortCalls) (declaration : ReferenceDeclaration) : Resolution :=
  let unready := fun status reason calls =>
    (⟨declaredReference options declaration status (some reason), none, calls⟩ : Resolution)
  if !validateReferenceAlias declaration.aliasName then unready .declined invalidAliasReason calls
  else if isBranchPinned declaration.source && !options.allowMutableRefs then
    unready .declined mutableRefRefusal calls
  else
    let answer := resolveIdentity options calls declaration.source
    match answer.1 with
    | .resolved identity =>
      if insideWorkspace options declaration.source identity then
        unready .declined workspaceContainmentRefusal answer.2
      else
        ⟨declaredReference options declaration .ready none,
          some ⟨identity, options.now answer.2.ticks⟩,
          { answer.2 with ticks := answer.2.ticks + 1 }⟩
    | .unavailable reason => unready .unavailable reason answer.2
    | .refused reason => unready .declined reason answer.2
    | .failed reason => unready .resolutionFailed reason answer.2

end Resolution

structure ReferenceRecord where
  id : Text
  reference : Reference
  revision : Option ReferenceRevision
  deriving DecidableEq, Repr

structure ReferenceRegistry where
  records : List ReferenceRecord := []
  byAlias : TextMap ℕ := ∅
  byId : TextMap ℕ := ∅
  bindings : List ReferenceTaskBinding := []
  calls : PortCalls := {}

namespace ReferenceRegistry

def recordIndex (r : ReferenceRegistry) (selector : Text) : Option ℕ :=
  (r.byAlias.lookup selector).or (r.byId.lookup selector)

def recordAt (r : ReferenceRegistry) (selector : Text) : Option ReferenceRecord :=
  r.recordIndex selector >>= fun index => r.records[index]?

def list (r : ReferenceRegistry) : List Reference := r.records.map ReferenceRecord.reference

def get (r : ReferenceRegistry) (selector : Text) : Option Reference :=
  (r.recordAt selector).map ReferenceRecord.reference

def revision (r : ReferenceRegistry) (selector : Text) : Option ReferenceRevision :=
  (r.recordAt selector).bind ReferenceRecord.revision

def snapshotStep (revisions : TextMap ReferenceRevision) (record : ReferenceRecord) :
    TextMap ReferenceRevision :=
  if record.reference.status = .ready then
    match record.revision with
    | some revision => revisions.insert record.id revision
    | none => revisions
  else revisions

variable (options : ReferenceRegistryOptions)

def bindTask (r : ReferenceRegistry) (taskId : Text) : ReferenceRegistry × ReferenceTaskBinding :=
  let binding : ReferenceTaskBinding :=
    { taskId := taskId
      revisions := r.records.foldl snapshotStep ∅
      boundAtMs := options.now r.calls.ticks }
  let bindings := r.bindings ++ [binding]
  ({ r with
      bindings := bindings.drop (bindings.length - options.maxRevisionBindings)
      calls := { r.calls with ticks := r.calls.ticks + 1 } }, binding)

/-- A binding is live as long as the ring has a binding of its task id. -/
def isLive (r : ReferenceRegistry) (binding : ReferenceTaskBinding) : Bool :=
  r.bindings.any fun live => live.taskId == binding.taskId

def boundRevision (r : ReferenceRegistry) (binding : ReferenceTaskBinding) (selector : Text) :
    Option ReferenceRevision :=
  if r.isLive binding then
    (r.recordAt selector).bind fun record => binding.revisions.lookup record.id
  else none

def withStatus (record : ReferenceRecord) (status : ReferenceStatus) (failureReason : Option Text)
    (revision : Option ReferenceRevision) : ReferenceRecord :=
  { record with reference := { record.reference with status, failureReason }, revision }

def applyFailure (record : ReferenceRecord) (status : ReferenceStatus) (reason : Text) :
    ReferenceRecord := withStatus record status (some reason) none

structure RefreshedRecord where
  record : ReferenceRecord
  calls : PortCalls
  result : ReferenceRefreshResult

def refreshRecord (calls : PortCalls) (record : ReferenceRecord) : RefreshedRecord :=
  if record.reference.status = .declined then
    ⟨record, calls,
      .refused (record.reference.failureReason.getD "the reference is declined".toList)⟩
  else
    let source := record.reference.source
    let answer := resolveIdentity options calls source
    match answer.1 with
    | .resolved identity =>
      if insideWorkspace options source identity then
        ⟨applyFailure record .declined workspaceContainmentRefusal, answer.2,
          .refused workspaceContainmentRefusal⟩
      else
        let revision : ReferenceRevision := ⟨identity, options.now answer.2.ticks⟩
        let calls := { answer.2 with ticks := answer.2.ticks + 1 }
        match record.revision.filter fun current => identitiesEqual current.identity identity with
        | some current =>
          ⟨withStatus record .ready none record.revision, calls, .unchanged current⟩
        | none => ⟨withStatus record .ready none (some revision), calls, .refreshed revision⟩
    | .unavailable reason =>
      ⟨applyFailure record .unavailable reason, answer.2, .unavailable reason⟩
    | .refused reason => ⟨applyFailure record .declined reason, answer.2, .refused reason⟩
    | .failed reason => ⟨applyFailure record .resolutionFailed reason, answer.2, .failed reason⟩

def unknownReference (selector : Text) : Text := "Unknown reference: ".toList ++ selector

def refresh (r : ReferenceRegistry) (selector : Text) :
    ReferenceRegistry × ReferenceRefreshResult :=
  match r.recordIndex selector with
  | none => (r, .failed (unknownReference selector))
  | some index =>
    match r.records[index]? with
    | none => (r, .failed (unknownReference selector))
    | some record =>
      let refreshed := refreshRecord options r.calls record
      ({ r with
          records := r.records.set index refreshed.record
          calls := refreshed.calls }, refreshed.result)

structure Building where
  registry : ReferenceRegistry := {}
  seenAliases : Finset Text := ∅

/-- The first declaration of an alias is addressable; a later one is listed only. -/
def addDeclaration (b : Building) (declaration : ReferenceDeclaration) : Building :=
  let resolution := resolveDeclaration options b.registry.calls declaration
  let duplicate := declaration.aliasName ∈ b.seenAliases
  let stored : Reference := if duplicate then
      { resolution.reference with status := .declined, failureReason := some duplicateAliasReason }
    else resolution.reference
  let index := b.registry.records.length
  { seenAliases := insert declaration.aliasName b.seenAliases
    registry :=
      { b.registry with
        records := b.registry.records ++
          [⟨stored.id, stored, if duplicate then none else resolution.revision⟩]
        byAlias := if duplicate then b.registry.byAlias
          else b.registry.byAlias.insert stored.aliasName index
        byId := if duplicate then b.registry.byId else b.registry.byId.insert stored.id index
        calls := resolution.calls } }

def createReferenceRegistry (declarations : List ReferenceDeclaration) : ReferenceRegistry :=
  (declarations.foldl (addDeclaration options) {}).registry

end ReferenceRegistry

end Siralos.References
