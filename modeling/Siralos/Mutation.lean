import Siralos.Conversation
import Siralos.Undo

/-!
# Writing and editing files

A mutation is proposed, checkpointed, committed in place of what was read, verified and only
then marked applied. Creating a checkpoint may evict older records.
-/

set_option autoImplicit false

namespace Siralos.Checkpoint

open Siralos.Workspace Siralos.Conversation

def maxIdAttempts : ℕ := 8

structure CheckpointCreation where
  relativePath : Text
  operation : CheckpointOperation
  toolName : Text
  createdAt : Text
  before : CheckpointFileState
  beforeBytes : Option FileBytes
  after : CheckpointFileState
  preview : CheckpointPreview
  deriving DecidableEq, Repr

structure CapacityUsage where
  checkpoints : ℕ
  bytes : ℕ
  deriving DecidableEq, Repr

structure PruneReport where
  evicted : List Text
  checkpoints : ℕ
  bytes : ℕ
  deriving DecidableEq, Repr

section Creation

variable (sha256Hex : FileBytes → Text)

def CheckpointCreation.preimageLen (creation : CheckpointCreation) : ℕ :=
  (creation.beforeBytes.map FileBytes.length).getD 0

def validateCreation (limits : StoreLimits) (creation : CheckpointCreation) :
    Except CheckpointStoreError Unit :=
  match validateRelativePath creation.relativePath with
  | .error _ => .error (refusal "Checkpoint relative path is invalid" creation.relativePath)
  | .ok () =>
    if creation.toolName.isEmpty ∨ maxToolNameLength < Text.utf8Len creation.toolName then
      .error (.invalid "Checkpoint tool name is invalid.")
    else if creation.createdAt.isEmpty ∨ maxCreatedAtLength < Text.utf8Len creation.createdAt then
      .error (.invalid "Checkpoint creation time is invalid.")
    else if !validateCheckpointInvariant creation.operation creation.before.fileExists
        creation.after.fileExists then
      .error (.invalid
        "Checkpoint operation disagrees with the before/after existence transition.")
    else
      let afterCheck : Except CheckpointStoreError Unit :=
        if creation.after.sha256.any (fun sha256 =>
            creation.after.fileExists && !isSha256Hex sha256) then
          .error (.invalid "Checkpoint after-state hash is invalid.")
        else .ok ()
      match creation.beforeBytes, creation.before.fileExists with
      | some bytes, true =>
        if some bytes.length ≠ creation.before.byteLength ∨
            creation.before.sha256 ≠ some (sha256Hex bytes) then
          .error (.invalid "Checkpoint before-bytes do not match the recorded before-state.")
        else if limits.maxPreimageBytes < bytes.length then
          .error (.invalid "Checkpoint before-state exceeds the preimage bound.")
        else afterCheck
      | none, false => afterCheck
      | _, _ =>
        .error (.invalid "Checkpoint before-bytes disagree with the recorded before-state.")

def preparedRecord (limits : StoreLimits) (creation : CheckpointCreation) (id : Text) :
    FileCheckpoint where
  version := checkpointVersion
  id := id
  workspaceFingerprint := limits.workspaceFingerprint
  relativePath := creation.relativePath
  operation := creation.operation
  toolName := creation.toolName
  createdAt := creation.createdAt
  state := .prepared
  before := creation.before
  after := creation.after
  preview := creation.preview

def preimageLenFor (limits : StoreLimits) (r : FileCheckpoint) (preimage : Option FileBytes) :
    Except CheckpointStoreError ℕ :=
  let failed := refusal "Checkpoint preimage cannot be verified" r.id
  match r.before.fileExists, preimage with
  | false, none => .ok 0
  | true, some bytes =>
    if some bytes.length ≠ r.before.byteLength ∨ limits.maxPreimageBytes < bytes.length ∨
        sha256Hex bytes ≠ r.before.sha256.getD [] then .error failed
    else .ok bytes.length
  | _, _ => .error failed

/-- The bytes of one record, whose directory must hold exactly its files. -/
def recordBytes (store : CheckpointStore) (entry : StoreEntry) : Except CheckpointStoreError ℕ :=
  if !Text.startsWith checkpointIdPrefix entry.name then
    .error (refusal "Checkpoint store carries unexpected content" entry.name)
  else
    match store.loadMetadata entry.name, entry with
    | .ok r, .record stored =>
      if stored.unexpectedContent ∨ stored.preimage.isSome ≠ r.before.fileExists then
        .error (refusal "Checkpoint carries unexpected content" entry.name)
      else
        match preimageLenFor sha256Hex store.limits r stored.preimage with
        | .error error => .error error
        | .ok preimageLen => .ok (stored.metadataBytes + preimageLen)
    | _, _ => .error (refusal "Checkpoint cannot be verified" entry.name)

def checkpointCapacity (store : CheckpointStore) : Except CheckpointStoreError CapacityUsage :=
  store.entries.foldlM (fun usage entry =>
    match recordBytes sha256Hex store entry with
    | .error error => .error error
    | .ok bytes => .ok ⟨usage.checkpoints + 1, usage.bytes + bytes⟩) ⟨0, 0⟩

def maxStoreBytes (limits : StoreLimits) : ℕ :=
  limits.maxCheckpoints * (maxMetadataBytes + limits.maxPreimageBytes)

structure Candidate where
  rank : ℕ
  createdAt : Text
  id : Text
  deriving DecidableEq, Repr

/-- Closed records before applied ones; a prepared record is never evicted. -/
def evictionRank : CheckpointState → Option ℕ
  | .undone | .abandoned | .conflicted | .uncertain => some 0
  | .applied => some 1
  | .prepared => none

def candidates (store : CheckpointStore) : List Candidate :=
  store.entries.filterMap fun entry =>
    match store.loadMetadata entry.name with
    | .error _ => none
    | .ok r => (evictionRank r.state).map fun rank => ⟨rank, r.createdAt, entry.name⟩

def Candidate.before (a b : Candidate) : Bool :=
  a.rank < b.rank || (a.rank = b.rank && (a.createdAt < b.createdAt ||
    (a.createdAt = b.createdAt && a.id < b.id)))

def oldestEvictable (store : CheckpointStore) : Option Candidate :=
  Shedding.lowest Candidate.before (fun _ => true) none (candidates store)

def CheckpointStore.removeEntry (store : CheckpointStore) (id : Text) : CheckpointStore :=
  { store with
    entries := store.entries.filter fun e => e.name ≠ id
    distinct := store.distinct.sublist (List.filter_sublist.map _) }

structure Pruning where
  store : CheckpointStore
  evicted : List Text

/-- Unverifiable content stops the pruning: nothing is deleted to get past it. -/
def withinBounds (p : Pruning) : Bool :=
  match checkpointCapacity sha256Hex p.store with
  | .error _ => true
  | .ok usage =>
    usage.checkpoints < p.store.limits.maxCheckpoints && usage.bytes ≤ maxStoreBytes p.store.limits

def pruneNext (p : Pruning) : Option Pruning :=
  (oldestEvictable p.store).map fun next =>
    ⟨p.store.removeEntry next.id, p.evicted ++ [next.id]⟩

theorem candidate_entry (store : CheckpointStore) (c : Candidate) (h : c ∈ candidates store) :
    ∃ entry ∈ store.entries, entry.name = c.id ∧ ∃ r, store.loadMetadata c.id = .ok r ∧
      r.state ≠ .prepared := by
  obtain ⟨entry, hentry, hsome⟩ := List.mem_filterMap.mp h
  cases hload : store.loadMetadata entry.name with
  | error error => simp [hload] at hsome
  | ok r =>
    rw [hload] at hsome
    obtain ⟨rank, hrank, rfl⟩ := Option.map_eq_some_iff.mp hsome
    refine ⟨entry, hentry, rfl, r, hload, ?_⟩
    intro hprepared
    rw [hprepared] at hrank
    cases hrank

theorem prune_next_some (p p' : Pruning) (h : pruneNext p = some p') :
    ∃ c ∈ candidates p.store, p' = ⟨p.store.removeEntry c.id, p.evicted ++ [c.id]⟩ := by
  obtain ⟨c, hlowest, rfl⟩ := Option.map_eq_some_iff.mp h
  rcases Shedding.lowest_mem _ _ _ _ _ hlowest with hnone | ⟨hmem, _⟩
  · cases hnone
  · exact ⟨c, hmem, rfl⟩

def pruning : Shedding.Loop Pruning where
  done := withinBounds sha256Hex
  next := pruneNext
  size p := p.store.entries.length
  smaller p p' h := by
    obtain ⟨c, hc, rfl⟩ := prune_next_some p p' h
    obtain ⟨entry, hentry, hname, _⟩ := candidate_entry p.store c hc
    apply List.length_filter_lt_length_iff_exists.mpr
    exact ⟨entry, hentry, by simp [hname]⟩

def pruneCheckpoints (store : CheckpointStore) :
    Except CheckpointStoreError PruneReport × CheckpointStore :=
  let p := (pruning sha256Hex).run ⟨store, []⟩
  match checkpointCapacity sha256Hex p.store with
  | .error error => (.error error, p.store)
  | .ok usage => (.ok ⟨p.evicted, usage.checkpoints, usage.bytes⟩, p.store)

def hasRoom (limits : StoreLimits) (usage : CapacityUsage) (recordBytes : ℕ) : Bool :=
  usage.checkpoints < limits.maxCheckpoints && usage.bytes + recordBytes ≤ maxStoreBytes limits

def atCapacity (usage : CapacityUsage) : CheckpointStoreError :=
  .capacityExceeded ("Checkpoint store is at capacity (" ++ Text.ofNat usage.checkpoints ++
    " records, " ++ Text.ofNat usage.bytes ++ " bytes).")

def ensureCapacityFor (store : CheckpointStore) (r : FileCheckpoint) (preimageLen : ℕ) :
    Except CheckpointStoreError Unit × CheckpointStore :=
  let needed := documentBytes r + preimageLen
  match checkpointCapacity sha256Hex store with
  | .error error => (.error error, store)
  | .ok usage =>
    if hasRoom store.limits usage needed then (.ok (), store)
    else
      match pruneCheckpoints sha256Hex store with
      | (.error error, store') => (.error error, store')
      | (.ok _, store') =>
        match checkpointCapacity sha256Hex store' with
        | .error error => (.error error, store')
        | .ok usage =>
          if hasRoom store'.limits usage needed then (.ok (), store')
          else (.error (atCapacity usage), store')

/-- The entry of a new record, in a directory whose name was free. -/
def CheckpointStore.addRecord (store : CheckpointStore) (r : FileCheckpoint)
    (preimage : Option FileBytes) (h : store.find r.id = none) : CheckpointStore :=
  { store with
    entries := store.entries ++ [.record {
      checkpoint := r, metadataBytes := documentBytes r, preimage := preimage
      unexpectedContent := false }]
    distinct := by
      rw [List.map_append, List.nodup_append]
      refine ⟨store.distinct, by simp, ?_⟩
      intro name hname other hother heq
      obtain ⟨entry, hentry, rfl⟩ := List.mem_map.mp hname
      have hfree := List.find?_eq_none.mp h entry hentry
      have hid : other = r.id := by simpa [StoreEntry.name] using hother
      simp [heq, hid] at hfree }

/-- A minted id that is taken is a collision and never reused. -/
def mintRecord (creation : CheckpointCreation) : CheckpointStore → List Text →
    Except CheckpointStoreError FileCheckpoint × CheckpointStore
  | store, [] => (.error (.writeFailed "Checkpoint id could not be minted"), store)
  | store, id :: minted =>
    if !isValidCheckpointId id then mintRecord creation store minted
    else
      let r := preparedRecord store.limits creation id
      match ensureCapacityFor sha256Hex store r creation.preimageLen with
      | (.error error, store') => (.error error, store')
      | (.ok (), store') =>
        if h : store'.find r.id = none then
          match parseMetadata store'.limits r.id (documentBytes r) r with
          | .error error => (.error error, store')
          | .ok _ => (.ok r, store'.addRecord r creation.beforeBytes h)
        else mintRecord creation store' minted

def createCheckpoint (store : CheckpointStore) (creation : CheckpointCreation)
    (minted : List Text) : Except CheckpointStoreError FileCheckpoint × CheckpointStore :=
  match validateCreation sha256Hex store.limits creation with
  | .error error => (.error error, store)
  | .ok () => mintRecord sha256Hex creation store (minted.take maxIdAttempts)

end Creation

structure WorkspaceLimits where
  maxTextFileSizeBytes : ℕ
  maxCreatedContentBytes : ℕ
  maxReplacementTextBytes : ℕ
  deriving DecidableEq, Repr

def workspaceLimits : WorkspaceLimits := ⟨1024 * 1024, 512 * 1024, 64 * 1024⟩

/-- What the host supplies to one call: its clock may fail. -/
structure MutationHost where
  cancelled : Bool
  timestamp : Option Text
  minted : List Text

def excludedDirectories : List Text := ["node_modules", ".git", "dist", "coverage"]

def protectedNames : List Text :=
  ["siralos.toml", "siralos.lock", "agents.md", ".npmrc", ".pypirc", ".netrc",
    ".git-credentials", "id_rsa", "id_ed25519", "id_ecdsa", "id_dsa", "credentials",
    "credentials.json", "secrets.json", "secrets.yaml", "secrets.yml", ".siralos", ".git", ".ssh",
    "AGENTS.md"]

def protectedPrefixes : List Text := [".env", ".siralos-mutation-", ".siralos-"]

def protectedExtensions : List Text :=
  [".pem", ".key", ".p12", ".pfx", ".jks", ".keystore", ".crt", ".cer"]

/-- Names are compared as they are: the platform does not fold case. -/
def isProtectedComponent (name : Text) : Bool :=
  protectedNames.contains name || protectedPrefixes.any (fun p => Text.startsWith p name) ||
    protectedExtensions.any (fun extension => extension.isSuffixOf name)

def isModelProtectedWorkspacePath (relative : Text) : Bool :=
  (splitSeparators relative).any isProtectedComponent

def excludedComponent (relative : Text) : Bool :=
  (relative.splitOn '/').any (fun name => excludedDirectories.contains name)

/-- `None` lets the mutation through. -/
def guarded (relative : Text) : Option ToolExecutionResult :=
  if excludedComponent relative then some (.denied "Path is inside the excluded directory.")
  else if isModelProtectedWorkspacePath relative then
    some (.denied "Path is protected from model-facing workspace mutation.")
  else none

def commitFailed : AtomicWriteFailure → ToolExecutionResult
  | .targetChanged => .conflict "The file changed while it was being written."
  | .parentChanged => .conflict "The target directory changed while it was being written."
  | .requestedNameMismatch => .conflict "The target path changed while it was being written."
  | .targetIsNotARegularFile =>
    .denied "Target must be a regular file; refusing symlink or special file."
  | .staged => .failed "atomic write could not be staged"
  | .stagedIdentityUnverifiable => .failed "atomic staged file identity could not be verified"

def refuseIf (refused : Bool) (result : ToolExecutionResult) : Except ToolExecutionResult Unit :=
  if refused then .error result else .ok ()

def refuseSome : Option ToolExecutionResult → Except ToolExecutionResult Unit
  | some result => .error result
  | none => .ok ()

def orRefuse {α : Type} (value : Option α) (result : ToolExecutionResult) :
    Except ToolExecutionResult α :=
  match value with
  | some a => .ok a
  | none => .error result

def parseStringField (input : Json.Value) (key : Text) : Except ToolExecutionResult Text :=
  match input.asObject with
  | none => .error (.invalidInput "Input must be an object.")
  | some fields =>
    match fields.lookup key with
    | some (.string value) => .ok value
    | some _ => .error (.invalidInput (key ++ " must be a string."))
    | none => .error (.invalidInput (key ++ " is required."))

/-- The resolved path still names the request, once both are normalized. -/
def requireRequestedParentName (root : Path) (requested : Text) (resolved : Path) : Bool :=
  root.isPrefixOf resolved &&
    (splitSeparators requested).foldl joinComponent [] == resolved.drop root.length

/-- Containment again, just before staging and before the rename. -/
def revalidateParent (fs : FileSystem) (root parent : Path) : Bool :=
  match fs.canonicalize parent with
  | none => false
  | some canonical => root.isPrefixOf canonical

/-- Occurrences that do not overlap, from the left; `skip` characters belong to the last one. -/
def matchCount (old : Text) : ℕ → Text → ℕ
  | _, [] => 0
  | skip + 1, _ :: rest => matchCount old skip rest
  | 0, c :: rest =>
    if Text.startsWith old (c :: rest) then 1 + matchCount old (old.length - 1) rest
    else matchCount old 0 rest

def replaceFirst (old new : Text) : Text → Text
  | [] => []
  | c :: rest =>
    if Text.startsWith old (c :: rest) then new ++ (c :: rest).drop old.length
    else c :: replaceFirst old new rest

/-- `lines().count()`: a final line break opens no line. -/
def countLines (text : Text) : ℕ :=
  text.count '\n' + (if text.isEmpty || text.getLast? == some '\n' then 0 else 1)

def readEditTarget (node : Option Node) : Except ToolExecutionResult Text :=
  match node with
  | none => .error (.failed "Cannot inspect file.")
  | some (.link _) => .error (.denied "Editing through a symbolic link is denied.")
  | some .directory | some .special => .error (.failed "Target is not a regular file.")
  | some (.file bytes) =>
    if workspaceLimits.maxTextFileSizeBytes < bytes.length then
      .error (.failed ("File is too large (" ++ Text.ofNat bytes.length ++ " bytes; limit " ++
        Text.ofNat workspaceLimits.maxTextFileSizeBytes ++ ")."))
    else
      match bytes with
      | .text text => .ok text
      | .binary _ => .error (.failed "File is not valid UTF-8 text.")

def textTooLarge (key value : Text) : Option ToolExecutionResult :=
  if workspaceLimits.maxReplacementTextBytes < Text.utf8Len value then
    some (.invalidInput (key ++ " is too large (" ++ Text.ofNat (Text.utf8Len value) ++
      " bytes; limit " ++ Text.ofNat workspaceLimits.maxReplacementTextBytes ++ ")."))
  else none

def clockUnavailable : ToolExecutionResult := .failed
  "Host clock is unavailable; the mutation is refused without a creation timestamp."

/-- A mutation that passed every check before its checkpoint. -/
structure Proposal where
  relative : Text
  target : Path
  bytes : FileBytes
  /-- The content that the commit has to find; none for a file to create. -/
  current : Option FileBytes
  creation : CheckpointCreation

section Mutations

variable (sha256Hex : FileBytes → Text)

def presentState (bytes : FileBytes) : CheckpointFileState :=
  ⟨true, some (sha256Hex bytes), some bytes.length⟩

def absentState : CheckpointFileState := ⟨false, none, none⟩

/-- `execute_edit` as far as its checkpoint. -/
def proposeEdit (host : MutationHost) (fs : FileSystem) (root : Path) (input : Json.Value) :
    Except ToolExecutionResult Proposal := do
  let path ← parseStringField input "path"
  let oldString ← parseStringField input "oldString"
  let newString ← parseStringField input "newString"
  refuseIf host.cancelled (.cancelled "Editing was cancelled.")
  refuseIf oldString.isEmpty (.invalidInput "oldString must not be empty.")
  refuseSome (textTooLarge "oldString" oldString)
  refuseSome (textTooLarge "newString" newString)
  let resolved ← (resolveWorkspacePath fs root path).mapError fun rejection =>
    .denied rejection.message
  refuseIf (!requireRequestedParentName root path resolved.absolutePath)
    (commitFailed .requestedNameMismatch)
  refuseSome (guarded resolved.workspaceRelativePath)
  let currentText ← readEditTarget (fs.node resolved.absolutePath)
  let matched := matchCount oldString 0 currentText
  refuseIf (matched == 0)
    (.conflict "The old string does not occur in the current file content.")
  refuseIf (matched != 1) (.conflict ("The old string is ambiguous (" ++ Text.ofNat matched ++
    " occurrences); exactly one is required."))
  let createdAt ← orRefuse host.timestamp clockUnavailable
  let current := FileBytes.text currentText
  let bytes := FileBytes.text (replaceFirst oldString newString currentText)
  return {
    relative := resolved.workspaceRelativePath
    target := resolved.absolutePath
    bytes := bytes
    current := some current
    creation := {
      relativePath := resolved.workspaceRelativePath
      operation := .update
      toolName := "edit"
      createdAt := createdAt
      before := presentState sha256Hex current
      beforeBytes := some current
      after := presentState sha256Hex bytes
      preview := ⟨countLines newString, countLines oldString⟩ } }

def createRelative (root parent : Path) (leaf : Text) : Option Text :=
  if root.isPrefixOf parent then some (joinNames (parent.drop root.length ++ [leaf])) else none

/-- `execute_write` as far as its checkpoint. -/
def proposeWrite (host : MutationHost) (fs : FileSystem) (root : Path) (input : Json.Value) :
    Except ToolExecutionResult Proposal := do
  let path ← parseStringField input "path"
  let content ← parseStringField input "content"
  refuseIf host.cancelled (.cancelled "Writing was cancelled.")
  refuseIf (workspaceLimits.maxCreatedContentBytes < Text.utf8Len content)
    (.invalidInput ("Content is too large (" ++ Text.ofNat (Text.utf8Len content) ++
      " bytes; limit " ++ Text.ofNat workspaceLimits.maxCreatedContentBytes ++ ")."))
  let target ← (resolveCreateTarget fs root path).mapError fun rejection =>
    .denied rejection.message
  refuseIf (!requireRequestedParentName root (splitRequestedParent path).1 target.parent)
    (commitFailed .requestedNameMismatch)
  let relative ← orRefuse (createRelative root target.parent target.leaf)
    (.denied PathRejection.outsideWorkspace.message)
  refuseIf (validateRelativePath relative).toOption.isNone
    (.denied PathRejection.outsideWorkspace.message)
  refuseSome (guarded relative)
  refuseIf (fs.lstat target.parent target.leaf).isSome
    (.conflict "The file already exists; write creates new files only.")
  let createdAt ← orRefuse host.timestamp clockUnavailable
  let bytes := FileBytes.text content
  return {
    relative := relative
    target := target.parent ++ [target.leaf]
    bytes := bytes
    current := none
    creation := {
      relativePath := relative
      operation := .create
      toolName := "write"
      createdAt := createdAt
      before := absentState
      beforeBytes := none
      after := presentState sha256Hex bytes
      preview := ⟨countLines content, 0⟩ } }

structure MutationResult where
  result : ToolExecutionResult
  fs : FileSystem
  store : CheckpointStore

/-- A mark that fails leaves the record as it was, for reconciliation to classify. -/
def bestEffort (store : CheckpointStore) (id : Text) (state : CheckpointTerminalState) :
    CheckpointStore := kept store (store.markState id state)

def Proposal.guard (p : Proposal) : CommitGuard :=
  match p.current with
  | some bytes => .ifDigest (sha256Hex bytes)
  | none => .ifAbsent

/-- Staging and the commit, with the containment rechecks around them. -/
def stageAndCommit (fs : FileSystem) (root : Path) (p : Proposal) :
    Except AtomicWriteFailure FileSystem :=
  if !revalidateParent fs root p.target.dropLast then .error .parentChanged
  else
    match stageAtomic fs p.target.dropLast with
    | .error failure => .error failure
    | .ok () => commitInner sha256Hex fs p.target p.bytes (p.guard sha256Hex)

def verifyCommitted (fs : FileSystem) (root target : Path) (expected : FileBytes) :
    Except ToolExecutionResult Unit :=
  match fs.node target with
  | none => .error (.failed "The written file could not be verified.")
  | some (.file bytes) =>
    if !revalidateParent fs root target.dropLast then .error (commitFailed .parentChanged)
    else if bytes = expected then .ok ()
    else .error (.failed "The written file could not be verified.")
  | some _ => .error (commitFailed .targetIsNotARegularFile)

def successOutput (p : Proposal) (id : Text) : Json.Value :=
  .object [
    ("bytes", .number (.posInt p.bytes.length)),
    ("checkpoint", .string id),
    ("path", .string p.relative),
    ("sha256", .string (sha256Hex p.bytes))]

/-- From the checkpoint on, writing and editing run the same steps. -/
def applyProposal (host : MutationHost) (fs : FileSystem) (store : CheckpointStore)
    (summary : Text) (p : Proposal) : MutationResult :=
  match createCheckpoint sha256Hex store p.creation host.minted with
  | (.error error, store') => ⟨.failed error.message, fs, store'⟩
  | (.ok r, store') =>
    match stageAndCommit sha256Hex fs store.workspaceRoot p with
    | .error failure => ⟨commitFailed failure, fs, bestEffort store' r.id .abandoned⟩
    | .ok fs' =>
      match verifyCommitted fs' store.workspaceRoot p.target p.bytes with
      | .error result => ⟨result, fs', store'⟩
      | .ok () =>
        ⟨.success (successOutput sha256Hex p r.id) summary, fs', bestEffort store' r.id .applied⟩

def executeEdit (host : MutationHost) (fs : FileSystem) (store : CheckpointStore)
    (input : Json.Value) : MutationResult :=
  match proposeEdit sha256Hex host fs store.workspaceRoot input with
  | .error result => ⟨result, fs, store⟩
  | .ok p => applyProposal sha256Hex host fs store
      ("replaced 1 occurrence (" ++ Text.ofNat p.bytes.length ++ " bytes)") p

def executeWrite (host : MutationHost) (fs : FileSystem) (store : CheckpointStore)
    (input : Json.Value) : MutationResult :=
  match proposeWrite sha256Hex host fs store.workspaceRoot input with
  | .error result => ⟨result, fs, store⟩
  | .ok p => applyProposal sha256Hex host fs store
      ("created " ++ Text.ofNat p.bytes.length ++ " bytes") p

end Mutations

end Siralos.Checkpoint
