import Siralos.CheckpointStore

/-!
# Undo

The plan of an undo reads the file, the commit writes it, and only then is the record's state
asked whether it may become undone.
-/

set_option autoImplicit false

namespace Siralos.Checkpoint

open Siralos.Workspace

inductive UndoApplyOutcome where
  | restored (id : Text)
  | recreated (id : Text)
  | deleteUnavailable (id : Text)
  | conflict (id : Text)
  deriving DecidableEq, Repr

namespace UndoApplyOutcome

def id : UndoApplyOutcome → Text
  | restored id | recreated id | deleteUnavailable id | conflict id => id

def message : UndoApplyOutcome → Text
  | restored id => "Checkpoint " ++ id ++ " was undone: the before-state was restored."
  | recreated id => "Checkpoint " ++ id ++ " was undone: the file was recreated."
  | deleteUnavailable id => "Checkpoint " ++ id ++ " cannot be undone: undo would delete the " ++
      "created file and file deletion is unavailable."
  | conflict id => "Checkpoint " ++ id ++ " cannot be undone: the current file state no longer " ++
      "matches the recorded after-state."

end UndoApplyOutcome

/-- What an undo returns, and the workspace and the store it leaves. -/
structure UndoResult where
  outcome : Except CheckpointStoreError UndoApplyOutcome
  fs : FileSystem
  store : CheckpointStore

section Undo

variable (sha256Hex : FileBytes → Text)

namespace CheckpointStore

def preimageNode (store : CheckpointStore) (id : Text) : Option Node :=
  match store.find id with
  | some (.record stored) => stored.preimage.map .file
  | _ => none

def verifiedPreimage (store : CheckpointStore) (r : FileCheckpoint) :
    Except CheckpointStoreError FileBytes :=
  let failed := refusal "Checkpoint preimage cannot be verified" r.id
  if !r.before.fileExists then .error failed
  else
    match r.before.byteLength with
    | none => .error failed
    | some expectedLen =>
      if store.limits.maxPreimageBytes < expectedLen then .error failed
      else if !isValidCheckpointId r.id then .error failed
      else
        match readCompleteFileBounded (store.preimageNode r.id) expectedLen with
        | .tooLarge | .notReadable => .error failed
        | .complete bytes =>
          if bytes.length ≠ expectedLen ∨ sha256Hex bytes ≠ r.before.sha256.getD [] then
            .error failed
          else .ok bytes

end CheckpointStore

/-- Staging beside the target and committing in place of the digest that was planned for. -/
def writeTargetCas (fs : FileSystem) (target : Path) (bytes : FileBytes) (expected : Text) :
    Except AtomicWriteFailure FileSystem :=
  match stageAtomic fs target.dropLast with
  | .error failure => .error failure
  | .ok () => commitInner sha256Hex fs target bytes (.ifDigest expected)

/-- `restore_before` as far as its write. -/
def restoreCommit (store : CheckpointStore) (fs : FileSystem) (r : FileCheckpoint) :
    Except CheckpointStoreError FileSystem :=
  match store.verifiedPreimage sha256Hex r with
  | .error error => .error error
  | .ok beforeBytes =>
    match resolveWorkspacePath fs store.workspaceRoot r.relativePath with
    | .error _ => .error (refusal "Checkpoint target cannot be resolved" r.id)
    | .ok resolved =>
      match r.after.sha256 with
      | none => .error (refusal "Checkpoint after-state carries no hash" r.id)
      | some expectedAfter =>
        match writeTargetCas sha256Hex fs resolved.absolutePath beforeBytes expectedAfter with
        | .error _ => .error (refusal "Checkpoint target changed during undo" r.id)
        | .ok fs' => .ok fs'

/-- `recreate_before` as far as its write. -/
def recreateCommit (store : CheckpointStore) (fs : FileSystem) (r : FileCheckpoint) :
    Except CheckpointStoreError FileSystem :=
  match store.verifiedPreimage sha256Hex r with
  | .error error => .error error
  | .ok beforeBytes =>
    match resolveCreateTarget fs store.workspaceRoot r.relativePath with
    | .error _ => .error (refusal "Checkpoint target cannot be resolved" r.id)
    | .ok target =>
      match stageAtomic fs target.parent with
      | .error _ => .error (refusal "Checkpoint target cannot be recreated" r.id)
      | .ok () =>
        match commitInner sha256Hex fs (target.parent ++ [target.leaf]) beforeBytes .ifAbsent with
        | .error _ => .error (refusal "Checkpoint target changed during undo" r.id)
        | .ok fs' => .ok fs'

/-- The transition comes after the write: a refusal leaves the written file. -/
def finishUndo (store : CheckpointStore) (fs : FileSystem) (r : FileCheckpoint)
    (outcome : UndoApplyOutcome) : UndoResult :=
  match store.markUndone r.id with
  | .error error => ⟨.error error, fs, store⟩
  | .ok (store', _) => ⟨.ok outcome, fs, store'⟩

def readBack (store : CheckpointStore) (fs : FileSystem) (r : FileCheckpoint)
    (maxStateBytes : ℕ) : Bool :=
  let current := readWorkspaceFileState sha256Hex fs store.workspaceRoot r.relativePath maxStateBytes
  current.sha256 == r.before.sha256 && current.fileExists

def restoreBefore (store : CheckpointStore) (fs : FileSystem) (r : FileCheckpoint)
    (maxStateBytes : ℕ) : UndoResult :=
  match restoreCommit sha256Hex store fs r with
  | .error error => ⟨.error error, fs, store⟩
  | .ok fs' =>
    if !readBack sha256Hex store fs' r maxStateBytes then
      ⟨.error (refusal "Checkpoint restore could not be verified" r.id), fs', store⟩
    else finishUndo store fs' r (.restored r.id)

def recreateBefore (store : CheckpointStore) (fs : FileSystem) (r : FileCheckpoint) : UndoResult :=
  match recreateCommit sha256Hex store fs r with
  | .error error => ⟨.error error, fs, store⟩
  | .ok fs' => finishUndo store fs' r (.recreated r.id)

def undoPlan (store : CheckpointStore) (fs : FileSystem) (r : FileCheckpoint)
    (maxStateBytes : ℕ) : UndoPlanDecision :=
  planUndo r
    (readWorkspaceFileState sha256Hex fs store.workspaceRoot r.relativePath maxStateBytes)

def applyUndo (store : CheckpointStore) (fs : FileSystem) (id : Text) (maxStateBytes : ℕ) :
    UndoResult :=
  match store.loadMetadata id with
  | .error error => ⟨.error error, fs, store⟩
  | .ok r =>
    match undoPlan sha256Hex store fs r maxStateBytes with
    | .readyRestore => restoreBefore sha256Hex store fs r maxStateBytes
    | .readyCreate => recreateBefore sha256Hex store fs r
    | .readyDelete => ⟨.ok (.deleteUnavailable r.id), fs, store⟩
    | .conflict => ⟨.ok (.conflict r.id), fs, store⟩

end Undo

namespace CheckpointStore

variable (store : CheckpointStore)

theorem load_some (id : Text) (r : FileCheckpoint) (h : store.loadMetadata id = .ok r) :
    isValidCheckpointId id = true ∧ r.id = id ∧ ∃ stored, store.find id = some (.record stored) ∧
      stored.checkpoint = r ∧ parseMetadata store.limits id stored.metadataBytes r = .ok r := by
  unfold loadMetadata at h
  split at h
  · cases h
  · rename_i hvalid
    split at h
    · cases h
    · rename_i entry hfind
      cases entry with
      | unreadable name isDirectory failure => cases h
      | record stored =>
        obtain ⟨hr, hid⟩ := parse_metadata_ok _ _ _ _ _ h
        subst hr
        exact ⟨by simpa using hvalid, hid, stored, hfind, rfl, h⟩

theorem write_with_state (id : Text) (target : CheckpointState) (r : FileCheckpoint)
    (h : store.loadMetadata id = .ok r) :
    store.writeMetadata (r.withState target) =
      if documentBytes (r.withState target) ≤ maxMetadataBytes then
        .ok (store.setEntry id (rewriteEntry (r.withState target)) (rewrite_entry_name _))
      else .error (refusal "Checkpoint metadata is oversized" id) := by
  obtain ⟨hvalid, hid, stored, hfind, hr, hparse⟩ := store.load_some id r h
  have hid' : (r.withState target).id = id := hid
  unfold writeMetadata
  rw [hid']
  by_cases hbytes : documentBytes (r.withState target) ≤ maxMetadataBytes
  · rw [parse_metadata_state store.limits id _ _ r r target hparse hbytes, if_pos hbytes]
    simp [hvalid, hfind]
  · have hlarge : maxMetadataBytes < documentBytes (r.withState target) := by omega
    rw [if_neg hbytes, parseMetadata, if_pos hlarge]

theorem transition_eq (id : Text) (target : CheckpointState) (allowed : CheckpointState → Bool)
    (r : FileCheckpoint) (h : store.loadMetadata id = .ok r) :
    store.transition id target allowed =
      if allowed r.state = false then .error (.invalidTransition id r.state target)
      else if documentBytes (r.withState target) ≤ maxMetadataBytes then
        .ok (store.setEntry id (rewriteEntry (r.withState target)) (rewrite_entry_name _),
          r.withState target)
      else .error (refusal "Checkpoint metadata is oversized" id) := by
  unfold transition
  rw [h]
  dsimp only
  rw [store.write_with_state id target r h]
  cases allowed r.state with
  | false => rfl
  | true =>
    by_cases hbytes : documentBytes (r.withState target) ≤ maxMetadataBytes
    · simp [hbytes]
    · simp [hbytes]

end CheckpointStore

def UndoApplyOutcome.completed : UndoApplyOutcome → Bool
  | restored _ | recreated _ => true
  | deleteUnavailable _ | conflict _ => false

/-- Only an open record completes, and what does not complete leaves the workspace alone. -/
def Atomic (r : FileCheckpoint) (fs : FileSystem) (result : UndoResult) : Prop :=
  match result.outcome with
  | .ok outcome =>
    if outcome.completed then CheckpointStore.undoable r.state = true else result.fs = fs
  | .error _ => result.fs = fs

section Atomic

variable (sha256Hex : FileBytes → Text)

/-- The workspace that the planned commit leaves, when the plan and every check before it pass. -/
def committed (store : CheckpointStore) (fs : FileSystem) (r : FileCheckpoint)
    (maxStateBytes : ℕ) : Option FileSystem :=
  match undoPlan sha256Hex store fs r maxStateBytes with
  | .readyRestore => (restoreCommit sha256Hex store fs r).toOption
  | .readyCreate => (recreateCommit sha256Hex store fs r).toOption
  | .readyDelete | .conflict => none

/-- What is left to check once the file is written: the record may become undone, its document
still fits, and a restored file reads back. -/
structure Completes (store : CheckpointStore) (fs' : FileSystem) (r : FileCheckpoint)
    (maxStateBytes : ℕ) : Prop where
  undoable : CheckpointStore.undoable r.state = true
  fits : documentBytes (r.withState .undone) ≤ maxMetadataBytes
  reads : r.after.fileExists = true → readBack sha256Hex store fs' r maxStateBytes = true

theorem plan_restore (r : FileCheckpoint) (current : WorkspaceFileState)
    (h : planUndo r current = .readyRestore) : r.after.fileExists = true := by
  unfold planUndo at h
  split at h
  · assumption
  · split at h <;> cases h

theorem plan_create (r : FileCheckpoint) (current : WorkspaceFileState)
    (h : planUndo r current = .readyCreate) : r.after.fileExists = false := by
  unfold planUndo at h
  split at h
  · split at h
    · split at h <;> cases h
    · cases h
  · rename_i hafter
    simpa using hafter

theorem finish_atomic_iff (store : CheckpointStore) (fs fs' : FileSystem) (r : FileCheckpoint)
    (outcome : UndoApplyOutcome) (id : Text) (hload : store.loadMetadata id = .ok r)
    (houtcome : outcome.completed = true) :
    Atomic r fs (finishUndo store fs' r outcome) ↔ (fs' ≠ fs →
      CheckpointStore.undoable r.state = true ∧
        documentBytes (r.withState .undone) ≤ maxMetadataBytes) := by
  have hid : r.id = id := (store.load_some id r hload).2.1
  have hmark : store.markUndone r.id = if CheckpointStore.undoable r.state = false then
      .error (.invalidTransition id r.state .undone)
    else if documentBytes (r.withState .undone) ≤ maxMetadataBytes then
      .ok (store.setEntry id (rewriteEntry (r.withState .undone)) (rewrite_entry_name _),
        r.withState .undone)
    else .error (refusal "Checkpoint metadata is oversized" id) := by
    rw [hid]
    exact store.transition_eq id .undone CheckpointStore.undoable r hload
  unfold finishUndo
  rw [hmark]
  by_cases hundoable : CheckpointStore.undoable r.state = true
  · by_cases hfits : documentBytes (r.withState .undone) ≤ maxMetadataBytes
    · simp [hundoable, hfits, Atomic, houtcome]
    · simp [hundoable, hfits, Atomic]
  · rw [Bool.not_eq_true] at hundoable
    simp [hundoable, Atomic]

theorem restore_atomic_iff (store : CheckpointStore) (fs : FileSystem) (r : FileCheckpoint)
    (id : Text) (maxStateBytes : ℕ) (hload : store.loadMetadata id = .ok r)
    (hafter : r.after.fileExists = true) :
    Atomic r fs (restoreBefore sha256Hex store fs r maxStateBytes) ↔
      ∀ fs', (restoreCommit sha256Hex store fs r).toOption = some fs' → fs' ≠ fs →
        Completes sha256Hex store fs' r maxStateBytes := by
  unfold restoreBefore
  cases restoreCommit sha256Hex store fs r with
  | error error => simp [Except.toOption, Atomic]
  | ok fs' =>
    simp only [Except.toOption, Option.some.injEq, forall_eq']
    by_cases hreads : readBack sha256Hex store fs' r maxStateBytes = true
    · rw [if_neg (by simp [hreads]), finish_atomic_iff store fs fs' r _ id hload rfl]
      constructor
      · intro h hne
        obtain ⟨hundoable, hfits⟩ := h hne
        exact ⟨hundoable, hfits, fun _ => hreads⟩
      · intro h hne
        exact ⟨(h hne).undoable, (h hne).fits⟩
    · rw [if_pos (by simp [hreads])]
      constructor
      · intro h hne
        exact absurd h hne
      · intro h
        by_contra hne
        exact hreads ((h hne).reads hafter)

theorem recreate_atomic_iff (store : CheckpointStore) (fs : FileSystem) (r : FileCheckpoint)
    (id : Text) (maxStateBytes : ℕ) (hload : store.loadMetadata id = .ok r)
    (hafter : r.after.fileExists = false) :
    Atomic r fs (recreateBefore sha256Hex store fs r) ↔
      ∀ fs', (recreateCommit sha256Hex store fs r).toOption = some fs' → fs' ≠ fs →
        Completes sha256Hex store fs' r maxStateBytes := by
  unfold recreateBefore
  cases recreateCommit sha256Hex store fs r with
  | error error => simp [Except.toOption, Atomic]
  | ok fs' =>
    simp only [Except.toOption, Option.some.injEq, forall_eq']
    rw [finish_atomic_iff store fs fs' r _ id hload rfl]
    constructor
    · intro h hne
      obtain ⟨hundoable, hfits⟩ := h hne
      exact ⟨hundoable, hfits, fun hexists => by simp [hafter] at hexists⟩
    · intro h hne
      exact ⟨(h hne).undoable, (h hne).fits⟩

theorem committed_atomic_iff (store : CheckpointStore) (fs : FileSystem) (id : Text)
    (maxStateBytes : ℕ) (r : FileCheckpoint) (hload : store.loadMetadata id = .ok r) :
    Atomic r fs (applyUndo sha256Hex store fs id maxStateBytes) ↔
      ∀ fs', committed sha256Hex store fs r maxStateBytes = some fs' → fs' ≠ fs →
        Completes sha256Hex store fs' r maxStateBytes := by
  unfold applyUndo committed
  rw [hload]
  dsimp only
  cases hplan : undoPlan sha256Hex store fs r maxStateBytes with
  | readyRestore =>
    exact restore_atomic_iff sha256Hex store fs r id maxStateBytes hload (plan_restore r _ hplan)
  | readyCreate =>
    exact recreate_atomic_iff sha256Hex store fs r id maxStateBytes hload (plan_create r _ hplan)
  | readyDelete => simp [Atomic, UndoApplyOutcome.completed]
  | conflict => simp [Atomic, UndoApplyOutcome.completed]

end Atomic

/-- A loaded record has a digest and a length of every state that exists. -/
structure LoadedStates (limits : StoreLimits) (r : FileCheckpoint) : Prop where
  before : r.before.fileExists = true → ∃ digest length,
    r.before = ⟨true, some digest, some length⟩ ∧ length ≤ limits.maxPreimageBytes
  after : r.after.fileExists = true → ∃ digest, r.after.sha256 = some digest

theorem parse_file_state_ok (label id : Text) (maxBytes : Option ℕ) (s : CheckpointFileState)
    (h : parseFileState label id maxBytes s = .ok ()) (hexists : s.fileExists = true) :
    ∃ digest length, s = ⟨true, some digest, some length⟩ ∧
      ∀ limit, maxBytes = some limit → length ≤ limit := by
  obtain ⟨fileExists, sha256, byteLength⟩ := s
  simp only at hexists
  subst hexists
  rw [parseFileState, if_neg (by simp)] at h
  cases sha256 with
  | none => cases h
  | some digest =>
    dsimp only at h
    split at h
    · cases h
    · cases byteLength with
      | none => cases h
      | some length =>
        dsimp only at h
        split at h
        · cases h
        · rename_i hlarge
          refine ⟨digest, length, rfl, fun limit hlimit => ?_⟩
          subst hlimit
          simpa using hlarge

theorem loaded_states (store : CheckpointStore) (id : Text) (r : FileCheckpoint)
    (h : store.loadMetadata id = .ok r) : LoadedStates store.limits r := by
  obtain ⟨-, -, stored, -, -, hparse⟩ := store.load_some id r h
  have hfields := ((parse_metadata_iff _ _ _ _ _).mp hparse).2.1
  unfold checkFields at hfields
  split at hfields
  · cases hfields
  split at hfields
  · cases hfields
  split at hfields
  · cases hfields
  split at hfields
  · cases hfields
  split at hfields
  · cases hfields
  split at hfields
  · cases hfields
  rename_i hbefore
  split at hfields
  · cases hfields
  rename_i hafter
  constructor
  · intro hexists
    obtain ⟨digest, length, hstate, hlimit⟩ := parse_file_state_ok _ _ _ _ hbefore hexists
    exact ⟨digest, length, hstate, hlimit _ rfl⟩
  · intro hexists
    obtain ⟨digest, length, hstate, -⟩ := parse_file_state_ok _ _ _ _ hafter hexists
    exact ⟨digest, by rw [hstate]⟩

/-- The path that the state reader looks at, when it gets as far as a leaf. -/
def statePath (fs : FileSystem) (root : Path) (relativePath : Text) : Option Path :=
  match fs.canonicalize root with
  | none => none
  | some canonicalRoot =>
    let (parent, leaf) := (splitLast (· == '/') relativePath).getD (['.'], relativePath)
    match fs.canonicalize (canonicalRoot ++ parent.splitOn '/') with
    | none => none
    | some canonicalParent =>
      if canonicalRoot.isPrefixOf canonicalParent = true ∧
          fs.node canonicalParent = some .directory ∧ leaf ≠ [] ∧ leaf ≠ ['.'] then
        some (canonicalParent ++ [leaf])
      else none

section Condition

variable (sha256Hex : FileBytes → Text)

structure PreimageStands (store : CheckpointStore) (r : FileCheckpoint) (preimage : FileBytes) :
    Prop where
  before : r.before = ⟨true, some (sha256Hex preimage), some preimage.length⟩
  stored : store.preimageNode r.id = some (.file preimage)

/-- The file is as the record left it, for the state reader and where the path resolves to; its
preimage stands and is other content. -/
structure WouldRestore (store : CheckpointStore) (fs : FileSystem) (r : FileCheckpoint)
    (maxStateBytes : ℕ) (target : Path) (standing preimage : FileBytes) : Prop where
  after : r.after.fileExists = true
  digest : r.after.sha256 = some (sha256Hex standing)
  seen : readWorkspaceFileState sha256Hex fs store.workspaceRoot r.relativePath maxStateBytes =
    ⟨true, r.after.sha256⟩
  stands : PreimageStands sha256Hex store r preimage
  resolved : ∃ relative,
    resolveWorkspacePath fs store.workspaceRoot r.relativePath = .ok ⟨relative, target⟩
  file : fs.node target = some (.file standing)
  readable : standing.length ≤ maxCasReadBytes
  stageable : preimage.length ≤ maxStagedRevalidationBytes
  differs : preimage ≠ standing

/-- The file is gone, as the record left it, and its preimage stands. -/
structure WouldRecreate (store : CheckpointStore) (fs : FileSystem) (r : FileCheckpoint)
    (maxStateBytes : ℕ) (target : PendingTarget) (preimage : FileBytes) : Prop where
  after : r.after.fileExists = false
  gone : (readWorkspaceFileState sha256Hex fs store.workspaceRoot r.relativePath
    maxStateBytes).fileExists = false
  stands : PreimageStands sha256Hex store r preimage
  resolved : resolveCreateTarget fs store.workspaceRoot r.relativePath = .ok target
  parent : fs.node target.parent = some .directory
  free : fs.node (target.parent ++ [target.leaf]) = none
  stageable : preimage.length ≤ maxStagedRevalidationBytes

end Condition

/-- The record may become undone, and its document then still fits. -/
structure Markable (r : FileCheckpoint) : Prop where
  undoable : CheckpointStore.undoable r.state = true
  fits : documentBytes (r.withState .undone) ≤ maxMetadataBytes

/-- The state reader looks at the file that a restore writes, and reads all of it. A reader that
looks at another file still sees what the record left there. -/
def SeesRestored (store : CheckpointStore) (fs : FileSystem) (r : FileCheckpoint)
    (maxStateBytes : ℕ) (target : Path) (preimage : FileBytes) : Prop :=
  if statePath fs store.workspaceRoot r.relativePath = some target then
    preimage.length ≤ maxStateBytes
  else r.before.sha256 = r.after.sha256

section Reading

variable (sha256Hex : FileBytes → Text)

theorem read_state_path (fs : FileSystem) (root : Path) (relativePath : Text) (maxStateBytes : ℕ)
    (place : Path) (hvalid : validateRelativePath relativePath = .ok ())
    (h : statePath fs root relativePath = some place) :
    readWorkspaceFileState sha256Hex fs root relativePath maxStateBytes =
      nodeState sha256Hex maxStateBytes (fs.node place) := by
  unfold statePath at h
  unfold readWorkspaceFileState
  rw [hvalid]
  cases hroot : fs.canonicalize root with
  | none =>
    rw [hroot] at h
    cases h
  | some canonicalRoot =>
    rw [hroot] at h
    dsimp only at h ⊢
    cases hparent : fs.canonicalize (canonicalRoot ++
        ((splitLast (· == '/') relativePath).getD (['.'], relativePath)).1.splitOn '/') with
    | none =>
      rw [hparent] at h
      cases h
    | some canonicalParent =>
      rw [hparent] at h
      dsimp only at h ⊢
      split at h
      · rename_i hplace
        obtain ⟨hlead, hdirectory, hleaf, hdot⟩ := hplace
        cases h
        simp [hlead, FileSystem.lstat, hdirectory, hleaf, hdot]
      · cases h

theorem read_state_some (fs : FileSystem) (root : Path) (relativePath : Text) (maxStateBytes : ℕ)
    (digest : Text)
    (h : readWorkspaceFileState sha256Hex fs root relativePath maxStateBytes =
      ⟨true, some digest⟩) :
    validateRelativePath relativePath = .ok () ∧
      ∃ place bytes, statePath fs root relativePath = some place ∧
        fs.node place = some (.file bytes) := by
  unfold readWorkspaceFileState at h
  cases hvalid : validateRelativePath relativePath with
  | error error =>
    rw [hvalid] at h
    cases h
  | ok value =>
    refine ⟨rfl, ?_⟩
    rw [hvalid] at h
    cases hroot : fs.canonicalize root with
    | none =>
      rw [hroot] at h
      cases h
    | some canonicalRoot =>
      rw [hroot] at h
      dsimp only at h
      split at h
      · cases h
      · rename_i canonicalParent hparent
        split at h
        · cases h
        · rename_i hlead
          unfold FileSystem.lstat at h
          cases hnode : fs.node canonicalParent with
          | none =>
            rw [hnode] at h
            cases h
          | some n =>
            rw [hnode] at h
            cases n with
            | file bytes => cases h
            | link target => cases h
            | special => cases h
            | directory =>
              dsimp only at h
              split at h
              · cases h
              · rename_i hleaf
                push Not at hleaf
                refine ⟨canonicalParent ++ [((splitLast (· == '/') relativePath).getD
                  (['.'], relativePath)).2], ?_⟩
                have hpath : statePath fs root relativePath =
                    some (canonicalParent ++ [((splitLast (· == '/') relativePath).getD
                      (['.'], relativePath)).2]) := by
                  unfold statePath
                  rw [hroot]
                  dsimp only
                  rw [hparent]
                  exact if_pos ⟨by simpa using hlead, hnode, hleaf⟩
                cases hfile : fs.node (canonicalParent ++ [((splitLast (· == '/')
                  relativePath).getD (['.'], relativePath)).2]) with
                | none =>
                  rw [hfile] at h
                  cases h
                | some n =>
                  rw [hfile] at h
                  cases n with
                  | file bytes => exact ⟨bytes, hpath, rfl⟩
                  | link target => cases h
                  | special => cases h
                  | directory => cases h

theorem state_path_set_file (fs : FileSystem) (root target place : Path) (relativePath : Text)
    (bytes : FileBytes) (htarget : fs.Writable target)
    (h : statePath fs root relativePath = some place) :
    statePath (fs.setFile target bytes) root relativePath = some place := by
  unfold statePath at h ⊢
  cases hroot : fs.canonicalize root with
  | none =>
    rw [hroot] at h
    cases h
  | some canonicalRoot =>
    rw [fs.set_file_canonicalize target bytes htarget root _ hroot]
    rw [hroot] at h
    dsimp only at h ⊢
    split at h
    · cases h
    · rename_i canonicalParent hparent
      split at h
      · rename_i hplace
        cases h
        rw [fs.set_file_canonicalize target bytes htarget _ _ hparent]
        have hother : canonicalParent ≠ target := by
          rintro rfl
          rcases htarget with hnone | ⟨old, hold⟩
          · rw [hnone] at hplace
            cases hplace.2.1
          · rw [hold] at hplace
            cases hplace.2.1
        refine if_pos ⟨hplace.1, ?_, hplace.2.2⟩
        rw [fs.set_file_other target _ bytes hother]
        exact hplace.2.1
      · cases h

end Reading

section Conditions

variable (sha256Hex : FileBytes → Text) (store : CheckpointStore) (fs : FileSystem) (id : Text)
  (maxStateBytes : ℕ) (r : FileCheckpoint)

theorem verified_preimage_iff (hload : store.loadMetadata id = .ok r) (preimage : FileBytes) :
    store.verifiedPreimage sha256Hex r = .ok preimage ↔
      PreimageStands sha256Hex store r preimage := by
  obtain ⟨hvalid, hid, -⟩ := store.load_some id r hload
  have hvalidId : isValidCheckpointId r.id = true := by rwa [hid]
  have hstates := loaded_states store id r hload
  constructor
  · intro h
    unfold CheckpointStore.verifiedPreimage at h
    dsimp only at h
    split at h
    · cases h
    · rename_i hexists
      obtain ⟨digest, length, hbefore, -⟩ := hstates.before (by simpa using hexists)
      rw [hbefore] at h
      dsimp only at h
      split at h
      · cases h
      split at h
      · cases h
      split at h
      · cases h
      · cases h
      · rename_i bytes hread
        split at h
        · cases h
        · rename_i hsame
          cases h
          push Not at hsame
          obtain ⟨hlength, hdigest⟩ := hsame
          refine ⟨by rw [hbefore, hlength, hdigest]; rfl, ?_⟩
          unfold readCompleteFileBounded at hread
          split at hread
          · rename_i bytes' hnode
            split at hread
            · cases hread
            · cases hread
              exact hnode
          · cases hread
  · intro h
    obtain ⟨digest, length, hbefore, hlimit⟩ := hstates.before (by rw [h.before])
    have hlength : preimage.length = length := by
      have hsame := h.before.symm.trans hbefore
      simpa using (congrArg CheckpointFileState.byteLength hsame)
    simp [CheckpointStore.verifiedPreimage, h.before, h.stored, hvalidId, readCompleteFileBounded,
      hlength, Nat.not_lt.mpr hlimit]

theorem if_digest_holds (node : Option Node) (expected : Text) :
    guardHolds sha256Hex node (.ifDigest expected) = true ↔
      ∃ bytes, node = some (.file bytes) ∧ bytes.length ≤ maxCasReadBytes ∧
        sha256Hex bytes = expected := by
  unfold guardHolds readCompleteFileBounded
  cases node with
  | none => simp
  | some n =>
    cases n with
    | file bytes =>
      by_cases hlarge : maxCasReadBytes < bytes.length
      · simp [hlarge]
      · simp [hlarge, Nat.le_of_not_lt hlarge]
    | directory => simp
    | link target => simp
    | special => simp

theorem resolved_parent {root : Path} {relativePath relative : Text} {target : Path}
    (h : resolveWorkspacePath fs root relativePath = .ok ⟨relative, target⟩) :
    fs.node target.dropLast = some .directory := by
  unfold resolveWorkspacePath at h
  split at h
  · cases h
  split at h
  · cases h
  split at h
  · cases h
  split at h
  · cases h
  split at h
  · cases h
  dsimp only at h
  split at h
  · cases h
  split at h
  · cases h
  rename_i resolved hcanonical
  split at h
  · cases h
  cases h
  exact (fs.canonicalize_resolved _ _ hcanonical).parent.directories _ List.prefix_rfl

theorem set_file_ne {target : Path} {standing preimage : FileBytes}
    (hfile : fs.node target = some (.file standing)) :
    fs.setFile target preimage ≠ fs ↔ preimage ≠ standing := by
  have hwritten := fs.set_file_target target preimage (.inr ⟨standing, hfile⟩)
  constructor
  · rintro hne rfl
    apply hne
    apply FileSystem.ext
    intro path
    by_cases hpath : path = target
    · rw [hpath, hwritten, hfile]
    · exact fs.set_file_other target path preimage hpath
  · intro hne hsame
    rw [hsame, hfile] at hwritten
    cases hwritten
    exact hne rfl

theorem restore_commit_iff (hload : store.loadMetadata id = .ok r) (fs' : FileSystem) :
    (undoPlan sha256Hex store fs r maxStateBytes = .readyRestore ∧
      restoreCommit sha256Hex store fs r = .ok fs' ∧ fs' ≠ fs) ↔
    ∃ target standing preimage,
      WouldRestore sha256Hex store fs r maxStateBytes target standing preimage ∧
        fs' = fs.setFile target preimage := by
  constructor
  · rintro ⟨hplan, hcommit, hne⟩
    have hafter := plan_restore r _ hplan
    obtain ⟨digest, hdigest⟩ := (loaded_states store id r hload).after hafter
    have hseen : readWorkspaceFileState sha256Hex fs store.workspaceRoot r.relativePath
        maxStateBytes = ⟨true, r.after.sha256⟩ := by
      unfold undoPlan planUndo at hplan
      rw [if_pos hafter] at hplan
      split at hplan
      · rename_i hready
        simp only [Bool.and_eq_true, beq_iff_eq] at hready
        rw [← hready.1, ← hready.2]
      · cases hplan
    unfold restoreCommit at hcommit
    split at hcommit
    · cases hcommit
    rename_i preimage hpreimage
    split at hcommit
    · cases hcommit
    rename_i resolved hresolved
    rw [hdigest] at hcommit
    dsimp only at hcommit
    split at hcommit
    · cases hcommit
    rename_i written hwrite
    cases hcommit
    unfold writeTargetCas at hwrite
    split at hwrite
    · cases hwrite
    obtain ⟨-, hguard, hlength, rfl⟩ := commit_inner_ok sha256Hex fs _ _ _ _ hwrite
    obtain ⟨standing, hfile, hreadable, hsame⟩ := (if_digest_holds sha256Hex _ _).mp hguard
    exact ⟨resolved.absolutePath, standing, preimage,
      ⟨hafter, by rw [hdigest, hsame], hseen,
        (verified_preimage_iff sha256Hex store id r hload preimage).mp hpreimage,
        ⟨resolved.workspaceRelativePath, hresolved⟩, hfile, hreadable, hlength,
        (set_file_ne fs hfile).mp hne⟩, rfl⟩
  · rintro ⟨target, standing, preimage, h, rfl⟩
    obtain ⟨relative, hresolved⟩ := h.resolved
    have hverified := (verified_preimage_iff sha256Hex store id r hload preimage).mpr h.stands
    refine ⟨?_, ?_, (set_file_ne fs h.file).mpr h.differs⟩
    · rw [undoPlan, h.seen]
      simp [planUndo, h.after, h.stands.before]
    · have hguard := (if_digest_holds sha256Hex (fs.node target) (sha256Hex standing)).mpr
        ⟨standing, h.file, h.readable, rfl⟩
      rw [h.file] at hguard
      simp [restoreCommit, hverified, hresolved, h.digest, writeTargetCas, stageAtomic,
        resolved_parent fs hresolved, commitInner, h.file, hguard, Nat.not_lt.mpr h.stageable]

theorem recreate_commit_iff (hload : store.loadMetadata id = .ok r) (fs' : FileSystem) :
    (undoPlan sha256Hex store fs r maxStateBytes = .readyCreate ∧
      recreateCommit sha256Hex store fs r = .ok fs') ↔
    ∃ target preimage, WouldRecreate sha256Hex store fs r maxStateBytes target preimage ∧
      fs' = fs.setFile (target.parent ++ [target.leaf]) preimage := by
  constructor
  · rintro ⟨hplan, hcommit⟩
    have hafter := plan_create r _ hplan
    have hgone : (readWorkspaceFileState sha256Hex fs store.workspaceRoot r.relativePath
        maxStateBytes).fileExists = false := by
      unfold undoPlan planUndo at hplan
      rw [if_neg (by simp [hafter])] at hplan
      split at hplan
      · rename_i hgone
        simpa using hgone
      · cases hplan
    unfold recreateCommit at hcommit
    split at hcommit
    · cases hcommit
    rename_i preimage hpreimage
    split at hcommit
    · cases hcommit
    rename_i target hresolved
    split at hcommit
    · cases hcommit
    rename_i hstaged
    split at hcommit
    · cases hcommit
    rename_i written hwrite
    cases hcommit
    obtain ⟨-, hguard, hlength, rfl⟩ := commit_inner_ok sha256Hex fs _ _ _ _ hwrite
    have hparent : fs.node target.parent = some .directory := by
      unfold stageAtomic at hstaged
      split at hstaged
      · assumption
      · cases hstaged
    exact ⟨target, preimage, ⟨hafter, hgone,
      (verified_preimage_iff sha256Hex store id r hload preimage).mp hpreimage, hresolved, hparent,
      by simpa [guardHolds] using hguard, hlength⟩, rfl⟩
  · rintro ⟨target, preimage, h, rfl⟩
    have hverified := (verified_preimage_iff sha256Hex store id r hload preimage).mpr h.stands
    constructor
    · simp [undoPlan, planUndo, h.after, h.gone]
    · simp [recreateCommit, hverified, h.resolved, stageAtomic, h.parent, commitInner, h.free,
        guardHolds, Nat.not_lt.mpr h.stageable]

theorem sees_restored_iff (target : Path) (standing preimage : FileBytes)
    (h : WouldRestore sha256Hex store fs r maxStateBytes target standing preimage) :
    readBack sha256Hex store (fs.setFile target preimage) r maxStateBytes = true ↔
      SeesRestored store fs r maxStateBytes target preimage := by
  have hwritable : fs.Writable target := .inr ⟨standing, h.file⟩
  have hseen := h.seen
  rw [h.digest] at hseen
  obtain ⟨hvalid, place, bytes, hplace, hbytes⟩ :=
    read_state_some sha256Hex fs _ _ _ _ hseen
  have hmoved := state_path_set_file fs store.workspaceRoot target place r.relativePath preimage
    hwritable hplace
  unfold readBack SeesRestored
  rw [read_state_path sha256Hex _ _ _ maxStateBytes place hvalid hmoved, hplace]
  by_cases hsame : place = target
  · rw [if_pos (by rw [hsame]), hsame, fs.set_file_target target preimage hwritable,
      h.stands.before]
    by_cases hlarge : maxStateBytes < preimage.length
    · simp [nodeState, hlarge]
    · simp [nodeState, hlarge, Nat.le_of_not_lt hlarge]
  · rw [if_neg (by simpa using hsame), fs.set_file_other target place preimage hsame,
      ← read_state_path sha256Hex fs _ _ maxStateBytes place hvalid hplace, h.seen]
    simp only [Bool.and_true, beq_iff_eq]
    exact eq_comm

/-- An undo is atomic exactly when, where it would write, its record may become undone and fits,
and a restored file is seen by the state reader. -/
theorem undo_atomic_iff (hload : store.loadMetadata id = .ok r) :
    Atomic r fs (applyUndo sha256Hex store fs id maxStateBytes) ↔
      (∀ target standing preimage,
        WouldRestore sha256Hex store fs r maxStateBytes target standing preimage →
          Markable r ∧ SeesRestored store fs r maxStateBytes target preimage) ∧
      ∀ target preimage, WouldRecreate sha256Hex store fs r maxStateBytes target preimage →
        Markable r := by
  rw [committed_atomic_iff sha256Hex store fs id maxStateBytes r hload]
  constructor
  · intro h
    constructor
    · intro target standing preimage hwould
      obtain ⟨hplan, hcommit, hne⟩ := (restore_commit_iff sha256Hex store fs id maxStateBytes r hload
        _).mpr ⟨target, standing, preimage, hwould, rfl⟩
      have hcompletes := h _ (by rw [committed, hplan, hcommit]; rfl) hne
      exact ⟨⟨hcompletes.undoable, hcompletes.fits⟩,
        (sees_restored_iff sha256Hex store fs maxStateBytes r target standing preimage hwould).mp
          (hcompletes.reads hwould.after)⟩
    · intro target preimage hwould
      obtain ⟨hplan, hcommit⟩ := (recreate_commit_iff sha256Hex store fs id maxStateBytes r hload
        _).mpr ⟨target, preimage, hwould, rfl⟩
      have hne : fs.setFile (target.parent ++ [target.leaf]) preimage ≠ fs := by
        intro hsame
        have hwritten := fs.set_file_target _ preimage (.inl hwould.free)
        rw [hsame, hwould.free] at hwritten
        cases hwritten
      have hcompletes := h _ (by rw [committed, hplan, hcommit]; rfl) hne
      exact ⟨hcompletes.undoable, hcompletes.fits⟩
  · rintro ⟨hrestore, hrecreate⟩ fs' hcommitted hne
    unfold committed at hcommitted
    cases hplan : undoPlan sha256Hex store fs r maxStateBytes with
    | readyRestore =>
      rw [hplan] at hcommitted
      cases hcommit : restoreCommit sha256Hex store fs r with
      | error error => simp [hcommit, Except.toOption] at hcommitted
      | ok written =>
        have hsame : written = fs' := by simpa [hcommit, Except.toOption] using hcommitted
        subst hsame
        obtain ⟨target, standing, preimage, hwould, rfl⟩ :=
          (restore_commit_iff sha256Hex store fs id maxStateBytes r hload _).mp ⟨hplan, hcommit, hne⟩
        obtain ⟨hmark, hsees⟩ := hrestore target standing preimage hwould
        exact ⟨hmark.undoable, hmark.fits, fun _ =>
          (sees_restored_iff sha256Hex store fs maxStateBytes r target standing preimage
            hwould).mpr hsees⟩
    | readyCreate =>
      rw [hplan] at hcommitted
      cases hcommit : recreateCommit sha256Hex store fs r with
      | error error => simp [hcommit, Except.toOption] at hcommitted
      | ok written =>
        have hsame : written = fs' := by simpa [hcommit, Except.toOption] using hcommitted
        subst hsame
        obtain ⟨target, preimage, hwould, rfl⟩ :=
          (recreate_commit_iff sha256Hex store fs id maxStateBytes r hload _).mp ⟨hplan, hcommit⟩
        obtain ⟨hundoable, hfits⟩ := hrecreate target preimage hwould
        exact ⟨hundoable, hfits, fun hexists => by simp [hwould.after] at hexists⟩
    | readyDelete =>
      rw [hplan] at hcommitted
      cases hcommitted
    | conflict =>
      rw [hplan] at hcommitted
      cases hcommitted

end Conditions

def sampleSha : FileBytes → Text
  | .text ['a'] => List.replicate 64 'a'
  | _ => List.replicate 64 'b'

def sampleId : Text := "cp_0123456789"

def sampleCheckpoint (state : CheckpointState) : FileCheckpoint where
  version := 1
  id := sampleId
  workspaceFingerprint := "w"
  relativePath := "f"
  operation := .update
  toolName := "edit"
  createdAt := "1.0"
  state := state
  before := ⟨true, some (sampleSha (.text ['a'])), some 1⟩
  after := ⟨true, some (sampleSha (.text ['b'])), some 1⟩
  preview := ⟨1, 1⟩

def sampleStore (state : CheckpointState) : CheckpointStore where
  workspaceRoot := ["w"]
  limits := ⟨"w", maxPreimageBytes, defaultMaxCheckpoints⟩
  entries := [.record {
    checkpoint := sampleCheckpoint state, metadataBytes := 700
    preimage := some (.text ['a']), unexpectedContent := false }]
  distinct := List.nodup_singleton _

/-- The file again with the content it had after the edit. -/
def sampleWorkspace : FileSystem :=
  .ofNodes [(["w"], .directory), (["w", "f"], .file (.text ['b']))]

theorem undone_would_restore :
    WouldRestore sampleSha (sampleStore .undone) sampleWorkspace (sampleCheckpoint .undone)
      maxPreimageBytes ["w", "f"] (.text ['b']) (.text ['a']) where
  after := rfl
  digest := rfl
  seen := by decide
  stands := ⟨rfl, rfl⟩
  resolved := ⟨['f'], by decide⟩
  file := rfl
  readable := by decide
  stageable := by decide
  differs := by decide

/-- The restore that the record of an undone edit would be given is the one that fails. -/
theorem undone_undo_not_atomic :
    ¬ Atomic (sampleCheckpoint .undone) sampleWorkspace
      (applyUndo sampleSha (sampleStore .undone) sampleWorkspace sampleId maxPreimageBytes) := by
  intro hatomic
  have hwould := ((undo_atomic_iff sampleSha (sampleStore .undone) sampleWorkspace sampleId
    maxPreimageBytes (sampleCheckpoint .undone) rfl).mp hatomic).1 _ _ _ undone_would_restore
  exact absurd hwould.1.undoable (by decide)

/-- An undone record restores once more before its transition is refused. -/
theorem undo_atomic_fails :
    ¬ ∀ (sha256Hex : FileBytes → Text) (store : CheckpointStore) (fs : FileSystem) (id : Text)
      (maxStateBytes : ℕ) (r : FileCheckpoint), store.loadMetadata id = .ok r →
      Atomic r fs (applyUndo sha256Hex store fs id maxStateBytes) := by
  intro h
  have hatomic := h sampleSha (sampleStore .undone) sampleWorkspace sampleId maxPreimageBytes
    (sampleCheckpoint .undone) rfl
  have hsame : (applyUndo sampleSha (sampleStore .undone) sampleWorkspace sampleId
      maxPreimageBytes).fs = sampleWorkspace := hatomic
  have hfile := congrArg (fun fs => fs.node ["w", "f"]) hsame
  revert hfile
  decide

end Siralos.Checkpoint
