import Siralos.Identity
import Siralos.Keyed
import Siralos.Workspace
import Mathlib.Data.Char
import Mathlib.Data.List.Lex
import Mathlib.Data.List.Sort

/-!
# Checkpoints

A checkpoint records a file before and after one mutation. Undo planning and reconciliation
judge it by the digest of the file as it is now.
-/

set_option autoImplicit false

namespace Siralos.Checkpoint

open Siralos.Workspace

inductive CheckpointState where
  | prepared
  | applied
  | undone
  | abandoned
  | conflicted
  | uncertain
  deriving DecidableEq, Repr

def CheckpointState.asStr : CheckpointState → Text
  | prepared => "prepared"
  | applied => "applied"
  | undone => "undone"
  | abandoned => "abandoned"
  | conflicted => "conflicted"
  | uncertain => "uncertain"

inductive CheckpointOperation where
  | create
  | update
  | delete
  deriving DecidableEq, Repr

def CheckpointOperation.asStr : CheckpointOperation → Text
  | create => "create"
  | update => "update"
  | delete => "delete"

structure OperationState where
  beforeExists : Bool
  afterExists : Bool
  deriving DecidableEq, Repr

def OperationState.forOperation : CheckpointOperation → OperationState
  | .create => ⟨false, true⟩
  | .update => ⟨true, true⟩
  | .delete => ⟨true, false⟩

structure CheckpointFileState where
  fileExists : Bool
  sha256 : Option Text
  byteLength : Option ℕ
  deriving DecidableEq, Repr

structure CheckpointPreview where
  addedLines : ℕ
  removedLines : ℕ
  deriving DecidableEq, Repr

structure FileCheckpoint where
  version : ℕ
  id : Text
  workspaceFingerprint : Text
  relativePath : Text
  operation : CheckpointOperation
  toolName : Text
  createdAt : Text
  state : CheckpointState
  before : CheckpointFileState
  after : CheckpointFileState
  preview : CheckpointPreview
  deriving DecidableEq, Repr

def FileCheckpoint.withState (r : FileCheckpoint) (state : CheckpointState) : FileCheckpoint :=
  { r with state := state }

inductive CheckpointTerminalState where
  | abandoned
  | conflicted
  | uncertain
  | applied
  deriving DecidableEq, Repr

def CheckpointTerminalState.target : CheckpointTerminalState → CheckpointState
  | abandoned => .abandoned
  | conflicted => .conflicted
  | uncertain => .uncertain
  | applied => .applied

def validateCheckpointInvariant (operation : CheckpointOperation)
    (beforeExists afterExists : Bool) : Bool :=
  OperationState.mk beforeExists afterExists == .forOperation operation

/-- An unreadable, linked or oversized file exists without a digest. -/
structure WorkspaceFileState where
  fileExists : Bool
  sha256 : Option Text
  deriving DecidableEq, Repr

inductive UndoPlanDecision where
  | readyCreate
  | readyRestore
  | readyDelete
  | conflict
  deriving DecidableEq, Repr

def planUndo (checkpoint : FileCheckpoint) (current : WorkspaceFileState) : UndoPlanDecision :=
  if checkpoint.after.fileExists then
    if current.fileExists && current.sha256 == checkpoint.after.sha256 then
      if checkpoint.before.fileExists then .readyRestore else .readyDelete
    else .conflict
  else if !current.fileExists then .readyCreate
  else .conflict

inductive ReconciliationClass where
  | abandoned
  | applied
  | uncertain
  | undoneAfterRestore
  deriving DecidableEq, Repr

/-- Two states without a digest are equal only when neither file exists. -/
def statesEqual (a b : WorkspaceFileState) : Bool :=
  if a.fileExists != b.fileExists then false
  else if !a.fileExists then true
  else a.sha256.isSome && a.sha256 == b.sha256

def CheckpointFileState.toWorkspace (s : CheckpointFileState) : WorkspaceFileState :=
  ⟨s.fileExists, s.sha256⟩

def classifyReconciliation (checkpoint : FileCheckpoint) (current : WorkspaceFileState) :
    Option ReconciliationClass :=
  let before := checkpoint.before.toWorkspace
  let after := checkpoint.after.toWorkspace
  match checkpoint.state with
  | .prepared =>
    if statesEqual current before then some .abandoned
    else if statesEqual current after then some .applied
    else some .uncertain
  | .applied =>
    if statesEqual current before && !statesEqual current after then some .undoneAfterRestore
    else none
  | _ => none

/-- The file went back to the recorded before-state, and that is not its after-state too. -/
def Returned (checkpoint : FileCheckpoint) (current : WorkspaceFileState) : Prop :=
  statesEqual current checkpoint.before.toWorkspace = true ∧
    statesEqual current checkpoint.after.toWorkspace = false

theorem classify_none_iff (checkpoint : FileCheckpoint) (current : WorkspaceFileState) :
    classifyReconciliation checkpoint current = none ↔ checkpoint.state ≠ .prepared ∧
      (checkpoint.state = .applied → ¬ Returned checkpoint current) := by
  unfold classifyReconciliation Returned
  cases checkpoint.state with
  | prepared =>
    dsimp only
    split
    · simp
    · split <;> simp
  | applied => simp
  | undone => simp
  | abandoned => simp
  | conflicted => simp
  | uncertain => simp

def checkpointVersion : ℕ := 1

def maxMetadataBytes : ℕ := 64 * 1024

def maxPreimageBytes : ℕ := 1024 * 1024

def maxToolNameLength : ℕ := 256

def maxCreatedAtLength : ℕ := 64

def defaultMaxCheckpoints : ℕ := 100

def isAsciiHexdigit (c : Char) : Bool :=
  c.isDigit || decide ('a' ≤ c ∧ c ≤ 'f') || decide ('A' ≤ c ∧ c ≤ 'F')

def isSha256Hex (value : Text) : Bool :=
  decide (Text.utf8Len value = 64) && value.all isAsciiHexdigit

def checkpointIdPrefix : Text := "cp_"

def isValidCheckpointId (id : Text) : Bool :=
  decide (3 < Text.utf8Len id) &&
    match Text.stripPrefix checkpointIdPrefix id with
    | none => false
    | some tail => tail.all (fun c => isAsciiHexdigit c || c == '-') && decide (10 ≤ tail.length)

inductive CheckpointStoreError where
  | invalid (detail : Text)
  | invalidId (id : Text)
  | invalidTransition (id : Text) (fromState toState : CheckpointState)
  | writeFailed (detail : Text)
  | capacityExceeded (detail : Text)
  deriving DecidableEq, Repr

def CheckpointStoreError.message : CheckpointStoreError → Text
  | invalid detail => detail
  | invalidId id => "Invalid checkpoint id: " ++ id ++ "."
  | invalidTransition id fromState toState =>
    "Checkpoint " ++ id ++ " is in state " ++ fromState.asStr ++ ", which cannot transition to " ++
      toState.asStr ++ "."
  | writeFailed detail => detail
  | capacityExceeded detail => detail

/-- `prefix text: id.`, the form of the report-safe refusals. -/
def refusal (text id : Text) : CheckpointStoreError := .invalid (text ++ ": " ++ id ++ ".")

def malformed (key : Text) : CheckpointStoreError :=
  .invalid ("Checkpoint metadata is malformed (" ++ key ++ ").")

/-- The bounds and the binding that a store checks its records against. -/
structure StoreLimits where
  workspaceFingerprint : Text
  maxPreimageBytes : ℕ
  maxCheckpoints : ℕ
  deriving DecidableEq, Repr

def parseFileState (label id : Text) (maxBytes : Option ℕ) (s : CheckpointFileState) :
    Except CheckpointStoreError Unit :=
  if !s.fileExists then
    if s.sha256.isSome || s.byteLength.isSome then
      .error (refusal ("Checkpoint " ++ label ++
        " carries a hash or byte length for a state that does not exist") id)
    else .ok ()
  else
    match s.sha256, s.byteLength with
    | none, _ => .error (malformed "sha256")
    | some sha256, length =>
      if !isSha256Hex sha256 then .error (refusal ("Checkpoint " ++ label ++ " hash is invalid") id)
      else
        match length with
        | none => .error (malformed "byteLength")
        | some n =>
          if maxBytes.any (fun limit => limit < n) then
            .error (refusal
              ("Checkpoint " ++ label ++ " byte length exceeds the configured maximum") id)
          else .ok ()

def transitionText (s : OperationState) : Text :=
  let word : Bool → Text := fun b => if b then "true" else "false"
  word s.beforeExists ++ "->" ++ word s.afterExists

/-- What is checked of the fields of a document; its state is any of the states. -/
def checkFields (limits : StoreLimits) (id : Text) (r : FileCheckpoint) :
    Except CheckpointStoreError Unit :=
  if r.version ≠ checkpointVersion ∨ r.id ≠ id then
    .error (refusal "Checkpoint metadata version or id mismatch" id)
  else if r.workspaceFingerprint ≠ limits.workspaceFingerprint then
    .error (refusal "Checkpoint belongs to a different workspace" id)
  else
    match validateRelativePath r.relativePath with
    | .error _ => .error (refusal "Checkpoint relative path is invalid" id)
    | .ok () =>
      if r.toolName.isEmpty ∨ maxToolNameLength < Text.utf8Len r.toolName then
        .error (refusal "Checkpoint tool name is invalid" id)
      else if r.createdAt.isEmpty ∨ maxCreatedAtLength < Text.utf8Len r.createdAt then
        .error (refusal "Checkpoint creation time is invalid" id)
      else
        match parseFileState "before" id (some limits.maxPreimageBytes) r.before with
        | .error error => .error error
        | .ok () =>
          match parseFileState "after" id none r.after with
          | .error error => .error error
          | .ok () =>
            if validateCheckpointInvariant r.operation r.before.fileExists r.after.fileExists then
              .ok ()
            else .error (.invalid ("Checkpoint operation \"" ++ r.operation.asStr ++
              "\" requires the before/after existence transition " ++
              transitionText (.forOperation r.operation) ++ ", but the record declares " ++
              transitionText ⟨r.before.fileExists, r.after.fileExists⟩))

/-- `parse_metadata` of a document whose fields have their types. -/
def parseMetadata (limits : StoreLimits) (id : Text) (metadataBytes : ℕ) (r : FileCheckpoint) :
    Except CheckpointStoreError FileCheckpoint :=
  if maxMetadataBytes < metadataBytes then .error (refusal "Checkpoint metadata is oversized" id)
  else
    match checkFields limits id r with
    | .error error => .error error
    | .ok () => .ok r

theorem check_fields_state (limits : StoreLimits) (id : Text) (r : FileCheckpoint)
    (s : CheckpointState) : checkFields limits id (r.withState s) = checkFields limits id r := rfl

theorem check_fields_id (limits : StoreLimits) (id : Text) (r : FileCheckpoint)
    (h : checkFields limits id r = .ok ()) : r.id = id := by
  unfold checkFields at h
  split at h
  · cases h
  · rename_i hid
    by_contra hne
    exact hid (.inr hne)

theorem parse_metadata_iff (limits : StoreLimits) (id : Text) (metadataBytes : ℕ)
    (r r' : FileCheckpoint) : parseMetadata limits id metadataBytes r = .ok r' ↔
      metadataBytes ≤ maxMetadataBytes ∧ checkFields limits id r = .ok () ∧ r' = r := by
  unfold parseMetadata
  by_cases hbytes : maxMetadataBytes < metadataBytes
  · simp [hbytes]
  · cases checkFields limits id r with
    | error error => simp [hbytes]
    | ok value => simp [hbytes, Nat.le_of_not_lt hbytes, eq_comm]

theorem parse_metadata_ok (limits : StoreLimits) (id : Text) (metadataBytes : ℕ)
    (r r' : FileCheckpoint) (h : parseMetadata limits id metadataBytes r = .ok r') :
    r' = r ∧ r.id = id := by
  obtain ⟨_, hfields, hr⟩ := (parse_metadata_iff _ _ _ _ _).mp h
  exact ⟨hr, check_fields_id limits id r hfields⟩

theorem parse_metadata_state (limits : StoreLimits) (id : Text) (metadataBytes bytes : ℕ)
    (r r' : FileCheckpoint) (s : CheckpointState)
    (h : parseMetadata limits id metadataBytes r = .ok r') (hbytes : bytes ≤ maxMetadataBytes) :
    parseMetadata limits id bytes (r.withState s) = .ok (r.withState s) := by
  obtain ⟨_, hfields, _⟩ := (parse_metadata_iff _ _ _ _ _).mp h
  exact (parse_metadata_iff _ _ _ _ _).mpr
    ⟨hbytes, (check_fields_state limits id r s).trans hfields, rfl⟩

end Siralos.Checkpoint
