import Siralos.Checkpoint
import Siralos.Shedding

/-!
# The checkpoint store

One directory of records for a workspace: loading and marking a record, listing, startup
reconciliation, and creation within the store's count and byte bounds.
-/

set_option autoImplicit false

namespace Siralos.Checkpoint

open Siralos.Workspace Siralos.Identity

def indentation (n : ℕ) : Text := List.replicate n ' '

/-- An object as `to_string_pretty` lays it out. -/
def prettyObject (indent : ℕ) (members : List (Text × Text)) : Text :=
  ['{', '\n'] ++ [',', '\n'].intercalate (members.map fun (key, value) =>
    indentation (indent + 2) ++ jsonEscape key ++ [':', ' '] ++ value) ++
    ['\n'] ++ indentation indent ++ ['}']

def prettyOption {α : Type} (write : α → Text) : Option α → Text
  | none => "null"
  | some value => write value

def fileStateText (s : CheckpointFileState) : Text :=
  prettyObject 2 [
    ("byteLength", prettyOption Text.ofNat s.byteLength),
    ("exists", if s.fileExists then "true" else "false"),
    ("sha256", prettyOption jsonEscape s.sha256)]

def previewText (preview : CheckpointPreview) : Text :=
  prettyObject 2 [
    ("addedLines", Text.ofNat preview.addedLines),
    ("removedLines", Text.ofNat preview.removedLines)]

def serializeCheckpoint (r : FileCheckpoint) : Text :=
  prettyObject 0 [
    ("after", fileStateText r.after),
    ("before", fileStateText r.before),
    ("createdAt", jsonEscape r.createdAt),
    ("id", jsonEscape r.id),
    ("operation", jsonEscape r.operation.asStr),
    ("preview", previewText r.preview),
    ("relativePath", jsonEscape r.relativePath),
    ("state", jsonEscape r.state.asStr),
    ("toolName", jsonEscape r.toolName),
    ("version", Text.ofNat r.version),
    ("workspaceFingerprint", jsonEscape r.workspaceFingerprint)]

def documentBytes (r : FileCheckpoint) : ℕ := Text.utf8Len (serializeCheckpoint r)

theorem document_bytes_state (r : FileCheckpoint) (s : CheckpointState) :
    documentBytes (r.withState s) + Text.utf8Len (jsonEscape r.state.asStr) =
      documentBytes r + Text.utf8Len (jsonEscape s.asStr) := by
  simp only [documentBytes, serializeCheckpoint, FileCheckpoint.withState, prettyObject, List.map_cons, List.map_nil,
    List.intercalate_cons_cons, List.intercalate_singleton, Text.utf8Len_append]
  omega

structure StoredRecord where
  checkpoint : FileCheckpoint
  metadataBytes : ℕ
  preimage : Option FileBytes
  /-- Whether the directory holds anything else. -/
  unexpectedContent : Bool
  deriving DecidableEq, Repr

/-- A directory entry: a record whose document has its fields, or content that does not load. -/
inductive StoreEntry where
  | record (stored : StoredRecord)
  | unreadable (name : Text) (isDirectory : Bool) (failure : CheckpointStoreError)
  deriving DecidableEq, Repr

namespace StoreEntry

def name : StoreEntry → Text
  | record stored => stored.checkpoint.id
  | unreadable name _ _ => name

def isDirectory : StoreEntry → Bool
  | record _ => true
  | unreadable _ isDirectory _ => isDirectory

end StoreEntry

structure CheckpointStore where
  workspaceRoot : Path
  limits : StoreLimits
  entries : List StoreEntry
  distinct : (entries.map StoreEntry.name).Nodup

def loadEntry (limits : StoreLimits) (id : Text) : StoreEntry → Except CheckpointStoreError FileCheckpoint
  | .record stored => parseMetadata limits id stored.metadataBytes stored.checkpoint
  | .unreadable _ _ failure => .error failure

/-- The entry of a written record, its other files as they were. -/
def rewriteEntry (r : FileCheckpoint) : StoreEntry → StoreEntry
  | .record stored =>
    .record { stored with checkpoint := { r with id := stored.checkpoint.id }
                          metadataBytes := documentBytes r }
  | .unreadable name isDirectory failure => .unreadable name isDirectory failure

theorem rewrite_entry_name (r : FileCheckpoint) (entry : StoreEntry) :
    (rewriteEntry r entry).name = entry.name := by
  cases entry <;> rfl

namespace CheckpointStore

variable (store : CheckpointStore)

def find (id : Text) : Option StoreEntry := store.entries.find? (fun e => e.name = id)

def loadMetadata (id : Text) : Except CheckpointStoreError FileCheckpoint :=
  if !isValidCheckpointId id then .error (.invalidId id)
  else
    match store.find id with
    | none => .error (.invalid "Checkpoint directory is unavailable")
    | some entry => loadEntry store.limits id entry

def setEntry (id : Text) (f : StoreEntry → StoreEntry) (hname : ∀ e, (f e).name = e.name) :
    CheckpointStore :=
  { store with
    entries := Keyed.updateFirst StoreEntry.name id f store.entries
    distinct := by
      rw [Keyed.update_first_keys StoreEntry.name id f hname]
      exact store.distinct }

/-- The serialized document has to parse back before it replaces the old one. -/
def writeMetadata (r : FileCheckpoint) : Except CheckpointStoreError CheckpointStore :=
  match parseMetadata store.limits r.id (documentBytes r) r with
  | .error error => .error error
  | .ok _ =>
    if !isValidCheckpointId r.id then .error (.invalidId r.id)
    else
      match store.find r.id with
      | none => .error (.writeFailed ("Checkpoint directory is unavailable: " ++ r.id ++ "."))
      | some _ => .ok (store.setEntry r.id (rewriteEntry r) (rewrite_entry_name r))

def allowedTransitions : CheckpointState → List CheckpointState
  | .prepared => [.applied, .abandoned, .conflicted, .uncertain]
  | .applied => [.uncertain]
  | _ => []

/-- A transition that its check lets through, written back. -/
def transition (id : Text) (target : CheckpointState) (allowed : CheckpointState → Bool) :
    Except CheckpointStoreError (CheckpointStore × FileCheckpoint) :=
  match store.loadMetadata id with
  | .error error => .error error
  | .ok checkpoint =>
    if !allowed checkpoint.state then
      .error (.invalidTransition id checkpoint.state target)
    else
      match store.writeMetadata (checkpoint.withState target) with
      | .error error => .error error
      | .ok store' => .ok (store', checkpoint.withState target)

def markState (id : Text) (state : CheckpointTerminalState) :
    Except CheckpointStoreError (CheckpointStore × FileCheckpoint) :=
  store.transition id state.target (fun s => (allowedTransitions s).contains state.target)

def undoable (state : CheckpointState) : Bool := state == .prepared || state == .applied

def markUndone (id : Text) : Except CheckpointStoreError (CheckpointStore × FileCheckpoint) :=
  store.transition id .undone undoable

/-- Names that a listing looks at: one more than the store may hold. -/
def listedNames : List Text :=
  ((store.entries.filter fun e =>
    Text.startsWith checkpointIdPrefix e.name && e.isDirectory).take
      (store.limits.maxCheckpoints + 1)).map StoreEntry.name

def loadedRecords : List FileCheckpoint :=
  store.listedNames.filterMap fun name => (store.loadMetadata name).toOption

def list (states : Option (List CheckpointState)) (limit : Option ℕ) : List FileCheckpoint :=
  let kept := match states with
    | none => store.loadedRecords
    | some states => store.loadedRecords.filter fun r => states.contains r.state
  let sorted := kept.insertionSort (fun a b => b.createdAt ≤ a.createdAt)
  match limit with
  | none => sorted
  | some limit => sorted.take limit

end CheckpointStore

section Reconciliation

variable (sha256Hex : FileBytes → Text)

def nodeState (maxStateBytes : ℕ) : Option Node → WorkspaceFileState
  | none => ⟨false, none⟩
  | some (.file bytes) =>
    if maxStateBytes < bytes.length then ⟨true, none⟩ else ⟨true, some (sha256Hex bytes)⟩
  | some _ => ⟨true, none⟩

/-- The file a record's path names, as long as it stays inside the canonical root. -/
def readWorkspaceFileState (fs : FileSystem) (root : Path) (relativePath : Text)
    (maxStateBytes : ℕ) : WorkspaceFileState :=
  match validateRelativePath relativePath with
  | .error _ => ⟨true, none⟩
  | .ok () =>
    match fs.canonicalize root with
    | none => ⟨false, none⟩
    | some canonicalRoot =>
      let (parent, leaf) := (splitLast (· == '/') relativePath).getD (['.'], relativePath)
      match fs.canonicalize (canonicalRoot ++ parent.splitOn '/') with
      | none => ⟨false, none⟩
      | some canonicalParent =>
        if !canonicalRoot.isPrefixOf canonicalParent then ⟨true, none⟩
        else nodeState sha256Hex maxStateBytes (fs.lstat canonicalParent leaf)

structure ReconciliationReport where
  checked : ℕ
  abandoned : ℕ
  applied : ℕ
  uncertain : ℕ
  undoneAfterRestore : ℕ
  deriving DecidableEq, Repr

def ReconciliationReport.zero : ReconciliationReport := ⟨0, 0, 0, 0, 0⟩

def ReconciliationReport.count (report : ReconciliationReport) :
    ReconciliationClass → ReconciliationReport
  | .abandoned => { report with checked := report.checked + 1, abandoned := report.abandoned + 1 }
  | .applied => { report with checked := report.checked + 1, applied := report.applied + 1 }
  | .uncertain => { report with checked := report.checked + 1, uncertain := report.uncertain + 1 }
  | .undoneAfterRestore =>
    { report with
      checked := report.checked + 1, undoneAfterRestore := report.undoneAfterRestore + 1 }

/-- A transition that fails leaves the store as it was. -/
def persist (store : CheckpointStore) (id : Text) :
    ReconciliationClass → Except CheckpointStoreError (CheckpointStore × FileCheckpoint)
  | .abandoned => store.markState id .abandoned
  | .applied => store.markState id .applied
  | .uncertain => store.markState id .uncertain
  | .undoneAfterRestore => store.markUndone id

def kept (store : CheckpointStore) :
    Except CheckpointStoreError (CheckpointStore × FileCheckpoint) → CheckpointStore
  | .ok (store', _) => store'
  | .error _ => store

def reconcileOne (fs : FileSystem) (maxStateBytes : ℕ)
    (progress : CheckpointStore × ReconciliationReport) (checkpoint : FileCheckpoint) :
    CheckpointStore × ReconciliationReport :=
  let (store, report) := progress
  let current :=
    readWorkspaceFileState sha256Hex fs store.workspaceRoot checkpoint.relativePath maxStateBytes
  match classifyReconciliation checkpoint current with
  | none => (store, report)
  | some decided => (kept store (persist store checkpoint.id decided), report.count decided)

def reconcileCheckpoints (fs : FileSystem) (store : CheckpointStore) (maxStateBytes : ℕ) :
    CheckpointStore × ReconciliationReport :=
  (store.list (some [.prepared, .applied]) none).foldl
    (reconcileOne sha256Hex fs maxStateBytes) (store, .zero)

end Reconciliation

end Siralos.Checkpoint
