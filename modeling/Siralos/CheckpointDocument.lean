import Siralos.CheckpointCapacity
import Siralos.Text
import Siralos.Json

/-!
# The metadata document

A stored record is a JSON document with exactly the fields of the record. What the parser
accepts it accepts again after the record was written back, in any state.
-/

set_option autoImplicit false

namespace Siralos.Checkpoint.Document

open Json Siralos.Workspace Siralos.Identity

def numberValue (n : ℕ) : Value := .number (.posInt n)

def optionValue {α : Type} (make : α → Value) : Option α → Value
  | none => .null
  | some a => make a

def fileStateFields (s : CheckpointFileState) : List (Text × Value) :=
  [("byteLength", optionValue numberValue s.byteLength),
    ("exists", .bool s.fileExists),
    ("sha256", optionValue .string s.sha256)]

def previewFields (preview : CheckpointPreview) : List (Text × Value) :=
  [("addedLines", numberValue preview.addedLines),
    ("removedLines", numberValue preview.removedLines)]

def checkpointFields (r : FileCheckpoint) : List (Text × Value) :=
  [("after", .object (fileStateFields r.after)),
    ("before", .object (fileStateFields r.before)),
    ("createdAt", .string r.createdAt),
    ("id", .string r.id),
    ("operation", .string r.operation.asStr),
    ("preview", .object (previewFields r.preview)),
    ("relativePath", .string r.relativePath),
    ("state", .string r.state.asStr),
    ("toolName", .string r.toolName),
    ("version", numberValue r.version),
    ("workspaceFingerprint", .string r.workspaceFingerprint)]

def checkpointValue (r : FileCheckpoint) : Value := .object (checkpointFields r)

/-- One validated metadata document and its exact length in bytes. -/
structure LoadedMetadata where
  checkpoint : FileCheckpoint
  metadataBytes : ℕ
  deriving DecidableEq, Repr

section Checks

variable {α : Type}

def rejectIf (rejected : Bool) (error : CheckpointStoreError) : Except CheckpointStoreError Unit :=
  if rejected then .error error else .ok ()

def orReject (value : Option α) (error : CheckpointStoreError) : Except CheckpointStoreError α :=
  match value with
  | none => .error error
  | some a => .ok a

@[simp] theorem reject_if_ok (rejected : Bool) (error : CheckpointStoreError) (u : Unit) :
    rejectIf rejected error = .ok u ↔ rejected = false := by
  cases rejected <;> simp [rejectIf]

@[simp] theorem or_reject_ok (value : Option α) (error : CheckpointStoreError) (a : α) :
    orReject value error = .ok a ↔ value = some a := by
  cases value <;> simp [orReject]

end Checks

def boolOf : Value → Option Bool
  | .bool b => some b
  | _ => none

def field (object : List (Text × Value)) (key : Text) : Option Value := object.lookup key

def required {α : Type} (read : Value → Option α) (object : List (Text × Value)) (key : Text) :
    Except CheckpointStoreError α :=
  orReject ((field object key).bind read) (malformed key)

def requiredString : List (Text × Value) → Text → Except CheckpointStoreError Text :=
  required Value.asStr

def requiredU64 : List (Text × Value) → Text → Except CheckpointStoreError ℕ :=
  required Value.asU64

def requiredBool : List (Text × Value) → Text → Except CheckpointStoreError Bool :=
  required boolOf

/-- Exactly these keys: an object has distinct ones. -/
def unexpectedFields (keys : List Text) (object : List (Text × Value)) : Bool :=
  object.length != keys.length || keys.any fun key => (object.lookup key).isNone

def states : List CheckpointState :=
  [.prepared, .applied, .undone, .abandoned, .conflicted, .uncertain]

def parseState (value : Text) : Option CheckpointState := states.find? fun s => s.asStr = value

def operations : List CheckpointOperation := [.create, .update, .delete]

def parseOperation (value : Text) : Option CheckpointOperation :=
  operations.find? fun operation => operation.asStr = value

def metadataKeys : List Text :=
  ["version", "id", "workspaceFingerprint", "relativePath", "operation", "toolName", "createdAt",
    "state", "before", "after", "preview"]

def fileStateKeys : List Text := ["exists", "sha256", "byteLength"]

def previewKeys : List Text := ["addedLines", "removedLines"]

/-- A state that does not exist may carry anything but a string and a length for its null
fields. -/
def parseFileState (value : Option Value) (label id : Text) (maxPreimageBytes : Option ℕ) :
    Except CheckpointStoreError CheckpointFileState := do
  let object ← orReject (value.bind Value.asObject)
    (refusal ("Checkpoint " ++ label ++ " is malformed") id)
  rejectIf (unexpectedFields fileStateKeys object)
    (refusal ("Checkpoint " ++ label ++ " carries unexpected fields") id)
  let fileExists ← requiredBool object "exists"
  if fileExists then
    let sha256 ← requiredString object "sha256"
    rejectIf (!isSha256Hex sha256) (refusal ("Checkpoint " ++ label ++ " hash is invalid") id)
    let byteLength ← requiredU64 object "byteLength"
    rejectIf (maxPreimageBytes.any fun maximum => maximum < byteLength)
      (refusal ("Checkpoint " ++ label ++ " byte length exceeds the configured maximum") id)
    .ok ⟨true, some sha256, some byteLength⟩
  else
    rejectIf (((field object "sha256").bind Value.asStr).isSome ||
        ((field object "byteLength").bind Value.asU64).isSome)
      (refusal ("Checkpoint " ++ label ++
        " carries a hash or byte length for a state that does not exist") id)
    .ok ⟨false, none, none⟩

def parsePreview (object : List (Text × Value)) (id : Text) :
    Except CheckpointStoreError CheckpointPreview := do
  let preview ← orReject ((field object "preview").bind Value.asObject)
    (refusal "Checkpoint preview is malformed" id)
  rejectIf (unexpectedFields previewKeys preview)
    (refusal "Checkpoint preview carries unexpected fields" id)
  let addedLines ← requiredU64 preview "addedLines"
  let removedLines ← requiredU64 preview "removedLines"
  .ok ⟨addedLines, removedLines⟩

def invariantMessage (operation : CheckpointOperation) (operationValue : Text)
    (before after : CheckpointFileState) : CheckpointStoreError :=
  .invalid ("Checkpoint operation \"" ++ operationValue ++
    "\" requires the before/after existence transition " ++
    transitionText (.forOperation operation) ++ ", but the record declares " ++
    transitionText ⟨before.fileExists, after.fileExists⟩)

def validPath (relativePath : Text) : Bool :=
  match validateRelativePath relativePath with
  | .ok () => true
  | .error _ => false

/-- The fields of a document, in the order in which they are checked. -/
def parseFields (limits : StoreLimits) (id : Text) (object : List (Text × Value)) :
    Except CheckpointStoreError FileCheckpoint := do
  rejectIf (unexpectedFields metadataKeys object)
    (refusal "Checkpoint metadata carries unexpected fields" id)
  let version ← requiredU64 object "version"
  rejectIf (version != checkpointVersion) (refusal "Checkpoint metadata version or id mismatch" id)
  let recordId ← requiredString object "id"
  rejectIf (recordId != id) (refusal "Checkpoint metadata version or id mismatch" id)
  let recordFingerprint ← requiredString object "workspaceFingerprint"
  rejectIf (recordFingerprint != limits.workspaceFingerprint)
    (refusal "Checkpoint belongs to a different workspace" id)
  let relativePath ← requiredString object "relativePath"
  rejectIf (!validPath relativePath) (refusal "Checkpoint relative path is invalid" id)
  let stateValue ← requiredString object "state"
  let state ← orReject (parseState stateValue) (refusal "Checkpoint state is invalid" id)
  let toolName ← requiredString object "toolName"
  rejectIf (toolName.isEmpty || maxToolNameLength < Text.utf8Len toolName)
    (refusal "Checkpoint tool name is invalid" id)
  let createdAt ← requiredString object "createdAt"
  rejectIf (createdAt.isEmpty || maxCreatedAtLength < Text.utf8Len createdAt)
    (refusal "Checkpoint creation time is invalid" id)
  let operationValue ← requiredString object "operation"
  let operation ← orReject (parseOperation operationValue)
    (refusal "Checkpoint operation is invalid" id)
  let before ← parseFileState (field object "before") "before" id (some limits.maxPreimageBytes)
  let after ← parseFileState (field object "after") "after" id none
  rejectIf (!validateCheckpointInvariant operation before.fileExists after.fileExists)
    (invariantMessage operation operationValue before after)
  let preview ← parsePreview object id
  .ok {
    version := checkpointVersion, id := recordId, workspaceFingerprint := recordFingerprint
    relativePath, operation, toolName, createdAt, state, before, after, preview }

section Metadata

variable (fromStr : Text → Option Value)

def parseMetadata (limits : StoreLimits) (id raw : Text) :
    Except CheckpointStoreError LoadedMetadata := do
  rejectIf (maxMetadataBytes < Text.utf8Len raw) (refusal "Checkpoint metadata is oversized" id)
  let value ← orReject (fromStr raw) (refusal "Checkpoint metadata is not valid JSON" id)
  let object ← orReject value.asObject (refusal "Checkpoint metadata is malformed" id)
  let checkpoint ← parseFields limits id object
  .ok ⟨checkpoint, Text.utf8Len raw⟩

end Metadata

theorem check_fields_iff (limits : StoreLimits) (id : Text) (r : FileCheckpoint) :
    checkFields limits id r = .ok () ↔
      (r.version = checkpointVersion ∧ r.id = id) ∧
      r.workspaceFingerprint = limits.workspaceFingerprint ∧ validPath r.relativePath = true ∧
      ¬ (r.toolName.isEmpty = true ∨ maxToolNameLength < Text.utf8Len r.toolName) ∧
      ¬ (r.createdAt.isEmpty = true ∨ maxCreatedAtLength < Text.utf8Len r.createdAt) ∧
      Checkpoint.parseFileState "before" id (some limits.maxPreimageBytes) r.before = .ok () ∧
      Checkpoint.parseFileState "after" id none r.after = .ok () ∧
      validateCheckpointInvariant r.operation r.before.fileExists r.after.fileExists = true := by
  unfold checkFields validPath
  by_cases hid : r.version = checkpointVersion ∧ r.id = id
  · rw [if_neg (by tauto)]
    by_cases hfingerprint : r.workspaceFingerprint = limits.workspaceFingerprint
    · rw [if_neg (not_not.mpr hfingerprint)]
      cases hpath : validateRelativePath r.relativePath with
      | error error => exact iff_of_false nofun fun h => nomatch h.2.2.1
      | ok u =>
        dsimp only
        split
        · rename_i htool
          exact iff_of_false nofun fun h => h.2.2.2.1 htool
        · rename_i htool
          split
          · rename_i hcreated
            exact iff_of_false nofun fun h => h.2.2.2.2.1 hcreated
          · rename_i hcreated
            cases hbefore : Checkpoint.parseFileState "before" id (some limits.maxPreimageBytes)
                r.before with
            | error error => exact iff_of_false nofun fun h => nomatch h.2.2.2.2.2.1
            | ok u =>
              cases hafter : Checkpoint.parseFileState "after" id none r.after with
              | error error => exact iff_of_false nofun fun h => nomatch h.2.2.2.2.2.2.1
              | ok u =>
                dsimp only
                split
                · rename_i hinvariant
                  exact iff_of_true rfl
                    ⟨hid, hfingerprint, rfl, htool, hcreated, rfl, rfl, hinvariant⟩
                · rename_i hinvariant
                  exact iff_of_false nofun fun h => hinvariant h.2.2.2.2.2.2.2
    · rw [if_pos hfingerprint]
      exact iff_of_false nofun fun h => hfingerprint h.2.1
  · rw [if_pos (by tauto)]
    exact iff_of_false nofun fun h => hid h.1

theorem parse_state_as_str (s : CheckpointState) : parseState s.asStr = some s := by
  cases s <;> rfl

theorem parse_operation_as_str (operation : CheckpointOperation) :
    parseOperation operation.asStr = some operation := by
  cases operation <;> rfl

theorem parsed_file_state (value : Option Value) (label id : Text) (limit : Option ℕ)
    (s : CheckpointFileState) (h : parseFileState value label id limit = .ok s) :
    Checkpoint.parseFileState label id limit s = .ok () := by
  simp only [parseFileState, except_bind_ok, or_reject_ok, reject_if_ok] at h
  obtain ⟨object, -, -, -, fileExists, -, h⟩ := h
  cases fileExists with
  | false =>
    simp only [Bool.false_eq_true, if_false, except_bind_ok, reject_if_ok] at h
    obtain ⟨-, -, h⟩ := h
    cases h
    rfl
  | true =>
    simp only [if_true, except_bind_ok, reject_if_ok] at h
    obtain ⟨sha256, -, -, hhex, byteLength, -, -, hlimit, h⟩ := h
    cases h
    rw [Bool.not_eq_false'] at hhex
    simp only [Checkpoint.parseFileState, Bool.not_true, Bool.false_eq_true, if_false, hhex,
      hlimit]

theorem file_state_reads_back (label id : Text) (limit : Option ℕ) (s : CheckpointFileState)
    (h : Checkpoint.parseFileState label id limit s = .ok ()) :
    parseFileState (some (.object (fileStateFields s))) label id limit = .ok s := by
  obtain ⟨fileExists, sha256, byteLength⟩ := s
  simp only [parseFileState, except_bind_ok, or_reject_ok, reject_if_ok]
  refine ⟨_, rfl, (), rfl, fileExists, rfl, ?_⟩
  cases fileExists with
  | false =>
    rw [if_neg Bool.false_ne_true]
    cases sha256 with
    | some sha256 => cases h
    | none =>
      cases byteLength with
      | some byteLength => cases h
      | none => rfl
  | true =>
    rw [if_pos rfl]
    cases sha256 with
    | none => cases h
    | some sha256 =>
      simp only [Checkpoint.parseFileState, Bool.not_true, Bool.false_eq_true, if_false] at h
      split at h
      · cases h
      · rename_i hhex
        cases byteLength with
        | none => cases h
        | some byteLength =>
          dsimp only at h
          split at h
          · cases h
          · rename_i hlimit
            simp only [except_bind_ok, reject_if_ok]
            exact ⟨sha256, rfl, (), by simpa using hhex, byteLength, rfl, (), by simpa using hlimit,
              rfl⟩

theorem parsed_fields (limits : StoreLimits) (id : Text) (object : List (Text × Value))
    (r : FileCheckpoint) (h : parseFields limits id object = .ok r) :
    checkFields limits id r = .ok () := by
  simp only [parseFields, except_bind_ok, or_reject_ok, reject_if_ok] at h
  obtain ⟨-, -, version, -, -, -, recordId, -, -, hid, recordFingerprint, -, -, hfingerprint,
    relativePath, -, -, hpath, stateValue, -, state, -, toolName, -, -, htool, createdAt, -, -,
    hcreated, operationValue, -, operation, -, before, hbefore, after, hafter, -, hinvariant,
    preview, -, h⟩ := h
  cases h
  rw [check_fields_iff]
  rw [Bool.or_eq_false_iff] at htool hcreated
  refine ⟨⟨rfl, by simpa using hid⟩, by simpa using hfingerprint, by simpa using hpath, ?_, ?_,
    parsed_file_state _ _ _ _ _ hbefore, parsed_file_state _ _ _ _ _ hafter,
    by simpa using hinvariant⟩
  · simpa [htool.1] using htool.2
  · simpa [hcreated.1] using hcreated.2

theorem fields_read_back (limits : StoreLimits) (id : Text) (r : FileCheckpoint)
    (h : checkFields limits id r = .ok ()) : parseFields limits id (checkpointFields r) = .ok r := by
  obtain ⟨⟨hversion, hid⟩, hfingerprint, hpath, htool, hcreated, hbefore, hafter, hinvariant⟩ :=
    (check_fields_iff limits id r).mp h
  simp only [parseFields, except_bind_ok, or_reject_ok, reject_if_ok]
  refine ⟨(), rfl, r.version, rfl, (), by simp [hversion], r.id, rfl, (), by simp [hid],
    r.workspaceFingerprint, rfl, (), by simp [hfingerprint], r.relativePath, rfl, (),
    by simp [hpath], r.state.asStr, rfl, r.state, parse_state_as_str r.state, r.toolName, rfl, (),
    by simpa using htool, r.createdAt, rfl, (), by simpa using hcreated, r.operation.asStr, rfl,
    r.operation, parse_operation_as_str r.operation, r.before,
    file_state_reads_back _ _ _ _ hbefore, r.after, file_state_reads_back _ _ _ _ hafter, (),
    by simp [hinvariant], r.preview, rfl, ?_⟩
  rw [← hversion]

section RoundTrips

variable (sha256Hex : FileBytes → Text) (fromStr : Text → Option Value)

/-- `serde_json` is a dependency: it reads the document it wrote for a record. -/
def ReadsBack (r : FileCheckpoint) : Prop := fromStr (serializeCheckpoint r) = some (checkpointValue r)

def Reparses (limits : StoreLimits) (r : FileCheckpoint) : Prop :=
  parseMetadata fromStr limits r.id (serializeCheckpoint r) = .ok ⟨r, documentBytes r⟩

variable {fromStr} in
theorem parsed_metadata (limits : StoreLimits) (id raw : Text) (loaded : LoadedMetadata)
    (h : parseMetadata fromStr limits id raw = .ok loaded) :
    checkFields limits id loaded.checkpoint = .ok () := by
  simp only [parseMetadata, except_bind_ok, or_reject_ok, reject_if_ok] at h
  obtain ⟨-, -, value, -, object, -, checkpoint, hfields, h⟩ := h
  cases h
  exact parsed_fields limits id object checkpoint hfields

variable {fromStr} in
theorem reparses (limits : StoreLimits) (r : FileCheckpoint) (hread : ReadsBack fromStr r)
    (hbytes : documentBytes r ≤ maxMetadataBytes) (hfields : checkFields limits r.id r = .ok ()) :
    Reparses fromStr limits r := by
  simp only [Reparses, parseMetadata, except_bind_ok, or_reject_ok, reject_if_ok]
  refine ⟨(), ?_, checkpointValue r, hread, checkpointFields r, rfl, r,
    fields_read_back limits r.id r hfields, rfl⟩
  exact decide_eq_false (Nat.not_lt.mpr hbytes)

variable {fromStr} in
theorem written_reparses (limits : StoreLimits) (r r' : FileCheckpoint)
    (hread : ReadsBack fromStr r)
    (h : Checkpoint.parseMetadata limits r.id (documentBytes r) r = .ok r') :
    Reparses fromStr limits r := by
  obtain ⟨hbytes, hfields, -⟩ := (parse_metadata_iff _ _ _ _ _).mp h
  exact reparses limits r hread hbytes hfields

theorem minted_written (creation : CheckpointCreation) (minted : List Text)
    (store : CheckpointStore) (r : FileCheckpoint)
    (h : (mintRecord sha256Hex creation store minted).1 = .ok r) :
    ∃ r', Checkpoint.parseMetadata store.limits r.id (documentBytes r) r = .ok r' := by
  induction minted generalizing store with
  | nil => cases h
  | cons id minted ih =>
    rw [mintRecord] at h
    split at h
    · exact ih store h
    · dsimp only at h
      have htrim := ensure_trimmed sha256Hex store (preparedRecord store.limits creation id)
        creation.preimageLen
      cases hensure : ensureCapacityFor sha256Hex store (preparedRecord store.limits creation id)
          creation.preimageLen with
      | mk outcome store' =>
        rw [hensure] at h htrim
        rw [← htrim.limits]
        cases outcome with
        | error error => cases h
        | ok value =>
          dsimp only at h
          split at h
          · split at h
            · cases h
            · rename_i parsed hparse
              cases h
              exact ⟨parsed, hparse⟩
          · exact ih store' h

theorem transition_written (store store' : CheckpointStore) (id : Text)
    (target : CheckpointState) (allowed : CheckpointState → Bool) (r : FileCheckpoint)
    (h : store.transition id target allowed = .ok (store', r)) :
    ∃ r', Checkpoint.parseMetadata store.limits r.id (documentBytes r) r = .ok r' := by
  rw [CheckpointStore.transition] at h
  split at h
  · cases h
  · rename_i checkpoint _
    split at h
    · cases h
    · cases hwrite : store.writeMetadata (checkpoint.withState target) with
      | error error =>
        rw [hwrite] at h
        cases h
      | ok written =>
        rw [hwrite] at h
        cases h
        rw [CheckpointStore.writeMetadata] at hwrite
        split at hwrite
        · cases hwrite
        · rename_i parsed hparse
          exact ⟨parsed, hparse⟩

/-- What the store writes, and what is read from any document, survives being written back. With
the state it has, `r.withState r.state` is `r`. -/
structure RoundTrips (store : CheckpointStore) : Prop where
  created : ∀ creation minted r, (createCheckpoint sha256Hex store creation minted).1 = .ok r →
    ReadsBack fromStr r → Reparses fromStr store.limits r
  marked : ∀ id state store' r, store.markState id state = .ok (store', r) →
    ReadsBack fromStr r → Reparses fromStr store.limits r
  undone : ∀ id store' r, store.markUndone id = .ok (store', r) →
    ReadsBack fromStr r → Reparses fromStr store.limits r
  rewritten : ∀ id raw r bytes state, parseMetadata fromStr store.limits id raw = .ok ⟨r, bytes⟩ →
    ReadsBack fromStr (r.withState state) →
    documentBytes (r.withState state) ≤ maxMetadataBytes →
    r.id = id ∧ Reparses fromStr store.limits (r.withState state)

theorem metadata_round_trips (store : CheckpointStore) : RoundTrips sha256Hex fromStr store := by
  constructor
  case created =>
    intro creation minted r h hread
    rw [createCheckpoint] at h
    split at h
    · cases h
    · obtain ⟨r', hparse⟩ := minted_written sha256Hex creation _ store r h
      exact written_reparses store.limits r r' hread hparse
  case marked =>
    intro id state store' r h hread
    obtain ⟨r', hparse⟩ := transition_written store store' id _ _ r h
    exact written_reparses store.limits r r' hread hparse
  case undone =>
    intro id store' r h hread
    obtain ⟨r', hparse⟩ := transition_written store store' id _ _ r h
    exact written_reparses store.limits r r' hread hparse
  case rewritten =>
    intro id raw r bytes state h hread hbytes
    have hfields := parsed_metadata store.limits id raw ⟨r, bytes⟩ h
    have hid : r.id = id := check_fields_id store.limits id r hfields
    refine ⟨hid, reparses store.limits (r.withState state) hread hbytes ?_⟩
    rw [check_fields_state]
    exact hid ▸ hfields

end RoundTrips

def sampleRecord : FileCheckpoint := preparedRecord sampleFull.limits sampleCreation sampleId

/-- Reads the documents of one record in two of its states. -/
def sampleReader (text : Text) : Option Value :=
  if text = serializeCheckpoint sampleRecord then some (checkpointValue sampleRecord)
  else if text = serializeCheckpoint (sampleRecord.withState .applied) then
    some (checkpointValue (sampleRecord.withState .applied))
  else none

theorem sample_rewritten :
    Reparses sampleReader sampleFull.limits (sampleRecord.withState .applied) := by
  have hchecked : documentBytes sampleRecord ≤ maxMetadataBytes ∧
      checkFields sampleFull.limits sampleRecord.id sampleRecord = .ok () ∧
      serializeCheckpoint (sampleRecord.withState .applied) ≠ serializeCheckpoint sampleRecord ∧
      documentBytes (sampleRecord.withState .applied) ≤ maxMetadataBytes := by decide +kernel
  obtain ⟨hbytes, hfields, hne, hfits⟩ := hchecked
  have hread : ReadsBack sampleReader sampleRecord := if_pos rfl
  have happlied : ReadsBack sampleReader (sampleRecord.withState .applied) :=
    (if_neg hne).trans (if_pos rfl)
  have hparse : Reparses sampleReader sampleFull.limits sampleRecord :=
    reparses sampleFull.limits sampleRecord hread hbytes hfields
  exact ((metadata_round_trips sampleSha sampleReader sampleFull).rewritten sampleRecord.id _ _ _
    .applied hparse happlied hfits).2

end Siralos.Checkpoint.Document
