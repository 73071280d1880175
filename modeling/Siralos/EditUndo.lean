import Siralos.Text
import Siralos.WorkspacePath

/-!
# Undoing edits

What a successful edit leaves in the workspace and in the store, what its undo then does, and
a whole sequence of edits undone from the last one back.
-/

set_option autoImplicit false

namespace Siralos.Checkpoint

open Siralos.Workspace Siralos.Conversation Siralos.Identity

variable (sha256Hex : FileBytes → Text)

theorem refuse_if_ok (refused : Bool) (result : ToolExecutionResult) (u : Unit) :
    refuseIf refused result = .ok u ↔ refused = false := by
  cases refused <;> simp [refuseIf]

theorem read_edit_target_ok (node : Option Node) (text : Text)
    (h : readEditTarget node = .ok text) :
    node = some (.file (.text text)) ∧
      Text.utf8Len text ≤ workspaceLimits.maxTextFileSizeBytes := by
  unfold readEditTarget at h
  split at h
  · cases h
  · cases h
  · cases h
  · cases h
  · split at h
    · cases h
    · rename_i hlength
      split at h
      · cases h
        exact ⟨rfl, by simpa [FileBytes.length] using hlength⟩
      · cases h

/-- What `execute_edit` found before its checkpoint. -/
structure EditProposed (fs : FileSystem) (root : Path) (p : Proposal) (old : FileBytes) : Prop where
  current : p.current = some old
  file : fs.node p.target = some (.file old)
  small : old.length ≤ workspaceLimits.maxTextFileSizeBytes
  path : p.creation.relativePath = p.relative
  operation : p.creation.operation = .update
  before : p.creation.before = presentState sha256Hex old
  beforeBytes : p.creation.beforeBytes = some old
  after : p.creation.after = presentState sha256Hex p.bytes
  spelled : ∃ names, p.target = root ++ names ∧ p.relative = joinNames names ∧
    Spelled fs root names

theorem propose_edit_ok (host : MutationHost) (fs : FileSystem) (root : Path) (input : Json.Value)
    (p : Proposal) (hroot : Opened fs root)
    (h : proposeEdit sha256Hex host fs root input = .ok p) :
    ∃ old, EditProposed sha256Hex fs root p old := by
  simp only [proposeEdit, except_bind_ok, refuse_if_ok, map_error_ok] at h
  obtain ⟨path, _, oldString, _, newString, _, _, _, _, _, _, _, _, _, resolved, hresolved, _, hname,
    _, _, text, htext, _, _, _, _, createdAt, _, h⟩ := h
  cases h
  obtain ⟨hfile, hsmall⟩ := read_edit_target_ok _ _ htext
  obtain ⟨names, htarget, hrelative, hspelled⟩ := resolve_spelled path resolved hroot hresolved
    (by simpa using hname) _ hfile
  exact ⟨.text text, rfl, hfile, hsmall, rfl, rfl, rfl, rfl, rfl, names, htarget, hrelative,
    hspelled⟩

def Refusing {α : Type} (x : Except ToolExecutionResult α) : Prop :=
  ∀ output text, x ≠ .error (.success output text)

theorem refusing_bind {α β : Type} (x : Except ToolExecutionResult α)
    (f : α → Except ToolExecutionResult β) (hx : Refusing x) (hf : ∀ a, Refusing (f a)) :
    Refusing (x >>= f) := by
  intro output text
  cases x with
  | error result => simpa [bind, Except.bind] using hx output text
  | ok a => exact hf a output text

theorem refuse_if_refusing (refused : Bool) (result : ToolExecutionResult)
    (h : ∀ output text, result ≠ .success output text) : Refusing (refuseIf refused result) := by
  intro output text
  cases refused <;> simp [refuseIf, h]

theorem parse_field_refusing (input : Json.Value) (key : Text) :
    Refusing (parseStringField input key) := by
  intro output text
  unfold parseStringField
  split
  · simp
  · split <;> simp

theorem refuse_large_refusing (key value : Text) : Refusing (refuseSome (textTooLarge key value)) := by
  intro output text
  unfold textTooLarge
  split <;> simp [refuseSome]

theorem refuse_guarded_refusing (relative : Text) : Refusing (refuseSome (guarded relative)) := by
  intro output text
  unfold guarded
  split
  · simp [refuseSome]
  · split <;> simp [refuseSome]

theorem edit_target_refusing (node : Option Node) : Refusing (readEditTarget node) := by
  intro output text
  unfold readEditTarget
  split
  · simp
  · simp
  · simp
  · simp
  · split
    · simp
    · split <;> simp

theorem propose_edit_refusing (host : MutationHost) (fs : FileSystem) (root : Path)
    (input : Json.Value) : Refusing (proposeEdit sha256Hex host fs root input) := by
  unfold proposeEdit
  refine refusing_bind _ _ (parse_field_refusing input _) fun path => ?_
  refine refusing_bind _ _ (parse_field_refusing input _) fun oldString => ?_
  refine refusing_bind _ _ (parse_field_refusing input _) fun newString => ?_
  refine refusing_bind _ _ (refuse_if_refusing _ _ (by simp)) fun _ => ?_
  refine refusing_bind _ _ (refuse_if_refusing _ _ (by simp)) fun _ => ?_
  refine refusing_bind _ _ (refuse_large_refusing _ oldString) fun _ => ?_
  refine refusing_bind _ _ (refuse_large_refusing _ newString) fun _ => ?_
  refine refusing_bind _ _ ?_ fun resolved => ?_
  · intro output text
    cases resolveWorkspacePath fs root path <;> simp [Except.mapError]
  refine refusing_bind _ _ (refuse_if_refusing _ _ (by simp [commitFailed])) fun _ => ?_
  refine refusing_bind _ _ (refuse_guarded_refusing _) fun _ => ?_
  refine refusing_bind _ _ (edit_target_refusing _) fun currentText => ?_
  refine refusing_bind _ _ (refuse_if_refusing _ _ (by simp)) fun _ => ?_
  refine refusing_bind _ _ (refuse_if_refusing _ _ (by simp)) fun _ => ?_
  refine refusing_bind _ _ ?_ fun createdAt => ?_
  · intro output text
    cases host.timestamp <;> simp [orRefuse, clockUnavailable]
  · intro output text
    simp [pure, Except.pure]

/-- A store with some of the records of another, for the same workspace. -/
structure Trimmed (store store' : CheckpointStore) : Prop where
  root : store'.workspaceRoot = store.workspaceRoot
  limits : store'.limits = store.limits
  entries : store'.entries ⊆ store.entries

theorem Trimmed.refl (store : CheckpointStore) : Trimmed store store :=
  ⟨rfl, rfl, fun _ h => h⟩

theorem Trimmed.trans {a b c : CheckpointStore} (hab : Trimmed a b) (hbc : Trimmed b c) :
    Trimmed a c :=
  ⟨hbc.root.trans hab.root, hbc.limits.trans hab.limits, fun _ h => hab.entries (hbc.entries h)⟩

theorem prune_trimmed (store : CheckpointStore) :
    Trimmed store (pruneCheckpoints sha256Hex store).2 := by
  have hrun := Shedding.run_keeps (pruning sha256Hex) (fun p => Trimmed store p.store)
    (by
      intro p p' hp hnext
      obtain ⟨c, _, rfl⟩ := prune_next_some p p' hnext
      exact hp.trans ⟨rfl, rfl, List.filter_sublist.subset⟩)
    ⟨store, []⟩ (.refl store)
  unfold pruneCheckpoints
  dsimp only
  split
  · exact hrun
  · exact hrun

theorem ensure_trimmed (store : CheckpointStore) (r : FileCheckpoint) (preimageLen : ℕ) :
    Trimmed store (ensureCapacityFor sha256Hex store r preimageLen).2 := by
  have hprune := prune_trimmed sha256Hex store
  unfold ensureCapacityFor
  dsimp only
  split
  · exact .refl store
  · split
    · exact .refl store
    · split
      · rename_i hpruned
        rw [hpruned] at hprune
        exact hprune
      · rename_i hpruned
        rw [hpruned] at hprune
        split
        · exact hprune
        · split
          · exact hprune
          · exact hprune

theorem find_mem (store : CheckpointStore) (id : Text) (entry : StoreEntry)
    (h : store.find id = some entry) : entry ∈ store.entries ∧ entry.name = id :=
  ⟨List.mem_of_find?_eq_some h, Keyed.find_key StoreEntry.name id store.entries entry h⟩

theorem find_of_mem (store : CheckpointStore) (entry : StoreEntry) (h : entry ∈ store.entries) :
    store.find entry.name = some entry :=
  Keyed.find_of_nodup StoreEntry.name store.entries entry store.distinct h

def createdEntry (creation : CheckpointCreation) (r : FileCheckpoint) : StoreEntry :=
  .record {
    checkpoint := r, metadataBytes := documentBytes r, preimage := creation.beforeBytes
    unexpectedContent := false }

structure Created (store store' : CheckpointStore) (creation : CheckpointCreation)
    (r : FileCheckpoint) : Prop where
  root : store'.workspaceRoot = store.workspaceRoot
  limits : store'.limits = store.limits
  prepared : r = preparedRecord store.limits creation r.id
  loads : store'.loadMetadata r.id = .ok r
  fits : documentBytes r ≤ maxMetadataBytes
  entry : store'.find r.id = some (createdEntry creation r)
  entries : ∀ e ∈ store'.entries, e ∈ store.entries ∨ e = createdEntry creation r

theorem mint_record_ok (creation : CheckpointCreation) (minted : List Text)
    (store store' : CheckpointStore) (r : FileCheckpoint)
    (h : mintRecord sha256Hex creation store minted = (.ok r, store')) :
    Created store store' creation r := by
  induction minted generalizing store with
  | nil => cases h
  | cons id minted ih =>
    rw [mintRecord] at h
    split at h
    · exact ih store h
    · rename_i hvalid
      have htrim := ensure_trimmed sha256Hex store (preparedRecord store.limits creation id)
        creation.preimageLen
      dsimp only at h
      cases hensure : ensureCapacityFor sha256Hex store (preparedRecord store.limits creation id)
          creation.preimageLen with
      | mk outcome trimmed =>
        rw [hensure] at h htrim
        cases outcome with
        | error error => cases h
        | ok value =>
          dsimp only at h
          split at h
          · rename_i hfree
            cases hparse : parseMetadata trimmed.limits (preparedRecord store.limits creation id).id
                (documentBytes (preparedRecord store.limits creation id))
                (preparedRecord store.limits creation id) with
            | error error =>
              rw [hparse] at h
              cases h
            | ok parsed =>
              rw [hparse] at h
              cases h
              obtain ⟨hfits, hfields, _⟩ := (parse_metadata_iff _ _ _ _ _).mp hparse
              have hfind : (trimmed.addRecord (preparedRecord store.limits creation id)
                  creation.beforeBytes hfree).find id =
                  some (createdEntry creation (preparedRecord store.limits creation id)) :=
                find_of_mem _ (createdEntry creation (preparedRecord store.limits creation id))
                  (by simp [CheckpointStore.addRecord, createdEntry])
              have hloads : (trimmed.addRecord (preparedRecord store.limits creation id)
                  creation.beforeBytes hfree).loadMetadata id =
                  .ok (preparedRecord store.limits creation id) := by
                unfold CheckpointStore.loadMetadata
                rw [if_neg hvalid, hfind]
                exact (parse_metadata_iff _ _ _ _ _).mpr ⟨hfits, hfields, rfl⟩
              refine ⟨htrim.root, htrim.limits, rfl, hloads, hfits, hfind, ?_⟩
              · intro e he
                rcases List.mem_append.mp he with hold | hnew
                · exact .inl (htrim.entries hold)
                · exact .inr (by simpa [createdEntry] using hnew)
          · have hrest := ih trimmed h
            exact ⟨hrest.root.trans htrim.root, hrest.limits.trans htrim.limits,
              htrim.limits ▸ hrest.prepared, hrest.loads, hrest.fits, hrest.entry, fun e he =>
                (hrest.entries e he).imp_left fun hold => htrim.entries hold⟩

theorem create_checkpoint_ok (store store' : CheckpointStore) (creation : CheckpointCreation)
    (minted : List Text) (r : FileCheckpoint)
    (h : createCheckpoint sha256Hex store creation minted = (.ok r, store')) :
    validateCreation sha256Hex store.limits creation = .ok () ∧
      Created store store' creation r := by
  unfold createCheckpoint at h
  split at h
  · cases h
  · exact ⟨by assumption, mint_record_ok sha256Hex creation _ store store' r h⟩

theorem validate_preimage (limits : StoreLimits) (creation : CheckpointCreation)
    (bytes : FileBytes) (hbytes : creation.beforeBytes = some bytes)
    (hexists : creation.before.fileExists = true)
    (h : validateCreation sha256Hex limits creation = .ok ()) :
    bytes.length ≤ limits.maxPreimageBytes := by
  unfold validateCreation at h
  rw [hbytes, hexists] at h
  split at h
  · cases h
  split at h
  · cases h
  split at h
  · cases h
  split at h
  · cases h
  dsimp only at h
  split at h
  · cases h
  split at h
  · cases h
  · omega

def checkpointOf (output : Json.Value) : Option Text := (output.get "checkpoint").bind Json.Value.asStr

theorem checkpoint_of_output (p : Proposal) (id : Text) :
    checkpointOf (successOutput sha256Hex p id) = some id := by
  have hkey : (("checkpoint" : Text) == ("bytes" : Text)) = false := by decide
  simp [checkpointOf, successOutput, Json.Value.get, List.lookup_cons, hkey, Json.Value.asStr,
    -String.reduceToList]

/-- A commit that passed its guard, and the record marked applied. -/
structure Applied (fs fs' : FileSystem) (store store' : CheckpointStore) (p : Proposal)
    (r : FileCheckpoint) : Prop where
  validated : validateCreation sha256Hex store.limits p.creation = .ok ()
  commit : commitInner sha256Hex fs p.target p.bytes (p.guard sha256Hex) = .ok fs'
  directory : fs.node p.target.dropLast = some .directory
  marked : ∃ created, Created store created p.creation r ∧
    store' = bestEffort created r.id .applied

theorem stage_ok (fs : FileSystem) (directory : Path) (u : Unit)
    (h : stageAtomic fs directory = .ok u) : fs.node directory = some .directory := by
  unfold stageAtomic at h
  split at h
  · assumption
  · cases h

theorem stage_commit_ok (fs fs' : FileSystem) (root : Path) (p : Proposal)
    (h : stageAndCommit sha256Hex fs root p = .ok fs') :
    commitInner sha256Hex fs p.target p.bytes (p.guard sha256Hex) = .ok fs' ∧
      fs.node p.target.dropLast = some .directory := by
  unfold stageAndCommit at h
  split at h
  · cases h
  · cases hstage : stageAtomic fs p.target.dropLast with
    | error failure =>
      rw [hstage] at h
      cases h
    | ok value =>
      rw [hstage] at h
      exact ⟨h, stage_ok fs _ value hstage⟩

theorem apply_success (host : MutationHost) (fs : FileSystem) (store : CheckpointStore)
    (summary : Text) (p : Proposal) (output : Json.Value) (text : Text)
    (h : (applyProposal sha256Hex host fs store summary p).result = .success output text) :
    ∃ r, checkpointOf output = some r.id ∧
      Applied sha256Hex fs (applyProposal sha256Hex host fs store summary p).fs store
        (applyProposal sha256Hex host fs store summary p).store p r := by
  unfold applyProposal at h ⊢
  cases hcreate : createCheckpoint sha256Hex store p.creation host.minted with
  | mk outcome created =>
    rw [hcreate] at h
    cases outcome with
    | error error => cases h
    | ok r =>
      obtain ⟨hvalid, hcreated⟩ := create_checkpoint_ok sha256Hex store created _ _ r hcreate
      dsimp only at h ⊢
      cases hstage : stageAndCommit sha256Hex fs store.workspaceRoot p with
      | error failure =>
        rw [hstage] at h
        cases failure <;> cases h
      | ok fs' =>
        rw [hstage] at h
        obtain ⟨hcommit, hdirectory⟩ := stage_commit_ok sha256Hex fs fs' _ p hstage
        dsimp only at h ⊢
        cases hverify : verifyCommitted fs' store.workspaceRoot p.target p.bytes with
        | error result =>
          rw [hverify] at h
          dsimp only at h
          subst h
          unfold verifyCommitted at hverify
          split at hverify
          · cases hverify
          · split at hverify
            · cases hverify
            · split at hverify <;> cases hverify
          · cases hverify
        | ok value =>
          rw [hverify] at h
          cases h
          exact ⟨r, checkpoint_of_output sha256Hex p r.id, hvalid, hcommit, hdirectory, created,
            hcreated, rfl⟩

theorem find_set_entry (store : CheckpointStore) (id : Text) (f : StoreEntry → StoreEntry)
    (hname : ∀ e, (f e).name = e.name) (other : Text) :
    (store.setEntry id f hname).find other =
      (store.find other).map fun e => if other = id then f e else e :=
  Keyed.find_update_first StoreEntry.name id f hname store.entries other

/-- The store once the record of an id is written back in another state. -/
def CheckpointStore.remark (store : CheckpointStore) (id : Text) (r : FileCheckpoint)
    (state : CheckpointState) : CheckpointStore :=
  store.setEntry id (rewriteEntry (r.withState state)) (rewrite_entry_name _)

theorem load_remark (store : CheckpointStore) (id : Text) (r : FileCheckpoint)
    (state : CheckpointState) (h : store.loadMetadata id = .ok r)
    (hfits : documentBytes (r.withState state) ≤ maxMetadataBytes) :
    (store.remark id r state).loadMetadata id = .ok (r.withState state) := by
  obtain ⟨hvalid, hid, stored, hfind, hstored, hparse⟩ := store.load_some id r h
  subst hstored
  have hfind' : (store.remark id stored.checkpoint state).find id = some (.record { stored with
      checkpoint := stored.checkpoint.withState state
      metadataBytes := documentBytes (stored.checkpoint.withState state) }) := by
    rw [CheckpointStore.remark, find_set_entry, hfind]
    simp only [Option.map_some, if_pos]
    rfl
  unfold CheckpointStore.loadMetadata
  rw [hfind', if_neg (by simp [hvalid])]
  exact parse_metadata_state store.limits id _ _ _ _ state hparse hfits

theorem find_remark (store : CheckpointStore) (id other : Text) (r : FileCheckpoint)
    (state : CheckpointState) (h : other ≠ id) :
    (store.remark id r state).find other = store.find other := by
  rw [CheckpointStore.remark, find_set_entry]
  simp [h]

theorem load_of_find (store store' : CheckpointStore) (id : Text)
    (hlimits : store'.limits = store.limits) (hfind : store'.find id = store.find id) :
    store'.loadMetadata id = store.loadMetadata id := by
  unfold CheckpointStore.loadMetadata
  rw [hfind, hlimits]

theorem preimage_remark (store : CheckpointStore) (id : Text) (r : FileCheckpoint)
    (state : CheckpointState) :
    (store.remark id r state).preimageNode id = store.preimageNode id := by
  unfold CheckpointStore.preimageNode
  rw [CheckpointStore.remark, find_set_entry]
  cases store.find id with
  | none => rfl
  | some entry =>
    simp only [Option.map_some, if_pos]
    cases entry <;> rfl

theorem state_text_lengths :
    Text.utf8Len (jsonEscape CheckpointState.prepared.asStr) = 10 ∧
      Text.utf8Len (jsonEscape CheckpointState.applied.asStr) = 9 ∧
      Text.utf8Len (jsonEscape CheckpointState.undone.asStr) = 8 := by
  decide

theorem document_shrinks (r : FileCheckpoint) (h : r.state = .prepared) :
    documentBytes (r.withState .applied) ≤ documentBytes r ∧
      documentBytes (r.withState .undone) ≤ documentBytes r := by
  obtain ⟨hprepared, happlied, hundone⟩ := state_text_lengths
  have hfirst := document_bytes_state r .applied
  have hsecond := document_bytes_state r .undone
  rw [h] at hfirst hsecond
  omega

theorem best_effort_applied (store created : CheckpointStore) (creation : CheckpointCreation)
    (r : FileCheckpoint) (h : Created store created creation r) :
    bestEffort created r.id .applied = created.remark r.id r .applied := by
  have hstate : r.state = .prepared := by
    rw [h.prepared]
    rfl
  have hfits := (document_shrinks r hstate).1.trans h.fits
  have htransition := created.transition_eq r.id .applied
    (fun s => (CheckpointStore.allowedTransitions s).contains .applied) r h.loads
  unfold bestEffort CheckpointStore.markState
  change kept created (created.transition r.id .applied
    fun s => (CheckpointStore.allowedTransitions s).contains .applied) = _
  rw [htransition, hstate, if_neg (by decide), if_pos hfits]
  rfl

/-- Records of other edits are still the same entries, or were evicted. -/
def OthersKept (id : Text) (store store' : CheckpointStore) : Prop :=
  ∀ other entry, other ≠ id → store'.find other = some entry → store.find other = some entry

theorem created_others_kept (store created : CheckpointStore) (creation : CheckpointCreation)
    (r : FileCheckpoint) (h : Created store created creation r) :
    OthersKept r.id store created := by
  intro other entry hother hfind
  obtain ⟨hmem, hname⟩ := find_mem created other entry hfind
  rcases h.entries entry hmem with hold | rfl
  · rw [← hname]
    exact find_of_mem store entry hold
  · exact absurd hname.symm hother

/-- What a successful mutation leaves: its file written, its record applied, the others kept. -/
structure AppliedLeaves (fs fs' : FileSystem) (store store' : CheckpointStore) (p : Proposal)
    (r : FileCheckpoint) : Prop where
  root : store'.workspaceRoot = store.workspaceRoot
  limits : store'.limits = store.limits
  writable : fs.Writable p.target
  written : fs' = fs.setFile p.target p.bytes
  prepared : r = preparedRecord store.limits p.creation r.id
  load : store'.loadMetadata r.id = .ok (r.withState .applied)
  fits : documentBytes (r.withState .undone) ≤ maxMetadataBytes
  preimage : store'.preimageNode r.id = p.creation.beforeBytes.map .file
  others : OthersKept r.id store store'

theorem applied_leaves (fs fs' : FileSystem) (store store' : CheckpointStore) (p : Proposal)
    (r : FileCheckpoint) (h : Applied sha256Hex fs fs' store store' p r) :
    AppliedLeaves fs fs' store store' p r := by
  obtain ⟨created, hcreated, hstore⟩ := h.marked
  obtain ⟨hwritable, _, _, hfs⟩ := commit_inner_ok sha256Hex fs _ _ _ _ h.commit
  have hprepared : r.state = .prepared := by
    rw [hcreated.prepared]
    rfl
  have hfits := document_shrinks r hprepared
  rw [best_effort_applied store created p.creation r hcreated] at hstore
  subst hstore
  refine ⟨hcreated.root, hcreated.limits, hwritable, hfs, hcreated.prepared,
    load_remark created r.id r .applied hcreated.loads (hfits.1.trans hcreated.fits),
    hfits.2.trans hcreated.fits, ?_, ?_⟩
  · rw [preimage_remark, CheckpointStore.preimageNode, hcreated.entry]
    rfl
  · intro other entry hother hfind
    rw [find_remark created r.id other r .applied hother] at hfind
    exact created_others_kept store created p.creation r hcreated other entry hother hfind

/-- The checkpoint of an edit stands in the store and its file still holds the new content. -/
structure HeldEdit (fs : FileSystem) (store : CheckpointStore) (id : Text) (target : Path)
    (old new : FileBytes) : Prop where
  record : ∃ r, store.loadMetadata id = .ok r ∧ r.state = .applied ∧
    documentBytes (r.withState .undone) ≤ maxMetadataBytes ∧
    r.before = presentState sha256Hex old ∧ r.after = presentState sha256Hex new ∧
    ∃ names, target = store.workspaceRoot ++ names ∧ r.relativePath = joinNames names ∧
      Spelled fs store.workspaceRoot names
  preimage : store.preimageNode id = some (.file old)
  stored : old.length ≤ store.limits.maxPreimageBytes
  small : old.length ≤ maxPreimageBytes
  file : fs.node target = some (.file new)

theorem real_directory_congr (node node' : Path → Option Node) (path : Path)
    (h : RealDirectory node path) (hsame : ∀ q, q <+: path → node' q = node q) :
    RealDirectory node' path where
  directories q hq := (hsame q hq).trans (h.directories q hq)
  ordinary := h.ordinary

theorem set_file_directory (fs : FileSystem) (target path : Path) (bytes : FileBytes)
    (htarget : fs.Writable target) (h : RealDirectory fs.node path) :
    RealDirectory (fs.setFile target bytes).node path := by
  apply real_directory_congr fs.node _ path h
  intro q hq
  apply fs.set_file_other
  rintro rfl
  have hdirectory := h.directories q hq
  rcases htarget with hnone | ⟨old, hold⟩
  · rw [hnone] at hdirectory
    cases hdirectory
  · rw [hold] at hdirectory
    cases hdirectory

theorem spelled_set_file (fs : FileSystem) (root target : Path) (names : List Text)
    (bytes : FileBytes) (htarget : fs.Writable target) (h : Spelled fs root names) :
    Spelled (fs.setFile target bytes) root names :=
  ⟨h.plain, h.nonempty, set_file_directory fs target _ bytes htarget h.parent⟩

section UndoHeld

variable {sha256Hex} {fs : FileSystem} {store : CheckpointStore} {id : Text} {target : Path}
  {old new : FileBytes}

theorem held_restores (h : HeldEdit sha256Hex fs store id target old new)
    (hnew : new.length ≤ maxPreimageBytes) :
    ∃ r, store.loadMetadata id = .ok r ∧
      documentBytes (r.withState .undone) ≤ maxMetadataBytes ∧
      applyUndo sha256Hex store fs id maxPreimageBytes =
        ⟨.ok (.restored id), fs.setFile target old, store.remark id r .undone⟩ := by
  obtain ⟨r, hload, hstate, hfits, hbefore, hafter, names, htarget, hpath, hspelled⟩ := h.record
  obtain ⟨hvalid, hid, -⟩ := store.load_some id r hload
  have hfile := h.file
  have hwritable : fs.Writable target := .inr ⟨new, hfile⟩
  refine ⟨r, hload, hfits, ?_⟩
  have hplan : undoPlan sha256Hex store fs r maxPreimageBytes = .readyRestore := by
    rw [undoPlan, hpath, hspelled.reads, ← htarget, hfile]
    simp [nodeState, Nat.not_lt.mpr hnew, planUndo, hbefore, hafter, presentState]
  have hpreimage : store.verifiedPreimage sha256Hex r = .ok old := by
    simp [CheckpointStore.verifiedPreimage, hbefore, presentState, hid, hvalid, h.preimage,
      readCompleteFileBounded, Nat.not_lt.mpr h.stored]
  have hresolve : resolveWorkspacePath fs store.workspaceRoot r.relativePath =
      .ok ⟨joinNames names, target⟩ := by
    rw [hpath, htarget]
    exact hspelled.resolves ⟨.file new, htarget ▸ hfile, by simp⟩
  have hdirectory : fs.node target.dropLast = some .directory := by
    rw [htarget, List.dropLast_append_of_ne_nil hspelled.nonempty]
    exact hspelled.parent.directories _ List.prefix_rfl
  have hcas : writeTargetCas sha256Hex fs target old (sha256Hex new) =
      .ok (fs.setFile target old) := by
    have hsmall : ¬ maxStagedRevalidationBytes < old.length := by
      have hold := h.small
      unfold maxPreimageBytes at hold
      unfold maxStagedRevalidationBytes
      omega
    have hread : ¬ maxCasReadBytes < new.length := by
      unfold maxPreimageBytes at hnew
      unfold maxCasReadBytes
      omega
    simp [writeTargetCas, stageAtomic, hdirectory, commitInner, hfile, guardHolds,
      readCompleteFileBounded, hread, hsmall]
  have hcommit : restoreCommit sha256Hex store fs r = .ok (fs.setFile target old) := by
    simp [restoreCommit, hpreimage, hresolve, hafter, presentState, hcas]
  have hback : readBack sha256Hex store (fs.setFile target old) r maxPreimageBytes = true := by
    have hnode : (fs.setFile target old).node target = some (.file old) :=
      fs.set_file_target target old hwritable
    unfold readBack
    rw [hpath, (spelled_set_file fs _ target names old hwritable hspelled).reads, ← htarget, hnode]
    simp [nodeState, Nat.not_lt.mpr h.small, hbefore, presentState]
  have hmark : store.markUndone id = .ok (store.remark id r .undone, r.withState .undone) := by
    rw [CheckpointStore.markUndone, store.transition_eq id .undone _ r hload, hstate,
      if_neg (by decide), if_pos hfits]
    rfl
  unfold applyUndo
  rw [hload]
  dsimp only
  rw [hplan]
  simp [restoreBefore, hcommit, hback, finishUndo, hmark, hid]

theorem held_conflicts (h : HeldEdit sha256Hex fs store id target old new)
    (hnew : ¬ new.length ≤ maxPreimageBytes) :
    applyUndo sha256Hex store fs id maxPreimageBytes = ⟨.ok (.conflict id), fs, store⟩ := by
  obtain ⟨r, hload, -, -, hbefore, hafter, names, htarget, hpath, hspelled⟩ := h.record
  have hid := (store.load_some id r hload).2.1
  have hplan : undoPlan sha256Hex store fs r maxPreimageBytes = .conflict := by
    rw [undoPlan, hpath, hspelled.reads, ← htarget, h.file]
    simp [nodeState, Nat.lt_of_not_le hnew, planUndo, hafter, presentState]
  unfold applyUndo
  rw [hload]
  dsimp only
  rw [hplan, hid]

end UndoHeld

structure EditCall where
  host : MutationHost
  input : Json.Value

/-- A successful edit: its checkpoint, and the content it took its file from and to. -/
structure Edited where
  id : Text
  target : Path
  old : FileBytes
  new : FileBytes
  deriving DecidableEq, Repr

/-- An edit that succeeds, with what its proposal read. -/
def editOnce (call : EditCall) (fs : FileSystem) (store : CheckpointStore) :
    Option (Edited × FileSystem × CheckpointStore) :=
  match proposeEdit sha256Hex call.host fs store.workspaceRoot call.input with
  | .error _ => none
  | .ok p =>
    let done := executeEdit sha256Hex call.host fs store call.input
    match done.result, p.current with
    | .success output _, some old =>
      (checkpointOf output).map fun id => (⟨id, p.target, old, p.bytes⟩, done.fs, done.store)
    | _, _ => none

theorem edit_once_success (call : EditCall) (fs : FileSystem) (store : CheckpointStore)
    (output : Json.Value) (text : Text) (hroot : Opened fs store.workspaceRoot)
    (h : (executeEdit sha256Hex call.host fs store call.input).result = .success output text) :
    ∃ done fs' store', editOnce sha256Hex call fs store = some (done, fs', store') := by
  unfold editOnce
  unfold executeEdit at h ⊢
  cases hpropose : proposeEdit sha256Hex call.host fs store.workspaceRoot call.input with
  | error result =>
    exfalso
    rw [hpropose] at h
    dsimp only at h
    subst h
    exact propose_edit_refusing sha256Hex call.host fs _ call.input output text hpropose
  | ok p =>
    rw [hpropose] at h
    obtain ⟨r, hid, _⟩ := apply_success sha256Hex call.host fs store _ p output text h
    obtain ⟨old, hp⟩ := propose_edit_ok sha256Hex call.host fs store.workspaceRoot call.input p hroot
      hpropose
    dsimp only at h ⊢
    rw [h, hp.current]
    dsimp only
    rw [hid]
    exact ⟨_, _, _, rfl⟩

structure EditLeaves (fs fs' : FileSystem) (store store' : CheckpointStore) (done : Edited) :
    Prop where
  root : store'.workspaceRoot = store.workspaceRoot
  limits : store'.limits = store.limits
  file : fs.node done.target = some (.file done.old)
  written : fs' = fs.setFile done.target done.new
  held : HeldEdit sha256Hex fs' store' done.id done.target done.old done.new
  others : OthersKept done.id store store'

theorem edit_leaves (call : EditCall) (fs fs' : FileSystem) (store store' : CheckpointStore)
    (done : Edited) (hroot : Opened fs store.workspaceRoot)
    (h : editOnce sha256Hex call fs store = some (done, fs', store')) :
    EditLeaves sha256Hex fs fs' store store' done := by
  unfold editOnce executeEdit at h
  cases hpropose : proposeEdit sha256Hex call.host fs store.workspaceRoot call.input with
  | error result =>
    rw [hpropose] at h
    cases h
  | ok p =>
    obtain ⟨old, hp⟩ := propose_edit_ok sha256Hex call.host fs store.workspaceRoot call.input p hroot
      hpropose
    rw [hpropose] at h
    dsimp only at h
    rw [hp.current] at h
    split at h
    · rename_i output text old' hresult hold
      cases hold
      obtain ⟨r, hid, happlied⟩ := apply_success sha256Hex call.host fs store _ p output text hresult
      rw [hid] at h
      simp only [Option.map_some, Option.some.injEq, Prod.mk.injEq] at h
      obtain ⟨rfl, rfl, rfl⟩ := h
      have hleaves := applied_leaves sha256Hex fs _ store _ p r happlied
      obtain ⟨names, htarget, hrelative, hspelled⟩ := hp.spelled
      have hbefore : r.before = presentState sha256Hex old := by
        rw [hleaves.prepared]
        exact hp.before
      have hafter : r.after = presentState sha256Hex p.bytes := by
        rw [hleaves.prepared]
        exact hp.after
      have hpath : r.relativePath = joinNames names := by
        rw [hleaves.prepared]
        exact hp.path.trans hrelative
      refine ⟨hleaves.root, hleaves.limits, hp.file, hleaves.written, ?_, hleaves.others⟩
      refine ⟨⟨_, hleaves.load, rfl, hleaves.fits, hbefore, hafter, names, ?_, hpath, ?_⟩,
        ?_, ?_, hp.small, ?_⟩
      · rw [hleaves.root]
        exact htarget
      · rw [hleaves.root, hleaves.written]
        exact spelled_set_file fs _ _ names _ hleaves.writable hspelled
      · rw [hleaves.preimage, hp.beforeBytes]
        rfl
      · rw [hleaves.limits]
        exact validate_preimage sha256Hex store.limits p.creation old hp.beforeBytes
          (by rw [hp.before]; rfl) happlied.validated
      · rw [hleaves.written]
        exact fs.set_file_target _ _ hleaves.writable
    · cases h

theorem edit_opened (fs fs' : FileSystem) (store store' : CheckpointStore) (done : Edited)
    (hroot : Opened fs store.workspaceRoot)
    (h : EditLeaves sha256Hex fs fs' store store' done) : Opened fs' store'.workspaceRoot := by
  rw [h.root, h.written]
  exact set_file_directory fs _ _ _ (.inr ⟨_, h.file⟩) hroot

/-- A later workspace and store, as far as the undo of an edit looks: the paths down to its file
are as they were, and its record is the same entry or gone. -/
structure Undisturbed (id : Text) (target : Path) (fs fs' : FileSystem)
    (store store' : CheckpointStore) : Prop where
  root : store'.workspaceRoot = store.workspaceRoot
  limits : store'.limits = store.limits
  paths : ∀ q, q <+: target → fs'.node q = fs.node q
  record : ∀ entry, store'.find id = some entry → store.find id = some entry

def MarkedUndone (store : CheckpointStore) (id : Text) : Prop :=
  ∃ r, store.loadMetadata id = .ok r ∧ r.state = .undone

/-- The undo of an edit reports the restore, has put the old content back and closed the record. -/
structure UndoneTo (id : Text) (target : Path) (before : Option Node) (result : UndoResult) :
    Prop where
  restored : result.outcome = .ok (.restored id)
  file : result.fs.node target = before
  marked : MarkedUndone result.store id

section Later

variable {sha256Hex} {fs fs' : FileSystem} {store store' : CheckpointStore} {id : Text}
  {target : Path} {old new : FileBytes}

theorem held_later (h : HeldEdit sha256Hex fs store id target old new)
    (hlater : Undisturbed id target fs fs' store store')
    (hstanding : (store'.find id).isSome = true) :
    HeldEdit sha256Hex fs' store' id target old new := by
  obtain ⟨entry, hentry⟩ := Option.isSome_iff_exists.mp hstanding
  have hfind : store'.find id = store.find id := hentry.trans (hlater.record entry hentry).symm
  obtain ⟨r, hload, hstate, hfits, hbefore, hafter, names, htarget, hpath, hspelled⟩ := h.record
  refine ⟨⟨r, ?_, hstate, hfits, hbefore, hafter, names, ?_, hpath, hspelled.plain,
    hspelled.nonempty, ?_⟩, ?_, ?_, h.small, ?_⟩
  · rw [load_of_find store store' id hlater.limits hfind]
    exact hload
  · rw [hlater.root]
    exact htarget
  · rw [hlater.root]
    apply real_directory_congr fs.node _ _ hspelled.parent
    intro q hq
    apply hlater.paths
    rw [htarget]
    exact hq.trans ((List.prefix_append_right_inj _).mpr (List.dropLast_prefix names))
  · unfold CheckpointStore.preimageNode
    rw [hfind]
    exact h.preimage
  · rw [hlater.limits]
    exact h.stored
  · rw [hlater.paths target List.prefix_rfl]
    exact h.file

theorem missing_not_undone (fs : FileSystem) (store : CheckpointStore) (id : Text)
    (hgone : store.find id = none) (outcome : UndoApplyOutcome) :
    (applyUndo sha256Hex store fs id maxPreimageBytes).outcome ≠ .ok outcome := by
  have hload : ∃ error, store.loadMetadata id = .error error := by
    unfold CheckpointStore.loadMetadata
    rw [hgone]
    split
    · exact ⟨_, rfl⟩
    · exact ⟨_, rfl⟩
  obtain ⟨error, herror⟩ := hload
  unfold applyUndo
  rw [herror]
  simp

theorem remark_undone (r : FileCheckpoint) (h : store.loadMetadata id = .ok r)
    (hfits : documentBytes (r.withState .undone) ≤ maxMetadataBytes) :
    MarkedUndone (store.remark id r .undone) id :=
  ⟨_, load_remark store id r .undone h hfits, rfl⟩

/-- An edit that stands undisturbed is undone exactly when its new content is small enough for
the state reader and its record was not evicted. -/
theorem edit_undone_iff (h : HeldEdit sha256Hex fs store id target old new)
    (hlater : Undisturbed id target fs fs' store store') :
    UndoneTo id target (some (.file old)) (applyUndo sha256Hex store' fs' id maxPreimageBytes) ↔
      new.length ≤ maxPreimageBytes ∧ (store'.find id).isSome = true := by
  constructor
  · intro hundone
    by_cases hstanding : (store'.find id).isSome = true
    · refine ⟨?_, hstanding⟩
      by_contra hlarge
      have hconflict := held_conflicts (held_later h hlater hstanding) hlarge
      have hrestored := hundone.restored
      rw [hconflict] at hrestored
      cases hrestored
    · have hgone : store'.find id = none := by simpa using hstanding
      exact absurd hundone.restored (missing_not_undone fs' store' id hgone _)
  · rintro ⟨hnew, hstanding⟩
    have hheld := held_later h hlater hstanding
    obtain ⟨r, hload, hfits, hundo⟩ := held_restores hheld hnew
    have hfile := fs'.set_file_target target old (.inr ⟨new, hheld.file⟩)
    rw [hundo]
    exact ⟨rfl, hfile, remark_undone r hload hfits⟩

end Later

theorem undone_not_restored (fs : FileSystem) (store : CheckpointStore) (id : Text)
    (h : MarkedUndone store id) (other : Text) :
    (applyUndo sha256Hex store fs id maxPreimageBytes).outcome ≠ .ok (.restored other) := by
  obtain ⟨r, hload, hstate⟩ := h
  have hid := (store.load_some id r hload).2.1
  have hmark : store.markUndone r.id = .error (.invalidTransition id r.state .undone) := by
    rw [hid, CheckpointStore.markUndone, store.transition_eq id .undone _ r hload, hstate,
      if_pos (by decide)]
  unfold applyUndo
  rw [hload]
  dsimp only
  cases undoPlan sha256Hex store fs r maxPreimageBytes with
  | readyDelete => simp
  | conflict => simp
  | readyRestore =>
    dsimp only
    unfold restoreBefore
    split
    · simp
    · split
      · simp
      · simp [finishUndo, hmark]
  | readyCreate =>
    dsimp only
    unfold recreateBefore
    split
    · simp
    · simp [finishUndo, hmark]

end Siralos.Checkpoint
