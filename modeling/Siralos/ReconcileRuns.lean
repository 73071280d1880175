import Siralos.EditRuns
import Siralos.Reconcile

/-!
# Runs before a reconciliation

A run of writes, edits and undos leaves records that are applied or undone. Reconciliation has
nothing to do after it as long as no content that the run writes is another applied record's
before-state again.
-/

set_option autoImplicit false

namespace Siralos.Checkpoint

open Siralos.Workspace Siralos.Conversation

section Runs

variable (sha256Hex : FileBytes → Text) (maxStateBytes : ℕ)

inductive Operation where
  | write (host : MutationHost) (input : Json.Value)
  | edit (host : MutationHost) (input : Json.Value)
  | undo (id : Text) (maxStateBytes : ℕ)

def Operation.undone : Operation → Option Text
  | write _ _ | edit _ _ => none
  | undo id _ => some id

def succeeded (done : MutationResult) : Option (FileSystem × CheckpointStore) :=
  match done.result with
  | .success _ _ => some (done.fs, done.store)
  | _ => none

def restoredTo (done : UndoResult) : Option (FileSystem × CheckpointStore) :=
  match done.outcome with
  | .ok outcome => if outcome.completed then some (done.fs, done.store) else none
  | .error _ => none

/-- One operation of a run, which has to succeed. -/
def step (op : Operation) (fs : FileSystem) (store : CheckpointStore) :
    Option (FileSystem × CheckpointStore) :=
  match op with
  | .write host input => succeeded (executeWrite sha256Hex host fs store input)
  | .edit host input => succeeded (executeEdit sha256Hex host fs store input)
  | .undo id maxStateBytes => restoredTo (applyUndo sha256Hex store fs id maxStateBytes)

def runOperations : List Operation → FileSystem → CheckpointStore →
    Option (FileSystem × CheckpointStore)
  | [], fs, store => some (fs, store)
  | op :: ops, fs, store =>
    match step sha256Hex op fs store with
    | none => none
    | some (fs', store') => runOperations ops fs' store'

/-- The path at which an undo puts the before-state back. -/
def undoTarget (fs : FileSystem) (root : Path) (r : FileCheckpoint) : Option Path :=
  if r.after.fileExists then
    (resolveWorkspacePath fs root r.relativePath).toOption.map ResolvedWorkspacePath.absolutePath
  else
    (resolveCreateTarget fs root r.relativePath).toOption.map fun target =>
      target.parent ++ [target.leaf]

/-- The file and the content that an operation is about to write. -/
def written (op : Operation) (fs : FileSystem) (store : CheckpointStore) :
    Option (Path × FileBytes) :=
  match op with
  | .write host input =>
    (proposeWrite sha256Hex host fs store.workspaceRoot input).toOption.map fun p =>
      (p.target, p.bytes)
  | .edit host input =>
    (proposeEdit sha256Hex host fs store.workspaceRoot input).toOption.map fun p =>
      (p.target, p.bytes)
  | .undo id _ =>
    (store.loadMetadata id).toOption.bind fun r =>
      (undoTarget fs store.workspaceRoot r).bind fun target =>
        (store.verifiedPreimage sha256Hex r).toOption.map fun bytes => (target, bytes)

/-- The content to write is no other applied record's before-state of that file, unless it is its
after-state too. -/
def ReturnsNone (op : Operation) (fs : FileSystem) (store : CheckpointStore) : Prop :=
  ∀ target bytes, written sha256Hex op fs store = some (target, bytes) →
    ∀ id r, store.loadMetadata id = .ok r → r.state = .applied → op.undone ≠ some id →
      readPlace fs store.workspaceRoot r.relativePath = some target →
        ¬ Returned r (nodeState sha256Hex maxStateBytes (some (.file bytes)))

def EachReturnsNone : List Operation → FileSystem → CheckpointStore → Prop
  | [], _, _ => True
  | op :: ops, fs, store => ReturnsNone sha256Hex maxStateBytes op fs store ∧
      ∀ fs' store', step sha256Hex op fs store = some (fs', store') →
        EachReturnsNone ops fs' store'

/-- What one operation does: it writes its content into its file and closes or applies one record
of its own, which is not returned; the other records are as they were. -/
structure StepLeaves (op : Operation) (fs fs' : FileSystem) (store store' : CheckpointStore)
    (target : Path) (bytes : FileBytes) : Prop where
  planned : written sha256Hex op fs store = some (target, bytes)
  root : store'.workspaceRoot = store.workspaceRoot
  writable : fs.Writable target
  inside : store.workspaceRoot <+: target
  file : fs' = fs.setFile target bytes
  records : ∀ id r, store'.loadMetadata id = .ok r →
    (store.loadMetadata id = .ok r ∧ op.undone ≠ some id) ∨ r.state = .undone ∨
      (r.state = .applied ∧ ¬ Returned r (readWorkspaceFileState sha256Hex fs'
        store.workspaceRoot r.relativePath maxStateBytes))

theorem step_quiet (op : Operation) (fs fs' : FileSystem) (store store' : CheckpointStore)
    (target : Path) (bytes : FileBytes) (hroot : Opened fs store.workspaceRoot)
    (hleaves : StepLeaves sha256Hex maxStateBytes op fs fs' store store' target bytes)
    (hreturns : ReturnsNone sha256Hex maxStateBytes op fs store)
    (hquiet : Quiet sha256Hex maxStateBytes fs store) :
    Quiet sha256Hex maxStateBytes fs' store' := by
  intro id r hload
  rw [hleaves.root]
  rcases hleaves.records id r hload with ⟨hold, hother⟩ | hundone | ⟨happlied, hown⟩
  · obtain ⟨hprepared, hkept⟩ := hquiet id r hold
    refine ⟨hprepared, ?_⟩
    intro happlied
    rw [hleaves.file]
    by_cases hplace : readPlace fs store.workspaceRoot r.relativePath = some target
    · rw [read_written sha256Hex maxStateBytes r.relativePath hroot hleaves.writable hplace]
      exact hreturns target bytes hleaves.planned id r hold happlied hother hplace
    · rw [read_elsewhere sha256Hex maxStateBytes r.relativePath hroot hleaves.writable
        hleaves.inside hplace]
      exact hkept happlied
  · simp [hundone]
  · exact ⟨by simp [happlied], fun _ => hown⟩

theorem own_not_returned (r : FileCheckpoint) (bytes : FileBytes)
    (h : r.after = presentState sha256Hex bytes) :
    ¬ Returned r (nodeState sha256Hex maxStateBytes (some (.file bytes))) := by
  rintro ⟨hbefore, hafter⟩
  rw [h] at hafter
  by_cases hlarge : maxStateBytes < bytes.length
  · simp [nodeState, hlarge, statesEqual] at hbefore
  · simp [nodeState, hlarge, statesEqual, presentState, CheckpointFileState.toWorkspace] at hafter

theorem others_load (store store' : CheckpointStore) (own id : Text) (r : FileCheckpoint)
    (hlimits : store'.limits = store.limits) (h : OthersKept own store store') (hother : id ≠ own)
    (hload : store'.loadMetadata id = .ok r) : store.loadMetadata id = .ok r := by
  obtain ⟨_, _, stored, hfind, _⟩ := store'.load_some id r hload
  have hsame : store'.find id = store.find id := hfind.trans (h id _ hother hfind).symm
  rw [← load_of_find store store' id hlimits hsame]
  exact hload

theorem mutation_leaves (op : Operation) (fs fs' : FileSystem) (store store' : CheckpointStore)
    (p : Proposal) (r : FileCheckpoint) (names : List Text)
    (h : AppliedLeaves fs fs' store store' p r) (hundone : op.undone = none)
    (hplanned : written sha256Hex op fs store = some (p.target, p.bytes))
    (hafter : p.creation.after = presentState sha256Hex p.bytes)
    (htarget : p.target = store.workspaceRoot ++ names)
    (hpath : p.creation.relativePath = joinNames names)
    (hspelled : Spelled fs store.workspaceRoot names) :
    StepLeaves sha256Hex maxStateBytes op fs fs' store store' p.target p.bytes := by
  refine ⟨hplanned, h.root, h.writable, ?_, h.written, ?_⟩
  · rw [htarget]
    exact List.prefix_append _ _
  · intro id r' hload
    by_cases hid : id = r.id
    · rw [hid, h.load] at hload
      cases hload
      refine .inr (.inr ⟨rfl, ?_⟩)
      have hread : (r.withState .applied).relativePath = joinNames names := by
        rw [h.prepared]
        exact hpath
      have hstate : (r.withState .applied).after = presentState sha256Hex p.bytes := by
        rw [h.prepared]
        exact hafter
      have hnode : fs'.node (store.workspaceRoot ++ names) = some (.file p.bytes) := by
        rw [h.written, ← htarget]
        exact fs.set_file_target _ _ h.writable
      have hspelled' : Spelled fs' store.workspaceRoot names := by
        rw [h.written]
        exact spelled_set_file fs _ _ names _ h.writable hspelled
      rw [hread, hspelled'.reads, hnode]
      exact own_not_returned sha256Hex maxStateBytes _ p.bytes hstate
    · exact .inl ⟨others_load store store' r.id id r' h.limits h.others hid hload, by simp [hundone]⟩

theorem succeeded_applied (host : MutationHost) (fs fs' : FileSystem)
    (store store' : CheckpointStore) (proposed : Except ToolExecutionResult Proposal)
    (summary : Proposal → Text)
    (h : succeeded (match proposed with
      | .error result => ⟨result, fs, store⟩
      | .ok p => applyProposal sha256Hex host fs store (summary p) p) = some (fs', store'))
    (hrefusing : Refusing proposed) :
    ∃ p r, proposed = .ok p ∧ Applied sha256Hex fs fs' store store' p r := by
  cases proposed with
  | error result =>
    unfold succeeded at h
    split at h
    · rename_i output text hsuccess
      exact absurd (congrArg Except.error hsuccess) (hrefusing output text)
    · cases h
  | ok p =>
    unfold succeeded at h
    split at h
    · rename_i output text hsuccess
      cases h
      obtain ⟨r, _, happlied⟩ := apply_success sha256Hex host fs store _ p output text hsuccess
      exact ⟨p, r, rfl, happlied⟩
    · cases h

theorem edit_step_leaves (host : MutationHost) (input : Json.Value) (fs fs' : FileSystem)
    (store store' : CheckpointStore) (hroot : Opened fs store.workspaceRoot)
    (h : step sha256Hex (.edit host input) fs store = some (fs', store')) :
    ∃ target bytes, StepLeaves sha256Hex maxStateBytes (.edit host input) fs fs' store store'
      target bytes := by
  obtain ⟨p, r, hpropose, happlied⟩ := succeeded_applied sha256Hex host fs fs' store store' _ _ h
    (propose_edit_refusing sha256Hex host fs store.workspaceRoot input)
  obtain ⟨old, hp⟩ := propose_edit_ok sha256Hex host fs store.workspaceRoot input p hroot hpropose
  obtain ⟨names, htarget, hrelative, hspelled⟩ := hp.spelled
  have hplanned : written sha256Hex (.edit host input) fs store = some (p.target, p.bytes) := by
    simp [written, hpropose, Except.toOption]
  exact ⟨p.target, p.bytes, mutation_leaves sha256Hex maxStateBytes _ fs fs' store store' p r names
    (applied_leaves sha256Hex fs fs' store store' p r happlied) rfl hplanned hp.after htarget
    (hp.path.trans hrelative) hspelled⟩

/-- What `execute_write` found before its checkpoint; its parent is inspected when it is staged. -/
structure WriteProposed (fs : FileSystem) (root : Path) (p : Proposal) : Prop where
  after : p.creation.after = presentState sha256Hex p.bytes
  path : p.creation.relativePath = p.relative
  spelled : fs.node p.target.dropLast = some .directory →
    ∃ names, p.target = root ++ names ∧ p.relative = joinNames names ∧ Spelled fs root names

theorem propose_write_ok (host : MutationHost) (fs : FileSystem) (root : Path) (input : Json.Value)
    (p : Proposal) (hroot : Opened fs root)
    (h : proposeWrite sha256Hex host fs root input = .ok p) : WriteProposed sha256Hex fs root p := by
  simp only [proposeWrite, except_bind_ok, refuse_if_ok, map_error_ok] at h
  obtain ⟨path, _, content, _, _, _, _, _, target, htarget, _, hname, relative, hrelative, _, _, _, _,
    _, _, createdAt, _, h⟩ := h
  cases h
  refine ⟨rfl, rfl, ?_⟩
  intro hdirectory
  have hsome : createRelative root target.parent target.leaf = some relative := by
    unfold orRefuse at hrelative
    split at hrelative
    · cases hrelative
      assumption
    · cases hrelative
  exact create_spelled path relative target hroot htarget (by simpa using hname) hsome
    (by simpa using hdirectory)

theorem propose_write_refusing (host : MutationHost) (fs : FileSystem) (root : Path)
    (input : Json.Value) : Refusing (proposeWrite sha256Hex host fs root input) := by
  unfold proposeWrite
  refine refusing_bind _ _ (parse_field_refusing input _) fun path => ?_
  refine refusing_bind _ _ (parse_field_refusing input _) fun content => ?_
  refine refusing_bind _ _ (refuse_if_refusing _ _ (by simp)) fun _ => ?_
  refine refusing_bind _ _ (refuse_if_refusing _ _ (by simp)) fun _ => ?_
  refine refusing_bind _ _ ?_ fun target => ?_
  · intro output text
    cases resolveCreateTarget fs root path <;> simp [Except.mapError]
  refine refusing_bind _ _ (refuse_if_refusing _ _ (by simp [commitFailed])) fun _ => ?_
  refine refusing_bind _ _ ?_ fun relative => ?_
  · intro output text
    cases createRelative root target.parent target.leaf <;> simp [orRefuse]
  refine refusing_bind _ _ (refuse_if_refusing _ _ (by simp)) fun _ => ?_
  refine refusing_bind _ _ (refuse_guarded_refusing _) fun _ => ?_
  refine refusing_bind _ _ (refuse_if_refusing _ _ (by simp)) fun _ => ?_
  refine refusing_bind _ _ ?_ fun createdAt => ?_
  · intro output text
    cases host.timestamp <;> simp [orRefuse, clockUnavailable]
  · intro output text
    simp [pure, Except.pure]

theorem write_step_leaves (host : MutationHost) (input : Json.Value) (fs fs' : FileSystem)
    (store store' : CheckpointStore) (hroot : Opened fs store.workspaceRoot)
    (h : step sha256Hex (.write host input) fs store = some (fs', store')) :
    ∃ target bytes, StepLeaves sha256Hex maxStateBytes (.write host input) fs fs' store store'
      target bytes := by
  obtain ⟨p, r, hpropose, happlied⟩ := succeeded_applied sha256Hex host fs fs' store store' _ _ h
    (propose_write_refusing sha256Hex host fs store.workspaceRoot input)
  have hp := propose_write_ok sha256Hex host fs store.workspaceRoot input p hroot hpropose
  obtain ⟨names, htarget, hrelative, hspelled⟩ := hp.spelled happlied.directory
  have hplanned : written sha256Hex (.write host input) fs store = some (p.target, p.bytes) := by
    simp [written, hpropose, Except.toOption]
  exact ⟨p.target, p.bytes, mutation_leaves sha256Hex maxStateBytes _ fs fs' store store' p r names
    (applied_leaves sha256Hex fs fs' store store' p r happlied) rfl hplanned hp.after htarget
    (hp.path.trans hrelative) hspelled⟩

theorem restore_commit_ok (store : CheckpointStore) (fs fs' : FileSystem) (r : FileCheckpoint)
    (h : restoreCommit sha256Hex store fs r = .ok fs') :
    ∃ bytes resolved, store.verifiedPreimage sha256Hex r = .ok bytes ∧
      resolveWorkspacePath fs store.workspaceRoot r.relativePath = .ok resolved ∧
      fs.Writable resolved.absolutePath ∧ fs' = fs.setFile resolved.absolutePath bytes := by
  unfold restoreCommit at h
  split at h
  · cases h
  rename_i bytes hbytes
  split at h
  · cases h
  rename_i resolved hresolved
  split at h
  · cases h
  split at h
  · cases h
  rename_i hcas
  cases h
  unfold writeTargetCas at hcas
  split at hcas
  · cases hcas
  obtain ⟨hwritable, _, _, hfs⟩ := commit_inner_ok sha256Hex fs _ _ _ _ hcas
  exact ⟨bytes, resolved, hbytes, hresolved, hwritable, hfs⟩

theorem recreate_commit_ok (store : CheckpointStore) (fs fs' : FileSystem) (r : FileCheckpoint)
    (h : recreateCommit sha256Hex store fs r = .ok fs') :
    ∃ bytes target, store.verifiedPreimage sha256Hex r = .ok bytes ∧
      resolveCreateTarget fs store.workspaceRoot r.relativePath = .ok target ∧
      fs.Writable (target.parent ++ [target.leaf]) ∧
      fs' = fs.setFile (target.parent ++ [target.leaf]) bytes := by
  unfold recreateCommit at h
  split at h
  · cases h
  rename_i bytes hbytes
  split at h
  · cases h
  rename_i target htarget
  split at h
  · cases h
  split at h
  · cases h
  rename_i hcommit
  cases h
  obtain ⟨hwritable, _, _, hfs⟩ := commit_inner_ok sha256Hex fs _ _ _ _ hcommit
  exact ⟨bytes, target, hbytes, htarget, hwritable, hfs⟩

theorem finish_undo_restored (store store' : CheckpointStore) (fs fs' : FileSystem) (id : Text)
    (r : FileCheckpoint) (outcome : UndoApplyOutcome) (hload : store.loadMetadata id = .ok r)
    (h : restoredTo (finishUndo store fs r outcome) = some (fs', store')) :
    fs' = fs ∧ store' = store.remark id r .undone ∧
      documentBytes (r.withState .undone) ≤ maxMetadataBytes := by
  have hid : r.id = id := (store.load_some id r hload).2.1
  have hmark := store.transition_eq id .undone CheckpointStore.undoable r hload
  unfold finishUndo CheckpointStore.markUndone at h
  rw [hid, hmark] at h
  by_cases hundoable : CheckpointStore.undoable r.state = false
  · rw [if_pos hundoable] at h
    cases h
  · rw [if_neg hundoable] at h
    by_cases hfits : documentBytes (r.withState .undone) ≤ maxMetadataBytes
    · rw [if_pos hfits] at h
      unfold restoredTo at h
      dsimp only at h
      split at h
      · cases h
        exact ⟨rfl, rfl, hfits⟩
      · cases h
    · rw [if_neg hfits] at h
      cases h

theorem undo_restored (id : Text) (maxUndoBytes : ℕ) (fs fs' : FileSystem)
    (store store' : CheckpointStore)
    (h : restoredTo (applyUndo sha256Hex store fs id maxUndoBytes) = some (fs', store')) :
    ∃ r target bytes, store.loadMetadata id = .ok r ∧
      undoTarget fs store.workspaceRoot r = some target ∧
      store.verifiedPreimage sha256Hex r = .ok bytes ∧ fs.Writable target ∧
      fs' = fs.setFile target bytes ∧ store' = store.remark id r .undone ∧
      documentBytes (r.withState .undone) ≤ maxMetadataBytes := by
  unfold applyUndo at h
  cases hload : store.loadMetadata id with
  | error error =>
    rw [hload] at h
    cases h
  | ok r =>
    rw [hload] at h
    dsimp only at h
    cases hplan : undoPlan sha256Hex store fs r maxUndoBytes with
    | readyDelete =>
      rw [hplan] at h
      cases h
    | conflict =>
      rw [hplan] at h
      cases h
    | readyRestore =>
      rw [hplan] at h
      unfold restoreBefore at h
      dsimp only at h
      cases hcommit : restoreCommit sha256Hex store fs r with
      | error error =>
        rw [hcommit] at h
        cases h
      | ok committedFs =>
        rw [hcommit] at h
        dsimp only at h
        split at h
        · cases h
        · obtain ⟨bytes, resolved, hbytes, hresolved, hwritable, hfs⟩ :=
            restore_commit_ok sha256Hex store fs committedFs r hcommit
          obtain ⟨rfl, hstore, hfits⟩ := finish_undo_restored store store' _ fs' id r _ hload h
          refine ⟨r, resolved.absolutePath, bytes, rfl, ?_, hbytes, hwritable, hfs, hstore, hfits⟩
          rw [undoTarget, if_pos (plan_restore r _ hplan), hresolved]
          rfl
    | readyCreate =>
      rw [hplan] at h
      unfold recreateBefore at h
      dsimp only at h
      cases hcommit : recreateCommit sha256Hex store fs r with
      | error error =>
        rw [hcommit] at h
        cases h
      | ok committedFs =>
        rw [hcommit] at h
        obtain ⟨bytes, target, hbytes, htarget, hwritable, hfs⟩ :=
          recreate_commit_ok sha256Hex store fs committedFs r hcommit
        obtain ⟨rfl, hstore, hfits⟩ := finish_undo_restored store store' _ fs' id r _ hload h
        refine ⟨r, target.parent ++ [target.leaf], bytes, rfl, ?_, hbytes, hwritable, hfs, hstore,
          hfits⟩
        have hafter := plan_create r _ hplan
        rw [undoTarget, if_neg (by simp [hafter]), htarget]
        rfl

theorem undo_target_inside (fs : FileSystem) (root target : Path) (r : FileCheckpoint)
    (hroot : Opened fs root) (h : undoTarget fs root r = some target) : root <+: target := by
  unfold undoTarget at h
  split at h
  · cases hresolved : resolveWorkspacePath fs root r.relativePath with
    | error rejection =>
      rw [hresolved] at h
      cases h
    | ok resolved =>
      rw [hresolved] at h
      cases h
      exact (resolve_ok r.relativePath resolved hroot hresolved).2.2.1
  · cases hcreate : resolveCreateTarget fs root r.relativePath with
    | error rejection =>
      rw [hcreate] at h
      cases h
    | ok pending =>
      rw [hcreate] at h
      cases h
      obtain ⟨_, _, _, _, parent, resolved, hresolved, hparent, _⟩ :=
        create_target_ok r.relativePath pending hcreate
      dsimp only
      rw [← hparent]
      exact (resolve_ok parent resolved hroot hresolved).2.2.1.trans (List.prefix_append _ _)

theorem undo_step_leaves (id : Text) (maxUndoBytes : ℕ) (fs fs' : FileSystem)
    (store store' : CheckpointStore) (hroot : Opened fs store.workspaceRoot)
    (h : step sha256Hex (.undo id maxUndoBytes) fs store = some (fs', store')) :
    ∃ target bytes, StepLeaves sha256Hex maxStateBytes (.undo id maxUndoBytes) fs fs' store store'
      target bytes := by
  obtain ⟨r, target, bytes, hload, htarget, hbytes, hwritable, hfs, rfl, hfits⟩ :=
    undo_restored sha256Hex id maxUndoBytes fs fs' store store' h
  refine ⟨target, bytes, ?_, rfl, hwritable, undo_target_inside fs _ target r hroot htarget, hfs, ?_⟩
  · simp [written, hload, htarget, hbytes, Except.toOption]
  · intro other r' hload'
    by_cases hother : other = id
    · rw [hother, load_remark store id r .undone hload hfits] at hload'
      cases hload'
      exact .inr (.inl rfl)
    · refine .inl ⟨?_, ?_⟩
      · rw [← load_of_find store (store.remark id r .undone) other rfl
          (find_remark store id other r .undone hother)]
        exact hload'
      · simpa [Operation.undone] using fun hid => hother hid.symm

theorem step_leaves (op : Operation) (fs fs' : FileSystem) (store store' : CheckpointStore)
    (hroot : Opened fs store.workspaceRoot) (h : step sha256Hex op fs store = some (fs', store')) :
    ∃ target bytes, StepLeaves sha256Hex maxStateBytes op fs fs' store store' target bytes := by
  cases op with
  | write host input => exact write_step_leaves sha256Hex maxStateBytes host input fs fs' store store' hroot h
  | edit host input => exact edit_step_leaves sha256Hex maxStateBytes host input fs fs' store store' hroot h
  | undo id maxUndoBytes => exact undo_step_leaves sha256Hex maxStateBytes id maxUndoBytes fs fs' store store' hroot h

theorem run_quiet (ops : List Operation) (fs fs' : FileSystem) (store store' : CheckpointStore)
    (hroot : Opened fs store.workspaceRoot) (hquiet : Quiet sha256Hex maxStateBytes fs store)
    (hreturns : EachReturnsNone sha256Hex maxStateBytes ops fs store)
    (h : runOperations sha256Hex ops fs store = some (fs', store')) :
    Quiet sha256Hex maxStateBytes fs' store' := by
  induction ops generalizing fs store with
  | nil =>
    cases h
    exact hquiet
  | cons op ops ih =>
    rw [runOperations] at h
    cases hstep : step sha256Hex op fs store with
    | none =>
      rw [hstep] at h
      cases h
    | some next =>
      obtain ⟨fs₁, store₁⟩ := next
      rw [hstep] at h
      obtain ⟨target, bytes, hleaves⟩ := step_leaves sha256Hex maxStateBytes op fs fs₁ store store₁
        hroot hstep
      have hquiet₁ := step_quiet sha256Hex maxStateBytes op fs fs₁ store store₁ target bytes hroot
        hleaves hreturns.1 hquiet
      have hroot₁ : Opened fs₁ store₁.workspaceRoot := by
        rw [hleaves.root, hleaves.file]
        exact set_file_directory fs target _ bytes hleaves.writable hroot
      exact ih fs₁ store₁ hroot₁ hquiet₁ (hreturns.2 fs₁ store₁ hstep) h

end Runs

/-- A run that returns no other applied record to its before-state leaves reconciliation nothing to
do, and reconciling twice changes nothing more. -/
theorem reconcile_truthful (sha256Hex : FileBytes → Text) (maxStateBytes : ℕ) :
    (∀ ops fs store fs' store', Opened fs store.workspaceRoot →
      Quiet sha256Hex maxStateBytes fs store →
      runOperations sha256Hex ops fs store = some (fs', store') →
      EachReturnsNone sha256Hex maxStateBytes ops fs store →
      reconcileCheckpoints sha256Hex fs' store' maxStateBytes = (store', .zero)) ∧
    ∀ fs store, (reconcileCheckpoints sha256Hex fs
        (reconcileCheckpoints sha256Hex fs store maxStateBytes).1 maxStateBytes).1 =
      (reconcileCheckpoints sha256Hex fs store maxStateBytes).1 := by
  constructor
  · intro ops fs store fs' store' hroot hquiet hrun hreturns
    exact quiet_reconciles sha256Hex maxStateBytes fs' store'
      (run_quiet sha256Hex maxStateBytes ops fs fs' store store' hroot hquiet hreturns hrun)
  · intro fs store
    exact reconcile_twice sha256Hex fs maxStateBytes store

/-- The edit of the sample workspace, under another minted id. -/
def sampleOperation (id : Text) (old new : Text) : Operation :=
  .edit ⟨false, some "1.0", [id]⟩ (sampleEdit old new).input

theorem sample_operation_run : (runOperations sampleSha [sampleOperation sampleId ['b'] ['a']]
    sampleWorkspace sampleEmptyStore).isSome = true := by
  decide +kernel

/-- Apart on the three contents of the sample's run. -/
def contentSha : FileBytes → Text
  | .text ['a'] => List.replicate 64 'a'
  | .text ['b'] => List.replicate 64 'b'
  | _ => List.replicate 64 'c'

def sampleOperations : List Operation :=
  [sampleOperation sampleId ['b'] ['a'], sampleOperation "cp_9876543210" ['a'] ['c']]

theorem sample_operations_run :
    (runOperations contentSha sampleOperations sampleWorkspace sampleEmptyStore).isSome = true := by
  decide +kernel

def apartFrom (bytes : FileBytes) : StoreEntry → Bool
  | .record stored =>
    !statesEqual (nodeState contentSha maxPreimageBytes (some (.file bytes)))
      stored.checkpoint.before.toWorkspace
  | .unreadable _ _ _ => true

theorem sample_apart : (step contentSha (sampleOperation sampleId ['b'] ['a']) sampleWorkspace
    sampleEmptyStore).all (fun run =>
      (written contentSha (sampleOperation "cp_9876543210" ['a'] ['c']) run.1 run.2).all fun plan =>
        !run.2.entries.isEmpty && run.2.entries.all (apartFrom plan.2)) = true := by
  decide +kernel

theorem sample_returns_none :
    EachReturnsNone contentSha maxPreimageBytes sampleOperations sampleWorkspace
      sampleEmptyStore := by
  refine ⟨?_, ?_⟩
  · intro target bytes _ id r hload
    obtain ⟨_, _, stored, hfind, _⟩ := sampleEmptyStore.load_some id r hload
    cases hfind
  · intro fs store hstep
    refine ⟨?_, fun _ _ _ => trivial⟩
    intro target bytes hwritten id r hload _ _ _
    have hapart := sample_apart
    rw [hstep, Option.all_some, hwritten, Option.all_some, Bool.and_eq_true] at hapart
    obtain ⟨_, _, stored, hfind, rfl, _⟩ := store.load_some id r hload
    have hentry := List.all_eq_true.mp hapart.2 _ (find_mem store id _ hfind).1
    rintro ⟨hbefore, -⟩
    rw [apartFrom, hbefore] at hentry
    cases hentry

theorem sample_run_truthful :
    ∃ fs' store', runOperations contentSha sampleOperations sampleWorkspace sampleEmptyStore =
        some (fs', store') ∧
      reconcileCheckpoints contentSha fs' store' maxPreimageBytes = (store', .zero) := by
  obtain ⟨⟨fs', store'⟩, hrun⟩ := Option.isSome_iff_exists.mp sample_operations_run
  exact ⟨fs', store', hrun, (reconcile_truthful contentSha maxPreimageBytes).1 _ sampleWorkspace
    sampleEmptyStore fs' store' sample_opened
    (fresh_quiet contentSha maxPreimageBytes sampleWorkspace sampleEmptyStore rfl) hrun
    sample_returns_none⟩

/-- An edit and the edit back leave two applied records, and the first one looks undone. -/
theorem returned_run_reports : (runOperations sampleSha
    [sampleOperation sampleId ['b'] ['a'], sampleOperation "cp_9876543210" ['a'] ['b']]
    sampleWorkspace sampleEmptyStore).map (fun run =>
      (reconcileCheckpoints sampleSha run.1 run.2 maxPreimageBytes).2) = some ⟨1, 0, 0, 0, 1⟩ := by
  decide +kernel

theorem reconcile_truthful_fails :
    ¬ ∀ (sha256Hex : FileBytes → Text) (maxStateBytes : ℕ) (ops : List Operation)
      (fs : FileSystem) (store : CheckpointStore) (fs' : FileSystem) (store' : CheckpointStore),
      Opened fs store.workspaceRoot → store.entries = [] →
      runOperations sha256Hex ops fs store = some (fs', store') →
      reconcileCheckpoints sha256Hex fs' store' maxStateBytes = (store', .zero) := by
  intro h
  obtain ⟨run, hrun, hreport⟩ := Option.map_eq_some_iff.mp returned_run_reports
  have hquiet := h sampleSha maxPreimageBytes _ sampleWorkspace sampleEmptyStore run.1 run.2
    sample_opened rfl hrun
  rw [hquiet] at hreport
  cases hreport

end Siralos.Checkpoint
