import Siralos.CheckpointCapacity
import Siralos.Inspection
import Siralos.ReconcileRuns

/-!
# What a crash leaves

A crash may cut an operation short between any two of its effects on disk, the staged files and
the files of a record's directory included: the states that are left, and the one record that the
next reconciliation finds to settle in them.
-/

set_option autoImplicit false

namespace Siralos.Checkpoint

open Siralos.Workspace Siralos.Conversation

section Cuts

variable (sha256Hex : FileBytes → Text)

theorem append_distinct (store : CheckpointStore) (entry : StoreEntry)
    (h : store.find entry.name = none) :
    ((store.entries ++ [entry]).map StoreEntry.name).Nodup := by
  rw [List.map_append, List.nodup_append]
  refine ⟨store.distinct, by simp, ?_⟩
  intro name hname other hother heq
  obtain ⟨old, hold, rfl⟩ := List.mem_map.mp hname
  have hfree := List.find?_eq_none.mp h old hold
  have hid : other = entry.name := by simpa using hother
  simp [heq, hid] at hfree

/-- The directory of a new record before its metadata is written. -/
def CheckpointStore.claim (store : CheckpointStore) (id : Text) (h : store.find id = none) :
    CheckpointStore :=
  { store with
    entries := store.entries ++
      [.unreadable id true (refusal "Checkpoint metadata is missing or a symbolic link" id)]
    distinct := append_distinct store
      (.unreadable id true (refusal "Checkpoint metadata is missing or a symbolic link" id)) h }

/-- What is left of a record's directory when only some of its files are removed yet. -/
def leftIn (metadata preimage other : Bool) : StoreEntry → StoreEntry
  | .record stored =>
    if metadata then
      .record { stored with
        preimage := if preimage then stored.preimage else none
        unexpectedContent := other && stored.unexpectedContent }
    else
      .unreadable stored.checkpoint.id true
        (refusal "Checkpoint metadata is missing or a symbolic link" stored.checkpoint.id)
  | entry => entry

/-- A record's directory with a staged document beside the old one. -/
def withStaged : StoreEntry → StoreEntry
  | .record stored => .record { stored with unexpectedContent := true }
  | entry => entry

theorem left_in_name (metadata preimage other : Bool) (entry : StoreEntry) :
    (leftIn metadata preimage other entry).name = entry.name := by
  cases entry with
  | unreadable name isDirectory failure => rfl
  | record stored => cases metadata <;> rfl

theorem with_staged_name (entry : StoreEntry) : (withStaged entry).name = entry.name := by
  cases entry <;> rfl

def CheckpointStore.leaving (store : CheckpointStore) (id : Text)
    (metadata preimage other : Bool) : CheckpointStore :=
  store.setEntry id (leftIn metadata preimage other) (left_in_name metadata preimage other)

def CheckpointStore.staging (store : CheckpointStore) (id : Text) : CheckpointStore :=
  store.setEntry id withStaged with_staged_name

/-- A name that a staged file may have: the stem and a nonce, in the directory of its target. -/
def StagedBeside (target temporary : Path) : Prop :=
  ∃ nonce : Text, temporary = target.dropLast ++ [Inspection.mutationTempPrefix ++ '-' :: nonce]

/-- A staging that was cut short leaves a new file, written in part or in full. -/
structure Staging (target : Path) (fs fs' : FileSystem) (temporary : Path) (bytes : FileBytes) :
    Prop where
  writable : fs.Writable target
  beside : StagedBeside target temporary
  directory : fs.node target.dropLast = some .directory
  new : fs.node temporary = none
  file : fs' = fs.setFile temporary bytes

/-- The stores that a creation goes through before its record is complete. -/
inductive CreationCut (creation : CheckpointCreation) :
    CheckpointStore → List Text → CheckpointStore → Prop
  | evicting {store : CheckpointStore} {minted : List Text} {p : Pruning}
      (h : Shedding.Passes (pruning sha256Hex) ⟨store, []⟩ p) :
      CreationCut creation store minted p.store
  | removing {store : CheckpointStore} {minted : List Text} {p : Pruning} {id : Text}
      (metadata preimage other : Bool) (h : Shedding.Passes (pruning sha256Hex) ⟨store, []⟩ p)
      (hnext : pruneNext p = some ⟨p.store.removeEntry id, p.evicted ++ [id]⟩) :
      CreationCut creation store minted (p.store.leaving id metadata preimage other)
  | invalid {store s : CheckpointStore} {id : Text} {minted : List Text}
      (hid : isValidCheckpointId id = false) (h : CreationCut creation store minted s) :
      CreationCut creation store (id :: minted) s
  | collision {store trimmed s : CheckpointStore} {id : Text} {minted : List Text}
      (hroom : ensureCapacityFor sha256Hex store (preparedRecord store.limits creation id)
        creation.preimageLen = (.ok (), trimmed))
      (htaken : trimmed.find id ≠ none) (h : CreationCut creation trimmed minted s) :
      CreationCut creation store (id :: minted) s
  | claimed {store trimmed : CheckpointStore} {id : Text} {minted : List Text}
      (hroom : ensureCapacityFor sha256Hex store (preparedRecord store.limits creation id)
        creation.preimageLen = (.ok (), trimmed))
      (hfree : trimmed.find id = none) :
      CreationCut creation store (id :: minted) (trimmed.claim id hfree)

/-- What is on disk when a mutation is cut short. -/
inductive MutationCut (host : MutationHost) (fs : FileSystem) (store : CheckpointStore)
    (p : Proposal) : FileSystem → CheckpointStore → Prop
  | creating {s : CheckpointStore}
      (h : CreationCut sha256Hex p.creation store (host.minted.take maxIdAttempts) s) :
      MutationCut host fs store p fs s
  | prepared {r : FileCheckpoint} {created : CheckpointStore}
      (hcreate : createCheckpoint sha256Hex store p.creation host.minted = (.ok r, created)) :
      MutationCut host fs store p fs created
  | staged {r : FileCheckpoint} {created : CheckpointStore} {fs' : FileSystem} {temporary : Path}
      {bytes : FileBytes}
      (hcreate : createCheckpoint sha256Hex store p.creation host.minted = (.ok r, created))
      (h : Staging p.target fs fs' temporary bytes) : MutationCut host fs store p fs' created
  | abandoning {r : FileCheckpoint} {created : CheckpointStore} {failure : AtomicWriteFailure}
      (hcreate : createCheckpoint sha256Hex store p.creation host.minted = (.ok r, created))
      (hcommit : stageAndCommit sha256Hex fs store.workspaceRoot p = .error failure) :
      MutationCut host fs store p fs (created.staging r.id)
  | replaced {r : FileCheckpoint} {created : CheckpointStore} {fs' : FileSystem}
      (hcreate : createCheckpoint sha256Hex store p.creation host.minted = (.ok r, created))
      (hcommit : stageAndCommit sha256Hex fs store.workspaceRoot p = .ok fs') :
      MutationCut host fs store p fs' created
  | applying {r : FileCheckpoint} {created : CheckpointStore} {fs' : FileSystem}
      (hcreate : createCheckpoint sha256Hex store p.creation host.minted = (.ok r, created))
      (hcommit : stageAndCommit sha256Hex fs store.workspaceRoot p = .ok fs') :
      MutationCut host fs store p fs' (created.staging r.id)
  | finished (summary : Text) :
      MutationCut host fs store p (applyProposal sha256Hex host fs store summary p).fs
        (applyProposal sha256Hex host fs store summary p).store

/-- What is on disk when an operation is cut short, from before its first effect to after its
last. -/
inductive Cut : Operation → FileSystem → CheckpointStore → FileSystem → CheckpointStore → Prop
  | before {op : Operation} {fs : FileSystem} {store : CheckpointStore} : Cut op fs store fs store
  | write {host : MutationHost} {input : Json.Value} {fs fs' : FileSystem}
      {store s : CheckpointStore} {p : Proposal}
      (hp : proposeWrite sha256Hex host fs store.workspaceRoot input = .ok p)
      (h : MutationCut sha256Hex host fs store p fs' s) : Cut (.write host input) fs store fs' s
  | edit {host : MutationHost} {input : Json.Value} {fs fs' : FileSystem}
      {store s : CheckpointStore} {p : Proposal}
      (hp : proposeEdit sha256Hex host fs store.workspaceRoot input = .ok p)
      (h : MutationCut sha256Hex host fs store p fs' s) : Cut (.edit host input) fs store fs' s
  | staged {id : Text} {maxUndoBytes : ℕ} {fs fs' : FileSystem} {store : CheckpointStore}
      {target temporary : Path} {bytes staged : FileBytes}
      (hwritten : written sha256Hex (.undo id maxUndoBytes) fs store = some (target, bytes))
      (h : Staging target fs fs' temporary staged) : Cut (.undo id maxUndoBytes) fs store fs' store
  | restored {id : Text} {maxUndoBytes : ℕ} {fs fs' : FileSystem} {store : CheckpointStore}
      {r : FileCheckpoint} (hload : store.loadMetadata id = .ok r)
      (h : committed sha256Hex store fs r maxUndoBytes = some fs') :
      Cut (.undo id maxUndoBytes) fs store fs' store
  | closing {id : Text} {maxUndoBytes : ℕ} {fs fs' : FileSystem} {store : CheckpointStore}
      {r : FileCheckpoint} (hload : store.loadMetadata id = .ok r)
      (h : committed sha256Hex store fs r maxUndoBytes = some fs') :
      Cut (.undo id maxUndoBytes) fs store fs' (store.staging id)
  | undone {id : Text} {maxUndoBytes : ℕ} {fs : FileSystem} {store : CheckpointStore} :
      Cut (.undo id maxUndoBytes) fs store (applyUndo sha256Hex store fs id maxUndoBytes).fs
        (applyUndo sha256Hex store fs id maxUndoBytes).store

end Cuts

/-- A store that loads nothing that another does not load, and is within its bound. -/
structure Thinned (store s : CheckpointStore) : Prop where
  root : s.workspaceRoot = store.workspaceRoot
  limits : s.limits = store.limits
  bounded : s.entries.length ≤ store.limits.maxCheckpoints
  loads : ∀ id r, s.loadMetadata id = .ok r → store.loadMetadata id = .ok r

theorem Trimmed.find {store s : CheckpointStore} (h : Trimmed store s) (id : Text)
    (entry : StoreEntry) (hfind : s.find id = some entry) : store.find id = some entry := by
  obtain ⟨hmem, rfl⟩ := find_mem s id entry hfind
  exact find_of_mem store entry (h.entries hmem)

theorem Trimmed.loads {store s : CheckpointStore} (h : Trimmed store s) (id : Text)
    (r : FileCheckpoint) (hload : s.loadMetadata id = .ok r) :
    store.loadMetadata id = .ok r := by
  obtain ⟨_, _, stored, hfind, _⟩ := s.load_some id r hload
  rw [← load_of_find store s id h.limits (hfind.trans (h.find id _ hfind).symm)]
  exact hload

theorem entries_nodup (store : CheckpointStore) : store.entries.Nodup :=
  List.Nodup.of_map _ store.distinct

theorem Trimmed.length {store s : CheckpointStore} (h : Trimmed store s) :
    s.entries.length ≤ store.entries.length :=
  ((entries_nodup s).subperm h.entries).length_le

theorem Trimmed.thinned {store s : CheckpointStore} (h : Trimmed store s)
    (hbounded : store.entries.length ≤ store.limits.maxCheckpoints) : Thinned store s :=
  ⟨h.root, h.limits, h.length.trans hbounded, h.loads⟩

theorem load_claim (store : CheckpointStore) (id : Text) (hfree : store.find id = none)
    (other : Text) (r : FileCheckpoint) (h : (store.claim id hfree).loadMetadata other = .ok r) :
    store.loadMetadata other = .ok r := by
  obtain ⟨_, _, stored, hfind, _⟩ := (store.claim id hfree).load_some other r h
  obtain ⟨hmem, hname⟩ := find_mem _ other _ hfind
  rcases List.mem_append.mp hmem with hold | hnew
  · have hsame := find_of_mem store _ hold
    rw [hname] at hsame
    rw [← load_of_find store (store.claim id hfree) other rfl (hfind.trans hsame.symm)]
    exact h
  · simp at hnew

theorem set_entry_length (store : CheckpointStore) (id : Text) (f : StoreEntry → StoreEntry)
    (hname : ∀ e, (f e).name = e.name) :
    (store.setEntry id f hname).entries.length = store.entries.length := by
  have hkeys := Keyed.update_first_keys StoreEntry.name id f hname store.entries
  have hlength := congrArg List.length hkeys
  rw [List.length_map, List.length_map] at hlength
  exact hlength

theorem load_set_entry (store : CheckpointStore) (id : Text) (f : StoreEntry → StoreEntry)
    (hname : ∀ e, (f e).name = e.name) (other : Text) (r : FileCheckpoint)
    (hload : ∀ entry, loadEntry store.limits other (f entry) = .ok r →
      loadEntry store.limits other entry = .ok r)
    (h : (store.setEntry id f hname).loadMetadata other = .ok r) :
    store.loadMetadata other = .ok r := by
  unfold CheckpointStore.loadMetadata at h ⊢
  split at h
  · cases h
  · rename_i hvalid
    rw [if_neg hvalid]
    rw [find_set_entry] at h
    cases hfind : store.find other with
    | none =>
      rw [hfind] at h
      cases h
    | some entry =>
      rw [hfind] at h
      dsimp only [Option.map_some] at h ⊢
      split at h
      · exact hload entry h
      · exact h

theorem leaving_thinned {store s : CheckpointStore} (h : Thinned store s) (id : Text)
    (metadata preimage other : Bool) : Thinned store (s.leaving id metadata preimage other) where
  root := h.root
  limits := h.limits
  bounded := by
    rw [CheckpointStore.leaving, set_entry_length]
    exact h.bounded
  loads name r hload := by
    apply h.loads name r (load_set_entry s id _ _ name r _ hload)
    intro entry hentry
    cases entry with
    | unreadable old isDirectory failure => cases hentry
    | record stored =>
      cases metadata with
      | false => cases hentry
      | true => exact hentry

structure SameRecords (store s : CheckpointStore) : Prop where
  root : s.workspaceRoot = store.workspaceRoot
  limits : s.limits = store.limits
  length : s.entries.length = store.entries.length
  loads : ∀ id, s.loadMetadata id = store.loadMetadata id

theorem SameRecords.refl (store : CheckpointStore) : SameRecords store store :=
  ⟨rfl, rfl, rfl, fun _ => rfl⟩

theorem staging_same (store : CheckpointStore) (id : Text) :
    SameRecords store (store.staging id) where
  root := rfl
  limits := rfl
  length := set_entry_length store id _ _
  loads other := by
    have hentry : ∀ entry, loadEntry store.limits other (withStaged entry) =
        loadEntry store.limits other entry := by
      intro entry
      cases entry <;> rfl
    unfold CheckpointStore.loadMetadata CheckpointStore.staging
    rw [find_set_entry]
    cases store.find other with
    | none => rfl
    | some entry =>
      dsimp only [Option.map_some]
      by_cases hother : other = id
      · rw [if_pos hother]
        exact if_congr Iff.rfl rfl (hentry entry)
      · rw [if_neg hother]
        rfl

theorem SameRecords.remark {store s : CheckpointStore} (h : SameRecords store s) {id : Text}
    {r : FileCheckpoint} {state : CheckpointState} (hload : store.loadMetadata id = .ok r)
    (hfits : documentBytes (r.withState state) ≤ maxMetadataBytes) :
    SameRecords (store.remark id r state) (s.remark id r state) where
  root := h.root
  limits := h.limits
  length := by
    rw [CheckpointStore.remark, CheckpointStore.remark, set_entry_length, set_entry_length]
    exact h.length
  loads other := by
    by_cases hother : other = id
    · rw [hother, load_remark store id r state hload hfits,
        load_remark s id r state ((h.loads id).trans hload) hfits]
    · rw [load_of_find store (store.remark id r state) other rfl
          (find_remark store id other r state hother),
        load_of_find s (s.remark id r state) other rfl (find_remark s id other r state hother)]
      exact h.loads other

section Capacity

variable {sha256Hex : FileBytes → Text}

theorem fold_counts (cost : StoreEntry → Except CheckpointStoreError ℕ) (entries : List StoreEntry)
    (usage usage' : CapacityUsage) (h : entries.foldlM (fun usage entry =>
        match cost entry with
        | .error error => Except.error error
        | .ok bytes => .ok ⟨usage.checkpoints + 1, usage.bytes + bytes⟩) usage = .ok usage') :
    usage'.checkpoints = usage.checkpoints + entries.length := by
  induction entries generalizing usage with
  | nil =>
    cases h
    rfl
  | cons entry rest ih =>
    rw [List.foldlM_cons] at h
    cases hcost : cost entry with
    | error error =>
      rw [hcost] at h
      cases h
    | ok bytes =>
      rw [hcost] at h
      have hrest := ih _ h
      rw [List.length_cons]
      dsimp only at hrest
      omega

theorem capacity_counts (store : CheckpointStore) (usage : CapacityUsage)
    (h : checkpointCapacity sha256Hex store = .ok usage) :
    usage.checkpoints = store.entries.length := by
  have hcount := fold_counts _ _ _ _ h
  simpa using hcount

theorem room_counts (store : CheckpointStore) (usage : CapacityUsage) (needed : ℕ)
    (h : checkpointCapacity sha256Hex store = .ok usage)
    (hroom : hasRoom store.limits usage needed = true) :
    store.entries.length < store.limits.maxCheckpoints := by
  rw [← capacity_counts store usage h]
  unfold hasRoom at hroom
  rw [Bool.and_eq_true, decide_eq_true_eq] at hroom
  exact hroom.1

theorem ensured_counts (store s : CheckpointStore) (r : FileCheckpoint) (preimageLen : ℕ)
    (h : ensureCapacityFor sha256Hex store r preimageLen = (.ok (), s)) :
    s.entries.length < s.limits.maxCheckpoints := by
  unfold ensureCapacityFor at h
  dsimp only at h
  split at h
  · cases h
  · rename_i usage husage
    split at h
    · cases h
      exact room_counts store usage _ husage (by assumption)
    · split at h
      · cases h
      · split at h
        · cases h
        · rename_i usage' husage'
          split at h
          · cases h
            exact room_counts _ usage' _ husage' (by assumption)
          · cases h

theorem mint_counts (creation : CheckpointCreation) (minted : List Text)
    (store s : CheckpointStore) (r : FileCheckpoint)
    (h : mintRecord sha256Hex creation store minted = (.ok r, s)) :
    s.entries.length ≤ s.limits.maxCheckpoints ∧ r.id ∈ minted := by
  induction minted generalizing store with
  | nil => cases h
  | cons id minted ih =>
    rw [mintRecord] at h
    split at h
    · exact (ih store h).imp_right (List.mem_cons_of_mem id)
    · dsimp only at h
      cases hensure : ensureCapacityFor sha256Hex store (preparedRecord store.limits creation id)
          creation.preimageLen with
      | mk outcome trimmed =>
        rw [hensure] at h
        cases outcome with
        | error error => cases h
        | ok value =>
          have hroom := ensured_counts store trimmed _ _ hensure
          dsimp only at h
          split at h
          · split at h
            · cases h
            · cases h
              exact ⟨by simpa [CheckpointStore.addRecord, Nat.succ_le_iff] using hroom,
                List.mem_cons_self⟩
          · exact (ih trimmed h).imp_right (List.mem_cons_of_mem id)

theorem create_counts (creation : CheckpointCreation) (minted : List Text)
    (store s : CheckpointStore) (r : FileCheckpoint)
    (h : createCheckpoint sha256Hex store creation minted = (.ok r, s)) :
    s.entries.length ≤ s.limits.maxCheckpoints ∧ r.id ∈ minted := by
  unfold createCheckpoint at h
  split at h
  · cases h
  · exact (mint_counts creation _ store s r h).imp_right List.mem_of_mem_take

theorem passes_trimmed (store : CheckpointStore) (p : Pruning)
    (h : Shedding.Passes (pruning sha256Hex) ⟨store, []⟩ p) : Trimmed store p.store := by
  refine Shedding.passes_keep (pruning sha256Hex) (fun p => Trimmed store p.store) ?_ _ _ h
    (.refl store)
  intro p p' hp hnext
  obtain ⟨c, _, rfl⟩ := prune_next_some p p' hnext
  exact hp.trans ⟨rfl, rfl, List.filter_sublist.subset⟩

theorem creation_cut_thinned (creation : CheckpointCreation) (store s : CheckpointStore)
    (minted : List Text) (hbounded : store.entries.length ≤ store.limits.maxCheckpoints)
    (h : CreationCut sha256Hex creation store minted s) : Thinned store s := by
  induction h with
  | evicting h => exact (passes_trimmed _ _ h).thinned hbounded
  | removing metadata preimage other h _ =>
    exact leaving_thinned ((passes_trimmed _ _ h).thinned hbounded) _ metadata preimage other
  | invalid _ _ ih => exact ih hbounded
  | @collision store trimmed s id minted hroom _ _ ih =>
    have htrim := ensure_trimmed sha256Hex store (preparedRecord store.limits creation id)
      creation.preimageLen
    rw [hroom] at htrim
    have hrest := ih (by rw [htrim.limits]; exact htrim.length.trans hbounded)
    exact ⟨hrest.root.trans htrim.root, hrest.limits.trans htrim.limits,
      htrim.limits ▸ hrest.bounded, fun id r hload => htrim.loads id r (hrest.loads id r hload)⟩
  | @claimed store trimmed id minted hroom hfree =>
    have htrim := ensure_trimmed sha256Hex store (preparedRecord store.limits creation id)
      creation.preimageLen
    rw [hroom] at htrim
    have hcount := ensured_counts store trimmed _ _ hroom
    refine ⟨htrim.root, htrim.limits, ?_, ?_⟩
    · rw [← htrim.limits]
      simpa [CheckpointStore.claim, Nat.succ_le_iff] using hcount
    · intro other r hload
      exact htrim.loads other r (load_claim trimmed id hfree other r hload)

end Capacity

section Recovery

variable (sha256Hex : FileBytes → Text) (maxStateBytes : ℕ)

theorem quiet_thinned (fs : FileSystem) (store s : CheckpointStore) (hthin : Thinned store s)
    (hquiet : Quiet sha256Hex maxStateBytes fs store) : Quiet sha256Hex maxStateBytes fs s := by
  intro id r hload
  rw [hthin.root]
  exact hquiet id r (hthin.loads id r hload)

theorem pending_listed (store : CheckpointStore) (r : FileCheckpoint)
    (hbounded : store.entries.length ≤ store.limits.maxCheckpoints)
    (hload : store.loadMetadata r.id = .ok r)
    (hpending : ([.prepared, .applied] : List CheckpointState).contains r.state = true) :
    r ∈ store.list (some [.prepared, .applied]) none := by
  obtain ⟨hvalid, _, stored, hfind, _⟩ := store.load_some r.id r hload
  obtain ⟨hmem, hname⟩ := find_mem store r.id _ hfind
  rw [listed_record]
  refine ⟨List.mem_filterMap.mpr ⟨r.id, ?_, by simp [hload, Except.toOption]⟩, hpending⟩
  unfold CheckpointStore.listedNames
  rw [List.take_of_length_le]
  · refine List.mem_map.mpr ⟨_, List.mem_filter.mpr ⟨hmem, ?_⟩, hname⟩
    rw [hname, valid_id_starts r.id hvalid]
    rfl
  · exact (List.length_filter_le _ _).trans (hbounded.trans (Nat.le_succ _))

theorem one_turn (fs : FileSystem) (store : CheckpointStore) (r : FileCheckpoint)
    (decided : ReconciliationClass)
    (hbounded : store.entries.length ≤ store.limits.maxCheckpoints)
    (hload : store.loadMetadata r.id = .ok r)
    (hdecided : classifyReconciliation r (currentState sha256Hex fs maxStateBytes store r) =
      some decided)
    (hfits : documentBytes (r.withState decided.target) ≤ maxMetadataBytes)
    (hothers : ∀ id r', store.loadMetadata id = .ok r' → id ≠ r.id →
      classifyReconciliation r' (currentState sha256Hex fs maxStateBytes store r') = none) :
    (reconcileCheckpoints sha256Hex fs store maxStateBytes).1 =
      store.remark r.id r decided.target := by
  have hpending : ([.prepared, .applied] : List CheckpointState).contains r.state = true := by
    rcases classify_some r _ decided hdecided with ⟨hstate, _⟩ | ⟨hstate, _⟩
    · rw [hstate]
      rfl
    · rw [hstate]
      rfl
  have hdistinct := listed_distinct store [.prepared, .applied]
  have hloaded : ∀ r' ∈ store.list (some [.prepared, .applied]) none,
      store.loadMetadata r'.id = .ok r' := by
    intro r' hr'
    exact (loaded_record store r' ((listed_record store _ r').mp hr').1).2
  obtain ⟨front, rest, hlist⟩ :=
    List.append_of_mem (pending_listed store r hbounded hload hpending)
  unfold reconcileCheckpoints
  rw [hlist] at hdistinct hloaded ⊢
  rw [List.map_append, List.map_cons, List.nodup_append, List.nodup_cons] at hdistinct
  obtain ⟨_, ⟨hnotRest, _⟩, hapart⟩ := hdistinct
  have hfront : ∀ r' ∈ front, classifyReconciliation r'
      (currentState sha256Hex fs maxStateBytes store r') = none := by
    intro r' hr'
    refine hothers r'.id r' (hloaded r' (by simp [hr'])) ?_
    exact hapart r'.id (List.mem_map_of_mem hr') r.id (by simp)
  have hrest : ∀ r' ∈ rest, classifyReconciliation r'
      (currentState sha256Hex fs maxStateBytes store r') = none := by
    intro r' hr'
    refine hothers r'.id r' (hloaded r' (by simp [hr'])) ?_
    rintro hid
    exact hnotRest (hid ▸ List.mem_map_of_mem hr')
  have hturn : reconcileOne sha256Hex fs maxStateBytes (store, .zero) r =
      (store.remark r.id r decided.target, ReconciliationReport.zero.count decided) := by
    unfold reconcileOne
    dsimp only
    rw [hdecided]
    dsimp only
    rw [persist_eq store r.id r _ decided hload hdecided, if_pos hfits]
  rw [List.foldl_append, reconcile_unchanged sha256Hex maxStateBytes fs store _ front hfront,
    List.foldl_cons, hturn,
    reconcile_unchanged sha256Hex maxStateBytes fs (store.remark r.id r decided.target) _ rest
      hrest]

/-- The file that a proposal is about, before and after, and the path that its record names. -/
structure Planned (fs : FileSystem) (root : Path) (p : Proposal) : Prop where
  before : (fs.node p.target = none ∧ p.creation.before = absentState) ∨
    ∃ old, fs.node p.target = some (.file old) ∧ p.creation.before = presentState sha256Hex old
  after : p.creation.after = presentState sha256Hex p.bytes
  spelled : ∃ names, p.target = root ++ names ∧ p.creation.relativePath = joinNames names ∧
    Spelled fs root names

theorem edit_planned (host : MutationHost) (fs : FileSystem) (root : Path) (input : Json.Value)
    (p : Proposal) (hroot : Opened fs root)
    (h : proposeEdit sha256Hex host fs root input = .ok p) : Planned sha256Hex fs root p := by
  obtain ⟨old, hp⟩ := propose_edit_ok sha256Hex host fs root input p hroot h
  obtain ⟨names, htarget, hrelative, hspelled⟩ := hp.spelled
  exact ⟨.inr ⟨old, hp.file, hp.before⟩, hp.after, names, htarget, hp.path.trans hrelative,
    hspelled⟩

theorem propose_write_absent (host : MutationHost) (fs : FileSystem) (root : Path)
    (input : Json.Value) (p : Proposal) (h : proposeWrite sha256Hex host fs root input = .ok p)
    (hdirectory : fs.node p.target.dropLast = some .directory) :
    fs.node p.target = none ∧ p.creation.before = absentState := by
  simp only [proposeWrite, except_bind_ok, refuse_if_ok, map_error_ok] at h
  obtain ⟨path, _, content, _, _, _, _, _, target, htarget, _, _, relative, _, _, _, _, _, _,
    habsent, createdAt, _, h⟩ := h
  cases h
  obtain ⟨_, hordinary, _⟩ := create_target_ok path target htarget
  have hparent : fs.node target.parent = some .directory := by simpa using hdirectory
  refine ⟨?_, rfl⟩
  unfold FileSystem.lstat at habsent
  rw [hparent] at habsent
  dsimp only at habsent
  rw [if_neg (by rintro (hempty | hdot); exacts [hordinary.1 hempty, hordinary.2.1 hdot])]
    at habsent
  simpa using habsent

theorem write_planned (host : MutationHost) (fs : FileSystem) (root : Path) (input : Json.Value)
    (p : Proposal) (hroot : Opened fs root)
    (h : proposeWrite sha256Hex host fs root input = .ok p)
    (hdirectory : fs.node p.target.dropLast = some .directory) : Planned sha256Hex fs root p := by
  have hp := propose_write_ok sha256Hex host fs root input p hroot h
  obtain ⟨names, htarget, hrelative, hspelled⟩ := hp.spelled hdirectory
  exact ⟨.inl (propose_write_absent sha256Hex host fs root input p h hdirectory), hp.after, names,
    htarget, hp.path.trans hrelative, hspelled⟩

theorem state_of_small (bytes : FileBytes) (h : bytes.length ≤ maxStateBytes) :
    nodeState sha256Hex maxStateBytes (some (.file bytes)) = ⟨true, some (sha256Hex bytes)⟩ := by
  simp [nodeState, Nat.not_lt.mpr h]

theorem planned_untouched (fs : FileSystem) (root : Path) (p : Proposal) (r : FileCheckpoint)
    (hplanned : Planned sha256Hex fs root p) (hstate : r.state = .prepared)
    (hpath : r.relativePath = p.creation.relativePath) (hbefore : r.before = p.creation.before)
    (hsmall : ∀ old, fs.node p.target = some (.file old) → old.length ≤ maxStateBytes) :
    classifyReconciliation r (readWorkspaceFileState sha256Hex fs root r.relativePath
      maxStateBytes) = some .abandoned := by
  obtain ⟨names, htarget, hrelative, hspelled⟩ := hplanned.spelled
  rw [hpath, hrelative, hspelled.reads, ← htarget]
  unfold classifyReconciliation
  rw [hstate, hbefore]
  rcases hplanned.before with ⟨hnone, habsent⟩ | ⟨old, hold, hpresent⟩
  · rw [hnone, habsent]
    rfl
  · rw [hold, hpresent, state_of_small sha256Hex maxStateBytes old (hsmall old hold)]
    simp [statesEqual, presentState, CheckpointFileState.toWorkspace]

theorem planned_replaced (fs : FileSystem) (root : Path) (p : Proposal) (r : FileCheckpoint)
    (hplanned : Planned sha256Hex fs root p) (hwritable : fs.Writable p.target)
    (hstate : r.state = .prepared) (hpath : r.relativePath = p.creation.relativePath)
    (hbefore : r.before = p.creation.before) (hafter : r.after = p.creation.after)
    (hsmall : p.bytes.length ≤ maxStateBytes)
    (hchanges : ∀ old, fs.node p.target = some (.file old) → sha256Hex old ≠ sha256Hex p.bytes) :
    classifyReconciliation r (readWorkspaceFileState sha256Hex (fs.setFile p.target p.bytes) root
      r.relativePath maxStateBytes) = some .applied := by
  obtain ⟨names, htarget, hrelative, hspelled⟩ := hplanned.spelled
  rw [hpath, hrelative, (spelled_set_file fs root p.target names p.bytes hwritable hspelled).reads,
    ← htarget, fs.set_file_target p.target p.bytes hwritable,
    state_of_small sha256Hex maxStateBytes p.bytes hsmall]
  unfold classifyReconciliation
  rw [hstate, hbefore, hafter, hplanned.after]
  rcases hplanned.before with ⟨_, habsent⟩ | ⟨old, hold, hpresent⟩
  · rw [habsent]
    simp [statesEqual, presentState, absentState, CheckpointFileState.toWorkspace]
  · have hne : sha256Hex p.bytes ≠ sha256Hex old := fun heq => hchanges old hold heq.symm
    rw [hpresent]
    simp [statesEqual, presentState, CheckpointFileState.toWorkspace, hne]

def Operation.minted : Operation → List Text
  | .write host _ | .edit host _ => host.minted
  | .undo _ _ => []

def proposed (op : Operation) (fs : FileSystem) (store : CheckpointStore) : Option Proposal :=
  match op with
  | .write host input => (proposeWrite sha256Hex host fs store.workspaceRoot input).toOption
  | .edit host input => (proposeEdit sha256Hex host fs store.workspaceRoot input).toOption
  | .undo _ _ => none

/-- An operation whose crash the state reader can judge: it returns no other record, its old and
its new content are small enough to be read and hash differently, a write has its directory, the
new record has room for the longest word of a state, an undo is one of an applied record, and
neither the target nor the file of an applied record has the name of a staged file. -/
structure Recoverable (op : Operation) (fs : FileSystem) (store : CheckpointStore) : Prop where
  returns : ReturnsNone sha256Hex maxStateBytes op fs store
  small : ∀ target bytes, written sha256Hex op fs store = some (target, bytes) →
    bytes.length ≤ maxStateBytes
  read : ∀ target bytes old, written sha256Hex op fs store = some (target, bytes) →
    fs.node target = some (.file old) →
    old.length ≤ maxStateBytes ∧ sha256Hex old ≠ sha256Hex bytes
  directory : ∀ p, proposed sha256Hex op fs store = some p →
    fs.node p.target.dropLast = some .directory
  room : ∀ p id, proposed sha256Hex op fs store = some p → id ∈ op.minted →
    documentBytes ((preparedRecord store.limits p.creation id).withState .abandoned) ≤
      maxMetadataBytes
  applied : ∀ id maxUndoBytes r, op = .undo id maxUndoBytes → store.loadMetadata id = .ok r →
    maxStateBytes ≤ maxUndoBytes ∧ r.state = .applied
  unstaged : ∀ target bytes temporary, written sha256Hex op fs store = some (target, bytes) →
    StagedBeside target temporary → temporary ≠ target ∧
      ∀ id r, store.loadMetadata id = .ok r → r.state = .applied →
        readPlace fs store.workspaceRoot r.relativePath ≠ some temporary

/-- An applied record as the tools write it: it names its file plainly, and it can be closed. -/
structure Standing (fs : FileSystem) (root : Path) (r : FileCheckpoint) : Prop where
  before : r.before.fileExists = true → r.before.sha256.isSome = true
  after : r.after.fileExists = true
  fits : documentBytes (r.withState .undone) ≤ maxMetadataBytes
  spelled : ∃ names, r.relativePath = joinNames names ∧ Spelled fs root names

/-- Nothing is pending, and every applied record is one of the tools'. -/
structure Settled (fs : FileSystem) (store : CheckpointStore) : Prop where
  root : Opened fs store.workspaceRoot
  bounded : store.entries.length ≤ store.limits.maxCheckpoints
  quiet : Quiet sha256Hex maxStateBytes fs store
  standing : ∀ id r, store.loadMetadata id = .ok r → r.state = .applied →
    Standing fs store.workspaceRoot r

/-- A store in which an operation left at most a closed record of its own. -/
structure Untouched (store s : CheckpointStore) : Prop where
  root : s.workspaceRoot = store.workspaceRoot
  bounded : s.entries.length ≤ s.limits.maxCheckpoints
  loads : ∀ id r, s.loadMetadata id = .ok r → store.loadMetadata id = .ok r ∨ r.state = .abandoned

theorem Thinned.untouched {store s : CheckpointStore} (h : Thinned store s) : Untouched store s :=
  ⟨h.root, h.limits ▸ h.bounded, fun id r hload => .inl (h.loads id r hload)⟩

theorem Settled.untouched {fs : FileSystem} {store s : CheckpointStore}
    (h : Settled sha256Hex maxStateBytes fs store) (hs : Untouched store s) :
    Settled sha256Hex maxStateBytes fs s := by
  refine ⟨by rw [hs.root]; exact h.root, hs.bounded, ?_, ?_⟩
  · intro id r hload
    rw [hs.root]
    rcases hs.loads id r hload with hold | habandoned
    · exact h.quiet id r hold
    · simp [habandoned]
  · intro id r hload happlied
    rw [hs.root]
    rcases hs.loads id r hload with hold | habandoned
    · exact h.standing id r hold happlied
    · rw [habandoned] at happlied
      cases happlied

theorem Standing.set_file {fs : FileSystem} {root target : Path} {r : FileCheckpoint}
    (bytes : FileBytes) (hwritable : fs.Writable target) (h : Standing fs root r) :
    Standing (fs.setFile target bytes) root r := by
  obtain ⟨names, hpath, hspelled⟩ := h.spelled
  exact ⟨h.before, h.after, h.fits, names, hpath,
    spelled_set_file fs root target names bytes hwritable hspelled⟩

theorem Untouched.same {store s s' : CheckpointStore} (h : Untouched store s)
    (hsame : SameRecords s s') : Untouched store s' where
  root := hsame.root.trans h.root
  bounded := by
    rw [hsame.length, hsame.limits]
    exact h.bounded
  loads id r hload := h.loads id r ((hsame.loads id).symm.trans hload)

theorem Settled.same {fs : FileSystem} {store s : CheckpointStore}
    (h : Settled sha256Hex maxStateBytes fs store) (hsame : SameRecords store s) :
    Settled sha256Hex maxStateBytes fs s where
  root := by
    rw [hsame.root]
    exact h.root
  bounded := by
    rw [hsame.length, hsame.limits]
    exact h.bounded
  quiet id r hload := by
    rw [hsame.root]
    exact h.quiet id r ((hsame.loads id).symm.trans hload)
  standing id r hload := by
    rw [hsame.root]
    exact h.standing id r ((hsame.loads id).symm.trans hload)

/-- The workspace as it was, but for a staged file beside the target. -/
def LeftBehind (op : Operation) (fs : FileSystem) (store : CheckpointStore) (fs' : FileSystem) :
    Prop :=
  fs' = fs ∨ ∃ target bytes temporary staged,
    written sha256Hex op fs store = some (target, bytes) ∧
      Staging target fs fs' temporary staged

theorem Staging.below {root target temporary : Path} {fs fs' : FileSystem} {bytes : FileBytes}
    (h : Staging target fs fs' temporary bytes) (hroot : Opened fs root)
    (hinside : root <+: target) : root <+: temporary := by
  obtain ⟨names, rfl⟩ := hinside
  have hnames : names ≠ [] := by
    rintro rfl
    have hdirectory := hroot.directories root List.prefix_rfl
    rw [List.append_nil] at h
    rcases h.writable with hnone | ⟨old, hold⟩
    · rw [hnone] at hdirectory
      cases hdirectory
    · rw [hold] at hdirectory
      cases hdirectory
  obtain ⟨nonce, rfl⟩ := h.beside
  rw [List.dropLast_append_of_ne_nil hnames, List.append_assoc]
  exact List.prefix_append _ _

theorem LeftBehind.settled {op : Operation} {fs fs' : FileSystem} {store : CheckpointStore}
    (hsettled : Settled sha256Hex maxStateBytes fs store)
    (hop : Recoverable sha256Hex maxStateBytes op fs store)
    (hinside : ∀ target bytes, written sha256Hex op fs store = some (target, bytes) →
      store.workspaceRoot <+: target)
    (h : LeftBehind sha256Hex op fs store fs') : Settled sha256Hex maxStateBytes fs' store := by
  rcases h with rfl | ⟨target, bytes, temporary, staged, hwritten, hstaging⟩
  · exact hsettled
  · have hwritable : fs.Writable temporary := .inl hstaging.new
    have hbelow := hstaging.below hsettled.root (hinside target bytes hwritten)
    obtain ⟨-, hread⟩ := hop.unstaged target bytes temporary hwritten hstaging.beside
    obtain rfl := hstaging.file
    refine ⟨set_file_directory fs temporary _ staged hwritable hsettled.root, hsettled.bounded,
      ?_, ?_⟩
    · intro id r hload
      obtain ⟨hprepared, hkept⟩ := hsettled.quiet id r hload
      refine ⟨hprepared, ?_⟩
      intro happlied
      rw [read_elsewhere sha256Hex maxStateBytes r.relativePath hsettled.root hwritable hbelow
        (hread id r hload happlied)]
      exact hkept happlied
    · exact fun id r hload happlied => (hsettled.standing id r hload happlied).set_file staged
        hwritable

theorem Planned.left {op : Operation} {fs fs' : FileSystem} {store : CheckpointStore} {p : Proposal}
    (hplanned : Planned sha256Hex fs store.workspaceRoot p)
    (hop : Recoverable sha256Hex maxStateBytes op fs store)
    (hwritten : written sha256Hex op fs store = some (p.target, p.bytes))
    (h : LeftBehind sha256Hex op fs store fs') :
    Planned sha256Hex fs' store.workspaceRoot p ∧ fs'.node p.target = fs.node p.target := by
  rcases h with rfl | ⟨target, bytes, temporary, staged, hsame, hstaging⟩
  · exact ⟨hplanned, rfl⟩
  · rw [hwritten] at hsame
    cases hsame
    have hapart := (hop.unstaged _ _ temporary hwritten hstaging.beside).1
    obtain rfl := hstaging.file
    have hnode := fs.set_file_other temporary p.target staged hapart.symm
    obtain ⟨names, htarget, hpath, hspelled⟩ := hplanned.spelled
    refine ⟨⟨?_, hplanned.after, names, htarget, hpath,
      spelled_set_file fs _ temporary names staged (.inl hstaging.new) hspelled⟩, hnode⟩
    rw [hnode]
    exact hplanned.before

/-- The operation happened as a whole, or it left the workspace as it was but for a staged file, and
nothing pending. -/
def AllOrNothing (op : Operation) (fs : FileSystem) (store : CheckpointStore) (fs' : FileSystem)
    (s : CheckpointStore) : Prop :=
  (LeftBehind sha256Hex op fs store fs' ∧ Untouched store s) ∨
    ∃ done, step sha256Hex op fs store = some (fs', done) ∧ SameRecords done s

/-- The store after the reconciliation of the next start. -/
def restart (fs : FileSystem) (store : CheckpointStore) : CheckpointStore :=
  (reconcileCheckpoints sha256Hex fs store maxStateBytes).1

theorem restart_quiet (fs : FileSystem) (store : CheckpointStore)
    (h : Quiet sha256Hex maxStateBytes fs store) :
    restart sha256Hex maxStateBytes fs store = store := by
  rw [restart, quiet_reconciles sha256Hex maxStateBytes fs store h]

theorem others_unchanged (op : Operation) (fs : FileSystem) (store : CheckpointStore)
    (target : Path) (bytes : FileBytes) (hroot : Opened fs store.workspaceRoot)
    (hquiet : Quiet sha256Hex maxStateBytes fs store)
    (hreturns : ReturnsNone sha256Hex maxStateBytes op fs store)
    (hplanned : written sha256Hex op fs store = some (target, bytes))
    (hwritable : fs.Writable target) (hinside : store.workspaceRoot <+: target) (id : Text)
    (r : FileCheckpoint) (hload : store.loadMetadata id = .ok r) (hother : op.undone ≠ some id) :
    classifyReconciliation r (readWorkspaceFileState sha256Hex (fs.setFile target bytes)
      store.workspaceRoot r.relativePath maxStateBytes) = none := by
  obtain ⟨hprepared, hkept⟩ := hquiet id r hload
  rw [classify_none_iff]
  refine ⟨hprepared, ?_⟩
  intro happlied
  by_cases hplace : readPlace fs store.workspaceRoot r.relativePath = some target
  · rw [read_written sha256Hex maxStateBytes r.relativePath hroot hwritable hplace]
    exact hreturns target bytes hplanned id r hload happlied hother hplace
  · rw [read_elsewhere sha256Hex maxStateBytes r.relativePath hroot hwritable hinside hplace]
    exact hkept happlied

structure Replaced (host : MutationHost) (fs : FileSystem) (store : CheckpointStore) (p : Proposal)
    (r : FileCheckpoint) (created : CheckpointStore) (fs' : FileSystem) : Prop where
  create : createCheckpoint sha256Hex store p.creation host.minted = (.ok r, created)
  commit : stageAndCommit sha256Hex fs store.workspaceRoot p = .ok fs'

section Mutation

variable {sha256Hex} {maxStateBytes} {host : MutationHost} {fs fs' : FileSystem}
  {store created : CheckpointStore} {p : Proposal} {r : FileCheckpoint}

theorem stage_commit_verifies (root : Path)
    (h : stageAndCommit sha256Hex fs root p = .ok fs') :
    verifyCommitted fs' root p.target p.bytes = .ok () := by
  obtain ⟨hcommit, _⟩ := stage_commit_ok sha256Hex fs fs' root p h
  obtain ⟨hwritable, _, _, rfl⟩ := commit_inner_ok sha256Hex fs _ _ _ _ hcommit
  have hparent : revalidateParent fs root p.target.dropLast = true := by
    unfold stageAndCommit at h
    split at h
    · cases h
    · rename_i hvalid
      simpa using hvalid
  have hstill : revalidateParent (fs.setFile p.target p.bytes) root p.target.dropLast = true := by
    unfold revalidateParent at hparent ⊢
    cases hcanonical : fs.canonicalize p.target.dropLast with
    | none =>
      rw [hcanonical] at hparent
      cases hparent
    | some canonical =>
      rw [hcanonical] at hparent
      rw [fs.set_file_canonicalize p.target p.bytes hwritable _ canonical hcanonical]
      exact hparent
  unfold verifyCommitted
  rw [fs.set_file_target p.target p.bytes hwritable]
  dsimp only
  rw [hstill]
  simp

theorem Replaced.marked (h : Replaced sha256Hex host fs store p r created fs') :
    Created store created p.creation r ∧
      bestEffort created r.id .applied = created.remark r.id r .applied := by
  have hcreated := (create_checkpoint_ok sha256Hex store created _ _ r h.create).2
  exact ⟨hcreated, best_effort_applied store created p.creation r hcreated⟩

theorem Replaced.result (h : Replaced sha256Hex host fs store p r created fs') (summary : Text) :
    applyProposal sha256Hex host fs store summary p =
      ⟨.success (successOutput sha256Hex p r.id) summary, fs', created.remark r.id r .applied⟩ := by
  unfold applyProposal
  rw [h.create]
  dsimp only
  rw [h.commit]
  dsimp only
  rw [stage_commit_verifies store.workspaceRoot h.commit]
  dsimp only
  rw [h.marked.2]

theorem succeeded_replaced (fs' : FileSystem) (store' : CheckpointStore)
    (proposed : Except ToolExecutionResult Proposal) (summary : Proposal → Text)
    (h : succeeded (match proposed with
      | .error result => ⟨result, fs, store⟩
      | .ok p => applyProposal sha256Hex host fs store (summary p) p) = some (fs', store'))
    (hrefusing : Refusing proposed) :
    ∃ p r created, proposed = .ok p ∧ Replaced sha256Hex host fs store p r created fs' ∧
      store' = created.remark r.id r .applied := by
  cases proposed with
  | error result =>
    unfold succeeded at h
    split at h
    · rename_i output text hsuccess
      exact absurd (congrArg Except.error hsuccess) (hrefusing output text)
    · cases h
  | ok p =>
    dsimp only at h
    cases hcreate : createCheckpoint sha256Hex store p.creation host.minted with
    | mk outcome created =>
      cases outcome with
      | error error =>
        simp [applyProposal, hcreate, succeeded] at h
      | ok r =>
        cases hcommit : stageAndCommit sha256Hex fs store.workspaceRoot p with
        | error failure =>
          cases failure <;> simp [applyProposal, hcreate, hcommit, succeeded, commitFailed] at h
        | ok committedFs =>
          have hreplaced : Replaced sha256Hex host fs store p r created committedFs :=
            ⟨hcreate, hcommit⟩
          rw [hreplaced.result] at h
          cases h
          exact ⟨p, r, created, rfl, hreplaced, rfl⟩

end Mutation

end Recovery

end Siralos.Checkpoint
