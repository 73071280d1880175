import Siralos.EditUndo

/-!
# Startup reconciliation

A record is judged by the one file that its path reads, and a commit changes what is read there
and nowhere else. A reconciliation settles every record it lists, so that a second one finds
nothing more to change.
-/

set_option autoImplicit false

namespace Siralos.Checkpoint

open Siralos.Workspace Siralos.Conversation

/-- The place where the state reader looks for a record's file. -/
def readPlace (fs : FileSystem) (root : Path) (relativePath : Text) : Option Path :=
  match validateRelativePath relativePath with
  | .error _ => none
  | .ok () =>
    let (parent, leaf) := (splitLast (· == '/') relativePath).getD (['.'], relativePath)
    match fs.canonicalize (root ++ parent.splitOn '/') with
    | none => none
    | some canonicalParent =>
      if root.isPrefixOf canonicalParent ∧ fs.node canonicalParent = some .directory ∧
          leaf ≠ [] ∧ leaf ≠ ['.'] then some (canonicalParent ++ [leaf])
      else none

theorem read_place_iff (fs : FileSystem) (root target : Path) (relativePath : Text) :
    readPlace fs root relativePath = some target ↔
      validateRelativePath relativePath = .ok () ∧ ∃ p,
        fs.canonicalize (root ++ ((splitLast (· == '/') relativePath).getD
          (['.'], relativePath)).1.splitOn '/') = some p ∧ root.isPrefixOf p = true ∧
        fs.node p = some .directory ∧
        ((splitLast (· == '/') relativePath).getD (['.'], relativePath)).2 ≠ [] ∧
        ((splitLast (· == '/') relativePath).getD (['.'], relativePath)).2 ≠ ['.'] ∧
        p ++ [((splitLast (· == '/') relativePath).getD (['.'], relativePath)).2] = target := by
  unfold readPlace
  cases validateRelativePath relativePath with
  | error error => simp
  | ok value =>
    dsimp only
    cases fs.canonicalize (root ++ ((splitLast (· == '/') relativePath).getD
        (['.'], relativePath)).1.splitOn '/') with
    | none => simp
    | some p => simp [and_assoc]

theorem walk_names_new (node node' : Path → Option Node) (target : Path) (bytes : FileBytes)
    (htarget : node' target = some (.file bytes)) (hother : ∀ q, q ≠ target → node' q = node q)
    (follow follow' : Path → List Text → Option Path)
    (hfollow : ∀ here rest p, follow' here rest = some p → follow here rest = some p ∨ p = target)
    (here : Path) (names : List Text) (p : Path) (h : walkNames node' follow' here names = some p) :
    walkNames node follow here names = some p ∨ p = target := by
  induction names generalizing here with
  | nil => exact .inl h
  | cons name rest ih =>
    rw [walkNames] at h ⊢
    by_cases hskip : name = [] ∨ name = ['.']
    · rw [if_pos hskip] at h ⊢
      exact ih here h
    · rw [if_neg hskip] at h ⊢
      by_cases hup : name = ['.', '.']
      · rw [if_pos hup] at h ⊢
        exact ih _ h
      · rw [if_neg hup] at h ⊢
        by_cases hhere : here ++ [name] = target
        · rw [hhere, htarget] at h
          dsimp only at h
          split at h
          · cases h
            exact .inr rfl
          · cases h
        · rw [hother _ hhere] at h
          cases hnode : node (here ++ [name]) with
          | none => simp [hnode] at h
          | some n =>
            rw [hnode] at h
            cases n with
            | directory => exact ih _ h
            | link target => exact hfollow _ _ _ h
            | file bytes => exact .inl h
            | special => exact .inl h

theorem walk_new (node node' : Path → Option Node) (target : Path) (bytes : FileBytes)
    (htarget : node' target = some (.file bytes)) (hother : ∀ q, q ≠ target → node' q = node q)
    (links : ℕ) (here : Path) (names : List Text) (p : Path)
    (h : walk node' links here names = some p) :
    walk node links here names = some p ∨ p = target := by
  induction links generalizing here names p with
  | zero =>
    exact walk_names_new node node' target bytes htarget hother _ _ (fun _ _ _ h => .inl h) here
      names p h
  | succ links ih =>
    exact walk_names_new node node' target bytes htarget hother _ _ ih here names p h

section Commit

variable (sha256Hex : FileBytes → Text) {fs : FileSystem} {root target : Path}
  {bytes : FileBytes}

theorem lstat_no_directory (fs : FileSystem) (parent : Path) (leaf : Text)
    (h : fs.node parent ≠ some .directory) : fs.lstat parent leaf = none := by
  unfold FileSystem.lstat
  split
  · exact absurd (by assumption) h
  · rfl

theorem lstat_set_file (hwritable : fs.Writable target) (parent : Path) (leaf : Text) :
    (fs.setFile target bytes).lstat parent leaf =
      if fs.node parent = some .directory ∧ leaf ≠ [] ∧ leaf ≠ ['.'] ∧ parent ++ [leaf] = target
      then some (.file bytes) else fs.lstat parent leaf := by
  have hnotDirectory : fs.node target ≠ some .directory := by
    rcases hwritable with hnone | ⟨old, hold⟩
    · simp [hnone]
    · simp [hold]
  by_cases hparent : parent = target
  · subst hparent
    rw [if_neg (fun hand => hnotDirectory hand.1), lstat_no_directory fs parent leaf hnotDirectory,
      lstat_no_directory]
    simp [fs.set_file_target parent bytes hwritable]
  · have hnode : (fs.setFile target bytes).node parent = fs.node parent :=
      fs.set_file_other target parent bytes hparent
    by_cases hdirectory : fs.node parent = some .directory
    · unfold FileSystem.lstat
      rw [hnode, hdirectory]
      dsimp only
      by_cases hleaf : leaf = [] ∨ leaf = ['.']
      · rw [if_pos hleaf, if_neg (by tauto), if_pos hleaf]
      · rw [if_neg hleaf, if_neg hleaf]
        rw [not_or] at hleaf
        by_cases htarget : parent ++ [leaf] = target
        · rw [if_pos ⟨rfl, hleaf.1, hleaf.2, htarget⟩, htarget]
          exact fs.set_file_target target bytes hwritable
        · rw [if_neg (by tauto)]
          exact fs.set_file_other target _ bytes htarget
    · rw [if_neg (fun hand => hdirectory hand.1), lstat_no_directory fs parent leaf hdirectory,
        lstat_no_directory]
      rw [hnode]
      exact hdirectory

theorem read_written (maxStateBytes : ℕ) (relativePath : Text) (hroot : Opened fs root)
    (hwritable : fs.Writable target) (hplace : readPlace fs root relativePath = some target) :
    readWorkspaceFileState sha256Hex (fs.setFile target bytes) root relativePath maxStateBytes =
      nodeState sha256Hex maxStateBytes (some (.file bytes)) := by
  have hroot' := set_file_directory fs target root bytes hwritable hroot
  obtain ⟨hvalid, p, hcanonical, hbelow, hdirectory, hempty, hdot, htarget⟩ :=
    (read_place_iff fs root target relativePath).mp hplace
  unfold readWorkspaceFileState
  rw [hvalid]
  dsimp only
  rw [(fs.setFile target bytes).canonicalize_of_resolved root hroot'.resolved]
  dsimp only
  rw [fs.set_file_canonicalize target bytes hwritable _ p hcanonical]
  dsimp only
  rw [hbelow, if_neg (by decide), lstat_set_file hwritable,
    if_pos ⟨hdirectory, hempty, hdot, htarget⟩]

theorem read_elsewhere (maxStateBytes : ℕ) (relativePath : Text) (hroot : Opened fs root)
    (hwritable : fs.Writable target) (hinside : root <+: target)
    (hplace : readPlace fs root relativePath ≠ some target) :
    readWorkspaceFileState sha256Hex (fs.setFile target bytes) root relativePath maxStateBytes =
      readWorkspaceFileState sha256Hex fs root relativePath maxStateBytes := by
  have hroot' := set_file_directory fs target root bytes hwritable hroot
  rw [ne_eq, read_place_iff] at hplace
  unfold readWorkspaceFileState
  cases hvalid : validateRelativePath relativePath with
  | error error => rfl
  | ok value =>
    dsimp only
    rw [fs.canonicalize_of_resolved root hroot.resolved,
      (fs.setFile target bytes).canonicalize_of_resolved root hroot'.resolved]
    generalize (splitLast (· == '/') relativePath).getD (['.'], relativePath) = parts at hplace ⊢
    obtain ⟨parent, leaf⟩ := parts
    dsimp only at hplace ⊢
    cases hcanonical : fs.canonicalize (root ++ parent.splitOn '/') with
    | none =>
      cases hnew : (fs.setFile target bytes).canonicalize (root ++ parent.splitOn '/') with
      | none => rfl
      | some p =>
        have hp : p = target := by
          rcases walk_new fs.node _ target bytes (fs.set_file_target target bytes hwritable)
            (fun q hq => fs.set_file_other target q bytes hq) maxLinks [] _ p hnew with hold | hp
          · rw [FileSystem.canonicalize] at hcanonical
            rw [hcanonical] at hold
            cases hold
          · exact hp
        subst hp
        have hbelow : root.isPrefixOf p = true := List.isPrefixOf_iff_prefix.mpr hinside
        have hlstat : (fs.setFile p bytes).lstat p leaf = none := by
          simp [FileSystem.lstat, fs.set_file_target p bytes hwritable]
        dsimp only
        rw [hbelow, hlstat]
        rfl
    | some p =>
      rw [fs.set_file_canonicalize target bytes hwritable _ p hcanonical]
      dsimp only
      cases hbelow : root.isPrefixOf p with
      | false => rfl
      | true =>
        have hnot : ¬ (fs.node p = some .directory ∧ leaf ≠ [] ∧ leaf ≠ ['.'] ∧
            p ++ [leaf] = target) := fun hhere => hplace ⟨hvalid, p, hcanonical, hbelow, hhere⟩
        rw [lstat_set_file hwritable, if_neg hnot]

end Commit

section Quiet

variable (sha256Hex : FileBytes → Text) (maxStateBytes : ℕ)

/-- No record that reconciliation would change. -/
def Quiet (fs : FileSystem) (store : CheckpointStore) : Prop :=
  ∀ id r, store.loadMetadata id = .ok r → r.state ≠ .prepared ∧ (r.state = .applied →
    ¬ Returned r
      (readWorkspaceFileState sha256Hex fs store.workspaceRoot r.relativePath maxStateBytes))

theorem fresh_quiet (fs : FileSystem) (store : CheckpointStore) (h : store.entries = []) :
    Quiet sha256Hex maxStateBytes fs store := by
  intro id r hload
  obtain ⟨_, _, stored, hfind, _⟩ := store.load_some id r hload
  rw [CheckpointStore.find, h] at hfind
  cases hfind

theorem loaded_record (store : CheckpointStore) (r : FileCheckpoint)
    (h : r ∈ store.loadedRecords) : r.id ∈ store.listedNames ∧ store.loadMetadata r.id = .ok r := by
  obtain ⟨name, hname, hsome⟩ := List.mem_filterMap.mp h
  cases hload : store.loadMetadata name with
  | error error =>
    rw [hload] at hsome
    cases hsome
  | ok r' =>
    rw [hload] at hsome
    cases hsome
    obtain ⟨_, hid, _⟩ := store.load_some name r hload
    rw [hid]
    exact ⟨hname, hload⟩

theorem listed_record (store : CheckpointStore) (states : List CheckpointState)
    (r : FileCheckpoint) : r ∈ store.list (some states) none ↔
      r ∈ store.loadedRecords ∧ states.contains r.state = true := by
  simp [CheckpointStore.list, List.mem_insertionSort]

theorem reconcile_unchanged (fs : FileSystem) (store : CheckpointStore)
    (report : ReconciliationReport) (pending : List FileCheckpoint)
    (h : ∀ r ∈ pending, classifyReconciliation r (readWorkspaceFileState sha256Hex fs
      store.workspaceRoot r.relativePath maxStateBytes) = none) :
    pending.foldl (reconcileOne sha256Hex fs maxStateBytes) (store, report) = (store, report) := by
  induction pending with
  | nil => rfl
  | cons r pending ih =>
    have hfirst : reconcileOne sha256Hex fs maxStateBytes (store, report) r = (store, report) := by
      simp [reconcileOne, h r (by simp)]
    rw [List.foldl_cons, hfirst]
    exact ih fun r' hr' => h r' (List.mem_cons_of_mem _ hr')

theorem quiet_reconciles (fs : FileSystem) (store : CheckpointStore)
    (h : Quiet sha256Hex maxStateBytes fs store) :
    reconcileCheckpoints sha256Hex fs store maxStateBytes = (store, .zero) := by
  apply reconcile_unchanged
  intro r hr
  have hload := (loaded_record store r ((listed_record store _ r).mp hr).1).2
  exact (classify_none_iff r _).mpr (h r.id r hload)

end Quiet

section Twice

variable (sha256Hex : FileBytes → Text) (fs : FileSystem) (maxStateBytes : ℕ)

def ReconciliationClass.target : ReconciliationClass → CheckpointState
  | abandoned => .abandoned
  | applied => .applied
  | uncertain => .uncertain
  | undoneAfterRestore => .undone

abbrev currentState (store : CheckpointStore) (r : FileCheckpoint) : WorkspaceFileState :=
  readWorkspaceFileState sha256Hex fs store.workspaceRoot r.relativePath maxStateBytes

/-- Nothing is left to change of a record: it is not pending any more, or its document has no room
for the word of its new state. -/
def SettledRecord (store : CheckpointStore) (id : Text) : Prop :=
  ∀ r, store.loadMetadata id = .ok r → ∀ decided,
    classifyReconciliation r (currentState sha256Hex fs maxStateBytes store r) = some decided →
      ¬ documentBytes (r.withState decided.target) ≤ maxMetadataBytes

theorem classify_some (r : FileCheckpoint) (current : WorkspaceFileState)
    (decided : ReconciliationClass) (h : classifyReconciliation r current = some decided) :
    (r.state = .prepared ∧ decided ≠ .undoneAfterRestore ∧
        (decided = .applied → statesEqual current r.after.toWorkspace = true)) ∨
      (r.state = .applied ∧ decided = .undoneAfterRestore) := by
  unfold classifyReconciliation at h
  dsimp only at h
  cases hstate : r.state with
  | prepared =>
    rw [hstate] at h
    dsimp only at h
    by_cases hbefore : statesEqual current r.before.toWorkspace = true
    · rw [if_pos hbefore] at h
      cases h
      exact .inl ⟨rfl, by simp, by simp⟩
    · rw [if_neg hbefore] at h
      by_cases hafter : statesEqual current r.after.toWorkspace = true
      · rw [if_pos hafter] at h
        cases h
        exact .inl ⟨rfl, by simp, fun _ => hafter⟩
      · rw [if_neg hafter] at h
        cases h
        exact .inl ⟨rfl, by simp, by simp⟩
  | applied =>
    rw [hstate] at h
    dsimp only at h
    split at h
    · cases h
      exact .inr ⟨rfl, rfl⟩
    · cases h
  | undone => simp [hstate] at h
  | abandoned => simp [hstate] at h
  | conflicted => simp [hstate] at h
  | uncertain => simp [hstate] at h

/-- The check that a classification's transition passes. -/
def ReconciliationClass.allowed : ReconciliationClass → CheckpointState → Bool
  | abandoned, s => (CheckpointStore.allowedTransitions s).contains .abandoned
  | applied, s => (CheckpointStore.allowedTransitions s).contains .applied
  | uncertain, s => (CheckpointStore.allowedTransitions s).contains .uncertain
  | undoneAfterRestore, s => CheckpointStore.undoable s

theorem persist_transition (store : CheckpointStore) (id : Text) (decided : ReconciliationClass) :
    persist store id decided = store.transition id decided.target decided.allowed := by
  cases decided <;> rfl

theorem persist_eq (store : CheckpointStore) (id : Text) (r : FileCheckpoint)
    (current : WorkspaceFileState) (decided : ReconciliationClass)
    (hload : store.loadMetadata id = .ok r)
    (hdecided : classifyReconciliation r current = some decided) :
    kept store (persist store id decided) =
      if documentBytes (r.withState decided.target) ≤ maxMetadataBytes then
        store.remark id r decided.target else store := by
  have hallowed : ReconciliationClass.allowed decided r.state = true := by
    rcases classify_some r current decided hdecided with ⟨hstate, hother, _⟩ | ⟨hstate, rfl⟩
    · rw [hstate]
      cases decided with
      | abandoned => rfl
      | applied => rfl
      | uncertain => rfl
      | undoneAfterRestore => exact absurd rfl hother
    · rw [hstate]
      rfl
  rw [persist_transition, store.transition_eq id _ _ r hload, if_neg (by simp [hallowed])]
  by_cases hfits : documentBytes (r.withState decided.target) ≤ maxMetadataBytes
  · rw [if_pos hfits, if_pos hfits]
    rfl
  · rw [if_neg hfits, if_neg hfits]
    rfl

theorem classified_settles (r : FileCheckpoint) (current : WorkspaceFileState)
    (decided : ReconciliationClass) (h : classifyReconciliation r current = some decided) :
    classifyReconciliation (r.withState decided.target) current = none := by
  have hstate : (r.withState decided.target).state = decided.target := rfl
  have hafter : (r.withState decided.target).after = r.after := rfl
  rw [classify_none_iff, hstate]
  unfold Returned
  rw [hafter]
  rcases classify_some r current decided h with ⟨_, hother, happlied⟩ | ⟨_, rfl⟩
  · cases decided with
    | abandoned => simp [ReconciliationClass.target]
    | applied => simp [ReconciliationClass.target, happlied rfl]
    | uncertain => simp [ReconciliationClass.target]
    | undoneAfterRestore => exact absurd rfl hother
  · simp [ReconciliationClass.target]

structure TurnLeaves (store store' : CheckpointStore) (id : Text) : Prop where
  root : store'.workspaceRoot = store.workspaceRoot
  names : store'.listedNames = store.listedNames
  settled : SettledRecord sha256Hex fs maxStateBytes store' id
  others : ∀ other, other ≠ id → store'.loadMetadata other = store.loadMetadata other

theorem remark_listed (store : CheckpointStore) (id : Text) (r : FileCheckpoint)
    (state : CheckpointState) : (store.remark id r state).listedNames = store.listedNames := by
  have hsame : (store.remark id r state).entries.map (fun e => (e.name, e.isDirectory)) =
      store.entries.map (fun e => (e.name, e.isDirectory)) := by
    apply Keyed.aligned_keys (R := fun a b => (b.name, b.isDirectory) = (a.name, a.isDirectory))
      (fun _ _ h => h)
    apply Keyed.aligned_update_first
    · intro e
      rfl
    · intro e
      cases e <;> rfl
  have hlisted : ∀ s : CheckpointStore, s.listedNames = (((s.entries.map fun e =>
      (e.name, e.isDirectory)).filter fun e =>
        Text.startsWith checkpointIdPrefix e.1 && e.2).take (s.limits.maxCheckpoints + 1)).map
          Prod.fst := by
    intro s
    rw [List.filter_map, ← List.map_take, List.map_map]
    rfl
  rw [hlisted, hlisted, hsame]
  rfl

theorem turn_leaves (store : CheckpointStore) (report : ReconciliationReport) (r : FileCheckpoint)
    (hload : store.loadMetadata r.id = .ok r) :
    TurnLeaves sha256Hex fs maxStateBytes store
      (reconcileOne sha256Hex fs maxStateBytes (store, report) r).1 r.id := by
  unfold reconcileOne
  cases hclass : classifyReconciliation r (currentState sha256Hex fs maxStateBytes store r) with
  | none =>
    dsimp only
    rw [hclass]
    refine ⟨rfl, rfl, ?_, fun _ _ => rfl⟩
    intro r' hload' decided hdecided
    rw [hload] at hload'
    cases hload'
    rw [hclass] at hdecided
    cases hdecided
  | some decided =>
    dsimp only
    rw [hclass]
    dsimp only
    rw [persist_eq store r.id r _ decided hload hclass]
    by_cases hfits : documentBytes (r.withState decided.target) ≤ maxMetadataBytes
    · rw [if_pos hfits]
      refine ⟨rfl, remark_listed store r.id r _, ?_, ?_⟩
      · intro r' hload' decided' hdecided'
        rw [load_remark store r.id r _ hload hfits] at hload'
        cases hload'
        have hnone := classified_settles r _ decided hclass
        exact absurd (hnone.symm.trans hdecided') (by simp)
      · intro other hother
        exact load_of_find store (store.remark r.id r decided.target) other rfl
          (find_remark store r.id other r decided.target hother)
    · rw [if_neg hfits]
      refine ⟨rfl, rfl, ?_, fun _ _ => rfl⟩
      intro r' hload' decided' hdecided'
      rw [hload] at hload'
      cases hload'
      rw [hclass] at hdecided'
      cases hdecided'
      exact hfits

theorem settled_congr (store store' : CheckpointStore) (id : Text)
    (hroot : store'.workspaceRoot = store.workspaceRoot)
    (hload : store'.loadMetadata id = store.loadMetadata id)
    (h : SettledRecord sha256Hex fs maxStateBytes store id) :
    SettledRecord sha256Hex fs maxStateBytes store' id := by
  intro r hr decided hdecided
  rw [hload] at hr
  unfold currentState at hdecided
  rw [hroot] at hdecided
  exact h r hr decided hdecided

/-- Every listed record had its turn; turns do not undo each other. -/
structure TurnsLeave (pending : List FileCheckpoint) (store store' : CheckpointStore) : Prop where
  root : store'.workspaceRoot = store.workspaceRoot
  names : store'.listedNames = store.listedNames
  settled : ∀ r ∈ pending, SettledRecord sha256Hex fs maxStateBytes store' r.id
  others : ∀ other, other ∉ pending.map FileCheckpoint.id →
    store'.loadMetadata other = store.loadMetadata other

theorem turns_leave (pending : List FileCheckpoint) (store : CheckpointStore)
    (report : ReconciliationReport) (hdistinct : (pending.map FileCheckpoint.id).Nodup)
    (hload : ∀ r ∈ pending, store.loadMetadata r.id = .ok r) :
    TurnsLeave sha256Hex fs maxStateBytes pending store
      (pending.foldl (reconcileOne sha256Hex fs maxStateBytes) (store, report)).1 := by
  induction pending generalizing store report with
  | nil => exact ⟨rfl, rfl, by simp, fun _ _ => rfl⟩
  | cons r pending ih =>
    obtain ⟨hown, hrest⟩ := List.nodup_cons.mp hdistinct
    have hturn := turn_leaves sha256Hex fs maxStateBytes store report r (hload r (by simp))
    have hne : ∀ r' ∈ pending, r'.id ≠ r.id := by
      intro r' hr' heq
      exact hown (heq ▸ List.mem_map_of_mem hr')
    have hturns := ih (reconcileOne sha256Hex fs maxStateBytes (store, report) r).1
      (reconcileOne sha256Hex fs maxStateBytes (store, report) r).2 hrest (by
        intro r' hr'
        rw [hturn.others r'.id (hne r' hr')]
        exact hload r' (by simp [hr']))
    rw [List.foldl_cons]
    refine ⟨hturns.root.trans hturn.root, hturns.names.trans hturn.names, ?_, ?_⟩
    · intro r' hr'
      rcases List.mem_cons.mp hr' with rfl | hr'
      · exact settled_congr sha256Hex fs maxStateBytes _ _ r'.id hturns.root
          (hturns.others r'.id hown) hturn.settled
      · exact hturns.settled r' hr'
    · intro other hother
      rw [List.map_cons, List.mem_cons, not_or] at hother
      rw [hturns.others other hother.2, hturn.others other hother.1]

theorem loaded_distinct (store : CheckpointStore) :
    (store.loadedRecords.map FileCheckpoint.id).Nodup := by
  have hnames : store.listedNames.Nodup :=
    store.distinct.sublist (((List.take_sublist _ _).trans List.filter_sublist).map _)
  have hsublist : ∀ names : List Text, ((names.filterMap fun name =>
      (store.loadMetadata name).toOption).map FileCheckpoint.id).Sublist names := by
    intro names
    induction names with
    | nil => exact .slnil
    | cons name names ih =>
      cases hload : store.loadMetadata name with
      | error error =>
        rw [List.filterMap_cons_none (by simp [hload, Except.toOption])]
        exact ih.cons name
      | ok r =>
        rw [List.filterMap_cons_some (by simp [hload, Except.toOption] : _ = some r), List.map_cons,
          (store.load_some name r hload).2.1]
        exact ih.cons_cons name
  exact hnames.sublist (hsublist store.listedNames)

theorem listed_distinct (store : CheckpointStore) (states : List CheckpointState) :
    ((store.list (some states) none).map FileCheckpoint.id).Nodup := by
  have hfiltered : ((store.loadedRecords.filter fun r => states.contains r.state).map
      FileCheckpoint.id).Nodup := (loaded_distinct store).sublist (List.filter_sublist.map _)
  exact ((List.perm_insertionSort _ _).map _).nodup_iff.mpr hfiltered

theorem settled_unchanged (pending : List FileCheckpoint) (store : CheckpointStore)
    (report : ReconciliationReport) (h : ∀ r ∈ pending, store.loadMetadata r.id = .ok r ∧
      SettledRecord sha256Hex fs maxStateBytes store r.id) :
    (pending.foldl (reconcileOne sha256Hex fs maxStateBytes) (store, report)).1 = store := by
  induction pending generalizing report with
  | nil => rfl
  | cons r pending ih =>
    obtain ⟨hload, hsettled⟩ := h r (by simp)
    have hfirst : (reconcileOne sha256Hex fs maxStateBytes (store, report) r).1 = store := by
      unfold reconcileOne
      dsimp only
      split
      · rfl
      · rename_i decided hdecided
        dsimp only
        rw [persist_eq store r.id r _ decided hload hdecided,
          if_neg (hsettled r hload decided hdecided)]
    rw [List.foldl_cons, ← Prod.mk.eta (p := reconcileOne _ _ _ _ _), hfirst]
    exact ih _ fun r' hr' => h r' (List.mem_cons_of_mem _ hr')

theorem reconcile_twice (store : CheckpointStore) :
    (reconcileCheckpoints sha256Hex fs
        (reconcileCheckpoints sha256Hex fs store maxStateBytes).1 maxStateBytes).1 =
      (reconcileCheckpoints sha256Hex fs store maxStateBytes).1 := by
  have hturns := turns_leave sha256Hex fs maxStateBytes
    (store.list (some [.prepared, .applied]) none) store .zero (listed_distinct store _)
    (fun r hr => (loaded_record store r ((listed_record store _ r).mp hr).1).2)
  unfold reconcileCheckpoints at hturns ⊢
  apply settled_unchanged
  intro r hr
  obtain ⟨hrecord, hpending⟩ := (listed_record _ _ r).mp hr
  obtain ⟨hname, hload⟩ := loaded_record _ r hrecord
  refine ⟨hload, ?_⟩
  by_cases hfirst : r.id ∈ (store.list (some [.prepared, .applied]) none).map FileCheckpoint.id
  · obtain ⟨r₀, hr₀, hid⟩ := List.mem_map.mp hfirst
    rw [← hid]
    exact hturns.settled r₀ hr₀
  · -- A record that was not listed as pending loads as it did, so that it is not pending now.
    rw [hturns.others r.id hfirst] at hload
    rw [hturns.names] at hname
    have hloaded : r ∈ store.loadedRecords :=
      List.mem_filterMap.mpr ⟨r.id, hname, by simp [hload, Except.toOption]⟩
    exact absurd (List.mem_map_of_mem ((listed_record store _ r).mpr ⟨hloaded, hpending⟩)) hfirst

end Twice

end Siralos.Checkpoint
