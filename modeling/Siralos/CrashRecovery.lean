import Siralos.CrashCuts

/-!
# Crashes and restarts

The reconciliation of the next start settles what a crash left: afterwards the operation has
happened as a whole or not at all, and so through any run of operations, crashes and restarts.
-/

set_option autoImplicit false

namespace Siralos.Checkpoint

open Siralos.Workspace Siralos.Conversation

/-- An operation whose proposal is the mutation. -/
structure Mutates (sha256Hex : FileBytes → Text) (op : Operation) (host : MutationHost)
    (fs : FileSystem) (store : CheckpointStore) (p : Proposal) : Prop where
  undone : op.undone = none
  minted : op.minted = host.minted
  proposed : proposed sha256Hex op fs store = some p
  written : written sha256Hex op fs store = some (p.target, p.bytes)
  planned : fs.node p.target.dropLast = some .directory →
    Planned sha256Hex fs store.workspaceRoot p
  steps : ∃ summary,
    step sha256Hex op fs store = succeeded (applyProposal sha256Hex host fs store summary p)

theorem write_mutates (sha256Hex : FileBytes → Text) (host : MutationHost) (input : Json.Value)
    (fs : FileSystem) (store : CheckpointStore) (p : Proposal)
    (hroot : Opened fs store.workspaceRoot)
    (h : proposeWrite sha256Hex host fs store.workspaceRoot input = .ok p) :
    Mutates sha256Hex (.write host input) host fs store p where
  undone := rfl
  minted := rfl
  proposed := by simp [proposed, h, Except.toOption]
  written := by simp [written, h, Except.toOption]
  planned := write_planned sha256Hex host fs store.workspaceRoot input p hroot h
  steps := ⟨_, by rw [step, executeWrite, h]⟩

theorem edit_mutates (sha256Hex : FileBytes → Text) (host : MutationHost) (input : Json.Value)
    (fs : FileSystem) (store : CheckpointStore) (p : Proposal)
    (hroot : Opened fs store.workspaceRoot)
    (h : proposeEdit sha256Hex host fs store.workspaceRoot input = .ok p) :
    Mutates sha256Hex (.edit host input) host fs store p where
  undone := rfl
  minted := rfl
  proposed := by simp [proposed, h, Except.toOption]
  written := by simp [written, h, Except.toOption]
  planned _ := edit_planned sha256Hex host fs store.workspaceRoot input p hroot h
  steps := ⟨_, by rw [step, executeEdit, h]⟩

theorem remark_length (store : CheckpointStore) (id : Text) (r : FileCheckpoint)
    (state : CheckpointState) :
    (store.remark id r state).entries.length = store.entries.length :=
  set_entry_length store id _ _

theorem written_inside {sha256Hex : FileBytes → Text} {maxStateBytes : ℕ} {op : Operation}
    {fs : FileSystem} {store : CheckpointStore} (hroot : Opened fs store.workspaceRoot)
    (hop : Recoverable sha256Hex maxStateBytes op fs store) (target : Path) (bytes : FileBytes)
    (h : Checkpoint.written sha256Hex op fs store = some (target, bytes)) :
    store.workspaceRoot <+: target := by
  have hmutates : ∀ host p, Mutates sha256Hex op host fs store p →
      store.workspaceRoot <+: target := by
    intro host p hm
    obtain ⟨names, htarget, -⟩ := (hm.planned (hop.directory p hm.proposed)).spelled
    rw [hm.written] at h
    cases h
    rw [htarget]
    exact List.prefix_append _ _
  cases op with
  | write host input =>
    obtain ⟨p, hp, -⟩ := Option.map_eq_some_iff.mp h
    cases hproposed : proposeWrite sha256Hex host fs store.workspaceRoot input with
    | error result =>
      rw [hproposed] at hp
      cases hp
    | ok p => exact hmutates host p (write_mutates sha256Hex host input fs store p hroot hproposed)
  | edit host input =>
    obtain ⟨p, hp, -⟩ := Option.map_eq_some_iff.mp h
    cases hproposed : proposeEdit sha256Hex host fs store.workspaceRoot input with
    | error result =>
      rw [hproposed] at hp
      cases hp
    | ok p => exact hmutates host p (edit_mutates sha256Hex host input fs store p hroot hproposed)
  | undo id maxUndoBytes =>
    obtain ⟨r, -, hrest⟩ := Option.bind_eq_some_iff.mp h
    obtain ⟨place, hplace, hbytes⟩ := Option.bind_eq_some_iff.mp hrest
    obtain ⟨_, -, hsame⟩ := Option.map_eq_some_iff.mp hbytes
    cases hsame
    exact undo_target_inside fs _ _ r hroot hplace

section MutationCuts

variable {sha256Hex : FileBytes → Text} {maxStateBytes : ℕ} {host : MutationHost}
  {fs fs' : FileSystem} {store s created : CheckpointStore} {p : Proposal} {r : FileCheckpoint}
  {op : Operation}

theorem mint_error_trimmed (creation : CheckpointCreation) (minted : List Text)
    (error : CheckpointStoreError)
    (h : mintRecord sha256Hex creation store minted = (.error error, s)) : Trimmed store s := by
  induction minted generalizing store with
  | nil =>
    cases h
    exact .refl _
  | cons id minted ih =>
    rw [mintRecord] at h
    split at h
    · exact ih h
    · have htrim := ensure_trimmed sha256Hex store (preparedRecord store.limits creation id)
        creation.preimageLen
      dsimp only at h
      cases hensure : ensureCapacityFor sha256Hex store (preparedRecord store.limits creation id)
          creation.preimageLen with
      | mk outcome trimmed =>
        rw [hensure] at h htrim
        cases outcome with
        | error error' =>
          cases h
          exact htrim
        | ok value =>
          dsimp only at h
          split at h
          · split at h
            · cases h
              exact htrim
            · cases h
          · exact htrim.trans (ih h)

theorem create_error_trimmed (creation : CheckpointCreation) (minted : List Text)
    (error : CheckpointStoreError)
    (h : createCheckpoint sha256Hex store creation minted = (.error error, s)) :
    Trimmed store s := by
  unfold createCheckpoint at h
  split at h
  · cases h
    exact .refl store
  · exact mint_error_trimmed creation _ error h

theorem created_loads (hcreated : Created store created p.creation r) (id : Text)
    (r' : FileCheckpoint) (hother : id ≠ r.id) (hload : created.loadMetadata id = .ok r') :
    store.loadMetadata id = .ok r' :=
  others_load store created r.id id r' hcreated.limits
    (created_others_kept store created p.creation r hcreated) hother hload

theorem abandoned_untouched (hcreated : Created store created p.creation r)
    (hbounded : created.entries.length ≤ created.limits.maxCheckpoints)
    (hroom : documentBytes (r.withState .abandoned) ≤ maxMetadataBytes) :
    Untouched store (created.remark r.id r .abandoned) := by
  refine ⟨hcreated.root, ?_, ?_⟩
  · rw [remark_length]
    exact hbounded
  · intro id r' hload
    by_cases hid : id = r.id
    · rw [hid, load_remark created r.id r .abandoned hcreated.loads hroom] at hload
      cases hload
      exact .inr rfl
    · rw [load_of_find created (created.remark r.id r .abandoned) id rfl
        (find_remark created r.id id r .abandoned hid)] at hload
      exact .inl (created_loads hcreated id r' hid hload)

theorem created_room (hm : Mutates sha256Hex op host fs store p)
    (hop : Recoverable sha256Hex maxStateBytes op fs store)
    (hcreate : createCheckpoint sha256Hex store p.creation host.minted = (.ok r, created)) :
    documentBytes (r.withState .abandoned) ≤ maxMetadataBytes := by
  have hcreated := (create_checkpoint_ok sha256Hex store created _ _ r hcreate).2
  have hminted := (create_counts p.creation host.minted store created r hcreate).2
  rw [hcreated.prepared]
  exact hop.room p r.id hm.proposed (hm.minted ▸ hminted)

theorem prepared_fields (hcreated : Created store created p.creation r) :
    r.state = .prepared ∧ r.relativePath = p.creation.relativePath ∧
      r.before = p.creation.before ∧ r.after = p.creation.after := by
  rw [hcreated.prepared]
  exact ⟨rfl, rfl, rfl, rfl⟩

theorem refused_marks (hroom : documentBytes (r.withState .abandoned) ≤ maxMetadataBytes)
    (hcreated : Created store created p.creation r) :
    bestEffort created r.id .abandoned = created.remark r.id r .abandoned := by
  have htransition := created.transition_eq r.id .abandoned
    (fun s => (CheckpointStore.allowedTransitions s).contains .abandoned) r hcreated.loads
  unfold bestEffort CheckpointStore.markState
  change kept created (created.transition r.id .abandoned
    fun s => (CheckpointStore.allowedTransitions s).contains .abandoned) = _
  rw [htransition, (prepared_fields hcreated).1, if_neg (by decide), if_pos hroom]
  rfl

theorem replaced_steps (hm : Mutates sha256Hex op host fs store p)
    (h : Replaced sha256Hex host fs store p r created fs') :
    step sha256Hex op fs store = some (fs', created.remark r.id r .applied) := by
  obtain ⟨summary, hsteps⟩ := hm.steps
  rw [hsteps, h.result summary]
  rfl

section Recovered

variable (hm : Mutates sha256Hex op host fs store p)
  (hsettled : Settled sha256Hex maxStateBytes fs store)
  (hop : Recoverable sha256Hex maxStateBytes op fs store)

include hm hsettled hop

theorem prepared_recovers (hleft : LeftBehind sha256Hex op fs store fs')
    (hcreate : createCheckpoint sha256Hex store p.creation host.minted = (.ok r, created))
    (hsame : SameRecords created s) :
    restart sha256Hex maxStateBytes fs' s = s.remark r.id r .abandoned := by
  have hcreated := (create_checkpoint_ok sha256Hex store created _ _ r hcreate).2
  obtain ⟨hstate, hpath, hbefore, _⟩ := prepared_fields hcreated
  obtain ⟨hplanned, hnode⟩ :=
    (hm.planned (hop.directory p hm.proposed)).left sha256Hex maxStateBytes hop hm.written hleft
  have hquiet := (hleft.settled sha256Hex maxStateBytes hsettled hop
    (written_inside hsettled.root hop)).quiet
  have hdecided := planned_untouched sha256Hex maxStateBytes fs' store.workspaceRoot p r hplanned
    hstate hpath hbefore fun old hold =>
      (hop.read p.target p.bytes old hm.written (hnode.symm.trans hold)).1
  have hroot : s.workspaceRoot = store.workspaceRoot := hsame.root.trans hcreated.root
  apply one_turn sha256Hex maxStateBytes fs' s r .abandoned
  · rw [hsame.length, hsame.limits]
    exact (create_counts p.creation host.minted store created r hcreate).1
  · exact (hsame.loads r.id).trans hcreated.loads
  · rw [currentState, hroot]
    exact hdecided
  · exact created_room hm hop hcreate
  · intro id r' hload hother
    rw [currentState, hroot, classify_none_iff]
    exact hquiet id r' (created_loads hcreated id r' hother ((hsame.loads id).symm.trans hload))

theorem prepared_untouched (hleft : LeftBehind sha256Hex op fs store fs')
    (hcreate : createCheckpoint sha256Hex store p.creation host.minted = (.ok r, created))
    (hsame : SameRecords created s) :
    AllOrNothing sha256Hex op fs store fs' (restart sha256Hex maxStateBytes fs' s) := by
  have hcreated := (create_checkpoint_ok sha256Hex store created _ _ r hcreate).2
  have hroom := created_room hm hop hcreate
  rw [prepared_recovers hm hsettled hop hleft hcreate hsame]
  refine .inl ⟨hleft, ?_⟩
  exact (abandoned_untouched hcreated (create_counts p.creation host.minted store created r
    hcreate).1 hroom).same (hsame.remark hcreated.loads hroom)

theorem replaced_recovers (h : Replaced sha256Hex host fs store p r created fs')
    (hsame : SameRecords created s) :
    restart sha256Hex maxStateBytes fs' s = s.remark r.id r .applied := by
  have hcreated := h.marked.1
  obtain ⟨hstate, hpath, hbefore, hafter⟩ := prepared_fields hcreated
  have hplanned := hm.planned (hop.directory p hm.proposed)
  obtain ⟨hcommit, _⟩ := stage_commit_ok sha256Hex fs fs' _ p h.commit
  obtain ⟨hwritable, _, _, rfl⟩ := commit_inner_ok sha256Hex fs _ _ _ _ hcommit
  obtain ⟨names, htarget, _⟩ := hplanned.spelled
  have hdecided := planned_replaced sha256Hex maxStateBytes fs store.workspaceRoot p r hplanned
    hwritable hstate hpath hbefore hafter (hop.small p.target p.bytes hm.written)
    fun old hold => (hop.read p.target p.bytes old hm.written hold).2
  have hroot : s.workspaceRoot = store.workspaceRoot := hsame.root.trans hcreated.root
  apply one_turn sha256Hex maxStateBytes _ s r .applied
  · rw [hsame.length, hsame.limits]
    exact (create_counts p.creation host.minted store created r h.create).1
  · exact (hsame.loads r.id).trans hcreated.loads
  · rw [currentState, hroot]
    exact hdecided
  · exact (document_shrinks r hstate).1.trans hcreated.fits
  · intro id r' hload hother
    rw [currentState, hroot]
    apply others_unchanged sha256Hex maxStateBytes op fs store p.target p.bytes hsettled.root
      hsettled.quiet hop.returns hm.written hwritable
    · rw [htarget]
      exact List.prefix_append _ _
    · exact created_loads hcreated id r' hother ((hsame.loads id).symm.trans hload)
    · simp [hm.undone]

theorem replaced_completes (h : Replaced sha256Hex host fs store p r created fs')
    (hsame : SameRecords created s) :
    AllOrNothing sha256Hex op fs store fs' (restart sha256Hex maxStateBytes fs' s) := by
  have hcreated := h.marked.1
  have hstate := (prepared_fields hcreated).1
  rw [replaced_recovers hm hsettled hop h hsame]
  exact .inr ⟨_, replaced_steps hm h, hsame.remark hcreated.loads
    ((document_shrinks r hstate).1.trans hcreated.fits)⟩

theorem replaced_settled (h : Replaced sha256Hex host fs store p r created fs') :
    Settled sha256Hex maxStateBytes fs' (created.remark r.id r .applied) := by
  have hcreated := h.marked.1
  obtain ⟨hstate, hpath, hbefore, hafter⟩ := prepared_fields hcreated
  have hplanned := hm.planned (hop.directory p hm.proposed)
  obtain ⟨hcommit, _⟩ := stage_commit_ok sha256Hex fs fs' _ p h.commit
  obtain ⟨hwritable, _, _, hfs⟩ := commit_inner_ok sha256Hex fs _ _ _ _ hcommit
  obtain ⟨names, htarget, hrelative, hspelled⟩ := hplanned.spelled
  obtain ⟨happlied, hundone⟩ := document_shrinks r hstate
  obtain ⟨target, bytes, hleaves⟩ := step_leaves sha256Hex maxStateBytes op fs fs' store _
    hsettled.root (replaced_steps hm h)
  have hroot : (created.remark r.id r .applied).workspaceRoot = store.workspaceRoot := hcreated.root
  refine ⟨?_, ?_, ?_, ?_⟩
  · rw [hroot, hfs]
    exact set_file_directory fs p.target _ p.bytes hwritable hsettled.root
  · rw [remark_length]
    exact (create_counts p.creation host.minted store created r h.create).1
  · exact step_quiet sha256Hex maxStateBytes op fs fs' store _ target bytes hsettled.root hleaves
      hop.returns hsettled.quiet
  · intro id r' hload hstate'
    rw [hroot, hfs]
    by_cases hid : id = r.id
    · rw [hid, load_remark created r.id r .applied hcreated.loads
        (happlied.trans hcreated.fits)] at hload
      cases hload
      refine ⟨?_, ?_, hundone.trans hcreated.fits, names, hpath.trans hrelative,
        spelled_set_file fs _ _ names _ hwritable hspelled⟩
      · change r.before.fileExists = true → r.before.sha256.isSome = true
        rw [hbefore]
        rcases hplanned.before with ⟨_, habsent⟩ | ⟨old, _, hpresent⟩
        · rw [habsent]
          intro habsurd
          cases habsurd
        · rw [hpresent]
          exact fun _ => rfl
      · change r.after.fileExists = true
        rw [hafter, hplanned.after]
        rfl
    · rw [load_of_find created (created.remark r.id r .applied) id rfl
        (find_remark created r.id id r .applied hid)] at hload
      exact (hsettled.standing id r' (created_loads hcreated id r' hid hload) hstate').set_file
        p.bytes hwritable

theorem mutation_recovers (h : MutationCut sha256Hex host fs store p fs' s) :
    AllOrNothing sha256Hex op fs store fs' (restart sha256Hex maxStateBytes fs' s) := by
  have hthinned : ∀ s, Thinned store s →
      AllOrNothing sha256Hex op fs store fs (restart sha256Hex maxStateBytes fs s) := by
    intro s hthin
    rw [restart_quiet sha256Hex maxStateBytes fs s
      (quiet_thinned sha256Hex maxStateBytes fs store s hthin hsettled.quiet)]
    exact .inl ⟨.inl rfl, hthin.untouched⟩
  cases h with
  | creating h => exact hthinned s (creation_cut_thinned p.creation store s _ hsettled.bounded h)
  | prepared hcreate => exact prepared_untouched hm hsettled hop (.inl rfl) hcreate (.refl s)
  | staged hcreate hstaging =>
    exact prepared_untouched hm hsettled hop (.inr ⟨_, _, _, _, hm.written, hstaging⟩) hcreate
      (.refl s)
  | abandoning hcreate hcommit =>
    exact prepared_untouched hm hsettled hop (.inl rfl) hcreate (staging_same _ _)
  | replaced hcreate hcommit =>
    exact replaced_completes hm hsettled hop ⟨hcreate, hcommit⟩ (.refl s)
  | applying hcreate hcommit =>
    exact replaced_completes hm hsettled hop ⟨hcreate, hcommit⟩ (staging_same _ _)
  | finished summary =>
    cases hcreate : createCheckpoint sha256Hex store p.creation host.minted with
    | mk outcome created =>
      cases outcome with
      | error error =>
        have hresult : applyProposal sha256Hex host fs store summary p =
            ⟨.failed error.message, fs, created⟩ := by
          rw [applyProposal, hcreate]
        rw [hresult]
        exact hthinned created
          ((create_error_trimmed p.creation host.minted error hcreate).thinned hsettled.bounded)
      | ok r =>
        cases hcommit : stageAndCommit sha256Hex fs store.workspaceRoot p with
        | error failure =>
          have hcreated := (create_checkpoint_ok sha256Hex store _ _ _ r hcreate).2
          have hroom := created_room hm hop hcreate
          have hresult : applyProposal sha256Hex host fs store summary p =
              ⟨commitFailed failure, fs, created.remark r.id r .abandoned⟩ := by
            simp only [applyProposal, hcreate, hcommit, refused_marks hroom hcreated]
          have huntouched := abandoned_untouched hcreated
            (create_counts p.creation host.minted store _ r hcreate).1 hroom
          rw [hresult]
          dsimp only
          rw [restart_quiet sha256Hex maxStateBytes fs _ (hsettled.untouched _ _ huntouched).quiet]
          exact .inl ⟨.inl rfl, huntouched⟩
        | ok committedFs =>
          have hreplaced : Replaced sha256Hex host fs store p r created committedFs :=
            ⟨hcreate, hcommit⟩
          rw [hreplaced.result summary]
          dsimp only
          rw [restart_quiet sha256Hex maxStateBytes _ _
            (replaced_settled hm hsettled hop hreplaced).quiet]
          exact .inr ⟨_, replaced_steps hm hreplaced, .refl _⟩

end Recovered

end MutationCuts

section UndoCuts

variable {sha256Hex : FileBytes → Text} {maxStateBytes : ℕ} {fs fs' : FileSystem}
  {store s : CheckpointStore} {id : Text} {maxUndoBytes : ℕ} {r : FileCheckpoint}

theorem node_state_some (node : Option Node) (digest : Text)
    (h : (nodeState sha256Hex maxStateBytes node).sha256 = some digest) :
    ∃ bytes, node = some (.file bytes) ∧ sha256Hex bytes = digest := by
  unfold nodeState at h
  split at h
  · cases h
  · rename_i bytes
    split at h
    · cases h
    · cases h
      exact ⟨bytes, rfl, rfl⟩
  · cases h

theorem verified_preimage (bytes : FileBytes) (h : store.verifiedPreimage sha256Hex r = .ok bytes) :
    r.before.fileExists = true ∧ sha256Hex bytes = r.before.sha256.getD [] := by
  unfold CheckpointStore.verifiedPreimage at h
  dsimp only at h
  split at h
  · cases h
  rename_i hexists
  split at h
  · cases h
  split at h
  · cases h
  split at h
  · cases h
  split at h
  · cases h
  · cases h
  · split at h
    · cases h
    · rename_i hsame
      cases h
      rw [not_or, not_not, not_not] at hsame
      exact ⟨by simpa using hexists, hsame.2⟩

/-- An undo of a standing record that wrote its file. -/
structure Restoring (sha256Hex : FileBytes → Text) (fs : FileSystem) (store : CheckpointStore)
    (id : Text) (maxUndoBytes : ℕ) (r : FileCheckpoint) (fs' : FileSystem) (target : Path)
    (bytes : FileBytes) : Prop where
  written : written sha256Hex (.undo id maxUndoBytes) fs store = some (target, bytes)
  writable : fs.Writable target
  inside : store.workspaceRoot <+: target
  file : fs' = fs.setFile target bytes
  old : ∃ old, fs.node target = some (.file old) ∧ r.after.sha256 = some (sha256Hex old)
  before : r.before.fileExists = true ∧ r.before.sha256 = some (sha256Hex bytes)
  reads : ∀ maxBytes, readWorkspaceFileState sha256Hex fs' store.workspaceRoot r.relativePath
    maxBytes = nodeState sha256Hex maxBytes (some (.file bytes))
  plan : undoPlan sha256Hex store fs r maxUndoBytes = .readyRestore
  commit : restoreCommit sha256Hex store fs r = .ok fs'

theorem restorable_file {names : List Text} (hpath : r.relativePath = joinNames names)
    (hspelled : Spelled fs store.workspaceRoot names) (hafter : r.after.fileExists = true)
    (hplan : undoPlan sha256Hex store fs r maxUndoBytes = .readyRestore)
    (hcommit : restoreCommit sha256Hex store fs r = .ok fs') :
    ∃ old, fs.node (store.workspaceRoot ++ names) = some (.file old) ∧
      r.after.sha256 = some (sha256Hex old) := by
  obtain ⟨bytes, resolved, hbytes, hresolved, _⟩ := restore_commit_ok sha256Hex store fs _ r hcommit
  have hcurrent : (nodeState sha256Hex maxUndoBytes
      (fs.node (store.workspaceRoot ++ names))).sha256 = r.after.sha256 := by
    rw [undoPlan, hpath, hspelled.reads, planUndo, if_pos hafter] at hplan
    split at hplan
    · rename_i hsame
      simpa using (Bool.and_eq_true_iff.mp hsame).2
    · cases hplan
  obtain ⟨digest, hdigest⟩ : ∃ digest, r.after.sha256 = some digest := by
    unfold restoreCommit at hcommit
    rw [hbytes, hresolved] at hcommit
    dsimp only at hcommit
    cases hsome : r.after.sha256 with
    | none =>
      rw [hsome] at hcommit
      cases hcommit
    | some digest => exact ⟨digest, rfl⟩
  rw [hdigest] at hcurrent
  obtain ⟨old, hold, rfl⟩ := node_state_some _ _ hcurrent
  exact ⟨old, hold, hdigest⟩

theorem resolved_target {names : List Text} {resolved : ResolvedWorkspacePath} {old : FileBytes}
    (hpath : r.relativePath = joinNames names) (hspelled : Spelled fs store.workspaceRoot names)
    (hold : fs.node (store.workspaceRoot ++ names) = some (.file old))
    (hresolved : resolveWorkspacePath fs store.workspaceRoot r.relativePath = .ok resolved) :
    resolved.absolutePath = store.workspaceRoot ++ names := by
  rw [hpath, hspelled.resolves ⟨.file old, hold, by simp⟩] at hresolved
  cases hresolved
  rfl

/-- The plan of a record whose file stays is a restore, if it writes anything. -/
theorem committed_restores (hafter : r.after.fileExists = true)
    (h : committed sha256Hex store fs r maxUndoBytes = some fs') :
    undoPlan sha256Hex store fs r maxUndoBytes = .readyRestore ∧
      restoreCommit sha256Hex store fs r = .ok fs' := by
  unfold committed at h
  cases hplan : undoPlan sha256Hex store fs r maxUndoBytes with
  | readyDelete => simp [hplan] at h
  | conflict => simp [hplan] at h
  | readyCreate =>
    have habsent := plan_create r _ hplan
    rw [hafter] at habsent
    cases habsent
  | readyRestore =>
    rw [hplan] at h
    dsimp only at h
    cases hcommit : restoreCommit sha256Hex store fs r with
    | error error =>
      rw [hcommit] at h
      cases h
    | ok committedFs =>
      rw [hcommit] at h
      cases h
      exact ⟨rfl, rfl⟩

theorem standing_restores (hload : store.loadMetadata id = .ok r)
    (hstanding : Standing fs store.workspaceRoot r)
    (h : committed sha256Hex store fs r maxUndoBytes = some fs') :
    ∃ target bytes, Restoring sha256Hex fs store id maxUndoBytes r fs' target bytes := by
  obtain ⟨names, hpath, hspelled⟩ := hstanding.spelled
  obtain ⟨hplan, hcommit⟩ := committed_restores hstanding.after h
  obtain ⟨bytes, resolved, hbytes, hresolved, hwritable, hfs⟩ :=
    restore_commit_ok sha256Hex store fs _ r hcommit
  obtain ⟨hexists, hdigest⟩ := verified_preimage bytes hbytes
  obtain ⟨old, hold, hafter⟩ := restorable_file hpath hspelled hstanding.after hplan hcommit
  have htarget := resolved_target hpath hspelled hold hresolved
  have hbefore : r.before.sha256 = some (sha256Hex bytes) := by
    obtain ⟨before, hsome⟩ := Option.isSome_iff_exists.mp (hstanding.before hexists)
    rw [hsome] at hdigest ⊢
    rw [hdigest]
    rfl
  refine ⟨resolved.absolutePath, bytes, ?_, hwritable, ?_, hfs, ⟨old, ?_, hafter⟩,
    ⟨hexists, hbefore⟩, ?_, hplan, hcommit⟩
  · have hundoTarget : undoTarget fs store.workspaceRoot r = some resolved.absolutePath := by
      rw [undoTarget, if_pos hstanding.after, hresolved]
      rfl
    simp [written, hload, hundoTarget, hbytes, Except.toOption]
  · rw [htarget]
    exact List.prefix_append _ _
  · rw [htarget]
    exact hold
  · intro maxBytes
    have hspelled' := spelled_set_file fs store.workspaceRoot resolved.absolutePath names bytes
      hwritable hspelled
    rw [hfs, hpath, hspelled'.reads, ← htarget, fs.set_file_target _ bytes hwritable]

section Restoring

variable {target : Path} {bytes : FileBytes}
  (h : Restoring sha256Hex fs store id maxUndoBytes r fs' target bytes)
  (hload : store.loadMetadata id = .ok r) (hstate : r.state = .applied)
  (hstanding : Standing fs store.workspaceRoot r)

include h hload hstate hstanding

theorem Restoring.result (hsmall : bytes.length ≤ maxUndoBytes) :
    applyUndo sha256Hex store fs id maxUndoBytes =
      ⟨.ok (.restored id), fs', store.remark id r .undone⟩ := by
  have hid : r.id = id := (store.load_some id r hload).2.1
  have hback : readBack sha256Hex store fs' r maxUndoBytes = true := by
    unfold readBack
    rw [h.reads, state_of_small sha256Hex maxUndoBytes bytes hsmall, h.before.2]
    simp
  have hmark : store.markUndone id = .ok (store.remark id r .undone, r.withState .undone) := by
    rw [CheckpointStore.markUndone, store.transition_eq id .undone _ r hload, hstate,
      if_neg (by decide), if_pos hstanding.fits]
    rfl
  unfold applyUndo
  rw [hload]
  dsimp only
  rw [h.plan]
  simp [restoreBefore, h.commit, hback, finishUndo, hmark, hid]

theorem Restoring.steps (hsmall : bytes.length ≤ maxUndoBytes) :
    step sha256Hex (.undo id maxUndoBytes) fs store = some (fs', store.remark id r .undone) := by
  rw [step, h.result hload hstate hstanding hsmall]
  rfl

theorem Restoring.recovers (hsettled : Settled sha256Hex maxStateBytes fs store)
    (hop : Recoverable sha256Hex maxStateBytes (.undo id maxUndoBytes) fs store)
    (hsame : SameRecords store s) :
    restart sha256Hex maxStateBytes fs' s = s.remark id r .undone := by
  have hid : r.id = id := (store.load_some id r hload).2.1
  obtain ⟨old, hold, hafter⟩ := h.old
  have hchanged := (hop.read target bytes old h.written hold).2
  have hdecided : classifyReconciliation r (currentState sha256Hex fs' maxStateBytes s r) =
      some .undoneAfterRestore := by
    rw [currentState, hsame.root, h.reads,
      state_of_small sha256Hex maxStateBytes bytes (hop.small target bytes h.written)]
    unfold classifyReconciliation
    rw [hstate]
    simp [statesEqual, CheckpointFileState.toWorkspace, h.before, hstanding.after, hafter,
      hchanged.symm]
  have hturn := one_turn sha256Hex maxStateBytes fs' s r .undoneAfterRestore
    (by rw [hsame.length, hsame.limits]; exact hsettled.bounded)
    (by rw [hid]; exact (hsame.loads id).trans hload) hdecided hstanding.fits (by
      intro other r' hload' hother
      rw [currentState, hsame.root, h.file]
      apply others_unchanged sha256Hex maxStateBytes (.undo id maxUndoBytes) fs store target bytes
        hsettled.root hsettled.quiet hop.returns h.written h.writable h.inside other r'
        ((hsame.loads other).symm.trans hload')
      rw [hid] at hother
      simpa [Operation.undone] using fun heq => hother heq.symm)
  rw [restart, hturn, hid]
  rfl

end Restoring

theorem undo_unwritten (hload : store.loadMetadata id = .ok r)
    (h : committed sha256Hex store fs r maxUndoBytes = none) :
    (applyUndo sha256Hex store fs id maxUndoBytes).fs = fs ∧
      (applyUndo sha256Hex store fs id maxUndoBytes).store = store := by
  unfold committed at h
  unfold applyUndo
  rw [hload]
  dsimp only
  cases hplan : undoPlan sha256Hex store fs r maxUndoBytes with
  | readyDelete => exact ⟨rfl, rfl⟩
  | conflict => exact ⟨rfl, rfl⟩
  | readyRestore =>
    rw [hplan] at h
    dsimp only at h ⊢
    unfold restoreBefore
    cases hcommit : restoreCommit sha256Hex store fs r with
    | error error => exact ⟨rfl, rfl⟩
    | ok committedFs => simp [hcommit, Except.toOption] at h
  | readyCreate =>
    rw [hplan] at h
    dsimp only at h ⊢
    unfold recreateBefore
    cases hcommit : recreateCommit sha256Hex store fs r with
    | error error => exact ⟨rfl, rfl⟩
    | ok committedFs => simp [hcommit, Except.toOption] at h

theorem undo_settled (hsettled : Settled sha256Hex maxStateBytes fs store)
    (hop : Recoverable sha256Hex maxStateBytes (.undo id maxUndoBytes) fs store)
    (h : step sha256Hex (.undo id maxUndoBytes) fs store = some (fs', s)) :
    Settled sha256Hex maxStateBytes fs' s := by
  obtain ⟨target, bytes, hleaves⟩ := step_leaves sha256Hex maxStateBytes _ fs fs' store s
    hsettled.root h
  obtain ⟨r, _, _, hload, _, _, _, _, rfl, _⟩ :=
    undo_restored sha256Hex id maxUndoBytes fs fs' store s h
  refine ⟨?_, ?_, step_quiet sha256Hex maxStateBytes _ fs fs' store _ target bytes hsettled.root
    hleaves hop.returns hsettled.quiet, ?_⟩
  · rw [hleaves.root, hleaves.file]
    exact set_file_directory fs target _ bytes hleaves.writable hsettled.root
  · rw [remark_length]
    exact hsettled.bounded
  · intro other r' hload' hstate'
    rw [hleaves.root, hleaves.file]
    have hstanding : Standing fs store.workspaceRoot r' := by
      by_cases hother : other = id
      · rw [hother] at hload'
        obtain ⟨_, _, stored, hfind, rfl, _⟩ := (store.remark id r .undone).load_some id r' hload'
        obtain ⟨_, _, old, hold, _⟩ := store.load_some id r hload
        rw [CheckpointStore.remark, find_set_entry, hold] at hfind
        simp only [Option.map_some, if_pos, rewriteEntry, Option.some.injEq,
          StoreEntry.record.injEq] at hfind
        rw [← hfind] at hstate'
        cases hstate'
      · rw [load_of_find store (store.remark id r .undone) other rfl
          (find_remark store id other r .undone hother)] at hload'
        exact hsettled.standing other r' hload' hstate'
    exact hstanding.set_file bytes hleaves.writable

theorem undo_recovers (hsettled : Settled sha256Hex maxStateBytes fs store)
    (hop : Recoverable sha256Hex maxStateBytes (.undo id maxUndoBytes) fs store)
    (h : Cut sha256Hex (.undo id maxUndoBytes) fs store fs' s) :
    AllOrNothing sha256Hex (.undo id maxUndoBytes) fs store fs'
      (restart sha256Hex maxStateBytes fs' s) := by
  have hnothing : ∀ fs', LeftBehind sha256Hex (.undo id maxUndoBytes) fs store fs' →
      AllOrNothing sha256Hex (.undo id maxUndoBytes) fs store fs'
        (restart sha256Hex maxStateBytes fs' store) := by
    intro fs' hleft
    have hstill := hleft.settled sha256Hex maxStateBytes hsettled hop
      (written_inside hsettled.root hop)
    rw [restart_quiet sha256Hex maxStateBytes fs' store hstill.quiet]
    exact .inl ⟨hleft, rfl, hsettled.bounded, fun _ _ hload => .inl hload⟩
  have hrestored : ∀ r s, store.loadMetadata id = .ok r → SameRecords store s →
      committed sha256Hex store fs r maxUndoBytes = some fs' →
        AllOrNothing sha256Hex (.undo id maxUndoBytes) fs store fs'
          (restart sha256Hex maxStateBytes fs' s) := by
    intro r s hload hsame h
    obtain ⟨hmax, hstate⟩ := hop.applied id maxUndoBytes r rfl hload
    have hstanding := hsettled.standing id r hload hstate
    obtain ⟨target, bytes, hrestoring⟩ := standing_restores hload hstanding h
    rw [hrestoring.recovers hload hstate hstanding hsettled hop hsame]
    exact .inr ⟨_, hrestoring.steps hload hstate hstanding
      ((hop.small target bytes hrestoring.written).trans hmax),
      hsame.remark hload hstanding.fits⟩
  cases h with
  | before => exact hnothing fs (.inl rfl)
  | staged hwritten hstaging =>
    exact hnothing fs' (.inr ⟨_, _, _, _, hwritten, hstaging⟩)
  | restored hload h => exact hrestored _ _ hload (.refl _) h
  | closing hload h => exact hrestored _ _ hload (staging_same _ _) h
  | undone =>
    cases hload : store.loadMetadata id with
    | error error =>
      have hresult : applyUndo sha256Hex store fs id maxUndoBytes = ⟨.error error, fs, store⟩ := by
        rw [applyUndo, hload]
      rw [hresult]
      exact hnothing fs (.inl rfl)
    | ok r =>
      obtain ⟨hmax, hstate⟩ := hop.applied id maxUndoBytes r rfl hload
      have hstanding := hsettled.standing id r hload hstate
      cases hcommitted : committed sha256Hex store fs r maxUndoBytes with
      | none =>
        obtain ⟨hfs, hstore⟩ := undo_unwritten hload hcommitted
        rw [hfs, hstore]
        exact hnothing fs (.inl rfl)
      | some committedFs =>
        obtain ⟨target, bytes, hrestoring⟩ := standing_restores hload hstanding hcommitted
        have hsteps := hrestoring.steps hload hstate hstanding
          ((hop.small target bytes hrestoring.written).trans hmax)
        rw [hrestoring.result hload hstate hstanding
          ((hop.small target bytes hrestoring.written).trans hmax)]
        dsimp only
        rw [restart_quiet sha256Hex maxStateBytes _ _ (undo_settled hsettled hop hsteps).quiet]
        exact .inr ⟨_, hsteps, .refl _⟩

end UndoCuts

section CrashRuns

variable (sha256Hex : FileBytes → Text) (maxStateBytes : ℕ)

/-- What operations that complete, and operations cut short by a crash before the next start,
lead to. -/
inductive Reaches (fs₀ : FileSystem) (store₀ : CheckpointStore) :
    FileSystem → CheckpointStore → Prop
  | start : Reaches fs₀ store₀ fs₀ store₀
  | completes {op : Operation} {fs fs' : FileSystem} {store store' : CheckpointStore}
      (h : Reaches fs₀ store₀ fs store) (hop : Recoverable sha256Hex maxStateBytes op fs store)
      (hstep : step sha256Hex op fs store = some (fs', store')) : Reaches fs₀ store₀ fs' store'
  | crashes {op : Operation} {fs fs' : FileSystem} {store s : CheckpointStore}
      (h : Reaches fs₀ store₀ fs store) (hop : Recoverable sha256Hex maxStateBytes op fs store)
      (hcut : Cut sha256Hex op fs store fs' s) :
      Reaches fs₀ store₀ fs' (restart sha256Hex maxStateBytes fs' s)

variable {sha256Hex maxStateBytes} {fs fs' fs₀ : FileSystem} {store s store₀ : CheckpointStore}
  {op : Operation}

theorem cut_recovers (hsettled : Settled sha256Hex maxStateBytes fs store)
    (hop : Recoverable sha256Hex maxStateBytes op fs store)
    (hcut : Cut sha256Hex op fs store fs' s) :
    AllOrNothing sha256Hex op fs store fs' (restart sha256Hex maxStateBytes fs' s) := by
  cases op with
  | write host input =>
    cases hcut with
    | before =>
      rw [restart_quiet sha256Hex maxStateBytes fs store hsettled.quiet]
      exact .inl ⟨.inl rfl, rfl, hsettled.bounded, fun _ _ hload => .inl hload⟩
    | @write _ _ _ _ _ _ p hp h =>
      exact mutation_recovers (write_mutates sha256Hex host input fs store p hsettled.root hp)
        hsettled hop h
  | edit host input =>
    cases hcut with
    | before =>
      rw [restart_quiet sha256Hex maxStateBytes fs store hsettled.quiet]
      exact .inl ⟨.inl rfl, rfl, hsettled.bounded, fun _ _ hload => .inl hload⟩
    | @edit _ _ _ _ _ _ p hp h =>
      exact mutation_recovers (edit_mutates sha256Hex host input fs store p hsettled.root hp)
        hsettled hop h
  | undo id maxUndoBytes => exact undo_recovers hsettled hop hcut

theorem write_step_replaced (host : MutationHost) (input : Json.Value)
    (h : step sha256Hex (.write host input) fs store = some (fs', s)) :
    ∃ p r created, proposeWrite sha256Hex host fs store.workspaceRoot input = .ok p ∧
      Replaced sha256Hex host fs store p r created fs' ∧ s = created.remark r.id r .applied :=
  succeeded_replaced fs' s _ _ h
    (propose_write_refusing sha256Hex host fs store.workspaceRoot input)

theorem edit_step_replaced (host : MutationHost) (input : Json.Value)
    (h : step sha256Hex (.edit host input) fs store = some (fs', s)) :
    ∃ p r created, proposeEdit sha256Hex host fs store.workspaceRoot input = .ok p ∧
      Replaced sha256Hex host fs store p r created fs' ∧ s = created.remark r.id r .applied :=
  succeeded_replaced fs' s _ _ h (propose_edit_refusing sha256Hex host fs store.workspaceRoot input)

theorem step_settled (hsettled : Settled sha256Hex maxStateBytes fs store)
    (hop : Recoverable sha256Hex maxStateBytes op fs store)
    (h : step sha256Hex op fs store = some (fs', s)) : Settled sha256Hex maxStateBytes fs' s := by
  cases op with
  | write host input =>
    obtain ⟨p, r, created, hp, hreplaced, rfl⟩ := write_step_replaced host input h
    exact replaced_settled (write_mutates sha256Hex host input fs store p hsettled.root hp) hsettled
      hop hreplaced
  | edit host input =>
    obtain ⟨p, r, created, hp, hreplaced, rfl⟩ := edit_step_replaced host input h
    exact replaced_settled (edit_mutates sha256Hex host input fs store p hsettled.root hp) hsettled
      hop hreplaced
  | undo id maxUndoBytes => exact undo_settled hsettled hop h

theorem recovered_settled (hsettled : Settled sha256Hex maxStateBytes fs store)
    (hop : Recoverable sha256Hex maxStateBytes op fs store)
    (h : AllOrNothing sha256Hex op fs store fs' s) : Settled sha256Hex maxStateBytes fs' s := by
  rcases h with ⟨hleft, huntouched⟩ | ⟨done, hstep, hsame⟩
  · exact (hleft.settled sha256Hex maxStateBytes hsettled hop
      (written_inside hsettled.root hop)).untouched _ _ huntouched
  · exact (step_settled hsettled hop hstep).same sha256Hex maxStateBytes hsame

theorem reaches_settled (hstart : Settled sha256Hex maxStateBytes fs₀ store₀)
    (h : Reaches sha256Hex maxStateBytes fs₀ store₀ fs store) :
    Settled sha256Hex maxStateBytes fs store := by
  induction h with
  | start => exact hstart
  | completes _ hop hstep ih => exact step_settled ih hop hstep
  | crashes _ hop hcut ih => exact recovered_settled ih hop (cut_recovers ih hop hcut)

end CrashRuns

theorem sample_settled : Settled sampleSha maxPreimageBytes sampleWorkspace sampleEmptyStore where
  root := sample_opened
  bounded := by decide
  quiet := fresh_quiet sampleSha maxPreimageBytes sampleWorkspace sampleEmptyStore rfl
  standing id r hload := by
    obtain ⟨_, _, stored, hfind, _⟩ := sampleEmptyStore.load_some id r hload
    cases hfind

theorem sample_proposed : (proposed sampleSha (sampleOperation sampleId ['b'] ['a']) sampleWorkspace
    sampleEmptyStore).map (fun p => (p.target, p.bytes,
      decide (documentBytes ((preparedRecord sampleEmptyStore.limits p.creation sampleId).withState
        .abandoned) ≤ maxMetadataBytes))) = some ((["w", "f"] : Path), .text ['a'], true) := by
  decide +kernel

theorem sample_proposal (p : Proposal) (h : proposed sampleSha (sampleOperation sampleId ['b'] ['a'])
    sampleWorkspace sampleEmptyStore = some p) :
    p.target = (["w", "f"] : Path) ∧ p.bytes = .text ['a'] ∧
      documentBytes ((preparedRecord sampleEmptyStore.limits p.creation sampleId).withState
        .abandoned) ≤ maxMetadataBytes := by
  have hall := sample_proposed
  rw [h] at hall
  simpa using hall

theorem sample_written (target : Path) (bytes : FileBytes) (h : written sampleSha
    (sampleOperation sampleId ['b'] ['a']) sampleWorkspace sampleEmptyStore = some (target, bytes)) :
    target = (["w", "f"] : Path) ∧ bytes = .text ['a'] := by
  have hmap : written sampleSha (sampleOperation sampleId ['b'] ['a']) sampleWorkspace
      sampleEmptyStore = (proposed sampleSha (sampleOperation sampleId ['b'] ['a']) sampleWorkspace
        sampleEmptyStore).map fun p => (p.target, p.bytes) := rfl
  rw [hmap] at h
  obtain ⟨p, hp, hsame⟩ := Option.map_eq_some_iff.mp h
  cases hsame
  exact ⟨(sample_proposal p hp).1, (sample_proposal p hp).2.1⟩

theorem sample_recoverable : Recoverable sampleSha maxPreimageBytes
    (sampleOperation sampleId ['b'] ['a']) sampleWorkspace sampleEmptyStore where
  returns target bytes _ id r hload := by
    obtain ⟨_, _, stored, hfind, _⟩ := sampleEmptyStore.load_some id r hload
    cases hfind
  small target bytes h := by
    rw [(sample_written target bytes h).2]
    decide
  read target bytes old h hold := by
    obtain ⟨rfl, rfl⟩ := sample_written target bytes h
    cases hold
    exact ⟨by decide, by decide⟩
  directory p h := by
    rw [(sample_proposal p h).1]
    rfl
  room p id h hid := by
    rw [List.mem_singleton.mp hid]
    exact (sample_proposal p h).2.2
  applied id maxUndoBytes r h _ := by cases h
  unstaged target bytes temporary h hbeside := by
    obtain ⟨rfl, rfl⟩ := sample_written target bytes h
    obtain ⟨nonce, rfl⟩ := hbeside
    refine ⟨?_, ?_⟩
    · intro hsame
      have hlong := congrArg (fun path : Path => (path.getLast?.getD []).length) hsame
      simp only [List.getLast?_concat, Option.getD_some, List.length_append] at hlong
      have hprefix : Inspection.mutationTempPrefix.length = 18 := rfl
      have htarget : ((["w", "f"] : Path).getLast?.getD []).length = 1 := rfl
      omega
    · intro id r hload
      obtain ⟨_, _, stored, hfind, _⟩ := sampleEmptyStore.load_some id r hload
      cases hfind

/-- The staged file that a crash leaves beside the sample's target. -/
def sampleStaged : Path := ["w", Inspection.mutationTempPrefix ++ '-' :: ['1']]

theorem sample_staging :
    Staging ["w", "f"] sampleWorkspace (sampleWorkspace.setFile sampleStaged (.text [])) sampleStaged
      (.text []) where
  writable := .inr ⟨_, rfl⟩
  beside := ⟨['1'], rfl⟩
  directory := rfl
  new := by decide
  file := rfl

end Siralos.Checkpoint
