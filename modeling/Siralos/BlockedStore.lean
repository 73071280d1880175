import Siralos.CrashRecovery

/-!
# A store that cannot be verified

A crash in the middle of a creation leaves a directory without a record, and one in the middle of a
marking a staged document beside the old one. The capacity of the store is unknown from then on:
nothing is evicted to get past it, no later operation or start removes it, and every write and edit
is refused without an effect.
-/

set_option autoImplicit false

namespace Siralos.Checkpoint

open Siralos.Workspace Siralos.Conversation

/-- An entry that does not verify, whatever state its record is marked with: it holds no record that
loads, or its directory holds a stray file or not the preimage that its record speaks of. -/
inductive Unverifiable : StoreEntry → Prop
  | unreadable (name : Text) (isDirectory : Bool) (failure : CheckpointStoreError) :
      Unverifiable (.unreadable name isDirectory failure)
  | stray {stored : StoredRecord} (h : stored.unexpectedContent = true) :
      Unverifiable (.record stored)
  | unpaired {stored : StoredRecord}
      (h : stored.preimage.isSome ≠ stored.checkpoint.before.fileExists) :
      Unverifiable (.record stored)

/-- The entry itself, or its record marked with another state. -/
inductive Remarked : StoreEntry → StoreEntry → Prop
  | same (entry : StoreEntry) : Remarked entry entry
  | state (stored : StoredRecord) (state : CheckpointState) (metadataBytes : ℕ) :
      Remarked (.record stored)
        (.record { stored with checkpoint := stored.checkpoint.withState state, metadataBytes })

theorem Remarked.trans {a b c : StoreEntry} (hab : Remarked a b) (hbc : Remarked b c) :
    Remarked a c := by
  cases hbc with
  | same => exact hab
  | state stored state metadataBytes =>
    cases hab with
    | same => exact .state stored state metadataBytes
    | state old oldState oldBytes => exact .state old state metadataBytes

theorem Remarked.unverifiable {a b : StoreEntry} (h : Remarked a b) (ha : Unverifiable a) :
    Unverifiable b := by
  cases h with
  | same => exact ha
  | state stored state metadataBytes =>
    cases ha with
    | stray hstray => exact .stray hstray
    | unpaired hunpaired => exact .unpaired hunpaired

/-- The entry of a name does not verify. -/
def Blocked (store : CheckpointStore) (name : Text) : Prop :=
  ∃ entry, store.find name = some entry ∧ Unverifiable entry

/-- No entry is gone, and none has more than its state changed. -/
def Lasting (store s : CheckpointStore) : Prop :=
  ∀ name entry, store.find name = some entry → ∃ later, s.find name = some later ∧
    Remarked entry later

theorem Lasting.refl (store : CheckpointStore) : Lasting store store :=
  fun _ entry hfind => ⟨entry, hfind, .same entry⟩

theorem Lasting.trans {store s t : CheckpointStore} (h : Lasting store s) (ht : Lasting s t) :
    Lasting store t := by
  intro name entry hfind
  obtain ⟨later, hlater, hremarked⟩ := h name entry hfind
  obtain ⟨last, hlast, hagain⟩ := ht name later hlater
  exact ⟨last, hlast, hremarked.trans hagain⟩

theorem Lasting.blocked {store s : CheckpointStore} {name : Text} (h : Lasting store s)
    (hblocked : Blocked store name) : Blocked s name := by
  obtain ⟨entry, hfind, hunverifiable⟩ := hblocked
  obtain ⟨later, hlater, hremarked⟩ := h name entry hfind
  exact ⟨later, hlater, hremarked.unverifiable hunverifiable⟩

theorem claim_blocked (store : CheckpointStore) (id : Text) (hfree : store.find id = none) :
    Blocked (store.claim id hfree) id :=
  ⟨_, find_of_mem (store.claim id hfree) _ (List.mem_append_right _ (List.mem_singleton.mpr rfl)),
    .unreadable id true _⟩

theorem staging_blocked (store : CheckpointStore) (id : Text) (stored : StoredRecord)
    (hfind : store.find id = some (.record stored)) : Blocked (store.staging id) id := by
  refine ⟨withStaged (.record stored), ?_, .stray rfl⟩
  rw [CheckpointStore.staging, find_set_entry, hfind, Option.map_some, if_pos rfl]

theorem transition_lasting (store : CheckpointStore) (id : Text) (target : CheckpointState)
    (allowed : CheckpointState → Bool) :
    Lasting store (kept store (store.transition id target allowed)) := by
  cases hload : store.loadMetadata id with
  | error error =>
    rw [CheckpointStore.transition, hload]
    exact .refl store
  | ok r =>
    obtain ⟨_, hid, stored, hstored, hrecord, _⟩ := store.load_some id r hload
    rw [store.transition_eq id target allowed r hload]
    split
    · exact .refl store
    · split
      · intro name entry hfind
        rw [kept, find_set_entry, hfind, Option.map_some]
        by_cases hname : name = id
        · rw [if_pos hname]
          rw [hname, hstored] at hfind
          cases hfind
          subst hrecord
          exact ⟨_, rfl, .state stored target _⟩
        · rw [if_neg hname]
          exact ⟨entry, rfl, .same entry⟩
      · exact .refl store

section Blocked

variable (sha256Hex : FileBytes → Text)

theorem unverifiable_bytes (store : CheckpointStore) (entry : StoreEntry)
    (hentry : entry ∈ store.entries) (h : Unverifiable entry) :
    ∃ error, recordBytes sha256Hex store entry = .error error := by
  unfold recordBytes
  split
  · exact ⟨_, rfl⟩
  · cases hload : store.loadMetadata entry.name with
    | error error => exact ⟨_, rfl⟩
    | ok r =>
      obtain ⟨_, _, loaded, hfind, hrecord, _⟩ := store.load_some entry.name r hload
      rw [find_of_mem store entry hentry, Option.some.injEq] at hfind
      subst hfind hrecord
      dsimp only
      cases h with
      | stray hstray =>
        rw [if_pos (.inl hstray)]
        exact ⟨_, rfl⟩
      | unpaired hunpaired =>
        rw [if_pos (.inr hunpaired)]
        exact ⟨_, rfl⟩

theorem fold_fails (cost : StoreEntry → Except CheckpointStoreError ℕ) (entries : List StoreEntry)
    (entry : StoreEntry) (hmem : entry ∈ entries) (hcost : ∃ error, cost entry = .error error)
    (usage : CapacityUsage) : ∃ error, entries.foldlM (fun usage entry =>
      match cost entry with
      | .error error => Except.error error
      | .ok bytes => .ok (⟨usage.checkpoints + 1, usage.bytes + bytes⟩ : CapacityUsage)) usage =
        .error error := by
  induction entries generalizing usage with
  | nil => cases hmem
  | cons first rest ih =>
    rw [List.foldlM_cons]
    cases hfirst : cost first with
    | error error => exact ⟨error, rfl⟩
    | ok bytes =>
      rcases List.mem_cons.mp hmem with rfl | hrest
      · obtain ⟨error, herror⟩ := hcost
        rw [hfirst] at herror
        cases herror
      · exact ih hrest _

variable {name : Text}

theorem blocked_capacity (store : CheckpointStore) (h : Blocked store name) :
    ∃ error, checkpointCapacity sha256Hex store = .error error := by
  obtain ⟨entry, hfind, hunverifiable⟩ := h
  obtain ⟨hmem, _⟩ := find_mem store name entry hfind
  exact fold_fails _ store.entries entry hmem
    (unverifiable_bytes sha256Hex store entry hmem hunverifiable) _

theorem blocked_mints (store : CheckpointStore) (creation : CheckpointCreation)
    (minted : List Text) (h : Blocked store name) :
    ∃ error, mintRecord sha256Hex creation store minted = (.error error, store) := by
  obtain ⟨error, hcapacity⟩ := blocked_capacity sha256Hex store h
  induction minted with
  | nil => exact ⟨_, rfl⟩
  | cons id minted ih =>
    rw [mintRecord]
    split
    · exact ih
    · refine ⟨error, ?_⟩
      unfold ensureCapacityFor
      dsimp only
      rw [hcapacity]

theorem blocked_creates (store : CheckpointStore) (creation : CheckpointCreation)
    (minted : List Text) (h : Blocked store name) :
    ∃ error, createCheckpoint sha256Hex store creation minted = (.error error, store) := by
  unfold createCheckpoint
  split
  · exact ⟨_, rfl⟩
  · exact blocked_mints sha256Hex store creation _ h

/-- A mutation that had no effect and reports none. -/
def Refused (fs : FileSystem) (store : CheckpointStore) (done : MutationResult) : Prop :=
  done.fs = fs ∧ done.store = store ∧ ∀ output summary, done.result ≠ .success output summary

theorem blocked_refuses (host : MutationHost) (fs : FileSystem) (store : CheckpointStore)
    (summary : Proposal → Text) (proposed : Except ToolExecutionResult Proposal)
    (done : MutationResult) (hdone : done = match proposed with
      | .error result => ⟨result, fs, store⟩
      | .ok p => applyProposal sha256Hex host fs store (summary p) p)
    (hrefusing : Refusing proposed) (h : Blocked store name) : Refused fs store done := by
  subst hdone
  cases proposed with
  | error result =>
    refine ⟨rfl, rfl, ?_⟩
    intro output text hsuccess
    exact hrefusing output text (congrArg Except.error hsuccess)
  | ok p =>
    obtain ⟨error, hcreate⟩ := blocked_creates sha256Hex store p.creation host.minted h
    simp [Refused, applyProposal, hcreate]

theorem blocked_write (host : MutationHost) (fs : FileSystem) (store : CheckpointStore)
    (input : Json.Value) (h : Blocked store name) :
    Refused fs store (executeWrite sha256Hex host fs store input) :=
  blocked_refuses sha256Hex host fs store _ _ _ rfl
    (propose_write_refusing sha256Hex host fs store.workspaceRoot input) h

theorem blocked_edit (host : MutationHost) (fs : FileSystem) (store : CheckpointStore)
    (input : Json.Value) (h : Blocked store name) :
    Refused fs store (executeEdit sha256Hex host fs store input) :=
  blocked_refuses sha256Hex host fs store _ _ _ rfl
    (propose_edit_refusing sha256Hex host fs store.workspaceRoot input) h

theorem finish_lasting (store : CheckpointStore) (fs : FileSystem) (r : FileCheckpoint)
    (outcome : UndoApplyOutcome) : Lasting store (finishUndo store fs r outcome).store := by
  have hmark : Lasting store (kept store (store.markUndone r.id)) :=
    transition_lasting store r.id .undone CheckpointStore.undoable
  unfold finishUndo
  cases hundone : store.markUndone r.id with
  | error error => exact .refl store
  | ok marked =>
    rw [hundone] at hmark
    exact hmark

theorem undo_lasting (fs : FileSystem) (store : CheckpointStore) (id : Text) (maxStateBytes : ℕ) :
    Lasting store (applyUndo sha256Hex store fs id maxStateBytes).store := by
  unfold applyUndo
  split
  · exact .refl store
  · split
    · unfold restoreBefore
      split
      · exact .refl store
      · split
        · exact .refl store
        · exact finish_lasting store _ _ _
    · unfold recreateBefore
      split
      · exact .refl store
      · exact finish_lasting store _ _ _
    · exact .refl store
    · exact .refl store

theorem reconcile_lasting (fs : FileSystem) (store : CheckpointStore) (maxStateBytes : ℕ) :
    Lasting store (restart sha256Hex maxStateBytes fs store) := by
  have hturns : ∀ (pending : List FileCheckpoint)
      (progress : CheckpointStore × ReconciliationReport), Lasting store progress.1 →
      Lasting store (pending.foldl (reconcileOne sha256Hex fs maxStateBytes) progress).1 := by
    intro pending
    induction pending with
    | nil => exact fun _ hlasting => hlasting
    | cons r pending ih =>
      intro progress hlasting
      rw [List.foldl_cons]
      apply ih
      unfold reconcileOne
      dsimp only
      split
      · exact hlasting
      · dsimp only
        rw [persist_transition]
        exact hlasting.trans (transition_lasting _ _ _ _)
  exact hturns _ _ (.refl store)

inductive Later where
  | operation (op : Operation)
  | restarts (maxStateBytes : ℕ)

def perform (fs : FileSystem) (store : CheckpointStore) : Later → FileSystem × CheckpointStore
  | .operation (.write host input) =>
    let done := executeWrite sha256Hex host fs store input
    (done.fs, done.store)
  | .operation (.edit host input) =>
    let done := executeEdit sha256Hex host fs store input
    (done.fs, done.store)
  | .operation (.undo id maxStateBytes) =>
    let done := applyUndo sha256Hex store fs id maxStateBytes
    (done.fs, done.store)
  | .restarts maxStateBytes => (fs, restart sha256Hex maxStateBytes fs store)

def performAll (fs : FileSystem) (store : CheckpointStore) (later : List Later) :
    FileSystem × CheckpointStore :=
  later.foldl (fun reached event => perform sha256Hex reached.1 reached.2 event) (fs, store)

theorem perform_lasting (fs : FileSystem) (store : CheckpointStore) (event : Later)
    (h : Blocked store name) : Lasting store (perform sha256Hex fs store event).2 := by
  cases event with
  | restarts maxStateBytes => exact reconcile_lasting sha256Hex fs store maxStateBytes
  | operation op =>
    cases op with
    | write host input =>
      have hstore := (blocked_write sha256Hex host fs store input h).2.1
      change Lasting store (executeWrite sha256Hex host fs store input).store
      rw [hstore]
      exact .refl store
    | edit host input =>
      have hstore := (blocked_edit sha256Hex host fs store input h).2.1
      change Lasting store (executeEdit sha256Hex host fs store input).store
      rw [hstore]
      exact .refl store
    | undo id maxStateBytes => exact undo_lasting sha256Hex fs store id maxStateBytes

theorem all_lasting (fs : FileSystem) (store : CheckpointStore) (later : List Later)
    (h : Blocked store name) : Lasting store (performAll sha256Hex fs store later).2 := by
  induction later generalizing fs store with
  | nil => exact .refl store
  | cons event later ih =>
    have hfirst := perform_lasting sha256Hex fs store event h
    exact hfirst.trans (ih _ _ (hfirst.blocked h))

end Blocked

/-- Once an entry of the store does not verify, no operation and no start ever clears it or removes
any other, and every later write and edit is refused and changes nothing. -/
theorem blocked_refuses_ever_after (sha256Hex : FileBytes → Text) (fs : FileSystem)
    (store : CheckpointStore) (name : Text) (h : Blocked store name) (later : List Later)
    (host : MutationHost) (input : Json.Value) :
    let reached := performAll sha256Hex fs store later
    Blocked reached.2 name ∧ Lasting store reached.2 ∧
      Refused reached.1 reached.2 (executeWrite sha256Hex host reached.1 reached.2 input) ∧
      Refused reached.1 reached.2 (executeEdit sha256Hex host reached.1 reached.2 input) := by
  have hlasting := all_lasting sha256Hex fs store later h
  have hblocked := hlasting.blocked h
  exact ⟨hblocked, hlasting, blocked_write sha256Hex host _ _ input hblocked,
    blocked_edit sha256Hex host _ _ input hblocked⟩

/-- What may come after a crash in the middle of the first creation. -/
def sampleLater : List Later :=
  [.restarts maxPreimageBytes, .operation (sampleOperation "cp_9876543210" ['b'] ['a']),
    .operation (.undo sampleId maxPreimageBytes), .restarts maxPreimageBytes]

theorem claimed_refuses :
    let reached := performAll sampleSha sampleWorkspace (sampleEmptyStore.claim sampleId rfl)
      sampleLater
    Blocked reached.2 sampleId ∧ Lasting (sampleEmptyStore.claim sampleId rfl) reached.2 ∧
      Refused reached.1 reached.2 (executeEdit sampleSha ⟨false, some "1.0", [sampleId]⟩ reached.1
        reached.2 (sampleEdit ['b'] ['a']).input) := by
  have hrefuses := blocked_refuses_ever_after sampleSha sampleWorkspace
    (sampleEmptyStore.claim sampleId rfl) sampleId (claim_blocked sampleEmptyStore sampleId rfl)
    sampleLater ⟨false, some "1.0", [sampleId]⟩ (sampleEdit ['b'] ['a']).input
  exact ⟨hrefuses.1, hrefuses.2.1, hrefuses.2.2.2⟩

end Siralos.Checkpoint
