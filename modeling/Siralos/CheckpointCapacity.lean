import Siralos.EditUndo
import Mathlib.Data.Prod.Lex

/-!
# Capacity of the checkpoint store

Every run from an empty store keeps it within its bounds, with records that all verify. A creation
is then refused for want of capacity exactly when a full store holds only pending intent.
-/

set_option autoImplicit false

namespace Siralos.Checkpoint

open Workspace

variable (sha256Hex : FileBytes → Text)

structure Verifies (limits : StoreLimits) (stored : StoredRecord) : Prop where
  named : isValidCheckpointId stored.checkpoint.id = true
  parses : parseMetadata limits stored.checkpoint.id stored.metadataBytes stored.checkpoint =
    .ok stored.checkpoint
  expected : stored.unexpectedContent = false
  paired : stored.preimage.isSome = stored.checkpoint.before.fileExists
  preimage : ∃ n ≤ limits.maxPreimageBytes,
    preimageLenFor sha256Hex limits stored.checkpoint stored.preimage = .ok n

/-- All records verify and there are no more of them than the store may hold. -/
structure Sound (store : CheckpointStore) : Prop where
  records : ∀ entry ∈ store.entries, ∃ stored,
    entry = .record stored ∧ Verifies sha256Hex store.limits stored
  bounded : store.entries.length ≤ store.limits.maxCheckpoints

def maxRecordBytes (limits : StoreLimits) : ℕ := maxMetadataBytes + limits.maxPreimageBytes

theorem valid_id_starts (id : Text) (h : isValidCheckpointId id = true) :
    Text.startsWith checkpointIdPrefix id = true := by
  unfold isValidCheckpointId at h
  rw [Bool.and_eq_true] at h
  cases hstrip : Text.stripPrefix checkpointIdPrefix id with
  | none =>
    rw [hstrip] at h
    cases h.2
  | some tail => rw [Text.startsWith, hstrip, Option.isSome_some]

section Records

variable {sha256Hex} {store : CheckpointStore} {stored : StoredRecord}

theorem Sound.loads (h : Sound sha256Hex store) (hstored : .record stored ∈ store.entries) :
    store.loadMetadata stored.checkpoint.id = .ok stored.checkpoint := by
  obtain ⟨other, hother, hverifies⟩ := h.records _ hstored
  cases hother
  have hfind := find_of_mem store (.record stored) hstored
  have hname : (StoreEntry.record stored).name = stored.checkpoint.id := rfl
  rw [hname] at hfind
  rw [CheckpointStore.loadMetadata, hverifies.named, hfind]
  exact hverifies.parses

theorem Sound.record_bytes (h : Sound sha256Hex store) (entry : StoreEntry)
    (hentry : entry ∈ store.entries) :
    ∃ bytes ≤ maxRecordBytes store.limits, recordBytes sha256Hex store entry = .ok bytes := by
  obtain ⟨stored, rfl, hverifies⟩ := h.records _ hentry
  obtain ⟨n, hn, hpreimage⟩ := hverifies.preimage
  have hsmall := ((parse_metadata_iff _ _ _ _ _).mp hverifies.parses).1
  have hname : (StoreEntry.record stored).name = stored.checkpoint.id := rfl
  refine ⟨stored.metadataBytes + n, ?_, ?_⟩
  · unfold maxRecordBytes
    omega
  · have hsame : ¬ (stored.unexpectedContent = true ∨
        stored.preimage.isSome ≠ stored.checkpoint.before.fileExists) := by
      rw [hverifies.expected, hverifies.paired]
      simp
    have hleads : ¬ (!Text.startsWith checkpointIdPrefix stored.checkpoint.id) = true := by
      rw [valid_id_starts _ hverifies.named]
      simp
    unfold recordBytes
    rw [hname, if_neg hleads, h.loads hentry]
    dsimp only
    rw [if_neg hsame, hpreimage]

theorem fold_usage (cost : StoreEntry → Except CheckpointStoreError ℕ) (bound : ℕ)
    (entries : List StoreEntry)
    (h : ∀ entry ∈ entries, ∃ bytes ≤ bound, cost entry = .ok bytes) (usage : CapacityUsage) :
    ∃ bytes ≤ entries.length * bound,
      entries.foldlM (fun usage entry =>
        match cost entry with
        | .error error => .error error
        | .ok bytes => .ok ⟨usage.checkpoints + 1, usage.bytes + bytes⟩) usage =
        Except.ok (ε := CheckpointStoreError)
          ⟨usage.checkpoints + entries.length, usage.bytes + bytes⟩ := by
  induction entries generalizing usage with
  | nil => exact ⟨0, Nat.zero_le _, rfl⟩
  | cons entry rest ih =>
    obtain ⟨bytes, hbytes, hcost⟩ := h entry (by simp)
    obtain ⟨others, hothers, hrest⟩ := ih (fun other hother => h other (by simp [hother]))
      ⟨usage.checkpoints + 1, usage.bytes + bytes⟩
    refine ⟨bytes + others, ?_, ?_⟩
    · rw [List.length_cons, Nat.succ_mul]
      omega
    · rw [List.foldlM_cons, hcost]
      change List.foldlM _ _ rest = _
      rw [hrest, List.length_cons, Nat.add_assoc, Nat.add_assoc, Nat.add_comm rest.length 1]

theorem Sound.capacity (h : Sound sha256Hex store) :
    ∃ bytes ≤ store.entries.length * maxRecordBytes store.limits,
      checkpointCapacity sha256Hex store = .ok ⟨store.entries.length, bytes⟩ := by
  obtain ⟨bytes, hbytes, hfold⟩ := fold_usage (recordBytes sha256Hex store)
    (maxRecordBytes store.limits) store.entries h.record_bytes ⟨0, 0⟩
  refine ⟨bytes, hbytes, ?_⟩
  rw [Nat.zero_add, Nat.zero_add] at hfold
  exact hfold

/-- Closed records before applied ones, then by creation time, then by id. -/
def evictionKey (rank : ℕ) (r : FileCheckpoint) : ℕ ×ₗ Text ×ₗ Text :=
  toLex (rank, toLex (r.createdAt, r.id))

/-- A record that may be evicted, and no other that may be comes before it. -/
structure EvictedFirst (store : CheckpointStore) (gone : StoredRecord) (rank : ℕ) : Prop where
  stored : .record gone ∈ store.entries
  evictable : evictionRank gone.checkpoint.state = some rank
  first : ∀ other otherRank, .record other ∈ store.entries →
    evictionRank other.checkpoint.state = some otherRank →
    evictionKey rank gone.checkpoint ≤ evictionKey otherRank other.checkpoint

def candidateOf (rank : ℕ) (r : FileCheckpoint) : Candidate := ⟨rank, r.createdAt, r.id⟩

def Candidate.key (c : Candidate) : ℕ ×ₗ Text ×ₗ Text := toLex (c.rank, toLex (c.createdAt, c.id))

theorem before_iff (a b : Candidate) : a.before b = true ↔ a.key < b.key := by
  unfold Candidate.before Candidate.key
  rw [Prod.Lex.toLex_lt_toLex, Prod.Lex.toLex_lt_toLex]
  simp

theorem Sound.candidate_iff (h : Sound sha256Hex store) (c : Candidate) :
    c ∈ candidates store ↔ ∃ stored rank, .record stored ∈ store.entries ∧
      evictionRank stored.checkpoint.state = some rank ∧
      c = candidateOf rank stored.checkpoint := by
  unfold candidates
  rw [List.mem_filterMap]
  constructor
  · rintro ⟨entry, hentry, hsome⟩
    obtain ⟨stored, rfl, -⟩ := h.records _ hentry
    have hname : (StoreEntry.record stored).name = stored.checkpoint.id := rfl
    rw [hname, h.loads hentry] at hsome
    obtain ⟨rank, hrank, rfl⟩ := Option.map_eq_some_iff.mp hsome
    exact ⟨stored, rank, hentry, hrank, rfl⟩
  · rintro ⟨stored, rank, hstored, hrank, rfl⟩
    refine ⟨_, hstored, ?_⟩
    have hname : (StoreEntry.record stored).name = stored.checkpoint.id := rfl
    rw [hname, h.loads hstored]
    exact Option.map_eq_some_iff.mpr ⟨rank, hrank, rfl⟩

theorem Sound.evicts_first (h : Sound sha256Hex store) (c : Candidate)
    (hc : oldestEvictable store = some c) :
    ∃ gone rank, EvictedFirst store gone rank ∧ gone.checkpoint.id = c.id := by
  obtain ⟨-, hleast⟩ := Shedding.lowest_least Candidate.key Candidate.before (fun _ => true)
    before_iff (candidates store) none c hc
  rcases Shedding.lowest_mem _ _ _ _ _ hc with hnone | ⟨hmem, -⟩
  · cases hnone
  · obtain ⟨gone, rank, hgone, hrank, rfl⟩ := (h.candidate_iff _).mp hmem
    refine ⟨gone, rank, ⟨hgone, hrank, ?_⟩, rfl⟩
    intro other otherRank hother hotherRank
    exact hleast _ ((h.candidate_iff _).mpr ⟨other, otherRank, hother, hotherRank, rfl⟩) rfl

theorem Sound.none_evictable (h : Sound sha256Hex store) : oldestEvictable store = none ↔
    ∀ stored, .record stored ∈ store.entries → stored.checkpoint.state = .prepared := by
  constructor
  · intro hnone stored hstored
    have hrank : evictionRank stored.checkpoint.state = none := by
      cases hsome : evictionRank stored.checkpoint.state with
      | none => rfl
      | some rank =>
        have hmem := (h.candidate_iff _).mpr ⟨stored, rank, hstored, hsome, rfl⟩
        cases Shedding.lowest_none _ _ _ hnone _ hmem
    cases hstate : stored.checkpoint.state with
    | prepared => rfl
    | _ => rw [hstate] at hrank; cases hrank
  · intro hall
    cases hsome : oldestEvictable store with
    | none => rfl
    | some c =>
      obtain ⟨gone, rank, hfirst, -⟩ := h.evicts_first c hsome
      have hrank := hfirst.evictable
      rw [hall gone hfirst.stored] at hrank
      cases hrank

end Records

theorem verifies_state (limits : StoreLimits) (stored : StoredRecord) (state : CheckpointState)
    (h : Verifies sha256Hex limits stored)
    (hfits : documentBytes (stored.checkpoint.withState state) ≤ maxMetadataBytes) :
    Verifies sha256Hex limits { stored with
      checkpoint := stored.checkpoint.withState state
      metadataBytes := documentBytes (stored.checkpoint.withState state) } where
  named := h.named
  parses := parse_metadata_state limits _ _ _ _ _ state h.parses hfits
  expected := h.expected
  paired := h.paired
  preimage := h.preimage

theorem transition_sound (store store' : CheckpointStore) (id : Text) (target : CheckpointState)
    (allowed : CheckpointState → Bool) (r : FileCheckpoint) (h : Sound sha256Hex store)
    (hdone : store.transition id target allowed = .ok (store', r)) :
    Sound sha256Hex store' := by
  cases hload : store.loadMetadata id with
  | error error =>
    rw [CheckpointStore.transition, hload] at hdone
    cases hdone
  | ok loaded =>
    rw [store.transition_eq id target allowed loaded hload] at hdone
    split at hdone
    · cases hdone
    · split at hdone
      · rename_i hfits
        cases hdone
        constructor
        · intro entry hentry
          rcases Keyed.mem_update_first _ _ _ _ _ hentry with hold | ⟨old, hold, hname, rfl⟩
          · exact h.records entry hold
          · obtain ⟨stored, rfl, hverifies⟩ := h.records old hold
            have hloaded := h.loads hold
            have hid : stored.checkpoint.id = id := hname
            rw [hid, hload] at hloaded
            cases hloaded
            exact ⟨_, rfl, verifies_state sha256Hex _ stored target hverifies hfits⟩
        · have hlength : (Keyed.updateFirst StoreEntry.name id
              (rewriteEntry (loaded.withState target)) store.entries).length =
              store.entries.length := by
            rw [← List.length_map StoreEntry.name, Keyed.update_first_keys _ _ _
              (rewrite_entry_name _), List.length_map]
          exact hlength.le.trans h.bounded
      · cases hdone

theorem kept_sound (store : CheckpointStore)
    (result : Except CheckpointStoreError (CheckpointStore × FileCheckpoint))
    (h : Sound sha256Hex store)
    (hdone : ∀ store' r, result = .ok (store', r) → Sound sha256Hex store') :
    Sound sha256Hex (kept store result) := by
  cases result with
  | error error => exact h
  | ok done => exact hdone done.1 done.2 rfl

theorem remove_sound (store : CheckpointStore) (id : Text) (h : Sound sha256Hex store) :
    Sound sha256Hex (store.removeEntry id) where
  records entry hentry := h.records entry (List.mem_of_mem_filter hentry)
  bounded := (List.length_filter_le _ _).trans h.bounded

theorem prune_sound (store : CheckpointStore) (h : Sound sha256Hex store) :
    Sound sha256Hex (pruneCheckpoints sha256Hex store).2 := by
  have hrun := Shedding.run_keeps (pruning sha256Hex) (fun p => Sound sha256Hex p.store)
    (by
      intro p p' hp hnext
      obtain ⟨c, _, rfl⟩ := prune_next_some p p' hnext
      exact remove_sound sha256Hex _ _ hp)
    ⟨store, []⟩ h
  unfold pruneCheckpoints
  dsimp only
  split
  · exact hrun
  · exact hrun

section Room

variable {sha256Hex} {store store' : CheckpointStore} {r : FileCheckpoint} {preimageLen : ℕ}

theorem Sound.within (h : Sound sha256Hex store) (evicted : List Text) :
    withinBounds sha256Hex ⟨store, evicted⟩ = true ↔
      store.entries.length < store.limits.maxCheckpoints := by
  obtain ⟨bytes, hbytes, hcapacity⟩ := h.capacity
  have hstore : bytes ≤ maxStoreBytes store.limits :=
    hbytes.trans (Nat.mul_le_mul_right _ h.bounded)
  unfold withinBounds
  rw [hcapacity]
  simp [hstore]

theorem Sound.room (h : Sound sha256Hex store)
    (hneeded : documentBytes r + preimageLen ≤ maxRecordBytes store.limits)
    (hlength : store.entries.length < store.limits.maxCheckpoints) :
    ∃ usage, checkpointCapacity sha256Hex store = .ok usage ∧
      hasRoom store.limits usage (documentBytes r + preimageLen) = true := by
  obtain ⟨bytes, hbytes, hcapacity⟩ := h.capacity
  refine ⟨_, hcapacity, ?_⟩
  have hone : (store.entries.length + 1) * maxRecordBytes store.limits ≤
      maxStoreBytes store.limits := Nat.mul_le_mul_right _ hlength
  rw [Nat.succ_mul] at hone
  have hfits : bytes + (documentBytes r + preimageLen) ≤ maxStoreBytes store.limits := by omega
  simp [hasRoom, hlength, hfits]

theorem Sound.no_room (h : Sound sha256Hex store)
    (hfull : store.entries.length = store.limits.maxCheckpoints) (needed : ℕ) :
    ∃ usage, checkpointCapacity sha256Hex store = .ok usage ∧
      hasRoom store.limits usage needed = false := by
  obtain ⟨bytes, -, hcapacity⟩ := h.capacity
  refine ⟨_, hcapacity, ?_⟩
  simp [hasRoom, hfull]

theorem Sound.prunes (h : Sound sha256Hex store) :
    ∃ report, (pruneCheckpoints sha256Hex store).1 = .ok report := by
  have hsound := prune_sound sha256Hex store h
  unfold pruneCheckpoints at hsound ⊢
  dsimp only at hsound ⊢
  cases hcapacity : checkpointCapacity sha256Hex ((pruning sha256Hex).run ⟨store, []⟩).store with
  | ok usage => exact ⟨_, rfl⟩
  | error error =>
    rw [hcapacity] at hsound
    obtain ⟨bytes, -, hok⟩ := hsound.capacity
    rw [hcapacity] at hok
    cases hok

theorem prune_store : (pruneCheckpoints sha256Hex store).2 =
    ((pruning sha256Hex).run ⟨store, []⟩).store := by
  unfold pruneCheckpoints
  dsimp only
  split
  · rfl
  · rfl

theorem prune_full (hnone : oldestEvictable store = none) :
    (pruneCheckpoints sha256Hex store).2 = store := by
  have hnext : (pruning sha256Hex).next ⟨store, []⟩ = none := by
    change pruneNext ⟨store, []⟩ = none
    rw [pruneNext, hnone, Option.map_none]
  rw [prune_store, Shedding.run_stuck _ _ hnext]

theorem Sound.prune_evicts (h : Sound sha256Hex store)
    (hfull : store.entries.length = store.limits.maxCheckpoints) (c : Candidate)
    (hc : oldestEvictable store = some c) :
    (pruneCheckpoints sha256Hex store).2 = store.removeEntry c.id ∧
      (store.removeEntry c.id).entries.length < store.limits.maxCheckpoints := by
  have hdone : ¬ (pruning sha256Hex).done ⟨store, []⟩ = true := fun hdone =>
    absurd ((h.within []).mp hdone) (by omega)
  have hnext : (pruning sha256Hex).next ⟨store, []⟩ = some ⟨store.removeEntry c.id, [c.id]⟩ := by
    change pruneNext ⟨store, []⟩ = _
    rw [pruneNext, hc, Option.map_some, List.nil_append]
  have hsmaller : (store.removeEntry c.id).entries.length < store.limits.maxCheckpoints :=
    hfull ▸ (pruning sha256Hex).smaller _ _ hnext
  have hstops : (pruning sha256Hex).done ⟨store.removeEntry c.id, [c.id]⟩ = true :=
    ((remove_sound sha256Hex store c.id h).within [c.id]).mpr hsmaller
  refine ⟨?_, hsmaller⟩
  rw [prune_store, Shedding.run_next _ _ _ hdone hnext, Shedding.run_done _ _ hstops]

theorem Sound.ensure_room (h : Sound sha256Hex store)
    (hneeded : documentBytes r + preimageLen ≤ maxRecordBytes store.limits)
    (hlength : store.entries.length < store.limits.maxCheckpoints) :
    ensureCapacityFor sha256Hex store r preimageLen = (.ok (), store) := by
  obtain ⟨usage, hcapacity, hroom⟩ := h.room hneeded hlength
  simp [ensureCapacityFor, hcapacity, hroom]

theorem Sound.ensure_full (h : Sound sha256Hex store)
    (hfull : store.entries.length = store.limits.maxCheckpoints)
    (hnone : oldestEvictable store = none) :
    ∃ detail, ensureCapacityFor sha256Hex store r preimageLen =
      (.error (.capacityExceeded detail), store) := by
  obtain ⟨usage, hcapacity, hroom⟩ := h.no_room hfull (documentBytes r + preimageLen)
  obtain ⟨report, hreport⟩ := h.prunes
  have hprune : pruneCheckpoints sha256Hex store = (.ok report, store) :=
    Prod.ext hreport (prune_full hnone)
  exact ⟨_, by simp [ensureCapacityFor, hcapacity, hroom, hprune, atCapacity]; rfl⟩

theorem Sound.ensure_evicts (h : Sound sha256Hex store)
    (hneeded : documentBytes r + preimageLen ≤ maxRecordBytes store.limits)
    (hfull : store.entries.length = store.limits.maxCheckpoints) (c : Candidate)
    (hc : oldestEvictable store = some c) :
    ensureCapacityFor sha256Hex store r preimageLen = (.ok (), store.removeEntry c.id) := by
  obtain ⟨usage, hcapacity, hroom⟩ := h.no_room hfull (documentBytes r + preimageLen)
  obtain ⟨report, hreport⟩ := h.prunes
  obtain ⟨hremoved, hsmaller⟩ := h.prune_evicts hfull c hc
  have hprune : pruneCheckpoints sha256Hex store = (.ok report, store.removeEntry c.id) :=
    Prod.ext hreport hremoved
  obtain ⟨usage', hcapacity', hroom'⟩ := (remove_sound sha256Hex store c.id h).room hneeded hsmaller
  simp [ensureCapacityFor, hcapacity, hroom, hprune, hcapacity', hroom']

variable (r preimageLen) in
theorem Sound.ensured (h : Sound sha256Hex store) :
    Sound sha256Hex (ensureCapacityFor sha256Hex store r preimageLen).2 ∧
      ((ensureCapacityFor sha256Hex store r preimageLen).1 = .ok () →
        (ensureCapacityFor sha256Hex store r preimageLen).2.entries.length <
          (ensureCapacityFor sha256Hex store r preimageLen).2.limits.maxCheckpoints) := by
  have hpruned := prune_sound sha256Hex store h
  have hroom : ∀ (s : CheckpointStore) (usage : CapacityUsage) (needed : ℕ), Sound sha256Hex s →
      checkpointCapacity sha256Hex s = .ok usage → hasRoom s.limits usage needed = true →
      s.entries.length < s.limits.maxCheckpoints := by
    intro s usage needed hs hcapacity hroom
    obtain ⟨bytes, -, hok⟩ := hs.capacity
    rw [hcapacity] at hok
    cases hok
    unfold hasRoom at hroom
    rw [Bool.and_eq_true] at hroom
    simpa using hroom.1
  unfold ensureCapacityFor
  dsimp only
  split
  · exact ⟨h, fun hok => by cases hok⟩
  · rename_i usage hcapacity
    split
    · rename_i hhas
      exact ⟨h, fun _ => hroom store usage _ h hcapacity hhas⟩
    · split
      · rename_i hprune
        rw [hprune] at hpruned
        exact ⟨hpruned, fun hok => by cases hok⟩
      · rename_i hprune
        rw [hprune] at hpruned
        split
        · exact ⟨hpruned, fun hok => by cases hok⟩
        · rename_i usage' hcapacity'
          split
          · rename_i hhas
            exact ⟨hpruned, fun _ => hroom _ usage' _ hpruned hcapacity' hhas⟩
          · exact ⟨hpruned, fun hok => by cases hok⟩

end Room

section Creations

variable {sha256Hex} {limits : StoreLimits} {creation : CheckpointCreation}

theorem validated_preimage (h : validateCreation sha256Hex limits creation = .ok ()) :
    creation.beforeBytes.isSome = creation.before.fileExists ∧
      creation.preimageLen ≤ limits.maxPreimageBytes ∧
      ∀ id, preimageLenFor sha256Hex limits (preparedRecord limits creation id)
        creation.beforeBytes = .ok creation.preimageLen := by
  unfold validateCreation at h
  split at h
  · cases h
  split at h
  · cases h
  split at h
  · cases h
  split at h
  · cases h
  dsimp only at h
  cases hbytes : creation.beforeBytes with
  | none =>
    cases hexists : creation.before.fileExists with
    | false => simp [CheckpointCreation.preimageLen, preimageLenFor, preparedRecord, hbytes, hexists]
    | true => rw [hbytes, hexists] at h; cases h
  | some bytes =>
    cases hexists : creation.before.fileExists with
    | false => rw [hbytes, hexists] at h; cases h
    | true =>
      rw [hbytes, hexists] at h
      dsimp only at h
      split at h
      · cases h
      · rename_i hmatches
        rw [not_or, not_not, not_not] at hmatches
        split at h
        · cases h
        · rename_i hsmall
          have hpreimage : creation.preimageLen = bytes.length := by
            simp [CheckpointCreation.preimageLen, hbytes]
          refine ⟨rfl, by omega, ?_⟩
          intro id
          simp [preimageLenFor, preparedRecord, hexists, hpreimage, hmatches.1.symm, hmatches.2,
            hsmall]

theorem created_verifies (store : CheckpointStore) (id : Text) (h : isValidCheckpointId id = true)
    (hchecked : validateCreation sha256Hex store.limits creation = .ok ())
    (hparses : parseMetadata store.limits id (documentBytes (preparedRecord store.limits creation id))
      (preparedRecord store.limits creation id) = .ok (preparedRecord store.limits creation id)) :
    Verifies sha256Hex store.limits {
      checkpoint := preparedRecord store.limits creation id
      metadataBytes := documentBytes (preparedRecord store.limits creation id)
      preimage := creation.beforeBytes
      unexpectedContent := false } where
  named := h
  parses := hparses
  expected := rfl
  paired := (validated_preimage hchecked).1
  preimage := ⟨_, (validated_preimage hchecked).2.1, (validated_preimage hchecked).2.2 id⟩

theorem add_sound (store : CheckpointStore) (id : Text) (hsound : Sound sha256Hex store)
    (hlength : store.entries.length < store.limits.maxCheckpoints)
    (hfree : store.find id = none)
    (h : Verifies sha256Hex store.limits {
      checkpoint := preparedRecord store.limits creation id
      metadataBytes := documentBytes (preparedRecord store.limits creation id)
      preimage := creation.beforeBytes
      unexpectedContent := false }) :
    Sound sha256Hex (store.addRecord (preparedRecord store.limits creation id)
      creation.beforeBytes hfree) where
  records entry hentry := by
    rcases List.mem_append.mp hentry with hold | hnew
    · exact hsound.records entry hold
    · exact ⟨_, by simpa using hnew, h⟩
  bounded := by
    have hlonger : (store.addRecord (preparedRecord store.limits creation id)
        creation.beforeBytes hfree).entries.length = store.entries.length + 1 := by
      simp [CheckpointStore.addRecord]
    rw [hlonger]
    exact hlength

theorem mint_sound (minted : List Text) (store : CheckpointStore) (h : Sound sha256Hex store)
    (hchecked : validateCreation sha256Hex store.limits creation = .ok ()) :
    Sound sha256Hex (mintRecord sha256Hex creation store minted).2 := by
  induction minted generalizing store with
  | nil => exact h
  | cons id minted ih =>
    rw [mintRecord]
    split
    · exact ih store h hchecked
    · rename_i hvalid
      dsimp only
      have htrim := ensure_trimmed sha256Hex store (preparedRecord store.limits creation id)
        creation.preimageLen
      obtain ⟨hensured, hroom⟩ := h.ensured (preparedRecord store.limits creation id)
        creation.preimageLen
      cases hensure : ensureCapacityFor sha256Hex store (preparedRecord store.limits creation id)
          creation.preimageLen with
      | mk outcome store' =>
        rw [hensure] at htrim hensured hroom
        cases outcome with
        | error error => exact hensured
        | ok value =>
          have hlimits : store'.limits = store.limits := htrim.limits
          dsimp only at hensured hroom ⊢
          split
          · rename_i hfree
            split
            · exact hensured
            · rename_i parsed hparse
              have hparses := hparse
              rw [((parse_metadata_iff _ _ _ _ _).mp hparse).2.2] at hparses
              rw [← hlimits] at hchecked hparses ⊢
              exact add_sound store' id hensured (hroom rfl) hfree
                (created_verifies store' id (by simpa using hvalid) hchecked hparses)
          · exact ih store' hensured (hlimits ▸ hchecked)

variable (creation) in
theorem create_sound (store : CheckpointStore) (minted : List Text) (h : Sound sha256Hex store) :
    Sound sha256Hex (createCheckpoint sha256Hex store creation minted).2 := by
  unfold createCheckpoint
  split
  · exact h
  · rename_i hchecked
    exact mint_sound _ store h hchecked

end Creations

inductive StoreOp where
  | create (creation : CheckpointCreation) (minted : List Text)
  | markState (id : Text) (state : CheckpointTerminalState)
  | markUndone (id : Text)
  | prune
  deriving DecidableEq, Repr

def applyOp (store : CheckpointStore) : StoreOp → CheckpointStore
  | .create creation minted => (createCheckpoint sha256Hex store creation minted).2
  | .markState id state => kept store (store.markState id state)
  | .markUndone id => kept store (store.markUndone id)
  | .prune => (pruneCheckpoints sha256Hex store).2

def emptyStore (root : Path) (limits : StoreLimits) : CheckpointStore where
  workspaceRoot := root
  limits := limits
  entries := []
  distinct := List.nodup_nil

def runOps (root : Path) (limits : StoreLimits) (ops : List StoreOp) : CheckpointStore :=
  ops.foldl (applyOp sha256Hex) (emptyStore root limits)

theorem step_sound (store : CheckpointStore) (op : StoreOp) (h : Sound sha256Hex store) :
    Sound sha256Hex (applyOp sha256Hex store op) := by
  cases op with
  | create creation minted => exact create_sound creation store minted h
  | markState id state =>
    exact kept_sound sha256Hex store _ h fun store' r hdone =>
      transition_sound sha256Hex store store' id _ _ r h hdone
  | markUndone id =>
    exact kept_sound sha256Hex store _ h fun store' r hdone =>
      transition_sound sha256Hex store store' id _ _ r h hdone
  | prune => exact prune_sound sha256Hex store h

theorem run_sound (root : Path) (limits : StoreLimits) (ops : List StoreOp) :
    Sound sha256Hex (runOps sha256Hex root limits ops) := by
  have hempty : Sound sha256Hex (emptyStore root limits) :=
    ⟨fun _ hentry => (List.not_mem_nil hentry).elim, Nat.zero_le _⟩
  unfold runOps
  induction ops using List.reverseRecOn with
  | nil => exact hempty
  | append_singleton ops op ih =>
    rw [List.foldl_append]
    exact step_sound sha256Hex _ op ih

/-- A creation that passes validation, and whose record its writer parses back. -/
structure ValidCreation (limits : StoreLimits) (creation : CheckpointCreation)
    (minted : List Text) : Prop where
  checked : validateCreation sha256Hex limits creation = .ok ()
  storable : ∀ id ∈ minted, isValidCheckpointId id = true →
    parseMetadata limits id (documentBytes (preparedRecord limits creation id))
      (preparedRecord limits creation id) = .ok (preparedRecord limits creation id)

/-- As many records as the store may hold, every one of them pending intent. -/
def FullOfIntent (store : CheckpointStore) : Prop :=
  store.entries.length = store.limits.maxCheckpoints ∧
    ∀ entry ∈ store.entries, ∃ stored, entry = .record stored ∧
      stored.checkpoint.state = .prepared

/-- A created record after what was kept: everything, or all but the first to evict of a full
store. -/
structure CreatedWithin (store store' : CheckpointStore) (creation : CheckpointCreation)
    (r : FileCheckpoint) : Prop where
  record : r = preparedRecord store.limits creation r.id
  limits : store'.limits = store.limits
  kept :
    (store.entries.length < store.limits.maxCheckpoints ∧
      store'.entries = store.entries ++ [createdEntry creation r]) ∨
    (store.entries.length = store.limits.maxCheckpoints ∧
      ∃ gone rank, EvictedFirst store gone rank ∧
        store'.entries = store.entries.filter (fun e => e.name ≠ gone.checkpoint.id) ++
          [createdEntry creation r])

section Refusal

variable {sha256Hex} {store : CheckpointStore} {creation : CheckpointCreation}

theorem ValidCreation.tail {limits : StoreLimits} {id : Text} {minted : List Text}
    (h : ValidCreation sha256Hex limits creation (id :: minted)) :
    ValidCreation sha256Hex limits creation minted :=
  ⟨h.checked, fun other hother => h.storable other (List.mem_cons_of_mem _ hother)⟩

theorem ValidCreation.parses {limits : StoreLimits} {id : Text} {minted : List Text}
    (h : ValidCreation sha256Hex limits creation minted) (hid : id ∈ minted)
    (hvalid : isValidCheckpointId id = true) :
    parseMetadata limits (preparedRecord limits creation id).id
      (documentBytes (preparedRecord limits creation id)) (preparedRecord limits creation id) =
      .ok (preparedRecord limits creation id) := h.storable id hid hvalid

theorem ValidCreation.needed {limits : StoreLimits} {id : Text} {minted : List Text}
    (h : ValidCreation sha256Hex limits creation minted) (hid : id ∈ minted)
    (hvalid : isValidCheckpointId id = true) :
    documentBytes (preparedRecord limits creation id) + creation.preimageLen ≤
      maxRecordBytes limits := by
  have hdocument := ((parse_metadata_iff _ _ _ _ _).mp (h.storable id hid hvalid)).1
  have hpreimage := (validated_preimage h.checked).2.1
  unfold maxRecordBytes
  omega

theorem find_removed (id other : Text) (h : store.find id = none) :
    (store.removeEntry other).find id = none := by
  unfold CheckpointStore.find at h ⊢
  rw [List.find?_eq_none] at h ⊢
  intro entry hentry
  exact h entry (List.mem_of_mem_filter hentry)

theorem Sound.mint_room (minted : List Text) (h : Sound sha256Hex store)
    (hlength : store.entries.length < store.limits.maxCheckpoints)
    (hvalid : ValidCreation sha256Hex store.limits creation minted)
    (hfree : ∃ id ∈ minted, isValidCheckpointId id = true ∧ store.find id = none) :
    ∃ id store', mintRecord sha256Hex creation store minted =
        (.ok (preparedRecord store.limits creation id), store') ∧
      store'.limits = store.limits ∧ store'.entries = store.entries ++
        [createdEntry creation (preparedRecord store.limits creation id)] := by
  induction minted with
  | nil =>
    obtain ⟨id, hid, -⟩ := hfree
    cases hid
  | cons id minted ih =>
    rw [mintRecord]
    have hlater := (List.or_exists_of_exists_mem_cons hfree).resolve_left
    by_cases hnamed : isValidCheckpointId id = true
    · rw [if_neg (by simp [hnamed])]
      dsimp only
      rw [h.ensure_room (hvalid.needed (by simp) hnamed) hlength]
      dsimp only
      by_cases hempty : store.find (preparedRecord store.limits creation id).id = none
      · rw [dif_pos hempty, hvalid.parses (by simp) hnamed]
        exact ⟨id, _, rfl, rfl, rfl⟩
      · rw [dif_neg hempty]
        exact ih hvalid.tail (hlater fun hok => hempty hok.2)
    · rw [if_pos (by simp [hnamed])]
      exact ih hvalid.tail (hlater fun hok => hnamed hok.1)

theorem Sound.mint_evicts (minted : List Text) (h : Sound sha256Hex store)
    (hfull : store.entries.length = store.limits.maxCheckpoints) (c : Candidate)
    (hc : oldestEvictable store = some c)
    (hvalid : ValidCreation sha256Hex store.limits creation minted)
    (hfree : ∃ id ∈ minted, isValidCheckpointId id = true ∧ store.find id = none) :
    ∃ id store', mintRecord sha256Hex creation store minted =
        (.ok (preparedRecord store.limits creation id), store') ∧
      store'.limits = store.limits ∧ store'.entries = (store.removeEntry c.id).entries ++
        [createdEntry creation (preparedRecord store.limits creation id)] := by
  have hremoved := remove_sound sha256Hex store c.id h
  have hsmaller := (h.prune_evicts hfull c hc).2
  induction minted with
  | nil =>
    obtain ⟨id, hid, -⟩ := hfree
    cases hid
  | cons id minted ih =>
    rw [mintRecord]
    have hlater := (List.or_exists_of_exists_mem_cons hfree).resolve_left
    by_cases hnamed : isValidCheckpointId id = true
    · rw [if_neg (by simp [hnamed])]
      dsimp only
      rw [h.ensure_evicts (hvalid.needed (by simp) hnamed) hfull c hc]
      dsimp only
      have hlimits : (store.removeEntry c.id).limits = store.limits := rfl
      by_cases hempty : (store.removeEntry c.id).find (preparedRecord store.limits creation id).id =
          none
      · rw [dif_pos hempty, hlimits, hvalid.parses (by simp) hnamed]
        exact ⟨id, _, rfl, rfl, rfl⟩
      · rw [dif_neg hempty]
        -- the store has room by now, so that a collision evicts nothing more
        have hnot : ¬ (isValidCheckpointId id = true ∧ store.find id = none) := fun hok =>
          hempty (find_removed id c.id hok.2)
        obtain ⟨other, hother, hok, hgone⟩ := hlater hnot
        exact hremoved.mint_room minted hsmaller hvalid.tail
          ⟨other, hother, hok, find_removed other c.id hgone⟩
    · rw [if_pos (by simp [hnamed])]
      exact ih hvalid.tail (hlater fun hok => hnamed hok.1)

theorem Sound.mint_full (minted : List Text) (h : Sound sha256Hex store)
    (hfull : store.entries.length = store.limits.maxCheckpoints)
    (hnone : oldestEvictable store = none)
    (hnamed : ∃ id ∈ minted, isValidCheckpointId id = true) :
    ∃ detail, mintRecord sha256Hex creation store minted =
      (.error (.capacityExceeded detail), store) := by
  induction minted with
  | nil =>
    obtain ⟨id, hid, -⟩ := hnamed
    cases hid
  | cons id minted ih =>
    rw [mintRecord]
    by_cases hvalid : isValidCheckpointId id = true
    · obtain ⟨detail, hensure⟩ := h.ensure_full (r := preparedRecord store.limits creation id)
        hfull hnone
      refine ⟨detail, ?_⟩
      rw [if_neg (by simp [hvalid])]
      dsimp only
      rw [hensure]
    · rw [if_pos (by simp [hvalid])]
      exact ih ((List.or_exists_of_exists_mem_cons hnamed).resolve_left hvalid)

theorem Sound.full_of_intent (h : Sound sha256Hex store) : FullOfIntent store ↔
    store.entries.length = store.limits.maxCheckpoints ∧ oldestEvictable store = none := by
  unfold FullOfIntent
  rw [h.none_evictable]
  apply and_congr_right
  intro _
  constructor
  · intro hall stored hstored
    obtain ⟨other, hother, hstate⟩ := hall _ hstored
    cases hother
    exact hstate
  · intro hall entry hentry
    obtain ⟨stored, rfl, -⟩ := h.records entry hentry
    exact ⟨stored, rfl, hall stored hentry⟩

end Refusal

/-- A creation of a reachable store is refused for want of capacity exactly when the store is full
of pending intent. Any other creation makes room by at most one eviction, within both bounds. -/
theorem creation_capacity (root : Path) (limits : StoreLimits) (ops : List StoreOp)
    (creation : CheckpointCreation) (minted : List Text) (store : CheckpointStore)
    (hstore : runOps sha256Hex root limits ops = store)
    (hvalid : ValidCreation sha256Hex store.limits creation minted)
    (hfree : ∃ id ∈ minted.take maxIdAttempts,
      isValidCheckpointId id = true ∧ store.find id = none) :
    (FullOfIntent store → ∃ detail, createCheckpoint sha256Hex store creation minted =
      (.error (.capacityExceeded detail), store)) ∧
    (¬ FullOfIntent store → ∃ r store' usage,
      createCheckpoint sha256Hex store creation minted = (.ok r, store') ∧
        CreatedWithin store store' creation r ∧
        checkpointCapacity sha256Hex store' = .ok usage ∧
        usage.checkpoints ≤ store.limits.maxCheckpoints ∧
        usage.bytes ≤ maxStoreBytes store.limits) ∧
    ∃ report, (pruneCheckpoints sha256Hex store).1 = .ok report := by
  have h : Sound sha256Hex store := hstore ▸ run_sound sha256Hex root limits ops
  have hcreate : createCheckpoint sha256Hex store creation minted =
      mintRecord sha256Hex creation store (minted.take maxIdAttempts) := by
    rw [createCheckpoint, hvalid.checked]
  have htaken : ValidCreation sha256Hex store.limits creation (minted.take maxIdAttempts) :=
    ⟨hvalid.checked, fun id hid => hvalid.storable id (List.mem_of_mem_take hid)⟩
  refine ⟨?_, ?_, h.prunes⟩
  · intro hintent
    obtain ⟨hfull, hnone⟩ := h.full_of_intent.mp hintent
    obtain ⟨id, hid, hnamed, -⟩ := hfree
    rw [hcreate]
    exact h.mint_full _ hfull hnone ⟨id, hid, hnamed⟩
  · intro hintent
    have hwithin : ∃ id store', mintRecord sha256Hex creation store (minted.take maxIdAttempts) =
        (.ok (preparedRecord store.limits creation id), store') ∧
        CreatedWithin store store' creation (preparedRecord store.limits creation id) := by
      by_cases hlength : store.entries.length < store.limits.maxCheckpoints
      · obtain ⟨id, store', hmint, hlimits, hentries⟩ := h.mint_room _ hlength htaken hfree
        exact ⟨id, store', hmint, rfl, hlimits, .inl ⟨hlength, hentries⟩⟩
      · have hfull : store.entries.length = store.limits.maxCheckpoints :=
          Nat.le_antisymm h.bounded (by omega)
        cases holdest : oldestEvictable store with
        | none => exact absurd (h.full_of_intent.mpr ⟨hfull, holdest⟩) hintent
        | some c =>
          obtain ⟨id, store', hmint, hlimits, hentries⟩ :=
            h.mint_evicts _ hfull c holdest htaken hfree
          obtain ⟨gone, rank, hfirst, hid⟩ := h.evicts_first c holdest
          refine ⟨id, store', hmint, rfl, hlimits, .inr ⟨hfull, gone, rank, hfirst, ?_⟩⟩
          rw [hid]
          exact hentries
    obtain ⟨id, store', hmint, hcreated⟩ := hwithin
    have hsound := create_sound creation store minted h
    rw [hcreate, hmint] at hsound
    obtain ⟨bytes, hbytes, hcapacity⟩ := hsound.capacity
    dsimp only at hbytes hcapacity
    have hbounded := hsound.bounded
    rw [hcreated.limits] at hbytes hbounded
    refine ⟨_, store', _, hcreate.trans hmint, hcreated, hcapacity, hbounded, ?_⟩
    exact hbytes.trans (Nat.mul_le_mul_right _ hbounded)

def sampleCreation : CheckpointCreation where
  relativePath := "f"
  operation := .create
  toolName := "write"
  createdAt := "1.0"
  before := absentState
  beforeBytes := none
  after := presentState sampleSha (.text ['a'])
  preview := ⟨1, 0⟩

def sampleFull : CheckpointStore :=
  runOps sampleSha ["w"] ⟨"w", maxPreimageBytes, 1⟩
    [.create sampleCreation [sampleId], .markState sampleId .applied]

def sampleNextId : Text := "cp_9876543210"

theorem creation_capacity_sample : ¬ FullOfIntent sampleFull ∧ ∃ r store' usage,
    createCheckpoint sampleSha sampleFull sampleCreation [sampleNextId] = (.ok r, store') ∧
      CreatedWithin sampleFull store' sampleCreation r ∧
      checkpointCapacity sampleSha store' = .ok usage ∧
      usage.checkpoints ≤ sampleFull.limits.maxCheckpoints ∧
      usage.bytes ≤ maxStoreBytes sampleFull.limits := by
  have hrun : (∃ entry ∈ sampleFull.entries, loadEntry sampleFull.limits sampleId entry =
        .ok ((preparedRecord sampleFull.limits sampleCreation sampleId).withState .applied)) ∧
      documentBytes (preparedRecord sampleFull.limits sampleCreation sampleNextId) ≤
        maxMetadataBytes ∧
      checkFields sampleFull.limits sampleNextId
        (preparedRecord sampleFull.limits sampleCreation sampleNextId) = .ok () ∧
      sampleFull.find sampleNextId = none := by decide +kernel
  obtain ⟨⟨entry, hentry, hload⟩, hfits, hfields, hfree⟩ := hrun
  have hintent : ¬ FullOfIntent sampleFull := by
    intro hfull
    obtain ⟨stored, rfl, hstate⟩ := hfull.2 entry hentry
    have hloaded := (parse_metadata_ok _ _ _ _ _ hload).1
    rw [← hloaded] at hstate
    cases hstate
  have hvalid : ValidCreation sampleSha sampleFull.limits sampleCreation [sampleNextId] := by
    refine ⟨by decide, ?_⟩
    intro id hid hnamed
    rw [List.mem_singleton] at hid
    subst hid
    exact (parse_metadata_iff _ _ _ _ _).mpr ⟨hfits, hfields, rfl⟩
  exact ⟨hintent, (creation_capacity sampleSha ["w"] ⟨"w", maxPreimageBytes, 1⟩
    [.create sampleCreation [sampleId], .markState sampleId .applied] sampleCreation
    [sampleNextId] sampleFull rfl hvalid ⟨sampleNextId, by simp [maxIdAttempts], by decide,
      hfree⟩).2.1 hintent⟩

end Siralos.Checkpoint
