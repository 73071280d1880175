import Siralos.EditUndo

/-!
# Runs of edits, undone from the last one back

Each edit leaves its file held by its record. Undoing the later edits gives back the workspace
that this edit left, so that the records are undone one after the other.
-/

set_option autoImplicit false

namespace Siralos.Checkpoint

open Siralos.Workspace Siralos.Conversation

variable (sha256Hex : FileBytes → Text)

def runEdits : List EditCall → FileSystem → CheckpointStore →
    Option (List Edited × FileSystem × CheckpointStore)
  | [], fs, store => some ([], fs, store)
  | call :: calls, fs, store =>
    match editOnce sha256Hex call fs store with
    | none => none
    | some (done, fs', store') =>
      (runEdits calls fs' store').map fun run => (done :: run.1, run.2)

/-- Undoes one checkpoint after the other, as long as each undo restores. -/
def undoInOrder : List Text → FileSystem → CheckpointStore → Option (FileSystem × CheckpointStore)
  | [], fs, store => some (fs, store)
  | id :: ids, fs, store =>
    let result := applyUndo sha256Hex store fs id maxPreimageBytes
    if result.outcome = .ok (.restored id) then undoInOrder ids result.fs result.store else none

def undoOrder (edits : List Edited) : List Text := (edits.map Edited.id).reverse

theorem undo_in_order_append (ids rest : List Text) (fs : FileSystem) (store : CheckpointStore) :
    undoInOrder sha256Hex (ids ++ rest) fs store =
      (undoInOrder sha256Hex ids fs store).bind fun s => undoInOrder sha256Hex rest s.1 s.2 := by
  induction ids generalizing fs store with
  | nil => rfl
  | cons id ids ih =>
    rw [List.cons_append, undoInOrder, undoInOrder]
    split
    · exact ih _ _
    · rfl

theorem run_edits_cons (call : EditCall) (calls : List EditCall) (fs fs' : FileSystem)
    (store store' : CheckpointStore) (edits : List Edited)
    (h : runEdits sha256Hex (call :: calls) fs store = some (edits, fs', store')) :
    ∃ done fs₁ store₁ rest, editOnce sha256Hex call fs store = some (done, fs₁, store₁) ∧
      runEdits sha256Hex calls fs₁ store₁ = some (rest, fs', store') ∧ edits = done :: rest := by
  rw [runEdits] at h
  split at h
  · cases h
  · rename_i done fs₁ store₁ hdone
    obtain ⟨⟨rest, last⟩, hrun, heq⟩ := Option.map_eq_some_iff.mp h
    cases heq
    exact ⟨done, fs₁, store₁, rest, hdone, hrun, rfl⟩

/-- Every record of the run is of its own and still stands at its end, and no new content is
larger than what the state reader takes. -/
structure Undoable (edits : List Edited) (store : CheckpointStore) : Prop where
  small : ∀ e ∈ edits, e.new.length ≤ maxPreimageBytes
  own : (edits.map Edited.id).Nodup
  standing : ∀ e ∈ edits, (store.find e.id).isSome = true

theorem undoable_cons (done : Edited) (edits : List Edited) (store : CheckpointStore) :
    Undoable (done :: edits) store ↔ Undoable edits store ∧ done.id ∉ edits.map Edited.id ∧
      done.new.length ≤ maxPreimageBytes ∧ (store.find done.id).isSome = true := by
  constructor
  · rintro ⟨hsmall, hown, hstanding⟩
    obtain ⟨hnew, hrest⟩ := List.nodup_cons.mp hown
    exact ⟨⟨fun e he => hsmall e (by simp [he]), hrest, fun e he => hstanding e (by simp [he])⟩,
      hnew, hsmall done (by simp), hstanding done (by simp)⟩
  · rintro ⟨⟨hsmall, hown, hstanding⟩, hnew, hlength, hdone⟩
    refine ⟨?_, List.nodup_cons.mpr ⟨hnew, hown⟩, ?_⟩
    · intro e he
      rcases List.mem_cons.mp he with rfl | he
      · exact hlength
      · exact hsmall e he
    · intro e he
      rcases List.mem_cons.mp he with rfl | he
      · exact hdone
      · exact hstanding e he

/-- The records of the other edits, from the start of a run to its end. -/
structure RunKept (edits : List Edited) (store store' : CheckpointStore) : Prop where
  root : store'.workspaceRoot = store.workspaceRoot
  limits : store'.limits = store.limits
  record : ∀ id entry, id ∉ edits.map Edited.id → store'.find id = some entry →
    store.find id = some entry

theorem run_kept (calls : List EditCall) (fs fs' : FileSystem) (store store' : CheckpointStore)
    (edits : List Edited) (hroot : Opened fs store.workspaceRoot)
    (h : runEdits sha256Hex calls fs store = some (edits, fs', store')) :
    RunKept edits store store' := by
  induction calls generalizing fs store edits with
  | nil =>
    cases h
    exact ⟨rfl, rfl, fun _ _ _ hfind => hfind⟩
  | cons call calls ih =>
    obtain ⟨done, fs₁, store₁, rest, hdone, hrest, rfl⟩ := run_edits_cons sha256Hex call calls fs
      fs' store store' edits h
    have hleaves := edit_leaves sha256Hex call fs fs₁ store store₁ done hroot hdone
    have hopened := edit_opened sha256Hex fs fs₁ store store₁ done hroot hleaves
    have hkept := ih fs₁ store₁ rest hopened hrest
    refine ⟨hkept.root.trans hleaves.root, hkept.limits.trans hleaves.limits, ?_⟩
    intro id entry hid hfind
    rw [List.map_cons, List.mem_cons, not_or] at hid
    exact hleaves.others id entry hid.1 (hkept.record id entry hid.2 hfind)

/-- What undoing a run leaves of the store: its records undone, the others as they were. -/
structure RunUndone (edits : List Edited) (store store' : CheckpointStore) : Prop where
  root : store'.workspaceRoot = store.workspaceRoot
  limits : store'.limits = store.limits
  marked : ∀ e ∈ edits, MarkedUndone store' e.id
  record : ∀ id, id ∉ edits.map Edited.id → store'.find id = store.find id

theorem suffix_undisturbed (done : Edited) (edits : List Edited) (fs : FileSystem)
    (store₁ store store' : CheckpointStore) (hkept : RunKept edits store₁ store)
    (hundone : RunUndone edits store store') (hown : done.id ∉ edits.map Edited.id) :
    Undisturbed done.id done.target fs fs store₁ store' where
  root := hundone.root.trans hkept.root
  limits := hundone.limits.trans hkept.limits
  paths _ _ := rfl
  record entry hfind := hkept.record done.id entry hown ((hundone.record done.id hown) ▸ hfind)

theorem marked_remark (store : CheckpointStore) (id other : Text) (r : FileCheckpoint)
    (hne : other ≠ id) (h : MarkedUndone store other) :
    MarkedUndone (store.remark id r .undone) other := by
  obtain ⟨r', hload, hstate⟩ := h
  refine ⟨r', ?_, hstate⟩
  rw [load_of_find store (store.remark id r .undone) other rfl
    (find_remark store id other r .undone hne)]
  exact hload

/-- Undoing the last records of a run gives back the workspace before them, record by record. -/
theorem run_undone (calls : List EditCall) (fs fs' : FileSystem) (store store' : CheckpointStore)
    (edits : List Edited) (hroot : Opened fs store.workspaceRoot)
    (h : runEdits sha256Hex calls fs store = some (edits, fs', store'))
    (hundoable : Undoable edits store') :
    ∃ undone, undoInOrder sha256Hex (undoOrder edits) fs' store' = some (fs, undone) ∧
      RunUndone edits store' undone := by
  induction calls generalizing fs store edits with
  | nil =>
    cases h
    exact ⟨store', rfl, rfl, rfl, by simp, fun _ _ => rfl⟩
  | cons call calls ih =>
    obtain ⟨done, fs₁, store₁, rest, hdone, hrest, rfl⟩ := run_edits_cons sha256Hex call calls fs
      fs' store store' edits h
    have hleaves := edit_leaves sha256Hex call fs fs₁ store store₁ done hroot hdone
    have hopened := edit_opened sha256Hex fs fs₁ store store₁ done hroot hleaves
    have hkept := run_kept sha256Hex calls fs₁ fs' store₁ store' rest hopened hrest
    obtain ⟨hrestUndoable, hown, hsmall, hstanding⟩ := (undoable_cons done rest store').mp hundoable
    obtain ⟨undone, hundo, hmarked⟩ := ih fs₁ store₁ rest hopened hrest hrestUndoable
    have hlater := suffix_undisturbed done rest fs₁ store₁ store' undone hkept hmarked hown
    have hheld := held_later hleaves.held hlater (by
      rw [hmarked.record done.id hown]
      exact hstanding)
    obtain ⟨r, hload, hfits, happly⟩ := held_restores hheld hsmall
    have hback : fs₁.setFile done.target done.old = fs := by
      rw [hleaves.written]
      exact fs.set_file_back done.target done.old done.new hleaves.file
    refine ⟨undone.remark done.id r .undone, ?_, hmarked.root, hmarked.limits, ?_, ?_⟩
    · have horder : undoOrder (done :: rest) = undoOrder rest ++ [done.id] := by
        simp [undoOrder]
      rw [horder, undo_in_order_append, hundo]
      simp [undoInOrder, happly, hback]
    · intro e he
      rcases List.mem_cons.mp he with rfl | he
      · exact remark_undone r hload hfits
      · have hne : e.id ≠ done.id := fun heq => hown (heq ▸ List.mem_map_of_mem he)
        exact marked_remark undone done.id e.id r hne (hmarked.marked e he)
    · intro id hid
      rw [List.map_cons, List.mem_cons, not_or] at hid
      rw [find_remark undone done.id id r .undone hid.1]
      exact hmarked.record id hid.2

/-- The sequence is undone only when each record is undone as its edit left it. -/
theorem run_undoable (calls : List EditCall) (fs fs' : FileSystem) (store store' : CheckpointStore)
    (edits : List Edited) (hroot : Opened fs store.workspaceRoot)
    (h : runEdits sha256Hex calls fs store = some (edits, fs', store'))
    (hundo : (undoInOrder sha256Hex (undoOrder edits) fs' store').isSome = true) :
    Undoable edits store' := by
  induction calls generalizing fs store edits with
  | nil =>
    cases h
    exact ⟨by simp, by simp, by simp⟩
  | cons call calls ih =>
    obtain ⟨done, fs₁, store₁, rest, hdone, hrest, rfl⟩ := run_edits_cons sha256Hex call calls fs
      fs' store store' edits h
    have hleaves := edit_leaves sha256Hex call fs fs₁ store store₁ done hroot hdone
    have hopened := edit_opened sha256Hex fs fs₁ store store₁ done hroot hleaves
    have hkept := run_kept sha256Hex calls fs₁ fs' store₁ store' rest hopened hrest
    have horder : undoOrder (done :: rest) = undoOrder rest ++ [done.id] := by
      simp [undoOrder]
    rw [horder, undo_in_order_append] at hundo
    have hbelow : (undoInOrder sha256Hex (undoOrder rest) fs' store').isSome = true := by
      cases hcase : undoInOrder sha256Hex (undoOrder rest) fs' store' with
      | none => simp [hcase] at hundo
      | some s => rfl
    have hrestUndoable := ih fs₁ store₁ rest hopened hrest hbelow
    obtain ⟨undone, hsuffix, hmarked⟩ := run_undone sha256Hex calls fs₁ fs' store₁ store' rest
      hopened hrest hrestUndoable
    rw [hsuffix, Option.bind_some, undoInOrder] at hundo
    have hrestored : (applyUndo sha256Hex undone fs₁ done.id maxPreimageBytes).outcome =
        .ok (.restored done.id) := by
      by_contra hnot
      simp [hnot] at hundo
    have hown : done.id ∉ rest.map Edited.id := by
      intro hmem
      obtain ⟨e, he, hid⟩ := List.mem_map.mp hmem
      exact undone_not_restored sha256Hex fs₁ undone done.id (hid ▸ hmarked.marked e he) done.id
        hrestored
    have hlater := suffix_undisturbed done rest fs₁ store₁ store' undone hkept hmarked hown
    have hstanding : (undone.find done.id).isSome = true := by
      by_contra hgone
      have hnone : undone.find done.id = none := by simpa using hgone
      exact missing_not_undone fs₁ undone done.id hnone _ hrestored
    have hheld := held_later hleaves.held hlater hstanding
    refine (undoable_cons done rest store').mpr ⟨hrestUndoable, hown, ?_, ?_⟩
    · by_contra hlarge
      rw [held_conflicts hheld hlarge] at hrestored
      cases hrestored
    · rw [← hmarked.record done.id hown]
      exact hstanding

/-- Every successful edit is undone, while its file is as the edit left it, exactly when its new
content is small enough for the state reader and its record was not evicted; a sequence of edits
is undone from its last one back exactly when this holds of each of them. -/
theorem edits_undone_iff (fs : FileSystem) (store : CheckpointStore)
    (hroot : Opened fs store.workspaceRoot) :
    (∀ call output text, (executeEdit sha256Hex call.host fs store call.input).result =
        .success output text →
      ∃ done fs₁ store₁, editOnce sha256Hex call fs store = some (done, fs₁, store₁) ∧
        ∀ fs' store', Undisturbed done.id done.target fs₁ fs' store₁ store' →
          (UndoneTo done.id done.target (fs.node done.target)
              (applyUndo sha256Hex store' fs' done.id maxPreimageBytes) ↔
            done.new.length ≤ maxPreimageBytes ∧ (store'.find done.id).isSome = true)) ∧
    ∀ calls edits fs' store', runEdits sha256Hex calls fs store = some (edits, fs', store') →
      ((∃ undone, undoInOrder sha256Hex (undoOrder edits) fs' store' = some (fs, undone) ∧
        ∀ e ∈ edits, MarkedUndone undone e.id) ↔ Undoable edits store') := by
  constructor
  · intro call output text hsuccess
    obtain ⟨done, fs₁, store₁, hdone⟩ := edit_once_success sha256Hex call fs store output text
      hroot hsuccess
    have hleaves := edit_leaves sha256Hex call fs fs₁ store store₁ done hroot hdone
    refine ⟨done, fs₁, store₁, hdone, ?_⟩
    intro fs' store' hlater
    rw [hleaves.file]
    exact edit_undone_iff hleaves.held hlater
  · intro calls edits fs' store' h
    constructor
    · rintro ⟨undone, hundo, -⟩
      exact run_undoable sha256Hex calls fs fs' store store' edits hroot h (by simp [hundo])
    · intro hundoable
      obtain ⟨undone, hundo, hmarked⟩ := run_undone sha256Hex calls fs fs' store store' edits hroot
        h hundoable
      exact ⟨undone, hundo, hmarked.marked⟩

def sampleEmptyStore : CheckpointStore where
  workspaceRoot := ["w"]
  limits := ⟨"w", maxPreimageBytes, defaultMaxCheckpoints⟩
  entries := []
  distinct := List.nodup_nil

def sampleEdit (old new : Text) : EditCall where
  host := ⟨false, some "1.0", [sampleId]⟩
  input := .object [("path", .string "f"), ("oldString", .string old), ("newString", .string new)]

theorem sample_opened : Opened sampleWorkspace ["w"] where
  directories q hq := by
    rcases List.prefix_cons_iff.mp hq with rfl | ⟨t, rfl, ht⟩
    · rfl
    · rw [List.prefix_nil.mp ht]
      rfl
  ordinary name hname := by
    rw [List.mem_singleton.mp hname]
    unfold Ordinary
    decide

theorem sample_run : (runEdits sampleSha [sampleEdit ['b'] ['a']] sampleWorkspace
    sampleEmptyStore).map (fun run => (run.1, (run.2.2.find sampleId).isSome)) =
      some ([⟨sampleId, ["w", "f"], .text ['b'], .text ['a']⟩], true) := by
  decide +kernel

theorem sample_edit_undone :
    ∃ fs' store', runEdits sampleSha [sampleEdit ['b'] ['a']] sampleWorkspace sampleEmptyStore =
        some ([⟨sampleId, ["w", "f"], .text ['b'], .text ['a']⟩], fs', store') ∧
      ∃ undone, undoInOrder sampleSha [sampleId] fs' store' = some (sampleWorkspace, undone) ∧
        MarkedUndone undone sampleId := by
  obtain ⟨⟨edits, fs', store'⟩, hrun, heq⟩ := Option.map_eq_some_iff.mp sample_run
  obtain ⟨rfl, hstanding⟩ := Prod.mk.inj heq
  refine ⟨fs', store', hrun, ?_⟩
  have hundoable : Undoable [⟨sampleId, ["w", "f"], .text ['b'], .text ['a']⟩] store' :=
    ⟨by decide, by decide, by simpa using hstanding⟩
  obtain ⟨undone, hundo, hmarked⟩ := ((edits_undone_iff sampleSha sampleWorkspace sampleEmptyStore
    sample_opened).2 _ _ fs' store' hrun).mpr hundoable
  exact ⟨undone, hundo, hmarked _ (List.mem_singleton_self _)⟩

def grownSha : FileBytes → Text
  | .text ('a' :: _) => List.replicate 64 'a'
  | _ => List.replicate 64 'b'

def grownWorkspace (rest : Text) : FileSystem :=
  .ofNodes [(["w"], .directory), (["w", "f"], .file (.text ('a' :: rest)))]

def grownProposal (rest : Text) : Proposal where
  relative := "f"
  target := ["w", "f"]
  bytes := .text ('b' :: 'b' :: rest)
  current := some (.text ('a' :: rest))
  creation := {
    relativePath := "f"
    operation := .update
    toolName := "edit"
    createdAt := "1.0"
    before := presentState grownSha (.text ('a' :: rest))
    beforeBytes := some (.text ('a' :: rest))
    after := presentState grownSha (.text ('b' :: 'b' :: rest))
    preview := ⟨1, 1⟩ }

theorem grown_proposed (rest : Text) (hlength : Text.utf8Len rest = 1048575)
    (hother : matchCount ['a'] 0 rest = 0) :
    proposeEdit grownSha (sampleEdit ['a'] ['b', 'b']).host (grownWorkspace rest) ["w"]
      (sampleEdit ['a'] ['b', 'b']).input = .ok (grownProposal rest) := by
  have hresolved : resolveWorkspacePath (grownWorkspace rest) ["w"] "f" =
      .ok ⟨"f", ["w", "f"]⟩ := rfl
  have hnamed : requireRequestedParentName ["w"] "f" ["w", "f"] = true := by decide
  have hguarded : guarded "f" = none := by decide
  have hread : readEditTarget ((grownWorkspace rest).node ["w", "f"]) = .ok ('a' :: rest) := by
    change readEditTarget (some (.file (.text ('a' :: rest)))) = _
    have hsmall : FileBytes.length (.text ('a' :: rest)) = 1048576 := by
      rw [FileBytes.length, Text.utf8Len_cons, hlength]
      rfl
    simp [readEditTarget, hsmall, workspaceLimits]
  have hstarts : Text.startsWith ['a'] ('a' :: rest) = true := by
    simp [Text.startsWith, Text.stripPrefix]
  have hmatch : matchCount ['a'] 0 ('a' :: rest) = 1 := by
    simp [matchCount, hstarts, hother]
  have hreplace : replaceFirst ['a'] ['b', 'b'] ('a' :: rest) = 'b' :: 'b' :: rest := by
    simp [replaceFirst, hstarts]
  simp only [proposeEdit, sampleEdit, except_bind_ok, refuse_if_ok, map_error_ok]
  refine ⟨"f", rfl, ['a'], rfl, ['b', 'b'], rfl, (), trivial, (), rfl, (), rfl, (), rfl, _,
    hresolved, (), ?_, (), ?_, 'a' :: rest, hread, (), ?_, (), ?_, _, rfl, ?_⟩
  · rw [hnamed]
    rfl
  · rw [hguarded]
    rfl
  · rw [hmatch]
    rfl
  · rw [hmatch]
    rfl
  · rw [hreplace]
    rfl

theorem grown_lengths (rest : Text) (hlength : Text.utf8Len rest = 1048575) :
    FileBytes.length (.text ('a' :: rest)) = 1048576 ∧
      FileBytes.length (.text ('b' :: 'b' :: rest)) = 1048577 := by
  have ha : Char.utf8Size 'a' = 1 := by decide
  have hb : Char.utf8Size 'b' = 1 := by decide
  simp [FileBytes.length, hlength, ha, hb]

/-- The record of the growing edit, its lengths written out. -/
def grownRecord : FileCheckpoint where
  version := checkpointVersion
  id := sampleId
  workspaceFingerprint := "w"
  relativePath := "f"
  operation := .update
  toolName := "edit"
  createdAt := "1.0"
  state := .prepared
  before := ⟨true, some (List.replicate 64 'a'), some 1048576⟩
  after := ⟨true, some (List.replicate 64 'b'), some 1048577⟩
  preview := ⟨1, 1⟩

theorem grown_validated (rest : Text) (hlength : Text.utf8Len rest = 1048575) :
    validateCreation grownSha sampleEmptyStore.limits (grownProposal rest).creation = .ok () := by
  obtain ⟨hold, hnew⟩ := grown_lengths rest hlength
  have hpath : validateRelativePath (grownProposal rest).creation.relativePath = .ok () := by
    change validateRelativePath "f" = .ok ()
    decide
  have hname : ¬ (("edit" : Text).isEmpty ∨ maxToolNameLength < Text.utf8Len "edit") := by decide
  have htime : ¬ (("1.0" : Text).isEmpty ∨ maxCreatedAtLength < Text.utf8Len "1.0") := by decide
  have hlimit : ¬ sampleEmptyStore.limits.maxPreimageBytes < 1048576 := by decide
  have hsha : isSha256Hex (List.replicate 64 'b') = true := by decide
  unfold validateCreation
  rw [hpath]
  refine (if_neg hname).trans ((if_neg htime).trans ((if_neg ?_).trans ?_))
  · change ¬ (!validateCheckpointInvariant .update true true) = true
    decide
  · refine (if_neg ?_).trans ((if_neg ?_).trans (if_neg ?_))
    · simp [grownProposal, presentState]
    · rw [hold]
      exact hlimit
    · change ¬ (true && !isSha256Hex (List.replicate 64 'b')) = true
      rw [hsha]
      decide

theorem grown_capacity : ensureCapacityFor grownSha sampleEmptyStore grownRecord 1048576 =
    (.ok (), sampleEmptyStore) := by
  have hroom : hasRoom sampleEmptyStore.limits ⟨0, 0⟩ (documentBytes grownRecord + 1048576) =
      true := by decide +kernel
  have hempty : checkpointCapacity grownSha sampleEmptyStore = .ok ⟨0, 0⟩ := rfl
  simp only [ensureCapacityFor, hempty, hroom, if_true]

theorem grown_created (rest : Text) (hlength : Text.utf8Len rest = 1048575) :
    createCheckpoint grownSha sampleEmptyStore (grownProposal rest).creation [sampleId] =
      (.ok grownRecord, sampleEmptyStore.addRecord grownRecord
        (grownProposal rest).creation.beforeBytes rfl) := by
  obtain ⟨hold, hnew⟩ := grown_lengths rest hlength
  have hprepared : preparedRecord sampleEmptyStore.limits (grownProposal rest).creation sampleId =
      grownRecord := by
    simp only [preparedRecord, grownProposal, presentState, hold, hnew]
    rfl
  have hpreimage : (grownProposal rest).creation.preimageLen = 1048576 := hold
  have hparse : parseMetadata sampleEmptyStore.limits grownRecord.id (documentBytes grownRecord)
      grownRecord = .ok grownRecord := by decide +kernel
  have hid : isValidCheckpointId sampleId = true := by decide
  have hfree : sampleEmptyStore.find grownRecord.id = none := rfl
  have hminted : [sampleId].take maxIdAttempts = [sampleId] := rfl
  unfold createCheckpoint
  rw [grown_validated rest hlength, hminted]
  dsimp only
  rw [mintRecord, if_neg (by simp [hid])]
  dsimp only
  rw [hprepared, hpreimage, grown_capacity]
  dsimp only
  rw [dif_pos hfree, hparse]

theorem grown_committed (rest : Text) (hlength : Text.utf8Len rest = 1048575) :
    stageAndCommit grownSha (grownWorkspace rest) ["w"] (grownProposal rest) =
      .ok ((grownWorkspace rest).setFile ["w", "f"] (.text ('b' :: 'b' :: rest))) := by
  obtain ⟨hold, hnew⟩ := grown_lengths rest hlength
  have hread : ¬ maxCasReadBytes < FileBytes.length (.text ('a' :: rest)) := by
    rw [hold]
    decide
  have hstaged : ¬ maxStagedRevalidationBytes < FileBytes.length (.text ('b' :: 'b' :: rest)) := by
    rw [hnew]
    decide
  have hnode : (grownWorkspace rest).node ["w", "f"] = some (.file (.text ('a' :: rest))) := rfl
  change commitInner grownSha (grownWorkspace rest) ["w", "f"] (.text ('b' :: 'b' :: rest))
    (.ifDigest (grownSha (.text ('a' :: rest)))) = _
  unfold commitInner
  rw [hnode]
  simp [guardHolds, readCompleteFileBounded, hread, hstaged, -String.reduceToList]

theorem apply_proposal_succeeds (host : MutationHost) (fs fs' : FileSystem)
    (store created : CheckpointStore) (summary : Text) (p : Proposal) (r : FileCheckpoint)
    (hcreate : createCheckpoint sha256Hex store p.creation host.minted = (.ok r, created))
    (hcommit : stageAndCommit sha256Hex fs store.workspaceRoot p = .ok fs')
    (hverify : verifyCommitted fs' store.workspaceRoot p.target p.bytes = .ok ()) :
    (applyProposal sha256Hex host fs store summary p).result =
      .success (successOutput sha256Hex p r.id) summary := by
  unfold applyProposal
  rw [hcreate]
  dsimp only
  rw [hcommit]
  dsimp only
  rw [hverify]

theorem grown_applied (rest : Text) (hlength : Text.utf8Len rest = 1048575) (summary : Text) :
    (applyProposal grownSha (sampleEdit ['a'] ['b', 'b']).host (grownWorkspace rest)
      sampleEmptyStore summary (grownProposal rest)).result =
        .success (successOutput grownSha (grownProposal rest) sampleId) summary := by
  have hwritable : (grownWorkspace rest).Writable ["w", "f"] := .inr ⟨_, rfl⟩
  have hverify : verifyCommitted ((grownWorkspace rest).setFile ["w", "f"]
      (.text ('b' :: 'b' :: rest))) ["w"] ["w", "f"] (.text ('b' :: 'b' :: rest)) = .ok () := by
    have hparent : revalidateParent ((grownWorkspace rest).setFile ["w", "f"]
        (.text ('b' :: 'b' :: rest))) ["w"] ["w"] = true := rfl
    unfold verifyCommitted
    rw [(grownWorkspace rest).set_file_target _ _ hwritable]
    change (if (!revalidateParent _ ["w"] ["w"]) = true then _ else _) = _
    rw [hparent]
    exact if_pos rfl
  exact apply_proposal_succeeds grownSha _ (grownWorkspace rest) _ sampleEmptyStore _ summary
    (grownProposal rest) grownRecord (grown_created rest hlength) (grown_committed rest hlength) hverify

theorem grown_edits (rest : Text) (hlength : Text.utf8Len rest = 1048575)
    (hother : matchCount ['a'] 0 rest = 0) :
    ∃ fs' store', editOnce grownSha (sampleEdit ['a'] ['b', 'b']) (grownWorkspace rest)
      sampleEmptyStore = some (⟨sampleId, ["w", "f"], .text ('a' :: rest),
        .text ('b' :: 'b' :: rest)⟩, fs', store') := by
  have hproposed : proposeEdit grownSha (sampleEdit ['a'] ['b', 'b']).host (grownWorkspace rest)
      sampleEmptyStore.workspaceRoot (sampleEdit ['a'] ['b', 'b']).input =
        .ok (grownProposal rest) := grown_proposed rest hlength hother
  have hcurrent : (grownProposal rest).current = some (.text ('a' :: rest)) := rfl
  unfold editOnce executeEdit
  rw [hproposed]
  dsimp only
  rw [grown_applied rest hlength, hcurrent]
  dsimp only
  rw [checkpoint_of_output]
  exact ⟨_, _, rfl⟩

theorem no_match (c d : Char) (n : ℕ) (h : c ≠ d) : matchCount [c] 0 (List.replicate n d) = 0 := by
  induction n with
  | zero => rfl
  | succ n ih => simp [List.replicate_succ, matchCount, Text.startsWith, Text.stripPrefix, h, ih]

theorem repeated_length (n : ℕ) (c : Char) : Text.utf8Len (List.replicate n c) = n * c.utf8Size := by
  simp [Text.utf8Len]

theorem grown_opened (rest : Text) : Opened (grownWorkspace rest) ["w"] where
  directories q hq := by
    rcases List.prefix_cons_iff.mp hq with rfl | ⟨t, rfl, ht⟩
    · rfl
    · rw [List.prefix_nil.mp ht]
      rfl
  ordinary := sample_opened.ordinary

/-- A file of just the preimage bound grows by one byte: its edit succeeds and its undo is refused
as a conflict. -/
theorem edit_undo_fails :
    ¬ ∀ (sha256Hex : FileBytes → Text) (fs : FileSystem) (store : CheckpointStore),
      Opened fs store.workspaceRoot → ∀ call done fs₁ store₁,
        editOnce sha256Hex call fs store = some (done, fs₁, store₁) →
          UndoneTo done.id done.target (fs.node done.target)
            (applyUndo sha256Hex store₁ fs₁ done.id maxPreimageBytes) := by
  intro h
  have hlength : Text.utf8Len (List.replicate 1048575 'x') = 1048575 := by
    rw [repeated_length]
    rfl
  obtain ⟨fs', store', hedit⟩ := grown_edits (List.replicate 1048575 'x') hlength
    (no_match 'a' 'x' _ (by decide))
  have hroot := grown_opened (List.replicate 1048575 'x')
  have hheld := (edit_leaves grownSha _ _ fs' sampleEmptyStore store' _ hroot hedit).held
  have hlarge : ¬ FileBytes.length (.text ('b' :: 'b' :: List.replicate 1048575 'x')) ≤
      maxPreimageBytes := by
    rw [(grown_lengths _ hlength).2]
    decide
  have hundone := (h grownSha _ sampleEmptyStore hroot _ _ fs' store' hedit).restored
  rw [held_conflicts hheld hlarge] at hundone
  cases hundone

end Siralos.Checkpoint
