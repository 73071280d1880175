import Siralos.InspectionPaths

/-!
# What a listing shows

Every file entry of a listing is a file that a search would show, too; a listing that nothing is cut
from has an entry for each of them.
-/

set_option autoImplicit false

namespace Siralos.Inspection

open Workspace Checkpoint

variable {folding : Folding} {tree : WorkspaceTree} {names : List Text}

/-- A successful listing of the directory of these names, which shows the visible ones. -/
structure Listed (folding : Folding) (tree : WorkspaceTree) (requested path : Text)
    (entries : List ListEntry) (truncated : Bool) (names visible : List Text) : Prop where
  resolves : resolveWorkspacePath tree.fs tree.root requested = .ok ⟨path, tree.root ++ names⟩
  relative : path = relativeOf tree.root (tree.root ++ names)
  entered : Entered folding tree names
  entries : visible.mapM (listEntry tree.fs ⟨path, tree.root ++ names⟩) = some entries
  listed : ∀ name ∈ visible, isListed folding path name = true
  complete : truncated = false → ∀ name,
    (tree.fs.node (tree.root ++ names ++ [name])).isSome = true →
      isListed folding path name = true → name ∈ visible

theorem list_names_shows {resolved : ResolvedWorkspacePath} {maxEntries : ℕ} {all : List Text}
    {path : Text} {entries : List ListEntry} {truncated : Bool}
    (h : listNames folding tree resolved maxEntries all = .success path entries truncated) :
    path = resolved.workspaceRelativePath ∧ ∃ visible : List Text,
      visible.mapM (listEntry tree.fs resolved) = some entries ∧
      (∀ name ∈ visible, isListed folding path name = true) ∧
      (truncated = false → ∀ name ∈ all, isListed folding path name = true → name ∈ visible) := by
  unfold listNames at h
  dsimp only at h
  split at h
  · cases h
  · rename_i shown hshown
    cases h
    refine ⟨rfl, _, hshown, ?_, ?_⟩
    · intro name hname
      have hsorted := List.mem_of_mem_take hname
      rw [List.mem_insertionSort, List.mem_filter] at hsorted
      exact hsorted.2
    · intro hall name hname hlisted
      rw [Bool.or_eq_false_iff, decide_eq_false_iff_not, decide_eq_false_iff_not] at hall
      rw [List.take_of_length_le (by omega), List.mem_insertionSort, List.mem_filter,
        List.take_of_length_le (by omega)]
      exact ⟨hname, hlisted⟩

theorem list_shows {requested path : Text} {limits : InspectionLimits} {entries : List ListEntry}
    {truncated : Bool}
    (h : listDirectory folding tree requested limits = .success path entries truncated) :
    ∃ names visible, Listed folding tree requested path entries truncated names visible := by
  unfold listDirectory at h
  split at h
  · cases h
  rename_i resolved hresolve
  split at h
  · cases h
  rename_i hguard
  split at h
  · cases h
  · rename_i hnode
    split at h
    · cases h
    rename_i all hall
    obtain ⟨names, rfl, hresolved, hincluded⟩ := entered_start hresolve hguard
    obtain ⟨rfl, visible, hentries, hlisted, hcomplete⟩ := list_names_shows h
    refine ⟨names, visible, hresolve, rfl, ⟨resolved_directory hresolved hnode, hincluded⟩,
      hentries, hlisted, ?_⟩
    intro htruncated name hsome hname
    exact hcomplete htruncated name ((tree.enumerated _ all hall name).mpr hsome) hname
  · cases h

theorem mem_mapM {α β : Type} {f : α → Option β} {xs : List α} {ys : List β}
    (h : xs.mapM f = some ys) :
    (∀ y ∈ ys, ∃ x ∈ xs, f x = some y) ∧ ∀ x ∈ xs, ∃ y ∈ ys, f x = some y := by
  induction xs generalizing ys with
  | nil =>
    cases h
    simp
  | cons x rest ih =>
    rw [List.mapM_cons] at h
    cases hx : f x with
    | none => simp [hx] at h
    | some y =>
      cases hrest : rest.mapM f with
      | none => simp [hx, hrest] at h
      | some others =>
        have hys : y :: others = ys := by simpa [hx, hrest] using h
        obtain ⟨hleft, hright⟩ := ih hrest
        rw [← hys]
        constructor
        · intro z hz
          rcases List.mem_cons.mp hz with rfl | hz
          · exact ⟨x, by simp, hx⟩
          · obtain ⟨a, ha, hfa⟩ := hleft z hz
            exact ⟨a, List.mem_cons_of_mem _ ha, hfa⟩
        · intro a ha
          rcases List.mem_cons.mp ha with rfl | ha
          · exact ⟨y, by simp, hx⟩
          · obtain ⟨z, hz, hfz⟩ := hright a ha
            exact ⟨z, List.mem_cons_of_mem _ hz, hfz⟩

theorem split_begins (p : Char → Bool) (start rest : Text) (hstart : ∀ c ∈ start, p c = false) :
    ∃ tail, start ++ tail ∈ (start ++ rest).splitOnP p := by
  suffices ∃ tail others, (start ++ rest).splitOnP p = (start ++ tail) :: others by
    obtain ⟨tail, others, hsplit⟩ := this
    exact ⟨tail, by simp [hsplit]⟩
  induction start with
  | nil => exact List.exists_cons_of_ne_nil (@List.splitOnP_ne_nil _ p rest)
  | cons c start ih =>
    obtain ⟨tail, others, hsplit⟩ := ih fun d hd => hstart d (List.mem_cons_of_mem _ hd)
    refine ⟨tail, others, ?_⟩
    rw [List.cons_append, List.splitOnP_cons_eq_if_modifyHead, if_neg (by simp [hstart c]),
      hsplit, List.modifyHead_cons]
    rfl

theorem temporary_protected (name : Text) (hname : Text.startsWith mutationTempPrefix name = true) :
    isModelProtected folding (joinNames (names ++ [name])) = true := by
  obtain ⟨rest, rfl⟩ := (Text.starts_with_iff _ _).mp hname
  have hstart : mutationTempPrefix.all (fun c => !isSeparator c) = true := by decide
  obtain ⟨tail, htail⟩ := split_begins isSeparator mutationTempPrefix rest
    (by simpa only [List.all_eq_true, Bool.not_eq_true'] using hstart)
  have hpiece : mutationTempPrefix ++ tail ∈
      splitSeparators (joinNames (names ++ [mutationTempPrefix ++ rest])) := by
    by_cases hne : names = []
    · simpa [hne, joinNames, splitSeparators] using htail
    · rw [join_snoc names _ hne, splitSeparators, List.splitOnP_append_cons _ _ (by decide)]
      exact List.mem_append_right _ htail
  have hlength : 2 ≤ (mutationTempPrefix ++ tail).length := by
    have hstart : mutationTempPrefix.length = 18 := by decide +kernel
    rw [List.length_append, hstart]
    omega
  have hguarded : isGuardedComponent (mutationTempPrefix ++ tail) = true := by
    rw [isGuardedComponent, Bool.and_eq_true, bne_iff_ne, bne_iff_ne]
    constructor
    · intro heq
      rw [heq] at hlength
      exact absurd hlength (by decide)
    · intro heq
      rw [heq] at hlength
      exact absurd hlength (by decide)
  have hfold := folding.keeps_prefix (mutationTempPrefix ++ tail)
    ((Text.starts_with_iff _ _).mpr (List.prefix_append _ _))
  have hprefixes : protectedPrefixes.any
      (fun p => Text.startsWith p (folding.fold (mutationTempPrefix ++ tail))) = true :=
    List.any_eq_true.mpr ⟨mutationTempPrefix, by decide, hfold⟩
  rw [isModelProtected, List.any_eq_true]
  refine ⟨_, List.mem_filter.mpr ⟨hpiece, hguarded⟩, ?_⟩
  rw [isProtectedName, isProtectedFolded, hprefixes]
  simp

theorem listed_visible {path name : Text} (h : isListed folding path name = true) :
    isExcludedName folding name = false ∧
      isModelProtected folding (childRelativePath path name) = false := by
  simp only [isListed, Bool.and_eq_true, Bool.not_eq_true'] at h
  exact ⟨h.1.1, h.2⟩

section ListedEntries

variable {requested path : Text} {entries : List ListEntry} {truncated : Bool}
  {visible : List Text}

theorem Listed.describes (h : Listed folding tree requested path entries truncated names visible)
    (name : Text) (entry : ListEntry)
    (hentry : listEntry tree.fs ⟨path, tree.root ++ names⟩ name = some entry) :
    ∃ node, tree.fs.node (tree.root ++ names ++ [name]) = some node ∧
      entry = ⟨name, joinNames (names ++ [name]), entryKind node⟩ := by
  rw [listEntry, Option.map_eq_some_iff] at hentry
  obtain ⟨node, hnode, rfl⟩ := hentry
  refine ⟨node, hnode, ?_⟩
  rw [h.relative, child_relative tree.root name h.entered.valid]

theorem Listed.entry (h : Listed folding tree requested path entries truncated names visible)
    (entry : ListEntry) (hentry : entry ∈ entries) (size : ℕ) (hkind : entry.kind = .file size) :
    entry.path = joinNames (names ++ [entry.name]) ∧
      ∃ bytes, Shown folding tree (names ++ [entry.name]) bytes := by
  obtain ⟨name, hname, hfrom⟩ := (mem_mapM h.entries).1 entry hentry
  obtain ⟨node, hnode, rfl⟩ := h.describes name entry hfrom
  obtain ⟨hincluded, hvisible⟩ := listed_visible (h.listed name hname)
  rw [h.relative] at hvisible
  refine ⟨rfl, ?_⟩
  cases node with
  | file bytes => exact ⟨bytes, h.entered.file name bytes hnode hincluded hvisible⟩
  | directory => cases hkind
  | link target => cases hkind
  | special => cases hkind

theorem Listed.shows (h : Listed folding tree requested path entries false names visible)
    (name : Text) (bytes : FileBytes) (hshown : Shown folding tree (names ++ [name]) bytes) :
    ⟨name, joinNames (names ++ [name]), .file bytes.length⟩ ∈ entries := by
  have hfile := hshown.file
  rw [← List.append_assoc] at hfile
  have hlisted : isListed folding path name = true := by
    have htemporary : Text.startsWith mutationTempPrefix name = false := by
      by_contra hstarts
      have hprotected : isModelProtected folding (joinNames (names ++ [name])) = true :=
        temporary_protected name (by simpa using hstarts)
      rw [hshown.visible] at hprotected
      cases hprotected
    rw [isListed, hshown.included name (by simp), htemporary, h.relative,
      child_relative tree.root name h.entered.valid, hshown.visible]
    rfl
  have hname := h.complete rfl name (by rw [hfile]; rfl) hlisted
  obtain ⟨entry, hentry, hfrom⟩ := (mem_mapM h.entries).2 name hname
  obtain ⟨node, hnode, rfl⟩ := h.describes name entry hfrom
  rw [hfile] at hnode
  cases hnode
  exact hentry

end ListedEntries

end Siralos.Inspection
