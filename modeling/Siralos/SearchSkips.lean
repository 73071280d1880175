import Siralos.Traversal

/-!
# What a search skips

Every entry whose name is not UTF-8 is counted as skipped, in each directory that a search goes into,
and it does not truncate the search.
-/

set_option autoImplicit false

namespace Siralos.Inspection

open Workspace

/-- The entries of a directory whose names are not UTF-8. -/
def foreignCount (entries : Path → Option (List DirectoryEntry)) (directory : Path) : ℕ :=
  ((entries directory).getD []).countP fun entry => entry.text.isNone

def PendingDirectory.child (directory : PendingDirectory) (name : Text) : PendingDirectory :=
  ⟨directory.absolute ++ [name], childRelativePath directory.relative name, directory.depth + 1⟩

/-- A search that went into a directory goes into this one below it. -/
structure Enters (folding : Folding) (tree : WorkspaceTree)
    (entries : Path → Option (List DirectoryEntry)) (directory : PendingDirectory) (name : Text) :
    Prop where
  listed : .name name ∈ (entries directory.absolute).getD []
  included : isExcludedName folding name = false
  visible : isModelProtected folding (childRelativePath directory.relative name) = false
  isDirectory : tree.fs.node (directory.absolute ++ [name]) = some .directory

/-- Nothing pending is forgotten, and at least so many entries were skipped. -/
structure Grows (count : ℕ) (s s' : SearchState) : Prop where
  skipped : s.skippedFiles + count ≤ s'.skippedFiles
  pending : s.pending ⊆ s'.pending

def Anywhere (_ : SearchState) : Prop := True

variable {folding : Folding} {tree : WorkspaceTree} {input : SearchInput}
  {limits : InspectionLimits} {control : SearchControl} {s₀ s s' : SearchState} {count : ℕ}
  {entries : Path → Option (List DirectoryEntry)} {directory : PendingDirectory}

theorem Keeps.imp {halted kept other : SearchState → Prop} {x : Except Halt SearchState}
    (h : Keeps halted kept x) (himp : ∀ s, kept s → other s) : Keeps halted other x := by
  cases x with
  | ok s => exact himp s h
  | error halt => cases halt <;> exact h

theorem Grows.refl (s : SearchState) : Grows 0 s s := ⟨Nat.le_refl _, List.Subset.refl _⟩

theorem Grows.trans {more : ℕ} (h : Grows count s₀ s) (hnext : Grows more s s') :
    Grows (count + more) s₀ s' := by
  refine ⟨?_, List.Subset.trans h.pending hnext.pending⟩
  have hfirst := h.skipped
  have hsecond := hnext.skipped
  omega

theorem Grows.counts (h : Grows count s₀ s) (hskipped : s.skippedFiles ≤ s'.skippedFiles)
    (hpending : s'.pending = s.pending) : Grows count s₀ s' :=
  ⟨h.skipped.trans hskipped, by rw [hpending]; exact h.pending⟩

theorem Grows.gate {stops : Prop} [Decidable stops] {halt : Halt} (h : Grows count s₀ s)
    (hskipped : s.skippedFiles ≤ s'.skippedFiles) (hpending : s'.pending = s.pending) :
    Keeps Anywhere (Grows count s₀) (if stops then .error halt else .ok s') := by
  split
  · cases halt <;> trivial
  · exact h.counts hskipped hpending

theorem Grows.polled (h : Grows count s₀ s) : Keeps Anywhere (Grows count s₀) (poll control s) :=
  h.gate (Nat.le_refl _) rfl

theorem Grows.looked (h : Grows count s₀ s) : Keeps Anywhere (Grows count s₀) (look control s) :=
  h.gate (Nat.le_refl _) rfl

theorem Grows.bounded {exceeded : Bool} {reason : TruncationReason} (h : Grows count s₀ s) :
    Keeps Anywhere (Grows count s₀) (within exceeded reason s) :=
  h.gate (Nat.le_refl _) rfl

theorem Grows.skip (h : Grows count s₀ s) : Grows count s₀ s.skip := h.counts (Nat.le_succ _) rfl

theorem match_line_grows (relative : Text) (index : ℕ) (line : Text) (h : Grows count s₀ s) :
    Keeps Anywhere (Grows count s₀) (matchLine input limits relative index line s) := by
  unfold matchLine
  split
  · exact h
  · refine keeps_bind h.bounded ?_
    intro s hs
    exact (hs.counts (Nat.le_refl _) rfl : Grows count s₀ (s.record _ _)).bounded

theorem search_lines_grows (relative : Text) (index : ℕ) (lines : List Text)
    (h : Grows count s₀ s) :
    Keeps Anywhere (Grows count s₀) (searchLines input limits control relative index lines s) := by
  induction lines generalizing index s with
  | nil => exact h
  | cons line rest ih =>
    rw [searchLines]
    have hpolled : Keeps Anywhere (Grows count s₀) (pollLines control index s) := by
      unfold pollLines
      split
      · exact keeps_bind h.polled fun s hs => hs.looked
      · exact h
    refine keeps_bind hpolled ?_
    intro s hs
    refine keeps_bind (match_line_grows relative index line hs) ?_
    intro s hs
    exact ih (index + 1) hs

theorem visit_file_grows (relative : Text) (bytes : FileBytes) (h : Grows count s₀ s) :
    Keeps Anywhere (Grows count s₀) (visitFile input limits control relative bytes s) := by
  have hconsidered : Keeps Anywhere (Grows count s₀) (considerFile limits bytes s) := by
    unfold considerFile
    refine keeps_bind (h.counts (Nat.le_refl _) rfl : Grows count s₀ s.consider).bounded ?_
    intro s hs
    split
    · exact hs.skip
    · exact hs.bounded
  unfold visitFile
  refine keeps_bind hconsidered ?_
  intro s hs
  split
  · exact hs
  · unfold scanFile
    refine keeps_bind (hs.counts (Nat.le_refl _) rfl : Grows count s₀ s.scan).polled ?_
    intro s hs
    refine keeps_bind hs.polled ?_
    intro s hs
    refine keeps_bind
      (hs.counts (Nat.le_refl _) rfl : Grows count s₀ (s.read bytes.length)).bounded ?_
    intro s hs
    split
    · exact hs.skip
    · split
      · exact hs.skip
      · exact keeps_bind hs.polled fun s hs => search_lines_grows relative 0 _ hs

variable (entries) in
theorem visit_name_grows (name : Text) (h : Grows count s₀ s) :
    Keeps Anywhere (fun s' => Grows count s₀ s' ∧
        (Enters folding tree entries directory name → directory.child name ∈ s'.pending))
      (visitName folding tree input limits control directory name s) := by
  have hother : ∀ {s'}, Grows count s₀ s' →
      tree.fs.node (directory.absolute ++ [name]) ≠ some .directory → Grows count s₀ s' ∧
        (Enters folding tree entries directory name → directory.child name ∈ s'.pending) :=
    fun hs hnode => ⟨hs, fun henters => absurd henters.isDirectory hnode⟩
  unfold visitName
  refine keeps_bind h.polled ?_
  intro s hs
  refine keeps_bind hs.looked ?_
  intro s hs
  dsimp only
  split
  · rename_i hprotected
    refine ⟨hs.skip, ?_⟩
    intro henters
    rw [henters.visible] at hprotected
    cases hprotected
  · refine keeps_bind hs.polled ?_
    intro s hs
    split
    · exact keeps_bind hs.polled fun s hs => trivial
    · rename_i node hnode
      refine keeps_bind hs.polled ?_
      intro s hs
      cases node with
      | link target => exact hother hs.skip (by simp [hnode])
      | special => exact hother hs.skip (by simp [hnode])
      | directory =>
        have hpushed : Grows count s₀ (s.push (directory.child name)) :=
          ⟨hs.skipped, fun other hpending => List.mem_cons_of_mem _ (hs.pending hpending)⟩
        exact ⟨hpushed, fun _ => List.mem_cons_self⟩
      | file bytes =>
        exact (visit_file_grows _ bytes hs).imp fun s hs => hother hs (by simp [hnode])

variable (entries) in
theorem visit_names_grows (names : List Text) (h : Grows count s₀ s) :
    Keeps Anywhere (fun s' => Grows count s₀ s' ∧ ∀ name ∈ names,
        Enters folding tree entries directory name → directory.child name ∈ s'.pending)
      (visitNames folding tree input limits control directory names s) := by
  induction names generalizing s₀ s count with
  | nil => exact ⟨h, by simp⟩
  | cons name rest ih =>
    rw [visitNames]
    refine keeps_bind (visit_name_grows entries name h) ?_
    rintro s ⟨hs, hchild⟩
    refine (ih (Grows.refl s)).imp ?_
    rintro s' ⟨hrest, hothers⟩
    refine ⟨hs.trans hrest, ?_⟩
    intro other hother henters
    rcases List.mem_cons.mp hother with rfl | hother
    · exact hrest.pending (hchild henters)
    · exact hothers other hother henters

theorem examine_entries_grows (listed : List DirectoryEntry) (h : Grows count s₀ s) :
    Keeps Anywhere (Grows (count + listed.countP fun entry => entry.text.isNone) s₀)
      (examineEntries limits control listed s) := by
  induction listed generalizing s count with
  | nil => exact h
  | cons entry rest ih =>
    rw [examineEntries]
    refine keeps_bind h.polled ?_
    intro s hs
    refine keeps_bind (hs.counts (Nat.le_refl _) rfl : Grows count s₀ s.examine).bounded ?_
    intro s hs
    refine keeps_bind hs.polled ?_
    intro s hs
    rw [List.countP_cons, skipForeign]
    cases entry with
    | name text => exact ih hs
    | foreign raw node =>
      have hskipped : Grows (count + 1) s₀ s.skip :=
        ⟨Nat.succ_le_succ hs.skipped, hs.pending⟩
      rw [Nat.add_comm (List.countP _ rest), ← Nat.add_assoc]
      exact ih hskipped

theorem visit_directory_grows (h : Grows count s₀ s) :
    Keeps Anywhere (fun s' => Grows (count + foreignCount entries directory.absolute) s₀ s' ∧
        ∀ name, Enters folding tree entries directory name → directory.child name ∈ s'.pending)
      (visitDirectory folding tree entries input limits control directory s) := by
  unfold visitDirectory
  refine keeps_bind h.bounded ?_
  intro s hs
  refine keeps_bind hs.polled ?_
  intro s hs
  split
  · exact keeps_bind hs.polled fun s hs => trivial
  · rename_i listed hlisted
    refine keeps_bind hs.polled ?_
    intro s hs
    refine keeps_bind (examine_entries_grows listed hs) ?_
    intro s hs
    refine (visit_names_grows entries _ hs).imp ?_
    rintro s' ⟨hgrown, hchildren⟩
    rw [foreignCount, hlisted]
    refine ⟨hgrown, ?_⟩
    intro name henters
    refine hchildren name ?_ henters
    have hname := henters.listed
    rw [hlisted] at hname
    rw [mem_visited_names, mem_entry_texts]
    exact ⟨hname, henters.included⟩

/-- The directories that a search goes into, and how many names in them are not UTF-8. -/
structure WentInto (folding : Folding) (tree : WorkspaceTree)
    (entries : Path → Option (List DirectoryEntry)) (pending visited : List PendingDirectory)
    (foreign : ℕ) : Prop where
  starts : pending ⊆ visited
  enters : ∀ directory ∈ visited, ∀ name, Enters folding tree entries directory name →
    directory.child name ∈ visited
  counted : (visited.map fun directory => foreignCount entries directory.absolute).sum = foreign

theorem search_loop_went (remaining : ℕ) (s : SearchState) :
    Keeps Anywhere (fun s' => ∃ visited foreign, s.skippedFiles + foreign ≤ s'.skippedFiles ∧
        WentInto folding tree entries s.pending visited foreign)
      (searchLoop folding tree entries input limits control remaining s) := by
  have hdone : ∀ s : SearchState, s.pending = [] → ∃ visited foreign,
      s.skippedFiles + foreign ≤ s.skippedFiles ∧
        WentInto folding tree entries s.pending visited foreign := by
    intro s hpending
    rw [hpending]
    exact ⟨[], 0, Nat.le_refl _, ⟨List.Subset.refl _, by simp, rfl⟩⟩
  have harrive : ∀ (s : SearchState) rest,
      Keeps Anywhere (Grows 0 (s.pop rest)) (arrive control rest s) := by
    intro s rest
    unfold arrive
    exact keeps_bind (Grows.refl (s.pop rest)).polled fun s hs => hs.looked
  induction remaining generalizing s with
  | zero =>
    rw [searchLoop]
    split
    · rename_i hpending
      exact hdone s hpending
    · exact keeps_bind (harrive s _) fun s hs => trivial
  | succ remaining ih =>
    rw [searchLoop]
    split
    · rename_i hpending
      exact hdone s hpending
    · rename_i directory rest hpending
      refine keeps_bind (harrive s rest) ?_
      intro arrived harrived
      refine keeps_bind (visit_directory_grows harrived) ?_
      rintro next ⟨hgrown, hchildren⟩
      refine (ih next).imp ?_
      rintro s' ⟨visited, foreign, hskipped, hwent⟩
      refine ⟨directory :: visited, foreignCount entries directory.absolute + foreign, ?_, ?_, ?_,
        ?_⟩
      · have hbefore : s.skippedFiles + (0 + foreignCount entries directory.absolute) ≤
            next.skippedFiles := hgrown.skipped
        omega
      · rw [hpending]
        exact List.cons_subset_cons _ (List.Subset.trans hgrown.pending hwent.starts)
      · intro other hother name henters
        rcases List.mem_cons.mp hother with rfl | hother
        · exact List.mem_cons_of_mem _ (hwent.starts (hchildren name henters))
        · exact List.mem_cons_of_mem _ (hwent.enters other hother name henters)
      · rw [List.map_cons, List.sum_cons, hwent.counted]

theorem search_skips {path query : Text} {matched : List SearchMatch}
    {scannedFiles skippedFiles : ℕ} {reason : Option TruncationReason}
    (h : searchEntries folding tree entries input limits control =
      .success query path matched scannedFiles skippedFiles false reason) :
    ∃ directory visited foreign, foreign ≤ skippedFiles ∧
      resolveWorkspacePath tree.fs tree.root input.path = .ok ⟨path, directory⟩ ∧
      WentInto folding tree entries [⟨directory, path, 0⟩] visited foreign := by
  unfold searchEntries at h
  split at h
  · cases h
  rename_i resolved hresolve
  split at h
  · cases h
  split at h
  · cases h
  have hkeeps : Keeps Anywhere (fun s => ∃ visited foreign, foreign ≤ s.skippedFiles ∧
      WentInto folding tree entries [⟨resolved.absolutePath, resolved.workspaceRelativePath, 0⟩]
        visited foreign) (searchLoop folding tree entries input limits control
          limits.maxSearchDirectories (.initial resolved) >>= poll control) := by
    refine keeps_bind (search_loop_went limits.maxSearchDirectories (.initial resolved)) ?_
    rintro s ⟨visited, foreign, hskipped, hwent⟩
    unfold poll
    split
    · trivial
    · exact ⟨visited, foreign, (Nat.le_add_left _ _).trans hskipped, hwent⟩
  split at h
  · rename_i s hend
    rw [hend] at hkeeps
    obtain ⟨visited, foreign, hskipped, hwent⟩ := hkeeps
    cases h
    exact ⟨_, visited, foreign, hskipped, hresolve, hwent⟩
  · cases h
  · cases h

end Siralos.Inspection
