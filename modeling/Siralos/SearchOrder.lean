import Siralos.SearchCoverage

/-!
# Searching in any order of enumeration

The order in which the platform lists a directory decides nothing, except for how many names that are
not UTF-8 are skipped before the entry budget cuts a directory off.
-/

set_option autoImplicit false

namespace Siralos.Inspection

open Workspace Checkpoint

def Reordered (entries other : Path → Option (List DirectoryEntry)) : Prop :=
  ∀ directory, Option.Rel List.Perm (entries directory) (other directory)

variable {folding : Folding} {tree : WorkspaceTree}
  {entries other : Path → Option (List DirectoryEntry)} {input : SearchInput}
  {limits : InspectionLimits} {s : SearchState} {listed : List DirectoryEntry}

theorem Reordered.before (h : Reordered entries other) {directory : Path}
    (hother : other directory = some listed) :
    ∃ original, entries directory = some original ∧ original.Perm listed := by
  have hrel := h directory
  rw [hother] at hrel
  cases hentries : entries directory with
  | none =>
    rw [hentries] at hrel
    cases hrel
  | some original =>
    rw [hentries] at hrel
    cases hrel with
    | some hperm => exact ⟨original, rfl, hperm⟩

def Enumeration.reorder (enumeration : Enumeration tree)
    (other : Path → Option (List DirectoryEntry)) (h : Reordered enumeration.entries other) :
    Enumeration tree where
  entries := other
  directories directory listed hlisted := by
    obtain ⟨original, horiginal, -⟩ := h.before hlisted
    exact enumeration.directories directory original horiginal
  named directory listed hlisted name := by
    obtain ⟨original, horiginal, hperm⟩ := h.before hlisted
    rw [← hperm.mem_iff]
    exact enumeration.named directory original horiginal name
  distinct directory listed hlisted := by
    obtain ⟨original, horiginal, hperm⟩ := h.before hlisted
    exact hperm.nodup_iff.mp (enumeration.distinct directory original horiginal)

def relist (entries : Path → Option (List DirectoryEntry)) (directory : Path)
    (listed : List DirectoryEntry) (path : Path) : Option (List DirectoryEntry) :=
  if path = directory then some listed else entries path

theorem relist_reordered {directory : Path} {original : List DirectoryEntry}
    (h : entries directory = some original) (hperm : original.Perm listed) :
    Reordered entries (relist entries directory listed) := by
  intro path
  rw [relist]
  by_cases hpath : path = directory
  · rw [if_pos hpath, hpath, h]
    exact .some hperm
  · rw [if_neg hpath]
    cases entries path with
    | none => exact .none
    | some same => exact .some (List.Perm.refl same)

def isForeign (entry : DirectoryEntry) : Bool := !entry.text.isSome

/-- The entries that the budget still lets through. -/
def entriesLeft (limits : InspectionLimits) (s : SearchState) : ℕ :=
  limits.maxSearchEntries - s.entriesExamined

/-- The state after so many entries, of which some are skipped. -/
def SearchState.counted (s : SearchState) (examined foreign polls : ℕ) : SearchState :=
  { s with entriesExamined := s.entriesExamined + examined
           skippedFiles := s.skippedFiles + foreign
           polls := s.polls + polls }

theorem poll_idle (s : SearchState) : poll .idle s = .ok { s with polls := s.polls + 1 } := rfl

theorem skip_foreign (entry : DirectoryEntry) (s : SearchState) :
    skipForeign entry s = s.counted 0 (if isForeign entry then 1 else 0) 0 := by
  rw [skipForeign, isForeign]
  cases entry.text.isSome <;> rfl

theorem counted_counted (s : SearchState) (m n f g p q : ℕ) :
    (s.counted m f p).counted n g q = s.counted (m + n) (f + g) (p + q) := by
  simp only [SearchState.counted, Nat.add_assoc]

theorem examine_step (entry : DirectoryEntry) (rest : List DirectoryEntry) (s : SearchState) :
    examineEntries limits .idle (entry :: rest) s =
      if entriesLeft limits s = 0 then .error (.stopped .entryBudget (s.counted 1 0 1))
      else examineEntries limits .idle rest (s.counted 1 (if isForeign entry then 1 else 0) 2) := by
  rw [examineEntries, poll_idle]
  show (within (decide (limits.maxSearchEntries < s.entriesExamined + 1)) .entryBudget _ >>= _) = _
  have hbudget : limits.maxSearchEntries < s.entriesExamined + 1 ↔ entriesLeft limits s = 0 := by
    rw [entriesLeft]
    omega
  by_cases hleft : entriesLeft limits s = 0
  · rw [if_pos hleft, decide_eq_true (hbudget.mpr hleft)]
    rfl
  · rw [if_neg hleft, decide_eq_false fun h => hleft (hbudget.mp h)]
    show examineEntries limits .idle rest (skipForeign entry (s.counted 1 0 2)) = _
    rw [skip_foreign, counted_counted, Nat.zero_add]

theorem examine_entries_idle (listed : List DirectoryEntry) (s : SearchState) :
    examineEntries limits .idle listed s =
      if listed.length ≤ entriesLeft limits s then
        .ok (s.counted listed.length (listed.countP isForeign) (2 * listed.length))
      else .error (.stopped .entryBudget (s.counted (entriesLeft limits s + 1)
        ((listed.take (entriesLeft limits s)).countP isForeign)
        (2 * entriesLeft limits s + 1))) := by
  induction listed generalizing s with
  | nil =>
    rw [examineEntries, List.length_nil, if_pos (Nat.zero_le _)]
    rfl
  | cons entry rest ih =>
    rw [examine_step]
    by_cases hleft : entriesLeft limits s = 0
    · rw [if_pos hleft, hleft, if_neg (by simp)]
      rfl
    · obtain ⟨left, hsucc⟩ := Nat.exists_eq_succ_of_ne_zero hleft
      have hnext : entriesLeft limits (s.counted 1 (if isForeign entry then 1 else 0) 2) = left := by
        rw [entriesLeft] at hsucc ⊢
        show limits.maxSearchEntries - (s.entriesExamined + 1) = left
        omega
      have hcount : ∀ others : List DirectoryEntry, (if isForeign entry then 1 else 0) +
          others.countP isForeign = (entry :: others).countP isForeign := by
        intro others
        rw [List.countP_cons, Nat.add_comm]
      rw [if_neg hleft, ih, hnext, hsucc, counted_counted, counted_counted, List.take_succ_cons,
        hcount, hcount, List.length_cons]
      by_cases hfits : rest.length ≤ left
      · rw [if_pos hfits, if_pos (Nat.succ_le_succ hfits)]
        congr 2 <;> omega
      · rw [if_neg hfits, if_neg fun h => hfits (Nat.le_of_succ_le_succ h)]
        congr 3 <;> omega

/-- The budget lets through all or nothing of a directory, or its names are all UTF-8 or none of
them is. -/
def EvenlyCut (limits : InspectionLimits) (s : SearchState) (listed : List DirectoryEntry) : Prop :=
  listed.length ≤ entriesLeft limits s ∨ entriesLeft limits s = 0 ∨
    (∀ entry ∈ listed, isForeign entry = false) ∨ ∀ entry ∈ listed, isForeign entry = true

theorem count_foreign_all (h : ∀ entry ∈ listed, isForeign entry = true) (n : ℕ) :
    (listed.take n).countP isForeign = min n listed.length := by
  rw [List.countP_eq_length.mpr fun entry hentry => h entry (List.mem_of_mem_take hentry),
    List.length_take]

theorem count_foreign_none (h : ∀ entry ∈ listed, isForeign entry = false) (n : ℕ) :
    (listed.take n).countP isForeign = 0 := by
  rw [List.countP_eq_zero]
  intro entry hentry
  rw [h entry (List.mem_of_mem_take hentry)]
  decide

theorem evenly_cut_count {original : List DirectoryEntry} (hperm : original.Perm listed)
    (h : EvenlyCut limits s original) (hlong : ¬ original.length ≤ entriesLeft limits s) :
    (listed.take (entriesLeft limits s)).countP isForeign =
      (original.take (entriesLeft limits s)).countP isForeign := by
  rcases h with hfits | hnone | htexts | hforeign
  · exact absurd hfits hlong
  · rw [hnone, List.take_zero, List.take_zero]
  · rw [count_foreign_none htexts,
      count_foreign_none fun entry hentry => htexts entry (hperm.mem_iff.mpr hentry)]
  · rw [count_foreign_all hforeign, count_foreign_all fun entry hentry =>
      hforeign entry (hperm.mem_iff.mpr hentry), hperm.length_eq]

theorem examine_reordered {original : List DirectoryEntry} (hperm : original.Perm listed)
    (h : EvenlyCut limits s original) :
    examineEntries limits .idle listed s = examineEntries limits .idle original s := by
  rw [examine_entries_idle, examine_entries_idle, hperm.length_eq, hperm.countP_eq]
  by_cases hfits : listed.length ≤ entriesLeft limits s
  · rw [if_pos hfits, if_pos hfits]
  · rw [if_neg hfits, if_neg hfits, evenly_cut_count hperm h (by rwa [hperm.length_eq])]

theorem evenly_cut_of_count {skipped : ℕ}
    (h : ∀ other, listed.Perm other →
      (other.take (entriesLeft limits s)).countP isForeign = skipped) :
    EvenlyCut limits s listed := by
  have hforeign : ∀ entry ∈ listed.filter isForeign, isForeign entry = true := by
    intro entry hentry
    exact (List.mem_filter.mp hentry).2
  have htexts : ∀ entry ∈ listed.filter (fun entry => !isForeign entry), isForeign entry = false := by
    intro entry hentry
    simpa using (List.mem_filter.mp hentry).2
  have hperm := List.filter_append_perm isForeign listed
  have hfirst := h _ hperm.symm
  have hlast := h _ (List.perm_append_comm.trans hperm).symm
  rw [List.take_append, List.countP_append, count_foreign_all hforeign, count_foreign_none htexts]
    at hfirst
  rw [List.take_append, List.countP_append, count_foreign_none htexts, count_foreign_all hforeign]
    at hlast
  have hlength : (listed.filter isForeign).length +
      (listed.filter fun entry => !isForeign entry).length = listed.length := by
    rw [← List.length_append]
    exact hperm.length_eq
  by_cases hfits : listed.length ≤ entriesLeft limits s
  · exact .inl hfits
  by_cases hnone : entriesLeft limits s = 0
  · exact .inr (.inl hnone)
  right
  right
  by_cases hall : (listed.filter isForeign).length = 0
  · left
    intro entry hentry
    by_contra hother
    have hmem : entry ∈ listed.filter isForeign :=
      List.mem_filter.mpr ⟨hentry, by simpa using hother⟩
    rw [List.length_eq_zero_iff.mp hall] at hmem
    cases hmem
  · right
    have hempty : (listed.filter fun entry => !isForeign entry).length = 0 := by omega
    intro entry hentry
    by_contra hother
    have hmem : entry ∈ listed.filter fun entry => !isForeign entry :=
      List.mem_filter.mpr ⟨hentry, by simpa using hother⟩
    rw [List.length_eq_zero_iff.mp hempty] at hmem
    cases hmem

section Runs

variable (folding tree entries input limits)

/-- The states in which the traversal takes its next directory, with the directories that may still
be visited. -/
inductive Reaches (start : SearchState) : ℕ → SearchState → Prop where
  | start : Reaches start limits.maxSearchDirectories start
  | next {remaining : ℕ} {s arrived visited : SearchState} {directory : PendingDirectory}
      {rest : List PendingDirectory} (h : Reaches start (remaining + 1) s)
      (hpending : s.pending = directory :: rest) (harrive : arrive .idle rest s = .ok arrived)
      (hvisit : visitDirectory folding tree entries input limits .idle directory arrived =
        .ok visited) : Reaches start remaining visited

/-- Every directory that the search comes to is evenly cut. -/
def EvenlyCutRun : Prop :=
  ∀ resolved, resolveWorkspacePath tree.fs tree.root input.path = .ok resolved →
    guardPath folding insideExcludedNamed resolved.workspaceRelativePath = none →
    ∀ remaining s directory rest listed,
      Reaches folding tree entries input limits (.initial resolved) (remaining + 1) s →
      s.pending = directory :: rest → directory.depth ≤ limits.maxSearchDepth →
      entries directory.absolute = some listed → EvenlyCut limits s listed

end Runs

theorem visited_names_reordered {original : List DirectoryEntry} (hperm : original.Perm listed) :
    visitedNames folding (listed.filterMap DirectoryEntry.text) =
      visitedNames folding (original.filterMap DirectoryEntry.text) := by
  rw [visitedNames, visitedNames]
  refine List.Perm.eq_of_pairwise' (List.pairwise_insertionSort _ _)
    (List.pairwise_insertionSort _ _) ?_
  refine (List.perm_insertionSort _ _).trans (List.Perm.trans ?_ (List.perm_insertionSort _ _).symm)
  exact ((hperm.symm.filterMap _).filter _)

theorem visit_directory_idle {directory : PendingDirectory}
    (hdepth : directory.depth ≤ limits.maxSearchDepth)
    (hentries : entries directory.absolute = some listed) (s : SearchState) :
    visitDirectory folding tree entries input limits .idle directory s =
      examineEntries limits .idle listed (s.counted 0 0 2) >>=
        visitNames folding tree input limits .idle directory
          (visitedNames folding (listed.filterMap DirectoryEntry.text)) := by
  rw [visitDirectory, decide_eq_false (Nat.not_lt.mpr hdepth)]
  simp only [hentries]
  rfl

theorem visit_directory_reordered (h : Reordered entries other) {directory : PendingDirectory}
    (heven : ∀ listed, directory.depth ≤ limits.maxSearchDepth →
      entries directory.absolute = some listed → EvenlyCut limits s listed) :
    visitDirectory folding tree other input limits .idle directory s =
      visitDirectory folding tree entries input limits .idle directory s := by
  by_cases hdepth : directory.depth ≤ limits.maxSearchDepth
  · have hrel := h directory.absolute
    cases hentries : entries directory.absolute with
    | none =>
      rw [hentries] at hrel
      have hother : other directory.absolute = none := by
        cases hrelated : other directory.absolute with
        | none => rfl
        | some listed =>
          rw [hrelated] at hrel
          cases hrel
      rw [visitDirectory, visitDirectory, hother, hentries]
    | some original =>
      rw [hentries] at hrel
      cases hother : other directory.absolute with
      | none =>
        rw [hother] at hrel
        cases hrel
      | some listed =>
        rw [hother] at hrel
        cases hrel with
        | some hperm =>
          have hcut : EvenlyCut limits (s.counted 0 0 2) original :=
            heven original hdepth hentries
          rw [visit_directory_idle hdepth hentries, visit_directory_idle hdepth hother,
            examine_reordered hperm hcut, visited_names_reordered hperm]
  · rw [visitDirectory, visitDirectory, decide_eq_true (Nat.not_le.mp hdepth)]
    rfl

/-- The state in which the next directory is visited. -/
def SearchState.arrived (s : SearchState) (rest : List PendingDirectory) : SearchState :=
  { s with pending := rest, polls := s.polls + 1, looks := s.looks + 1 }

theorem arrive_idle (rest : List PendingDirectory) (s : SearchState) :
    arrive .idle rest s = .ok (s.arrived rest) := rfl

theorem search_loop_reordered (h : Reordered entries other) {start : SearchState} (remaining : ℕ)
    (hreaches : Reaches folding tree entries input limits start remaining s)
    (heven : ∀ remaining s directory rest listed,
      Reaches folding tree entries input limits start (remaining + 1) s →
      s.pending = directory :: rest → directory.depth ≤ limits.maxSearchDepth →
      entries directory.absolute = some listed → EvenlyCut limits s listed) :
    searchLoop folding tree other input limits .idle remaining s =
      searchLoop folding tree entries input limits .idle remaining s := by
  induction remaining generalizing s with
  | zero => rw [searchLoop, searchLoop]
  | succ remaining ih =>
    rw [searchLoop, searchLoop]
    cases hpending : s.pending with
    | nil => rfl
    | cons directory rest =>
      dsimp only
      rw [arrive_idle]
      have hcut : ∀ listed, directory.depth ≤ limits.maxSearchDepth →
          entries directory.absolute = some listed → EvenlyCut limits (s.arrived rest) listed :=
        fun listed hdepth hentries =>
          heven remaining s directory rest listed hreaches hpending hdepth hentries
      show visitDirectory folding tree other input limits .idle directory (s.arrived rest) >>= _ =
        visitDirectory folding tree entries input limits .idle directory (s.arrived rest) >>= _
      rw [visit_directory_reordered h hcut]
      cases hvisit : visitDirectory folding tree entries input limits .idle directory
          (s.arrived rest) with
      | error halt => rfl
      | ok visited => exact ih (hreaches.next hpending (arrive_idle rest s) hvisit)

theorem search_reordered (h : Reordered entries other)
    (heven : EvenlyCutRun folding tree entries input limits) :
    searchEntries folding tree other input limits .idle =
      searchEntries folding tree entries input limits .idle := by
  rw [searchEntries, searchEntries]
  cases hresolve : resolveWorkspacePath tree.fs tree.root input.path with
  | error rejection => rfl
  | ok resolved =>
    dsimp only
    cases hguard : guardPath folding insideExcludedNamed resolved.workspaceRelativePath with
    | some message => rfl
    | none =>
      dsimp only
      rw [search_loop_reordered h _ .start (heven resolved hresolve hguard)]

theorem cut_off {directory : PendingDirectory} {rest : List PendingDirectory} {remaining : ℕ}
    (hpending : s.pending = directory :: rest) (hdepth : directory.depth ≤ limits.maxSearchDepth)
    (hentries : entries directory.absolute = some listed)
    (hlong : ¬ listed.length ≤ entriesLeft limits s) :
    ∃ halted, searchLoop folding tree entries input limits .idle (remaining + 1) s =
        .error (.stopped .entryBudget halted) ∧
      halted.skippedFiles = s.skippedFiles +
        (listed.take (entriesLeft limits s)).countP isForeign := by
  have hleft : entriesLeft limits ((s.arrived rest).counted 0 0 2) = entriesLeft limits s := rfl
  refine ⟨((s.arrived rest).counted 0 0 2).counted (entriesLeft limits s + 1)
    ((listed.take (entriesLeft limits s)).countP isForeign) (2 * entriesLeft limits s + 1), ?_, rfl⟩
  rw [searchLoop, hpending]
  show visitDirectory folding tree entries input limits .idle directory (s.arrived rest) >>= _ = _
  rw [visit_directory_idle hdepth hentries, examine_entries_idle, hleft, if_neg hlong]
  rfl

theorem search_stopped {resolved : ResolvedWorkspacePath} {halted : SearchState}
    {reason : TruncationReason}
    (hresolve : resolveWorkspacePath tree.fs tree.root input.path = .ok resolved)
    (hguard : guardPath folding insideExcludedNamed resolved.workspaceRelativePath = none)
    (hloop : searchLoop folding tree entries input limits .idle limits.maxSearchDirectories
      (.initial resolved) = .error (.stopped reason halted)) :
    searchEntries folding tree entries input limits .idle =
      reportSearch input resolved.workspaceRelativePath halted (some reason) := by
  rw [searchEntries, hresolve]
  dsimp only
  rw [hguard]
  dsimp only
  rw [hloop]
  rfl

/-- In every order the traversal comes to this state. -/
def Shared (folding : Folding) (enumeration : Enumeration tree) (input : SearchInput)
    (limits : InspectionLimits) (resolved : ResolvedWorkspacePath) (remaining : ℕ)
    (s : SearchState) : Prop :=
  ∀ other : Enumeration tree, Reordered enumeration.entries other.entries →
    searchLoop folding tree other.entries input limits .idle limits.maxSearchDirectories
      (.initial resolved) = searchLoop folding tree other.entries input limits .idle remaining s

section Uneven

variable (enumeration : Enumeration tree) {resolved : ResolvedWorkspacePath}
  (hresolve : resolveWorkspacePath tree.fs tree.root input.path = .ok resolved)
  (hguard : guardPath folding insideExcludedNamed resolved.workspaceRelativePath = none)
  (hsame : ∀ other : Enumeration tree, Reordered enumeration.entries other.entries →
    searchEntries folding tree other.entries input limits .idle =
      searchEntries folding tree enumeration.entries input limits .idle)
include hresolve hguard hsame

theorem evenly_cut_of_same {remaining : ℕ}
    (hrun : Shared folding enumeration input limits resolved (remaining + 1) s)
    {directory : PendingDirectory} {rest : List PendingDirectory}
    (hpending : s.pending = directory :: rest) (hdepth : directory.depth ≤ limits.maxSearchDepth)
    (hentries : enumeration.entries directory.absolute = some listed) :
    EvenlyCut limits s listed := by
  by_cases hlong : listed.length ≤ entriesLeft limits s
  · exact .inl hlong
  have hskipped : ∀ other, listed.Perm other → ∃ halted,
      searchEntries folding tree enumeration.entries input limits .idle =
          reportSearch input resolved.workspaceRelativePath halted (some .entryBudget) ∧
        halted.skippedFiles = s.skippedFiles +
          (other.take (entriesLeft limits s)).countP isForeign := by
    intro other hperm
    have hreordered := relist_reordered hentries hperm
    have hcutoff : ∃ halted, searchLoop folding tree (relist enumeration.entries directory.absolute
        other) input limits .idle (remaining + 1) s = .error (.stopped .entryBudget halted) ∧
        halted.skippedFiles = s.skippedFiles +
          (other.take (entriesLeft limits s)).countP isForeign :=
      cut_off hpending hdepth (if_pos rfl) (by rwa [← hperm.length_eq])
    obtain ⟨halted, hloop, hcount⟩ := hcutoff
    refine ⟨halted, ?_, hcount⟩
    rw [← hsame (enumeration.reorder _ hreordered) hreordered]
    exact search_stopped hresolve hguard
      ((hrun (enumeration.reorder _ hreordered) hreordered).trans hloop)
  obtain ⟨original, horiginal, hcount⟩ := hskipped listed (List.Perm.refl listed)
  have hcounts : ∀ other, listed.Perm other →
      (other.take (entriesLeft limits s)).countP isForeign =
        (listed.take (entriesLeft limits s)).countP isForeign := by
    intro other hperm
    obtain ⟨halted, hhalted, hother⟩ := hskipped other hperm
    have hequal := horiginal.symm.trans hhalted
    simp only [reportSearch, SearchOutcome.success.injEq] at hequal
    omega
  exact evenly_cut_of_count hcounts

theorem reaches_shared {remaining : ℕ}
    (hreaches : Reaches folding tree enumeration.entries input limits (.initial resolved) remaining
      s) : Shared folding enumeration input limits resolved remaining s := by
  induction hreaches with
  | start => exact fun _ _ => rfl
  | next h hpending harrive hvisit ih =>
    rename_i remaining s arrived visited directory rest
    intro other hother
    rw [arrive_idle, Except.ok.injEq] at harrive
    have hcut : ∀ listed, directory.depth ≤ limits.maxSearchDepth →
        enumeration.entries directory.absolute = some listed →
          EvenlyCut limits (s.arrived rest) listed := fun listed hdepth hentries =>
      (evenly_cut_of_same enumeration hresolve hguard hsame ih hpending hdepth hentries :
        EvenlyCut limits s listed)
    rw [ih other hother, searchLoop, hpending]
    show visitDirectory folding tree other.entries input limits .idle directory (s.arrived rest)
      >>= _ = _
    rw [visit_directory_reordered hother hcut, harrive, hvisit]
    rfl

end Uneven

/-- The order of enumeration decides nothing exactly when every directory is evenly cut. -/
theorem order_free_iff (folding : Folding) (tree : WorkspaceTree) (enumeration : Enumeration tree)
    (input : SearchInput) (limits : InspectionLimits) :
    (∀ other : Enumeration tree, Reordered enumeration.entries other.entries →
      searchEntries folding tree other.entries input limits .idle =
        searchEntries folding tree enumeration.entries input limits .idle) ↔
      EvenlyCutRun folding tree enumeration.entries input limits := by
  constructor
  · intro hsame resolved hresolve hguard remaining s directory rest listed hreaches hpending hdepth
      hentries
    exact evenly_cut_of_same enumeration hresolve hguard hsame
      (reaches_shared enumeration hresolve hguard hsame hreaches) hpending hdepth hentries
  · intro heven other hother
    exact search_reordered hother heven

def mixedNodes : List (Path × Node) := [(["w"], .directory), (["w", "a"], .file (.text "x"))]

def mixedTree : WorkspaceTree :=
  .ofNodes mixedNodes ["w"] (opened_single _ "w" (by decide) (by decide)) (by decide)

def mixedEntries (directory : Path) : Option (List DirectoryEntry) :=
  if directory = ["w"] then some [.foreign [0xFF] .special, .name "a"] else none

def mixedEnumeration : Enumeration mixedTree where
  entries := mixedEntries
  directories directory listed h := by
    rw [mixedEntries] at h
    split at h
    · rename_i hdirectory
      subst hdirectory
      decide
    · cases h
  named directory listed h name := by
    rw [mixedEntries] at h
    split at h
    · rename_i hdirectory
      subst hdirectory
      cases h
      have hnode := mem_names_below mixedNodes ["w"] name
      have hnames : namesBelow mixedNodes ["w"] = ["a".toList] := by decide
      rw [hnames] at hnode
      refine Iff.trans ?_ hnode
      simp
    · cases h
  distinct directory listed h := by
    rw [mixedEntries] at h
    split at h
    · cases h
      decide
    · cases h

/-- One entry is let through: the name that is not UTF-8, or the other. -/
theorem order_shows :
    ¬ ∀ (tree : WorkspaceTree) (enumeration other : Enumeration tree) (input : SearchInput)
      (limits : InspectionLimits), Reordered enumeration.entries other.entries →
        searchEntries Folding.plain tree other.entries input limits .idle =
          searchEntries Folding.plain tree enumeration.entries input limits .idle := by
  intro hclaim
  have hlisted : mixedEnumeration.entries ["w"] =
      some [.foreign [0xFF] .special, .name "a"] := by decide
  have hreordered := relist_reordered hlisted
    (List.Perm.swap (DirectoryEntry.name "a") (.foreign [0xFF] .special) [])
  have hsame := hclaim mixedTree mixedEnumeration (mixedEnumeration.reorder _ hreordered)
    ⟨"x", ".", 10⟩ { workspaceLimits with maxSearchEntries := 1 } hreordered
  have hfirst : searchEntries Folding.plain mixedTree mixedEnumeration.entries ⟨"x", ".", 10⟩
      { workspaceLimits with maxSearchEntries := 1 } .idle =
        .success "x" "." [] 0 1 true (some .entryBudget) := by decide
  have hlast : searchEntries Folding.plain mixedTree
      (relist mixedEntries ["w"] [.name "a", .foreign [0xFF] .special]) ⟨"x", ".", 10⟩
      { workspaceLimits with maxSearchEntries := 1 } .idle =
        .success "x" "." [] 0 0 true (some .entryBudget) := by decide
  have hdiffers := hlast.symm.trans (hsame.trans hfirst)
  cases hdiffers

end Siralos.Inspection
