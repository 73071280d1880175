import Siralos.ScopeRuns
import Mathlib.Algebra.BigOperators.Group.List.Basic

/-!
# What an eviction gives up

The counters of the loop are the totals of the scope it has reached, so the loop stops behind the
shortest prefix of the eviction order that brings the scope within its budgets.
-/

set_option autoImplicit false

namespace Siralos.Scope

def exactCount (scope : WorkspaceScope) : ℕ :=
  (exactFiles scope.verifiedFiles).length + (exactFiles scope.candidateFiles).length

def reportedBytes (report : List (Text × ℕ)) (files : List SourceFileRef) : ℕ :=
  (files.map fun file => sizeOf report file.path).sum

def exactBytes (report : List (Text × ℕ)) (scope : WorkspaceScope) : ℕ :=
  reportedBytes report (exactFiles scope.verifiedFiles ++ exactFiles scope.candidateFiles)

structure Within (report : List (Text × ℕ)) (scope : WorkspaceScope) : Prop where
  files : exactCount scope ≤ scope.budget.maxActiveExactFiles
  bytes : exactBytes report scope ≤ scope.budget.maxExactBytes

def workingPaths (input : EvictLowValueContextInput) : List Text :=
  (input.workingSet.map ActiveWorkingSet.files).getD []

/-- Exact candidates, then the exact verified files outside the working set, then those inside. -/
def evictionOrder (working : List Text) (scope : WorkspaceScope) : List SourceFileRef :=
  exactFiles scope.candidateFiles ++
    (exactFiles scope.verifiedFiles).filter (fun file => !working.contains file.path) ++
    (exactFiles scope.verifiedFiles).filter fun file => working.contains file.path

def summariseFiles (victims : List Text) (files : List SourceFileRef) : List SourceFileRef :=
  files.map fun file => if file.path ∈ victims then { file with view := .summary } else file

/-- The scope with the files of these paths in their summary view. -/
def summarised (victims : List Text) (scope : WorkspaceScope) : WorkspaceScope :=
  { scope with
    verifiedFiles := summariseFiles victims scope.verifiedFiles
    candidateFiles := summariseFiles victims scope.candidateFiles }

/-- No path twice, neither in one list nor in both. -/
def Distinct (scope : WorkspaceScope) : Prop :=
  (paths scope.verifiedFiles ++ paths scope.candidateFiles).Nodup

instance (scope : WorkspaceScope) : Decidable (Distinct scope) :=
  inferInstanceAs (Decidable (List.Nodup _))

theorem summarise_nil (files : List SourceFileRef) : summariseFiles [] files = files :=
  List.map_id'' (fun _ => if_neg List.not_mem_nil) files

theorem summarise_paths (victims : List Text) (files : List SourceFileRef) :
    paths (summariseFiles victims files) = paths files := by
  rw [paths, summariseFiles, List.map_map]
  apply List.map_congr_left
  intro file _
  show (if file.path ∈ victims then _ else _ : SourceFileRef).path = file.path
  split
  · rfl
  · rfl

theorem summarise_snoc (victims : List Text) (path : Text) (files : List SourceFileRef) :
    setView path .summary (summariseFiles victims files) =
      summariseFiles (victims ++ [path]) files := by
  rw [setView, summariseFiles, summariseFiles, List.map_map]
  apply List.map_congr_left
  intro file _
  rw [Function.comp_apply]
  by_cases hvictim : file.path ∈ victims
  · rw [if_pos hvictim, if_pos (List.mem_append_left _ hvictim)]
    split
    · rfl
    · rfl
  · rw [if_neg hvictim]
    by_cases hpath : file.path = path
    · rw [if_pos hpath, if_pos (List.mem_append_right _ (hpath ▸ List.mem_cons_self))]
    · rw [if_neg hpath, if_neg]
      intro hmem
      rcases List.mem_append.mp hmem with hmem | hmem
      · exact hvictim hmem
      · exact hpath (List.mem_singleton.mp hmem)

theorem set_view_unknown (path : Text) (view : SourceView) (files : List SourceFileRef)
    (h : holds files path = false) : setView path view files = files := by
  have hapart := (holds_false files path).mp h
  calc setView path view files = files.map id := by
        apply List.map_congr_left
        intro file hfile
        exact if_neg fun hpath : file.path = path =>
          hapart (hpath ▸ List.mem_map_of_mem hfile)
    _ = files := List.map_id files

theorem set_view_summarised (victims : List Text) (path : Text) (scope : WorkspaceScope)
    (h : path ∈ paths scope.verifiedFiles ++ paths scope.candidateFiles) :
    setFileView (summarised victims scope) path .summary =
      .ok (summarised (victims ++ [path]) scope) := by
  have hknown : (!holds (summarised victims scope).verifiedFiles path &&
      !holds (summarised victims scope).candidateFiles path) = false := by
    rcases List.mem_append.mp h with hpath | hpath
    · have hholds := (holds_true (summarised victims scope).verifiedFiles path).mpr (by
        rwa [summarised, summarise_paths])
      rw [hholds]
      rfl
    · have hholds := (holds_true (summarised victims scope).candidateFiles path).mpr (by
        rwa [summarised, summarise_paths])
      rw [hholds, Bool.not_true, Bool.and_false]
  have hfiles : ∀ files, (if holds (summariseFiles victims files) path then
      setView path .summary (summariseFiles victims files) else summariseFiles victims files) =
        summariseFiles (victims ++ [path]) files := by
    intro files
    rw [← summarise_snoc]
    split
    · rfl
    · rename_i hnone
      exact (set_view_unknown path .summary _ (Bool.eq_false_iff.mpr hnone)).symm
  rw [setFileView, hknown]
  show Except.ok _ = Except.ok _
  rw [summarised, summarised, ← hfiles scope.verifiedFiles, ← hfiles scope.candidateFiles]

theorem summarised_exact (victims : List Text) (files : List SourceFileRef) :
    exactFiles (summariseFiles victims files) =
      (exactFiles files).filter fun file => !victims.contains file.path := by
  induction files with
  | nil => rfl
  | cons file files ih =>
    rw [exactFiles, exactFiles] at ih ⊢
    rw [summariseFiles, List.map_cons, ← summariseFiles, List.filter_cons, List.filter_cons, ih]
    by_cases hvictim : file.path ∈ victims
    · rw [if_pos hvictim, if_neg (show ¬ (SourceView.summary == SourceView.exact) = true by decide)]
      have hcontains : (!victims.contains file.path) = false := by simpa using hvictim
      split
      · rw [List.filter_cons, hcontains, if_neg Bool.false_ne_true]
      · rfl
    · rw [if_neg hvictim]
      have hcontains : (!victims.contains file.path) = true := by simpa using hvictim
      split
      · rw [List.filter_cons, hcontains, if_pos rfl]
      · rfl

theorem distinct_summarised (victims : List Text) (scope : WorkspaceScope) :
    Distinct (summarised victims scope) ↔ Distinct scope := by
  rw [Distinct, Distinct, summarised, summarise_paths, summarise_paths]

theorem order_perm (working : List Text) (scope : WorkspaceScope) :
    (evictionOrder working scope).Perm
      (exactFiles scope.verifiedFiles ++ exactFiles scope.candidateFiles) := by
  have hverified := List.filter_append_perm (fun file => !working.contains file.path)
    (exactFiles scope.verifiedFiles)
  simp only [Bool.not_not] at hverified
  rw [evictionOrder, List.append_assoc]
  exact (hverified.append_left _).trans List.perm_append_comm

theorem order_distinct (working : List Text) {scope : WorkspaceScope} (h : Distinct scope) :
    (paths (evictionOrder working scope)).Nodup := by
  have hsublist : (paths (exactFiles scope.verifiedFiles ++ exactFiles scope.candidateFiles)).Sublist
      (paths scope.verifiedFiles ++ paths scope.candidateFiles) := by
    rw [paths, List.map_append]
    exact (List.filter_sublist.map _).append (List.filter_sublist.map _)
  exact ((order_perm working scope).map _).nodup_iff.mpr (hsublist.nodup h)

theorem order_known (working : List Text) {scope : WorkspaceScope} {file : SourceFileRef}
    (h : file ∈ evictionOrder working scope) :
    file.path ∈ paths scope.verifiedFiles ++ paths scope.candidateFiles := by
  rcases List.mem_append.mp ((order_perm working scope).mem_iff.mp h) with hfile | hfile
  · exact List.mem_append_left _ (List.mem_map_of_mem (List.mem_of_mem_filter hfile))
  · exact List.mem_append_right _ (List.mem_map_of_mem (List.mem_of_mem_filter hfile))

theorem filter_behind (front rest : List SourceFileRef) (h : (paths (front ++ rest)).Nodup) :
    (front ++ rest).filter (fun file => !(paths front).contains file.path) = rest := by
  rw [paths, List.map_append, List.nodup_append] at h
  have hnone : front.filter (fun file => !(paths front).contains file.path) = [] := by
    apply List.filter_eq_nil_iff.mpr
    intro file hfile hout
    have hmem : file.path ∈ paths front := List.mem_map_of_mem hfile
    simp [hmem] at hout
  have hall : rest.filter (fun file => !(paths front).contains file.path) = rest := by
    apply List.filter_eq_self.mpr
    intro file hfile
    have hapart : file.path ∉ paths front :=
      fun hmem => h.2.2 _ hmem _ (List.mem_map_of_mem hfile) rfl
    simpa using hapart
  rw [List.filter_append, hnone, hall, List.nil_append]

theorem exact_behind (working : List Text) {scope : WorkspaceScope} (h : Distinct scope) (n : ℕ) :
    (exactFiles (summarised (paths ((evictionOrder working scope).take n)) scope).verifiedFiles ++
      exactFiles (summarised (paths ((evictionOrder working scope).take n)) scope).candidateFiles).Perm
      ((evictionOrder working scope).drop n) := by
  have hsplit := List.take_append_drop n (evictionOrder working scope)
  have hbehind := filter_behind ((evictionOrder working scope).take n)
    ((evictionOrder working scope).drop n) (by rw [hsplit]; exact order_distinct working h)
  rw [summarised, summarised_exact, summarised_exact, ← List.filter_append]
  rw [hsplit] at hbehind
  have hperm := (order_perm working scope).symm.filter
    (fun file => !(paths ((evictionOrder working scope).take n)).contains file.path)
  rwa [hbehind] at hperm

theorem totals_behind (working : List Text) (report : List (Text × ℕ)) {scope : WorkspaceScope}
    (h : Distinct scope) (n : ℕ) :
    exactCount (summarised (paths ((evictionOrder working scope).take n)) scope) =
      ((evictionOrder working scope).drop n).length ∧
    exactBytes report (summarised (paths ((evictionOrder working scope).take n)) scope) =
      reportedBytes report ((evictionOrder working scope).drop n) := by
  have hperm := exact_behind working h n
  constructor
  · rw [← hperm.length_eq, List.length_append]
    rfl
  · exact (hperm.map _).sum_eq

section Loop

variable (input : EvictLowValueContextInput) (scope : WorkspaceScope)

/-- After `n` evictions, all of them needed. -/
structure Reached (n : ℕ) (d : Demotion) : Prop where
  reached : d.scope = summarised (paths ((evictionOrder (workingPaths input) scope).take n)) scope
  count : d.exactCount = ((evictionOrder (workingPaths input) scope).drop n).length
  bytes : d.exactBytes =
    reportedBytes input.exactBytesOf ((evictionOrder (workingPaths input) scope).drop n)
  evicted : d.evicted.map EvictionRecord.path =
    paths ((evictionOrder (workingPaths input) scope).take n)
  views : ∀ record ∈ d.evicted, record.droppedView = .exact ∧ record.retainedView = .summary
  needed : ∀ m < n, ¬ Within input.exactBytesOf
    (summarised (paths ((evictionOrder (workingPaths input) scope).take m)) scope)

variable {input scope}

theorem reached_over (hdistinct : Distinct scope) {n : ℕ} {d : Demotion}
    (h : Reached input scope n d) :
    d.over = false ↔ Within input.exactBytesOf d.scope := by
  obtain ⟨hcount, hbytes⟩ := totals_behind (workingPaths input) input.exactBytesOf hdistinct n
  rw [← h.reached] at hcount hbytes
  rw [Demotion.over, Bool.or_eq_false_iff, decide_eq_false_iff_not, decide_eq_false_iff_not,
    h.count, h.bytes, ← hcount, ← hbytes, Nat.not_lt, Nat.not_lt]
  exact ⟨fun hboth => ⟨hboth.1, hboth.2⟩, fun hboth => ⟨hboth.files, hboth.bytes⟩⟩

theorem demote_reached (hdistinct : Distinct scope) {estimated : List (Text × ℕ)}
    (hsizes : ∀ file ∈ evictionOrder (workingPaths input) scope,
      sizeOf estimated file.path = sizeOf input.exactBytesOf file.path)
    {n : ℕ} {d : Demotion} (h : Reached input scope n d) (hover : d.over = true)
    {file : SourceFileRef} {files : List SourceFileRef}
    (hnext : (evictionOrder (workingPaths input) scope).drop n = file :: files) :
    ∃ next, demote (workingPaths input) estimated d file = .ok next ∧
      Reached input scope (n + 1) next := by
  have hmem : file ∈ evictionOrder (workingPaths input) scope :=
    List.mem_of_mem_drop (hnext ▸ List.mem_cons_self)
  have hset := set_view_summarised (paths ((evictionOrder (workingPaths input) scope).take n))
    file.path scope (order_known _ hmem)
  have hlt : n < (evictionOrder (workingPaths input) scope).length := by
    by_contra hge
    rw [List.drop_eq_nil_of_le (by omega)] at hnext
    cases hnext
  have htake : (evictionOrder (workingPaths input) scope).take (n + 1) =
      (evictionOrder (workingPaths input) scope).take n ++ [file] := by
    have hget : (evictionOrder (workingPaths input) scope)[n]? = some file := by
      rw [← List.head?_drop, hnext, List.head?_cons]
    rw [List.take_add_one, hget]
    rfl
  have hdrop : (evictionOrder (workingPaths input) scope).drop (n + 1) = files := by
    rw [← List.tail_drop, hnext, List.tail_cons]
  refine ⟨_, by rw [demote, h.reached, hset]; rfl, ?_⟩
  have hpaths : paths ((evictionOrder (workingPaths input) scope).take (n + 1)) =
      paths ((evictionOrder (workingPaths input) scope).take n) ++ [file.path] := by
    rw [htake, paths, List.map_append]
    rfl
  constructor
  case reached => rw [hpaths]
  case count =>
    show d.exactCount - 1 = _
    rw [h.count, hnext, hdrop, List.length_cons, Nat.add_sub_cancel]
  case bytes =>
    show d.exactBytes - sizeOf estimated file.path = _
    rw [h.bytes, hnext, hdrop, hsizes file hmem, reportedBytes, List.map_cons, List.sum_cons,
      Nat.add_sub_cancel_left]
    rfl
  case evicted =>
    rw [hpaths, List.map_append, h.evicted]
    rfl
  case views =>
    intro record hrecord
    rcases List.mem_append.mp hrecord with hrecord | hrecord
    · exact h.views record hrecord
    · rw [List.mem_singleton.mp hrecord]
      exact ⟨rfl, rfl⟩
  case needed =>
    intro m hm
    by_cases hlast : m < n
    · exact h.needed m hlast
    · have hmn : m = n := by omega
      subst hmn
      rw [← h.reached, ← reached_over hdistinct h, hover]
      exact Bool.noConfusion

theorem loop_reached (hdistinct : Distinct scope) {estimated : List (Text × ℕ)}
    (hsizes : ∀ file ∈ evictionOrder (workingPaths input) scope,
      sizeOf estimated file.path = sizeOf input.exactBytesOf file.path)
    (rest : List SourceFileRef) {n : ℕ} {d : Demotion} (h : Reached input scope n d)
    (hrest : (evictionOrder (workingPaths input) scope).drop n = rest) :
    ∃ k final, demoteWhileOver (workingPaths input) estimated d rest = .ok final ∧
      Reached input scope k final ∧ Within input.exactBytesOf final.scope := by
  induction rest generalizing n d with
  | nil =>
    refine ⟨n, d, rfl, h, ?_⟩
    apply (reached_over hdistinct h).mp
    rw [Demotion.over, h.count, h.bytes, hrest]
    rfl
  | cons file files ih =>
    rw [demoteWhileOver]
    by_cases hover : d.over = true
    · obtain ⟨next, hdemote, hreached⟩ := demote_reached hdistinct hsizes h hover hrest
      rw [if_pos hover, hdemote]
      apply ih hreached
      rw [← List.tail_drop, hrest, List.tail_cons]
    · rw [if_neg hover]
      exact ⟨n, d, rfl, h, (reached_over hdistinct h).mp (Bool.eq_false_iff.mpr hover)⟩

end Loop

def evictionStart (scope : WorkspaceScope) (report : List (Text × ℕ)) : Demotion where
  scope := scope
  exactCount := (exactFiles scope.verifiedFiles).length + (exactFiles scope.candidateFiles).length
  exactBytes := (((exactFiles scope.verifiedFiles ++ exactFiles scope.candidateFiles).map
    fun file => (file.path, sizeOf report file.path)).map Prod.snd).sum
  evicted := []

def estimatedBytes (scope : WorkspaceScope) (report : List (Text × ℕ)) : List (Text × ℕ) :=
  (exactFiles scope.verifiedFiles ++ exactFiles scope.candidateFiles).map fun file =>
    (file.path, sizeOf report file.path)

theorem evict_eq (scope : WorkspaceScope) (input : EvictLowValueContextInput) :
    evictLowValueContext scope input =
      (demoteWhileOver (workingPaths input) (estimatedBytes scope input.exactBytesOf)
        (evictionStart scope input.exactBytesOf) (evictionOrder (workingPaths input) scope) >>=
          fun final => .ok (final.scope, final.evicted)) := rfl

theorem estimated_size (report : List (Text × ℕ)) (files : List SourceFileRef)
    {file : SourceFileRef} (h : file ∈ files) :
    sizeOf (files.map fun other => (other.path, sizeOf report other.path)) file.path =
      sizeOf report file.path := by
  induction files with
  | nil => cases h
  | cons other files ih =>
    rw [List.map_cons, sizeOf, List.find?_cons]
    by_cases hpath : other.path = file.path
    · rw [beq_iff_eq.mpr hpath, hpath]
      rfl
    · rw [beq_eq_false_iff_ne.mpr hpath]
      rcases List.mem_cons.mp h with rfl | h
      · exact absurd rfl hpath
      · exact ih h

theorem start_reached (scope : WorkspaceScope) (input : EvictLowValueContextInput)
    (hdistinct : Distinct scope) :
    Reached input scope 0 (evictionStart scope input.exactBytesOf) := by
  have hnone : summarised (paths []) scope = scope := by
    rw [summarised, paths, List.map_nil, summarise_nil, summarise_nil]
  obtain ⟨hcount, hbytes⟩ := totals_behind (workingPaths input) input.exactBytesOf hdistinct 0
  rw [List.take_zero, hnone] at hcount hbytes
  constructor
  case reached => rw [List.take_zero, hnone]; rfl
  case count => exact hcount
  case bytes =>
    rw [← hbytes, evictionStart, List.map_map]
    rfl
  case evicted => rfl
  case views => exact fun _ h => absurd h List.not_mem_nil
  case needed => exact fun m hm => absurd hm (Nat.not_lt_zero m)

theorem evict_within {scope : WorkspaceScope} {input : EvictLowValueContextInput}
    (hdistinct : Distinct scope) (h : Within input.exactBytesOf scope) :
    evictLowValueContext scope input = .ok (scope, []) := by
  have hover := (reached_over hdistinct (start_reached scope input hdistinct)).mpr h
  rw [evict_eq]
  cases evictionOrder (workingPaths input) scope with
  | nil => rfl
  | cons file files =>
    rw [demoteWhileOver, hover]
    rfl

structure Evicts (scope : WorkspaceScope) (input : EvictLowValueContextInput)
    (after : WorkspaceScope) (evicted : List EvictionRecord) : Prop where
  within : Within input.exactBytesOf after
  shortest : ∃ n, evicted.map EvictionRecord.path =
      paths ((evictionOrder (workingPaths input) scope).take n) ∧
    after = summarised (paths ((evictionOrder (workingPaths input) scope).take n)) scope ∧
    ∀ m < n, ¬ Within input.exactBytesOf
      (summarised (paths ((evictionOrder (workingPaths input) scope).take m)) scope)
  views : ∀ record ∈ evicted, record.droppedView = .exact ∧ record.retainedView = .summary
  again : evictLowValueContext after input = .ok (after, [])

/-- The shortest prefix of the order is summarised, whatever the working set and the report. -/
theorem eviction_law (scope : WorkspaceScope) (input : EvictLowValueContextInput)
    (hdistinct : Distinct scope) :
    ∃ after evicted, evictLowValueContext scope input = .ok (after, evicted) ∧
      Evicts scope input after evicted := by
  have hsizes : ∀ file ∈ evictionOrder (workingPaths input) scope,
      sizeOf (estimatedBytes scope input.exactBytesOf) file.path =
        sizeOf input.exactBytesOf file.path := by
    intro file hfile
    exact estimated_size _ _ ((order_perm (workingPaths input) scope).mem_iff.mp hfile)
  obtain ⟨n, final, hloop, hreached, hwithin⟩ := loop_reached hdistinct hsizes _
    (start_reached scope input hdistinct) rfl
  refine ⟨final.scope, final.evicted, by rw [evict_eq, List.drop_zero] at *; rw [hloop]; rfl, ?_⟩
  have hafter : Distinct final.scope := by
    rw [hreached.reached, distinct_summarised]
    exact hdistinct
  exact
    { within := hwithin
      shortest := ⟨n, hreached.evicted, hreached.reached, hreached.needed⟩
      views := hreached.views
      again := evict_within hafter hwithin }

/-- An exact verified file and an exact candidate, of which only one may stay exact. -/
def crowdedScope : WorkspaceScope :=
  { sampleScope { sampleFile with view := .exact } with
    candidateFiles := [{ candidateOf ['b'] none with view := .exact }]
    budget := { maxActiveExactFiles := 1 } }

def crowdedReport : EvictLowValueContextInput := ⟨some ⟨[sampleFile.path]⟩, [(['b'], 7)]⟩

theorem eviction_sample :
    ∃ after evicted, evictLowValueContext crowdedScope crowdedReport = .ok (after, evicted) ∧
      Evicts crowdedScope crowdedReport after evicted :=
  eviction_law crowdedScope crowdedReport (by decide)

end Siralos.Scope
