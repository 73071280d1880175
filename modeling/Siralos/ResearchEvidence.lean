import Siralos.EvidenceView

/-!
# Retained research evidence

Every fetched document leaves an excerpt in a ring of two bounds. The excerpt that was just pushed
is expected at its end.
-/

set_option autoImplicit false

namespace Siralos.Research

inductive ResearchSourceKind where
  | repository
  | godotDocs
  | fake
  deriving DecidableEq, Repr

structure ResearchSourceRef where
  kind : ResearchSourceKind
  id : Text
  label : Text
  deriving DecidableEq, Repr

structure ResearchProvenance where
  resolvedRevision : Option Text
  usedVersion : Option Text
  fallback : Bool
  deriving DecidableEq, Repr

/-- What the store reads of a document; `sections` holds their texts. -/
structure ResearchDocument where
  source : ResearchSourceRef
  fetchedAtMs : ℕ
  sections : List Text
  provenance : ResearchProvenance
  deriving DecidableEq, Repr

structure ResearchTaskBinding where
  taskId : Text
  taskContractRevision : ℕ
  deriving DecidableEq, Repr

structure ResearchEvidence where
  evidenceId : Text
  requestId : Text
  taskId : Text
  taskContractRevision : ℕ
  source : ResearchSourceRef
  fetchedAtMs : ℕ
  resolvedRevision : Option Text
  version : Option Text
  fallback : Bool
  excerpt : Text
  truncated : Bool
  byteLength : ℕ
  deriving DecidableEq, Repr

def maxResearchEvidenceExcerptBytes : ℕ := 4096

def maxRetainedEvidenceViews : ℕ := 8

structure ResearchEvidenceStore where
  maxEvidenceBytes : ℕ
  entries : List ResearchEvidence
  sequence : ℕ
  totalBytes : ℕ
  deriving DecidableEq, Repr

namespace ResearchEvidenceStore

def new (maxEvidenceBytes : ℕ) : ResearchEvidenceStore := ⟨maxEvidenceBytes, [], 0, 0⟩

/-- The store of a service that is built with an optional budget. -/
def ofOptions (maxEvidenceBytes : Option ℕ) : ResearchEvidenceStore :=
  let defaultBudget := maxRetainedEvidenceViews * maxResearchEvidenceExcerptBytes
  new (min (maxEvidenceBytes.getD defaultBudget) defaultBudget)

end ResearchEvidenceStore

/-- One call of `record`. -/
structure Fetched where
  document : ResearchDocument
  requestId : Text
  task : ResearchTaskBinding
  deriving DecidableEq, Repr

def excerptOf (document : ResearchDocument) : Text × Bool :=
  EvidenceView.truncateText (document.sections.head?.getD []) maxResearchEvidenceExcerptBytes

def evidenceId (sequence : ℕ) : Text := "ev-research-".toList ++ Text.ofNat sequence

def entryOf (sequence : ℕ) (fetched : Fetched) : ResearchEvidence :=
  let excerpt := excerptOf fetched.document
  { evidenceId := evidenceId sequence
    requestId := fetched.requestId
    taskId := fetched.task.taskId
    taskContractRevision := fetched.task.taskContractRevision
    source := fetched.document.source
    fetchedAtMs := fetched.document.fetchedAtMs
    resolvedRevision := fetched.document.provenance.resolvedRevision
    version := fetched.document.provenance.usedVersion
    fallback := fetched.document.provenance.fallback
    excerpt := excerpt.1
    truncated := excerpt.2
    byteLength := Text.utf8Len excerpt.1 }

/-- The oldest entries go while there are too many, or they are too long together. -/
def evict (maxEvidenceBytes : ℕ) : List ResearchEvidence → ℕ → List ResearchEvidence × ℕ
  | [], totalBytes => ([], totalBytes)
  | dropped :: entries, totalBytes =>
    if maxRetainedEvidenceViews < (dropped :: entries).length ∨ maxEvidenceBytes < totalBytes then
      evict maxEvidenceBytes entries (totalBytes - dropped.byteLength)
    else (dropped :: entries, totalBytes)

namespace ResearchEvidenceStore

/-- The entry at the end, or a panic when there is none. -/
def record (s : ResearchEvidenceStore) (fetched : Fetched) :
    Option (ResearchEvidence × ResearchEvidenceStore) :=
  let sequence := s.sequence + 1
  let entry := entryOf sequence fetched
  let kept := evict s.maxEvidenceBytes (s.entries ++ [entry]) (s.totalBytes + entry.byteLength)
  kept.1.getLast?.map fun last =>
    (last, { s with entries := kept.1, sequence := sequence, totalBytes := kept.2 })

/-- The entries that a run returns, and the store behind it. -/
def recordAll (s : ResearchEvidenceStore) :
    List Fetched → Option (List ResearchEvidence × ResearchEvidenceStore)
  | [] => some ([], s)
  | fetched :: rest => do
    let (entry, s) ← s.record fetched
    let (entries, s) ← recordAll s rest
    return (entry :: entries, s)

end ResearchEvidenceStore

def byteLengths (entries : List ResearchEvidence) : ℕ :=
  (entries.map ResearchEvidence.byteLength).sum

/-- The entries of the documents after those that are counted. -/
def entriesFrom (sequence : ℕ) : List Fetched → List ResearchEvidence
  | [] => []
  | fetched :: rest => entryOf (sequence + 1) fetched :: entriesFrom (sequence + 1) rest

/-- The run returns, each time, the entry of the document, and keeps a bounded end of them. -/
structure Retained (budget : ℕ) (recorded returned : List ResearchEvidence)
    (s : ResearchEvidenceStore) : Prop where
  returned : returned = recorded
  kept : s.entries <:+ recorded
  few : s.entries.length ≤ maxRetainedEvidenceViews
  counted : s.totalBytes = (s.entries.map fun entry => Text.utf8Len entry.excerpt).sum
  within : s.totalBytes ≤ budget
  distinct : (recorded.map ResearchEvidence.evidenceId).Nodup

theorem evict_suffix (budget : ℕ) (entries : List ResearchEvidence) (totalBytes : ℕ) :
    (evict budget entries totalBytes).1 <:+ entries := by
  induction entries generalizing totalBytes with
  | nil => exact List.suffix_rfl
  | cons dropped entries ih =>
    rw [evict]
    split
    · exact (ih _).trans (List.suffix_cons _ _)
    · exact List.suffix_rfl

theorem byte_lengths_drop (dropped : ResearchEvidence) (entries : List ResearchEvidence) :
    byteLengths (dropped :: entries) - dropped.byteLength = byteLengths entries := by
  rw [byteLengths, List.map_cons, List.sum_cons, Nat.add_sub_cancel_left]
  rfl

theorem evict_counted (budget : ℕ) (entries : List ResearchEvidence) :
    (evict budget entries (byteLengths entries)).2 =
      byteLengths (evict budget entries (byteLengths entries)).1 := by
  induction entries with
  | nil => rfl
  | cons dropped entries ih =>
    rw [evict]
    split
    · rw [byte_lengths_drop]
      exact ih
    · rfl

theorem evict_bounded (budget : ℕ) (entries : List ResearchEvidence) :
    (evict budget entries (byteLengths entries)).1.length ≤ maxRetainedEvidenceViews ∧
      (evict budget entries (byteLengths entries)).2 ≤ budget := by
  induction entries with
  | nil => exact ⟨Nat.zero_le _, Nat.zero_le _⟩
  | cons dropped entries ih =>
    rw [evict]
    split
    · rw [byte_lengths_drop]
      exact ih
    · rename_i hfits
      rw [not_or, Nat.not_lt, Nat.not_lt] at hfits
      exact hfits

theorem evict_last (budget : ℕ) (entries : List ResearchEvidence) (entry : ResearchEvidence) :
    (evict budget (entries ++ [entry]) (byteLengths (entries ++ [entry]))).1.getLast? =
      if entry.byteLength ≤ budget then some entry else none := by
  induction entries with
  | nil =>
    have hlength : ¬ maxRetainedEvidenceViews < [entry].length := Nat.not_lt.mpr (by
      show 1 ≤ 8
      decide)
    rw [List.nil_append, evict]
    by_cases hfits : entry.byteLength ≤ budget
    · rw [if_neg, if_pos hfits]
      · rfl
      · rintro (hlong | hlarge)
        · exact hlength hlong
        · exact absurd hfits (Nat.not_le.mpr hlarge)
    · rw [if_pos (.inr (Nat.not_le.mp hfits)), if_neg hfits]
      rfl
  | cons dropped entries ih =>
    rw [List.cons_append, evict]
    split
    · rw [byte_lengths_drop]
      exact ih
    · rename_i hfits
      rw [not_or, Nat.not_lt, Nat.not_lt] at hfits
      have hsmall : entry.byteLength ≤ budget := by
        refine le_trans ?_ hfits.2
        rw [byteLengths, List.map_cons, List.map_append, List.sum_cons, List.sum_append,
          List.map_singleton, List.sum_singleton]
        omega
      rw [if_pos hsmall, ← List.cons_append, List.getLast?_concat]

structure Sound (s : ResearchEvidenceStore) (recorded : List ResearchEvidence) : Prop where
  kept : s.entries <:+ recorded
  few : s.entries.length ≤ maxRetainedEvidenceViews
  counted : s.totalBytes = byteLengths s.entries
  within : s.totalBytes ≤ s.maxEvidenceBytes

theorem byte_lengths_append (entries : List ResearchEvidence) (entry : ResearchEvidence) :
    byteLengths (entries ++ [entry]) = byteLengths entries + entry.byteLength := by
  rw [byteLengths, List.map_append, List.sum_append, List.map_singleton, List.sum_singleton]
  rfl

theorem suffix_concat {xs ys : List ResearchEvidence} (h : xs <:+ ys) (entry : ResearchEvidence) :
    xs ++ [entry] <:+ ys ++ [entry] := by
  obtain ⟨front, rfl⟩ := h
  exact ⟨front, by rw [List.append_assoc]⟩

/-- The excerpt of the document fits the budget alone. -/
def Fits (budget : ℕ) (fetched : Fetched) : Prop :=
  Text.utf8Len (excerptOf fetched.document).1 ≤ budget

section Calls

variable {s : ResearchEvidenceStore} {recorded : List ResearchEvidence}

theorem pushed_counted (h : Sound s recorded) (entry : ResearchEvidence) :
    s.totalBytes + entry.byteLength = byteLengths (s.entries ++ [entry]) := by
  rw [h.counted, byte_lengths_append]

theorem record_returns (h : Sound s recorded) {fetched : Fetched}
    (hfits : Fits s.maxEvidenceBytes fetched) :
    ∃ after, s.record fetched = some (entryOf (s.sequence + 1) fetched, after) ∧
      Sound after (recorded ++ [entryOf (s.sequence + 1) fetched]) ∧
      after.sequence = s.sequence + 1 ∧ after.maxEvidenceBytes = s.maxEvidenceBytes := by
  have hlast := evict_last s.maxEvidenceBytes s.entries (entryOf (s.sequence + 1) fetched)
  rw [if_pos (show (entryOf (s.sequence + 1) fetched).byteLength ≤ _ from hfits)] at hlast
  have hbounded := evict_bounded s.maxEvidenceBytes
    (s.entries ++ [entryOf (s.sequence + 1) fetched])
  simp only [ResearchEvidenceStore.record, pushed_counted h, hlast]
  exact ⟨_, rfl, ⟨(evict_suffix _ _ _).trans (suffix_concat h.kept _), hbounded.1,
    evict_counted _ _, hbounded.2⟩, rfl, rfl⟩

theorem record_panics (h : Sound s recorded) {fetched : Fetched}
    (hlong : ¬ Fits s.maxEvidenceBytes fetched) : s.record fetched = none := by
  have hlast := evict_last s.maxEvidenceBytes s.entries (entryOf (s.sequence + 1) fetched)
  rw [if_neg (show ¬ (entryOf (s.sequence + 1) fetched).byteLength ≤ _ from hlong)] at hlast
  simp only [ResearchEvidenceStore.record, pushed_counted h, hlast]
  rfl

theorem record_all_returns (h : Sound s recorded) {fetched : List Fetched}
    (hfits : ∀ f ∈ fetched, Fits s.maxEvidenceBytes f) :
    ∃ after, s.recordAll fetched = some (entriesFrom s.sequence fetched, after) ∧
      Sound after (recorded ++ entriesFrom s.sequence fetched) ∧
      after.maxEvidenceBytes = s.maxEvidenceBytes := by
  induction fetched generalizing s recorded with
  | nil =>
    refine ⟨s, rfl, ?_, rfl⟩
    rw [entriesFrom, List.append_nil]
    exact h
  | cons first rest ih =>
    obtain ⟨middle, hrecord, hmiddle, hsequence, hbudget⟩ :=
      record_returns h (hfits first List.mem_cons_self)
    obtain ⟨after, hrun, hafter, hsame⟩ := ih hmiddle fun f hf =>
      hbudget ▸ hfits f (List.mem_cons_of_mem _ hf)
    rw [hsequence] at hrun hafter
    refine ⟨after, ?_, ?_, hsame.trans hbudget⟩
    · rw [ResearchEvidenceStore.recordAll, hrecord]
      show (middle.recordAll rest >>= _) = _
      rw [hrun]
      rfl
    · rw [List.append_assoc] at hafter
      exact hafter

theorem record_all_panics (h : Sound s recorded) {fetched : List Fetched}
    (hlong : ∃ f ∈ fetched, ¬ Fits s.maxEvidenceBytes f) : s.recordAll fetched = none := by
  induction fetched generalizing s recorded with
  | nil =>
    obtain ⟨f, hf, -⟩ := hlong
    cases hf
  | cons first rest ih =>
    by_cases hfits : Fits s.maxEvidenceBytes first
    · obtain ⟨middle, hrecord, hmiddle, -, hbudget⟩ := record_returns h hfits
      have hrest : ∃ f ∈ rest, ¬ Fits middle.maxEvidenceBytes f := by
        obtain ⟨f, hf, hnot⟩ := hlong
        rw [hbudget]
        rcases List.mem_cons.mp hf with rfl | hf
        · exact absurd hfits hnot
        · exact ⟨f, hf, hnot⟩
      rw [ResearchEvidenceStore.recordAll, hrecord]
      show (middle.recordAll rest >>= _) = _
      rw [ih hmiddle hrest]
      rfl
    · rw [ResearchEvidenceStore.recordAll, record_panics h hfits]
      rfl

end Calls

theorem evidence_ids (sequence : ℕ) (fetched : List Fetched) :
    (entriesFrom sequence fetched).map ResearchEvidence.evidenceId =
      (List.range' (sequence + 1) fetched.length).map evidenceId := by
  induction fetched generalizing sequence with
  | nil => rfl
  | cons first rest ih =>
    rw [entriesFrom, List.map_cons, ih, List.length_cons, List.range'_succ, List.map_cons]
    rfl

theorem evidence_ids_distinct (sequence : ℕ) (fetched : List Fetched) :
    ((entriesFrom sequence fetched).map ResearchEvidence.evidenceId).Nodup := by
  rw [evidence_ids]
  apply List.Nodup.map _ (List.nodup_range' 1)
  intro m n h
  exact Text.of_nat_inj (List.append_cancel_left h)

theorem entries_measured (sequence : ℕ) (fetched : List Fetched) :
    ∀ entry ∈ entriesFrom sequence fetched,
      entry.byteLength = Text.utf8Len entry.excerpt := by
  induction fetched generalizing sequence with
  | nil => nofun
  | cons first rest ih => exact List.forall_mem_cons.mpr ⟨rfl, ih (sequence + 1)⟩

/-- The run returns the entries of its documents and keeps a bounded end of them. -/
def RetainsAll (budget : Option ℕ) (fetched : List Fetched) : Prop :=
  ∃ returned s, (ResearchEvidenceStore.ofOptions budget).recordAll fetched = some (returned, s) ∧
    Retained (ResearchEvidenceStore.ofOptions budget).maxEvidenceBytes (entriesFrom 0 fetched)
      returned s

/-- Recording goes on exactly while every excerpt fits the budget alone. -/
theorem evidence_retained_iff (budget : Option ℕ) (fetched : List Fetched) :
    RetainsAll budget fetched ↔
      ∀ f ∈ fetched, Fits (ResearchEvidenceStore.ofOptions budget).maxEvidenceBytes f := by
  have hfresh : Sound (ResearchEvidenceStore.ofOptions budget) [] :=
    ⟨List.suffix_rfl, Nat.zero_le _, rfl, Nat.zero_le _⟩
  constructor
  · rintro ⟨returned, s, hrecord, -⟩
    by_contra hlong
    push Not at hlong
    rw [record_all_panics hfresh hlong] at hrecord
    cases hrecord
  · intro hfits
    obtain ⟨after, hrecord, hsound, hbudget⟩ := record_all_returns hfresh hfits
    refine ⟨_, after, hrecord, rfl, hsound.kept, hsound.few, ?_, ?_, ?_⟩
    · rw [hsound.counted, byteLengths]
      congr 1
      apply List.map_congr_left
      intro entry hentry
      exact entries_measured 0 fetched entry (hsound.kept.subset hentry)
    · rw [← hbudget]
      exact hsound.within
    · exact evidence_ids_distinct 0 fetched

def sampleFetched : Fetched where
  document := ⟨⟨.fake, ['s'], ['l']⟩, 0, [['x']], ⟨none, none, false⟩⟩
  requestId := ['r']
  task := ⟨['t'], 1⟩

/-- An empty budget evicts the entry that was just pushed. -/
theorem evidence_retained_fails :
    ¬ ∀ (budget : Option ℕ) (fetched : List Fetched), RetainsAll budget fetched := by
  intro h
  obtain ⟨returned, s, hrecord, -⟩ := h (some 0) [sampleFetched]
  have hpanic : (ResearchEvidenceStore.ofOptions (some 0)).recordAll [sampleFetched] = none := by
    decide
  rw [hpanic] at hrecord
  cases hrecord

end Siralos.Research
