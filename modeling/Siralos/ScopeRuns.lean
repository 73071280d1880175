import Siralos.Keyed
import Siralos.Scope

/-!
# Runs of the workspace scope

Every operation keeps the files apart, the history a suffix of what was promoted and the bounds,
with two exceptions: a file that came in among the verified ones without calling itself verified
has no evidence to show, and a candidate budget above the hard limit lets the candidates grow.
-/

set_option autoImplicit false

namespace Siralos.Scope

inductive Call where
  | addCandidateFile (path : Text) (note : Option Text)
  | promoteCandidateFile (path : Text) (promotion : PromotionRequest)
  | setFileView (path : Text) (view : SourceView)
  | evictLowValueContext (input : EvictLowValueContextInput)
  deriving DecidableEq, Repr

/-- A refused operation leaves the caller with the scope it had. -/
def kept (scope : WorkspaceScope) (result : Except Text WorkspaceScope) : WorkspaceScope :=
  result.toOption.getD scope

def step (scope : WorkspaceScope) : Call → WorkspaceScope
  | .addCandidateFile path note => kept scope (addCandidateFile scope path note)
  | .promoteCandidateFile path promotion =>
    kept scope ((promoteCandidateFile scope path promotion).map Prod.fst)
  | .setFileView path view => kept scope (setFileView scope path view)
  | .evictLowValueContext input => kept scope ((evictLowValueContext scope input).map Prod.fst)

def performed (scope : WorkspaceScope) : Call → List ScopePromotionRecord
  | .promoteCandidateFile path promotion =>
    ((promoteCandidateFile scope path promotion).map Prod.snd).toOption.toList
  | _ => []

structure Evidenced (file : SourceFileRef) : Prop where
  revision : ∃ revision, file.revision = some revision ∧ isRevisionHandle revision = true
  evidence : ∃ evidence, file.evidence = some evidence ∧ evidence ≠ []

structure Sound (scope : WorkspaceScope) (promoted : List ScopePromotionRecord) : Prop where
  distinct : (paths scope.verifiedFiles ++ paths scope.candidateFiles).Nodup
  evidenced : ∀ file ∈ scope.verifiedFiles, Evidenced file
  verified : scope.verifiedFiles.length ≤ maxVerifiedFiles
  candidates : scope.candidateFiles.length ≤ maxCandidateFiles
  promotions : scope.promotions.length ≤ maxPromotions
  history : scope.promotions <:+ promoted

/-- A candidate leaves by its promotion, or as the oldest one over the candidate budget. -/
def Leaves (scope : WorkspaceScope) (call : Call) (after : WorkspaceScope) (path : Text) : Prop :=
  (∃ promotion, call = .promoteCandidateFile path promotion ∧ path ∈ paths after.verifiedFiles) ∨
    (∃ added note, call = .addCandidateFile added note) ∧
      (paths scope.candidateFiles).head? = some path ∧
      scope.budget.maxCandidateFiles < scope.candidateFiles.length + 1

structure KeepsFiles (scope : WorkspaceScope) (call : Call) (after : WorkspaceScope) : Prop where
  verified : ∀ path ∈ paths scope.verifiedFiles, path ∈ paths after.verifiedFiles
  candidates : ∀ path ∈ paths scope.candidateFiles,
    path ∈ paths after.candidateFiles ∨ Leaves scope call after path

/-- The claim on a run: every state is sound and every step keeps the files. -/
def RunSound (scope : WorkspaceScope) (promoted : List ScopePromotionRecord) : List Call → Prop
  | [] => Sound scope promoted
  | call :: calls => Sound scope promoted ∧ KeepsFiles scope call (step scope call) ∧
      RunSound (step scope call) (promoted ++ performed scope call) calls

/-- What a file needs to be evidenced once it is read. -/
def GivesEvidence (file : SourceFileRef) : Prop :=
  file.confidence = .verified ∨
    (∃ revision, file.revision = some revision ∧ isRevisionHandle (Text.trim revision) = true) ∧
      file.evidence.isSome = true

/-- A new candidate over the hard limit meets a candidate budget that drops the oldest one. -/
def HasRoom (scope : WorkspaceScope) : Call → Prop
  | .addCandidateFile path note => ∀ reference, validateFileRef (candidateOf path note) = .ok reference →
      holds scope.verifiedFiles reference.path = false →
      holds scope.candidateFiles reference.path = false →
      scope.candidateFiles.length < maxCandidateFiles ∨
        scope.budget.maxCandidateFiles ≤ maxCandidateFiles
  | _ => True

def RunHasRoom (scope : WorkspaceScope) : List Call → Prop
  | [] => True
  | call :: calls => HasRoom scope call ∧ RunHasRoom (step scope call) calls

theorem bounded_text {value field text : Text} {maxBytes : ℕ}
    (h : requireBoundedText value maxBytes field = .ok text) : text = Text.trim value ∧ text ≠ [] := by
  simp only [requireBoundedText, except_bind_ok, refuse_ok, Except.ok.injEq] at h
  obtain ⟨-, hempty, -, -, rfl⟩ := h
  exact ⟨rfl, by simpa using hempty⟩

theorem bounded_option {value text : Option Text} {field : Text} {maxBytes : ℕ}
    (h : boundedOption maxBytes field value = .ok text) :
    text = value.map Text.trim ∧ ∀ t, text = some t → t ≠ [] := by
  cases value with
  | none =>
    simp only [boundedOption, Except.ok.injEq] at h
    subst h
    exact ⟨rfl, fun t ht => by cases ht⟩
  | some v =>
    cases hbounded : requireBoundedText v maxBytes field with
    | error e =>
      rw [boundedOption, hbounded] at h
      cases h
    | ok t =>
      rw [boundedOption, hbounded] at h
      simp only [Except.map, Except.ok.injEq] at h
      subst h
      obtain ⟨rfl, hne⟩ := bounded_text hbounded
      exact ⟨rfl, fun t ht => Option.some.inj ht ▸ hne⟩

theorem validated_file {file reference : SourceFileRef} (h : validateFileRef file = .ok reference) :
    Evidenced reference ↔ GivesEvidence file := by
  simp only [validateFileRef, except_bind_ok, refuse_ok, Except.ok.injEq] at h
  obtain ⟨path, -, revision, hrevision, evidence, hevidence, reason, -, -, hhandle, -, hgiven, rfl⟩ := h
  obtain ⟨hrevision, -⟩ := bounded_option hrevision
  obtain ⟨hevidence, hne⟩ := bounded_option hevidence
  constructor
  · intro he
    obtain ⟨t, ht, hhandle⟩ := he.revision
    obtain ⟨e, he, -⟩ := he.evidence
    refine Or.inr ⟨?_, ?_⟩
    · rw [hrevision] at ht
      obtain ⟨value, hvalue, rfl⟩ := Option.map_eq_some_iff.mp ht
      exact ⟨value, hvalue, hhandle⟩
    · rw [hevidence] at he
      obtain ⟨value, hvalue, -⟩ := Option.map_eq_some_iff.mp he
      rw [hvalue]
      rfl
  · intro hgives
    have hhandle : ∃ t, revision = some t ∧ isRevisionHandle t = true := by
      rcases hgives with hverified | ⟨⟨value, hvalue, hvalid⟩, -⟩
      · rw [hverified] at hhandle
        exact (Option.any_eq_true _ _).mp (by simpa using hhandle)
      · exact ⟨Text.trim value, by rw [hrevision, hvalue]; rfl, hvalid⟩
    have hgiven : ∃ e, evidence = some e := by
      rcases hgives with hverified | ⟨-, hsome⟩
      · rw [hverified] at hgiven
        exact Option.isSome_iff_exists.mp (by simpa using hgiven)
      · obtain ⟨value, hvalue⟩ := Option.isSome_iff_exists.mp hsome
        exact ⟨Text.trim value, by rw [hevidence, hvalue]; rfl⟩
    obtain ⟨e, he⟩ := hgiven
    exact ⟨hhandle, e, he, hne e he⟩

theorem collected_files {taken : List Text} {duplicate : Text} {files references : List SourceFileRef}
    (h : collectFiles taken duplicate files = .ok references) :
    List.Forall₂ (fun file reference => validateFileRef file = .ok reference) files references := by
  induction files generalizing taken references with
  | nil =>
    simp only [collectFiles, Except.ok.injEq] at h
    subst h
    exact .nil
  | cons file files ih =>
    simp only [collectFiles, except_bind_ok, Except.ok.injEq] at h
    obtain ⟨reference, hreference, -, -, rest, hrest, rfl⟩ := h
    exact .cons hreference (ih hrest)

theorem collected_distinct {taken : List Text} {duplicate : Text}
    {files references : List SourceFileRef} (htaken : taken.Nodup)
    (h : collectFiles taken duplicate files = .ok references) :
    (taken ++ paths references).Nodup := by
  induction files generalizing taken references with
  | nil =>
    simp only [collectFiles, Except.ok.injEq] at h
    subst h
    simpa [paths] using htaken
  | cons file files ih =>
    simp only [collectFiles, except_bind_ok, refuse_ok, Except.ok.injEq] at h
    obtain ⟨reference, -, -, hnew, rest, hrest, rfl⟩ := h
    have hfresh : reference.path ∉ taken := by simpa using hnew
    have hnext : (taken ++ [reference.path]).Nodup := by
      apply List.nodup_append.mpr
      refine ⟨htaken, by simp, ?_⟩
      intro a ha b hb
      rw [List.mem_singleton.mp hb]
      exact fun heq => hfresh (heq ▸ ha)
    simpa [paths] using ih hnext hrest

/-- A new scope is sound but for the evidence of its verified files. -/
structure Created (input : CreateWorkspaceScopeInput) (scope : WorkspaceScope) : Prop where
  distinct : (paths scope.verifiedFiles ++ paths scope.candidateFiles).Nodup
  files : List.Forall₂ (fun file reference => validateFileRef file = .ok reference)
    input.verifiedFiles scope.verifiedFiles
  verified : scope.verifiedFiles.length ≤ maxVerifiedFiles
  candidates : scope.candidateFiles.length ≤ maxCandidateFiles
  promotions : scope.promotions.length ≤ maxPromotions

theorem created_scope {input : CreateWorkspaceScopeInput} {scope : WorkspaceScope}
    (h : createWorkspaceScope input = .ok scope) : Created input scope := by
  simp only [createWorkspaceScope, except_bind_ok, refuse_ok, Except.ok.injEq,
    decide_eq_false_iff_not, Nat.not_lt] at h
  obtain ⟨-, hverified, -, hcandidates, verified, hfiles, candidates, hothers, -, -, -, -, -, -, -, -,
    promotions, -, -, hpromotions, -, -, rfl⟩ := h
  have haligned := collected_files hfiles
  have hdistinct := collected_distinct (by simpa using collected_distinct List.nodup_nil hfiles) hothers
  exact ⟨hdistinct, haligned, haligned.length_eq ▸ hverified,
    (collected_files hothers).length_eq ▸ hcandidates, hpromotions⟩

theorem created_evidenced {input : CreateWorkspaceScopeInput} {scope : WorkspaceScope}
    (h : Created input scope) :
    (∀ file ∈ scope.verifiedFiles, Evidenced file) ↔
      ∀ file ∈ input.verifiedFiles, GivesEvidence file := by
  constructor
  · intro hall file hfile
    obtain ⟨reference, hreference, hvalid⟩ := Keyed.aligned_left h.files.flip file hfile
    exact (validated_file hvalid).mp (hall reference hreference)
  · intro hall reference hreference
    obtain ⟨file, hfile, hvalid⟩ := Keyed.aligned_left h.files reference hreference
    exact (validated_file hvalid).mpr (hall file hfile)

def unviewed (file : SourceFileRef) : SourceFileRef := { file with view := .none }

/-- The scopes differ at most in the views of their files. -/
structure SameFiles (scope after : WorkspaceScope) : Prop where
  verified : after.verifiedFiles.map unviewed = scope.verifiedFiles.map unviewed
  candidates : after.candidateFiles.map unviewed = scope.candidateFiles.map unviewed
  promotions : after.promotions = scope.promotions

theorem same_paths {files others : List SourceFileRef} (h : others.map unviewed = files.map unviewed) :
    paths others = paths files := by
  have hpaths : ∀ fs : List SourceFileRef, paths fs = (fs.map unviewed).map SourceFileRef.path := by
    intro fs
    rw [List.map_map]
    rfl
  rw [hpaths, h, ← hpaths]

theorem same_evidenced {files others : List SourceFileRef}
    (h : others.map unviewed = files.map unviewed) (he : ∀ file ∈ files, Evidenced file) :
    ∀ file ∈ others, Evidenced file := by
  intro file hfile
  have hmem : unviewed file ∈ files.map unviewed := h ▸ List.mem_map_of_mem hfile
  obtain ⟨f, hf, heq⟩ := List.mem_map.mp hmem
  have hrevision : (unviewed f).revision = (unviewed file).revision := by rw [heq]
  have hevidence : (unviewed f).evidence = (unviewed file).evidence := by rw [heq]
  change f.revision = file.revision at hrevision
  change f.evidence = file.evidence at hevidence
  exact ⟨hrevision ▸ (he f hf).revision, hevidence ▸ (he f hf).evidence⟩

theorem same_refl (scope : WorkspaceScope) : SameFiles scope scope := ⟨rfl, rfl, rfl⟩

theorem same_trans {a b c : WorkspaceScope} (h : SameFiles a b) (h' : SameFiles b c) :
    SameFiles a c :=
  ⟨h'.verified.trans h.verified, h'.candidates.trans h.candidates, h'.promotions.trans h.promotions⟩

theorem same_sound {scope after : WorkspaceScope} {promoted : List ScopePromotionRecord}
    (h : SameFiles scope after) (hs : Sound scope promoted) : Sound after promoted where
  distinct := by
    rw [same_paths h.verified, same_paths h.candidates]
    exact hs.distinct
  evidenced := same_evidenced h.verified hs.evidenced
  verified := by
    have hlength := congrArg List.length h.verified
    simp only [List.length_map] at hlength
    exact hlength ▸ hs.verified
  candidates := by
    have hlength := congrArg List.length h.candidates
    simp only [List.length_map] at hlength
    exact hlength ▸ hs.candidates
  promotions := h.promotions ▸ hs.promotions
  history := h.promotions ▸ hs.history

theorem same_keeps {scope after : WorkspaceScope} (call : Call) (h : SameFiles scope after) :
    KeepsFiles scope call after where
  verified := by
    rw [same_paths h.verified]
    exact fun _ hmem => hmem
  candidates := by
    rw [same_paths h.candidates]
    exact fun _ hmem => Or.inl hmem

theorem set_unviewed (path : Text) (view : SourceView) (files : List SourceFileRef) :
    (setView path view files).map unviewed = files.map unviewed := by
  rw [setView, List.map_map]
  apply List.map_congr_left
  intro file _
  show unviewed (if file.path = path then { file with view } else file) = unviewed file
  split <;> rfl

theorem set_same {scope after : WorkspaceScope} {path : Text} {view : SourceView}
    (h : setFileView scope path view = .ok after) : SameFiles scope after := by
  simp only [setFileView, except_bind_ok, Except.ok.injEq] at h
  obtain ⟨-, -, rfl⟩ := h
  refine ⟨?_, ?_, rfl⟩
  · dsimp only
    split
    · exact set_unviewed path view _
    · rfl
  · dsimp only
    split
    · exact set_unviewed path view _
    · rfl

theorem demoted_same {working : List Text} {estimated : List (Text × ℕ)} {d final : Demotion}
    {files : List SourceFileRef} (h : demoteWhileOver working estimated d files = .ok final) :
    SameFiles d.scope final.scope := by
  induction files generalizing d with
  | nil =>
    simp only [demoteWhileOver, Except.ok.injEq] at h
    exact h ▸ same_refl d.scope
  | cons file files ih =>
    rw [demoteWhileOver] at h
    split at h
    · simp only [demote, except_bind_ok, Except.ok.injEq] at h
      obtain ⟨next, ⟨scope, hset, rfl⟩, hrest⟩ := h
      exact same_trans (set_same hset) (ih hrest)
    · simp only [Except.ok.injEq] at h
      exact h ▸ same_refl d.scope

theorem evicted_same {scope after : WorkspaceScope} {input : EvictLowValueContextInput}
    {evicted : List EvictionRecord} (h : evictLowValueContext scope input = .ok (after, evicted)) :
    SameFiles scope after := by
  simp only [evictLowValueContext, except_bind_ok, Except.ok.injEq, Prod.mk.injEq] at h
  obtain ⟨final, hfinal, rfl, -⟩ := h
  exact demoted_same hfinal

theorem holds_false (files : List SourceFileRef) (path : Text) :
    holds files path = false ↔ path ∉ paths files := by
  simp only [holds, paths, List.any_eq_false, List.mem_map, not_exists, not_and, beq_iff_eq]

theorem holds_true (files : List SourceFileRef) (path : Text) :
    holds files path = true ↔ path ∈ paths files := by
  rw [← not_iff_not, Bool.not_eq_true]
  exact holds_false files path

theorem added_cases {scope after : WorkspaceScope} {path : Text} {note : Option Text}
    (h : addCandidateFile scope path note = .ok after) :
    after = scope ∧ (∀ reference, validateFileRef (candidateOf path note) = .ok reference →
        holds scope.verifiedFiles reference.path = false →
        holds scope.candidateFiles reference.path = true) ∨
      ∃ reference, validateFileRef (candidateOf path note) = .ok reference ∧
        holds scope.verifiedFiles reference.path = false ∧
        holds scope.candidateFiles reference.path = false ∧
        after = { scope with
          candidateFiles :=
            dropOldest scope.budget.maxCandidateFiles (scope.candidateFiles ++ [reference]) } := by
  simp only [addCandidateFile, except_bind_ok] at h
  obtain ⟨reference, hreference, h⟩ := h
  split at h
  · rename_i hverified
    simp only [Except.ok.injEq] at h
    refine Or.inl ⟨h.symm, ?_⟩
    intro other hother hfalse
    rw [hreference, Except.ok.injEq] at hother
    rw [← hother, hverified] at hfalse
    cases hfalse
  · rename_i hverified
    split at h
    · rename_i hcandidate
      simp only [Except.ok.injEq] at h
      refine Or.inl ⟨h.symm, ?_⟩
      intro other hother _
      rw [hreference, Except.ok.injEq] at hother
      rw [← hother, hcandidate]
    · rename_i hcandidate
      simp only [Except.ok.injEq] at h
      exact Or.inr ⟨reference, hreference, by simpa using hverified, by simpa using hcandidate,
        h.symm⟩

theorem dropped_mem {budget : ℕ} {files : List SourceFileRef} {path : Text}
    (h : path ∈ paths files) : path ∈ paths (dropOldest budget files) ∨
      (paths files).head? = some path ∧ budget < files.length := by
  unfold dropOldest
  split
  · rename_i hover
    cases files with
    | nil => cases h
    | cons file files =>
      rcases List.mem_cons.mp h with rfl | h
      · exact Or.inr ⟨rfl, hover⟩
      · exact Or.inl h
  · exact Or.inl h

theorem dropped_sublist (budget : ℕ) (files : List SourceFileRef) :
    (dropOldest budget files).Sublist files := by
  unfold dropOldest
  split
  · exact List.tail_sublist files
  · exact List.Sublist.refl files

theorem dropped_length (budget : ℕ) (files : List SourceFileRef) (reference : SourceFileRef)
    (h : files.length ≤ maxCandidateFiles) :
    (dropOldest budget (files ++ [reference])).length ≤ maxCandidateFiles ↔
      files.length < maxCandidateFiles ∨ budget ≤ maxCandidateFiles := by
  unfold dropOldest
  split
  · rename_i hover
    rw [List.length_append, List.length_singleton] at hover
    rw [List.length_tail, List.length_append, List.length_singleton]
    omega
  · rename_i hunder
    rw [List.length_append, List.length_singleton] at hunder
    rw [List.length_append, List.length_singleton]
    omega

theorem added_keeps {scope : WorkspaceScope} {path : Text} {note : Option Text}
    {reference : SourceFileRef} :
    KeepsFiles scope (.addCandidateFile path note) { scope with
      candidateFiles :=
        dropOldest scope.budget.maxCandidateFiles (scope.candidateFiles ++ [reference]) } where
  verified := fun _ hmem => hmem
  candidates := by
    intro p hp
    have hmem : p ∈ paths (scope.candidateFiles ++ [reference]) := by
      rw [paths, List.map_append]
      exact List.mem_append_left _ hp
    rcases dropped_mem hmem with hkept | ⟨hhead, hover⟩
    · exact Or.inl hkept
    · apply Or.inr
      apply Or.inr
      refine ⟨⟨path, note, rfl⟩, ?_, by simpa using hover⟩
      cases hfiles : scope.candidateFiles with
      | nil =>
        rw [hfiles] at hp
        cases hp
      | cons file files =>
        rw [hfiles] at hhead
        exact hhead

theorem added_distinct {verified files : List SourceFileRef} {reference : SourceFileRef} (budget : ℕ)
    (h : (paths verified ++ paths files).Nodup) (hverified : reference.path ∉ paths verified)
    (hfiles : reference.path ∉ paths files) :
    (paths verified ++ paths (dropOldest budget (files ++ [reference]))).Nodup := by
  have hlonger : (paths verified ++ paths (files ++ [reference])).Nodup := by
    rw [paths, paths, List.map_append, ← List.append_assoc]
    apply List.nodup_append.mpr
    refine ⟨h, by simp, ?_⟩
    intro a ha b hb heq
    rw [List.map_cons, List.map_nil, List.mem_singleton] at hb
    rcases List.mem_append.mp ha with ha | ha
    · exact hverified (hb ▸ heq ▸ ha)
    · exact hfiles (hb ▸ heq ▸ ha)
  exact hlonger.sublist (((dropped_sublist budget _).map _).append_left _)

theorem added_sound {scope : WorkspaceScope} {promoted : List ScopePromotionRecord} {path : Text}
    {note : Option Text} {after : WorkspaceScope} (hs : Sound scope promoted)
    (h : addCandidateFile scope path note = .ok after) :
    (Sound after promoted ↔ HasRoom scope (.addCandidateFile path note)) ∧
      KeepsFiles scope (.addCandidateFile path note) after := by
  rcases added_cases h with ⟨rfl, hold⟩ | ⟨reference, hreference, hverified, hcandidates, rfl⟩
  · refine ⟨iff_of_true hs ?_, same_keeps _ (same_refl after)⟩
    intro reference hreference hverified hcandidates
    rw [hold reference hreference hverified] at hcandidates
    cases hcandidates
  · refine ⟨?_, added_keeps⟩
    constructor
    · intro hafter other hother _ _
      exact (dropped_length _ _ reference hs.candidates).mp hafter.candidates
    · intro hroom
      exact {
        distinct := added_distinct _ hs.distinct ((holds_false _ _).mp hverified)
          ((holds_false _ _).mp hcandidates)
        evidenced := hs.evidenced
        verified := hs.verified
        candidates := (dropped_length _ _ reference hs.candidates).mpr
          (hroom reference hreference hverified hcandidates)
        promotions := hs.promotions
        history := hs.history }

theorem promoted_cases {scope after : WorkspaceScope} {path : Text} {promotion : PromotionRequest}
    {record : ScopePromotionRecord}
    (h : promoteCandidateFile scope path promotion = .ok (after, record)) :
    record.path = path ∧ path ∈ paths scope.candidateFiles ∧ Evidenced (promotedFile record) ∧
      scope.verifiedFiles.length < maxVerifiedFiles ∧
      after = { scope with
        verifiedFiles := scope.verifiedFiles ++ [promotedFile record]
        candidateFiles := scope.candidateFiles.filter fun file => file.path != path
        promotions := lastPromotions (scope.promotions ++ [record]) } := by
  simp only [promoteCandidateFile, except_bind_ok, refuse_ok, Except.ok.injEq, Prod.mk.injEq,
    decide_eq_false_iff_not, Nat.not_lt, List.length_append, List.length_singleton] at h
  obtain ⟨-, hholds, evidence, hevidence, revision, -, -, hhandle, reason, -, -, hlength, rfl, rfl⟩ := h
  refine ⟨rfl, (holds_true _ _).mp (by simpa using hholds), ⟨?_, ?_⟩, hlength, rfl⟩
  · exact ⟨revision, rfl, by simpa using hhandle⟩
  · exact ⟨evidence, rfl, (bounded_text hevidence).2⟩

theorem filtered_paths (files : List SourceFileRef) (path : Text) :
    paths (files.filter fun file => file.path != path) = (paths files).filter (· != path) := by
  rw [paths, paths, List.filter_map]
  rfl

theorem last_length (promotions : List ScopePromotionRecord) :
    (lastPromotions promotions).length ≤ maxPromotions := by
  rw [lastPromotions, List.length_drop]
  omega

theorem last_history {promotions promoted : List ScopePromotionRecord} (record : ScopePromotionRecord)
    (h : promotions <:+ promoted) : lastPromotions (promotions ++ [record]) <:+ promoted ++ [record] := by
  obtain ⟨before, rfl⟩ := h
  apply (List.drop_suffix _ _).trans
  exact ⟨before, (List.append_assoc before promotions [record]).symm⟩

theorem promoted_distinct {verified files : List SourceFileRef} {record : ScopePromotionRecord}
    (h : (paths verified ++ paths files).Nodup) (hmem : record.path ∈ paths files) :
    (paths (verified ++ [promotedFile record]) ++
      paths (files.filter fun file => file.path != record.path)).Nodup := by
  obtain ⟨hverified, hfiles, hapart⟩ := List.nodup_append.mp h
  have hpaths : paths (verified ++ [promotedFile record]) = paths verified ++ [record.path] := by
    rw [paths, List.map_append]
    rfl
  rw [hpaths, filtered_paths, List.append_assoc]
  apply List.nodup_append.mpr
  refine ⟨hverified, ?_, ?_⟩
  · rw [List.singleton_append, List.nodup_cons]
    exact ⟨by simp, hfiles.filter _⟩
  · intro a ha b hb
    rcases List.mem_append.mp hb with hb | hb
    · rw [List.mem_singleton.mp hb]
      exact hapart a ha _ hmem
    · exact hapart a ha b (List.mem_of_mem_filter hb)

theorem promoted_sound {scope after : WorkspaceScope} {promoted : List ScopePromotionRecord}
    {path : Text} {promotion : PromotionRequest} {record : ScopePromotionRecord}
    (hs : Sound scope promoted)
    (h : promoteCandidateFile scope path promotion = .ok (after, record)) :
    Sound after (promoted ++ [record]) ∧
      KeepsFiles scope (.promoteCandidateFile path promotion) after := by
  obtain ⟨rfl, hmem, hevidenced, hroom, rfl⟩ := promoted_cases h
  constructor
  · exact {
      distinct := promoted_distinct hs.distinct hmem
      evidenced := by
        intro file hfile
        rcases List.mem_append.mp hfile with hfile | hfile
        · exact hs.evidenced file hfile
        · rw [List.mem_singleton.mp hfile]
          exact hevidenced
      verified := by
        rw [List.length_append, List.length_singleton]
        exact hroom
      candidates := (List.length_filter_le _ _).trans hs.candidates
      promotions := by
        dsimp only
        exact last_length (scope.promotions ++ [record])
      history := by
        dsimp only
        exact last_history record hs.history }
  · constructor
    · intro p hp
      rw [paths, List.map_append]
      exact List.mem_append_left _ hp
    · intro p hp
      by_cases heq : p = record.path
      · apply Or.inr
        apply Or.inl
        refine ⟨promotion, by rw [heq], ?_⟩
        rw [paths, List.map_append, heq]
        exact List.mem_append_right _ List.mem_cons_self
      · apply Or.inl
        rw [filtered_paths]
        exact List.mem_filter.mpr ⟨hp, by simpa using heq⟩

theorem step_sound (scope : WorkspaceScope) (promoted : List ScopePromotionRecord) (call : Call)
    (hs : Sound scope promoted) :
    (Sound (step scope call) (promoted ++ performed scope call) ↔ HasRoom scope call) ∧
      KeepsFiles scope call (step scope call) := by
  have hsame : ∀ after, SameFiles scope after → Sound after (promoted ++ []) := by
    intro after hafter
    rw [List.append_nil]
    exact same_sound hafter hs
  cases call with
  | addCandidateFile path note =>
    simp only [step, performed, List.append_nil]
    cases h : addCandidateFile scope path note with
    | ok after => exact added_sound hs h
    | error e =>
      refine ⟨iff_of_true hs ?_, same_keeps _ (same_refl scope)⟩
      intro reference hreference hverified hcandidates
      simp [addCandidateFile, hreference, hverified, hcandidates, bind, Except.bind] at h
  | promoteCandidateFile path promotion =>
    simp only [step, performed]
    cases h : promoteCandidateFile scope path promotion with
    | ok result =>
      obtain ⟨after, record⟩ := result
      obtain ⟨hsound, hkeeps⟩ := promoted_sound hs h
      exact ⟨iff_of_true hsound trivial, hkeeps⟩
    | error e =>
      exact ⟨iff_of_true (hsame scope (same_refl scope)) trivial, same_keeps _ (same_refl scope)⟩
  | setFileView path view =>
    simp only [step, performed]
    cases h : setFileView scope path view with
    | ok after => exact ⟨iff_of_true (hsame after (set_same h)) trivial, same_keeps _ (set_same h)⟩
    | error e =>
      exact ⟨iff_of_true (hsame scope (same_refl scope)) trivial, same_keeps _ (same_refl scope)⟩
  | evictLowValueContext input =>
    simp only [step, performed]
    cases h : evictLowValueContext scope input with
    | ok result =>
      obtain ⟨after, evicted⟩ := result
      exact ⟨iff_of_true (hsame after (evicted_same h)) trivial, same_keeps _ (evicted_same h)⟩
    | error e =>
      exact ⟨iff_of_true (hsame scope (same_refl scope)) trivial, same_keeps _ (same_refl scope)⟩

theorem run_sound (scope : WorkspaceScope) (promoted : List ScopePromotionRecord)
    (calls : List Call) (hs : Sound scope promoted) :
    RunSound scope promoted calls ↔ RunHasRoom scope calls := by
  induction calls generalizing scope promoted with
  | nil => exact iff_of_true hs trivial
  | cons call calls ih =>
    obtain ⟨hstep, hkeeps⟩ := step_sound scope promoted call hs
    constructor
    · intro h
      have hnext : Sound (step scope call) (promoted ++ performed scope call) := by
        cases calls with
        | nil => exact h.2.2
        | cons _ _ => exact h.2.2.1
      exact ⟨hstep.mp hnext, (ih _ _ hnext).mp h.2.2⟩
    · intro h
      have hnext := hstep.mpr h.1
      exact ⟨hs, hkeeps, (ih _ _ hnext).mpr h.2⟩

/-- A run from a new scope is sound exactly when every verified file of the input gives evidence
and no step adds a candidate beyond the hard limit. -/
theorem scope_sound_iff (input : CreateWorkspaceScopeInput) (scope : WorkspaceScope)
    (calls : List Call) (h : createWorkspaceScope input = .ok scope) :
    RunSound scope scope.promotions calls ↔
      (∀ file ∈ input.verifiedFiles, GivesEvidence file) ∧ RunHasRoom scope calls := by
  have hcreated := created_scope h
  have hsound : (∀ file ∈ input.verifiedFiles, GivesEvidence file) →
      Sound scope scope.promotions := by
    intro hgives
    exact ⟨hcreated.distinct, (created_evidenced hcreated).mpr hgives, hcreated.verified,
      hcreated.candidates, hcreated.promotions, List.suffix_refl _⟩
  constructor
  · intro hrun
    have hfirst : Sound scope scope.promotions := by
      cases calls with
      | nil => exact hrun
      | cons _ _ => exact hrun.1
    exact ⟨(created_evidenced hcreated).mp hfirst.evidenced,
      (run_sound scope _ calls hfirst).mp hrun⟩
  · intro hcondition
    exact (run_sound scope _ calls (hsound hcondition.1)).mpr hcondition.2

def sampleHandle : Text := "rev_0123456789abcdef0123456789abcdef"

def sampleFile : SourceFileRef where
  path := ['a']
  confidence := .verified
  view := .exact
  revision := some sampleHandle
  evidence := some ['e']
  reason := none

def sampleScope (file : SourceFileRef) : WorkspaceScope := ⟨[file], [], [], [], {}, []⟩

def sampleCalls : List Call :=
  [.addCandidateFile ['b'] none, .promoteCandidateFile ['b'] ⟨['e'], sampleHandle, ['r']⟩]

theorem scope_sound_sample :
    createWorkspaceScope ⟨[sampleFile], [], [], [], none, []⟩ = .ok (sampleScope sampleFile) ∧
      RunSound (sampleScope sampleFile) [] sampleCalls := by
  have hcreated : createWorkspaceScope ⟨[sampleFile], [], [], [], none, []⟩ =
      .ok (sampleScope sampleFile) := by
    decide +kernel
  refine ⟨hcreated, (scope_sound_iff _ _ sampleCalls hcreated).mpr ⟨?_, ?_⟩⟩
  · intro file hfile
    rw [List.mem_singleton.mp hfile]
    exact Or.inl rfl
  · exact ⟨fun _ _ _ _ => Or.inl (by decide), trivial, trivial⟩

/-- A file that only calls itself a candidate, listed among the verified ones. -/
def looseFile : SourceFileRef := candidateOf ['a'] none

theorem scope_sound_fails :
    createWorkspaceScope ⟨[looseFile], [], [], [], none, []⟩ = .ok (sampleScope looseFile) ∧
      ¬ RunSound (sampleScope looseFile) [] [] := by
  constructor
  · decide +kernel
  · intro h
    obtain ⟨revision, hrevision, -⟩ := (h.evidenced looseFile List.mem_cons_self).revision
    cases hrevision

end Siralos.Scope
