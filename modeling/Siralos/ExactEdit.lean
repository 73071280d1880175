import Siralos.Mutation
import Siralos.Occurrence

/-!
# Edits of exactly one occurrence

An edit counts occurrences that do not overlap and replaces the first one. That is an edit of the
only occurrence exactly when no further one hides behind the first.
-/

set_option autoImplicit false

namespace Siralos.Checkpoint

open Workspace Occurrence

theorem starts_with_occurs (old text : Text) :
    Text.startsWith old text = true ↔ OccursAt old text 0 := Text.starts_with_iff old text

theorem match_count_skip (old : Text) (skip : ℕ) (text : Text) :
    matchCount old skip text = matchCount old 0 (text.drop skip) := by
  induction text generalizing skip with
  | nil => simp [matchCount]
  | cons c rest ih =>
    cases skip with
    | zero => rfl
    | succ skip => exact ih skip

theorem match_count_none {old : Text} (text : Text) (hne : old ≠ []) :
    matchCount old 0 text = 0 ↔ ∀ i, ¬ OccursAt old text i := by
  induction text with
  | nil =>
    refine ⟨fun _ i h => ?_, fun _ => rfl⟩
    rw [OccursAt, List.drop_nil, List.prefix_nil] at h
    exact hne h
  | cons c rest ih =>
    rw [matchCount]
    by_cases hstarts : Text.startsWith old (c :: rest) = true
    · rw [if_pos hstarts]
      refine ⟨fun h => by omega, fun h => ?_⟩
      exact absurd ((starts_with_occurs old _).mp hstarts) (h 0)
    · rw [if_neg hstarts, ih]
      constructor
      · intro h i
        cases i with
        | zero => exact fun hzero => hstarts ((starts_with_occurs old _).mpr hzero)
        | succ i => exact h i
      · intro h i
        exact h (i + 1)

theorem match_count_first {old text : Text} {i : ℕ} (hne : old ≠ [])
    (h : FirstAt old text i) :
    matchCount old 0 text = 1 + matchCount old 0 (text.drop (i + old.length)) := by
  induction i generalizing text with
  | zero =>
    obtain ⟨first, others, rfl⟩ := List.exists_cons_of_ne_nil hne
    cases text with
    | nil => exact absurd (List.prefix_nil.mp h.occurs) (by simp)
    | cons c rest =>
      rw [matchCount, if_pos ((starts_with_occurs _ _).mpr h.occurs), match_count_skip]
      simp
  | succ i ih =>
    cases text with
    | nil => exact absurd (List.prefix_nil.mp (List.drop_nil ▸ h.occurs)) hne
    | cons c rest =>
      have hskip : ¬ Text.startsWith old (c :: rest) = true := fun hstarts =>
        h.not_zero ((starts_with_occurs _ _).mp hstarts)
      rw [matchCount, if_neg hskip, ih h.tail, show i + 1 + old.length = i + old.length + 1 by omega,
        List.drop_succ_cons]

theorem replace_first_at {old new text : Text} {i : ℕ} (hne : old ≠ [])
    (h : FirstAt old text i) :
    replaceFirst old new text = text.take i ++ new ++ text.drop (i + old.length) := by
  induction i generalizing text with
  | zero =>
    cases text with
    | nil => exact absurd (List.prefix_nil.mp h.occurs) hne
    | cons c rest =>
      rw [replaceFirst, if_pos ((starts_with_occurs _ _).mpr h.occurs)]
      simp
  | succ i ih =>
    cases text with
    | nil => exact absurd (List.prefix_nil.mp (List.drop_nil ▸ h.occurs)) hne
    | cons c rest =>
      have hskip : ¬ Text.startsWith old (c :: rest) = true := fun hstarts =>
        h.not_zero ((starts_with_occurs _ _).mp hstarts)
      rw [replaceFirst, if_neg hskip, ih h.tail, show i + 1 + old.length = i + old.length + 1 by omega]
      rfl

theorem match_count_one {old text : Text} (hne : old ≠ []) :
    matchCount old 0 text = 1 ↔
      ∃ i, FirstAt old text i ∧ ∀ k, i + old.length ≤ k → ¬ OccursAt old text k := by
  have hbehind : ∀ i, (∀ k, i + old.length ≤ k → ¬ OccursAt old text k) ↔
      matchCount old 0 (text.drop (i + old.length)) = 0 := by
    intro i
    rw [match_count_none _ hne]
    constructor
    · intro h k hk
      exact h (i + old.length + k) (by omega) ((occurs_drop text _ k).mp hk)
    · intro h k hk hoccurs
      refine h (k - (i + old.length)) ((occurs_drop text _ _).mpr ?_)
      rw [Nat.add_sub_cancel' hk]
      exact hoccurs
  constructor
  · intro hone
    have hsome : ∃ i, OccursAt old text i := by
      by_contra hnone
      rw [(match_count_none text hne).mpr (not_exists.mp hnone)] at hone
      cases hone
    obtain ⟨i, hi⟩ := hsome
    obtain ⟨first, hfirst⟩ := exists_first hi
    rw [match_count_first hne hfirst] at hone
    exact ⟨first, hfirst, (hbehind first).mpr (by omega)⟩
  · rintro ⟨first, hfirst, hnone⟩
    rw [match_count_first hne hfirst, (hbehind first).mp hnone]

/-- The count tells one occurrence from several exactly on separated texts. -/
theorem match_count_unique_iff {old text : Text} (hne : old ≠ []) :
    (matchCount old 0 text = 1 ↔ ∃! i, OccursAt old text i) ↔ Separated old text := by
  by_cases hsome : ∃ i, OccursAt old text i
  · obtain ⟨i, hi⟩ := hsome
    obtain ⟨first, hfirst⟩ := exists_first hi
    have hcount : matchCount old 0 text = 1 ↔
        ∀ k, first + old.length ≤ k → ¬ OccursAt old text k := by
      rw [match_count_one hne]
      constructor
      · rintro ⟨other, hother, hnone⟩
        have hle := hfirst.least other hother.occurs
        have hge := hother.least first hfirst.occurs
        rwa [show first = other by omega]
      · intro hnone
        exact ⟨first, hfirst, hnone⟩
    rw [hcount, unique_iff hfirst hne]
    constructor
    · intro h i j hi hj hij
      by_contra hnone
      have hsame : i = first := le_antisymm (hi.least first hfirst.occurs)
        (hfirst.least i hi.occurs)
      subst hsame
      have hclear : ∀ k, i + old.length ≤ k → ¬ OccursAt old text k := fun k hk hoccurs =>
        hnone ⟨k, hoccurs, hk⟩
      obtain ⟨k, hk, hbeyond⟩ := (h.mp hclear).1 i j hi hj hij
      exact hclear k hbeyond hk
    · intro hseparated
      exact ⟨fun h => ⟨hseparated, h⟩, fun h => h.2⟩
  · have hnone : ∀ i, ¬ OccursAt old text i := not_exists.mp hsome
    constructor
    · intro _ i j hi
      exact absurd hi.occurs (hnone i)
    · intro _
      rw [(match_count_none text hne).mpr hnone]
      constructor
      · intro h
        cases h
      · rintro ⟨i, hi, _⟩
        exact absurd hi (hnone i)

variable (sha256Hex : FileBytes → Text)

/-- An edit whose checks other than the match all pass. -/
structure EditReads (host : MutationHost) (fs : FileSystem) (root : Path) (input : Json.Value)
    (path old new text : Text) (resolved : ResolvedWorkspacePath) (createdAt : Text) : Prop where
  requested : parseStringField input "path" = .ok path
  oldString : parseStringField input "oldString" = .ok old
  newString : parseStringField input "newString" = .ok new
  live : host.cancelled = false
  nonempty : old ≠ []
  oldFits : textTooLarge "oldString" old = none
  newFits : textTooLarge "newString" new = none
  resolves : resolveWorkspacePath fs root path = .ok resolved
  named : requireRequestedParentName root path resolved.absolutePath = true
  unguarded : guarded resolved.workspaceRelativePath = none
  reads : readEditTarget (fs.node resolved.absolutePath) = .ok text
  clock : host.timestamp = some createdAt

def replacedAt (old new text : Text) (i : ℕ) : Text :=
  text.take i ++ new ++ text.drop (i + old.length)

section Edit

variable {sha256Hex} {host : MutationHost} {fs : FileSystem} {root : Path} {input : Json.Value}
  {path old new text : Text} {resolved : ResolvedWorkspacePath} {createdAt : Text}

theorem EditReads.refused (h : EditReads host fs root input path old new text resolved createdAt)
    (hcount : matchCount old 0 text ≠ 1) :
    ∃ message, proposeEdit sha256Hex host fs root input = .error (.conflict message) := by
  have hempty : old.isEmpty = false := by simpa using h.nonempty
  by_cases hzero : matchCount old 0 text = 0
  · exact ⟨_, by simp [proposeEdit, h.requested, h.oldString, h.newString, h.live, hempty, h.oldFits,
      h.newFits, h.resolves, h.named, h.unguarded, h.reads, hzero, refuseIf, refuseSome,
      Except.mapError, bind, Except.bind, -String.reduceToList]; rfl⟩
  · exact ⟨_, by simp [proposeEdit, h.requested, h.oldString, h.newString, h.live, hempty, h.oldFits,
      h.newFits, h.resolves, h.named, h.unguarded, h.reads, hzero, hcount, refuseIf, refuseSome,
      Except.mapError, bind, Except.bind, -String.reduceToList]; rfl⟩

theorem EditReads.proposes (h : EditReads host fs root input path old new text resolved createdAt)
    (hcount : matchCount old 0 text = 1) :
    ∃ p, proposeEdit sha256Hex host fs root input = .ok p ∧ p.target = resolved.absolutePath ∧
      p.bytes = .text (replaceFirst old new text) := by
  have hempty : old.isEmpty = false := by simpa using h.nonempty
  exact ⟨_, by simp [proposeEdit, h.requested, h.oldString, h.newString, h.live, hempty, h.oldFits,
    h.newFits, h.resolves, h.named, h.unguarded, h.reads, hcount, h.clock, refuseIf, refuseSome,
    orRefuse, Except.mapError, bind, Except.bind, pure, Except.pure, -String.reduceToList]; rfl,
    rfl, rfl⟩

variable (sha256Hex host fs) in
theorem apply_proposal_fs (store : CheckpointStore) (summary : Text) (p : Proposal) :
    (applyProposal sha256Hex host fs store summary p).fs = fs ∨
      (applyProposal sha256Hex host fs store summary p).fs = fs.setFile p.target p.bytes := by
  unfold applyProposal
  split
  · exact .inl rfl
  · split
    · exact .inl rfl
    · rename_i fs' hcommit
      have hwritten : fs' = fs.setFile p.target p.bytes := by
        unfold stageAndCommit at hcommit
        split at hcommit
        · cases hcommit
        · split at hcommit
          · cases hcommit
          · exact (commit_inner_ok sha256Hex fs fs' _ _ _ hcommit).2.2.2
      split
      · exact .inr hwritten
      · exact .inr hwritten

end Edit

/-- Exactly one occurrence brings an edit to its checkpoint; it alone is replaced. -/
structure ExactOnce (host : MutationHost) (fs : FileSystem) (store : CheckpointStore)
    (input : Json.Value) (old new text : Text) (target : Path) : Prop where
  reaches : (∃ p, proposeEdit sha256Hex host fs store.workspaceRoot input = .ok p) ↔
    ∃! i, OccursAt old text i
  replaced : ∀ p, proposeEdit sha256Hex host fs store.workspaceRoot input = .ok p →
    ∀ i, OccursAt old text i → p.target = target ∧ p.bytes = .text (replacedAt old new text i)
  committed : (executeEdit sha256Hex host fs store input).fs = fs ∨
    ∃ i, OccursAt old text i ∧ (executeEdit sha256Hex host fs store input).fs =
      fs.setFile target (.text (replacedAt old new text i))
  refused : (¬ ∃! i, OccursAt old text i) →
    ∃ message, executeEdit sha256Hex host fs store input = ⟨.conflict message, fs, store⟩

theorem edit_exact_once_iff {host : MutationHost} {fs : FileSystem} {store : CheckpointStore}
    {input : Json.Value} {path old new text : Text} {resolved : ResolvedWorkspacePath}
    {createdAt : Text}
    (h : EditReads host fs store.workspaceRoot input path old new text resolved createdAt) :
    ExactOnce sha256Hex host fs store input old new text resolved.absolutePath ↔
      Separated old text := by
  have hreaches : (∃ p, proposeEdit sha256Hex host fs store.workspaceRoot input = .ok p) ↔
      matchCount old 0 text = 1 := by
    constructor
    · rintro ⟨p, hp⟩
      by_contra hcount
      obtain ⟨message, hrefused⟩ := h.refused hcount
      rw [hrefused] at hp
      cases hp
    · intro hcount
      obtain ⟨p, hp, _⟩ := h.proposes hcount
      exact ⟨p, hp⟩
  rw [← match_count_unique_iff h.nonempty]
  constructor
  · intro honce
    rw [← hreaches]
    exact honce.reaches
  · intro hcounts
    refine ⟨hreaches.trans hcounts, ?_, ?_, ?_⟩
    · intro p hp i hi
      have hcount := hreaches.mp ⟨p, hp⟩
      obtain ⟨q, hq, htarget, hbytes⟩ := h.proposes hcount
      obtain rfl : p = q := Except.ok.inj (hp.symm.trans hq)
      obtain ⟨first, hfirst⟩ := exists_first hi
      have hsame : i = first := (hcounts.mp hcount).unique hi hfirst.occurs
      refine ⟨htarget, ?_⟩
      rw [hbytes, replace_first_at h.nonempty hfirst, hsame]
      rfl
    · by_cases hcount : matchCount old 0 text = 1
      · obtain ⟨p, hp, htarget, hbytes⟩ := h.proposes hcount
        obtain ⟨first, hfirst, _⟩ := (match_count_one h.nonempty).mp hcount
        rw [replace_first_at h.nonempty hfirst] at hbytes
        have happlied : executeEdit sha256Hex host fs store input =
            applyProposal sha256Hex host fs store
              ("replaced 1 occurrence (" ++ Text.ofNat p.bytes.length ++ " bytes)") p := by
          rw [executeEdit, hp]
        rw [happlied]
        rcases apply_proposal_fs sha256Hex host fs store _ p with hsame | hwritten
        · exact .inl hsame
        · refine .inr ⟨first, hfirst.occurs, ?_⟩
          rw [hwritten, htarget, hbytes]
          rfl
      · have hrefuses : ∃ message, proposeEdit sha256Hex host fs store.workspaceRoot input =
            .error (.conflict message) := h.refused hcount
        obtain ⟨message, hrefused⟩ := hrefuses
        left
        rw [executeEdit, hrefused]
    · intro hseveral
      obtain ⟨message, hrefused⟩ := h.refused (fun hcount => hseveral (hcounts.mp hcount))
      exact ⟨message, by rw [executeEdit, hrefused]⟩

def editedFile (text : Text) : FileSystem :=
  .ofNodes [(["w"], .directory), (["w", "f"], .file (.text text))]

def editInput (old new : Text) : Json.Value :=
  .object [("path", .string "f"), ("oldString", .string old), ("newString", .string new)]

def editHost : MutationHost := ⟨false, some "1.0", []⟩

def editStore : CheckpointStore where
  workspaceRoot := ["w"]
  limits := ⟨"w", maxPreimageBytes, defaultMaxCheckpoints⟩
  entries := []
  distinct := List.nodup_nil

theorem edited_reads {old new text : Text} (hne : old ≠ [])
    (hold : textTooLarge "oldString" old = none) (hnew : textTooLarge "newString" new = none)
    (hread : readEditTarget (some (.file (.text text))) = .ok text) :
    EditReads editHost (editedFile text) editStore.workspaceRoot (editInput old new) "f" old new text
      ⟨"f", ["w", "f"]⟩ "1.0" where
  requested := rfl
  oldString := rfl
  newString := rfl
  live := rfl
  nonempty := hne
  oldFits := hold
  newFits := hnew
  resolves := rfl
  named := rfl
  unguarded := by decide
  reads := hread
  clock := rfl

theorem separated_within {old text : Text} (hne : old ≠ [])
    (h : ∀ j ∈ List.range text.length, ∀ i ∈ List.range j,
      ¬ (old <+: text.drop i ∧ old <+: text.drop j ∧ j < i + old.length)) :
    Separated old text := by
  intro i j hi hj hij
  have hend : j < text.length := by
    by_contra hbeyond
    rw [OccursAt, List.drop_eq_nil_of_le (by omega)] at hj
    exact hne (List.prefix_nil.mp hj)
  refine ⟨j, hj, ?_⟩
  by_contra hoverlap
  exact h j (List.mem_range.mpr hend) i (List.mem_range.mpr hij)
    ⟨hi.1, hj, Nat.lt_of_not_le hoverlap⟩

def editedText : Text := "let a = b;\nlet b = a;\n"

/-- One line is there once, and a word that is there twice is refused. -/
theorem edit_exact_once_sample :
    ExactOnce (fun _ => []) editHost (editedFile editedText) editStore
        (editInput "let b = a;" "let b = c;") "let b = a;" "let b = c;" editedText ["w", "f"] ∧
      ExactOnce (fun _ => []) editHost (editedFile editedText) editStore (editInput "let" "var")
        "let" "var" editedText ["w", "f"] := by
  have hline : Separated "let b = a;" editedText := separated_within (by decide) (by decide)
  have hword : Separated "let" editedText := separated_within (by decide) (by decide)
  exact ⟨(edit_exact_once_iff (fun _ => []) (edited_reads (by decide) (by decide) (by decide)
      rfl)).mpr hline,
    (edit_exact_once_iff (fun _ => []) (edited_reads (by decide) (by decide) (by decide)
      rfl)).mpr hword⟩

/-- Twice two letters in three: the second occurrence begins within the first. -/
theorem edit_exact_once_fails :
    ¬ ExactOnce (fun _ => []) editHost (editedFile "aaa") editStore (editInput "aa" "b") "aa" "b"
      "aaa" ["w", "f"] := by
  intro h
  have hreads : EditReads editHost (editedFile "aaa") editStore.workspaceRoot (editInput "aa" "b")
      "f" "aa" "b" "aaa" ⟨"f", ["w", "f"]⟩ "1.0" :=
    edited_reads (by decide) (by decide) (by decide) rfl
  have hreaches : ∃ p, proposeEdit (fun _ => []) editHost (editedFile "aaa")
      editStore.workspaceRoot (editInput "aa" "b") = .ok p := by
    obtain ⟨p, hp, _⟩ := hreads.proposes (by decide)
    exact ⟨p, hp⟩
  obtain ⟨i, _, hunique⟩ := h.reaches.mp hreaches
  have hzero : 0 = i := hunique 0 (by change _ <+: _; decide)
  have hone : 1 = i := hunique 1 (by change _ <+: _; decide)
  omega

end Siralos.Checkpoint
