import Siralos.KnowledgeCoherence

/-!
# Revisions of a subject

The history of a subject only grows at its end, its revisions are numbered from one, and a new
revision says something else than the revision it follows, unless the subject was retired between
them.
-/

set_option autoImplicit false

namespace Siralos.Knowledge

open Json

/-- A fact without its activation, the one field that may change. -/
def Fact.fixed (fact : Fact) : Fact := { fact with activation := .retrieved }

def ProposalResult.stores : ProposalResult → Bool
  | .accepted _ => true
  | .unchanged => false
  | .rejected _ => false

namespace KnowledgeCoordinator

section Histories

variable (lib : KnowledgeLibrary)

/-- The revisions are numbered from one and the pointer, where there is one, names the last. -/
structure Numbered (k : KnowledgeCoordinator) : Prop where
  numbered : ∀ s i fact, (k.history s)[i]? = some fact → fact.revision = i + 1 ∧
    fact.id = computeFactId lib.sha256Hex (some s) fact.content (i + 1)
  current : ∀ s, k.current.lookup s = none ∨ k.current.lookup s = some (k.history s).length

/-- Every history of the first state is the beginning of the one of the second. -/
def Extends (k k' : KnowledgeCoordinator) : Prop :=
  ∀ s, (k.history s).map Fact.fixed <+: (k'.history s).map Fact.fixed

def Revises (k : KnowledgeCoordinator) (call : Call) (s : Text) : Prop :=
  (k.history s).length < ((step lib k call).history s).length

/-- The last two revisions of the subject say something else. -/
def LastDiffer (k : KnowledgeCoordinator) (s : Text) : Prop :=
  ∃ before older newer, k.history s = before ++ [older, newer] ∧
    normalizeFactContent older.content ≠ normalizeFactContent newer.content

/-- Two revisions that follow each other without a retirement between them differ. -/
def ChurnFree (k : KnowledgeCoordinator) : Prop :=
  ∀ s first between second, Revises lib k first s → .retire s ∉ between →
    ((run lib (step lib k first) between).history s).length = ((step lib k first).history s).length →
    Revises lib (run lib (step lib k first) between) second s →
    LastDiffer (step lib (run lib (step lib k first) between) second) s

end Histories

section Operations

variable (lib : KnowledgeLibrary) (k : KnowledgeCoordinator) (s : Text)

theorem stored_history (candidate : Value) :
    (k.storeRevision lib candidate s).1.history s =
      k.history s ++ [k.proposedFact lib candidate s] := by
  show ((AList.insert s _ k.bySubject).lookup s).getD [] = _
  rw [AList.lookup_insert]
  rfl

theorem stored_history_ne (candidate : Value) (t : Text) (hts : t ≠ s) :
    (k.storeRevision lib candidate s).1.history t = k.history t := by
  show ((AList.insert s _ k.bySubject).lookup t).getD [] = _
  rw [AList.lookup_insert_ne hts]
  rfl

theorem replaced_history (activation : Activation) (t : Text) :
    ((k.replaceActivation s activation).history t).map Fact.fixed =
      (k.history t).map Fact.fixed := by
  unfold replaceActivation
  split
  case h_1 entry index hentry hcurrent =>
    by_cases hts : t = s
    · subst hts
      show (((AList.insert t _ k.bySubject).lookup t).getD []).map Fact.fixed = _
      rw [AList.lookup_insert, history, hentry, Option.getD_some, Option.getD_some]
      apply List.ext_getElem?
      intro i
      rw [List.getElem?_map, List.getElem?_map, List.getElem?_modify]
      cases hi : entry[i]? with
      | none => rfl
      | some fact =>
        by_cases hindex : index - 1 = i
        · simp [hindex, Fact.fixed]
        · simp [hindex]
    · show (((AList.insert s _ k.bySubject).lookup t).getD []).map Fact.fixed = _
      rw [AList.lookup_insert_ne hts]
      rfl
  case h_2 => rfl

theorem unstored_cases (candidate : Value) (h : k.storedSubject lib candidate = none) :
    (k.propose lib candidate).1 = k ∨
      ∃ id fact, (k.propose lib candidate).1 = { k with oneOff := k.oneOff.insert id fact } := by
  unfold storedSubject at h
  unfold propose
  cases hvalid : validateCandidate lib k.ports k.limits candidate with
  | error reason => exact Or.inl rfl
  | ok valid =>
    rw [hvalid] at h
    dsimp only at h ⊢
    cases hsubject : subjectOf candidate with
    | some subject =>
      rw [hsubject] at h
      dsimp only
      rw [proposeSubject]
      cases hrefusal : k.subjectRefusal candidate subject with
      | some result => exact Or.inl rfl
      | none => simp [Option.filter, hrefusal] at h
    | none =>
      dsimp only
      rw [proposeOneOff]
      by_cases hfull : k.limits.maxFacts ≤ k.held
      · rw [if_pos hfull]
        exact Or.inl rfl
      · rw [if_neg hfull]
        exact Or.inr ⟨_, _, rfl⟩

theorem unaccepted_kept (candidate : Value) (h : (k.propose lib candidate).2.stores = false) :
    (k.propose lib candidate).1 = k := by
  unfold propose at h ⊢
  cases hvalid : validateCandidate lib k.ports k.limits candidate with
  | error reason => rfl
  | ok valid =>
    rw [hvalid] at h
    dsimp only at h ⊢
    cases hsubject : subjectOf candidate with
    | some subject =>
      rw [hsubject] at h
      dsimp only at h ⊢
      rw [proposeSubject] at h ⊢
      cases hrefusal : k.subjectRefusal candidate subject with
      | some result => rfl
      | none =>
        rw [hrefusal] at h
        cases h
    | none =>
      rw [hsubject] at h
      dsimp only at h ⊢
      rw [proposeOneOff] at h ⊢
      by_cases hfull : k.limits.maxFacts ≤ k.held
      · rw [if_pos hfull]
      · rw [if_neg hfull] at h
        cases h

end Operations

section Steps

variable (lib : KnowledgeLibrary)

/-- No history grows, and only a retirement takes a pointer away. -/
structure Keeps (k k' : KnowledgeCoordinator) (call : Call) : Prop where
  histories : ∀ s, (k'.history s).map Fact.fixed = (k.history s).map Fact.fixed
  pointers : ∀ s, k'.current.lookup s = k.current.lookup s ∨
    call = .retire s ∧ k'.current.lookup s = none

theorem revision_cases (k : KnowledgeCoordinator) (call : Call) :
    (∃ candidate s, call = .propose candidate ∧ k.storedSubject lib candidate = some s ∧
      step lib k call = (k.storeRevision lib candidate s).1) ∨ Keeps k (step lib k call) call := by
  cases call with
  | propose candidate =>
    cases hstored : k.storedSubject lib candidate with
    | some s => exact Or.inl ⟨candidate, s, rfl, hstored, (stored_subject lib hstored).1⟩
    | none =>
      right
      show Keeps k (k.propose lib candidate).1 _
      rcases unstored_cases lib k candidate hstored with h | ⟨id, fact, h⟩
      · rw [h]
        exact ⟨fun _ => rfl, fun _ => Or.inl rfl⟩
      · rw [h]
        exact ⟨fun _ => rfl, fun _ => Or.inl rfl⟩
  | pin s =>
    right
    show Keeps k (k.pin s).1 _
    rcases pin_cases k s with h | ⟨-, h⟩
    · rw [h]
      exact ⟨fun _ => rfl, fun _ => Or.inl rfl⟩
    · rw [h]
      constructor
      · intro t
        exact replaced_history _ s .pinned t
      · intro t
        exact Or.inl (by rw [replaced_current])
  | unpin s =>
    right
    show Keeps k (k.unpin s) _
    by_cases hpinned : s ∈ k.pinned
    · rw [unpin, if_pos hpinned]
      constructor
      · intro t
        exact replaced_history _ s .retrieved t
      · intro t
        exact Or.inl (by rw [replaced_current])
    · rw [unpin, if_neg hpinned]
      exact ⟨fun _ => rfl, fun _ => Or.inl rfl⟩
  | retire s =>
    right
    show Keeps k (k.retire s) _
    by_cases hheld : s ∈ k.bySubject
    · rw [retire, if_pos hheld]
      refine ⟨fun _ => rfl, ?_⟩
      intro t
      by_cases hts : t = s
      · subst hts
        exact Or.inr ⟨rfl, AList.lookup_erase _ _⟩
      · exact Or.inl (AList.lookup_erase_ne hts)
    · rw [retire, if_neg hheld]
      exact ⟨fun _ => rfl, fun _ => Or.inl rfl⟩
  | retrieve query =>
    right
    obtain ⟨trace, h⟩ := retrieved_cases lib k query
    rw [h]
    exact ⟨fun _ => rfl, fun _ => Or.inl rfl⟩

theorem step_extends (k : KnowledgeCoordinator) (call : Call) : Extends k (step lib k call) := by
  intro t
  rcases revision_cases lib k call with ⟨candidate, s, -, -, h⟩ | h
  · rw [h]
    by_cases hts : t = s
    · subst hts
      rw [stored_history, List.map_append]
      exact List.prefix_append _ _
    · rw [stored_history_ne lib k s candidate t hts]
  · rw [h.histories]

theorem keeps_numbered {k k' : KnowledgeCoordinator} {call : Call} (h : Keeps k k' call)
    (hk : Numbered lib k) : Numbered lib k' := by
  constructor
  · intro s i fact hfact
    have hfixed := congrArg (fun facts => facts[i]?) (h.histories s)
    rw [List.getElem?_map, List.getElem?_map, hfact, Option.map_some] at hfixed
    obtain ⟨before, hbefore, hsame⟩ := Option.map_eq_some_iff.mp hfixed.symm
    have hnumbered := hk.numbered s i before hbefore
    have hcontent : before.content = fact.content :=
      (congrArg Fact.content hsame : before.fixed.content = fact.fixed.content)
    have hrevision : before.revision = fact.revision :=
      (congrArg Fact.revision hsame : before.fixed.revision = fact.fixed.revision)
    have hid : before.id = fact.id :=
      (congrArg Fact.id hsame : before.fixed.id = fact.fixed.id)
    rwa [hcontent, hrevision, hid] at hnumbered
  · intro s
    have hlength := congrArg List.length (h.histories s)
    rw [List.length_map, List.length_map] at hlength
    rcases h.pointers s with hpointer | ⟨-, hnone⟩
    · rw [hpointer, hlength]
      exact hk.current s
    · exact Or.inl hnone

theorem stored_numbered {k : KnowledgeCoordinator} (candidate : Value) (s : Text)
    (hk : Numbered lib k) : Numbered lib (k.storeRevision lib candidate s).1 := by
  constructor
  · intro t i fact hfact
    by_cases hts : t = s
    · subst hts
      rw [stored_history] at hfact
      by_cases hi : i < (k.history t).length
      · rw [List.getElem?_append_left hi] at hfact
        exact hk.numbered t i fact hfact
      · rw [List.getElem?_append_right (by omega), List.getElem?_singleton] at hfact
        split at hfact
        · cases hfact
          have hlast : i = (k.history t).length := by omega
          subst hlast
          exact ⟨rfl, rfl⟩
        · cases hfact
    · rw [stored_history_ne lib k s candidate t hts] at hfact
      exact hk.numbered t i fact hfact
  · intro t
    by_cases hts : t = s
    · subst hts
      right
      rw [stored_history, List.length_append]
      exact AList.lookup_insert _
    · rw [stored_history_ne lib k s candidate t hts]
      show (AList.insert s _ k.current).lookup t = none ∨ (AList.insert s _ k.current).lookup t = _
      rw [AList.lookup_insert_ne hts]
      exact hk.current t

theorem step_numbered (k : KnowledgeCoordinator) (call : Call) (hk : Numbered lib k) :
    Numbered lib (step lib k call) := by
  rcases revision_cases lib k call with ⟨candidate, s, -, -, h⟩ | h
  · rw [h]
    exact stored_numbered lib candidate s hk
  · exact keeps_numbered lib h hk

theorem new_numbered (ports : KnowledgePorts) (overrides : KnowledgeLimits) :
    Numbered lib (new ports overrides) := by
  constructor
  · intro s i fact h
    cases h
  · intro s
    exact Or.inl rfl

theorem run_numbered (k : KnowledgeCoordinator) (calls : List Call) (hk : Numbered lib k) :
    Numbered lib (run lib k calls) := by
  induction calls generalizing k with
  | nil => exact hk
  | cons call calls ih => exact ih (step lib k call) (step_numbered lib k call hk)

theorem revises_stored {k : KnowledgeCoordinator} {call : Call} {s : Text}
    (h : Revises lib k call s) :
    ∃ candidate, call = .propose candidate ∧ k.storedSubject lib candidate = some s ∧
      step lib k call = (k.storeRevision lib candidate s).1 := by
  rcases revision_cases lib k call with ⟨candidate, t, hcall, hstored, hstep⟩ | hkeeps
  · by_cases hts : s = t
    · subst hts
      exact ⟨candidate, hcall, hstored, hstep⟩
    · rw [Revises, hstep, stored_history_ne lib k t candidate s hts] at h
      omega
  · have hlength := congrArg List.length (hkeeps.histories s)
    rw [List.length_map, List.length_map] at hlength
    rw [Revises, hlength] at h
    omega

theorem step_current {k : KnowledgeCoordinator} {call : Call} {s : Text}
    (hcall : call ≠ .retire s) (hs : s ∈ k.current) : s ∈ (step lib k call).current := by
  rcases revision_cases lib k call with ⟨candidate, t, -, -, h⟩ | h
  · rw [h]
    exact (AList.mem_insert _).mpr (Or.inr hs)
  · rw [← AList.lookup_isSome] at hs ⊢
    rcases h.pointers s with hpointer | ⟨hretire, -⟩
    · rwa [hpointer]
    · exact absurd hretire hcall

theorem run_current {k : KnowledgeCoordinator} {calls : List Call} {s : Text}
    (hcalls : .retire s ∉ calls) (hs : s ∈ k.current) : s ∈ (run lib k calls).current := by
  induction calls generalizing k with
  | nil => exact hs
  | cons call calls ih =>
    rw [List.mem_cons, not_or] at hcalls
    exact ih hcalls.2 (step_current lib (Ne.symm hcalls.1) hs)

theorem revised_differs {k : KnowledgeCoordinator} (hk : k.Sound) {call : Call} {s : Text}
    (hs : s ∈ k.current) (h : Revises lib k call s) : LastDiffer (step lib k call) s := by
  obtain ⟨candidate, rfl, hstored, hstep⟩ := revises_stored lib h
  obtain ⟨older, holder⟩ := fact_current hk hs
  obtain ⟨entry, hentry, -, hlast⟩ := fact_some hk holder
  obtain ⟨before, hbefore⟩ := List.getLast?_eq_some_iff.mp hlast
  have hhistory : k.history s = before ++ [older] := by
    rw [history, hentry, Option.getD_some, hbefore]
  refine ⟨before, older, k.proposedFact lib candidate s, ?_, ?_⟩
  · rw [hstep, stored_history, hhistory, List.append_assoc]
    rfl
  · intro hsame
    have hrefusal : k.subjectRefusal candidate s = none := by
      unfold storedSubject at hstored
      split at hstored
      · cases hstored
      · exact Option.isNone_iff_eq_none.mp (Option.filter_eq_some_iff.mp hstored).2
    rw [subjectRefusal, if_pos] at hrefusal
    · cases hrefusal
    · rw [holder, Option.any_some, beq_iff_eq]
      exact hsame

theorem sound_churn_free {k : KnowledgeCoordinator} (hk : k.Sound) : ChurnFree lib k := by
  intro s first between second hfirst hbetween _ hsecond
  obtain ⟨candidate, -, -, hstep⟩ := revises_stored lib hfirst
  have hs : s ∈ (step lib k first).current := by
    rw [hstep]
    exact (AList.mem_insert _).mpr (Or.inl rfl)
  have hsound := run_sound lib (step lib k first) between (step_sound lib k first hk)
  exact revised_differs lib hsound (run_current lib hbetween hs) hsecond

end Steps

structure AppendOnly (lib : KnowledgeLibrary) (k : KnowledgeCoordinator) : Prop where
  numbered : Numbered lib k
  churnFree : ChurnFree lib k
  grows : ∀ call, Extends k (step lib k call)
  kept : ∀ candidate, (k.propose lib candidate).2.stores = false → (k.propose lib candidate).1 = k

/-- Revisions are append-only and free of churn in every reachable state. -/
theorem revisions_append_only (lib : KnowledgeLibrary) (ports : KnowledgePorts)
    (overrides : KnowledgeLimits) (calls : List Call) :
    AppendOnly lib (run lib (new ports overrides) calls) where
  numbered := run_numbered lib _ calls (new_numbered lib ports overrides)
  churnFree := sound_churn_free lib (run_sound lib _ calls (new_sound ports overrides))
  grows := step_extends lib _
  kept := unaccepted_kept lib _

end KnowledgeCoordinator

end Siralos.Knowledge
