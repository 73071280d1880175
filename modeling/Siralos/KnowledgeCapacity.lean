import Siralos.KnowledgeCoherence

/-!
# Capacity of the knowledge store

The limits count retained subjects, so a retired subject keeps its place and its history. The
counts are those of the active facts exactly while no subject is retired.
-/

set_option autoImplicit false

namespace Siralos.Knowledge.KnowledgeCoordinator

open Json

section Freed

variable (lib : KnowledgeLibrary) (k : KnowledgeCoordinator)

/-- A valid candidate that finds the store full. -/
def CapacityRefused (candidate : Value) : Prop :=
  validateCandidate lib k.ports k.limits candidate = .ok () ∧
    (k.propose lib candidate).2 = .rejected (factsLimitMessage k.limits)

structure CapacityFreed : Prop where
  size : k.size = k.activeFacts.length
  capacity : ∀ candidate, CapacityRefused lib k candidate →
    k.limits.maxFacts ≤ k.activeFacts.length
  history : ∀ s candidate, validateCandidate lib k.ports k.limits candidate = .ok () →
    subjectOf candidate = some s →
      ((k.retire s).propose lib candidate).2 ≠ .rejected (historyLimitMessage k.limits s)

def NoneRetired : Prop := ∀ s ∈ k.bySubject, s ∈ k.current

def HistoriesBelow : Prop :=
  ∀ s entry, k.bySubject.lookup s = some entry → entry.length < k.limits.maxRevisionsPerSubject

/-- No subject is retired and no history is filled up. -/
def KeepsCapacity : Call → Prop
  | .propose candidate => ∀ s ∈ storedSubject lib k candidate,
      (k.history s).length + 1 < k.limits.maxRevisionsPerSubject
  | .retire s => s ∉ k.bySubject
  | _ => True

def RunKeepsCapacity (k : KnowledgeCoordinator) : List Call → Prop
  | [] => True
  | call :: calls => KeepsCapacity lib k call ∧ RunKeepsCapacity (step lib k call) calls

def RunFreed (k : KnowledgeCoordinator) : List Call → Prop
  | [] => CapacityFreed lib k
  | call :: calls => CapacityFreed lib k ∧ RunFreed (step lib k call) calls

/-- What every reachable state keeps: each retained subject was proposed with valid content. -/
structure Proposed : Prop where
  sound : k.Sound
  revisions : 0 < k.limits.maxRevisionsPerSubject
  valid : ∀ s ∈ k.bySubject, ∃ candidate,
    validateCandidate lib k.ports k.limits candidate = .ok () ∧ subjectOf candidate = some s

end Freed

theorem active_length (k : KnowledgeCoordinator) :
    k.activeFacts.length = (k.bySubject.keys.filterMap k.fact).length + k.oneOff.keys.length := by
  have hsubjects : k.subjectFacts.length = (k.bySubject.keys.filterMap k.fact).length :=
    ((List.mergeSort_perm k.bySubject.keys _).filterMap k.fact).length_eq
  have hone : ((sortedKeys k.oneOff).filterMap k.oneOff.lookup).length = k.oneOff.keys.length := by
    have hall : ∀ id ∈ k.oneOff.keys, (k.oneOff.lookup id).isSome = true := fun id hid =>
      AList.lookup_isSome.mpr (AList.mem_keys.mpr hid)
    rw [sortedKeys, ((List.mergeSort_perm k.oneOff.keys _).filterMap _).length_eq,
      List.length_filterMap_eq_countP]
    exact List.countP_eq_length.mpr hall
  rw [activeFacts, List.length_mergeSort, List.length_append, hsubjects, hone]

theorem size_active (k : KnowledgeCoordinator) (hk : k.Sound) :
    k.size = k.activeFacts.length ↔ k.NoneRetired := by
  rw [active_length, size, Nat.add_right_cancel_iff, List.length_filterMap_eq_countP, eq_comm,
    List.countP_eq_length]
  constructor
  · intro h s hs
    obtain ⟨f, hf⟩ := Option.isSome_iff_exists.mp (h s (AList.mem_keys.mp hs))
    obtain ⟨entry, -, hcurrent, -⟩ := fact_some hk hf
    exact AList.lookup_isSome.mp (by rw [hcurrent]; rfl)
  · intro h s hs
    obtain ⟨f, hf⟩ := fact_current hk (h s (AList.mem_keys.mpr hs))
    rw [hf]
    rfl

section Refusals

variable (lib : KnowledgeLibrary) (k : KnowledgeCoordinator)

theorem heads_differ {a b x y : Text} (n : ℕ) (ha : n ≤ a.length) (hb : n ≤ b.length)
    (h : a.take n ≠ b.take n) : a ++ x ≠ b ++ y := by
  intro heq
  apply h
  rw [← List.take_append_of_le_length ha, heq, List.take_append_of_le_length hb]

theorem facts_ne_history (s : Text) :
    factsLimitMessage k.limits ≠ historyLimitMessage k.limits s := by
  intro h
  unfold factsLimitMessage historyLimitMessage at h
  repeat rw [List.append_assoc] at h
  exact heads_differ 5 (by decide) (by decide) (by decide) h

theorem facts_ne_pin : factsLimitMessage k.limits ≠ pinBudgetMessage k.limits := by
  intro h
  unfold factsLimitMessage pinBudgetMessage at h
  repeat rw [List.append_assoc] at h
  exact heads_differ 5 (by decide) (by decide) (by decide) h

theorem pin_ne_history (s : Text) :
    pinBudgetMessage k.limits ≠ historyLimitMessage k.limits s := by
  intro h
  unfold pinBudgetMessage historyLimitMessage at h
  repeat rw [List.append_assoc] at h
  exact heads_differ 5 (by decide) (by decide) (by decide) h

theorem held_eq_size : k.held = k.size := Nat.add_comm _ _

theorem capacity_refused (candidate : Value) (h : CapacityRefused lib k candidate) :
    k.limits.maxFacts ≤ k.size := by
  obtain ⟨hvalid, hrefused⟩ := h
  rw [propose, hvalid] at hrefused
  dsimp only at hrefused
  rw [← held_eq_size]
  split at hrefused
  · rename_i s _
    rw [proposeSubject] at hrefused
    split at hrefused
    · rename_i result hresult
      dsimp only at hrefused
      subst hrefused
      unfold subjectRefusal at hresult
      split_ifs at hresult with h1 h2 h3 h4
      · cases hresult
      · simp only [Option.some.injEq, ProposalResult.rejected.injEq] at hresult
        exact absurd hresult.symm (facts_ne_history k s)
      · exact h3.2
      · simp only [Option.some.injEq, ProposalResult.rejected.injEq] at hresult
        exact absurd hresult.symm (facts_ne_pin k)
    · cases hrefused
  · rw [proposeOneOff] at hrefused
    split at hrefused
    · assumption
    · cases hrefused

theorem history_refused (candidate : Value) (s : Text) (hfact : k.fact s = none) :
    (k.proposeSubject lib candidate s).2 = .rejected (historyLimitMessage k.limits s) ↔
      k.limits.maxRevisionsPerSubject ≤ (k.history s).length := by
  rw [proposeSubject, subjectRefusal, hfact]
  simp only [Option.any_none, Bool.false_eq_true, if_false]
  by_cases h : k.limits.maxRevisionsPerSubject ≤ (k.history s).length
  · rw [if_pos h]
    exact iff_of_true rfl h
  · rw [if_neg h]
    apply iff_of_false _ h
    split_ifs with h1 h2
    · intro heq
      exact facts_ne_history k s (ProposalResult.rejected.inj heq)
    · intro heq
      exact pin_ne_history k s (ProposalResult.rejected.inj heq)
    · intro heq
      cases heq

theorem retired_kept (s : Text) : (k.retire s).ports = k.ports ∧ (k.retire s).limits = k.limits ∧
    (k.retire s).bySubject = k.bySubject := by
  unfold retire
  split
  · exact ⟨rfl, rfl, rfl⟩
  · exact ⟨rfl, rfl, rfl⟩

theorem retired_none (s : Text) : (k.retire s).fact s = none := by
  by_cases h : s ∈ k.bySubject
  · exact retired_fact k s h
  · rw [retire, if_neg h, fact, AList.lookup_eq_none.mpr h]
    rfl

theorem retired_refused (candidate : Value) (s : Text)
    (hvalid : validateCandidate lib k.ports k.limits candidate = .ok ())
    (hsubject : subjectOf candidate = some s) :
    ((k.retire s).propose lib candidate).2 = .rejected (historyLimitMessage k.limits s) ↔
      k.limits.maxRevisionsPerSubject ≤ (k.history s).length := by
  obtain ⟨hports, hlimits, hsubjects⟩ := retired_kept k s
  have hhistory : (k.retire s).history s = k.history s := by
    rw [history, history, hsubjects]
  rw [propose, hports, hlimits, hvalid]
  dsimp only
  rw [hsubject]
  dsimp only
  rw [← hlimits, history_refused lib _ candidate s (retired_none k s), hhistory]

end Refusals

section States

variable (lib : KnowledgeLibrary) (k : KnowledgeCoordinator)

theorem freed_iff (hk : Proposed lib k) :
    CapacityFreed lib k ↔ k.NoneRetired ∧ k.HistoriesBelow := by
  constructor
  · intro h
    refine ⟨(size_active k hk.sound).mp h.size, ?_⟩
    intro s entry hentry
    have hmem : s ∈ k.bySubject := AList.lookup_isSome.mp (by rw [hentry]; rfl)
    obtain ⟨candidate, hvalid, hsubject⟩ := hk.valid s hmem
    have hnot := h.history s candidate hvalid hsubject
    rw [Ne, retired_refused lib k candidate s hvalid hsubject, history, hentry] at hnot
    simpa using hnot
  · intro h
    have hsize := (size_active k hk.sound).mpr h.1
    constructor
    · exact hsize
    · intro candidate hrefused
      rw [← hsize]
      exact capacity_refused lib k candidate hrefused
    · intro s candidate hvalid hsubject
      rw [Ne, retired_refused lib k candidate s hvalid hsubject, Nat.not_le]
      cases hentry : k.bySubject.lookup s with
      | none =>
        rw [history, hentry]
        exact hk.revisions
      | some entry =>
        rw [history, hentry]
        exact h.2 s entry hentry

end States

section Steps

variable (lib : KnowledgeLibrary)

theorem stored_valid {k : KnowledgeCoordinator} {candidate : Value} {s : Text}
    (h : k.storedSubject lib candidate = some s) :
    validateCandidate lib k.ports k.limits candidate = .ok () ∧ subjectOf candidate = some s := by
  unfold storedSubject at h
  split at h
  · cases h
  · rename_i hvalid
    exact ⟨hvalid, (Option.filter_eq_some_iff.mp h).1⟩

theorem stored_unchanged {k : KnowledgeCoordinator} {candidate : Value}
    (h : k.storedSubject lib candidate = none) :
    (k.propose lib candidate).1.ports = k.ports ∧ (k.propose lib candidate).1.limits = k.limits ∧
      (k.propose lib candidate).1.bySubject = k.bySubject ∧
      (k.propose lib candidate).1.current = k.current := by
  unfold storedSubject at h
  unfold propose
  cases hvalid : validateCandidate lib k.ports k.limits candidate with
  | error reason => exact ⟨rfl, rfl, rfl, rfl⟩
  | ok valid =>
    rw [hvalid] at h
    dsimp only at h ⊢
    split
    · rename_i s hsubject
      rw [hsubject] at h
      rw [proposeSubject]
      cases hrefusal : k.subjectRefusal candidate s with
      | some result => exact ⟨rfl, rfl, rfl, rfl⟩
      | none => simp [Option.filter, hrefusal] at h
    · unfold proposeOneOff
      split
      · exact ⟨rfl, rfl, rfl, rfl⟩
      · exact ⟨rfl, rfl, rfl, rfl⟩

/-- The operations on pins change neither subjects nor histories. -/
structure SameCapacity (k k' : KnowledgeCoordinator) : Prop where
  ports : k'.ports = k.ports
  limits : k'.limits = k.limits
  lengths : ∀ t, (k'.bySubject.lookup t).map List.length = (k.bySubject.lookup t).map List.length
  current : k'.current = k.current

variable {k : KnowledgeCoordinator}

theorem replaced_same (s : Text) (activation : Activation) (pinned : Finset Text) :
    SameCapacity k (({ k with pinned } : KnowledgeCoordinator).replaceActivation s activation) where
  ports := by
    unfold replaceActivation
    split <;> rfl
  limits := replaced_limits _ s activation
  lengths := replaced_lengths { k with pinned } s activation
  current := replaced_current _ s activation

theorem same_mem {k' : KnowledgeCoordinator} (h : SameCapacity k k') (s : Text) :
    s ∈ k'.bySubject ↔ s ∈ k.bySubject := by
  rw [← AList.lookup_isSome, ← AList.lookup_isSome, ← Option.isSome_map (f := List.length), h.lengths,
    Option.isSome_map]

theorem histories_lengths : k.HistoriesBelow ↔ ∀ s n,
    (k.bySubject.lookup s).map List.length = some n → n < k.limits.maxRevisionsPerSubject := by
  constructor
  · intro h s n hn
    obtain ⟨entry, hentry, rfl⟩ := Option.map_eq_some_iff.mp hn
    exact h s entry hentry
  · intro h s entry hentry
    exact h s entry.length (by rw [hentry]; rfl)

theorem same_capacity {k' : KnowledgeCoordinator} (h : SameCapacity k k') :
    k'.NoneRetired ∧ k'.HistoriesBelow ↔ k.NoneRetired ∧ k.HistoriesBelow := by
  have hretired : k'.NoneRetired ↔ k.NoneRetired := by
    unfold NoneRetired
    simp only [same_mem h, h.current]
  rw [hretired, histories_lengths, histories_lengths]
  simp only [h.lengths, h.limits]

theorem same_proposed {k' : KnowledgeCoordinator} (h : SameCapacity k k') (hsound : k'.Sound)
    (hk : Proposed lib k) : Proposed lib k' where
  sound := hsound
  revisions := h.limits ▸ hk.revisions
  valid := by
    intro s hs
    rw [h.ports, h.limits]
    exact hk.valid s ((same_mem h s).mp hs)

theorem step_same (call : Call) (hpropose : ∀ candidate, call = .propose candidate →
      k.storedSubject lib candidate = none)
    (hretire : ∀ s, call = .retire s → s ∉ k.bySubject) : SameCapacity k (step lib k call) := by
  have hrefl : SameCapacity k k := ⟨rfl, rfl, fun _ => rfl, rfl⟩
  cases call with
  | propose candidate =>
    obtain ⟨hports, hlimits, hsubjects, hcurrent⟩ := stored_unchanged lib (hpropose candidate rfl)
    exact ⟨hports, hlimits, fun t => by rw [step, hsubjects], hcurrent⟩
  | pin s =>
    show SameCapacity k (k.pin s).1
    rcases pin_cases k s with h | ⟨-, h⟩
    · rwa [h]
    · rw [h]
      exact replaced_same s .pinned _
  | unpin s =>
    show SameCapacity k (k.unpin s)
    unfold unpin
    split
    · exact replaced_same s .retrieved _
    · exact hrefl
  | retire s =>
    show SameCapacity k (k.retire s)
    rwa [retire, if_neg (hretire s rfl)]
  | retrieve query =>
    obtain ⟨trace, h⟩ := retrieved_cases lib k query
    rw [h]
    exact ⟨rfl, rfl, fun _ => rfl, rfl⟩

theorem stored_capacity (candidate : Value) (s : Text) (h : k.NoneRetired ∧ k.HistoriesBelow) :
    (k.storeRevision lib candidate s).1.NoneRetired ∧
        (k.storeRevision lib candidate s).1.HistoriesBelow ↔
      (k.history s).length + 1 < k.limits.maxRevisionsPerSubject := by
  constructor
  · intro h'
    have hs := h'.2 s _ (AList.lookup_insert k.bySubject)
    rwa [List.length_append] at hs
  · intro hlength
    constructor
    · intro t ht
      show t ∈ k.current.insert s _
      rw [AList.mem_insert]
      rcases (AList.mem_insert _).mp ht with hts | ht
      · exact Or.inl hts
      · exact Or.inr (h.1 t ht)
    · intro t entry ht
      by_cases hts : t = s
      · subst hts
        simp only [storeRevision, AList.lookup_insert, Option.some.injEq] at ht
        rw [← ht, List.length_append]
        exact hlength
      · simp only [storeRevision, AList.lookup_insert_ne hts] at ht
        exact h.2 t entry ht

theorem retired_capacity (s : Text) (hs : s ∈ k.bySubject) : ¬ (k.retire s).NoneRetired := by
  intro h
  have hkept := (retired_kept k s).2.2
  have hcurrent := h s (by rwa [hkept])
  rw [retire, if_pos hs] at hcurrent
  exact (AList.mem_erase.mp hcurrent).1 rfl

theorem step_capacity (call : Call) (h : k.NoneRetired ∧ k.HistoriesBelow) :
    (step lib k call).NoneRetired ∧ (step lib k call).HistoriesBelow ↔ KeepsCapacity lib k call := by
  cases call with
  | propose candidate =>
    cases hstored : k.storedSubject lib candidate with
    | none =>
      have hsame := step_same lib (.propose candidate) (fun _ heq => by cases heq; exact hstored)
        (fun _ heq => by cases heq)
      rw [same_capacity hsame]
      exact iff_of_true h (by simp [KeepsCapacity, hstored])
    | some s =>
      show (k.propose lib candidate).1.NoneRetired ∧ (k.propose lib candidate).1.HistoriesBelow ↔ _
      rw [(stored_subject lib hstored).1, stored_capacity lib candidate s h]
      simp [KeepsCapacity, hstored]
  | retire s =>
    by_cases hs : s ∈ k.bySubject
    · exact iff_of_false (fun h' => retired_capacity s hs h'.1) (fun h' => h' hs)
    · have hsame := step_same lib (.retire s) (fun _ heq => by cases heq)
        (fun _ heq => by cases heq; exact hs)
      rw [same_capacity hsame]
      exact iff_of_true h hs
  | pin s =>
    rw [same_capacity (step_same lib (.pin s) (fun _ heq => by cases heq) (fun _ heq => by cases heq))]
    exact iff_of_true h trivial
  | unpin s =>
    rw [same_capacity (step_same lib (.unpin s) (fun _ heq => by cases heq)
      (fun _ heq => by cases heq))]
    exact iff_of_true h trivial
  | retrieve query =>
    rw [same_capacity (step_same lib (.retrieve query) (fun _ heq => by cases heq)
      (fun _ heq => by cases heq))]
    exact iff_of_true h trivial

theorem step_proposed (call : Call) (hk : Proposed lib k) : Proposed lib (step lib k call) := by
  have hsound := step_sound lib k call hk.sound
  by_cases hsame : SameCapacity k (step lib k call)
  · exact same_proposed lib hsame hsound hk
  · cases call with
    | propose candidate =>
      cases hstored : k.storedSubject lib candidate with
      | none =>
        exact absurd (step_same lib (.propose candidate) (fun _ heq => by cases heq; exact hstored)
          (fun _ heq => by cases heq)) hsame
      | some s =>
        have hstate : step lib k (.propose candidate) = (k.storeRevision lib candidate s).1 :=
          (stored_subject lib hstored).1
        refine ⟨hsound, ?_, ?_⟩
        · rw [hstate]
          exact hk.revisions
        · intro t ht
          rw [hstate] at ht ⊢
          show ∃ c, validateCandidate lib k.ports k.limits c = .ok () ∧ subjectOf c = some t
          rcases (AList.mem_insert _).mp ht with hts | ht
          · rw [hts]
            exact ⟨candidate, stored_valid lib hstored⟩
          · exact hk.valid t ht
    | retire s =>
      obtain ⟨hports, hlimits, hsubjects⟩ := retired_kept k s
      refine ⟨hsound, ?_, ?_⟩
      · show 0 < (k.retire s).limits.maxRevisionsPerSubject
        rw [hlimits]
        exact hk.revisions
      · intro t ht
        change t ∈ (k.retire s).bySubject at ht
        rw [hsubjects] at ht
        show ∃ candidate, validateCandidate lib (k.retire s).ports (k.retire s).limits candidate =
          .ok () ∧ subjectOf candidate = some t
        rw [hports, hlimits]
        exact hk.valid t ht
    | pin s =>
      exact absurd (step_same lib (.pin s) (fun _ heq => by cases heq) (fun _ heq => by cases heq))
        hsame
    | unpin s =>
      exact absurd (step_same lib (.unpin s) (fun _ heq => by cases heq)
        (fun _ heq => by cases heq)) hsame
    | retrieve query =>
      exact absurd (step_same lib (.retrieve query) (fun _ heq => by cases heq)
        (fun _ heq => by cases heq)) hsame

theorem new_proposed (ports : KnowledgePorts) (overrides : KnowledgeLimits) :
    Proposed lib (new ports overrides) := by
  refine ⟨new_sound ports overrides, ?_, ?_⟩
  · show 0 < 64
    omega
  · intro s hs
    exact absurd hs (AList.notMem_empty s)

theorem run_proposed (calls : List Call) (hk : Proposed lib k) : Proposed lib (run lib k calls) := by
  induction calls generalizing k with
  | nil => exact hk
  | cons call calls ih => exact ih (step_proposed lib call hk)

theorem run_freed (calls : List Call) (hk : Proposed lib k)
    (h : k.NoneRetired ∧ k.HistoriesBelow) :
    RunFreed lib k calls ↔ RunKeepsCapacity lib k calls := by
  induction calls generalizing k with
  | nil => exact iff_of_true ((freed_iff lib k hk).mpr h) trivial
  | cons call calls ih =>
    have hnext := step_proposed lib call hk
    have hstep := step_capacity lib call h
    constructor
    · intro hrun
      have hfreed : CapacityFreed lib (step lib k call) := by
        cases calls with
        | nil => exact hrun.2
        | cons _ _ => exact hrun.2.1
      have hbelow := (freed_iff lib _ hnext).mp hfreed
      exact ⟨hstep.mp hbelow, (ih hnext hbelow).mp hrun.2⟩
    · intro hkeeps
      have hbelow := hstep.mpr hkeeps.1
      exact ⟨(freed_iff lib k hk).mpr h, (ih hnext hbelow).mpr hkeeps.2⟩

end Steps

/-- Retirement frees nothing: a reachable state counts its active facts, and no history keeps a
subject out, exactly when no retained subject is retired and every history has room. So it is in
every state of a run when no step retires a subject or fills a history. -/
theorem capacity_freed_iff (lib : KnowledgeLibrary) (ports : KnowledgePorts)
    (overrides : KnowledgeLimits) (calls : List Call) :
    (CapacityFreed lib (run lib (new ports overrides) calls) ↔
        (run lib (new ports overrides) calls).NoneRetired ∧
          (run lib (new ports overrides) calls).HistoriesBelow) ∧
      (RunFreed lib (new ports overrides) calls ↔
        RunKeepsCapacity lib (new ports overrides) calls) := by
  have hnew := new_proposed lib ports overrides
  refine ⟨freed_iff lib _ (run_proposed lib calls hnew), run_freed lib calls hnew ⟨?_, ?_⟩⟩
  · intro s hs
    exact absurd hs (AList.notMem_empty s)
  · intro s entry hentry
    exact absurd hentry (by simp [new])

theorem capacity_freed_fails : ¬ RunFreed pinnedLibrary (new pinnedPorts {})
    (pinnedCalls ++ [.retire ['a']]) := by
  have hsize : (run pinnedLibrary (new pinnedPorts {}) (pinnedCalls ++ [.retire ['a']])).size = 1 := by
    decide
  have hactive : (run pinnedLibrary (new pinnedPorts {})
      (pinnedCalls ++ [.retire ['a']])).activeFacts.length = 0 := by
    decide +kernel
  intro h
  have hlast : CapacityFreed pinnedLibrary (run pinnedLibrary (new pinnedPorts {})
      (pinnedCalls ++ [.retire ['a']])) := h.2.2.2
  have heq := hlast.size
  rw [hsize, hactive] at heq
  cases heq

end Siralos.Knowledge.KnowledgeCoordinator
