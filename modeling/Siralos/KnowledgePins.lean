import Mathlib.Algebra.BigOperators.Group.Finset.Basic
import Siralos.KnowledgeRetrieval

/-!
# Pinned knowledge

That a subject is pinned is written twice, in the pinned set and on its current fact, and four
operations write it. The copies agree as long as no revision of a pinned subject asks for less,
and the byte budget holds as long as a pin pays for all that its projection shows.
-/

set_option autoImplicit false

namespace Siralos.Knowledge

open Json

inductive Call where
  | propose (candidate : Value)
  | pin (subjectKey : Text)
  | unpin (subjectKey : Text)
  | retire (subjectKey : Text)
  | retrieve (query : Value)

section Runs

variable (lib : KnowledgeLibrary)

/-- A retrieval that panics leaves the coordinator as it was. -/
def step (k : KnowledgeCoordinator) : Call → KnowledgeCoordinator
  | .propose candidate => (k.propose lib candidate).1
  | .pin subjectKey => (k.pin subjectKey).1
  | .unpin subjectKey => k.unpin subjectKey
  | .retire subjectKey => k.retire subjectKey
  | .retrieve query => ((k.retrieve lib query).map Prod.fst).getD k

def run (k : KnowledgeCoordinator) (calls : List Call) : KnowledgeCoordinator :=
  calls.foldl (step lib) k

end Runs

namespace KnowledgeCoordinator

/-- The current pointer names the last revision, and a pinned subject has one. -/
structure Sound (k : KnowledgeCoordinator) : Prop where
  pointed : ∀ s i, k.current.lookup s = some i →
    ∃ entry, k.bySubject.lookup s = some entry ∧ i = entry.length ∧ entry ≠ []
  keyed : ∀ s entry, k.bySubject.lookup s = some entry → ∀ fact ∈ entry, fact.subjectKey = some s
  active : ∀ s ∈ k.pinned, s ∈ k.current

theorem fact_none {k : KnowledgeCoordinator} {s : Text} (h : k.current.lookup s = none) :
    k.fact s = none := by
  unfold fact
  rw [h]
  cases k.bySubject.lookup s <;> rfl

theorem fact_of_entry {k : KnowledgeCoordinator} {s : Text} {entry : List Fact}
    (hentry : k.bySubject.lookup s = some entry)
    (hcurrent : k.current.lookup s = some entry.length) : k.fact s = entry.getLast? := by
  unfold fact
  rw [hentry, hcurrent, List.getLast?_eq_getElem?]
  rfl

theorem fact_some {k : KnowledgeCoordinator} (hk : k.Sound) {s : Text} {f : Fact}
    (h : k.fact s = some f) :
    ∃ entry, k.bySubject.lookup s = some entry ∧ k.current.lookup s = some entry.length ∧
      entry.getLast? = some f := by
  cases hc : k.current.lookup s with
  | none => rw [fact_none hc] at h; cases h
  | some i =>
    obtain ⟨entry, hentry, rfl, -⟩ := hk.pointed s i hc
    rw [fact_of_entry hentry hc] at h
    exact ⟨entry, hentry, rfl, h⟩

theorem fact_key {k : KnowledgeCoordinator} (hk : k.Sound) {s : Text} {f : Fact}
    (h : k.fact s = some f) : f.subjectKey = some s := by
  obtain ⟨entry, hentry, -, hlast⟩ := fact_some hk h
  exact hk.keyed s entry hentry f (List.mem_of_getLast? hlast)

theorem fact_current {k : KnowledgeCoordinator} (hk : k.Sound) {s : Text} (h : s ∈ k.current) :
    ∃ f, k.fact s = some f := by
  obtain ⟨i, hi⟩ := Option.isSome_iff_exists.mp (AList.lookup_isSome.mpr h)
  obtain ⟨entry, hentry, rfl, hne⟩ := hk.pointed s i hi
  rw [fact_of_entry hentry hi, List.getLast?_eq_getLast_of_ne_nil hne]
  exact ⟨_, rfl⟩

theorem new_sound (ports : KnowledgePorts) (overrides : KnowledgeLimits) :
    (new ports overrides).Sound := by
  constructor
  · intro s i h
    exact absurd h (by simp [new])
  · intro s entry h
    exact absurd h (by simp [new])
  · intro s h
    exact absurd h (by simp [new])

section Store

variable (lib : KnowledgeLibrary) (k : KnowledgeCoordinator) (candidate : Value) (s : Text)

def proposedFact : Fact :=
  buildFact lib.sha256Hex k.ports (some s) ((k.history s).length + 1) candidate
    (if wantsPin candidate then .pinned else .retrieved)

theorem stored_fact : (k.storeRevision lib candidate s).1.fact s = some (k.proposedFact lib candidate s) := by
  rw [fact_of_entry (AList.lookup_insert _)]
  · exact List.getLast?_concat
  · simp only [storeRevision, AList.lookup_insert, List.length_append, List.length_singleton]

theorem stored_fact_ne (t : Text) (h : t ≠ s) :
    (k.storeRevision lib candidate s).1.fact t = k.fact t := by
  simp only [fact, storeRevision, AList.lookup_insert_ne h]

theorem stored_sound (hk : k.Sound) : (k.storeRevision lib candidate s).1.Sound := by
  constructor
  · intro t i h
    by_cases hts : t = s
    · subst hts
      simp only [storeRevision, AList.lookup_insert, Option.some.injEq] at h ⊢
      exact ⟨_, rfl, by simp [← h], by simp⟩
    · simp only [storeRevision, AList.lookup_insert_ne hts] at h ⊢
      exact hk.pointed t i h
  · intro t entry h f hf
    by_cases hts : t = s
    · subst hts
      simp only [storeRevision, AList.lookup_insert, Option.some.injEq] at h
      subst h
      rcases List.mem_append.mp hf with hf | hf
      · cases hlookup : k.bySubject.lookup t with
        | none => simp [history, hlookup] at hf
        | some entry =>
          simp only [history, hlookup, Option.getD_some] at hf
          exact hk.keyed t entry hlookup f hf
      · rw [List.mem_singleton.mp hf]
        rfl
    · simp only [storeRevision, AList.lookup_insert_ne hts] at h
      exact hk.keyed t entry h f hf
  · intro t h
    simp only [storeRevision] at h ⊢
    rw [AList.mem_insert]
    by_cases hts : t = s
    · exact Or.inl hts
    · apply Or.inr
      apply hk.active
      split at h
      · exact (Finset.mem_insert.mp h).resolve_left hts
      · exact h

end Store

section Activation

variable (k : KnowledgeCoordinator) (s : Text) (activation : Activation)

theorem replaced_limits : (k.replaceActivation s activation).limits = k.limits := by
  unfold replaceActivation
  split <;> rfl

theorem replaced_pinned : (k.replaceActivation s activation).pinned = k.pinned := by
  unfold replaceActivation
  split <;> rfl

theorem replaced_current : (k.replaceActivation s activation).current = k.current := by
  unfold replaceActivation
  split <;> rfl

theorem replaced_none (h : k.current.lookup s = none) : k.replaceActivation s activation = k := by
  unfold replaceActivation
  rw [h]
  cases k.bySubject.lookup s <;> rfl

theorem replaced_some (entry : List Fact) (hentry : k.bySubject.lookup s = some entry)
    (hcurrent : k.current.lookup s = some entry.length) :
    k.replaceActivation s activation =
      { k with
        bySubject := k.bySubject.insert s
          (entry.modify (entry.length - 1) fun current => { current with activation }) } := by
  unfold replaceActivation
  rw [hentry, hcurrent]

theorem replaced_fact_ne (t : Text) (h : t ≠ s) :
    (k.replaceActivation s activation).fact t = k.fact t := by
  unfold replaceActivation
  split
  · simp only [fact, AList.lookup_insert_ne h]
  · rfl

theorem replaced_fact (hk : k.Sound) :
    (k.replaceActivation s activation).fact s =
      (k.fact s).map fun current => { current with activation } := by
  cases hc : k.current.lookup s with
  | none => rw [replaced_none k s activation hc, fact_none hc, Option.map_none]
  | some i =>
    obtain ⟨entry, hentry, rfl, hne⟩ := hk.pointed s i hc
    have hlength : entry.length - 1 < entry.length := by
      have hpos := List.length_pos_of_ne_nil hne
      omega
    rw [fact_of_entry hentry hc, replaced_some k s activation entry hentry hc,
      fact_of_entry (AList.lookup_insert _) (by simpa using hc), List.getLast?_eq_getElem?,
      List.getLast?_eq_getElem?, List.length_modify, List.getElem?_modify_eq]
    rfl

theorem replaced_sound (hk : k.Sound) : (k.replaceActivation s activation).Sound := by
  cases hc : k.current.lookup s with
  | none => rwa [replaced_none k s activation hc]
  | some i =>
    obtain ⟨entry, hentry, rfl, hne⟩ := hk.pointed s i hc
    rw [replaced_some k s activation entry hentry hc]
    constructor
    · intro t i h
      by_cases hts : t = s
      · subst hts
        rw [hc, Option.some.injEq] at h
        exact ⟨_, AList.lookup_insert _, by simp [← h], by simpa using hne⟩
      · simp only [AList.lookup_insert_ne hts]
        exact hk.pointed t i h
    · intro t other h f hf
      by_cases hts : t = s
      · subst hts
        rw [AList.lookup_insert, Option.some.injEq] at h
        subst h
        obtain ⟨n, hn⟩ := List.mem_iff_getElem?.mp hf
        rw [List.getElem?_modify] at hn
        obtain ⟨before, hbefore, rfl⟩ := Option.map_eq_some_iff.mp hn
        have hkey := hk.keyed t entry hentry before (List.mem_of_getElem? hbefore)
        split <;> exact hkey
      · rw [AList.lookup_insert_ne hts] at h
        exact hk.keyed t other h f hf
    · exact hk.active

theorem replaced_lengths (t : Text) :
    ((k.replaceActivation s activation).bySubject.lookup t).map List.length =
      (k.bySubject.lookup t).map List.length := by
  unfold replaceActivation
  split
  case h_1 entry index hentry hcurrent =>
    by_cases hts : t = s
    · subst hts
      rw [AList.lookup_insert, hentry, Option.map_some, Option.map_some, List.length_modify]
    · rw [AList.lookup_insert_ne hts]
  case h_2 => rfl

end Activation

section Retired

variable (k : KnowledgeCoordinator) (s : Text)

theorem retired_fact (h : s ∈ k.bySubject) : (k.retire s).fact s = none := by
  apply fact_none
  rw [retire, if_pos h]
  exact AList.lookup_erase _ _

theorem retired_fact_ne (t : Text) (hts : t ≠ s) : (k.retire s).fact t = k.fact t := by
  unfold retire
  split
  · simp only [fact, AList.lookup_erase_ne hts]
  · rfl

theorem retired_sound (hk : k.Sound) : (k.retire s).Sound := by
  by_cases h : s ∈ k.bySubject
  · rw [retire, if_pos h]
    constructor
    · intro t i ht
      by_cases hts : t = s
      · subst hts
        rw [AList.lookup_erase] at ht
        cases ht
      · rw [AList.lookup_erase_ne hts] at ht
        exact hk.pointed t i ht
    · exact hk.keyed
    · intro t ht
      have hmem := Finset.mem_erase.mp ht
      exact AList.mem_erase.mpr ⟨hmem.1, hk.active t hmem.2⟩
  · rwa [retire, if_neg h]

end Retired

section Steps

variable (lib : KnowledgeLibrary)

theorem propose_cases (k : KnowledgeCoordinator) (candidate : Value) :
    (k.propose lib candidate).1 = k ∨
      (∃ id fact, (k.propose lib candidate).1 = { k with oneOff := k.oneOff.insert id fact }) ∨
      ∃ s, (k.propose lib candidate).1 = (k.storeRevision lib candidate s).1 := by
  unfold propose
  split
  · exact Or.inl rfl
  · split
    · rename_i s _
      unfold proposeSubject
      split
      · exact Or.inl rfl
      · exact Or.inr (Or.inr ⟨s, rfl⟩)
    · unfold proposeOneOff
      split
      · exact Or.inl rfl
      · exact Or.inr (Or.inl ⟨_, _, rfl⟩)

theorem retrieve_kept (k k' : KnowledgeCoordinator) (query : Value) (facts : List Fact)
    (trace : RetrievalTrace) (h : k.retrieve lib query = some (k', facts, trace)) :
    k' = { k with lastTrace := some trace } := by
  unfold retrieve at h
  obtain ⟨considered, -, h⟩ := Option.bind_eq_some_iff.mp h
  simp only [Option.some.injEq, Prod.mk.injEq] at h
  obtain ⟨rfl, -, rfl⟩ := h
  rfl

theorem retrieved_cases (k : KnowledgeCoordinator) (query : Value) :
    ∃ trace, step lib k (.retrieve query) = { k with lastTrace := trace } := by
  show ∃ trace, ((k.retrieve lib query).map Prod.fst).getD k = { k with lastTrace := trace }
  cases h : k.retrieve lib query with
  | none => exact ⟨k.lastTrace, rfl⟩
  | some result =>
    obtain ⟨k', facts, trace⟩ := result
    exact ⟨some trace, retrieve_kept lib k k' query facts trace h⟩

theorem pin_cases (k : KnowledgeCoordinator) (s : Text) :
    (k.pin s).1 = k ∨
      (k.fact s).isSome ∧ (k.pin s).1 =
        ({ k with pinned := insert s k.pinned } : KnowledgeCoordinator).replaceActivation s .pinned := by
  unfold pin
  split
  · exact Or.inl rfl
  · rename_i f hf
    split_ifs
    · exact Or.inl rfl
    · exact Or.inl rfl
    · exact Or.inl rfl
    · exact Or.inr ⟨by rw [hf]; rfl, rfl⟩

theorem step_sound (k : KnowledgeCoordinator) (call : Call) (hk : k.Sound) :
    (step lib k call).Sound := by
  cases call with
  | propose candidate =>
    show (k.propose lib candidate).1.Sound
    rcases propose_cases lib k candidate with h | ⟨id, fact, h⟩ | ⟨s, h⟩
    · rwa [h]
    · rw [h]
      exact ⟨hk.pointed, hk.keyed, hk.active⟩
    · rw [h]
      exact stored_sound lib k candidate s hk
  | pin s =>
    show (k.pin s).1.Sound
    rcases pin_cases k s with h | ⟨hsome, h⟩
    · rwa [h]
    · rw [h]
      apply replaced_sound
      obtain ⟨f, hf⟩ := Option.isSome_iff_exists.mp hsome
      obtain ⟨entry, -, hcurrent, -⟩ := fact_some hk hf
      have hmem : s ∈ k.current := AList.lookup_isSome.mp (by rw [hcurrent]; rfl)
      constructor
      · exact hk.pointed
      · exact hk.keyed
      · intro t ht
        rcases Finset.mem_insert.mp ht with rfl | ht
        · exact hmem
        · exact hk.active t ht
  | unpin s =>
    show (k.unpin s).Sound
    unfold unpin
    split
    · apply replaced_sound
      exact ⟨hk.pointed, hk.keyed, fun t ht => hk.active t (Finset.mem_of_mem_erase ht)⟩
    · exact hk
  | retire s => exact retired_sound k s hk
  | retrieve query =>
    obtain ⟨trace, h⟩ := retrieved_cases lib k query
    rw [h]
    exact ⟨hk.pointed, hk.keyed, hk.active⟩

theorem run_sound (k : KnowledgeCoordinator) (calls : List Call) (hk : k.Sound) :
    (run lib k calls).Sound := by
  induction calls generalizing k with
  | nil => exact hk
  | cons call calls ih => exact ih (step lib k call) (step_sound lib k call hk)

end Steps

end KnowledgeCoordinator

end Siralos.Knowledge
