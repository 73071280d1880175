import Mathlib.Algebra.Order.BigOperators.Group.Finset
import Siralos.KnowledgePins

/-!
# Coherence of pinned knowledge

A step keeps the two copies of the pin status in agreement and the pinned projection in its
budgets exactly when a new revision of a pinned subject asks for the pin again and every pin pays
for the subject key, the space and the content.
-/

set_option autoImplicit false

namespace Siralos.Knowledge.KnowledgeCoordinator

open Json

structure PinsCoherent (lib : KnowledgeLibrary) (k : KnowledgeCoordinator) : Prop where
  pinned : ∀ s, s ∈ k.pinned ↔ ∃ fact, k.fact s = some fact ∧ fact.activation = .pinned
  count : k.pinned.card ≤ k.limits.maxPinnedFacts
  bytes : (k.pinnedFacts.map factProjectionBytes).sum ≤ k.limits.maxPinnedBytes
  apart : ∀ query k' facts trace, k.retrieve lib query = some (k', facts, trace) →
    ∀ fact ∈ facts, fact ∉ k.pinnedFacts

/-- The bytes a subject takes in the pinned projection. -/
def subjectBytes (k : KnowledgeCoordinator) (s : Text) : ℕ :=
  ((k.fact s).map factProjectionBytes).getD 0

/-- The whole projection of the content fits beside the other pinned subjects. -/
def PaysForPin (k : KnowledgeCoordinator) (s content : Text) : Prop :=
  (∑ t ∈ k.pinned.erase s, k.subjectBytes t) + projectionBytes s content ≤ k.limits.maxPinnedBytes

instance (k : KnowledgeCoordinator) (s content : Text) : Decidable (k.PaysForPin s content) :=
  inferInstanceAs (Decidable (_ ≤ _))

section Keeps

variable (lib : KnowledgeLibrary) (k : KnowledgeCoordinator)

/-- The subject for which a proposal stores a revision. -/
def storedSubject (candidate : Value) : Option Text :=
  match validateCandidate lib k.ports k.limits candidate with
  | .error _ => none
  | .ok () => (subjectOf candidate).filter fun s => (k.subjectRefusal candidate s).isNone

/-- The fact that a pin moves into the pinned set. -/
def pinnable (s : Text) : Option Fact :=
  (k.fact s).filter fun fact =>
    decide (s ∉ k.pinned) && k.hasPinRoom &&
      decide (k.pinnedProjectionBytes + Text.utf8Len fact.content ≤ k.limits.maxPinnedBytes)

def KeepsPins : Call → Prop
  | .propose candidate => ∀ s ∈ storedSubject lib k candidate,
      (s ∈ k.pinned → wantsPin candidate = true) ∧
        (wantsPin candidate = true → k.PaysForPin s (textAt candidate "content"))
  | .pin s => ∀ fact ∈ k.pinnable s, k.PaysForPin s fact.content
  | _ => True

def RunKeepsPins (k : KnowledgeCoordinator) : List Call → Prop
  | [] => True
  | call :: calls => KeepsPins lib k call ∧ RunKeepsPins (step lib k call) calls

def RunCoherent (k : KnowledgeCoordinator) : List Call → Prop
  | [] => PinsCoherent lib k
  | call :: calls => PinsCoherent lib k ∧ RunCoherent (step lib k call) calls

end Keeps

theorem sum_projected (k : KnowledgeCoordinator) (subjects : List Text) :
    ((subjects.filterMap k.fact).map factProjectionBytes).sum =
      (subjects.map k.subjectBytes).sum := by
  induction subjects with
  | nil => rfl
  | cons s subjects ih =>
    cases h : k.fact s with
    | none => rw [List.filterMap_cons_none h, ih, List.map_cons, List.sum_cons, subjectBytes, h]; simp
    | some f =>
      rw [List.filterMap_cons_some h, List.map_cons, List.sum_cons, ih, List.map_cons,
        List.sum_cons, subjectBytes, h]
      rfl

theorem sum_sorted (k : KnowledgeCoordinator) :
    (k.pinned.sort.map k.subjectBytes).sum = ∑ s ∈ k.pinned, k.subjectBytes s := by
  rw [← Finset.sum_map_toList]
  exact ((Finset.sort_perm_toList k.pinned _).map _).sum_eq

theorem pinned_bytes (k : KnowledgeCoordinator) :
    (k.pinnedFacts.map factProjectionBytes).sum = ∑ s ∈ k.pinned, k.subjectBytes s := by
  have hperm := (List.mergeSort_perm (k.pinned.sort.filterMap k.fact)
    fun left right => decide (left.subjectKey.getD [] ≤ right.subjectKey.getD []))
  rw [← sum_sorted, ← sum_projected]
  exact (hperm.map _).sum_eq

theorem mem_pinned_facts (k : KnowledgeCoordinator) (f : Fact) :
    f ∈ k.pinnedFacts ↔ ∃ s ∈ k.pinned, k.fact s = some f := by
  unfold pinnedFacts
  rw [List.mem_mergeSort, List.mem_filterMap]
  simp only [Finset.mem_sort]

section Retrieval

variable (lib : KnowledgeLibrary) (q : Query) (atMs : ℕ)

theorem consider_fact (f : Fact) (c : Considered) (h : consider lib q atMs f = some (some c)) :
    c.fact = f := by
  unfold consider at h
  obtain ⟨references, -, h⟩ := Option.bind_eq_some_iff.mp h
  dsimp only at h
  split at h
  · cases h
  · simp only [Option.some.injEq] at h
    rw [← h]

theorem eligible_retrieved (f : Fact) (h : eligible q atMs f = true) : f.activation ≠ .pinned := by
  intro hpinned
  simp [eligible, hpinned] at h

theorem considered_retrieved (facts : List Fact) (considered : List Considered)
    (h : considerAll lib q atMs facts = some considered) :
    ∀ c ∈ considered, c.fact.activation ≠ .pinned := by
  induction facts generalizing considered with
  | nil =>
    simp only [considerAll, Option.some.injEq] at h
    simp [← h]
  | cons f facts ih =>
    rw [considerAll] at h
    split at h
    · rename_i heligible
      obtain ⟨first, hfirst, h⟩ := Option.bind_eq_some_iff.mp h
      obtain ⟨rest, hrest, h⟩ := Option.bind_eq_some_iff.mp h
      simp only [Option.some.injEq] at h
      intro c hc
      rw [← h] at hc
      rcases List.mem_append.mp hc with hc | hc
      · rw [Option.mem_toList.mp hc] at hfirst
        rw [consider_fact lib q atMs f c hfirst]
        exact eligible_retrieved q atMs f heligible
      · exact ih rest hrest c hc
    · exact ih considered h

theorem selected_facts (limit maxBytes : ℕ) (considered : List Considered) (s : Selected) :
    ∀ f ∈ (considered.foldl (select limit maxBytes) s).facts,
      f ∈ s.facts ∨ ∃ c ∈ considered, c.fact = f := by
  induction considered generalizing s with
  | nil => exact fun f hf => Or.inl hf
  | cons c considered ih =>
    intro f hf
    rcases ih _ f hf with hf | ⟨c', hc', hf⟩
    · unfold select at hf
      dsimp only at hf
      split at hf
      · exact Or.inl hf
      · rcases List.mem_append.mp hf with hf | hf
        · exact Or.inl hf
        · exact Or.inr ⟨c, List.mem_cons_self, (List.mem_singleton.mp hf).symm⟩
    · exact Or.inr ⟨c', List.mem_cons_of_mem c hc', hf⟩

theorem retrieved_facts (k k' : KnowledgeCoordinator) (query : Value) (facts : List Fact)
    (trace : RetrievalTrace) (h : k.retrieve lib query = some (k', facts, trace)) :
    ∀ f ∈ facts, f.activation ≠ .pinned := by
  unfold retrieve at h
  obtain ⟨considered, hconsidered, h⟩ := Option.bind_eq_some_iff.mp h
  simp only [Option.some.injEq, Prod.mk.injEq] at h
  obtain ⟨-, rfl, -⟩ := h
  intro f hf
  rcases selected_facts _ _ _ _ f hf with hf | ⟨c, hc, rfl⟩
  · cases hf
  · exact considered_retrieved lib _ _ _ considered hconsidered c (List.mem_mergeSort.mp hc)

end Retrieval

def PinsAgree (k : KnowledgeCoordinator) : Prop :=
  ∀ s, s ∈ k.pinned ↔ ∃ fact, k.fact s = some fact ∧ fact.activation = .pinned

theorem coherent_iff (lib : KnowledgeLibrary) (k : KnowledgeCoordinator) :
    PinsCoherent lib k ↔
      k.PinsAgree ∧ k.pinned.card ≤ k.limits.maxPinnedFacts ∧
        ∑ s ∈ k.pinned, k.subjectBytes s ≤ k.limits.maxPinnedBytes := by
  constructor
  · intro h
    exact ⟨h.pinned, h.count, pinned_bytes k ▸ h.bytes⟩
  · intro h
    refine ⟨h.1, h.2.1, (pinned_bytes k).symm ▸ h.2.2, ?_⟩
    intro query k' facts trace hretrieve f hf hpinned
    obtain ⟨s, hs, hfact⟩ := (mem_pinned_facts k f).mp hpinned
    obtain ⟨f', hf', hactivation⟩ := (h.1 s).mp hs
    rw [hfact, Option.some.injEq] at hf'
    subst hf'
    exact retrieved_facts lib k k' query facts trace hretrieve f hf hactivation

section Frame

variable {k k' : KnowledgeCoordinator} {s : Text}

theorem agree_at (h : k.PinsAgree) (hpinned : ∀ t, t ≠ s → (t ∈ k'.pinned ↔ t ∈ k.pinned))
    (hfact : ∀ t, t ≠ s → k'.fact t = k.fact t) :
    k'.PinsAgree ↔ (s ∈ k'.pinned ↔ ∃ fact, k'.fact s = some fact ∧ fact.activation = .pinned) := by
  constructor
  · intro h'
    exact h' s
  · intro hs t
    by_cases hts : t = s
    · rw [hts]
      exact hs
    · rw [hpinned t hts, hfact t hts]
      exact h t

theorem sum_frame (pinned : Finset Text) (hs : s ∉ pinned)
    (hfact : ∀ t, t ≠ s → k'.fact t = k.fact t) :
    ∑ t ∈ pinned, k'.subjectBytes t = ∑ t ∈ pinned, k.subjectBytes t := by
  apply Finset.sum_congr rfl
  intro t ht
  have hts : t ≠ s := fun heq => hs (heq ▸ ht)
  rw [subjectBytes, subjectBytes, hfact t hts]

theorem sum_erase_le : ∑ t ∈ k.pinned.erase s, k.subjectBytes t ≤ ∑ t ∈ k.pinned, k.subjectBytes t :=
  Finset.sum_le_sum_of_subset (Finset.erase_subset s k.pinned)

theorem sum_pinned {f : Fact} (hpinned : k'.pinned = insert s k.pinned)
    (hfact : ∀ t, t ≠ s → k'.fact t = k.fact t) (hs : k'.fact s = some f)
    (hkey : f.subjectKey = some s) :
    ∑ t ∈ k'.pinned, k'.subjectBytes t =
      (∑ t ∈ k.pinned.erase s, k.subjectBytes t) + projectionBytes s f.content := by
  have hbytes : k'.subjectBytes s = projectionBytes s f.content := by
    rw [subjectBytes, hs, Option.map_some, Option.getD_some, factProjectionBytes, hkey,
      Option.getD_some]
  rw [hpinned, ← Finset.add_sum_erase _ _ (Finset.mem_insert_self s k.pinned),
    Finset.erase_insert_eq_erase, sum_frame _ (Finset.notMem_erase s _) hfact, hbytes, Nat.add_comm]

end Frame

section Steps

variable (lib : KnowledgeLibrary)

theorem stored_subject {k : KnowledgeCoordinator} {candidate : Value} {s : Text}
    (h : k.storedSubject lib candidate = some s) :
    (k.propose lib candidate).1 = (k.storeRevision lib candidate s).1 ∧
      (wantsPin candidate = true → k.pinned.card < k.limits.maxPinnedFacts) := by
  unfold storedSubject at h
  split at h
  · cases h
  · rename_i hvalid
    obtain ⟨hsubject, hnone⟩ := Option.filter_eq_some_iff.mp h
    rw [Option.isNone_iff_eq_none] at hnone
    constructor
    · unfold propose
      rw [hvalid]
      dsimp only
      rw [hsubject]
      dsimp only
      rw [proposeSubject, hnone]
    · intro hwants
      by_contra hfull
      unfold subjectRefusal at hnone
      split_ifs at hnone with h1 h2 h3 h4
      apply h4
      rw [hwants, hasPinRoom, decide_eq_false hfull]
      rfl

theorem stored_none {k : KnowledgeCoordinator} {candidate : Value}
    (h : k.storedSubject lib candidate = none) :
    (k.propose lib candidate).1.limits = k.limits ∧ (k.propose lib candidate).1.pinned = k.pinned ∧
      ∀ s, (k.propose lib candidate).1.fact s = k.fact s := by
  unfold storedSubject at h
  unfold propose
  cases hvalid : validateCandidate lib k.ports k.limits candidate with
  | error reason => exact ⟨rfl, rfl, fun _ => rfl⟩
  | ok valid =>
    rw [hvalid] at h
    dsimp only at h ⊢
    split
    · rename_i s hsubject
      rw [hsubject] at h
      rw [proposeSubject]
      cases hrefusal : k.subjectRefusal candidate s with
      | some result => exact ⟨rfl, rfl, fun _ => rfl⟩
      | none => simp [Option.filter, hrefusal] at h
    · unfold proposeOneOff
      split
      · exact ⟨rfl, rfl, fun _ => rfl⟩
      · exact ⟨rfl, rfl, fun _ => rfl⟩

variable {k : KnowledgeCoordinator}

theorem coherent_same {k' : KnowledgeCoordinator} (hlimits : k'.limits = k.limits)
    (hpinned : k'.pinned = k.pinned) (hfact : ∀ s, k'.fact s = k.fact s)
    (hc : PinsCoherent lib k) : PinsCoherent lib k' := by
  rw [coherent_iff] at hc ⊢
  refine ⟨?_, by rw [hlimits, hpinned]; exact hc.2.1, ?_⟩
  · intro s
    rw [hpinned, hfact]
    exact hc.1 s
  · rw [hlimits, hpinned]
    simp only [subjectBytes, hfact]
    exact hc.2.2

theorem coherent_pinned {k' : KnowledgeCoordinator} {s : Text} {f : Fact}
    (hlimits : k'.limits = k.limits) (hpinned : k'.pinned = insert s k.pinned)
    (hne : ∀ t, t ≠ s → k'.fact t = k.fact t) (hs : k'.fact s = some f)
    (hkey : f.subjectKey = some s) (hactivation : f.activation = .pinned)
    (hroom : k.pinned.card < k.limits.maxPinnedFacts) (hc : PinsCoherent lib k) :
    PinsCoherent lib k' ↔ k.PaysForPin s f.content := by
  rw [coherent_iff] at hc ⊢
  have hagree : k'.PinsAgree := by
    apply (agree_at hc.1 _ hne).mpr
    · exact ⟨fun _ => ⟨f, hs, hactivation⟩, fun _ => hpinned ▸ Finset.mem_insert_self s k.pinned⟩
    · intro t hts
      rw [hpinned, Finset.mem_insert, or_iff_right hts]
  have hcount : k'.pinned.card ≤ k'.limits.maxPinnedFacts := by
    have hcard := Finset.card_insert_le s k.pinned
    rw [hpinned, hlimits]
    omega
  rw [sum_pinned hpinned hne hs hkey, hlimits]
  exact ⟨fun h => h.2.2, fun h => ⟨hagree, hlimits ▸ hcount, h⟩⟩

theorem stored_coherent (candidate : Value) (s : Text) (hc : PinsCoherent lib k)
    (hroom : wantsPin candidate = true → k.pinned.card < k.limits.maxPinnedFacts) :
    PinsCoherent lib (k.storeRevision lib candidate s).1 ↔
      (s ∈ k.pinned → wantsPin candidate = true) ∧
        (wantsPin candidate = true → k.PaysForPin s (textAt candidate "content")) := by
  have hne := stored_fact_ne lib k candidate s
  have hs := stored_fact lib k candidate s
  by_cases hwants : wantsPin candidate = true
  · have hpinned : (k.storeRevision lib candidate s).1.pinned = insert s k.pinned := by
      show (if wantsPin candidate then insert s k.pinned else k.pinned) = _
      rw [if_pos hwants]
    have hactivation : (k.proposedFact lib candidate s).activation = .pinned := by
      rw [proposedFact, if_pos hwants]
      rfl
    have hlimits : (k.storeRevision lib candidate s).1.limits = k.limits := rfl
    rw [coherent_pinned lib hlimits hpinned hne hs rfl hactivation (hroom hwants) hc]
    exact ⟨fun h => ⟨fun _ => hwants, fun _ => h⟩, fun h => h.2 hwants⟩
  · have hpinned : (k.storeRevision lib candidate s).1.pinned = k.pinned := by
      show (if wantsPin candidate then insert s k.pinned else k.pinned) = _
      rw [if_neg hwants]
    have hactivation : (k.proposedFact lib candidate s).activation = .retrieved := by
      rw [proposedFact, if_neg hwants]
      rfl
    have hretrieved : ¬ ∃ fact, (k.storeRevision lib candidate s).1.fact s = some fact ∧
        fact.activation = .pinned := by
      rintro ⟨fact, hfact, hpin⟩
      rw [hs, Option.some.injEq] at hfact
      rw [← hfact, hactivation] at hpin
      cases hpin
    rw [coherent_iff] at hc ⊢
    rw [agree_at hc.1 (fun t _ => by rw [hpinned]) hne, hpinned]
    constructor
    · intro h
      exact ⟨fun hmem => absurd (h.1.mp hmem) hretrieved, fun h => absurd h hwants⟩
    · intro h
      have hmem : s ∉ k.pinned := fun hmem => hwants (h.1 hmem)
      refine ⟨⟨fun hin => absurd hin hmem, fun hex => absurd hex hretrieved⟩, hc.2.1, ?_⟩
      rw [sum_frame k.pinned hmem hne]
      exact hc.2.2

theorem unpinned_coherent (s : Text) (hk : k.Sound) (hc : PinsCoherent lib k) :
    PinsCoherent lib (k.unpin s) := by
  by_cases hs : s ∈ k.pinned
  · let mid : KnowledgeCoordinator := { k with pinned := k.pinned.erase s }
    have hmid : mid.Sound :=
      ⟨hk.pointed, hk.keyed, fun t ht => hk.active t (Finset.mem_of_mem_erase ht)⟩
    have hunpin : k.unpin s = mid.replaceActivation s .retrieved := by
      rw [unpin, if_pos hs]
    have hpinned : (k.unpin s).pinned = k.pinned.erase s := by
      rw [hunpin, replaced_pinned]
    have hlimits : (k.unpin s).limits = k.limits := by
      rw [hunpin, replaced_limits]
    have hne : ∀ t, t ≠ s → (k.unpin s).fact t = k.fact t := by
      intro t hts
      rw [hunpin, replaced_fact_ne mid s .retrieved t hts]
      rfl
    rw [coherent_iff] at hc ⊢
    refine ⟨(agree_at hc.1 ?_ hne).mpr ⟨?_, ?_⟩, ?_, ?_⟩
    · intro t hts
      rw [hpinned, Finset.mem_erase, and_iff_right hts]
    · intro hmem
      rw [hpinned] at hmem
      exact absurd hmem (Finset.notMem_erase s _)
    · rintro ⟨fact, hfact, hactivation⟩
      rw [hunpin, replaced_fact mid s .retrieved hmid] at hfact
      obtain ⟨f, -, rfl⟩ := Option.map_eq_some_iff.mp hfact
      cases hactivation
    · rw [hpinned, hlimits]
      exact Finset.card_erase_le.trans hc.2.1
    · rw [hpinned, hlimits, sum_frame _ (Finset.notMem_erase s _) hne]
      exact sum_erase_le.trans hc.2.2
  · rwa [unpin, if_neg hs]

theorem retired_coherent (s : Text) (hc : PinsCoherent lib k) : PinsCoherent lib (k.retire s) := by
  by_cases hs : s ∈ k.bySubject
  · have hpinned : (k.retire s).pinned = k.pinned.erase s := by
      rw [retire, if_pos hs]
    have hlimits : (k.retire s).limits = k.limits := by
      rw [retire, if_pos hs]
    have hne := retired_fact_ne k s
    rw [coherent_iff] at hc ⊢
    refine ⟨(agree_at hc.1 ?_ hne).mpr ⟨?_, ?_⟩, ?_, ?_⟩
    · intro t hts
      rw [hpinned, Finset.mem_erase, and_iff_right hts]
    · intro hmem
      rw [hpinned] at hmem
      exact absurd hmem (Finset.notMem_erase s _)
    · rintro ⟨fact, hfact, -⟩
      rw [retired_fact k s hs] at hfact
      cases hfact
    · rw [hpinned, hlimits]
      exact Finset.card_erase_le.trans hc.2.1
    · rw [hpinned, hlimits, sum_frame _ (Finset.notMem_erase s _) hne]
      exact sum_erase_le.trans hc.2.2
  · rwa [retire, if_neg hs]

theorem pin_kept (s : Text) (h : k.pinnable s = none) : (k.pin s).1 = k := by
  unfold pin
  split
  · rfl
  · rename_i f hf
    split_ifs with h1 h2 h3
    · rfl
    · rfl
    · rfl
    · rw [pinnable, hf, Option.filter_some, if_pos] at h
      · cases h
      · simp only [hasPinRoom, Bool.and_eq_true, decide_eq_true_eq]
        exact ⟨⟨h1, by omega⟩, by omega⟩

theorem pin_pinnable {s : Text} {f : Fact} (h : k.pinnable s = some f) :
    k.fact s = some f ∧ s ∉ k.pinned ∧ k.pinned.card < k.limits.maxPinnedFacts ∧
      (k.pin s).1 = ({ k with pinned := insert s k.pinned } :
        KnowledgeCoordinator).replaceActivation s .pinned := by
  obtain ⟨hf, hguards⟩ := Option.filter_eq_some_iff.mp h
  simp only [hasPinRoom, Bool.and_eq_true, decide_eq_true_eq] at hguards
  obtain ⟨⟨hs, hroom⟩, hbytes⟩ := hguards
  refine ⟨hf, hs, hroom, ?_⟩
  unfold pin
  rw [hf]
  dsimp only
  rw [if_neg hs, if_neg (by omega), if_neg (by omega)]

theorem pin_coherent (s : Text) (hk : k.Sound) (hc : PinsCoherent lib k) :
    PinsCoherent lib (k.pin s).1 ↔ ∀ fact ∈ k.pinnable s, k.PaysForPin s fact.content := by
  cases h : k.pinnable s with
  | none =>
    rw [pin_kept s h]
    exact iff_of_true hc (by simp)
  | some f =>
    obtain ⟨hf, hs, hroom, hpin⟩ := pin_pinnable h
    obtain ⟨entry, hentry, hcurrent, hlast⟩ := fact_some hk hf
    let mid : KnowledgeCoordinator := { k with pinned := insert s k.pinned }
    have hmid : mid.Sound := by
      refine ⟨hk.pointed, hk.keyed, ?_⟩
      intro t ht
      rcases Finset.mem_insert.mp ht with rfl | ht
      · exact AList.lookup_isSome.mp (by rw [hcurrent]; rfl)
      · exact hk.active t ht
    have hpinned : (k.pin s).1.pinned = insert s k.pinned := by
      rw [hpin, replaced_pinned]
    have hlimits : (k.pin s).1.limits = k.limits := by
      rw [hpin, replaced_limits]
    have hne : ∀ t, t ≠ s → (k.pin s).1.fact t = k.fact t := by
      intro t hts
      rw [hpin, replaced_fact_ne mid s .pinned t hts]
      rfl
    have hfact : (k.pin s).1.fact s = some { f with activation := .pinned } := by
      rw [hpin, replaced_fact mid s .pinned hmid]
      show (k.fact s).map _ = _
      rw [hf]
      rfl
    have hkey := fact_key hk hf
    rw [coherent_pinned lib hlimits hpinned hne hfact hkey rfl hroom hc]
    simp

theorem step_coherent (call : Call) (hk : k.Sound) (hc : PinsCoherent lib k) :
    PinsCoherent lib (step lib k call) ↔ KeepsPins lib k call := by
  cases call with
  | propose candidate =>
    show PinsCoherent lib (k.propose lib candidate).1 ↔ _
    cases h : k.storedSubject lib candidate with
    | none =>
      obtain ⟨hlimits, hpinned, hfact⟩ := stored_none lib h
      exact iff_of_true (coherent_same lib hlimits hpinned hfact hc) (by simp [KeepsPins, h])
    | some s =>
      obtain ⟨hstate, hroom⟩ := stored_subject lib h
      rw [hstate, stored_coherent lib candidate s hc hroom]
      simp [KeepsPins, h]
  | pin s => exact pin_coherent lib s hk hc
  | unpin s => exact iff_of_true (unpinned_coherent lib s hk hc) trivial
  | retire s => exact iff_of_true (retired_coherent lib s hc) trivial
  | retrieve query =>
    obtain ⟨trace, h⟩ := retrieved_cases lib k query
    rw [h]
    exact iff_of_true (coherent_same (k := k) lib rfl rfl (fun _ => rfl) hc) trivial

theorem run_coherent (calls : List Call) (hk : k.Sound) (hc : PinsCoherent lib k) :
    RunCoherent lib k calls ↔ RunKeepsPins lib k calls := by
  induction calls generalizing k with
  | nil => exact iff_of_true hc trivial
  | cons call calls ih =>
    have hstep := step_coherent lib call hk hc
    constructor
    · intro h
      have hnext : PinsCoherent lib (step lib k call) := by
        cases calls with
        | nil => exact h.2
        | cons _ _ => exact h.2.1
      exact ⟨hstep.mp hnext, (ih (step_sound lib k call hk) hnext).mp h.2⟩
    · intro h
      have hnext := hstep.mpr h.1
      exact ⟨hc, (ih (step_sound lib k call hk) hnext).mpr h.2⟩

theorem new_coherent (ports : KnowledgePorts) (overrides : KnowledgeLimits) :
    PinsCoherent lib (new ports overrides) := by
  rw [coherent_iff]
  refine ⟨?_, Nat.zero_le _, Nat.zero_le _⟩
  intro s
  simp [new, fact]

end Steps

/-- In a run of a new coordinator, every state keeps the pinned knowledge coherent and bounded
exactly when every step meets the condition. -/
theorem pins_coherent_iff (lib : KnowledgeLibrary) (ports : KnowledgePorts)
    (overrides : KnowledgeLimits) (calls : List Call) :
    RunCoherent lib (new ports overrides) calls ↔
      RunKeepsPins lib (new ports overrides) calls :=
  run_coherent lib calls (new_sound ports overrides) (new_coherent lib ports overrides)

/-- The digests of the identities of two small facts. -/
def pinnedSha (text : Text) : Text :=
  if text = "\x7b\"content\":\"x\",\"revision\":1,\"scope\":\"project\",\"subjectKey\":\"a\"\x7d".toList then
    "a504046b200fdfdbde3a154018d0e0bf27e3c7028fc48cdfa816855f1f0d7f66"
  else if text = "\x7b\"content\":\"y\",\"revision\":2,\"scope\":\"project\",\"subjectKey\":\"a\"\x7d".toList then
    "3aaa9af9fc6f88dc976f969a5ebce7a58415c3cdc9bbc9d1bb9d6158c124f64c"
  else if text = "siralos:KnowledgeFact:v1\x00\x7b\"content\":\"x\"\x7d".toList then
    "6a0429671cb00ea0e1db21fd045210596771c494a5d419d5b41cc6fb3698c180"
  else "1172dc53292ea353bc0032f031f67a12cccc0eb5cdeac30b07a1e4d5c7dc631e"

def pinnedLibrary : KnowledgeLibrary := ⟨pinnedSha, id⟩

def pinnedPorts : KnowledgePorts := ⟨0, [], [], none⟩

/-- A pinned fact, and a revision of it that does not ask for the pin. -/
def pinnedCalls : List Call :=
  [.propose (.object [("subjectKey", .string ['a']), ("content", .string ['x']),
      ("pinned", .bool true)]),
    .propose (.object [("subjectKey", .string ['a']), ("content", .string ['y'])])]

theorem pins_coherent_fails : ¬ RunCoherent pinnedLibrary (new pinnedPorts {}) pinnedCalls := by
  have hpinned : ['a'] ∈ (run pinnedLibrary (new pinnedPorts {}) pinnedCalls).pinned := by
    decide
  have hfact : ((run pinnedLibrary (new pinnedPorts {}) pinnedCalls).fact ['a']).map
      Fact.activation = some .retrieved := by
    decide
  intro h
  have hlast : PinsCoherent pinnedLibrary (run pinnedLibrary (new pinnedPorts {}) pinnedCalls) :=
    h.2.2
  obtain ⟨fact, hsome, hactivation⟩ := (hlast.pinned ['a']).mp hpinned
  rw [hsome, Option.map_some, hactivation] at hfact
  cases hfact

end Siralos.Knowledge.KnowledgeCoordinator
