import Siralos.Assembly
import Mathlib.Data.Prod.Lex

/-!
# The order of demotions

Both loops of the assembly give up the nodes of one sorted list, one at a time from its front.
What is left after either loop is what a prefix of that list leaves.
-/

set_option autoImplicit false

namespace Siralos.WorkingSet

def warmed (ids : List Text) : EntryUpdate :=
  .retier fun e => if e.nodeId ∈ ids then .warm else e.tier

def Assembly.without (s : Assembly) (ids : List Text) : Assembly where
  entries := s.entries.updateEach (warmed ids)
  assembled := s.assembled.filter fun a => a.nodeId ∉ ids
  demoted := s.demoted ++ ids

theorem entry_update_each (entries : Entries) (update : EntryUpdate) (id : Text) :
    (entries.updateEach update).entry id = (entries.entry id).map update.apply := by
  change (entries.val.map update.apply).find? (fun e => e.nodeId = id) = _
  rw [List.find?_map]
  congr 2
  ext e
  rw [Function.comp_apply, update.sameNode]

theorem warmed_out (ids : List Text) (e : SchedulerEntry) (h : e.nodeId ∉ ids) :
    (warmed ids).apply e = e := by
  simp [warmed, EntryUpdate.retier, h]

theorem warmed_in (ids : List Text) (e : SchedulerEntry) (h : e.nodeId ∈ ids) :
    isHot ((warmed ids).apply e) = false := by
  simp [warmed, EntryUpdate.retier, h, isHot]

theorem without_nil (s : Assembly) : s.without [] = s := by
  have hentries : s.entries.updateEach (warmed []) = s.entries := by
    apply Subtype.ext
    exact (List.map_congr_left fun e _ => warmed_out [] e (by simp)).trans (List.map_id _)
  cases s
  simp_all [Assembly.without]

theorem without_append (s : Assembly) (ids more : List Text) :
    (s.without ids).without more = s.without (ids ++ more) := by
  have hentries : (s.entries.updateEach (warmed ids)).updateEach (warmed more) =
      s.entries.updateEach (warmed (ids ++ more)) := by
    apply Subtype.ext
    change (s.entries.val.map _).map _ = s.entries.val.map _
    rw [List.map_map]
    apply List.map_congr_left
    intro e _
    by_cases hids : e.nodeId ∈ ids <;> by_cases hmore : e.nodeId ∈ more <;>
      simp [warmed, EntryUpdate.retier, hids, hmore]
  simp only [Assembly.without, hentries, List.filter_filter, List.append_assoc, List.mem_append,
    not_or, Bool.decide_and, Bool.and_comm]

theorem demote_without (s : Assembly) (victim : AssembledEntry) :
    s.demote victim = s.without [victim.nodeId] := by
  have hentries : s.entries.updateAt victim.nodeId (.setTier .warm) =
      s.entries.updateEach (warmed [victim.nodeId]) := by
    apply Subtype.ext
    change Keyed.updateFirst _ _ _ _ = s.entries.val.map _
    rw [Keyed.update_first_map _ _ _ _ s.entries.nodup]
    apply List.map_congr_left
    intro e _
    by_cases hid : e.nodeId = victim.nodeId <;>
      simp [warmed, EntryUpdate.setTier, EntryUpdate.retier, hid]
  have hassembled : (s.assembled.filter fun a => a.nodeId != victim.nodeId) =
      s.assembled.filter fun a => a.nodeId ∉ [victim.nodeId] := by
    apply List.filter_congr
    intro a _
    simp only [List.mem_singleton, decide_not, bne, beq_eq_decide]
  rw [Assembly.demote, Assembly.without, hentries, hassembled]

theorem state_score_warmed (tick : ℕ) (entries : Entries) (ids : List Text) (id : Text) :
    stateScore tick (entries.updateEach (warmed ids)) id = stateScore tick entries id := by
  rw [stateScore, entry_update_each, Option.map_map]
  rfl

def demotionKey (retained : Text → ℤ) (tick : ℕ) (entries : Entries) (id : Text) :
    ℤ ×ₗ ℕ ×ₗ Text :=
  toLex (retained id, toLex (stateScore tick entries id, id))

theorem demotion_key_inj (retained : Text → ℤ) (tick : ℕ) (entries : Entries) (a b : Text)
    (h : demotionKey retained tick entries a = demotionKey retained tick entries b) : a = b := by
  have hpair := toLex.injective h
  have hrest := toLex.injective (Prod.ext_iff.mp hpair).2
  exact (Prod.ext_iff.mp hrest).2

/-- The nodes that a loop may demote, the first to go first. -/
def demotionOrder (retained : Text → ℤ) (tick : ℕ) (eligible : SchedulerEntry → Bool)
    (entries : Entries) : List Text :=
  ((entries.val.filter eligible).map SchedulerEntry.nodeId).insertionSort fun a b =>
    demotionKey retained tick entries a ≤ demotionKey retained tick entries b

/-- Zero for a node without a search score, and for all nodes when there are no scores. -/
def budgetRetained (scores : Option (List SearchScore)) (id : Text) : ℤ :=
  match scores.filter fun scores => !scores.isEmpty with
  | some scores => retainedScore scores id
  | none => 0

section Order

variable (retained : Text → ℤ) (tick : ℕ) (eligible : SchedulerEntry → Bool) (entries : Entries)

theorem demotion_order_perm : (demotionOrder retained tick eligible entries).Perm
    ((entries.val.filter eligible).map SchedulerEntry.nodeId) :=
  List.perm_insertionSort _ _

theorem demotion_order_nodup : (demotionOrder retained tick eligible entries).Nodup :=
  (demotion_order_perm retained tick eligible entries).nodup_iff.mpr
    (entries.nodup.sublist (List.filter_sublist.map _))

theorem demotion_order_sorted : (demotionOrder retained tick eligible entries).Pairwise
    fun a b => demotionKey retained tick entries a ≤ demotionKey retained tick entries b := by
  have htotal : Std.Total fun a b =>
      demotionKey retained tick entries a ≤ demotionKey retained tick entries b :=
    ⟨fun _ _ => le_total _ _⟩
  have htrans : IsTrans Text fun a b =>
      demotionKey retained tick entries a ≤ demotionKey retained tick entries b :=
    ⟨fun _ _ _ => le_trans⟩
  exact List.pairwise_insertionSort _ _

theorem mem_demotion_order (id : Text) :
    id ∈ demotionOrder retained tick eligible entries ↔
      (entries.entry id).any eligible = true := by
  rw [(demotion_order_perm retained tick eligible entries).mem_iff, Option.any_eq_true]
  constructor
  · intro hid
    obtain ⟨e, he, rfl⟩ := List.mem_map.mp hid
    obtain ⟨hmem, heligible⟩ := List.mem_filter.mp he
    exact ⟨e, entries.entry_of_mem e hmem, heligible⟩
  · intro hentry
    obtain ⟨e, hfound, heligible⟩ := hentry
    have hid : e.nodeId = id := Keyed.find_key SchedulerEntry.nodeId id entries.val e hfound
    refine List.mem_map.mpr ⟨e, List.mem_filter.mpr ⟨?_, heligible⟩, hid⟩
    exact List.mem_of_find?_eq_some hfound

theorem demotion_order_length :
    (demotionOrder retained tick eligible entries).length = entries.val.countP eligible := by
  rw [(demotion_order_perm retained tick eligible entries).length_eq, List.length_map,
    List.countP_eq_length_filter]

end Order

/-- Whether a demotion loop compares by the keys, whatever was demoted before. -/
def ComparesBy (before : Entries → AssembledEntry → AssembledEntry → Bool)
    (retained : Text → ℤ) (tick : ℕ) : Prop :=
  ∀ entries a b, before entries a b = true ↔
    demotionKey retained tick entries a.nodeId < demotionKey retained tick entries b.nodeId

theorem scheduled_compares (tick : ℕ) : ComparesBy (scheduledBefore tick) (fun _ => 0) tick := by
  intro entries a b
  simp [scheduledBefore, demotionKey, Prod.Lex.toLex_lt_toLex]

theorem retained_compares (scores : List SearchScore) (tick : ℕ) :
    ComparesBy (retainedBefore scores tick) (retainedScore scores) tick := by
  intro entries a b
  simp [retainedBefore, scheduledBefore, demotionKey, Prod.Lex.toLex_lt_toLex]

theorem budget_compares (scores : Option (List SearchScore)) (tick : ℕ) :
    ComparesBy (budgetBefore scores tick) (budgetRetained scores) tick := by
  unfold budgetBefore budgetRetained
  cases scores.filter fun scores => !scores.isEmpty with
  | none => exact scheduled_compares tick
  | some scores => exact retained_compares scores tick

theorem demotion_key_warmed (retained : Text → ℤ) (tick : ℕ) (entries : Entries)
    (ids : List Text) (id : Text) :
    demotionKey retained tick (entries.updateEach (warmed ids)) id =
      demotionKey retained tick entries id := by
  rw [demotionKey, state_score_warmed, demotionKey]

def Represented (s : Assembly) : Prop :=
  ∀ e ∈ s.entries.val, isHot e = true → ∃ a ∈ s.assembled, a.nodeId = e.nodeId

section Drained

variable {s : Assembly} {before : Entries → AssembledEntry → AssembledEntry → Bool}
  {retained : Text → ℤ} {tick : ℕ} {eligible : SchedulerEntry → Bool}

theorem eligible_without (hhot : ∀ e, eligible e = true → isHot e = true) (ids : List Text)
    (id : Text) : ((s.without ids).entries.entry id).any eligible = true ↔
      (s.entries.entry id).any eligible = true ∧ id ∉ ids := by
  change ((s.entries.updateEach (warmed ids)).entry id).any eligible = true ↔ _
  rw [entry_update_each]
  cases hfound : s.entries.entry id with
  | none => simp
  | some e =>
    have hid : e.nodeId = id := Keyed.find_key SchedulerEntry.nodeId id s.entries.val e hfound
    subst hid
    rw [Option.map_some, Option.any_some, Option.any_some]
    by_cases hin : e.nodeId ∈ ids
    · have hcold := warmed_in ids e hin
      constructor
      · intro heligible
        rw [hhot _ heligible] at hcold
        cases hcold
      · intro h
        exact absurd hin h.2
    · rw [warmed_out ids e hin]
      simp [hin]

theorem represented_order (hhot : ∀ e, eligible e = true → isHot e = true)
    (hrepresented : Represented s) (id : Text)
    (hid : id ∈ demotionOrder retained tick eligible s.entries) :
    ∃ a ∈ s.assembled, a.nodeId = id := by
  obtain ⟨e, hfound, heligible⟩ := (Option.any_eq_true _ _).mp
    ((mem_demotion_order retained tick eligible s.entries id).mp hid)
  have hkey : e.nodeId = id := Keyed.find_key SchedulerEntry.nodeId id s.entries.val e hfound
  obtain ⟨a, ha, hsame⟩ := hrepresented e (List.mem_of_find?_eq_some hfound) (hhot e heligible)
  exact ⟨a, ha, hsame.trans hkey⟩

theorem victim_next (hhot : ∀ e, eligible e = true → isHot e = true)
    (hcompares : ComparesBy before retained tick) (hrepresented : Represented s)
    (front rest : List Text) (id : Text)
    (horder : demotionOrder retained tick eligible s.entries = front ++ id :: rest) :
    ∃ v, assembledVictim (before (s.without front).entries) eligible (s.without front) = some v ∧
      v.nodeId = id := by
  have hsorted := demotion_order_sorted retained tick eligible s.entries
  have hnodup := demotion_order_nodup retained tick eligible s.entries
  have hmem := mem_demotion_order retained tick eligible s.entries
  rw [horder] at hsorted hnodup hmem
  have hin : id ∈ demotionOrder retained tick eligible s.entries := by simp [horder]
  obtain ⟨a, ha, haid⟩ := represented_order hhot hrepresented id hin
  have hfront : id ∉ front := by
    intro hin
    exact (List.nodup_append.mp hnodup).2.2 id hin id (by simp) rfl
  have hleft : a ∈ (s.without front).assembled := by
    simp [Assembly.without, ha, haid, hfront]
  have heligible : ((s.without front).entries.entry a.nodeId).any eligible = true := by
    rw [haid, eligible_without hhot]
    exact ⟨(hmem id).mp (by simp), hfront⟩
  cases hvictim : assembledVictim (before (s.without front).entries) eligible
      (s.without front) with
  | none =>
    have hnone := Shedding.lowest_none _ _ _ hvictim a hleft
    rw [heligible] at hnone
    cases hnone
  | some v =>
    refine ⟨v, rfl, ?_⟩
    obtain ⟨-, hleast⟩ := Shedding.lowest_least
      (fun a => demotionKey retained tick (s.without front).entries a.nodeId) _ _
      (hcompares _) _ _ _ hvictim
    have hbelow := hleast a hleft heligible
    rcases Shedding.lowest_mem _ _ _ _ _ hvictim with hnone | ⟨-, hveligible⟩
    · cases hnone
    · rw [eligible_without hhot] at hveligible
      have hvmem := (hmem v.nodeId).mpr hveligible.1
      rcases List.mem_append.mp hvmem with hin | hin
      · exact absurd hin hveligible.2
      · rcases List.mem_cons.mp hin with hv | hv
        · exact hv
        · have habove := (List.pairwise_cons.mp (List.pairwise_append.mp hsorted).2.1).1 _ hv
          change demotionKey retained tick (s.entries.updateEach (warmed front)) v.nodeId ≤
            demotionKey retained tick (s.entries.updateEach (warmed front)) a.nodeId at hbelow
          rw [demotion_key_warmed, demotion_key_warmed, haid] at hbelow
          exact demotion_key_inj retained tick s.entries _ _ (le_antisymm hbelow habove)

theorem victim_none (hhot : ∀ e, eligible e = true → isHot e = true) :
    assembledVictim (before (s.without (demotionOrder retained tick eligible s.entries)).entries)
      eligible (s.without (demotionOrder retained tick eligible s.entries)) = none := by
  cases hvictim : assembledVictim (before (s.without (demotionOrder retained tick eligible
      s.entries)).entries) eligible (s.without (demotionOrder retained tick eligible
        s.entries)) with
  | none => rfl
  | some v =>
    rcases Shedding.lowest_mem _ _ _ _ _ hvictim with hnone | ⟨-, heligible⟩
    · cases hnone
    · rw [eligible_without hhot] at heligible
      exact absurd ((mem_demotion_order retained tick eligible s.entries v.nodeId).mpr
        heligible.1) heligible.2

theorem drained (loop : Shedding.Loop Assembly) (hnext : loop.next = assemblyNext before eligible)
    (hhot : ∀ e, eligible e = true → isHot e = true)
    (hcompares : ComparesBy before retained tick) (hrepresented : Represented s)
    (hroom : s.demoted.length + s.entries.val.countP eligible ≤ s.entries.val.length) :
    ∃ k, k ≤ (demotionOrder retained tick eligible s.entries).length ∧
      loop.run s = s.without ((demotionOrder retained tick eligible s.entries).take k) ∧
      (loop.done (loop.run s) = true ∨
        k = (demotionOrder retained tick eligible s.entries).length) ∧
      ∀ m, m < k → loop.done
        (s.without ((demotionOrder retained tick eligible s.entries).take m)) = false := by
  have hlength := demotion_order_length retained tick eligible s.entries
  have hguard : ∀ n, n ≤ (demotionOrder retained tick eligible s.entries).length →
      ¬ (s.without ((demotionOrder retained tick eligible s.entries).take n)).entries.val.length <
        (s.without ((demotionOrder retained tick eligible s.entries).take n)).demoted.length := by
    intro n hn
    simp only [Assembly.without, Entries.updateEach, List.length_map, List.length_append,
      List.length_take]
    omega
  obtain ⟨k, hk, hrun, hsettled, hbefore⟩ := Shedding.run_prefix loop
    (demotionOrder retained tick eligible s.entries).length
    (fun n => s.without ((demotionOrder retained tick eligible s.entries).take n))
    (by
      intro n hn
      have hsplit := (List.take_append_drop n
        (demotionOrder retained tick eligible s.entries)).symm
      rw [List.drop_eq_getElem_cons hn] at hsplit
      obtain ⟨v, hvictim, hid⟩ := victim_next hhot hcompares hrepresented _ _ _ hsplit
      rw [hnext, assemblyNext, if_neg (hguard n (by omega)), hvictim, Option.map_some,
        demote_without, hid, without_append, List.take_append_getElem])
    (by
      rw [hnext, List.take_length, assemblyNext]
      split
      · rfl
      · rw [victim_none hhot, Option.map_none])
  rw [List.take_zero, without_nil] at hrun
  exact ⟨k, hk, hrun, hrun ▸ hsettled, hbefore⟩

end Drained

theorem warmed_congr (ids others : List Text) (h : ∀ id, id ∈ ids ↔ id ∈ others) :
    warmed ids = warmed others := by
  unfold warmed
  congr 1
  funext e
  simp only [h]

theorem filter_warmed (eligible : SchedulerEntry → Bool)
    (hhot : ∀ e, eligible e = true → isHot e = true) (entries : Entries) (ids : List Text) :
    (entries.updateEach (warmed ids)).val.filter eligible =
      entries.val.filter fun e => eligible e && decide (e.nodeId ∉ ids) := by
  change (entries.val.map (warmed ids).apply).filter eligible = _
  induction entries.val with
  | nil => rfl
  | cons e rest ih =>
    rw [List.map_cons, List.filter_cons, List.filter_cons, ih]
    by_cases hin : e.nodeId ∈ ids
    · have hcold : eligible ((warmed ids).apply e) ≠ true := by
        intro heligible
        have hwarm := warmed_in ids e hin
        rw [hhot _ heligible] at hwarm
        cases hwarm
      simp [hcold, hin]
    · simp [warmed_out ids e hin, hin]

theorem demotion_order_warmed (retained : Text → ℤ) (tick : ℕ) (eligible : SchedulerEntry → Bool)
    (hhot : ∀ e, eligible e = true → isHot e = true) (entries : Entries) (ids : List Text)
    (hout : ∀ e ∈ entries.val, eligible e = true → e.nodeId ∉ ids) :
    demotionOrder retained tick eligible (entries.updateEach (warmed ids)) =
      demotionOrder retained tick eligible entries := by
  have hfilter : (entries.updateEach (warmed ids)).val.filter eligible =
      entries.val.filter eligible := by
    rw [filter_warmed eligible hhot]
    apply List.filter_congr
    intro e he
    cases heligible : eligible e with
    | false => rfl
    | true => simp [hout e he heligible]
  unfold demotionOrder
  simp only [hfilter, demotion_key_warmed]

theorem represented_without (s : Assembly) (h : Represented s) (ids : List Text) :
    Represented (s.without ids) := by
  intro e he hhot
  have hmem : e ∈ (s.entries.updateEach (warmed ids)).val.filter isHot :=
    List.mem_filter.mpr ⟨he, hhot⟩
  rw [filter_warmed isHot (fun _ h => h)] at hmem
  obtain ⟨hentry, htest⟩ := List.mem_filter.mp hmem
  rw [Bool.and_eq_true, decide_eq_true_iff] at htest
  obtain ⟨a, ha, haid⟩ := h e hentry htest.1
  exact ⟨a, List.mem_filter.mpr ⟨ha, by simpa [haid] using htest.2⟩, haid⟩

theorem pinned_hot (e : SchedulerEntry) (h : pinnedHot e = true) : isHot e = true :=
  ((Bool.and_eq_true _ _).mp h).1

theorem unpinned_hot (e : SchedulerEntry) (h : unpinnedHot e = true) : isHot e = true :=
  ((Bool.and_eq_true _ _).mp h).1

theorem pinned_not_unpinned (e : SchedulerEntry) (h : pinnedHot e = true) :
    unpinnedHot e = false := by
  cases hpin : e.pinned <;> simp_all [pinnedHot, unpinnedHot]

theorem pin_counts (entries : List SchedulerEntry) :
    entries.countP pinnedHot + entries.countP unpinnedHot ≤ entries.length := by
  induction entries with
  | nil => simp
  | cons e rest ih =>
    rw [List.countP_cons, List.countP_cons, List.length_cons]
    by_cases hpinned : pinnedHot e = true
    · rw [if_pos hpinned, pinned_not_unpinned e hpinned, if_neg (by decide)]
      omega
    · rw [if_neg hpinned]
      split
      · omega
      · omega

end Siralos.WorkingSet
