import Siralos.WorkingSet

/-!
# The scheduler's tick

Staleness, demand, tiers, pin quota and budget run in this order over the same entries. Each
of the two quotas is a loop that demotes one HOT node at a time.
-/

set_option autoImplicit false

namespace Siralos.WorkingSet

structure AccessEvent where
  nodeId : Text
  deriving DecidableEq, Repr

structure TickInput where
  now : ℕ
  events : List AccessEvent
  graphRevision : Text
  newNodeIds : List Text
  staleNodeIds : List Text
  searchScores : Option (List SearchScore)
  deriving DecidableEq, Repr

structure TickReport where
  tick : ℕ
  promoted : List Text
  demoted : List Text
  deriving DecidableEq, Repr

structure BudgetReport where
  hotTokensBefore : ℕ
  hotTokensAfter : ℕ
  demoted : List Text
  deriving DecidableEq, Repr

def sortIds (ids : List Text) : List Text := ids.insertionSort (· ≤ ·)

def scoredBefore (tick : ℕ) (a b : SchedulerEntry) : Bool :=
  score a tick < score b tick || (score a tick = score b tick && a.nodeId < b.nodeId)

def lowestHot (tick : ℕ) (eligible : SchedulerEntry → Bool) (entries : Entries) :
    Option SchedulerEntry :=
  Shedding.lowest (scoredBefore tick) (fun e => isHot e && eligible e) none entries.val

structure Demotions where
  entries : Entries
  demoted : List Text

namespace Demotions

def demote (s : Demotions) (victim : SchedulerEntry) : Demotions where
  entries := s.entries.updateAt victim.nodeId (.setTier .warm)
  demoted := s.demoted ++ [victim.nodeId]

def hotCount (s : Demotions) : ℕ := s.entries.val.countP isHot

end Demotions

theorem lowest_hot_some (tick : ℕ) (eligible : SchedulerEntry → Bool) (entries : Entries)
    (victim : SchedulerEntry) (h : lowestHot tick eligible entries = some victim) :
    victim ∈ entries.val ∧ isHot victim = true ∧ eligible victim = true := by
  rcases Shedding.lowest_mem _ _ _ _ _ h with hnone | ⟨hmem, heligible⟩
  · cases hnone
  · rw [Bool.and_eq_true] at heligible
    exact ⟨hmem, heligible⟩

theorem lowest_hot_none (tick : ℕ) (eligible : SchedulerEntry → Bool) (entries : Entries)
    (h : lowestHot tick eligible entries = none) (e : SchedulerEntry) (he : e ∈ entries.val) :
    (isHot e && eligible e) = false :=
  Shedding.lowest_none _ _ _ h e he

theorem demote_count (s : Demotions) (victim : SchedulerEntry) (hmem : victim ∈ s.entries.val)
    (hhot : isHot victim = true) : (s.demote victim).hotCount + 1 = s.hotCount :=
  Keyed.count_update_first SchedulerEntry.nodeId victim.nodeId _ isHot s.entries.val victim
    (s.entries.entry_of_mem victim hmem) hhot rfl

/-- One turn of either loop demotes a node that is HOT and eligible. -/
def Demotes (eligible : SchedulerEntry → Bool) (s s' : Demotions) : Prop :=
  ∃ v ∈ s.entries.val, isHot v = true ∧ eligible v = true ∧ s' = s.demote v

theorem Demotes.smaller {eligible : SchedulerEntry → Bool} {s s' : Demotions}
    (h : Demotes eligible s s') : s'.hotCount < s.hotCount := by
  obtain ⟨v, hmem, hhot, _, rfl⟩ := h
  have hcount := demote_count s v hmem hhot
  omega

/-- A pinned node that was demoted is not looked at again. -/
def pinEligible (s : Demotions) (e : SchedulerEntry) : Bool :=
  e.pinned && !s.demoted.contains e.nodeId

def pinNext (tick : ℕ) (s : Demotions) : Option Demotions :=
  (lowestHot tick (pinEligible s) s.entries).map s.demote

theorem pin_next_some (tick : ℕ) (s s' : Demotions) (h : pinNext tick s = some s') :
    Demotes (pinEligible s) s s' := by
  obtain ⟨v, hlowest, rfl⟩ := Option.map_eq_some_iff.mp h
  obtain ⟨hmem, hhot, heligible⟩ := lowest_hot_some tick _ _ v hlowest
  exact ⟨v, hmem, hhot, heligible, rfl⟩

def pinQuota (tick : ℕ) : Shedding.Loop Demotions where
  done s := pinnedHotUniqueTotal s.entries.val ≤ pinnedHotBudgetTokens
  next := pinNext tick
  size := Demotions.hotCount
  smaller s s' h := (pin_next_some tick s s' h).smaller

def budgetEligible (e : SchedulerEntry) : Bool := !e.pinned

/-- More demotions than entries would be a loop without progress. -/
def budgetNext (tick : ℕ) (s : Demotions) : Option Demotions :=
  if s.entries.val.length < s.demoted.length then none
  else (lowestHot tick budgetEligible s.entries).map s.demote

theorem budget_next_some (tick : ℕ) (s s' : Demotions) (h : budgetNext tick s = some s') :
    Demotes budgetEligible s s' := by
  unfold budgetNext at h
  split at h
  · cases h
  · obtain ⟨v, hlowest, rfl⟩ := Option.map_eq_some_iff.mp h
    obtain ⟨hmem, hhot, heligible⟩ := lowest_hot_some tick _ _ v hlowest
    exact ⟨v, hmem, hhot, heligible, rfl⟩

def budgetEnforcement (tick : ℕ) (total : List SchedulerEntry → ℕ) (budgetTokens : ℕ) :
    Shedding.Loop Demotions where
  done s := total s.entries.val ≤ budgetTokens
  next := budgetNext tick
  size := Demotions.hotCount
  smaller s s' h := (budget_next_some tick s s' h).smaller

namespace WorkingSetState

/-- Overriding estimates count for this call only; the last one given for a node counts. -/
def enforceBudget (s : WorkingSetState) (config : SchedulerConfig)
    (tokenEstimates : List (Text × ℕ)) :
    Except SchedulerError (WorkingSetState × BudgetReport) :=
  match (sortIds (tokenEstimates.map Prod.fst)).find? (fun key => (s.entry key).isNone) with
  | some key => .error (.unknownNode key)
  | none =>
    let total := hotUniqueTotalWithMap tokenEstimates.reverse
    let after := (budgetEnforcement s.tick total config.budgetTokens).run ⟨s.entries, []⟩
    .ok ({ s with entries := after.entries }, {
      hotTokensBefore := total s.entries.val
      hotTokensAfter := total after.entries.val
      demoted := sortIds after.demoted })

end WorkingSetState

structure TierMove where
  nodeId : Text
  before : WorkingSetTier
  after : WorkingSetTier
  deriving DecidableEq, Repr

def TierMove.rose (m : TierMove) : Bool := m.after ≠ m.before && m.after.order < m.before.order

def TierMove.fell (m : TierMove) : Bool := m.after ≠ m.before && !(m.after.order < m.before.order)

def tickReport (tick : ℕ) (moves : List TierMove) : TickReport where
  tick := tick
  promoted := sortIds ((moves.filter TierMove.rose).map TierMove.nodeId)
  demoted := sortIds ((moves.filter TierMove.fell).map TierMove.nodeId)

namespace WorkingSetState

/-- The tick that the `SchedulerTick` trait calls: no staleness, no budget. -/
def advanceTick (s : WorkingSetState) : WorkingSetState × TickReport :=
  let tick := s.tick + 1
  ({ s with tick := tick, entries := s.entries.updateEach (.retier (retierIndex tick)) },
    tickReport tick (s.entries.val.map fun e => ⟨e.nodeId, e.tier, retierIndex tick e⟩))

def isCoalescedInput (s : WorkingSetState) (input : TickInput) : Bool :=
  input.events.isEmpty && s.lastGraphRevision == some input.graphRevision &&
    s.lastNewNodes == input.newNodeIds

end WorkingSetState

def staleDemotion (staleNodeIds : List Text) : EntryUpdate :=
  .retier fun e => if staleNodeIds.contains e.nodeId then e.tier.stale else e.tier

def demandUpdates (now : ℕ) (events : List AccessEvent) (entries : Entries) : Entries :=
  events.foldl (fun entries ev => entries.updateAt ev.nodeId (.demanded now)) entries

def gateTarget (staleNodeIds : List Text) (tick : ℕ) (e : SchedulerEntry) : WorkingSetTier :=
  if e.pinned && !staleNodeIds.contains e.nodeId then .hot else tierForScore (score e tick)

def promotionGate (staleNodeIds : List Text) (tick : ℕ) (e : SchedulerEntry) : WorkingSetTier :=
  if e.tier = .archive then .archive
  else if staleNodeIds.contains e.nodeId &&
      decide ((gateTarget staleNodeIds tick e).order < e.tier.order) then e.tier
  else gateTarget staleNodeIds tick e

def tierBefore (before : List SchedulerEntry) (e : SchedulerEntry) : WorkingSetTier :=
  match before.find? (fun b => b.nodeId = e.nodeId) with
  | some b => b.tier
  | none => e.tier

/-- Entries after staleness, demand and retiering, and before the quotas. -/
def retiered (input : TickInput) (entries : Entries) : Entries :=
  let demoted := entries.updateEach (staleDemotion input.staleNodeIds)
  let demanded := demandUpdates input.now input.events demoted
  demanded.updateEach (.retier (promotionGate input.staleNodeIds input.now))

def withinPinQuota (now : ℕ) (entries : Entries) : Entries :=
  ((pinQuota now).run ⟨entries, []⟩).entries

def withinBudget (now : ℕ) (budgetTokens : ℕ) (entries : Entries) : Entries :=
  ((budgetEnforcement now hotUniqueTotal budgetTokens).run ⟨entries, []⟩).entries

namespace WorkingSetState

def processTick (s : WorkingSetState) (input : TickInput) (config : SchedulerConfig) :
    WorkingSetState × TickReport :=
  let s := { s with lastSearchScores := input.searchScores }
  if s.isCoalescedInput input then (s, ⟨s.tick, [], []⟩)
  else
    let after := withinBudget input.now config.budgetTokens
      (withinPinQuota input.now (retiered input s.entries))
    ({ s with
        entries := after, tick := input.now, lastGraphRevision := some input.graphRevision
        lastNewNodes := input.newNodeIds, pipelineRuns := s.pipelineRuns + 1 },
      tickReport input.now
        (after.val.map fun e => ⟨e.nodeId, tierBefore s.entries.val e, e.tier⟩))

end WorkingSetState

/-- The node an entry is about, and whether it is archived. -/
structure SameNode (a b : SchedulerEntry) : Prop where
  nodeId : b.nodeId = a.nodeId
  pinned : b.pinned = a.pinned
  contentDigest : b.contentDigest = a.contentDigest
  tokenEstimate : b.tokenEstimate = a.tokenEstimate
  archive : b.tier = .archive ↔ a.tier = .archive

theorem SameNode.refl (a : SchedulerEntry) : SameNode a a := ⟨rfl, rfl, rfl, rfl, Iff.rfl⟩

theorem SameNode.trans {a b c : SchedulerEntry} (hab : SameNode a b) (hbc : SameNode b c) :
    SameNode a c where
  nodeId := hbc.nodeId.trans hab.nodeId
  pinned := hbc.pinned.trans hab.pinned
  contentDigest := hbc.contentDigest.trans hab.contentDigest
  tokenEstimate := hbc.tokenEstimate.trans hab.tokenEstimate
  archive := hbc.archive.trans hab.archive

def Cooled (staleNodeIds : List Text) (a b : SchedulerEntry) : Prop :=
  SameNode a b ∧ (a.nodeId ∈ staleNodeIds → a.tier.order ≤ b.tier.order)

theorem cooled_refl (staleNodeIds : List Text) (a : SchedulerEntry) : Cooled staleNodeIds a a :=
  ⟨.refl a, fun _ => Nat.le_refl _⟩

theorem cooled_trans (staleNodeIds : List Text) (a b c : SchedulerEntry)
    (hab : Cooled staleNodeIds a b) (hbc : Cooled staleNodeIds b c) : Cooled staleNodeIds a c := by
  refine ⟨hab.1.trans hbc.1, ?_⟩
  intro hstale
  exact (hab.2 hstale).trans (hbc.2 (hab.1.nodeId ▸ hstale))

def EntriesCooled (staleNodeIds : List Text) (before after : Entries) : Prop :=
  List.Forall₂ (Cooled staleNodeIds) before.val after.val

theorem entries_cooled_refl (staleNodeIds : List Text) (entries : Entries) :
    EntriesCooled staleNodeIds entries entries :=
  List.forall₂_same.mpr fun e _ => cooled_refl staleNodeIds e

theorem entries_cooled_trans (staleNodeIds : List Text) {a b c : Entries}
    (hab : EntriesCooled staleNodeIds a b) (hbc : EntriesCooled staleNodeIds b c) :
    EntriesCooled staleNodeIds a c :=
  Keyed.aligned_trans (cooled_trans staleNodeIds) hab hbc

theorem demanded_cooled (staleNodeIds : List Text) (now : ℕ) (events : List AccessEvent)
    (entries : Entries) :
    EntriesCooled staleNodeIds entries (demandUpdates now events entries) := by
  induction events generalizing entries with
  | nil => exact entries_cooled_refl staleNodeIds entries
  | cons ev events ih =>
    have hone : EntriesCooled staleNodeIds entries (entries.updateAt ev.nodeId (.demanded now)) :=
      Keyed.aligned_update_first SchedulerEntry.nodeId ev.nodeId (EntryUpdate.demanded now).apply
        (cooled_refl staleNodeIds) (fun e => ⟨⟨rfl, rfl, rfl, rfl, Iff.rfl⟩, fun _ => Nat.le_refl _⟩) entries.val
    exact entries_cooled_trans staleNodeIds hone (ih _)

theorem gate_target_automatic (staleNodeIds : List Text) (tick : ℕ) (e : SchedulerEntry) :
    gateTarget staleNodeIds tick e ≠ .archive := by
  unfold gateTarget
  split
  · decide
  · exact tier_for_score_automatic _

theorem promotion_gate_archive (staleNodeIds : List Text) (tick : ℕ) (e : SchedulerEntry) :
    promotionGate staleNodeIds tick e = .archive ↔ e.tier = .archive := by
  have htarget := gate_target_automatic staleNodeIds tick e
  unfold promotionGate
  by_cases harchive : e.tier = .archive
  · simp [harchive]
  · rw [if_neg harchive]
    split
    · exact Iff.rfl
    · exact ⟨fun h => absurd h htarget, fun h => absurd h harchive⟩

theorem promotion_gate_stale (staleNodeIds : List Text) (tick : ℕ) (e : SchedulerEntry)
    (hstale : e.nodeId ∈ staleNodeIds) :
    e.tier.order ≤ (promotionGate staleNodeIds tick e).order := by
  have hcontains : staleNodeIds.contains e.nodeId = true := by simpa using hstale
  unfold promotionGate
  by_cases harchive : e.tier = .archive
  · simp [harchive]
  · rw [if_neg harchive, hcontains]
    split
    · exact Nat.le_refl _
    · rename_i hhotter
      simpa using hhotter

theorem gated_cooled (staleNodeIds : List Text) (tick : ℕ) (entries : Entries) :
    EntriesCooled staleNodeIds entries
      (entries.updateEach (.retier (promotionGate staleNodeIds tick))) :=
  Keyed.aligned_map _ _ fun e =>
    ⟨⟨rfl, rfl, rfl, rfl, promotion_gate_archive staleNodeIds tick e⟩,
      promotion_gate_stale staleNodeIds tick e⟩

theorem demote_cooled (staleNodeIds : List Text) (s : Demotions) (v : SchedulerEntry)
    (hmem : v ∈ s.entries.val) (hhot : isHot v = true) :
    EntriesCooled staleNodeIds s.entries (s.demote v).entries := by
  have hfound := s.entries.entry_of_mem v hmem
  have htier : v.tier = .hot := by simpa [isHot] using hhot
  refine Keyed.aligned_update SchedulerEntry.nodeId SchedulerEntry.nodeId v.nodeId _
    (fun a b h => h.1.nodeId.symm) _ _ v (entries_cooled_refl staleNodeIds s.entries) hfound ?_
  intro a ha _
  have hav : a = v := Option.some.inj (ha.symm.trans hfound)
  subst hav
  exact ⟨⟨rfl, rfl, rfl, rfl, by simp [EntryUpdate.setTier, EntryUpdate.retier, htier]⟩,
    fun _ => by simp [htier, WorkingSetTier.order]⟩

theorem demotes_cooled (staleNodeIds : List Text) {eligible : SchedulerEntry → Bool}
    {s s' : Demotions} (h : Demotes eligible s s') :
    EntriesCooled staleNodeIds s.entries s'.entries := by
  obtain ⟨v, hmem, hhot, _, rfl⟩ := h
  exact demote_cooled staleNodeIds s v hmem hhot

theorem pin_quota_cooled (staleNodeIds : List Text) (now : ℕ) (entries : Entries) :
    EntriesCooled staleNodeIds entries (withinPinQuota now entries) := by
  apply Shedding.run_keeps (pinQuota now)
    (fun s => EntriesCooled staleNodeIds entries s.entries)
  · intro s s' hs hnext
    exact entries_cooled_trans staleNodeIds hs
      (demotes_cooled staleNodeIds (pin_next_some now s s' hnext))
  · exact entries_cooled_refl staleNodeIds entries

theorem budget_cooled (staleNodeIds : List Text) (now budgetTokens : ℕ) (entries : Entries) :
    EntriesCooled staleNodeIds entries (withinBudget now budgetTokens entries) := by
  apply Shedding.run_keeps (budgetEnforcement now hotUniqueTotal budgetTokens)
    (fun s => EntriesCooled staleNodeIds entries s.entries)
  · intro s s' hs hnext
    exact entries_cooled_trans staleNodeIds hs
      (demotes_cooled staleNodeIds (budget_next_some now s s' hnext))
  · exact entries_cooled_refl staleNodeIds entries

theorem demoted_cold (s : Demotions) (v : SchedulerEntry)
    (h : ∀ e ∈ s.entries.val, e.nodeId ∈ s.demoted → isHot e = false) :
    ∀ e ∈ (s.demote v).entries.val, e.nodeId ∈ (s.demote v).demoted → isHot e = false := by
  intro e he hdemoted
  rcases List.mem_append.mp hdemoted with hold | hnew
  · rcases Keyed.mem_update_first _ _ _ _ _ he with he | ⟨e₀, _, _, rfl⟩
    · exact h e he hold
    · rfl
  · have hv : e.nodeId = v.nodeId := by simpa using hnew
    obtain ⟨e₀, _, rfl⟩ := Keyed.mem_update_key _ _ _ _ _ s.entries.nodup he hv
    rfl

theorem pin_quota_reached (now : ℕ) (entries : Entries) :
    pinnedHotUniqueTotal (withinPinQuota now entries).val ≤ pinnedHotBudgetTokens := by
  have hcold := Shedding.run_keeps (pinQuota now)
    (fun s => ∀ e ∈ s.entries.val, e.nodeId ∈ s.demoted → isHot e = false)
    (by
      intro s s' hs hnext
      obtain ⟨v, _, _, _, rfl⟩ := pin_next_some now s s' hnext
      exact demoted_cold s v hs)
    ⟨entries, []⟩ (by simp)
  rcases Shedding.run_settled (pinQuota now) ⟨entries, []⟩ with htotal | hnone
  · exact of_decide_eq_true htotal
  · have hnopinned : ∀ e ∈ (withinPinQuota now entries).val, pinnedHot e = false := by
      intro e he
      have hlowest := lowest_hot_none now _ _ (Option.map_eq_none_iff.mp hnone) e he
      by_cases hdemoted : e.nodeId ∈ ((pinQuota now).run ⟨entries, []⟩).demoted
      · rw [pinnedHot, hcold e he hdemoted, Bool.false_and]
      · simpa [pinEligible, pinnedHot, hdemoted] using hlowest
    have hfilter : (withinPinQuota now entries).val.filter pinnedHot = [] := by
      rw [List.filter_eq_nil_iff]
      intro e he
      simp [hnopinned e he]
    rw [pinnedHotUniqueTotal, hfilter]
    exact Nat.zero_le _

/-- Demotions and HOT nodes together never outnumber the entries: the loop's guard stays shut. -/
def Progressing (s : Demotions) : Prop :=
  s.demoted.length + s.hotCount ≤ s.entries.val.length

theorem demotes_progressing {eligible : SchedulerEntry → Bool} {s s' : Demotions}
    (h : Demotes eligible s s') (hs : Progressing s) : Progressing s' := by
  obtain ⟨v, hmem, hhot, _, rfl⟩ := h
  have hcount := demote_count s v hmem hhot
  have hlength : (s.demote v).entries.val.length = s.entries.val.length :=
    (demote_cooled [] s v hmem hhot).length_eq.symm
  have hdemoted : (s.demote v).demoted.length = s.demoted.length + 1 := by
    simp [Demotions.demote]
  unfold Progressing at hs ⊢
  omega

theorem start_progressing (entries : Entries) : Progressing ⟨entries, []⟩ := by
  have hcount : entries.val.countP isHot ≤ entries.val.length := List.countP_le_length
  simpa [Progressing, Demotions.hotCount] using hcount

theorem budget_reached (now : ℕ) (total : List SchedulerEntry → ℕ) (budgetTokens : ℕ)
    (entries : Entries) (after : Demotions)
    (hafter : (budgetEnforcement now total budgetTokens).run ⟨entries, []⟩ = after) :
    total after.entries.val ≤ budgetTokens ∨ ∀ e ∈ after.entries.val, unpinnedHot e = false := by
  subst hafter
  have hprogress := Shedding.run_keeps (budgetEnforcement now total budgetTokens) Progressing
    (fun s s' hs hnext => demotes_progressing (budget_next_some now s s' hnext) hs)
    ⟨entries, []⟩ (start_progressing entries)
  rcases Shedding.run_settled (budgetEnforcement now total budgetTokens) ⟨entries, []⟩ with
    htotal | hnone
  · exact .inl (of_decide_eq_true htotal)
  · right
    intro e he
    change budgetNext now _ = none at hnone
    unfold budgetNext at hnone
    unfold Progressing at hprogress
    rw [if_neg (by omega)] at hnone
    exact lowest_hot_none now _ _ (Option.map_eq_none_iff.mp hnone) e he

theorem budget_pinned (now budgetTokens : ℕ) (entries : Entries) :
    (withinBudget now budgetTokens entries).val.filter pinnedHot =
      entries.val.filter pinnedHot := by
  apply Shedding.run_keeps (budgetEnforcement now hotUniqueTotal budgetTokens)
    (fun s => s.entries.val.filter pinnedHot = entries.val.filter pinnedHot)
  · intro s s' hs hnext
    obtain ⟨v, hmem, hhot, heligible, rfl⟩ := budget_next_some now s s' hnext
    rw [← hs]
    have hpinned : v.pinned = false := by simpa [budgetEligible] using heligible
    exact Keyed.filter_update_first SchedulerEntry.nodeId v.nodeId _ pinnedHot s.entries.val v
      (s.entries.entry_of_mem v hmem) (by simp [pinnedHot, hpinned]) rfl
  · rfl

/-- The same node after a tick: a stale one at least one tier colder, as far as `Cold`. -/
def Ticked (staleNodeIds : List Text) (a b : SchedulerEntry) : Prop :=
  SameNode a b ∧ (a.nodeId ∈ staleNodeIds → a.tier.stale.order ≤ b.tier.order)

theorem stale_demotion_ticked (staleNodeIds : List Text) (e : SchedulerEntry) :
    Ticked staleNodeIds e ((staleDemotion staleNodeIds).apply e) := by
  by_cases hstale : e.nodeId ∈ staleNodeIds
  · have htier : ((staleDemotion staleNodeIds).apply e).tier = e.tier.stale := by
      simp [staleDemotion, EntryUpdate.retier, hstale]
    refine ⟨⟨rfl, rfl, rfl, rfl, ?_⟩, ?_⟩
    · rw [htier]
      exact WorkingSetTier.stale_archive e.tier
    · intro _
      rw [htier]
  · have htier : ((staleDemotion staleNodeIds).apply e).tier = e.tier := by
      simp [staleDemotion, EntryUpdate.retier, hstale]
    refine ⟨⟨rfl, rfl, rfl, rfl, ?_⟩, ?_⟩
    · rw [htier]
    · intro h
      exact absurd h hstale

theorem ticked_cooled (staleNodeIds : List Text) (a b c : SchedulerEntry)
    (hab : Ticked staleNodeIds a b) (hbc : Cooled staleNodeIds b c) : Ticked staleNodeIds a c := by
  refine ⟨hab.1.trans hbc.1, ?_⟩
  intro hstale
  exact (hab.2 hstale).trans (hbc.2 (hab.1.nodeId ▸ hstale))

theorem retiered_ticked (input : TickInput) (entries : Entries) :
    List.Forall₂ (Ticked input.staleNodeIds) entries.val (retiered input entries).val := by
  have hstale : List.Forall₂ (Ticked input.staleNodeIds) entries.val
      (entries.updateEach (staleDemotion input.staleNodeIds)).val :=
    Keyed.aligned_map _ _ (stale_demotion_ticked input.staleNodeIds)
  have hcooled := entries_cooled_trans input.staleNodeIds
    (demanded_cooled input.staleNodeIds input.now input.events
      (entries.updateEach (staleDemotion input.staleNodeIds)))
    (gated_cooled input.staleNodeIds input.now _)
  exact Keyed.aligned_trans (ticked_cooled input.staleNodeIds) hstale hcooled

theorem pipeline_ticked (input : TickInput) (budgetTokens : ℕ) (entries : Entries) :
    List.Forall₂ (Ticked input.staleNodeIds) entries.val
      (withinBudget input.now budgetTokens
        (withinPinQuota input.now (retiered input entries))).val := by
  have hcooled := entries_cooled_trans input.staleNodeIds
    (pin_quota_cooled input.staleNodeIds input.now (retiered input entries))
    (budget_cooled input.staleNodeIds input.now budgetTokens _)
  exact Keyed.aligned_trans (ticked_cooled input.staleNodeIds) (retiered_ticked input entries)
    hcooled

theorem sort_ids_ascending (ids : List Text) (h : ids.Nodup) : (sortIds ids).Pairwise (· < ·) := by
  have hsorted : (sortIds ids).Pairwise (· ≤ ·) := List.pairwise_insertionSort _ _
  have hdistinct : (sortIds ids).Pairwise (· ≠ ·) :=
    (List.perm_insertionSort (· ≤ ·) ids).nodup_iff.mpr h
  exact (hsorted.and hdistinct).imp fun hab => lt_of_le_of_ne hab.1 hab.2

theorem moved_ascending (before : List SchedulerEntry) (after : Entries) (p : TierMove → Bool) :
    (sortIds (((after.val.map fun e => TierMove.mk e.nodeId (tierBefore before e) e.tier).filter
      p).map TierMove.nodeId)).Pairwise (· < ·) := by
  apply sort_ids_ascending
  have hids : (after.val.map fun e => TierMove.mk e.nodeId (tierBefore before e) e.tier).map
      TierMove.nodeId = after.val.map SchedulerEntry.nodeId := by
    rw [List.map_map]
    rfl
  exact List.Nodup.sublist (List.Sublist.map _ List.filter_sublist) (hids ▸ after.nodup)

theorem mem_moved (before after : Entries) (p : TierMove → Bool) (id : Text)
    (hsame : List.Forall₂ SameNode before.val after.val) :
    id ∈ sortIds (((after.val.map fun e =>
        TierMove.mk e.nodeId (tierBefore before.val e) e.tier).filter p).map TierMove.nodeId) ↔
      ∃ a b, before.entry id = some a ∧ after.entry id = some b ∧
        p ⟨id, a.tier, b.tier⟩ = true := by
  rw [sortIds, List.mem_insertionSort]
  constructor
  · intro hid
    obtain ⟨m, hm, rfl⟩ := List.mem_map.mp hid
    obtain ⟨hm, hp⟩ := List.mem_filter.mp hm
    obtain ⟨b, hb, rfl⟩ := List.mem_map.mp hm
    obtain ⟨a, ha, hab⟩ := Keyed.aligned_left hsame b hb
    have hfound : before.entry b.nodeId = some a := by
      rw [hab.nodeId]
      exact before.entry_of_mem a ha
    have htier : tierBefore before.val b = a.tier := by
      unfold tierBefore
      change before.val.find? (fun e => e.nodeId = b.nodeId) = some a at hfound
      rw [hfound]
    refine ⟨a, b, hfound, after.entry_of_mem b hb, ?_⟩
    rw [← htier]
    exact hp
  · rintro ⟨a, b, ha, hb, hp⟩
    have hbid : b.nodeId = id := Keyed.find_key SchedulerEntry.nodeId id after.val b hb
    have htier : tierBefore before.val b = a.tier := by
      unfold tierBefore
      change before.val.find? (fun e => e.nodeId = id) = some a at ha
      rw [hbid, ha]
    subst hbid
    refine List.mem_map.mpr ⟨⟨b.nodeId, a.tier, b.tier⟩, List.mem_filter.mpr ⟨?_, hp⟩, rfl⟩
    rw [← htier]
    exact List.mem_map.mpr ⟨b, List.mem_of_find?_eq_some hb, rfl⟩

theorem rose_iff (id : Text) (before after : WorkingSetTier) :
    (TierMove.mk id before after).rose = true ↔ after.order < before.order := by
  cases before <;> cases after <;> simp [TierMove.rose, WorkingSetTier.order]

theorem fell_iff (id : Text) (before after : WorkingSetTier) :
    (TierMove.mk id before after).fell = true ↔ before.order < after.order := by
  cases before <;> cases after <;> simp [TierMove.fell, WorkingSetTier.order]

def pipeline (s : WorkingSetState) (input : TickInput) (config : SchedulerConfig) : Entries :=
  withinBudget input.now config.budgetTokens
    (withinPinQuota input.now (retiered input s.entries))

theorem process_tick_runs (s : WorkingSetState) (input : TickInput) (config : SchedulerConfig)
    (hruns : s.isCoalescedInput input = false) :
    s.processTick input config =
      ({ entries := pipeline s input config, tick := input.now
         lastGraphRevision := some input.graphRevision, lastNewNodes := input.newNodeIds
         pipelineRuns := s.pipelineRuns + 1, lastSearchScores := input.searchScores },
        tickReport input.now ((pipeline s input config).val.map fun e =>
          ⟨e.nodeId, tierBefore s.entries.val e, e.tier⟩)) := by
  change (if s.isCoalescedInput input = true then _ else _) = _
  rw [hruns]
  rfl

/-- The bounds, the nodes and the report of one tick of the pipeline. -/
structure TickLaw (staleNodeIds : List Text) (budgetTokens : ℕ) (s s' : WorkingSetState)
    (report : TickReport) : Prop where
  pinned : pinnedHotUniqueTotal s'.entries.val ≤ pinnedHotBudgetTokens
  within : hotUniqueTotal s'.entries.val ≤ budgetTokens ∨
    ∀ e ∈ s'.entries.val, e.tier = .hot → e.pinned = true
  quota_within : pinnedHotBudgetTokens ≤ budgetTokens →
    hotUniqueTotal s'.entries.val ≤ budgetTokens
  nodes : List.Forall₂ (Ticked staleNodeIds) s.entries.val s'.entries.val
  promoted_ascending : report.promoted.Pairwise (· < ·)
  promoted : ∀ id, id ∈ report.promoted ↔ ∃ a b, s.entry id = some a ∧ s'.entry id = some b ∧
    b.tier.order < a.tier.order
  demoted_ascending : report.demoted.Pairwise (· < ·)
  demoted : ∀ id, id ∈ report.demoted ↔ ∃ a b, s.entry id = some a ∧ s'.entry id = some b ∧
    a.tier.order < b.tier.order

/-- Over every canonical state, whatever calls led to it. -/
theorem process_tick_law (s : WorkingSetState) (input : TickInput) (config : SchedulerConfig)
    (hruns : s.isCoalescedInput input = false) :
    TickLaw input.staleNodeIds config.budgetTokens s (s.processTick input config).1
      (s.processTick input config).2 := by
  let after := pipeline s input config
  rw [process_tick_runs s input config hruns]
  have hnodes := pipeline_ticked input config.budgetTokens s.entries
  have hsame : List.Forall₂ SameNode s.entries.val after.val := hnodes.imp fun _ _ h => h.1
  have hpinned : pinnedHotUniqueTotal after.val ≤ pinnedHotBudgetTokens := by
    rw [pinnedHotUniqueTotal, show after.val.filter pinnedHot = _ from budget_pinned _ _ _]
    exact pin_quota_reached input.now (retiered input s.entries)
  have hwithin := budget_reached input.now hotUniqueTotal config.budgetTokens
    (withinPinQuota input.now (retiered input s.entries)) _ rfl
  constructor
  case pinned => exact hpinned
  case within =>
    rcases hwithin with htotal | hunpinned
    · exact .inl htotal
    · right
      intro e he hhot
      simpa [unpinnedHot, isHot, hhot] using hunpinned e he
  case quota_within =>
    intro hquota
    rcases hwithin with htotal | hunpinned
    · exact htotal
    · exact (hot_total_of_pinned after.val hunpinned).le.trans (hpinned.trans hquota)
  case nodes =>
    exact hnodes
  case promoted_ascending =>
    exact moved_ascending s.entries.val after TierMove.rose
  case promoted =>
    intro id
    have hmoved := mem_moved s.entries after TierMove.rose id hsame
    simp only [rose_iff] at hmoved
    exact hmoved
  case demoted_ascending =>
    exact moved_ascending s.entries.val after TierMove.fell
  case demoted =>
    intro id
    have hmoved := mem_moved s.entries after TierMove.fell id hsame
    simp only [fell_iff] at hmoved
    exact hmoved

/-- Two pinned nodes over the quota together, the second one demanded, and a stale one. -/
def crowdedEntries : List SchedulerEntry :=
  [ { nodeId := "a", tier := .hot, pinned := true, relevance := 40, lastAccessTick := 0
      tokenEstimate := 900, contentDigest := "" },
    { nodeId := "b", tier := .warm, pinned := true, relevance := 40, lastAccessTick := 0
      tokenEstimate := 900, contentDigest := "" },
    { nodeId := "c", tier := .hot, pinned := false, relevance := 90, lastAccessTick := 0
      tokenEstimate := 10, contentDigest := "" } ]

def crowdedState : WorkingSetState where
  entries := ⟨crowdedEntries, by decide, by decide, by decide⟩
  tick := 0
  lastGraphRevision := none
  lastNewNodes := []
  pipelineRuns := 0
  lastSearchScores := none

def crowdedInput : TickInput where
  now := 1
  events := [⟨"b"⟩]
  graphRevision := "r1"
  newNodeIds := []
  staleNodeIds := ["c"]
  searchScores := none

theorem crowded_tick_law : TickLaw ["c"] 4096 crowdedState
    (crowdedState.processTick crowdedInput ⟨4096⟩).1
    (crowdedState.processTick crowdedInput ⟨4096⟩).2 :=
  process_tick_law crowdedState crowdedInput ⟨4096⟩ rfl

example : (crowdedState.processTick crowdedInput ⟨4096⟩).2 = ⟨1, ["b"], ["a", "c"]⟩ := by
  decide +kernel

end Siralos.WorkingSet
