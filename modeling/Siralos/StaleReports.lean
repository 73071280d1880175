import Siralos.Assembly

/-!
# Stale reports

A tick that runs the pipeline cools every stale node. The coalescing guard comes first and does
not look at the stale nodes of the input.
-/

set_option autoImplicit false

namespace Siralos.WorkingSet

def keepHighest (kept : List SearchScore) (s : SearchScore) : List SearchScore :=
  if s.nodeId.isEmpty || 256 < Text.utf8Len s.nodeId then kept
  else if kept.any fun k => k.nodeId = s.nodeId then
    Keyed.updateFirst SearchScore.nodeId s.nodeId
      (fun k => { k with score := max k.score s.score }) kept
  else kept ++ [s]

def canonicalizeSearchScores (scores : List SearchScore) : List SearchScore :=
  ((scores.foldl keepHighest []).insertionSort fun a b => a.nodeId ≤ b.nodeId).take maxSearchScores

namespace WorkingSetState

def setSearchScores (s : WorkingSetState) (scores : List SearchScore) : WorkingSetState :=
  let canonical := canonicalizeSearchScores scores
  { s with lastSearchScores := if canonical.isEmpty then none else some canonical }

def assembleWithSearchScores (sha256Hex : Text → Text) (s : WorkingSetState)
    (graph : ContextGraph) (store : ContextRepresentationStore) (config : SchedulerConfig)
    (searchScores : Option (List SearchScore)) : WorkingSetState × AssembledContext :=
  let scored := s.setSearchScores (searchScores.getD [])
  let (after, context) := scored.assemble sha256Hex graph store config
  ({ after with lastSearchScores := s.lastSearchScores }, context)

/-- The states that the public operations lead to, in any order. -/
inductive Reachable : WorkingSetState → Prop where
  | build (entries : List SchedulerEntry) (s : WorkingSetState) (h : build entries = .ok s) :
      Reachable s
  | applyEvent (s s' : WorkingSetState) (event : SchedulerEvent) (outcome : SchedulerOutcome)
      (hs : Reachable s) (h : s.applyEvent event = .ok (s', outcome)) : Reachable s'
  | setSearchScores (s : WorkingSetState) (scores : List SearchScore) (hs : Reachable s) :
      Reachable (s.setSearchScores scores)
  | advanceTick (s : WorkingSetState) (hs : Reachable s) : Reachable s.advanceTick.1
  | processTick (s : WorkingSetState) (input : TickInput) (config : SchedulerConfig)
      (hs : Reachable s) : Reachable (s.processTick input config).1
  | enforceBudget (s s' : WorkingSetState) (config : SchedulerConfig)
      (tokenEstimates : List (Text × ℕ)) (report : BudgetReport) (hs : Reachable s)
      (h : s.enforceBudget config tokenEstimates = .ok (s', report)) : Reachable s'
  | assemble (sha256Hex : Text → Text) (s : WorkingSetState) (graph : ContextGraph)
      (store : ContextRepresentationStore) (config : SchedulerConfig) (hs : Reachable s) :
      Reachable (s.assemble sha256Hex graph store config).1
  | assembleWithSearchScores (sha256Hex : Text → Text) (s : WorkingSetState)
      (graph : ContextGraph) (store : ContextRepresentationStore) (config : SchedulerConfig)
      (searchScores : Option (List SearchScore)) (hs : Reachable s) :
      Reachable (s.assembleWithSearchScores sha256Hex graph store config searchScores).1

end WorkingSetState

structure Colder (a b : SchedulerEntry) : Prop where
  colder : a.tier = .hot ∨ a.tier = .warm → a.tier.order < b.tier.order
  cold : a.tier = .cold → b.tier = .cold
  archive : a.tier = .archive → b.tier = .archive

def StaleHeard (input : TickInput) (s s' : WorkingSetState) : Prop :=
  ∀ id ∈ input.staleNodeIds, ∀ e, s.entry id = some e →
    ∃ e', s'.entry id = some e' ∧ Colder e e'

theorem ticked_colder (staleNodeIds : List Text) (a b : SchedulerEntry)
    (h : Ticked staleNodeIds a b) (hstale : a.nodeId ∈ staleNodeIds) : Colder a b := by
  obtain ⟨hsame, hcold⟩ := h
  have hbelow := hcold hstale
  have harchive := hsame.archive
  constructor
  · intro htier
    rcases htier with htier | htier
    · rw [htier] at hbelow ⊢
      exact hbelow
    · rw [htier] at hbelow ⊢
      exact hbelow
  · intro htier
    rw [htier] at hbelow harchive
    cases hb : b.tier with
    | cold => rfl
    | hot =>
      rw [hb] at hbelow
      exact absurd hbelow (by decide)
    | warm =>
      rw [hb] at hbelow
      exact absurd hbelow (by decide)
    | archive => exact absurd (harchive.mp hb) (by decide)
  · intro htier
    exact harchive.mpr htier

theorem entry_aligned {R : SchedulerEntry → SchedulerEntry → Prop} (before after : Entries)
    (hkeys : ∀ a b, R a b → b.nodeId = a.nodeId) (haligned : List.Forall₂ R before.val after.val)
    (id : Text) (a : SchedulerEntry) (ha : before.entry id = some a) :
    ∃ b, after.entry id = some b ∧ R a b := by
  have hid : a.nodeId = id := Keyed.find_key SchedulerEntry.nodeId id before.val a ha
  obtain ⟨b, hb, hR⟩ := Keyed.aligned_left (R := fun b a => R a b) haligned.flip a
    (List.mem_of_find?_eq_some ha)
  refine ⟨b, ?_, hR⟩
  rw [← hid, ← hkeys a b hR]
  exact after.entry_of_mem b hb

theorem coalesced_entries (s : WorkingSetState) (input : TickInput) (config : SchedulerConfig)
    (h : s.isCoalescedInput input = true) : (s.processTick input config).1.entries = s.entries := by
  change (if s.isCoalescedInput input = true then _ else _ : WorkingSetState × TickReport).1.entries
    = _
  rw [if_pos h]

/-- A report reaches its nodes when the tick runs; a tick that is coalesced moves no node. -/
theorem stale_report_heard (s : WorkingSetState) (input : TickInput) (config : SchedulerConfig) :
    (s.isCoalescedInput input = false → StaleHeard input s (s.processTick input config).1) ∧
    (s.isCoalescedInput input = true → (s.processTick input config).1.entries = s.entries) := by
  constructor
  · intro hruns id hid a ha
    have hnodes := (process_tick_law s input config hruns).nodes
    obtain ⟨b, hb, hticked⟩ := entry_aligned s.entries _ (fun a b h => h.1.nodeId) hnodes id a ha
    have hkey : a.nodeId = id := Keyed.find_key SchedulerEntry.nodeId id s.entries.val a ha
    exact ⟨b, hb, ticked_colder input.staleNodeIds a b hticked (hkey ▸ hid)⟩
  · exact coalesced_entries s input config

/-- A pinned node, and a tick in which nothing happens. -/
def quietEntry : SchedulerEntry where
  nodeId := "a"
  tier := .hot
  pinned := true
  relevance := 40
  lastAccessTick := 0
  tokenEstimate := 1
  contentDigest := ""

def quietInput (staleNodeIds : List Text) : TickInput where
  now := 1
  events := []
  graphRevision := "r"
  newNodeIds := []
  staleNodeIds := staleNodeIds
  searchScores := none

def quietState : WorkingSetState where
  entries := ⟨[quietEntry], by decide, by decide, by decide⟩
  tick := 0
  lastGraphRevision := none
  lastNewNodes := []
  pipelineRuns := 0
  lastSearchScores := none

theorem quiet_reachable : WorkingSetState.Reachable
    (quietState.processTick (quietInput []) ⟨4096⟩).1 :=
  .processTick _ _ _ (.build [quietEntry] quietState rfl)

theorem quiet_kept : pipeline quietState (quietInput []) ⟨4096⟩ = quietState.entries := by
  have hretiered : retiered (quietInput []) quietState.entries = quietState.entries := by
    apply Subtype.ext
    decide
  have hquota : withinPinQuota 1 quietState.entries = quietState.entries :=
    congrArg Demotions.entries (Shedding.run_done (pinQuota 1) ⟨quietState.entries, []⟩ (by decide))
  have hbudget : withinBudget 1 4096 quietState.entries = quietState.entries :=
    congrArg Demotions.entries (Shedding.run_done (budgetEnforcement 1 hotUniqueTotal 4096)
      ⟨quietState.entries, []⟩ (by decide))
  rw [pipeline, hretiered]
  change withinBudget 1 4096 (withinPinQuota 1 quietState.entries) = _
  rw [hquota, hbudget]

/-- The second tick of a revision does not hear that its node went stale. -/
theorem stale_report_lost : ¬ ∀ s, WorkingSetState.Reachable s → ∀ input config,
    StaleHeard input s (s.processTick input config).1 := by
  intro hall
  have hheard := hall _ quiet_reachable (quietInput ["a"]) ⟨4096⟩ "a" (List.mem_singleton_self _)
  have hentry : (quietState.processTick (quietInput []) ⟨4096⟩).1.entry "a" = some quietEntry := by
    rw [process_tick_runs quietState _ _ rfl]
    change (pipeline quietState (quietInput []) ⟨4096⟩).entry "a" = _
    rw [quiet_kept]
    rfl
  obtain ⟨e', he', hcolder⟩ := hheard quietEntry hentry
  have hsame : e' = quietEntry := by
    rw [WorkingSetState.entry, coalesced_entries _ _ _ (by
      rw [process_tick_runs quietState _ _ rfl]
      rfl)] at he'
    exact Option.some.inj (he'.symm.trans hentry)
  subst hsame
  exact absurd (hcolder.colder (.inl rfl)) (by decide)

end Siralos.WorkingSet
