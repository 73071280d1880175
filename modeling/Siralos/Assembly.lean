import Siralos.WorkingSetTick

/-!
# The assembled context

The HOT nodes are assembled with their summaries and the stubs of their neighbours. Two loops
demote nodes over the pin quota and over the budget, and take them out of the entries.
-/

set_option autoImplicit false

namespace Siralos.WorkingSet

structure ContextNode where
  id : Text
  contentDigest : Text
  summary : Text
  deriving DecidableEq, Repr

structure ContextEdge where
  fromNode : Text
  toNode : Text
  deriving DecidableEq, Repr

structure ContextGraph where
  nodes : List ContextNode
  edges : List ContextEdge
  deriving DecidableEq, Repr

def ContextGraph.node (graph : ContextGraph) (id : Text) : Option ContextNode :=
  graph.nodes.find? fun node => node.id = id

inductive RepresentationLevel where
  | identity
  | summary
  | structured
  | detailed
  | source
  deriving DecidableEq, Repr

structure NodeRepresentation where
  level : RepresentationLevel
  contentDigest : Text
  content : Text
  deriving DecidableEq, Repr

structure NodeRepresentationSet where
  nodeId : Text
  representations : List NodeRepresentation
  deriving DecidableEq, Repr

structure ContextRepresentationStore where
  sets : List NodeRepresentationSet
  deriving DecidableEq, Repr

def ContextRepresentationStore.set (store : ContextRepresentationStore) (nodeId : Text) :
    Option NodeRepresentationSet :=
  store.sets.find? fun set => set.nodeId = nodeId

def resolveRepresentation (set : NodeRepresentationSet) (level : RepresentationLevel) :
    Option NodeRepresentation :=
  set.representations.find? fun representation => representation.level = level

/-- `ceil(chars/4)`, the estimate of the context graph. -/
def estimateChars (text : Text) : ℕ := (text.length + 3) / 4

structure NeighborStub where
  nodeId : Text
  contentDigest : Text
  deriving DecidableEq, Repr

structure AssembledEntry where
  nodeId : Text
  contentDigest : Text
  summary : Text
  tokenEstimate : ℕ
  neighborStubs : List NeighborStub
  deriving DecidableEq, Repr

structure AssembledContext where
  entries : List AssembledEntry
  totalTokensBefore : ℕ
  totalTokensAfter : ℕ
  demoted : List Text
  deriving DecidableEq, Repr

def stubTokenEstimate (stub : NeighborStub) : ℕ :=
  estimateChars (stub.nodeId ++ ':' :: stub.contentDigest)

/-- What an entry counts: its summary, then its stubs. -/
def countedItems (e : AssembledEntry) : List (Text × ℕ) :=
  (digestOr e.contentDigest e.nodeId, e.tokenEstimate) :: e.neighborStubs.map fun stub =>
    (digestOr stub.contentDigest stub.nodeId, stubTokenEstimate stub)

def assembledUniqueTotal (assembled : List AssembledEntry) : ℕ :=
  uniqueTotal [] 0 (assembled.flatMap countedItems)

theorem assembled_unique_total (assembled : List AssembledEntry) :
    assembledUniqueTotal assembled =
      min (∑ digest ∈ ((assembled.flatMap countedItems).map Prod.fst).toFinset,
        ((assembled.flatMap countedItems).lookup digest).getD 0) (2 ^ 64 - 1) := by
  rw [assembledUniqueTotal, unique_total [] 0 _ (Nat.zero_le _), List.toFinset_nil,
    Finset.sdiff_empty, Nat.zero_add]

def pinnedAssembledUniqueTotal (assembled : List AssembledEntry) (entries : Entries) : ℕ :=
  let pinnedIds := (entries.val.filter pinnedHot).map SchedulerEntry.nodeId
  assembledUniqueTotal (assembled.filter fun e => pinnedIds.contains e.nodeId)

section Build

variable (sha256Hex : Text → Text) (graph : ContextGraph) (store : ContextRepresentationStore)

def graphSummary (nodeId : Text) : Text × Text :=
  match graph.node nodeId with
  | some node => (node.summary, sha256Hex node.summary)
  | none => ([], [])

def summaryOf (nodeId : Text) : Text × Text :=
  match store.set nodeId with
  | some set =>
    match resolveRepresentation set .summary with
    | some representation => (representation.content, representation.contentDigest)
    | none => graphSummary sha256Hex graph nodeId
  | none => graphSummary sha256Hex graph nodeId

/-- Both directions, each neighbour once, in ascending order. -/
def neighborsOf (nodeId : Text) : List Text :=
  let ends := graph.edges.filterMap fun edge =>
    if edge.fromNode = nodeId then some edge.toNode
    else if edge.toNode = nodeId then some edge.fromNode
    else none
  sortIds (ends.eraseDups.filter fun id => id != nodeId)

def stubOf (nodeId : Text) : NeighborStub :=
  match graph.node nodeId with
  | some node => ⟨nodeId, node.contentDigest⟩
  | none => ⟨nodeId, nodeId⟩

def assembledEntry (nodeId : Text) : AssembledEntry where
  nodeId := nodeId
  contentDigest := (summaryOf sha256Hex graph store nodeId).2
  summary := (summaryOf sha256Hex graph store nodeId).1
  tokenEstimate := estimateChars (summaryOf sha256Hex graph store nodeId).1
  neighborStubs := ((neighborsOf graph nodeId).take 8).map (stubOf graph)

def buildAssembledEntries (entries : Entries) : List AssembledEntry :=
  (sortIds ((entries.val.filter isHot).map SchedulerEntry.nodeId)).map
    (assembledEntry sha256Hex graph store)

end Build

structure Assembly where
  entries : Entries
  assembled : List AssembledEntry
  demoted : List Text

def Assembly.demote (s : Assembly) (victim : AssembledEntry) : Assembly where
  entries := s.entries.updateAt victim.nodeId (.setTier .warm)
  assembled := s.assembled.filter fun e => e.nodeId != victim.nodeId
  demoted := s.demoted ++ [victim.nodeId]

def stateScore (tick : ℕ) (entries : Entries) (nodeId : Text) : ℕ :=
  ((entries.entry nodeId).map fun e => score e tick).getD 0

/-- Lower scheduler score first, then the smaller id. -/
def scheduledBefore (tick : ℕ) (entries : Entries) (a b : AssembledEntry) : Bool :=
  stateScore tick entries a.nodeId < stateScore tick entries b.nodeId ||
    (stateScore tick entries a.nodeId = stateScore tick entries b.nodeId && a.nodeId < b.nodeId)

/-- The scores by node; a later one for a node takes the place of an earlier one. -/
def retainedScore (scores : List SearchScore) (nodeId : Text) : ℤ :=
  ((scores.reverse.find? fun s => s.nodeId = nodeId).map SearchScore.score).getD 0

/-- Lower search score first, then as without search scores. -/
def retainedBefore (scores : List SearchScore) (tick : ℕ) (entries : Entries)
    (a b : AssembledEntry) : Bool :=
  retainedScore scores a.nodeId < retainedScore scores b.nodeId ||
    (retainedScore scores a.nodeId = retainedScore scores b.nodeId &&
      scheduledBefore tick entries a b)

def assembledVictim (before : AssembledEntry → AssembledEntry → Bool)
    (eligible : SchedulerEntry → Bool) (s : Assembly) : Option AssembledEntry :=
  Shedding.lowest before (fun e => (s.entries.entry e.nodeId).any eligible) none s.assembled

/-- More demotions than entries would be a loop without progress. -/
def assemblyNext (before : Entries → AssembledEntry → AssembledEntry → Bool)
    (eligible : SchedulerEntry → Bool) (s : Assembly) : Option Assembly :=
  if s.entries.val.length < s.demoted.length then none
  else (assembledVictim (before s.entries) eligible s).map s.demote

theorem assembly_next_some (before : Entries → AssembledEntry → AssembledEntry → Bool)
    (eligible : SchedulerEntry → Bool) (s s' : Assembly)
    (h : assemblyNext before eligible s = some s') :
    ∃ victim ∈ s.assembled, (s.entries.entry victim.nodeId).any eligible = true ∧
      s' = s.demote victim := by
  rw [assemblyNext] at h
  split at h
  · cases h
  · obtain ⟨victim, hlowest, rfl⟩ := Option.map_eq_some_iff.mp h
    rcases Shedding.lowest_mem _ _ _ _ _ hlowest with hnone | ⟨hmem, heligible⟩
    · cases hnone
    · exact ⟨victim, hmem, heligible, rfl⟩

theorem assembly_smaller (before : Entries → AssembledEntry → AssembledEntry → Bool)
    (eligible : SchedulerEntry → Bool) (s s' : Assembly)
    (h : assemblyNext before eligible s = some s') : s'.assembled.length < s.assembled.length := by
  obtain ⟨victim, hmem, -, rfl⟩ := assembly_next_some before eligible s s' h
  exact List.length_filter_lt_length_iff_exists.mpr ⟨victim, hmem, by simp⟩

def assemblyPinQuota (tick : ℕ) : Shedding.Loop Assembly where
  done s := pinnedAssembledUniqueTotal s.assembled s.entries ≤ pinnedHotBudgetTokens
  next := assemblyNext (scheduledBefore tick) pinnedHot
  size s := s.assembled.length
  smaller := assembly_smaller _ _

/-- The order of the budget: by search scores when there are some. -/
def budgetBefore (scores : Option (List SearchScore)) (tick : ℕ) (entries : Entries) :
    AssembledEntry → AssembledEntry → Bool :=
  match scores.filter fun scores => !scores.isEmpty with
  | some scores => retainedBefore scores tick entries
  | none => scheduledBefore tick entries

def assemblyBudget (scores : Option (List SearchScore)) (tick budgetTokens : ℕ) :
    Shedding.Loop Assembly where
  done s := assembledUniqueTotal s.assembled ≤ budgetTokens
  next := assemblyNext (budgetBefore scores tick) unpinnedHot
  size s := s.assembled.length
  smaller := assembly_smaller _ _

namespace WorkingSetState

def assemble (sha256Hex : Text → Text) (s : WorkingSetState) (graph : ContextGraph)
    (store : ContextRepresentationStore) (config : SchedulerConfig) :
    WorkingSetState × AssembledContext :=
  let built := buildAssembledEntries sha256Hex graph store s.entries
  let quota := (assemblyPinQuota s.tick).run ⟨s.entries, built, []⟩
  let final := (assemblyBudget s.lastSearchScores s.tick config.budgetTokens).run quota
  ({ s with entries := final.entries }, {
    entries := final.assembled.insertionSort fun a b => a.nodeId ≤ b.nodeId
    totalTokensBefore := assembledUniqueTotal built
    totalTokensAfter := assembledUniqueTotal final.assembled
    demoted := sortIds final.demoted })

end WorkingSetState

end Siralos.WorkingSet
