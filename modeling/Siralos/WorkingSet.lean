import Siralos.Text
import Siralos.Keyed
import Siralos.Shedding
import Mathlib.Algebra.BigOperators.Group.Finset.Basic
import Mathlib.Data.Char
import Mathlib.Data.List.Lex
import Mathlib.Data.List.Sort

/-!
# The tiered working set

Entries of the context scheduler in canonical order, their score and tier, the token totals
that count a content digest once, and the events that move an entry.
-/

set_option autoImplicit false

namespace Siralos.WorkingSet

def maxSchedulerNodes : ℕ := 512

def defaultBudgetTokens : ℕ := 4096

def pinnedHotBudgetTokens : ℕ := 1024

def maxTickEvents : ℕ := 64

def maxSearchScores : ℕ := 64

def maxRelevance : ℕ := 100

def hotScoreThreshold : ℕ := 280

def warmScoreThreshold : ℕ := 120

inductive WorkingSetTier where
  | hot
  | warm
  | cold
  | archive
  deriving DecidableEq, Repr

namespace WorkingSetTier

def order : WorkingSetTier → ℕ
  | hot => 0
  | warm => 1
  | cold => 2
  | archive => 3

/-- Staleness moves one tier toward `Cold`, whatever the pin. -/
def stale : WorkingSetTier → WorkingSetTier
  | hot => warm
  | warm => cold
  | cold => cold
  | archive => archive

@[simp] theorem stale_archive (a : WorkingSetTier) : a.stale = archive ↔ a = archive := by
  cases a <;> decide

end WorkingSetTier

structure SchedulerEntry where
  nodeId : Text
  tier : WorkingSetTier
  pinned : Bool
  relevance : ℕ
  lastAccessTick : ℕ
  tokenEstimate : ℕ
  contentDigest : Text
  deriving DecidableEq, Repr

inductive SchedulerEvent where
  | access (nodeId : Text)
  | pin (nodeId : Text)
  | unpin (nodeId : Text)
  | relevance (nodeId : Text) (value : ℕ)
  | stale (nodeId : Text)
  | archive (nodeId : Text)
  deriving DecidableEq, Repr

def SchedulerEvent.nodeId : SchedulerEvent → Text
  | access nodeId | pin nodeId | unpin nodeId | relevance nodeId _ | stale nodeId
  | archive nodeId => nodeId

inductive SchedulerError where
  | unknownNode (nodeId : Text)
  | duplicateNode (nodeId : Text)
  | invalidConfig (reason : Text)
  | relevanceOutOfRange (nodeId : Text) (value : ℕ)
  deriving DecidableEq, Repr

structure SchedulerConfig where
  budgetTokens : ℕ
  deriving DecidableEq, Repr

/-- The field is public: a configuration may also be built without this check. -/
def SchedulerConfig.new (budgetTokens : ℕ) : Except SchedulerError SchedulerConfig :=
  if budgetTokens = 0 then .error (.invalidConfig "budget_tokens must be >= 1")
  else .ok ⟨budgetTokens⟩

def score (entry : SchedulerEntry) (tick : ℕ) : ℕ :=
  let ticksSince := tick - entry.lastAccessTick
  let recencyPoints := if ticksSince = 0 then 30 else 30 - min ticksSince 30
  entry.relevance * 4 + recencyPoints + (if entry.pinned then 50 else 0)

def tierForScore (s : ℕ) : WorkingSetTier :=
  if hotScoreThreshold ≤ s then .hot
  else if warmScoreThreshold ≤ s then .warm
  else .cold

theorem tier_for_score_automatic (s : ℕ) : tierForScore s ≠ .archive := by
  unfold tierForScore
  split
  · decide
  · split <;> decide

/-- `usize::saturating_add` on a 64-bit target. -/
def saturatingAdd (a b : ℕ) : ℕ := min (a + b) (2 ^ 64 - 1)

/-- Tokens of the first item of each digest, in the order of the list. -/
def uniqueTotal : List Text → ℕ → List (Text × ℕ) → ℕ
  | _, total, [] => total
  | seen, total, (digest, tokens) :: rest =>
    if digest ∈ seen then uniqueTotal seen total rest
    else uniqueTotal (digest :: seen) (saturatingAdd total tokens) rest

theorem unique_total (seen : List Text) (total : ℕ) (items : List (Text × ℕ))
    (hbound : total ≤ 2 ^ 64 - 1) :
    uniqueTotal seen total items =
      min (total + ∑ digest ∈ (items.map Prod.fst).toFinset \ seen.toFinset,
        (items.lookup digest).getD 0) (2 ^ 64 - 1) := by
  induction items generalizing seen total with
  | nil => simpa [uniqueTotal] using hbound
  | cons item rest ih =>
    obtain ⟨digest, tokens⟩ := item
    have hlater : ∀ other ≠ digest,
        (((digest, tokens) :: rest).lookup other).getD 0 = (rest.lookup other).getD 0 := by
      intro other hother
      rw [List.lookup_cons, beq_eq_false_iff_ne.mpr hother]
    rw [uniqueTotal, List.map_cons, List.toFinset_cons]
    split
    · rename_i hseen
      have hmem : digest ∈ seen.toFinset := List.mem_toFinset.mpr hseen
      rw [ih seen total hbound, Finset.insert_sdiff_of_mem _ hmem]
      congr 2
      apply Finset.sum_congr rfl
      intro other hother
      refine (hlater other ?_).symm
      rintro rfl
      exact (Finset.mem_sdiff.mp hother).2 hmem
    · rename_i hnew
      have hmem : digest ∉ seen.toFinset := fun h => hnew (List.mem_toFinset.mp h)
      have hsum : ∑ other ∈ insert digest ((rest.map Prod.fst).toFinset) \ seen.toFinset,
          (((digest, tokens) :: rest).lookup other).getD 0 =
        tokens + ∑ other ∈ (rest.map Prod.fst).toFinset \ (digest :: seen).toFinset,
          (rest.lookup other).getD 0 := by
        have hsplit : insert digest ((rest.map Prod.fst).toFinset) \ seen.toFinset =
            insert digest ((rest.map Prod.fst).toFinset \ (digest :: seen).toFinset) := by
          ext other
          by_cases hother : other = digest
          · simp [hother, hnew]
          · simp [hother]
        rw [hsplit, Finset.sum_insert (by simp), List.lookup_cons_self]
        congr 1
        apply Finset.sum_congr rfl
        intro other hother
        apply hlater other
        rintro rfl
        simp at hother
      rw [hsum, ih (digest :: seen) (saturatingAdd total tokens) (Nat.min_le_right _ _),
        saturatingAdd]
      omega

def digestOr (contentDigest nodeId : Text) : Text :=
  if contentDigest.isEmpty then nodeId else contentDigest

def canonicalOrder (entries : List SchedulerEntry) : List SchedulerEntry :=
  entries.insertionSort (fun a b => a.nodeId ≤ b.nodeId)

/-- The estimates of a caller stand in for the entries' own. -/
def uniqueTotalWith (estimates : List (Text × ℕ)) (counted : List SchedulerEntry) : ℕ :=
  uniqueTotal [] 0 ((canonicalOrder counted).map fun e =>
    (digestOr e.contentDigest e.nodeId, (estimates.lookup e.nodeId).getD e.tokenEstimate))

theorem unique_total_with (estimates : List (Text × ℕ)) (counted : List SchedulerEntry) :
    uniqueTotalWith estimates counted =
      let items := (canonicalOrder counted).map fun e =>
        (digestOr e.contentDigest e.nodeId, (estimates.lookup e.nodeId).getD e.tokenEstimate)
      min (∑ digest ∈ (items.map Prod.fst).toFinset, (items.lookup digest).getD 0)
        (2 ^ 64 - 1) := by
  rw [uniqueTotalWith, unique_total [] 0 _ (Nat.zero_le _), List.toFinset_nil, Finset.sdiff_empty,
    Nat.zero_add]

def isHot (e : SchedulerEntry) : Bool := e.tier = .hot

def pinnedHot (e : SchedulerEntry) : Bool := isHot e && e.pinned

def unpinnedHot (e : SchedulerEntry) : Bool := isHot e && !e.pinned

def hotUniqueTotalWithMap (estimates : List (Text × ℕ)) (entries : List SchedulerEntry) : ℕ :=
  uniqueTotalWith estimates (entries.filter isHot)

def hotUniqueTotal (entries : List SchedulerEntry) : ℕ :=
  uniqueTotalWith [] (entries.filter isHot)

def pinnedHotUniqueTotal (entries : List SchedulerEntry) : ℕ :=
  uniqueTotalWith [] (entries.filter pinnedHot)

theorem hot_total_of_pinned (entries : List SchedulerEntry)
    (h : ∀ e ∈ entries, unpinnedHot e = false) :
    hotUniqueTotal entries = pinnedHotUniqueTotal entries := by
  have hfilter : entries.filter isHot = entries.filter pinnedHot := by
    apply List.filter_congr
    intro e he
    have hpinned := h e he
    revert hpinned
    unfold unpinnedHot pinnedHot
    cases isHot e <;> cases e.pinned <;> decide
  rw [hotUniqueTotal, hfilter, pinnedHotUniqueTotal]

structure Canonical (entries : List SchedulerEntry) : Prop where
  ascending : (entries.map SchedulerEntry.nodeId).Pairwise (· < ·)
  bounded : entries.length ≤ maxSchedulerNodes
  relevant : ∀ e ∈ entries, e.relevance ≤ maxRelevance

abbrev Entries := { entries : List SchedulerEntry // Canonical entries }

/-- A change of one entry that leaves the node it is about and the range of relevance. -/
structure EntryUpdate where
  apply : SchedulerEntry → SchedulerEntry
  sameNode : ∀ e, (apply e).nodeId = e.nodeId
  inRange : ∀ e, e.relevance ≤ maxRelevance → (apply e).relevance ≤ maxRelevance

namespace EntryUpdate

def retier (tier : SchedulerEntry → WorkingSetTier) : EntryUpdate where
  apply e := { e with tier := tier e }
  sameNode _ := rfl
  inRange _ h := h

def setTier (tier : WorkingSetTier) : EntryUpdate := retier fun _ => tier

def accessed (tick : ℕ) : EntryUpdate where
  apply e := { e with lastAccessTick := tick }
  sameNode _ := rfl
  inRange _ h := h

def setPinned (pinned : Bool) : EntryUpdate where
  apply e := { e with pinned := pinned }
  sameNode _ := rfl
  inRange _ h := h

def setRelevance (value : ℕ) (hvalue : value ≤ maxRelevance) : EntryUpdate where
  apply e := { e with relevance := value }
  sameNode _ := rfl
  inRange _ _ := hvalue

def andThen (first second : EntryUpdate) : EntryUpdate where
  apply e := second.apply (first.apply e)
  sameNode e := (second.sameNode _).trans (first.sameNode e)
  inRange e h := second.inRange _ (first.inRange e h)

/-- The bytes saturate before the range cuts them off. -/
def demanded (now : ℕ) : EntryUpdate where
  apply e := { e with
    lastAccessTick := now, relevance := min (min (e.relevance + 32) 255) maxRelevance }
  sameNode _ := rfl
  inRange _ _ := Nat.min_le_right _ _

end EntryUpdate

theorem canonical_of_aligned {as bs : List SchedulerEntry} (h : Canonical as)
    (haligned : List.Forall₂ (fun a b => b.nodeId = a.nodeId ∧
      (a.relevance ≤ maxRelevance → b.relevance ≤ maxRelevance)) as bs) : Canonical bs where
  ascending := by
    rw [Keyed.aligned_keys (fun a b hab => hab.1) haligned]
    exact h.ascending
  bounded := haligned.length_eq ▸ h.bounded
  relevant := by
    intro b hb
    obtain ⟨a, ha, hab⟩ := Keyed.aligned_left haligned b hb
    exact hab.2 (h.relevant a ha)

namespace Entries

def entry (entries : Entries) (nodeId : Text) : Option SchedulerEntry :=
  entries.val.find? (fun e => e.nodeId = nodeId)

def updateEach (entries : Entries) (update : EntryUpdate) : Entries :=
  ⟨entries.val.map update.apply, canonical_of_aligned entries.2
    (Keyed.aligned_map _ _ fun e => ⟨update.sameNode e, update.inRange e⟩)⟩

/-- The entry of a node changed in place, when there is one. -/
def updateAt (entries : Entries) (nodeId : Text) (update : EntryUpdate) : Entries :=
  ⟨Keyed.updateFirst SchedulerEntry.nodeId nodeId update.apply entries.val,
    canonical_of_aligned entries.2 (Keyed.aligned_update_first _ _ _
      (fun _ => ⟨rfl, id⟩) (fun e => ⟨update.sameNode e, update.inRange e⟩) _)⟩

theorem nodup (entries : Entries) : (entries.val.map SchedulerEntry.nodeId).Nodup :=
  entries.2.ascending.imp fun h => ne_of_lt h

theorem entry_of_mem (entries : Entries) (e : SchedulerEntry) (h : e ∈ entries.val) :
    entries.entry e.nodeId = some e :=
  Keyed.find_of_nodup SchedulerEntry.nodeId entries.val e entries.nodup h

end Entries

structure SearchScore where
  nodeId : Text
  score : ℤ
  deriving DecidableEq, Repr

/-- The graph revision and the new nodes are those of the last tick the pipeline ran for. -/
structure WorkingSetState where
  entries : Entries
  tick : ℕ
  lastGraphRevision : Option Text
  lastNewNodes : List Text
  pipelineRuns : ℕ
  lastSearchScores : Option (List SearchScore)

structure SchedulerOutcome where
  nodeId : Text
  tierBefore : WorkingSetTier
  tierAfter : WorkingSetTier
  deriving DecidableEq, Repr

/-- The first entry that is out of range or repeats a node. -/
def entriesError : List Text → List SchedulerEntry → Option SchedulerError
  | _, [] => none
  | seen, e :: rest =>
    if maxRelevance < e.relevance then some (.relevanceOutOfRange e.nodeId e.relevance)
    else if e.nodeId ∈ seen then some (.duplicateNode e.nodeId)
    else entriesError (e.nodeId :: seen) rest

theorem entries_error_none (seen : List Text) (entries : List SchedulerEntry)
    (h : entriesError seen entries = none) :
    (entries.map SchedulerEntry.nodeId).Nodup ∧ (∀ e ∈ entries, e.nodeId ∉ seen) ∧
      ∀ e ∈ entries, e.relevance ≤ maxRelevance := by
  induction entries generalizing seen with
  | nil => simp
  | cons e rest ih =>
    rw [entriesError] at h
    split at h
    · cases h
    · rename_i hrelevance
      split at h
      · cases h
      · rename_i hseen
        obtain ⟨hnodup, hnew, hrelevant⟩ := ih _ h
        refine ⟨?_, ?_, ?_⟩
        · rw [List.map_cons, List.nodup_cons]
          refine ⟨?_, hnodup⟩
          intro hmem
          obtain ⟨e', he', hid⟩ := List.mem_map.mp hmem
          exact hnew e' he' (by simp [hid])
        · intro e' he'
          rcases List.mem_cons.mp he' with rfl | he'
          · exact hseen
          · intro hmem
            exact hnew e' he' (List.mem_cons_of_mem _ hmem)
        · intro e' he'
          rcases List.mem_cons.mp he' with rfl | he'
          · omega
          · exact hrelevant e' he'

theorem canonical_order (entries : List SchedulerEntry) (hlength : entries.length ≤ maxSchedulerNodes)
    (h : entriesError [] entries = none) : Canonical (canonicalOrder entries) := by
  obtain ⟨hnodup, _, hrelevant⟩ := entries_error_none [] entries h
  have hperm : (canonicalOrder entries).Perm entries := List.perm_insertionSort _ _
  constructor
  · have hsorted : (canonicalOrder entries).Pairwise (fun a b => a.nodeId ≤ b.nodeId) :=
      List.pairwise_insertionSort _ _
    have hdistinct : (canonicalOrder entries).Pairwise (fun a b => a.nodeId ≠ b.nodeId) :=
      List.pairwise_map.mp ((hperm.map _).nodup_iff.mpr hnodup)
    rw [List.pairwise_map]
    exact (hsorted.and hdistinct).imp fun hab => lt_of_le_of_ne hab.1 hab.2
  · rw [hperm.length_eq]
    exact hlength
  · intro e he
    exact hrelevant e (hperm.mem_iff.mp he)

namespace WorkingSetState

def build (entries : List SchedulerEntry) : Except SchedulerError WorkingSetState :=
  if hlength : entries.length ≤ maxSchedulerNodes then
    match h : entriesError [] entries with
    | some error => .error error
    | none => .ok {
        entries := ⟨canonicalOrder entries, canonical_order entries hlength h⟩
        tick := 0, lastGraphRevision := none, lastNewNodes := [], pipelineRuns := 0
        lastSearchScores := none }
  else .error (.invalidConfig "too many nodes")

def entry (s : WorkingSetState) (nodeId : Text) : Option SchedulerEntry := s.entries.entry nodeId

end WorkingSetState

def retierIndex (tick : ℕ) (entry : SchedulerEntry) : WorkingSetTier :=
  if entry.tier = .archive then .archive
  else if entry.pinned then .hot
  else tierForScore (score entry tick)

/-- What an event does to the entry of its node, its tier last. -/
def eventUpdate (tick : ℕ) : SchedulerEvent → Except SchedulerError EntryUpdate
  | .access _ => .ok ((EntryUpdate.accessed tick).andThen (.retier (retierIndex tick)))
  | .pin _ => .ok ((EntryUpdate.setPinned true).andThen (.setTier .hot))
  | .unpin _ => .ok ((EntryUpdate.setPinned false).andThen (.retier (retierIndex tick)))
  | .relevance nodeId value =>
    if h : value ≤ maxRelevance then
      .ok ((EntryUpdate.setRelevance value h).andThen (.retier (retierIndex tick)))
    else .error (.relevanceOutOfRange nodeId value)
  | .stale _ => .ok (.retier fun e => e.tier.stale)
  | .archive _ => .ok (.setTier .archive)

def WorkingSetState.applyEvent (s : WorkingSetState) (event : SchedulerEvent) :
    Except SchedulerError (WorkingSetState × SchedulerOutcome) :=
  match s.entry event.nodeId with
  | none => .error (.unknownNode event.nodeId)
  | some e =>
    match eventUpdate s.tick event with
    | .error error => .error error
    | .ok update =>
      .ok ({ s with entries := s.entries.updateAt event.nodeId update },
        { nodeId := event.nodeId, tierBefore := e.tier, tierAfter := (update.apply e).tier })

end Siralos.WorkingSet
