import Siralos.Identity
import Siralos.Keyed
import Mathlib.Data.List.Nodup

/-!
# Workspace revision registry

Handles for exact file states, bound to the path they are current for. The registry keeps
a path map, the tracked identities and the eviction order in step by hand; eviction is
first in, first out, and removes by handle.
-/

set_option autoImplicit false

namespace Siralos.Revision

def workspaceRevisionHandlePrefix : Text := "rev_"

def defaultRevisionRegistryLimit : ℕ := 1024

def observedWindow : ℕ := 64

inductive ObservedReadMode where
  | exact
  | structural
  | summary
  deriving DecidableEq, Repr

structure WorkspaceRevisionIdentity where
  workspaceFingerprint : Text
  path : Text
  sha256 : Text
  deriving DecidableEq, Repr

structure ObservedWorkspaceRead where
  path : Text
  revision : Text
  mode : ObservedReadMode
  atMs : ℕ
  deriving DecidableEq, Repr

/-- The first 128 bits of the hash of the canonical identity tuple. -/
def computeWorkspaceRevisionHandle (sha256Hex : Text → Text)
    (workspaceFingerprint path sha256 : Text) : Text :=
  let identity := Identity.CanonicalValue.ofFields
    [Identity.field "path" (.str path),
     Identity.field "sha256" (.str sha256),
     Identity.field "workspace" (.str workspaceFingerprint)]
  workspaceRevisionHandlePrefix ++ (sha256Hex (Identity.toCanonical identity)).take 32

structure WorkspaceRevisionRegistryOptions where
  workspaceFingerprint : Text
  maxEntries : Option ℕ
  deriving DecidableEq, Repr

abbrev Bindings := Text → Option Text

def Bindings.empty : Bindings := fun _ => none

def Bindings.insert (byPath : Bindings) (path handle : Text) : Bindings :=
  Function.update byPath path (some handle)

def Bindings.remove (byPath : Bindings) (path : Text) : Bindings :=
  Function.update byPath path none

/-- Drops the path's binding if it is still `handle`. -/
def Bindings.release (byPath : Bindings) (path handle : Text) : Bindings :=
  if byPath path = some handle then byPath.remove path else byPath

@[simp] theorem Bindings.insert_self (byPath : Bindings) (path handle : Text) :
    byPath.insert path handle path = some handle := by
  simp [Bindings.insert]

theorem Bindings.insert_of_ne (byPath : Bindings) (path handle other : Text)
    (h : other ≠ path) : byPath.insert path handle other = byPath other :=
  Function.update_of_ne h _ _

theorem Bindings.remove_some (byPath : Bindings) (path other bound : Text) :
    byPath.remove path other = some bound ↔ other ≠ path ∧ byPath other = some bound := by
  by_cases h : other = path
  · simp [Bindings.remove, h]
  · simp [Bindings.remove, h]

theorem Bindings.release_some (byPath : Bindings) (path handle other bound : Text) :
    byPath.release path handle other = some bound ↔
      byPath other = some bound ∧ ¬(other = path ∧ bound = handle) := by
  rw [Bindings.release]
  by_cases h : byPath path = some handle
  · rw [if_pos h, Bindings.remove_some]
    constructor
    · rintro ⟨hother, hbound⟩
      exact ⟨hbound, fun hboth => hother hboth.1⟩
    · rintro ⟨hbound, hnot⟩
      refine ⟨?_, hbound⟩
      rintro rfl
      exact hnot ⟨rfl, Option.some.inj (hbound.symm.trans h)⟩
  · rw [if_neg h]
    constructor
    · intro hbound
      refine ⟨hbound, ?_⟩
      rintro ⟨rfl, rfl⟩
      exact h hbound
    · exact And.left

abbrev Entry := Text × WorkspaceRevisionIdentity

structure WorkspaceRevisionRegistry where
  workspaceFingerprint : Text
  maxEntries : ℕ
  positive : 1 ≤ maxEntries
  byPath : Bindings
  identities : List Entry
  order : List Text
  observed : List ObservedWorkspaceRead
  clock : ℕ

namespace WorkspaceRevisionRegistry

def new (options : WorkspaceRevisionRegistryOptions) : Except Text WorkspaceRevisionRegistry :=
  let maxEntries := options.maxEntries.getD defaultRevisionRegistryLimit
  if h : maxEntries < 1 then
    .error "The revision registry requires a positive entry limit."
  else
    .ok { workspaceFingerprint := options.workspaceFingerprint
          maxEntries := maxEntries
          positive := Nat.le_of_not_lt h
          byPath := .empty
          identities := []
          order := []
          observed := []
          clock := 0 }

def entryForHandle (identities : List Entry) (handle : Text) : Option Entry :=
  identities.find? fun entry => entry.1 = handle

def identityForHandle (registry : WorkspaceRevisionRegistry) (handle : Text) :
    Option WorkspaceRevisionIdentity :=
  (entryForHandle registry.identities handle).map Prod.snd

structure Tracked where
  order : List Text
  identities : List Entry
  byPath : Bindings

/-- `evict_if_needed`: one pass of the loop for each handle of the order. -/
def evictFrom (maxEntries : ℕ) : List Text → List Entry → Bindings → Tracked
  | [], identities, byPath => ⟨[], identities, byPath⟩
  | oldest :: order, identities, byPath =>
    if identities.length ≤ maxEntries then ⟨oldest :: order, identities, byPath⟩
    else match entryForHandle identities oldest with
      | none => evictFrom maxEntries order identities byPath
      | some (_, identity) =>
        evictFrom maxEntries order (identities.eraseP fun entry => entry.1 = oldest)
          (byPath.release identity.path oldest)

def evictIfNeeded (registry : WorkspaceRevisionRegistry) : WorkspaceRevisionRegistry :=
  let kept := evictFrom registry.maxEntries registry.order registry.identities registry.byPath
  { registry with order := kept.order, identities := kept.identities, byPath := kept.byPath }

/-- The binding that `issue` returns without tracking anything. -/
def existingFor (registry : WorkspaceRevisionRegistry) (path sha256 : Text) : Option Text :=
  match registry.byPath path with
  | none => none
  | some existing =>
    match registry.identityForHandle existing with
    | none => none
    | some identity => if identity.sha256 = sha256 then some existing else none

/-- The entry that `issue` tracks. -/
def issuedEntry (registry : WorkspaceRevisionRegistry) (handle path sha256 : Text) : Entry :=
  (handle, ⟨registry.workspaceFingerprint, path, sha256⟩)

def track (registry : WorkspaceRevisionRegistry) (handle path sha256 : Text) :
    WorkspaceRevisionRegistry :=
  { registry with
    identities := registry.identities ++ [registry.issuedEntry handle path sha256]
    order := registry.order ++ [handle]
    byPath := registry.byPath.insert path handle }

def issue (sha256Hex : Text → Text) (registry : WorkspaceRevisionRegistry)
    (path sha256 : Text) : Text × WorkspaceRevisionRegistry :=
  match registry.existingFor path sha256 with
  | some existing => (existing, registry)
  | none =>
    let handle :=
      computeWorkspaceRevisionHandle sha256Hex registry.workspaceFingerprint path sha256
    (handle, (registry.track handle path sha256).evictIfNeeded)

def resolve (registry : WorkspaceRevisionRegistry) (handle : Text) :
    Option WorkspaceRevisionIdentity :=
  if Text.startsWith workspaceRevisionHandlePrefix handle then registry.identityForHandle handle
  else none

def currentRevision (registry : WorkspaceRevisionRegistry) (path : Text) : Option Text :=
  registry.byPath path

def revisionForState (registry : WorkspaceRevisionRegistry) (path sha256 : Text) : Option Text :=
  (registry.identities.find? fun entry => entry.2.path = path ∧ entry.2.sha256 = sha256).map
    Prod.fst

def invalidatePath (registry : WorkspaceRevisionRegistry) (path : Text) :
    WorkspaceRevisionRegistry :=
  { registry with byPath := registry.byPath.remove path }

def observeRead (registry : WorkspaceRevisionRegistry) (path revision : Text)
    (mode : ObservedReadMode) : WorkspaceRevisionRegistry :=
  let clock := registry.clock + 1
  let observed := registry.observed ++ [⟨path, revision, mode, clock⟩]
  { registry with
    clock := clock
    observed := if observed.length > observedWindow then observed.tail else observed }

def observedReads (registry : WorkspaceRevisionRegistry) : List ObservedWorkspaceRead :=
  registry.observed

def size (registry : WorkspaceRevisionRegistry) : ℕ := registry.identities.length

def clear (registry : WorkspaceRevisionRegistry) : WorkspaceRevisionRegistry :=
  { registry with byPath := .empty, identities := [], order := [], observed := [], clock := 0 }

end WorkspaceRevisionRegistry

open WorkspaceRevisionRegistry

inductive RegistryCall where
  | issue (path sha256 : Text)
  | invalidatePath (path : Text)
  | observeRead (path revision : Text) (mode : ObservedReadMode)
  | clear
  deriving DecidableEq, Repr

variable (sha256Hex : Text → Text)

def perform (registry : WorkspaceRevisionRegistry) : RegistryCall → WorkspaceRevisionRegistry
  | .issue path sha256 => (registry.issue sha256Hex path sha256).2
  | .invalidatePath path => registry.invalidatePath path
  | .observeRead path revision mode => registry.observeRead path revision mode
  | .clear => registry.clear

def issuedStates : List RegistryCall → List (Text × Text)
  | [] => []
  | .issue path sha256 :: calls => (path, sha256) :: issuedStates calls
  | _ :: calls => issuedStates calls

/-- No two of the states share a handle in the workspace. -/
def CollisionFree (workspaceFingerprint : Text) (states : List (Text × Text)) : Prop :=
  ∀ s ∈ states, ∀ t ∈ states,
    computeWorkspaceRevisionHandle sha256Hex workspaceFingerprint s.1 s.2 =
      computeWorkspaceRevisionHandle sha256Hex workspaceFingerprint t.1 t.2 → s = t

structure Consistent (registry : WorkspaceRevisionRegistry) : Prop where
  current : ∀ path handle, registry.currentRevision path = some handle →
    ∃ identity, registry.resolve handle = some identity ∧ identity.path = path
  bounded : registry.size ≤ registry.maxEntries
  distinct : (registry.identities.map Prod.fst).Nodup

/-- What the caller of `issue` finds right after it. -/
def Answers (registry : WorkspaceRevisionRegistry) : RegistryCall → Prop
  | .issue path sha256 =>
    let issued := registry.issue sha256Hex path sha256
    issued.2.currentRevision path = some issued.1 ∧
      issued.2.resolve issued.1 = some ⟨registry.workspaceFingerprint, path, sha256⟩
  | _ => True

/-- The registry is consistent all along the run and every issue is answered. -/
def RunHolds : WorkspaceRevisionRegistry → List RegistryCall → Prop
  | registry, [] => Consistent registry
  | registry, call :: calls =>
    Consistent registry ∧ Answers sha256Hex registry call ∧
      RunHolds (perform sha256Hex registry call) calls

/-- The state asked for is the path's current binding, or its handle is not tracked. -/
def Untracked (registry : WorkspaceRevisionRegistry) : RegistryCall → Prop
  | .issue path sha256 =>
    (registry.existingFor path sha256).isSome ∨
      computeWorkspaceRevisionHandle sha256Hex registry.workspaceFingerprint path sha256 ∉
        registry.identities.map Prod.fst
  | _ => True

def RunUntracked : WorkspaceRevisionRegistry → List RegistryCall → Prop
  | _, [] => True
  | registry, call :: calls =>
    Untracked sha256Hex registry call ∧ RunUntracked (perform sha256Hex registry call) calls

/-- The handle of a state in the registry's workspace. -/
abbrev handleOf (registry : WorkspaceRevisionRegistry) (path sha256 : Text) : Text :=
  computeWorkspaceRevisionHandle sha256Hex registry.workspaceFingerprint path sha256

/-- The three structures are in step, and all that is tracked was asked for. -/
structure Aligned (states : List (Text × Text)) (registry : WorkspaceRevisionRegistry) :
    Prop where
  order : registry.order = registry.identities.map Prod.fst
  distinct : (registry.identities.map Prod.fst).Nodup
  bounded : registry.identities.length ≤ registry.maxEntries
  tracked : ∀ entry ∈ registry.identities,
    entry.1 = handleOf sha256Hex registry entry.2.path entry.2.sha256 ∧
      entry.2.workspaceFingerprint = registry.workspaceFingerprint ∧
      (entry.2.path, entry.2.sha256) ∈ states
  bound : ∀ path handle, registry.byPath path = some handle →
    ∃ entry ∈ registry.identities, entry.1 = handle ∧ entry.2.path = path

theorem aligned_new (options : WorkspaceRevisionRegistryOptions)
    (registry : WorkspaceRevisionRegistry) (states : List (Text × Text))
    (hnew : new options = .ok registry) : Aligned sha256Hex states registry := by
  rw [new] at hnew
  split at hnew
  · cases hnew
  · cases hnew
    exact ⟨rfl, List.nodup_nil, Nat.zero_le _, by simp, by simp [Bindings.empty]⟩

theorem handle_starts (fingerprint path sha256 : Text) :
    Text.startsWith workspaceRevisionHandlePrefix
      (computeWorkspaceRevisionHandle sha256Hex fingerprint path sha256) = true := by
  rw [Text.starts_with_iff, computeWorkspaceRevisionHandle]
  exact List.prefix_append _ _

variable {sha256Hex} {states : List (Text × Text)} {registry : WorkspaceRevisionRegistry}

theorem entry_of_mem (hdistinct : (registry.identities.map Prod.fst).Nodup) (entry : Entry)
    (h : entry ∈ registry.identities) :
    entryForHandle registry.identities entry.1 = some entry :=
  Keyed.find_of_nodup Prod.fst registry.identities entry hdistinct h

theorem resolve_entry (hok : Aligned sha256Hex states registry) (entry : Entry)
    (h : entry ∈ registry.identities) : registry.resolve entry.1 = some entry.2 := by
  have hhandle := (hok.tracked entry h).1
  have hfound := entry_of_mem hok.distinct entry h
  rw [resolve, if_pos (by rw [hhandle]; exact handle_starts sha256Hex _ _ _), identityForHandle,
    hfound]
  rfl

theorem Aligned.consistent (hok : Aligned sha256Hex states registry) : Consistent registry := by
  refine ⟨?_, hok.bounded, hok.distinct⟩
  intro path handle hcurrent
  obtain ⟨entry, hmem, rfl, hpath⟩ := hok.bound path handle hcurrent
  exact ⟨entry.2, resolve_entry hok entry hmem, hpath⟩

theorem entries_agree (hok : Aligned sha256Hex states registry)
    (hfree : CollisionFree sha256Hex registry.workspaceFingerprint states) (entry : Entry)
    (h : entry ∈ registry.identities) (path sha256 : Text) (hasked : (path, sha256) ∈ states)
    (hhandle : entry.1 = handleOf sha256Hex registry path sha256) :
    entry.2 = ⟨registry.workspaceFingerprint, path, sha256⟩ := by
  obtain ⟨hentry, hfingerprint, hmem⟩ := hok.tracked entry h
  have hsame := hfree _ hmem _ hasked (hentry.symm.trans hhandle)
  simp only [Prod.mk.injEq] at hsame
  rw [← hsame.1, ← hsame.2, ← hfingerprint]

theorem existing_entry (hok : Aligned sha256Hex states registry) (path sha256 existing : Text)
    (h : registry.existingFor path sha256 = some existing) :
    registry.byPath path = some existing ∧
      (existing, ⟨registry.workspaceFingerprint, path, sha256⟩) ∈ registry.identities := by
  unfold existingFor at h
  split at h
  · cases h
  · rename_i handle hbound
    obtain ⟨entry, hmem, rfl, hpath⟩ := hok.bound path handle hbound
    have hfound : registry.identityForHandle entry.1 = some entry.2 := by
      rw [identityForHandle, entry_of_mem hok.distinct entry hmem]
      rfl
    rw [hfound] at h
    simp only [Option.ite_none_right_eq_some, Option.some.injEq] at h
    obtain ⟨hsha, rfl⟩ := h
    have hidentity : entry.2 = ⟨registry.workspaceFingerprint, path, sha256⟩ := by
      rw [← hpath, ← hsha, ← (hok.tracked entry hmem).2.1]
    exact ⟨hbound, hidentity ▸ hmem⟩

theorem evict_within (maxEntries : ℕ) (order : List Text) (identities : List Entry)
    (byPath : Bindings) (h : identities.length ≤ maxEntries) :
    evictFrom maxEntries order identities byPath = ⟨order, identities, byPath⟩ := by
  cases order with
  | nil => rfl
  | cons oldest order => rw [evictFrom, if_pos h]

theorem evict_oldest (maxEntries : ℕ) (oldest : Entry) (rest : List Entry) (byPath : Bindings)
    (hfull : rest.length = maxEntries) :
    evictFrom maxEntries ((oldest :: rest).map Prod.fst) (oldest :: rest) byPath =
      ⟨rest.map Prod.fst, rest, byPath.release oldest.2.path oldest.1⟩ := by
  have hover : ¬(oldest :: rest).length ≤ maxEntries := by
    rw [List.length_cons, hfull]
    omega
  have hfound : entryForHandle (oldest :: rest) oldest.1 = some oldest := by
    simp [entryForHandle]
  have hrest : (oldest :: rest).eraseP (fun entry => entry.1 = oldest.1) = rest := by simp
  rw [List.map_cons, evictFrom, if_neg hover, hfound]
  simp only [hrest]
  exact evict_within maxEntries _ rest _ hfull.le

/-- Tracking a fresh handle drops at most the oldest entry, and of the bindings only those
the new one replaces or whose entry is dropped. -/
structure Kept (registry after : WorkspaceRevisionRegistry) (kept : List Entry)
    (handle path sha256 : Text) : Prop where
  fingerprint : after.workspaceFingerprint = registry.workspaceFingerprint
  limit : after.maxEntries = registry.maxEntries
  suffix : kept <:+ registry.identities
  room : kept.length + 1 ≤ registry.maxEntries
  identities : after.identities = kept ++ [registry.issuedEntry handle path sha256]
  order : after.order = after.identities.map Prod.fst
  current : after.byPath path = some handle
  others : ∀ other bound, other ≠ path → after.byPath other = some bound →
    registry.byPath other = some bound ∧ bound ∈ kept.map Prod.fst

theorem track_evicted (handle path sha256 : Text) (kept : Tracked)
    (h : evictFrom registry.maxEntries (registry.order ++ [handle])
      (registry.identities ++ [registry.issuedEntry handle path sha256])
      (registry.byPath.insert path handle) = kept) :
    (registry.track handle path sha256).evictIfNeeded =
      { registry with
        order := kept.order, identities := kept.identities, byPath := kept.byPath } := by
  subst h
  rfl

theorem insert_others (hok : Aligned sha256Hex states registry) (path handle other bound : Text)
    (hother : other ≠ path) (h : registry.byPath.insert path handle other = some bound) :
    registry.byPath other = some bound ∧
      ∃ entry ∈ registry.identities, entry.1 = bound ∧ entry.2.path = other := by
  rw [Bindings.insert_of_ne _ _ _ _ hother] at h
  exact ⟨h, hok.bound other bound h⟩

theorem track_room (hok : Aligned sha256Hex states registry) (handle path sha256 : Text)
    (hroom : registry.identities.length + 1 ≤ registry.maxEntries) :
    Kept registry (registry.track handle path sha256).evictIfNeeded registry.identities handle
      path sha256 := by
  have hwithin := evict_within registry.maxEntries (registry.order ++ [handle])
    (registry.identities ++ [registry.issuedEntry handle path sha256])
    (registry.byPath.insert path handle) (by simpa using hroom)
  rw [track_evicted handle path sha256 _ hwithin]
  exact
    { fingerprint := rfl
      limit := rfl
      suffix := List.suffix_refl _
      room := hroom
      identities := rfl
      order := by simp [hok.order, issuedEntry]
      current := Bindings.insert_self _ _ _
      others := by
        intro other bound hother h
        obtain ⟨hold, entry, hmem, rfl, -⟩ :=
          insert_others hok path handle other bound hother h
        exact ⟨hold, List.mem_map_of_mem hmem⟩ }

theorem track_full (hok : Aligned sha256Hex states registry) (handle path sha256 : Text)
    (hfresh : handle ∉ registry.identities.map Prod.fst) (oldest : Entry) (kept : List Entry)
    (hids : registry.identities = oldest :: kept)
    (hfull : kept.length + 1 = registry.maxEntries) :
    Kept registry (registry.track handle path sha256).evictIfNeeded kept handle path sha256 := by
  have hone := evict_oldest registry.maxEntries oldest
    (kept ++ [registry.issuedEntry handle path sha256]) (registry.byPath.insert path handle)
    (by simpa using hfull)
  have horder : registry.order ++ [handle] =
      (oldest :: (kept ++ [registry.issuedEntry handle path sha256])).map Prod.fst := by
    simp [hok.order, hids, issuedEntry]
  have hentries : registry.identities ++ [registry.issuedEntry handle path sha256] =
      oldest :: (kept ++ [registry.issuedEntry handle path sha256]) := by
    simp [hids]
  have hneq : oldest.1 ≠ handle := by
    rintro rfl
    simp [hids] at hfresh
  rw [← horder, ← hentries] at hone
  rw [track_evicted handle path sha256 _ hone]
  exact
    { fingerprint := rfl
      limit := rfl
      suffix := ⟨[oldest], hids.symm⟩
      room := hfull.le
      identities := rfl
      order := rfl
      current := by
        rw [Bindings.release_some]
        exact ⟨Bindings.insert_self _ _ _, fun hboth => hneq hboth.2.symm⟩
      others := by
        intro other bound hother h
        rw [Bindings.release_some] at h
        obtain ⟨hold, entry, hmem, rfl, hpath⟩ :=
          insert_others hok path handle other bound hother h.1
        refine ⟨hold, ?_⟩
        rw [hids] at hmem
        rcases List.mem_cons.mp hmem with rfl | hmem
        · exact absurd ⟨hpath.symm, rfl⟩ h.2
        · exact List.mem_map_of_mem hmem }

theorem track_kept (hok : Aligned sha256Hex states registry) (handle path sha256 : Text)
    (hfresh : handle ∉ registry.identities.map Prod.fst) :
    ∃ kept, Kept registry (registry.track handle path sha256).evictIfNeeded kept handle path
      sha256 := by
  by_cases hroom : registry.identities.length + 1 ≤ registry.maxEntries
  · exact ⟨_, track_room hok handle path sha256 hroom⟩
  · have hbounded := hok.bounded
    have hpositive := registry.positive
    obtain ⟨oldest, kept, hids⟩ := List.exists_cons_of_length_pos
      (show 0 < registry.identities.length by omega)
    have hfull : kept.length + 1 = registry.maxEntries := by
      rw [hids, List.length_cons] at hbounded hroom
      omega
    exact ⟨kept, track_full hok handle path sha256 hfresh oldest kept hids hfull⟩

theorem Kept.aligned {after : WorkspaceRevisionRegistry} {kept : List Entry}
    {path sha256 : Text} (hok : Aligned sha256Hex states registry)
    (hasked : (path, sha256) ∈ states)
    (hfresh : handleOf sha256Hex registry path sha256 ∉ registry.identities.map Prod.fst)
    (h : Kept registry after kept (handleOf sha256Hex registry path sha256) path sha256) :
    Aligned sha256Hex states after := by
  have hkeys : after.identities.map Prod.fst =
      kept.map Prod.fst ++ [handleOf sha256Hex registry path sha256] := by
    rw [h.identities, List.map_append]
    rfl
  have hsublist : (kept.map Prod.fst).Sublist (registry.identities.map Prod.fst) :=
    h.suffix.sublist.map _
  refine ⟨h.order, ?_, ?_, ?_, ?_⟩
  · rw [hkeys]
    refine List.Nodup.append (hok.distinct.sublist hsublist) (by simp) ?_
    simpa using fun hmem => hfresh (hsublist.subset hmem)
  · rw [h.identities, h.limit]
    simpa using h.room
  · intro entry hmem
    rw [handleOf, h.fingerprint]
    rw [h.identities] at hmem
    rcases List.mem_append.mp hmem with hmem | hmem
    · exact hok.tracked entry (h.suffix.subset hmem)
    · rw [List.mem_singleton.mp hmem]
      exact ⟨rfl, rfl, hasked⟩
  · intro other bound hbound
    rw [h.identities]
    by_cases hother : other = path
    · subst hother
      rw [h.current, Option.some.injEq] at hbound
      exact ⟨_, List.mem_append_right _ (List.mem_singleton_self _), hbound, rfl⟩
    · obtain ⟨hold, hmem⟩ := h.others other bound hother hbound
      obtain ⟨entry, hentry, rfl⟩ := List.mem_map.mp hmem
      obtain ⟨old, hin, hkey, hpath⟩ := hok.bound other entry.1 hold
      have hsame : old = entry :=
        List.inj_on_of_nodup_map hok.distinct hin (h.suffix.subset hentry) hkey
      exact ⟨entry, List.mem_append_left _ hentry, rfl, hsame ▸ hpath⟩

theorem issue_existing (hok : Aligned sha256Hex states registry) (path sha256 existing : Text)
    (h : registry.existingFor path sha256 = some existing) :
    registry.issue sha256Hex path sha256 = (existing, registry) ∧
      registry.currentRevision path = some existing ∧
      registry.resolve existing = some ⟨registry.workspaceFingerprint, path, sha256⟩ := by
  obtain ⟨hbound, hmem⟩ := existing_entry hok path sha256 existing h
  refine ⟨?_, hbound, resolve_entry hok _ hmem⟩
  rw [issue, h]

theorem issue_new (path sha256 : Text) (h : registry.existingFor path sha256 = none) :
    registry.issue sha256Hex path sha256 =
      (handleOf sha256Hex registry path sha256,
        (registry.track (handleOf sha256Hex registry path sha256) path sha256).evictIfNeeded) := by
  rw [issue, h]

theorem issue_untracked (hok : Aligned sha256Hex states registry) (path sha256 : Text)
    (hasked : (path, sha256) ∈ states)
    (h : Untracked sha256Hex registry (.issue path sha256)) :
    Answers sha256Hex registry (.issue path sha256) ∧
      Aligned sha256Hex states (registry.issue sha256Hex path sha256).2 := by
  rw [Answers]
  cases hexisting : registry.existingFor path sha256 with
  | some existing =>
    obtain ⟨hissue, hcurrent, hresolve⟩ := issue_existing hok path sha256 existing hexisting
    rw [hissue]
    exact ⟨⟨hcurrent, hresolve⟩, hok⟩
  | none =>
    have hfresh : handleOf sha256Hex registry path sha256 ∉
        registry.identities.map Prod.fst := by
      rcases h with h | h
      · rw [hexisting] at h
        cases h
      · exact h
    obtain ⟨kept, hkept⟩ := track_kept hok _ path sha256 hfresh
    have hafter := hkept.aligned hok hasked hfresh
    rw [issue_new path sha256 hexisting]
    refine ⟨⟨hkept.current, ?_⟩, hafter⟩
    refine resolve_entry hafter (registry.issuedEntry _ path sha256) ?_
    rw [hkept.identities]
    simp

theorem track_again (hok : Aligned sha256Hex states registry)
    (hfree : CollisionFree sha256Hex registry.workspaceFingerprint states) (path sha256 : Text)
    (hasked : (path, sha256) ∈ states)
    (htracked : handleOf sha256Hex registry path sha256 ∈ registry.identities.map Prod.fst) :
    let after :=
      (registry.track (handleOf sha256Hex registry path sha256) path sha256).evictIfNeeded
    ¬(after.identities.map Prod.fst).Nodup ∨ after.currentRevision path = none := by
  intro after
  set handle := handleOf sha256Hex registry path sha256 with hhandle
  by_cases hroom : registry.identities.length + 1 ≤ registry.maxEntries
  · refine .inl fun hnodup => ?_
    rw [(track_room hok handle path sha256 hroom).identities, List.map_append,
      List.nodup_append'] at hnodup
    exact hnodup.2.2 htracked (by simp [issuedEntry])
  · obtain ⟨oldest, kept, hids⟩ : ∃ oldest kept, registry.identities = oldest :: kept := by
      cases hids : registry.identities with
      | nil => simp [hids] at htracked
      | cons oldest kept => exact ⟨oldest, kept, rfl⟩
    have hfull : kept.length + 1 = registry.maxEntries := by
      have hbounded := hok.bounded
      rw [hids, List.length_cons] at hbounded hroom
      omega
    have hone := evict_oldest registry.maxEntries oldest
      (kept ++ [registry.issuedEntry handle path sha256]) (registry.byPath.insert path handle)
      (by simpa using hfull)
    have hafter := @track_evicted registry handle path sha256
      ⟨(kept ++ [registry.issuedEntry handle path sha256]).map Prod.fst,
        kept ++ [registry.issuedEntry handle path sha256],
        (registry.byPath.insert path handle).release oldest.2.path oldest.1⟩
      (by
        rw [← hone, hok.order, hids]
        simp [issuedEntry])
    by_cases holdest : oldest.1 = handle
    · right
      have hpath : oldest.2.path = path := by
        rw [entries_agree hok hfree oldest (by simp [hids]) path sha256 hasked holdest]
      rw [show after = _ from hafter, currentRevision, Option.eq_none_iff_forall_ne_some]
      intro bound hbound
      obtain ⟨hinsert, hnot⟩ := (Bindings.release_some _ _ _ _ _).mp hbound
      rw [Bindings.insert_self, Option.some.injEq] at hinsert
      exact hnot ⟨hpath.symm, hinsert.symm.trans holdest.symm⟩
    · left
      rw [show after = _ from hafter, List.map_append, List.nodup_append']
      intro hnodup
      have hkept : handle ∈ kept.map Prod.fst := by
        rw [hids, List.map_cons] at htracked
        exact (List.mem_cons.mp htracked).resolve_left (Ne.symm holdest)
      exact hnodup.2.2 hkept (by simp [issuedEntry])

theorem step_aligned (hok : Aligned sha256Hex states registry) (call : RegistryCall)
    (hasked : ∀ state ∈ issuedStates [call], state ∈ states)
    (h : Untracked sha256Hex registry call) :
    Answers sha256Hex registry call ∧ Aligned sha256Hex states (perform sha256Hex registry call) := by
  cases call with
  | issue path sha256 =>
    exact issue_untracked hok path sha256 (hasked _ (by simp [issuedStates])) h
  | invalidatePath path =>
    refine ⟨trivial, { hok with bound := ?_ }⟩
    intro other bound hbound
    exact hok.bound other bound ((Bindings.remove_some _ _ _ _).mp hbound).2
  | observeRead path revision mode => exact ⟨trivial, { hok with }⟩
  | clear =>
    exact ⟨trivial, rfl, List.nodup_nil, Nat.zero_le _, by simp [perform, clear],
      by simp [perform, clear, Bindings.empty]⟩

theorem step_breaks (hok : Aligned sha256Hex states registry)
    (hfree : CollisionFree sha256Hex registry.workspaceFingerprint states) (call : RegistryCall)
    (hasked : ∀ state ∈ issuedStates [call], state ∈ states)
    (h : ¬Untracked sha256Hex registry call) (hanswers : Answers sha256Hex registry call) :
    ¬Consistent (perform sha256Hex registry call) := by
  cases call with
  | issue path sha256 =>
    rw [Untracked, not_or, Option.not_isSome_iff_eq_none, not_not] at h
    have hagain := track_again hok hfree path sha256 (hasked _ (by simp [issuedStates])) h.2
    have hissue := @issue_new sha256Hex registry path sha256 h.1
    rw [Answers, hissue] at hanswers
    intro hconsistent
    rw [perform, hissue] at hconsistent
    rcases hagain with hagain | hagain
    · exact hagain hconsistent.distinct
    · rw [hagain] at hanswers
      cases hanswers.1
  | invalidatePath path => exact absurd trivial h
  | observeRead path revision mode => exact absurd trivial h
  | clear => exact absurd trivial h

theorem perform_fingerprint (sha256Hex : Text → Text) (registry : WorkspaceRevisionRegistry)
    (call : RegistryCall) :
    (perform sha256Hex registry call).workspaceFingerprint = registry.workspaceFingerprint := by
  cases call with
  | issue path sha256 =>
    rw [perform, issue]
    split <;> rfl
  | invalidatePath path => rfl
  | observeRead path revision mode => rfl
  | clear => rfl

theorem run_holds_consistent (sha256Hex : Text → Text) (calls : List RegistryCall)
    (registry : WorkspaceRevisionRegistry) (h : RunHolds sha256Hex registry calls) :
    Consistent registry := by
  cases calls with
  | nil => exact h
  | cons call calls => exact h.1

theorem aligned_run_iff (hok : Aligned sha256Hex states registry)
    (hfree : CollisionFree sha256Hex registry.workspaceFingerprint states)
    (calls : List RegistryCall) (hasked : ∀ state ∈ issuedStates calls, state ∈ states) :
    RunHolds sha256Hex registry calls ↔ RunUntracked sha256Hex registry calls := by
  induction calls generalizing registry with
  | nil => exact ⟨fun _ => trivial, fun _ => hok.consistent⟩
  | cons call calls ih =>
    have hfirst : ∀ state ∈ issuedStates [call], state ∈ states := by
      intro state hstate
      apply hasked
      cases call <;> simp_all [issuedStates]
    have hrest : ∀ state ∈ issuedStates calls, state ∈ states := by
      intro state hstate
      apply hasked
      cases call <;> simp_all [issuedStates]
    rw [RunHolds, RunUntracked]
    by_cases h : Untracked sha256Hex registry call
    · obtain ⟨hanswers, hafter⟩ := step_aligned hok call hfirst h
      have hrun := ih hafter (by rwa [perform_fingerprint]) hrest
      exact ⟨fun hholds => ⟨h, hrun.mp hholds.2.2⟩,
        fun huntracked => ⟨hok.consistent, hanswers, hrun.mpr huntracked.2⟩⟩
    · refine ⟨fun hholds => ?_, fun huntracked => absurd huntracked.1 h⟩
      exact absurd (run_holds_consistent sha256Hex calls _ hholds.2.2)
        (step_breaks hok hfree call hfirst h hholds.2.1)

/-- The registry answers every issue and stays consistent exactly in the runs that never
ask again for a tracked state that is no longer its path's current one. -/
theorem registry_contract_iff (sha256Hex : Text → Text)
    (options : WorkspaceRevisionRegistryOptions) (registry : WorkspaceRevisionRegistry)
    (hnew : new options = .ok registry) (calls : List RegistryCall)
    (hfree : CollisionFree sha256Hex registry.workspaceFingerprint (issuedStates calls)) :
    RunHolds sha256Hex registry calls ↔ RunUntracked sha256Hex registry calls :=
  aligned_run_iff (aligned_new sha256Hex options registry _ hnew) hfree calls fun _ h => h

def playerGd : Text := "player.gd"

def healthGd : Text := "health.gd"

def oneEntry : WorkspaceRevisionRegistry :=
  { workspaceFingerprint := "ws-A"
    maxEntries := 1
    positive := Nat.le_refl 1
    byPath := .empty
    identities := []
    order := []
    observed := []
    clock := 0 }

def playerDigest : Text := "4a3528a7565c946e75ce0d99a10d85e26e2ff9613d8c64df7d82eef67d6ccf1b"

def healthDigest : Text := "7d2f9bd68a5a42658a7fbd8b548730ed047ad3e1bb11319e40274099b61b2874"

/-- SHA-256 on the identity tuples of the two files below. -/
def tupleDigest (tuple : Text) : Text :=
  if (tuple.drop 9).take 9 = playerGd then playerDigest else healthDigest

theorem registry_contract_two_files :
    RunHolds tupleDigest oneEntry [.issue playerGd "aaaa", .issue healthGd "bbbb"] ∧
      (RunHolds tupleDigest oneEntry [.issue playerGd "aaaa", .issue healthGd "bbbb"] ↔
        RunUntracked tupleDigest oneEntry [.issue playerGd "aaaa", .issue healthGd "bbbb"]) := by
  have hiff := registry_contract_iff tupleDigest ⟨"ws-A", some 1⟩ oneEntry rfl
    [.issue playerGd "aaaa", .issue healthGd "bbbb"] (by
      intro s hs t ht
      simp only [issuedStates, List.mem_cons, List.not_mem_nil, or_false] at hs ht
      rcases hs with rfl | rfl <;> rcases ht with rfl | rfl <;> decide)
  refine ⟨hiff.mpr ⟨.inr ?_, .inr ?_, trivial⟩, hiff⟩ <;> decide

/-- With room for one entry, a path is invalidated and the same state is observed again: its
handle is tracked twice, and evicting the old entry unbinds the handle just issued. -/
theorem registry_contract_fails :
    ¬∀ (sha256Hex : Text → Text) (options : WorkspaceRevisionRegistryOptions)
      (registry : WorkspaceRevisionRegistry) (calls : List RegistryCall),
      new options = .ok registry →
      CollisionFree sha256Hex registry.workspaceFingerprint (issuedStates calls) →
      RunHolds sha256Hex registry calls := by
  intro hclaim
  have hrun := hclaim (fun _ => playerDigest) ⟨"ws-A", some 1⟩ oneEntry
    [.issue playerGd "aaaa", .invalidatePath playerGd, .issue playerGd "aaaa"] rfl (by
      intro s hs t ht _
      simp only [issuedStates, List.mem_cons, List.not_mem_nil, or_false, or_self] at hs ht
      rw [hs, ht])
  have hcurrent := hrun.2.2.2.2.2.1.1
  exact absurd hcurrent (by decide)

end Siralos.Revision
