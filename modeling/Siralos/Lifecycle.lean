import Siralos.Capability
import Mathlib.Data.List.Range

/-!
# Module lifecycle

Installation, enablement and activation of one module slot. An activation is prepared
against one state of a slot and committed later, possibly on another slot: the generation
and the package binding are what the commit checks again.
-/

set_option autoImplicit false

namespace Siralos.Lifecycle
open Capability

inductive RuntimeCheckResult where
  | ready
  | resourceExceeded (kind : ResourceExceededKind)
  | unavailable
  deriving DecidableEq, Repr

structure ActivationRequest where
  packageId : ModulePackageId
  digest : PackageDigest
  abi : ModuleAbi
  capabilities : CapabilityRequest
  deriving DecidableEq

structure ActivationBinding where
  packageId : ModulePackageId
  digest : PackageDigest
  abi : ModuleAbi
  deriving DecidableEq

def ActivationBinding.fromRequest (request : ActivationRequest) : ActivationBinding :=
  ⟨request.packageId, request.digest, request.abi⟩

def ActivationBinding.matches (binding : ActivationBinding) (package : ModulePackage) : Bool :=
  decide (binding.packageId = package.id) && decide (binding.digest = package.digest) &&
    decide (binding.abi = package.abi)

structure ActiveModule where
  sessionId : ℕ
  binding : ActivationBinding
  grant : CapabilityGrant
  deriving DecidableEq

structure PreparedActivation where
  generation : ℕ
  binding : ActivationBinding
  requested : CapabilityRequest
  provisionalGrant : CapabilityGrant
  deriving DecidableEq

inductive ModuleState where
  | absent
  | installed (package : ModulePackage)
  | enabled (package : ModulePackage)
  | active (package : ModulePackage) (active : ActiveModule)
  deriving DecidableEq

structure ModuleLifecycle where
  state : ModuleState
  nextSession : ℕ
  generation : ℕ
  deriving DecidableEq

def undeclaredCapabilities (request : CapabilityRequest) (package : ModulePackage) :
    List CapabilityId :=
  request.ids.missing package.requestedCapabilities.ids

namespace ModuleLifecycle

def new : ModuleLifecycle := ⟨.absent, 1, 0⟩

/-- A successful transition: the new state, one generation on. -/
def enter (lifecycle : ModuleLifecycle) (state : ModuleState) : ModuleLifecycle :=
  { lifecycle with state := state, generation := lifecycle.generation + 1 }

def install (lifecycle : ModuleLifecycle) (package : ModulePackage) :
    Except ModuleFailure Unit × ModuleLifecycle :=
  let occupied (existing : ModulePackage) :=
    if existing = package then (.error .alreadyInstalled, lifecycle)
    else (.error (.identityMismatch "a different package is installed; uninstall first"),
      lifecycle)
  match lifecycle.state with
  | .absent => (.ok (), lifecycle.enter (.installed package))
  | .installed existing => occupied existing
  | .enabled existing => occupied existing
  | .active existing _ => occupied existing

/-- The operations below take the state out and put it back where they refuse. -/
def putBack (lifecycle : ModuleLifecycle) (other : ModuleState) : ModuleLifecycle :=
  { lifecycle with state := other }

def uninstall (lifecycle : ModuleLifecycle) : Except ModuleFailure Unit × ModuleLifecycle :=
  match lifecycle.state with
  | .absent => (.error .notInstalled, lifecycle.putBack .absent)
  | .installed _ => (.ok (), lifecycle.enter .absent)
  | .enabled _ => (.ok (), lifecycle.enter .absent)
  | other => (.error .active, lifecycle.putBack other)

def enable (lifecycle : ModuleLifecycle) : Except ModuleFailure Unit × ModuleLifecycle :=
  match lifecycle.state with
  | .absent => (.error .notInstalled, lifecycle.putBack .absent)
  | .installed package => (.ok (), lifecycle.enter (.enabled package))
  | other => (.error .alreadyEnabled, lifecycle.putBack other)

def disable (lifecycle : ModuleLifecycle) : Except ModuleFailure Unit × ModuleLifecycle :=
  match lifecycle.state with
  | .absent => (.error .notInstalled, lifecycle.putBack .absent)
  | .enabled package => (.ok (), lifecycle.enter (.installed package))
  | .installed package => (.error .alreadyDisabled, lifecycle.putBack (.installed package))
  | other => (.error .active, lifecycle.putBack other)

def deactivate (lifecycle : ModuleLifecycle) : Except ModuleFailure Unit × ModuleLifecycle :=
  match lifecycle.state with
  | .active package _ => (.ok (), lifecycle.enter (.enabled package))
  | other => (.error .notActive, lifecycle.putBack other)

def runtimeFailure : RuntimeCheckResult → Option ModuleFailure
  | .ready => none
  | .resourceExceeded kind => some (.resourceExceeded kind)
  | .unavailable => some (.unavailable "module runtime is unavailable")

def prepareActivation (lifecycle : ModuleLifecycle) (request : ActivationRequest)
    (supportedAbi : ModuleAbi) (authority : HostAuthority) (runtime : RuntimeCheckResult) :
    Except ModuleFailure PreparedActivation :=
  match lifecycle.state with
  | .absent => .error .notInstalled
  | .installed _ => .error .disabled
  | .active _ _ => .error .active
  | .enabled package =>
    if request.packageId ≠ package.id then
      .error (.identityMismatch "requested package id does not match the installed package")
    else if request.digest ≠ package.digest then
      .error (.identityMismatch "requested digest does not match the installed package")
    else if !request.abi.isCompatibleWith package.abi then
      .error (.identityMismatch "requested ABI does not match the installed package ABI")
    else if !request.abi.isCompatibleWith supportedAbi then
      .error (.unsupportedAbi supportedAbi.value request.abi.value)
    else if undeclaredCapabilities request.capabilities package ≠ [] then
      .error (.undeclaredCapability (undeclaredCapabilities request.capabilities package))
    else match decideGrant request.capabilities authority with
      | .denied missing => .error (.capabilityDenied missing)
      | .granted grant =>
        match runtimeFailure runtime with
        | some failure => .error failure
        | none =>
          .ok { generation := lifecycle.generation
                binding := .fromRequest request
                requested := request.capabilities
                provisionalGrant := grant }

/-- The checks of `commit_activation`: the package it binds and the grant it makes. -/
def commitChecks (lifecycle : ModuleLifecycle) (prepared : PreparedActivation)
    (supportedAbi : ModuleAbi) (authority : HostAuthority) (runtime : RuntimeCheckResult) :
    Except ModuleFailure (ModulePackage × CapabilityGrant) :=
  if prepared.generation ≠ lifecycle.generation then .error .staleActivation
  else match lifecycle.state with
    | .enabled package =>
      if !prepared.binding.matches package then .error .staleActivation
      else if !prepared.binding.abi.isCompatibleWith supportedAbi then
        .error (.unsupportedAbi supportedAbi.value prepared.binding.abi.value)
      else match decideGrant prepared.requested authority with
        | .denied missing => .error (.capabilityDenied missing)
        | .granted grant =>
          match runtimeFailure runtime with
          | some failure => .error failure
          | none => .ok (package, grant)
    | _ => .error .staleActivation

def activeModule (lifecycle : ModuleLifecycle) (prepared : PreparedActivation)
    (grant : CapabilityGrant) : ActiveModule :=
  { sessionId := lifecycle.nextSession, binding := prepared.binding, grant := grant }

def publish (lifecycle : ModuleLifecycle) (package : ModulePackage) (active : ActiveModule) :
    ModuleLifecycle :=
  { state := .active package active
    nextSession := lifecycle.nextSession + 1
    generation := lifecycle.generation + 1 }

def commitActivation (lifecycle : ModuleLifecycle) (prepared : PreparedActivation)
    (supportedAbi : ModuleAbi) (authority : HostAuthority) (runtime : RuntimeCheckResult) :
    Except ModuleFailure ActiveModule × ModuleLifecycle :=
  match lifecycle.commitChecks prepared supportedAbi authority runtime with
  | .error failure => (.error failure, lifecycle)
  | .ok (package, grant) =>
    let active := lifecycle.activeModule prepared grant
    (.ok active, lifecycle.publish package active)

def activate (lifecycle : ModuleLifecycle) (request : ActivationRequest)
    (supportedAbi : ModuleAbi) (authority : HostAuthority) (runtime : RuntimeCheckResult) :
    Except ModuleFailure ActiveModule × ModuleLifecycle :=
  match lifecycle.prepareActivation request supportedAbi authority runtime with
  | .error failure => (.error failure, lifecycle)
  | .ok prepared => lifecycle.commitActivation prepared supportedAbi authority runtime

end ModuleLifecycle

open ModuleLifecycle

inductive LifecycleCall where
  | install (package : ModulePackage)
  | uninstall
  | enable
  | disable
  | prepareActivation (request : ActivationRequest) (supportedAbi : ModuleAbi)
      (authority : HostAuthority) (runtime : RuntimeCheckResult)
  | commitActivation (prepared : PreparedActivation) (supportedAbi : ModuleAbi)
      (authority : HostAuthority) (runtime : RuntimeCheckResult)
  | activate (request : ActivationRequest) (supportedAbi : ModuleAbi)
      (authority : HostAuthority) (runtime : RuntimeCheckResult)
  | deactivate

inductive Reply where
  | done
  | prepared (token : PreparedActivation)
  | activated (active : ActiveModule)

/-- A lifecycle with the authority passed to each successful commit on it and the module the
commit published. -/
structure Slot where
  lifecycle : ModuleLifecycle
  commits : List (HostAuthority × ActiveModule)

def Slot.new : Slot := ⟨.new, []⟩

def Slot.moved (slot : Slot) (result : Except ModuleFailure Unit × ModuleLifecycle) :
    Except ModuleFailure Reply × Slot :=
  (result.1.map fun _ => .done, { slot with lifecycle := result.2 })

def Slot.committed (slot : Slot) (authority : HostAuthority)
    (result : Except ModuleFailure ActiveModule × ModuleLifecycle) :
    Except ModuleFailure Reply × Slot :=
  match result.1 with
  | .error failure => (.error failure, { slot with lifecycle := result.2 })
  | .ok active =>
    (.ok (.activated active), ⟨result.2, slot.commits ++ [(authority, active)]⟩)

def perform (slot : Slot) : LifecycleCall → Except ModuleFailure Reply × Slot
  | .install package => slot.moved (slot.lifecycle.install package)
  | .uninstall => slot.moved slot.lifecycle.uninstall
  | .enable => slot.moved slot.lifecycle.enable
  | .disable => slot.moved slot.lifecycle.disable
  | .prepareActivation request supportedAbi authority runtime =>
    ((slot.lifecycle.prepareActivation request supportedAbi authority runtime).map .prepared,
      slot)
  | .commitActivation prepared supportedAbi authority runtime =>
    slot.committed authority
      (slot.lifecycle.commitActivation prepared supportedAbi authority runtime)
  | .activate request supportedAbi authority runtime =>
    slot.committed authority (slot.lifecycle.activate request supportedAbi authority runtime)
  | .deactivate => slot.moved slot.lifecycle.deactivate

/-- While a module is active it is bound to the installed package, and its grant is within
the authority of the commit and the package's declaration. -/
structure Contained (slot : Slot) : Prop where
  bound : ∀ package active, slot.lifecycle.state = .active package active →
    active.binding.matches package = true
  authorized : ∀ package active, slot.lifecycle.state = .active package active →
    ∃ authority, slot.commits.getLast? = some (authority, active) ∧
      active.grant.ids.Within authority.ids
  declared : ∀ package active, slot.lifecycle.state = .active package active →
    active.grant.ids.Within package.requestedCapabilities.ids
  sessions : slot.commits.map (fun commit => commit.2.sessionId) =
    List.range' 1 slot.commits.length

/-- What one call does to the counters: nothing when it fails or only prepares. -/
def StepLaw (slot : Slot) (call : LifecycleCall) : Prop :=
  let after := (perform slot call).2
  match (perform slot call).1 with
  | .error _ => after = slot
  | .ok (.prepared _) => after = slot
  | .ok .done =>
    after.lifecycle.generation = slot.lifecycle.generation + 1 ∧
      after.lifecycle.nextSession = slot.lifecycle.nextSession ∧ after.commits = slot.commits
  | .ok (.activated active) =>
    after.lifecycle.generation = slot.lifecycle.generation + 1 ∧
      after.lifecycle.nextSession = slot.lifecycle.nextSession + 1 ∧
      active.sessionId = slot.lifecycle.nextSession ∧
      after.commits.map Prod.snd = slot.commits.map Prod.snd ++ [active]

/-- A commit that meets every check asks only for what the enabled package declares. -/
def Declared (slot : Slot) : LifecycleCall → Prop
  | .commitActivation prepared supportedAbi authority runtime =>
    ∀ package, slot.lifecycle.state = .enabled package →
      prepared.generation = slot.lifecycle.generation →
      prepared.binding.matches package = true → prepared.binding.abi = supportedAbi →
      prepared.requested.ids.Within authority.ids → runtime = .ready →
      prepared.requested.ids.Within package.requestedCapabilities.ids
  | _ => True

abbrev Family (ι : Type) := ι → Slot

def Family.new (ι : Type) : Family ι := fun _ => .new

section Runs

variable {ι : Type} [DecidableEq ι]

def Family.perform (family : Family ι) (call : ι × LifecycleCall) : Family ι :=
  Function.update family call.1 (Lifecycle.perform (family call.1) call.2).2

def RunHolds : Family ι → List (ι × LifecycleCall) → Prop
  | family, [] => ∀ i, Contained (family i)
  | family, call :: calls =>
    (∀ i, Contained (family i)) ∧ StepLaw (family call.1) call.2 ∧
      RunHolds (family.perform call) calls

def RunDeclared : Family ι → List (ι × LifecycleCall) → Prop
  | _, [] => True
  | family, call :: calls =>
    Declared (family call.1) call.2 ∧ RunDeclared (family.perform call) calls

/-- Every committed token was prepared earlier in the run, on any of its lifecycles. -/
def TokensKept : Family ι → List PreparedActivation → List (ι × LifecycleCall) → Prop
  | _, _, [] => True
  | family, kept, call :: calls =>
    (∀ prepared supportedAbi authority runtime,
      call.2 = .commitActivation prepared supportedAbi authority runtime → prepared ∈ kept) ∧
    TokensKept (family.perform call)
      (match (Lifecycle.perform (family call.1) call.2).1 with
        | .ok (.prepared token) => token :: kept
        | _ => kept)
      calls

end Runs

inductive Moved (slot : Slot) (call : LifecycleCall) : Except ModuleFailure Reply × Slot → Prop
  | refused (failure : ModuleFailure) : Moved slot call (.error failure, slot)
  | prepared (token : PreparedActivation) : Moved slot call (.ok (.prepared token), slot)
  | entered (state : ModuleState) (inactive : ∀ package active, state ≠ .active package active) :
    Moved slot call (.ok .done, { slot with lifecycle := slot.lifecycle.enter state })
  | activated (prepared : PreparedActivation) (supportedAbi : ModuleAbi)
      (authority : HostAuthority) (runtime : RuntimeCheckResult) (package : ModulePackage)
      (grant : CapabilityGrant)
      (checked : slot.lifecycle.commitChecks prepared supportedAbi authority runtime =
        .ok (package, grant))
      (source : call = .commitActivation prepared supportedAbi authority runtime ∨
        prepared.requested.ids.Within package.requestedCapabilities.ids ∧
          ∀ token supportedAbi authority runtime,
            call ≠ .commitActivation token supportedAbi authority runtime) :
    Moved slot call (.ok (.activated (slot.lifecycle.activeModule prepared grant)),
      ⟨slot.lifecycle.publish package (slot.lifecycle.activeModule prepared grant),
        slot.commits ++ [(authority, slot.lifecycle.activeModule prepared grant)]⟩)

@[simp] theorem put_back_self (lifecycle : ModuleLifecycle) :
    lifecycle.putBack lifecycle.state = lifecycle := rfl

theorem put_back_eq (lifecycle : ModuleLifecycle) (state : ModuleState)
    (h : lifecycle.state = state) : lifecycle.putBack state = lifecycle := by
  rw [← h, put_back_self]

theorem moved_refused (slot : Slot) (call : LifecycleCall) (failure : ModuleFailure)
    (lifecycle : ModuleLifecycle) (h : lifecycle = slot.lifecycle) :
    Moved slot call (slot.moved (.error failure, lifecycle)) := by
  subst h
  exact .refused failure

theorem moved_entered (slot : Slot) (call : LifecycleCall) (state : ModuleState)
    (inactive : ∀ package active, state ≠ .active package active) :
    Moved slot call (slot.moved (.ok (), slot.lifecycle.enter state)) :=
  .entered state inactive

theorem commit_checks_iff (lifecycle : ModuleLifecycle) (prepared : PreparedActivation)
    (supportedAbi : ModuleAbi) (authority : HostAuthority) (runtime : RuntimeCheckResult)
    (package : ModulePackage) (grant : CapabilityGrant) :
    lifecycle.commitChecks prepared supportedAbi authority runtime = .ok (package, grant) ↔
      prepared.generation = lifecycle.generation ∧ lifecycle.state = .enabled package ∧
        prepared.binding.matches package = true ∧ prepared.binding.abi = supportedAbi ∧
        prepared.requested.ids.Within authority.ids ∧ runtime = .ready ∧
        grant.ids = prepared.requested.ids := by
  rw [commitChecks]
  by_cases hgeneration : prepared.generation = lifecycle.generation
  · rw [if_neg (not_not.mpr hgeneration)]
    cases hstate : lifecycle.state with
    | enabled current =>
      by_cases hmatches : prepared.binding.matches current = true
      · by_cases habi : prepared.binding.abi = supportedAbi
        · have hcompatible := (ModuleAbi.compatible_iff _ _).mpr habi
          simp only [hmatches, hcompatible, Bool.not_true, Bool.false_eq_true, if_false]
          cases hgrant : decideGrant prepared.requested authority with
          | denied missing =>
            have hdenied : ¬prepared.requested.ids.Within authority.ids := by
              intro hwithin
              have := (decide_grant_iff prepared.requested authority
                ⟨prepared.requested.ids⟩).mpr ⟨hwithin, rfl⟩
              rw [hgrant] at this
              cases this
            simp [hdenied]
          | granted granted =>
            obtain ⟨hwithin, hids⟩ := (decide_grant_iff _ _ _).mp hgrant
            cases runtime with
            | ready =>
              cases grant
              cases granted
              simp_all [runtimeFailure]
              grind
            | resourceExceeded kind => simp [runtimeFailure]
            | unavailable => simp [runtimeFailure]
        · have hincompatible : prepared.binding.abi.isCompatibleWith supportedAbi = false := by
            rw [← Bool.not_eq_true, ModuleAbi.compatible_iff]
            exact habi
          simp [hmatches, hincompatible, habi]
      · simp only [hmatches, Bool.not_false, if_true, reduceCtorEq, false_iff]
        rintro ⟨-, heq, hm, -⟩
        cases heq
        exact hmatches hm
    | absent => simp
    | installed current => simp
    | active current active => simp
  · rw [if_pos hgeneration]
    simp [hgeneration]

theorem prepared_declared (lifecycle : ModuleLifecycle) (request : ActivationRequest)
    (supportedAbi : ModuleAbi) (authority : HostAuthority) (runtime : RuntimeCheckResult)
    (prepared : PreparedActivation)
    (h : lifecycle.prepareActivation request supportedAbi authority runtime = .ok prepared) :
    ∃ package, lifecycle.state = .enabled package ∧
      prepared.requested.ids.Within package.requestedCapabilities.ids := by
  unfold prepareActivation at h
  split at h
  · cases h
  · cases h
  · cases h
  · rename_i package hstate
    refine ⟨package, hstate, ?_⟩
    split at h
    · cases h
    split at h
    · cases h
    split at h
    · cases h
    split at h
    · cases h
    split at h
    · cases h
    · rename_i hdeclared
      split at h
      · cases h
      · split at h
        · cases h
        · cases h
          exact (CapabilitySet.missing_eq_nil _ _).mp (not_not.mp hdeclared)

theorem commit_moved (slot : Slot) (call : LifecycleCall) (prepared : PreparedActivation)
    (supportedAbi : ModuleAbi) (authority : HostAuthority) (runtime : RuntimeCheckResult)
    (source : ∀ package grant,
      slot.lifecycle.commitChecks prepared supportedAbi authority runtime =
        .ok (package, grant) →
      call = .commitActivation prepared supportedAbi authority runtime ∨
        prepared.requested.ids.Within package.requestedCapabilities.ids ∧
          ∀ token supportedAbi authority runtime,
            call ≠ .commitActivation token supportedAbi authority runtime) :
    Moved slot call (slot.committed authority
      (slot.lifecycle.commitActivation prepared supportedAbi authority runtime)) := by
  rw [commitActivation]
  cases hchecked : slot.lifecycle.commitChecks prepared supportedAbi authority runtime with
  | error failure => exact .refused failure
  | ok bound =>
    exact .activated prepared supportedAbi authority runtime bound.1 bound.2 hchecked
      (source bound.1 bound.2 hchecked)

theorem perform_moved (slot : Slot) (call : LifecycleCall) :
    Moved slot call (perform slot call) := by
  cases call with
  | install package =>
    rw [perform, install]
    cases hstate : slot.lifecycle.state with
    | absent => exact moved_entered slot _ _ (by simp)
    | installed existing =>
      simp only
      split <;> exact .refused _
    | enabled existing =>
      simp only
      split <;> exact .refused _
    | active existing active =>
      simp only
      split <;> exact .refused _
  | uninstall =>
    rw [perform, uninstall]
    cases hstate : slot.lifecycle.state with
    | absent => exact moved_refused slot _ _ _ (put_back_eq _ _ hstate)
    | installed package => exact moved_entered slot _ _ (by simp)
    | enabled package => exact moved_entered slot _ _ (by simp)
    | active package active => exact moved_refused slot _ _ _ (put_back_eq _ _ hstate)
  | enable =>
    rw [perform, enable]
    cases hstate : slot.lifecycle.state with
    | absent => exact moved_refused slot _ _ _ (put_back_eq _ _ hstate)
    | installed package => exact moved_entered slot _ _ (by simp)
    | enabled package => exact moved_refused slot _ _ _ (put_back_eq _ _ hstate)
    | active package active => exact moved_refused slot _ _ _ (put_back_eq _ _ hstate)
  | disable =>
    rw [perform, disable]
    cases hstate : slot.lifecycle.state with
    | absent => exact moved_refused slot _ _ _ (put_back_eq _ _ hstate)
    | installed package => exact moved_refused slot _ _ _ (put_back_eq _ _ hstate)
    | enabled package => exact moved_entered slot _ _ (by simp)
    | active package active => exact moved_refused slot _ _ _ (put_back_eq _ _ hstate)
  | prepareActivation request supportedAbi authority runtime =>
    rw [perform]
    cases slot.lifecycle.prepareActivation request supportedAbi authority runtime with
    | error failure => exact .refused failure
    | ok token => exact .prepared token
  | commitActivation prepared supportedAbi authority runtime =>
    exact commit_moved slot _ prepared supportedAbi authority runtime fun _ _ _ => .inl rfl
  | activate request supportedAbi authority runtime =>
    rw [perform, activate]
    cases hprepared :
        slot.lifecycle.prepareActivation request supportedAbi authority runtime with
    | error failure => exact .refused failure
    | ok prepared =>
      refine commit_moved slot _ prepared supportedAbi authority runtime ?_
      intro package grant hchecked
      obtain ⟨-, hstate, -⟩ := (commit_checks_iff _ _ _ _ _ _ _).mp hchecked
      obtain ⟨enabled, henabled, hwithin⟩ :=
        prepared_declared _ request supportedAbi authority runtime prepared hprepared
      rw [hstate, ModuleState.enabled.injEq] at henabled
      subst henabled
      exact .inr ⟨hwithin, by simp⟩
  | deactivate =>
    rw [perform, deactivate]
    cases hstate : slot.lifecycle.state with
    | absent => exact moved_refused slot _ _ _ (put_back_eq _ _ hstate)
    | installed package => exact moved_refused slot _ _ _ (put_back_eq _ _ hstate)
    | enabled package => exact moved_refused slot _ _ _ (put_back_eq _ _ hstate)
    | active package active => exact moved_entered slot _ _ (by simp)

theorem step_law (slot : Slot) (call : LifecycleCall) : StepLaw slot call := by
  have hmoved := perform_moved slot call
  rw [StepLaw]
  generalize perform slot call = result at hmoved ⊢
  cases hmoved with
  | refused failure => rfl
  | prepared token => rfl
  | entered state inactive => exact ⟨rfl, rfl, rfl⟩
  | activated prepared supportedAbi authority runtime package grant checked source =>
    exact ⟨rfl, rfl, rfl, by simp⟩

/-- Kept by every call that meets its condition. -/
structure Sound (slot : Slot) : Prop extends Contained slot where
  next : slot.lifecycle.nextSession = slot.commits.length + 1

theorem sound_new : Sound .new :=
  { bound := by intro package active h; cases h
    authorized := by intro package active h; cases h
    declared := by intro package active h; cases h
    sessions := rfl
    next := rfl }

theorem step_sound (slot : Slot) (call : LifecycleCall) (hok : Sound slot)
    (hdeclared : Declared slot call) : Sound (perform slot call).2 := by
  have hmoved := perform_moved slot call
  generalize perform slot call = result at hmoved ⊢
  cases hmoved with
  | refused failure => exact hok
  | prepared token => exact hok
  | entered state inactive =>
    exact
      { bound := fun package active h => absurd h (inactive package active)
        authorized := fun package active h => absurd h (inactive package active)
        declared := fun package active h => absurd h (inactive package active)
        sessions := hok.sessions
        next := hok.next }
  | activated prepared supportedAbi authority runtime package grant checked source =>
    obtain ⟨hgeneration, hstate, hmatches, habi, hwithin, hready, hids⟩ :=
      (commit_checks_iff _ _ _ _ _ _ _).mp checked
    have hasked : prepared.requested.ids.Within package.requestedCapabilities.ids := by
      rcases source with rfl | ⟨hasked, -⟩
      · exact hdeclared package hstate hgeneration hmatches habi hwithin hready
      · exact hasked
    exact
      { bound := by
          intro current active h
          cases h
          exact hmatches
        authorized := by
          intro current active h
          cases h
          refine ⟨authority, List.getLast?_concat, ?_⟩
          simpa [activeModule, hids] using hwithin
        declared := by
          intro current active h
          cases h
          simpa [activeModule, hids] using hasked
        sessions := by
          have hnext := hok.next
          simp only [List.map_append, hok.sessions, List.length_append, List.map_cons,
            List.map_nil, List.length_cons, List.length_nil, activeModule]
          rw [List.range'_concat]
          simp [hnext, Nat.add_comm]
        next := by
          have hnext := hok.next
          simp [publish, hnext] }

theorem step_breaks (slot : Slot) (call : LifecycleCall) (hundeclared : ¬Declared slot call) :
    ¬Contained (perform slot call).2 := by
  cases call with
  | commitActivation prepared supportedAbi authority runtime =>
    simp only [Declared, not_forall] at hundeclared
    obtain ⟨package, hstate, hgeneration, hmatches, habi, hwithin, hready, hbeyond⟩ :=
      hundeclared
    have hchecked : slot.lifecycle.commitChecks prepared supportedAbi authority runtime =
        .ok (package, ⟨prepared.requested.ids⟩) :=
      (commit_checks_iff _ _ _ _ _ _ _).mpr
        ⟨hgeneration, hstate, hmatches, habi, hwithin, hready, rfl⟩
    intro hcontained
    apply hbeyond
    have hafter := hcontained.declared package
      (slot.lifecycle.activeModule prepared ⟨prepared.requested.ids⟩)
    simp only [perform, commitActivation, hchecked, Slot.committed] at hafter
    exact hafter rfl
  | install => exact absurd trivial hundeclared
  | uninstall => exact absurd trivial hundeclared
  | enable => exact absurd trivial hundeclared
  | disable => exact absurd trivial hundeclared
  | prepareActivation => exact absurd trivial hundeclared
  | activate => exact absurd trivial hundeclared
  | deactivate => exact absurd trivial hundeclared

variable {ι : Type} [DecidableEq ι]

theorem perform_sound (family : Family ι) (call : ι × LifecycleCall)
    (hok : ∀ i, Sound (family i)) (hdeclared : Declared (family call.1) call.2) (i : ι) :
    Sound (family.perform call i) := by
  by_cases h : i = call.1
  · subst h
    rw [Family.perform, Function.update_self]
    exact step_sound _ _ (hok _) hdeclared
  · rw [Family.perform, Function.update_of_ne h]
    exact hok i

theorem run_contained (family : Family ι) (calls : List (ι × LifecycleCall))
    (h : RunHolds family calls) (i : ι) : Contained (family i) := by
  cases calls with
  | nil => exact h i
  | cons call calls => exact h.1 i

theorem sound_run_iff (family : Family ι) (calls : List (ι × LifecycleCall))
    (hok : ∀ i, Sound (family i)) : RunHolds family calls ↔ RunDeclared family calls := by
  induction calls generalizing family with
  | nil => exact ⟨fun _ => trivial, fun _ i => (hok i).toContained⟩
  | cons call calls ih =>
    rw [RunHolds, RunDeclared]
    by_cases hdeclared : Declared (family call.1) call.2
    · have hrun := ih (family.perform call) (perform_sound family call hok hdeclared)
      exact ⟨fun hholds => ⟨hdeclared, hrun.mp hholds.2.2⟩,
        fun hrest => ⟨fun i => (hok i).toContained, step_law _ _, hrun.mpr hrest.2⟩⟩
    · refine ⟨fun hholds => ?_, fun hrest => absurd hrest.1 hdeclared⟩
      have hafter := run_contained _ calls hholds.2.2 call.1
      rw [Family.perform, Function.update_self] at hafter
      exact absurd hafter (step_breaks _ _ hdeclared)

/-- The law of the family holds exactly in the runs whose commits ask for nothing the
package they activate does not declare. -/
theorem activation_contained_iff (calls : List (ι × LifecycleCall)) :
    RunHolds (Family.new ι) calls ↔ RunDeclared (Family.new ι) calls :=
  sound_run_iff _ calls fun _ => sound_new

def workspaceRead : CapabilityId := ⟨"workspace-read", by decide⟩

def readRequest : CapabilityRequest := ⟨CapabilitySet.empty.insert workspaceRead⟩

def conformanceDomain : ModulePackageId := ⟨"conformance-domain", by decide⟩

def acceptedDigest : PackageDigest := ⟨List.replicate 64 'a', by decide⟩

def domainAbi : ModuleAbi := ⟨"siralos:domain-abi@1.0.0", by decide⟩

/-- The same component bytes, installed with and without the declared capability. -/
def conformancePackage (requested : CapabilityRequest) : ModulePackage :=
  ⟨conformanceDomain, acceptedDigest, domainAbi, requested⟩

def readActivation : ActivationRequest :=
  ⟨conformanceDomain, acceptedDigest, domainAbi, readRequest⟩

def readAuthority : HostAuthority := ⟨readRequest.ids⟩

def readToken : PreparedActivation :=
  { generation := 2
    binding := .fromRequest readActivation
    requested := readRequest
    provisionalGrant := ⟨readRequest.ids⟩ }

/-- Prepared on a lifecycle whose package declares the capability, committed on one whose
package does not. -/
def foreignCommit : List (Bool × LifecycleCall) :=
  [(false, .install (conformancePackage readRequest)), (false, .enable),
   (false, .prepareActivation readActivation domainAbi readAuthority .ready),
   (true, .install (conformancePackage ⟨.empty⟩)), (true, .enable),
   (true, .commitActivation readToken domainAbi readAuthority .ready)]

theorem foreign_commit_kept : TokensKept (Family.new Bool) [] foreignCommit := by
  refine ⟨by simp, by simp, by simp, by simp, by simp, ?_, trivial⟩
  intro prepared supportedAbi authority runtime h
  cases h
  exact List.mem_cons_self

theorem activation_contained_fails :
    ¬∀ calls : List (Bool × LifecycleCall),
      TokensKept (Family.new Bool) [] calls → RunHolds (Family.new Bool) calls := by
  intro hclaim
  have hdeclared := (sound_run_iff _ _ fun _ => sound_new).mp
    (hclaim foreignCommit foreign_commit_kept)
  have hwithin := hdeclared.2.2.2.2.2.1 (conformancePackage ⟨.empty⟩) rfl rfl (by decide) rfl
    (by decide) rfl
  exact absurd hwithin (by decide)

end Siralos.Lifecycle
