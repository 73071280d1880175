import Siralos.Lifecycle

/-!
# Eligibility

The report of what keeps an activation from being made. It collects its reasons where the
preparation stops at the first failure.
-/

set_option autoImplicit false

namespace Siralos.Lifecycle

open Capability

inductive EligibilityReason where
  | notInstalled
  | disabled
  | identityMismatch
  | unsupportedAbi
  | active
  | capabilityDenied
  | undeclaredCapability
  | resourceExceeded
  | unavailable
  deriving DecidableEq, Repr

def EligibilityReason.code : EligibilityReason → Text
  | .notInstalled => "NOT_INSTALLED"
  | .disabled => "DISABLED"
  | .identityMismatch => "IDENTITY_MISMATCH"
  | .unsupportedAbi => "UNSUPPORTED_ABI"
  | .active => "ACTIVE"
  | .capabilityDenied => "CAPABILITY_DENIED"
  | .undeclaredCapability => "UNDECLARED_CAPABILITY"
  | .resourceExceeded => "RESOURCE_EXCEEDED"
  | .unavailable => "UNAVAILABLE"

def failureCode : ModuleFailure → Text
  | .notInstalled => "NOT_INSTALLED"
  | .disabled => "DISABLED"
  | .alreadyInstalled => "ALREADY_INSTALLED"
  | .alreadyEnabled => "ALREADY_ENABLED"
  | .alreadyDisabled => "ALREADY_DISABLED"
  | .active => "ACTIVE"
  | .notActive => "NOT_ACTIVE"
  | .unsupportedAbi _ _ => "UNSUPPORTED_ABI"
  | .identityMismatch _ => "IDENTITY_MISMATCH"
  | .capabilityDenied _ => "CAPABILITY_DENIED"
  | .undeclaredCapability _ => "UNDECLARED_CAPABILITY"
  | .resourceExceeded _ => "RESOURCE_EXCEEDED"
  | .invalidInput _ => "INVALID_INPUT"
  | .staleActivation => "STALE_ACTIVATION"
  | .unavailable _ => "UNAVAILABLE"

structure Eligibility where
  ready : Bool
  reasons : List EligibilityReason
  deriving DecidableEq, Repr

def runtimeReasons : RuntimeCheckResult → List EligibilityReason
  | .ready => []
  | .resourceExceeded _ => [.resourceExceeded]
  | .unavailable => [.unavailable]

def GrantDecision.isDenied : GrantDecision → Bool
  | .granted _ => false
  | .denied _ => true

def deepReasons (package : ModulePackage) (request : ActivationRequest) (supportedAbi : ModuleAbi)
    (authority : HostAuthority) (runtime : RuntimeCheckResult) : List EligibilityReason :=
  (if request.packageId ≠ package.id ∨ request.digest ≠ package.digest then [.identityMismatch]
    else [] : List EligibilityReason) ++
  (if !request.abi.isCompatibleWith package.abi then [.identityMismatch]
    else [] : List EligibilityReason) ++
  (if !request.abi.isCompatibleWith supportedAbi then [.unsupportedAbi]
    else [] : List EligibilityReason) ++
  (if undeclaredCapabilities request.capabilities package ≠ [] then [.undeclaredCapability]
    else [] : List EligibilityReason) ++
  (if GrantDecision.isDenied (decideGrant request.capabilities authority) then
    [.capabilityDenied] else [] : List EligibilityReason) ++
  runtimeReasons runtime

namespace ModuleLifecycle

def eligibility (lifecycle : ModuleLifecycle) (request : ActivationRequest)
    (supportedAbi : ModuleAbi) (authority : HostAuthority) (runtime : RuntimeCheckResult) :
    Eligibility :=
  let reasons :=
    match lifecycle.state with
    | .absent => [.notInstalled]
    | .installed _ => [.disabled]
    | .active _ _ => [.active]
    | .enabled package => deepReasons package request supportedAbi authority runtime
  ⟨reasons.isEmpty, reasons⟩

end ModuleLifecycle

open ModuleLifecycle

variable (lifecycle : ModuleLifecycle) (request : ActivationRequest) (supportedAbi : ModuleAbi)
  (authority : HostAuthority) (runtime : RuntimeCheckResult)

def preparedToken (grant : CapabilityGrant) : PreparedActivation :=
  { generation := lifecycle.generation
    binding := .fromRequest request
    requested := request.capabilities
    provisionalGrant := grant }

/-- What a request meets when nothing keeps it from being activated. -/
structure Activatable (package : ModulePackage) : Prop where
  packageId : request.packageId = package.id
  digest : request.digest = package.digest
  abi : request.abi = package.abi
  supported : request.abi = supportedAbi
  authorized : request.capabilities.ids.Within authority.ids
  runs : runtime = .ready

theorem prepare_enabled {package : ModulePackage} (hstate : lifecycle.state = .enabled package) :
    (∃ failure,
      lifecycle.prepareActivation request supportedAbi authority runtime = .error failure ∧
      (deepReasons package request supportedAbi authority runtime).head?.map (·.code) =
        some (failureCode failure)) ∨
    ∃ grant, lifecycle.prepareActivation request supportedAbi authority runtime =
        .ok (preparedToken lifecycle request grant) ∧
      deepReasons package request supportedAbi authority runtime = [] ∧
      Activatable request supportedAbi authority runtime package := by
  rw [prepareActivation, hstate, deepReasons]
  by_cases hid : request.packageId = package.id
  swap
  · left
    simp only [ne_eq, hid, not_false_eq_true, true_or, if_true]
    exact ⟨_, rfl, rfl⟩
  by_cases hdigest : request.digest = package.digest
  swap
  · left
    simp only [ne_eq, hid, hdigest, not_false_eq_true, not_true_eq_false, or_true, if_true,
      if_false]
    exact ⟨_, rfl, rfl⟩
  simp only [ne_eq, hid, hdigest, not_true_eq_false, or_self, if_false, List.nil_append]
  by_cases habi : request.abi = package.abi
  swap
  · left
    have hother := Bool.eq_false_iff.mpr (mt (ModuleAbi.compatible_iff _ _).mp habi)
    simp only [hother, Bool.not_false, if_true]
    exact ⟨_, rfl, rfl⟩
  rw [(ModuleAbi.compatible_iff _ _).mpr habi]
  by_cases hsupported : request.abi = supportedAbi
  swap
  · left
    have hother := Bool.eq_false_iff.mpr (mt (ModuleAbi.compatible_iff _ _).mp hsupported)
    simp only [hother, Bool.not_false, Bool.not_true, Bool.false_eq_true, if_true, if_false]
    exact ⟨_, rfl, rfl⟩
  rw [(ModuleAbi.compatible_iff _ _).mpr hsupported]
  simp only [Bool.not_true, Bool.false_eq_true, if_false, List.nil_append]
  by_cases hdeclared : undeclaredCapabilities request.capabilities package = []
  swap
  · left
    simp only [hdeclared, not_false_eq_true, if_true]
    exact ⟨_, rfl, rfl⟩
  simp only [hdeclared, not_true_eq_false, if_false, List.nil_append]
  cases hgrant : decideGrant request.capabilities authority with
  | denied missing =>
    left
    exact ⟨_, rfl, rfl⟩
  | granted grant =>
    have hwithin := ((decide_grant_iff _ _ _).mp hgrant).1
    cases runtime with
    | ready => exact .inr ⟨grant, rfl, rfl, hid, hdigest, habi, hsupported, hwithin, rfl⟩
    | resourceExceeded kind => exact .inl ⟨_, rfl, rfl⟩
    | unavailable => exact .inl ⟨_, rfl, rfl⟩

theorem prepare_reason :
    (∃ failure,
      lifecycle.prepareActivation request supportedAbi authority runtime = .error failure ∧
      (lifecycle.eligibility request supportedAbi authority runtime).reasons.head?.map (·.code) =
        some (failureCode failure)) ∨
    ∃ package grant, lifecycle.state = .enabled package ∧
      lifecycle.prepareActivation request supportedAbi authority runtime =
        .ok (preparedToken lifecycle request grant) ∧
      (lifecycle.eligibility request supportedAbi authority runtime).reasons = [] ∧
      Activatable request supportedAbi authority runtime package := by
  cases hstate : lifecycle.state with
  | absent =>
    left
    rw [prepareActivation, eligibility, hstate]
    exact ⟨_, rfl, rfl⟩
  | installed package =>
    left
    rw [prepareActivation, eligibility, hstate]
    exact ⟨_, rfl, rfl⟩
  | active package active =>
    left
    rw [prepareActivation, eligibility, hstate]
    exact ⟨_, rfl, rfl⟩
  | enabled package =>
    rw [eligibility, hstate]
    rcases prepare_enabled lifecycle request supportedAbi authority runtime hstate with
      h | ⟨grant, hprepared, hnone, hactivatable⟩
    · exact .inl h
    · exact .inr ⟨package, grant, rfl, hprepared, hnone, hactivatable⟩

theorem activate_ready {package : ModulePackage} {grant : CapabilityGrant}
    (hstate : lifecycle.state = .enabled package)
    (hprepared : lifecycle.prepareActivation request supportedAbi authority runtime =
      .ok (preparedToken lifecycle request grant))
    (h : Activatable request supportedAbi authority runtime package) :
    (lifecycle.activate request supportedAbi authority runtime).1 =
      .ok ⟨lifecycle.nextSession, .fromRequest request, ⟨request.capabilities.ids⟩⟩ := by
  have hmatches : (ActivationBinding.fromRequest request).matches package = true := by
    simp [ActivationBinding.matches, ActivationBinding.fromRequest, h.packageId, h.digest, h.abi]
  have hchecked : lifecycle.commitChecks (preparedToken lifecycle request grant) supportedAbi
      authority runtime = .ok (package, ⟨request.capabilities.ids⟩) :=
    (commit_checks_iff _ _ _ _ _ _ _).mpr
      ⟨rfl, hstate, hmatches, h.supported, h.authorized, h.runs, rfl⟩
  rw [activate, hprepared]
  show (commitActivation _ _ _ _ _).1 = _
  rw [commitActivation, hchecked]
  rfl

/-- The report, the preparation and the activation agree, and the grant is the request. -/
theorem eligibility_agrees :
    ((lifecycle.eligibility request supportedAbi authority runtime).ready = true ↔
      ∃ prepared, lifecycle.prepareActivation request supportedAbi authority runtime =
        .ok prepared) ∧
    ((lifecycle.eligibility request supportedAbi authority runtime).ready = true ↔
      ∃ active, (lifecycle.activate request supportedAbi authority runtime).1 = .ok active) ∧
    (∀ failure,
      lifecycle.prepareActivation request supportedAbi authority runtime = .error failure →
      (lifecycle.eligibility request supportedAbi authority runtime).reasons.head?.map (·.code) =
        some (failureCode failure)) ∧
    ∀ active, (lifecycle.activate request supportedAbi authority runtime).1 = .ok active →
      active.grant.ids = request.capabilities.ids := by
  have hready : (lifecycle.eligibility request supportedAbi authority runtime).ready =
      (lifecycle.eligibility request supportedAbi authority runtime).reasons.isEmpty := rfl
  rcases prepare_reason lifecycle request supportedAbi authority runtime with
    ⟨failure, hprepared, hreason⟩ | ⟨package, grant, hstate, hprepared, hnone, hactivatable⟩
  · have hsome : (lifecycle.eligibility request supportedAbi authority
        runtime).reasons.isEmpty = false := by
      by_contra hempty
      rw [Bool.not_eq_false, List.isEmpty_iff] at hempty
      rw [hempty] at hreason
      cases hreason
    have hactivate : (lifecycle.activate request supportedAbi authority runtime).1 =
        .error failure := by
      rw [activate, hprepared]
    rw [hready, hsome, hprepared, hactivate]
    refine ⟨by simp, by simp, ?_, by simp⟩
    intro other hother
    cases hother
    exact hreason
  · have hactivate := activate_ready lifecycle request supportedAbi authority runtime hstate
      hprepared hactivatable
    rw [hready, hnone, hprepared, hactivate]
    refine ⟨by simp, by simp, by simp, ?_⟩
    intro active h
    cases h
    rfl

end Siralos.Lifecycle
