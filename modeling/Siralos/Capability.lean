import Siralos.Text
import Mathlib.Data.Char
import Mathlib.Data.List.Lex

/-!
# Module capabilities and package identity

Validated identifiers, the canonical sets of capabilities that requests, grants and Host
authority are, and the package that declares the capabilities it may be activated with.
-/

set_option autoImplicit false

namespace Siralos.Capability

inductive ResourceExceededKind where
  | fuel
  | memory
  | inputBytes
  | outputBytes
  | hostCalls
  deriving DecidableEq, Repr

def maxCapabilities : ℕ := 32

def maxCapabilityIdBytes : ℕ := 64

def maxPackageIdBytes : ℕ := 128

def maxAbiBytes : ℕ := 128

/-- Lowercase letters and digits, with single separators inside only. -/
def separatedOk (separator : Char → Bool) : Bool → Text → Bool
  | previousSeparator, [] => !previousSeparator
  | previousSeparator, c :: rest =>
    (c.isLower || c.isDigit || separator c) && !(separator c && previousSeparator) &&
      separatedOk separator (separator c) rest

/-- The first character counts as following a separator: none may lead. -/
def validSeparated (maxBytes : ℕ) (separator : Char → Bool) (value : Text) : Bool :=
  !value.isEmpty && decide (Text.utf8Len value ≤ maxBytes) && separatedOk separator true value

def validCapabilityId (value : Text) : Bool :=
  validSeparated maxCapabilityIdBytes (· == '-') value

def validSeparatedIdentifier (value : Text) : Bool :=
  validSeparated maxPackageIdBytes (fun c => c == '.' || c == '-') value

def isLowerHex (c : Char) : Bool := c.isDigit || decide ('a' ≤ c ∧ c ≤ 'f')

def validDigest (value : Text) : Bool :=
  decide (Text.utf8Len value = 64) && value.all isLowerHex

def versionOk (version : Text) : Bool :=
  let parts := version.splitOn '.'
  parts.all (fun part => !part.isEmpty && part.all Char.isDigit) &&
    decide (2 ≤ parts.length) && decide (parts.length ≤ 3)

def abiNameOk (name : Text) : Bool :=
  (name.splitOn ':').all (fun segment =>
    validSeparatedIdentifier segment && decide (Text.utf8Len segment < maxPackageIdBytes)) &&
    name.contains ':'

/-- A name and a version on the two sides of the only `@`. -/
def validAbi (value : Text) : Bool :=
  !value.isEmpty && decide (Text.utf8Len value ≤ maxAbiBytes) &&
    match value.splitOn '@' with
    | [name, version] => !name.isEmpty && !version.isEmpty && abiNameOk name && versionOk version
    | _ => false

structure CapabilityId where
  value : Text
  valid : validCapabilityId value = true
  deriving DecidableEq, Repr

structure ModulePackageId where
  value : Text
  valid : validSeparatedIdentifier value = true
  deriving DecidableEq, Repr

structure PackageDigest where
  value : Text
  valid : validDigest value = true
  deriving DecidableEq, Repr

structure ModuleAbi where
  value : Text
  valid : validAbi value = true
  deriving DecidableEq, Repr

inductive ModuleFailure where
  | notInstalled
  | disabled
  | alreadyInstalled
  | alreadyEnabled
  | alreadyDisabled
  | active
  | notActive
  | unsupportedAbi (expected found : Text)
  | identityMismatch (detail : Text)
  | capabilityDenied (missing : List CapabilityId)
  | undeclaredCapability (missing : List CapabilityId)
  | resourceExceeded (kind : ResourceExceededKind)
  | invalidInput (reason : Text)
  | staleActivation
  | unavailable (reason : Text)
  deriving DecidableEq, Repr

def CapabilityId.parse (value : Text) : Except ModuleFailure CapabilityId :=
  if h : validCapabilityId value = true then .ok ⟨value, h⟩
  else .error (.invalidInput "invalid capability id")

def ModulePackageId.parse (value : Text) : Except ModuleFailure ModulePackageId :=
  if h : validSeparatedIdentifier value = true then .ok ⟨value, h⟩
  else .error (.invalidInput "invalid package id")

def PackageDigest.parse (value : Text) : Except ModuleFailure PackageDigest :=
  if h : validDigest value = true then .ok ⟨value, h⟩
  else .error (.invalidInput "invalid package digest")

def ModuleAbi.parse (value : Text) : Except ModuleFailure ModuleAbi :=
  if h : validAbi value = true then .ok ⟨value, h⟩
  else .error (.invalidInput "invalid domain ABI")

def ModuleAbi.isCompatibleWith (abi other : ModuleAbi) : Bool := abi.value == other.value

theorem ModuleAbi.compatible_iff (abi other : ModuleAbi) :
    abi.isCompatibleWith other = true ↔ abi = other := by
  rw [isCompatibleWith, beq_iff_eq]
  cases abi
  cases other
  simp

/-- `BTreeSet::insert`. -/
def insertId (id : CapabilityId) : List CapabilityId → List CapabilityId
  | [] => [id]
  | other :: rest =>
    if id = other then other :: rest
    else if id.value < other.value then id :: other :: rest
    else other :: insertId id rest

def Ascending (ids : List CapabilityId) : Prop :=
  ids.Pairwise fun a b => a.value < b.value

theorem mem_insert_id (id other : CapabilityId) (ids : List CapabilityId) :
    other ∈ insertId id ids ↔ other = id ∨ other ∈ ids := by
  induction ids with
  | nil => simp [insertId]
  | cons first rest ih =>
    rw [insertId]
    split
    · rename_i h
      simp [h]
    · split
      · simp
      · simp only [List.mem_cons, ih]
        tauto

theorem ascending_insert (id : CapabilityId) (ids : List CapabilityId) (h : Ascending ids) :
    Ascending (insertId id ids) := by
  induction ids with
  | nil => exact List.pairwise_singleton _ _
  | cons first rest ih =>
    obtain ⟨hfirst, hrest⟩ := List.pairwise_cons.mp h
    rw [insertId]
    split
    · exact h
    · split
      · rename_i hlt
        refine List.pairwise_cons.mpr ⟨?_, h⟩
        intro other hother
        rcases List.mem_cons.mp hother with rfl | hother
        · exact hlt
        · exact lt_trans hlt (hfirst other hother)
      · rename_i hne hlt
        refine List.pairwise_cons.mpr ⟨?_, ih hrest⟩
        intro other hother
        rcases (mem_insert_id id other rest).mp hother with rfl | hother
        · have hvalue : other.value ≠ first.value := by
            intro heq
            apply hne
            cases other
            cases first
            simpa using heq
          exact lt_of_le_of_ne (not_lt.mp hlt) hvalue.symm
        · exact hfirst other hother

structure CapabilitySet where
  ids : List CapabilityId
  ascending : Ascending ids

namespace CapabilitySet

def empty : CapabilitySet := ⟨[], List.Pairwise.nil⟩

def insert (set : CapabilitySet) (id : CapabilityId) : CapabilitySet :=
  ⟨insertId id set.ids, ascending_insert id set.ids set.ascending⟩

def contains (set : CapabilitySet) (id : CapabilityId) : Bool := decide (id ∈ set.ids)

instance : DecidableEq CapabilitySet := fun a b =>
  if h : a.ids = b.ids then .isTrue (by cases a; cases b; simpa using h)
  else .isFalse fun heq => h (heq ▸ rfl)

/-- The ids of the set that `other` does not contain, in order. -/
def missing (set other : CapabilitySet) : List CapabilityId :=
  set.ids.filter fun id => !other.contains id

def Within (set other : CapabilitySet) : Prop :=
  ∀ id, set.contains id = true → other.contains id = true

theorem missing_eq_nil (set other : CapabilitySet) :
    set.missing other = [] ↔ set.Within other := by
  simp [missing, Within, contains, List.filter_eq_nil_iff]

instance (set other : CapabilitySet) : Decidable (set.Within other) :=
  decidable_of_iff _ (missing_eq_nil set other)

def parseFrom (set : CapabilitySet) : List Text → Except ModuleFailure CapabilitySet
  | [] => .ok set
  | value :: values =>
    match CapabilityId.parse value with
    | .error failure => .error failure
    | .ok id => parseFrom (set.insert id) values

/-- `CapabilityRequest::parse` and `HostAuthority::parse`, which differ in the refusal. -/
def parse (tooMany : Text) (values : List Text) : Except ModuleFailure CapabilitySet :=
  if values.length > maxCapabilities then .error (.invalidInput tooMany)
  else parseFrom empty values

end CapabilitySet

structure CapabilityRequest where
  ids : CapabilitySet
  deriving DecidableEq

structure CapabilityGrant where
  ids : CapabilitySet
  deriving DecidableEq

structure HostAuthority where
  ids : CapabilitySet
  deriving DecidableEq

def CapabilityRequest.parse (values : List Text) : Except ModuleFailure CapabilityRequest :=
  (CapabilitySet.parse "too many requested capabilities" values).map CapabilityRequest.mk

def HostAuthority.parse (values : List Text) : Except ModuleFailure HostAuthority :=
  (CapabilitySet.parse "too many authority capabilities" values).map HostAuthority.mk

inductive GrantDecision where
  | granted (grant : CapabilityGrant)
  | denied (missing : List CapabilityId)
  deriving DecidableEq

def decideGrant (request : CapabilityRequest) (authority : HostAuthority) : GrantDecision :=
  let missing := request.ids.missing authority.ids
  if missing = [] then .granted ⟨request.ids⟩ else .denied missing

theorem decide_grant_iff (request : CapabilityRequest) (authority : HostAuthority)
    (grant : CapabilityGrant) :
    decideGrant request authority = .granted grant ↔
      request.ids.Within authority.ids ∧ grant.ids = request.ids := by
  rw [decideGrant, ← CapabilitySet.missing_eq_nil]
  by_cases h : request.ids.missing authority.ids = []
  · cases grant
    simp [h, eq_comm]
  · simp [h]

structure ModulePackage where
  id : ModulePackageId
  digest : PackageDigest
  abi : ModuleAbi
  requestedCapabilities : CapabilityRequest
  deriving DecidableEq

def ModulePackage.parse (id digest abi : Text) (requestedCapabilities : List Text) :
    Except ModuleFailure ModulePackage :=
  match ModulePackageId.parse id, PackageDigest.parse digest, ModuleAbi.parse abi,
      CapabilityRequest.parse requestedCapabilities with
  | .ok id, .ok digest, .ok abi, .ok requested => .ok ⟨id, digest, abi, requested⟩
  | .error failure, _, _, _ => .error failure
  | _, .error failure, _, _ => .error failure
  | _, _, .error failure, _ => .error failure
  | _, _, _, .error failure => .error failure

end Siralos.Capability
