import Mathlib.Data.Char
import Mathlib.Data.List.Lex
import Siralos.Identity
import Siralos.StableSort

/-!
# Host decisions

Validation plans, acceptance results and normalized result sets are derived from lists that arrive
in any order. Each is sorted by id alone, so the arrival order is visible exactly where entries of
one id differ in what the decision reads.
-/

set_option autoImplicit false

namespace Siralos.Determinism

open Identity StableSort

structure ArtifactIdentityError where
  message : Text
  deriving DecidableEq, Repr

def isValidArtifactType (artifactType : Text) : Bool :=
  idPatternOk 64 Char.isAlpha artifactType

def canonicalArtifactPayload (artifactType : Text) (schemaVersion : ℕ) (payload : CanonicalValue) :
    Except ArtifactIdentityError Text :=
  if ¬ isValidArtifactType artifactType then
    .error ⟨"Invalid artifact type: " ++ artifactType⟩
  else if schemaVersion < 1 then
    .error ⟨"An artifact schema version must be a positive safe integer."⟩
  else .ok (artifactPreimage artifactType schemaVersion (toCanonical payload))

def computeArtifactDigest (sha256Hex : Text → Text) (artifactType : Text) (schemaVersion : ℕ)
    (payload : CanonicalValue) : Except ArtifactIdentityError Text :=
  (canonicalArtifactPayload artifactType schemaVersion payload).map sha256Hex

theorem artifact_digest_ok (sha256Hex : Text → Text) {artifactType : Text} {schemaVersion : ℕ}
    (payload : CanonicalValue) (htype : isValidArtifactType artifactType = true)
    (hversion : 1 ≤ schemaVersion) :
    computeArtifactDigest sha256Hex artifactType schemaVersion payload =
      .ok (artifactDigestHex sha256Hex artifactType schemaVersion (toCanonical payload)) := by
  rw [computeArtifactDigest, canonicalArtifactPayload, if_neg (not_not.mpr htype),
    if_neg (not_lt.mpr hversion)]
  rfl

inductive ValidationRequirementClass where
  | required
  | recommended
  | unavailable
  deriving DecidableEq, Repr

def ValidationRequirementClass.asStr : ValidationRequirementClass → Text
  | .required => "required"
  | .recommended => "recommended"
  | .unavailable => "unavailable"

structure ValidationItem where
  id : Text
  itemClass : ValidationRequirementClass
  rationale : Text
  deriving DecidableEq, Repr

structure ValidationPlan where
  items : List ValidationItem
  digest : Text
  deriving DecidableEq, Repr

structure ValidationRegistryEntry where
  id : Text
  appliesTo : List Text
  baseClass : ValidationRequirementClass
  deriving DecidableEq, Repr

structure ImpactRelationship where
  source : Text
  target : Text
  deriving DecidableEq, Repr

structure ValidationPlanInput where
  changedSurfaces : List Text
  impactRelationships : List ImpactRelationship
  validationRegistry : List ValidationRegistryEntry
  deriving DecidableEq, Repr

def addSurface (impacted : List Text) (surface : Text) : List Text :=
  if surface ∈ impacted then impacted else impacted ++ [surface]

def impactedSurfaces (input : ValidationPlanInput) : List Text :=
  input.impactRelationships.foldl
    (fun impacted relationship =>
      addSurface (addSurface impacted relationship.source) relationship.target)
    input.changedSurfaces

/-- A declared surface is changed, or one of it and an impacted path ends with the other. -/
def applies (input : ValidationPlanInput) (check : ValidationRegistryEntry) : Bool :=
  check.appliesTo.any fun surface =>
    input.changedSurfaces.any (fun changed => changed == surface) ||
      (impactedSurfaces input).any fun path => surface.isSuffixOf path || path.isSuffixOf surface

def validationItem (check : ValidationRegistryEntry) : ValidationItem where
  id := check.id
  itemClass := check.baseClass
  rationale := "applies to changed surface(s): " ++ ([',', ' '] : Text).intercalate check.appliesTo

/-- The registry is walked in id order; a check is seen once it has applied. -/
def planItems (input : ValidationPlanInput) : List ValidationItem :=
  (firsts ValidationRegistryEntry.id (applies input) []
    (sortByKey ValidationRegistryEntry.id input.validationRegistry)).map validationItem

def itemPayload (item : ValidationItem) : CanonicalValue :=
  .ofFields [field "id" (.str item.id), field "class" (.str item.itemClass.asStr),
    field "rationale" (.str item.rationale)]

def planPayload (items : List ValidationItem) : CanonicalValue :=
  .ofFields [field "items" (.array (items.map itemPayload))]

def deriveValidationPlan (sha256Hex : Text → Text) (input : ValidationPlanInput) :
    Except ArtifactIdentityError ValidationPlan := do
  let ordered := sortByKey ValidationItem.id (planItems input)
  let digest ← computeArtifactDigest sha256Hex "ValidationPlan" 1 (planPayload ordered)
  return ⟨ordered, digest⟩

theorem mem_add_surface (impacted : List Text) (surface path : Text) :
    path ∈ addSurface impacted surface ↔ path ∈ impacted ∨ path = surface := by
  rw [addSurface]
  split_ifs with hmem
  · constructor
    · exact Or.inl
    · rintro (h | rfl)
      · exact h
      · exact hmem
  · rw [List.mem_append, List.mem_singleton]

theorem mem_impacted (input : ValidationPlanInput) (path : Text) :
    path ∈ impactedSurfaces input ↔ path ∈ input.changedSurfaces ∨
      ∃ r ∈ input.impactRelationships, path = r.source ∨ path = r.target := by
  have hfold : ∀ (relationships : List ImpactRelationship) (impacted : List Text),
      path ∈ relationships.foldl
        (fun impacted r => addSurface (addSurface impacted r.source) r.target) impacted ↔
      path ∈ impacted ∨ ∃ r ∈ relationships, path = r.source ∨ path = r.target := by
    intro relationships
    induction relationships with
    | nil => simp
    | cons r rest ih =>
      intro impacted
      rw [List.foldl_cons, ih, mem_add_surface, mem_add_surface]
      simp only [List.mem_cons, exists_eq_or_imp, or_assoc]
  exact hfold input.impactRelationships input.changedSurfaces

theorem applies_perm {changed : List Text} {relationships : List ImpactRelationship}
    {input : ValidationPlanInput} (hchanged : input.changedSurfaces.Perm changed)
    (hrelationships : input.impactRelationships.Perm relationships)
    (registry : List ValidationRegistryEntry) :
    applies ⟨changed, relationships, registry⟩ = applies input := by
  funext check
  apply Bool.eq_iff_iff.mpr
  simp only [applies, List.any_eq_true, Bool.or_eq_true, mem_impacted, ← hchanged.mem_iff,
    ← hrelationships.mem_iff]

theorem plan_items_sorted (input : ValidationPlanInput) :
    sortByKey ValidationItem.id (planItems input) = planItems input := by
  apply List.Pairwise.insertionSort_eq
  apply List.pairwise_map.mpr
  exact (firsts_pairwise _ _ (sort_pairwise input.validationRegistry)).imp le_of_lt

theorem derive_plan_ok (sha256Hex : Text → Text) (input : ValidationPlanInput) :
    deriveValidationPlan sha256Hex input = .ok ⟨planItems input,
      artifactDigestHex sha256Hex "ValidationPlan" 1 (toCanonical (planPayload (planItems input)))⟩ := by
  rw [deriveValidationPlan, plan_items_sorted,
    artifact_digest_ok sha256Hex _ (by decide) (le_refl 1)]
  rfl

inductive AcceptanceOutcome where
  | satisfied
  | notSatisfied
  | unverifiable
  deriving DecidableEq, Repr

def AcceptanceOutcome.asStr : AcceptanceOutcome → Text
  | .satisfied => "satisfied"
  | .notSatisfied => "not_satisfied"
  | .unverifiable => "unverifiable"

structure AvailableEvidence where
  id : Text
  evidenceClass : Text
  digest : Text
  deriving DecidableEq, Repr

structure AcceptanceInput where
  criterionId : Text
  requiredEvidenceClasses : List Text
  availableEvidence : List AvailableEvidence
  deriving DecidableEq, Repr

structure AcceptanceResult where
  criterionId : Text
  outcome : AcceptanceOutcome
  evidenceIdentities : List Text
  digest : Text
  deriving DecidableEq, Repr

def acceptanceOutcome (required : List Text) (normalized : List AvailableEvidence) :
    AcceptanceOutcome :=
  if required.isEmpty then .unverifiable
  else if required.all fun wanted => normalized.any fun entry => entry.evidenceClass == wanted then
    .satisfied
  else .notSatisfied

def acceptancePayload (criterionId : Text) (outcome : AcceptanceOutcome)
    (evidenceIdentities requiredSorted : List Text) : CanonicalValue :=
  .ofFields [field "criterionId" (.str criterionId), field "outcome" (.str outcome.asStr),
    field "evidenceIdentities" (.array (evidenceIdentities.map .str)),
    field "requiredEvidenceClasses" (.array (requiredSorted.map .str))]

def evaluateAcceptance (sha256Hex : Text → Text) (input : AcceptanceInput) :
    Except ArtifactIdentityError AcceptanceResult := do
  let normalized := sortByKey AvailableEvidence.id input.availableEvidence
  let outcome := acceptanceOutcome input.requiredEvidenceClasses normalized
  let evidenceIdentities := normalized.map AvailableEvidence.digest
  let requiredSorted := sortByKey id input.requiredEvidenceClasses
  let digest ← computeArtifactDigest sha256Hex "AcceptanceResult" 1
    (acceptancePayload input.criterionId outcome evidenceIdentities requiredSorted)
  return ⟨input.criterionId, outcome, evidenceIdentities, digest⟩

theorem outcome_perm {required classes : List Text} {normalized entries : List AvailableEvidence}
    (hrequired : required.Perm classes) (hnormalized : normalized.Perm entries) :
    acceptanceOutcome classes entries = acceptanceOutcome required normalized := by
  have hempty : classes.isEmpty = required.isEmpty := hrequired.symm.isEmpty_eq
  have hall : (classes.all fun wanted => entries.any fun entry => entry.evidenceClass == wanted) =
      required.all fun wanted => normalized.any fun entry => entry.evidenceClass == wanted := by
    apply Bool.eq_iff_iff.mpr
    simp only [List.all_eq_true, List.any_eq_true, ← hrequired.mem_iff, ← hnormalized.mem_iff]
  rw [acceptanceOutcome, acceptanceOutcome, hempty, hall]

theorem sort_texts_perm {xs ys : List Text} (h : xs.Perm ys) :
    sortByKey id xs = sortByKey id ys := by
  have hsame := map_sort_perm (f := id) (fun a _ b _ hab => hab) h
  rwa [List.map_id, List.map_id] at hsame

theorem evaluate_ok (sha256Hex : Text → Text) (input : AcceptanceInput) :
    evaluateAcceptance sha256Hex input = .ok ⟨input.criterionId,
      acceptanceOutcome input.requiredEvidenceClasses
        (sortByKey AvailableEvidence.id input.availableEvidence),
      (sortByKey AvailableEvidence.id input.availableEvidence).map AvailableEvidence.digest,
      artifactDigestHex sha256Hex "AcceptanceResult" 1 (toCanonical (acceptancePayload
        input.criterionId
        (acceptanceOutcome input.requiredEvidenceClasses
          (sortByKey AvailableEvidence.id input.availableEvidence))
        ((sortByKey AvailableEvidence.id input.availableEvidence).map AvailableEvidence.digest)
        (sortByKey id input.requiredEvidenceClasses)))⟩ := by
  rw [evaluateAcceptance, artifact_digest_ok sha256Hex _ (by decide) (le_refl 1)]
  rfl

def normalizeConcurrentResults {T : Type} (idKey : T → Text) (results : List T) : List T :=
  sortByKey idKey results

/-- The plan is the same for every order of the changes, the impacts and the registry. -/
def PlanOrderFree (sha256Hex : Text → Text) (input : ValidationPlanInput) : Prop :=
  ∀ changed relationships registry, input.changedSurfaces.Perm changed →
    input.impactRelationships.Perm relationships → input.validationRegistry.Perm registry →
    deriveValidationPlan sha256Hex ⟨changed, relationships, registry⟩ =
      deriveValidationPlan sha256Hex input

/-- The result is the same for every order of the required classes and the evidence. -/
def AcceptanceOrderFree (sha256Hex : Text → Text) (input : AcceptanceInput) : Prop :=
  ∀ required available, input.requiredEvidenceClasses.Perm required →
    input.availableEvidence.Perm available →
    evaluateAcceptance sha256Hex ⟨input.criterionId, required, available⟩ =
      evaluateAcceptance sha256Hex input

def ResultsOrderFree {T : Type} (idKey : T → Text) (results : List T) : Prop :=
  ∀ others, results.Perm others →
    normalizeConcurrentResults idKey others = normalizeConcurrentResults idKey results

/-- Applicable checks of one id make the same item. -/
def ChecksAgree (input : ValidationPlanInput) : Prop :=
  Agree ValidationRegistryEntry.id validationItem
    (input.validationRegistry.filter (applies input))

/-- Evidence entries of one id have the same digest. -/
def EvidenceAgrees (input : AcceptanceInput) : Prop :=
  Agree AvailableEvidence.id AvailableEvidence.digest input.availableEvidence

theorem item_id (a b : ValidationRegistryEntry) (h : validationItem a = validationItem b) :
    a.id = b.id := congrArg ValidationItem.id h

theorem plan_order_free_iff (sha256Hex : Text → Text) (input : ValidationPlanInput) :
    PlanOrderFree sha256Hex input ↔ ChecksAgree input := by
  have hlaw := map_firsts_iff item_id (applies input) input.validationRegistry
  constructor
  · intro h
    apply hlaw.mp
    intro registry hregistry
    have hsame := h _ _ registry (List.Perm.refl _) (List.Perm.refl _) hregistry
    rw [derive_plan_ok, derive_plan_ok] at hsame
    have hitems := congrArg ValidationPlan.items (Except.ok.inj hsame)
    have happlies := applies_perm (List.Perm.refl input.changedSurfaces)
      (List.Perm.refl input.impactRelationships) registry
    dsimp only [planItems] at hitems
    rwa [happlies] at hitems
  · intro hagree changed relationships registry hchanged hrelationships hregistry
    have hitems : planItems ⟨changed, relationships, registry⟩ = planItems input := by
      rw [planItems, planItems, applies_perm hchanged hrelationships registry]
      exact hlaw.mpr hagree registry hregistry
    rw [derive_plan_ok, derive_plan_ok, hitems]

theorem acceptance_order_free_iff (sha256Hex : Text → Text) (input : AcceptanceInput) :
    AcceptanceOrderFree sha256Hex input ↔ EvidenceAgrees input := by
  have hlaw : (∀ available, input.availableEvidence.Perm available →
      (sortByKey AvailableEvidence.id available).map AvailableEvidence.digest =
        (sortByKey AvailableEvidence.id input.availableEvidence).map AvailableEvidence.digest) ↔
      EvidenceAgrees input := map_sort_iff _ _
  constructor
  · intro h
    apply hlaw.mp
    intro available havailable
    have hsame := h _ available (List.Perm.refl _) havailable
    rw [evaluate_ok, evaluate_ok] at hsame
    exact congrArg AcceptanceResult.evidenceIdentities (Except.ok.inj hsame)
  · intro hagree required available hrequired havailable
    have hdigests := hlaw.mpr hagree available havailable
    have hsorted : (sortByKey AvailableEvidence.id input.availableEvidence).Perm
        (sortByKey AvailableEvidence.id available) :=
      (sort_perm _).trans (havailable.trans (sort_perm available).symm)
    have houtcome := outcome_perm hrequired hsorted
    have hclasses := sort_texts_perm hrequired
    rw [evaluate_ok, evaluate_ok]
    dsimp only
    rw [houtcome, hdigests, hclasses]

theorem results_order_free_iff {T : Type} (idKey : T → Text) (results : List T) :
    ResultsOrderFree idKey results ↔ Agree idKey id results := by
  have hlaw : (∀ others, results.Perm others → (sortByKey idKey others).map id =
      (sortByKey idKey results).map id) ↔ Agree idKey id results := map_sort_iff id results
  simp only [List.map_id] at hlaw
  exact hlaw

/-- Arrival order is invisible exactly when entries of one id agree in what is read of them. -/
theorem decisions_order_free_iff (sha256Hex : Text → Text) :
    (∀ input, PlanOrderFree sha256Hex input ↔ ChecksAgree input) ∧
    (∀ input, AcceptanceOrderFree sha256Hex input ↔ EvidenceAgrees input) ∧
    ∀ {T : Type} (idKey : T → Text) (results : List T),
      ResultsOrderFree idKey results ↔ Agree idKey id results :=
  ⟨plan_order_free_iff sha256Hex, acceptance_order_free_iff sha256Hex, results_order_free_iff⟩

/-- Two digests under one evidence id keep their arrival order. -/
theorem decisions_order_free_fails :
    ¬ ∀ (sha256Hex : Text → Text) (input : AcceptanceInput),
      AcceptanceOrderFree sha256Hex input := by
  intro h
  let first : AvailableEvidence := ⟨['e'], ['c'], ['1']⟩
  let second : AvailableEvidence := ⟨['e'], ['c'], ['2']⟩
  have hsame := h id ⟨['a'], [['c']], [first, second]⟩ [['c']] [second, first]
    (List.Perm.refl _) (List.Perm.swap second first [])
  rw [evaluate_ok, evaluate_ok] at hsame
  have hdigests := congrArg AcceptanceResult.evidenceIdentities (Except.ok.inj hsame)
  exact absurd hdigests (by decide)

end Siralos.Determinism
