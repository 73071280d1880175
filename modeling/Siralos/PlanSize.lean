import Siralos.PlanValidation
import Mathlib.Algebra.Order.BigOperators.Group.List
import Mathlib.Algebra.Order.Group.Nat
import Mathlib.Data.List.Perm.Subperm

/-!
# The size of a canonical document

The bytes of an object are the sum of its members' whatever their order, so that a document with
some of the members of another is no larger.
-/

set_option autoImplicit false

namespace Siralos.PlanValidation

open Json Identity PlanContent

theorem field_mem (key : Text) (fields : List (Text × Value)) (value : Value)
    (h : fieldOf key fields = some value) : (key, value) ∈ fields := by
  unfold fieldOf at h
  induction fields with
  | nil => cases h
  | cons field fields ih =>
    obtain ⟨other, old⟩ := field
    rw [List.lookup_cons] at h
    by_cases hkey : key = other
    · rw [beq_iff_eq.mpr hkey] at h
      cases h
      rw [hkey]
      exact List.mem_cons_self
    · rw [beq_eq_false_iff_ne.mpr hkey] at h
      exact List.mem_cons_of_mem _ (ih h)

theorem field_of_mem (key : Text) (fields : List (Text × Value)) (value : Value)
    (hdistinct : (fields.map Prod.fst).Nodup) (h : (key, value) ∈ fields) :
    fieldOf key fields = some value := by
  unfold fieldOf
  induction fields with
  | nil => cases h
  | cons field fields ih =>
    obtain ⟨other, old⟩ := field
    rw [List.map_cons, List.nodup_cons] at hdistinct
    rw [List.lookup_cons]
    rcases List.mem_cons.mp h with heq | hrest
    · cases heq
      rw [beq_self_eq_true]
    · have hne : key ≠ other := by
        rintro rfl
        exact hdistinct.1 (List.mem_map.mpr ⟨_, hrest, rfl⟩)
      rw [beq_eq_false_iff_ne.mpr hne]
      exact ih hdistinct.2 hrest

theorem intercalate_len (parts : List Text) :
    Text.utf8Len ([','].intercalate parts) + 1 =
      max 1 (parts.map fun part => Text.utf8Len part + 1).sum := by
  induction parts with
  | nil => rfl
  | cons part parts ih =>
    cases parts with
    | nil => simp [List.intercalate]
    | cons next parts =>
      have hcomma : Text.utf8Len [','] = 1 := by decide
      rw [List.intercalate_cons_cons, Text.utf8Len_append, Text.utf8Len_append, hcomma,
        List.map_cons, List.sum_cons]
      simp only [List.map_cons, List.sum_cons] at ih ⊢
      omega

section Sizes

variable (jsNumber : Number → Text)

def sizeOf (value : Value) : ℕ := Text.utf8Len (canonicalJsonValue jsNumber value)

def memberSize (field : Text × Value) : ℕ :=
  Text.utf8Len (jsonEscape field.1) + sizeOf jsNumber field.2 + 2

theorem canonical_values_map (values : List Value) :
    canonicalJsonValues jsNumber values = values.map (canonicalJsonValue jsNumber) := by
  induction values with
  | nil => rw [canonicalJsonValues, List.map_nil]
  | cons value values ih => rw [canonicalJsonValues, ih, List.map_cons]

theorem canonical_fields_map (fields : List (Text × Value)) :
    canonicalJsonFields jsNumber fields =
      fields.map fun field => (field.1, canonicalJsonValue jsNumber field.2) := by
  induction fields with
  | nil => rw [canonicalJsonFields, List.map_nil]
  | cons field fields ih =>
    obtain ⟨key, value⟩ := field
    rw [canonicalJsonFields, ih, List.map_cons]

theorem array_size (values : List Value) : sizeOf jsNumber (.array values) =
    1 + max 1 (values.map fun value => sizeOf jsNumber value + 1).sum := by
  have hparts := intercalate_len (canonicalJsonValues jsNumber values)
  rw [canonical_values_map, List.map_map] at hparts
  have hopen : Char.utf8Size '[' = 1 := by decide
  have hclose : Text.utf8Len [']'] = 1 := by decide
  change Text.utf8Len ('[' :: [','].intercalate (canonicalJsonValues jsNumber values) ++ [']']) = _
  unfold sizeOf
  rw [List.cons_append, Text.utf8Len_cons, Text.utf8Len_append, hopen, hclose, canonical_values_map]
  simp only [Function.comp_def] at hparts
  omega

theorem join_members_len (members : List (Text × Text)) :
    Text.utf8Len (joinMembers members) + 1 = max 1 (members.map fun m =>
      Text.utf8Len (jsonEscape m.1 ++ ':' :: m.2) + 1).sum := by
  unfold joinMembers
  rw [intercalate_len, List.map_map]
  apply congrArg (max 1)
  apply List.Perm.sum_eq
  apply List.Perm.map
  exact List.perm_insertionSort _ _

theorem object_size (fields : List (Text × Value)) : sizeOf jsNumber (.object fields) =
    1 + max 1 (fields.map (memberSize jsNumber)).sum := by
  have hmembers : ((canonicalJsonFields jsNumber fields).map fun m : Text × Text =>
      Text.utf8Len (jsonEscape m.1 ++ ':' :: m.2) + 1) = fields.map (memberSize jsNumber) := by
    rw [canonical_fields_map, List.map_map]
    apply List.map_congr_left
    intro field _
    have hcolon : Char.utf8Size ':' = 1 := by decide
    simp only [Function.comp_apply, Text.utf8Len_append, Text.utf8Len_cons, hcolon, memberSize,
      sizeOf]
    omega
  have hparts := join_members_len (canonicalJsonFields jsNumber fields)
  rw [hmembers] at hparts
  have hopen : Char.utf8Size (Char.ofNat 0x7B) = 1 := by decide
  have hclose : Text.utf8Len [Char.ofNat 0x7D] = 1 := by decide
  change Text.utf8Len (Char.ofNat 0x7B :: joinMembers (canonicalJsonFields jsNumber fields) ++
    [Char.ofNat 0x7D]) = _
  rw [List.cons_append, Text.utf8Len_cons, Text.utf8Len_append, hopen, hclose]
  omega

theorem array_size_le (values values' : List Value)
    (h : List.Forall₂ (fun value value' => sizeOf jsNumber value' ≤ sizeOf jsNumber value)
      values values') : sizeOf jsNumber (.array values') ≤ sizeOf jsNumber (.array values) := by
  have hsum : (values'.map fun value => sizeOf jsNumber value + 1).sum ≤
      (values.map fun value => sizeOf jsNumber value + 1).sum := by
    induction h with
    | nil => exact le_refl _
    | cons hle _ ih =>
      simp only [List.map_cons, List.sum_cons]
      omega
  rw [array_size, array_size]
  omega

theorem object_size_le (fields fields' : List (Text × Value))
    (hdistinct : (fields'.map Prod.fst).Nodup)
    (h : ∀ key value, (key, value) ∈ fields' → fieldOf key fields = some value) :
    sizeOf jsNumber (.object fields') ≤ sizeOf jsNumber (.object fields) := by
  have hsubset : fields' ⊆ fields := by
    rintro ⟨key, value⟩ hmem
    exact field_mem key fields value (h key value hmem)
  obtain ⟨kept, hperm, hsub⟩ := (List.Nodup.of_map _ hdistinct).subperm hsubset
  have hsum : (fields'.map (memberSize jsNumber)).sum ≤ (fields.map (memberSize jsNumber)).sum := by
    rw [← (hperm.map _).sum_eq]
    exact (hsub.map _).sum_le_sum fun _ _ => Nat.zero_le _
  rw [object_size, object_size]
  omega

theorem aggregate_le (object object' : List (Text × Value))
    (h : ∀ key ∈ aggregateKeys, sizeOf jsNumber ((fieldOf key object').getD .null) ≤
      sizeOf jsNumber ((fieldOf key object).getD .null)) :
    aggregateCandidateBytes jsNumber object' ≤ aggregateCandidateBytes jsNumber object := by
  have hsum : ((aggregateKeys.map fun key => (key, (fieldOf key object').getD .null)).map
      (memberSize jsNumber)).sum ≤
      ((aggregateKeys.map fun key => (key, (fieldOf key object).getD .null)).map
        (memberSize jsNumber)).sum := by
    rw [List.map_map, List.map_map]
    apply List.sum_le_sum
    intro key hkey
    have hle := h key hkey
    simp only [Function.comp_apply, memberSize]
    omega
  have hleft := object_size jsNumber
    (aggregateKeys.map fun key => (key, (fieldOf key object').getD .null))
  have hright := object_size jsNumber
    (aggregateKeys.map fun key => (key, (fieldOf key object).getD .null))
  unfold sizeOf at hleft hright
  rw [aggregateCandidateBytes, aggregateCandidateBytes, hleft, hright]
  omega

end Sizes

end Siralos.PlanValidation
