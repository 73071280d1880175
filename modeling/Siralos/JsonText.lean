import Siralos.Canonical
import Siralos.Provider

/-!
# The text of plain JSON values

A plain value has no float and no negative number. Its compact text determines it, so a reader
that returns what was written exists.
-/

set_option autoImplicit false

namespace Siralos.Json

open Identity Provider

mutual

/-- Only natural numbers anywhere in the value. -/
def plain : Value → Bool
  | .number (.posInt _) => true
  | .number _ => false
  | .array values => plainValues values
  | .object fields => plainFields fields
  | _ => true

def plainValues : List Value → Bool
  | [] => true
  | value :: values => plain value && plainValues values

def plainFields : List (Text × Value) → Bool
  | [] => true
  | (_, value) :: fields => plain value && plainFields fields

end

mutual

def canonicalOf : Value → CanonicalValue
  | .null => .null
  | .bool b => .bool b
  | .number (.posInt n) => .u64 n
  | .number _ => .null
  | .string text => .str text
  | .array values => .array (canonicalValues values)
  | .object fields => .object (canonicalFields fields)

def canonicalValues : List Value → List CanonicalValue
  | [] => []
  | value :: values => canonicalOf value :: canonicalValues values

def canonicalFields : List (Text × Value) → List (Text × CanonicalValue)
  | [] => []
  | (key, value) :: fields => (key, canonicalOf value) :: canonicalFields fields

end

mutual

theorem canonical_of_inj : ∀ {a b : Value}, plain a = true → plain b = true →
    canonicalOf a = canonicalOf b → a = b
  | .null, b, _, hb, h => by
    cases b with
    | null => rfl
    | number n => cases n <;> simp_all [plain, canonicalOf]
    | _ => simp [canonicalOf] at h
  | .bool v, b, _, hb, h => by
    cases b with
    | bool w => simpa [canonicalOf] using h
    | number n => cases n <;> simp_all [plain, canonicalOf]
    | _ => simp [canonicalOf] at h
  | .number m, b, ha, hb, h => by
    cases m with
    | posInt m =>
      cases b with
      | number n => cases n <;> simp_all [plain, canonicalOf]
      | _ => simp [canonicalOf] at h
    | negInt m => simp [plain] at ha
    | float m => simp [plain] at ha
  | .string v, b, _, hb, h => by
    cases b with
    | string w => simpa [canonicalOf] using h
    | number n => cases n <;> simp_all [plain, canonicalOf]
    | _ => simp [canonicalOf] at h
  | .array xs, b, ha, hb, h => by
    cases b with
    | array ys =>
      rw [plain] at ha hb
      rw [canonicalOf, canonicalOf, CanonicalValue.array.injEq] at h
      rw [canonical_values_inj ha hb h]
    | number n => cases n <;> simp_all [plain, canonicalOf]
    | _ => simp [canonicalOf] at h
  | .object fs, b, ha, hb, h => by
    cases b with
    | object gs =>
      rw [plain] at ha hb
      rw [canonicalOf, canonicalOf, CanonicalValue.object.injEq] at h
      rw [canonical_fields_inj ha hb h]
    | number n => cases n <;> simp_all [plain, canonicalOf]
    | _ => simp [canonicalOf] at h

theorem canonical_values_inj : ∀ {xs ys : List Value}, plainValues xs = true →
    plainValues ys = true → canonicalValues xs = canonicalValues ys → xs = ys
  | [], [], _, _, _ => rfl
  | [], y :: ys, _, _, h => by cases h
  | x :: xs, [], _, _, h => by cases h
  | x :: xs, y :: ys, ha, hb, h => by
    rw [plainValues, Bool.and_eq_true] at ha hb
    rw [canonicalValues, canonicalValues, List.cons.injEq] at h
    rw [canonical_of_inj ha.1 hb.1 h.1, canonical_values_inj ha.2 hb.2 h.2]

theorem canonical_fields_inj : ∀ {fs gs : List (Text × Value)}, plainFields fs = true →
    plainFields gs = true → canonicalFields fs = canonicalFields gs → fs = gs
  | [], [], _, _, _ => rfl
  | [], g :: gs, _, _, h => by cases h
  | f :: fs, [], _, _, h => by cases h
  | (key, x) :: fs, (other, y) :: gs, ha, hb, h => by
    rw [plainFields, Bool.and_eq_true] at ha hb
    rw [canonicalFields, canonicalFields, List.cons.injEq, Prod.mk.injEq] at h
    rw [h.1.1, canonical_of_inj ha.1 hb.1 h.1.2, canonical_fields_inj ha.2 hb.2 h.2]

end

def writeValue (value : Value) : Text := toCanonical (canonicalOf value)

theorem write_inj {a b : Value} (ha : plain a = true) (hb : plain b = true)
    (h : writeValue a = writeValue b) : a = b :=
  canonical_of_inj ha hb (canonical_inj h)

/-- The reader of exactly the texts that are written for plain values. -/
noncomputable def plainSerde : SerdeJson where
  fromStr text := by
    classical
    exact if h : ∃ value, plain value = true ∧ writeValue value = text then
      some (Classical.choose h)
    else none
  toStr := writeValue

theorem plain_reads_back (value : Value) (hplain : plain value = true) :
    plainSerde.fromStr (plainSerde.toStr value) = some value := by
  have hexists : ∃ other, plain other = true ∧ writeValue other = writeValue value :=
    ⟨value, hplain, rfl⟩
  have hspec := Classical.choose_spec hexists
  exact (dif_pos hexists).trans (congrArg some (write_inj hspec.1 hplain hspec.2))

mutual

/-- Floats and negative numbers stand in objects no other value stands in. -/
def taggedOf : Value → CanonicalValue
  | .null => .null
  | .bool b => .bool b
  | .number (.posInt n) => .u64 n
  | .number (.negInt n) => .object [([], .array [.bool (decide (0 ≤ n)), .u64 n.natAbs])]
  | .number (.float bits) => .object [([], .u64 bits.toNat)]
  | .string text => .str text
  | .array values => .array (taggedValues values)
  | .object fields => .object (([], .null) :: taggedFields fields)

def taggedValues : List Value → List CanonicalValue
  | [] => []
  | value :: values => taggedOf value :: taggedValues values

def taggedFields : List (Text × Value) → List (Text × CanonicalValue)
  | [] => []
  | (key, value) :: fields => (key, taggedOf value) :: taggedFields fields

end

theorem tagged_number_inj {m n : Number} (h : taggedOf (.number m) = taggedOf (.number n)) :
    m = n := by
  cases m with
  | posInt m =>
    cases n with
    | posInt n => rw [CanonicalValue.u64.inj h]
    | negInt n => cases h
    | float n => cases h
  | negInt m =>
    cases n with
    | posInt n => cases h
    | negInt n =>
      simp only [taggedOf, CanonicalValue.object.injEq, List.cons.injEq, Prod.mk.injEq,
        CanonicalValue.array.injEq, CanonicalValue.bool.injEq, CanonicalValue.u64.injEq, true_and,
        and_true, decide_eq_decide] at h
      congr 1
      omega
    | float n => cases h
  | float m =>
    cases n with
    | posInt n => cases h
    | negInt n => cases h
    | float n =>
      simp only [taggedOf, CanonicalValue.object.injEq, List.cons.injEq, Prod.mk.injEq,
        CanonicalValue.u64.injEq, true_and, and_true] at h
      rw [UInt64.toNat_inj.mp h]

mutual

theorem tagged_of_inj : ∀ {a b : Value}, taggedOf a = taggedOf b → a = b
  | .null, b, h => by
    cases b with
    | null => rfl
    | number n => cases n <;> cases h
    | _ => cases h
  | .bool v, b, h => by
    cases b with
    | bool w => rw [CanonicalValue.bool.inj h]
    | number n => cases n <;> cases h
    | _ => cases h
  | .number m, b, h => by
    cases b with
    | number n => rw [tagged_number_inj h]
    | _ => cases m <;> cases h
  | .string v, b, h => by
    cases b with
    | string w => rw [CanonicalValue.str.inj h]
    | number n => cases n <;> cases h
    | _ => cases h
  | .array xs, b, h => by
    cases b with
    | array ys =>
      rw [taggedOf, taggedOf, CanonicalValue.array.injEq] at h
      rw [tagged_values_inj h]
    | number n => cases n <;> cases h
    | _ => cases h
  | .object fs, b, h => by
    cases b with
    | object gs =>
      rw [taggedOf, taggedOf, CanonicalValue.object.injEq, List.cons.injEq] at h
      rw [tagged_fields_inj h.2]
    | number n => cases n <;> cases h
    | _ => cases h

theorem tagged_values_inj : ∀ {xs ys : List Value}, taggedValues xs = taggedValues ys → xs = ys
  | [], [], _ => rfl
  | [], y :: ys, h => by cases h
  | x :: xs, [], h => by cases h
  | x :: xs, y :: ys, h => by
    rw [taggedValues, taggedValues, List.cons.injEq] at h
    rw [tagged_of_inj h.1, tagged_values_inj h.2]

theorem tagged_fields_inj : ∀ {fs gs : List (Text × Value)}, taggedFields fs = taggedFields gs →
    fs = gs
  | [], [], _ => rfl
  | [], g :: gs, h => by cases h
  | f :: fs, [], h => by cases h
  | (key, x) :: fs, (other, y) :: gs, h => by
    rw [taggedFields, taggedFields, List.cons.injEq, Prod.mk.injEq] at h
    rw [h.1.1, tagged_of_inj h.1.2, tagged_fields_inj h.2]

end

/-- The compact text of a plain value, and a text that is not JSON of any other. -/
def anyText (value : Value) : Text :=
  if plain value then writeValue value else 'x' :: toCanonical (taggedOf value)

theorem any_text_inj : Function.Injective anyText := by
  intro a b h
  have hother : ∀ (value : CanonicalValue) (rest : Text), toCanonical value ≠ 'x' :: rest := by
    intro value rest hvalue
    exact value_ne_close value [] rest 'x' rfl (by rw [List.append_nil, hvalue])
  rw [anyText, anyText] at h
  by_cases ha : plain a = true
  · rw [if_pos ha] at h
    by_cases hb : plain b = true
    · rw [if_pos hb] at h
      exact write_inj ha hb h
    · rw [if_neg hb] at h
      exact absurd h (hother _ _)
  · rw [if_neg ha] at h
    by_cases hb : plain b = true
    · rw [if_pos hb] at h
      exact absurd h.symm (hother _ _)
    · rw [if_neg hb, List.cons.injEq] at h
      exact tagged_of_inj (canonical_inj h.2)

end Siralos.Json
