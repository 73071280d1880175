import Siralos.Keyed
import Siralos.JsonText
import Siralos.RedactionMarks
import Siralos.ReplayRecord

/-!
# Redacted bodies

A body that is a JSON document is walked by its structure. Its strings and keys are redacted one
by one, and keys that become equal are told apart again, so that the document keeps its shape.
-/

set_option autoImplicit false

namespace Siralos.RedactedBody

open Text Json Provider Redaction Replay

section Shapes

variable (leaf : Value → Value → Prop) (key : Text → Text → Prop)

mutual

/-- Arrays of one length and objects of as many members; the members of an object may stand in
another order. -/
inductive Shaped : Value → Value → Prop
  | leaf (x y : Value) (h : leaf x y) : Shaped x y
  | array (xs ys : List Value) (h : ShapedValues xs ys) : Shaped (.array xs) (.array ys)
  | object (fs hs gs : List (Text × Value)) (h : ShapedFields fs hs) (hperm : hs.Perm gs) :
    Shaped (.object fs) (.object gs)

inductive ShapedValues : List Value → List Value → Prop
  | nil : ShapedValues [] []
  | cons (x y : Value) (xs ys : List Value) (h : Shaped x y) (hs : ShapedValues xs ys) :
    ShapedValues (x :: xs) (y :: ys)

inductive ShapedFields : List (Text × Value) → List (Text × Value) → Prop
  | nil : ShapedFields [] []
  | cons (k l : Text) (x y : Value) (fs gs : List (Text × Value)) (hkey : key k l)
      (h : Shaped x y) (hs : ShapedFields fs gs) : ShapedFields ((k, x) :: fs) ((l, y) :: gs)

end

end Shapes

section Mono

variable {leaf leaf' : Value → Value → Prop} {key key' : Text → Text → Prop}

mutual

theorem shaped_mono (hleaf : ∀ x y, leaf x y → leaf' x y) (hkey : ∀ k l, key k l → key' k l)
    {x y : Value} (h : Shaped leaf key x y) : Shaped leaf' key' x y := by
  cases h with
  | leaf x y h => exact .leaf x y (hleaf x y h)
  | array xs ys h => exact .array xs ys (shaped_values_mono hleaf hkey h)
  | object fs hs gs h hperm => exact .object fs hs gs (shaped_fields_mono hleaf hkey h) hperm

theorem shaped_values_mono (hleaf : ∀ x y, leaf x y → leaf' x y)
    (hkey : ∀ k l, key k l → key' k l) {xs ys : List Value} (h : ShapedValues leaf key xs ys) :
    ShapedValues leaf' key' xs ys := by
  cases h with
  | nil => exact .nil
  | cons x y xs ys h hs =>
    exact .cons x y xs ys (shaped_mono hleaf hkey h) (shaped_values_mono hleaf hkey hs)

theorem shaped_fields_mono (hleaf : ∀ x y, leaf x y → leaf' x y)
    (hkey : ∀ k l, key k l → key' k l) {fs gs : List (Text × Value)}
    (h : ShapedFields leaf key fs gs) : ShapedFields leaf' key' fs gs := by
  cases h with
  | nil => exact .nil
  | cons k l x y fs gs hname h hs =>
    exact .cons k l x y fs gs (hkey k l hname) (shaped_mono hleaf hkey h)
      (shaped_fields_mono hleaf hkey hs)

end

end Mono

def isScalar : Value → Bool
  | .array _ => false
  | .object _ => false
  | _ => true

def SameShape : Value → Value → Prop :=
  Shaped (fun x y => isScalar x = true ∧ isScalar y = true) fun _ _ => True

/-- Strings are redacted, other scalars stay; a reader may change the last bits of a float. -/
inductive RedactedLeaf (secret : Option Text) : Value → Value → Prop
  | null : RedactedLeaf secret .null .null
  | bool (b : Bool) : RedactedLeaf secret (.bool b) (.bool b)
  | number (n : Number) : RedactedLeaf secret (.number n) (.number n)
  | float (x y : UInt64) : RedactedLeaf secret (.number (.float x)) (.number (.float y))
  | string (s : Text) : RedactedLeaf secret (.string s) (.string (redactSensitive s secret))

/-- The redacted key, with the suffix of a collision or without one. -/
def RedactedKey (secret : Option Text) (k l : Text) : Prop :=
  ∃ suffix, l = redactSensitive k secret ++ suffix ∧ (suffix = [] ∨ keySuffix secret <+: suffix)

def Redacted (secret : Option Text) : Value → Value → Prop :=
  Shaped (RedactedLeaf secret) (RedactedKey secret)

theorem Redacted.same_shape {secret : Option Text} {x y : Value} (h : Redacted secret x y) :
    SameShape x y := by
  apply shaped_mono _ _ h
  · intro x y hleaf
    cases hleaf <;> exact ⟨rfl, rfl⟩
  · exact fun _ _ _ => trivial

mutual

/-- The string values and the keys of a document. -/
def texts : Value → List Text
  | .string s => [s]
  | .array values => valueTexts values
  | .object fields => fieldTexts fields
  | _ => []

def valueTexts : List Value → List Text
  | [] => []
  | value :: values => texts value ++ valueTexts values

def fieldTexts : List (Text × Value) → List Text
  | [] => []
  | (key, value) :: fields => key :: texts value ++ fieldTexts fields

end

mutual

/-- No two keys of one object are equal when they are redacted. -/
def KeysApart (secret : Text) : Value → Prop
  | .array values => ValuesApart secret values
  | .object fields =>
    (fields.map fun field => redactSensitive field.1 (some secret)).Nodup ∧
      FieldsApart secret fields
  | _ => True

def ValuesApart (secret : Text) : List Value → Prop
  | [] => True
  | value :: values => KeysApart secret value ∧ ValuesApart secret values

def FieldsApart (secret : Text) : List (Text × Value) → Prop
  | [] => True
  | (_, value) :: fields => KeysApart secret value ∧ FieldsApart secret fields

end

/-- What tells equal keys apart puts no credential together. -/
structure Suffixed (secret : Text) : Prop where
  marker : MarkerApart secret []
  number : ∀ n, ¬ secret <:+: '-' :: ofNat n

/-- Each text of the document is separable, and so are the suffixes where keys become equal. -/
structure SeparableIn (secret : Text) (value : Value) : Prop where
  texts : ∀ text ∈ texts value, Separable secret text
  keys : Suffixed secret ∨ KeysApart secret value

theorem has_key_iff (key : Text) (fields : List (Text × Value)) :
    hasKey key fields = true ↔ key ∈ fields.map Prod.fst := by
  simp [hasKey]

theorem insert_fresh {key : Text} (value : Value) {fields : List (Text × Value)}
    (h : hasKey key fields = false) : (insertValue key value fields).Perm ((key, value) :: fields) := by
  induction fields with
  | nil => exact List.Perm.refl _
  | cons field fields ih =>
    obtain ⟨other, old⟩ := field
    rw [hasKey, List.any_cons, Bool.or_eq_false_iff] at h
    have hdifferent : key ≠ other := fun heq => by simp [heq] at h
    rw [insertValue, if_neg hdifferent]
    split
    · exact List.Perm.refl _
    · exact ((ih h.2).cons _).trans (List.Perm.swap _ _ _)

theorem free_key_taken {base : Text} {fields : List (Text × Value)} {bound index : ℕ}
    (h : hasKey (freeKey base fields bound index) fields = true) :
    ∀ i ≤ bound, hasKey (base ++ "-" ++ ofNat (index + i)) fields = true := by
  induction bound generalizing index with
  | zero =>
    intro i hi
    rwa [Nat.le_zero.mp hi]
  | succ bound ih =>
    rw [freeKey] at h
    by_cases htaken : hasKey (base ++ "-" ++ ofNat index) fields = true
    · simp only [htaken, if_true] at h
      intro i hi
      cases i with
      | zero => exact htaken
      | succ i =>
        rw [Nat.add_succ, ← Nat.succ_add]
        exact ih h i (Nat.le_of_succ_le_succ hi)
    · simp only [htaken] at h
      exact absurd h htaken

theorem free_key_fresh (base : Text) (fields : List (Text × Value)) :
    hasKey (freeKey base fields fields.length 1) fields = false := by
  by_contra hnot
  have htaken := free_key_taken ((Bool.not_eq_false _).mp hnot)
  have hinj : ∀ i < fields.length + 1, ∀ j < fields.length + 1,
      base ++ "-" ++ ofNat (1 + i) = base ++ "-" ++ ofNat (1 + j) → i = j := by
    intro i _ j _ hij
    have := of_nat_inj (List.append_cancel_left hij)
    omega
  obtain ⟨i, hi, hfree⟩ := Keyed.exists_free (fun i => base ++ "-" ++ ofNat (1 + i))
    (fields.map Prod.fst) (by simp) hinj
  exact hfree ((has_key_iff _ _).mp (htaken i (Nat.le_of_lt_succ hi)))

section Place

variable (secret : Option Text) (safeKey : Text) (placed : List (Text × Value))

theorem place_key_fresh : hasKey (placeKey secret safeKey placed) placed = false := by
  rw [placeKey]
  by_cases hsafe : hasKey safeKey placed = true
  · rw [if_pos hsafe]
    by_cases hbase : hasKey (safeKey ++ keySuffix secret) placed = true
    · simp only [hbase, if_true]
      exact free_key_fresh _ _
    · simp [hbase]
  · simp [hsafe]

theorem free_key_number (base : Text) (fields : List (Text × Value)) (bound index : ℕ) :
    ∃ n, freeKey base fields bound index = base ++ '-' :: ofNat n := by
  induction bound generalizing index with
  | zero => exact ⟨index, List.append_assoc _ _ _⟩
  | succ bound ih =>
    rw [freeKey]
    split
    · exact ih (index + 1)
    · exact ⟨index, List.append_assoc _ _ _⟩

theorem place_key_suffix : ∃ suffix, placeKey secret safeKey placed = safeKey ++ suffix ∧
    (suffix = [] ∨ keySuffix secret <+: suffix) := by
  rw [placeKey]
  split
  · simp only
    split
    · obtain ⟨n, hnumber⟩ := free_key_number (safeKey ++ keySuffix secret) placed placed.length 1
      rw [hnumber, List.append_assoc]
      exact ⟨_, rfl, .inr (List.prefix_append _ _)⟩
    · exact ⟨_, rfl, .inr (List.prefix_refl _)⟩
  · exact ⟨[], (List.append_nil _).symm, .inl rfl⟩

end Place

section Walk

variable (secret : Option Text)

mutual

theorem walk_redacted : ∀ value, Redacted secret value (redactJsonValue secret value).1
  | .null => .leaf _ _ .null
  | .bool b => .leaf _ _ (.bool b)
  | .number n => .leaf _ _ (.number n)
  | .string s => .leaf _ _ (.string s)
  | .array values => .array _ _ (walk_values_redacted values)
  | .object fields => by
    obtain ⟨hs, hfields, hperm⟩ := walk_fields_redacted [] fields
    rw [List.append_nil] at hperm
    exact .object _ hs _ hfields hperm

theorem walk_values_redacted : ∀ values, ShapedValues (RedactedLeaf secret) (RedactedKey secret)
    values (redactJsonValues secret values).1
  | [] => .nil
  | value :: values => .cons _ _ _ _ (walk_redacted value) (walk_values_redacted values)

theorem walk_fields_redacted (placed : List (Text × Value)) : ∀ fields, ∃ hs,
    ShapedFields (RedactedLeaf secret) (RedactedKey secret) fields hs ∧
      (hs ++ placed).Perm (redactJsonFields secret placed fields).1
  | [] => ⟨[], .nil, List.Perm.refl _⟩
  | (key, value) :: fields => by
    have hfresh := place_key_fresh secret (redactSensitive key secret) placed
    obtain ⟨hs, hfields, hperm⟩ := walk_fields_redacted
      (insertValue (placeKey secret (redactSensitive key secret) placed)
        (redactJsonValue secret value).1 placed) fields
    refine ⟨_ :: hs, .cons key _ value _ fields hs (place_key_suffix secret _ placed)
      (walk_redacted value) hfields, ?_⟩
    apply List.Perm.trans _ hperm
    apply List.Perm.trans _ ((insert_fresh _ hfresh).symm.append_left hs)
    exact List.perm_middle.symm

end

mutual

theorem unchanged_redacted : ∀ value, (redactJsonValue secret value).2 = false →
    Redacted secret value value
  | .null, _ => .leaf _ _ .null
  | .bool b, _ => .leaf _ _ (.bool b)
  | .number n, _ => .leaf _ _ (.number n)
  | .string s, h => by
    have hsame : redactSensitive s secret = s := by
      simpa [redactJsonValue] using h
    have hleaf : RedactedLeaf secret (.string s) (.string (redactSensitive s secret)) := .string s
    rw [hsame] at hleaf
    exact .leaf _ _ hleaf
  | .array values, h => .array _ _ (unchanged_values_redacted values h)
  | .object fields, h =>
    .object _ _ _ (unchanged_fields_redacted [] fields h) (List.Perm.refl _)

theorem unchanged_values_redacted : ∀ values, (redactJsonValues secret values).2 = false →
    ShapedValues (RedactedLeaf secret) (RedactedKey secret) values values
  | [], _ => .nil
  | value :: values, h => by
    rw [redactJsonValues, Bool.or_eq_false_iff] at h
    exact .cons _ _ _ _ (unchanged_redacted value h.1) (unchanged_values_redacted values h.2)

theorem unchanged_fields_redacted (placed : List (Text × Value)) : ∀ fields,
    (redactJsonFields secret placed fields).2 = false →
      ShapedFields (RedactedLeaf secret) (RedactedKey secret) fields fields
  | [], _ => .nil
  | (key, value) :: fields, h => by
    simp only [redactJsonFields, Bool.or_eq_false_iff, bne_eq_false_iff_eq] at h
    obtain ⟨⟨⟨hkey, hvalue⟩, -⟩, hrest⟩ := h
    have hname : RedactedKey secret key key := ⟨[], by rw [hkey, List.append_nil], .inl rfl⟩
    exact .cons _ _ _ _ _ _ hname (unchanged_redacted value hvalue)
      (unchanged_fields_redacted _ fields hrest)

end

end Walk

section Unchanged

variable (secret : Option Text)

mutual

theorem unchanged_texts : ∀ value, (redactJsonValue secret value).2 = false →
    ∀ text ∈ texts value, redactSensitive text secret = text
  | .null, _ => by simp [texts]
  | .bool b, _ => by simp [texts]
  | .number n, _ => by simp [texts]
  | .string s, h => by simpa [redactJsonValue, texts] using h
  | .array values, h => unchanged_value_texts values h
  | .object fields, h => unchanged_field_texts [] fields h

theorem unchanged_value_texts : ∀ values, (redactJsonValues secret values).2 = false →
    ∀ text ∈ valueTexts values, redactSensitive text secret = text
  | [], _ => by simp [valueTexts]
  | value :: values, h => by
    rw [redactJsonValues, Bool.or_eq_false_iff] at h
    intro text htext
    rcases List.mem_append.mp htext with hfirst | hrest
    · exact unchanged_texts value h.1 text hfirst
    · exact unchanged_value_texts values h.2 text hrest

theorem unchanged_field_texts (placed : List (Text × Value)) : ∀ fields,
    (redactJsonFields secret placed fields).2 = false →
      ∀ text ∈ fieldTexts fields, redactSensitive text secret = text
  | [], _ => by simp [fieldTexts]
  | (key, value) :: fields, h => by
    simp only [redactJsonFields, Bool.or_eq_false_iff, bne_eq_false_iff_eq] at h
    obtain ⟨⟨⟨hkey, hvalue⟩, -⟩, hrest⟩ := h
    intro text htext
    rcases List.mem_append.mp htext with hfirst | hlater
    · rcases List.mem_cons.mp hfirst with rfl | hwithin
      · exact hkey
      · exact unchanged_texts value hvalue text hwithin
    · exact unchanged_field_texts _ fields hrest text hlater

end

end Unchanged

section Free

variable {secret : Text}

theorem mem_field_texts {text : Text} {fields : List (Text × Value)} : text ∈ fieldTexts fields ↔
    ∃ field ∈ fields, text = field.1 ∨ text ∈ texts field.2 := by
  induction fields with
  | nil => simp [fieldTexts]
  | cons field fields ih =>
    rw [fieldTexts, List.mem_append, List.mem_cons, ih]
    simp

theorem place_key_free (hne : secret ≠ []) {safeKey : Text} {placed : List (Text × Value)}
    (hsafe : ¬ secret <:+: safeKey)
    (hsuffix : Suffixed secret ∨ hasKey safeKey placed = false) :
    ¬ secret <:+: placeKey (some secret) safeKey placed := by
  by_cases htaken : hasKey safeKey placed = true
  · have hsuffixed : Suffixed secret := by
      rcases hsuffix with hsuffixed | hfresh
      · exact hsuffixed
      · rw [hfresh] at htaken
        cases htaken
    have hmark : keySuffix (some secret) = redactionMarker [] (sensitiveVariants secret) := by
      cases secret with
      | nil => exact absurd rfl hne
      | cons c rest => rfl
    have hparts := hsuffixed.marker.parts hne
    rw [placeKey, if_pos htaken, hmark]
    simp only
    split
    · obtain ⟨n, hnumber⟩ := free_key_number
        (safeKey ++ redactionMarker [] (sensitiveVariants secret)) placed placed.length 1
      rw [hnumber]
      exact hparts.join hsafe (hsuffixed.number n)
    · have hjoin := hparts.join hsafe fun hpart => hne (List.infix_nil.mp hpart)
      rwa [List.append_nil] at hjoin
  · rwa [placeKey, if_neg htaken]

/-- The suffixes are harmless, or the keys to come are free and stay different. -/
def Fits (secret : Text) (placed fields : List (Text × Value)) : Prop :=
  Suffixed secret ∨ FieldsApart secret fields ∧
    (placed.map Prod.fst ++ fields.map fun field => redactSensitive field.1 (some secret)).Nodup

theorem Fits.fresh {placed fields : List (Text × Value)} {key : Text} {value : Value}
    (h : Fits secret placed ((key, value) :: fields)) :
    Suffixed secret ∨ hasKey (redactSensitive key (some secret)) placed = false := by
  apply h.imp_right
  rintro ⟨-, hnodup⟩
  rw [List.map_cons, List.nodup_middle, List.nodup_cons] at hnodup
  rw [Bool.eq_false_iff, Ne, has_key_iff]
  exact fun hmem => hnodup.1 (List.mem_append_left _ hmem)

theorem Fits.next {placed fields : List (Text × Value)} {key : Text} {value : Value}
    (h : Fits secret placed ((key, value) :: fields)) (redacted : Value) :
    Fits secret (insertValue (placeKey (some secret) (redactSensitive key (some secret)) placed)
      redacted placed) fields := by
  rcases h with hsuffixed | ⟨hfields, hnodup⟩
  · exact .inl hsuffixed
  · have hfresh := place_key_fresh (some secret) (redactSensitive key (some secret)) placed
    have hperm := (insert_fresh redacted hfresh).map Prod.fst
    have hkey : Suffixed secret ∨
        placeKey (some secret) (redactSensitive key (some secret)) placed =
          redactSensitive key (some secret) := by
      apply (Fits.fresh (.inr ⟨hfields, hnodup⟩)).imp_right
      intro hfree
      rw [placeKey, hfree]
      rfl
    apply hkey.imp_right
    intro hsame
    rw [hsame] at hperm ⊢
    refine ⟨hfields.2, ?_⟩
    rw [List.map_cons, List.nodup_middle] at hnodup
    exact (hperm.append_right _).nodup_iff.mpr hnodup

mutual

theorem walk_free (hne : secret ≠ []) : ∀ value, (∀ text ∈ texts value, Separable secret text) →
    (Suffixed secret ∨ KeysApart secret value) →
      ∀ text ∈ texts (redactJsonValue (some secret) value).1, ¬ secret <:+: text
  | .null, _, _ => by simp [redactJsonValue, texts]
  | .bool b, _, _ => by simp [redactJsonValue, texts]
  | .number n, _, _ => by simp [redactJsonValue, texts]
  | .string s, htexts, _ => by
    intro text htext
    rw [redactJsonValue, texts, List.mem_singleton] at htext
    rw [htext]
    exact (htexts s (by simp [texts])).free hne
  | .array values, htexts, hkeys => walk_values_free hne values htexts hkeys
  | .object fields, htexts, hkeys => by
    have hfits : Fits secret [] fields := hkeys.imp_right fun h => ⟨h.2, h.1⟩
    exact walk_fields_free hne [] fields (by simp [fieldTexts]) htexts hfits

theorem walk_values_free (hne : secret ≠ []) : ∀ values, (∀ text ∈ valueTexts values, Separable secret text) →
    (Suffixed secret ∨ ValuesApart secret values) →
      ∀ text ∈ valueTexts (redactJsonValues (some secret) values).1, ¬ secret <:+: text
  | [], _, _ => by simp [redactJsonValues, valueTexts]
  | value :: values, htexts, hkeys => by
    intro text htext
    rw [redactJsonValues, valueTexts] at htext
    rcases List.mem_append.mp htext with hfirst | hrest
    · exact walk_free hne value (fun text h => htexts text (List.mem_append_left _ h))
        (hkeys.imp_right And.left) text hfirst
    · exact walk_values_free hne values (fun text h => htexts text (List.mem_append_right _ h))
        (hkeys.imp_right And.right) text hrest

theorem walk_fields_free (hne : secret ≠ []) (placed : List (Text × Value)) : ∀ fields,
    (∀ text ∈ fieldTexts placed, ¬ secret <:+: text) →
      (∀ text ∈ fieldTexts fields, Separable secret text) → Fits secret placed fields →
        ∀ text ∈ fieldTexts (redactJsonFields (some secret) placed fields).1, ¬ secret <:+: text
  | [], hplaced, _, _ => hplaced
  | (key, value) :: fields, hplaced, htexts, hfits => by
    have hkey : ¬ secret <:+: placeKey (some secret) (redactSensitive key (some secret)) placed :=
      place_key_free hne ((htexts key (by simp [fieldTexts])).free hne) hfits.fresh
    have hvalue := walk_free hne value (fun text h => htexts text (by simp [fieldTexts, h]))
      (hfits.imp_right fun h => h.1.1)
    have hfresh := place_key_fresh (some secret) (redactSensitive key (some secret)) placed
    apply walk_fields_free hne _ fields _ _ (hfits.next _)
    · intro text htext
      obtain ⟨field, hfield, htext⟩ := mem_field_texts.mp htext
      rcases List.mem_cons.mp ((insert_fresh _ hfresh).mem_iff.mp hfield) with rfl | hold
      · rcases htext with rfl | hwithin
        · exact hkey
        · exact hvalue text hwithin
      · exact hplaced text (mem_field_texts.mpr ⟨field, hold, htext⟩)
    · exact fun text h => htexts text (by simp [fieldTexts, h])

end

end Free

theorem alike_fields_perm {hs gs ks : List (Text × Value)} (hperm : hs.Perm gs)
    (h : AlikeFields gs ks) : ∃ js, AlikeFields hs js ∧ js.Perm ks := by
  induction hperm generalizing ks with
  | nil => exact ⟨ks, h, List.Perm.refl _⟩
  | cons f _ ih =>
    cases h with
    | cons key x y fs gs h hs =>
      obtain ⟨js, hjs, hjperm⟩ := ih hs
      exact ⟨_, .cons key x y _ js h hjs, hjperm.cons _⟩
  | swap f g fs =>
    cases h with
    | cons key x y _ _ h hs =>
      cases hs with
      | cons key' x' y' _ gs h' hs =>
        exact ⟨_, .cons key' x' y' _ _ h' (.cons key x y fs gs h hs), List.Perm.swap _ _ _⟩
  | trans _ _ ih₁ ih₂ =>
    obtain ⟨js, hjs, hjperm⟩ := ih₂ h
    obtain ⟨is, his, hiperm⟩ := ih₁ hjs
    exact ⟨is, his, hiperm.trans hjperm⟩

section ReadBack

variable {secret : Option Text}

mutual

theorem redacted_alike {x y z : Value} (h : Redacted secret x y) (hz : Alike y z) :
    Redacted secret x z := by
  cases h with
  | leaf x y h =>
    apply Shaped.leaf
    cases h <;> cases hz
    · exact .null
    · exact .bool _
    · exact .number _
    · exact .float _ _
    · exact .float _ _
    · exact .float _ _
    · exact .string _
  | array xs ys h =>
    cases hz with
    | array ys zs hz => exact .array xs zs (redacted_values_alike h hz)
  | object fs hs gs h hperm =>
    cases hz with
    | object gs ks hz =>
      obtain ⟨js, hjs, hjperm⟩ := alike_fields_perm hperm hz
      exact .object fs js ks (redacted_fields_alike h hjs) hjperm

theorem redacted_values_alike {xs ys zs : List Value}
    (h : ShapedValues (RedactedLeaf secret) (RedactedKey secret) xs ys) (hz : AlikeValues ys zs) :
    ShapedValues (RedactedLeaf secret) (RedactedKey secret) xs zs := by
  cases h with
  | nil =>
    cases hz
    exact .nil
  | cons x y xs ys h hs =>
    cases hz with
    | cons y z ys zs hz hzs =>
      exact .cons x z xs zs (redacted_alike h hz) (redacted_values_alike hs hzs)

theorem redacted_fields_alike {fs gs ks : List (Text × Value)}
    (h : ShapedFields (RedactedLeaf secret) (RedactedKey secret) fs gs) (hk : AlikeFields gs ks) :
    ShapedFields (RedactedLeaf secret) (RedactedKey secret) fs ks := by
  cases h with
  | nil =>
    cases hk
    exact .nil
  | cons k l x y fs gs hname h hs =>
    cases hk with
    | cons l y z gs ks hz hks =>
      exact .cons k l x z fs ks hname (redacted_alike h hz) (redacted_fields_alike hs hks)

end

mutual

theorem alike_texts {y z : Value} (h : Alike y z) : texts z = texts y := by
  cases h with
  | array ys zs h => exact alike_value_texts h
  | object fs gs h => exact alike_field_texts h
  | _ => rfl

theorem alike_value_texts {ys zs : List Value} (h : AlikeValues ys zs) :
    valueTexts zs = valueTexts ys := by
  cases h with
  | nil => rfl
  | cons y z ys zs h hs => rw [valueTexts, valueTexts, alike_texts h, alike_value_texts hs]

theorem alike_field_texts {fs gs : List (Text × Value)} (h : AlikeFields fs gs) :
    fieldTexts gs = fieldTexts fs := by
  cases h with
  | nil => rfl
  | cons key y z fs gs h hs => rw [fieldTexts, fieldTexts, alike_texts h, alike_field_texts hs]

end

end ReadBack

/-- The credential is gone from a text that is no document, and from every string and key of a
document, which keeps its shape and everything else. -/
theorem body_redacted (serde : SerdeJson) (text secret : Text) (hne : secret ≠ [])
    (hround : ∀ value, serde.fromStr text = some value →
      RoundTrips serde (redactJsonValue (some secret) value).1) :
    (serde.fromStr text = none → Separable secret text →
      ¬ secret <:+: redactBodyWithSecret serde (some secret) text) ∧
    ∀ value, serde.fromStr text = some value → ∃ again,
      serde.fromStr (redactBodyWithSecret serde (some secret) text) = some again ∧
        SameShape value again ∧ Redacted (some secret) value again ∧
        (SeparableIn secret value → ∀ part ∈ texts again, ¬ secret <:+: part) := by
  constructor
  · intro hnone hseparable
    rw [redactBodyWithSecret, hnone]
    exact hseparable.free hne
  · intro value hvalue
    obtain ⟨again, hagain, halike⟩ := hround value hvalue
    by_cases hchanged : (redactJsonValue (some secret) value).2 = true
    · have hbody : redactBodyWithSecret serde (some secret) text =
          serde.toStr (redactJsonValue (some secret) value).1 := by
        simp only [redactBodyWithSecret, hvalue, hchanged, if_true]
      have hredacted := redacted_alike (walk_redacted (some secret) value) halike
      refine ⟨again, by rw [hbody, hagain], hredacted.same_shape, hredacted, ?_⟩
      intro hseparable
      rw [alike_texts halike]
      exact walk_free hne value hseparable.texts hseparable.keys
    · have hbody : redactBodyWithSecret serde (some secret) text = text := by
        simp only [redactBodyWithSecret, hvalue, hchanged, Bool.false_eq_true, if_false]
      rw [Bool.not_eq_true] at hchanged
      have hredacted := unchanged_redacted (some secret) value hchanged
      refine ⟨value, by rw [hbody, hvalue], hredacted.same_shape, hredacted, ?_⟩
      intro hseparable part hpart
      have hfree := (hseparable.texts part hpart).free hne
      rwa [unchanged_texts (some secret) value hchanged part hpart] at hfree

def sampleSecret : Text := ['k']

/-- The two keys become equal, and the number stays. -/
def sampleValue : Value :=
  .object [(['%', '6', 'B'], .array [.string ['x', 'k'], .number (.posInt 7)]), (['k'], .null)]

theorem plain_round_trips {value : Value} (hplain : plain value = true) :
    RoundTrips plainSerde value :=
  ⟨value, plain_reads_back value hplain, alike_refl value⟩

theorem sample_plain : plain (redactJsonValue (some sampleSecret) sampleValue).1 = true := by
  decide +kernel

theorem sample_suffixed : Suffixed sampleSecret where
  marker := marker_apart (by decide) (by decide +kernel)
  number n := by
    rintro ⟨before, after, hnumber⟩
    have hmem : 'k' ∈ '-' :: ofNat n := by
      rw [← hnumber]
      simp [sampleSecret]
    rcases List.mem_cons.mp hmem with hsign | hdigit
    · cases hsign
    · have := Nat.isDigit_of_mem_toDigits (by decide) (by decide) hdigit
      simp at this

theorem sample_separable : SeparableIn sampleSecret sampleValue where
  texts text htext := by
    apply Or.inr
    have hmarker : ∀ text ∈ texts sampleValue,
        redactionMarker text (sensitiveVariants sampleSecret) ≠ [] := by decide +kernel
    exact marker_apart (by decide) (hmarker text htext)
  keys := .inl sample_suffixed

theorem body_redacted_sample : ∃ again, plainSerde.fromStr (redactBodyWithSecret plainSerde
      (some sampleSecret) (plainSerde.toStr sampleValue)) = some again ∧
    SameShape sampleValue again ∧ Redacted (some sampleSecret) sampleValue again ∧
    ∀ part ∈ texts again, ¬ sampleSecret <:+: part := by
  have hread := plain_reads_back sampleValue rfl
  have hround : ∀ value, plainSerde.fromStr (plainSerde.toStr sampleValue) = some value →
      RoundTrips plainSerde (redactJsonValue (some sampleSecret) value).1 := by
    intro value hvalue
    rw [hread] at hvalue
    cases hvalue
    exact plain_round_trips sample_plain
  obtain ⟨again, hagain, hshape, hredacted, hfree⟩ :=
    (body_redacted plainSerde _ sampleSecret (by decide) hround).2 sampleValue hread
  exact ⟨again, hagain, hshape, hredacted, hfree sample_separable⟩

def numberSecret : Text := ['1']

def numberValue : Value := .array [.number (.posInt 1)]

theorem number_kept : ¬ ∀ (serde : SerdeJson) (text secret : Text), secret ≠ [] →
    (∀ value, serde.fromStr text = some value →
      RoundTrips serde (redactJsonValue (some secret) value).1) →
    ¬ secret <:+: redactBodyWithSecret serde (some secret) text := by
  intro hclaim
  have hread := plain_reads_back numberValue rfl
  have hbody : redactBodyWithSecret plainSerde (some numberSecret) (plainSerde.toStr numberValue) =
      plainSerde.toStr numberValue := by
    simp only [redactBodyWithSecret, hread]
    rfl
  apply hclaim plainSerde (plainSerde.toStr numberValue) numberSecret (by decide)
  · intro value hvalue
    rw [hread] at hvalue
    cases hvalue
    exact plain_round_trips rfl
  · rw [hbody]
    exact ⟨['['], [']'], by decide⟩

end Siralos.RedactedBody
