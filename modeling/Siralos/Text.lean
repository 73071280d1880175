import Mathlib.Algebra.GroupWithZero.Nat
import Mathlib.Data.Char
import Mathlib.Data.List.AList
import Mathlib.Data.List.Infix
import Mathlib.Data.List.DropRight
import Mathlib.Data.List.Lex
import Mathlib.Tactic.Common

/-!
# Text

The source's `String` and `&str` are lists of characters here. Byte lengths,
which every bound of the source counts, are kept by `utf8Len`. Positions count
characters: the source only cuts its strings at character boundaries.
-/

set_option autoImplicit false

namespace Siralos

abbrev Text := List Char

instance : Coe String Text := ⟨String.toList⟩

namespace Text

instance (t : Text) (ts : List Text) : Decidable (t ∈ ts) := inferInstance

def utf8Len (t : Text) : ℕ := (t.map Char.utf8Size).sum

/-- Unicode `White_Space`, as `char::is_whitespace` tests it. -/
def isWhitespace (c : Char) : Bool :=
  let n := c.toNat
  (9 ≤ n && n ≤ 13) || n == 0x20 || n == 0x85 || n == 0xA0 || n == 0x1680 ||
    (0x2000 ≤ n && n ≤ 0x200A) || n == 0x2028 || n == 0x2029 || n == 0x202F ||
    n == 0x205F || n == 0x3000

/-- Unicode category `Cc`, as `char::is_control` tests it. -/
def isControl (c : Char) : Bool := c.toNat < 0x20 || (0x7F ≤ c.toNat && c.toNat < 0xA0)

def blank (t : Text) : Bool := t.all isWhitespace

def trimStart (t : Text) : Text := t.dropWhile isWhitespace

def trimEnd (t : Text) : Text := t.rdropWhile isWhitespace

def trim (t : Text) : Text := trimEnd (trimStart t)

def trimEndMatches (c : Char) (t : Text) : Text := t.rdropWhile (· == c)

def stripPrefix : Text → Text → Option Text
  | [], t => some t
  | _ :: _, [] => none
  | p :: ps, c :: t => if p = c then stripPrefix ps t else none

def startsWith (p t : Text) : Bool := (stripPrefix p t).isSome

def toAsciiLowercase (t : Text) : Text := t.map Char.toLower

def eqIgnoreAsciiCase (a b : Text) : Bool := toAsciiLowercase a == toAsciiLowercase b

/-- Decimal digits, as `{}` formats an unsigned integer. -/
def ofNat (n : ℕ) : Text := Nat.toDigits 10 n

@[simp] theorem utf8Len_nil : utf8Len [] = 0 := rfl

@[simp] theorem utf8Len_cons (c : Char) (t : Text) :
    utf8Len (c :: t) = c.utf8Size + utf8Len t := by
  simp [utf8Len]

@[simp] theorem utf8Len_append (s t : Text) :
    utf8Len (s ++ t) = utf8Len s + utf8Len t := by
  simp [utf8Len]

theorem ofString_ne {a b : String} (h : a ≠ b) : (a : Text) ≠ (b : Text) :=
  fun he => h (String.toList_inj.mp he)

theorem key_beq (a b : String) : (a.toList == b.toList) = decide (a = b) := by
  by_cases h : a = b
  · simp [h]
  · simp only [h, decide_false, beq_eq_false_iff_ne]
    exact ofString_ne h

theorem length_le_utf8Len (t : Text) : t.length ≤ utf8Len t := by
  induction t with
  | nil => simp
  | cons c t ih =>
    have hc := c.utf8Size_pos
    simp only [List.length_cons, utf8Len_cons]
    omega

theorem of_nat_inj {m n : ℕ} (h : ofNat m = ofNat n) : m = n := by
  have hm := @Nat.ofDigitChars_toDigits 10 m (by decide) (by decide)
  have hn := @Nat.ofDigitChars_toDigits 10 n (by decide) (by decide)
  rw [← hm, ← hn]
  exact congrArg (fun t => Nat.ofDigitChars 10 t 0) h

theorem strip_prefix_some (p t r : Text) : stripPrefix p t = some r ↔ t = p ++ r := by
  induction p generalizing t with
  | nil => simp [stripPrefix]
  | cons c ps ih =>
    cases t with
    | nil => simp [stripPrefix]
    | cons d t =>
      by_cases h : c = d
      · simp [stripPrefix, h, ih]
      · simp [stripPrefix, h, Ne.symm h]

theorem starts_with_iff (p t : Text) : startsWith p t = true ↔ p <+: t := by
  rw [startsWith, Option.isSome_iff_exists]
  constructor
  · rintro ⟨r, hr⟩
    exact ⟨r, ((strip_prefix_some p t r).mp hr).symm⟩
  · rintro ⟨r, hr⟩
    exact ⟨r, (strip_prefix_some p t r).mpr hr.symm⟩

theorem blank_iff (t : Text) : blank t = true ↔ ∀ c ∈ t, isWhitespace c = true := by
  simp [blank]

@[simp] theorem blank_append (s t : Text) : blank (s ++ t) = (blank s && blank t) := by
  simp [blank]

theorem trim_start_eq_nil (t : Text) : trimStart t = [] ↔ blank t = true := by
  rw [trimStart, List.dropWhile_eq_nil_iff, blank_iff]

theorem trim_start_append_blank (s t : Text) (h : blank s = true) :
    trimStart (s ++ t) = trimStart t := by
  induction s with
  | nil => rfl
  | cons c s ih =>
    simp only [blank, List.all_cons, Bool.and_eq_true] at h
    have hs := ih h.2
    simpa [trimStart, List.dropWhile_cons, h.1] using hs

theorem trim_eq_nil (t : Text) : trim t = [] ↔ blank t = true := by
  rw [trim, trimEnd, List.rdropWhile_eq_nil_iff, blank_iff]
  constructor
  · intro h
    by_contra hb
    have hne : trimStart t ≠ [] := by
      rw [Ne, trim_start_eq_nil, blank_iff]
      exact hb
    have hhead := List.head_dropWhile_not isWhitespace hne
    have := h _ (List.head_mem hne)
    simp only [trimStart] at this
    simp [this] at hhead
  · intro h c hc
    exact h c ((List.dropWhile_sublist _).subset hc)

theorem trim_end_append_blank (s t : Text) (h : blank t = true) :
    trimEnd (s ++ t) = trimEnd s := by
  induction t using List.reverseRecOn with
  | nil => simp
  | append_singleton t c ih =>
    simp only [blank_append, Bool.and_eq_true] at h
    rw [← List.append_assoc, trimEnd, List.rdropWhile_concat_pos _ _ _ (by simpa [blank] using h.2)]
    exact ih h.1

theorem trim_blank_append (s t : Text) (h : blank s = true) : trim (s ++ t) = trim t := by
  rw [trim, trim, trim_start_append_blank s t h]

theorem trim_append_blank (s t : Text) (h : blank t = true) : trim (s ++ t) = trim s := by
  rw [trim, trim]
  by_cases hs : blank s = true
  · rw [trim_start_append_blank s t hs, (trim_start_eq_nil s).mpr hs, (trim_start_eq_nil t).mpr h]
  · have hne : trimStart s ≠ [] := fun he => hs ((trim_start_eq_nil s).mp he)
    have happ : trimStart (s ++ t) = trimStart s ++ t := by
      unfold trimStart at hne ⊢
      rw [List.dropWhile_append, if_neg (by simpa using hne)]
    rw [happ, trim_end_append_blank _ t h]

theorem trim_trim_end_matches (t : Text) (c : Char) (hc : isWhitespace c = true) :
    trim (trimEndMatches c t) = trim t := by
  have hsplit : trimEndMatches c t ++ t.rtakeWhile (· == c) = t :=
    List.rdropWhile_append_rtakeWhile
  have hblank : blank (t.rtakeWhile (· == c)) = true := by
    rw [blank_iff]
    intro d hd
    have := List.mem_rtakeWhile_imp hd
    simp only [beq_iff_eq] at this
    rwa [this]
  calc trim (trimEndMatches c t)
      = trim (trimEndMatches c t ++ t.rtakeWhile (· == c)) := (trim_append_blank _ _ hblank).symm
    _ = trim t := by rw [hsplit]

end Text

section Checks

variable {ε ε' α β : Type}

theorem except_bind_ok (x : Except ε α) (f : α → Except ε β) (b : β) :
    (x >>= f) = .ok b ↔ ∃ a, x = .ok a ∧ f a = .ok b := by
  cases x <;> simp [bind, Except.bind]

theorem map_error_ok (f : ε → ε') (x : Except ε α) (a : α) :
    x.mapError f = .ok a ↔ x = .ok a := by
  cases x <;> simp [Except.mapError]

/-- Ends with the message when the check refuses. -/
def refuse (refused : Bool) (message : Text) : Except Text Unit :=
  if refused then .error message else .ok ()

theorem refuse_ok (refused : Bool) (message : Text) (u : Unit) :
    refuse refused message = .ok u ↔ refused = false := by
  cases refused <;> simp [refuse]

end Checks

section Maps

abbrev TextMap (β : Type) := AList fun _ : Text => β

variable {β : Type}

def sortedKeys (map : TextMap β) : List Text := map.keys.mergeSort fun a b => a ≤ b

def sortedValues (map : TextMap β) : List β := (sortedKeys map).filterMap map.lookup

theorem sorted_keys_nodup (map : TextMap β) : (sortedKeys map).Nodup :=
  (List.mergeSort_perm map.keys _).nodup_iff.mpr map.keys_nodup

theorem mem_sorted_keys (map : TextMap β) (key : Text) : key ∈ sortedKeys map ↔ key ∈ map :=
  List.mem_mergeSort.trans AList.mem_keys.symm

theorem mem_sorted_values (map : TextMap β) (value : β) :
    value ∈ sortedValues map ↔ ∃ key, map.lookup key = some value := by
  rw [sortedValues, List.mem_filterMap]
  constructor
  · rintro ⟨key, -, h⟩
    exact ⟨key, h⟩
  · rintro ⟨key, h⟩
    exact ⟨key, (mem_sorted_keys map key).mpr (AList.lookup_isSome.mp (by rw [h]; rfl)), h⟩

end Maps

end Siralos
