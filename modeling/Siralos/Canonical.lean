import Siralos.Coding
import Siralos.Identity

/-!
# Reading canonical JSON back

Canonical JSON determines the value it was written from: a canonical text that ends, or is
followed by a comma or a closing bracket, is read in one way only.
-/

set_option autoImplicit false

namespace Siralos.Identity

open Coding

def hexValue (c : Char) : ℕ :=
  if c.isDigit then c.toNat - '0'.toNat else c.toNat - 'a'.toNat + 10

/-- Reads the character behind the next escape. -/
def readChar : Text → Option (Char × Text)
  | [] => none
  | '\\' :: '"' :: rest => some ('"', rest)
  | '\\' :: '\\' :: rest => some ('\\', rest)
  | '\\' :: 'b' :: rest => some (Char.ofNat 8, rest)
  | '\\' :: 'f' :: rest => some (Char.ofNat 12, rest)
  | '\\' :: 'n' :: rest => some ('\n', rest)
  | '\\' :: 'r' :: rest => some ('\r', rest)
  | '\\' :: 't' :: rest => some ('\t', rest)
  | '\\' :: 'u' :: _ :: _ :: high :: low :: rest =>
    some (Char.ofNat (hexValue high * 16 + hexValue low), rest)
  | c :: rest => some (c, rest)

theorem escaped_control (n : ℕ) (h : n < 32) :
    ∃ high low, escapeControl (Char.ofNat n) = ['\\', 'u', '0', '0', high, low] ∧
      Char.ofNat (hexValue high * 16 + hexValue low) = Char.ofNat n := by
  have hall : ∀ n < 32, escapeControl (Char.ofNat n) =
      ['\\', 'u', '0', '0', (escapeControl (Char.ofNat n)).getD 4 '0',
        (escapeControl (Char.ofNat n)).getD 5 '0'] ∧
      Char.ofNat (hexValue ((escapeControl (Char.ofNat n)).getD 4 '0') * 16 +
        hexValue ((escapeControl (Char.ofNat n)).getD 5 '0')) = Char.ofNat n := by
    decide
  exact ⟨_, _, hall n h⟩

theorem read_escaped (c : Char) (rest : Text) : readChar (escapeChar c ++ rest) = some (c, rest) := by
  unfold escapeChar
  split_ifs with h1 h2 h3 h4 h5 h6 h7 h8
  · rw [h1]
    rfl
  · rw [h2]
    rfl
  · rw [show c = Char.ofNat 8 by rw [← h3, Char.ofNat_toNat]]
    rfl
  · rw [show c = Char.ofNat 12 by rw [← h4, Char.ofNat_toNat]]
    rfl
  · rw [h5]
    rfl
  · rw [h6]
    rfl
  · rw [h7]
    rfl
  · obtain ⟨high, low, hescaped, hvalue⟩ := escaped_control c.toNat h8
    rw [Char.ofNat_toNat] at hescaped hvalue
    rw [hescaped]
    show some (Char.ofNat (hexValue high * 16 + hexValue low), rest) = some (c, rest)
    rw [hvalue]
  · rw [List.singleton_append]
    unfold readChar
    split <;> simp_all

theorem escape_separable : Separable escapeChar := separable_of_read readChar read_escaped

theorem escape_ne_quote (c : Char) (r s : Text) : escapeChar c ++ r ≠ '"' :: s := by
  intro h
  unfold escapeChar at h
  split_ifs at h with h1 <;> first
    | exact absurd (List.cons.inj h).1 (by decide)
    | exact absurd (List.cons.inj h).1 h1

theorem string_read {v w r s : Text} (h : jsonEscape v ++ r = jsonEscape w ++ s) : v = w ∧ r = s := by
  rw [jsonEscape, jsonEscape] at h
  simp only [List.cons_append, List.append_assoc, List.cons.injEq, true_and, List.nil_append] at h
  exact flat_map_until escape_separable escape_ne_quote h

def Ends : Text → Prop
  | [] => True
  | c :: _ => c = ',' ∨ c = ']' ∨ c = Char.ofNat 0x7D

theorem digits_of_nat (n : ℕ) : ∀ c ∈ Text.ofNat n, c.isDigit = true := fun _ hc =>
  Nat.isDigit_of_mem_toDigits (by omega) (by omega) hc

theorem ends_digits (r : Text) (h : Ends r) : r.takeWhile Char.isDigit = [] := by
  cases r with
  | nil => rfl
  | cons c r =>
    apply List.takeWhile_cons_of_neg
    rcases h with rfl | rfl | rfl <;> decide

theorem number_read {m n : ℕ} {r s : Text} (hr : Ends r) (hs : Ends s)
    (h : Text.ofNat m ++ r = Text.ofNat n ++ s) : m = n ∧ r = s := by
  have hdigits : Text.ofNat m = Text.ofNat n := by
    have htake := congrArg (List.takeWhile Char.isDigit) h
    rwa [List.takeWhile_append_of_pos (digits_of_nat m), List.takeWhile_append_of_pos
      (digits_of_nat n), ends_digits r hr, ends_digits s hs, List.append_nil, List.append_nil] at htake
  rw [hdigits] at h
  exact ⟨Text.of_nat_inj hdigits, List.append_cancel_left h⟩

/-- The kind of value that a first character announces. -/
def shape : Option Char → ℕ
  | some '"' => 0
  | some 't' => 1
  | some 'f' => 2
  | some 'n' => 3
  | some '[' => 4
  | some c => if c = Char.ofNat 0x7B then 5 else if c.isDigit then 6 else 7
  | none => 8

def kind : CanonicalValue → ℕ
  | .str _ => 0
  | .bool true => 1
  | .bool false => 2
  | .null => 3
  | .array _ => 4
  | .object _ => 5
  | .u64 _ => 6

theorem digit_shape (c : Char) (h : c.isDigit = true) : shape (some c) = 6 := by
  have hbounds : 48 ≤ c.toNat ∧ c.toNat ≤ 57 := by
    simpa [Char.isDigit, UInt32.le_iff_toNat_le] using h
  have hall : ∀ n < 58, 48 ≤ n → shape (some (Char.ofNat n)) = 6 := by decide
  have hc := hall c.toNat (by omega) hbounds.1
  rwa [Char.ofNat_toNat] at hc

theorem kind_shape (a : CanonicalValue) (r : Text) : shape (toCanonical a ++ r).head? = kind a := by
  cases a with
  | u64 n =>
    cases hdigits : Text.ofNat n with
    | nil => exact absurd hdigits Nat.toDigits_ne_nil
    | cons c rest =>
      have hdigit := digits_of_nat n c (by rw [hdigits]; exact List.mem_cons_self)
      change shape (Text.ofNat n ++ r).head? = 6
      rw [hdigits]
      exact digit_shape c hdigit
  | bool b => cases b <;> rfl
  | _ => rfl

theorem value_ne_close (a : CanonicalValue) (r s : Text) (c : Char) (h : shape (some c) = 7) :
    toCanonical a ++ r ≠ c :: s := by
  intro heq
  have hkind := kind_shape a r
  rw [heq, List.head?_cons, h] at hkind
  cases a with
  | bool b => cases b <;> cases hkind
  | _ => cases hkind

theorem ends_entries (entries : List CanonicalValue) (r : Text) :
    Ends (writeEntries false entries ++ ']' :: r) := by
  cases entries with
  | nil => exact Or.inr (Or.inl rfl)
  | cons entry entries => exact Or.inl rfl

theorem ends_fields (fields : List (Text × CanonicalValue)) (r : Text) :
    Ends (writeFields false fields ++ Char.ofNat 0x7D :: r) := by
  cases fields with
  | nil => exact Or.inr (Or.inr rfl)
  | cons field fields => exact Or.inl rfl

theorem object_text (fields : List (Text × CanonicalValue)) (r : Text) :
    toCanonical (.object fields) ++ r =
      Char.ofNat 0x7B :: (writeFields true fields ++ Char.ofNat 0x7D :: r) := by
  change Char.ofNat 0x7B :: writeFields true fields ++ [Char.ofNat 0x7D] ++ r = _
  simp only [List.cons_append, List.append_assoc, List.nil_append]

theorem array_text (entries : List CanonicalValue) (r : Text) :
    toCanonical (.array entries) ++ r = '[' :: (writeEntries true entries ++ ']' :: r) := by
  change '[' :: writeEntries true entries ++ [']'] ++ r = _
  simp only [List.cons_append, List.append_assoc, List.nil_append]

theorem entries_text (first : Bool) (entry : CanonicalValue) (entries : List CanonicalValue)
    (r : Text) :
    writeEntries first (entry :: entries) ++ ']' :: r =
      separator first ++ (toCanonical entry ++ (writeEntries false entries ++ ']' :: r)) := by
  rw [writeEntries, List.append_assoc, List.append_assoc]

theorem fields_text (first : Bool) (key : Text) (value : CanonicalValue)
    (fields : List (Text × CanonicalValue)) (r : Text) :
    writeFields first ((key, value) :: fields) ++ Char.ofNat 0x7D :: r =
      separator first ++ (jsonEscape key ++
        ':' :: (toCanonical value ++ (writeFields false fields ++ Char.ofNat 0x7D :: r))) := by
  rw [writeFields]
  simp only [List.append_assoc, List.cons_append]

theorem entries_ne_close (first : Bool) (entry : CanonicalValue) (entries : List CanonicalValue)
    (r s : Text) : writeEntries first (entry :: entries) ++ ']' :: r ≠ ']' :: s := by
  intro h
  rw [entries_text] at h
  cases first with
  | true => exact value_ne_close entry _ s ']' rfl h
  | false => exact absurd (List.cons.inj h).1 (by decide)

theorem fields_ne_close (first : Bool) (field : Text × CanonicalValue)
    (fields : List (Text × CanonicalValue)) (r s : Text) :
    writeFields first (field :: fields) ++ Char.ofNat 0x7D :: r ≠ Char.ofNat 0x7D :: s := by
  intro h
  obtain ⟨key, value⟩ := field
  rw [fields_text] at h
  cases first with
  | true => exact absurd (List.cons.inj h).1 (by decide)
  | false => exact absurd (List.cons.inj h).1 (by decide)

theorem same_kind {a b : CanonicalValue} {r s : Text} (h : toCanonical a ++ r = toCanonical b ++ s) :
    kind a = kind b := by
  rw [← kind_shape a r, ← kind_shape b s, h]

mutual

theorem value_read : ∀ (a b : CanonicalValue) (r s : Text),
    (∀ n, a = .u64 n → Ends r ∧ Ends s) →
    toCanonical a ++ r = toCanonical b ++ s → a = b ∧ r = s
  | .str v, b, r, s, _, h => by
    have hkind := same_kind h
    cases b with
    | str w =>
      obtain ⟨rfl, hrs⟩ := string_read h
      exact ⟨rfl, hrs⟩
    | bool b => cases b <;> cases hkind
    | _ => cases hkind
  | .u64 m, b, r, s, hends, h => by
    have hkind := same_kind h
    cases b with
    | u64 n =>
      obtain ⟨hr, hs⟩ := hends m rfl
      obtain ⟨rfl, hrs⟩ := number_read hr hs h
      exact ⟨rfl, hrs⟩
    | bool b => cases b <;> cases hkind
    | _ => cases hkind
  | .bool v, b, r, s, _, h => by
    have hkind := same_kind h
    cases b with
    | bool w => cases v <;> cases w <;> first | exact ⟨rfl, List.append_cancel_left h⟩ | cases hkind
    | _ => cases v <;> cases hkind
  | .null, b, r, s, _, h => by
    have hkind := same_kind h
    cases b with
    | null => exact ⟨rfl, List.append_cancel_left h⟩
    | bool b => cases b <;> cases hkind
    | _ => cases hkind
  | .array xs, b, r, s, _, h => by
    have hkind := same_kind h
    cases b with
    | array ys =>
      rw [array_text, array_text] at h
      obtain ⟨rfl, hrs⟩ := entries_read xs ys true r s (List.cons.inj h).2
      exact ⟨rfl, hrs⟩
    | bool b => cases b <;> cases hkind
    | _ => cases hkind
  | .object fs, b, r, s, _, h => by
    have hkind := same_kind h
    cases b with
    | object gs =>
      rw [object_text, object_text] at h
      obtain ⟨rfl, hrs⟩ := fields_read fs gs true r s (List.cons.inj h).2
      exact ⟨rfl, hrs⟩
    | bool b => cases b <;> cases hkind
    | _ => cases hkind

theorem entries_read : ∀ (xs ys : List CanonicalValue) (first : Bool) (r s : Text),
    writeEntries first xs ++ ']' :: r = writeEntries first ys ++ ']' :: s → xs = ys ∧ r = s
  | [], [], _, r, s, h => ⟨rfl, (List.cons.inj h).2⟩
  | [], y :: ys, first, r, s, h => absurd h.symm (entries_ne_close first y ys s r)
  | x :: xs, [], first, r, s, h => absurd h (entries_ne_close first x xs r s)
  | x :: xs, y :: ys, first, r, s, h => by
    rw [entries_text, entries_text] at h
    obtain ⟨rfl, hrest⟩ := value_read x y _ _
      (fun _ _ => ⟨ends_entries xs r, ends_entries ys s⟩) (List.append_cancel_left h)
    obtain ⟨rfl, hrs⟩ := entries_read xs ys false r s hrest
    exact ⟨rfl, hrs⟩

theorem fields_read : ∀ (fs gs : List (Text × CanonicalValue)) (first : Bool) (r s : Text),
    writeFields first fs ++ Char.ofNat 0x7D :: r = writeFields first gs ++ Char.ofNat 0x7D :: s →
      fs = gs ∧ r = s
  | [], [], _, r, s, h => ⟨rfl, (List.cons.inj h).2⟩
  | [], g :: gs, first, r, s, h => absurd h.symm (fields_ne_close first g gs s r)
  | f :: fs, [], first, r, s, h => absurd h (fields_ne_close first f fs r s)
  | (key, x) :: fs, (other, y) :: gs, first, r, s, h => by
    rw [fields_text, fields_text] at h
    obtain ⟨rfl, hvalue⟩ := string_read (List.append_cancel_left h)
    obtain ⟨rfl, hrest⟩ := value_read x y _ _
      (fun _ _ => ⟨ends_fields fs r, ends_fields gs s⟩) (List.cons.inj hvalue).2
    obtain ⟨rfl, hrs⟩ := fields_read fs gs false r s hrest
    exact ⟨rfl, hrs⟩

end

theorem canonical_read {a b : CanonicalValue} {r s : Text} (hr : Ends r) (hs : Ends s)
    (h : toCanonical a ++ r = toCanonical b ++ s) : a = b ∧ r = s :=
  value_read a b r s (fun _ _ => ⟨hr, hs⟩) h

theorem canonical_inj {a b : CanonicalValue} (h : toCanonical a = toCanonical b) : a = b := by
  have hread : toCanonical a ++ [] = toCanonical b ++ [] := by rw [h]
  have hends : Ends [] := trivial
  exact (canonical_read hends hends hread).1

/-- What separates values or closes a container. -/
def closers : List Char := [',', ']', Char.ofNat 0x7D]

theorem closers_end {c : Char} (h : c ∈ closers) (r : Text) : Ends (c :: r) := by
  simpa [closers, Ends] using h

theorem canonical_unique (a b : CanonicalValue) :
    (toCanonical a = toCanonical b ↔ a = b) ∧
      (∀ c ∈ closers, ∀ d ∈ closers, toCanonical a ++ [c] <+: toCanonical b ++ [d] → a = b) ∧
      ∀ d ∈ closers, toCanonical a <+: toCanonical b ++ [d] →
        a = b ∨ ∃ m n, a = .u64 m ∧ b = .u64 n := by
  refine ⟨⟨canonical_inj, fun h => by rw [h]⟩, ?_, ?_⟩
  · rintro c hc d hd ⟨rest, h⟩
    rw [List.append_assoc] at h
    exact (canonical_read (closers_end hc rest) (closers_end hd []) h).1
  · rintro d hd ⟨rest, h⟩
    by_cases hnumber : ∃ m, a = .u64 m
    · obtain ⟨m, rfl⟩ := hnumber
      have hkind := same_kind h
      right
      cases b with
      | u64 n => exact ⟨m, n, rfl, rfl⟩
      | bool b => cases b <;> cases hkind
      | _ => cases hkind
    · left
      exact (value_read a b _ _ (fun n hn => absurd ⟨n, hn⟩ hnumber) h).1

/-- The digits of one go on to those of twelve. -/
theorem canonical_unique_fails :
    ¬ ∀ (a b : CanonicalValue), ∀ d ∈ closers, a ≠ b →
      toCanonical a <+: toCanonical b ++ [d] → toCanonical a = toCanonical b ++ [d] := by
  intro h
  have hsame := h (.u64 1) (.u64 12) ',' (by decide) (by simp) (by decide)
  exact absurd hsame (by decide)

end Siralos.Identity
