import Siralos.CredentialGate

/-!
# Research versions

The version scanner against the regular expression in its comment: it takes a dot behind a number
for the next number's, and one behind the fourth number for no one's.
-/

set_option autoImplicit false

namespace Siralos.Research

open Knowledge (Bytes bytesOf word isAsciiAlphanumeric)
open ReplayStore (bytes_cons bytes_append byte_ascii encode_ne_nil)

def isDigitByte (b : UInt8) : Bool := 0x30 ≤ b && b ≤ 0x39

def isAlphabeticByte (b : UInt8) : Bool := (0x41 ≤ b && b ≤ 0x5A) || (0x61 ≤ b && b ≤ 0x7A)

def isSuffixByte (b : UInt8) : Bool := isAsciiAlphanumeric b || b == 0x2E || b == 0x2D

/-- What is behind the numbers, of which as many may follow. A dot behind the last is passed too. -/
def numericGroups : ℕ → Bytes → Option Bytes
  | 0, bytes => some bytes
  | n + 1, bytes =>
    let rest := bytes.dropWhile isDigitByte
    if rest.length = bytes.length then none
    else
      match rest with
      | [] => some []
      | b :: behind => if b == 0x2E then numericGroups n behind else some (b :: behind)

def isValidVersion (version : Text) : Bool :=
  let bytes := bytesOf version
  if bytes.isEmpty || decide (64 < Text.utf8Len version) then false
  else
    match numericGroups 4 bytes with
    | none => false
    | some [] => true
    | some (separator :: suffix) =>
      if separator != 0x2D && separator != 0x2E then false
      else suffix.head?.any isAlphabeticByte && suffix.all isSuffixByte

def Digits (text : Text) : Prop := text ≠ [] ∧ text.all Char.isDigit = true

instance (text : Text) : Decidable (Digits text) := inferInstanceAs (Decidable (_ ∧ _))

/-- `[0-9]+(\.[0-9]+)*` -/
def numeric (first : Text) (groups : List Text) : Text := first ++ groups.flatMap ('.' :: ·)

def isSuffixChar (c : Char) : Bool := c.isAlphanum || c == '.' || c == '-'

/-- `[A-Za-z][A-Za-z0-9.-]*` -/
def Label (text : Text) : Prop :=
  text.head?.any Char.isAlpha = true ∧ text.all isSuffixChar = true

/-- `^[0-9]+(\.[0-9]+){0,3}([.-][A-Za-z][A-Za-z0-9.-]*)?$` -/
def VersionGrammar (version : Text) : Prop :=
  ∃ (first : Text) (groups : List Text) (suffix : Text), Digits first ∧
    (∀ group ∈ groups, Digits group) ∧ groups.length ≤ 3 ∧
    version = numeric first groups ++ suffix ∧
    (suffix = [] ∨ ∃ separator label, suffix = separator :: label ∧
      (separator = '.' ∨ separator = '-') ∧ Label label)

def DottedLabel (version : Text) : Prop :=
  ∃ (first : Text) (groups : List Text) (label : Text), Digits first ∧
    (∀ group ∈ groups, Digits group) ∧ groups.length ≤ 3 ∧
    version = numeric first groups ++ '.' :: label ∧ Label label

/-- Behind four numbers and a dot the text ends, or a separator and a label follow. -/
def DottedFourth (version : Text) : Prop :=
  ∃ (first : Text) (groups : List Text) (suffix : Text), Digits first ∧
    (∀ group ∈ groups, Digits group) ∧ groups.length = 3 ∧
    version = numeric first groups ++ '.' :: suffix ∧
    (suffix = [] ∨ ∃ separator label, suffix = separator :: label ∧
      (separator = '.' ∨ separator = '-') ∧ Label label)

/-- A class of bytes and one of characters that are the same ASCII characters. -/
structure AsciiClass (p : Char → Bool) (q : UInt8 → Bool) : Prop where
  agree : ∀ n < 128, q (UInt8.ofNat n) = p (Char.ofNat n)
  small : ∀ c, p c = true → c.toNat < 128
  low : ∀ b, q b = true → b.toNat < 128

section Classes

variable {p : Char → Bool} {q : UInt8 → Bool}

theorem class_head (h : AsciiClass p q) (c : Char) :
    ∃ b rest, String.utf8EncodeChar c = b :: rest ∧ q b = p c ∧ (p c = true → rest = []) := by
  by_cases hc : c.toNat < 128
  · refine ⟨_, _, byte_ascii hc, ?_, fun _ => rfl⟩
    rw [h.agree c.toNat hc, Char.ofNat_toNat]
  · obtain ⟨b, rest, hbytes⟩ := List.exists_cons_of_ne_nil (encode_ne_nil c)
    have hp : p c = false := Bool.eq_false_iff.mpr fun hp => hc (h.small c hp)
    refine ⟨b, rest, hbytes, ?_, fun hp' => absurd (hp.symm.trans hp') Bool.false_ne_true⟩
    rw [hp, Bool.eq_false_iff]
    intro hq
    have hsmall := h.low b hq
    have hascii := (Redaction.ascii_byte (hbytes ▸ List.mem_cons_self) hsmall).2
    omega

theorem class_drop (h : AsciiClass p q) (text : Text) :
    (bytesOf text).dropWhile q = bytesOf (text.dropWhile p) := by
  induction text with
  | nil => rfl
  | cons c text ih =>
    obtain ⟨b, rest, hbytes, hq, hrest⟩ := class_head h c
    by_cases hc : p c = true
    · rw [bytes_cons, hbytes, hrest hc, List.singleton_append,
        List.dropWhile_cons_of_pos (hq.trans hc), List.dropWhile_cons_of_pos hc, ih]
    · have hnot : ¬ q b = true := by rwa [hq]
      rw [List.dropWhile_cons_of_neg hc, bytes_cons, hbytes, List.cons_append,
        List.dropWhile_cons_of_neg hnot]

theorem class_all (h : AsciiClass p q) (text : Text) : (bytesOf text).all q = text.all p := by
  induction text with
  | nil => rfl
  | cons c text ih =>
    obtain ⟨b, rest, hbytes, hq, hrest⟩ := class_head h c
    rw [bytes_cons, hbytes, List.cons_append, List.all_cons, List.all_cons, hq]
    by_cases hc : p c = true
    · rw [hrest hc, List.nil_append, ih]
    · rw [Bool.eq_false_iff.mpr hc, Bool.false_and, Bool.false_and]

theorem class_any_head (h : AsciiClass p q) (text : Text) :
    (bytesOf text).head?.any q = text.head?.any p := by
  cases text with
  | nil => rfl
  | cons c text =>
    obtain ⟨b, rest, hbytes, hq, -⟩ := class_head h c
    rw [bytes_cons, hbytes, List.cons_append, List.head?_cons, List.head?_cons]
    exact hq

theorem bytes_length_eq {first second : Text} (h : first <:+ second) :
    (bytesOf first).length = (bytesOf second).length ↔ first.length = second.length := by
  obtain ⟨front, rfl⟩ := h
  rw [bytes_append, List.length_append, List.length_append]
  have hlength := ReplayStore.bytes_length front
  constructor
  · intro hsame
    omega
  · intro hsame
    have hnil : front = [] := List.length_eq_zero_iff.mp (by omega)
    subst hnil
    simp [bytesOf]

end Classes

theorem byte_low {q : UInt8 → Bool} (h : ∀ n < 256, q (UInt8.ofNat n) = true → n < 128) :
    ∀ b, q b = true → b.toNat < 128 := by
  intro b hb
  apply h b.toNat (UInt8.toNat_lt b)
  rwa [UInt8.ofNat_toNat]

theorem classes_low : ∀ n < 256,
    (isDigitByte (UInt8.ofNat n) = true → n < 128) ∧
      (isAlphabeticByte (UInt8.ofNat n) = true → n < 128) ∧
      (isSuffixByte (UInt8.ofNat n) = true → n < 128) ∧
      ((UInt8.ofNat n == 0x2E) = true → n < 128) ∧
      ((UInt8.ofNat n == 0x2D) = true → n < 128) := by
  decide +kernel

theorem digit_class : AsciiClass Char.isDigit isDigitByte where
  agree := by decide
  small c h := ReplayStore.alphanum_small (by rw [Char.isAlphanum, h, Bool.or_true])
  low := byte_low fun n hn => (classes_low n hn).1

theorem alpha_class : AsciiClass Char.isAlpha isAlphabeticByte where
  agree := by decide
  small c h := ReplayStore.alphanum_small (by rw [Char.isAlphanum, h, Bool.true_or])
  low := byte_low fun n hn => (classes_low n hn).2.1

theorem suffix_class : AsciiClass isSuffixChar isSuffixByte where
  agree := by decide
  small c h := by
    simp only [isSuffixChar, Bool.or_eq_true, beq_iff_eq] at h
    rcases h with (h | rfl) | rfl
    · exact ReplayStore.alphanum_small h
    · decide
    · decide
  low := byte_low fun n hn => (classes_low n hn).2.2.1

theorem dot_class : AsciiClass (· == '.') (· == 0x2E) where
  agree := by decide
  small c h := by
    rw [beq_iff_eq.mp h]
    decide
  low := byte_low fun n hn => (classes_low n hn).2.2.2.1

def numbersOf : ℕ → Text → Option Text
  | 0, text => some text
  | n + 1, text =>
    let rest := text.dropWhile Char.isDigit
    if rest.length = text.length then none
    else
      match rest with
      | [] => some []
      | c :: behind => if c == '.' then numbersOf n behind else some (c :: behind)

theorem numeric_groups_bytes (n : ℕ) (text : Text) :
    numericGroups n (bytesOf text) = (numbersOf n text).map bytesOf := by
  induction n generalizing text with
  | zero => rfl
  | succ n ih =>
    have hlength := bytes_length_eq (List.dropWhile_suffix Char.isDigit (l := text))
    rw [numericGroups, numbersOf, class_drop digit_class text]
    by_cases hnone : (text.dropWhile Char.isDigit).length = text.length
    · rw [if_pos hnone, if_pos (hlength.mpr hnone)]
      rfl
    · rw [if_neg hnone, if_neg fun h => hnone (hlength.mp h)]
      cases hrest : text.dropWhile Char.isDigit with
      | nil => rfl
      | cons c rest =>
        obtain ⟨b, behind, hbytes, hq, hsingle⟩ := class_head dot_class c
        rw [bytes_cons, hbytes, List.cons_append]
        show (if (b == 0x2E) = true then _ else _) =
          Option.map bytesOf (if (c == '.') = true then _ else _)
        by_cases hdot : (c == '.') = true
        · rw [if_pos hdot, if_pos (hq.trans hdot), hsingle hdot, List.nil_append, ih]
        · rw [if_neg hdot, if_neg (by rwa [hq]), Option.map_some, bytes_cons, hbytes,
            List.cons_append]

/-- The separator and the label behind the numbers. -/
def suffixOk (text : Text) : Bool :=
  match text with
  | [] => true
  | separator :: label =>
    (separator == '-' || separator == '.') &&
      (label.head?.any Char.isAlpha && label.all isSuffixChar)

theorem dash_class : AsciiClass (· == '-') (· == 0x2D) where
  agree := by decide
  small c h := by
    rw [beq_iff_eq.mp h]
    decide
  low := byte_low fun n hn => (classes_low n hn).2.2.2.2

theorem separator_class :
    AsciiClass (fun c => c == '-' || c == '.') (fun b => b == 0x2D || b == 0x2E) where
  agree := by decide
  small c h := by
    rcases Bool.or_eq_true _ _ ▸ h with h | h
    · exact dash_class.small c h
    · exact dot_class.small c h
  low b h := by
    rcases Bool.or_eq_true _ _ ▸ h with h | h
    · exact dash_class.low b h
    · exact dot_class.low b h

theorem is_valid_version (version : Text) :
    isValidVersion version = (decide (Text.utf8Len version ≤ 64) &&
      ((numbersOf 4 version).any suffixOk)) := by
  have hempty : (bytesOf version).isEmpty = true → numbersOf 4 version = none := by
    intro h
    have hnil : version = [] := by
      have hlength := ReplayStore.bytes_length version
      rw [List.isEmpty_iff.mp h] at hlength
      exact List.length_eq_zero_iff.mp (Nat.le_zero.mp hlength)
    rw [hnil]
    rfl
  rw [isValidVersion]
  by_cases hlong : 64 < Text.utf8Len version
  · rw [decide_eq_false (Nat.not_le.mpr hlong), decide_eq_true hlong, Bool.or_true, Bool.false_and]
    rfl
  · rw [decide_eq_true (Nat.not_lt.mp hlong), decide_eq_false hlong, Bool.or_false, Bool.true_and,
      numeric_groups_bytes]
    by_cases hnil : (bytesOf version).isEmpty = true
    · rw [if_pos hnil, hempty hnil]
      rfl
    · rw [if_neg hnil]
      cases numbersOf 4 version with
      | none => rfl
      | some rest =>
        cases rest with
        | nil => rfl
        | cons c label =>
          obtain ⟨b, behind, hbytes, hq, hsingle⟩ := class_head separator_class c
          rw [Option.map_some, bytes_cons, hbytes, List.cons_append, Option.any_some, suffixOk]
          by_cases hsep : (c == '-' || c == '.') = true
          · have hb : ¬ (b != 0x2D && b != 0x2E) = true := by
              rw [bne, bne, ← Bool.not_or, hq, hsep]
              decide
            rw [hsep, hsingle hsep, List.nil_append, Bool.true_and, ← class_any_head alpha_class,
              ← class_all suffix_class]
            exact if_neg hb
          · have hb : (b != 0x2D && b != 0x2E) = true := by
              rw [bne, bne, ← Bool.not_or, hq, Bool.eq_false_iff.mpr hsep]
              rfl
            rw [Bool.eq_false_iff.mpr hsep, Bool.false_and]
            exact if_pos hb

theorem numeric_cons (first group : Text) (groups : List Text) :
    numeric first (group :: groups) = first ++ '.' :: numeric group groups := by
  rw [numeric, numeric, List.flatMap_cons, List.cons_append]

theorem drop_digits {first rest : Text} (hfirst : Digits first)
    (hrest : rest.head?.any Char.isDigit = false) :
    (first ++ rest).dropWhile Char.isDigit = rest ∧
      ¬ ((first ++ rest).dropWhile Char.isDigit).length = (first ++ rest).length := by
  have hdrop : (first ++ rest).dropWhile Char.isDigit = rest := by
    rw [List.dropWhile_append_of_pos (List.all_eq_true.mp hfirst.2)]
    cases rest with
    | nil => rfl
    | cons c rest => exact List.dropWhile_cons_of_neg (by simpa using hrest)
  refine ⟨hdrop, ?_⟩
  rw [hdrop, List.length_append]
  have hpos := List.length_pos_of_ne_nil hfirst.1
  omega

theorem numbers_step {n : ℕ} {first rest : Text} (hfirst : Digits first)
    (hrest : rest.head?.any Char.isDigit = false) :
    numbersOf (n + 1) (first ++ rest) =
      match rest with
      | [] => some []
      | c :: behind => if c == '.' then numbersOf n behind else some (c :: behind) := by
  obtain ⟨hdrop, hlength⟩ := drop_digits hfirst hrest
  rw [numbersOf, if_neg hlength, hdrop]
  cases rest with
  | nil => rfl
  | cons c behind => rfl

theorem numbers_passed {first : Text} {groups : List Text} (hfirst : Digits first)
    (hgroups : ∀ group ∈ groups, Digits group) (n : ℕ) (suffix : Text) :
    (groups.length ≤ n → suffix.head?.any (fun c => c.isDigit || c == '.') = false →
      numbersOf (n + 1) (numeric first groups ++ suffix) = some suffix) ∧
    (groups.length = n →
      numbersOf (n + 1) (numeric first groups ++ '.' :: suffix) = some suffix) ∧
    (groups.length < n → suffix.head?.any Char.isDigit = false →
      numbersOf (n + 1) (numeric first groups ++ '.' :: suffix) = none) := by
  induction groups generalizing first n with
  | nil =>
    have hnumeric : numeric first [] = first := List.append_nil first
    rw [hnumeric]
    refine ⟨?_, ?_, ?_⟩
    · intro _ hsuffix
      cases suffix with
      | nil => exact numbers_step hfirst rfl
      | cons c behind =>
        have hc : c.isDigit = false ∧ (c == '.') = false := by simpa using hsuffix
        rw [numbers_step hfirst (by simpa using hc.1)]
        dsimp only
        rw [if_neg (by rw [hc.2]; decide)]
    · intro hn
      cases hn
      exact numbers_step hfirst rfl
    · intro hn hsuffix
      obtain ⟨n, rfl⟩ := Nat.exists_eq_succ_of_ne_zero (Nat.pos_iff_ne_zero.mp hn)
      rw [numbers_step hfirst rfl]
      show numbersOf (n + 1) suffix = none
      rw [numbersOf, if_pos]
      cases suffix with
      | nil => rfl
      | cons c behind => rw [List.dropWhile_cons_of_neg (by simpa using hsuffix)]
  | cons group groups ih =>
    have hgroup := hgroups group List.mem_cons_self
    have hmore := fun other hother => hgroups other (List.mem_cons_of_mem _ hother)
    have hstep : ∀ m rest, numbersOf (m + 1) (numeric first (group :: groups) ++ rest) =
        numbersOf m (numeric group groups ++ rest) := by
      intro m rest
      rw [numeric_cons, List.append_assoc, List.cons_append, numbers_step hfirst rfl]
      rfl
    refine ⟨?_, ?_, ?_⟩
    · intro hn hsuffix
      obtain ⟨n, rfl⟩ := Nat.exists_eq_succ_of_ne_zero (n := n) (by rintro rfl; cases hn)
      rw [hstep]
      exact (ih hgroup hmore n).1 (Nat.le_of_succ_le_succ hn) hsuffix
    · intro hn
      cases hn
      rw [hstep]
      exact (ih hgroup hmore groups.length).2.1 rfl
    · intro hn hsuffix
      obtain ⟨n, rfl⟩ := Nat.exists_eq_succ_of_ne_zero (n := n) (by rintro rfl; cases hn)
      rw [hstep]
      exact (ih hgroup hmore n).2.2 (Nat.lt_of_succ_lt_succ hn) hsuffix

theorem numbers_front {n : ℕ} {version rest : Text} (h : numbersOf (n + 1) version = some rest) :
    ∃ first behind, Digits first ∧ version = first ++ behind ∧
      ((rest = behind ∧ behind.head?.any (fun c => c.isDigit || c == '.') = false) ∨
        ∃ next, behind = '.' :: next ∧ numbersOf n next = some rest) := by
  have hsplit := List.takeWhile_append_dropWhile (p := Char.isDigit) (l := version)
  rw [numbersOf] at h
  by_cases hnone : (version.dropWhile Char.isDigit).length = version.length
  · rw [if_pos hnone] at h
    cases h
  rw [if_neg hnone] at h
  have hfirst : Digits (version.takeWhile Char.isDigit) := by
    refine ⟨?_, List.all_takeWhile⟩
    intro hnil
    rw [hnil, List.nil_append] at hsplit
    exact hnone (congrArg List.length hsplit)
  refine ⟨_, _, hfirst, hsplit.symm, ?_⟩
  have hhead := List.head?_dropWhile_not Char.isDigit version
  cases hrest : version.dropWhile Char.isDigit with
  | nil =>
    rw [hrest] at h
    cases h
    exact .inl ⟨rfl, rfl⟩
  | cons c next =>
    rw [hrest] at h hhead
    dsimp only at h
    by_cases hdot : (c == '.') = true
    · rw [if_pos hdot] at h
      exact .inr ⟨next, by rw [beq_iff_eq.mp hdot], h⟩
    · rw [if_neg hdot] at h
      cases h
      refine .inl ⟨rfl, ?_⟩
      simpa [hdot] using hhead

theorem numbers_read {n : ℕ} {version rest : Text} (h : numbersOf (n + 1) version = some rest) :
    ∃ (first : Text) (groups : List Text), Digits first ∧ (∀ group ∈ groups, Digits group) ∧
      ((groups.length ≤ n ∧ version = numeric first groups ++ rest ∧
          rest.head?.any (fun c => c.isDigit || c == '.') = false) ∨
        (groups.length = n ∧ version = numeric first groups ++ '.' :: rest)) := by
  induction n generalizing version with
  | zero =>
    obtain ⟨first, behind, hfirst, rfl, ⟨rfl, hhead⟩ | ⟨next, rfl, hnext⟩⟩ := numbers_front h
    · refine ⟨first, [], hfirst, by simp, .inl ⟨le_rfl, ?_, hhead⟩⟩
      rw [numeric, List.flatMap_nil, List.append_nil]
    · cases hnext
      refine ⟨first, [], hfirst, by simp, .inr ⟨rfl, ?_⟩⟩
      rw [numeric, List.flatMap_nil, List.append_nil]
  | succ n ih =>
    obtain ⟨first, behind, hfirst, rfl, ⟨rfl, hhead⟩ | ⟨next, rfl, hnext⟩⟩ := numbers_front h
    · refine ⟨first, [], hfirst, by simp, .inl ⟨Nat.zero_le _, ?_, hhead⟩⟩
      rw [numeric, List.flatMap_nil, List.append_nil]
    · obtain ⟨group, groups, hgroup, hgroups, hread⟩ := ih hnext
      refine ⟨first, group :: groups, hfirst, List.forall_mem_cons.mpr ⟨hgroup, hgroups⟩, ?_⟩
      rw [numeric_cons, List.append_assoc, List.append_assoc, List.cons_append, List.cons_append]
      rcases hread with ⟨hlength, rfl, hhead⟩ | ⟨hlength, rfl⟩
      · exact .inl ⟨Nat.succ_le_succ hlength, rfl, hhead⟩
      · exact .inr ⟨congrArg Nat.succ hlength, rfl⟩

theorem suffix_ok_iff (text : Text) :
    suffixOk text = true ↔ text = [] ∨ ∃ separator label, text = separator :: label ∧
      (separator = '.' ∨ separator = '-') ∧ Label label := by
  cases text with
  | nil => exact iff_of_true rfl (.inl rfl)
  | cons c label =>
    simp only [suffixOk, Label, Bool.and_eq_true, Bool.or_eq_true, beq_iff_eq, reduceCtorEq,
      false_or, List.cons.injEq]
    constructor
    · rintro ⟨hsep, hlabel⟩
      exact ⟨c, label, ⟨rfl, rfl⟩, hsep.symm, hlabel⟩
    · rintro ⟨_, _, ⟨rfl, rfl⟩, hsep, hlabel⟩
      exact ⟨hsep.symm, hlabel⟩

theorem numeric_last (first : Text) (groups : List Text) (hfirst : Digits first)
    (hgroups : ∀ group ∈ groups, Digits group) :
    (numeric first groups).getLast?.any Char.isDigit = true := by
  induction groups generalizing first with
  | nil =>
    rw [numeric, List.flatMap_nil, List.append_nil, List.getLast?_eq_some_getLast hfirst.1,
      Option.any_some]
    exact List.all_eq_true.mp hfirst.2 _ (List.getLast_mem hfirst.1)
  | cons group groups ih =>
    have hrest := ih group (hgroups group List.mem_cons_self) fun other hother =>
      hgroups other (List.mem_cons_of_mem _ hother)
    rw [numeric_cons, List.getLast?_append]
    cases hlast : (numeric group groups).getLast? with
    | none =>
      rw [hlast] at hrest
      cases hrest
    | some c =>
      rw [hlast] at hrest
      rw [List.getLast?_cons, hlast]
      exact hrest

theorem letter_apart : ∀ n < 128, (Char.ofNat n).isAlpha = true →
    (Char.ofNat n).isDigit = false ∧ (Char.ofNat n == '-') = false ∧
      (Char.ofNat n == '.') = false := by
  decide

theorem label_head {label : Text} (h : Label label) :
    label.head?.any Char.isDigit = false ∧ suffixOk label = false := by
  cases label with
  | nil => cases h.1
  | cons c rest =>
    have hletter := letter_apart c.toNat (alpha_class.small c h.1)
    rw [Char.ofNat_toNat] at hletter
    obtain ⟨hdigit, hdash, hdot⟩ := hletter h.1
    exact ⟨hdigit, by rw [suffixOk, hdash, hdot]; rfl⟩

theorem dotted_label_refused {version : Text} (h : DottedLabel version) :
    (numbersOf 4 version).any suffixOk = false := by
  obtain ⟨first, groups, label, hfirst, hgroups, hlength, rfl, hlabel⟩ := h
  obtain ⟨hdigit, hrefused⟩ := label_head hlabel
  rcases Nat.lt_or_eq_of_le hlength with hfew | hall
  · rw [(numbers_passed hfirst hgroups 3 label).2.2 hfew hdigit]
    rfl
  · rw [(numbers_passed hfirst hgroups 3 label).2.1 hall]
    exact hrefused

theorem dash_suffix {suffix : Text}
    (h : suffix = [] ∨ ∃ label, suffix = '-' :: label ∧ Label label) :
    suffix.head?.any (fun c => c.isDigit || c == '.') = false := by
  rcases h with rfl | ⟨label, rfl, -⟩
  · rfl
  · rfl

theorem scanned_iff (version : Text) :
    ((numbersOf 4 version).any suffixOk = true ↔ VersionGrammar version) ↔
      ¬ DottedLabel version ∧ ¬ DottedFourth version := by
  constructor
  · intro hagree
    constructor
    · intro hlabel
      have hrefused := dotted_label_refused hlabel
      obtain ⟨first, groups, label, hfirst, hgroups, hlength, hversion, hlabel⟩ := hlabel
      rw [hagree.mpr ⟨first, groups, _, hfirst, hgroups, hlength, hversion,
        .inr ⟨'.', label, rfl, .inl rfl, hlabel⟩⟩] at hrefused
      cases hrefused
    · rintro ⟨first, groups, suffix, hfirst, hgroups, hlength, rfl, hsuffix⟩
      have hnumbers := (numbers_passed hfirst hgroups 3 suffix).2.1 hlength
      have haccepted :
          (numbersOf 4 (numeric first groups ++ '.' :: suffix)).any suffixOk = true := by
        rw [hnumbers]
        exact (suffix_ok_iff suffix).mpr hsuffix
      obtain ⟨first', groups', suffix', hfirst', hgroups', hlength', hversion, hsuffix'⟩ :=
        hagree.mp haccepted
      have hdash : suffix' = [] ∨ ∃ label, suffix' = '-' :: label ∧ Label label := by
        rcases hsuffix' with hnil | ⟨separator, label, rfl, rfl | rfl, hlabel⟩
        · exact .inl hnil
        · rw [dotted_label_refused ⟨first', groups', label, hfirst', hgroups', hlength', hversion,
            hlabel⟩] at haccepted
          cases haccepted
        · exact .inr ⟨label, rfl, hlabel⟩
      have hsame := (numbers_passed hfirst' hgroups' 3 suffix').1 hlength' (dash_suffix hdash)
      rw [← hversion, hnumbers, Option.some.injEq] at hsame
      subst hsame
      rw [List.append_cons, List.append_cancel_right_eq] at hversion
      have hlast := numeric_last first' groups' hfirst' hgroups'
      rw [← hversion, List.getLast?_concat] at hlast
      exact absurd hlast (by decide)
  · rintro ⟨hlabel, hfourth⟩
    constructor
    · intro haccepted
      obtain ⟨rest, hnumbers, hrest⟩ := (Option.any_eq_true _ _).mp haccepted
      obtain ⟨first, groups, hfirst, hgroups, ⟨hlength, rfl, -⟩ | ⟨hlength, rfl⟩⟩ :=
        numbers_read hnumbers
      · exact ⟨first, groups, rest, hfirst, hgroups, hlength, rfl, (suffix_ok_iff rest).mp hrest⟩
      · exact absurd ⟨first, groups, rest, hfirst, hgroups, hlength, rfl,
          (suffix_ok_iff rest).mp hrest⟩ hfourth
    · rintro ⟨first, groups, suffix, hfirst, hgroups, hlength, rfl, hsuffix⟩
      have hdash : suffix = [] ∨ ∃ label, suffix = '-' :: label ∧ Label label := by
        rcases hsuffix with hnil | ⟨separator, label, rfl, rfl | rfl, hends⟩
        · exact .inl hnil
        · exact absurd ⟨first, groups, label, hfirst, hgroups, hlength, rfl, hends⟩ hlabel
        · exact .inr ⟨label, rfl, hends⟩
      rw [(numbers_passed hfirst hgroups 3 suffix).1 hlength (dash_suffix hdash)]
      exact (suffix_ok_iff suffix).mpr hsuffix

/-- The validator follows its regular expression exactly apart from the two kinds of dots. -/
theorem version_grammar_iff (version : Text) :
    (isValidVersion version = true ↔ Text.utf8Len version ≤ 64 ∧ VersionGrammar version) ↔
      (Text.utf8Len version ≤ 64 → ¬ DottedLabel version ∧ ¬ DottedFourth version) := by
  rw [← scanned_iff, is_valid_version, Bool.and_eq_true, decide_eq_true_eq]
  by_cases hlength : Text.utf8Len version ≤ 64
  · simp only [hlength, true_and, true_implies]
  · simp only [hlength, false_and, false_implies]

/-- A version that ends in a dot behind its fourth number is accepted. -/
theorem version_grammar_fails : ¬ ∀ version : Text,
    (isValidVersion version = true ↔ Text.utf8Len version ≤ 64 ∧ VersionGrammar version) := by
  intro h
  have hfourth : DottedFourth "1.2.3.4.".toList :=
    ⟨['1'], [['2'], ['3'], ['4']], [], by decide, by decide, rfl, rfl, .inl rfl⟩
  have hagree := h "1.2.3.4.".toList
  rw [is_valid_version, Bool.and_eq_true, decide_eq_true_eq] at hagree
  have hshort : Text.utf8Len "1.2.3.4.".toList ≤ 64 := by decide
  simp only [hshort, true_and] at hagree
  exact ((scanned_iff _).mp hagree).2 hfourth

end Siralos.Research
