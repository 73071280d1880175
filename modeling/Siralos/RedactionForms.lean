import Siralos.CodingSync
import Siralos.Segments
import Siralos.StreamRedactor

/-!
# The forms of a credential

Every form that is looked for is the credential itself, or departs from it with a backslash, a
percent sign or a plus. Where none of these occurs, only the credential can be met.
-/

set_option autoImplicit false

namespace Siralos.Redaction

open Text

theorem utf16_synced :
    Coding.Synced utf16Units fun unit => ¬ (0xDC00 ≤ unit ∧ unit < 0xE000) where
  separable := Coding.separable_of_read Projection.readUnits Projection.read_units
  leads c := by
    have hbounds := Projection.char_bounds c
    rw [utf16Units]
    by_cases h : c.toNat < 0x10000
    · rw [if_pos h]
      exact ⟨c.toNat, [], rfl, by omega, by simp⟩
    · rw [if_neg h]
      refine ⟨_, _, rfl, by omega, ?_⟩
      intro unit hunit
      rw [List.mem_singleton] at hunit
      omega

theorem utf8_bytes (c : Char) : utf8Bytes c =
    if c.toNat ≤ 127 then [c.toNat]
    else if c.toNat ≤ 2047 then [c.toNat / 64 + 192, c.toNat % 64 + 128]
    else if c.toNat ≤ 65535 then
      [c.toNat / 4096 + 224, c.toNat / 64 % 64 + 128, c.toNat % 64 + 128]
    else
      [c.toNat / 262144 + 240, c.toNat / 4096 % 64 + 128, c.toNat / 64 % 64 + 128,
        c.toNat % 64 + 128] := by
  have hbounds := Projection.char_bounds c
  have hval : c.val.toNat = c.toNat := rfl
  rw [utf8Bytes, String.utf8EncodeChar, hval]
  split_ifs
  all_goals simp only [List.map_cons, List.map_nil, UInt8.toNat_ofNat', List.cons.injEq, and_true]
  all_goals omega

theorem bytes_length (text : Text) : (encodeUtf8 text).length = utf8Len text := by
  simp [encodeUtf8, utf8Bytes, utf8Len, List.length_flatMap]

/-- Reads the character that the first bytes stand for. -/
def readBytes : List ℕ → Option (Char × List ℕ)
  | [] => none
  | first :: rest =>
    if first < 128 then some (Char.ofNat first, rest)
    else if first < 224 then
      some (Char.ofNat ((first - 192) * 64 + (rest.getD 0 0 - 128)), rest.drop 1)
    else if first < 240 then
      some (Char.ofNat ((first - 224) * 4096 + (rest.getD 0 0 - 128) * 64 +
        (rest.getD 1 0 - 128)), rest.drop 2)
    else
      some (Char.ofNat ((first - 240) * 262144 + (rest.getD 0 0 - 128) * 4096 +
        (rest.getD 1 0 - 128) * 64 + (rest.getD 2 0 - 128)), rest.drop 3)

theorem read_bytes (c : Char) (rest : List ℕ) :
    readBytes (utf8Bytes c ++ rest) = some (c, rest) := by
  have hbounds := Projection.char_bounds c
  have hread : ∀ n, n = c.toNat → some (Char.ofNat n, rest) = some (c, rest) := by
    intro n hn
    rw [hn, Char.ofNat_toNat]
  rw [utf8_bytes]
  by_cases h1 : c.toNat ≤ 127
  · rw [if_pos h1, List.cons_append, readBytes, if_pos (by omega)]
    exact hread _ rfl
  · rw [if_neg h1]
    by_cases h2 : c.toNat ≤ 2047
    · rw [if_pos h2, List.cons_append, readBytes, if_neg (by omega), if_pos (by omega)]
      apply hread
      simp only [List.cons_append, List.getD_cons_zero]
      omega
    · rw [if_neg h2]
      by_cases h3 : c.toNat ≤ 65535
      · rw [if_pos h3, List.cons_append, readBytes, if_neg (by omega), if_neg (by omega),
          if_pos (by omega)]
        apply hread
        simp only [List.cons_append, List.getD_cons_zero, List.getD_cons_succ]
        omega
      · rw [if_neg h3, List.cons_append, readBytes, if_neg (by omega), if_neg (by omega),
          if_neg (by omega)]
        apply hread
        simp only [List.cons_append, List.getD_cons_zero, List.getD_cons_succ]
        omega

theorem utf8_leads (c : Char) : ∃ first rest, utf8Bytes c = first :: rest ∧
    (first < 128 ∨ 192 ≤ first) ∧ (∀ byte ∈ rest, 128 ≤ byte ∧ byte < 192) ∧
    (first < 128 → first = c.toNat ∧ rest = []) := by
  rw [utf8_bytes]
  split
  · exact ⟨_, [], rfl, by omega, by simp, fun _ => ⟨rfl, rfl⟩⟩
  · split
    · refine ⟨_, _, rfl, by omega, ?_, fun h => by omega⟩
      simp only [List.mem_cons, List.not_mem_nil, or_false]
      omega
    · split
      · refine ⟨_, _, rfl, by omega, ?_, fun h => by omega⟩
        simp only [List.mem_cons, List.not_mem_nil, or_false]
        omega
      · refine ⟨_, _, rfl, by omega, ?_, fun h => by omega⟩
        simp only [List.mem_cons, List.not_mem_nil, or_false]
        omega

theorem ascii_byte {c : Char} {b : UInt8} (hb : b ∈ String.utf8EncodeChar c) (hsmall : b.toNat < 128) :
    String.utf8EncodeChar c = [b] ∧ c.toNat = b.toNat := by
  obtain ⟨first, rest, hbytes, -, hrest, hascii⟩ := utf8_leads c
  have hmem : b.toNat ∈ utf8Bytes c := List.mem_map_of_mem hb
  rw [hbytes, List.mem_cons] at hmem
  have hfirst : b.toNat = first := by
    rcases hmem with hsame | hmem
    · exact hsame
    · have := hrest _ hmem
      omega
  obtain ⟨hchar, hnone⟩ := hascii (by omega)
  rw [hnone, utf8Bytes] at hbytes
  obtain ⟨only, honly, hvalue⟩ := List.map_eq_singleton_iff.mp hbytes
  rw [honly, List.mem_singleton] at hb
  rw [honly, hb]
  rw [hb] at hfirst
  exact ⟨rfl, by omega⟩

theorem utf8_synced : Coding.Synced utf8Bytes fun byte => ¬ (128 ≤ byte ∧ byte < 192) where
  separable := Coding.separable_of_read readBytes read_bytes
  leads c := by
    obtain ⟨first, rest, hbytes, hfirst, hrest, -⟩ := utf8_leads c
    refine ⟨first, rest, hbytes, by omega, ?_⟩
    intro byte hbyte
    exact not_not_intro (hrest byte hbyte)

def Special (c : Char) : Prop := c = '\\' ∨ c = '%' ∨ c = '+'

def Plain (text : Text) : Prop := ∀ c ∈ text, ¬ Special c

def Headed (text : Text) : Prop := ∃ e after, text = e :: after ∧ Special e

/-- The secret, or a text that departs from it with a special character. -/
def Spells (secret variant : Text) : Prop :=
  variant = secret ∨ ∃ before rest after, secret = before ++ rest ∧ rest ≠ [] ∧
    variant = before ++ after ∧ Headed after

theorem Headed.append {text : Text} (h : Headed text) (more : Text) : Headed (text ++ more) := by
  obtain ⟨e, after, rfl, he⟩ := h
  exact ⟨e, after ++ more, rfl, he⟩

theorem headed_backslash (text : Text) : Headed ('\\' :: text) := ⟨'\\', text, rfl, .inl rfl⟩

theorem headed_percent (text : Text) : Headed ('%' :: text) := ⟨'%', text, rfl, .inr (.inl rfl)⟩

theorem Spells.keep {secret variant : Text} (h : Spells secret variant) (kept : Text) :
    Spells (kept ++ secret) (kept ++ variant) := by
  rcases h with rfl | ⟨before, rest, after, rfl, hrest, rfl, hafter⟩
  · exact .inl rfl
  · exact .inr ⟨kept ++ before, rest, after, by simp, hrest, by simp, hafter⟩

theorem spells_headed {secret variant : Text} (hne : secret ≠ []) (h : Headed variant) :
    Spells secret variant := .inr ⟨[], secret, variant, rfl, hne, rfl, h⟩

theorem spells_cons {secret variant : Text} {c : Char} {form : Text}
    (hform : form = [c] ∨ Headed form) (h : Spells secret variant) :
    Spells (c :: secret) (form ++ variant) := by
  rcases hform with rfl | hheaded
  · exact h.keep [c]
  · exact spells_headed (List.cons_ne_nil _ _) (hheaded.append _)

theorem spells_flat_map (form : Char → Text) (hform : ∀ c, form c = [c] ∨ Headed (form c))
    (secret : Text) : Spells secret (secret.flatMap form) := by
  induction secret with
  | nil => exact .inl rfl
  | cons c secret ih =>
    rw [List.flatMap_cons]
    exact spells_cons (hform c) ih

theorem units_headed (escape : ℕ → Text) (hescape : ∀ unit, Headed (escape unit)) (c : Char) :
    Headed ((utf16Units c).flatMap escape) := by
  rw [utf16Units]
  split
  · rw [List.flatMap_cons]
    exact (hescape _).append _
  · rw [List.flatMap_cons]
    exact (hescape _).append _

theorem lower_headed (unit : ℕ) : Headed (lowerEscape unit) := headed_backslash _

theorem upper_headed (unit : ℕ) : Headed (upperEscape unit) := headed_backslash _

theorem short_escape_headed {c : Char} {form : Text} (h : shortEscape c = some form) :
    Headed form := by
  have hunits := units_headed lowerEscape lower_headed c
  unfold shortEscape at h
  repeat' split at h
  all_goals cases h
  all_goals first
    | exact hunits
    | exact headed_backslash _

theorem escape_char_form (c : Char) :
    Identity.escapeChar c = [c] ∨ Headed (Identity.escapeChar c) := by
  unfold Identity.escapeChar
  repeat' split
  all_goals first
    | exact .inl rfl
    | exact .inr (headed_backslash _)

theorem single_forms_spell (count bytes : ℕ) (before secret : Text) :
    ∀ variant ∈ singleForms count bytes before secret, Spells (before ++ secret) variant := by
  induction secret generalizing count bytes before with
  | nil =>
    intro variant h
    cases h
  | cons c rest ih =>
    intro variant h
    have hmoved : before ++ c :: rest = before ++ [c] ++ rest := by simp
    rw [singleForms] at h
    split_ifs at h with hfull
    · cases h
    · cases hescape : shortEscape c with
      | none =>
        simp only [hescape] at h
        rw [hmoved]
        exact ih _ _ _ variant h
      | some replacement =>
        simp only [hescape, List.mem_cons] at h
        rcases h with rfl | hlater
        · rw [List.append_assoc]
          apply Spells.keep
          exact spells_headed (List.cons_ne_nil _ _) ((short_escape_headed hescape).append _)
        · rw [hmoved]
          exact ih _ _ _ variant hlater

theorem masked_piece (mask bit : ℕ) (literal : Text) (form : Option Text)
    (rest : List (Text × Option Text)) :
    ∃ chosen next, masked mask bit ((literal, form) :: rest) = chosen ++ masked mask next rest ∧
      (chosen = literal ∨ form = some chosen) := by
  cases form with
  | none => exact ⟨literal, bit, rfl, .inl rfl⟩
  | some form =>
    rw [masked]
    by_cases hbit : mask.testBit bit = true
    · exact ⟨form, bit + 1, by rw [if_pos hbit], .inr rfl⟩
    · exact ⟨literal, bit + 1, by rw [if_neg hbit], .inl rfl⟩

theorem masked_spell (mask bit : ℕ) (secret : Text) (pieces : List (Text × Option Text))
    (hliteral : pieces.map Prod.fst = secret.map fun c => [c])
    (hform : ∀ piece ∈ pieces, ∀ form, piece.2 = some form → Headed form) :
    Spells secret (masked mask bit pieces) := by
  induction secret generalizing bit pieces with
  | nil =>
    rw [List.map_nil, List.map_eq_nil_iff] at hliteral
    rw [hliteral]
    exact .inl rfl
  | cons c secret ih =>
    cases pieces with
    | nil => cases hliteral
    | cons piece pieces =>
      rw [List.map_cons, List.map_cons, List.cons.injEq] at hliteral
      have hrest : ∀ next, Spells secret (masked mask next pieces) := fun next =>
        ih next pieces hliteral.2 fun other hother => hform other (List.mem_cons_of_mem _ hother)
      obtain ⟨chosen, next, hmasked, hchosen⟩ := masked_piece mask bit piece.1 piece.2 pieces
      rw [hmasked]
      apply spells_cons _ (hrest next)
      rcases hchosen with hsame | hother
      · exact .inl (hsame.trans hliteral.1)
      · exact .inr (hform piece List.mem_cons_self _ hother)

theorem masked_forms_spell {secret : Text} {pieces : List (Text × Option Text)}
    (hliteral : pieces.map Prod.fst = secret.map fun c => [c])
    (hform : ∀ piece ∈ pieces, ∀ form, piece.2 = some form → Headed form) :
    ∀ variant ∈ maskedForms pieces, Spells secret variant := by
  intro variant h
  rw [maskedForms] at h
  split_ifs at h
  · obtain ⟨mask, -, rfl⟩ := List.mem_map.mp h
    exact masked_spell mask 0 secret pieces hliteral hform
  · cases h

theorem case_forms_spell (secret : Text) :
    ∀ variant ∈ unicodeCaseForms secret, Spells secret variant := by
  intro variant h
  rw [unicodeCaseForms] at h
  split_ifs at h
  · obtain ⟨selected, -, hselected⟩ := List.mem_flatMap.mp h
    obtain ⟨caseMask, -, rfl⟩ := List.mem_map.mp hselected
    apply masked_spell
    · apply List.ext_getElem
      · simp
      · intro i hi hj
        simp
    · intro piece hpiece form hform
      obtain ⟨i, hi, rfl⟩ := List.mem_mapIdx.mp hpiece
      simp only [Option.some.injEq] at hform
      rw [← hform]
      apply units_headed
      intro unit
      split
      · exact lower_headed unit
      · exact upper_headed unit
  · cases h

/-- A byte that stands for itself, or something special. -/
def ByteForm (form : ℕ → Text) : Prop :=
  ∀ byte, (byte < 128 ∧ form byte = [Char.ofNat byte]) ∨ Headed (form byte)

theorem percent_form (hex : ℕ → Text) : ByteForm (percentForm hex) := by
  intro byte
  rw [percentForm]
  by_cases h : unreserved byte = true
  · have hascii : byte < 128 := by
      simp only [unreserved, Bool.and_eq_true, decide_eq_true_eq] at h
      exact h.1
    exact .inl ⟨hascii, if_pos h⟩
  · rw [if_neg h]
    exact .inr (headed_percent _)

theorem plus_form (form : ℕ → Text) (h : ByteForm form) :
    ByteForm fun byte => if byte = 0x20 then ['+'] else form byte := by
  intro byte
  by_cases hspace : byte = 0x20
  · exact .inr ⟨'+', [], if_pos hspace, .inr (.inr rfl)⟩
  · simp only [if_neg hspace]
    exact h byte

theorem ByteForm.first {form : ℕ → Text} (h : ByteForm form) {c : Char} {first : ℕ}
    {rest : List ℕ} (hbytes : utf8Bytes c = first :: rest) :
    (form first = [c] ∧ rest = []) ∨ Headed (form first) := by
  obtain ⟨other, others, hother, -, -, hascii⟩ := utf8_leads c
  rw [hbytes] at hother
  cases hother
  rcases h first with ⟨hlt, hform⟩ | hheaded
  · obtain ⟨hfirst, hrest⟩ := hascii hlt
    rw [hform, hfirst, Char.ofNat_toNat]
    exact .inl ⟨rfl, hrest⟩
  · exact .inr hheaded

theorem byte_forms_spell (form : ℕ → Text) (h : ByteForm form) (secret : Text) :
    Spells secret ((encodeUtf8 secret).flatMap form) := by
  rw [encodeUtf8, List.flatMap_assoc]
  apply spells_flat_map
  intro c
  obtain ⟨first, rest, hbytes, -⟩ := utf8_leads c
  rw [hbytes, List.flatMap_cons]
  rcases h.first hbytes with ⟨hform, hrest⟩ | hheaded
  · rw [hform, hrest]
    exact .inl rfl
  · exact .inr (hheaded.append _)

theorem masked_bytes_spell (mask bit : ℕ) (lower upper : ℕ → Text) (hlower : ByteForm lower)
    (hupper : ByteForm upper) (secret : Text) :
    Spells secret (masked mask bit
      ((encodeUtf8 secret).map fun byte => (upper byte, some (lower byte)))) := by
  induction secret generalizing bit with
  | nil => exact .inl rfl
  | cons c secret ih =>
    obtain ⟨first, rest, hbytes, -⟩ := utf8_leads c
    rw [encodeUtf8, List.flatMap_cons, hbytes, List.cons_append, List.map_cons]
    obtain ⟨chosen, next, hmasked, hchosen⟩ := masked_piece mask bit (upper first)
      (some (lower first)) ((rest ++ secret.flatMap utf8Bytes).map fun byte =>
        (upper byte, some (lower byte)))
    have hfirst : (chosen = [c] ∧ rest = []) ∨ Headed chosen := by
      rcases hchosen with rfl | hother
      · exact hupper.first hbytes
      · rw [← Option.some.inj hother]
        exact hlower.first hbytes
    rw [hmasked]
    rcases hfirst with ⟨hform, hrest⟩ | hheaded
    · rw [hform, hrest, List.nil_append]
      exact spells_cons (.inl rfl) (ih next)
    · exact spells_headed (List.cons_ne_nil _ _) (hheaded.append _)

theorem mem_dedup (variant : Text) (variants : List Text) :
    variant ∈ dedup variants ↔ variant ∈ variants := by
  fun_induction dedup variants with
  | case1 => rfl
  | case2 t => rfl
  | case3 t rest ih => rw [ih]; simp
  | case4 t u rest hne ih => rw [List.mem_cons, ih, List.mem_cons (a := variant) (b := t)]

theorem secret_variant (secret : Text) : secret ∈ sensitiveVariants secret := by
  simp [sensitiveVariants, mem_dedup]

theorem variant_spells (secret : Text) :
    ∀ variant ∈ sensitiveVariants secret, Spells secret variant := by
  intro variant h
  rw [sensitiveVariants, mem_dedup, List.mem_insertionSort] at h
  have hunits : ∀ escape : ℕ → Text, (∀ unit, Headed (escape unit)) →
      Spells secret ((encodeUtf16 secret).flatMap escape) := by
    intro escape hescape
    rw [encodeUtf16, List.flatMap_assoc]
    exact spells_flat_map _ (fun c => .inr (units_headed escape hescape c)) secret
  have hliteral : ∀ form : Char → Option Text,
      (secret.map fun c => ([c], form c)).map Prod.fst = secret.map fun c => [c] := by
    intro form
    rw [List.map_map]
    rfl
  have hpieces : ∀ form : Char → Option Text, (∀ c text, form c = some text → Headed text) →
      ∀ piece ∈ secret.map fun c => ([c], form c), ∀ text, piece.2 = some text →
        Headed text := by
    intro form hform piece hpiece text htext
    obtain ⟨c, -, rfl⟩ := List.mem_map.mp hpiece
    exact hform c text htext
  simp only [List.mem_append, List.mem_cons, List.not_mem_nil, or_false] at h
  rcases h with (((((hwhole | hsingle) | hescaped) | hunicode) | hcases) | hpercent) | hlast
  · rcases hwhole with rfl | rfl | rfl | rfl
    · exact .inl rfl
    · exact spells_flat_map _ escape_char_form secret
    · exact hunits _ lower_headed
    · exact hunits _ upper_headed
  · exact single_forms_spell _ _ [] secret variant hsingle
  · exact masked_forms_spell (hliteral _)
      (hpieces _ fun c text => short_escape_headed) variant hescaped
  · apply masked_forms_spell (hliteral _) (hpieces _ _) variant hunicode
    intro c text htext
    rw [← Option.some.inj htext]
    exact units_headed lowerEscape lower_headed c
  · exact case_forms_spell secret variant hcases
  · rw [percentForms, maskedForms] at hpercent
    split_ifs at hpercent
    · obtain ⟨mask, -, rfl⟩ := List.mem_map.mp hpercent
      exact masked_bytes_spell mask 0 _ _ (percent_form _) (percent_form _) secret
    · cases hpercent
  · rcases hlast with rfl | rfl | rfl
    · exact byte_forms_spell _ (percent_form _) secret
    · exact byte_forms_spell _ (percent_form _) secret
    · exact byte_forms_spell _ (plus_form _ (percent_form _)) secret

end Siralos.Redaction
