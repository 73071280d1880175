import Siralos.RedactionPlain
import Siralos.StreamingTurn

/-!
# Truncated bodies

A body over the response cap is cut where no encoding of the credential that crosses the cap can
have begun. The moved cut is a boundary of its own.
-/

set_option autoImplicit false

namespace Siralos.TruncatedBody

open Text Redaction Streaming

def encode (text : Text) : List UInt8 := text.flatMap String.utf8EncodeChar

theorem char_width_eq (b : UInt8) : charWidth b =
    if b.toNat < 128 then 1
    else if 194 ≤ b.toNat ∧ b.toNat ≤ 223 then 2
    else if 224 ≤ b.toNat ∧ b.toNat ≤ 239 then 3
    else if 240 ≤ b.toNat ∧ b.toNat ≤ 244 then 4
    else 0 := by
  simp only [charWidth, UInt8.lt_iff_toNat_lt, UInt8.le_iff_toNat_le, Bool.and_eq_true,
    decide_eq_true_eq, UInt8.reduceToNat]

theorem continuation_iff (b : UInt8) :
    continuation b = true ↔ 128 ≤ b.toNat ∧ b.toNat ≤ 191 := by
  simp only [continuation, UInt8.le_iff_toNat_le, Bool.and_eq_true, decide_eq_true_eq,
    UInt8.reduceToNat]

theorem byte_eq_iff (a b : UInt8) : a = b ↔ a.toNat = b.toNat := UInt8.toNat_inj.symm

theorem second_byte_iff (first second : UInt8) : secondByte first second = true ↔
    (128 ≤ second.toNat ∧ second.toNat ≤ 191) ∧
      (first.toNat = 224 → 160 ≤ second.toNat) ∧ (first.toNat = 237 → second.toNat ≤ 159) ∧
      (first.toNat = 240 → 144 ≤ second.toNat) ∧ (first.toNat = 244 → second.toNat ≤ 143) := by
  simp only [secondByte, byte_eq_iff, UInt8.reduceToNat]
  split_ifs <;> simp only [continuation_iff, UInt8.le_iff_toNat_le, Bool.and_eq_true,
    decide_eq_true_eq, UInt8.reduceToNat] <;> omega

theorem decode_head_long {first : UInt8} {rest : List UInt8} {width : ℕ}
    (hwidth : charWidth first = width) (hlong : 2 ≤ width) :
    decodeHead first rest = decodeLong width first rest := by
  rw [decodeHead, hwidth]
  match width, hlong with
  | _ + 2, _ => rfl

section Placed

variable {first second third fourth : UInt8} (hsecond : secondByte first second = true)
  (more : List UInt8)

include hsecond

theorem decode_long_two :
    decodeLong 2 first (second :: more) = .char (decodeTwo first second) 2 := by
  simp only [decodeLong, hsecond, Bool.not_true, Bool.false_eq_true, if_false, if_true]

theorem decode_long_three (hthird : continuation third = true) :
    decodeLong 3 first (second :: third :: more) = .char (decodeThree first second third) 3 := by
  simp only [decodeLong, hsecond, hthird, Bool.not_true, Bool.false_eq_true, if_false, if_true,
    Nat.reduceEqDiff]

theorem decode_long_four (hthird : continuation third = true)
    (hfourth : continuation fourth = true) :
    decodeLong 4 first (second :: third :: fourth :: more) =
      .char (decodeFour first second third fourth) 4 := by
  simp only [decodeLong, hsecond, hthird, hfourth, Bool.not_true, Bool.false_eq_true, if_false,
    if_true, Nat.reduceEqDiff]

end Placed

theorem decode_encoded (c : Char) (more : List UInt8) : ∃ first rest,
    String.utf8EncodeChar c = first :: rest ∧
      decodeHead first (rest ++ more) = .char c (rest.length + 1) := by
  have hbounds := Projection.char_bounds c
  have hbytes := utf8_bytes c
  have hchar : ∀ n width, n = c.toNat → Decoded.char (Char.ofNat n) width = .char c width := by
    intro n width hn
    rw [hn, Char.ofNat_toNat]
  rw [utf8Bytes] at hbytes
  split_ifs at hbytes with h1 h2 h3
  · obtain ⟨first, hencoded, hfirst⟩ := List.map_eq_singleton_iff.mp hbytes
    refine ⟨first, [], hencoded, ?_⟩
    rw [decodeHead, char_width_eq, if_pos (by omega)]
    exact hchar _ 1 hfirst
  · obtain ⟨first, rest, hencoded, hfirst, hrest⟩ := List.map_eq_cons_iff.mp hbytes
    obtain ⟨second, rfl, hsecond⟩ := List.map_eq_singleton_iff.mp hrest
    refine ⟨first, [second], hencoded, ?_⟩
    have hwidth : charWidth first = 2 := by
      rw [char_width_eq]
      split_ifs <;> omega
    have hplaced : secondByte first second = true := by
      rw [second_byte_iff]
      omega
    rw [decode_head_long hwidth (by omega)]
    apply (decode_long_two hplaced more).trans
    apply hchar _ 2
    rw [sixBits]
    omega
  · obtain ⟨first, rest, hencoded, hfirst, hrest⟩ := List.map_eq_cons_iff.mp hbytes
    obtain ⟨second, rest, rfl, hsecond, hrest⟩ := List.map_eq_cons_iff.mp hrest
    obtain ⟨third, rfl, hthird⟩ := List.map_eq_singleton_iff.mp hrest
    refine ⟨first, [second, third], hencoded, ?_⟩
    have hwidth : charWidth first = 3 := by
      rw [char_width_eq]
      split_ifs <;> omega
    have hplaced : secondByte first second = true := by
      rw [second_byte_iff]
      omega
    have hthird' : continuation third = true := (continuation_iff third).mpr (by omega)
    rw [decode_head_long hwidth (by omega)]
    apply (decode_long_three hplaced more hthird').trans
    apply hchar _ 3
    rw [sixBits, sixBits]
    omega
  · obtain ⟨first, rest, hencoded, hfirst, hrest⟩ := List.map_eq_cons_iff.mp hbytes
    obtain ⟨second, rest, rfl, hsecond, hrest⟩ := List.map_eq_cons_iff.mp hrest
    obtain ⟨third, rest, rfl, hthird, hrest⟩ := List.map_eq_cons_iff.mp hrest
    obtain ⟨fourth, rfl, hfourth⟩ := List.map_eq_singleton_iff.mp hrest
    refine ⟨first, [second, third, fourth], hencoded, ?_⟩
    have hwidth : charWidth first = 4 := by
      rw [char_width_eq]
      split_ifs <;> omega
    have hplaced : secondByte first second = true := by
      rw [second_byte_iff]
      omega
    have hthird' : continuation third = true := (continuation_iff third).mpr (by omega)
    have hfourth' : continuation fourth = true := (continuation_iff fourth).mpr (by omega)
    rw [decode_head_long hwidth (by omega)]
    apply (decode_long_four hplaced more hthird' hfourth').trans
    apply hchar _ 4
    rw [sixBits, sixBits, sixBits]
    omega

/-- How many bytes a decoding reads, unless it waits for more. -/
def reach : Decoded → Option ℕ
  | .char _ width => some width
  | .incomplete => none
  | .invalid width => some width

theorem decode_within (b : UInt8) (before after : List UInt8) (lead : UInt8)
    (hlead : continuation lead = false) : ∃ width,
    reach (decodeHead b (before ++ lead :: after)) = some width ∧ 1 ≤ width ∧
      width ≤ before.length + 1 := by
  have hsecond : secondByte b lead = false := by
    have hnot : ¬ (128 ≤ lead.toNat ∧ lead.toNat ≤ 191) := by
      rw [← continuation_iff, hlead]
      exact Bool.false_ne_true
    rw [← Bool.not_eq_true, second_byte_iff]
    exact fun h => hnot h.1
  rw [decodeHead.eq_def]
  split
  · exact ⟨1, rfl, le_rfl, Nat.le_add_left _ _⟩
  · exact ⟨1, rfl, le_rfl, Nat.le_add_left _ _⟩
  · match before with
    | [] => simp [decodeLong, hsecond, reach]
    | [second] =>
      simp only [List.cons_append, List.nil_append, decodeLong, hlead, Bool.not_false, if_true]
      split_ifs <;> simp [reach]
    | [second, third] =>
      simp only [List.cons_append, List.nil_append, decodeLong, hlead, Bool.false_eq_true, if_false]
      split_ifs <;> simp [reach]
    | second :: third :: fourth :: more =>
      simp only [List.cons_append, decodeLong]
      split_ifs <;> simp [reach]

theorem lossy_cons {b : UInt8} {rest : List UInt8} {width : ℕ}
    (h : reach (decodeHead b rest) = some width) :
    ∃ c, fromUtf8Lossy 0 (b :: rest) = c :: fromUtf8Lossy (width - 1) rest := by
  rw [fromUtf8Lossy.eq_def]
  cases hread : decodeHead b rest with
  | char c read =>
    rw [hread] at h
    cases h
    exact ⟨c, by simp only [hread]⟩
  | incomplete => simp [hread, reach] at h
  | invalid read =>
    rw [hread] at h
    cases h
    exact ⟨replacement, by simp only [hread]⟩

theorem lossy_skip (skipped rest : List UInt8) :
    fromUtf8Lossy skipped.length (skipped ++ rest) = fromUtf8Lossy 0 rest := by
  induction skipped with
  | nil => rfl
  | cons b skipped ih => exact ih

theorem lossy_encoded (text : Text) : fromUtf8Lossy 0 (encode text) = text := by
  induction text with
  | nil => rfl
  | cons c text ih =>
    obtain ⟨first, rest, hencoded, hread⟩ := decode_encoded c (encode text)
    have hbytes : encode (c :: text) = first :: (rest ++ encode text) := by
      rw [encode, List.flatMap_cons, hencoded]
      rfl
    rw [hbytes, fromUtf8Lossy.eq_def]
    simp only [hread, Nat.add_sub_cancel, lossy_skip, ih]

theorem encode_lead (c : Char) (text : Text) : ∃ lead rest,
    encode (c :: text) = lead :: rest ∧ continuation lead = false := by
  obtain ⟨first, rest, hbytes, hfirst, -, -⟩ := utf8_leads c
  obtain ⟨lead, more, hencoded, hlead, -⟩ := List.map_eq_cons_iff.mp hbytes
  refine ⟨lead, more ++ encode text, ?_, ?_⟩
  · rw [encode, List.flatMap_cons, hencoded]
    rfl
  · rw [← Bool.not_eq_true, continuation_iff]
    omega

theorem lossy_ends (before after : List UInt8) (lead : UInt8) (hlead : continuation lead = false) :
    fromUtf8Lossy 0 (lead :: after) <:+ fromUtf8Lossy 0 (before ++ lead :: after) := by
  induction hlength : before.length using Nat.strong_induction_on generalizing before with
  | _ n ih =>
    cases before with
    | nil => exact List.suffix_refl _
    | cons b before =>
      obtain ⟨width, hreach, hpos, hwithin⟩ := decode_within b before after lead hlead
      obtain ⟨read, hlossy⟩ := lossy_cons hreach
      have hskip : (before.take (width - 1)).length = width - 1 := by
        rw [List.length_take]
        omega
      have hrest : fromUtf8Lossy (width - 1) (before ++ lead :: after) =
          fromUtf8Lossy 0 (before.drop (width - 1) ++ lead :: after) := by
        calc fromUtf8Lossy (width - 1) (before ++ lead :: after)
            = fromUtf8Lossy (before.take (width - 1)).length (before.take (width - 1) ++
                (before.drop (width - 1) ++ lead :: after)) := by
              rw [hskip, ← List.append_assoc, List.take_append_drop]
          _ = _ := lossy_skip _ _
      rw [List.cons_append, hlossy, hrest]
      apply List.IsSuffix.trans _ (List.suffix_cons _ _)
      apply ih (before.drop (width - 1)).length _ _ rfl
      rw [List.length_drop]
      rw [List.length_cons] at hlength
      omega

def usizeMax : ℕ := 2 ^ 64 - 1

def saturatingMul (a b : ℕ) : ℕ := min (a * b) usizeMax

/-- The longest encoding of the credential, escaped as JSON or percent-encoded. -/
def maxEncodedLen (secret : Text) : ℕ :=
  max (saturatingMul (encodeUtf16 secret).length 6) (saturatingMul (utf8Len secret) 3)

def truncationMarker : Text := "...[truncated]"

def truncateBody (bytes : List UInt8) (secret : Option Text) : List UInt8 :=
  match secret.filter fun value => !value.isEmpty with
  | none => bytes
  | some secret =>
    let overlap := min (maxEncodedLen secret - 1) bytes.length
    bytes.take (bytes.length - overlap)

def boundedBodyTextFromBytes (bytes : List UInt8) (secret : Option Text) : Text :=
  let truncated := decide (Sse.maxResponseBytes < bytes.length)
  let bytes := bytes.take Sse.maxResponseBytes
  let bytes := if truncated then truncateBody bytes secret else bytes
  let text := fromUtf8Lossy 0 bytes
  let text := if truncated then text ++ truncationMarker else text
  redactSensitive text secret

def cut (secret : Text) : ℕ :=
  Sse.maxResponseBytes - min (maxEncodedLen secret - 1) Sse.maxResponseBytes

/-- The text that is kept of a body over the cap. -/
def keptText (body : List UInt8) (secret : Text) : Text := fromUtf8Lossy 0 (body.take (cut secret))

theorem bounded_truncated {body : List UInt8} {secret : Text}
    (hlong : Sse.maxResponseBytes < body.length) (hne : secret ≠ []) :
    boundedBodyTextFromBytes body (some secret) =
      redactSensitiveWithVariants (keptText body secret ++ truncationMarker)
        (sensitiveVariants secret) (some secret) := by
  have hfilter : (some secret).filter (fun value => !value.isEmpty) = some secret := by
    simpa using hne
  have hlimited : (body.take Sse.maxResponseBytes).length = Sse.maxResponseBytes := by
    rw [List.length_take]
    omega
  have hcut : truncateBody (body.take Sse.maxResponseBytes) (some secret) =
      body.take (cut secret) := by
    simp only [truncateBody, hfilter, hlimited, List.take_take]
    rw [cut, Nat.min_eq_left (Nat.sub_le _ _)]
  cases secret with
  | nil => exact absurd rfl hne
  | cons c rest =>
    simp only [boundedBodyTextFromBytes, hlong, decide_true, if_true, hcut, redactSensitive,
      keptText]

/-- These digits, in either case, are the number. -/
def Hex (width n : ℕ) (digits : Text) : Prop :=
  ∃ nibbles : List ℕ, digits.map hexNibble = nibbles.map some ∧ nibbles.length = width ∧
    nibbles.foldl (fun n digit => n * 16 + digit) 0 = n

example : Hex 2 0xE0 ['e', '0'] := ⟨[14, 0], by decide, rfl, by decide⟩

def JsonForm (unit : ℕ) (form : Text) : Prop :=
  ∃ digits, Hex 4 unit digits ∧ form = '\\' :: 'u' :: digits

def PercentForm (byte : ℕ) (form : Text) : Prop :=
  (∃ digits, Hex 2 byte digits ∧ form = '%' :: digits) ∨
    (unreserved byte = true ∧ form = [Char.ofNat byte])

/-- Raw, with every unit escaped, or percent-encoded. -/
inductive Encodes (secret : Text) : Text → Prop where
  | raw : Encodes secret secret
  | json (forms : List Text) (h : List.Forall₂ JsonForm (encodeUtf16 secret) forms) :
    Encodes secret forms.flatten
  | percent (forms : List Text) (h : List.Forall₂ PercentForm (encodeUtf8 secret) forms) :
    Encodes secret forms.flatten

theorem encode_append (left right : Text) : encode (left ++ right) = encode left ++ encode right :=
  List.flatMap_append

theorem encode_length (text : Text) : (encode text).length = utf8Len text := by
  simp [encode, utf8Len, List.length_flatMap]

theorem ascii_length {text : Text} (h : ∀ c ∈ text, c.toNat < 128) :
    (encode text).length = text.length := by
  induction text with
  | nil => rfl
  | cons c text ih =>
    have hc : c.utf8Size = 1 := by
      rw [Char.utf8Size_eq_one_iff, UInt32.le_iff_toNat_le]
      exact Nat.le_of_lt_succ (h c List.mem_cons_self)
    rw [encode, List.flatMap_cons, List.length_append, String.length_utf8EncodeChar, hc,
      List.length_cons, Nat.add_comm]
    exact congrArg Nat.succ (ih fun d hd => h d (List.mem_cons_of_mem _ hd))

theorem hex_nibble_ascii {c : Char} {digit : ℕ} (h : hexNibble c = some digit) : c.toNat < 128 := by
  have hle : ∀ {last : Char}, last.toNat < 128 → c ≤ last → c.toNat < 128 := by
    intro last hlast hc
    exact lt_of_le_of_lt (UInt32.le_iff_toNat_le.mp (Char.le_def.mp hc)) hlast
  rw [hexNibble] at h
  split_ifs at h with hdigit hlower hupper
  · rw [Char.isDigit, Bool.and_eq_true, decide_eq_true_eq, decide_eq_true_eq] at hdigit
    have := UInt32.le_iff_toNat_le.mp hdigit.2
    exact lt_of_le_of_lt this (by decide)
  · exact hle (by decide) hlower.2
  · exact hle (by decide) hupper.2

theorem hex_length {width n : ℕ} {digits : Text} (h : Hex width n digits) :
    (∀ c ∈ digits, c.toNat < 128) ∧ digits.length = width := by
  obtain ⟨nibbles, hnibbles, hwidth, -⟩ := h
  constructor
  · intro c hc
    have hmem : hexNibble c ∈ nibbles.map some := hnibbles ▸ List.mem_map_of_mem hc
    obtain ⟨digit, -, hdigit⟩ := List.mem_map.mp hmem
    exact hex_nibble_ascii hdigit.symm
  · simpa [hwidth] using congrArg List.length hnibbles

theorem json_form_length {unit : ℕ} {form : Text} (h : JsonForm unit form) :
    (encode form).length ≤ 6 := by
  obtain ⟨digits, hdigits, rfl⟩ := h
  obtain ⟨hascii, hwidth⟩ := hex_length hdigits
  rw [ascii_length, List.length_cons, List.length_cons, hwidth]
  intro c hc
  rcases List.mem_cons.mp hc with rfl | hc
  · decide
  · rcases List.mem_cons.mp hc with rfl | hc
    · decide
    · exact hascii c hc

theorem percent_form_length {byte : ℕ} {form : Text} (h : PercentForm byte form) :
    (encode form).length ≤ 3 := by
  rcases h with ⟨digits, hdigits, rfl⟩ | ⟨hbyte, rfl⟩
  · obtain ⟨hascii, hwidth⟩ := hex_length hdigits
    rw [ascii_length, List.length_cons, hwidth]
    intro c hc
    rcases List.mem_cons.mp hc with rfl | hc
    · decide
    · exact hascii c hc
  · rw [ascii_length, List.length_singleton]
    · omega
    · intro c hc
      rw [unreserved, Bool.and_eq_true, decide_eq_true_eq] at hbyte
      have hvalid : byte.isValidChar := .inl (by omega)
      rw [List.mem_singleton.mp hc, Char.ofNat, dif_pos hvalid]
      exact hbyte.1

theorem forms_length {R : ℕ → Text → Prop} {bound : ℕ}
    (hbound : ∀ value form, R value form → (encode form).length ≤ bound) {values : List ℕ}
    {forms : List Text} (h : List.Forall₂ R values forms) :
    (encode forms.flatten).length ≤ values.length * bound := by
  induction h with
  | nil => simp [encode]
  | cons hform _ ih =>
    rw [List.flatten_cons, encode_append, List.length_append, List.length_cons, Nat.succ_mul]
    have := hbound _ _ hform
    omega

theorem encoded_length {secret encoded : Text} (h : Encodes secret encoded) :
    (encode encoded).length ≤ max ((encodeUtf16 secret).length * 6) (utf8Len secret * 3) := by
  cases h with
  | raw =>
    rw [encode_length]
    omega
  | json forms h => exact (forms_length (fun _ _ => json_form_length) h).trans (le_max_left _ _)
  | percent forms h =>
    have hlength := forms_length (fun _ _ => percent_form_length) h
    rw [bytes_length] at hlength
    exact hlength.trans (le_max_right _ _)

/-- The body holds the credential in one of its forms, `front ++ back`; what is kept from where it
begins reads as `front`. -/
structure LeavesBehind (body : List UInt8) (secret : Text) (before : List UInt8)
    (front back : Text) (after : List UInt8) : Prop where
  holds : body = before ++ encode (front ++ back) ++ after
  encodes : Encodes secret (front ++ back)
  begun : front ≠ []
  unfinished : back ≠ []
  reads : fromUtf8Lossy 0 ((body.take (cut secret)).drop before.length) = front

/-- No fragment of the credential stands in front of the truncation marker. -/
def NoFragment (body : List UInt8) (secret : Text) : Prop :=
  ∀ before front back after, LeavesBehind body secret before front back after →
    ¬ front ++ truncationMarker <:+ boundedBodyTextFromBytes body (some secret)

/-- The credential stands wholly below the cap and over the place of the cut. -/
def Spans (body : List UInt8) (secret : Text) : Prop :=
  ∃ before front back after, LeavesBehind body secret before front back after ∧
    before.length + (encode (front ++ back)).length ≤ Sse.maxResponseBytes

section Fragments

variable {body before after : List UInt8} {secret front back : Text}

theorem LeavesBehind.below_cut (h : LeavesBehind body secret before front back after) :
    before.length < cut secret := by
  by_contra hover
  apply h.begun
  rw [← h.reads, List.drop_eq_nil_of_le, fromUtf8Lossy]
  rw [List.length_take]
  omega

theorem LeavesBehind.below_cap (h : LeavesBehind body secret before front back after) :
    before.length + (encode (front ++ back)).length ≤ Sse.maxResponseBytes := by
  have hbelow := h.below_cut
  have hlength := encoded_length h.encodes
  have hcap : Sse.maxResponseBytes + 1 < usizeMax := by decide
  rw [cut, maxEncodedLen, saturatingMul, saturatingMul] at hbelow
  omega

theorem leaves_behind (hbody : body = before ++ encode (front ++ back) ++ after)
    (hencodes : Encodes secret (front ++ back)) (hfront : front ≠ []) (hback : back ≠ [])
    (hcut : before.length + (encode front).length = cut secret) :
    LeavesBehind body secret before front back after := by
  refine ⟨hbody, hencodes, hfront, hback, ?_⟩
  have htaken : body.take (cut secret) = before ++ encode front := by
    rw [hbody, encode_append, ← hcut, ← List.length_append]
    simp only [List.append_assoc]
    rw [← List.append_assoc, List.take_left]
  rw [htaken, List.drop_left, lossy_encoded]

theorem LeavesBehind.ends (h : LeavesBehind body secret before front back after) :
    front <:+ keptText body secret := by
  have hbelow := h.below_cut
  obtain ⟨c, rest, hchars⟩ := List.exists_cons_of_ne_nil h.begun
  obtain ⟨lead, bytes, hbytes, hlead⟩ := encode_lead c (rest ++ back)
  have hfrom : (body.take (cut secret)).drop before.length =
      lead :: (bytes ++ after).take (cut secret - before.length - 1) := by
    have hpositive : cut secret - before.length = cut secret - before.length - 1 + 1 := by omega
    rw [List.drop_take, h.holds, hchars, List.cons_append, hbytes, List.append_assoc,
      List.drop_left, List.cons_append, hpositive, List.take_succ_cons, Nat.add_sub_cancel]
  have hkept : body.take (cut secret) =
      before ++ lead :: (bytes ++ after).take (cut secret - before.length - 1) := by
    rw [← hfrom, h.holds, List.append_assoc, List.take_append, List.take_of_length_le hbelow.le,
      List.drop_left]
  rw [keptText, hkept, ← h.reads, hfrom]
  exact lossy_ends _ _ _ hlead

theorem LeavesBehind.kept (h : LeavesBehind body secret before front back after)
    (hlong : Sse.maxResponseBytes < body.length) (hne : secret ≠ [])
    (hclean : Clean secret (keptText body secret ++ truncationMarker)) :
    front ++ truncationMarker <:+ boundedBodyTextFromBytes body (some secret) := by
  obtain ⟨start, hstart⟩ := h.ends
  rw [bounded_truncated hlong hne, redact_clean hne hclean, ← hstart, List.append_assoc]
  exact List.suffix_append _ _

end Fragments

/-- A body in which the credential does not stand over the place of the cut leaves no fragment of
it; where the redaction finds nothing, no other body does. -/
theorem no_fragment_unless_spanned (body : List UInt8) (secret : Text)
    (hlong : Sse.maxResponseBytes < body.length) (hne : secret ≠ []) :
    (¬ Spans body secret → NoFragment body secret) ∧
      (Clean secret (keptText body secret ++ truncationMarker) →
        (NoFragment body secret ↔ ¬ Spans body secret)) := by
  have hforward : ¬ Spans body secret → NoFragment body secret := by
    intro hnone before front back after hleft
    exact absurd ⟨before, front, back, after, hleft, hleft.below_cap⟩ hnone
  refine ⟨hforward, fun hclean => ⟨?_, hforward⟩⟩
  rintro hnone ⟨before, front, back, after, hleft, -⟩
  exact hnone before front back after hleft (hleft.kept hlong hne hclean)

def sampleSecret : Text := ['a', 'b', 'c']

def padding (n : ℕ) : Text := List.replicate n 'x'

/-- The credential stands behind the first of the paddings. -/
def bodyAround (before after : ℕ) : List UInt8 :=
  encode (padding before) ++ encode sampleSecret ++ encode (padding after)

theorem padding_length (n : ℕ) : (encode (padding n)).length = n := by
  rw [ascii_length, padding, List.length_replicate]
  intro c hc
  rw [List.eq_of_mem_replicate hc]
  decide

theorem around_length (before after : ℕ) :
    (bodyAround before after).length = before + 3 + after := by
  rw [bodyAround, List.length_append, List.length_append, padding_length, padding_length]
  rfl

section Around

variable {before : ℕ} (after : ℕ) (h : before + 1 = cut sampleSecret)

include h

theorem around_left : LeavesBehind (bodyAround before after) sampleSecret (encode (padding before))
    ['a'] ['b', 'c'] (encode (padding after)) := by
  refine leaves_behind rfl .raw (by decide) (by decide) ?_
  rw [padding_length, ← h]
  rfl

theorem around_kept : keptText (bodyAround before after) sampleSecret = padding before ++ ['a'] := by
  have hsplit : bodyAround before after = encode (padding before ++ ['a']) ++
      (encode ['b', 'c'] ++ encode (padding after)) := by
    rw [bodyAround, encode_append, List.append_assoc, List.append_assoc]
    rfl
  have hlength : (encode (padding before ++ ['a'])).length = cut sampleSecret := by
    rw [encode_append, List.length_append, padding_length, ← h]
    rfl
  rw [keptText, hsplit, ← hlength, List.take_left, lossy_encoded]

theorem around_clean :
    Clean sampleSecret (keptText (bodyAround before after) sampleSecret ++ truncationMarker) := by
  have hall : ('x' :: 'a' :: truncationMarker).all
      (fun c => c != '\\' && c != '%' && c != '+' && c != 'b') = true := by decide
  have hplain : ∀ c ∈ 'x' :: 'a' :: truncationMarker, ¬ Special c ∧ c ≠ 'b' := by
    intro c hc
    have hc := List.all_eq_true.mp hall c hc
    simp only [Bool.and_eq_true, bne_iff_ne, ne_eq] at hc
    exact ⟨fun h => h.elim hc.1.1.1 fun h => h.elim hc.1.1.2 hc.1.2, hc.2⟩
  have hchars : ∀ c ∈ keptText (bodyAround before after) sampleSecret ++ truncationMarker,
      ¬ Special c ∧ c ≠ 'b' := by
    intro c hc
    apply hplain
    rw [around_kept after h, List.append_assoc, List.mem_append] at hc
    rw [List.mem_cons]
    exact hc.imp_left List.eq_of_mem_replicate
  apply clean_plain (by decide)
  · exact fun c hc => (hchars c hc).1
  · intro hpart
    have hmem : 'b' ∈ sampleSecret := by decide
    exact (hchars 'b' (hpart.subset hmem)).2 rfl

end Around

def sampleBody : List UInt8 := bodyAround 1048558 20

theorem sample_cut : 1048558 + 1 = cut sampleSecret := by decide

theorem sample_long : Sse.maxResponseBytes < sampleBody.length := by
  rw [sampleBody, around_length]
  decide

theorem no_fragment_unless_spanned_sample :
    NoFragment sampleBody sampleSecret ↔ ¬ Spans sampleBody sampleSecret :=
  (no_fragment_unless_spanned sampleBody sampleSecret sample_long (by decide)).2
    (around_clean 20 sample_cut)

theorem fragment_kept : ¬ ∀ body secret, Sse.maxResponseBytes < body.length → secret ≠ [] →
    NoFragment body secret := by
  intro hclaim
  have hleft := around_left 20 sample_cut
  exact hclaim sampleBody sampleSecret sample_long (by decide) _ _ _ _ hleft
    (hleft.kept sample_long (by decide) (around_clean 20 sample_cut))

end Siralos.TruncatedBody
