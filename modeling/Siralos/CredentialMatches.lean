import Siralos.CredentialGate

/-!
# What the credential scanner refuses

Whatever the scanner takes for a credential is spelled as one in the body: the documented keys, its
own bearer tokens and `key:` values, a sensitive member of the JSON that the body is, or an
assignment at a place that the scan comes to.
-/

set_option autoImplicit false

namespace Siralos.ReplayStore

open Json Provider Knowledge

theorem byte_split {body : Text} {front back : Bytes} {b : UInt8} (hsmall : b.toNat < 128)
    (h : bytesOf body = front ++ b :: back) :
    ∃ before after, body = before ++ Char.ofNat b.toNat :: after ∧ bytesOf before = front ∧
      bytesOf after = back := by
  induction body generalizing front with
  | nil => simp [bytesOf] at h
  | cons c text ih =>
    rw [bytes_cons] at h
    rcases List.append_eq_append_iff.mp h with ⟨rest, hfront, htext⟩ | ⟨rest, hchar, hrest⟩
    · obtain ⟨before, after, hbody, hbefore, hafter⟩ := ih htext
      refine ⟨c :: before, after, by rw [hbody, List.cons_append], ?_, hafter⟩
      rw [bytes_cons, hbefore, hfront]
    · cases rest with
      | nil =>
        have hrest : bytesOf text = [] ++ b :: back := hrest.symm
        obtain ⟨before, after, hbody, hbefore, hafter⟩ := ih hrest
        refine ⟨c :: before, after, by rw [hbody, List.cons_append], ?_, hafter⟩
        rw [bytes_cons, hbefore, hchar, List.append_nil, List.append_nil]
      | cons d rest =>
        obtain ⟨rfl, hback⟩ := List.cons.inj hrest
        obtain ⟨honly, hvalue⟩ :=
          Redaction.ascii_byte (c := c) (b := b) (by rw [hchar]; simp) hsmall
        rw [honly] at hchar
        have hnone : front = [] ∧ rest = [] := by
          have hlength := congrArg List.length hchar
          simp only [List.length_cons, List.length_nil, List.length_append] at hlength
          exact ⟨List.length_eq_zero_iff.mp (by omega), List.length_eq_zero_iff.mp (by omega)⟩
        obtain ⟨rfl, rfl⟩ := hnone
        refine ⟨[], text, ?_, rfl, hback.symm⟩
        rw [← hvalue, Char.ofNat_toNat, List.nil_append]

def charsOf (run : Bytes) : Text := run.map fun b => Char.ofNat b.toNat

theorem run_front {body : Text} {run back : Bytes} (hsmall : ∀ b ∈ run, b.toNat < 128)
    (h : bytesOf body = run ++ back) :
    ∃ after, body = charsOf run ++ after ∧ bytesOf after = back := by
  induction run generalizing body with
  | nil => exact ⟨body, rfl, h⟩
  | cons b run ih =>
    have hsplit : bytesOf body = [] ++ b :: (run ++ back) := h
    obtain ⟨before, rest, rfl, hbefore, hrest⟩ :=
      byte_split (hsmall b List.mem_cons_self) hsplit
    have hnil : before = [] := by
      have hlength := bytes_length before
      rw [hbefore] at hlength
      exact List.length_eq_zero_iff.mp (Nat.le_zero.mp hlength)
    obtain ⟨after, rfl, hafter⟩ := ih (fun c hc => hsmall c (List.mem_cons_of_mem _ hc)) hrest
    exact ⟨after, by rw [hnil]; rfl, hafter⟩

theorem run_split {body : Text} {front run back : Bytes} (hsmall : ∀ b ∈ run, b.toNat < 128)
    (hsome : run ≠ []) (h : bytesOf body = front ++ (run ++ back)) :
    ∃ before after, body = before ++ charsOf run ++ after := by
  obtain ⟨b, run, rfl⟩ := List.exists_cons_of_ne_nil hsome
  obtain ⟨before, rest, rfl, -, hrest⟩ := byte_split (hsmall b List.mem_cons_self) h
  obtain ⟨after, rfl, -⟩ := run_front (fun c hc => hsmall c (List.mem_cons_of_mem _ hc)) hrest
  exact ⟨before, after, by simp [charsOf]⟩

theorem chars_append (first second : Bytes) :
    charsOf (first ++ second) = charsOf first ++ charsOf second := List.map_append

theorem chars_word {text : Text} (h : isAscii text = true) : charsOf (word text) = text :=
  word_back (ascii_small h)

theorem word_chars {run : Bytes} (hsmall : ∀ b ∈ run, b.toNat < 128) :
    word (charsOf run) = run := by
  have hvalue : ∀ n < 128, (Char.ofNat n).toNat = n := by decide
  rw [word, charsOf, List.map_map]
  calc run.map _ = run.map id := by
        apply List.map_congr_left
        intro b hb
        show UInt8.ofNat (Char.ofNat b.toNat).toNat = b
        rw [hvalue _ (hsmall b hb), UInt8.ofNat_toNat]
    _ = run := List.map_id run

/-- A class of bytes, all below 128, that are spelled in a class of characters. -/
structure Spells (p : UInt8 → Bool) (q : Char → Bool) : Prop where
  small : ∀ b, p b = true → b.toNat < 128
  spelled : ∀ n < 128, p (UInt8.ofNat n) = true → q (Char.ofNat n) = true

theorem Spells.chars {p : UInt8 → Bool} {q : Char → Bool} (h : Spells p q) {run : Bytes}
    (hrun : ∀ b ∈ run, p b = true) : (charsOf run).all q = true := by
  rw [List.all_eq_true]
  intro c hc
  obtain ⟨b, hb, rfl⟩ := List.mem_map.mp hc
  exact h.spelled _ (h.small b (hrun b hb)) (by rw [UInt8.ofNat_toNat]; exact hrun b hb)

theorem alphanumeric_small {b : UInt8} (h : isAsciiAlphanumeric b = true) : b.toNat < 128 :=
  word_byte_small (by simp [isWordByte, h])

theorem openai_spells : Spells isOpenaiByte isOpenaiChar where
  small b hb := by
    simp only [isOpenaiByte, Bool.or_eq_true, beq_iff_eq] at hb
    rcases hb with (hb | rfl) | rfl
    · exact alphanumeric_small hb
    · decide
    · decide
  spelled := by decide

theorem aws_spells : Spells isAwsByte isAwsChar where
  small b hb := by
    apply alphanumeric_small
    simp only [isAwsByte, Bool.or_eq_true] at hb
    simp only [isAsciiAlphanumeric, Bool.or_eq_true]
    exact .inl hb.symm
  spelled := by decide

theorem token_spells : Spells isBearerTokenByte isTokenChar where
  small b hb := by
    simp only [isBearerTokenByte, Bool.or_eq_true, beq_iff_eq] at hb
    rcases hb with ((((((hb | rfl) | rfl) | rfl) | rfl) | rfl) | rfl) | rfl
    · exact alphanumeric_small hb
    all_goals decide
  spelled := by decide

theorem space_spells : Spells isAsciiWhitespace isAsciiSpace where
  small b hb := by
    simp only [isAsciiWhitespace, Bool.or_eq_true, beq_iff_eq] at hb
    rcases hb with (((rfl | rfl) | rfl) | rfl) | rfl
    all_goals decide
  spelled := by decide

theorem openai_run (skip : ℕ) (bytes : Bytes) (h : openaiKeyFrom skip bytes = true) :
    ∃ front run back, bytes = front ++ (word "sk-" ++ run ++ back) ∧ 16 ≤ run.length ∧
      ∀ b ∈ run, isOpenaiByte b = true := by
  have hsk : word "sk-" = [0x73, 0x6B, 0x2D] := by decide
  induction bytes generalizing skip with
  | nil => cases skip <;> cases h
  | cons b rest ih =>
    cases skip with
    | succ skip =>
      obtain ⟨front, run, back, hrest, hrun⟩ := ih skip h
      exact ⟨b :: front, run, back, by rw [hrest, List.cons_append], hrun⟩
    | zero =>
      rw [openaiKeyFrom] at h
      split at h
      · rename_i hstart
        obtain ⟨tail, htail⟩ := List.isPrefixOf_iff_prefix.mp hstart
        rw [hsk] at htail
        simp only [List.cons_append, List.nil_append, List.cons.injEq] at htail
        obtain ⟨rfl, rfl⟩ := htail
        simp only [List.drop_succ_cons, List.drop_zero, Bool.or_eq_true, decide_eq_true_eq] at h
        rcases h with hlong | hlater
        · refine ⟨[], tail.takeWhile isOpenaiByte, tail.dropWhile isOpenaiByte, ?_, hlong,
            fun c => List.mem_takeWhile_imp⟩
          rw [List.nil_append, List.append_assoc, List.takeWhile_append_dropWhile, hsk]
          rfl
        · obtain ⟨front, run, back, hsplit, hrun⟩ := ih _ hlater
          exact ⟨0x73 :: front, run, back, by rw [hsplit, List.cons_append], hrun⟩
      · obtain ⟨front, run, back, hrest, hrun⟩ := ih 0 h
        exact ⟨b :: front, run, back, by rw [hrest, List.cons_append], hrun⟩

theorem openai_iff (body : Text) : containsOpenaiKeyShape body = true ↔ OpenaiKey body := by
  refine ⟨fun h => ?_, openai_caught⟩
  obtain ⟨front, run, back, hbytes, hlength, hrun⟩ := openai_run 0 _ h
  have hkey : ∀ b ∈ word "sk-", b.toNat < 128 := by decide +kernel
  have hsmall : ∀ b ∈ word "sk-" ++ run, b.toNat < 128 := by
    intro b hb
    rcases List.mem_append.mp hb with hb | hb
    · exact hkey b hb
    · exact openai_spells.small b (hrun b hb)
  obtain ⟨before, after, hbody⟩ := run_split hsmall (by simp [word]) hbytes
  refine ⟨before, charsOf run, after, ?_, by rwa [charsOf, List.length_map],
    openai_spells.chars hrun⟩
  rw [hbody, chars_append, chars_word (by decide)]
  simp

theorem aws_iff (body : Text) : containsAwsAccessKeyShape body = true ↔ AwsKey body := by
  refine ⟨fun h => ?_, aws_caught⟩
  unfold containsAwsAccessKeyShape at h
  dsimp only at h
  split at h
  · cases h
  · rename_i hlong
    obtain ⟨i, hi, hkey⟩ := List.any_eq_true.mp h
    rw [List.mem_range] at hi
    rw [awsKeyAt, Bool.and_eq_true, Bool.and_eq_true, bne_iff_ne] at hkey
    obtain ⟨⟨hstart, hclass⟩, hother⟩ := hkey
    obtain ⟨run, hrun⟩ := List.isPrefixOf_iff_prefix.mp hstart
    rw [← hrun, List.drop_left' (show (word "AKIA").length = 4 from rfl), List.all_eq_true] at hclass
    have htake : ((bytesOf body).drop i).take 20 ++ ((bytesOf body).drop i).drop 20 =
        (bytesOf body).drop i := List.take_append_drop 20 _
    have hbytes : bytesOf body = (bytesOf body).take i ++
        (word "AKIA" ++ run ++ ((bytesOf body).drop i).drop 20) := by
      rw [hrun, htake, List.take_append_drop]
    have hlength : run.length = 16 := by
      have hsize := congrArg List.length hrun
      simp only [List.length_append, List.length_take, List.length_drop] at hsize
      have hword : (word "AKIA").length = 4 := rfl
      omega
    have hword : ∀ b ∈ word "AKIA", b.toNat < 128 := by decide +kernel
    have hsmall : ∀ b ∈ word "AKIA" ++ run, b.toNat < 128 := by
      intro b hb
      rcases List.mem_append.mp hb with hb | hb
      · exact hword b hb
      · exact aws_spells.small b (hclass b hb)
    obtain ⟨before, after, hbody⟩ := run_split hsmall (by simp [word]) hbytes
    refine ⟨before, charsOf run, after, ?_, by rwa [charsOf, List.length_map],
      aws_spells.chars hclass, ?_⟩
    · rw [hbody, chars_append, chars_word (by decide)]
      simp
    · intro hsample
      apply hother
      have hback := congrArg word hsample
      rw [word, List.map_append, ← word, ← word,
        word_chars fun b hb => aws_spells.small b (hclass b hb), hrun] at hback
      exact hback

theorem lower_small {b : UInt8} (h : (toAsciiLower b).toNat < 128) : b.toNat < 128 := by
  by_contra hlarge
  rw [toAsciiLower, if_neg] at h
  · exact hlarge h
  · simp only [Bool.and_eq_true, decide_eq_true_eq, UInt8.le_iff_toNat_le, not_and, not_le]
    have hupper : (0x5A : UInt8).toNat = 0x5A := rfl
    omega

theorem chars_lower {run : Bytes} (hsmall : ∀ b ∈ run, b.toNat < 128) :
    Text.toAsciiLowercase (charsOf run) = charsOf (run.map toAsciiLower) := by
  rw [Text.toAsciiLowercase, charsOf, charsOf, List.map_map, List.map_map]
  apply List.map_congr_left
  intro b hb
  show (Char.ofNat b.toNat).toLower = Char.ofNat (toAsciiLower b).toNat
  obtain ⟨hlower, hbound⟩ := lower_byte b.toNat (hsmall b hb)
  rw [UInt8.ofNat_toNat] at hlower
  rw [hlower, UInt8.toNat_ofNat', Nat.mod_eq_of_lt (by omega), Char.ofNat_toNat]

theorem bearer_iff (body : Text) : containsBearerTokenShape body = true ↔ BearerToken body := by
  refine ⟨fun h => ?_, bearer_caught⟩
  unfold containsBearerTokenShape at h
  dsimp only at h
  split at h
  · cases h
  · obtain ⟨i, -, hbearer⟩ := List.any_eq_true.mp h
    rw [bearerAt, Bool.and_eq_true, Bool.and_eq_true, decide_eq_true_eq, ← List.drop_drop]
      at hbearer
    obtain ⟨hstart, hhead, hlong⟩ := hbearer
    generalize hplace : (bytesOf body).drop i = place at hstart hhead hlong
    have hspelled : (place.take 6).map toAsciiLower = word "bearer" := by
      have htake := List.prefix_iff_eq_take.mp (List.isPrefixOf_iff_prefix.mp hstart)
      rw [List.map_take]
      exact htake.symm
    generalize hrest : place.drop 6 = rest at hhead hlong
    have hgap : rest.takeWhile isAsciiWhitespace ≠ [] := by
      cases rest with
      | nil => cases hhead
      | cons b rest =>
        have hb : isAsciiWhitespace b = true := hhead
        rw [List.takeWhile_cons_of_pos hb]
        exact List.cons_ne_nil _ _
    have hbytes : bytesOf body = (bytesOf body).take i ++
        (place.take 6 ++ rest.takeWhile isAsciiWhitespace ++
          (rest.dropWhile isAsciiWhitespace).takeWhile isBearerTokenByte ++
          (rest.dropWhile isAsciiWhitespace).dropWhile isBearerTokenByte) := by
      rw [List.append_assoc, List.takeWhile_append_dropWhile, List.append_assoc,
        List.takeWhile_append_dropWhile, ← hrest, List.take_append_drop, ← hplace,
        List.take_append_drop]
    have hletters : ∀ b ∈ word "bearer", b.toNat < 128 := by decide +kernel
    have hsix : ∀ b ∈ place.take 6, b.toNat < 128 := by
      intro b hb
      apply lower_small
      apply hletters
      rw [← hspelled]
      exact List.mem_map_of_mem hb
    have hsmall : ∀ b ∈ place.take 6 ++ rest.takeWhile isAsciiWhitespace ++
        (rest.dropWhile isAsciiWhitespace).takeWhile isBearerTokenByte, b.toNat < 128 := by
      intro b hb
      rcases List.mem_append.mp hb with hb | hb
      · rcases List.mem_append.mp hb with hb | hb
        · exact hsix b hb
        · exact space_spells.small b (List.mem_takeWhile_imp hb)
      · exact token_spells.small b (List.mem_takeWhile_imp hb)
    obtain ⟨before, after, hbody⟩ := run_split hsmall (by simp [hgap]) hbytes
    refine ⟨before, charsOf (place.take 6), charsOf (rest.takeWhile isAsciiWhitespace),
      charsOf ((rest.dropWhile isAsciiWhitespace).takeWhile isBearerTokenByte), after, ?_, ?_, ?_,
      space_spells.chars fun b => List.mem_takeWhile_imp, ?_,
      token_spells.chars fun b => List.mem_takeWhile_imp⟩
    · rw [hbody, chars_append, chars_append]
      simp only [List.append_assoc]
    · rw [chars_lower hsix, hspelled, chars_word (by decide)]
    · intro hnil
      exact hgap (List.map_eq_nil_iff.mp hnil)
    · rwa [charsOf, List.length_map]

/-- `key:` in any case, and later a character that shows. -/
def KeyValue (body : Text) : Prop :=
  ∃ before spelled after, body = before ++ spelled ++ after ∧
    Text.toAsciiLowercase spelled = "key:".toList ∧
    ∃ c ∈ after, Text.isWhitespace c = false ∧ Text.isControl c = false

theorem key_value_iff (body : Text) : containsLiteralKeyValue body = true ↔ KeyValue body := by
  constructor
  · intro h
    obtain ⟨tail, htail, hkey⟩ := List.any_eq_true.mp h
    obtain ⟨before, rfl⟩ := (List.mem_tails tail body).mp htail
    rw [Bool.and_eq_true, Text.starts_with_iff] at hkey
    obtain ⟨hstart, hshows⟩ := hkey
    obtain ⟨c, hc, hshows⟩ := List.any_eq_true.mp hshows
    rw [Bool.and_eq_true, Bool.not_eq_true', Bool.not_eq_true'] at hshows
    refine ⟨before, tail.take 4, tail.drop 4, ?_, ?_, c, hc, hshows⟩
    · rw [List.append_assoc, List.take_append_drop]
    · rw [Text.toAsciiLowercase, List.map_take]
      exact (List.prefix_iff_eq_take.mp hstart).symm
  · rintro ⟨before, spelled, after, rfl, hspelled, c, hc, hwhite, hcontrol⟩
    have hlength : spelled.length = 4 := by
      have hsame := congrArg List.length hspelled
      rwa [Text.toAsciiLowercase, List.length_map] at hsame
    apply List.any_eq_true.mpr
    refine ⟨spelled ++ after, (List.mem_tails _ _).mpr ⟨before, by simp⟩, ?_⟩
    rw [Bool.and_eq_true, Text.starts_with_iff, Text.toAsciiLowercase, List.map_append,
      List.drop_left' hlength]
    refine ⟨⟨_, congrArg (· ++ _) hspelled.symm⟩, List.any_eq_true.mpr ⟨c, hc, ?_⟩⟩
    rw [hwhite, hcontrol]
    rfl

/-- A string of eight bytes or more that is no reference, anywhere in the value. -/
inductive Sensitive : Value → Prop
  | string (text : Text) (hlong : 8 ≤ Text.utf8Len text) (hplain : isReference text = false) :
      Sensitive (.string text)
  | element (values : List Value) (value : Value) (hmem : value ∈ values) (h : Sensitive value) :
      Sensitive (.array values)
  | member (fields : List (Text × Value)) (key : Text) (value : Value)
      (hmem : (key, value) ∈ fields) (h : Sensitive value) : Sensitive (.object fields)

theorem sensitive_values_iff (values : List Value) : jsonSensitiveValues values = true ↔
    ∃ value ∈ values, jsonSensitiveValue value = true := by
  induction values with
  | nil => simp [jsonSensitiveValues]
  | cons value values ih => simp [jsonSensitiveValues, ih]

theorem sensitive_fields_iff (fields : List (Text × Value)) : jsonSensitiveFields fields = true ↔
    ∃ field ∈ fields, jsonSensitiveValue field.2 = true := by
  induction fields with
  | nil => simp [jsonSensitiveFields]
  | cons field fields ih => simp [jsonSensitiveFields, ih]

theorem member_smaller {key : Text} {value : Value} {fields : List (Text × Value)}
    (h : (key, value) ∈ fields) : sizeOf value < sizeOf fields := by
  have hfield := List.sizeOf_lt_of_mem h
  simp only [Prod.mk.sizeOf_spec] at hfield
  omega

theorem sensitive_found (value : Value) (h : jsonSensitiveValue value = true) :
    Sensitive value := by
  match value with
  | .null | .bool _ | .number _ => simp [jsonSensitiveValue] at h
  | .string text =>
    rw [jsonSensitiveValue, Bool.and_eq_true, decide_eq_true_eq, Bool.not_eq_true'] at h
    exact .string text h.1 h.2
  | .array values =>
    rw [jsonSensitiveValue, sensitive_values_iff] at h
    obtain ⟨inner, hmem, hinner⟩ := h
    have hless := List.sizeOf_lt_of_mem hmem
    exact .element values inner hmem (sensitive_found inner hinner)
  | .object fields =>
    rw [jsonSensitiveValue, sensitive_fields_iff] at h
    obtain ⟨⟨key, inner⟩, hmem, hinner⟩ := h
    have hless := member_smaller hmem
    exact .member fields key inner hmem (sensitive_found inner hinner)
termination_by sizeOf value

theorem sensitive_iff (value : Value) : jsonSensitiveValue value = true ↔ Sensitive value := by
  refine ⟨sensitive_found value, fun h => ?_⟩
  induction h with
  | string text hlong hplain => simp [jsonSensitiveValue, hlong, hplain]
  | element values value hmem h ih =>
    rw [jsonSensitiveValue, sensitive_values_iff]
    exact ⟨value, hmem, ih⟩
  | member fields key value hmem h ih =>
    rw [jsonSensitiveValue, sensitive_fields_iff]
    exact ⟨(key, value), hmem, ih⟩

/-- A text that hits, or a sensitive value under a key with a keyword in it, anywhere in the
value. -/
inductive Found (hit : Text → Prop) : Value → Prop
  | string (text : Text) (h : hit text) : Found hit (.string text)
  | element (values : List Value) (value : Value) (hmem : value ∈ values) (h : Found hit value) :
      Found hit (.array values)
  | member (fields : List (Text × Value)) (key : Text) (value : Value)
      (hmem : (key, value) ∈ fields) (h : Found hit value) : Found hit (.object fields)
  | credential (fields : List (Text × Value)) (key : Text) (value : Value)
      (hmem : (key, value) ∈ fields)
      (hkey : ∃ keyword ∈ credentialKeywords, keyword <:+: Text.toAsciiLowercase key)
      (hvalue : Sensitive value) : Found hit (.object fields)

theorem contains_iff (sought text : Text) : contains sought text = true ↔ sought <:+: text := by
  rw [contains, List.any_eq_true]
  constructor
  · rintro ⟨tail, htail, hprefix⟩
    exact (List.isPrefixOf_iff_prefix.mp hprefix).isInfix.trans
      ((List.mem_tails tail text).mp htail).isInfix
  · rintro ⟨before, after, rfl⟩
    exact ⟨sought ++ after, (List.mem_tails _ _).mpr ⟨before, by simp⟩,
      List.isPrefixOf_iff_prefix.mpr (List.prefix_append _ _)⟩

theorem sensitive_key_iff (key : Text) : sensitiveKey key = true ↔
    ∃ keyword ∈ credentialKeywords, keyword <:+: Text.toAsciiLowercase key := by
  rw [sensitiveKey, List.any_eq_true]
  simp only [contains_iff]

section Json

variable {nested : Text → Option Bool} {hit : Text → Prop}

theorem scan_values_iff (values : List Value) : scanValues nested values = true ↔
    ∃ value ∈ values, scanValue nested value = true := by
  induction values with
  | nil => simp [scanValues]
  | cons value values ih => simp [scanValues, ih]

theorem scan_fields_iff (fields : List (Text × Value)) : scanFields nested fields = true ↔
    ∃ field ∈ fields, (sensitiveKey field.1 && jsonSensitiveValue field.2) = true ∨
      scanValue nested field.2 = true := by
  induction fields with
  | nil => simp [scanFields]
  | cons field fields ih => simp [scanFields, ih]

theorem scan_found (hhit : ∀ text, (nested text).getD (rawCredentialAssignmentShape text) = true →
    hit text) (value : Value) (h : scanValue nested value = true) : Found hit value := by
  match value with
  | .null | .bool _ | .number _ => simp [scanValue] at h
  | .string text => exact .string text (hhit text (by rwa [scanValue] at h))
  | .array values =>
    rw [scanValue, scan_values_iff] at h
    obtain ⟨inner, hmem, hinner⟩ := h
    have hless := List.sizeOf_lt_of_mem hmem
    exact .element values inner hmem (scan_found hhit inner hinner)
  | .object fields =>
    rw [scanValue, scan_fields_iff] at h
    obtain ⟨⟨key, inner⟩, hmem, hcredential | hinner⟩ := h
    · rw [Bool.and_eq_true, sensitive_key_iff, sensitive_iff] at hcredential
      exact .credential fields key inner hmem hcredential.1 hcredential.2
    · have hless := member_smaller hmem
      exact .member fields key inner hmem (scan_found hhit inner hinner)
termination_by sizeOf value

theorem scan_value_iff
    (hhit : ∀ text, (nested text).getD (rawCredentialAssignmentShape text) = true ↔ hit text)
    (value : Value) : scanValue nested value = true ↔ Found hit value := by
  refine ⟨scan_found (fun text => (hhit text).mp) value, fun h => ?_⟩
  induction h with
  | string text h => rw [scanValue, hhit]; exact h
  | element values value hmem h ih =>
    rw [scanValue, scan_values_iff]
    exact ⟨value, hmem, ih⟩
  | member fields key value hmem h ih =>
    rw [scanValue, scan_fields_iff]
    exact ⟨(key, value), hmem, .inr ih⟩
  | credential fields key value hmem hkey hvalue =>
    rw [scanValue, scan_fields_iff]
    refine ⟨(key, value), hmem, .inl ?_⟩
    rw [Bool.and_eq_true, sensitive_key_iff, sensitive_iff]
    exact ⟨hkey, hvalue⟩

end Json

/-- A credential is assigned at a place that the scan of the text comes to. -/
def AssignmentReached (text : Text) : Prop :=
  ∃ i, Reached (bytesOf text) i ∧ Assigns (bytesOf text) i

/-- A credential in the value, in JSON that a text of it carries, or assigned in a text that
carries none. -/
def Exposes (serde : SerdeJson) : ℕ → Value → Prop
  | 0 => Found AssignmentReached
  | depth + 1 => Found fun text =>
      match carried serde text with
      | some value => Exposes serde depth value
      | none => AssignmentReached text

theorem raw_iff (text : Text) : rawCredentialAssignmentShape text = true ↔
    AssignmentReached text :=
  scan_iff (bytesOf text)

theorem exposes_iff (serde : SerdeJson) (depth : ℕ) (value : Value) :
    jsonCredentialShape serde depth value = true ↔ Exposes serde depth value := by
  induction depth generalizing value with
  | zero =>
    show scanValue (fun _ => none) value = true ↔ Found AssignmentReached value
    apply scan_value_iff
    exact raw_iff
  | succ depth ih =>
    apply scan_value_iff
    intro text
    cases carried serde text with
    | none => exact raw_iff text
    | some value => exact ih value

section Gate

variable (serde : SerdeJson) (body : Text)

/-- What the gate refuses: a documented key, a bearer token or `key:` value of its own, an
assignment where the scan comes to it, or a credential in the JSON that the body is. -/
def Refusable : Prop :=
  OpenaiKey body ∨ AwsKey body ∨ BearerToken body ∨ KeyValue body ∨ AssignmentReached body ∨
    ∃ value, serde.fromStr body = some value ∧ Exposes serde (Text.utf8Len body) value

/-- Every documented match has ASCII white space only, and the scan comes to every assignment. -/
structure Plain (white : Char → Bool) : Prop where
  bearers : ∀ before gap, Bearer white body before gap → gap.all isAsciiSpace = true
  assignments : ∀ before first second, Assigned white body before first second →
    first.all isAsciiSpace = true ∧ second.all isAsciiSpace = true ∧
      Reached (bytesOf body) (bytesOf before).length

theorem assignment_iff : containsCredentialAssignmentShape serde body = true ↔
    AssignmentReached body ∨
      ∃ value, serde.fromStr body = some value ∧ Exposes serde (Text.utf8Len body) value := by
  rw [containsCredentialAssignmentShape, Bool.or_eq_true, raw_iff, or_comm, Option.any_eq_true]
  simp only [exposes_iff]

theorem shape_iff : (bodyCredentialShape serde body).isSome = true ↔ Refusable serde body := by
  unfold Refusable
  rw [← openai_iff, ← aws_iff, ← bearer_iff, ← key_value_iff, ← assignment_iff]
  unfold bodyCredentialShape
  split_ifs with hopenai haws hbearer hassigned hliteral
  · simp [hopenai]
  · simp [haws]
  · simp [hbearer]
  · simp [hassigned]
  · simp [hliteral]
  · simp [hopenai, haws, hbearer, hassigned, hliteral]

theorem documented_refusable {white : Char → Bool} (hplain : Plain body white)
    (h : Documented white body) : Refusable serde body := by
  rcases h with hopenai | haws | ⟨before, gap, hbearer⟩ | ⟨before, first, second, hassigned⟩
  · exact .inl hopenai
  · exact .inr (.inl haws)
  · exact .inr (.inr (.inl (bearer_token hbearer (hplain.bearers before gap hbearer))))
  · obtain ⟨hfirst, hsecond, hreached⟩ := hplain.assignments before first second hassigned
    exact .inr (.inr (.inr (.inr (.inl ⟨_, hreached, assigned_assigns hassigned hfirst hsecond⟩))))

/-- Whatever counts as white space, the gate refuses a documented match exactly when something
makes it refuse, or every match is one that it meets. -/
theorem gate_law (white : Char → Bool) :
    (Documented white body → (bodyCredentialShape serde body).isSome = true) ↔
      Plain body white ∨ Refusable serde body := by
  rw [shape_iff]
  constructor
  · intro h
    by_cases hdocumented : Documented white body
    · exact .inr (h hdocumented)
    · left
      constructor
      · intro before gap hbearer
        exact absurd (.inr (.inr (.inl ⟨before, gap, hbearer⟩))) hdocumented
      · intro before first second hassigned
        exact absurd (.inr (.inr (.inr ⟨before, first, second, hassigned⟩))) hdocumented
  · rintro (hplain | hrefusable) hdocumented
    · exact documented_refusable serde body hplain hdocumented
    · exact hrefusable

end Gate

/-- The second assignment starts inside the value of the first. -/
def steppedBody : Text := "token=\"token=\"abcdefgh\""

def unparsed : SerdeJson := ⟨fun _ => none, fun _ => []⟩

theorem assignment_stepped_over :
    ¬ ∀ (serde : SerdeJson) (body : Text), Documented isAsciiSpace body →
      (bodyCredentialShape serde body).isSome = true := by
  intro hclaim
  have hdocumented : Documented isAsciiSpace steppedBody := by
    refine .inr (.inr (.inr ⟨"token=\"", [], [], "token", "abcdefgh", [], ?_⟩))
    decide
  have hsome := hclaim unparsed steppedBody hdocumented
  have hnone : bodyCredentialShape unparsed steppedBody = none := by
    decide
  rw [hnone] at hsome
  cases hsome

end Siralos.ReplayStore
