import Siralos.ReplayStoreRead

/-!
# Text responses in the store

A response that carries one text is a valid body, and it has no credential shape when the text
uses no character that a credential shape needs.
-/

set_option autoImplicit false

namespace Siralos.ReplayStore

open Json Provider Identity Determinism
open Knowledge (Bytes bytesOf word toAsciiLower)

section Bytes

theorem starts_with_mem {sought text : Bytes} (h : startsWithBytes sought text = true) {b : UInt8}
    (hb : b ∈ sought) : b ∈ text :=
  (List.isPrefixOf_iff_prefix.mp h).subset hb

theorem openai_absent (bytes : Bytes) (h : ∀ b ∈ bytes, b ≠ 0x2D) (skip : ℕ) :
    openaiKeyFrom skip bytes = false := by
  induction bytes generalizing skip with
  | nil => cases skip <;> rfl
  | cons b bytes ih =>
    have hrest : ∀ b ∈ bytes, b ≠ 0x2D := fun b hb => h b (List.mem_cons_of_mem _ hb)
    cases skip with
    | succ skip => exact ih hrest skip
    | zero =>
      have hnot : startsWithBytes (word "sk-") (b :: bytes) = false := by
        by_contra hstart
        exact h 0x2D (starts_with_mem (by simpa using hstart) (by decide)) rfl
      rw [openaiKeyFrom, hnot]
      exact ih hrest 0

theorem aws_absent (bytes : Bytes) (h : ∀ b ∈ bytes, b ≠ 0x41) (index : ℕ) :
    awsKeyAt bytes index = false := by
  by_contra hkey
  simp only [awsKeyAt, Bool.not_eq_false, Bool.and_eq_true] at hkey
  have hmem := starts_with_mem hkey.1.1 (b := 0x41) (by decide)
  exact h 0x41 (List.mem_of_mem_drop (List.mem_of_mem_take hmem)) rfl

theorem bearer_absent (bytes : Bytes) (h : ∀ b ∈ bytes, toAsciiLower b ≠ 0x62) (index : ℕ) :
    bearerAt bytes index = false := by
  by_contra hkey
  simp only [bearerAt, Bool.not_eq_false, Bool.and_eq_true] at hkey
  have hmem := starts_with_mem hkey.1 (b := 0x62) (by decide)
  obtain ⟨b, hb, hlower⟩ := List.mem_map.mp hmem
  exact h b (List.mem_of_mem_drop hb) hlower

theorem assignment_absent (bytes : Bytes) (h : ∀ b ∈ bytes, b ≠ 0x3D) :
    assignmentAt bytes = .absent := by
  unfold assignmentAt
  split
  · rfl
  · rename_i keywordLen _
    split
    · rfl
    · rename_i equals rest hvalue
      rw [if_pos]
      have hmem : equals ∈ bytes.drop keywordLen :=
        (List.dropWhile_sublist _).subset (by rw [hvalue]; exact List.mem_cons_self)
      simpa using h equals (List.mem_of_mem_drop hmem)

theorem raw_absent (bytes : Bytes) (h : ∀ b ∈ bytes, b ≠ 0x3D) (previous : Option UInt8)
    (skip : ℕ) : rawAssignmentFrom previous skip bytes = false := by
  induction bytes generalizing previous skip with
  | nil => cases skip <;> rfl
  | cons b bytes ih =>
    have hrest : ∀ b ∈ bytes, b ≠ 0x3D := fun b hb => h b (List.mem_cons_of_mem _ hb)
    cases skip with
    | succ skip => exact ih hrest (some b) skip
    | zero =>
      rw [rawAssignmentFrom, assignment_absent _ h]
      dsimp only
      split
      · exact ih hrest (some b) 0
      · exact ih hrest (some b) 0

theorem literal_absent (body : Text) (h : ∀ c ∈ body, c.toLower ≠ 'k') :
    containsLiteralKeyValue body = false := by
  by_contra hkey
  simp only [containsLiteralKeyValue, Bool.not_eq_false, List.any_eq_true, Bool.and_eq_true]
    at hkey
  obtain ⟨tail, htail, hstart, -⟩ := hkey
  have hmem := ((Text.starts_with_iff _ _).mp hstart).subset (a := 'k') (by decide)
  obtain ⟨c, hc, hlower⟩ := List.mem_map.mp hmem
  exact h c ((List.mem_tails _ _).mp htail |>.subset hc) hlower

/-- A character that starts or joins no credential shape. -/
def inert (c : Char) : Bool :=
  c.toLower != 'k' && (String.utf8EncodeChar c).all fun b =>
    b != 0x2D && b != 0x41 && toAsciiLower b != 0x62 && b != 0x3D

theorem inert_bytes {body : Text} (h : ∀ c ∈ body, inert c = true) :
    ∀ b ∈ bytesOf body, b ≠ 0x2D ∧ b ≠ 0x41 ∧ toAsciiLower b ≠ 0x62 ∧ b ≠ 0x3D := by
  intro b hb
  obtain ⟨c, hc, hbc⟩ := List.mem_flatMap.mp hb
  have hinert := h c hc
  simp only [inert, Bool.and_eq_true, List.all_eq_true, bne_iff_ne] at hinert
  have hbyte := hinert.2 b hbc
  exact ⟨hbyte.1.1.1, hbyte.1.1.2, hbyte.1.2, hbyte.2⟩

theorem inert_raw {body : Text} (h : ∀ c ∈ body, inert c = true) :
    rawCredentialAssignmentShape body = false :=
  raw_absent _ (fun b hb => (inert_bytes h b hb).2.2.2) none 0

theorem inert_clean (serde : SerdeJson) {body : Text} (h : ∀ c ∈ body, inert c = true)
    (hjson : (serde.fromStr body).any (jsonCredentialShape serde (Text.utf8Len body)) = false) :
    bodyCredentialShape serde body = none := by
  have hbytes := inert_bytes h
  have hopenai : containsOpenaiKeyShape body = false :=
    openai_absent _ (fun b hb => (hbytes b hb).1) 0
  have haws : containsAwsAccessKeyShape body = false := by
    unfold containsAwsAccessKeyShape
    dsimp only
    split
    · rfl
    · exact List.any_eq_false.mpr fun index _ => by
        rw [aws_absent _ fun b hb => (hbytes b hb).2.1]
        nofun
  have hbearer : containsBearerTokenShape body = false := by
    unfold containsBearerTokenShape
    dsimp only
    split
    · rfl
    · exact List.any_eq_false.mpr fun index _ => by
        rw [bearer_absent _ fun b hb => (hbytes b hb).2.2.1]
        nofun
  have hassignment : containsCredentialAssignmentShape serde body = false := by
    rw [containsCredentialAssignmentShape, hjson, inert_raw h]
    rfl
  have hliteral : containsLiteralKeyValue body = false := by
    apply literal_absent
    intro c hc
    have hinert := h c hc
    simp only [inert, Bool.and_eq_true, bne_iff_ne] at hinert
    exact hinert.1
  simp only [bodyCredentialShape, hopenai, haws, hbearer, hassignment, hliteral]
  rfl

end Bytes

section Responses

def textResponse (content : Text) : Value :=
  .object [("choices".toList, .array [.object [("message".toList, .object [
    ("content".toList, .string content)])]])]

def textBody (content : Text) : Text := writeValue (textResponse content)

def textFront : Text := "\x7b\"choices\":[\x7b\"message\":\x7b\"content\":".toList

def textBack : Text := "\x7d\x7d]\x7d".toList

theorem text_body_eq (content : Text) :
    textBody content = textFront ++ (jsonEscape content ++ textBack) := by
  have hchoices : jsonEscape "choices".toList = "\"choices\"".toList := by decide
  have hmessage : jsonEscape "message".toList = "\"message\"".toList := by decide
  have hcontent : jsonEscape "content".toList = "\"content\"".toList := by decide
  simp only [textBody, writeValue, textResponse, canonicalOf, canonicalValues, canonicalFields,
    toCanonical, writeFields, writeEntries, separator, hchoices, hmessage, hcontent,
    List.append_assoc, List.cons_append, List.nil_append, if_true, List.append_nil]
  rfl

def filler (n : ℕ) : Text := List.replicate n 'x'

theorem escape_append (a b : Text) :
    (a ++ b).flatMap escapeChar = a.flatMap escapeChar ++ b.flatMap escapeChar :=
  List.flatMap_append

theorem escape_filler (n : ℕ) : (filler n).flatMap escapeChar = filler n := by
  induction n with
  | zero => rfl
  | succ n ih =>
    rw [filler, List.replicate_succ, List.flatMap_cons]
    show ['x'] ++ (filler n).flatMap escapeChar = 'x' :: filler n
    rw [ih]
    rfl

theorem filler_length (n : ℕ) : Text.utf8Len (filler n) = n := by
  induction n with
  | zero => rfl
  | succ n ih =>
    rw [filler, List.replicate_succ, Text.utf8Len_cons]
    show 1 + Text.utf8Len (filler n) = n + 1
    omega

def fillerBody (n : ℕ) : Text := textBody (filler n)

theorem filler_body_eq (n : ℕ) :
    fillerBody n = (textFront ++ ['"']) ++ (filler n ++ ('"' :: textBack)) := by
  rw [fillerBody, text_body_eq, jsonEscape, escape_filler]
  simp only [List.cons_append, List.append_assoc, List.nil_append]

theorem filler_body_length (n : ℕ) : Text.utf8Len (fillerBody n) = n + 40 := by
  have hfront : Text.utf8Len (textFront ++ ['"']) = 35 := by decide
  have hback : Text.utf8Len ('"' :: textBack) = 5 := by decide
  rw [filler_body_eq, Text.utf8Len_append (textFront ++ ['"']), hfront, Text.utf8Len_append, hback,
    filler_length]
  omega

theorem filler_body_inert (n : ℕ) : ∀ c ∈ fillerBody n, inert c = true := by
  have hfront : ((textFront ++ ['"']).all inert) = true := by decide
  have hback : (('"' :: textBack).all inert) = true := by decide
  intro c hc
  rw [filler_body_eq] at hc
  rcases List.mem_append.mp hc with hc | hc
  · exact List.all_eq_true.mp hfront c hc
  · rcases List.mem_append.mp hc with hc | hc
    · rw [List.eq_of_mem_replicate hc]
      decide
    · exact List.all_eq_true.mp hback c hc

theorem filler_inert (n : ℕ) : ∀ c ∈ filler n, inert c = true := by
  intro c hc
  rw [List.eq_of_mem_replicate hc]
  decide

theorem response_plain (content : Text) : plain (textResponse content) = true := rfl

theorem filler_read (n : ℕ) :
    plainSerde.fromStr (fillerBody n) = some (textResponse (filler n)) :=
  plain_reads_back (textResponse (filler n)) (response_plain _)

theorem filler_clean (n : ℕ) : bodyCredentialShape plainSerde (fillerBody (n + 1)) = none := by
  apply inert_clean plainSerde (filler_body_inert (n + 1))
  have hcarried : carried plainSerde (filler (n + 1)) = none := rfl
  have hraw := inert_raw (filler_inert (n + 1))
  have hkeys : sensitiveKey "choices".toList = false ∧ sensitiveKey "message".toList = false ∧
      sensitiveKey "content".toList = false := by
    decide
  rw [filler_read, Option.any_some]
  cases Text.utf8Len (fillerBody (n + 1)) with
  | zero =>
    simp only [jsonCredentialShape, textResponse, scanValue, scanValues, scanFields, hkeys.1,
      hkeys.2.1, hkeys.2.2, hraw, Bool.false_and, Bool.or_false, Option.getD_none]
  | succ depth =>
    simp only [jsonCredentialShape, textResponse, scanValue, scanValues, scanFields, hkeys.1,
      hkeys.2.1, hkeys.2.2, hcarried, hraw, Bool.false_and, Bool.or_false, Option.map_none,
      Option.getD_none]

theorem filler_printable (n : ℕ) : Replay.validReplayText (filler n) = true := by
  rw [Replay.validReplayText, List.all_eq_true]
  intro c hc
  rw [List.eq_of_mem_replicate hc]
  decide

theorem filler_shape (n : ℕ) :
    validateReplayBodyText plainSerde (fillerBody (n + 1)) = .ok () := by
  have hshape : Replay.validateReplayShape plainSerde.fromStr (textResponse (filler (n + 1))) =
      .ok () := rfl
  have htext : Replay.replayTextFieldsValid (textResponse (filler (n + 1))) = true := by
    show ((((Replay.validReplayText (filler (n + 1)) && true) && true) && true) && true) = true
    rw [filler_printable]
    rfl
  rw [validateReplayBodyText, filler_read]
  dsimp only
  rw [hshape, htext]
  rfl

variable (sha256Hex : Text → Text)

def textRecording (n : ℕ) : ReplayRecording where
  identity :=
    { providerId := ['p'], model := ['m'], status := some 200
      bodySha256 := sha256Hex (fillerBody n), bodyBytes := n + 40
      observedAtMs := none, inputTokens := none, outputTokens := none, cachedTokens := none }
  body := fillerBody n
  requestSha256 := none

/-- The hash of the body is a lower-cased digest. -/
structure Hashed (n : ℕ) : Prop where
  digest : isValidReplaySha256 (sha256Hex (fillerBody n)) = true
  lower : Text.toAsciiLowercase (sha256Hex (fillerBody n)) = sha256Hex (fillerBody n)

theorem text_recording_accepted {n : ℕ} (hhash : Hashed sha256Hex (n + 1))
    (hbytes : n + 41 ≤ maxResponseBytes) :
    Accepted plainSerde sha256Hex (textRecording sha256Hex (n + 1)) where
  identity :=
    have hbase : ({ (textRecording sha256Hex (n + 1)).identity with
        bodySha256 := List.replicate 64 '0' } : ProviderResponseIdentity).validate = .ok () := rfl
    identity_relabelled (sha256Hex (fillerBody (n + 1))) hbase hhash.digest
  providerId := rfl
  model := rfl
  status := rfl
  bodyLen := by
    show Text.utf8Len (fillerBody (n + 1)) ≤ maxResponseBytes
    rw [filler_body_length]
    omega
  bodyBytes := (filler_body_length (n + 1)).symm
  digest := by
    show isValidReplaySha256 (Text.toAsciiLowercase (sha256Hex (fillerBody (n + 1)))) = true
    rw [hhash.lower]
    exact hhash.digest
  bodySha256 := hhash.lower
  request := rfl
  shape := filler_shape n

end Responses

end Siralos.ReplayStore
