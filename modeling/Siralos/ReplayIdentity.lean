import Siralos.Text

/-!
# Recorded provider responses

The identity of a response and the recording that keeps its body. A recording is valid when the
identity names exactly that body.
-/

set_option autoImplicit false

namespace Siralos.Determinism

structure ProviderResponseIdentity where
  providerId : Text
  model : Text
  status : Option ℕ
  bodySha256 : Text
  bodyBytes : ℕ
  observedAtMs : Option ℕ
  inputTokens : Option ℕ
  outputTokens : Option ℕ
  cachedTokens : Option ℕ
  deriving DecidableEq, Repr

def maxReplayIdentifierBytes : ℕ := 256
def replaySha256HexLength : ℕ := 64

inductive ReplayIdentityError where
  | providerIdEmpty
  | providerIdTooLong (bytes : ℕ)
  | providerIdControl
  | modelEmpty
  | modelTooLong (bytes : ℕ)
  | modelControl
  | bodySha256Invalid
  deriving DecidableEq, Repr

/-- `u8::is_ascii_hexdigit`; no byte of a longer UTF-8 sequence is one. -/
def isAsciiHexDigit (c : Char) : Bool :=
  ('0' ≤ c && c ≤ '9') || ('a' ≤ c && c ≤ 'f') || ('A' ≤ c && c ≤ 'F')

def isValidReplaySha256 (value : Text) : Bool :=
  Text.utf8Len value == replaySha256HexLength && value.all isAsciiHexDigit

def ProviderResponseIdentity.validate (identity : ProviderResponseIdentity) :
    Except ReplayIdentityError Unit :=
  if identity.providerId.isEmpty || (Text.trim identity.providerId).isEmpty then
    .error .providerIdEmpty
  else if Text.utf8Len identity.providerId > maxReplayIdentifierBytes then
    .error (.providerIdTooLong (Text.utf8Len identity.providerId))
  else if identity.providerId.any Text.isControl then .error .providerIdControl
  else if identity.model.isEmpty || (Text.trim identity.model).isEmpty then .error .modelEmpty
  else if Text.utf8Len identity.model > maxReplayIdentifierBytes then
    .error (.modelTooLong (Text.utf8Len identity.model))
  else if identity.model.any Text.isControl then .error .modelControl
  else if !isValidReplaySha256 identity.bodySha256 then .error .bodySha256Invalid
  else .ok ()

structure ReplayRecording where
  identity : ProviderResponseIdentity
  body : Text
  requestSha256 : Option Text
  deriving DecidableEq, Repr

inductive ReplayRecordingValidationError where
  | identity (error : ReplayIdentityError)
  | bodyEmpty
  | bodyTooLarge
  | bodyBytesMismatch
  | bodyDigestMismatch
  | requestDigestInvalid
  deriving DecidableEq, Repr

def replayStoreMaxRecordings : ℕ := 64
def replayStoreMaxTotalBodyBytes : ℕ := 2 * 1024 * 1024

def maxRetainedReplayRecordings : ℕ := replayStoreMaxRecordings
def maxRetainedReplayBodyBytes : ℕ := 1024 * 1024
def maxRetainedReplayTotalBytes : ℕ := replayStoreMaxTotalBodyBytes
def maxRetainedEvidenceRecords : ℕ := 16
def maxRetainedEvidenceTotalBytes : ℕ := 1024 * 1024

def ReplayRecording.bodyLen (recording : ReplayRecording) : ℕ := Text.utf8Len recording.body

/-- `request_sha256.is_some_and(|digest| !is_valid_replay_sha256(digest))`. -/
def requestDigestInvalid (requestSha256 : Option Text) : Bool :=
  requestSha256.any fun digest => !isValidReplaySha256 digest

variable (sha256Hex : Text → Text)

def ReplayRecording.validate (recording : ReplayRecording) :
    Except ReplayRecordingValidationError Unit := do
  recording.identity.validate.mapError .identity
  if recording.body.isEmpty then .error .bodyEmpty
  else if recording.bodyLen > maxRetainedReplayBodyBytes then .error .bodyTooLarge
  else if recording.identity.bodyBytes ≠ recording.bodyLen then .error .bodyBytesMismatch
  else if !Text.eqIgnoreAsciiCase recording.identity.bodySha256 (sha256Hex recording.body) then
    .error .bodyDigestMismatch
  else if requestDigestInvalid recording.requestSha256 then .error .requestDigestInvalid
  else .ok ()

theorem recording_valid (recording : ReplayRecording) :
    recording.validate sha256Hex = .ok () ↔
      recording.identity.validate = .ok () ∧ recording.body ≠ [] ∧
        recording.bodyLen ≤ maxRetainedReplayBodyBytes ∧
        recording.identity.bodyBytes = recording.bodyLen ∧
        Text.eqIgnoreAsciiCase recording.identity.bodySha256 (sha256Hex recording.body) = true ∧
        requestDigestInvalid recording.requestSha256 = false := by
  rw [ReplayRecording.validate]
  cases recording.identity.validate with
  | error error =>
    constructor
    · intro h
      cases h
    · rintro ⟨h, -⟩
      cases h
  | ok valid =>
    show (if _ then _ else _) = Except.ok () ↔ _
    split_ifs with hempty hlarge hbytes hdigest hrequest
    · exact iff_of_false nofun fun h => h.2.1 (List.isEmpty_iff.mp hempty)
    · exact iff_of_false nofun fun h => absurd h.2.2.1 (Nat.not_le.mpr hlarge)
    · exact iff_of_false nofun fun h => hbytes h.2.2.2.1
    · exact iff_of_false nofun fun h => by simp [h.2.2.2.2.1] at hdigest
    · exact iff_of_false nofun fun h => by simp [h.2.2.2.2.2] at hrequest
    · refine iff_of_true rfl ⟨rfl, ?_, Nat.not_lt.mp hlarge, not_not.mp hbytes, ?_, ?_⟩
      · simpa using hempty
      · simpa using hdigest
      · simpa using hrequest

theorem validate_to_bool (identity : ProviderResponseIdentity) :
    identity.validate.toBool = true ↔ identity.validate = .ok () := by
  cases identity.validate with
  | error error => exact iff_of_false nofun nofun
  | ok valid => exact iff_of_true rfl rfl

theorem lower_char (c : Char) : c.toLower.toLower = c.toLower := by
  by_cases hupper : 65 ≤ c.toNat ∧ c.toNat ≤ 90
  · have hall : ((List.range 26).all fun n => (Char.ofNat (65 + n)).toLower.toLower ==
        (Char.ofNat (65 + n)).toLower) = true := by
      decide
    have hc := List.all_eq_true.mp hall (c.toNat - 65) (List.mem_range.mpr (by omega))
    have hvalue : 65 + (c.toNat - 65) = c.toNat := by omega
    rw [hvalue, Char.ofNat_toNat] at hc
    exact beq_iff_eq.mp hc
  · have hsame : c.toLower = c := by
      unfold Char.toLower
      exact dif_neg hupper
    rw [hsame, hsame]

theorem lower_lower (text : Text) :
    Text.toAsciiLowercase (Text.toAsciiLowercase text) = Text.toAsciiLowercase text := by
  rw [Text.toAsciiLowercase, Text.toAsciiLowercase, List.map_map]
  apply List.map_congr_left
  intro c _
  exact lower_char c

theorem hex_digit_mem (c : Char) (h : isAsciiHexDigit c = true) :
    c ∈ "0123456789abcdefABCDEF".toList := by
  simp only [isAsciiHexDigit, Bool.or_eq_true, Bool.and_eq_true, decide_eq_true_eq] at h
  have hlist : c.toNat ∈ "0123456789abcdefABCDEF".toList.map Char.toNat := by
    have hdecimal : '0' ≤ c ↔ 48 ≤ c.toNat := Iff.rfl
    have hnine : c ≤ '9' ↔ c.toNat ≤ 57 := Iff.rfl
    have ha : 'a' ≤ c ↔ 97 ≤ c.toNat := Iff.rfl
    have hf : c ≤ 'f' ↔ c.toNat ≤ 102 := Iff.rfl
    have hA : 'A' ≤ c ↔ 65 ≤ c.toNat := Iff.rfl
    have hF : c ≤ 'F' ↔ c.toNat ≤ 70 := Iff.rfl
    rw [hdecimal, hnine, ha, hf, hA, hF] at h
    show c.toNat ∈ [48, 49, 50, 51, 52, 53, 54, 55, 56, 57, 97, 98, 99, 100, 101, 102, 65, 66, 67,
      68, 69, 70]
    simp only [List.mem_cons, List.not_mem_nil, or_false]
    omega
  obtain ⟨d, hd, hvalue⟩ := List.mem_map.mp hlist
  have : d = c := Char.toNat_inj.mp hvalue
  rw [← this]
  exact hd

theorem hex_digit_lower (c : Char) (h : isAsciiHexDigit c = true) :
    isAsciiHexDigit c.toLower = true ∧ c.toLower.utf8Size = c.utf8Size := by
  have hall : ("0123456789abcdefABCDEF".toList.all fun d =>
      isAsciiHexDigit d.toLower && d.toLower.utf8Size == d.utf8Size) = true := by
    decide
  have hc := List.all_eq_true.mp hall c (hex_digit_mem c h)
  simpa using hc

theorem valid_digest_lower (value : Text) (h : isValidReplaySha256 value = true) :
    isValidReplaySha256 (Text.toAsciiLowercase value) = true := by
  simp only [isValidReplaySha256, Bool.and_eq_true, beq_iff_eq, List.all_eq_true] at h ⊢
  obtain ⟨hlength, hdigits⟩ := h
  constructor
  · rw [← hlength, Text.utf8Len, Text.utf8Len, Text.toAsciiLowercase, List.map_map]
    apply congrArg
    apply List.map_congr_left
    intro c hc
    exact (hex_digit_lower c (hdigits c hc)).2
  · intro c hc
    obtain ⟨d, hd, rfl⟩ := List.mem_map.mp hc
    exact (hex_digit_lower d (hdigits d hd)).1

theorem request_digest_lower (requestSha256 : Option Text)
    (h : requestDigestInvalid requestSha256 = false) :
    requestDigestInvalid (requestSha256.map Text.toAsciiLowercase) = false := by
  cases requestSha256 with
  | none => rfl
  | some digest =>
    have hvalid : isValidReplaySha256 digest = true := by simpa [requestDigestInvalid] using h
    simp [requestDigestInvalid, valid_digest_lower digest hvalid]

end Siralos.Determinism
