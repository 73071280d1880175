import Siralos.Text
import Siralos.JsonText
import Siralos.ReplayStore

/-!
# Reading a stored document back

The loader reads every field of a recording as the writer wrote it, whether the document has the
optional fields or not, and whatever it accepts can be stored again as it stands.
-/

set_option autoImplicit false

namespace Siralos.ReplayStore

open Json Provider Identity Determinism
open Knowledge (bytesOf)

section Bounds

def bodyBytesOf (recordings : List ReplayRecording) : ℕ :=
  (recordings.map ReplayRecording.bodyLen).sum

def Fits (recordings : List ReplayRecording) : Prop :=
  recordings.length ≤ replayStoreMaxRecordings ∧
    bodyBytesOf recordings ≤ replayStoreMaxTotalBodyBytes

theorem body_bytes_cons (recording : ReplayRecording) (recordings : List ReplayRecording) :
    bodyBytesOf (recording :: recordings) = recording.bodyLen + bodyBytesOf recordings := rfl

theorem bounds_from_ok (recordings : List ReplayRecording) (total : ℕ)
    (h : total + bodyBytesOf recordings ≤ replayStoreMaxTotalBodyBytes) :
    boundsFrom total recordings = .ok () := by
  induction recordings generalizing total with
  | nil => rfl
  | cons recording recordings ih =>
    rw [body_bytes_cons] at h
    rw [boundsFrom, if_neg (by omega)]
    exact ih _ (by omega)

theorem fits_bounds {recordings : List ReplayRecording} (h : Fits recordings) :
    validateReplayStoreBounds recordings = .ok () := by
  rw [validateReplayStoreBounds, if_neg (Nat.not_lt.mpr h.1)]
  exact bounds_from_ok recordings 0 (by have := h.2; omega)

end Bounds

section Canonical

theorem canonical_canonical (recording : ReplayRecording) :
    canonicalRecording (canonicalRecording recording) = canonicalRecording recording := by
  unfold canonicalRecording
  dsimp only
  rw [lower_lower, Option.map_map]
  congr 2
  funext digest
  exact lower_lower digest

variable (serde : SerdeJson) (sha256Hex : Text → Text)

structure Accepted (recording : ReplayRecording) : Prop where
  identity : recording.identity.validate = .ok ()
  providerId : Replay.validReplayIdentifier recording.identity.providerId 256 = true
  model : Replay.validReplayIdentifier recording.identity.model 256 = true
  status : successStatus recording.identity.status = true
  bodyLen : recording.bodyLen ≤ maxResponseBytes
  bodyBytes : recording.identity.bodyBytes = recording.bodyLen
  digest : isValidReplaySha256 (Text.toAsciiLowercase recording.identity.bodySha256) = true
  bodySha256 : Text.toAsciiLowercase recording.identity.bodySha256 = sha256Hex recording.body
  request : requestDigestInvalid recording.requestSha256 = false
  shape : validateReplayBodyText serde recording.body = .ok ()

theorem recording_accepted (recording : ReplayRecording) :
    validateReplayRecording serde sha256Hex recording = .ok () ↔
      Accepted serde sha256Hex recording := by
  unfold validateReplayRecording
  split_ifs with hidentity hlarge hbytes hdigest hrequest
  · refine iff_of_false nofun fun h => ?_
    simp [(validate_to_bool _).mpr h.identity, h.providerId, h.model, h.status] at hidentity
  · exact iff_of_false nofun fun h => absurd h.bodyLen (Nat.not_le.mpr hlarge)
  · exact iff_of_false nofun fun h => hbytes h.bodyBytes
  · refine iff_of_false nofun fun h => ?_
    have hvalid := h.digest
    rw [h.bodySha256] at hvalid
    simp [h.bodySha256, hvalid] at hdigest
  · refine iff_of_false nofun fun h => ?_
    simp [h.request] at hrequest
  · simp only [Bool.or_eq_true, Bool.not_eq_true', not_or, Bool.not_eq_false, bne_iff_ne, ne_eq,
      not_not, Bool.not_eq_true] at hidentity hdigest hrequest hbytes
    obtain ⟨⟨⟨hvalid, hprovider⟩, hmodel⟩, hstatus⟩ := hidentity
    exact ⟨fun h => ⟨(validate_to_bool _).mp hvalid, hprovider, hmodel, hstatus,
      Nat.not_lt.mp hlarge, hbytes, hdigest.1, hdigest.2, hrequest, h⟩, fun h => h.shape⟩

theorem identity_relabelled {identity : ProviderResponseIdentity} (digest : Text)
    (h : identity.validate = .ok ()) (hdigest : isValidReplaySha256 digest = true) :
    ({ identity with bodySha256 := digest } : ProviderResponseIdentity).validate = .ok () := by
  unfold ProviderResponseIdentity.validate at h ⊢
  split_ifs at h with h1 h2 h3 h4 h5 h6 h7
  rw [if_neg h1, if_neg h2, if_neg h3, if_neg h4, if_neg h5, if_neg h6, if_neg (by simp [hdigest])]

theorem accepted_canonical {recording : ReplayRecording}
    (h : Accepted serde sha256Hex recording) :
    Accepted serde sha256Hex (canonicalRecording recording) where
  identity := identity_relabelled _ h.identity h.digest
  providerId := h.providerId
  model := h.model
  status := h.status
  bodyLen := h.bodyLen
  bodyBytes := h.bodyBytes
  digest := by
    show isValidReplaySha256 (Text.toAsciiLowercase (Text.toAsciiLowercase _)) = true
    rw [lower_lower]
    exact h.digest
  bodySha256 := by
    show Text.toAsciiLowercase (Text.toAsciiLowercase _) = _
    rw [lower_lower]
    exact h.bodySha256
  request := request_digest_lower _ h.request
  shape := h.shape

/-- A recording that the loader accepts as it stands. -/
structure Storable (recording : ReplayRecording) : Prop where
  canonical : canonicalRecording recording = recording
  accepted : Accepted serde sha256Hex recording
  clean : bodyCredentialShape serde recording.body = none

theorem storable_canonical {recording : ReplayRecording} (h : Accepted serde sha256Hex recording)
    (hclean : bodyCredentialShape serde recording.body = none) :
    Storable serde sha256Hex (canonicalRecording recording) :=
  ⟨canonical_canonical recording, accepted_canonical serde sha256Hex h, hclean⟩

end Canonical

section Entries

variable (serde : SerdeJson) (sha256Hex : Text → Text)

/-- The flags of the document cover the optional fields of the recording. -/
def Covers (usage binding : Bool) (recording : ReplayRecording) : Prop :=
  (usage = false → carriesUsage recording = false) ∧
    (binding = false → recording.requestSha256 = none)

theorem entries_known (usage binding : Bool) (recording : ReplayRecording) :
    hasUnknownField recordingFields (recordingEntries usage binding recording) = false := by
  cases usage <;> cases binding <;>
    simp [hasUnknownField, recordingFields, recordingEntries, -String.reduceToList,
      String.toList_inj]

theorem entries_lookup (usage binding : Bool) (recording : ReplayRecording) :
    let get := fun key : String => (recordingEntries usage binding recording).lookup key.toList
    get "providerId" = some (.string recording.identity.providerId) ∧
      get "model" = some (.string recording.identity.model) ∧
      get "status" = some (optionalValue recording.identity.status) ∧
      get "bodySha256" = some (.string recording.identity.bodySha256) ∧
      get "bodyBytes" = some (.number (.posInt recording.identity.bodyBytes)) ∧
      get "observedAtMs" = some (optionalValue recording.identity.observedAtMs) ∧
      get "inputTokens" =
        (if usage then some (optionalValue recording.identity.inputTokens) else none) ∧
      get "outputTokens" =
        (if usage then some (optionalValue recording.identity.outputTokens) else none) ∧
      get "cachedTokens" =
        (if usage then some (optionalValue recording.identity.cachedTokens) else none) ∧
      get "requestSha256" =
        (if binding then some (optionalText recording.requestSha256) else none) ∧
      get "body" = some (.string recording.body) := by
  cases usage <;> cases binding <;>
    simp [recordingEntries, List.lookup_cons, Text.key_beq, -String.reduceToList]

theorem optional_field (name : Text) (value : Option ℕ) :
    optionalNumberField name (some (optionalValue value)) = .ok value := by
  cases value with
  | none => rfl
  | some number => rfl

theorem covered_field (name : Text) (present : Bool) (value : Option ℕ)
    (h : present = false → value = none) :
    optionalNumberField name (if present then some (optionalValue value) else none) =
      .ok value := by
  cases present with
  | true => exact optional_field name value
  | false =>
    rw [h rfl]
    rfl

theorem covered_request (present : Bool) (recording : ReplayRecording)
    (hcanonical : canonicalRecording recording = recording)
    (hrequest : requestDigestInvalid recording.requestSha256 = false)
    (h : present = false → recording.requestSha256 = none) :
    requestDigestField (if present then some (optionalText recording.requestSha256) else none) =
      .ok recording.requestSha256 := by
  have hlower := congrArg ReplayRecording.requestSha256 hcanonical
  cases present with
  | false =>
    rw [h rfl]
    rfl
  | true =>
    cases hdigest : recording.requestSha256 with
    | none => rfl
    | some digest =>
      rw [hdigest] at hrequest
      have hsame : Text.toAsciiLowercase digest = digest := by
        have hmapped : recording.requestSha256.map Text.toAsciiLowercase =
            recording.requestSha256 := hlower
        rw [hdigest] at hmapped
        exact Option.some.inj hmapped
      have hvalid : isValidReplaySha256 digest = true := by
        simpa [requestDigestInvalid] using hrequest
      show (if isValidReplaySha256 (Text.toAsciiLowercase digest) then _ else _) = _
      rw [hsame, if_pos hvalid, hsame]

theorem status_field (recording : ReplayRecording)
    (h : successStatus recording.identity.status = true) :
    statusField (some (optionalValue recording.identity.status)) =
      .ok recording.identity.status := by
  have hbelow : (recording.identity.status.any fun code => maxStatus < code) = false := by
    cases hstatus : recording.identity.status with
    | none => rfl
    | some code =>
      simp only [hstatus, successStatus, Option.any_some, Bool.and_eq_true, decide_eq_true_eq] at h
      simp only [Option.any_some, decide_eq_false_iff_not, not_lt]
      have hmax : maxStatus = 65535 := rfl
      omega
  rw [statusField, optional_field]
  show (refuseMalformed _ _ >>= fun _ => Except.ok recording.identity.status) = _
  rw [hbelow]
  rfl

theorem refuse_load_ok {refused : Bool} (error : ReplayStoreLoadError) (h : refused = false) :
    refuseLoad refused error = .ok () := by
  rw [h]
  rfl

theorem refuse_malformed_ok {refused : Bool} (reason : Text) (h : refused = false) :
    refuseMalformed refused reason = .ok () := refuse_load_ok _ h

theorem usage_absent {recording : ReplayRecording} (h : carriesUsage recording = false) :
    recording.identity.inputTokens = none ∧ recording.identity.outputTokens = none ∧
      recording.identity.cachedTokens = none := by
  rw [carriesUsage, Bool.or_eq_false_iff, Bool.or_eq_false_iff] at h
  simpa only [Option.isSome_eq_false_iff, Option.isNone_iff_eq_none, and_assoc] using h

theorem load_entry_written {usage binding : Bool} {recording : ReplayRecording} {total : ℕ}
    (hstorable : Storable serde sha256Hex recording) (hcovers : Covers usage binding recording)
    (htotal : total + recording.bodyLen ≤ replayStoreMaxTotalBodyBytes) :
    loadEntry serde sha256Hex total (recordingValue usage binding recording) = .ok recording := by
  obtain ⟨hprovider, hmodel, hstatus, hdigest, hbytes, hobserved, hinput, houtput, hcached,
    hrequest, hbody⟩ := entries_lookup usage binding recording
  dsimp only at hprovider hmodel hstatus hdigest hbytes hobserved hinput houtput hcached hrequest hbody
  have haccepted := hstorable.accepted
  have husage := fun h : usage = false => usage_absent (hcovers.1 h)
  have hlowered : Text.toAsciiLowercase recording.identity.bodySha256 =
      recording.identity.bodySha256 :=
    congrArg (fun recording => recording.identity.bodySha256) hstorable.canonical
  have hcheck : checkRecording serde sha256Hex recording = .ok () := by
    rw [checkRecording, (recording_accepted serde sha256Hex recording).mpr haccepted]
  simp only [loadEntry, except_bind_ok]
  refine ⟨recordingEntries usage binding recording, rfl, (),
    refuse_malformed_ok _ (entries_known usage binding recording),
    recording.identity.providerId, ?_, (), refuse_malformed_ok _ (by simp [haccepted.providerId]),
    recording.identity.model, ?_, (), refuse_malformed_ok _ (by simp [haccepted.model]),
    recording.identity.status, ?_, (), refuse_malformed_ok _ (by simp [haccepted.status]),
    recording.identity.bodySha256, ?_, recording.identity.bodyBytes, ?_,
    recording.identity.observedAtMs, ?_, recording.identity.inputTokens, ?_,
    recording.identity.outputTokens, ?_, recording.identity.cachedTokens, ?_,
    recording.requestSha256, ?_, recording.body, ?_, (), refuse_load_ok _ (decide_eq_false (Nat.not_lt.mpr htotal)),
    (), refuse_load_ok _ (decide_eq_false (Nat.not_lt.mpr haccepted.bodyLen)), (), ?_, (),
    refuse_malformed_ok _ (by rw [hstorable.clean]; rfl), ?_⟩
  · rw [hprovider]
    rfl
  · rw [hmodel]
    rfl
  · rw [hstatus]
    exact status_field recording haccepted.status
  · rw [hdigest]
    rfl
  · rw [hbytes]
    rfl
  · rw [hobserved]
    exact optional_field _ _
  · rw [hinput]
    exact covered_field _ usage _ fun h => (husage h).1
  · rw [houtput]
    exact covered_field _ usage _ fun h => (husage h).2.1
  · rw [hcached]
    exact covered_field _ usage _ fun h => (husage h).2.2
  · rw [hrequest]
    exact covered_request binding recording hstorable.canonical haccepted.request hcovers.2
  · rw [hbody]
    rfl
  · rw [hlowered]
    exact hcheck
  · rw [hlowered]

theorem load_entries_written {usage binding : Bool} (recordings : List ReplayRecording)
    (hstorable : ∀ recording ∈ recordings, Storable serde sha256Hex recording)
    (hcovers : ∀ recording ∈ recordings, Covers usage binding recording) (total : ℕ)
    (htotal : total + bodyBytesOf recordings ≤ replayStoreMaxTotalBodyBytes) :
    loadEntries serde sha256Hex total (recordings.map (recordingValue usage binding)) =
      .ok recordings := by
  induction recordings generalizing total with
  | nil => rfl
  | cons recording recordings ih =>
    rw [body_bytes_cons] at htotal
    have hentry : loadEntry serde sha256Hex total (recordingValue usage binding recording) =
        .ok recording :=
      load_entry_written serde sha256Hex (hstorable recording List.mem_cons_self)
        (hcovers recording List.mem_cons_self) (by omega)
    have hrest := ih (fun r hr => hstorable r (List.mem_cons_of_mem _ hr))
      (fun r hr => hcovers r (List.mem_cons_of_mem _ hr)) (total + recording.bodyLen) (by omega)
    rw [List.map_cons, loadEntries]
    simp only [except_bind_ok]
    exact ⟨recording, hentry, recordings, hrest, rfl⟩

theorem covers_all (recordings : List ReplayRecording) :
    ∀ recording ∈ recordings,
      Covers (hasUsage recordings) (hasRequestBinding recordings) recording := by
  intro recording hmem
  constructor
  · intro h
    simpa using List.any_eq_false.mp h recording hmem
  · intro h
    simpa using List.any_eq_false.mp h recording hmem

theorem load_document_written (recordings : List ReplayRecording)
    (hstorable : ∀ recording ∈ recordings, Storable serde sha256Hex recording)
    (hfits : Fits recordings) :
    loadDocument serde sha256Hex
      (documentValue (computeReplayStoreDigest sha256Hex recordings) recordings) =
        .ok recordings := by
  simp only [loadDocument, except_bind_ok]
  refine ⟨_, rfl, (), refuse_malformed_ok _ ?_, (), refuse_malformed_ok _ ?_,
    computeReplayStoreDigest sha256Hex recordings, ?_,
    .array (recordings.map
      (recordingValue (hasUsage recordings) (hasRequestBinding recordings))), ?_, _, rfl, (),
    refuse_load_ok _ ?_, recordings, ?_, (), refuse_load_ok _ ?_, (), ?_, rfl⟩
  · simp [hasUnknownField, documentFields, -String.reduceToList, String.toList_inj]
  · simp [List.lookup_cons, Text.key_beq, Value.asU64, replayStoreVersion, -String.reduceToList]
  · simp [Value.asStr, requireField, -String.reduceToList]
  · simp [List.lookup_cons, Text.key_beq, requireField, -String.reduceToList]
  · rw [List.length_map]
    exact decide_eq_false (Nat.not_lt.mpr hfits.1)
  · exact load_entries_written serde sha256Hex recordings hstorable (covers_all recordings) 0
      (by have := hfits.2; omega)
  · exact bne_self_eq_false _
  · rw [fits_bounds hfits]
    rfl

theorem plain_optional (value : Option ℕ) : plain (optionalValue value) = true := by
  cases value <;> rfl

theorem plain_text (text : Option Text) : plain (optionalText text) = true := by
  cases text <;> rfl

theorem plain_recording (usage binding : Bool) (recording : ReplayRecording) :
    plain (recordingValue usage binding recording) = true := by
  cases usage <;> cases binding <;>
    simp [recordingValue, recordingEntries, plain, plainFields, plain_optional, plain_text]

theorem plain_recordings (usage binding : Bool) (recordings : List ReplayRecording) :
    plainValues (recordings.map (recordingValue usage binding)) = true := by
  induction recordings with
  | nil => rfl
  | cons recording recordings ih =>
    rw [List.map_cons, plainValues, plain_recording, ih]
    rfl

theorem plain_document (digest : Text) (recordings : List ReplayRecording) :
    plain (documentValue digest recordings) = true := by
  simp [documentValue, plain, plainFields, plain_recordings]

theorem bytes_size (text : Text) : (bytesOf text).toByteArray.size = Text.utf8Len text := by
  rw [List.size_toByteArray]
  induction text with
  | nil => rfl
  | cons c text ih =>
    rw [Text.utf8Len_cons, ← ih, ← String.length_utf8EncodeChar]
    exact List.length_append

theorem bytes_decode (text : Text) :
    (bytesOf text).toByteArray.utf8Decode? = some text.toArray :=
  List.utf8Decode?_utf8Encode

/-- The numbers of the fields that the source holds in machine words. -/
def wordsOf (recording : ReplayRecording) : List ℕ :=
  recording.identity.bodyBytes :: [recording.identity.status, recording.identity.observedAtMs,
    recording.identity.inputTokens, recording.identity.outputTokens,
    recording.identity.cachedTokens].filterMap id

def WordSized (recording : ReplayRecording) : Prop := ∀ n ∈ wordsOf recording, n < 2 ^ 64

instance (recording : ReplayRecording) : Decidable (WordSized recording) :=
  inferInstanceAs (Decidable (∀ n ∈ wordsOf recording, n < 2 ^ 64))

/-- The JSON reader returns the documents that the JSON writer wrote. -/
def ReadsBack : Prop :=
  ∀ digest recordings, (∀ recording ∈ recordings, WordSized recording) →
    serde.fromStr (serde.toStr (documentValue digest recordings)) =
      some (documentValue digest recordings)

theorem documents_read_back : ReadsBack plainSerde :=
  fun digest recordings _ => plain_reads_back _ (plain_document digest recordings)

theorem load_written (hserde : ReadsBack serde) {recordings : List ReplayRecording}
    (hwords : ∀ recording ∈ recordings, WordSized recording)
    (hstorable : ∀ recording ∈ recordings, Storable serde sha256Hex recording)
    (hfits : Fits recordings)
    (hsize : Text.utf8Len (serializedStore serde sha256Hex recordings) ≤
      replayStoreMaxFileBytes) :
    loadReplayStore serde sha256Hex
      (.regular (bytesOf (serializedStore serde sha256Hex recordings)).toByteArray) =
        .ok recordings := by
  rw [loadReplayStore, loadBytes, bytes_size, if_neg (Nat.not_lt.mpr hsize), bytes_decode]
  dsimp only
  rw [serializedStore, hserde _ recordings hwords]
  exact load_document_written serde sha256Hex recordings hstorable hfits

theorem request_field_canonical {value : Option Value} {requestSha256 : Option Text}
    (h : requestDigestField value = .ok requestSha256) :
    requestSha256.map Text.toAsciiLowercase = requestSha256 := by
  unfold requestDigestField at h
  split at h
  · cases h
    rfl
  · cases h
    rfl
  · split at h
    · cases h
      exact congrArg some (lower_lower _)
    · cases h
  · cases h

theorem check_recording_ok {recording : ReplayRecording}
    (h : checkRecording serde sha256Hex recording = .ok ()) :
    Accepted serde sha256Hex recording := by
  rw [← recording_accepted]
  unfold checkRecording at h
  split at h
  · assumption
  · cases h
  · cases h
  · cases h
  · cases h

theorem refuse_malformed_iff (refused : Bool) (reason : Text) (u : Unit) :
    refuseMalformed refused reason = .ok u ↔ refused = false := by
  cases refused with
  | true => exact iff_of_false nofun nofun
  | false => exact iff_of_true rfl rfl

theorem load_entry_storable {total : ℕ} {entry : Value} {recording : ReplayRecording}
    (h : loadEntry serde sha256Hex total entry = .ok recording) :
    Storable serde sha256Hex recording := by
  simp only [loadEntry, except_bind_ok, refuse_malformed_iff] at h
  obtain ⟨fields, -, -, -, providerId, -, -, -, model, -, -, -, status, -, -, -, bodySha256, -,
    bodyBytes, -, observedAtMs, -, inputTokens, -, outputTokens, -, cachedTokens, -,
    requestSha256, hrequest, body, -, -, -, -, -, _, hcheck, -, hclean, hrecording⟩ := h
  cases hrecording
  refine ⟨?_, check_recording_ok serde sha256Hex hcheck, by simpa using hclean⟩
  unfold canonicalRecording
  dsimp only
  rw [lower_lower, request_field_canonical hrequest]

theorem load_entries_storable {total : ℕ} {entries : List Value}
    {recordings : List ReplayRecording}
    (h : loadEntries serde sha256Hex total entries = .ok recordings) :
    ∀ recording ∈ recordings, Storable serde sha256Hex recording := by
  induction entries generalizing total recordings with
  | nil =>
    cases h
    exact fun recording hmem => absurd hmem List.not_mem_nil
  | cons entry entries ih =>
    simp only [loadEntries, except_bind_ok] at h
    obtain ⟨first, hfirst, rest, hrest, hrecordings⟩ := h
    cases hrecordings
    intro recording hmem
    rcases List.mem_cons.mp hmem with rfl | hmem
    · exact load_entry_storable serde sha256Hex hfirst
    · exact ih hrest recording hmem

theorem loaded_storable {file : StoreFile} {recordings : List ReplayRecording}
    (h : loadReplayStore serde sha256Hex file = .ok recordings) :
    ∀ recording ∈ recordings, Storable serde sha256Hex recording := by
  cases file with
  | absent => cases h
  | special => cases h
  | regular bytes =>
    rw [loadReplayStore, loadBytes] at h
    split at h
    · cases h
    · split at h
      · cases h
      · split at h
        · cases h
        · simp only [loadDocument, except_bind_ok] at h
          obtain ⟨fields, -, -, -, -, -, digest, -, listed, -, entries, -, -, -, loaded, hloaded, -,
            -, -, -, hok⟩ := h
          cases hok
          exact load_entries_storable serde sha256Hex hloaded

end Entries

end Siralos.ReplayStore
