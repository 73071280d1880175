import Siralos.ReplayStoreRoundTrip

/-!
# Room for the current session

Eviction counts the bytes of the bodies and admission counts the bytes of the document. A write
makes room for its newest recording exactly when the evicted store also fits as a document.
-/

set_option autoImplicit false

namespace Siralos.ReplayStore

open Json Provider Identity Determinism
open Knowledge (bytesOf)

section Room

variable (serde : SerdeJson) (sha256Hex : Text → Text)

/-- A recording that the writer accepts on its own. -/
structure Admissible (recording : ReplayRecording) : Prop where
  persistable : isPersistableReplayRecording recording = true
  clean : bodyCredentialShape serde recording.body = none
  valid : validateReplayRecording serde sha256Hex recording = .ok ()

/-- The write succeeds and the newest recording is in the store that it leaves. -/
def MakesRoom (newest : ReplayRecording)
    (result : StoreFile × Except ReplayStoreWriteError ℕ) : Prop :=
  ∃ n kept, result.2 = .ok n ∧ loadReplayStore serde sha256Hex result.1 = .ok kept ∧
    canonicalRecording newest ∈ kept

def DocumentFits (recordings : List ReplayRecording) : Prop :=
  Text.utf8Len (serializedStore serde sha256Hex (recordings.map canonicalRecording)) ≤
    replayStoreMaxFileBytes

/-- What eviction by body bytes leaves also fits as a document. -/
def EvictionSuffices (prior recordings : List ReplayRecording) : Prop :=
  ∀ kept, Suffix.Longest Fits (prior ++ newestPersistable recordings) kept →
    DocumentFits serde sha256Hex kept

theorem keep_newest_suffix (kept : List ReplayRecording) (total : ℕ)
    (older : List ReplayRecording) : kept <:+ keepNewest kept total older := by
  induction older generalizing kept total with
  | nil => exact List.suffix_refl kept
  | cons recording older ih =>
    rw [keepNewest]
    split_ifs
    · exact List.suffix_refl kept
    · exact List.suffix_refl kept
    · exact (List.suffix_cons recording kept).trans (ih _ _)

theorem newest_first {recordings : List ReplayRecording} {newest : ReplayRecording}
    (hnewest : recordings.getLast? = some newest)
    (hpersistable : isPersistableReplayRecording newest = true) :
    ∃ older, (newestPersistable recordings).reverse = newest :: older := by
  obtain ⟨before, rfl⟩ := List.getLast?_eq_some_iff.mp hnewest
  rw [newestPersistable, List.reverse_reverse, List.reverse_append, List.reverse_singleton,
    List.singleton_append, List.filter_cons_of_pos hpersistable]
  exact ⟨_, rfl⟩

theorem newest_chosen {prior recordings : List ReplayRecording} {newest : ReplayRecording}
    (hnewest : recordings.getLast? = some newest)
    (hadmissible : Admissible serde sha256Hex newest) : newest ∈ chosen prior recordings := by
  obtain ⟨older, holder⟩ := newest_first hnewest hadmissible.persistable
  have hbytes := ((recording_accepted serde sha256Hex newest).mp hadmissible.valid).bodyLen
  have hmax : maxResponseBytes ≤ replayStoreMaxTotalBodyBytes := by decide
  rw [chosen, holder, List.cons_append, keepNewest, if_neg (by decide), if_neg (by omega)]
  exact (keep_newest_suffix [newest] _ _).subset List.mem_cons_self

theorem written_fits {file : StoreFile} {prior recordings : List ReplayRecording} {n : ℕ}
    (hprior : Trusted serde sha256Hex file prior)
    (hwritten : (writeReplayStore serde sha256Hex (.ok ()) file recordings).2 = .ok n) :
    DocumentFits serde sha256Hex (chosen prior recordings) := by
  unfold writeReplayStore at hwritten
  split at hwritten
  · cases hwritten
  · rename_i stored text hprepared
    obtain ⟨-, -, rfl, rfl, hsize⟩ := (prepare_ok serde sha256Hex
      (trusted_existing serde sha256Hex hprior) _ _).mp hprepared
    exact hsize

theorem makes_room_iff (hserde : ReadsBack serde) (file : StoreFile)
    (prior recordings : List ReplayRecording) (newest : ReplayRecording)
    (hprior : Trusted serde sha256Hex file prior)
    (hwords : ∀ recording ∈ prior ++ recordings, WordSized recording)
    (hnewest : recordings.getLast? = some newest)
    (hadmissible : ∀ recording ∈ recordings, Admissible serde sha256Hex recording) :
    MakesRoom serde sha256Hex newest
        (writeReplayStore serde sha256Hex (.ok ()) file recordings) ↔
      EvictionSuffices serde sha256Hex prior recordings := by
  have hexisting := trusted_existing serde sha256Hex hprior
  have hchosen : newest ∈ chosen prior recordings :=
    newest_chosen serde sha256Hex hnewest (hadmissible newest (List.mem_of_getLast? hnewest))
  have hclean : Clean serde sha256Hex recordings := by
    intro recording hmem
    have hr := hadmissible recording (newest_subset recordings recording hmem)
    exact ⟨hr.clean, (recording_accepted serde sha256Hex recording).mp hr.valid⟩
  constructor
  · rintro ⟨n, -, hn, -, -⟩ kept hkept
    rw [Suffix.longest_unique hkept (chosen_longest prior recordings)]
    exact written_fits serde sha256Hex hprior hn
  · intro h
    have hsize := h _ (chosen_longest prior recordings)
    have hprepared := (prepare_ok serde sha256Hex hexisting
      ((chosen prior recordings).map canonicalRecording) _).mpr
      ⟨hclean, fun hnil => absurd hchosen (by rw [hnil]; exact List.not_mem_nil), rfl, rfl, hsize⟩
    have hresult : writeReplayStore serde sha256Hex (.ok ()) file recordings =
        (.regular (bytesOf (serializedStore serde sha256Hex
          ((chosen prior recordings).map canonicalRecording))).toByteArray,
          .ok ((chosen prior recordings).map canonicalRecording).length) := by
      rw [writeReplayStore, hprepared]
    rw [hresult]
    refine ⟨_, (chosen prior recordings).map canonicalRecording, rfl, ?_,
      List.mem_map_of_mem hchosen⟩
    exact load_written serde sha256Hex hserde (chosen_words hwords)
      (chosen_storable serde sha256Hex (trusted_storable serde sha256Hex hprior) hclean)
      (fits_canonical (chosen_longest prior recordings).holds) hsize

end Room

theorem sample_admissible : Admissible plainSerde sampleSha256 sampleRecording where
  persistable := by decide
  clean := filler_clean 0
  valid := (recording_accepted plainSerde sampleSha256 sampleRecording).mpr
    (text_recording_accepted sampleSha256 sample_hashed (by decide))

theorem makes_room_sample :
    MakesRoom plainSerde sampleSha256 sampleRecording
        (writeReplayStore plainSerde sampleSha256 (.ok ()) .absent [sampleRecording]) ↔
      EvictionSuffices plainSerde sampleSha256 [] [sampleRecording] :=
  makes_room_iff plainSerde sampleSha256 documents_read_back .absent [] [sampleRecording]
    sampleRecording (Or.inl ⟨rfl, rfl⟩) (List.forall_mem_singleton.mpr sample_words) rfl
    (List.forall_mem_singleton.mpr sample_admissible)

section Wedge

theorem escape_filler_length (n : ℕ) : Text.utf8Len (jsonEscape (fillerBody n)) = n + 50 := by
  have hfront : Text.utf8Len ((textFront ++ ['"']).flatMap escapeChar) = 42 := by decide
  have hback : Text.utf8Len (('"' :: textBack).flatMap escapeChar) = 6 := by decide
  have hquote : ('"' : Char).utf8Size = 1 := by decide
  rw [jsonEscape, filler_body_eq, escape_append (textFront ++ _), escape_append (filler n),
    escape_filler]
  simp only [Text.utf8Len_cons, Text.utf8Len_append, hfront, hback, filler_length, hquote,
    Text.utf8Len_nil]
  omega

theorem sizes : ('"' : Char).utf8Size = 1 ∧ ':'.utf8Size = 1 ∧ ','.utf8Size = 1 ∧
    '['.utf8Size = 1 ∧ ']'.utf8Size = 1 ∧ (Char.ofNat 123).utf8Size = 1 ∧
    (Char.ofNat 125).utf8Size = 1 ∧ Text.utf8Len [] = 0 := by
  decide

variable (sha256Hex : Text → Text)

theorem text_canonical (n : ℕ)
    (hlower : Text.toAsciiLowercase (sha256Hex (fillerBody n)) = sha256Hex (fillerBody n)) :
    canonicalRecording (textRecording sha256Hex n) = textRecording sha256Hex n := by
  show ({ textRecording sha256Hex n with
    identity := { (textRecording sha256Hex n).identity with
      bodySha256 := Text.toAsciiLowercase (sha256Hex (fillerBody n)) } } : ReplayRecording) = _
  rw [hlower]
  rfl

theorem text_words (n : ℕ) : wordsOf (textRecording sha256Hex n) = [n + 40, 200] := rfl

theorem text_persistable (n : ℕ) :
    isPersistableReplayRecording (textRecording sha256Hex n) = true := by
  show (successStatus (some 200) && !(fillerBody n).isEmpty) = true
  rw [filler_body_eq]
  rfl

theorem entry_length (n : ℕ)
    (hdigest : Text.utf8Len (jsonEscape (sha256Hex (fillerBody n))) = 66)
    (hdigits : Text.utf8Len (Text.ofNat (n + 40)) = 7) :
    Text.utf8Len (writeValue (recordingValue false false (textRecording sha256Hex n))) =
      n + 221 := by
  have hkeys : Text.utf8Len (jsonEscape "body".toList) = 6 ∧
      Text.utf8Len (jsonEscape "bodyBytes".toList) = 11 ∧
      Text.utf8Len (jsonEscape "bodySha256".toList) = 12 ∧
      Text.utf8Len (jsonEscape "model".toList) = 7 ∧
      Text.utf8Len (jsonEscape "observedAtMs".toList) = 14 ∧
      Text.utf8Len (jsonEscape "providerId".toList) = 12 ∧
      Text.utf8Len (jsonEscape "status".toList) = 8 := by
    decide
  have hvalues : Text.utf8Len (jsonEscape ['m']) = 3 ∧ Text.utf8Len (jsonEscape ['p']) = 3 ∧
      Text.utf8Len "null".toList = 4 ∧ Text.utf8Len (Text.ofNat 200) = 3 := by
    decide
  have hbody := escape_filler_length n
  rw [writeValue]
  simp only [recordingValue, recordingEntries, textRecording, canonicalOf, canonicalFields,
    toCanonical, writeFields, separator, optionalValue, Text.utf8Len_cons, Text.utf8Len_append,
    hbody, hdigest, hdigits, hkeys, hvalues, sizes, List.cons_append, List.nil_append,
    List.append_assoc, List.append_nil, Bool.false_eq_true, if_false, if_true]
  omega

theorem document_length (digest : Text) (hdigest : Text.utf8Len (jsonEscape digest) = 66)
    (recording : ReplayRecording) (husage : carriesUsage recording = false)
    (hrequest : recording.requestSha256 = none) :
    let entry := Text.utf8Len (writeValue (recordingValue false false recording))
    Text.utf8Len (writeValue (documentValue digest [recording])) = entry + 105 ∧
      Text.utf8Len (writeValue (documentValue digest [recording, recording])) =
        2 * entry + 106 := by
  have hkeys : Text.utf8Len (jsonEscape "digest".toList) = 8 ∧
      Text.utf8Len (jsonEscape "recordings".toList) = 12 ∧
      Text.utf8Len (jsonEscape "version".toList) = 9 ∧
      Text.utf8Len (Text.ofNat replayStoreVersion) = 1 := by
    decide
  simp only [writeValue, documentValue, hasUsage, hasRequestBinding, List.any_cons, List.any_nil,
    husage, hrequest, Option.isSome_none, Bool.or_false, List.map_cons, List.map_nil, canonicalOf,
    canonicalFields, canonicalValues, toCanonical, writeFields, writeEntries, separator,
    Text.utf8Len_cons, Text.utf8Len_append, hdigest, hkeys, sizes, Bool.false_eq_true, if_false,
    if_true]
  omega

/-- A response that fills half of the bound on the bodies. -/
def halfFiller : ℕ := 1048536

/-- The digests of the half-full response and of the stores that hold it once and twice. -/
def halfSha256 (text : Text) : Text :=
  if text = fillerBody halfFiller then
    "8e4ebdef66c4d913ffcff8f5a9cea5a1d93eeb4d81f6d684dd7e15299e19d58c".toList
  else if Text.utf8Len text ≤ replayStoreMaxTotalBodyBytes then
    "a4a77212eabd2ccaf36b287eda35d9d9b1d8183de6ba3228080816c6214138f4".toList
  else "14fd7d4f2d3a4bd43a854109891852cb26dfc5988548e9300175123f332af2cd".toList

theorem half_sha_body : halfSha256 (fillerBody halfFiller) =
    "8e4ebdef66c4d913ffcff8f5a9cea5a1d93eeb4d81f6d684dd7e15299e19d58c".toList := if_pos rfl

theorem half_sha_length (text : Text) : Text.utf8Len (jsonEscape (halfSha256 text)) = 66 := by
  unfold halfSha256
  split_ifs
  · decide
  · decide
  · decide

theorem half_digest_length (recordings : List ReplayRecording) :
    Text.utf8Len (jsonEscape (computeReplayStoreDigest halfSha256 recordings)) = 66 := by
  unfold computeReplayStoreDigest artifactDigestHex
  exact half_sha_length _

def halfRecording : ReplayRecording := textRecording halfSha256 halfFiller

theorem half_accepted : Accepted plainSerde halfSha256 halfRecording := by
  have hhash : Hashed halfSha256 (1048535 + 1) := by
    constructor
    · rw [show 1048535 + 1 = halfFiller from rfl, half_sha_body]
      decide
    · rw [show 1048535 + 1 = halfFiller from rfl, half_sha_body]
      decide
  exact text_recording_accepted halfSha256 hhash (by decide)

theorem half_body_length : halfRecording.bodyLen = 1048576 := filler_body_length halfFiller

theorem half_persistable : isPersistableReplayRecording halfRecording = true :=
  text_persistable halfSha256 halfFiller

theorem half_admissible : Admissible plainSerde halfSha256 halfRecording where
  persistable := half_persistable
  clean := filler_clean 1048535
  valid := (recording_accepted plainSerde halfSha256 halfRecording).mpr half_accepted

theorem half_canonical : canonicalRecording halfRecording = halfRecording := by
  apply text_canonical
  rw [half_sha_body]
  decide

theorem half_words : WordSized halfRecording := by
  rw [WordSized, halfRecording, text_words]
  decide

theorem half_entry_length :
    Text.utf8Len (writeValue (recordingValue false false halfRecording)) = 1048757 :=
  entry_length halfSha256 halfFiller (half_sha_length _) (by decide)

theorem half_document_lengths :
    Text.utf8Len (serializedStore plainSerde halfSha256 [halfRecording]) = 1048862 ∧
      Text.utf8Len (serializedStore plainSerde halfSha256 [halfRecording, halfRecording]) =
        2097620 := by
  have hone := document_length _ (half_digest_length [halfRecording]) halfRecording rfl rfl
  have htwo := document_length _ (half_digest_length [halfRecording, halfRecording])
    halfRecording rfl rfl
  dsimp only at hone htwo
  rw [half_entry_length] at hone htwo
  exact ⟨hone.1, htwo.2⟩

noncomputable def halfFile : StoreFile :=
  .regular (bytesOf (serializedStore plainSerde halfSha256 [halfRecording])).toByteArray

theorem half_trusted : Trusted plainSerde halfSha256 halfFile [halfRecording] := by
  right
  apply load_written plainSerde halfSha256 documents_read_back
  · exact List.forall_mem_singleton.mpr half_words
  · exact List.forall_mem_singleton.mpr ⟨half_canonical, half_accepted, filler_clean 1048535⟩
  · constructor
    · decide
    · rw [bodyBytesOf, List.map_singleton, List.sum_singleton, half_body_length]
      decide
  · rw [half_document_lengths.1]
    decide

theorem half_chosen : chosen [halfRecording] [halfRecording] = [halfRecording, halfRecording] := by
  have hnewest : newestPersistable [halfRecording] = [halfRecording] := by
    rw [newestPersistable, List.reverse_singleton, List.filter_cons_of_pos half_persistable]
    rfl
  rw [chosen, hnewest]
  simp only [List.reverse_singleton, List.singleton_append, keepNewest, half_body_length]
  rfl

/-- Two responses fit by their bodies and not as a document: the second session stores nothing. -/
theorem makes_room_fails :
    ¬ ∀ (serde : SerdeJson) (sha256Hex : Text → Text) (file : StoreFile)
      (prior recordings : List ReplayRecording) (newest : ReplayRecording),
      ReadsBack serde → Trusted serde sha256Hex file prior →
      (∀ recording ∈ prior ++ recordings, WordSized recording) →
      recordings.getLast? = some newest →
      (∀ recording ∈ recordings, Admissible serde sha256Hex recording) →
      DocumentFits serde sha256Hex [newest] →
      MakesRoom serde sha256Hex newest
        (writeReplayStore serde sha256Hex (.ok ()) file recordings) := by
  intro h
  have hfits : DocumentFits plainSerde halfSha256 [halfRecording] := by
    rw [DocumentFits, List.map_singleton, half_canonical, half_document_lengths.1]
    decide
  have hwords : ∀ recording ∈ [halfRecording] ++ [halfRecording], WordSized recording := by
    intro recording hmem
    have hhalf : recording = halfRecording := by simpa using hmem
    rw [hhalf]
    exact half_words
  obtain ⟨n, -, hn, -⟩ := h plainSerde halfSha256 halfFile [halfRecording] [halfRecording]
    halfRecording documents_read_back half_trusted hwords rfl
    (List.forall_mem_singleton.mpr half_admissible) hfits
  have hsize := written_fits plainSerde halfSha256 half_trusted hn
  rw [half_chosen, DocumentFits, List.map_cons, List.map_singleton, half_canonical,
    half_document_lengths.2] at hsize
  exact absurd hsize (by decide)

end Wedge

end Siralos.ReplayStore
