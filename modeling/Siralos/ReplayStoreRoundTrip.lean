import Siralos.ReplayStoreBodies

/-!
# What a write stores is read back

A write keeps the longest suffix within the bounds of what was stored before and of the newest
recordings, and the next load returns exactly these recordings.
-/

set_option autoImplicit false

namespace Siralos.Suffix

variable {α : Type} {P : List α → Prop}

structure Longest (P : List α → Prop) (l s : List α) : Prop where
  suffix : s <:+ l
  holds : P s
  longest : ∀ t, t <:+ l → P t → t.length ≤ s.length

theorem longest_self {s : List α} (h : P s) : Longest P s s :=
  ⟨List.suffix_refl s, h, fun _ ht _ => ht.length_le⟩

theorem longest_stop {older s : List α} {a : α} (h : P s)
    (hstop : ∀ t, (a :: s) <:+ t → ¬ P t) : Longest P (older ++ a :: s) s := by
  refine ⟨⟨older ++ [a], by simp⟩, h, ?_⟩
  intro t ht hp
  by_contra hlong
  apply hstop t _ hp
  apply List.suffix_of_suffix_length_le (List.suffix_append older (a :: s)) ht
  rw [List.length_cons]
  omega

theorem longest_unique {l s t : List α} (hs : Longest P l s) (ht : Longest P l t) : s = t := by
  have hle := ht.longest s hs.suffix hs.holds
  have hge := hs.longest t ht.suffix ht.holds
  exact (List.suffix_of_suffix_length_le hs.suffix ht.suffix hle).eq_of_length (by omega)

end Siralos.Suffix

namespace Siralos.ReplayStore

open Json Provider Identity Determinism
open Knowledge (bytesOf)

section Selection

/-- The newest persistable recordings of a session, oldest first. -/
def newestPersistable (recordings : List ReplayRecording) : List ReplayRecording :=
  ((recordings.reverse.filter isPersistableReplayRecording).take replayStoreMaxRecordings).reverse

theorem body_bytes_suffix {s t : List ReplayRecording} (h : s <:+ t) :
    bodyBytesOf s ≤ bodyBytesOf t := by
  obtain ⟨older, rfl⟩ := h
  rw [bodyBytesOf, bodyBytesOf, List.map_append, List.sum_append]
  omega

theorem candidates_newest (recordings : List ReplayRecording) :
    (currentCandidates recordings).map Prod.fst = newestPersistable recordings := by
  have hfst : (recordings.zipIdx.reverse.filter fun entry =>
      isPersistableReplayRecording entry.1).map Prod.fst =
      recordings.reverse.filter isPersistableReplayRecording := by
    have hmap := List.filter_map (p := isPersistableReplayRecording) (f := Prod.fst)
      (l := recordings.zipIdx.reverse)
    rw [List.map_reverse, List.zipIdx_map_fst] at hmap
    exact hmap.symm
  rw [currentCandidates, newestPersistable, List.map_reverse, List.map_take, hfst]

theorem keep_newest_longest (older kept : List ReplayRecording) (hkept : Fits kept) :
    Suffix.Longest Fits (older.reverse ++ kept) (keepNewest kept (bodyBytesOf kept) older) := by
  induction older generalizing kept with
  | nil => exact Suffix.longest_self hkept
  | cons recording older ih =>
    rw [keepNewest, List.reverse_cons, List.append_assoc, List.singleton_append]
    split_ifs with hcount hbytes
    · apply Suffix.longest_stop hkept
      intro t ht hfits
      have hlength := ht.length_le
      rw [List.length_cons] at hlength
      have hbound := hfits.1
      omega
    · apply Suffix.longest_stop hkept
      intro t ht hfits
      have hsum := body_bytes_suffix ht
      rw [body_bytes_cons] at hsum
      have hbound := hfits.2
      omega
    · have hcons : bodyBytesOf kept + recording.bodyLen = bodyBytesOf (recording :: kept) := by
        rw [body_bytes_cons]
        omega
      rw [hcons]
      apply ih
      refine ⟨?_, ?_⟩
      · rw [List.length_cons]
        omega
      · omega

theorem fits_nil : Fits [] := ⟨Nat.zero_le _, Nat.zero_le _⟩

theorem kept_longest (existing candidates : List ReplayRecording) :
    Suffix.Longest Fits (existing ++ candidates)
      (keepNewest [] 0 (candidates.reverse ++ existing.reverse)) := by
  have h := keep_newest_longest (candidates.reverse ++ existing.reverse) [] fits_nil
  rwa [List.reverse_append, List.reverse_reverse, List.reverse_reverse, List.append_nil] at h

end Selection

section Writes

variable (serde : SerdeJson) (sha256Hex : Text → Text)

/-- The store before the write: absent, or what the loader reads from it. -/
def Trusted (file : StoreFile) (prior : List ReplayRecording) : Prop :=
  (file = .absent ∧ prior = []) ∨ loadReplayStore serde sha256Hex file = .ok prior

theorem trusted_existing {file : StoreFile} {prior : List ReplayRecording}
    (h : Trusted serde sha256Hex file prior) :
    existingRecordings serde sha256Hex file = .ok prior := by
  rcases h with ⟨rfl, rfl⟩ | h
  · rfl
  · rw [existingRecordings, h]

theorem trusted_storable {file : StoreFile} {prior : List ReplayRecording}
    (h : Trusted serde sha256Hex file prior) :
    ∀ recording ∈ prior, Storable serde sha256Hex recording := by
  rcases h with ⟨rfl, rfl⟩ | h
  · exact fun recording hmem => absurd hmem List.not_mem_nil
  · exact loaded_storable serde sha256Hex h

theorem check_candidate_ok (candidate : ReplayRecording × ℕ) :
    checkCandidate serde sha256Hex candidate = .ok () ↔
      bodyCredentialShape serde candidate.1.body = none ∧
        Accepted serde sha256Hex candidate.1 := by
  rw [checkCandidate, ← recording_accepted]
  cases hshape : bodyCredentialShape serde candidate.1.body with
  | some pattern => exact iff_of_false nofun nofun
  | none =>
    cases hvalid : validateReplayRecording serde sha256Hex candidate.1 with
    | error error =>
      refine iff_of_false ?_ nofun
      show (if _ then _ else _) ≠ _
      split_ifs with hlarge hrefused
      · nofun
      · nofun
      · exact absurd rfl hrefused
    | ok valid =>
      have hlarge := ((recording_accepted serde sha256Hex candidate.1).mp hvalid).bodyLen
      refine iff_of_true ?_ ⟨rfl, rfl⟩
      show (if _ then _ else _) = _
      rw [if_neg (Nat.not_lt.mpr hlarge)]
      rfl

theorem check_candidates_ok (candidates : List (ReplayRecording × ℕ)) :
    checkCandidates serde sha256Hex candidates = .ok () ↔
      ∀ candidate ∈ candidates, bodyCredentialShape serde candidate.1.body = none ∧
        Accepted serde sha256Hex candidate.1 := by
  induction candidates with
  | nil => exact iff_of_true rfl nofun
  | cons candidate candidates ih =>
    rw [checkCandidates, except_bind_ok, List.forall_mem_cons, ← check_candidate_ok, ← ih]
    constructor
    · rintro ⟨_, hfirst, hrest⟩
      exact ⟨hfirst, hrest⟩
    · rintro ⟨hfirst, hrest⟩
      exact ⟨(), hfirst, hrest⟩

theorem refuse_write_ok (refused : Bool) (error : ReplayStoreWriteError) (u : Unit) :
    refuseWrite refused error = .ok u ↔ refused = false := by
  cases refused with
  | true => exact iff_of_false nofun nofun
  | false => exact iff_of_true rfl rfl

/-- The newest session recordings pass the checks of the writer. -/
def Clean (recordings : List ReplayRecording) : Prop :=
  ∀ recording ∈ newestPersistable recordings,
    bodyCredentialShape serde recording.body = none ∧ Accepted serde sha256Hex recording

theorem checked_clean (recordings : List ReplayRecording) :
    checkCandidates serde sha256Hex (currentCandidates recordings) = .ok () ↔
      Clean serde sha256Hex recordings := by
  rw [check_candidates_ok, Clean, ← candidates_newest]
  simp only [List.forall_mem_map]

/-- The recordings that a write keeps, as they were given to it. -/
def chosen (prior recordings : List ReplayRecording) : List ReplayRecording :=
  keepNewest [] 0 ((newestPersistable recordings).reverse ++ prior.reverse)

theorem chosen_longest (prior recordings : List ReplayRecording) :
    Suffix.Longest Fits (prior ++ newestPersistable recordings) (chosen prior recordings) :=
  kept_longest prior (newestPersistable recordings)

theorem fits_canonical {recordings : List ReplayRecording} (h : Fits recordings) :
    Fits (recordings.map canonicalRecording) := by
  rw [Fits, List.length_map, bodyBytesOf, List.map_map]
  exact h

theorem newest_subset (recordings : List ReplayRecording) :
    ∀ recording ∈ newestPersistable recordings, recording ∈ recordings := by
  intro recording hmem
  have htaken := List.mem_of_mem_take (List.mem_reverse.mp hmem)
  exact List.mem_reverse.mp (List.mem_filter.mp htaken).1

theorem chosen_words {prior recordings : List ReplayRecording}
    (hwords : ∀ recording ∈ prior ++ recordings, WordSized recording) :
    ∀ recording ∈ (chosen prior recordings).map canonicalRecording, WordSized recording := by
  intro recording hmem
  obtain ⟨given, hgiven, rfl⟩ := List.mem_map.mp hmem
  show WordSized given
  apply hwords
  rcases List.mem_append.mp ((chosen_longest prior recordings).suffix.subset hgiven) with hold | hnew
  · exact List.mem_append_left _ hold
  · exact List.mem_append_right _ (newest_subset recordings given hnew)

theorem chosen_storable {prior recordings : List ReplayRecording}
    (hprior : ∀ recording ∈ prior, Storable serde sha256Hex recording)
    (hclean : Clean serde sha256Hex recordings) :
    ∀ recording ∈ (chosen prior recordings).map canonicalRecording,
      Storable serde sha256Hex recording := by
  intro recording hmem
  obtain ⟨given, hgiven, rfl⟩ := List.mem_map.mp hmem
  rcases List.mem_append.mp ((chosen_longest prior recordings).suffix.subset hgiven) with hold | hnew
  · rw [(hprior given hold).canonical]
    exact hprior given hold
  · exact storable_canonical serde sha256Hex (hclean given hnew).2 (hclean given hnew).1

theorem prepare_ok {file : StoreFile} {prior recordings : List ReplayRecording}
    (hprior : existingRecordings serde sha256Hex file = .ok prior) (kept : List ReplayRecording)
    (text : Text) :
    prepareStore serde sha256Hex file recordings = .ok (kept, text) ↔
      Clean serde sha256Hex recordings ∧
        ((chosen prior recordings = [] → newestPersistable recordings = []) ∧
          kept = (chosen prior recordings).map canonicalRecording ∧
          text = serializedStore serde sha256Hex kept ∧
          Text.utf8Len text ≤ replayStoreMaxFileBytes) := by
  have hempty : (currentCandidates recordings).isEmpty = true ↔
      newestPersistable recordings = [] := by
    rw [← candidates_newest, List.map_eq_nil_iff, List.isEmpty_iff]
  have hbounds := fits_bounds (chosen_longest prior recordings).holds
  simp only [prepareStore, except_bind_ok, refuse_write_ok, candidates_newest, hprior,
    map_error_ok, Except.ok.injEq, Prod.mk.injEq]
  constructor
  · rintro ⟨_, hchecked, _, rfl, _, hkept, _, -, _, hsize, rfl, rfl⟩
    refine ⟨(checked_clean serde sha256Hex recordings).mp hchecked, ?_, rfl, rfl, ?_⟩
    · intro hnil
      rw [← hempty]
      rw [chosen] at hnil
      simpa [hnil] using hkept
    · simpa using hsize
  · rintro ⟨hclean, hkept, rfl, rfl, hsize⟩
    refine ⟨(), (checked_clean serde sha256Hex recordings).mpr hclean, prior, rfl, (), ?_, (),
      hbounds, (), ?_, rfl, rfl⟩
    · by_cases hnil : chosen prior recordings = []
      · have hcandidates := hempty.mpr (hkept hnil)
        rw [hcandidates]
        exact Bool.and_false _
      · have hfull : (chosen prior recordings).isEmpty = false := by simpa using hnil
        rw [chosen] at hfull
        rw [hfull]
        rfl
    · exact decide_eq_false (Nat.not_lt.mpr hsize)

/-- A successful write is read back as the longest fitting suffix, and a refused one changes
nothing. -/
structure RoundTrips (file : StoreFile) (prior recordings : List ReplayRecording)
    (result : StoreFile × Except ReplayStoreWriteError ℕ) : Prop where
  stored : ∀ n, result.2 = .ok n → ∃ kept,
    Suffix.Longest Fits (prior ++ newestPersistable recordings) kept ∧
      loadReplayStore serde sha256Hex result.1 = .ok (kept.map canonicalRecording) ∧
      kept.length = n
  refused : ∀ error, result.2 = .error error → result.1 = file

theorem write_round_trips (hserde : ReadsBack serde) (commit : Except Text Unit)
    (file : StoreFile) (prior recordings : List ReplayRecording)
    (hprior : Trusted serde sha256Hex file prior)
    (hwords : ∀ recording ∈ prior ++ recordings, WordSized recording) :
    RoundTrips serde sha256Hex file prior recordings
      (writeReplayStore serde sha256Hex commit file recordings) := by
  unfold writeReplayStore
  split
  · rename_i error herror
    exact ⟨nofun, fun _ _ => rfl⟩
  · rename_i kept text hprepared
    split
    · exact ⟨nofun, fun _ _ => rfl⟩
    · obtain ⟨hclean, -, rfl, rfl, hsize⟩ := (prepare_ok serde sha256Hex
        (trusted_existing serde sha256Hex hprior) kept text).mp hprepared
      have hlongest := chosen_longest prior recordings
      refine ⟨?_, nofun⟩
      intro n hn
      refine ⟨chosen prior recordings, hlongest, ?_, ?_⟩
      · exact load_written serde sha256Hex hserde (chosen_words hwords)
          (chosen_storable serde sha256Hex (trusted_storable serde sha256Hex hprior) hclean)
          (fits_canonical hlongest.holds) hsize
      · rw [← Except.ok.inj hn, List.length_map]

end Writes

/-- The digests of the one-letter response, of the stores below and of the one that holds only the
response. -/
def sampleSha256 (text : Text) : Text :=
  if text = fillerBody 1 then
    "047b9b3abdbe498903bbb2afb385eea8e60c6ae353eaed6831ba3896e80ab76f".toList
  else if text[243]? = some '0' then
    "d35ab9d198ef3917091afd1fb5ebbb6f23ff53eea5174aa69b05aace66a07a91".toList
  else if text[243]? = some '1' then
    "9c508a43fea37cc0aea8b8e7ed886d8d924f7762cc29aec03771e3d1714b5f09".toList
  else "3472357f4e93810cc99fc5a95eac961df36b694531c2ba99f97eadc24bc45983".toList

def sampleRecording : ReplayRecording := textRecording sampleSha256 1

theorem sample_hashed : Hashed sampleSha256 1 := by
  constructor
  · decide
  · decide

theorem sample_words : WordSized sampleRecording := by decide

/-- The response at some time, with the tokens that it used and the request that it answered. -/
def observedRecording (time : ℕ) : ReplayRecording :=
  { sampleRecording with
    identity := { sampleRecording.identity with
      observedAtMs := some time, inputTokens := some 12, outputTokens := some 1 }
    requestSha256 := some (List.replicate 64 'b') }

/-- The recordings of a store that can hold no more, the oldest first. -/
def fullStore : List ReplayRecording :=
  observedRecording 0 :: List.replicate 63 (observedRecording 1)

/-- What a write of a later recording leaves of them. -/
def evictedStore : List ReplayRecording :=
  List.replicate 63 (observedRecording 1) ++ [observedRecording 2]

noncomputable def fullFile : StoreFile :=
  .regular (bytesOf (serializedStore plainSerde sampleSha256 fullStore)).toByteArray

theorem observed_storable (time : ℕ) :
    Storable plainSerde sampleSha256 (observedRecording time) where
  canonical := rfl
  accepted := { text_recording_accepted sampleSha256 sample_hashed (by decide) with request := rfl }
  clean := filler_clean 0

theorem observed_words : ∀ time < 3, WordSized (observedRecording time) := by decide

theorem full_observed {recording : ReplayRecording} (h : recording ∈ fullStore) :
    ∃ time < 3, recording = observedRecording time := by
  rcases List.mem_cons.mp h with rfl | hlater
  · exact ⟨0, by decide, rfl⟩
  · exact ⟨1, by decide, List.eq_of_mem_replicate hlater⟩

theorem entries_length {values : List Value} (first : Bool) {bound : ℕ}
    (h : ∀ value ∈ values, (writeValue value).length < bound) :
    (writeEntries first (canonicalValues values)).length ≤ values.length * bound := by
  induction values generalizing first with
  | nil => exact Nat.zero_le _
  | cons value values ih =>
    obtain ⟨hvalue, hvalues⟩ := List.forall_mem_cons.mp h
    have hseparator : (separator first).length ≤ 1 := by
      cases first with
      | true => decide
      | false => decide
    have hrest := ih false hvalues
    rw [writeValue] at hvalue
    rw [canonicalValues, writeEntries, List.length_append, List.length_append, List.length_cons,
      Nat.succ_mul]
    omega

theorem utf8_len_le (text : Text) : Text.utf8Len text ≤ 4 * text.length := by
  induction text with
  | nil => exact Nat.zero_le _
  | cons c text ih =>
    have hsize := c.utf8Size_le_four
    rw [Text.utf8Len_cons, List.length_cons]
    omega

theorem sample_digest_length (text : Text) : (jsonEscape (sampleSha256 text)).length = 66 := by
  unfold sampleSha256
  split_ifs
  · decide
  · decide
  · decide
  · decide

/-- The document of a full store is far below the bound. -/
theorem observed_document {recordings : List ReplayRecording} (hlength : recordings.length = 64)
    (h : ∀ recording ∈ recordings, ∃ time < 3, recording = observedRecording time) :
    Text.utf8Len (serializedStore plainSerde sampleSha256 recordings) ≤ replayStoreMaxFileBytes := by
  have hentry : ∀ usage binding, ∀ time < 3, (writeValue
      (recordingValue usage binding (observedRecording time))).length < 1000 := by
    decide +kernel
  have hentries : (writeEntries true (canonicalValues (recordings.map (recordingValue
      (hasUsage recordings) (hasRequestBinding recordings))))).length ≤ 64 * 1000 := by
    refine (@entries_length _ true 1000 ?_).trans_eq (by rw [List.length_map, hlength])
    intro value hvalue
    obtain ⟨recording, hmem, rfl⟩ := List.mem_map.mp hvalue
    obtain ⟨time, htime, rfl⟩ := h recording hmem
    exact hentry _ _ time htime
  have hdigest : (jsonEscape (computeReplayStoreDigest sampleSha256 recordings)).length = 66 := by
    unfold computeReplayStoreDigest artifactDigestHex
    exact sample_digest_length _
  have hkeys : (jsonEscape "digest".toList).length = 8 ∧
      (jsonEscape "recordings".toList).length = 12 ∧ (jsonEscape "version".toList).length = 9 ∧
      (Text.ofNat replayStoreVersion).length = 1 ∧ (separator true).length = 0 ∧
      (separator false).length = 1 := by
    decide
  have hdocument : (serializedStore plainSerde sampleSha256 recordings).length ≤ 65000 := by
    show (writeValue (documentValue _ recordings)).length ≤ 65000
    simp only [writeValue, documentValue, canonicalOf, canonicalFields, toCanonical, writeFields,
      List.length_append, List.length_cons, List.length_nil, hdigest, hkeys]
    omega
  have hmax : replayStoreMaxFileBytes = 2097152 := rfl
  have hbytes := utf8_len_le (serializedStore plainSerde sampleSha256 recordings)
  omega

theorem full_trusted : Trusted plainSerde sampleSha256 fullFile fullStore := by
  right
  apply load_written plainSerde sampleSha256 documents_read_back
  · intro recording hmem
    obtain ⟨time, htime, rfl⟩ := full_observed hmem
    exact observed_words time htime
  · intro recording hmem
    obtain ⟨time, -, rfl⟩ := full_observed hmem
    exact observed_storable time
  · constructor
    · decide
    · decide +kernel
  · exact observed_document (by decide) fun _ hmem => full_observed hmem

theorem evicted_written : (writeReplayStore plainSerde sampleSha256 (.ok ()) fullFile
    [observedRecording 2]).2 = .ok 64 := by
  have hchosen : chosen fullStore [observedRecording 2] = evictedStore := by decide +kernel
  have hcanonical : evictedStore.map canonicalRecording = evictedStore := by decide +kernel
  have hprepared : prepareStore plainSerde sampleSha256 fullFile [observedRecording 2] =
      .ok (evictedStore, serializedStore plainSerde sampleSha256 evictedStore) := by
    rw [prepare_ok plainSerde sampleSha256 (trusted_existing plainSerde sampleSha256 full_trusted),
      hchosen, hcanonical]
    refine ⟨?_, nofun, rfl, rfl, ?_⟩
    · intro recording hmem
      have hone : newestPersistable [observedRecording 2] = [observedRecording 2] := by decide
      rw [hone, List.mem_singleton] at hmem
      subst hmem
      exact ⟨(observed_storable 2).clean, (observed_storable 2).accepted⟩
    · apply observed_document (by decide)
      intro recording hmem
      rcases List.mem_append.mp hmem with hold | hnew
      · exact ⟨1, by decide, List.eq_of_mem_replicate hold⟩
      · exact ⟨2, by decide, List.mem_singleton.mp hnew⟩
  rw [writeReplayStore, hprepared]
  rfl

/-- The oldest recording of a full store makes room. -/
theorem write_round_trips_sample :
    RoundTrips plainSerde sampleSha256 fullFile fullStore [observedRecording 2]
        (writeReplayStore plainSerde sampleSha256 (.ok ()) fullFile [observedRecording 2]) ∧
      (writeReplayStore plainSerde sampleSha256 (.ok ()) fullFile [observedRecording 2]).2 =
        .ok 64 := by
  refine ⟨write_round_trips plainSerde sampleSha256 documents_read_back (.ok ()) fullFile fullStore
    [observedRecording 2] full_trusted ?_, evicted_written⟩
  intro recording hmem
  rcases List.mem_append.mp hmem with hold | hnew
  · obtain ⟨time, htime, rfl⟩ := full_observed hold
    exact observed_words time htime
  · rw [List.mem_singleton.mp hnew]
    exact observed_words 2 (by decide)

end Siralos.ReplayStore
