import Mathlib.Algebra.BigOperators.Group.List.Basic
import Siralos.Recorder

/-!
# The accounts of the recorder

The two lists are one list of classified entries. Each operation edits that list in one way, and
the counters are its counts.
-/

set_option autoImplicit false

namespace Siralos.Determinism

abbrev Entry := ReplayRecording × Bool

def isReplay (entry : Entry) : Bool := !entry.2

def isEvidence (entry : Entry) : Bool := entry.2

def isPending (identity : ProviderResponseIdentity) (entry : Entry) : Bool :=
  !entry.2 && isIdentityOnly identity entry.1

def isFailed (identity : ProviderResponseIdentity) (entry : Entry) : Bool :=
  entry.2 && isIdentityOnly identity entry.1

def bytesWhere (p : Entry → Bool) (entries : List Entry) : ℕ :=
  ((entries.filter p).map fun entry => entry.1.bodyLen).sum

def replayable (entries : List Entry) : List ReplayRecording :=
  ((entries.filter isReplay).map Prod.fst).filter fun recording => !recording.body.isEmpty

namespace RetainingReplayRecorder

def entries (recorder : RetainingReplayRecorder) : List Entry :=
  recorder.records.zip recorder.recordIsEvidence

/-- Alignment, the four accounts and the four budgets. -/
structure Accounted (recorder : RetainingReplayRecorder) : Prop where
  aligned : recorder.records.length = recorder.recordIsEvidence.length
  replayCount : recorder.replayRecordCount = recorder.entries.countP isReplay
  evidenceCount : recorder.evidenceRecordCount = recorder.entries.countP isEvidence
  replayBytes : recorder.totalBodyBytes = bytesWhere isReplay recorder.entries
  evidenceBytes : recorder.evidenceTotalBodyBytes = bytesWhere isEvidence recorder.entries
  replayRoom : recorder.replayRecordCount ≤ maxRetainedReplayRecordings
  evidenceRoom : recorder.evidenceRecordCount ≤ maxRetainedEvidenceRecords
  replayBudget : recorder.totalBodyBytes ≤ maxRetainedReplayTotalBytes
  evidenceBudget : recorder.evidenceTotalBodyBytes ≤ maxRetainedEvidenceTotalBytes

end RetainingReplayRecorder

section Edits

variable (identity : ProviderResponseIdentity) (entries : List Entry)

def markFailed (entry : Entry) : Entry := if isPending identity entry then (entry.1, true) else entry

theorem identity_only_body {recording : ReplayRecording}
    (h : isIdentityOnly identity recording = true) : recording = identityOnly identity := by
  simp only [isIdentityOnly, Bool.and_eq_true, beq_iff_eq, List.isEmpty_iff,
    Option.isNone_iff_eq_none] at h
  obtain ⟨⟨hidentity, hbody⟩, hrequest⟩ := h
  rw [identityOnly, ← hidentity, ← hbody, ← hrequest]

theorem pending_body {entry : Entry} (h : isPending identity entry = true) :
    entry = (identityOnly identity, false) := by
  simp only [isPending, Bool.and_eq_true, Bool.not_eq_true'] at h
  rw [← identity_only_body identity h.2, ← h.1]

theorem bytes_append (p : Entry → Bool) (xs ys : List Entry) :
    bytesWhere p (xs ++ ys) = bytesWhere p xs + bytesWhere p ys := by
  rw [bytesWhere, List.filter_append, List.map_append, List.sum_append]
  rfl

theorem bytes_cons (p : Entry → Bool) (entry : Entry) (entries : List Entry) :
    bytesWhere p (entry :: entries) = (if p entry then entry.1.bodyLen else 0) +
      bytesWhere p entries := by
  rw [bytesWhere, List.filter_cons]
  by_cases h : p entry = true
  · rw [if_pos h, if_pos h, List.map_cons, List.sum_cons]
    rfl
  · rw [if_neg h, if_neg h, Nat.zero_add]
    rfl

theorem replayable_append (xs ys : List Entry) :
    replayable (xs ++ ys) = replayable xs ++ replayable ys := by
  rw [replayable, List.filter_append, List.map_append, List.filter_append]
  rfl

theorem replayable_cons (entry : Entry) (entries : List Entry) :
    replayable (entry :: entries) =
      (if isReplay entry = true ∧ entry.1.body ≠ [] then [entry.1] else []) ++
        replayable entries := by
  rw [replayable, List.filter_cons]
  by_cases hreplay : isReplay entry = true
  · rw [if_pos hreplay, List.map_cons, List.filter_cons]
    by_cases hbody : entry.1.body = []
    · rw [if_neg (by simp [hbody]), if_neg (fun h => h.2 hbody)]
      rfl
    · rw [if_pos (by simpa using hbody), if_pos ⟨hreplay, hbody⟩]
      rfl
  · rw [if_neg hreplay, if_neg (fun h => hreplay h.1)]
    rfl

theorem discarded (entries : List Entry) :
    let kept := entries.filter fun entry => !isPending identity entry
    kept.countP isReplay + entries.countP (isPending identity) = entries.countP isReplay ∧
      kept.countP isEvidence = entries.countP isEvidence ∧
      bytesWhere isReplay kept = bytesWhere isReplay entries ∧
      bytesWhere isEvidence kept = bytesWhere isEvidence entries ∧
      replayable kept = replayable entries := by
  induction entries with
  | nil => exact ⟨rfl, rfl, rfl, rfl, rfl⟩
  | cons entry entries ih =>
    obtain ⟨hreplay, hevidence, hbytes, hbytes', hreplayable⟩ := ih
    dsimp only
    rw [List.filter_cons]
    by_cases hp : isPending identity entry = true
    · have hentry := pending_body identity hp
      rw [if_neg (by simp [hp]), List.countP_cons_of_pos hp, bytes_cons, bytes_cons,
        replayable_cons, hevidence, hbytes, hbytes', hreplayable]
      subst hentry
      refine ⟨?_, rfl, ?_, ?_, rfl⟩
      · rw [List.countP_cons_of_pos rfl]
        omega
      · exact (Nat.zero_add _).symm
      · exact (Nat.zero_add _).symm
    · rw [if_pos (by simpa using hp), List.countP_cons, List.countP_cons, List.countP_cons,
        List.countP_cons, List.countP_cons, if_neg hp, bytes_cons, bytes_cons, replayable_cons,
        bytes_cons, bytes_cons, replayable_cons, hevidence, hbytes, hbytes', hreplayable]
      refine ⟨?_, rfl, rfl, rfl, rfl⟩
      omega

theorem reclassified (entries : List Entry) :
    let marked := entries.map (markFailed identity)
    marked.countP isReplay + entries.countP (isPending identity) = entries.countP isReplay ∧
      marked.countP isEvidence = entries.countP isEvidence + entries.countP (isPending identity) ∧
      bytesWhere isReplay marked = bytesWhere isReplay entries ∧
      bytesWhere isEvidence marked = bytesWhere isEvidence entries ∧
      replayable marked = replayable entries := by
  induction entries with
  | nil => exact ⟨rfl, rfl, rfl, rfl, rfl⟩
  | cons entry entries ih =>
    obtain ⟨hreplay, hevidence, hbytes, hbytes', hreplayable⟩ := ih
    dsimp only
    rw [List.map_cons, bytes_cons, bytes_cons, bytes_cons, bytes_cons, replayable_cons,
      replayable_cons, hbytes, hbytes', hreplayable, List.countP_cons, List.countP_cons,
      List.countP_cons, List.countP_cons, List.countP_cons, markFailed]
    by_cases hp : isPending identity entry = true
    · have hentry := pending_body identity hp
      rw [if_pos hp, if_pos hp]
      subst hentry
      refine ⟨?_, ?_, rfl, rfl, rfl⟩
      · show _ + 0 + _ = _ + 1
        omega
      · show _ + 1 = _ + 0 + _
        omega
    · rw [if_neg hp, if_neg hp]
      refine ⟨?_, ?_, rfl, rfl, rfl⟩
      · omega
      · omega

end Edits

namespace RetainingReplayRecorder

section Entries

variable (identity : ProviderResponseIdentity) {recorder : RetainingReplayRecorder}
  (h : recorder.records.length = recorder.recordIsEvidence.length)

include h

theorem records_entries : recorder.records = recorder.entries.map Prod.fst :=
  (List.map_fst_zip h.le).symm

theorem evidence_entries : recorder.recordIsEvidence = recorder.entries.map Prod.snd :=
  (List.map_snd_zip h.ge).symm

theorem indices_entries (p : ReplayRecording → Bool → Bool) :
    (recorder.records.zipIdx.filter fun entry =>
        p entry.1 (recorder.evidenceAt entry.2)).map Prod.snd =
      Marks.indicesOf (recorder.entries.map fun entry => p entry.1 entry.2) := by
  have henumerated := Marks.enumerated p recorder.entries 0
  rw [← records_entries h, ← evidence_entries h] at henumerated
  simpa [evidenceAt] using henumerated

theorem placeholder_indices : recorder.identityPlaceholderIndices identity =
    Marks.indicesOf (recorder.entries.map (isPending identity)) :=
  indices_entries h fun recording evidence => !evidence && isIdentityOnly identity recording

theorem placeholder_count : (recorder.identityPlaceholderIndices identity).length =
    recorder.entries.countP (isPending identity) := by
  rw [placeholder_indices identity h, Marks.indices_length]

theorem push_aligned (recording : ReplayRecording) (evidence : Bool) :
    (recorder.push recording evidence).records.length =
      (recorder.push recording evidence).recordIsEvidence.length := by
  rw [push, List.length_append, List.length_append, h]
  rfl

theorem push_entries (recording : ReplayRecording) (evidence : Bool) :
    (recorder.push recording evidence).entries = recorder.entries ++ [(recording, evidence)] :=
  List.zip_append h

theorem awaiting_entries (hlast : recorder.lastAwaits identity = true) :
    recorder.entries = recorder.entries.dropLast ++ [(identityOnly identity, false)] := by
  simp only [lastAwaits, Bool.and_eq_true, Bool.not_eq_true', Option.any_eq_true] at hlast
  obtain ⟨hevidence, recording, hrecording, honly⟩ := hlast
  have hentries : recorder.entries ≠ [] := by
    intro hnil
    rw [records_entries h, hnil] at hrecording
    cases hrecording
  have hfst : (recorder.entries.getLast hentries).1 = identityOnly identity := by
    rw [records_entries h, List.getLast?_map, List.getLast?_eq_getLast_of_ne_nil hentries]
      at hrecording
    rw [← identity_only_body identity honly]
    exact Option.some.inj hrecording
  have hsnd : (recorder.entries.getLast hentries).2 = false := by
    rw [evidence_entries h, List.getLast?_map, List.getLast?_eq_getLast_of_ne_nil hentries]
      at hevidence
    exact hevidence
  conv_lhs => rw [← List.dropLast_append_getLast hentries]
  rw [← hfst, ← hsnd]

end Entries

section Operations

variable (identity : ProviderResponseIdentity) {recorder : RetainingReplayRecorder}

theorem flagged_accounted (flag : Bool) (ha : recorder.Accounted) :
    ({ recorder with saturated := flag } : RetainingReplayRecorder).Accounted :=
  ⟨ha.aligned, ha.replayCount, ha.evidenceCount, ha.replayBytes, ha.evidenceBytes, ha.replayRoom,
    ha.evidenceRoom, ha.replayBudget, ha.evidenceBudget⟩

theorem refreshed (recorder : RetainingReplayRecorder) : ∃ flag,
    recorder.refreshSaturation = { recorder with saturated := flag } := by
  unfold refreshSaturation
  split
  · exact ⟨false, rfl⟩
  · exact ⟨recorder.saturated, rfl⟩

/-- Accounts kept, and the same recordings replayable. -/
structure Keeps (recorder recorder' : RetainingReplayRecorder) : Prop where
  accounted : recorder'.Accounted
  replayable : replayable recorder'.entries = replayable recorder.entries

theorem keeps_refl (ha : recorder.Accounted) : Keeps recorder recorder := ⟨ha, rfl⟩

theorem keeps_refreshed {recorder' : RetainingReplayRecorder} (hk : Keeps recorder recorder') :
    Keeps recorder recorder'.refreshSaturation := by
  obtain ⟨flag, hflag⟩ := refreshed recorder'
  rw [hflag]
  exact ⟨flagged_accounted flag hk.accounted, hk.replayable⟩

theorem discard_keeps (ha : recorder.Accounted) :
    Keeps recorder (recorder.discardIdentityPlaceholders identity).1 := by
  unfold discardIdentityPlaceholders
  dsimp only
  split
  · exact keeps_refl ha
  · obtain ⟨hreplay, hevidence, hbytes, hbytes', hreplayable⟩ :=
      discarded identity recorder.entries
    have hrecords : (recorder.identityPlaceholderIndices identity).reverse.foldl List.eraseIdx
        recorder.records =
        (recorder.entries.filter fun entry => !isPending identity entry).map Prod.fst := by
      rw [placeholder_indices identity ha.aligned, records_entries ha.aligned, Marks.erase_marked]
    have hflags : (recorder.identityPlaceholderIndices identity).reverse.foldl List.eraseIdx
        recorder.recordIsEvidence =
        (recorder.entries.filter fun entry => !isPending identity entry).map Prod.snd := by
      rw [placeholder_indices identity ha.aligned, evidence_entries ha.aligned, Marks.erase_marked]
    have hcount := placeholder_count identity ha.aligned
    have hroom := ha.replayRoom
    have hcounted := ha.replayCount
    apply keeps_refreshed
    rw [hrecords, hflags]
    have hentries : ((recorder.entries.filter fun entry => !isPending identity entry).map
        Prod.fst).zip ((recorder.entries.filter fun entry => !isPending identity entry).map
          Prod.snd) = recorder.entries.filter fun entry => !isPending identity entry := by
      rw [List.zip_map', List.map_id']
    refine ⟨⟨?_, ?_, ?_, ?_, ?_, ?_, ha.evidenceRoom, ha.replayBudget, ha.evidenceBudget⟩, ?_⟩
    · show (List.map _ _).length = (List.map _ _).length
      rw [List.length_map, List.length_map]
    · show recorder.replayRecordCount - _ = List.countP _ (List.zip _ _)
      rw [hentries, hcount]
      omega
    · show recorder.evidenceRecordCount = List.countP _ (List.zip _ _)
      rw [hentries, hevidence, ha.evidenceCount]
    · show recorder.totalBodyBytes = bytesWhere _ (List.zip _ _)
      rw [hentries, hbytes, ha.replayBytes]
    · show recorder.evidenceTotalBodyBytes = bytesWhere _ (List.zip _ _)
      rw [hentries, hbytes', ha.evidenceBytes]
    · show recorder.replayRecordCount - _ ≤ _
      omega
    · show Determinism.replayable (List.zip _ _) = _
      rw [hentries, hreplayable]

theorem reclassify_keeps (ha : recorder.Accounted)
    (hroom : recorder.evidenceRecordCount + (recorder.identityPlaceholderIndices identity).length ≤
      maxRetainedEvidenceRecords) :
    Keeps recorder
      (recorder.reclassifyPlaceholders (recorder.identityPlaceholderIndices identity)) := by
  obtain ⟨hreplay, hevidence, hbytes, hbytes', hreplayable⟩ :=
    reclassified identity recorder.entries
  have hflags : (recorder.identityPlaceholderIndices identity).foldl
      (fun evidence index => evidence.set index true) recorder.recordIsEvidence =
      (recorder.entries.map (markFailed identity)).map Prod.snd := by
    rw [placeholder_indices identity ha.aligned, evidence_entries ha.aligned, Marks.set_marked,
      List.map_map]
    apply List.map_congr_left
    intro entry _
    show _ = (markFailed identity entry).2
    unfold markFailed
    by_cases hp : isPending identity entry = true
    · rw [if_pos hp, if_pos hp]
    · rw [if_neg hp, if_neg hp]
  have hrecords : recorder.records = (recorder.entries.map (markFailed identity)).map Prod.fst := by
    rw [List.map_map]
    conv_lhs => rw [records_entries ha.aligned]
    apply List.map_congr_left
    intro entry _
    show _ = (markFailed identity entry).1
    unfold markFailed
    split
    · rfl
    · rfl
  have hentries : recorder.records.zip ((recorder.entries.map (markFailed identity)).map
      Prod.snd) = recorder.entries.map (markFailed identity) := by
    rw [hrecords, List.zip_map', List.map_id']
  have hcount := placeholder_count identity ha.aligned
  have hbound := ha.replayRoom
  have hcounted := ha.replayCount
  have hcounted' := ha.evidenceCount
  apply keeps_refreshed
  rw [hflags]
  refine ⟨⟨?_, ?_, ?_, ?_, ?_, ?_, hroom, ha.replayBudget, ha.evidenceBudget⟩, ?_⟩
  · show recorder.records.length = (List.map _ _).length
    rw [List.length_map, ← List.length_map (f := Prod.fst), ← hrecords]
  · show recorder.replayRecordCount - _ = List.countP _ (List.zip _ _)
    rw [hentries, hcount]
    omega
  · show recorder.evidenceRecordCount + _ = List.countP _ (List.zip _ _)
    rw [hentries, hcount]
    omega
  · show recorder.totalBodyBytes = bytesWhere _ (List.zip _ _)
    rw [hentries, hbytes, ha.replayBytes]
  · show recorder.evidenceTotalBodyBytes = bytesWhere _ (List.zip _ _)
    rw [hentries, hbytes', ha.evidenceBytes]
  · show recorder.replayRecordCount - _ ≤ _
    omega
  · show Determinism.replayable (List.zip _ _) = _
    rw [hentries, hreplayable]

theorem evidence_pushed (ha : recorder.Accounted) (recording : ReplayRecording)
    (hroom : recorder.evidenceRecordCount < maxRetainedEvidenceRecords)
    (hbytes : recorder.evidenceTotalBodyBytes + recording.bodyLen ≤ maxRetainedEvidenceTotalBytes) :
    Keeps recorder
      { recorder.push recording true with
        evidenceRecordCount := recorder.evidenceRecordCount + 1
        evidenceTotalBodyBytes := recorder.evidenceTotalBodyBytes + recording.bodyLen } := by
  have hentries := push_entries ha.aligned recording true
  have hcount := ha.evidenceCount
  refine ⟨⟨push_aligned ha.aligned recording true, ?_, ?_, ?_, ?_, ha.replayRoom, hroom,
    ha.replayBudget, hbytes⟩, ?_⟩
  · show recorder.replayRecordCount = (recorder.push recording true).entries.countP isReplay
    rw [hentries, List.countP_append, ha.replayCount]
    rfl
  · show recorder.evidenceRecordCount + 1 = (recorder.push recording true).entries.countP isEvidence
    rw [hentries, List.countP_append, hcount]
    rfl
  · show recorder.totalBodyBytes = bytesWhere isReplay (recorder.push recording true).entries
    rw [hentries, bytes_append, ha.replayBytes]
    rfl
  · show recorder.evidenceTotalBodyBytes + recording.bodyLen =
      bytesWhere isEvidence (recorder.push recording true).entries
    rw [hentries, bytes_append, ha.evidenceBytes]
    rfl
  · show Determinism.replayable (recorder.push recording true).entries = _
    rw [hentries, replayable_append]
    exact List.append_nil _

theorem replay_pushed (ha : recorder.Accounted) (recording : ReplayRecording)
    (hroom : recorder.replayRecordCount < maxRetainedReplayRecordings)
    (hbytes : recorder.totalBodyBytes + recording.bodyLen ≤ maxRetainedReplayTotalBytes) :
    let recorder' := { recorder.push recording false with
      replayRecordCount := recorder.replayRecordCount + 1
      totalBodyBytes := recorder.totalBodyBytes + recording.bodyLen }
    recorder'.Accounted ∧ replayable recorder'.entries =
      replayable recorder.entries ++ replayable [(recording, false)] := by
  have hentries := push_entries ha.aligned recording false
  have hcount := ha.replayCount
  refine ⟨⟨push_aligned ha.aligned recording false, ?_, ?_, ?_, ?_, hroom, ha.evidenceRoom,
    hbytes, ha.evidenceBudget⟩, ?_⟩
  · show recorder.replayRecordCount + 1 = (recorder.push recording false).entries.countP isReplay
    rw [hentries, List.countP_append, hcount]
    rfl
  · show recorder.evidenceRecordCount = (recorder.push recording false).entries.countP isEvidence
    rw [hentries, List.countP_append, ha.evidenceCount]
    rfl
  · show recorder.totalBodyBytes + recording.bodyLen =
      bytesWhere isReplay (recorder.push recording false).entries
    rw [hentries, bytes_append, ha.replayBytes]
    rfl
  · show recorder.evidenceTotalBodyBytes =
      bytesWhere isEvidence (recorder.push recording false).entries
    rw [hentries, bytes_append, ha.evidenceBytes]
    rfl
  · show Determinism.replayable (recorder.push recording false).entries = _
    rw [hentries, replayable_append]

theorem last_filled (ha : recorder.Accounted) (body : Text) (requestSha256 : Option Text)
    (hlast : recorder.lastAwaits identity = true)
    (hbytes : recorder.totalBodyBytes + Text.utf8Len body ≤ maxRetainedReplayTotalBytes) :
    let recorder' := recorder.fillLast identity body requestSha256
    recorder'.Accounted ∧ replayable recorder'.entries =
      replayable recorder.entries ++ replayable [(⟨identity, body, requestSha256⟩, false)] := by
  have hsplit := awaiting_entries identity ha.aligned hlast
  obtain ⟨before, hbefore⟩ : ∃ before, recorder.entries = before ++ [(identityOnly identity, false)] :=
    ⟨_, hsplit⟩
  have hrecords : recorder.records = before.map Prod.fst ++ [identityOnly identity] := by
    rw [records_entries ha.aligned, hbefore, List.map_append]
    rfl
  have hflags : recorder.recordIsEvidence = before.map Prod.snd ++ [false] := by
    rw [evidence_entries ha.aligned, hbefore, List.map_append]
    rfl
  have hentries : (recorder.fillLast identity body requestSha256).entries =
      before ++ [(⟨identity, body, requestSha256⟩, false)] := by
    show (recorder.records.dropLast ++ [_]).zip recorder.recordIsEvidence = _
    rw [hrecords, hflags, List.dropLast_concat, List.zip_append (by simp), List.zip_map',
      List.map_id']
    rfl
  have hempty : (identityOnly identity).bodyLen = 0 := rfl
  refine ⟨⟨?_, ?_, ?_, ?_, ?_, ha.replayRoom, ha.evidenceRoom, hbytes, ha.evidenceBudget⟩, ?_⟩
  · show (recorder.records.dropLast ++ [_]).length = recorder.recordIsEvidence.length
    rw [hrecords, hflags, List.dropLast_concat]
    simp
  · show recorder.replayRecordCount = _
    rw [hentries, ha.replayCount, hbefore, List.countP_append, List.countP_append]
    rfl
  · show recorder.evidenceRecordCount = _
    rw [hentries, ha.evidenceCount, hbefore, List.countP_append, List.countP_append]
    rfl
  · show recorder.totalBodyBytes + Text.utf8Len body = _
    rw [hentries, ha.replayBytes, hbefore, bytes_append, bytes_append]
    rfl
  · show recorder.evidenceTotalBodyBytes = _
    rw [hentries, ha.evidenceBytes, hbefore, bytes_append, bytes_append]
    rfl
  · rw [hentries, hbefore, replayable_append, replayable_append]
    show _ = _ ++ [] ++ _
    rw [List.append_nil]

theorem evidence_identity_keeps (ha : recorder.Accounted) :
    Keeps recorder (recorder.recordEvidenceIdentityOnly identity).1 := by
  unfold recordEvidenceIdentityOnly
  split
  · exact keeps_refl ha
  · dsimp only
    split_ifs with hfailed hpending hroom hfull
    · exact keeps_refl ha
    · exact reclassify_keeps identity ha hroom
    · exact discard_keeps identity ha
    · exact keeps_refl ha
    · exact evidence_pushed ha (identityOnly identity) (by omega) ha.evidenceBudget

theorem saturate_keeps (ha : recorder.Accounted) :
    Keeps recorder (recorder.saturate.recordEvidenceIdentityOnly identity).1 := by
  have hk := @evidence_identity_keeps identity recorder.saturate (flagged_accounted true ha)
  exact ⟨hk.accounted, hk.replayable⟩

theorem identity_keeps (ha : recorder.Accounted) :
    Keeps recorder (recorder.recordIdentityOnly identity).1 := by
  unfold recordIdentityOnly
  split
  · exact keeps_refl ha
  · split_ifs with hsaturated hplaced hfull
    · exact evidence_identity_keeps identity ha
    · exact keeps_refl ha
    · exact saturate_keeps identity ha
    · obtain ⟨haccounted, hreplayable⟩ :=
        replay_pushed ha (identityOnly identity) (by omega) ha.replayBudget
      exact ⟨haccounted, hreplayable.trans (List.append_nil _)⟩

variable (sha256Hex : Text → Text) (body : Text) (requestSha256 : Option Text)

theorem body_valid_ne_nil {identity : ProviderResponseIdentity} {body : Text}
    (h : bodyValid identity sha256Hex body = true) : body ≠ [] := by
  rintro rfl
  cases h

/-- The recording that an accepted body call keeps. -/
def accepted : ReplayRecording := ⟨identity, body, requestSha256.map Text.toAsciiLowercase⟩

theorem accepted_valid (hvalid : identity.validate = .ok ())
    (hrequest : requestDigestInvalid requestSha256 = false)
    (hbody : bodyValid identity sha256Hex body = true) :
    (accepted identity body requestSha256).validate sha256Hex = .ok () := by
  rw [recording_valid]
  have hne := body_valid_ne_nil sha256Hex hbody
  simp only [bodyValid, Bool.and_eq_true, decide_eq_true_eq, beq_iff_eq] at hbody
  obtain ⟨⟨⟨-, hlength⟩, hbytes⟩, hdigest⟩ := hbody
  exact ⟨hvalid, hne, hlength, hbytes.symm, hdigest, request_digest_lower _ hrequest⟩

theorem accepted_replayable (hbody : bodyValid identity sha256Hex body = true) :
    replayable [(accepted identity body requestSha256, false)] =
      [accepted identity body requestSha256] := by
  rw [replayable_cons, if_pos ⟨rfl, body_valid_ne_nil sha256Hex hbody⟩]
  rfl

/-- A body call either keeps the replayable recordings or appends the one it reports. -/
def Retains (recorder : RetainingReplayRecorder) (recording : ReplayRecording)
    (result : RetainingReplayRecorder × Bool) : Prop :=
  result.1.Accounted ∧ replayable result.1.entries =
    replayable recorder.entries ++ if result.2 then [recording] else []

theorem keeps_retains {recording : ReplayRecording} {recorder' : RetainingReplayRecorder}
    (hk : Keeps recorder recorder') : Retains recorder recording (recorder', false) :=
  ⟨hk.accounted, hk.replayable.trans (List.append_nil _).symm⟩

theorem retain_body_retains (ha : recorder.Accounted) :
    Retains recorder (accepted identity body requestSha256)
      (recorder.retainBody identity sha256Hex body requestSha256) := by
  unfold retainBody
  split_ifs with hrefused hbody hsaturated hbytes hlast hfull
  · exact keeps_retains (keeps_refl ha)
  · exact keeps_retains (evidence_identity_keeps identity ha)
  · exact keeps_retains (evidence_identity_keeps identity ha)
  · exact keeps_retains (saturate_keeps identity ha)
  · have hvalid : bodyValid identity sha256Hex body = true := by simpa using hbody
    have hfilled := last_filled identity ha body (requestSha256.map Text.toAsciiLowercase) hlast
      (Nat.not_lt.mp hbytes)
    rw [Retains, if_pos rfl, ← accepted_replayable identity sha256Hex body requestSha256 hvalid]
    exact hfilled
  · exact keeps_retains (saturate_keeps identity ha)
  · have hvalid : bodyValid identity sha256Hex body = true := by simpa using hbody
    have hpushed := replay_pushed ha (accepted identity body requestSha256) (by omega)
      (Nat.not_lt.mp hbytes)
    rw [Retains, if_pos rfl, ← accepted_replayable identity sha256Hex body requestSha256 hvalid]
    exact hpushed

theorem retained_valid
    (h : (recorder.retainBody identity sha256Hex body requestSha256).2 = true) :
    (accepted identity body requestSha256).validate sha256Hex = .ok () := by
  unfold retainBody at h
  split_ifs at h with hrefused hbody hsaturated hbytes hlast hfull
  all_goals
    simp only [Bool.or_eq_true, Bool.not_eq_true', not_or, Bool.not_eq_false,
      Bool.not_eq_true] at hrefused hbody
    exact accepted_valid identity sha256Hex body requestSha256
      ((validate_to_bool identity).mp hrefused.1) hrefused.2 hbody

theorem retain_evidence_keeps (ha : recorder.Accounted) :
    Keeps recorder (recorder.retainEvidenceBody identity sha256Hex body requestSha256).1 := by
  unfold retainEvidenceBody
  split_ifs with hrefused hbody hfull hbytes
  · exact keeps_refl ha
  · exact evidence_identity_keeps identity ha
  · exact keeps_refl ha
  · exact evidence_identity_keeps identity ha
  · exact evidence_pushed ha (accepted identity body requestSha256) (by omega)
      (Nat.not_lt.mp hbytes)

end Operations

end RetainingReplayRecorder

end Siralos.Determinism
