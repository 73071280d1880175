import Siralos.Marks
import Siralos.ReplayIdentity

/-!
# The retaining replay recorder

Replay recordings and terminal evidence share one list in call order; a parallel list tells them
apart, and each kind has its own budget. An identity that was observed without a body holds a
place until its body, or the evidence of its failure, arrives.
-/

set_option autoImplicit false

namespace Siralos.Determinism

structure RetainingReplayRecorder where
  records : List ReplayRecording
  recordIsEvidence : List Bool
  replayRecordCount : ℕ
  totalBodyBytes : ℕ
  evidenceRecordCount : ℕ
  evidenceTotalBodyBytes : ℕ
  saturated : Bool
  deriving DecidableEq, Repr

/-- A response observed without a body and without a request. -/
def isIdentityOnly (identity : ProviderResponseIdentity) (recording : ReplayRecording) : Bool :=
  recording.identity == identity && recording.body.isEmpty && recording.requestSha256.isNone

def identityOnly (identity : ProviderResponseIdentity) : ReplayRecording := ⟨identity, [], none⟩

namespace RetainingReplayRecorder

def new : RetainingReplayRecorder := ⟨[], [], 0, 0, 0, 0, false⟩

section Reads

variable (recorder : RetainingReplayRecorder)

def recordsSnapshot : List ReplayRecording := recorder.records

def replayableRecordsSnapshot : List ReplayRecording :=
  (((recorder.records.zip recorder.recordIsEvidence).filter fun entry => !entry.2).map
    Prod.fst).filter fun recording => !recording.body.isEmpty

def evidenceAt (index : ℕ) : Bool := recorder.recordIsEvidence.getD index false

def hasIdentityPlaceholder (identity : ProviderResponseIdentity) : Bool :=
  recorder.records.zipIdx.any fun entry =>
    !recorder.evidenceAt entry.2 && isIdentityOnly identity entry.1

def identityPlaceholderIndices (identity : ProviderResponseIdentity) : List ℕ :=
  (recorder.records.zipIdx.filter fun entry =>
    !recorder.evidenceAt entry.2 && isIdentityOnly identity entry.1).map Prod.snd

def identityEvidenceIndices (identity : ProviderResponseIdentity) : List ℕ :=
  (recorder.records.zipIdx.filter fun entry =>
    recorder.evidenceAt entry.2 && isIdentityOnly identity entry.1).map Prod.snd

def isRecording : Bool := !recorder.saturated

end Reads

section Writes

def refreshSaturation (recorder : RetainingReplayRecorder) : RetainingReplayRecorder :=
  if recorder.replayRecordCount < maxRetainedReplayRecordings ∧
      recorder.totalBodyBytes < maxRetainedReplayTotalBytes then
    { recorder with saturated := false }
  else recorder

def saturate (recorder : RetainingReplayRecorder) : RetainingReplayRecorder :=
  { recorder with saturated := true }

def push (recorder : RetainingReplayRecorder) (recording : ReplayRecording) (isEvidence : Bool) :
    RetainingReplayRecorder :=
  { recorder with
    records := recorder.records ++ [recording]
    recordIsEvidence := recorder.recordIsEvidence ++ [isEvidence] }

variable (recorder : RetainingReplayRecorder) (identity : ProviderResponseIdentity)

def discardIdentityPlaceholders : RetainingReplayRecorder × Bool :=
  let indices := recorder.identityPlaceholderIndices identity
  if indices.isEmpty then (recorder, false)
  else
    (refreshSaturation
      { recorder with
        records := indices.reverse.foldl List.eraseIdx recorder.records
        recordIsEvidence := indices.reverse.foldl List.eraseIdx recorder.recordIsEvidence
        replayRecordCount := recorder.replayRecordCount - indices.length }, true)

/-- The pending places of the identity become evidence of its failure. -/
def reclassifyPlaceholders (placeholders : List ℕ) : RetainingReplayRecorder :=
  refreshSaturation
    { recorder with
      recordIsEvidence :=
        placeholders.foldl (fun evidence index => evidence.set index true) recorder.recordIsEvidence
      replayRecordCount := recorder.replayRecordCount - placeholders.length
      evidenceRecordCount := recorder.evidenceRecordCount + placeholders.length }

def recordEvidenceIdentityOnly : RetainingReplayRecorder × Bool :=
  match identity.validate with
  | .error _ => (recorder, false)
  | .ok () =>
    if !(recorder.identityEvidenceIndices identity).isEmpty then (recorder, true)
    else
      let placeholders := recorder.identityPlaceholderIndices identity
      if !placeholders.isEmpty then
        if recorder.evidenceRecordCount + placeholders.length ≤ maxRetainedEvidenceRecords then
          (recorder.reclassifyPlaceholders placeholders, true)
        else recorder.discardIdentityPlaceholders identity
      else if recorder.evidenceRecordCount ≥ maxRetainedEvidenceRecords then (recorder, false)
      else
        ({ recorder.push (identityOnly identity) true with
            evidenceRecordCount := recorder.evidenceRecordCount + 1 }, true)

def recordIdentityOnly : RetainingReplayRecorder × Bool :=
  match identity.validate with
  | .error _ => (recorder, false)
  | .ok () =>
    if recorder.saturated then recorder.recordEvidenceIdentityOnly identity
    else if recorder.hasIdentityPlaceholder identity then (recorder, true)
    else if recorder.replayRecordCount ≥ maxRetainedReplayRecordings then
      recorder.saturate.recordEvidenceIdentityOnly identity
    else
      ({ recorder.push (identityOnly identity) false with
          replayRecordCount := recorder.replayRecordCount + 1 }, true)

variable (sha256Hex : Text → Text) (body : Text) (requestSha256 : Option Text)

def bodyValid : Bool :=
  !body.isEmpty && Text.utf8Len body ≤ maxRetainedReplayBodyBytes &&
    Text.utf8Len body == identity.bodyBytes &&
    Text.eqIgnoreAsciiCase identity.bodySha256 (sha256Hex body)

/-- The last record is a pending place of the identity. -/
def lastAwaits : Bool :=
  !(recorder.recordIsEvidence.getLast?.getD false) &&
    recorder.records.getLast?.any (isIdentityOnly identity)

/-- The place keeps its identity and gains the body. -/
def fillLast : RetainingReplayRecorder :=
  { recorder with
    records := recorder.records.dropLast ++ [⟨identity, body, requestSha256⟩]
    totalBodyBytes := recorder.totalBodyBytes + Text.utf8Len body }

def retainBody : RetainingReplayRecorder × Bool :=
  if !identity.validate.toBool || requestDigestInvalid requestSha256 then (recorder, false)
  else if !bodyValid identity sha256Hex body then
    ((recorder.recordEvidenceIdentityOnly identity).1, false)
  else if recorder.saturated then ((recorder.recordEvidenceIdentityOnly identity).1, false)
  else if recorder.totalBodyBytes + Text.utf8Len body > maxRetainedReplayTotalBytes then
    ((recorder.saturate.recordEvidenceIdentityOnly identity).1, false)
  else if recorder.lastAwaits identity then
    (recorder.fillLast identity body (requestSha256.map Text.toAsciiLowercase), true)
  else if recorder.replayRecordCount ≥ maxRetainedReplayRecordings then
    ((recorder.saturate.recordEvidenceIdentityOnly identity).1, false)
  else
    ({ recorder.push ⟨identity, body, requestSha256.map Text.toAsciiLowercase⟩ false with
        replayRecordCount := recorder.replayRecordCount + 1
        totalBodyBytes := recorder.totalBodyBytes + Text.utf8Len body }, true)

def retainEvidenceBody : RetainingReplayRecorder × Bool :=
  if !identity.validate.toBool || requestDigestInvalid requestSha256 then (recorder, false)
  else if !bodyValid identity sha256Hex body then
    ((recorder.recordEvidenceIdentityOnly identity).1, false)
  else if recorder.evidenceRecordCount ≥ maxRetainedEvidenceRecords then (recorder, false)
  else if recorder.evidenceTotalBodyBytes + Text.utf8Len body > maxRetainedEvidenceTotalBytes then
    ((recorder.recordEvidenceIdentityOnly identity).1, false)
  else
    ({ recorder.push ⟨identity, body, requestSha256.map Text.toAsciiLowercase⟩ true with
        evidenceRecordCount := recorder.evidenceRecordCount + 1
        evidenceTotalBodyBytes := recorder.evidenceTotalBodyBytes + Text.utf8Len body }, true)

def recordProviderResponse : RetainingReplayRecorder := (recorder.recordIdentityOnly identity).1

def tryRecordProviderResponseWithBody : RetainingReplayRecorder × Bool :=
  recorder.retainBody identity sha256Hex body none

def recordProviderResponseWithBody : RetainingReplayRecorder :=
  (recorder.tryRecordProviderResponseWithBody identity sha256Hex body).1

def tryRecordProviderResponseWithBodyAndRequest (digest : Text) : RetainingReplayRecorder × Bool :=
  recorder.retainBody identity sha256Hex body (some digest)

def tryRecordProviderResponseWithBodyAsEvidence : RetainingReplayRecorder × Bool :=
  recorder.retainEvidenceBody identity sha256Hex body none

end Writes

end RetainingReplayRecorder

end Siralos.Determinism
