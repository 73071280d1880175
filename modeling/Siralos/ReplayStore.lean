import Siralos.Canonical
import Siralos.CredentialShape
import Siralos.Replay
import Siralos.ReplayIdentity

/-!
# The persisted replay store

A bounded cache of recordings across sessions: one JSON document with a digest over its
recordings. Every byte that is read back is untrusted.
-/

set_option autoImplicit false

namespace Siralos.ReplayStore

open Json Provider Identity Determinism
open Knowledge (bytesOf)

inductive ReplayStoreBoundsError where
  | tooManyRecordings (count : ℕ)
  | totalBodyBytesExceeded (total : ℕ)
  deriving DecidableEq, Repr

def boundsFrom (total : ℕ) : List ReplayRecording → Except ReplayStoreBoundsError Unit
  | [] => .ok ()
  | recording :: rest =>
    let total := total + recording.bodyLen
    if total > replayStoreMaxTotalBodyBytes then .error (.totalBodyBytesExceeded total)
    else boundsFrom total rest

def validateReplayStoreBounds (recordings : List ReplayRecording) :
    Except ReplayStoreBoundsError Unit :=
  if recordings.length > replayStoreMaxRecordings then
    .error (.tooManyRecordings recordings.length)
  else boundsFrom 0 recordings

def carriesUsage (recording : ReplayRecording) : Bool :=
  recording.identity.inputTokens.isSome || recording.identity.outputTokens.isSome ||
    recording.identity.cachedTokens.isSome

def hasUsage (recordings : List ReplayRecording) : Bool := recordings.any carriesUsage

def hasRequestBinding (recordings : List ReplayRecording) : Bool :=
  recordings.any fun recording => recording.requestSha256.isSome

section Digest

def optionalNumber : Option ℕ → CanonicalValue
  | some value => .u64 value
  | none => .null

def optionalDigest : Option Text → CanonicalValue
  | some digest => .str (Text.toAsciiLowercase digest)
  | none => .null

def digestEntry (usage binding : Bool) (recording : ReplayRecording) : CanonicalValue :=
  .ofFields (
    [field "providerId" (.str recording.identity.providerId),
      field "model" (.str recording.identity.model),
      field "status" (optionalNumber recording.identity.status),
      field "bodySha256" (.str (Text.toAsciiLowercase recording.identity.bodySha256)),
      field "bodyBytes" (.u64 recording.identity.bodyBytes),
      field "observedAtMs" (optionalNumber recording.identity.observedAtMs)] ++
    (if usage then
      [field "inputTokens" (optionalNumber recording.identity.inputTokens),
        field "outputTokens" (optionalNumber recording.identity.outputTokens),
        field "cachedTokens" (optionalNumber recording.identity.cachedTokens)]
    else []) ++
    [field "body" (.str recording.body)] ++
    (if binding then [field "requestSha256" (optionalDigest recording.requestSha256)] else []))

def digestVersion (usage binding : Bool) : ℕ := if binding then 3 else if usage then 2 else 1

def computeReplayStoreDigest (sha256Hex : Text → Text) (recordings : List ReplayRecording) : Text :=
  let usage := hasUsage recordings
  let binding := hasRequestBinding recordings
  artifactDigestHex sha256Hex "ReplayStore" (digestVersion usage binding)
    (toCanonical (.array (recordings.map (digestEntry usage binding))))

end Digest

section Document

def optionalValue : Option ℕ → Value
  | some value => .number (.posInt value)
  | none => .null

def optionalText : Option Text → Value
  | some text => .string (Text.toAsciiLowercase text)
  | none => .null

/-- The fields stand in the key order of the source's map. -/
def recordingEntries (usage binding : Bool) (recording : ReplayRecording) : List (Text × Value) :=
  [("body".toList, .string recording.body),
    ("bodyBytes".toList, .number (.posInt recording.identity.bodyBytes)),
    ("bodySha256".toList, .string recording.identity.bodySha256)] ++
  (if usage then [("cachedTokens".toList, optionalValue recording.identity.cachedTokens),
    ("inputTokens".toList, optionalValue recording.identity.inputTokens)] else []) ++
  [("model".toList, .string recording.identity.model),
    ("observedAtMs".toList, optionalValue recording.identity.observedAtMs)] ++
  (if usage then [("outputTokens".toList, optionalValue recording.identity.outputTokens)]
    else []) ++
  [("providerId".toList, .string recording.identity.providerId)] ++
  (if binding then [("requestSha256".toList, optionalText recording.requestSha256)] else []) ++
  [("status".toList, optionalValue recording.identity.status)]

def recordingValue (usage binding : Bool) (recording : ReplayRecording) : Value :=
  .object (recordingEntries usage binding recording)

def replayStoreVersion : ℕ := 1

def documentValue (digest : Text) (recordings : List ReplayRecording) : Value :=
  .object [
    ("digest".toList, .string digest),
    ("recordings".toList, .array (recordings.map
      (recordingValue (hasUsage recordings) (hasRequestBinding recordings)))),
    ("version".toList, .number (.posInt replayStoreVersion))]

end Document

section Validation

inductive RecordingRefusal where
  | invalidIdentity
  | bodyTooLarge
  | bodyBytes
  | bodyDigest
  | requestDigest
  | bodyShape
  | bodyControl
  deriving DecidableEq, Repr

def maxResponseBytes : ℕ := 1024 * 1024

def successStatus (status : Option ℕ) : Bool := status.any fun code => 200 ≤ code && code < 300

variable (serde : SerdeJson) (sha256Hex : Text → Text)

def validateReplayBodyText (body : Text) : Except RecordingRefusal Unit :=
  match serde.fromStr body with
  | none => .error .bodyShape
  | some value =>
    if !value.isObject then .error .bodyShape
    else if !(Replay.validateReplayShape serde.fromStr value).toBool then .error .bodyShape
    else if !Replay.replayTextFieldsValid value then .error .bodyControl
    else .ok ()

/-- The store has no active route, so any provider is expected. -/
def validateReplayRecording (recording : ReplayRecording) : Except RecordingRefusal Unit :=
  if !recording.identity.validate.toBool ||
      !Replay.validReplayIdentifier recording.identity.providerId 256 ||
      !Replay.validReplayIdentifier recording.identity.model 256 ||
      !successStatus recording.identity.status then .error .invalidIdentity
  else if recording.bodyLen > maxResponseBytes then .error .bodyTooLarge
  else if recording.identity.bodyBytes ≠ recording.bodyLen then .error .bodyBytes
  else if !isValidReplaySha256 (Text.toAsciiLowercase recording.identity.bodySha256) ||
      Text.toAsciiLowercase recording.identity.bodySha256 != sha256Hex recording.body then
    .error .bodyDigest
  else if requestDigestInvalid recording.requestSha256 then .error .requestDigest
  else validateReplayBodyText serde recording.body

end Validation

inductive ReplayStoreLoadError where
  | notFound
  | malformed (reason : Text)
  | untrustedDigest
  | bounds (error : ReplayStoreBoundsError)
  | io (message : Text)
  deriving DecidableEq, Repr

inductive StoreFile where
  | absent
  | regular (bytes : ByteArray)
  | special

def replayStoreMaxFileBytes : ℕ := 2 * 1024 * 1024

section Loading

variable (serde : SerdeJson) (sha256Hex : Text → Text)

def malformed {α : Type} (reason : Text) : Except ReplayStoreLoadError α :=
  .error (.malformed reason)

def requireField {α : Type} (value : Option α) (reason : Text) : Except ReplayStoreLoadError α :=
  match value with
  | some value => .ok value
  | none => malformed reason

def refuseLoad (refused : Bool) (error : ReplayStoreLoadError) :
    Except ReplayStoreLoadError Unit :=
  if refused then .error error else .ok ()

def refuseMalformed (refused : Bool) (reason : Text) : Except ReplayStoreLoadError Unit :=
  refuseLoad refused (.malformed reason)

def recordingFields : List String :=
  ["providerId", "model", "status", "bodySha256", "bodyBytes", "observedAtMs", "inputTokens",
    "outputTokens", "cachedTokens", "requestSha256", "body"]

def documentFields : List String := ["version", "digest", "recordings"]

def hasUnknownField (allowed : List String) (fields : List (Text × Value)) : Bool :=
  !fields.all fun entry => (allowed.map String.toList).contains entry.1

/-- A number field that may be absent or null; its name stands in both messages. -/
def optionalNumberField (name : Text) (value : Option Value) :
    Except ReplayStoreLoadError (Option ℕ) :=
  match value with
  | none => .ok none
  | some .null => .ok none
  | some (.number n) =>
    match Value.asU64 (.number n) with
    | some number => .ok (some number)
    | none => malformed ("recording " ++ name ++ " must be a number")
  | some _ => malformed ("recording " ++ name ++ " must be a number or null")

def maxStatus : ℕ := 65535

def statusField (value : Option Value) : Except ReplayStoreLoadError (Option ℕ) := do
  let status ← optionalNumberField "status" value
  refuseMalformed (status.any fun code => maxStatus < code) "recording status out of range"
  .ok status

def requestDigestField (value : Option Value) : Except ReplayStoreLoadError (Option Text) :=
  match value with
  | none => .ok none
  | some .null => .ok none
  | some (.string text) =>
    if isValidReplaySha256 text then .ok (some (Text.toAsciiLowercase text))
    else malformed "recording requestSha256 must be 64 hex characters"
  | some _ => malformed "recording requestSha256 must be 64 hex characters"

/-- A recording that fails on its own bytes is untrusted rather than malformed. -/
def checkRecording (recording : ReplayRecording) : Except ReplayStoreLoadError Unit :=
  match validateReplayRecording serde sha256Hex recording with
  | .ok () => .ok ()
  | .error .bodyBytes => .error .untrustedDigest
  | .error .bodyDigest => .error .untrustedDigest
  | .error .bodyTooLarge => .error (.bounds (.totalBodyBytesExceeded recording.bodyLen))
  | .error _ => malformed "recording failed replay validation"

/-- One entry, with the body bytes of the entries before it. -/
def loadEntry (total : ℕ) (entry : Value) : Except ReplayStoreLoadError ReplayRecording := do
  let fields ← requireField entry.asObject "each recording must be an object"
  refuseMalformed (hasUnknownField recordingFields fields) "recording contains an unknown field"
  let get := fun key : String => fields.lookup key.toList
  let providerId ← requireField (get "providerId" >>= Value.asStr) "recording requires providerId"
  refuseMalformed (!Replay.validReplayIdentifier providerId 256) "recording providerId is invalid"
  let model ← requireField (get "model" >>= Value.asStr) "recording requires model"
  refuseMalformed (!Replay.validReplayIdentifier model 256) "recording model is invalid"
  let status ← statusField (get "status")
  refuseMalformed (!successStatus status) "recording status must be a successful HTTP status"
  let bodySha256 ← requireField (get "bodySha256" >>= Value.asStr) "recording requires bodySha256"
  let bodyBytes ← requireField (get "bodyBytes" >>= Value.asU64) "recording requires bodyBytes"
  let observedAtMs ← optionalNumberField "observedAtMs" (get "observedAtMs")
  let inputTokens ← optionalNumberField "inputTokens" (get "inputTokens")
  let outputTokens ← optionalNumberField "outputTokens" (get "outputTokens")
  let cachedTokens ← optionalNumberField "cachedTokens" (get "cachedTokens")
  let requestSha256 ← requestDigestField (get "requestSha256")
  let body ← requireField (get "body" >>= Value.asStr) "recording requires body"
  refuseLoad (total + Text.utf8Len body > replayStoreMaxTotalBodyBytes)
    (.bounds (.totalBodyBytesExceeded (total + Text.utf8Len body)))
  refuseLoad (Text.utf8Len body > maxResponseBytes)
    (.bounds (.totalBodyBytesExceeded (Text.utf8Len body)))
  let candidate : ReplayRecording :=
    { identity :=
        { providerId, model, status, bodySha256 := Text.toAsciiLowercase bodySha256, bodyBytes,
          observedAtMs, inputTokens, outputTokens, cachedTokens }
      body, requestSha256 }
  checkRecording serde sha256Hex candidate
  refuseMalformed (bodyCredentialShape serde body).isSome
    "recording body contains credential-shaped data"
  .ok candidate

def loadEntries (total : ℕ) : List Value → Except ReplayStoreLoadError (List ReplayRecording)
  | [] => .ok []
  | entry :: rest => do
    let recording ← loadEntry serde sha256Hex total entry
    let recordings ← loadEntries (total + recording.bodyLen) rest
    .ok (recording :: recordings)

def loadDocument (value : Value) : Except ReplayStoreLoadError (List ReplayRecording) := do
  let fields ← requireField value.asObject "store must be an object"
  refuseMalformed (hasUnknownField documentFields fields) "store contains an unknown field"
  refuseMalformed ((fields.lookup "version".toList >>= Value.asU64) != some 1)
    "store version must be 1"
  let digest ← requireField (fields.lookup "digest".toList >>= Value.asStr)
    "store requires a digest string"
  let recordingsValue ← requireField (fields.lookup "recordings".toList) "store requires recordings"
  let entries ← requireField recordingsValue.asArray "store recordings must be an array"
  refuseLoad (entries.length > replayStoreMaxRecordings)
    (.bounds (.tooManyRecordings entries.length))
  let recordings ← loadEntries serde sha256Hex 0 entries
  refuseLoad (computeReplayStoreDigest sha256Hex recordings != digest) .untrustedDigest
  (validateReplayStoreBounds recordings).mapError .bounds
  .ok recordings

def loadBytes (bytes : ByteArray) : Except ReplayStoreLoadError (List ReplayRecording) :=
  if bytes.size > replayStoreMaxFileBytes then malformed "store exceeds the 2 MiB cap"
  else
    match bytes.utf8Decode? with
    | none => malformed "store is not valid UTF-8"
    | some text =>
      match serde.fromStr text.toList with
      | none => malformed "store is not valid JSON"
      | some value => loadDocument serde sha256Hex value

def loadReplayStore : StoreFile → Except ReplayStoreLoadError (List ReplayRecording)
  | .absent => .error .notFound
  | .special => malformed "store must be a regular file"
  | .regular bytes => loadBytes serde sha256Hex bytes

end Loading

inductive ReplayStoreWriteError where
  | credentialShape (index : ℕ) (pattern : Text)
  | invalidRecording (index : ℕ)
  | bounds (error : ReplayStoreBoundsError)
  | serializedBytesExceeded (actual maximum : ℕ)
  | io (message : Text)
  deriving DecidableEq, Repr

section Writing

def refuseWrite (refused : Bool) (error : ReplayStoreWriteError) :
    Except ReplayStoreWriteError Unit :=
  if refused then .error error else .ok ()

variable (serde : SerdeJson) (sha256Hex : Text → Text)

def isPersistableReplayRecording (recording : ReplayRecording) : Bool :=
  successStatus recording.identity.status && !recording.body.isEmpty

/-- The newest persistable recordings, oldest first, with their places in the caller's list. -/
def currentCandidates (recordings : List ReplayRecording) : List (ReplayRecording × ℕ) :=
  ((recordings.zipIdx.reverse.filter fun entry => isPersistableReplayRecording entry.1).take
    replayStoreMaxRecordings).reverse

def checkCandidate (candidate : ReplayRecording × ℕ) : Except ReplayStoreWriteError Unit :=
  match bodyCredentialShape serde candidate.1.body with
  | some pattern => .error (.credentialShape candidate.2 pattern)
  | none =>
    if candidate.1.bodyLen > maxResponseBytes then
      .error (.bounds (.totalBodyBytesExceeded candidate.1.bodyLen))
    else if !(validateReplayRecording serde sha256Hex candidate.1).toBool then
      .error (.invalidRecording candidate.2)
    else .ok ()

def checkCandidates : List (ReplayRecording × ℕ) → Except ReplayStoreWriteError Unit
  | [] => .ok ()
  | candidate :: rest => do
    checkCandidate serde sha256Hex candidate
    checkCandidates rest

/-- What is known of a store that cannot be read back. -/
def existingRefusal : ReplayStoreLoadError → Text
  | .malformed _ => "existing store is not trusted"
  | .untrustedDigest => "existing store is not trusted"
  | .bounds _ => "existing store is not trusted"
  | .notFound => "store not found"
  | .io _ => "store is unavailable"

def existingRecordings (file : StoreFile) : Except ReplayStoreWriteError (List ReplayRecording) :=
  match loadReplayStore serde sha256Hex file with
  | .ok recordings => .ok recordings
  | .error .notFound => .ok []
  | .error error => .error (.io (existingRefusal error))

/-- Walks from the newest recording on and stops at the first that does not fit. -/
def keepNewest (kept : List ReplayRecording) (total : ℕ) :
    List ReplayRecording → List ReplayRecording
  | [] => kept
  | recording :: older =>
    if kept.length ≥ replayStoreMaxRecordings then kept
    else if total + recording.bodyLen > replayStoreMaxTotalBodyBytes then kept
    else keepNewest (recording :: kept) (total + recording.bodyLen) older

def canonicalRecording (recording : ReplayRecording) : ReplayRecording :=
  { recording with
    identity := { recording.identity with
      bodySha256 := Text.toAsciiLowercase recording.identity.bodySha256 }
    requestSha256 := recording.requestSha256.map Text.toAsciiLowercase }

def serializedStore (kept : List ReplayRecording) : Text :=
  serde.toStr (documentValue (computeReplayStoreDigest sha256Hex kept) kept)

def lastBodyLen (recordings : List ReplayRecording) : ℕ :=
  (recordings.getLast?.map ReplayRecording.bodyLen).getD 0

/-- The recordings and the text that a write would store. -/
def prepareStore (file : StoreFile) (recordings : List ReplayRecording) :
    Except ReplayStoreWriteError (List ReplayRecording × Text) := do
  let candidates := currentCandidates recordings
  checkCandidates serde sha256Hex candidates
  let existing ← existingRecordings serde sha256Hex file
  let kept := keepNewest [] 0 ((candidates.map Prod.fst).reverse ++ existing.reverse)
  refuseWrite (kept.isEmpty && !candidates.isEmpty)
    (.bounds (.totalBodyBytesExceeded (lastBodyLen recordings)))
  (validateReplayStoreBounds kept).mapError .bounds
  let kept := kept.map canonicalRecording
  let serialized := serializedStore serde sha256Hex kept
  refuseWrite (Text.utf8Len serialized > replayStoreMaxFileBytes)
    (.serializedBytesExceeded (Text.utf8Len serialized) replayStoreMaxFileBytes)
  .ok (kept, serialized)

/-- `commit` is the outcome of the directory checks, the staging and the guarded rename. -/
def writeReplayStore (commit : Except Text Unit) (file : StoreFile)
    (recordings : List ReplayRecording) : StoreFile × Except ReplayStoreWriteError ℕ :=
  match prepareStore serde sha256Hex file recordings with
  | .error error => (file, .error error)
  | .ok (kept, serialized) =>
    match commit with
    | .error message => (file, .error (.io message))
    | .ok () => (.regular (bytesOf serialized).toByteArray, .ok kept.length)

end Writing

end Siralos.ReplayStore
