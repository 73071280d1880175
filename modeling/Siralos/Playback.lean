import Siralos.LiveText
import Siralos.NamedReplay
import Siralos.RequestDigest
import Siralos.RouteUrl

/-!
# Route-bound playback

A provider that serves recordings in order. Its cursor moves inside the event iterator, when the
completion or a cancellation is delivered, and each call is bound to the recording under the cursor
by the digest of its request and route.
-/

set_option autoImplicit false

namespace Siralos.Playback

open Json Provider Determinism Conversation
open NamedProvider (normalizeReplayEvent replayedEvents)
open RequestDigest (ModelRequest Route requestSha256 requestSha256ForRoute)
open Streaming (ToolNames isCompletion Ordinary ordinary)
open Text (utf8Len)

structure ProviderUsageObservation where
  inputTokens : Option ℕ
  outputTokens : Option ℕ
  cachedTokens : Option ℕ
  deriving DecidableEq, Repr

def maxU64 : ℕ := 2 ^ 64 - 1

def saturatingAdd (a b : ℕ) : ℕ := min (a + b) maxU64

def extractU64Obj (object : Value) (key : Text) : Option ℕ := object.get key >>= Value.asU64

def asObjectValue (value : Value) : Option Value := if value.isObject then some value else none

def cachedTokensOf (usage : Value) : Option ℕ :=
  let prompt := (usage.get "prompt_tokens_details" >>= asObjectValue) >>= fun details =>
    (extractU64Obj details "cached_tokens").or
      ((details.get "cached_tokens_details" >>= asObjectValue) >>= fun inner =>
        extractU64Obj inner "cached_tokens")
  let input := (usage.get "input_tokens_details" >>= asObjectValue) >>= fun details =>
    extractU64Obj details "cached_tokens"
  (extractU64Obj usage "cached_tokens").or (prompt.or input)

/-- A provider that reports cache reads counts them beside its input tokens. -/
def parseProviderUsageObservation (serde : SerdeJson) (body : Text) :
    Option ProviderUsageObservation := do
  let value ← serde.fromStr body
  let usage ← value.get "usage" >>= asObjectValue
  let cacheRead := extractU64Obj usage "cache_read_input_tokens"
  let cacheCreation := extractU64Obj usage "cache_creation_input_tokens"
  let inputTokens :=
    if cacheRead.isSome || cacheCreation.isSome then
      (extractU64Obj usage "input_tokens").map fun input =>
        saturatingAdd (saturatingAdd input (cacheRead.getD 0)) (cacheCreation.getD 0)
    else (extractU64Obj usage "input_tokens").or (extractU64Obj usage "prompt_tokens")
  let outputTokens :=
    (extractU64Obj usage "output_tokens").or (extractU64Obj usage "completion_tokens")
  let cachedTokens := if cacheRead.isSome then cacheRead else cachedTokensOf usage
  if inputTokens.isNone && outputTokens.isNone && cachedTokens.isNone then none
  else some ⟨inputTokens, outputTokens, cachedTokens⟩

structure RecordedReplayProvider where
  providerId : Text
  model : Text
  route : Option Route
  recordings : List ReplayRecording
  cursor : ℕ
  usageObservation : Option ProviderUsageObservation
  invalid : Bool

def validProviderIdentity (value : Text) : Bool :=
  !value.isEmpty && decide (utf8Len value ≤ 256) && value.all fun c => !Text.isControl c

/-- An alias of a protocol is replaced by the name the live adapters bind. -/
def canonicalProtocol (route : Route) : Route :=
  { route with
    protocol :=
      ((RouteUrl.Protocol.parse route.protocol).map RouteUrl.Protocol.asStr).getD route.protocol }

def routeAdmitted (route : Route) : Bool :=
  validProviderIdentity route.providerId &&
    decide (utf8Len route.endpoint ≤ Composition.maxProfileEndpointBytes) &&
    Composition.isValidHttpEndpoint route.endpoint &&
    (RouteUrl.Protocol.parse route.protocol).isSome

section Provider

variable (serde : SerdeJson) (sha256Hex : Text → Text)

def validReplayRecording (recording : ReplayRecording) (providerId : Text) : Bool :=
  recording.identity.providerId == providerId &&
    (ReplayStore.validateReplayRecording serde sha256Hex recording).toBool

/-- Route-bound playback takes every recording, the other mode those without a digest. -/
def selectRecordings (route : Option Route) (recordings : List ReplayRecording) :
    List ReplayRecording × Bool :=
  match route with
  | some _ => (recordings, false)
  | none =>
    let legacy := recordings.filter fun recording => recording.requestSha256.isNone
    (legacy, !recordings.isEmpty && legacy.isEmpty)

def newInternal (providerId model : Text) (route : Option Route)
    (recordings : List ReplayRecording) : RecordedReplayProvider :=
  let providerValid := validProviderIdentity providerId
  let modelValid := validProviderIdentity model
  let providerId := if providerValid then providerId else "invalid-provider"
  let model := if modelValid then model else "invalid-model"
  let route := route.map canonicalProtocol
  let (selected, legacyModeInvalid) := selectRecordings route recordings
  let invalid := legacyModeInvalid || !route.all routeAdmitted || !providerValid || !modelValid ||
    !(ReplayStore.validateReplayStoreBounds selected).toBool ||
    !(selected.all fun recording => recording.identity.model == model &&
      validReplayRecording serde sha256Hex recording providerId) ||
    route.any (fun route => route.providerId != providerId) ||
    (route.isSome && selected.any fun recording => recording.requestSha256.isNone)
  { providerId := providerId
    model := model
    route := route
    recordings := if invalid then [] else selected
    cursor := 0
    usageObservation := none
    invalid := invalid }

def newWithRoute (providerId model endpoint protocol : Text) (recordings : List ReplayRecording) :
    RecordedReplayProvider :=
  newInternal serde sha256Hex providerId model (some ⟨providerId, endpoint, protocol⟩) recordings

end Provider

def takeUsageObservation (provider : RecordedReplayProvider) :
    Option ProviderUsageObservation × RecordedReplayProvider :=
  (provider.usageObservation, { provider with usageObservation := none })

structure ReplayCursorEvents where
  inner : List ProviderEvent
  index : ℕ
  advanced : Bool
  cancelledEmitted : Bool

def replayCancelled : Text := "replay cancelled by host"

/-- The next event, the cursor behind it and the iterator. -/
def ReplayCursorEvents.next (events : ReplayCursorEvents) (cancelled : Bool) (cursor : ℕ) :
    Option ProviderEvent × ℕ × ReplayCursorEvents :=
  if cancelled then
    if events.cancelledEmitted then (none, cursor, events)
    else
      (some (.cancelled replayCancelled), if events.advanced then cursor else events.index + 1,
        { events with cancelledEmitted := true, advanced := true })
  else
    match events.inner with
    | [] => (none, cursor, events)
    | event :: inner =>
      if isCompletion event && !events.advanced then
        (some event, events.index + 1, { events with inner := inner, advanced := true })
      else (some event, cursor, { events with inner := inner })

inductive Stream where
  | once (event : Option ProviderEvent)
  | recorded (events : ReplayCursorEvents)

def Stream.next : Stream → Bool → ℕ → Option ProviderEvent × ℕ × Stream
  | .once event, _, cursor => (event, cursor, .once none)
  | .recorded events, cancelled, cursor =>
    let (event, cursor, events) := events.next cancelled cursor
    (event, cursor, .recorded events)

def cancelledBeforeProviderStart : Text := "Host cancelled the turn before provider start"

def isFailure : ProviderEvent → Bool
  | .failed _ => true
  | _ => false

section Streams

variable (serde : SerdeJson) (sha256Hex : Text → Text)

def callDigest (provider : RecordedReplayProvider) (request : ModelRequest) : Text :=
  match provider.route with
  | none => requestSha256 serde sha256Hex request
  | some route => requestSha256ForRoute serde sha256Hex request route

/-- Why the recording under the cursor is not served. -/
def refusal (provider : RecordedReplayProvider) (request : ModelRequest)
    (recording : ReplayRecording) : Option Text :=
  let events := Replay.completionEventsFromBody serde.fromStr recording.body
  if recording.identity.providerId != provider.providerId then
    some "replay recording identity does not match the active provider"
  else if recording.requestSha256.any fun expected =>
      !Text.eqIgnoreAsciiCase expected (callDigest serde sha256Hex provider request) then
    some "replay recording request identity does not match"
  else if !ReplayStore.successStatus recording.identity.status then
    some "replay response has no successful HTTP status"
  else if recording.identity.bodyBytes != recording.bodyLen ||
      !Text.eqIgnoreAsciiCase recording.identity.bodySha256 (sha256Hex recording.body) then
    some "replay response body failed integrity verification"
  else if events.isEmpty || events.any isFailure then
    some "replay response has no usable successful completion"
  else none

/-- `names` are the aliases of the request's tools. -/
def stream (provider : RecordedReplayProvider) (request : ModelRequest) (names : ToolNames)
    (cancelled : Bool) : RecordedReplayProvider × Stream :=
  let provider := { provider with usageObservation := none }
  if provider.invalid then
    (provider, .once (some (.failed "replay recordings failed constructor validation")))
  else if cancelled then
    (provider, .once (some (.cancelled cancelledBeforeProviderStart)))
  else
    match provider.recordings[provider.cursor]? with
    | none =>
      (provider, .once (some (.failed "no recorded response for replay: recording exhausted")))
    | some recording =>
      match refusal serde sha256Hex provider request recording with
      | some message => (provider, .once (some (.failed message)))
      | none =>
        ({ provider with
            usageObservation := parseProviderUsageObservation serde recording.body },
          .recorded ⟨replayedEvents serde names recording.body, provider.cursor, false, false⟩)

/-- A call, whether it was cancelled before it started, and whether before each pull. -/
structure Call where
  request : ModelRequest
  names : ToolNames
  raised : Bool
  pulls : List Bool

/-- The events pulled from a stream before it is dropped, and the cursor. Cancellation stays. -/
def pull : Stream → ℕ → Bool → List Bool → List ProviderEvent × ℕ
  | _, cursor, _, [] => ([], cursor)
  | stream, cursor, cancelled, raised :: pulls =>
    let step := stream.next (cancelled || raised) cursor
    let rest := pull step.2.2 step.2.1 (cancelled || raised) pulls
    (step.1.toList ++ rest.1, rest.2)

/-- What a call delivered, and what is observed of its usage behind it. -/
structure Outcome where
  delivered : List ProviderEvent
  usage : Option ProviderUsageObservation

def runCall (provider : RecordedReplayProvider) (call : Call) : RecordedReplayProvider × Outcome :=
  let opened := stream serde sha256Hex provider call.request call.names call.raised
  let pulled := pull opened.2 opened.1.cursor call.raised call.pulls
  let behind := { opened.1 with cursor := pulled.2 }
  (behind, ⟨pulled.1, (takeUsageObservation behind).1⟩)

def runCalls (provider : RecordedReplayProvider) : List Call → RecordedReplayProvider × List Outcome
  | [] => (provider, [])
  | call :: calls =>
    let first := runCall serde sha256Hex provider call
    let rest := runCalls first.1 calls
    (rest.1, first.2 :: rest.2)

end Streams

/-- The cancellation that a stream delivers after it was opened. -/
def interrupted : ProviderEvent → Bool
  | .cancelled message => message == replayCancelled
  | _ => false

def consumes (delivered : List ProviderEvent) : Bool :=
  delivered.any fun event => isCompletion event || interrupted event

def Playable (events : List ProviderEvent) : Prop :=
  ∀ e ∈ events, ordinary e = true ∨ isCompletion e = true

theorem ordinary_keeps {event : ProviderEvent} (h : ordinary event = true) :
    (isCompletion event || interrupted event) = false := by
  rcases event with (_ | _ | _ | _) | _ | _ | _
  · rfl
  · rfl
  · rfl
  · cases h
  · rfl
  · cases h
  · rfl

theorem consumes_ordinary {event : ProviderEvent} (h : ordinary event = true)
    (rest : List ProviderEvent) : consumes (event :: rest) = consumes rest := by
  rw [consumes, List.any_cons, ordinary_keeps h, Bool.false_or]
  rfl

theorem pull_once (event : Option ProviderEvent) (cursor : ℕ) (cancelled : Bool)
    (pulls : List Bool) :
    pull (.once event) cursor cancelled pulls = (event.toList.take pulls.length, cursor) := by
  induction pulls generalizing event cancelled with
  | nil => rw [pull, List.length_nil, List.take_zero]
  | cons raised pulls ih =>
    rw [pull]
    simp only [Stream.next, ih]
    cases event with
    | none => rw [Option.toList_none, List.take_nil, List.take_nil, List.append_nil]
    | some event =>
      rw [Option.toList_some, Option.toList_none, List.take_nil, List.append_nil, List.length_cons,
        List.take_succ_cons, List.take_nil]

theorem pull_emitted (inner : List ProviderEvent) (index : ℕ) (advanced : Bool) (cursor : ℕ)
    (pulls : List Bool) :
    pull (.recorded ⟨inner, index, advanced, true⟩) cursor true pulls = ([], cursor) := by
  induction pulls with
  | nil => rfl
  | cons raised pulls ih =>
    rw [pull]
    simp only [Stream.next, ReplayCursorEvents.next, Bool.true_or, if_true, ih]
    rfl

theorem pull_recorded (index : ℕ) (pulls : List Bool) : ∀ (inner : List ProviderEvent)
    (advanced : Bool) (cursor : ℕ) (cancelled : Bool), Playable inner →
    (∃ n, (pull (.recorded ⟨inner, index, advanced, false⟩) cursor cancelled pulls).1 =
        inner.take n ∨
      (pull (.recorded ⟨inner, index, advanced, false⟩) cursor cancelled pulls).1 =
        inner.take n ++ [.cancelled replayCancelled]) ∧
    (pull (.recorded ⟨inner, index, advanced, false⟩) cursor cancelled pulls).2 =
      if advanced ||
          !consumes (pull (.recorded ⟨inner, index, advanced, false⟩) cursor cancelled pulls).1
      then cursor else index + 1 := by
  induction pulls with
  | nil =>
    intro inner advanced cursor cancelled hplayable
    refine ⟨⟨0, .inl rfl⟩, ?_⟩
    show cursor = if advanced || true then cursor else index + 1
    rw [Bool.or_true, if_pos rfl]
  | cons raised pulls ih =>
    intro inner advanced cursor cancelled hplayable
    rw [pull]
    by_cases hraised : (cancelled || raised) = true
    · -- The cancellation is delivered and ends the stream.
      simp only [Stream.next, ReplayCursorEvents.next, hraised, if_true, Bool.false_eq_true,
        if_false, pull_emitted]
      refine ⟨⟨0, .inr rfl⟩, ?_⟩
      cases advanced
      · rfl
      · rfl
    rw [Bool.not_eq_true] at hraised
    cases inner with
    | nil =>
      simp only [Stream.next, ReplayCursorEvents.next, hraised, Bool.false_eq_true, if_false]
      exact ih [] advanced cursor false hplayable
    | cons event inner =>
      have hinner : Playable inner := fun e he => hplayable e (List.mem_cons_of_mem _ he)
      by_cases hdone : (isCompletion event && !advanced) = true
      · simp only [Stream.next, ReplayCursorEvents.next, hraised, Bool.false_eq_true, if_false,
          hdone, if_true]
        obtain ⟨⟨n, hshape⟩, hcursor⟩ := ih inner true (index + 1) false hinner
        rw [Bool.and_eq_true, Bool.not_eq_true'] at hdone
        refine ⟨⟨n + 1, ?_⟩, ?_⟩
        · rcases hshape with hshape | hshape
          · exact .inl (by rw [hshape]; rfl)
          · exact .inr (by rw [hshape]; rfl)
        · rw [hcursor, Bool.true_or, if_pos rfl, hdone.2, Option.toList_some,
            List.singleton_append, consumes, List.any_cons, hdone.1]
          rfl
      · simp only [Stream.next, ReplayCursorEvents.next, hraised, Bool.false_eq_true, if_false,
          hdone]
        obtain ⟨⟨n, hshape⟩, hcursor⟩ := ih inner advanced cursor false hinner
        refine ⟨⟨n + 1, ?_⟩, ?_⟩
        · rcases hshape with hshape | hshape
          · exact .inl (by rw [hshape]; rfl)
          · exact .inr (by rw [hshape]; rfl)
        · rw [hcursor, Option.toList_some, List.singleton_append]
          cases advanced with
          | true => rw [Bool.true_or, Bool.true_or]
          | false =>
            have hordinary : ordinary event = true := by
              rcases hplayable event List.mem_cons_self with hordinary | hcompletion
              · exact hordinary
              · rw [hcompletion] at hdone
                exact absurd rfl hdone
            rw [consumes_ordinary hordinary]

theorem replayed_event (names : ToolNames) (event : ProviderEvent) :
    ordinary (names.restoreEvent (normalizeReplayEvent event)) = ordinary event ∧
      isCompletion (names.restoreEvent (normalizeReplayEvent event)) = isCompletion event := by
  rcases event with (_ | _ | _ | _) | _ | _ | _ <;> exact ⟨rfl, rfl⟩

theorem replayed_events (serde : SerdeJson) (names : ToolNames) (body : Text) :
    ∃ before, Ordinary before ∧ (replayedEvents serde names body = before ∨
      replayedEvents serde names body = before ++ [.event .completed]) := by
  obtain ⟨before, hordinary, hevents⟩ := Streaming.body_events_ordinary serde.fromStr body
  refine ⟨names.restoreEvents (before.map normalizeReplayEvent), ?_, ?_⟩
  · intro e he
    rw [ToolNames.restoreEvents, List.map_map, List.mem_map] at he
    obtain ⟨event, hevent, rfl⟩ := he
    exact (replayed_event names event).1.trans (hordinary event hevent)
  · rw [replayedEvents]
    rcases hevents with hevents | hevents
    · exact .inl (by rw [hevents])
    · refine .inr ?_
      rw [hevents, List.map_append, ToolNames.restoreEvents, ToolNames.restoreEvents,
        List.map_append]
      rfl

theorem replayed_playable (serde : SerdeJson) (names : ToolNames) (body : Text) :
    Playable (replayedEvents serde names body) := by
  obtain ⟨before, hordinary, hevents | hevents⟩ := replayed_events serde names body
  · rw [hevents]
    exact fun e he => .inl (hordinary e he)
  · rw [hevents]
    intro e he
    rcases List.mem_append.mp he with he | he
    · exact .inl (hordinary e he)
    · exact .inr (by rw [List.mem_singleton.mp he]; rfl)

theorem ordinary_count {events : List ProviderEvent} (h : Ordinary events) :
    events.countP isCompletion = 0 := by
  rw [List.countP_eq_zero]
  intro e he
  rw [Streaming.ordinary_open h e he]
  exact Bool.false_ne_true

theorem replayed_count (serde : SerdeJson) (names : ToolNames) (body : Text) :
    (replayedEvents serde names body).countP isCompletion ≤ 1 := by
  obtain ⟨before, hordinary, hevents | hevents⟩ := replayed_events serde names body
  · rw [hevents, ordinary_count hordinary]
    exact Nat.zero_le _
  · rw [hevents, List.countP_append, ordinary_count hordinary]
    exact le_rfl

section Answers

variable (serde : SerdeJson) (sha256Hex : Text → Text) (route : Route)
  (recordings : List ReplayRecording)

/-- The recording was made for this request on this route. -/
def Bound (request : ModelRequest) (recording : ReplayRecording) : Prop :=
  recording.requestSha256.any (fun expected => Text.eqIgnoreAsciiCase expected
    (requestSha256ForRoute serde sha256Hex request route)) = true

/-- What a call may deliver while the cursor stands at `index`. -/
inductive Answer (index : ℕ) (call : Call) (outcome : Outcome) : Prop where
  | early (hraised : call.raised = true)
      (hdelivered : outcome.delivered =
        [.cancelled cancelledBeforeProviderStart].take call.pulls.length)
      (husage : outcome.usage = none)
  | refused (message : Text) (hraised : call.raised = false)
      (hdelivered : outcome.delivered = [.failed message].take call.pulls.length)
      (husage : outcome.usage = none)
  | served (recording : ReplayRecording) (n : ℕ) (hraised : call.raised = false)
      (hrecording : recordings[index]? = some recording)
      (hbound : Bound serde sha256Hex route call.request recording)
      (hdelivered :
        outcome.delivered = (replayedEvents serde call.names recording.body).take n ∨
          outcome.delivered = (replayedEvents serde call.names recording.body).take n ++
            [.cancelled replayCancelled])
      (husage : outcome.usage = parseProviderUsageObservation serde recording.body)

/-- A valid route-bound provider over the recordings. -/
structure Sound (provider : RecordedReplayProvider) : Prop where
  valid : provider.invalid = false
  bound : provider.route = some route
  serves : provider.recordings = recordings
  digests : ∀ recording ∈ recordings, recording.requestSha256.isNone = false

variable {serde sha256Hex route recordings}

theorem once_kept (message : Text) (n : ℕ) :
    consumes ([.failed message].take n) = false ∧
      consumes ([.cancelled cancelledBeforeProviderStart].take n) = false := by
  have hother : (cancelledBeforeProviderStart == replayCancelled) = false := by decide
  cases n with
  | zero => exact ⟨rfl, rfl⟩
  | succ n =>
    rw [List.take_succ_cons, List.take_succ_cons]
    simp only [List.take_nil]
    refine ⟨rfl, ?_⟩
    show ((false || (cancelledBeforeProviderStart == replayCancelled)) || false) = false
    rw [hother]
    rfl

theorem bound_of_accepted {provider : RecordedReplayProvider} {request : ModelRequest}
    {recording : ReplayRecording} (hroute : provider.route = some route)
    (hdigest : recording.requestSha256.isNone = false)
    (h : refusal serde sha256Hex provider request recording = none) :
    Bound serde sha256Hex route request recording := by
  rw [refusal] at h
  split at h
  · cases h
  · split at h
    · cases h
    · rename_i hmatch
      rw [callDigest, hroute] at hmatch
      rw [Bound]
      cases hexpected : recording.requestSha256 with
      | none =>
        rw [hexpected] at hdigest
        cases hdigest
      | some expected =>
        rw [hexpected, Option.any_some, Bool.not_eq_true, Bool.not_eq_false'] at hmatch
        exact hmatch

theorem once_answer {provider : RecordedReplayProvider} {call : Call} {event : ProviderEvent}
    (h : stream serde sha256Hex provider call.request call.names call.raised =
      ({ provider with usageObservation := none }, .once (some event))) :
    runCall serde sha256Hex provider call =
      ({ provider with usageObservation := none }, ⟨[event].take call.pulls.length, none⟩) := by
  rw [runCall, h]
  simp only [pull_once, takeUsageObservation, Option.toList_some]

theorem call_answer {provider : RecordedReplayProvider}
    (h : Sound route recordings provider) (call : Call) :
    Answer serde sha256Hex route recordings provider.cursor call
        (runCall serde sha256Hex provider call).2 ∧
      Sound route recordings (runCall serde sha256Hex provider call).1 ∧
      (runCall serde sha256Hex provider call).1.cursor = provider.cursor +
        if consumes (runCall serde sha256Hex provider call).2.delivered then 1 else 0 := by
  have hsound : Sound route recordings { provider with usageObservation := none } :=
    ⟨h.valid, h.bound, h.serves, h.digests⟩
  have hopen : stream serde sha256Hex provider call.request call.names call.raised = _ :=
    if_neg (Bool.eq_false_iff.mp h.valid)
  by_cases hraised : call.raised = true
  · rw [if_pos hraised] at hopen
    rw [once_answer hopen]
    refine ⟨.early hraised rfl rfl, hsound, ?_⟩
    show provider.cursor = _
    rw [(once_kept [] _).2]
    rfl
  rw [if_neg hraised] at hopen
  rw [Bool.not_eq_true] at hraised
  cases hrecording : provider.recordings[provider.cursor]? with
  | none =>
    simp only [hrecording] at hopen
    rw [once_answer hopen]
    refine ⟨.refused _ hraised rfl rfl, hsound, ?_⟩
    show provider.cursor = _
    rw [(once_kept _ _).1]
    rfl
  | some recording =>
    simp only [hrecording] at hopen
    cases hrefusal : refusal serde sha256Hex { provider with usageObservation := none }
      call.request recording with
    | some message =>
      simp only [hrefusal] at hopen
      rw [once_answer hopen]
      refine ⟨.refused _ hraised rfl rfl, hsound, ?_⟩
      show provider.cursor = _
      rw [(once_kept _ _).1]
      rfl
    | none =>
      simp only [hrefusal] at hopen
      rw [h.serves] at hrecording
      have hbound := bound_of_accepted h.bound
        (h.digests recording (List.mem_of_getElem? hrecording)) hrefusal
      obtain ⟨⟨n, hshape⟩, hcursor⟩ := pull_recorded provider.cursor call.pulls
        (replayedEvents serde call.names recording.body) false provider.cursor call.raised
        (replayed_playable serde call.names recording.body)
      rw [Bool.false_or] at hcursor
      rw [runCall, hopen]
      refine ⟨.served recording n hraised hrecording hbound hshape rfl,
        ⟨h.valid, h.bound, h.serves, h.digests⟩, ?_⟩
      simp only [hcursor]
      cases consumes (pull (.recorded ⟨replayedEvents serde call.names recording.body,
        provider.cursor, false, false⟩) provider.cursor call.raised call.pulls).1
      · rfl
      · rfl

theorem first_outcome (serde : SerdeJson) (sha256Hex : Text → Text)
    (provider : RecordedReplayProvider) (call : Call) :
    (runCalls serde sha256Hex provider [call]).2[0]? =
      some (runCall serde sha256Hex provider call).2 := rfl

def consumed (outcomes : List Outcome) : ℕ :=
  outcomes.countP fun outcome => consumes outcome.delivered

theorem consumed_cons (outcome : Outcome) (outcomes : List Outcome) :
    consumed (outcome :: outcomes) =
      (if consumes outcome.delivered then 1 else 0) + consumed outcomes := by
  rw [consumed, List.countP_cons, Nat.add_comm]
  rfl

theorem runs_answer (calls : List Call) : ∀ (provider : RecordedReplayProvider),
    Sound route recordings provider →
    (runCalls serde sha256Hex provider calls).2.length = calls.length ∧
    ∀ k call outcome, calls[k]? = some call →
      (runCalls serde sha256Hex provider calls).2[k]? = some outcome →
      Answer serde sha256Hex route recordings
        (provider.cursor + consumed ((runCalls serde sha256Hex provider calls).2.take k)) call
        outcome := by
  induction calls with
  | nil =>
    intro provider hsound
    exact ⟨rfl, fun k call outcome hcall => by cases hcall⟩
  | cons first calls ih =>
    intro provider hsound
    obtain ⟨hanswer, hkept, hcursor⟩ := call_answer hsound first
    obtain ⟨hlength, hanswers⟩ := ih _ hkept
    rw [runCalls]
    refine ⟨by rw [List.length_cons, List.length_cons, hlength], ?_⟩
    intro k call outcome hcall houtcome
    cases k with
    | zero =>
      obtain rfl := Option.some.inj hcall
      obtain rfl := Option.some.inj houtcome
      exact hanswer
    | succ k =>
      rw [List.getElem?_cons_succ] at hcall houtcome
      have hlater := hanswers k call outcome hcall houtcome
      rwa [hcursor, Nat.add_assoc, ← consumed_cons] at hlater

end Answers

structure Played (serde : SerdeJson) (sha256Hex : Text → Text) (route : Route)
    (recordings : List ReplayRecording) (calls : List Call) (outcomes : List Outcome) : Prop where
  answered : outcomes.length = calls.length
  ordered : ∀ (k : ℕ) (call : Call) (outcome : Outcome), calls[k]? = some call →
    outcomes[k]? = some outcome →
    Answer serde sha256Hex route recordings (consumed (outcomes.take k)) call outcome
  unbound : ∀ (k : ℕ) (call : Call) (outcome : Outcome), calls[k]? = some call →
    outcomes[k]? = some outcome →
    call.raised = false →
    (¬ ∃ recording, recordings[consumed (outcomes.take k)]? = some recording ∧
      Bound serde sha256Hex route call.request recording) →
    (∃ message, outcome.delivered = [.failed message].take call.pulls.length) ∧
      consumes outcome.delivered = false
  early : ∀ (k : ℕ) (call : Call) (outcome : Outcome), calls[k]? = some call →
    outcomes[k]? = some outcome →
    call.raised = true →
    outcome.delivered = [.cancelled cancelledBeforeProviderStart].take call.pulls.length ∧
      consumes outcome.delivered = false
  once : ∀ outcome ∈ outcomes, outcome.delivered.countP isCompletion ≤ 1
  apart : ∀ (j k : ℕ) (first second : Outcome), j < k →
    outcomes[j]? = some first → outcomes[k]? = some second →
    0 < first.delivered.countP isCompletion →
    consumed (outcomes.take j) ≠ consumed (outcomes.take k)

theorem answer_count {serde : SerdeJson} {sha256Hex : Text → Text} {route : Route}
    {recordings : List ReplayRecording} {index : ℕ} {call : Call} {outcome : Outcome}
    (h : Answer serde sha256Hex route recordings index call outcome) :
    outcome.delivered.countP isCompletion ≤ 1 := by
  cases h with
  | early hraised hdelivered husage =>
    rw [hdelivered]
    exact ((List.take_sublist _ _).countP_le).trans (Nat.zero_le 1)
  | refused message hraised hdelivered husage =>
    rw [hdelivered]
    exact ((List.take_sublist _ _).countP_le).trans (Nat.zero_le 1)
  | served recording n hraised hrecording hbound hdelivered husage =>
    have hcount := replayed_count serde call.names recording.body
    have htake :
        ((replayedEvents serde call.names recording.body).take n).countP isCompletion ≤ 1 :=
      (List.take_sublist n _).countP_le.trans hcount
    rcases hdelivered with hdelivered | hdelivered
    · rw [hdelivered]
      exact htake
    · rw [hdelivered, List.countP_append]
      exact htake

theorem completed_consumes {delivered : List ProviderEvent}
    (h : 0 < delivered.countP isCompletion) : consumes delivered = true := by
  obtain ⟨event, hevent, hcompletion⟩ := List.countP_pos_iff.mp h
  exact List.any_eq_true.mpr ⟨event, hevent, by rw [hcompletion]; rfl⟩

theorem consumed_later {outcomes : List Outcome} {j k : ℕ} {first : Outcome} (hlt : j < k)
    (hfirst : outcomes[j]? = some first) (hconsumes : consumes first.delivered = true) :
    consumed (outcomes.take j) < consumed (outcomes.take k) := by
  obtain ⟨hj, hget⟩ := List.getElem?_eq_some_iff.mp hfirst
  have hnext : consumed (outcomes.take (j + 1)) = consumed (outcomes.take j) + 1 := by
    rw [List.take_succ_eq_append_getElem hj, consumed, List.countP_append, hget,
      List.countP_singleton, if_pos hconsumes]
    rfl
  have hmore : consumed (outcomes.take (j + 1)) ≤ consumed (outcomes.take k) :=
    (List.take_sublist_take_left hlt).countP_le
  omega

section Provider

variable (serde : SerdeJson) (sha256Hex : Text → Text)

theorem new_sound (providerId model endpoint protocol : Text) (recordings : List ReplayRecording)
    (hvalid : (newWithRoute serde sha256Hex providerId model endpoint protocol
      recordings).invalid = false) :
    Sound (canonicalProtocol ⟨providerId, endpoint, protocol⟩) recordings
      (newWithRoute serde sha256Hex providerId model endpoint protocol recordings) := by
  refine ⟨hvalid, rfl, ?_, ?_⟩
  · exact if_neg (Bool.eq_false_iff.mp hvalid)
  · have hdigests := (Bool.or_eq_false_iff.mp hvalid).2
    intro recording hrecording
    have hnone := List.any_eq_false.mp hdigests recording hrecording
    rwa [Bool.not_eq_true] at hnone

/-- Playback over a route serves its recordings in order, for their own requests only, and delivers
each completion at most once. -/
theorem playback_ordered (providerId model endpoint protocol : Text)
    (recordings : List ReplayRecording)
    (hvalid : (newWithRoute serde sha256Hex providerId model endpoint protocol
      recordings).invalid = false) (calls : List Call) :
    Played serde sha256Hex (canonicalProtocol ⟨providerId, endpoint, protocol⟩) recordings calls
      (runCalls serde sha256Hex
        (newWithRoute serde sha256Hex providerId model endpoint protocol recordings) calls).2 := by
  have hsound := new_sound serde sha256Hex providerId model endpoint protocol recordings hvalid
  obtain ⟨hlength, hanswers⟩ := @runs_answer serde sha256Hex _ _ calls _ hsound
  have hstart : (newWithRoute serde sha256Hex providerId model endpoint protocol
      recordings).cursor = 0 := rfl
  simp only [hstart, Nat.zero_add] at hanswers
  refine ⟨hlength, hanswers, ?_, ?_, ?_, ?_⟩
  · intro k call outcome hcall houtcome hraised hunbound
    cases hanswers k call outcome hcall houtcome with
    | early hearly hdelivered husage =>
      rw [hraised] at hearly
      cases hearly
    | refused message hlate hdelivered husage =>
      exact ⟨⟨message, hdelivered⟩, by rw [hdelivered]; exact (once_kept message _).1⟩
    | served recording n hlate hrecording hbound hdelivered husage =>
      exact absurd ⟨recording, hrecording, hbound⟩ hunbound
  · intro k call outcome hcall houtcome hraised
    cases hanswers k call outcome hcall houtcome with
    | early hearly hdelivered husage =>
      exact ⟨hdelivered, by rw [hdelivered]; exact (once_kept [] _).2⟩
    | refused message hlate hdelivered husage =>
      rw [hraised] at hlate
      cases hlate
    | served recording n hlate hrecording hbound hdelivered husage =>
      rw [hraised] at hlate
      cases hlate
  · intro outcome houtcome
    obtain ⟨k, hk, hget⟩ := List.getElem_of_mem houtcome
    obtain ⟨call, hcall⟩ : ∃ call, calls[k]? = some call :=
      ⟨_, List.getElem?_eq_getElem (by rwa [← hlength])⟩
    exact answer_count (hanswers k call outcome hcall (List.getElem?_eq_some_iff.mpr ⟨hk, hget⟩))
  · intro j k first second hlt hfirst hsecond hcompleted
    exact (consumed_later hlt hfirst (completed_consumes hcompleted)).ne

end Provider

def playedBody : Text := "\x7b\"choices\":[\x7b\"message\":\x7b\"content\":\"x\"\x7d\x7d]\x7d"

def playedHash : Text := "047b9b3abdbe498903bbb2afb385eea8e60c6ae353eaed6831ba3896e80ab76f"

/-- The document of an empty request on the sample's route, and its SHA-256. -/
def playedRoute : Text :=
  "\x7b\"endpoint\":\"https://h\",\"protocol\":\"openai-completions\",".toList ++
    "\"provider\":\"a\",\"request\":\"".toList ++ RequestDigest.emptyHash ++ "\"\x7d".toList

def playedDigest : Text := "e54872aa390f320a6e56f7ae5b17583687753b669b68d2f1034c3f0b7feeae35"

/-- Agrees with the real digest on the sample's three texts. -/
def playedSha256 (text : Text) : Text :=
  if text = playedBody then playedHash
  else if text = RequestDigest.emptyDocument then RequestDigest.emptyHash
  else if text = playedRoute then playedDigest
  else []

def playedSerde : SerdeJson where
  fromStr text :=
    if text = playedBody then
      some (.object [("choices".toList, .array [.object [("message".toList,
        .object [("content".toList, .string "x".toList)])]])])
    else none
  toStr := anyText

def playedRecording : ReplayRecording where
  identity := ⟨['a'], ['m'], some 200, playedHash, 41, none, none, none, none⟩
  body := playedBody
  requestSha256 := some playedDigest

def playedProvider : RecordedReplayProvider :=
  newWithRoute playedSerde playedSha256 ['a'] ['m'] "https://h" "openai-completions"
    [playedRecording]

theorem played_valid : playedProvider.invalid = false := by decide

def emptyCall (raised : Bool) (pulls : List Bool) : Call := ⟨⟨[], [], none⟩, ⟨[]⟩, raised, pulls⟩

theorem sample_playback : Played playedSerde playedSha256
    (canonicalProtocol ⟨['a'], "https://h", "openai-completions"⟩) [playedRecording]
    [emptyCall false [false, false], emptyCall false [false]]
    (runCalls playedSerde playedSha256 playedProvider
      [emptyCall false [false, false], emptyCall false [false]]).2 :=
  playback_ordered playedSerde playedSha256 ['a'] ['m'] "https://h" "openai-completions"
    [playedRecording] played_valid _

/-- A request that the recording was not made for, cancelled before it starts. -/
def otherCall : Call := ⟨⟨[], [], some []⟩, ⟨[]⟩, true, [false]⟩

theorem other_unbound : ¬ Bound playedSerde playedSha256
    (canonicalProtocol ⟨['a'], "https://h", "openai-completions"⟩) otherCall.request
    playedRecording := by
  rw [Bound, Bool.not_eq_true]
  decide +kernel

/-- Every started call without a recording that is bound to it is refused with one failure. -/
def RefusesUnbound (bound : SerdeJson → (Text → Text) → Route → ModelRequest → ReplayRecording → Prop)
    (started : Call → Prop) : Prop :=
  ∀ (serde : SerdeJson) (sha256Hex : Text → Text) (providerId model endpoint protocol : Text)
    (recordings : List ReplayRecording),
    (newWithRoute serde sha256Hex providerId model endpoint protocol recordings).invalid = false →
    ∀ (calls : List Call) (k : ℕ) (call : Call) (outcome : Outcome), calls[k]? = some call →
      (runCalls serde sha256Hex (newWithRoute serde sha256Hex providerId model endpoint protocol
        recordings) calls).2[k]? = some outcome → started call →
      (¬ ∃ recording, recordings[consumed ((runCalls serde sha256Hex (newWithRoute serde sha256Hex
        providerId model endpoint protocol recordings) calls).2.take k)]? = some recording ∧
        bound serde sha256Hex (canonicalProtocol ⟨providerId, endpoint, protocol⟩) call.request
          recording) →
      ∃ message, outcome.delivered = [.failed message].take call.pulls.length

theorem early_unrefused : ¬ RefusesUnbound Bound fun _ => True := by
  intro hall
  have hsound := new_sound playedSerde playedSha256 ['a'] ['m'] "https://h" "openai-completions"
    [playedRecording] played_valid
  obtain ⟨hanswer, -, -⟩ := @call_answer playedSerde playedSha256 _ _ _ hsound otherCall
  obtain ⟨message, hfailed⟩ := hall playedSerde playedSha256 ['a'] ['m'] "https://h"
    "openai-completions" [playedRecording] played_valid [otherCall] 0 otherCall _ rfl
    (first_outcome playedSerde playedSha256 _ otherCall) trivial (by
      rintro ⟨recording, hrecording, hbound⟩
      obtain rfl := Option.some.inj hrecording
      exact other_unbound hbound)
  cases hanswer with
  | early hraised hdelivered husage =>
    rw [hdelivered] at hfailed
    cases hfailed
  | refused message hraised hdelivered husage => cases hraised
  | served recording n hraised hrecording hbound hdelivered husage => cases hraised

/-- The recording with the same digest in upper case, which the validator accepts too. -/
def upperRecording : ReplayRecording :=
  { playedRecording with
    requestSha256 := some "E54872AA390F320A6E56F7AE5B17583687753B669B68D2F1034C3F0B7FEEAE35" }

def upperProvider : RecordedReplayProvider :=
  newWithRoute playedSerde playedSha256 ['a'] ['m'] "https://h" "openai-completions"
    [upperRecording]

def isRefusal : ProviderEvent → Bool
  | .failed _ => true
  | _ => false

theorem upper_valid : upperProvider.invalid = false := by decide

theorem upper_unequal : upperRecording.requestSha256 ≠
    some (requestSha256ForRoute playedSerde playedSha256 (emptyCall false [false]).request
      (canonicalProtocol ⟨['a'], "https://h", "openai-completions"⟩)) := by
  decide +kernel

theorem upper_served : (runCall playedSerde playedSha256 upperProvider
    (emptyCall false [false])).2.delivered.all isRefusal = false := by
  decide +kernel

/-- The digests are the same text. -/
def SameDigest (serde : SerdeJson) (sha256Hex : Text → Text) (route : Route)
    (request : ModelRequest) (recording : ReplayRecording) : Prop :=
  recording.requestSha256 = some (requestSha256ForRoute serde sha256Hex request route)

theorem upper_unrefused : ¬ RefusesUnbound SameDigest fun call => call.raised = false := by
  intro hall
  obtain ⟨message, hfailed⟩ := hall playedSerde playedSha256 ['a'] ['m'] "https://h"
    "openai-completions" [upperRecording] upper_valid [emptyCall false [false]] 0
    (emptyCall false [false]) _ rfl (first_outcome playedSerde playedSha256 upperProvider _) rfl (by
      rintro ⟨recording, hrecording, hdigest⟩
      obtain rfl := Option.some.inj hrecording
      exact upper_unequal hdigest)
  have hserved := upper_served
  rw [hfailed] at hserved
  cases hserved

/-- Neither an early cancellation nor a digest in other capitals is refused. -/
theorem unbound_departs : (¬ RefusesUnbound Bound fun _ => True) ∧
    ¬ RefusesUnbound SameDigest fun call => call.raised = false :=
  ⟨early_unrefused, upper_unrefused⟩

end Siralos.Playback
