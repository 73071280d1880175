import Siralos.Emission
import Siralos.Provider

/-!
# The streamed completion assembler

`CompletionStream` turns server-sent-event text back into provider events. The
fields its line reader works on are kept apart in `Assembly`; the byte budget,
the partial line and the plain-body mode belong to the stream around it.
-/

set_option autoImplicit false

namespace Siralos.Sse
open Text Json Provider Emission

def maxResponseBytes : ℕ := 1024 * 1024
def maxStreamedToolCalls : ℕ := 64
def maxStreamEvents : ℕ := 4096
def maxModeProbeBytes : ℕ := 4096
def maxProviderToolNameBytes : ℕ := 64

def validStreamText (text : Text) : Bool :=
  text.all fun c => !isControl c || c == '\n' || c == '\r' || c == '\t'

def validMetadataText (text : Text) (maxBytes : ℕ) : Bool :=
  !text.isEmpty && utf8Len text ≤ maxBytes && text.all fun c => !isControl c

mutual

def boundedMetadataValue : Value → ℕ → Bool
  | value, depth =>
    depth ≤ 8 && match value with
      | .string text => validMetadataText text 4096
      | .array values => values.length ≤ 64 && boundedMetadataValues values (depth + 1)
      | .object fields => fields.length ≤ 64 && boundedMetadataFields fields (depth + 1)
      | _ => true

def boundedMetadataValues : List Value → ℕ → Bool
  | [], _ => true
  | value :: values, depth => boundedMetadataValue value depth && boundedMetadataValues values depth

def boundedMetadataFields : List (Text × Value) → ℕ → Bool
  | [], _ => true
  | (key, value) :: fields, depth =>
    validMetadataText key 128 && boundedMetadataValue value depth &&
      boundedMetadataFields fields depth

end

structure PartialCall where
  id : Text := []
  name : Text := []
  arguments : Text := []
  deriving DecidableEq, Repr

structure Assembly where
  eventId : Text := []
  eventType : Option Text := none
  model : Text := []
  content : Text := []
  reasoning : Text := []
  calls : List PartialCall := []
  finishReason : Option Text := none
  usage : Option Value := none
  completed : Bool := false
  eventCount : ℕ := 0
  failed : Bool := false
  deriving Repr

abbrev Reader (α : Type) := Emission Assembly ProviderEvent α

def fail (a : Assembly) : Assembly := { a with failed := true }

/-- `self.failed = true; events.push(Failed(message)); return`. -/
def reject {α : Type} (message : Text) : Reader α := do
  update fail
  emit (.failed message)
  leave

def ensure (condition : Bool) (message : Text) : Reader Unit :=
  if condition then pure () else reject message

def require {α : Type} (value : Option α) (message : Text) : Reader α :=
  match value with
  | some value => pure value
  | none => reject message

def present {α : Type} (value : Option α) (read : α → Reader Unit) : Reader Unit :=
  match value with
  | some value => read value
  | none => pure ()

def emitEvent (event : ProviderEvent) : Reader Unit := do
  let a ← observe
  ensure (decide (a.eventCount < maxStreamEvents)) "provider SSE event count exceeds its bound"
  update fun a => { a with eventCount := a.eventCount + 1 }
  emit event

def consumeId (value : Value) : Reader Unit :=
  present (value.get "id" >>= Value.asStr) fun id => do
    ensure (validMetadataText id 256) "provider SSE event id is invalid"
    update fun a => if a.eventId.isEmpty then { a with eventId := id } else a

def consumeModel (value : Value) : Reader Unit :=
  present (value.get "model" >>= Value.asStr) fun model => do
    ensure (validMetadataText model 256) "provider SSE model metadata is invalid"
    update fun a => if a.model.isEmpty then { a with model := model } else a

def consumeUsage (value : Value) : Reader Unit :=
  present (value.get "usage") fun usage =>
    if usage.isNull then pure () else do
      ensure (boundedMetadataValue usage 0) "provider SSE usage metadata is invalid"
      update fun a => { a with usage := some usage }

/-- A status text fails whether or not it is one of the listed failure words:
the arm after the number arm catches every other value. -/
def statusFailed (value : Value) : Bool :=
  match value.get "status" with
  | some (.string _) => true
  | some (.number status) => !(match (Value.number status).asU64 with
    | some status => 200 ≤ status && status < 300
    | none => false)
  | some .null | none => false
  | some _ => true

def updateSlot (index : ℕ) (f : PartialCall → PartialCall) : Reader Unit :=
  update fun a => { a with calls := a.calls.modify index f }

/-- `while self.calls.len() <= index { self.calls.push(..) }` -/
def growCalls (index : ℕ) : Reader Unit :=
  update fun a => { a with calls := a.calls ++ List.replicate (index + 1 - a.calls.length) {} }

def consumeCallId (index : ℕ) (call : Value) : Reader Unit :=
  present (call.get "id") fun idValue => do
    let id ← require idValue.asStr "provider SSE tool call id must be text"
    ensure (validMetadataText id 256) "provider SSE tool call id is invalid"
    updateSlot index fun slot =>
      if !id.isEmpty && slot.id.isEmpty then { slot with id := id } else slot

def consumeCallName (index : ℕ) (function : Value) : Reader Unit :=
  present (function.get "name") fun nameValue => do
    let name ← require nameValue.asStr "provider SSE tool call name must be text"
    ensure (validMetadataText name maxProviderToolNameBytes)
      "provider SSE tool call name is invalid"
    updateSlot index fun slot =>
      if !name.isEmpty && slot.name.isEmpty then { slot with name := name } else slot

def consumeCallArguments (index : ℕ) (function : Value) : Reader Unit :=
  present (function.get "arguments") fun argsValue => do
    let args ← require argsValue.asStr "provider SSE tool arguments must be text"
    ensure (validStreamText args) "provider SSE tool arguments contain an unsupported control"
    updateSlot index fun slot => { slot with arguments := slot.arguments ++ args }

def consumeCallFunction (index : ℕ) (call : Value) : Reader Unit :=
  present (call.get "function") fun function => do
    ensure function.isObject "provider SSE tool call function must be an object"
    consumeCallName index function
    consumeCallArguments index function

def consumeCall (call : Value) : Reader Unit := do
  let index ← require (call.get "index" >>= Value.asU64) "provider SSE tool call index is invalid"
  ensure (decide (index < maxStreamedToolCalls)) "provider SSE tool call index exceeds its bound"
  growCalls index
  consumeCallId index call
  consumeCallFunction index call

def consumeCalls (delta : Value) : Reader Unit :=
  present (delta.get "tool_calls") fun rawCalls => do
    let calls ← require rawCalls.asArray "provider SSE tool_calls must be an array"
    each consumeCall calls

def consumeContent (delta : Value) : Reader Unit :=
  present (delta.get "content" >>= Value.asStr) fun text => do
    ensure (validStreamText text) "provider SSE text contains an unsupported control"
    if text.isEmpty then pure () else do
      update fun a => { a with content := a.content ++ text }
      emitEvent (.event (.textDelta text))

def consumeReasoning (delta : Value) (field : Text) : Reader Unit :=
  present (delta.get field >>= Value.asStr) fun text => do
    ensure (validStreamText text) "provider SSE reasoning contains an unsupported control"
    if text.isEmpty then pure () else do
      update fun a => { a with reasoning := a.reasoning ++ text }
      emitEvent (.event (.reasoningDelta text))

def consumeFinishReason (choice : Value) : Reader Unit :=
  present (choice.get "finish_reason" >>= Value.asStr) fun reason => do
    ensure (!eqIgnoreAsciiCase reason "error") "provider SSE choice contains an explicit error"
    ensure (validMetadataText reason 64) "provider SSE finish metadata is invalid"
    update fun a => { a with finishReason := some reason }

def consumeChoice (choice : Value) : Reader Unit := do
  ensure (choice.get "error").isNone "provider SSE choice contains an explicit error"
  consumeFinishReason choice
  let delta ← require (choice.get "delta") "provider SSE choice is missing delta"
  ensure delta.isObject "provider SSE delta must be an object"
  consumeContent delta
  each (consumeReasoning delta) ["reasoning".toList, "reasoning_content".toList]
  consumeCalls delta

def consumeChoices (choices : List Value) : Reader Unit := do
  let a ← observe
  if choices.isEmpty then
    if a.usage.isSome then leave else reject "provider SSE frame contains no choices"
  else do
    ensure (decide (choices.length ≤ 1)) "provider SSE frame contains multiple choices"
    each consumeChoice choices

def consumeFrame (value : Value) : Reader Unit := do
  consumeId value
  consumeModel value
  consumeUsage value
  ensure (value.get "error").isNone "provider SSE frame contains an explicit error"
  ensure (!statusFailed value) "provider SSE frame reports a failed status"
  let choices ← require (value.get "choices" >>= Value.asArray)
    "provider SSE frame is missing choices"
  consumeChoices choices

/-- One slot at the commit: skipped, refused with a message, or a call to emit. -/
def commitCall (parse : Text → Option Value) (call : PartialCall) :
    Except Text (Option ProviderEvent) :=
  if call.name.isEmpty then
    if call.id.isEmpty && call.arguments.isEmpty then .ok none
    else .error "provider SSE tool call is missing its name"
  else if call.id.isEmpty then .error "provider SSE tool call is missing its id"
  else if 256 < utf8Len call.id || maxProviderToolNameBytes < utf8Len call.name ||
      call.id.any isControl || call.name.any isControl then
    .error "provider SSE tool call identifier is invalid"
  else match parse call.arguments with
    | none => .error "provider SSE tool arguments are not valid JSON"
    | some input =>
      if input.isObject then .ok (some (.event (.toolCall call.id call.name (.fromValue input))))
      else .error "provider SSE tool arguments must be an object"

/-- The loop of `commit`. An early `return` hands back its own list (`.error`)
and drops the local one; past the event bound it hands back nothing at all. -/
def commitCalls (parse : Text → Option Value) :
    List PartialCall → Assembly → List ProviderEvent →
      Assembly × Except (List ProviderEvent) (List ProviderEvent)
  | [], a, events => (a, .ok events)
  | call :: calls, a, events =>
    match commitCall parse call with
    | .error message => (fail a, .error [.failed message])
    | .ok none => commitCalls parse calls a events
    | .ok (some event) =>
      match (emitEvent event).run a with
      | (some _, a, emitted) => commitCalls parse calls a (events ++ emitted)
      | (none, a, _) => (a, .error [])

def usable (a : Assembly) : Bool :=
  !a.content.isEmpty || !a.reasoning.isEmpty || a.calls.any fun call =>
    !call.name.isEmpty || !call.id.isEmpty || !call.arguments.isEmpty

def commit (parse : Text → Option Value) (a : Assembly) : Assembly × List ProviderEvent :=
  if a.completed || a.failed then (a, [])
  else match commitCalls parse a.calls a [] with
    | (a, .error events) => (a, events)
    | (a, .ok events) =>
      if usable a then
        match (emitEvent (.event .completed)).run { a with completed := true } with
        | (some _, a, emitted) => (a, events ++ emitted)
        | (none, a, _) => (a, [])
      else (fail a, [.failed "provider SSE completed without a usable event"])

def consumeEvent (event : Text) : Reader Unit := do
  ensure (validMetadataText event 128) "provider SSE event type is invalid"
  update fun a => { a with eventType := some event }
  ensure (!eqIgnoreAsciiCase event "error") "provider SSE event declares an error"

/-- `events.extend(self.commit()); return`. -/
def commitLine (parse : Text → Option Value) : Reader Unit := ⟨fun a => (none, commit parse a)⟩

/-- The source tests `self.completed` once more here; no run gets to that test
with the flag set, since the reader has left before. -/
def consumeData (parse : Text → Option Value) (data : Text) : Reader Unit := do
  let a ← observe
  ensure (!a.completed) "provider SSE frame arrived after [DONE]"
  if data = ("[DONE]" : Text) then commitLine parse
  else do
    let value ← require (parse data) "provider SSE frame is not valid JSON"
    consumeFrame value

def consumeLine (parse : Text → Option Value) (line : Text) : Reader Unit := do
  let a ← observe
  if a.failed || a.completed then leave else do
    let line := trim line
    if line.isEmpty || startsWith ":" line then leave
    else match stripPrefix "event:" line with
      | some event => consumeEvent (trim event)
      | none => match stripPrefix "data:" line with
        | some data => consumeData parse (trim data)
        | none => leave

/-- The complete lines of a buffer, without their newlines, and the rest. -/
def cutLines : Text → List Text × Text
  | [] => ([], [])
  | c :: t =>
    let (lines, rest) := cutLines t
    if c = '\n' then ([] :: lines, rest)
    else match lines with
      | [] => ([], c :: rest)
      | line :: lines => ((c :: line) :: lines, rest)

/-- The line loop of `push_chunk`: it stops at the first failure. -/
def consumeLines (parse : Text → Option Value) :
    List Text → Assembly → Assembly × List ProviderEvent
  | [], a => (a, [])
  | line :: lines, a =>
    let (_, a, events) := (consumeLine parse (trimEndMatches '\r' line)).run a
    if a.failed then (a, events)
    else
      let (a, more) := consumeLines parse lines a
      (a, events ++ more)

structure CompletionStream where
  bytes : ℕ := 0
  limit : ℕ
  pending : Text := []
  plainBody : Option Text := none
  assembly : Assembly := {}
  deriving Repr

def new (limit : ℕ) : CompletionStream := { limit := min limit maxResponseBytes }

def isCompleted (s : CompletionStream) : Bool := s.assembly.completed

def isFailed (s : CompletionStream) : Bool := s.assembly.failed

def byteOrderMark : Char := '\uFEFF'

def stripMark (t : Text) : Text := (stripPrefix [byteOrderMark] t).getD t

/-- Where `push_chunk` sends a chunk. -/
inductive Route where
  | ended
  | overLimit
  | plain (body : Text)
  | morePlain (body : Text)
  | held (pending : Text)
  | ambiguous
  | lines (buffer : Text)
  deriving DecidableEq, Repr

def startsJson (head : Text) : Bool := startsWith "\x7b" head || startsWith "[" head

/-- The mode probe over the held text and a chunk. -/
def probe (pending chunk : Text) : Route :=
  let text := pending ++ chunk
  let head := trimStart (stripMark text)
  if startsJson head then .plain (stripMark text)
  else if head.isEmpty then
    if maxModeProbeBytes < utf8Len pending + utf8Len chunk then .ambiguous else .held text
  else if !pending.isEmpty && (trim pending).isEmpty then .lines chunk
  else .lines text

def route (s : CompletionStream) (chunk : Text) : Route :=
  if s.assembly.failed || s.assembly.completed then .ended
  else if s.limit < s.bytes + utf8Len chunk then .overLimit
  else match s.plainBody with
    | some body => .morePlain (body ++ chunk)
    | none => probe s.pending chunk

def limitMessage (chunk limit : ℕ) : Text :=
  ofNat chunk ++ (" more bytes would exceed the " : Text) ++ ofNat limit ++
    ("-byte response bound" : Text)

def tooAmbiguous : Text := "provider response framing is too ambiguous"

def failWith (s : CompletionStream) (message : Text) : CompletionStream × List ProviderEvent :=
  ({ s with assembly := fail s.assembly }, [.failed message])

/-- A failure leaves the partial line behind it dropped. -/
def pushLines (parse : Text → Option Value) (s : CompletionStream) (buffer : Text) :
    CompletionStream × List ProviderEvent :=
  let (lines, rest) := cutLines buffer
  let (a, events) := consumeLines parse lines s.assembly
  ({ s with assembly := a, pending := if a.failed then [] else rest }, events)

def accept (s : CompletionStream) (chunk : Text) : CompletionStream :=
  { s with bytes := s.bytes + utf8Len chunk }

def pushChunk (parse : Text → Option Value) (s : CompletionStream) (chunk : Text) :
    CompletionStream × List ProviderEvent :=
  match route s chunk with
  | .ended => (s, [])
  | .overLimit =>
    failWith { s with bytes := s.limit + 1 } (limitMessage (utf8Len chunk) s.limit)
  | .plain body => ({ accept s chunk with pending := [], plainBody := some body }, [])
  | .morePlain body => ({ accept s chunk with plainBody := some body }, [])
  | .held pending => ({ accept s chunk with pending := pending }, [])
  | .ambiguous => failWith (accept s chunk) tooAmbiguous
  | .lines buffer => pushLines parse (accept s chunk) buffer

def endedEarly : Text := "provider stream ended before an explicit [DONE]"

/-- The last line of a stream that ends without a newline. -/
def flushTail (parse : Text → Option Value) (a : Assembly) (pending : Text) :
    Assembly × List ProviderEvent :=
  let tail := trim pending
  if tail.isEmpty then (a, []) else ((consumeLine parse tail).run a).2

def endStream (a : Assembly) : Assembly × List ProviderEvent :=
  if !a.failed && !a.completed then (fail a, [.failed endedEarly]) else (a, [])

def finish (parse : Text → Option Value) (s : CompletionStream) :
    CompletionStream × List ProviderEvent :=
  if s.assembly.failed then (s, [])
  else
    let flushed := flushTail parse s.assembly s.pending
    let ended := if s.plainBody.isSome then (flushed.1, []) else endStream flushed.1
    ({ s with pending := [], assembly := ended.1 }, flushed.2 ++ ended.2)

def callValue (call : PartialCall) : Value :=
  .object [
    ("function".toList, .object [
      ("arguments".toList, .string call.arguments),
      ("name".toList, .string call.name)]),
    ("id".toList, .string call.id),
    ("type".toList, .string "function")]

def recordedCalls (a : Assembly) : List Value :=
  (a.calls.filter fun call => !call.name.isEmpty && !call.id.isEmpty).map callValue

def recordedMessage (a : Assembly) : Value :=
  .object (
    (if a.content.isEmpty then [] else [("content".toList, .string a.content)]) ++
    (if a.reasoning.isEmpty then [] else [("reasoning".toList, .string a.reasoning)]) ++
    [("role".toList, .string "assistant")] ++
    (if (recordedCalls a).isEmpty then [] else [("tool_calls".toList, .array (recordedCalls a))]))

/-- The non-streamed body equivalent to what was streamed. -/
def assembledBody (a : Assembly) : Value :=
  .object ([
    ("choices".toList, .array [.object [
      ("finish_reason".toList, match a.finishReason with
        | some reason => .string reason
        | none => .null),
      ("index".toList, .number (.posInt 0)),
      ("message".toList, recordedMessage a)]]),
    ("id".toList, .string a.eventId),
    ("model".toList, .string a.model)] ++
    match a.usage with
    | some usage => [("usage".toList, usage)]
    | none => [])

def pushChunks (parse : Text → Option Value) :
    CompletionStream → List Text → CompletionStream × List ProviderEvent
  | s, [] => (s, [])
  | s, chunk :: chunks =>
    let (s, events) := pushChunk parse s chunk
    let (s, more) := pushChunks parse s chunks
    (s, events ++ more)

/-- Every chunk pushed in order, then `finish`. -/
def run (parse : Text → Option Value) (limit : ℕ) (chunks : List Text) :
    CompletionStream × List ProviderEvent :=
  let (s, events) := pushChunks parse (new limit) chunks
  let (s, more) := finish parse s
  (s, events ++ more)

end Siralos.Sse
