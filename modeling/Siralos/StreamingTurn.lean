import Siralos.ReplayEvents
import Siralos.Sse
import Siralos.StreamRedactor

/-!
# One streamed provider turn

The response is read in chunks and parsed as it arrives. The turn yields an event at a time, and
asks before each step whether the host has cancelled.
-/

set_option autoImplicit false

namespace Siralos.Streaming

open Text Json Provider Redaction

/-- How a byte sequence begins; an incomplete sequence is one that more bytes could complete. -/
inductive Decoded where
  | char (c : Char) (width : ℕ)
  | incomplete
  | invalid (width : ℕ)
  deriving DecidableEq, Repr

def continuation (b : UInt8) : Bool := 0x80 ≤ b && b ≤ 0xBF

/-- The number of bytes that the first one announces. -/
def charWidth (b : UInt8) : ℕ :=
  if b < 0x80 then 1
  else if 0xC2 ≤ b && b ≤ 0xDF then 2
  else if 0xE0 ≤ b && b ≤ 0xEF then 3
  else if 0xF0 ≤ b && b ≤ 0xF4 then 4
  else 0

/-- Overlong forms, surrogates and values past the last scalar are refused at the second byte. -/
def secondByte (first second : UInt8) : Bool :=
  if first = 0xE0 then 0xA0 ≤ second && second ≤ 0xBF
  else if first = 0xED then 0x80 ≤ second && second ≤ 0x9F
  else if first = 0xF0 then 0x90 ≤ second && second ≤ 0xBF
  else if first = 0xF4 then 0x80 ≤ second && second ≤ 0x8F
  else continuation second

def sixBits (b : UInt8) : ℕ := b.toNat % 0x40

def decodeTwo (first second : UInt8) : Char := Char.ofNat (first.toNat % 0x20 * 0x40 + sixBits second)

def decodeThree (first second third : UInt8) : Char :=
  Char.ofNat (first.toNat % 0x10 * 0x1000 + sixBits second * 0x40 + sixBits third)

def decodeFour (first second third fourth : UInt8) : Char :=
  Char.ofNat (first.toNat % 0x08 * 0x40000 + sixBits second * 0x1000 + sixBits third * 0x40 +
    sixBits fourth)

def decodeLong (width : ℕ) (first : UInt8) : List UInt8 → Decoded
  | [] => .incomplete
  | second :: rest =>
    if !secondByte first second then .invalid 1
    else if width = 2 then .char (decodeTwo first second) 2
    else
      match rest with
      | [] => .incomplete
      | third :: rest =>
        if !continuation third then .invalid 2
        else if width = 3 then .char (decodeThree first second third) 3
        else
          match rest with
          | [] => .incomplete
          | fourth :: _ =>
            if continuation fourth then .char (decodeFour first second third fourth) 4
            else .invalid 3

def decodeHead (first : UInt8) (rest : List UInt8) : Decoded :=
  match charWidth first with
  | 0 => .invalid 1
  | 1 => .char (Char.ofNat first.toNat) 1
  | width => decodeLong width first rest

inductive Utf8End where
  | complete
  | incomplete (tail : List UInt8)
  | invalid
  deriving DecidableEq, Repr

/-- `from_utf8`: the text up to the first error, and what kind of end that is. -/
def fromUtf8 : ℕ → List UInt8 → Text × Utf8End
  | _, [] => ([], .complete)
  | skip + 1, _ :: rest => fromUtf8 skip rest
  | 0, b :: rest =>
    match decodeHead b rest with
    | .char c width =>
      let (text, last) := fromUtf8 (width - 1) rest
      (c :: text, last)
    | .incomplete => ([], .incomplete (b :: rest))
    | .invalid _ => ([], .invalid)

def replacement : Char := '\uFFFD'

def fromUtf8Lossy : ℕ → List UInt8 → Text
  | _, [] => []
  | skip + 1, _ :: rest => fromUtf8Lossy skip rest
  | 0, b :: rest =>
    match decodeHead b rest with
    | .char c width => c :: fromUtf8Lossy (width - 1) rest
    | .incomplete => [replacement]
    | .invalid width => replacement :: fromUtf8Lossy (width - 1) rest

/-- An incomplete sequence at the end waits for the next read. -/
def takeText (bytes : List UInt8) : Text × List UInt8 :=
  match fromUtf8 0 bytes with
  | (text, .complete) => (text, [])
  | (text, .incomplete tail) => (text, tail)
  | (_, .invalid) => (fromUtf8Lossy 0 bytes, [])

example : takeText [0x61, 0xC3] = (['a'], [0xC3]) := by decide

/-- The alias that the provider sees, beside the real name. -/
structure ToolNames where
  pairs : List (Text × Text)
  deriving DecidableEq, Repr

namespace ToolNames

def real (names : ToolNames) (taken : Text) : Option Text :=
  (names.pairs.find? fun pair => pair.1 == taken).map Prod.snd

def restoreEvent (names : ToolNames) : ProviderEvent → ProviderEvent
  | .event (.toolCall callId toolName input) =>
    .event (.toolCall callId ((names.real toolName).getD toolName) input)
  | other => other

def restoreEvents (names : ToolNames) (events : List ProviderEvent) : List ProviderEvent :=
  events.map names.restoreEvent

end ToolNames

inductive Read where
  | bytes (chunk : List UInt8)
  | failed
  deriving DecidableEq, Repr

inductive StreamState where
  | reading
  /-- The response is finished; drain what is queued, then stop. -/
  | draining
  | done
  deriving DecidableEq, Repr

/-- A response that has no reads left is at the end of its body. -/
structure StreamingTurn where
  response : List Read
  provider : Text
  toolNames : ToolNames
  redactor : StreamingSecretRedactor
  assembler : Sse.CompletionStream
  pendingBytes : List UInt8 := []
  queued : List ProviderEvent := []
  state : StreamState := .reading
  deriving Repr

def isFailure : ProviderEvent → Bool
  | .failed _ => true
  | _ => false

def isCompletion : ProviderEvent → Bool
  | .event .completed => true
  | _ => false

def redactEvents (serde : SerdeJson) (r : StreamingSecretRedactor) :
    List ProviderEvent → StreamingSecretRedactor × List ProviderEvent
  | [] => (r, [])
  | event :: events =>
    let (r, event) := r.redactEvent serde event
    let (r, events) := redactEvents serde r events
    (r, event :: events)

/-- In front of the last completion, or behind everything. -/
def insertTail (delta : ProviderEvent) (queued : List ProviderEvent) : List ProviderEvent :=
  match queued.reverse.findIdx? isCompletion with
  | some behind =>
    let completed := queued.length - 1 - behind
    queued.take completed ++ delta :: queued.drop completed
  | none => queued ++ [delta]

def cancelledMessage : Text := "Host cancelled during the streamed response"

def noCompletionMessage : Text := "provider returned no completion event"

def readFailedMessage (provider : Text) : Text :=
  provider ++ " response read failed before completion"

/-- What one round of the loop in `next` ends with. -/
inductive Pass where
  | again
  | finished
  | yielded (event : ProviderEvent)
  deriving Repr

namespace StreamingTurn

def new (response : List Read) (provider : Text) (toolNames : ToolNames)
    (redaction : Option Text) : StreamingTurn where
  response := response
  provider := provider
  toolNames := toolNames
  redactor := StreamingSecretRedactor.new redaction
  assembler := Sse.new Sse.maxResponseBytes

variable (serde : SerdeJson)

def redactInto (t : StreamingTurn) (events : List ProviderEvent) : StreamingTurn :=
  let redacted := redactEvents serde t.redactor (t.toolNames.restoreEvents events)
  { t with redactor := redacted.1, queued := t.queued ++ redacted.2 }

def flushRedactionTail (t : StreamingTurn) : StreamingTurn :=
  match t.redactor.finish with
  | (redactor, none) => { t with redactor }
  | (redactor, some tail) =>
    { t with redactor, queued := insertTail (.event (.textDelta tail)) t.queued }

/-- The last events of the assembler, at the end of the body. -/
def finalEvents (s : Sse.CompletionStream) : Sse.CompletionStream × List ProviderEvent :=
  let (s, events) :=
    match s.plainBody with
    | some body => (s, Replay.completionEventsFromBody serde.fromStr body)
    | none => Sse.finish serde.fromStr s
  if events.isEmpty && !s.assembly.completed then (s, [.failed noCompletionMessage])
  else (s, events)

def readEnd (t : StreamingTurn) : StreamingTurn :=
  let (assembler, events) := finalEvents serde t.assembler
  { (redactInto serde { t with assembler } events).flushRedactionTail with state := .draining }

def endsTurn (s : Sse.CompletionStream) (events : List ProviderEvent) : Bool :=
  s.assembly.failed || events.any isFailure || s.assembly.completed

def readChunk (t : StreamingTurn) (chunk : List UInt8) : StreamingTurn :=
  let (text, pendingBytes) := takeText (t.pendingBytes ++ chunk)
  let (assembler, events) := Sse.pushChunk serde.fromStr t.assembler text
  { redactInto serde { t with assembler, pendingBytes } events with
    state := if endsTurn assembler events then .draining else t.state }

def read (t : StreamingTurn) : StreamingTurn × Pass :=
  match t.response with
  | [] | .bytes [] :: _ => (readEnd serde t, .again)
  | .bytes chunk :: response => (readChunk serde { t with response } chunk, .again)
  | .failed :: response =>
    ({ t with response, state := .done }, .yielded (.failed (readFailedMessage t.provider)))

/-- One round of the loop in `next`; `cancelled` is what the host answers in it. -/
def pass (cancelled : Bool) (t : StreamingTurn) : StreamingTurn × Pass :=
  if t.state = .done then (t, .finished)
  else if !t.assembler.assembly.completed && cancelled then
    ({ t with state := .done, queued := [] }, .yielded (.cancelled cancelledMessage))
  else
    match t.queued with
    | event :: queued => ({ t with queued }, .yielded event)
    | [] =>
      if t.state = .draining then ({ t with state := .done }, .finished) else read serde t

/-- What the iterator yields over the rounds, one answer of the host for each of them. -/
def collect : List Bool → StreamingTurn → List ProviderEvent
  | [], _ => []
  | cancelled :: polls, t =>
    match pass serde cancelled t with
    | (t, .again) => collect polls t
    | (t, .yielded event) => event :: collect polls t
    | (_, .finished) => []

end StreamingTurn

end Siralos.Streaming
