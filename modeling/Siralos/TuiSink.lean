import Siralos.Cursor
import Siralos.Sanitize
import Siralos.StreamingTurn

/-!
# The terminal's buffers

The answer and the thinking wait in two buffers with byte cursors. Pushes and writes append what
fits, and a painted frame releases a single character.
-/

set_option autoImplicit false

namespace Siralos.Reveal

open Cursor Text

def maxTranscriptLines : ℕ := 1000

def maxTranscriptLineBytes : ℕ := 64 * 1024

def reasoningBytes : ℕ := 8192

def maxStreamBytes : ℕ := 1024 * 1024

def maxReasoningBufferBytes : ℕ := 64 * 1024

def tailMarker : Text := "...[truncated]"

def lineMarker : Text := "... (line truncated)"

def streamBoundStatus : Text := "response truncated at the TUI stream bound"

def reasoningBoundStatus : Text := "reasoning truncated at the TUI buffer bound"

def streamBoundError : Text := "TUI stream byte bound reached"

def truncateUtf8Bytes (text : Text) (maxBytes : ℕ) : Text :=
  if utf8Len text ≤ maxBytes then text else fit Char.utf8Size maxBytes 0 text

structure TranscriptEntry where
  text : Text
  timestamp : Option Text
  deriving DecidableEq, Repr

/-- The fields of the state that the reveal reads and writes. -/
structure TuiState where
  transcript : List TranscriptEntry
  transcriptLines : List Text
  status : Text
  reasoning : Text
  reasoningShown : ℕ
  reasoningAnchor : ℕ
  pendingReasoningAnchor : Option ℕ
  streamBuffer : Text
  streamCursor : ℕ
  streamTail : Text
  deriving DecidableEq, Repr

inductive Channel where
  | reasoning
  | stream
  deriving DecidableEq, Repr

namespace TuiState

def new : TuiState :=
  { transcript := [], transcriptLines := [], status := "ready", reasoning := [],
    reasoningShown := 0, reasoningAnchor := 0, pendingReasoningAnchor := none, streamBuffer := [],
    streamCursor := 0, streamTail := [] }

def effectiveTranscriptLen (s : TuiState) : ℕ :=
  if !s.transcript.isEmpty || s.transcriptLines.isEmpty then s.transcript.length
  else s.transcriptLines.length

def pushSingleStamped (timestamp : Option Text) (s : TuiState) (line : Text) : TuiState :=
  let line :=
    if maxTranscriptLineBytes < utf8Len line then
      truncateUtf8Bytes line (maxTranscriptLineBytes - utf8Len lineMarker) ++ lineMarker
    else line
  let entries :=
    if maxTranscriptLines ≤ s.transcript.length then
      s.transcript.drop (s.transcript.length - maxTranscriptLines + 1)
    else s.transcript
  let lines :=
    if maxTranscriptLines ≤ s.transcriptLines.length then
      s.transcriptLines.drop (s.transcriptLines.length - maxTranscriptLines + 1)
    else s.transcriptLines
  { s with
    transcript := entries ++ [⟨line, timestamp⟩]
    transcriptLines := lines ++ [line] }

def pushLineStamped (s : TuiState) (line : Text) (timestamp : Option Text) : TuiState :=
  if line.contains '\n' then (line.splitOn '\n').foldl (pushSingleStamped timestamp) s
  else pushSingleStamped timestamp s line

def pushLine (s : TuiState) (line : Text) : TuiState := s.pushLineStamped line none

/-- The tail with its marker; `truncate` panics off a boundary. -/
def markTail (tail : Text) : Option Text :=
  if tailMarker.isSuffixOf tail then some tail
  else
    let keep := lastBoundary Char.utf8Size tail (maxStreamBytes - utf8Len tailMarker)
    (cut Char.utf8Size keep tail).map fun parts => parts.1 ++ tailMarker

def growTail (tail : Text) (c : Char) : Option Text :=
  if maxStreamBytes ≤ utf8Len tail then markTail tail
  else if c.utf8Size ≤ maxStreamBytes - utf8Len tail then some (tail ++ [c])
  else markTail tail

def placeChar (s : TuiState) (c : Char) : Option TuiState :=
  if c = '\n' then some (pushLine { s with streamTail := [] } s.streamTail)
  else (growTail s.streamTail c).map fun tail => { s with streamTail := tail }

/-- The cursor of the answer moves past the character; `split_off` panics off a boundary. -/
def advanceStream (s : TuiState) (c : Char) : Option TuiState :=
  let cursor := s.streamCursor + c.utf8Size
  if utf8Len s.streamBuffer ≤ cursor then some { s with streamBuffer := [], streamCursor := 0 }
  else if 64 * 1024 < cursor then
    (cut Char.utf8Size cursor s.streamBuffer).map fun parts =>
      { s with streamBuffer := parts.2, streamCursor := 0 }
  else some { s with streamCursor := cursor }

def revealStream (s : TuiState) : Option (TuiState × Option (Channel × Char)) :=
  let s := if utf8Len s.streamBuffer < s.streamCursor then { s with streamCursor := 0 } else s
  match cut Char.utf8Size s.streamCursor s.streamBuffer with
  | none => none
  | some (_, []) => some (s, none)
  | some (_, c :: _) => do
    let advanced ← s.advanceStream c
    let placed ← advanced.placeChar c
    some (placed, some (.stream, c))

/-- The state behind the frame and what it released, or nothing where a slice panics. -/
def revealChar (s : TuiState) : Option (TuiState × Option (Channel × Char)) :=
  if s.reasoningShown < utf8Len s.reasoning then
    match cut Char.utf8Size s.reasoningShown s.reasoning with
    | some (_, c :: _) =>
      some ({ s with reasoningShown := s.reasoningShown + c.utf8Size }, some (.reasoning, c))
    | _ => none
  else s.revealStream

def takeAnchor (s : TuiState) : TuiState :=
  match s.pendingReasoningAnchor with
  | none => s
  | some anchor =>
    { s with
      pendingReasoningAnchor := none
      reasoningAnchor := min anchor s.effectiveTranscriptLen }

/-- The text of a push that fits, beside everything the buffer holds. -/
def acceptReasoning (s : TuiState) (text : Text) : TuiState × Text :=
  let remaining := maxReasoningBufferBytes - utf8Len s.reasoning
  if utf8Len text ≤ remaining then ({ s with reasoning := s.reasoning ++ text }, text)
  else
    let accepted := truncateUtf8Bytes text remaining
    ({ s with reasoning := s.reasoning ++ accepted, status := reasoningBoundStatus }, accepted)

/-- The revealed front beyond the bound goes; `drain` panics off a boundary. -/
def trimReasoning (s : TuiState) : Option (TuiState × Text) :=
  let excess := utf8Len s.reasoning - reasoningBytes
  let droppable := min excess s.reasoningShown
  if droppable = 0 then some (s, [])
  else
    let boundary := firstBoundary Char.utf8Size droppable 0 s.reasoning
    (cut Char.utf8Size boundary s.reasoning).map fun parts =>
      ({ s with reasoning := parts.2, reasoningShown := s.reasoningShown - boundary }, parts.1)

/-- The state, the text accepted, and the text removed from the front. -/
def pushReasoning (s : TuiState) (text : Text) : Option (TuiState × Text × Text) :=
  let accepted := s.takeAnchor.acceptReasoning text
  accepted.1.trimReasoning.map fun trimmed => (trimmed.1, accepted.2, trimmed.2)

def buffer (s : TuiState) : Channel → Text
  | .reasoning => s.reasoning
  | .stream => s.streamBuffer

def cursor (s : TuiState) : Channel → ℕ
  | .reasoning => s.reasoningShown
  | .stream => s.streamCursor

def unrevealed (s : TuiState) (channel : Channel) : ℕ :=
  utf8Len (s.buffer channel) - s.cursor channel

end TuiState

structure TuiSink where
  state : TuiState
  sanitizer : Sanitize.TerminalSanitizer
  pendingUtf8 : List UInt8
  deriving DecidableEq, Repr

namespace TuiSink

def new : TuiSink := ⟨TuiState.new, Sanitize.TerminalSanitizer.new, []⟩

/-- The sink behind the decoder and the sanitizer, and the text they hand on. -/
def decode (s : TuiSink) (bytes : List UInt8) : TuiSink × Text :=
  let combined := s.pendingUtf8 ++ bytes.take (min bytes.length maxStreamBytes)
  let taken := Streaming.takeText combined
  let pushed := s.sanitizer.push taken.1
  ({ s with sanitizer := pushed.1, pendingUtf8 := taken.2 }, pushed.2)

def truncated (s : TuiSink) : TuiSink := { s with state.status := streamBoundStatus }

/-- The sink, the text accepted, and the result of the call. -/
def write (s : TuiSink) (bytes : List UInt8) : TuiSink × Text × Except Text ℕ :=
  let take := min bytes.length maxStreamBytes
  let decoded := s.decode bytes
  let text := decoded.2
  let s := if take < bytes.length then decoded.1.truncated else decoded.1
  let remaining := maxStreamBytes - utf8Len s.state.streamBuffer
  if remaining = 0 ∧ text ≠ [] then (s.truncated, [], .error streamBoundError)
  else if utf8Len text ≤ remaining then
    ({ s with state.streamBuffer := s.state.streamBuffer ++ text }, text, .ok take)
  else
    let accepted := truncateUtf8Bytes text remaining
    ({ s with state.streamBuffer := s.state.streamBuffer ++ accepted }.truncated, accepted,
      .error streamBoundError)

end TuiSink

inductive Op where
  | pushReasoning (text : Text)
  | write (bytes : List UInt8)
  | revealChar
  deriving DecidableEq, Repr

/-- What an operation did to the text of the channels. -/
inductive Event where
  | pushed (accepted removed : Text)
  | wrote (accepted : Text) (result : Except Text ℕ)
  | revealed (released : Option (Channel × Char))

def Event.accepted : Event → Channel → Text
  | .pushed accepted _, .reasoning => accepted
  | .wrote accepted _, .stream => accepted
  | _, _ => []

def Event.released : Event → Channel → Text
  | .revealed (some (source, c)), channel => if source = channel then [c] else []
  | _, _ => []

def TuiSink.step (s : TuiSink) : Op → Option (TuiSink × Event)
  | .pushReasoning text =>
    (s.state.pushReasoning text).map fun pushed =>
      ({ s with state := pushed.1 }, .pushed pushed.2.1 pushed.2.2)
  | .write bytes =>
    let written := s.write bytes
    some (written.1, .wrote written.2.1 written.2.2)
  | .revealChar =>
    s.state.revealChar.map fun revealed => ({ s with state := revealed.1 }, .revealed revealed.2)

def bound : Channel → ℕ
  | .reasoning => maxReasoningBufferBytes
  | .stream => maxStreamBytes

theorem weigh_utf8 (text : Text) : weigh Char.utf8Size text = utf8Len text := rfl

theorem truncate_prefix (text : Text) (maxBytes : ℕ) :
    truncateUtf8Bytes text maxBytes <+: text := by
  rw [truncateUtf8Bytes]
  by_cases hfits : utf8Len text ≤ maxBytes
  · rw [if_pos hfits]
  · rw [if_neg hfits]
    exact fit_prefix maxBytes 0 text

theorem truncate_len (text : Text) (maxBytes : ℕ) :
    utf8Len (truncateUtf8Bytes text maxBytes) ≤ maxBytes := by
  rw [truncateUtf8Bytes]
  by_cases hfits : utf8Len text ≤ maxBytes
  · rwa [if_pos hfits]
  · rw [if_neg hfits]
    have hweigh := @fit_weigh Char Char.utf8Size maxBytes 0 text (Nat.zero_le _)
    rwa [Nat.zero_add] at hweigh

theorem truncate_eq_iff (text : Text) (maxBytes : ℕ) :
    truncateUtf8Bytes text maxBytes = text ↔ utf8Len text ≤ maxBytes := by
  constructor
  · intro h
    have hlen := truncate_len text maxBytes
    rwa [h] at hlen
  · intro h
    rw [truncateUtf8Bytes, if_pos h]

theorem truncate_zero (text : Text) : truncateUtf8Bytes text 0 = [] :=
  weigh_zero Char.utf8Size_pos (Nat.le_zero.mp (truncate_len text 0))

/-- Each cursor stands before what its channel owes, in a buffer within its bound. -/
structure Owing (s : TuiState) (owed : Channel → Text) : Prop where
  owes : ∀ channel, Owes Char.utf8Size (s.buffer channel) (s.cursor channel) (owed channel)
  held : ∀ channel, utf8Len (s.buffer channel) ≤ bound channel

theorem new_owing : Owing TuiState.new fun _ => [] where
  owes := by
    intro channel
    cases channel <;> exact owes_nil
  held := by
    intro channel
    cases channel <;> exact Nat.zero_le _

/-- What a channel takes of a text: the bound charges everything that the buffer still holds. -/
def admitted (s : TuiState) (channel : Channel) (text : Text) : Text :=
  truncateUtf8Bytes text (bound channel - utf8Len (s.buffer channel))

section

variable {s t : TuiState} {owed : Channel → Text}

theorem owing_frame (h : Owing s owed) (hbuffer : t.buffer = s.buffer)
    (hcursor : t.cursor = s.cursor) : Owing t owed where
  owes := by
    rw [hbuffer, hcursor]
    exact h.owes
  held := by
    rw [hbuffer]
    exact h.held

theorem unrevealed_eq (h : Owing s owed) (channel : Channel) :
    s.unrevealed channel = utf8Len (owed channel) := by
  have hweigh := owes_weigh (h.owes channel)
  rw [weigh_utf8, weigh_utf8] at hweigh
  rw [TuiState.unrevealed, hweigh, Nat.add_sub_cancel_left]

theorem append_owing (h : Owing s owed) (channel : Channel) (text : Text)
    (hbuffer : t.buffer =
      Function.update s.buffer channel (s.buffer channel ++ admitted s channel text))
    (hcursor : t.cursor = s.cursor) :
    Owing t (Function.update owed channel (owed channel ++ admitted s channel text)) where
  owes := by
    intro other
    rw [hbuffer, hcursor]
    by_cases hsame : other = channel
    · subst hsame
      rw [Function.update_self, Function.update_self]
      exact owes_append (h.owes other) _
    · rw [Function.update_of_ne hsame, Function.update_of_ne hsame]
      exact h.owes other
  held := by
    intro other
    rw [hbuffer]
    by_cases hsame : other = channel
    · subst hsame
      have hheld := h.held other
      have hadmitted := truncate_len text (bound other - utf8Len (s.buffer other))
      rw [Function.update_self, utf8Len_append, admitted]
      omega
    · rw [Function.update_of_ne hsame]
      exact h.held other

theorem push_line_frame (s : TuiState) (line : Text) :
    (s.pushLine line).buffer = s.buffer ∧ (s.pushLine line).cursor = s.cursor := by
  have hfold : ∀ (parts : List Text) (s : TuiState),
      (parts.foldl (TuiState.pushSingleStamped none) s).buffer = s.buffer ∧
        (parts.foldl (TuiState.pushSingleStamped none) s).cursor = s.cursor := by
    intro parts
    induction parts with
    | nil =>
      intro s
      exact ⟨rfl, rfl⟩
    | cons part parts ih =>
      intro s
      exact ih (TuiState.pushSingleStamped none s part)
  rw [TuiState.pushLine, TuiState.pushLineStamped]
  by_cases hbreak : line.contains '\n' = true
  · rw [if_pos hbreak]
    exact hfold _ s
  · rw [if_neg hbreak]
    exact ⟨rfl, rfl⟩

theorem mark_tail_some (tail : Text) : ∃ marked, TuiState.markTail tail = some marked := by
  rw [TuiState.markTail]
  by_cases hmarked : tailMarker.isSuffixOf tail = true
  · rw [if_pos hmarked]
    exact ⟨tail, rfl⟩
  · rw [if_neg hmarked]
    have hcut := @last_boundary_cut Char Char.utf8Size tail (maxStreamBytes - utf8Len tailMarker)
    obtain ⟨parts, hparts⟩ := Option.isSome_iff_exists.mp hcut
    exact ⟨parts.1 ++ tailMarker, by simp only [hparts, Option.map_some]⟩

theorem grow_tail_some (tail : Text) (c : Char) :
    ∃ grown, TuiState.growTail tail c = some grown := by
  rw [TuiState.growTail]
  by_cases hfull : maxStreamBytes ≤ utf8Len tail
  · rw [if_pos hfull]
    exact mark_tail_some tail
  rw [if_neg hfull]
  by_cases hfits : c.utf8Size ≤ maxStreamBytes - utf8Len tail
  · rw [if_pos hfits]
    exact ⟨_, rfl⟩
  · rw [if_neg hfits]
    exact mark_tail_some tail

theorem place_char_frame (s : TuiState) (c : Char) :
    ∃ placed, s.placeChar c = some placed ∧
      placed.buffer = s.buffer ∧ placed.cursor = s.cursor := by
  rw [TuiState.placeChar]
  by_cases hbreak : c = '\n'
  · rw [if_pos hbreak]
    have hframe := push_line_frame { s with streamTail := [] } s.streamTail
    exact ⟨_, rfl, hframe⟩
  · rw [if_neg hbreak]
    obtain ⟨grown, hgrown⟩ := grow_tail_some s.streamTail c
    rw [hgrown]
    exact ⟨_, rfl, rfl, rfl⟩

theorem advance_owing {c : Char} {rest : Text} (h : Owing s owed)
    (hhead : owed .stream = c :: rest) :
    ∃ advanced, s.advanceStream c = some advanced ∧
      Owing advanced (Function.update owed .stream rest) := by
  have hnext : Owes Char.utf8Size s.streamBuffer (s.streamCursor + c.utf8Size) rest := by
    have howes := h.owes .stream
    rw [hhead] at howes
    exact owes_next howes
  have hweigh := owes_weigh hnext
  rw [weigh_utf8, weigh_utf8] at hweigh
  have hheld := h.held .stream
  -- what is left to show of each new buffer and cursor of the answer
  have hmoved : ∀ (buffer : Text) (cursor : ℕ), Owes Char.utf8Size buffer cursor rest →
      utf8Len buffer ≤ utf8Len s.streamBuffer →
      Owing { s with streamBuffer := buffer, streamCursor := cursor }
        (Function.update owed .stream rest) := by
    intro buffer cursor howes hlen
    constructor
    · intro channel
      cases channel with
      | reasoning =>
        rw [Function.update_of_ne (by decide)]
        exact h.owes .reasoning
      | stream =>
        rw [Function.update_self]
        exact howes
    · intro channel
      cases channel with
      | reasoning => exact h.held .reasoning
      | stream => exact le_trans hlen hheld
  simp only [TuiState.advanceStream]
  by_cases hend : utf8Len s.streamBuffer ≤ s.streamCursor + c.utf8Size
  · rw [if_pos hend]
    have hnone : rest = [] := weigh_zero Char.utf8Size_pos (by rw [weigh_utf8]; omega)
    exact ⟨_, rfl, hmoved [] 0 (by rw [hnone]; exact owes_nil) (Nat.zero_le _)⟩
  rw [if_neg hend]
  by_cases hsplit : 64 * 1024 < s.streamCursor + c.utf8Size
  · rw [if_pos hsplit]
    obtain ⟨shown, hcut⟩ := owes_cut Char.utf8Size_pos hnext
    rw [hcut]
    exact ⟨_, rfl, hmoved rest 0 ⟨[], rfl, rfl⟩ (by rw [hweigh]; exact Nat.le_add_left _ _)⟩
  · rw [if_neg hsplit]
    exact ⟨_, rfl, hmoved s.streamBuffer _ hnext le_rfl⟩

theorem reveal_stream_owing (h : Owing s owed) :
    ∃ next shown owed', s.revealStream = some (next, shown) ∧ Owing next owed' ∧
      ∀ channel, owed channel = (Event.revealed shown).released channel ++ owed' channel := by
  rw [TuiState.revealStream]
  have howes := h.owes .stream
  have hweigh : utf8Len s.streamBuffer = s.streamCursor + utf8Len (owed .stream) :=
    owes_weigh howes
  have hinside : ¬ utf8Len s.streamBuffer < s.streamCursor := by omega
  obtain ⟨before, hcut⟩ := owes_cut Char.utf8Size_pos howes
  have hslice : cut Char.utf8Size s.streamCursor s.streamBuffer =
      some (before, owed .stream) := hcut
  simp only [if_neg hinside, hslice]
  cases hhead : owed .stream with
  | nil =>
    refine ⟨s, none, owed, rfl, h, ?_⟩
    intro channel
    cases channel <;> rfl
  | cons c rest =>
    obtain ⟨advanced, hadvanced, howing⟩ := advance_owing h hhead
    obtain ⟨placed, hplaced, hbuffer, hcursor⟩ := place_char_frame advanced c
    refine ⟨placed, some (.stream, c), Function.update owed .stream rest, ?_,
      owing_frame howing hbuffer hcursor, ?_⟩
    · simp only [hadvanced, hplaced, Option.bind_eq_bind, Option.bind_some]
    · intro channel
      cases channel with
      | reasoning =>
        rw [Function.update_of_ne (by decide)]
        rfl
      | stream =>
        rw [Function.update_self, hhead]
        rfl

theorem reveal_char_owing (h : Owing s owed) :
    ∃ next shown owed', s.revealChar = some (next, shown) ∧ Owing next owed' ∧
      ∀ channel, owed channel = (Event.revealed shown).released channel ++ owed' channel := by
  rw [TuiState.revealChar]
  by_cases hthinking : s.reasoningShown < utf8Len s.reasoning
  · rw [if_pos hthinking]
    have howes := h.owes .reasoning
    obtain ⟨before, hcut⟩ := owes_cut Char.utf8Size_pos howes
    have hweigh : utf8Len s.reasoning = s.reasoningShown + utf8Len (owed .reasoning) :=
      owes_weigh howes
    cases hhead : owed .reasoning with
    | nil =>
      rw [hhead, utf8Len_nil] at hweigh
      omega
    | cons c rest =>
      have hslice : cut Char.utf8Size s.reasoningShown s.reasoning = some (before, c :: rest) := by
        rw [← hhead]
        exact hcut
      rw [hslice]
      refine ⟨_, _, Function.update owed .reasoning rest, rfl, ?_, ?_⟩
      · constructor
        · intro channel
          cases channel with
          | reasoning =>
            rw [Function.update_self]
            rw [hhead] at howes
            exact owes_next howes
          | stream =>
            rw [Function.update_of_ne (by decide)]
            exact h.owes .stream
        · intro channel
          cases channel with
          | reasoning => exact h.held .reasoning
          | stream => exact h.held .stream
      · intro channel
        cases channel with
        | reasoning =>
          rw [Function.update_self, hhead]
          rfl
        | stream =>
          rw [Function.update_of_ne (by decide)]
          rfl
  · rw [if_neg hthinking]
    exact reveal_stream_owing h

theorem take_anchor_frame (s : TuiState) :
    s.takeAnchor.buffer = s.buffer ∧ s.takeAnchor.cursor = s.cursor := by
  rw [TuiState.takeAnchor]
  cases s.pendingReasoningAnchor <;> exact ⟨rfl, rfl⟩

theorem accept_reasoning_eq (s : TuiState) (text : Text) :
    ∃ status, s.acceptReasoning text =
      ({ s with reasoning := s.reasoning ++ admitted s .reasoning text, status := status },
        admitted s .reasoning text) := by
  rw [admitted]
  simp only [TuiState.acceptReasoning]
  by_cases hfits : utf8Len text ≤ maxReasoningBufferBytes - utf8Len s.reasoning
  · rw [if_pos hfits]
    have hwhole : truncateUtf8Bytes text (bound .reasoning - utf8Len (s.buffer .reasoning)) =
        text := (truncate_eq_iff _ _).mpr hfits
    rw [hwhole]
    exact ⟨s.status, rfl⟩
  · rw [if_neg hfits]
    exact ⟨reasoningBoundStatus, rfl⟩

theorem trim_reasoning_owing (h : Owing s owed) :
    ∃ next removed, s.trimReasoning = some (next, removed) ∧ Owing next owed ∧
      s.reasoning = removed ++ next.reasoning ∧ utf8Len removed ≤ s.reasoningShown ∧
      utf8Len next.reasoning ≤ max reasoningBytes (utf8Len (owed .reasoning)) := by
  have hweigh : utf8Len s.reasoning = s.reasoningShown + utf8Len (owed .reasoning) :=
    owes_weigh (h.owes .reasoning)
  simp only [TuiState.trimReasoning]
  by_cases hnone : min (utf8Len s.reasoning - reasoningBytes) s.reasoningShown = 0
  · rw [if_pos hnone]
    exact ⟨s, [], rfl, h, rfl, Nat.zero_le _, by omega⟩
  rw [if_neg hnone]
  -- the boundary is no later than the cursor, which is one, and no earlier than what may go
  generalize hdroppable : min (utf8Len s.reasoning - reasoningBytes) s.reasoningShown = droppable
  obtain ⟨front, rest, hsplit, hfirst⟩ :=
    @first_boundary_split Char Char.utf8Size droppable 0 s.reasoning
  have hleast := @le_first_boundary Char Char.utf8Size droppable 0 s.reasoning
    (by rw [weigh_utf8]; omega)
  have hmost : firstBoundary Char.utf8Size droppable 0 s.reasoning ≤ s.reasoningShown := by
    obtain ⟨shown, hbuffer, hcursor⟩ := h.owes .reasoning
    have hreasoning : s.reasoning = shown ++ owed .reasoning := hbuffer
    have hshown : weigh Char.utf8Size shown = s.reasoningShown := hcursor
    have hle := @first_boundary_le Char Char.utf8Size droppable 0 shown (owed .reasoning)
      (by omega)
    rw [← hreasoning, hshown, Nat.zero_add] at hle
    exact hle
  rw [hfirst, Nat.zero_add] at hleast hmost
  have hcut : cut Char.utf8Size (weigh Char.utf8Size front) s.reasoning = some (front, rest) :=
    (cut_iff Char.utf8Size_pos _ _ _ _).mpr ⟨hsplit, rfl⟩
  rw [hfirst, Nat.zero_add, hcut]
  have hlen : utf8Len s.reasoning = weigh Char.utf8Size front + utf8Len rest := by
    rw [hsplit, utf8Len_append, weigh_utf8]
  refine ⟨_, front, rfl, ?_, hsplit, hmost, ?_⟩
  · constructor
    · intro channel
      cases channel with
      | reasoning =>
        have howes : Owes Char.utf8Size s.reasoning s.reasoningShown (owed .reasoning) :=
          h.owes .reasoning
        rw [hsplit] at howes
        exact owes_drop Char.utf8Size_pos howes hmost
      | stream => exact h.owes .stream
    · intro channel
      cases channel with
      | reasoning =>
        have hheld : utf8Len s.reasoning ≤ bound .reasoning := h.held .reasoning
        show utf8Len rest ≤ bound .reasoning
        omega
      | stream => exact h.held .stream
  · show utf8Len rest ≤ _
    omega

theorem push_reasoning_owing (h : Owing s owed) (text : Text) :
    ∃ next removed owed',
      s.pushReasoning text = some (next, admitted s .reasoning text, removed) ∧
      Owing next owed' ∧
      owed' = Function.update owed .reasoning (owed .reasoning ++ admitted s .reasoning text) ∧
      s.reasoning ++ admitted s .reasoning text = removed ++ next.reasoning ∧
      utf8Len removed ≤ s.reasoningShown ∧
      utf8Len next.reasoning ≤ max reasoningBytes (utf8Len (owed' .reasoning)) := by
  obtain ⟨hbuffer, hcursor⟩ := take_anchor_frame s
  have hreasoning : s.takeAnchor.reasoning = s.reasoning := congrFun hbuffer .reasoning
  have hadmitted : admitted s.takeAnchor .reasoning text = admitted s .reasoning text := by
    rw [admitted, hbuffer, ← admitted]
  obtain ⟨status, haccept⟩ := accept_reasoning_eq s.takeAnchor text
  rw [hreasoning, hadmitted] at haccept
  have howing : Owing (s.takeAnchor.acceptReasoning text).1
      (Function.update owed .reasoning (owed .reasoning ++ admitted s .reasoning text)) := by
    refine append_owing h .reasoning text ?_ ?_
    · rw [haccept]
      funext channel
      cases channel with
      | reasoning =>
        rw [Function.update_self]
        rfl
      | stream =>
        rw [Function.update_of_ne (by decide), ← hbuffer]
        rfl
    · rw [haccept, ← hcursor]
      rfl
  obtain ⟨next, removed, htrim, hnext, hsplit, hshown, hlen⟩ := trim_reasoning_owing howing
  rw [haccept] at htrim hsplit hshown
  refine ⟨next, removed, _, ?_, hnext, rfl, hsplit, ?_, hlen⟩
  · rw [TuiState.pushReasoning]
    simp only [haccept, htrim, Option.map_some]
  · rwa [← show s.takeAnchor.reasoningShown = s.reasoningShown from congrFun hcursor .reasoning]

end

theorem stream_appended (s : TuiState) (text : Text) :
    ({ s with streamBuffer := s.streamBuffer ++ text } : TuiState).buffer =
      Function.update s.buffer .stream (s.buffer .stream ++ text) := by
  funext channel
  cases channel with
  | reasoning =>
    rw [Function.update_of_ne (by decide)]
    rfl
  | stream =>
    rw [Function.update_self]
    rfl

theorem write_eq (s : TuiSink) (bytes : List UInt8) :
    ∃ next result,
      s.write bytes = (next, admitted s.state .stream (s.decode bytes).2, result) ∧
      next.state.buffer = Function.update s.state.buffer .stream
        (s.state.buffer .stream ++ admitted s.state .stream (s.decode bytes).2) ∧
      next.state.cursor = s.state.cursor ∧
      ∀ taken, result = .ok taken → taken = min bytes.length maxStreamBytes := by
  simp only [TuiSink.write]
  -- the bytes left out only set the status
  generalize hnoted : (if min bytes.length maxStreamBytes < bytes.length then
    (s.decode bytes).1.truncated else (s.decode bytes).1) = noted
  have hbuffer : noted.state.buffer = s.state.buffer := by
    rw [← hnoted]
    split_ifs <;> rfl
  have hcursor : noted.state.cursor = s.state.cursor := by
    rw [← hnoted]
    split_ifs <;> rfl
  have hstream : noted.state.streamBuffer = s.state.streamBuffer := congrFun hbuffer .stream
  have hlimit : bound .stream - utf8Len (s.state.buffer .stream) =
      maxStreamBytes - utf8Len noted.state.streamBuffer := by
    rw [hstream]
    rfl
  rw [admitted, hlimit]
  generalize (s.decode bytes).2 = text
  by_cases hfull : maxStreamBytes - utf8Len noted.state.streamBuffer = 0 ∧ text ≠ []
  · rw [if_pos hfull, hfull.1, truncate_zero]
    refine ⟨_, _, rfl, ?_, hcursor, ?_⟩
    · rw [List.append_nil, Function.update_eq_self]
      exact hbuffer
    · intro taken h
      cases h
  rw [if_neg hfull]
  by_cases hfits : utf8Len text ≤ maxStreamBytes - utf8Len noted.state.streamBuffer
  · rw [if_pos hfits, (truncate_eq_iff _ _).mpr hfits]
    refine ⟨_, _, rfl, ?_, hcursor, ?_⟩
    · rw [← hbuffer]
      exact stream_appended noted.state text
    · intro taken h
      cases h
      rfl
  · rw [if_neg hfits]
    refine ⟨_, _, rfl, ?_, hcursor, ?_⟩
    · rw [← hbuffer]
      exact stream_appended noted.state _
    · intro taken h
      cases h

end Siralos.Reveal
