import Siralos.SseTerminal
import Siralos.StreamingTurn

/-!
# The text a streamed turn delivers

The deltas in front of the completion carry what the redactor makes of the assembled deltas, and
the mask of what it still holds, unless a chunk completes the turn while it holds something.
-/

set_option autoImplicit false

namespace Siralos.Streaming

open Text Json Provider Redaction Emission

def delta : ProviderEvent → Option Text
  | .event (.textDelta text) => some text
  | .event (.reasoningDelta text) => some text
  | _ => none

def deltas (events : List ProviderEvent) : List Text := events.filterMap delta

def deltaText (events : List ProviderEvent) : Text := (deltas events).flatten

theorem delta_text_append (es fs : List ProviderEvent) :
    deltaText (es ++ fs) = deltaText es ++ deltaText fs := by
  simp [deltaText, deltas]

theorem deltas_append (es fs : List ProviderEvent) : deltas (es ++ fs) = deltas es ++ deltas fs := by
  simp [deltas]

def Open (events : List ProviderEvent) : Prop := ∀ e ∈ events, isCompletion e = false

theorem open_append {es fs : List ProviderEvent} : Open (es ++ fs) ↔ Open es ∧ Open fs := by
  simp [Open, or_imp, forall_and]

theorem not_open_completed (es fs : List ProviderEvent) : ¬ Open (es ++ .event .completed :: fs) := by
  intro h
  have hfalse := h (.event .completed) (by simp)
  exact absurd hfalse (by simp [isCompletion])

theorem completion_iff (event : ProviderEvent) :
    isCompletion event = true ↔ event = .event .completed := by
  unfold isCompletion
  split
  · simp
  · rename_i h
    simpa using h

theorem nonterminal_open {events : List ProviderEvent} (h : Sse.Nonterminal events) :
    Open events := by
  intro e he
  have hterminal := h e he
  cases hc : isCompletion e with
  | false => rfl
  | true =>
    rw [(completion_iff e).mp hc] at hterminal
    exact absurd hterminal (by simp [Sse.terminal])

def Closed (events : List ProviderEvent) : Prop :=
  ∃ before, events = before ++ [.event .completed] ∧ Open before

theorem open_split {es fs es' fs' : List ProviderEvent}
    (h : es ++ .event .completed :: es' = fs ++ .event .completed :: fs')
    (he : Open es) (hf : Open fs) : es = fs := by
  induction es generalizing fs with
  | nil =>
    cases fs with
    | nil => rfl
    | cons f fs =>
      have hhead := (List.cons.inj h).1
      exact absurd (hf f (by simp)) (by simp [← hhead, isCompletion])
  | cons e es ih =>
    cases fs with
    | nil =>
      have hhead := (List.cons.inj h).1
      exact absurd (he e (by simp)) (by simp [hhead, isCompletion])
    | cons f fs =>
      obtain ⟨hhead, htail⟩ := List.cons.inj h
      have hrest := ih htail (fun x hx => he x (by simp [hx])) fun x hx => hf x (by simp [hx])
      rw [hhead, hrest]

/-- The texts in order, and the redactor after the last of them. -/
def redactAll (r : StreamingSecretRedactor) : List Text → StreamingSecretRedactor × Text
  | [] => (r, [])
  | text :: texts =>
    let (r, shown) := r.redactText text
    let (r, more) := redactAll r texts
    (r, shown ++ more)

theorem redact_all_append (r : StreamingSecretRedactor) (ts us : List Text) :
    redactAll r (ts ++ us) = ((redactAll (redactAll r ts).1 us).1,
      (redactAll r ts).2 ++ (redactAll (redactAll r ts).1 us).2) := by
  induction ts generalizing r with
  | nil => rfl
  | cons t ts ih => simp [redactAll, ih, List.append_assoc]

variable (serde : SerdeJson)

theorem redact_event_delta (r : StreamingSecretRedactor) (event : ProviderEvent) (text : Text)
    (h : delta event = some text) :
    (r.redactEvent serde event).1 = (r.redactText text).1 ∧
      delta (r.redactEvent serde event).2 = some (r.redactText text).2 := by
  unfold delta at h
  split at h
  · cases h
    exact ⟨rfl, rfl⟩
  · cases h
    exact ⟨rfl, rfl⟩
  · cases h

theorem redact_event_other (r : StreamingSecretRedactor) (event : ProviderEvent)
    (h : delta event = none) :
    (r.redactEvent serde event).1 = r ∧ delta (r.redactEvent serde event).2 = none := by
  unfold StreamingSecretRedactor.redactEvent
  split
  · cases h
  · cases h
  · cases r.secret with
    | none => exact ⟨rfl, h⟩
    | some secret =>
      rcases event with (text | text | ⟨callId, toolName, input⟩ | _) | value | message | message
      · cases h
      · cases h
      all_goals exact ⟨rfl, rfl⟩

theorem redact_event_completion (r : StreamingSecretRedactor) (event : ProviderEvent) :
    isCompletion (r.redactEvent serde event).2 = isCompletion event := by
  unfold StreamingSecretRedactor.redactEvent
  split
  · rfl
  · rfl
  · cases r.secret with
    | none => rfl
    | some secret =>
      change isCompletion (redactProviderEvent serde secret event) = isCompletion event
      unfold redactProviderEvent
      split <;> rfl

theorem redact_events_deltas (r : StreamingSecretRedactor) (events : List ProviderEvent) :
    (redactEvents serde r events).1 = (redactAll r (deltas events)).1 ∧
      deltaText (redactEvents serde r events).2 = (redactAll r (deltas events)).2 := by
  induction events generalizing r with
  | nil => exact ⟨rfl, rfl⟩
  | cons event events ih =>
    have hrest := ih (r.redactEvent serde event).1
    rw [redactEvents]
    cases hd : delta event with
    | none =>
      obtain ⟨hsame, hnone⟩ := redact_event_other serde r event hd
      rw [hsame] at hrest
      simp only [deltas, deltaText, List.filterMap_cons, hd, hnone, hsame]
      exact hrest
    | some text =>
      obtain ⟨hnext, hshown⟩ := redact_event_delta serde r event text hd
      rw [hnext] at hrest
      simp only [deltas, deltaText, List.filterMap_cons, hd, hshown, hnext, redactAll,
        List.flatten_cons]
      exact ⟨hrest.1, congrArg _ hrest.2⟩

theorem redact_events_open (r : StreamingSecretRedactor) (events : List ProviderEvent) :
    Open (redactEvents serde r events).2 ↔ Open events := by
  induction events generalizing r with
  | nil => rfl
  | cons event events ih =>
    have hrest := ih (r.redactEvent serde event).1
    rw [redactEvents]
    simp only [Open, List.forall_mem_cons, redact_event_completion]
    exact and_congr_right fun _ => hrest

theorem redact_events_append (r : StreamingSecretRedactor) (es fs : List ProviderEvent) :
    (redactEvents serde r (es ++ fs)).2 =
      (redactEvents serde r es).2 ++ (redactEvents serde (redactEvents serde r es).1 fs).2 := by
  induction es generalizing r with
  | nil => rfl
  | cons e es ih => simp [redactEvents, ih]

theorem restore_event_delta (names : ToolNames) (event : ProviderEvent) :
    delta (names.restoreEvent event) = delta event := by
  unfold ToolNames.restoreEvent
  split <;> rfl

theorem restore_event_completion (names : ToolNames) (event : ProviderEvent) :
    isCompletion (names.restoreEvent event) = isCompletion event := by
  unfold ToolNames.restoreEvent
  split <;> rfl

theorem restored_deltas (names : ToolNames) (events : List ProviderEvent) :
    deltas (names.restoreEvents events) = deltas events := by
  simp only [deltas, ToolNames.restoreEvents, List.filterMap_map]
  exact congrArg (fun f => List.filterMap f events) (funext (restore_event_delta names))

theorem restored_open (names : ToolNames) (events : List ProviderEvent) :
    Open (names.restoreEvents events) ↔ Open events := by
  simp [Open, ToolNames.restoreEvents, restore_event_completion]

/-- What the turn queues for the events of the assembler. -/
def shown (r : StreamingSecretRedactor) (names : ToolNames) (events : List ProviderEvent) :
    StreamingSecretRedactor × List ProviderEvent :=
  redactEvents serde r (names.restoreEvents events)

theorem shown_redactor (r : StreamingSecretRedactor) (names : ToolNames)
    (events : List ProviderEvent) :
    (shown serde r names events).1 = (redactAll r (deltas events)).1 := by
  rw [shown, (redact_events_deltas serde r _).1, restored_deltas]

theorem shown_text (r : StreamingSecretRedactor) (names : ToolNames)
    (events : List ProviderEvent) :
    deltaText (shown serde r names events).2 = (redactAll r (deltas events)).2 := by
  rw [shown, (redact_events_deltas serde r _).2, restored_deltas]

theorem shown_open (r : StreamingSecretRedactor) (names : ToolNames)
    (events : List ProviderEvent) :
    Open (shown serde r names events).2 ↔ Open events := by
  rw [shown, redact_events_open, restored_open]

theorem shown_closed (r : StreamingSecretRedactor) (names : ToolNames)
    (before : List ProviderEvent) (h : Open before) :
    ∃ queued, (shown serde r names (before ++ [.event .completed])).2 =
        queued ++ [.event .completed] ∧ Open queued ∧
      deltaText queued = (redactAll r (deltas before)).2 := by
  have hsplit : (shown serde r names (before ++ [.event .completed])).2 =
      (shown serde r names before).2 ++ [.event .completed] := by
    rw [shown, ToolNames.restoreEvents, List.map_append, redact_events_append]
    congr 1
    simp only [List.map_cons, List.map_nil, redactEvents]
    congr 1
    apply (completion_iff _).mp
    rw [redact_event_completion, restore_event_completion]
    rfl
  exact ⟨_, hsplit, (shown_open serde r names before).mpr h, shown_text serde r names before⟩

def ordinary : ProviderEvent → Bool
  | .event .completed => false
  | .cancelled _ => false
  | _ => true

def Ordinary (events : List ProviderEvent) : Prop := ∀ e ∈ events, ordinary e = true

theorem ordinary_append {es fs : List ProviderEvent} :
    Ordinary (es ++ fs) ↔ Ordinary es ∧ Ordinary fs := by
  simp [Ordinary, or_imp, forall_and]

theorem ordinary_open {events : List ProviderEvent} (h : Ordinary events) : Open events := by
  intro e he
  have hordinary := h e he
  cases hc : isCompletion e with
  | false => rfl
  | true =>
    rw [(completion_iff e).mp hc] at hordinary
    cases hordinary

theorem ordinary_single {event : ProviderEvent} (h : ordinary event = true) : Ordinary [event] := by
  intro e he
  rwa [List.mem_singleton.mp he]

section Playback

variable (parse : Text → Option Value)

def Plays (c : Replay.Player) : Prop :=
  Holds (fun _ => Ordinary) c (fun _ _ => Ordinary) fun _ => Ordinary

theorem plays_pure : Plays (pure ()) := holds_pure () fun _ _ h => h

theorem plays_emit (event : ProviderEvent) (h : ordinary event = true) : Plays (emit event) :=
  holds_emit event fun _ _ ho => ordinary_append.mpr ⟨ho, ordinary_single h⟩

theorem plays_stop (message : Text) : Plays (Replay.stop message) :=
  holds_bind (plays_emit (.failed message) rfl) fun _ => holds_leave fun _ _ h => h

theorem plays_bind {c d : Replay.Player} (hc : Plays c) (hd : Plays d) : Plays (c >>= fun _ => d) :=
  holds_bind hc fun _ => hd

theorem plays_each {f : Value → Replay.Player} (values : List Value) (h : ∀ v, Plays (f v)) :
    Plays (each f values) :=
  holds_each f values fun v _ => h v

theorem plays_text (text : Option Value) : Plays (Replay.playText text) := by
  unfold Replay.playText
  split
  · exact plays_emit _ rfl
  · exact plays_pure

theorem plays_reasoning (text : Option Value) : Plays (Replay.playReasoning text) := by
  unfold Replay.playReasoning
  split
  · exact plays_emit _ rfl
  · exact plays_pure

theorem plays_message_content (hasChoices : Bool) (content : Option Value) :
    Plays (Replay.playMessageContent hasChoices content) := by
  unfold Replay.playMessageContent
  split
  · exact plays_pure
  · split
    · exact plays_emit _ rfl
    · refine plays_each _ fun block => ?_
      unfold Replay.playMessageBlock
      split
      · exact plays_reasoning _
      · split
        · exact plays_pure
        · exact plays_text _
    · exact plays_pure

theorem plays_tool_call (call : Value) : Plays (Replay.playToolCall parse call) := by
  unfold Replay.playToolCall
  dsimp only
  split
  · exact plays_stop _
  · split
    · exact plays_stop _
    · split_ifs
      · exact plays_stop _
      · exact plays_stop _
      · exact plays_emit _ rfl

theorem plays_choice (hasChoices : Bool) (choice : Value) :
    Plays (Replay.playChoice parse hasChoices choice) := by
  refine plays_bind (plays_reasoning _) (plays_bind (plays_message_content _ _) ?_)
  unfold Replay.playToolCalls
  split
  · exact plays_each _ (plays_tool_call parse)
  · exact plays_pure

theorem plays_function_call (item : Value) : Plays (Replay.playFunctionCall parse item) := by
  unfold Replay.playFunctionCall
  split
  · exact plays_stop _
  · split
    · exact plays_stop _
    · dsimp only
      split_ifs
      · exact plays_stop _
      · exact plays_stop _
      · exact plays_emit _ rfl

theorem plays_output_block (block : Value) : Plays (Replay.playOutputBlock block) := by
  unfold Replay.playOutputBlock
  split
  · exact plays_reasoning _
  · exact plays_text _

theorem plays_output_item (item : Value) : Plays (Replay.playOutputItem parse item) := by
  have hcall : Plays (if Replay.kindOf item = some ("function_call" : Text) then
      Replay.playFunctionCall parse item else pure ()) := by
    split
    · exact plays_function_call parse item
    · exact plays_pure
  unfold Replay.playOutputItem
  dsimp only
  split
  · exact plays_bind (plays_each _ plays_output_block) hcall
  · exact hcall

theorem plays_tool_use (block : Value) : Plays (Replay.playToolUse parse block) := by
  unfold Replay.playToolUse
  dsimp only
  split
  · exact plays_emit _ rfl
  · exact plays_stop _

theorem plays_content_block (block : Value) : Plays (Replay.playContentBlock parse block) := by
  unfold Replay.playContentBlock
  split
  · exact plays_stop _
  · split_ifs
    · exact plays_text _
    · exact plays_reasoning _
    · exact plays_tool_use parse block
    · exact plays_pure
    · exact plays_stop _
    · exact plays_pure

theorem plays_body (value : Value) : Plays (Replay.playBody parse value) := by
  unfold Replay.playBody
  refine plays_bind (plays_each _ (plays_choice parse _)) (plays_bind ?_ ?_)
  · unfold Replay.playOutput
    split
    · exact plays_each _ (plays_output_item parse)
    · exact plays_pure
  · unfold Replay.playContent
    split
    · exact plays_pure
    · split
      · exact plays_each _ (plays_content_block parse)
      · exact plays_pure

theorem body_played (value : Value) : Ordinary ((Replay.playBody parse value).run ()).2.2 := by
  have hplays := plays_body parse value () [] (by simp [Ordinary])
  rcases hrun : (Replay.playBody parse value).run () with ⟨_ | u, s, events⟩
  · rw [hrun] at hplays
    exact hplays
  · rw [hrun] at hplays
    exact hplays

theorem failed_open (message : Text) : Open [.failed message] := by simp [Open, isCompletion]

theorem body_events_ordinary (text : Text) : ∃ before, Ordinary before ∧
    (Replay.completionEventsFromBody parse text = before ∨
      Replay.completionEventsFromBody parse text = before ++ [.event .completed]) := by
  unfold Replay.completionEventsFromBody
  split
  · exact ⟨_, ordinary_single rfl, Or.inl rfl⟩
  · rename_i value _
    unfold Replay.eventsOfValue
    split
    · exact ⟨_, ordinary_single rfl, Or.inl rfl⟩
    · have hplayed := body_played parse value
      split
      · rename_i hrun
        rw [hrun] at hplayed
        exact ⟨_, hplayed, Or.inl rfl⟩
      · rename_i hrun
        rw [hrun] at hplayed
        unfold Replay.closeReplay
        split
        · exact ⟨_, ordinary_single rfl, Or.inl rfl⟩
        · exact ⟨_, hplayed, Or.inr rfl⟩

theorem body_events_closed (text : Text) :
    Open (Replay.completionEventsFromBody parse text) ∨
      Closed (Replay.completionEventsFromBody parse text) := by
  obtain ⟨before, hordinary, hopen | hclosed⟩ := body_events_ordinary parse text
  · rw [hopen]
    exact Or.inl (ordinary_open hordinary)
  · exact Or.inr ⟨before, hclosed, ordinary_open hordinary⟩

end Playback

theorem verdict_closed {parse : Text → Option Value} {met : List (Sse.Assembly × Text)}
    {a : Sse.Assembly} {events : List ProviderEvent} (h : Sse.Verdict parse met a events) :
    Open events ∨ Closed events := by
  rcases h with ⟨-, hr | ⟨before, hn, ⟨-, -, message, rfl⟩ | ⟨-, -, rfl⟩⟩⟩ | ⟨-, -, hn⟩
  · exact Or.inl (nonterminal_open hr.2.2)
  · exact Or.inl (open_append.mpr ⟨nonterminal_open hn, failed_open message⟩)
  · exact Or.inr ⟨before, rfl, nonterminal_open hn⟩
  · exact Or.inl (nonterminal_open hn)

theorem running_verdict (parse : Text → Option Value) {a : Sse.Assembly}
    (h : Sse.Running a []) : Sse.Verdict parse [] a [] := Or.inl ⟨by simp, Or.inl h⟩

theorem final_events_closed (s : Sse.CompletionStream) (h : Sse.Running s.assembly []) :
    Open (StreamingTurn.finalEvents serde s).2 ∨ Closed (StreamingTurn.finalEvents serde s).2 := by
  cases hplain : s.plainBody with
  | some body =>
    simp only [StreamingTurn.finalEvents, hplain]
    split
    · exact Or.inl (failed_open _)
    · exact body_events_closed serde.fromStr body
  | none =>
    simp only [StreamingTurn.finalEvents, hplain]
    split
    · exact Or.inl (failed_open _)
    · have hverdict := (Sse.finish_verdict serde.fromStr s [] [] (running_verdict _ h) hplain).1
      exact verdict_closed hverdict

namespace StreamingTurn

theorem pass_cases (cancelled : Bool) (t : StreamingTurn) :
    (pass serde cancelled t).2 = .finished ∨
      (∃ message t', t'.state = .done ∧
        pass serde cancelled t = (t', .yielded (.cancelled message))) ∨
      (∃ event queued, t.queued = event :: queued ∧
        pass serde cancelled t = ({ t with queued }, .yielded event)) ∨
      (t.queued = [] ∧ t.state = .reading ∧ pass serde cancelled t = read serde t) := by
  unfold pass
  by_cases hdone : t.state = .done
  · rw [if_pos hdone]
    exact Or.inl rfl
  · rw [if_neg hdone]
    by_cases hcancel : (!t.assembler.assembly.completed && cancelled) = true
    · rw [if_pos hcancel]
      exact Or.inr (Or.inl ⟨_, _, rfl, rfl⟩)
    · rw [if_neg hcancel]
      cases hq : t.queued with
      | cons event queued => exact Or.inr (Or.inr (Or.inl ⟨event, queued, rfl, rfl⟩))
      | nil =>
        by_cases hdrain : t.state = .draining
        · exact Or.inl (by simp [hdrain])
        · refine Or.inr (Or.inr (Or.inr ⟨rfl, ?_, if_neg hdrain⟩))
          cases hstate : t.state with
          | reading => rfl
          | draining => exact absurd hstate hdrain
          | done => exact absurd hstate hdone

theorem collect_done (polls : List Bool) (t : StreamingTurn) (h : t.state = .done) :
    collect serde polls t = [] := by
  cases polls with
  | nil => rfl
  | cons cancelled polls => simp [collect, pass, h]

theorem drained (polls : List Bool) (t : StreamingTurn) (before rest : List ProviderEvent)
    (hstate : t.state = .draining)
    (hrun : collect serde polls t = before ++ .event .completed :: rest) :
    ∃ queued, t.queued = before ++ .event .completed :: queued := by
  induction polls generalizing t before with
  | nil => simp [collect] at hrun
  | cons cancelled polls ih =>
    rw [collect] at hrun
    rcases pass_cases serde cancelled t with hend | ⟨message, t', hdone, hpass⟩ |
      ⟨event, queued, hq, hpass⟩ | ⟨-, hreading, -⟩
    · rcases hp : pass serde cancelled t with ⟨t', p⟩
      rw [hp] at hend hrun
      simp only at hend
      subst hend
      simp at hrun
    · rw [hpass] at hrun
      simp only [collect_done serde polls t' hdone] at hrun
      cases before with
      | nil => simp at hrun
      | cons e before => simp at hrun
    · rw [hpass] at hrun
      simp only at hrun
      cases before with
      | nil =>
        obtain ⟨rfl, -⟩ := List.cons.inj hrun
        exact ⟨queued, hq⟩
      | cons e before =>
        obtain ⟨rfl, htail⟩ := List.cons.inj hrun
        obtain ⟨more, hmore⟩ := ih { t with queued } before hstate htail
        exact ⟨more, by rw [hq, List.cons_append]; exact congrArg _ hmore⟩
    · exact absurd hstate (by simp [hreading])

end StreamingTurn

open StreamingTurn

/-- What the assembler makes of a response, and whether that was read to the end of its body. -/
def assembleResponse : List Read → List UInt8 → Sse.CompletionStream → List ProviderEvent × Bool
  | [], _, s => ((finalEvents serde s).2, true)
  | .failed :: _, _, _ => ([], false)
  | .bytes [] :: _, _, s => ((finalEvents serde s).2, true)
  | .bytes (b :: chunk) :: response, pending, s =>
    let (text, pending) := takeText (pending ++ b :: chunk)
    let (s, events) := Sse.pushChunk serde.fromStr s text
    if endsTurn s events then (events, false)
    else
      let (more, ended) := assembleResponse response pending s
      (events ++ more, ended)

def heldMask (r : StreamingSecretRedactor) : Text := r.finish.2.getD []

theorem held_mask_eq_nil (r : StreamingSecretRedactor) :
    heldMask r = [] ↔ r.pending = [] ∨ redactionMarker [] r.variants = [] := by
  unfold heldMask StreamingSecretRedactor.finish
  cases hp : r.pending <;> simp

def remaining (t : StreamingTurn) : Text :=
  let assembled := assembleResponse serde t.response t.pendingBytes t.assembler
  let redacted := redactAll t.redactor (deltas assembled.1)
  redacted.2 ++ if assembled.2 then heldMask redacted.1 else []

def Ready (t : StreamingTurn) : Prop := t.state = .reading ∧ Sse.Running t.assembler.assembly []

theorem insert_tail_closed (event : ProviderEvent) (queued : List ProviderEvent) :
    insertTail event (queued ++ [.event .completed]) =
      queued ++ [event] ++ [.event .completed] := by
  have hfound : (queued ++ [ProviderEvent.event .completed]).reverse.findIdx? isCompletion =
      some 0 := by
    rw [List.reverse_append, List.reverse_singleton, List.singleton_append, List.findIdx?_cons]
    rfl
  unfold insertTail
  rw [hfound]
  simp

theorem insert_tail_open (event : ProviderEvent) (queued : List ProviderEvent) (h : Open queued)
    (he : isCompletion event = false) : Open (insertTail event queued) := by
  unfold insertTail
  split
  · intro e hmem
    rw [List.mem_append, List.mem_cons] at hmem
    rcases hmem with hmem | rfl | hmem
    · exact h e (List.mem_of_mem_take hmem)
    · exact he
    · exact h e (List.mem_of_mem_drop hmem)
  · exact open_append.mpr ⟨h, by simpa [Open] using he⟩

theorem flushed_open (t : StreamingTurn) (h : Open t.queued) :
    Open t.flushRedactionTail.queued := by
  unfold flushRedactionTail
  split
  · exact h
  · exact insert_tail_open _ _ h rfl

theorem flushed_closed (t : StreamingTurn) (queued : List ProviderEvent)
    (h : t.queued = queued ++ [.event .completed]) (ho : Open queued) :
    ∃ flushed, t.flushRedactionTail.queued = flushed ++ [.event .completed] ∧ Open flushed ∧
      deltaText flushed = deltaText queued ++ heldMask t.redactor := by
  unfold flushRedactionTail heldMask
  rcases hfinish : t.redactor.finish with ⟨r, _ | tail⟩
  · exact ⟨queued, h, ho, by simp⟩
  · refine ⟨queued ++ [.event (.textDelta tail)], ?_, ?_, ?_⟩
    · simp only
      rw [h, insert_tail_closed]
    · exact open_append.mpr ⟨ho, by simp [Open, isCompletion]⟩
    · rw [delta_text_append]
      simp [deltaText, deltas, delta]

theorem read_end_queue (t : StreamingTurn) (hq : t.queued = []) (h : Ready t) :
    (Open (finalEvents serde t.assembler).2 ∧ Open (readEnd serde t).queued) ∨
      ∃ queued, (readEnd serde t).queued = queued ++ [.event .completed] ∧ Open queued ∧
        deltaText queued = (redactAll t.redactor (deltas (finalEvents serde t.assembler).2)).2 ++
          heldMask (redactAll t.redactor (deltas (finalEvents serde t.assembler).2)).1 := by
  set events := (finalEvents serde t.assembler).2 with hevents
  set t' := redactInto serde { t with assembler := (finalEvents serde t.assembler).1 } events with ht'
  have hqueued : t'.queued = (shown serde t.redactor t.toolNames events).2 := by
    change t.queued ++ _ = _
    rw [hq]
    rfl
  have hredactor : t'.redactor = (redactAll t.redactor (deltas events)).1 :=
    shown_redactor serde t.redactor t.toolNames events
  have hend : (readEnd serde t).queued = t'.flushRedactionTail.queued := rfl
  rw [hend]
  rcases final_events_closed serde t.assembler h.2 with hopen | ⟨before, hclosed, hopen⟩
  · refine Or.inl ⟨hopen, flushed_open t' ?_⟩
    rw [hqueued]
    exact (shown_open serde _ _ _).mpr hopen
  · apply Or.inr
    obtain ⟨queued, hsplit, ho, htext⟩ := shown_closed serde t.redactor t.toolNames before hopen
    rw [← hclosed, ← hqueued] at hsplit
    obtain ⟨flushed, hflushed, hfo, hftext⟩ := flushed_closed t' queued hsplit ho
    refine ⟨flushed, hflushed, hfo, ?_⟩
    have hdeltas : deltas events = deltas before := by
      rw [hevents, hclosed, deltas_append]
      simp [deltas, delta]
    rw [hftext, htext, hredactor, hdeltas]

/-- The events that the assembler hands out for a chunk. -/
def chunkEvents (t : StreamingTurn) (chunk : List UInt8) : List ProviderEvent :=
  (Sse.pushChunk serde.fromStr t.assembler (takeText (t.pendingBytes ++ chunk)).1).2

section Chunk

variable (t : StreamingTurn) (chunk : List UInt8)

theorem chunk_verdict (h : Ready t) :
    Sse.Verdict serde.fromStr
      ([] ++ Sse.chunkMet serde.fromStr t.assembler (takeText (t.pendingBytes ++ chunk)).1)
      (readChunk serde t chunk).assembler.assembly (chunkEvents serde t chunk) :=
  Sse.chunk_verdict serde.fromStr t.assembler _ [] [] (running_verdict _ h.2)

theorem chunk_queued (hq : t.queued = []) :
    (readChunk serde t chunk).queued =
      (shown serde t.redactor t.toolNames (chunkEvents serde t chunk)).2 := by
  change t.queued ++ _ = _
  rw [hq]
  rfl

theorem chunk_redactor :
    (readChunk serde t chunk).redactor =
      (redactAll t.redactor (deltas (chunkEvents serde t chunk))).1 :=
  shown_redactor serde t.redactor t.toolNames (chunkEvents serde t chunk)

theorem chunk_ends
    (h : endsTurn (readChunk serde t chunk).assembler (chunkEvents serde t chunk) = true) :
    (readChunk serde t chunk).state = .draining := if_pos h

theorem chunk_continues (hready : Ready t)
    (h : endsTurn (readChunk serde t chunk).assembler (chunkEvents serde t chunk) = false) :
    Ready (readChunk serde t chunk) ∧ Open (chunkEvents serde t chunk) := by
  have hstate : (readChunk serde t chunk).state = t.state :=
    if_neg (Bool.eq_false_iff.mp h)
  rcases Sse.verdict_over (chunk_verdict serde t chunk hready) with hr | hover
  · exact ⟨⟨hstate.trans hready.1, hr.1, hr.2.1, by simp [Sse.Nonterminal]⟩,
      nonterminal_open hr.2.2⟩
  · simp only [endsTurn, Bool.or_eq_false_iff] at h
    exact absurd hover (by simp [h.1.1, h.2])

end Chunk

theorem remaining_end (t : StreamingTurn) (h : t.response = [] ∨ ∃ rest, t.response = .bytes [] :: rest) :
    remaining serde t =
      (redactAll t.redactor (deltas (finalEvents serde t.assembler).2)).2 ++
        heldMask (redactAll t.redactor (deltas (finalEvents serde t.assembler).2)).1 := by
  unfold remaining
  rcases h with h | ⟨rest, h⟩ <;> rw [h, assembleResponse] <;> rfl

theorem remaining_chunk (t : StreamingTurn) (b : UInt8) (chunk : List UInt8) (response : List Read)
    (h : t.response = .bytes (b :: chunk) :: response) :
    let t' := readChunk serde { t with response } (b :: chunk)
    let events := chunkEvents serde t (b :: chunk)
    remaining serde t = (redactAll t.redactor (deltas events)).2 ++
      if endsTurn t'.assembler events then [] else remaining serde t' := by
  intro t' events
  have hredactor : t'.redactor = (redactAll t.redactor (deltas events)).1 :=
    chunk_redactor serde { t with response } (b :: chunk)
  have hassembled : assembleResponse serde t.response t.pendingBytes t.assembler =
      if endsTurn t'.assembler events then (events, false)
      else (events ++ (assembleResponse serde response t'.pendingBytes t'.assembler).1,
        (assembleResponse serde response t'.pendingBytes t'.assembler).2) := by
    rw [h]
    rfl
  unfold remaining
  rw [hassembled]
  split
  · simp
  · rw [hredactor]
    simp only [deltas_append, redact_all_append, List.append_assoc]
    rfl

theorem delivered_chunk (polls : List Bool) (t : StreamingTurn) (chunk : List UInt8)
    (before rest : List ProviderEvent) (hready : Ready t) (hq : t.queued = [])
    (hends : endsTurn (readChunk serde t chunk).assembler (chunkEvents serde t chunk) = true)
    (hrun : collect serde polls (readChunk serde t chunk) = before ++ .event .completed :: rest)
    (hbefore : Open before) :
    deltaText before = (redactAll t.redactor (deltas (chunkEvents serde t chunk))).2 := by
  obtain ⟨queued, hqueue⟩ :=
    drained serde polls _ before rest (chunk_ends serde t chunk hends) hrun
  rw [chunk_queued serde t chunk hq] at hqueue
  rcases verdict_closed (chunk_verdict serde t chunk hready) with hopen | ⟨front, hclosed, hopen⟩
  · have hall := (shown_open serde t.redactor t.toolNames _).mpr hopen
    rw [hqueue] at hall
    exact absurd hall (not_open_completed before queued)
  · obtain ⟨shownFront, hsplit, ho, htext⟩ := shown_closed serde t.redactor t.toolNames front hopen
    rw [← hclosed, hqueue] at hsplit
    have hfront : before = shownFront := open_split hsplit hbefore ho
    have hdeltas : deltas (chunkEvents serde t chunk) = deltas front := by
      rw [hclosed, deltas_append]
      simp [deltas, delta]
    rw [hfront, htext, hdeltas]

theorem delivered_end (polls : List Bool) (t : StreamingTurn)
    (before rest : List ProviderEvent) (hready : Ready t) (hq : t.queued = [])
    (hrun : collect serde polls (readEnd serde t) = before ++ .event .completed :: rest)
    (hbefore : Open before) :
    deltaText before = (redactAll t.redactor (deltas (finalEvents serde t.assembler).2)).2 ++
      heldMask (redactAll t.redactor (deltas (finalEvents serde t.assembler).2)).1 := by
  obtain ⟨queued, hqueue⟩ := drained serde polls (readEnd serde t) before rest rfl hrun
  rcases read_end_queue serde t hq hready with ⟨-, hopen⟩ | ⟨front, hsplit, ho, htext⟩
  · rw [hqueue] at hopen
    exact absurd hopen (not_open_completed before queued)
  · rw [hqueue] at hsplit
    rw [← htext, open_split hsplit hbefore ho]

/-- One induction over the rounds: what is queued comes first, then the rest of the response. -/
theorem delivered (polls : List Bool) (t : StreamingTurn) (before rest : List ProviderEvent)
    (hready : Ready t) (hqueued : Open t.queued)
    (hrun : collect serde polls t = before ++ .event .completed :: rest) (hbefore : Open before) :
    deltaText before = deltaText t.queued ++ remaining serde t := by
  induction polls generalizing t before with
  | nil => simp [collect] at hrun
  | cons cancelled polls ih =>
    rw [collect] at hrun
    rcases pass_cases serde cancelled t with hend | ⟨message, t', hdone, hpass⟩ |
      ⟨event, queued, hq, hpass⟩ | ⟨hq, -, hpass⟩
    · rcases hp : pass serde cancelled t with ⟨t', p⟩
      rw [hp] at hend hrun
      simp only at hend
      subst hend
      simp at hrun
    · rw [hpass] at hrun
      simp only [collect_done serde polls t' hdone] at hrun
      cases before with
      | nil => simp at hrun
      | cons e before => simp at hrun
    · rw [hpass] at hrun
      simp only at hrun
      rw [hq] at hqueued ⊢
      cases before with
      | nil =>
        obtain ⟨rfl, -⟩ := List.cons.inj hrun
        exact absurd hqueued (not_open_completed [] queued)
      | cons e before =>
        obtain ⟨rfl, htail⟩ := List.cons.inj hrun
        have hrest := ih { t with queued } before hready (fun x hx => hqueued x (by simp [hx]))
          htail fun x hx => hbefore x (by simp [hx])
        have hsame : remaining serde { t with queued } = remaining serde t := rfl
        rw [hsame] at hrest
        rw [← List.singleton_append, ← List.singleton_append (l := queued), delta_text_append,
          delta_text_append, hrest, List.append_assoc]
    · rw [hpass, StreamingTurn.read] at hrun
      rw [hq]
      change deltaText before = [] ++ remaining serde t
      rw [List.nil_append]
      rcases hresponse : t.response with _ | ⟨⟨_ | ⟨b, chunk⟩⟩ | _, response⟩
      · rw [hresponse] at hrun
        rw [remaining_end serde t (Or.inl hresponse)]
        exact delivered_end serde polls t before rest hready hq hrun hbefore
      · rw [hresponse] at hrun
        rw [remaining_end serde t (Or.inr ⟨response, hresponse⟩)]
        exact delivered_end serde polls t before rest hready hq hrun hbefore
      · rw [hresponse] at hrun
        have hready' : Ready { t with response } := hready
        rw [remaining_chunk serde t b chunk response hresponse]
        cases hends : endsTurn (readChunk serde { t with response } (b :: chunk)).assembler
            (chunkEvents serde t (b :: chunk)) with
        | true =>
          rw [if_pos rfl, List.append_nil]
          exact delivered_chunk serde polls { t with response } (b :: chunk) before rest hready' hq
            hends hrun hbefore
        | false =>
          obtain ⟨hnext, hopen⟩ := chunk_continues serde { t with response } (b :: chunk) hready' hends
          have hqueue := chunk_queued serde { t with response } (b :: chunk) hq
          have hrest := ih _ before hnext
            (by rw [hqueue]; exact (shown_open serde _ _ _).mpr hopen) hrun hbefore
          rw [hqueue, shown_text] at hrest
          rw [if_neg (by simp)]
          exact hrest
      · rw [hresponse] at hrun
        have hover := collect_done serde polls { t with response, state := .done } rfl
        simp only [hover] at hrun
        cases before with
        | nil => simp at hrun
        | cons e before => simp at hrun

section Agreement

variable (credential : Option Text) (response : List Read)

def assembled : List ProviderEvent × Bool :=
  assembleResponse serde response [] (Sse.new Sse.maxResponseBytes)

/-- What the redactor makes of all the deltas, and the redactor after the last of them. -/
def redactedDeltas : StreamingSecretRedactor × Text :=
  redactAll (StreamingSecretRedactor.new credential) (deltas (assembled serde response).1)

theorem new_ready (provider : Text) (names : ToolNames) :
    Ready (StreamingTurn.new response provider names credential) := by
  refine ⟨rfl, ⟨rfl, rfl⟩, Nat.zero_le _, ?_⟩
  simp [Sse.Nonterminal]

/-- The delivered text carries the mask of what is held exactly when the turn was completed by the
end of its body, unless there is nothing to mask or no mask. -/
theorem live_text_iff (provider : Text) (names : ToolNames) (polls : List Bool)
    (before rest : List ProviderEvent)
    (hrun : collect serde polls (StreamingTurn.new response provider names credential) =
      before ++ .event .completed :: rest)
    (hbefore : .event .completed ∉ before) :
    deltaText before = (redactedDeltas serde credential response).2 ++
        heldMask (redactedDeltas serde credential response).1 ↔
      (assembled serde response).2 = true ∨
        (redactedDeltas serde credential response).1.pending = [] ∨
          redactionMarker [] (redactedDeltas serde credential response).1.variants = [] := by
  have hopen : Open before := by
    intro event hmem
    cases hc : isCompletion event with
    | false => rfl
    | true =>
      rw [(completion_iff event).mp hc] at hmem
      exact absurd hmem hbefore
  have hnone : Open [] := by simp [Open]
  have htext := delivered serde polls _ before rest (new_ready credential response provider names)
    hnone hrun hopen
  have hremaining : remaining serde (StreamingTurn.new response provider names credential) =
      (redactedDeltas serde credential response).2 ++ if (assembled serde response).2 then
        heldMask (redactedDeltas serde credential response).1 else [] := rfl
  rw [htext, hremaining, ← held_mask_eq_nil]
  change [] ++ _ = _ ↔ _
  rw [List.nil_append]
  cases (assembled serde response).2 with
  | true => simp
  | false =>
    rw [if_neg (by simp), List.append_nil, List.self_eq_append_right]
    simp

end Agreement

theorem split_at_completion {events : List ProviderEvent} {n : ℕ} {flags : List Bool}
    (h : events.map isCompletion = List.replicate n false ++ true :: flags) :
    ∃ before rest, events = before ++ .event .completed :: rest ∧ before = events.take n ∧
      .event .completed ∉ before := by
  obtain ⟨before, after, rfl, hbefore, hafter⟩ := List.map_eq_append_iff.mp h
  obtain ⟨event, rest, rfl, hevent, -⟩ := List.map_eq_cons_iff.mp hafter
  have hlength : before.length = n := by
    rw [← List.length_map isCompletion, hbefore, List.length_replicate]
  refine ⟨before, rest, ?_, ?_, fun hmem => ?_⟩
  · rw [(completion_iff event).mp hevent]
  · rw [← hlength, List.take_left]
  · have hflag : true ∈ before.map isCompletion := List.mem_map.mpr ⟨_, hmem, rfl⟩
    rw [hbefore] at hflag
    exact absurd (List.eq_of_mem_replicate hflag) (by simp)

/-- The only text that the responses below hand to the parser is that of one delta frame. -/
def heldSerde : SerdeJson := ⟨Sse.deltaParse, fun _ => []⟩

def heldCredential : Text := ['x', 'b', 'c', 'd', 'e', 'f', 'g', 'h', 'i']

def heldResponse (last : Text) : List Read :=
  [.bytes ((Sse.deltaChunk ++ last).flatMap String.utf8EncodeChar)]

def heldRun (last : Text) : List ProviderEvent :=
  collect heldSerde [false, false, false, false, false]
    (StreamingTurn.new (heldResponse last) [] ⟨[]⟩ (some heldCredential))

/-- The first letter of a credential is held when `[DONE]` arrives, and it is dropped: neither shown
nor masked. -/
theorem live_text_fails :
    ∃ serde credential response provider names polls before rest,
      collect serde polls (StreamingTurn.new response provider names credential) =
          before ++ .event .completed :: rest ∧
        .event .completed ∉ before ∧
        deltaText before ≠ (redactedDeltas serde credential response).2 ++
          heldMask (redactedDeltas serde credential response).1 := by
  have hflags : (heldRun Sse.finalChunk).map isCompletion = List.replicate 1 false ++ [true] := by
    decide +kernel
  have hshown : deltaText ((heldRun Sse.finalChunk).take 1) = [] := by decide +kernel
  have hmask : (redactedDeltas heldSerde (some heldCredential) (heldResponse Sse.finalChunk)).2 ++
      heldMask (redactedDeltas heldSerde (some heldCredential) (heldResponse Sse.finalChunk)).1 =
        "[REDACTED]".toList := by decide +kernel
  obtain ⟨before, rest, hrun, htake, hfirst⟩ := split_at_completion hflags
  refine ⟨heldSerde, some heldCredential, heldResponse Sse.finalChunk, [], ⟨[]⟩,
    [false, false, false, false, false], before, rest, hrun, hfirst, ?_⟩
  rw [hmask, htake, hshown]
  decide

/-- Without the newline behind it, `[DONE]` is found at the end of the body. -/
theorem live_text_unterminated :
    ∃ before rest,
      collect heldSerde [false, false, false, false, false]
          (StreamingTurn.new (heldResponse Sse.finalLine) [] ⟨[]⟩ (some heldCredential)) =
          before ++ .event .completed :: rest ∧
        (deltaText before =
            (redactedDeltas heldSerde (some heldCredential) (heldResponse Sse.finalLine)).2 ++
              heldMask
                (redactedDeltas heldSerde (some heldCredential) (heldResponse Sse.finalLine)).1 ↔
          (assembled heldSerde (heldResponse Sse.finalLine)).2 = true ∨
            (redactedDeltas heldSerde (some heldCredential) (heldResponse Sse.finalLine)).1.pending =
                [] ∨
              redactionMarker []
                (redactedDeltas heldSerde (some heldCredential)
                  (heldResponse Sse.finalLine)).1.variants = []) := by
  have hflags : (heldRun Sse.finalLine).map isCompletion = List.replicate 2 false ++ [true] := by
    decide +kernel
  obtain ⟨before, rest, hrun, -, hfirst⟩ := split_at_completion hflags
  exact ⟨before, rest, hrun, live_text_iff heldSerde (some heldCredential)
    (heldResponse Sse.finalLine) [] ⟨[]⟩ _ before rest hrun hfirst⟩

end Siralos.Streaming
