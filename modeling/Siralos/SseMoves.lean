import Siralos.Sse

/-!
# What one line can do

Every reader of a line other than the commit is a path of elementary moves of
the assembly. Invariants of the stream are proved move by move.
-/

set_option autoImplicit false

namespace Siralos.Sse
open Text Json Provider Emission

def live (a : Assembly) : Prop := a.failed = false ∧ a.completed = false

theorem live_iff (a : Assembly) : live a ↔ ¬ (a.failed || a.completed) = true := by
  unfold live
  cases a.failed <;> cases a.completed <;> simp

/-- One elementary move and the events it delivers. -/
inductive Move : Assembly → Assembly → List ProviderEvent → Prop
  | eventType (a : Assembly) (event : Text) (hv : validMetadataText event 128 = true) :
      Move a { a with eventType := some event } []
  | eventId (a : Assembly) (id : Text) (hv : validMetadataText id 256 = true) :
      Move a { a with eventId := id } []
  | model (a : Assembly) (model : Text) (hv : validMetadataText model 256 = true) :
      Move a { a with model := model } []
  | usage (a : Assembly) (usage : Value) (hv : boundedMetadataValue usage 0 = true)
      (hn : usage.isNull = false) : Move a { a with usage := some usage } []
  | finishReason (a : Assembly) (reason : Text) (hv : validMetadataText reason 64 = true) :
      Move a { a with finishReason := some reason } []
  | grow (a : Assembly) (n : ℕ) (hn : a.calls.length + n ≤ maxStreamedToolCalls ∨ n = 0) :
      Move a { a with calls := a.calls ++ List.replicate n {} } []
  | callId (a : Assembly) (index : ℕ) (id : Text) (hv : validMetadataText id 256 = true) :
      Move a { a with calls := a.calls.modify index fun slot =>
        if !id.isEmpty && slot.id.isEmpty then { slot with id := id } else slot } []
  | callName (a : Assembly) (index : ℕ) (name : Text)
      (hv : validMetadataText name maxProviderToolNameBytes = true) :
      Move a { a with calls := a.calls.modify index fun slot =>
        if !name.isEmpty && slot.name.isEmpty then { slot with name := name } else slot } []
  | callArguments (a : Assembly) (index : ℕ) (args : Text) (hv : validStreamText args = true) :
      Move a { a with calls := a.calls.modify index fun slot =>
        { slot with arguments := slot.arguments ++ args } } []
  | text (a : Assembly) (text : Text) (hv : validStreamText text = true) (hne : text ≠ [])
      (hc : a.eventCount < maxStreamEvents) :
      Move a { a with content := a.content ++ text, eventCount := a.eventCount + 1 }
        [.event (.textDelta text)]
  | reasoning (a : Assembly) (text : Text) (hv : validStreamText text = true) (hne : text ≠ [])
      (hc : a.eventCount < maxStreamEvents) :
      Move a { a with reasoning := a.reasoning ++ text, eventCount := a.eventCount + 1 }
        [.event (.reasoningDelta text)]

/-- A path of moves, which a refusal may end. The history is the one so far. -/
inductive Path (start : Assembly) (before : List ProviderEvent) :
    Assembly → List ProviderEvent → Prop
  | start : Path start before start before
  | move {a a' : Assembly} {h es : List ProviderEvent} (hp : Path start before a h)
      (hl : live a) (hm : Move a a' es) : Path start before a' (h ++ es)
  | refuse {a : Assembly} {h : List ProviderEvent} (hp : Path start before a h) (hl : live a)
      (a' : Assembly) (message : Text) (hf : a'.failed = true)
      (hc : a'.completed = false) (hm : message ≠ tooAmbiguous) :
      Path start before a' (h ++ [.failed message])

def Onward (start : Assembly) (before : List ProviderEvent) (a : Assembly)
    (h : List ProviderEvent) : Prop := Path start before a h ∧ live a

/-- A reader that only walks along moves, and goes on only while live. -/
def Walks {α : Type} (c : Reader α) : Prop :=
  ∀ start before, Holds (Onward start before) c (fun _ => Onward start before)
    (Path start before)

section Rules

variable {α β : Type}

theorem walks_pure (x : α) : Walks (pure x : Reader α) :=
  fun _ _ => holds_pure x fun _ _ hp => hp

theorem walks_leave : Walks (leave : Reader α) :=
  fun _ _ => holds_leave fun _ _ hp => hp.1

theorem walks_observe : Walks (observe : Reader Assembly) := by
  intro start before a h hp
  simpa [observe] using hp

theorem walks_bind {c : Reader α} {f : α → Reader β} (hc : Walks c) (hf : ∀ x, Walks (f x)) :
    Walks (c >>= f) :=
  fun start before => holds_bind (hc start before) fun x => hf x start before

theorem walks_reject (message : Text) (hm : message ≠ tooAmbiguous) :
    Walks (reject message : Reader α) := by
  intro start before a h hp
  exact Path.refuse hp.1 hp.2 (fail a) message rfl hp.2.2 hm

theorem walks_ensure (condition : Bool) (message : Text) (hm : message ≠ tooAmbiguous) :
    Walks (ensure condition message) := by
  cases condition with
  | true => exact walks_pure ()
  | false => exact walks_reject message hm

theorem walks_require (value : Option α) (message : Text) (hm : message ≠ tooAmbiguous) :
    Walks (require value message) := by
  cases value with
  | some value => exact walks_pure value
  | none => exact walks_reject message hm

theorem walks_present (value : Option α) (read : α → Reader Unit) (hr : ∀ x, Walks (read x)) :
    Walks (present value read) := by
  cases value with
  | some value => exact hr value
  | none => exact walks_pure ()

theorem walks_each (f : α → Reader Unit) (xs : List α) (hf : ∀ x, Walks (f x)) :
    Walks (each f xs) :=
  fun start before => holds_each f xs fun x _ => hf x start before

theorem walks_ensure_then (condition : Bool) (message : Text) (c : Reader β)
    (hm : message ≠ tooAmbiguous) (hc : condition = true → Walks c) :
    Walks (ensure condition message >>= fun _ => c) := by
  cases condition with
  | true => exact walks_bind (walks_pure ()) fun _ => hc rfl
  | false =>
    intro start before a h hp
    exact walks_reject (α := β) message hm start before a h hp

theorem walks_update (f : Assembly → Assembly)
    (hf : ∀ a, live a → f a = a ∨ Move a (f a) [] ∧ live (f a)) :
    Walks (update f : Reader Unit) := by
  intro start before
  refine holds_update f fun a h hp => ?_
  rcases hf a hp.2 with he | ⟨hm, hl⟩
  · rwa [he]
  · have hpath := Path.move hp.1 hp.2 hm
    rw [List.append_nil] at hpath
    exact ⟨hpath, hl⟩

end Rules

theorem emit_event_under (event : ProviderEvent) (a : Assembly)
    (hc : a.eventCount < maxStreamEvents) :
    (emitEvent event).run a = (some (), { a with eventCount := a.eventCount + 1 }, [event]) := by
  rw [emitEvent, observe_bind, decide_eq_true hc]
  rfl

theorem emit_event_over (event : ProviderEvent) (a : Assembly)
    (hc : ¬ a.eventCount < maxStreamEvents) :
    (emitEvent event).run a =
      (none, fail a, [.failed "provider SSE event count exceeds its bound"]) := by
  rw [emitEvent, observe_bind, decide_eq_false hc]
  rfl

theorem walks_record (f : Assembly → Assembly) (event : ProviderEvent)
    (hlive : ∀ a, live a → live (f a))
    (hmove : ∀ a, (f a).eventCount < maxStreamEvents →
      Move a { f a with eventCount := (f a).eventCount + 1 } [event]) :
    Walks (update f >>= fun _ => emitEvent event : Reader Unit) := by
  intro start before a h hp
  have hf := hlive a hp.2
  rw [update_bind]
  by_cases hc : (f a).eventCount < maxStreamEvents
  · rw [emit_event_under event (f a) hc]
    exact ⟨Path.move hp.1 hp.2 (hmove a hc), hf⟩
  · rw [emit_event_over event (f a) hc]
    exact Path.refuse hp.1 hp.2 _ _ rfl hf.2 (ofString_ne (by simp))

theorem walks_id (value : Value) : Walks (consumeId value) := by
  refine walks_present _ _ fun id => walks_ensure_then _ _ _ (ofString_ne (by simp)) fun hv => ?_
  refine walks_update _ fun a hl => ?_
  by_cases he : a.eventId.isEmpty
  · simp only [he, if_true]
    exact Or.inr ⟨.eventId a id hv, hl⟩
  · simp [he]

theorem walks_model (value : Value) : Walks (consumeModel value) := by
  refine walks_present _ _ fun model => walks_ensure_then _ _ _ (ofString_ne (by simp)) fun hv => ?_
  refine walks_update _ fun a hl => ?_
  by_cases he : a.model.isEmpty
  · simp only [he, if_true]
    exact Or.inr ⟨.model a model hv, hl⟩
  · simp [he]

theorem walks_usage (value : Value) : Walks (consumeUsage value) := by
  refine walks_present _ _ fun usage => ?_
  by_cases hn : usage.isNull = true
  · rw [if_pos hn]
    exact walks_pure ()
  · rw [if_neg hn]
    refine walks_ensure_then _ _ _ (ofString_ne (by simp)) fun hv => ?_
    exact walks_update _ fun a hl => Or.inr ⟨.usage a usage hv (by simpa using hn), hl⟩

theorem walks_grow (index : ℕ) (hi : index < maxStreamedToolCalls) : Walks (growCalls index) := by
  refine walks_update _ fun a hl => Or.inr ⟨.grow a _ ?_, hl⟩
  omega

theorem walks_call_id (index : ℕ) (call : Value) : Walks (consumeCallId index call) := by
  refine walks_present _ _ fun idValue => walks_bind (walks_require _ _ (ofString_ne (by simp))) fun id => ?_
  refine walks_ensure_then _ _ _ (ofString_ne (by simp)) fun hv => ?_
  exact walks_update _ fun a hl => Or.inr ⟨.callId a index id hv, hl⟩

theorem walks_call_name (index : ℕ) (function : Value) :
    Walks (consumeCallName index function) := by
  refine walks_present _ _ fun nameValue =>
    walks_bind (walks_require _ _ (ofString_ne (by simp))) fun name => ?_
  refine walks_ensure_then _ _ _ (ofString_ne (by simp)) fun hv => ?_
  exact walks_update _ fun a hl => Or.inr ⟨.callName a index name hv, hl⟩

theorem walks_call_arguments (index : ℕ) (function : Value) :
    Walks (consumeCallArguments index function) := by
  refine walks_present _ _ fun argsValue =>
    walks_bind (walks_require _ _ (ofString_ne (by simp))) fun args => ?_
  refine walks_ensure_then _ _ _ (ofString_ne (by simp)) fun hv => ?_
  exact walks_update _ fun a hl => Or.inr ⟨.callArguments a index args hv, hl⟩

theorem walks_call (call : Value) : Walks (consumeCall call) := by
  refine walks_bind (walks_require _ _ (ofString_ne (by simp))) fun index => ?_
  refine walks_ensure_then _ _ _ (ofString_ne (by simp)) fun hi => ?_
  refine walks_bind (walks_grow index (by simpa using hi)) fun _ => ?_
  refine walks_bind (walks_call_id index call) fun _ => ?_
  refine walks_present _ _ fun function => ?_
  refine walks_bind (walks_ensure _ _ (ofString_ne (by simp))) fun _ => ?_
  exact walks_bind (walks_call_name index function) fun _ => walks_call_arguments index function

theorem walks_calls (delta : Value) : Walks (consumeCalls delta) := by
  refine walks_present _ _ fun rawCalls => walks_bind (walks_require _ _ (ofString_ne (by simp))) fun calls => ?_
  exact walks_each _ _ walks_call

theorem walks_content (delta : Value) : Walks (consumeContent delta) := by
  refine walks_present _ _ fun text => walks_ensure_then _ _ _ (ofString_ne (by simp)) fun hv => ?_
  by_cases he : text.isEmpty
  · rw [if_pos he]
    exact walks_pure ()
  · rw [if_neg he]
    exact walks_record _ _ (fun _ hl => hl) fun a hc => .text a text hv (by simpa using he) hc

theorem walks_reasoning (delta : Value) (field : Text) : Walks (consumeReasoning delta field) := by
  refine walks_present _ _ fun text => walks_ensure_then _ _ _ (ofString_ne (by simp)) fun hv => ?_
  by_cases he : text.isEmpty
  · rw [if_pos he]
    exact walks_pure ()
  · rw [if_neg he]
    exact walks_record _ _ (fun _ hl => hl) fun a hc => .reasoning a text hv (by simpa using he) hc

theorem walks_finish_reason (choice : Value) : Walks (consumeFinishReason choice) := by
  refine walks_present _ _ fun reason => walks_bind (walks_ensure _ _ (ofString_ne (by simp))) fun _ => ?_
  refine walks_ensure_then _ _ _ (ofString_ne (by simp)) fun hv => ?_
  exact walks_update _ fun a hl => Or.inr ⟨.finishReason a reason hv, hl⟩

theorem walks_choice (choice : Value) : Walks (consumeChoice choice) := by
  refine walks_bind (walks_ensure _ _ (ofString_ne (by simp))) fun _ => ?_
  refine walks_bind (walks_finish_reason choice) fun _ => ?_
  refine walks_bind (walks_require _ _ (ofString_ne (by simp))) fun delta => ?_
  refine walks_bind (walks_ensure _ _ (ofString_ne (by simp))) fun _ => ?_
  refine walks_bind (walks_content delta) fun _ => ?_
  exact walks_bind (walks_each _ _ (walks_reasoning delta)) fun _ => walks_calls delta

theorem walks_choices (choices : List Value) : Walks (consumeChoices choices) := by
  refine walks_bind walks_observe fun a => ?_
  by_cases he : choices.isEmpty
  · rw [if_pos he]
    by_cases hu : a.usage.isSome
    · rw [if_pos hu]
      exact walks_leave
    · rw [if_neg hu]
      exact walks_reject _ (ofString_ne (by simp))
  · rw [if_neg he]
    exact walks_bind (walks_ensure _ _ (ofString_ne (by simp))) fun _ => walks_each _ _ walks_choice

theorem walks_frame (value : Value) : Walks (consumeFrame value) := by
  refine walks_bind (walks_id value) fun _ => ?_
  refine walks_bind (walks_model value) fun _ => ?_
  refine walks_bind (walks_usage value) fun _ => ?_
  refine walks_bind (walks_ensure _ _ (ofString_ne (by simp))) fun _ => ?_
  refine walks_bind (walks_ensure _ _ (ofString_ne (by simp))) fun _ => ?_
  exact walks_bind (walks_require _ _ (ofString_ne (by simp))) fun choices => walks_choices choices

theorem walks_event (event : Text) : Walks (consumeEvent event) := by
  refine walks_ensure_then _ _ _ (ofString_ne (by simp)) fun hv => ?_
  refine walks_bind (walks_update _ fun a hl => Or.inr ⟨.eventType a event hv, hl⟩) fun _ => ?_
  exact walks_ensure _ _ (ofString_ne (by simp))

def doneLine (line : Text) : Bool :=
  match stripPrefix "event:" (trim line) with
  | some _ => false
  | none => match stripPrefix "data:" (trim line) with
    | some data => trim data == ("[DONE]" : Text)
    | none => false

theorem walks_line (parse : Text → Option Value) (line : Text) (hd : doneLine line = false) :
    Walks (consumeLine parse line) := by
  refine walks_bind walks_observe fun a => ?_
  by_cases hend : (a.failed || a.completed) = true
  · rw [if_pos hend]
    exact walks_leave
  rw [if_neg hend]
  by_cases hskip : ((trim line).isEmpty || startsWith ":" (trim line)) = true
  · simp only [hskip, if_true]
    exact walks_leave
  simp only [hskip, Bool.false_eq_true, if_false]
  unfold doneLine at hd
  cases hevent : stripPrefix "event:" (trim line) with
  | some event => exact walks_event (trim event)
  | none =>
    rw [hevent] at hd
    cases hdata : stripPrefix "data:" (trim line) with
    | none => exact walks_leave
    | some data =>
      rw [hdata] at hd
      refine walks_bind walks_observe fun a => walks_bind (walks_ensure _ _ (ofString_ne (by simp))) fun _ => ?_
      rw [if_neg (by simpa using hd)]
      exact walks_bind (walks_require _ _ (ofString_ne (by simp))) fun value => walks_frame value

theorem consume_line_done (parse : Text → Option Value) (line : Text) (a : Assembly)
    (hl : live a) (hd : doneLine line = true) :
    (consumeLine parse line).run a = (none, commit parse a) := by
  unfold doneLine at hd
  cases hevent : stripPrefix "event:" (trim line) with
  | some event =>
    rw [hevent] at hd
    exact absurd hd Bool.false_ne_true
  | none =>
    cases hdata : stripPrefix "data:" (trim line) with
    | none =>
      rw [hevent, hdata] at hd
      exact absurd hd Bool.false_ne_true
    | some data =>
      rw [hevent, hdata] at hd
      have hline := (strip_prefix_some _ _ _).mp hdata
      have hskip : ((trim line).isEmpty || startsWith ":" (trim line)) = false := by
        rw [hline]
        rfl
      rw [consumeLine, observe_bind, hl.1, hl.2]
      simp only [hskip, Bool.false_eq_true, if_false, Bool.or_self, hevent, hdata]
      rw [consumeData, observe_bind, hl.2, if_pos (by simpa using hd)]
      rfl

theorem consume_line_ended (parse : Text → Option Value) (line : Text) (a : Assembly)
    (he : (a.failed || a.completed) = true) : (consumeLine parse line).run a = (none, a, []) := by
  rw [consumeLine, observe_bind, if_pos he]
  rfl

theorem consume_lines_ended (parse : Text → Option Value) (lines : List Text) (a : Assembly)
    (he : (a.failed || a.completed) = true) : consumeLines parse lines a = (a, []) := by
  induction lines with
  | nil => rfl
  | cons line lines ih =>
    simp [consumeLines, consume_line_ended parse _ a he, ih]

theorem flush_tail_ended (parse : Text → Option Value) (a : Assembly) (pending : Text)
    (he : (a.failed || a.completed) = true) : flushTail parse a pending = (a, []) := by
  simp only [flushTail, consume_line_ended parse _ a he, ite_self]

theorem end_stream_ended (a : Assembly) (he : (a.failed || a.completed) = true) :
    endStream a = (a, []) := by
  rw [endStream, if_neg]
  revert he
  cases a.failed <;> cases a.completed <;> simp

theorem end_stream_live (a : Assembly) (hl : live a) :
    endStream a = (fail a, [.failed endedEarly]) := by
  rw [endStream, if_pos (by simp [hl.1, hl.2])]

theorem route_ended (s : CompletionStream) (chunk : Text)
    (he : (s.assembly.failed || s.assembly.completed) = true) : route s chunk = .ended := by
  rw [route, if_pos he]

theorem push_chunks_append (parse : Text → Option Value) (s : CompletionStream)
    (chunks more : List Text) :
    pushChunks parse s (chunks ++ more) =
      ((pushChunks parse (pushChunks parse s chunks).1 more).1,
        (pushChunks parse s chunks).2 ++ (pushChunks parse (pushChunks parse s chunks).1 more).2) := by
  induction chunks generalizing s with
  | nil => simp [pushChunks]
  | cons chunk chunks ih => simp [pushChunks, ih, List.append_assoc]

theorem finish_plain (parse : Text → Option Value) (s : CompletionStream) :
    (finish parse s).1.plainBody = s.plainBody := by
  unfold finish
  split <;> rfl

end Siralos.Sse
