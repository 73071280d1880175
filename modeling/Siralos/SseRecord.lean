import Siralos.SseCommit

/-!
# What the assembly keeps of the delivered events

Until it fails, the assembly mirrors the deltas it has delivered; the calls it delivers are
those of its slots, at the commit.
-/

set_option autoImplicit false

namespace Siralos.Sse
open Text Json Provider Emission

def answerText (events : List ProviderEvent) : Text :=
  events.flatMap fun event =>
    match event with
    | .event (.textDelta text) => text
    | _ => []

def reasoningText (events : List ProviderEvent) : Text :=
  events.flatMap fun event =>
    match event with
    | .event (.reasoningDelta text) => text
    | _ => []

/-- Id, name and parsed input of the tool calls, in order. -/
def toolCallsOf (events : List ProviderEvent) : List (Text × Text × Value) :=
  events.filterMap fun event =>
    match event with
    | .event (.toolCall id name input) => some (id, name, input.value)
    | _ => none

@[simp] theorem answer_text_append (es fs : List ProviderEvent) :
    answerText (es ++ fs) = answerText es ++ answerText fs := by
  simp [answerText]

@[simp] theorem reasoning_text_append (es fs : List ProviderEvent) :
    reasoningText (es ++ fs) = reasoningText es ++ reasoningText fs := by
  simp [reasoningText]

@[simp] theorem tool_calls_append (es fs : List ProviderEvent) :
    toolCallsOf (es ++ fs) = toolCallsOf es ++ toolCallsOf fs := by
  simp [toolCallsOf]

section Keeps

variable {parse : Text → Option Value} {I : Assembly → List ProviderEvent → Prop}
  (hline : ∀ line a h, I a h →
    I ((consumeLine parse line).run a).2.1 (h ++ ((consumeLine parse line).run a).2.2))
  (hfail : ∀ a h message, I a h → I (fail a) (h ++ [.failed message]))

include hline

theorem lines_keep (lines : List Text) (a : Assembly) (h : List ProviderEvent) (hi : I a h) :
    I (consumeLines parse lines a).1 (h ++ (consumeLines parse lines a).2) := by
  induction lines generalizing a h with
  | nil => simpa [consumeLines] using hi
  | cons line lines ih =>
    have hstep := hline (trimEndMatches '\r' line) a h hi
    rw [consumeLines]
    set r := (consumeLine parse (trimEndMatches '\r' line)).run a with hr
    rcases r with ⟨u, a', es⟩
    simp only at hstep ⊢
    by_cases hf : a'.failed = true
    · rw [if_pos hf]
      exact hstep
    · rw [if_neg hf]
      have hrest := ih a' (h ++ es) hstep
      rwa [List.append_assoc] at hrest

theorem flush_keeps (a : Assembly) (pending : Text) (h : List ProviderEvent) (hi : I a h) :
    I (flushTail parse a pending).1 (h ++ (flushTail parse a pending).2) := by
  unfold flushTail
  by_cases htail : (trim pending).isEmpty = true
  · simpa [htail] using hi
  · simpa [htail] using hline (trim pending) a h hi

include hfail

theorem chunk_keeps (s : CompletionStream) (chunk : Text) (h : List ProviderEvent)
    (hi : I s.assembly h) :
    I (pushChunk parse s chunk).1.assembly (h ++ (pushChunk parse s chunk).2) := by
  unfold pushChunk
  cases route s chunk with
  | overLimit => exact hfail _ h _ hi
  | ambiguous => exact hfail _ h _ hi
  | lines buffer => exact lines_keep hline (cutLines buffer).1 s.assembly h hi
  | _ => simpa [accept] using hi

theorem chunks_keep (chunks : List Text) (s : CompletionStream) (h : List ProviderEvent)
    (hi : I s.assembly h) :
    I (pushChunks parse s chunks).1.assembly (h ++ (pushChunks parse s chunks).2) := by
  induction chunks generalizing s h with
  | nil => simpa [pushChunks] using hi
  | cons chunk chunks ih =>
    have hrest := ih _ _ (chunk_keeps hline hfail s chunk h hi)
    simpa [pushChunks, List.append_assoc] using hrest

theorem finish_keeps (s : CompletionStream) (h : List ProviderEvent) (hi : I s.assembly h) :
    I (finish parse s).1.assembly (h ++ (finish parse s).2) := by
  unfold finish
  by_cases hf : s.assembly.failed = true
  · simpa [hf] using hi
  rw [if_neg hf]
  have hflush := flush_keeps hline s.assembly s.pending h hi
  by_cases hp : s.plainBody.isSome = true
  · simpa [hp] using hflush
  · simp only [hp, Bool.false_eq_true, if_false]
    rw [← List.append_assoc]
    unfold endStream
    split
    · exact hfail _ _ _ hflush
    · simpa using hflush

end Keeps

/-- The record agrees with the deltas delivered so far. -/
structure Mirrors (a : Assembly) (h : List ProviderEvent) : Prop where
  bound : a.eventCount ≤ maxStreamEvents
  text : answerText h = a.content
  reasoning : reasoningText h = a.reasoning
  contentValid : validStreamText a.content = true
  reasoningValid : validStreamText a.reasoning = true

/-- Every slot was committed, and the commit delivered exactly their calls. -/
structure Committed (parse : Text → Option Value) (a : Assembly) (h : List ProviderEvent) :
    Prop where
  accepted : refusal parse a.calls = none
  usable : usable a = true
  calls : toolCallsOf h = toolCallsOf (readyEvents parse a.calls)

def Recorded (parse : Text → Option Value) (a : Assembly) (h : List ProviderEvent) : Prop :=
  a.failed = true ∨ a.failed = false ∧ Mirrors a h ∧
    (a.completed = false ∧ toolCallsOf h = [] ∨ a.completed = true ∧ Committed parse a h)

theorem valid_stream_text_append (s t : Text) (hs : validStreamText s = true)
    (ht : validStreamText t = true) : validStreamText (s ++ t) = true := by
  rw [validStreamText, List.all_append, Bool.and_eq_true]
  exact ⟨hs, ht⟩

theorem move_mirrors {a a' : Assembly} {h es : List ProviderEvent} (hm : Move a a' es)
    (hr : Mirrors a h) : Mirrors a' (h ++ es) := by
  cases hm with
  | text text hv hne hlt =>
    constructor
    case bound => exact hlt
    case text => simp [answerText, ← hr.text]
    case reasoning => simp [reasoningText, ← hr.reasoning]
    case contentValid => exact valid_stream_text_append _ _ hr.contentValid hv
    case reasoningValid => exact hr.reasoningValid
  | reasoning text hv hne hlt =>
    constructor
    case bound => exact hlt
    case text => simp [answerText, ← hr.text]
    case reasoning => simp [reasoningText, ← hr.reasoning]
    case contentValid => exact hr.contentValid
    case reasoningValid => exact valid_stream_text_append _ _ hr.reasoningValid hv
  | _ =>
    rw [List.append_nil]
    exact ⟨hr.bound, hr.text, hr.reasoning, hr.contentValid, hr.reasoningValid⟩

theorem move_live {a a' : Assembly} {es : List ProviderEvent} (hm : Move a a' es) (hl : live a) :
    live a' := by
  cases hm <;> exact hl

theorem move_calls {a a' : Assembly} {es : List ProviderEvent} (hm : Move a a' es) :
    toolCallsOf es = [] := by
  cases hm <;> rfl

theorem path_recorded {parse : Text → Option Value} {start a : Assembly}
    {before h : List ProviderEvent} (hp : Path start before a h) (hl : live start)
    (hr : Mirrors start before) (hc : toolCallsOf before = []) : Recorded parse a h := by
  induction hp with
  | start => exact .inr ⟨hl.1, hr, .inl ⟨hl.2, hc⟩⟩
  | move hp hlive hm ih =>
    rcases ih with hf | ⟨-, hmirrors, ⟨-, hcalls⟩ | ⟨hcompleted, -⟩⟩
    · exact absurd hf (by simp [hlive.1])
    · have hkept := move_mirrors hm hmirrors
      have hnone := move_calls hm
      have hlive' := move_live hm hlive
      exact .inr ⟨hlive'.1, hkept, .inl ⟨hlive'.2, by simp [hcalls, hnone]⟩⟩
    · exact absurd hcompleted (by simp [hlive.2])
  | refuse hp hlive a' message hf hc hm ih => exact .inl hf

theorem ready_texts (parse : Text → Option Value) (calls : List PartialCall) :
    answerText (readyEvents parse calls) = [] ∧ reasoningText (readyEvents parse calls) = [] := by
  induction calls with
  | nil => exact ⟨rfl, rfl⟩
  | cons call calls ih =>
    rw [readyEvents]
    split
    · exact ⟨rfl, rfl⟩
    · exact ih
    · rename_i event hcall
      obtain ⟨input, -, -, rfl⟩ := commit_call_event parse call event hcall
      exact ih

theorem commit_recorded (parse : Text → Option Value) (a : Assembly) (h : List ProviderEvent)
    (hl : live a) (hr : Mirrors a h) (hc : toolCallsOf h = []) :
    Recorded parse (commit parse a).1 (h ++ (commit parse a).2) := by
  by_cases hfit : commitFits parse a
  · rcases commit_fits parse a hl hfit with ⟨n, message, -, hcommit⟩ | ⟨hnone, husable, hcommit⟩
    · rw [hcommit]
      exact .inl rfl
    · rw [hcommit]
      obtain ⟨htext, hreasoning⟩ := ready_texts parse a.calls
      have hdone : answerText [.event .completed] = [] := rfl
      have hdone' : reasoningText [.event .completed] = [] := rfl
      have hnocall : toolCallsOf [.event .completed] = [] := rfl
      refine .inr ⟨hl.1, ⟨hfit, ?_, ?_, hr.contentValid, hr.reasoningValid⟩, .inr ⟨rfl, ?_⟩⟩
      · rw [answer_text_append, answer_text_append, htext, hdone, hr.text]
        exact List.append_nil _
      · rw [reasoning_text_append, reasoning_text_append, hreasoning, hdone', hr.reasoning]
        exact List.append_nil _
      · refine ⟨hnone, husable, ?_⟩
        rw [tool_calls_append, tool_calls_append, hc, hnocall, List.append_nil]
        exact List.nil_append _
  · exact .inl (commit_over parse a hl hr.bound hfit).1

theorem line_recorded (parse : Text → Option Value) (line : Text) (a : Assembly)
    (h : List ProviderEvent) (hr : Recorded parse a h) :
    Recorded parse ((consumeLine parse line).run a).2.1
      (h ++ ((consumeLine parse line).run a).2.2) := by
  by_cases hend : (a.failed || a.completed) = true
  · rw [consume_line_ended parse line a hend]
    simpa using hr
  · have hl := (live_iff a).mpr hend
    rcases hr with hf | ⟨-, hmirrors, ⟨-, hcalls⟩ | ⟨hcompleted, -⟩⟩
    · exact absurd hf (by simp [hl.1])
    · cases hd : doneLine line with
      | true =>
        rw [consume_line_done parse line a hl hd]
        exact commit_recorded parse a h hl hmirrors hcalls
      | false =>
        have hwalk := walks_line parse line hd a h a h ⟨.start, hl⟩
        rcases hrun : (consumeLine parse line).run a with ⟨_ | u, a', es⟩
        · rw [hrun] at hwalk
          exact path_recorded hwalk hl hmirrors hcalls
        · rw [hrun] at hwalk
          exact path_recorded hwalk.1 hl hmirrors hcalls
    · exact absurd hcompleted (by simp [hl.2])

theorem fail_recorded (parse : Text → Option Value) (a : Assembly) (h : List ProviderEvent)
    (message : Text) (_ : Recorded parse a h) : Recorded parse (fail a) (h ++ [.failed message]) :=
  .inl rfl

theorem new_recorded (parse : Text → Option Value) (limit : ℕ) :
    Recorded parse (new limit).assembly [] := by
  refine .inr ⟨rfl, ⟨?_, rfl, rfl, rfl, rfl⟩, .inl ⟨rfl, rfl⟩⟩
  exact Nat.zero_le _

/-- The chunks pushed in order, and the end of the body too if `ended`. -/
def streamed (parse : Text → Option Value) (limit : ℕ) (chunks : List Text) (ended : Bool) :
    CompletionStream × List ProviderEvent :=
  if ended then run parse limit chunks else pushChunks parse (new limit) chunks

theorem streamed_recorded (parse : Text → Option Value) (limit : ℕ) (chunks : List Text)
    (ended : Bool) :
    Recorded parse (streamed parse limit chunks ended).1.assembly
      (streamed parse limit chunks ended).2 := by
  have hpushed := chunks_keep (line_recorded parse) (fail_recorded parse) chunks (new limit) []
    (new_recorded parse limit)
  rw [List.nil_append] at hpushed
  cases ended with
  | false => exact hpushed
  | true => exact finish_keeps (line_recorded parse) (fail_recorded parse) _ _ hpushed

end Siralos.Sse
