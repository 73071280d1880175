import Siralos.NamedProvider
import Siralos.ReplayContract
import Siralos.ReplayEvents
import Siralos.ReplayStore

/-!
# Replaying a named provider's body

When the events played for a recorded body carry what the provider's own walk has shown: the two
read reasoning, leading texts and blocks of other kinds differently.
-/

set_option autoImplicit false

namespace Siralos.NamedProvider

open Text Json Provider Replay Redaction Streaming Emission
open Sse (answerText reasoningText toolCallsOf answer_text_append reasoning_text_append
  tool_calls_append)

def normalizeReplayEvent : ProviderEvent → ProviderEvent
  | .event (.textDelta text) => .event (.textDelta (withoutCr text))
  | .event (.reasoningDelta text) => .event (.reasoningDelta (withoutCr text))
  | other => other

/-- The events that a replay provider serves for a body. -/
def replayedEvents (serde : SerdeJson) (names : ToolNames) (text : Text) : List ProviderEvent :=
  names.restoreEvents ((completionEventsFromBody serde.fromStr text).map normalizeReplayEvent)

/-- The redactor shows the events of the walk as they are and holds nothing. -/
def Untouched (serde : SerdeJson) (credential : Text) (names : ToolNames)
    (walk : Check (List ProviderEvent)) : Prop :=
  ∀ events, walk = .ok events →
    redactEvents serde (.new (some credential)) (names.restoreEvents events) =
      (.new (some credential), names.restoreEvents events)

theorem without_cr_append (a b : Text) : withoutCr (a ++ b) = withoutCr a ++ withoutCr b :=
  List.filter_append ..

theorem without_cr_idempotent (text : Text) : withoutCr (withoutCr text) = withoutCr text := by
  rw [withoutCr, withoutCr, List.filter_filter]
  simp

theorem without_cr_eq_self {text : Text} : withoutCr text = text ↔ '\r' ∉ text := by
  rw [withoutCr, List.filter_eq_self]
  constructor
  · intro h hmem
    simpa using h '\r' hmem
  · intro h c hc
    exact decide_eq_true fun heq => h (heq ▸ hc)

theorem answer_restored (names : ToolNames) (events : List ProviderEvent) :
    answerText (names.restoreEvents events) = answerText events := by
  rw [answerText, answerText, ToolNames.restoreEvents, List.flatMap_map]
  congr 1
  funext event
  rcases event with (_ | _ | _ | _) | _ | _ | _ <;> rfl

theorem reasoning_restored (names : ToolNames) (events : List ProviderEvent) :
    reasoningText (names.restoreEvents events) = reasoningText events := by
  rw [reasoningText, reasoningText, ToolNames.restoreEvents, List.flatMap_map]
  congr 1
  funext event
  rcases event with (_ | _ | _ | _) | _ | _ | _ <;> rfl

def restoreCall (names : ToolNames) (call : Text × Text × Value) : Text × Text × Value :=
  (call.1, (names.real call.2.1).getD call.2.1, call.2.2)

theorem calls_restored (names : ToolNames) (events : List ProviderEvent) :
    toolCallsOf (names.restoreEvents events) = (toolCallsOf events).map (restoreCall names) := by
  rw [toolCallsOf, toolCallsOf, ToolNames.restoreEvents, List.filterMap_map, List.map_filterMap]
  congr 1
  funext event
  rcases event with (_ | _ | _ | _) | _ | _ | _ <;> rfl

theorem calls_normalized (events : List ProviderEvent) :
    toolCallsOf (events.map normalizeReplayEvent) = toolCallsOf events := by
  rw [toolCallsOf, toolCallsOf, List.filterMap_map]
  congr 1
  funext event
  rcases event with (_ | _ | _ | _) | _ | _ | _ <;> rfl

def Plays (player : Player) (played : List ProviderEvent) : Prop :=
  player.run () = (some (), (), played)

theorem plays_pure : Plays (pure ()) [] := rfl

theorem plays_emit (event : ProviderEvent) : Plays (emit event) [event] := rfl

theorem Plays.bind {first second : Player} {es fs : List ProviderEvent} (hfirst : Plays first es)
    (hsecond : Plays second fs) : Plays (first >>= fun _ => second) (es ++ fs) := by
  rw [Plays, bind_of_value hfirst, hsecond]

theorem plays_each {player : Value → Player} {value : Value} {values : List Value}
    {es fs : List ProviderEvent} (hfirst : Plays (player value) es)
    (hrest : Plays (each player values) fs) : Plays (each player (value :: values)) (es ++ fs) :=
  hfirst.bind hrest

def rawText (text : Text) : ProviderEvent := .event (.textDelta text)

def rawReasoning (text : Text) : ProviderEvent := .event (.reasoningDelta text)

theorem carried_text {value : Option Value} {text : Text} (h : value >>= Value.asStr = some text)
    (hne : text.isEmpty = false) : nonEmptyText value = some text := by
  rw [nonEmptyText, h, Option.filter_some, if_pos (by rw [hne]; rfl)]

theorem plays_text {value : Option Value} {text : Text} (h : value >>= Value.asStr = some text)
    (hne : text.isEmpty = false) : Plays (playText value) [rawText text] := by
  rw [playText, carried_text h hne]
  exact plays_emit _

theorem plays_reasoning {value : Option Value} {text : Text}
    (h : value >>= Value.asStr = some text) (hne : text.isEmpty = false) :
    Plays (playReasoning value) [rawReasoning text] := by
  rw [playReasoning, carried_text h hne]
  exact plays_emit _

/-- The played events fail nowhere and carry the reasoning of the walk. -/
structure Echoes (live played : List ProviderEvent) : Prop where
  reasoning : reasoningText (played.map normalizeReplayEvent) = withoutCr (reasoningText live)
  unfailed : ∀ message, .failed message ∉ played
  present : live ≠ [] → played ≠ []

theorem Echoes.append {live played live' played' : List ProviderEvent} (h : Echoes live played)
    (h' : Echoes live' played') : Echoes (live ++ live') (played ++ played') := by
  refine ⟨?_, ?_, ?_⟩
  · rw [List.map_append, reasoning_text_append, reasoning_text_append, without_cr_append,
      h.reasoning, h'.reasoning]
  · intro message hmem
    rcases List.mem_append.mp hmem with hmem | hmem
    · exact h.unfailed message hmem
    · exact h'.unfailed message hmem
  · intro hlive hplayed
    obtain ⟨hnone, hnone'⟩ := List.append_eq_nil_iff.mp hplayed
    apply hlive
    rw [not_not.mp fun hne => h.present hne hnone, not_not.mp fun hne => h'.present hne hnone']
    rfl

theorem echoes_nil : Echoes [] [] := ⟨rfl, by simp, by simp⟩

theorem each_usable_items {check : Value → Check Bool} {values : List Value} {usable result : Bool}
    (h : eachUsable check values usable = .ok result) :
    ∀ value ∈ values, ∃ item, check value = .ok item := by
  induction values generalizing usable with
  | nil => simp
  | cons value values ih =>
    rw [eachUsable, bind_ok] at h
    obtain ⟨item, hitem, hrest⟩ := h
    exact List.forall_mem_cons.mpr ⟨⟨item, hitem⟩, ih hrest⟩

section Openai

theorem parts_played {parts : List Value} (htyped : ∀ part ∈ parts, (kindOf part).isSome = true)
    {s t : OpenaiContent} (h : openaiParts parts s = .ok t) (hvalid : t.invalidText = false) :
    s.invalidText = false ∧ ∃ texts : List Text, t.events = s.events ++ texts.map textDelta ∧
      Plays (each (playMessageBlock true) parts) (texts.map rawText) := by
  induction parts generalizing s with
  | nil =>
    rw [openaiParts, Except.ok.injEq] at h
    subst h
    exact ⟨hvalid, [], (List.append_nil _).symm, plays_pure⟩
  | cons part parts ih =>
    simp only [openaiParts, bind_ok, ensure_ok, require_ok] at h
    obtain ⟨_, hobject, _, hkind, text, htext, hrest⟩ := h
    obtain ⟨hadded, texts, hevents, hplays⟩ :=
      ih (fun other hother => htyped other (List.mem_cons_of_mem _ hother)) hrest
    rw [OpenaiContent.addText] at hadded hevents
    by_cases hbad : (text.isEmpty || !validReplayText text) = true
    · rw [if_pos hbad] at hadded
      cases hadded
    · rw [if_neg hbad] at hadded hevents
      rw [Bool.or_eq_true, not_or] at hbad
      refine ⟨hadded, text :: texts, ?_, ?_⟩
      · rw [hevents, List.map_cons, List.append_assoc]
        rfl
      · show Plays _ ([rawText text] ++ texts.map rawText)
        refine plays_each ?_ hplays
        obtain ⟨kind, hsome⟩ := Option.isSome_iff_exists.mp (htyped part List.mem_cons_self)
        rw [kindOf] at hsome
        rw [hsome, Option.getD_some] at hkind
        have hthinking : kind ≠ ("thinking" : Text) := by
          rintro rfl
          exact absurd hkind (by decide)
        rw [playMessageBlock, kindOf, hsome, if_neg fun heq => hthinking (Option.some.inj heq),
          if_neg (by simp [hkind])]
        exact plays_text htext (by simpa using hbad.1)

theorem content_played {content : Option Value} {c : OpenaiContent} {usable : Bool}
    (hgate : validateMessageContent content = .ok usable) (h : openaiContent content = .ok c)
    (hvalid : c.invalidText = false) :
    ∃ texts : List Text, c.events = texts.map textDelta ∧
      Plays (playMessageContent true content) (texts.map rawText) := by
  unfold openaiContent at h
  split at h
  · cases h
    exact ⟨[], rfl, plays_pure⟩
  · cases h
    exact ⟨[], rfl, plays_pure⟩
  · rename_i text
    cases h
    rw [OpenaiContent.addText] at hvalid ⊢
    by_cases hbad : (text.isEmpty || !validReplayText text) = true
    · rw [if_pos hbad] at hvalid
      cases hvalid
    · rw [if_neg hbad]
      rw [Bool.or_eq_true, not_or] at hbad
      refine ⟨[text], rfl, ?_⟩
      have hwhole : some (.string text) >>= Value.asStr = some text := rfl
      have htext := carried_text hwhole (by simpa using hbad.1)
      rw [playMessageContent]
      simp only [htext]
      exact plays_emit _
  · rename_i parts
    simp only [bind_ok, ensure_ok] at h
    obtain ⟨_, hsome, h⟩ := h
    simp only [validateMessageContent, bind_ok, ensure_ok] at hgate
    obtain ⟨_, -, hgate⟩ := hgate
    have htyped : ∀ part ∈ parts, (kindOf part).isSome = true := by
      intro part hpart
      obtain ⟨item, hitem⟩ := each_usable_items hgate part hpart
      simp only [validateMessageBlock, bind_ok, ensure_ok, require_ok] at hitem
      obtain ⟨_, _, kind, hkind, -⟩ := hitem
      rw [kindOf, hkind]
      rfl
    obtain ⟨-, texts, hevents, hplays⟩ := parts_played htyped h hvalid
    exact ⟨texts, hevents, hplays⟩
  · cases h

theorem reasoning_played {reasoning : Option Value} {events : List ProviderEvent}
    (h : openaiReasoning reasoning = .ok events) :
    events = (reasoning >>= Value.asStr).toList.map rawReasoning ∧
      Plays (playReasoning reasoning) ((reasoning >>= Value.asStr).toList.map rawReasoning) := by
  unfold openaiReasoning at h
  split at h
  · cases h
    exact ⟨rfl, plays_pure⟩
  · cases h
    exact ⟨rfl, plays_pure⟩
  · rename_i reasoning _
    simp only [bind_ok, ensure_ok, require_ok] at h
    obtain ⟨text, htext, _, hne, _, _, hevents⟩ := h
    cases hevents
    have hbind : some reasoning >>= Value.asStr = some text := htext
    rw [hbind]
    exact ⟨rfl, plays_reasoning hbind (by simpa using hne)⟩

variable (parse : Text → Option Value)

def isCall : ProviderEvent → Bool
  | .event (.toolCall ..) => true
  | _ => false

theorem call_played {call : Value} {events : List ProviderEvent}
    (h : openaiToolCall parse call = .ok events) :
    Plays (playToolCall parse call) events ∧ events.all isCall = true := by
  simp only [openaiToolCall, bind_ok, ensure_ok, require_ok] at h
  obtain ⟨_, hnamed, arguments, harguments, input, hinput, _, hobject, hevents⟩ := h
  cases hevents
  refine ⟨?_, rfl⟩
  rw [Bool.not_eq_true', Bool.or_eq_false_iff, badIdentifier, badIdentifier] at hnamed
  simp only [Bool.or_eq_false_iff] at hnamed
  obtain ⟨⟨⟨hid, -⟩, -⟩, ⟨⟨hname, -⟩, -⟩⟩ := hnamed
  rw [playToolCall]
  simp only [harguments, hinput, hobject, hid, hname]
  exact plays_emit _

theorem calls_played {calls : List Value} {events : List ProviderEvent}
    (h : eachEvents (openaiToolCall parse) calls = .ok events) :
    Plays (each (playToolCall parse) calls) events ∧ events.all isCall = true := by
  induction calls generalizing events with
  | nil =>
    rw [eachEvents, Except.ok.injEq] at h
    subst h
    exact ⟨plays_pure, rfl⟩
  | cons call calls ih =>
    simp only [eachEvents, bind_ok] at h
    obtain ⟨first, hfirst, rest, hrest, hevents⟩ := h
    cases hevents
    obtain ⟨hplays, hcalls⟩ := call_played parse hfirst
    obtain ⟨hplays', hcalls'⟩ := ih hrest
    exact ⟨plays_each hplays hplays', by rw [List.all_append, hcalls, hcalls']; rfl⟩

theorem tool_calls_played {calls : Option Value} {events : List ProviderEvent}
    (h : openaiToolCalls parse calls = .ok events) :
    Plays (playToolCalls parse calls) events ∧ events.all isCall = true := by
  unfold openaiToolCalls at h
  split at h
  · cases h
    exact ⟨plays_pure, rfl⟩
  · rename_i calls
    simp only [bind_ok, require_ok] at h
    obtain ⟨items, hitems, h⟩ := h
    have hbind : some calls >>= Value.asArray = some items := hitems
    rw [playToolCalls, hbind]
    exact calls_played parse h

def reasoningOf (choice : Value) : List Text :=
  (choice.get "message" >>= (·.get "reasoning") >>= Value.asStr).toList

theorem map_normalized_texts (texts : List Text) :
    (texts.map rawText).map normalizeReplayEvent = texts.map textDelta := by
  rw [List.map_map]
  rfl

theorem text_channels (texts : List Text) :
    reasoningText (texts.map textDelta) = [] ∧ toolCallsOf (texts.map textDelta) = [] ∧
      toolCallsOf (texts.map rawText) = [] := by
  induction texts with
  | nil => exact ⟨rfl, rfl, rfl⟩
  | cons text texts ih => exact ih

theorem reasoning_channels (texts : List Text) :
    answerText (texts.map rawReasoning) = [] ∧ toolCallsOf (texts.map rawReasoning) = [] ∧
      reasoningText (texts.map rawReasoning) = texts.flatten ∧
      answerText ((texts.map rawReasoning).map normalizeReplayEvent) = [] ∧
      reasoningText ((texts.map rawReasoning).map normalizeReplayEvent) =
        withoutCr texts.flatten := by
  induction texts with
  | nil => exact ⟨rfl, rfl, rfl, rfl, rfl⟩
  | cons text texts ih =>
    obtain ⟨hanswer, hcalls, hreasoning, hplayed, hnormal⟩ := ih
    refine ⟨hanswer, hcalls, ?_, hplayed, ?_⟩
    · rw [List.flatten_cons, ← hreasoning]
      rfl
    · rw [List.flatten_cons, without_cr_append, ← hnormal]
      rfl

theorem call_channels {events : List ProviderEvent} (h : events.all isCall = true) :
    answerText events = [] ∧ reasoningText events = [] ∧
      events.map normalizeReplayEvent = events ∧ ∀ message, .failed message ∉ events := by
  induction events with
  | nil => exact ⟨rfl, rfl, rfl, by simp⟩
  | cons event events ih =>
    rw [List.all_cons, Bool.and_eq_true] at h
    obtain ⟨hanswer, hreasoning, hmap, hunfailed⟩ := ih h.2
    rcases event with (_ | _ | _ | _) | _ | _ | _
    case event.toolCall =>
      refine ⟨hanswer, hreasoning, ?_, ?_⟩
      · rw [List.map_cons, hmap]
        rfl
      · intro message hmem
        rcases List.mem_cons.mp hmem with heq | hmem
        · cases heq
        · exact hunfailed message hmem
    all_goals cases h.1

/-- The played events carry all that the walk has shown, and its reasoning less the carriage
returns. -/
structure EchoesWhole (live played : List ProviderEvent) : Prop extends Echoes live played where
  answer : answerText (played.map normalizeReplayEvent) = answerText live
  calls : toolCallsOf played = toolCallsOf live

theorem EchoesWhole.append {live played live' played' : List ProviderEvent}
    (h : EchoesWhole live played) (h' : EchoesWhole live' played') :
    EchoesWhole (live ++ live') (played ++ played') := by
  refine ⟨h.toEchoes.append h'.toEchoes, ?_, ?_⟩
  · rw [List.map_append, answer_text_append, answer_text_append, h.answer, h'.answer]
  · rw [tool_calls_append, tool_calls_append, h.calls, h'.calls]

theorem choice_played {choice : Value} {events : List ProviderEvent} {usable : Bool}
    (hgate : validateChoice parse choice = .ok usable)
    (h : openaiChoice parse choice = .ok events) :
    ∃ played, Plays (playChoice parse true choice) played ∧ EchoesWhole events played ∧
      reasoningText events = (reasoningOf choice).flatten := by
  simp only [openaiChoice, bind_ok, ensure_ok, require_ok] at h
  obtain ⟨_, -, message, hmessage, content, hcontent, reasoning, hreasoning, _, hvalid, calls,
    hcalls, hevents⟩ := h
  cases hevents
  simp only [validateChoice, bind_ok, ensure_ok, require_ok] at hgate
  obtain ⟨_, _, _, _, _, _, _, _, message', hmessage', _, hmessageGate, -⟩ := hgate
  obtain rfl : message = message' := Option.some.inj (hmessage.symm.trans hmessage')
  simp only [validateOpenaiMessage, bind_ok] at hmessageGate
  obtain ⟨_, _, _, _, _, _, _, _, _, _, _, hcontentGate, -⟩ := hmessageGate
  have hget : choice.get "message" = some message := (Option.filter_eq_some_iff.mp hmessage).1
  obtain ⟨texts, htexts, hcontentPlays⟩ :=
    content_played hcontentGate hcontent (by simpa using hvalid)
  obtain ⟨rfl, hreasoningPlays⟩ := reasoning_played hreasoning
  obtain ⟨hcallsPlay, hall⟩ := tool_calls_played parse hcalls
  have hreasoningOf : (message.get "reasoning" >>= Value.asStr).toList = reasoningOf choice := by
    rw [reasoningOf, hget]
    rfl
  rw [hreasoningOf] at hreasoningPlays ⊢
  obtain ⟨htextReasoning, htextCalls, hrawCalls⟩ := text_channels texts
  obtain ⟨hanswer, hnoCalls, hthought, hplayedAnswer, hplayedThought⟩ :=
    reasoning_channels (reasoningOf choice)
  obtain ⟨hcallAnswer, hcallThought, hcallMap, hcallUnfailed⟩ := call_channels hall
  refine ⟨(reasoningOf choice).map rawReasoning ++ (texts.map rawText ++ calls), ?_, ⟨⟨?_, ?_, ?_⟩,
    ?_, ?_⟩, ?_⟩
  · rw [playChoice, hget]
    exact hreasoningPlays.bind (hcontentPlays.bind hcallsPlay)
  · rw [htexts, List.map_append, List.map_append, map_normalized_texts, hcallMap]
    simp only [reasoning_text_append, hplayedThought, htextReasoning, hcallThought, hthought,
      List.append_nil, List.nil_append]
  · intro message hmem
    simp only [List.mem_append, List.mem_map] at hmem
    rcases hmem with ⟨text, -, heq⟩ | ⟨text, -, heq⟩ | hmem
    · cases heq
    · cases heq
    · exact hcallUnfailed message hmem
  · rw [htexts]
    intro hlive hnone
    apply hlive
    simp only [List.append_eq_nil_iff, List.map_eq_nil_iff] at hnone ⊢
    exact ⟨hnone.2.1, hnone.1, hnone.2.2⟩
  · rw [htexts, List.map_append, List.map_append, map_normalized_texts, hcallMap]
    simp only [answer_text_append, hplayedAnswer, hanswer, hcallAnswer, List.nil_append]
  · rw [htexts]
    simp only [tool_calls_append, hnoCalls, htextCalls, hrawCalls, List.nil_append]
  · rw [htexts]
    simp only [reasoning_text_append, htextReasoning, hthought, hcallThought, List.append_nil,
      List.nil_append]

theorem choices_played {choices : List Value} {events : List ProviderEvent}
    (hgate : ∀ choice ∈ choices, ∃ usable, validateChoice parse choice = .ok usable)
    (h : eachEvents (openaiChoice parse) choices = .ok events) :
    ∃ played, Plays (each (playChoice parse true) choices) played ∧ EchoesWhole events played ∧
      reasoningText events = (choices.flatMap reasoningOf).flatten := by
  induction choices generalizing events with
  | nil =>
    rw [eachEvents, Except.ok.injEq] at h
    subst h
    exact ⟨[], plays_pure, ⟨echoes_nil, rfl, rfl⟩, rfl⟩
  | cons choice choices ih =>
    simp only [eachEvents, bind_ok] at h
    obtain ⟨first, hfirst, rest, hrest, hevents⟩ := h
    cases hevents
    obtain ⟨usable, haccepted⟩ := hgate choice List.mem_cons_self
    obtain ⟨played, hplays, hechoes, hreasoning⟩ := choice_played parse haccepted hfirst
    obtain ⟨played', hplays', hechoes', hreasoning'⟩ :=
      ih (fun other hother => hgate other (List.mem_cons_of_mem _ hother)) hrest
    refine ⟨_, plays_each hplays hplays', hechoes.append hechoes', ?_⟩
    rw [reasoning_text_append, hreasoning, hreasoning', List.flatMap_cons, List.flatten_append]

end Openai

theorem gate_shapes {parse : Text → Option Value} {value : Value} {u : Unit}
    (h : validateReplayBody parse value = .ok u) :
    recognizedShapes value ≤ 1 ∧ validateShapes parse value = .ok () := by
  simp only [validateReplayBody, validateReplayShape, validateEnvelope, bind_ok, ensure_ok,
    decide_eq_true_eq] at h
  obtain ⟨_, ⟨_, ⟨_, _, _, _, _, _, _, _, _, _, _, _, _, _, _, _, hone⟩, hshapes⟩, -⟩ := h
  exact ⟨hone, hshapes⟩

theorem one_shape {value : Value} (h : recognizedShapes value ≤ 1) :
    ((value.get "choices").isSome = true →
      value.get "content" = none ∧ value.get "output" = none) ∧
    ((value.get "content").isSome = true →
      value.get "choices" = none ∧ value.get "output" = none) := by
  rw [recognizedShapes] at h
  cases hchoices : value.get "choices" <;> cases hcontent : value.get "content" <;>
    cases houtput : value.get "output" <;> simp_all

theorem events_played {parse : Text → Option Value} {value : Value} {played : List ProviderEvent}
    (hgate : validateReplayBody parse value = .ok ()) (hplays : Plays (playBody parse value) played)
    (hclosed : closeRefusal value played = none) :
    eventsOfValue parse value = played ++ [.event .completed] := by
  rw [eventsOfValue, hgate]
  dsimp only
  rw [hplays]
  dsimp only
  rw [closeReplay, hclosed]

theorem no_output_plays (parse : Text → Option Value) {value : Value}
    (h : value.get "output" = none) : Plays (playOutput parse value) [] := by
  rw [playOutput, h]
  exact plays_pure

theorem openai_played {parse : Text → Option Value} {value : Value} {events : List ProviderEvent}
    (hgate : validateReplayBody parse value = .ok ()) (h : openaiBody parse value = .ok events) :
    ∃ played, eventsOfValue parse value = played ++ [.event .completed] ∧
      EchoesWhole events played ∧
      reasoningText events = ((choicesOf value).flatMap reasoningOf).flatten := by
  simp only [openaiBody, bind_ok, ensure_ok, require_ok, Option.filter_eq_some_iff] at h
  obtain ⟨_, -, choices, ⟨hchoices, hsome⟩, events, hwalk, _, hpresent, heq⟩ := h
  cases heq
  obtain ⟨field, hfield, harray⟩ := Option.bind_eq_some_iff.mp hchoices
  obtain ⟨hone, hshapes⟩ := gate_shapes hgate
  obtain ⟨hcontent, houtput⟩ := (one_shape hone).1 (by rw [hfield]; rfl)
  simp only [validateShapes, hfield, validateChoices, bind_ok, ensure_ok, require_ok] at hshapes
  obtain ⟨choices', harray', _, -, _, hitems, -⟩ := hshapes
  obtain rfl : choices = choices' := Option.some.inj (harray.symm.trans harray')
  obtain ⟨played, hplays, hechoes, hreasoning⟩ :=
    choices_played parse (each_usable_items hitems) hwalk
  have hof : choicesOf value = choices := by
    rw [choicesOf, hchoices]
    rfl
  refine ⟨played, events_played hgate ?_ ?_, hechoes, ?_⟩
  · have houtputPlays := no_output_plays parse houtput
    have hcontentPlays : Plays (playContent parse value) [] := by
      rw [playContent, if_pos (by rw [hfield]; rfl)]
      exact plays_pure
    have hbody := hplays.bind (houtputPlays.bind hcontentPlays)
    rw [List.append_nil, List.append_nil] at hbody
    rw [playBody, hof, show (!choices.isEmpty) = true from hsome]
    exact hbody
  · have hne : played.isEmpty = false := by
      simpa using hechoes.present (by simpa using hpresent)
    have hempty : choices.isEmpty = false := by simpa using hsome
    have hbind : some field >>= Value.asArray = some choices := harray
    rw [closeRefusal]
    rw [hfield, hcontent, hbind]
    rw [if_neg (by simp), if_neg (by simp), if_neg (by simp), if_neg (by simp [hempty]),
      if_neg (by simp), if_neg (by simp [hne])]
  · rw [hof]
    exact hreasoning

section Anthropic

/-- The text that a block of these kinds carries. -/
def textOf (kinds : Text → Bool) (block : Value) : Text :=
  if (kindOf block).any kinds then withoutCr (textOr (block.get "text")) else []

def isFunctionCall (block : Value) : Bool := kindOf block == some "function_call".toList

def leadText (blocks : List Value) : Text := blocks.head?.elim [] (textOf (· == "tool_use".toList))

/-- The walk has shown the one text, the replay serves the other, and as many more calls. -/
structure BlockEchoes (shown served : Text) (functionCalls : ℕ) (live played : List ProviderEvent) :
    Prop extends Echoes live played where
  shown : answerText live = shown
  served : answerText (played.map normalizeReplayEvent) = served
  counted : (toolCallsOf played).length = (toolCallsOf live).length + functionCalls
  calls : functionCalls = 0 → toolCallsOf played = toolCallsOf live
  plain : withoutCr (reasoningText live) = reasoningText live

theorem BlockEchoes.append {shown served shown' served' : Text} {m n : ℕ}
    {live played live' played' : List ProviderEvent} (h : BlockEchoes shown served m live played)
    (h' : BlockEchoes shown' served' n live' played') :
    BlockEchoes (shown ++ shown') (served ++ served') (m + n) (live ++ live')
      (played ++ played') := by
  refine ⟨h.toEchoes.append h'.toEchoes, ?_, ?_, ?_, ?_, ?_⟩
  · rw [answer_text_append, h.shown, h'.shown]
  · rw [List.map_append, answer_text_append, h.served, h'.served]
  · rw [tool_calls_append, tool_calls_append, List.length_append, List.length_append, h.counted,
      h'.counted]
    omega
  · intro hnone
    rw [tool_calls_append, tool_calls_append, h.calls (by omega), h'.calls (by omega)]
  · rw [reasoning_text_append, without_cr_append, h.plain, h'.plain]

variable {parse : Text → Option Value} {block : Value} {events : List ProviderEvent}

theorem text_of_kind {kinds : Text → Bool} {kind : Text} (h : kindOf block = some kind) :
    textOf kinds block = if kinds kind then withoutCr (textOr (block.get "text")) else [] := by
  rw [textOf, h]
  rfl

theorem text_or_some {value : Option Value} {text : Text} (h : value >>= Value.asStr = some text) :
    textOr value = text := by
  rw [textOr, h]
  rfl

theorem content_kind {kind : Text} (h : kindOf block = some kind) :
    playContentBlock parse block =
      if isTextKind kind then playText (block.get "text")
      else if kind = ("thinking" : Text) then playReasoning (block.get "thinking")
      else if oneOf ["tool_use", "function_call"] kind then playToolUse parse block
      else if kind = ("redacted_thinking" : Text) then
        if (block.get "data" >>= Value.asStr).isSome then pure ()
        else stop "replay redacted thinking block is incomplete"
      else pure () := by
  rw [playContentBlock, h]

theorem text_block_played (parse : Text → Option Value) (hkind : kindOf block = some "text".toList)
    (h : anthropicText block = .ok events) :
    ∃ played, Plays (playContentBlock parse block) played ∧
      BlockEchoes (withoutCr (textOr (block.get "text"))) (withoutCr (textOr (block.get "text"))) 0
        events played := by
  simp only [anthropicText, bind_ok, ensure_ok, require_ok] at h
  obtain ⟨text, htext, _, hne, _, hvalid, hevents⟩ := h
  cases hevents
  have hempty : text.isEmpty = false := by simpa using hne
  have hcarried := carried_text htext hempty
  have hclean : validReplayText text = true := by
    obtain ⟨field, hfield, hstr⟩ := Option.bind_eq_some_iff.mp htext
    rw [textFieldIsValid, hfield] at hvalid
    simpa [hstr] using hvalid
  refine ⟨[rawText text], ?_, ?_⟩
  · rw [content_kind hkind, if_pos (by decide)]
    exact plays_text htext hempty
  · rw [pushTextDelta, hcarried, text_or_some htext]
    simp only [hclean, if_true]
    refine ⟨⟨rfl, by simp [rawText], by simp⟩, ?_, ?_, rfl, fun _ => rfl, rfl⟩
    · exact List.append_nil _
    · exact List.append_nil _

theorem thinking_block_played (parse : Text → Option Value)
    (hkind : kindOf block = some "thinking".toList)
    (h : anthropicThinking block = .ok events) :
    ∃ played, Plays (playContentBlock parse block) played ∧ BlockEchoes [] [] 0 events played := by
  simp only [anthropicThinking, bind_ok, ensure_ok, require_ok] at h
  obtain ⟨thinking, hthinking, _, hne, hevents⟩ := h
  cases hevents
  rw [Bool.not_eq_true', Bool.or_eq_false_iff] at hne
  refine ⟨[rawReasoning thinking], ?_, ⟨⟨?_, by simp [rawReasoning], by simp⟩, rfl, rfl, rfl,
    fun _ => rfl, ?_⟩⟩
  · rw [content_kind hkind, if_neg (by decide), if_pos rfl]
    exact plays_reasoning hthinking hne.1
  · show withoutCr thinking ++ [] = withoutCr (withoutCr thinking ++ [])
    rw [List.append_nil, without_cr_idempotent]
  · show withoutCr (withoutCr thinking ++ []) = withoutCr thinking ++ []
    rw [List.append_nil, without_cr_idempotent]

theorem tool_use_plays {usable : Bool} (hgate : validateToolUse parse block = .ok usable) :
    Plays (playToolUse parse block)
      [.event (.toolCall (textOr (eitherField block "id" "call_id")) (textOr (block.get "name"))
        (.fromValue (toolInput parse block)))] := by
  simp only [validateToolUse, bind_ok, ensure_ok] at hgate
  obtain ⟨_, _, _, hone, _, hfields, _, hinput, -⟩ := hgate
  rw [Bool.and_eq_true, Bool.and_eq_true] at hfields
  obtain ⟨⟨hid, hname⟩, hgiven⟩ := hfields
  have hobject : (toolInput parse block).isObject = true := by
    rw [validateToolInput] at hinput
    rw [toolInput, eitherField]
    cases harguments : block.get "arguments" with
    | some arguments =>
      rw [harguments] at hinput hone
      simp only [bind_ok, require_ok, validateArguments, ensure_ok] at hinput
      obtain ⟨text, htext, input, hparsed, hobject⟩ := hinput
      have hnone : block.get "input" = none := by simpa using hone
      rw [hnone]
      simp only [Option.none_or, htext, Option.bind_eq_bind, Option.bind_some, hparsed,
        Option.getD_some]
      exact hobject
    | none =>
      rw [harguments, ensure_ok] at hinput
      obtain ⟨input, hget, hobject⟩ := (Option.any_eq_true _ _).mp hinput
      rw [hget]
      cases input with
      | object fields => rfl
      | _ => cases hobject
  obtain ⟨id, hget, hidValid⟩ := (Option.any_eq_true _ _).mp hid
  obtain ⟨name, hgetName, hnameValid⟩ := (Option.any_eq_true _ _).mp hname
  have hidText : textOr (eitherField block "id" "call_id") = id := text_or_some hget
  have hnameText : textOr (block.get "name") = name := text_or_some hgetName
  rw [playToolUse]
  simp only [hidText, hnameText, hidValid, hnameValid, hobject]
  exact plays_emit _

theorem lead_shown (h : textFieldIsValid block = true) :
    answerText (pushTextDelta block) = withoutCr (textOr (block.get "text")) ∧
      reasoningText (pushTextDelta block) = [] ∧ toolCallsOf (pushTextDelta block) = [] := by
  rw [pushTextDelta]
  cases htext : block.get "text" with
  | none => exact ⟨rfl, rfl, rfl⟩
  | some value =>
    rw [textFieldIsValid, htext] at h
    obtain ⟨text, hstr, hvalid⟩ :=
      (Option.any_eq_true _ _).mp (h : value.asStr.any validReplayText = true)
    have hbind : some value >>= Value.asStr = some text := hstr
    rw [text_or_some hbind, nonEmptyText, hbind]
    cases text with
    | nil => exact ⟨rfl, rfl, rfl⟩
    | cons c text =>
      have hkept : (some (c :: text)).filter (fun text => !text.isEmpty) = some (c :: text) := rfl
      rw [hkept]
      simp only [hvalid, if_true]
      exact ⟨List.append_nil _, rfl, rfl⟩

theorem tool_use_played {first usable : Bool} (hkind : kindOf block = some "tool_use".toList)
    (hgate : validateToolUse parse block = .ok usable)
    (h : anthropicToolUse first block = .ok events) :
    ∃ played, Plays (playContentBlock parse block) played ∧
      BlockEchoes (if first then withoutCr (textOr (block.get "text")) else []) [] 0 events
        played := by
  simp only [anthropicToolUse, bind_ok, ensure_ok, require_ok] at h
  obtain ⟨_, hvalid, _, hfields, event, hevent, hevents⟩ := h
  cases hevents
  rw [Bool.and_eq_true, Bool.and_eq_true] at hfields
  obtain ⟨⟨hinput, hid⟩, -⟩ := hfields
  obtain ⟨input, hget⟩ := Option.isSome_iff_exists.mp hinput
  obtain ⟨id, hidText⟩ := Option.isSome_iff_exists.mp hid
  obtain ⟨idField, hidGet, -⟩ := Option.bind_eq_some_iff.mp hidText
  have heither : eitherField block "id" "call_id" = block.get "id" := by
    rw [eitherField, hidGet]
    rfl
  simp only [toolCallEvent, hget, Option.getD_some] at hevent
  split at hevent
  · cases hevent
  split at hevent
  · rename_i hobject
    have htoolInput : toolInput parse block = input := by
      rw [toolInput, eitherField, hget]
      cases input with
      | object fields => rfl
      | _ => cases hobject
    have hplays := tool_use_plays hgate
    rw [heither, htoolInput] at hplays
    cases hevent
    refine ⟨[.event (.toolCall (textOr (block.get "id")) (textOr (block.get "name"))
      (.fromValue input))], ?_, ?_⟩
    · rw [content_kind hkind, if_neg (by decide), if_neg (by decide), if_pos (by decide)]
      exact hplays
    · cases first with
      | false => exact ⟨⟨rfl, by simp, by simp⟩, rfl, rfl, rfl, fun _ => rfl, rfl⟩
      | true =>
        obtain ⟨hanswer, hreasoning, hcalls⟩ := lead_shown (by simpa using hvalid)
        refine ⟨⟨?_, by simp, by simp⟩, ?_, rfl, ?_, ?_, ?_⟩
        · rw [if_pos rfl, reasoning_text_append, hreasoning]
          rfl
        · rw [if_pos rfl, answer_text_append, hanswer, if_pos rfl]
          exact List.append_nil _
        · rw [if_pos rfl, tool_calls_append, hcalls]
          rfl
        · intro _
          rw [if_pos rfl, tool_calls_append, hcalls]
          rfl
        · rw [if_pos rfl, reasoning_text_append, hreasoning]
          rfl
  · cases hevent

theorem other_block_played {kind : Text} {usable : Bool} (hkind : kindOf block = some kind)
    (hne : kind ≠ "text".toList ∧ kind ≠ "tool_use".toList ∧ kind ≠ "thinking".toList ∧
      kind ≠ "redacted_thinking".toList)
    (hgate : validateContentBlock parse block = .ok usable) :
    ∃ played, Plays (playContentBlock parse block) played ∧
      BlockEchoes [] (textOf isTextKind block) (if isFunctionCall block then 1 else 0) []
        played := by
  obtain ⟨-, htool, hthinking, hredacted⟩ := hne
  simp only [validateContentBlock, bind_ok, ensure_ok, require_ok] at hgate
  obtain ⟨_, -, kind', hkind', hgate⟩ := hgate
  obtain rfl : kind = kind' := Option.some.inj (hkind.symm.trans hkind')
  rw [isFunctionCall, hkind, text_of_kind hkind, content_kind hkind]
  by_cases htext : isTextKind kind = true
  · simp only [if_pos htext, validateTextBlock, bind_ok, require_ok] at hgate ⊢
    obtain ⟨_, -, text, hcarried, -⟩ := hgate
    obtain ⟨hstr, hfull⟩ := Option.filter_eq_some_iff.mp hcarried
    have hcall : ¬ (some kind == some "function_call".toList) = true := by
      rw [beq_iff_eq, Option.some.injEq]
      rintro rfl
      exact absurd htext (by decide)
    refine ⟨[rawText text], plays_text hstr (by simpa using hfull), ?_⟩
    rw [if_neg hcall, text_or_some hstr]
    exact ⟨⟨rfl, by simp [rawText], by simp⟩, rfl, List.append_nil _, rfl, fun _ => rfl, rfl⟩
  · rw [if_neg htext] at hgate ⊢
    by_cases hcalled : oneOf ["tool_use", "function_call"] kind = true
    · rw [if_pos hcalled] at hgate
      have hcall : kind = "function_call".toList := by
        have hmem : kind = "tool_use".toList ∨ kind = "function_call".toList := by
          simpa [oneOf] using hcalled
        exact hmem.resolve_left htool
      have hsame : (some kind == some "function_call".toList) = true := by
        rw [hcall]
        decide
      rw [if_neg hthinking, if_pos hcalled, if_pos hsame, if_neg htext]
      exact ⟨_, tool_use_plays hgate, ⟨⟨rfl, by simp, by simp⟩, rfl, rfl, rfl,
        fun h => absurd h (by decide), rfl⟩⟩
    · rw [if_neg hcalled, if_neg hthinking, if_neg hredacted] at hgate
      cases hgate

def shownText (first : Bool) (block : Value) : Text :=
  (if first then textOf (· == "tool_use".toList) block else []) ++ textOf (· == "text".toList) block

theorem block_played {first usable : Bool} (hgate : validateContentBlock parse block = .ok usable)
    (h : anthropicBlock first block = .ok events) :
    ∃ played, Plays (playContentBlock parse block) played ∧
      BlockEchoes (shownText first block) (textOf isTextKind block)
        (if isFunctionCall block then 1 else 0) events played := by
  simp only [anthropicBlock, bind_ok, require_ok] at h
  obtain ⟨kind, hkind, h⟩ := h
  have hof : kindOf block = some kind := hkind
  rw [shownText, text_of_kind hof, text_of_kind hof]
  by_cases htext : kind = "text".toList
  · subst htext
    rw [if_pos rfl] at h
    obtain ⟨played, hplays, hechoes⟩ := text_block_played parse hof h
    refine ⟨played, hplays, ?_⟩
    rw [text_of_kind hof, isFunctionCall, hof]
    cases first <;> exact hechoes
  rw [if_neg htext] at h
  by_cases htool : kind = "tool_use".toList
  · subst htool
    rw [if_pos rfl] at h
    simp only [validateContentBlock, bind_ok, ensure_ok, require_ok] at hgate
    obtain ⟨_, -, kind', hkind', hgate⟩ := hgate
    obtain rfl := Option.some.inj (hof.symm.trans hkind')
    rw [if_neg (by decide), if_pos (by decide)] at hgate
    obtain ⟨played, hplays, hechoes⟩ := tool_use_played hof hgate h
    refine ⟨played, hplays, ?_⟩
    rw [text_of_kind hof, isFunctionCall, hof]
    cases first with
    | false => exact hechoes
    | true =>
      rw [if_pos rfl, if_pos (by decide), if_neg (by decide), List.append_nil]
      exact hechoes
  rw [if_neg htool] at h
  by_cases hthinking : kind = "thinking".toList
  · subst hthinking
    rw [if_pos rfl] at h
    obtain ⟨played, hplays, hechoes⟩ := thinking_block_played parse hof h
    refine ⟨played, hplays, ?_⟩
    rw [text_of_kind hof, isFunctionCall, hof]
    cases first <;> exact hechoes
  rw [if_neg hthinking] at h
  have hnothing : (if first = true then if (kind == "tool_use".toList) = true then
      withoutCr (textOr (block.get "text")) else [] else []) ++
        (if (kind == "text".toList) = true then withoutCr (textOr (block.get "text")) else []) =
          [] := by
    have hnotTool : (kind == "tool_use".toList) = false := beq_eq_false_iff_ne.mpr htool
    have hnotText : (kind == "text".toList) = false := beq_eq_false_iff_ne.mpr htext
    rw [hnotTool, hnotText]
    cases first <;> rfl
  rw [hnothing]
  by_cases hredacted : kind = "redacted_thinking".toList
  · subst hredacted
    simp only [if_true, bind_ok, ensure_ok] at h
    obtain ⟨_, hdata, hevents⟩ := h
    cases hevents
    refine ⟨[], ?_, ?_⟩
    · rw [content_kind hof, if_neg (by decide), if_neg (by decide), if_neg (by decide), if_pos rfl,
        if_pos hdata]
      exact plays_pure
    · rw [text_of_kind hof, isFunctionCall, hof]
      exact ⟨echoes_nil, rfl, rfl, rfl, fun _ => rfl, rfl⟩
  · simp only [if_neg hredacted, anthropicOther, bind_ok] at h
    obtain ⟨_, -, hevents⟩ := h
    cases hevents
    exact other_block_played hof ⟨htext, htool, hthinking, hredacted⟩ hgate

theorem blocks_played {blocks : List Value}
    (hgate : ∀ block ∈ blocks, ∃ usable, validateContentBlock parse block = .ok usable)
    (h : eachEvents (anthropicBlock false) blocks = .ok events) :
    ∃ played, Plays (each (playContentBlock parse) blocks) played ∧
      BlockEchoes (blocks.flatMap (textOf (· == "text".toList)))
        (blocks.flatMap (textOf isTextKind))
        (blocks.countP isFunctionCall) events played := by
  induction blocks generalizing events with
  | nil =>
    rw [eachEvents, Except.ok.injEq] at h
    subst h
    exact ⟨[], plays_pure, echoes_nil, rfl, rfl, rfl, fun _ => rfl, rfl⟩
  | cons block blocks ih =>
    simp only [eachEvents, bind_ok] at h
    obtain ⟨first, hfirst, rest, hrest, hevents⟩ := h
    cases hevents
    obtain ⟨usable, haccepted⟩ := hgate block List.mem_cons_self
    obtain ⟨played, hplays, hechoes⟩ := block_played haccepted hfirst
    obtain ⟨played', hplays', hechoes'⟩ :=
      ih (fun other hother => hgate other (List.mem_cons_of_mem _ hother)) hrest
    refine ⟨_, plays_each hplays hplays', ?_⟩
    rw [List.countP_cons, Nat.add_comm]
    exact hechoes.append hechoes'

def contentOf (value : Value) : List Value := (value.get "content" >>= Value.asArray).getD []

theorem anthropic_played {value : Value} (hgate : validateReplayBody parse value = .ok ())
    (h : anthropicBody value = .ok events) :
    ∃ played, eventsOfValue parse value = played ++ [.event .completed] ∧
      BlockEchoes
        (leadText (contentOf value) ++ (contentOf value).flatMap (textOf (· == "text".toList)))
        ((contentOf value).flatMap (textOf isTextKind)) ((contentOf value).countP isFunctionCall)
        events played := by
  simp only [anthropicBody, bind_ok, ensure_ok, require_ok, Option.filter_eq_some_iff] at h
  obtain ⟨_, -, blocks, ⟨hblocks, hsome⟩, events, hwalk, _, hpresent, heq⟩ := h
  cases heq
  obtain ⟨field, hfield, harray⟩ := Option.bind_eq_some_iff.mp hblocks
  obtain ⟨hone, hshapes⟩ := gate_shapes hgate
  obtain ⟨hchoices, houtput⟩ := (one_shape hone).2 (by rw [hfield]; rfl)
  simp only [validateShapes, hchoices, hfield, validateContent, bind_ok, ensure_ok, require_ok]
    at hshapes
  obtain ⟨blocks', harray', _, -, _, hitems, -⟩ := hshapes
  obtain rfl : blocks = blocks' := Option.some.inj (harray.symm.trans harray')
  have hof : contentOf value = blocks := by
    rw [contentOf, hblocks]
    rfl
  rw [hof]
  have haccepted := each_usable_items hitems
  cases blocks with
  | nil => cases hsome
  | cons block blocks =>
    simp only [anthropicBlocks, bind_ok] at hwalk
    obtain ⟨first, hfirst, rest, hrest, hevents⟩ := hwalk
    cases hevents
    obtain ⟨usable, hblock⟩ := haccepted block List.mem_cons_self
    obtain ⟨playedFirst, hplaysFirst, hechoesFirst⟩ := block_played hblock hfirst
    obtain ⟨playedRest, hplaysRest, hechoesRest⟩ :=
      blocks_played (fun other hother => haccepted other (List.mem_cons_of_mem _ hother)) hrest
    have hechoes := hechoesFirst.append hechoesRest
    have hplays := plays_each hplaysFirst hplaysRest
    refine ⟨playedFirst ++ playedRest, events_played hgate ?_ ?_, ?_⟩
    · have houtputPlays := no_output_plays parse houtput
      have hcontentPlays : Plays (playContent parse value) (playedFirst ++ playedRest) := by
        rw [playContent, hchoices, houtput, if_neg (by decide), hblocks]
        exact hplays
      have hnone : choicesOf value = [] := by
        rw [choicesOf, hchoices]
        rfl
      rw [playBody, hnone]
      exact plays_pure.bind (houtputPlays.bind hcontentPlays)
    · have hne : (playedFirst ++ playedRest).isEmpty = false := by
        rw [List.isEmpty_eq_false_iff]
        exact hechoes.present (by simpa using hpresent)
      rw [closeRefusal, hchoices, hfield, if_neg (by simp), if_neg (by simp),
        if_neg (by simp [harray]), if_neg (by simp), if_neg (by simp [harray]),
        if_neg (by simp [hne])]
    · rw [List.countP_cons, Nat.add_comm, List.flatMap_cons, leadText, ← List.append_assoc]
      exact hechoes

end Anthropic

/-- No reasoning of the body holds a carriage return. -/
def ReasoningPlain (value : Value) : Prop :=
  ∀ reasoning ∈ (choicesOf value).flatMap reasoningOf, '\r' ∉ reasoning

/-- No block is a function call, and the text of a leading call and the text blocks together spell
what the blocks of every text kind do. -/
structure SameBlocks (value : Value) : Prop where
  calls : ∀ block ∈ contentOf value, isFunctionCall block = false
  texts : leadText (contentOf value) ++ (contentOf value).flatMap (textOf (· == "text".toList)) =
    (contentOf value).flatMap (textOf isTextKind)

section Replayed

variable {serde : SerdeJson} {credential : Text} {names : ToolNames} {text : Text} {value : Value}

theorem failed_restored {message : Text} {events : List ProviderEvent}
    (h : .failed message ∈ names.restoreEvents events) : .failed message ∈ events := by
  obtain ⟨event, hevent, heq⟩ := List.mem_map.mp h
  rcases event with (_ | _ | _ | _) | _ | _ | _ <;> cases heq
  exact hevent

theorem failed_normalized {message : Text} {events : List ProviderEvent}
    (h : .failed message ∈ events.map normalizeReplayEvent) : .failed message ∈ events := by
  obtain ⟨event, hevent, heq⟩ := List.mem_map.mp h
  rcases event with (_ | _ | _ | _) | _ | _ | _ <;> cases heq
  exact hevent

theorem call_untouched {provider : Text} {walk : Value → Check (List ProviderEvent)}
    (hparse : serde.fromStr text = some value)
    (hcompleted : .event .completed ∈ callNamed serde credential names provider walk text)
    (hquiet : Untouched serde credential names (walk value)) :
    ∃ events, walk value = .ok events ∧
      callNamed serde credential names provider walk text =
        names.restoreEvents events ++ [.event .completed] := by
  rw [callNamed, hparse] at hcompleted ⊢
  dsimp only at hcompleted ⊢
  cases hwalk : walk value with
  | error reason =>
    rw [hwalk] at hcompleted
    cases List.mem_singleton.mp hcompleted
  | ok events =>
    refine ⟨events, rfl, ?_⟩
    have hnone : (StreamingSecretRedactor.new (some credential)).finish.2 = none := by
      cases credential <;> rfl
    dsimp only
    rw [showEvents, hquiet events hwalk]
    dsimp only
    rw [hnone]
    simp

theorem replayed_events {played : List ProviderEvent} (hparse : serde.fromStr text = some value)
    (hgate : validateReplayBody serde.fromStr value = .ok ())
    (h : eventsOfValue serde.fromStr value = played ++ [.event .completed]) :
    replayedEvents serde names text =
      names.restoreEvents (played.map normalizeReplayEvent) ++ [.event .completed] := by
  have hobject : value.isObject = true := by
    simp only [validateReplayBody, validateReplayShape, validateEnvelope, bind_ok, ensure_ok]
      at hgate
    obtain ⟨_, ⟨_, ⟨_, hobject, -⟩, -⟩, -⟩ := hgate
    exact hobject
  rw [replayedEvents, completionEventsFromBody, hparse, Option.filter_some, if_pos hobject]
  dsimp only
  rw [h, List.map_append, ToolNames.restoreEvents, List.map_append]
  rfl

/-- The replay carries what was shown exactly when the channels agree. -/
theorem reproduces_iff {events played : List ProviderEvent}
    (hunfailed : ∀ message, .failed message ∉ played) :
    Reproduces (names.restoreEvents events ++ [.event .completed])
        (names.restoreEvents (played.map normalizeReplayEvent) ++ [.event .completed]) ↔
      answerText (played.map normalizeReplayEvent) = answerText events ∧
        reasoningText (played.map normalizeReplayEvent) = reasoningText events ∧
        (toolCallsOf played).map (restoreCall names) =
          (toolCallsOf events).map (restoreCall names) := by
  have hdone : answerText [.event .completed] = [] ∧ reasoningText [.event .completed] = [] ∧
      toolCallsOf [.event .completed] = [] := ⟨rfl, rfl, rfl⟩
  constructor
  · rintro ⟨-, -, hanswer, hreasoning, hcalls⟩
    rw [answer_text_append, answer_text_append, answer_restored, answer_restored,
      List.append_cancel_right_eq] at hanswer
    rw [reasoning_text_append, reasoning_text_append, reasoning_restored, reasoning_restored,
      List.append_cancel_right_eq] at hreasoning
    rw [tool_calls_append, tool_calls_append, calls_restored, calls_restored, calls_normalized,
      List.append_cancel_right_eq] at hcalls
    exact ⟨hanswer, hreasoning, hcalls⟩
  · rintro ⟨hanswer, hreasoning, hcalls⟩
    refine ⟨?_, List.getLast?_concat, ?_, ?_, ?_⟩
    · intro message hmem
      rcases List.mem_append.mp hmem with hmem | hmem
      · exact hunfailed message (failed_normalized (failed_restored hmem))
      · cases List.mem_singleton.mp hmem
    · rw [answer_text_append, answer_text_append, answer_restored, answer_restored, hanswer]
    · rw [reasoning_text_append, reasoning_text_append, reasoning_restored, reasoning_restored,
        hreasoning]
    · rw [tool_calls_append, tool_calls_append, calls_restored, calls_restored, calls_normalized,
        hcalls]

theorem openai_reproduces_iff (hparse : serde.fromStr text = some value)
    (hgate : validateReplayBody serde.fromStr value = .ok ())
    (hcompleted : .event .completed ∈ callOpenai serde credential names text)
    (hquiet : Untouched serde credential names (openaiBody serde.fromStr value)) :
    Reproduces (callOpenai serde credential names text) (replayedEvents serde names text) ↔
      ReasoningPlain value := by
  obtain ⟨events, hwalk, hshown⟩ := call_untouched hparse hcompleted hquiet
  obtain ⟨played, hevents, hechoes, hreasoning⟩ := openai_played hgate hwalk
  rw [callOpenai, hshown, replayed_events hparse hgate hevents, reproduces_iff hechoes.unfailed]
  have hplain : withoutCr (reasoningText events) = reasoningText events ↔ ReasoningPlain value := by
    rw [without_cr_eq_self, hreasoning, ReasoningPlain]
    simp only [List.mem_flatten, not_exists, not_and]
  rw [← hplain, hechoes.reasoning, hechoes.answer, hechoes.calls]
  constructor
  · rintro ⟨-, hsame, -⟩
    exact hsame
  · intro hsame
    exact ⟨rfl, hsame, rfl⟩

theorem anthropic_reproduces_iff (hparse : serde.fromStr text = some value)
    (hgate : validateReplayBody serde.fromStr value = .ok ())
    (hcompleted : .event .completed ∈ callAnthropic serde credential names text)
    (hquiet : Untouched serde credential names (anthropicBody value)) :
    Reproduces (callAnthropic serde credential names text) (replayedEvents serde names text) ↔
      SameBlocks value := by
  obtain ⟨events, hwalk, hshown⟩ := call_untouched hparse hcompleted hquiet
  obtain ⟨played, hevents, hechoes⟩ := anthropic_played hgate hwalk
  rw [callAnthropic, hshown, replayed_events hparse hgate hevents, reproduces_iff hechoes.unfailed,
    hechoes.reasoning, hechoes.plain, hechoes.shown, hechoes.served]
  constructor
  · rintro ⟨hanswer, -, hcalls⟩
    have hlength := congrArg List.length hcalls
    rw [List.length_map, List.length_map, hechoes.counted] at hlength
    refine ⟨?_, hanswer.symm⟩
    intro block hblock
    have hnone : (contentOf value).countP isFunctionCall = 0 := by omega
    simpa using List.countP_eq_zero.mp hnone block hblock
  · rintro ⟨hcalls, htexts⟩
    have hnone : (contentOf value).countP isFunctionCall = 0 := by
      rw [List.countP_eq_zero]
      intro block hblock
      rw [hcalls block hblock]
      decide
    rw [hechoes.calls hnone]
    exact ⟨htexts.symm, rfl, rfl⟩

theorem gate_accepts (hparse : serde.fromStr text = some value)
    (h : ReplayStore.validateReplayBodyText serde text = .ok ()) :
    validateReplayBody serde.fromStr value = .ok () := by
  rw [ReplayStore.validateReplayBodyText, hparse] at h
  dsimp only at h
  split at h
  · cases h
  split at h
  · cases h
  rename_i hshape
  split at h
  · cases h
  rename_i htexts
  rw [validateReplayBody, bind_ok]
  cases hvalid : validateReplayShape serde.fromStr value with
  | error reason =>
    rw [hvalid] at hshape
    exact absurd rfl hshape
  | ok u => exact ⟨u, rfl, (ensure_ok _ _ _).mpr (by simpa using htexts)⟩

/-- A recorded body replays as it was shown exactly under these conditions. -/
theorem named_replay_iff (serde : SerdeJson) (credential : Text) (names : ToolNames) (text : Text)
    (value : Value) (hparse : serde.fromStr text = some value)
    (hgate : ReplayStore.validateReplayBodyText serde text = .ok ()) :
    (.event .completed ∈ callOpenai serde credential names text →
      Untouched serde credential names (openaiBody serde.fromStr value) →
      (Reproduces (callOpenai serde credential names text) (replayedEvents serde names text) ↔
        ReasoningPlain value)) ∧
    (.event .completed ∈ callAnthropic serde credential names text →
      Untouched serde credential names (anthropicBody value) →
      (Reproduces (callAnthropic serde credential names text) (replayedEvents serde names text) ↔
        SameBlocks value)) :=
  ⟨openai_reproduces_iff hparse (gate_accepts hparse hgate),
    anthropic_reproduces_iff hparse (gate_accepts hparse hgate)⟩

end Replayed

/-- A reader and writer of one body, and of an empty object. -/
def bodySerde (text : Text) (value : Value) : SerdeJson where
  fromStr read :=
    if read = text then some value
    else if read = ['\x7b', '\x7d'] then some (.object [])
    else none
  toStr
    | .object [] => ['\x7b', '\x7d']
    | _ => text

def reasoningBody (reasoning : Text) : Text :=
  "\x7b\"choices\":[\x7b\"message\":\x7b\"content\":\"x\",\"reasoning\":\"".toList ++ reasoning ++
    "\"\x7d\x7d]\x7d".toList

def reasoningValue (reasoning : Text) : Value :=
  .object [("choices".toList, .array [.object [("message".toList, .object [
    ("content".toList, .string "x".toList), ("reasoning".toList, .string reasoning)])]])]

def leadingBody (lead : Text) : Text :=
  "\x7b\"content\":[\x7b\"id\":\"1\",\"input\":\x7b\x7d,\"name\":\"t\",\"text\":\"".toList ++
    lead ++ "\",\"type\":\"tool_use\"\x7d]\x7d".toList

def leadingValue (lead : Text) : Value :=
  .object [("content".toList, .array [.object [("id".toList, .string "1".toList),
    ("input".toList, .object []), ("name".toList, .string "t".toList),
    ("text".toList, .string lead), ("type".toList, .string "tool_use".toList)]])]

theorem body_serde_reads (text : Text) (value : Value) :
    (bodySerde text value).fromStr text = some value := if_pos rfl

theorem untouched_of {serde : SerdeJson} {credential : Text} {names : ToolNames}
    {walk : Check (List ProviderEvent)} {events : List ProviderEvent} (hwalk : walk = .ok events)
    (h : ∀ event ∈ names.restoreEvents events,
      (StreamingSecretRedactor.new (some credential)).redactEvent serde event =
        (.new (some credential), event)) :
    Untouched serde credential names walk := by
  intro shown hshown
  obtain rfl : events = shown := Except.ok.inj (hwalk.symm.trans hshown)
  generalize names.restoreEvents events = shown at h ⊢
  induction shown with
  | nil => rfl
  | cons event rest ih =>
    rw [redactEvents, h event List.mem_cons_self]
    dsimp only
    rw [ih fun other hother => h other (List.mem_cons_of_mem _ hother)]

theorem redact_delta {serde : SerdeJson} {r : StreamingSecretRedactor} {text : Text}
    (h : r.redactText text = (r, text)) :
    r.redactEvent serde (.event (.textDelta text)) = (r, .event (.textDelta text)) ∧
      r.redactEvent serde (rawReasoning text) = (r, rawReasoning text) := by
  rw [rawReasoning, StreamingSecretRedactor.redactEvent, StreamingSecretRedactor.redactEvent, h]
  exact ⟨rfl, rfl⟩

theorem reasoning_untouched (serde : SerdeJson) (credential : Text) (names : ToolNames)
    {reasoning : Text} {walk : Check (List ProviderEvent)}
    (hwalk : walk = .ok [textDelta "x".toList, rawReasoning reasoning])
    (htext : (StreamingSecretRedactor.new (some credential)).redactText "x".toList =
      (.new (some credential), "x".toList))
    (hreasoning : (StreamingSecretRedactor.new (some credential)).redactText reasoning =
      (.new (some credential), reasoning)) : Untouched serde credential names walk := by
  apply untouched_of hwalk
  intro event hevent
  rcases List.mem_cons.mp hevent with rfl | hevent
  · exact (redact_delta htext).1
  · cases List.mem_singleton.mp hevent
    exact (redact_delta hreasoning).2

theorem call_completes {serde : SerdeJson} {credential provider text : Text} {names : ToolNames}
    {value : Value} {walk : Value → Check (List ProviderEvent)} {events : List ProviderEvent}
    (hparse : serde.fromStr text = some value) (hwalk : walk value = .ok events) :
    .event .completed ∈ callNamed serde credential names provider walk text := by
  rw [callNamed, hparse]
  dsimp only
  rw [hwalk]
  exact List.mem_append_right _ (List.mem_singleton_self _)

theorem reasoning_walked (parse : Text → Option Value) {reasoning : Text}
    (hne : reasoning.isEmpty = false) (hvalid : validReplayText reasoning = true) :
    openaiBody parse (reasoningValue reasoning) =
      .ok [textDelta "x".toList, rawReasoning reasoning] := by
  have hchoice : openaiReasoning (some (.string reasoning)) = .ok [rawReasoning reasoning] := by
    simp only [openaiReasoning, bind_ok, ensure_ok, require_ok]
    exact ⟨reasoning, rfl, (), by rw [hne]; rfl, (), hvalid, rfl⟩
  have hmessage : openaiChoice parse (.object [("message".toList, .object [
      ("content".toList, .string "x".toList), ("reasoning".toList, .string reasoning)])]) =
      .ok [textDelta "x".toList, rawReasoning reasoning] := by
    show (openaiReasoning (some (.string reasoning)) >>= _) = _
    rw [hchoice]
    rfl
  show (openaiChoice parse _ >>= _) >>= _ = _
  rw [hmessage]
  rfl

theorem leading_walked :
    anthropicBody (leadingValue []) =
      .ok [.event (.toolCall "1".toList "t".toList (.fromValue (.object [])))] := rfl

theorem answer_plain : (StreamingSecretRedactor.new (some "z".toList)).redactText "x".toList =
    (.new (some "z".toList), "x".toList) := by
  decide

theorem call_redacted :
    (StreamingSecretRedactor.new (some "z".toList)).redactEvent
        (bodySerde (leadingBody []) (leadingValue []))
        (.event (.toolCall "1".toList "t".toList (.fromValue (.object [])))) =
      (.new (some "z".toList),
        .event (.toolCall "1".toList "t".toList (.fromValue (.object [])))) := by
  have hid : redactSensitive "1".toList "z".toList = "1".toList := by decide
  have hname : redactSensitive "t".toList "z".toList = "t".toList := by decide
  have hinput : redactBodyWithSecret (bodySerde (leadingBody []) (leadingValue [])) "z".toList
      ['\x7b', '\x7d'] = ['\x7b', '\x7d'] := by decide
  have hvalue : (bodySerde (leadingBody []) (leadingValue [])).fromStr ['\x7b', '\x7d'] =
      some (.object []) := rfl
  show (_, redactProviderEvent _ "z".toList _) = _
  rw [redactProviderEvent, hid, hname]
  show (_, ProviderEvent.event (.toolCall _ _ (.fromValue ((SerdeJson.fromStr _
    (redactBodyWithSecret _ _ ['\x7b', '\x7d'])).getD _)))) = _
  rw [hinput, hvalue]
  rfl

/-- The played reasoning has lost its carriage return. -/
theorem replay_differs :
    ¬ ∀ (serde : SerdeJson) (credential : Text) (names : ToolNames) (text : Text) (value : Value),
      serde.fromStr text = some value →
      ReplayStore.validateReplayBodyText serde text = .ok () →
      (.event .completed ∈ callOpenai serde credential names text →
        Untouched serde credential names (openaiBody serde.fromStr value) →
        Reproduces (callOpenai serde credential names text) (replayedEvents serde names text)) ∧
      (.event .completed ∈ callAnthropic serde credential names text →
        Untouched serde credential names (anthropicBody value) →
        Reproduces (callAnthropic serde credential names text)
          (replayedEvents serde names text)) := by
  intro h
  have hparse := body_serde_reads (reasoningBody "a\\rb".toList) (reasoningValue "a\rb".toList)
  have hgate : ReplayStore.validateReplayBodyText
      (bodySerde (reasoningBody "a\\rb".toList) (reasoningValue "a\rb".toList))
      (reasoningBody "a\\rb".toList) = .ok () := by decide
  have hwalk := reasoning_walked
    (bodySerde (reasoningBody "a\\rb".toList) (reasoningValue "a\rb".toList)).fromStr
    (show ("a\rb".toList : Text).isEmpty = false by decide) (by decide)
  have hquiet := reasoning_untouched
    (bodySerde (reasoningBody "a\\rb".toList) (reasoningValue "a\rb".toList)) "z".toList ⟨[]⟩
    hwalk answer_plain (by decide)
  have hplain := (openai_reproduces_iff hparse (gate_accepts hparse hgate)
    (call_completes hparse hwalk) hquiet).mp
      ((h _ _ _ _ _ hparse hgate).1 (call_completes hparse hwalk) hquiet)
  exact hplain "a\rb".toList List.mem_cons_self (by decide)

theorem named_replay_sample :
    Reproduces
        (callOpenai (bodySerde (reasoningBody "ab".toList) (reasoningValue "ab".toList))
          "z".toList ⟨[]⟩ (reasoningBody "ab".toList))
        (replayedEvents (bodySerde (reasoningBody "ab".toList) (reasoningValue "ab".toList)) ⟨[]⟩
          (reasoningBody "ab".toList)) ∧
      Reproduces
        (callAnthropic (bodySerde (leadingBody []) (leadingValue [])) "z".toList ⟨[]⟩
          (leadingBody []))
        (replayedEvents (bodySerde (leadingBody []) (leadingValue [])) ⟨[]⟩ (leadingBody [])) := by
  have hreads := body_serde_reads (reasoningBody "ab".toList) (reasoningValue "ab".toList)
  have hwalk := reasoning_walked
    (bodySerde (reasoningBody "ab".toList) (reasoningValue "ab".toList)).fromStr
    (show ("ab".toList : Text).isEmpty = false by decide) (by decide)
  have hleads := body_serde_reads (leadingBody []) (leadingValue [])
  constructor
  · apply ((named_replay_iff _ "z".toList ⟨[]⟩ _ _ hreads (by decide)).1
      (call_completes hreads hwalk)
      (reasoning_untouched _ _ _ hwalk answer_plain (by decide))).mpr
    intro reasoning hreasoning
    cases List.mem_singleton.mp hreasoning
    decide
  · apply ((named_replay_iff _ "z".toList ⟨[]⟩ _ _ hleads (by decide)).2
      (call_completes hleads leading_walked) ?_).mpr
    · refine ⟨?_, rfl⟩
      intro block hblock
      cases List.mem_singleton.mp hblock
      rfl
    · apply untouched_of leading_walked
      intro event hevent
      cases List.mem_singleton.mp hevent
      exact call_redacted

end Siralos.NamedProvider
