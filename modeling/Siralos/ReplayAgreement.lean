import Siralos.NamedReplay

/-!
# The gate and the playback agree

What each validator accepts, the player of the same item goes through, and where the validator
counts the item as usable the player has emitted something.
-/

set_option autoImplicit false

namespace Siralos.ReplayAgreement

open Text Json Provider Replay Emission
open NamedProvider (Plays plays_pure plays_emit plays_each gate_shapes one_shape events_played
  no_output_plays carried_text tool_use_plays gate_accepts)

def isDelta : ProviderEvent → Bool
  | .event (.textDelta _) => true
  | .event (.reasoningDelta _) => true
  | .event (.toolCall ..) => true
  | _ => false

def isFailed : ProviderEvent → Bool
  | .failed _ => true
  | _ => false

/-- The player ends, has emitted deltas only, and at least one for a usable item. -/
def Delivers (player : Player) (usable : Bool) : Prop :=
  ∃ events, Plays player events ∧ events.all isDelta = true ∧ (usable = true → events ≠ [])

section Players

variable {first second : Player} {usable later : Bool}

theorem delivers_nothing : Delivers (pure ()) false :=
  ⟨[], plays_pure, rfl, fun h => absurd h (by decide)⟩

theorem delivers_emit {event : ProviderEvent} (h : isDelta event = true) (usable : Bool) :
    Delivers (emit event) usable := by
  refine ⟨[event], plays_emit event, ?_, fun _ => List.cons_ne_nil _ _⟩
  rw [List.all_cons, h]
  rfl

theorem Delivers.bind (h : Delivers first usable) (hnext : Delivers second later) :
    Delivers (first >>= fun _ => second) (usable || later) := by
  obtain ⟨events, hplays, hdeltas, hsome⟩ := h
  obtain ⟨more, hmore, hmoreDeltas, hmoreSome⟩ := hnext
  refine ⟨events ++ more, hplays.bind hmore, ?_, ?_⟩
  · rw [List.all_append, hdeltas, hmoreDeltas]
    rfl
  · intro heither hnone
    obtain ⟨hnil, hmoreNil⟩ := List.append_eq_nil_iff.mp hnone
    rcases (Bool.or_eq_true _ _).mp heither with hone | hone
    · exact hsome hone hnil
    · exact hmoreSome hone hmoreNil

theorem delivers_each {check : Value → Check Bool} {player : Value → Player} {values : List Value}
    {usable result : Bool} (h : eachUsable check values usable = .ok result)
    (hitem : ∀ value item, check value = .ok item → Delivers (player value) item) :
    ∃ own, result = (usable || own) ∧ Delivers (each player values) own := by
  induction values generalizing usable with
  | nil =>
    cases h
    exact ⟨false, (Bool.or_false _).symm, delivers_nothing⟩
  | cons value values ih =>
    rw [eachUsable, bind_ok] at h
    obtain ⟨item, hvalue, hrest⟩ := h
    obtain ⟨own, hresult, hdelivers⟩ := ih hrest
    refine ⟨item || own, ?_, (hitem value item hvalue).bind hdelivers⟩
    rw [hresult, Bool.or_assoc]

theorem delivers_all {check : Value → Check Bool} {player : Value → Player} {values : List Value}
    {result : Bool} (h : eachUsable check values false = .ok result)
    (hitem : ∀ value item, check value = .ok item → Delivers (player value) item) :
    Delivers (each player values) result := by
  obtain ⟨own, hresult, hdelivers⟩ := delivers_each h hitem
  rw [hresult, Bool.false_or]
  exact hdelivers

theorem delivers_text {field : Option Value} {text : Text} (h : nonEmptyText field = some text)
    (usable : Bool) : Delivers (playText field) usable := by
  rw [playText, h]
  exact delivers_emit rfl usable

theorem delivers_reasoning {field : Option Value} {text : Text}
    (h : nonEmptyText field = some text) (usable : Bool) :
    Delivers (playReasoning field) usable := by
  rw [playReasoning, h]
  exact delivers_emit rfl usable

end Players

theorem unknown_absent {object : Value} {allowed : List String} {u : Unit} {field : Text}
    (h : rejectUnknownFields object allowed = .ok u)
    (hfield : (allowed.map String.toList).contains field = false) : object.get field = none := by
  rw [rejectUnknownFields, ensure_ok, List.all_eq_true] at h
  cases object with
  | object fields =>
    rw [Value.get, List.lookup_eq_none_iff]
    intro known hknown
    rw [bne_iff_ne]
    rintro rfl
    rw [h known hknown] at hfield
    cases hfield
  | _ => rfl

theorem text_kind {kind : Text} (h : isTextKind kind = true) : kind ≠ "thinking".toList := by
  rintro rfl
  revert h
  decide

section Shapes

variable {parse : Text → Option Value} {usable : Bool}

theorem message_block_delivers {block : Value} (hasChoices : Bool)
    (h : validateMessageBlock block = .ok usable) :
    Delivers (playMessageBlock hasChoices block) usable := by
  simp only [validateMessageBlock, bind_ok, ensure_ok, require_ok] at h
  obtain ⟨_, _, kind, hkind, _, htext, _, _, text, hfield, -⟩ := h
  have hkindOf : kindOf block = some kind := hkind
  have hthinking : kindOf block ≠ some "thinking".toList := by
    rw [hkindOf]
    intro heq
    exact text_kind htext (Option.some.inj heq)
  rw [playMessageBlock, if_neg hthinking, hkindOf, Option.any_some, htext, Bool.not_true,
    Bool.and_false, if_neg Bool.false_ne_true]
  exact delivers_text hfield usable

theorem message_content_delivers {content : Option Value} (hasChoices : Bool)
    (h : validateMessageContent content = .ok usable) :
    Delivers (playMessageContent hasChoices content) usable := by
  cases content with
  | none =>
    cases h
    exact delivers_nothing
  | some content =>
    cases content with
    | null =>
      cases h
      exact delivers_nothing
    | string text =>
      simp only [validateMessageContent, bind_ok, ensure_ok] at h
      obtain ⟨_, hne, -⟩ := h
      have hwhole : some (.string text) >>= Value.asStr = some text := rfl
      have htext := carried_text hwhole (by simpa using hne)
      simp only [playMessageContent, htext]
      exact delivers_emit rfl usable
    | array blocks =>
      simp only [validateMessageContent, bind_ok, ensure_ok] at h
      obtain ⟨_, -, hblocks⟩ := h
      exact delivers_all hblocks fun block item hblock =>
        message_block_delivers hasChoices hblock
    | bool b => cases h
    | number n => cases h
    | object fields => cases h

theorem reasoning_delivers {reasoning : Option Value}
    (h : validateReasoning reasoning = .ok usable) :
    Delivers (playReasoning reasoning) usable := by
  cases reasoning with
  | none =>
    cases h
    exact delivers_nothing
  | some reasoning =>
    cases reasoning with
    | null =>
      cases h
      exact delivers_nothing
    | string text =>
      simp only [validateReasoning, bind_ok, ensure_ok, require_ok] at h
      obtain ⟨_, htext, _, hne, -⟩ := h
      obtain rfl := Option.some.inj htext
      have hwhole : some (.string text) >>= Value.asStr = some text := rfl
      exact delivers_reasoning (carried_text hwhole (by simpa using hne)) usable
    | _ => cases h

theorem arguments_parsed {arguments notJson notObject : Text} {u : Unit}
    (h : validateArguments parse arguments notJson notObject = .ok u) :
    ∃ input, parse arguments = some input ∧ input.isObject = true := by
  simp only [validateArguments, bind_ok, ensure_ok, require_ok] at h
  exact h

theorem identifier_present {text : Text} {maxBytes : ℕ}
    (h : validReplayIdentifier text maxBytes = true) : text.isEmpty = false := by
  simp only [validReplayIdentifier, Bool.and_eq_true, Bool.not_eq_true'] at h
  exact h.1.1.1

theorem tool_call_delivers {call : Value} (h : validateToolCall parse call = .ok usable) :
    Delivers (playToolCall parse call) usable := by
  simp only [validateToolCall, bind_ok, ensure_ok, require_ok] at h
  obtain ⟨_, _, _, _, _, _, _, _, function, hfunction, _, _, id, hid, name, hname, arguments,
    harguments, _, hvalid, _, hparsed, -⟩ := h
  obtain ⟨input, hinput, hobject⟩ := arguments_parsed hparsed
  rw [Bool.and_eq_true, Bool.and_eq_true] at hvalid
  have hget := (Option.filter_eq_some_iff.mp hfunction).1
  have hidText : textOr (call.get "id") = id := NamedProvider.text_or_some hid
  have hnameText : textOr (function.get "name") = name := NamedProvider.text_or_some hname
  have hidSome := identifier_present hvalid.1.1
  have hnameSome := identifier_present hvalid.1.2
  simp only [playToolCall, hget, Option.bind_eq_bind, Option.bind_some] at harguments ⊢
  simp only [harguments, hinput, hidText, hnameText, hobject, hidSome, hnameSome,
    Bool.true_eq_false, if_false, Bool.or_self, Bool.false_eq_true]
  exact delivers_emit rfl usable

theorem tool_calls_deliver {calls : Option Value} {before : Bool}
    (h : validateToolCalls parse calls before = .ok usable) :
    ∃ own, usable = (before || own) ∧ Delivers (playToolCalls parse calls) own := by
  cases calls with
  | none =>
    cases h
    exact ⟨false, (Bool.or_false _).symm, delivers_nothing⟩
  | some calls =>
    simp only [validateToolCalls, bind_ok, require_ok] at h
    obtain ⟨items, hitems, hcalls⟩ := h
    have harray : some calls >>= Value.asArray = some items := hitems
    rw [playToolCalls, harray]
    exact delivers_each hcalls fun call item hcall => tool_call_delivers hcall

theorem choice_delivers {choice : Value} (hasChoices : Bool)
    (h : validateChoice parse choice = .ok usable) :
    Delivers (playChoice parse hasChoices choice) usable := by
  simp only [validateChoice, bind_ok, ensure_ok, require_ok] at h
  obtain ⟨_, _, _, _, _, _, _, _, message, hmessage, useful, hopenai, _, huseful, hitem⟩ := h
  cases hitem
  subst huseful
  simp only [validateOpenaiMessage, bind_ok] at hopenai
  obtain ⟨_, _, _, _, _, _, _, _, _, _, content, hcontent, reasoning, hreasoning, hcalls⟩ := hopenai
  have hget := (Option.filter_eq_some_iff.mp hmessage).1
  obtain ⟨own, husable, hcallsDeliver⟩ := tool_calls_deliver hcalls
  have hall := (reasoning_delivers hreasoning).bind
    ((message_content_delivers hasChoices hcontent).bind hcallsDeliver)
  have hsame : (reasoning || (content || own)) = true := by
    rw [← Bool.or_assoc, Bool.or_comm reasoning content]
    exact husable.symm
  rw [hsame] at hall
  rw [playChoice, hget]
  exact hall

theorem thinking_delivers {block : Value} {message : Text}
    (h : validateThinking block message = .ok usable) :
    Delivers (playReasoning (block.get "thinking")) usable := by
  simp only [validateThinking, bind_ok, ensure_ok] at h
  obtain ⟨_, _, _, hsome, -⟩ := h
  obtain ⟨text, htext⟩ := Option.isSome_iff_exists.mp hsome
  exact delivers_reasoning htext usable

theorem content_block_delivers {block : Value} (h : validateContentBlock parse block = .ok usable) :
    Delivers (playContentBlock parse block) usable := by
  simp only [validateContentBlock, bind_ok, ensure_ok, require_ok] at h
  obtain ⟨_, -, kind, hkind, hcheck⟩ := h
  rw [NamedProvider.content_kind hkind]
  by_cases htext : isTextKind kind = true
  · rw [if_pos htext] at hcheck ⊢
    simp only [validateTextBlock, bind_ok, require_ok] at hcheck
    obtain ⟨_, _, text, hfield, -⟩ := hcheck
    exact delivers_text hfield usable
  · rw [if_neg htext] at hcheck ⊢
    by_cases hcall : oneOf ["tool_use", "function_call"] kind = true
    · have hthinking : kind ≠ "thinking".toList := by
        rintro rfl
        revert hcall
        decide
      rw [if_pos hcall] at hcheck
      rw [if_neg hthinking, if_pos hcall]
      exact ⟨_, tool_use_plays hcheck, rfl, fun _ => List.cons_ne_nil _ _⟩
    · rw [if_neg hcall] at hcheck
      by_cases hthinking : kind = "thinking".toList
      · rw [if_pos hthinking] at hcheck ⊢
        exact thinking_delivers hcheck
      · rw [if_neg hthinking] at hcheck ⊢
        rw [if_neg hcall]
        by_cases hredacted : kind = "redacted_thinking".toList
        · rw [if_pos hredacted] at hcheck ⊢
          simp only [validateRedactedThinking, bind_ok, ensure_ok] at hcheck
          obtain ⟨_, _, _, hdata, hitem⟩ := hcheck
          cases hitem
          rw [if_pos hdata]
          exact delivers_nothing
        · rw [if_neg hredacted] at hcheck
          cases hcheck

theorem output_block_delivers {block : Value} (h : validateOutputBlock block = .ok usable) :
    Delivers (playOutputBlock block) usable := by
  simp only [validateOutputBlock, bind_ok, ensure_ok, require_ok] at h
  obtain ⟨_, -, kind, hkind, hcheck⟩ := h
  have hkindOf : kindOf block = some kind := hkind
  rw [playOutputBlock, hkindOf]
  by_cases htext : isTextKind kind = true
  · rw [if_pos htext] at hcheck
    have hthinking : some kind ≠ some "thinking".toList := fun heq =>
      text_kind htext (Option.some.inj heq)
    simp only [validateOutputTextBlock, bind_ok, ensure_ok] at hcheck
    obtain ⟨_, _, _, hsome, -⟩ := hcheck
    obtain ⟨text, hfield⟩ := Option.isSome_iff_exists.mp hsome
    rw [if_neg hthinking]
    exact delivers_text hfield usable
  · rw [if_neg htext] at hcheck
    by_cases hthinking : kind = "thinking".toList
    · rw [if_pos hthinking] at hcheck
      rw [if_pos (congrArg some hthinking)]
      exact thinking_delivers hcheck
    · rw [if_neg hthinking] at hcheck
      rw [if_neg fun heq => hthinking (Option.some.inj heq)]
      by_cases hredacted : kind = "redacted_thinking".toList
      · rw [if_pos hredacted] at hcheck
        simp only [validateRedactedThinking, bind_ok, ensure_ok] at hcheck
        obtain ⟨_, hknown, _, -, hitem⟩ := hcheck
        cases hitem
        have hnone : block.get "text" = none := unknown_absent hknown (by decide)
        rw [hnone]
        exact delivers_nothing
      · rw [if_neg hredacted] at hcheck
        cases hcheck

theorem output_message_delivers {item : Value} (h : validateOutputMessage item = .ok usable) :
    ∃ blocks, item.get "content" >>= Value.asArray = some blocks ∧
      Delivers (each playOutputBlock blocks) usable := by
  simp only [validateOutputMessage, bind_ok, ensure_ok, require_ok] at h
  obtain ⟨_, _, _, _, content, hcontent, blocks, hblocks, _, _, useful, heach, _, huseful,
    hitem⟩ := h
  cases hitem
  subst huseful
  refine ⟨blocks, ?_, delivers_all heach fun block item hblock => output_block_delivers hblock⟩
  rw [hcontent]
  exact hblocks

theorem function_call_delivers {item : Value} (h : validateFunctionCall parse item = .ok usable) :
    item.get "content" = none ∧ Delivers (playFunctionCall parse item) usable := by
  simp only [validateFunctionCall, bind_ok, ensure_ok] at h
  obtain ⟨_, hknown, _, _, _, hvalid, _, hparsed, -⟩ := h
  refine ⟨unknown_absent hknown (by decide), ?_⟩
  obtain ⟨input, hinput, hobject⟩ := arguments_parsed hparsed
  rw [Bool.and_eq_true, Bool.and_eq_true] at hvalid
  obtain ⟨⟨hid, hname⟩, hblank⟩ := hvalid
  have harguments : item.get "arguments" >>= Value.asStr =
      some (textOr (item.get "arguments")) := by
    cases hgiven : item.get "arguments" >>= Value.asStr with
    | none =>
      rw [textOr, hgiven] at hblank
      exact absurd hblank (by decide)
    | some arguments =>
      rw [NamedProvider.text_or_some hgiven]
  simp only [validReplayIdentifier, Bool.and_eq_true, Bool.not_eq_true', decide_eq_true_eq]
    at hid hname
  have hidLong : decide (maxReplayIdBytes < utf8Len (textOr (eitherField item "call_id" "id"))) =
      false := decide_eq_false (Nat.not_lt.mpr hid.1.2)
  have hnameLong : decide (maxProviderToolNameBytes < utf8Len (textOr (item.get "name"))) =
      false := decide_eq_false (Nat.not_lt.mpr hname.1.2)
  simp only [playFunctionCall, harguments, hinput, hobject, hid.1.1.1, hid.2, hname.1.1.1, hname.2,
    hidLong, hnameLong, Bool.true_eq_false, if_false, Bool.or_self, Bool.false_eq_true]
  exact delivers_emit rfl usable

theorem output_item_delivers {item : Value} (h : validateOutputItem parse item = .ok usable) :
    Delivers (playOutputItem parse item) usable := by
  simp only [validateOutputItem, bind_ok, ensure_ok, require_ok] at h
  obtain ⟨_, -, kind, hkind, _, -, hcheck⟩ := h
  have hkindOf : kindOf item = some kind := hkind
  rw [playOutputItem, hkindOf]
  by_cases hmessage : kind = "message".toList
  · rw [if_pos hmessage] at hcheck
    obtain ⟨blocks, hblocks, hdelivers⟩ := output_message_delivers hcheck
    have hcall : some kind ≠ some "function_call".toList := by
      rw [hmessage]
      decide
    rw [hblocks, if_neg hcall]
    have hall := hdelivers.bind delivers_nothing
    rw [Bool.or_false] at hall
    exact hall
  · rw [if_neg hmessage] at hcheck
    by_cases hcall : kind = "function_call".toList
    · rw [if_pos hcall] at hcheck
      obtain ⟨hnone, hdelivers⟩ := function_call_delivers hcheck
      rw [hnone, if_pos (congrArg some hcall)]
      exact delivers_nothing.bind hdelivers
    · rw [if_neg hcall] at hcheck
      rw [if_neg fun heq => hcall (Option.some.inj heq)]
      by_cases hreasoning : kind = "reasoning".toList
      · rw [if_pos hreasoning] at hcheck
        simp only [validateReasoningItem, bind_ok] at hcheck
        obtain ⟨_, hknown, _, _, _, _, hitem⟩ := hcheck
        cases hitem
        have hnone : item.get "content" = none := unknown_absent hknown (by decide)
        rw [hnone]
        exact delivers_nothing.bind delivers_nothing
      · rw [if_neg hreasoning] at hcheck
        cases hcheck

theorem nonempty_events {events : List ProviderEvent} (h : events ≠ []) :
    events.isEmpty = false :=
  List.isEmpty_eq_false_iff.mpr h

theorem no_choices {value : Value} (h : value.get "choices" = none) : choicesOf value = [] := by
  rw [choicesOf, h]
  rfl

/-- The body is played as deltas and the completion. -/
def Completes (parse : Text → Option Value) (value : Value) : Prop :=
  ∃ events, events ≠ [] ∧ events.all isDelta = true ∧
    eventsOfValue parse value = events ++ [.event .completed]

section Bodies

variable {value field : Value} (hgate : validateReplayBody parse value = .ok ())

include hgate

theorem choices_complete (hchoices : value.get "choices" = some field) :
    Completes parse value := by
  obtain ⟨hone, hshapes⟩ := gate_shapes hgate
  obtain ⟨hcontent, houtput⟩ := (one_shape hone).1 (by rw [hchoices]; rfl)
  simp only [validateShapes, hchoices, validateChoices, bind_ok, ensure_ok, require_ok] at hshapes
  obtain ⟨choices, harray, _, hsome, usable, heach, husable⟩ := hshapes
  obtain ⟨events, hplays, hdeltas, hevents⟩ := delivers_all heach fun choice item hchoice =>
    choice_delivers (!choices.isEmpty) hchoice
  have hne := hevents husable
  have hbind : some field >>= Value.asArray = some choices := harray
  have hof : choicesOf value = choices := by
    rw [choicesOf, hchoices, hbind]
    rfl
  refine ⟨events, hne, hdeltas, events_played hgate ?_ ?_⟩
  · have hcontentPlays : Plays (playContent parse value) [] := by
      rw [playContent, if_pos (by rw [hchoices]; rfl)]
      exact plays_pure
    have hbody := hplays.bind ((no_output_plays parse houtput).bind hcontentPlays)
    rw [List.append_nil, List.append_nil] at hbody
    rw [playBody, hof]
    exact hbody
  · have hempty : choices.isEmpty = false := by simpa using hsome
    rw [closeRefusal, hchoices, hcontent, hbind]
    simp only [houtput, nonempty_events hne, Option.isNone_some, Option.isSome_some,
      Option.isSome_none, Option.any_some, hempty, Bool.false_and, Bool.and_false,
      Bool.false_eq_true, if_false]

theorem content_completes (hchoices : value.get "choices" = none)
    (hcontent : value.get "content" = some field) : Completes parse value := by
  obtain ⟨hone, hshapes⟩ := gate_shapes hgate
  obtain ⟨-, houtput⟩ := (one_shape hone).2 (by rw [hcontent]; rfl)
  simp only [validateShapes, hchoices, hcontent, validateContent, bind_ok, ensure_ok,
    require_ok] at hshapes
  obtain ⟨blocks, harray, _, hsome, usable, heach, husable⟩ := hshapes
  obtain ⟨events, hplays, hdeltas, hevents⟩ := delivers_all heach fun block item hblock =>
    content_block_delivers hblock
  have hne := hevents husable
  have hbind : some field >>= Value.asArray = some blocks := harray
  refine ⟨events, hne, hdeltas, events_played hgate ?_ ?_⟩
  · have hcontentPlays : Plays (playContent parse value) events := by
      rw [playContent, if_neg (by rw [hchoices, houtput]; decide), hcontent, hbind]
      exact hplays
    rw [playBody, no_choices hchoices]
    exact plays_pure.bind ((no_output_plays parse houtput).bind hcontentPlays)
  · have hempty : blocks.isEmpty = false := by simpa using hsome
    rw [closeRefusal, hchoices, hcontent, hbind]
    simp only [houtput, nonempty_events hne, Option.isNone_some, Option.isSome_some,
      Option.isSome_none, Option.any_some, hempty, Bool.false_and, Bool.and_false,
      Bool.false_eq_true, if_false]

theorem output_completes (hchoices : value.get "choices" = none)
    (hcontent : value.get "content" = none) (houtput : value.get "output" = some field) :
    Completes parse value := by
  obtain ⟨-, hshapes⟩ := gate_shapes hgate
  simp only [validateShapes, hchoices, hcontent, houtput, validateOutput, bind_ok, ensure_ok,
    require_ok] at hshapes
  obtain ⟨items, harray, _, hsome, usable, heach, husable⟩ := hshapes
  obtain ⟨events, hplays, hdeltas, hevents⟩ := delivers_all heach fun value item hitem =>
    output_item_delivers hitem
  have hne := hevents husable
  have hbind : some field >>= Value.asArray = some items := harray
  refine ⟨events, hne, hdeltas, events_played hgate ?_ ?_⟩
  · have houtputPlays : Plays (playOutput parse value) events := by
      rw [playOutput, houtput, hbind]
      exact hplays
    have hcontentPlays : Plays (playContent parse value) [] := by
      rw [playContent, if_pos (by rw [houtput]; exact Bool.or_true _)]
      exact plays_pure
    have hbody := houtputPlays.bind hcontentPlays
    rw [List.append_nil] at hbody
    rw [playBody, no_choices hchoices]
    exact plays_pure.bind hbody
  · rw [closeRefusal, hchoices, hcontent]
    simp only [houtput, nonempty_events hne, Option.isNone_some, Option.isSome_none,
      Bool.false_and, Bool.and_false, Bool.false_eq_true, if_false]

theorem accepted_completes : Completes parse value := by
  cases hchoices : value.get "choices" with
  | some field => exact choices_complete hgate hchoices
  | none =>
    cases hcontent : value.get "content" with
    | some field => exact content_completes hgate hchoices hcontent
    | none =>
      cases houtput : value.get "output" with
      | some field => exact output_completes hgate hchoices hcontent houtput
      | none =>
        obtain ⟨-, hshapes⟩ := gate_shapes hgate
        simp only [validateShapes, hchoices, hcontent, houtput] at hshapes
        cases hshapes

end Bodies

end Shapes

theorem value_accepted {serde : SerdeJson} {body : Text} {value : Value}
    (hparse : serde.fromStr body = some value) (hobject : value.isObject = true)
    (h : validateReplayBody serde.fromStr value = .ok ()) :
    ReplayStore.validateReplayBodyText serde body = .ok () := by
  simp only [validateReplayBody, bind_ok, ensure_ok] at h
  obtain ⟨_, hshape, htexts⟩ := h
  simp only [ReplayStore.validateReplayBodyText, hparse, hobject, hshape, htexts, Except.toBool,
    Bool.not_true, Bool.false_eq_true, if_false]

theorem refused_fails {serde : SerdeJson} {body : Text}
    (h : ReplayStore.validateReplayBodyText serde body ≠ .ok ()) :
    ∃ reason, completionEventsFromBody serde.fromStr body = [.failed reason] := by
  rw [completionEventsFromBody]
  cases hparse : serde.fromStr body with
  | none => exact ⟨_, rfl⟩
  | some value =>
    by_cases hobject : value.isObject = true
    · rw [Option.filter_some, if_pos hobject]
      simp only [eventsOfValue]
      cases hgate : validateReplayBody serde.fromStr value with
      | error reason => exact ⟨reason, rfl⟩
      | ok u => exact absurd (value_accepted hparse hobject hgate) h
    · rw [Option.filter_some, if_neg hobject]
      exact ⟨_, rfl⟩

theorem accepted_events {serde : SerdeJson} {body : Text}
    (h : ReplayStore.validateReplayBodyText serde body = .ok ()) :
    ∃ events, events ≠ [] ∧ events.all isDelta = true ∧
      completionEventsFromBody serde.fromStr body = events ++ [.event .completed] := by
  cases hparse : serde.fromStr body with
  | none =>
    rw [ReplayStore.validateReplayBodyText, hparse] at h
    cases h
  | some value =>
    have hgate := gate_accepts hparse h
    have hobject : value.isObject = true := by
      rw [ReplayStore.validateReplayBodyText, hparse] at h
      by_contra hnot
      rw [Bool.not_eq_true] at hnot
      simp only [hnot, Bool.not_false, if_true] at h
      cases h
    rw [completionEventsFromBody, hparse, Option.filter_some, if_pos hobject]
    exact accepted_completes hgate

theorem delta_unfailed {event : ProviderEvent} (h : isDelta event = true) :
    isFailed event = false := by
  cases event with
  | failed message => cases h
  | _ => rfl

/-- The gate accepts a body exactly when its playback holds no failure. An accepted body is played
as deltas and one completion, a refused one as a single failure. -/
theorem gate_agrees (serde : SerdeJson) (body : Text) :
    (ReplayStore.validateReplayBodyText serde body = .ok () ↔
      ∀ event ∈ completionEventsFromBody serde.fromStr body, isFailed event = false) ∧
    (ReplayStore.validateReplayBodyText serde body = .ok () →
      ∃ events, events ≠ [] ∧ events.all isDelta = true ∧
        completionEventsFromBody serde.fromStr body = events ++ [.event .completed]) ∧
    (ReplayStore.validateReplayBodyText serde body ≠ .ok () →
      ∃ reason, completionEventsFromBody serde.fromStr body = [.failed reason]) := by
  refine ⟨⟨?_, ?_⟩, accepted_events, refused_fails⟩
  · intro h event hevent
    obtain ⟨events, -, hdeltas, hplayed⟩ := accepted_events h
    rw [hplayed] at hevent
    rcases List.mem_append.mp hevent with hdelta | hlast
    · exact delta_unfailed (List.all_eq_true.mp hdeltas event hdelta)
    · rw [List.mem_singleton.mp hlast]
      rfl
  · intro h
    by_contra hrefused
    obtain ⟨reason, hfailed⟩ := refused_fails hrefused
    have hnot := h (.failed reason) (by rw [hfailed]; exact List.mem_singleton_self _)
    cases hnot

end Siralos.ReplayAgreement
