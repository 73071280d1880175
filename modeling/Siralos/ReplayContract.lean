import Siralos.ReplayRecord

/-!
# The recording contract

When the recorded body of a completed stream plays back to what the stream delivered. The
reader of the stream and the replay gate check the same fields, but not alike.
-/

set_option autoImplicit false

namespace Siralos.Replay
open Text Json Provider Emission Sse

theorem each_usable_ok {ι : Type} {check : Value → Check Bool} {Good : ι → Prop} (f : ι → Value)
    (items : List ι) (usable result : Bool)
    (hcheck : ∀ i ∈ items, ∀ item, check (f i) = .ok item ↔ Good i ∧ item = true) :
    eachUsable check (items.map f) usable = .ok result ↔
      (∀ i ∈ items, Good i) ∧ result = (usable || !items.isEmpty) := by
  induction items generalizing usable with
  | nil => simp [eachUsable, eq_comm]
  | cons i items ih =>
    have hfirst := hcheck i (by simp)
    have hrest := fun u => ih u fun j hj => hcheck j (by simp [hj])
    simp only [List.map_cons, eachUsable, bind_ok, hfirst, hrest]
    constructor
    · rintro ⟨item, ⟨hgood, rfl⟩, hgoods, rfl⟩
      exact ⟨List.forall_mem_cons.mpr ⟨hgood, hgoods⟩, by simp⟩
    · rintro ⟨hgood, rfl⟩
      exact ⟨true, ⟨hgood i (by simp), rfl⟩, fun j hj => hgood j (by simp [hj]), by simp⟩

/-- The slots `assembled_body` records. -/
def recordedSlots (calls : List PartialCall) : List PartialCall :=
  calls.filter fun call => !call.name.isEmpty && !call.id.isEmpty

/-- The gate also refuses an id or a name of white space, which the stream lets pass. -/
def CallSafe (call : PartialCall) : Prop := trim call.id ≠ [] ∧ trim call.name ≠ []

instance (call : PartialCall) : Decidable (CallSafe call) :=
  inferInstanceAs (Decidable (_ ∧ _))

/-- What the gate asks of a committed stream beyond what its reader has checked. -/
structure ReplaySafe (a : Assembly) : Prop where
  finishReason : ∀ reason, a.finishReason = some reason → validOpenaiFinishReason reason = true
  calls : ∀ call ∈ recordedSlots a.calls, CallSafe call
  usage : ∀ usage, a.usage = some usage → replayTextFieldsValid usage = true

def RefusesBlank (parse : Text → Option Value) : Prop :=
  ∀ text, blank text = true → parse text = none

section Calls

variable {parse : Text → Option Value}

theorem committed_call (call : PartialCall) (event : ProviderEvent)
    (h : commitCall parse call = .ok (some event)) :
    call.name.isEmpty = false ∧ call.id.isEmpty = false ∧ utf8Len call.id ≤ maxReplayIdBytes ∧
      utf8Len call.name ≤ Sse.maxProviderToolNameBytes ∧ call.id.any isControl = false ∧
      call.name.any isControl = false := by
  unfold commitCall at h
  split at h
  · split at h <;> cases h
  split at h
  · cases h
  split at h
  · cases h
  · rename_i hname hid hbounds
    simp only [Bool.or_eq_true, decide_eq_true_eq, not_or, not_lt] at hbounds
    exact ⟨by simpa using hname, by simpa using hid, hbounds.1.1.1, hbounds.1.1.2,
      by simpa using hbounds.1.2, by simpa using hbounds.2⟩

theorem skipped_call (call : PartialCall) (h : commitCall parse call = .ok none) :
    call.name.isEmpty = true ∧ call.id.isEmpty = true ∧ call.arguments.isEmpty = true := by
  unfold commitCall at h
  split at h
  · rename_i hname
    split at h
    · rename_i hrest
      simp only [Bool.and_eq_true] at hrest
      exact ⟨hname, hrest⟩
    · cases h
  split at h
  · cases h
  split at h
  · cases h
  split at h
  · cases h
  · split at h <;> cases h

theorem call_fields (call : PartialCall) :
    (callValue call).get "id" = some (.string call.id) ∧
      (callValue call).get "type" = some (.string "function") ∧
      (callValue call).get "function" = some (.object [
        ("arguments".toList, .string call.arguments), ("name".toList, .string call.name)]) ∧
      rejectUnknownFields (callValue call) ["id", "type", "function", "index"] = .ok () := by
  simp [callValue, Value.get, List.lookup_cons, key_beq, rejectUnknownFields, Value.asObject,
    ensure, -String.reduceToList]

theorem function_fields (arguments name : Text) (function : Value)
    (h : function = .object [("arguments".toList, .string arguments),
      ("name".toList, .string name)]) :
    function.isObject = true ∧ function.get "name" = some (.string name) ∧
      function.get "arguments" = some (.string arguments) ∧
      rejectUnknownFields function ["name", "arguments"] = .ok () := by
  subst h
  simp [Value.isObject, Value.get, List.lookup_cons, key_beq, rejectUnknownFields, Value.asObject,
    ensure, -String.reduceToList]

theorem identifier_valid (text : Text) (maxBytes : ℕ) (hne : text.isEmpty = false)
    (hbytes : utf8Len text ≤ maxBytes) (hcontrol : text.any isControl = false) :
    validReplayIdentifier text maxBytes = true ↔ trim text ≠ [] := by
  simp [validReplayIdentifier, hne, hbytes, hcontrol]

theorem call_accepted (hblank : RefusesBlank parse) (call : PartialCall) (event : ProviderEvent)
    (h : commitCall parse call = .ok (some event)) (item : Bool) :
    validateToolCall parse (callValue call) = .ok item ↔ CallSafe call ∧ item = true := by
  obtain ⟨hname, hid, hidBytes, hnameBytes, hidControl, hnameControl⟩ := committed_call call event h
  obtain ⟨input, hinput, hobject, -⟩ := commit_call_event parse call event h
  have harguments : trim call.arguments ≠ [] := by
    intro he
    rw [hblank _ ((trim_eq_nil _).mp he)] at hinput
    cases hinput
  have hnameBytes' : utf8Len call.name ≤ maxProviderToolNameBytes := hnameBytes
  have hid' := identifier_valid call.id maxReplayIdBytes hid hidBytes hidControl
  have hname' := identifier_valid call.name maxProviderToolNameBytes hname hnameBytes' hnameControl
  have hvalue : (callValue call).isObject = true := rfl
  obtain ⟨hcallId, hkind, hfunction, hknown⟩ := call_fields call
  obtain ⟨hcallee, hcallName, htext, hknown'⟩ :=
    function_fields call.arguments call.name _ rfl
  simp only [validateToolCall, validateArguments, bind_ok, ensure_ok, require_ok, hvalue, hcallId,
    hkind, hfunction, hknown, Option.filter_some, hcallee, if_true]
  simp only [Value.asStr, Option.bind_eq_bind, Option.bind_some, Option.some.injEq,
    exists_eq_left', hcallName, htext, hknown', true_and, exists_const, hinput, hobject]
  simp only [Bool.and_eq_true, hid', hname', decide_eq_true_eq, hnameBytes', hnameControl,
    beq_self_eq_true, true_and, CallSafe, pure, Except.pure, Except.ok.injEq]
  have hwritten : (!(trim call.arguments).isEmpty) = true := by simpa using harguments
  simp only [hwritten, Bool.not_false, and_true, true_and, eq_comm]

theorem accepted_slot (calls : List PartialCall) (h : refusal parse calls = none)
    (call : PartialCall) (hcall : call ∈ calls) : ∃ result, commitCall parse call = .ok result := by
  induction calls with
  | nil => simp at hcall
  | cons head calls ih =>
    rw [refusal] at h
    split at h
    · cases h
    · rename_i result hhead
      rcases List.mem_cons.mp hcall with rfl | hmem
      · exact ⟨result, hhead⟩
      · exact ih h hmem

theorem recorded_slot_ready (calls : List PartialCall) (h : refusal parse calls = none)
    (call : PartialCall) (hcall : call ∈ recordedSlots calls) :
    ∃ event, commitCall parse call = .ok (some event) := by
  obtain ⟨hmem, hnamed⟩ := List.mem_filter.mp hcall
  obtain ⟨_ | event, hcommit⟩ := accepted_slot calls h call hmem
  · have hskipped := skipped_call call hcommit
    simp [hskipped.1] at hnamed
  · exact ⟨event, hcommit⟩

theorem filled_slot_recorded (calls : List PartialCall) (h : refusal parse calls = none)
    (call : PartialCall) (hcall : call ∈ calls)
    (hfilled : (!call.name.isEmpty || !call.id.isEmpty || !call.arguments.isEmpty) = true) :
    call ∈ recordedSlots calls := by
  obtain ⟨_ | event, hcommit⟩ := accepted_slot calls h call hcall
  · obtain ⟨hname, hid, harguments⟩ := skipped_call call hcommit
    simp [hname, hid, harguments] at hfilled
  · obtain ⟨hname, hid, -⟩ := committed_call call event hcommit
    exact List.mem_filter.mpr ⟨hcall, by simp [hname, hid]⟩

theorem calls_accepted (hblank : RefusesBlank parse) (a : Assembly)
    (h : refusal parse a.calls = none) (usable result : Bool) :
    validateToolCalls parse
        (if (recordedCalls a).isEmpty then none else some (.array (recordedCalls a)))
        usable = .ok result ↔
      (∀ call ∈ recordedSlots a.calls, CallSafe call) ∧
        result = (usable || !(recordedSlots a.calls).isEmpty) := by
  have hrecorded : recordedCalls a = (recordedSlots a.calls).map callValue := rfl
  have hslots := recorded_slot_ready a.calls h
  by_cases hempty : recordedSlots a.calls = []
  · simp [hrecorded, hempty, validateToolCalls, eq_comm]
  · have heach := each_usable_ok callValue (recordedSlots a.calls) usable result
      (fun call hcall item => by
        obtain ⟨event, hevent⟩ := hslots call hcall
        exact call_accepted hblank call event hevent item)
    have hsome : (recordedCalls a).isEmpty = false := by simpa [hrecorded] using hempty
    rw [hsome, if_neg (by simp), ← heach]
    simp [validateToolCalls, Value.asArray, bind_ok, require_ok, hrecorded]

end Calls

section Message

variable {parse : Text → Option Value}

theorem message_fields (a : Assembly) :
    (recordedMessage a).isObject = true ∧
      (recordedMessage a).get "role" = some (.string "assistant") ∧
      (recordedMessage a).get "content" =
        (if a.content.isEmpty then none else some (.string a.content)) ∧
      (recordedMessage a).get "reasoning" =
        (if a.reasoning.isEmpty then none else some (.string a.reasoning)) ∧
      (recordedMessage a).get "tool_calls" =
        (if (recordedCalls a).isEmpty then none else some (.array (recordedCalls a))) := by
  refine ⟨rfl, ?_⟩
  cases hc : a.content <;> cases hr : a.reasoning <;> cases hcalls : recordedCalls a <;>
    simp [recordedMessage, hc, hr, hcalls, Value.get, List.lookup_cons, key_beq,
      -String.reduceToList]

theorem message_known (a : Assembly) :
    rejectUnknownFields (recordedMessage a) ["role", "content", "reasoning", "tool_calls", "name",
        "annotations", "refusal", "audio", "function_call"] = .ok () ∧
      (recordedMessage a).get "refusal" = none ∧ (recordedMessage a).get "function_call" = none ∧
      (recordedMessage a).get "audio" = none := by
  cases hc : a.content <;> cases hr : a.reasoning <;> cases hcalls : recordedCalls a <;>
    simp [recordedMessage, hc, hr, hcalls, Value.get, Value.asObject, rejectUnknownFields, ensure,
      List.lookup_cons, key_beq, -String.reduceToList]

theorem content_accepted (text : Text) (result : Bool) :
    validateMessageContent (if text.isEmpty then none else some (.string text)) = .ok result ↔
      result = !text.isEmpty := by
  cases text with
  | nil => simp [validateMessageContent, eq_comm]
  | cons c text =>
    simp only [validateMessageContent, List.isEmpty_cons, Bool.false_eq_true, if_false, bind_ok,
      ensure_ok, pure, Except.pure, Except.ok.injEq, Bool.not_false, true_and, exists_const]
    exact eq_comm

theorem reasoning_accepted (text : Text) (result : Bool) :
    validateReasoning (if text.isEmpty then none else some (.string text)) = .ok result ↔
      result = !text.isEmpty := by
  cases text with
  | nil => simp [validateReasoning, eq_comm]
  | cons c text =>
    simp only [validateReasoning, Value.asStr, List.isEmpty_cons, Bool.false_eq_true, if_false,
      bind_ok, require_ok, Option.some.injEq, exists_eq_left', ensure_ok, pure, Except.pure,
      Except.ok.injEq, Bool.not_false, true_and, exists_const]
    exact eq_comm

theorem message_accepted (hblank : RefusesBlank parse) (a : Assembly)
    (h : refusal parse a.calls = none) (result : Bool) :
    validateOpenaiMessage parse (recordedMessage a) = .ok result ↔
      (∀ call ∈ recordedSlots a.calls, CallSafe call) ∧
        result = (!a.content.isEmpty || !a.reasoning.isEmpty ||
          !(recordedSlots a.calls).isEmpty) := by
  obtain ⟨-, hrole, hcontent, hreasoning, hcalls⟩ := message_fields a
  obtain ⟨hknown, hrefusal, hcall, haudio⟩ := message_known a
  have hassistant : isText "assistant" (.string "assistant") = true := by
    simp [isText, Value.asStr]
  simp only [validateOpenaiMessage, hknown, hrole, hrefusal, hcall, haudio, optional, unlessNull,
    Value.isNull, Bool.false_eq_true, if_false, ensure_ok, hassistant, hcontent, hreasoning, hcalls,
    bind_ok, content_accepted, reasoning_accepted, calls_accepted hblank a h, true_and,
    exists_const, exists_eq_left]

end Message

section Body

variable {parse : Text → Option Value}

theorem committed_shown (a : Assembly) (h : List ProviderEvent) (hcommitted : Committed parse a h) :
    (!a.content.isEmpty || !a.reasoning.isEmpty || !(recordedSlots a.calls).isEmpty) = true := by
  have husable := hcommitted.usable
  rw [usable, Bool.or_eq_true] at husable
  rcases husable with htext | hcalls
  · simp [htext]
  · obtain ⟨call, hcall, hfilled⟩ := List.any_eq_true.mp hcalls
    have hslot := filled_slot_recorded a.calls hcommitted.accepted call hcall hfilled
    have hne : recordedSlots a.calls ≠ [] := List.ne_nil_of_mem hslot
    simp [hne]

def recordedChoice (a : Assembly) : Value :=
  .object [
    ("finish_reason".toList, match a.finishReason with
      | some reason => .string reason
      | none => .null),
    ("index".toList, .number (.posInt 0)),
    ("message".toList, recordedMessage a)]

theorem choice_fields (a : Assembly) :
    (recordedChoice a).isObject = true ∧
      rejectUnknownFields (recordedChoice a) ["index", "message", "finish_reason", "logprobs"] =
        .ok () ∧
      (recordedChoice a).get "error" = none ∧
      (recordedChoice a).get "message" = some (recordedMessage a) ∧
      (recordedChoice a).get "finish_reason" = some (match a.finishReason with
        | some reason => .string reason
        | none => .null) := by
  refine ⟨rfl, ?_⟩
  simp [recordedChoice, Value.get, Value.asObject, rejectUnknownFields, ensure, List.lookup_cons,
    key_beq, -String.reduceToList]

theorem finish_accepted (reason : Option Text) (u : Unit) :
    unlessNull validateFinishReason (match reason with
        | some reason => .string reason
        | none => .null) = .ok u ↔
      ∀ text, reason = some text → validOpenaiFinishReason text = true := by
  cases reason <;>
    simp [unlessNull, Value.isNull, validateFinishReason, Value.asStr, bind_ok, require_ok,
      ensure_ok]

theorem choice_accepted (hblank : RefusesBlank parse) (a : Assembly)
    (h : refusal parse a.calls = none) (hshown : (!a.content.isEmpty || !a.reasoning.isEmpty ||
      !(recordedSlots a.calls).isEmpty) = true) (result : Bool) :
    validateChoice parse (recordedChoice a) = .ok result ↔
      ((∀ reason, a.finishReason = some reason → validOpenaiFinishReason reason = true) ∧
        ∀ call ∈ recordedSlots a.calls, CallSafe call) ∧ result = true := by
  obtain ⟨hobject, hknown, herror, hmessage, hfinish⟩ := choice_fields a
  have hmessageObject := (message_fields a).1
  simp only [validateChoice, hobject, hknown, herror, hmessage, hfinish, optional, bind_ok,
    ensure_ok, require_ok, finish_accepted, Option.isNone_none, Option.filter_some, hmessageObject,
    if_true, Option.some.injEq, exists_eq_left', message_accepted hblank a h, hshown, true_and,
    exists_const, pure, Except.pure, Except.ok.injEq]
  constructor
  · rintro ⟨hreason, -, ⟨hcalls, -⟩, -, hresult⟩
    exact ⟨⟨hreason, hcalls⟩, hresult.symm⟩
  · rintro ⟨⟨hreason, hcalls⟩, hresult⟩
    exact ⟨hreason, true, ⟨hcalls, rfl⟩, rfl, hresult.symm⟩

theorem body_fields (a : Assembly) :
    (assembledBody a).isObject = true ∧
      rejectUnknownFields (assembledBody a) envelopeFields = .ok () ∧
      (assembledBody a).get "choices" = some (.array [recordedChoice a]) := by
  refine ⟨rfl, ?_⟩
  cases hu : a.usage <;> cases hf : a.finishReason <;>
    simp [assembledBody, hu, hf, recordedChoice, envelopeFields, Value.get, Value.asObject,
      rejectUnknownFields, ensure, -String.reduceToList]

theorem body_absent (a : Assembly) (field : String)
    (h : field ∈ ["type", "role", "stop_sequence", "error", "status", "stop_reason", "content",
      "output"]) : (assembledBody a).get field = none := by
  simp only [List.mem_cons, List.not_mem_nil, or_false] at h
  cases hu : a.usage <;> rcases h with rfl | rfl | rfl | rfl | rfl | rfl | rfl | rfl <;>
    simp [assembledBody, hu, Value.get, List.lookup_cons, key_beq, -String.reduceToList]

theorem shape_accepted (hblank : RefusesBlank parse) (a : Assembly)
    (h : refusal parse a.calls = none) (hshown : (!a.content.isEmpty || !a.reasoning.isEmpty ||
      !(recordedSlots a.calls).isEmpty) = true) :
    validateReplayShape parse (assembledBody a) = .ok () ↔
      (∀ reason, a.finishReason = some reason → validOpenaiFinishReason reason = true) ∧
        ∀ call ∈ recordedSlots a.calls, CallSafe call := by
  obtain ⟨hobject, hknown, hchoices⟩ := body_fields a
  have hshapes : recognizedShapes (assembledBody a) = 1 := by
    simp [recognizedShapes, hchoices, body_absent a "content" (by simp),
      body_absent a "output" (by simp), -String.reduceToList]
  simp only [validateReplayShape, validateEnvelope, validateShapes, validateChoices, bind_ok,
    ensure_ok, require_ok, hobject, hknown, hchoices, hshapes, optional, Option.isNone_none,
    body_absent a "type" (by simp), body_absent a "role" (by simp),
    body_absent a "stop_sequence" (by simp), body_absent a "error" (by simp),
    body_absent a "status" (by simp), body_absent a "stop_reason" (by simp), Value.asArray,
    Option.some.injEq, exists_eq_left', true_and, exists_const]
  simp only [le_refl, decide_true, List.isEmpty_cons, Bool.not_false, true_and, eachUsable,
    bind_ok, choice_accepted hblank a h hshown]
  constructor
  · rintro ⟨-, ⟨-, ⟨hsafe, -⟩, -⟩, -⟩
    exact hsafe
  · intro hsafe
    exact ⟨true, ⟨true, ⟨hsafe, rfl⟩, rfl⟩, rfl⟩

theorem append_fields_valid (fs gs : List (Text × Value)) :
    replayFieldsValid (fs ++ gs) = (replayFieldsValid fs && replayFieldsValid gs) := by
  induction fs with
  | nil => simp [replayFieldsValid]
  | cons field fs ih =>
    rcases field with ⟨key, value⟩
    simp only [List.cons_append, replayFieldsValid, ih, Bool.and_assoc]

theorem message_text_accepted (a : Assembly) (hcontent : validStreamText a.content = true)
    (hreasoning : validStreamText a.reasoning = true) :
    replayTextFieldsValid (recordedMessage a) = true := by
  have hcontent' : validReplayText a.content = true := hcontent
  have hreasoning' : validReplayText a.reasoning = true := hreasoning
  simp only [recordedMessage, replayTextFieldsValid, append_fields_valid, Bool.and_eq_true]
  refine ⟨⟨⟨?_, ?_⟩, ?_⟩, ?_⟩
  · split
    · rfl
    · simp [replayFieldsValid, oneOf, Value.asStr, hcontent']
  · split
    · rfl
    · simp [replayFieldsValid, oneOf, Value.asStr, hreasoning']
  · simp [replayFieldsValid, replayTextFieldsValid, oneOf]
  · split
    · rfl
    · simp [replayFieldsValid, oneOf]

theorem text_accepted (a : Assembly) (hcontent : validStreamText a.content = true)
    (hreasoning : validStreamText a.reasoning = true) :
    replayTextFieldsValid (assembledBody a) = true ↔
      ∀ usage, a.usage = some usage → replayTextFieldsValid usage = true := by
  have hmessage := message_text_accepted a hcontent hreasoning
  cases hu : a.usage <;> cases hf : a.finishReason <;>
    simp [assembledBody, hu, hf, replayTextFieldsValid, replayFieldsValid, replayValuesValid,
      oneOf, hmessage]

/-- The gate accepts the body of a committed stream exactly when it is safe. -/
theorem body_accepted (hblank : RefusesBlank parse) (a : Assembly) (h : List ProviderEvent)
    (hmirrors : Mirrors a h) (hcommitted : Committed parse a h) :
    validateReplayBody parse (assembledBody a) = .ok () ↔ ReplaySafe a := by
  have hshown := committed_shown a h hcommitted
  simp only [validateReplayBody, bind_ok, ensure_ok, exists_const,
    shape_accepted hblank a hcommitted.accepted hshown,
    text_accepted a hmirrors.contentValid hmirrors.reasoningValid]
  constructor
  · rintro ⟨⟨hreason, hcalls⟩, husage⟩
    exact ⟨hreason, hcalls, husage⟩
  · rintro ⟨hreason, hcalls, husage⟩
    exact ⟨⟨hreason, hcalls⟩, husage⟩

end Body

section Playback

variable {parse : Text → Option Value}

theorem emit_run (event : ProviderEvent) :
    (emit event : Player).run () = (some (), (), [event]) := rfl

theorem call_played (call : PartialCall) (event : ProviderEvent)
    (h : commitCall parse call = .ok (some event)) :
    playToolCall parse (callValue call) = emit event := by
  obtain ⟨hname, hid, -⟩ := committed_call call event h
  obtain ⟨input, hinput, hobject, rfl⟩ := commit_call_event parse call event h
  obtain ⟨hcallId, -, hfunction, -⟩ := call_fields call
  obtain ⟨-, hcallName, htext, -⟩ := function_fields call.arguments call.name _ rfl
  simp only [playToolCall, hfunction, Option.bind_eq_bind, Option.bind_some, htext, Value.asStr,
    hinput, hobject, Bool.true_eq_false, if_false, textOr, hcallId, hcallName, Option.getD_some,
    hid, hname, Bool.or_self, Bool.false_eq_true]

theorem slot_cases (call : PartialCall) (calls : List PartialCall)
    (h : refusal parse (call :: calls) = none) :
    refusal parse calls = none ∧
      ((readyEvents parse (call :: calls) = readyEvents parse calls ∧
          recordedSlots (call :: calls) = recordedSlots calls) ∨
        ∃ event, commitCall parse call = .ok (some event) ∧
          readyEvents parse (call :: calls) = event :: readyEvents parse calls ∧
          recordedSlots (call :: calls) = call :: recordedSlots calls) := by
  rw [refusal] at h
  rcases hcommit : commitCall parse call with message | _ | event
  · simp [hcommit] at h
  · rw [hcommit] at h
    obtain ⟨hname, -, -⟩ := skipped_call call hcommit
    refine ⟨h, .inl ⟨by rw [readyEvents, hcommit], ?_⟩⟩
    rw [recordedSlots, List.filter_cons_of_neg (by simp [hname])]
    rfl
  · rw [hcommit] at h
    obtain ⟨hname, hid, -⟩ := committed_call call event hcommit
    refine ⟨h, .inr ⟨event, rfl, by rw [readyEvents, hcommit], ?_⟩⟩
    rw [recordedSlots, List.filter_cons_of_pos (by simp [hname, hid])]
    rfl

theorem calls_played (calls : List PartialCall) (h : refusal parse calls = none) :
    (each (playToolCall parse) ((recordedSlots calls).map callValue)).run () =
      (some (), (), readyEvents parse calls) := by
  induction calls with
  | nil => rfl
  | cons call calls ih =>
    obtain ⟨hrest, ⟨hready, hslots⟩ | ⟨event, hcommit, hready, hslots⟩⟩ := slot_cases call calls h
    · rw [hready, hslots]
      exact ih hrest
    · rw [hready, hslots, List.map_cons, each, call_played call event hcommit,
        bind_of_value (emit_run event), ih hrest]
      rfl

theorem ready_length (calls : List PartialCall) (h : refusal parse calls = none) :
    (readyEvents parse calls).length = (recordedSlots calls).length := by
  induction calls with
  | nil => rfl
  | cons call calls ih =>
    obtain ⟨hrest, ⟨hready, hslots⟩ | ⟨event, -, hready, hslots⟩⟩ := slot_cases call calls h
    · rw [hready, hslots, ih hrest]
    · rw [hready, hslots, List.length_cons, List.length_cons, ih hrest]

/-- What the recorded body of a committed stream plays. -/
def playedEvents (parse : Text → Option Value) (a : Assembly) : List ProviderEvent :=
  (if a.reasoning.isEmpty then [] else [.event (.reasoningDelta a.reasoning)] :
      List ProviderEvent) ++
    ((if a.content.isEmpty then [] else [.event (.textDelta a.content)] : List ProviderEvent) ++
      readyEvents parse a.calls)

theorem reasoning_played (text : Text) :
    (playReasoning (if text.isEmpty then none else some (.string text))).run () =
      (some (), (), if text.isEmpty then [] else [.event (.reasoningDelta text)]) := by
  cases text <;> rfl

theorem content_played (text : Text) :
    (playMessageContent true (if text.isEmpty then none else some (.string text))).run () =
      (some (), (), if text.isEmpty then [] else [.event (.textDelta text)]) := by
  cases text <;> rfl

theorem tool_calls_played (a : Assembly) (h : refusal parse a.calls = none) :
    (playToolCalls parse
        (if (recordedCalls a).isEmpty then none else some (.array (recordedCalls a)))).run () =
      (some (), (), readyEvents parse a.calls) := by
  have hplayed := calls_played a.calls h
  have hrecorded : recordedCalls a = (recordedSlots a.calls).map callValue := rfl
  rw [hrecorded]
  cases hslots : recordedSlots a.calls with
  | nil =>
    rw [hslots] at hplayed
    exact hplayed
  | cons call calls =>
    rw [hslots] at hplayed
    exact hplayed

theorem body_played (a : Assembly) (h : refusal parse a.calls = none) :
    (playBody parse (assembledBody a)).run () = (some (), (), playedEvents parse a) := by
  obtain ⟨-, -, hcontent, hreasoning, hcalls⟩ := message_fields a
  obtain ⟨-, -, -, hmessage, -⟩ := choice_fields a
  obtain ⟨-, -, hchoices⟩ := body_fields a
  have hchoice : (playChoice parse true (recordedChoice a)).run () =
      (some (), (), playedEvents parse a) := by
    rw [playChoice, hmessage, Option.getD_some, hcontent, hreasoning, hcalls,
      bind_of_value (reasoning_played a.reasoning), bind_of_value (content_played a.content),
      tool_calls_played a h]
    rfl
  have hfields : choicesOf (assembledBody a) = [recordedChoice a] := by
    rw [choicesOf, hchoices]
    rfl
  have hround : (each (playChoice parse true) [recordedChoice a]).run () =
      (some (), (), playedEvents parse a) := by
    rw [each, bind_of_value hchoice]
    exact congrArg (fun events => (some (), (), events)) (List.append_nil _)
  have houtput : playOutput parse (assembledBody a) = pure () := by
    rw [playOutput, body_absent a "output" (by simp)]
    rfl
  have hblocks : playContent parse (assembledBody a) = pure () := by
    rw [playContent, hchoices]
    rfl
  rw [playBody, hfields, houtput, hblocks]
  simp only [List.isEmpty_cons, Bool.not_false]
  rw [bind_of_value hround]
  exact congrArg (fun events => (some (), (), events)) (List.append_nil _)

theorem played_nonempty (a : Assembly) (h : List ProviderEvent)
    (hcommitted : Committed parse a h) : (playedEvents parse a).isEmpty = false := by
  have hshown := committed_shown a h hcommitted
  have hlength := ready_length a.calls hcommitted.accepted
  cases hc : a.content <;> cases hr : a.reasoning <;>
    simp_all [playedEvents, ← List.length_eq_zero_iff]

theorem body_closed (a : Assembly) (h : List ProviderEvent) (hcommitted : Committed parse a h) :
    closeReplay (assembledBody a) (playedEvents parse a) =
      playedEvents parse a ++ [.event .completed] := by
  obtain ⟨-, -, hchoices⟩ := body_fields a
  have hevents := played_nonempty a h hcommitted
  simp [closeReplay, closeRefusal, hchoices, body_absent a "content" (by simp), Value.asArray,
    hevents, -String.reduceToList]

theorem body_events (hblank : RefusesBlank parse) (a : Assembly) (h : List ProviderEvent)
    (hmirrors : Mirrors a h) (hcommitted : Committed parse a h) :
    (ReplaySafe a →
        eventsOfValue parse (assembledBody a) = playedEvents parse a ++ [.event .completed]) ∧
      (¬ ReplaySafe a → ∃ message, eventsOfValue parse (assembledBody a) = [.failed message]) := by
  have haccepted := body_accepted hblank a h hmirrors hcommitted
  rw [eventsOfValue]
  rcases hgate : validateReplayBody parse (assembledBody a) with reason | u
  · rw [hgate] at haccepted
    exact ⟨fun hsafe => absurd (haccepted.mpr hsafe) (by simp), fun _ => ⟨reason, rfl⟩⟩
  · rw [hgate] at haccepted
    refine ⟨fun _ => ?_, fun hunsafe => absurd (haccepted.mp rfl) hunsafe⟩
    rw [body_played a hcommitted.accepted]
    exact body_closed a h hcommitted

/-- The replay has no failure, completes, and carries what the live stream carried. -/
structure Reproduces (live replayed : List ProviderEvent) : Prop where
  unfailed : ∀ message, .failed message ∉ replayed
  completed : replayed.getLast? = some (.event .completed)
  answer : answerText replayed = answerText live
  reasoning : reasoningText replayed = reasoningText live
  calls : toolCallsOf replayed = toolCallsOf live

theorem played_nonterminal (a : Assembly) : Nonterminal (playedEvents parse a) := by
  rw [playedEvents, nonterminal_append, nonterminal_append]
  refine ⟨?_, ?_, ready_nonterminal parse a.calls⟩
  · split <;> simp [Nonterminal, terminal]
  · split <;> simp [Nonterminal, terminal]

theorem played_reproduces (a : Assembly) (live : List ProviderEvent) (hmirrors : Mirrors a live)
    (hcommitted : Committed parse a live) :
    Reproduces live (playedEvents parse a ++ [.event .completed]) := by
  obtain ⟨htext, hreasoning⟩ := ready_texts parse a.calls
  constructor
  case unfailed =>
    intro message hmem
    rcases List.mem_append.mp hmem with hplayed | hlast
    · exact absurd (played_nonterminal a _ hplayed) (by simp [terminal])
    · simp at hlast
  case completed => simp
  case answer =>
    have hdone : answerText [.event .completed] = [] := rfl
    rw [hmirrors.text, playedEvents]
    simp only [answer_text_append, htext, hdone, List.append_nil]
    cases a.content <;> cases a.reasoning <;> simp [answerText]
  case reasoning =>
    have hdone : reasoningText [.event .completed] = [] := rfl
    rw [hmirrors.reasoning, playedEvents]
    simp only [reasoning_text_append, hreasoning, hdone, List.append_nil]
    cases a.content <;> cases a.reasoning <;> simp [reasoningText]
  case calls =>
    have hdone : toolCallsOf [.event .completed] = [] := rfl
    rw [hcommitted.calls, playedEvents]
    simp only [tool_calls_append, hdone, List.append_nil]
    cases a.content <;> cases a.reasoning <;> simp [toolCallsOf]

/-- The same through the written text: the usage metadata read back is not the one written, but
passes the same check. -/
theorem recorded_replay (serde : SerdeJson) (hblank : RefusesBlank serde.fromStr) (a : Assembly)
    (live : List ProviderEvent) (hround : RoundTrips serde (assembledBody a))
    (hmirrors : Mirrors a live) (hcommitted : Committed serde.fromStr a live) :
    (ReplaySafe a → Reproduces live
        (completionEventsFromBody serde.fromStr (serde.toStr (assembledBody a)))) ∧
      (¬ ReplaySafe a → ∃ message,
        completionEventsFromBody serde.fromStr (serde.toStr (assembledBody a)) =
          [.failed message]) := by
  obtain ⟨again, hread, halike⟩ := hround
  obtain ⟨usage, rfl, husage⟩ := alike_body a again halike
  have hsafe : ReplaySafe { a with usage } ↔ ReplaySafe a := by
    have hmeta : (∀ u, usage = some u → replayTextFieldsValid u = true) ↔
        ∀ u, a.usage = some u → replayTextFieldsValid u = true := by
      rw [← Option.all_eq_true, ← Option.all_eq_true, husage]
    exact ⟨fun h => ⟨h.finishReason, h.calls, hmeta.mp h.usage⟩,
      fun h => ⟨h.finishReason, h.calls, hmeta.mpr h.usage⟩⟩
  have hmirrors' : Mirrors { a with usage } live :=
    ⟨hmirrors.bound, hmirrors.text, hmirrors.reasoning, hmirrors.contentValid,
      hmirrors.reasoningValid⟩
  have hcommitted' : Committed serde.fromStr { a with usage } live :=
    ⟨hcommitted.accepted, hcommitted.usable, hcommitted.calls⟩
  have hobject := (body_fields { a with usage }).1
  have hevents := body_events hblank { a with usage } live hmirrors' hcommitted'
  rw [completionEventsFromBody, hread, Option.filter_some, if_pos hobject, ← hsafe]
  refine ⟨fun h => ?_, hevents.2⟩
  simp only [hevents.1 h]
  exact played_reproduces _ live hmirrors' hcommitted'

end Playback

theorem recorded_of_completed (parse : Text → Option Value) (limit : ℕ) (chunks : List Text)
    (ended : Bool) (hcompleted : isCompleted (streamed parse limit chunks ended).1 = true)
    (hfailed : isFailed (streamed parse limit chunks ended).1 = false) :
    Mirrors (streamed parse limit chunks ended).1.assembly (streamed parse limit chunks ended).2 ∧
      Committed parse (streamed parse limit chunks ended).1.assembly
        (streamed parse limit chunks ended).2 := by
  rcases streamed_recorded parse limit chunks ended with
    hf | ⟨-, hmirrors, ⟨hopen, -⟩ | ⟨-, hcommitted⟩⟩
  · exact absurd hf (by simpa [isFailed] using hfailed)
  · exact absurd hopen (by simpa [isCompleted] using hcompleted)
  · exact ⟨hmirrors, hcommitted⟩

/-- A completed stream replays from its recording exactly when its finish reason is one the gate
knows, no id or name of its calls is white space, and its usage metadata passes the text check. -/
theorem recording_replays_iff (serde : SerdeJson) (limit : ℕ) (chunks : List Text) (ended : Bool)
    (hblank : RefusesBlank serde.fromStr)
    (hround : RoundTrips serde
      (assembledBody (streamed serde.fromStr limit chunks ended).1.assembly))
    (hcompleted : isCompleted (streamed serde.fromStr limit chunks ended).1 = true)
    (hfailed : isFailed (streamed serde.fromStr limit chunks ended).1 = false) :
    Reproduces (streamed serde.fromStr limit chunks ended).2
        (completionEventsFromBody serde.fromStr
          (serde.toStr (assembledBody (streamed serde.fromStr limit chunks ended).1.assembly))) ↔
      ReplaySafe (streamed serde.fromStr limit chunks ended).1.assembly := by
  obtain ⟨hmirrors, hcommitted⟩ :=
    recorded_of_completed serde.fromStr limit chunks ended hcompleted hfailed
  have hreplay := recorded_replay serde hblank _ _ hround hmirrors hcommitted
  constructor
  · intro hreproduces
    by_contra hunsafe
    obtain ⟨message, hevents⟩ := hreplay.2 hunsafe
    exact hreproduces.unfailed message (by simp [hevents])
  · exact hreplay.1

/-- A stream of one frame, `[DONE]`, and the body recorded for it. -/
def frameText (reason : Text) : Text :=
  "\x7b\"choices\":[\x7b\"delta\":\x7b\"content\":\"x\"\x7d,\"finish_reason\":\"".toList ++ reason ++
    "\"\x7d]\x7d".toList

def frameValue (reason : Text) : Value :=
  .object [("choices".toList, .array [.object [
    ("delta".toList, .object [("content".toList, .string "x")]),
    ("finish_reason".toList, .string reason)]])]

def bodyText (reason : Text) : Text :=
  "\x7b\"choices\":[\x7b\"finish_reason\":\"".toList ++ reason ++
    "\",\"index\":0,\"message\":\x7b\"content\":\"x\",\"role\":\"assistant\"\x7d\x7d],\"id\":\"\",\"model\":\"\"\x7d".toList

def finishedAssembly (reason : Text) : Assembly :=
  { content := "x", finishReason := some reason, completed := true, eventCount := 2 }

def finishedSerde (reason : Text) : SerdeJson where
  fromStr text :=
    if text = frameText reason then some (frameValue reason)
    else if text = bodyText reason then some (assembledBody (finishedAssembly reason))
    else none
  toStr _ := bodyText reason

def finishedChunks (reason : Text) : List Text :=
  ["data:".toList ++ frameText reason ++ "\n".toList, "data:[DONE]\n"]

theorem finished_refuses_blank (reason : Text) : RefusesBlank (finishedSerde reason).fromStr := by
  intro text hblank
  rw [blank_iff] at hblank
  have hbrace : '\x7b' ∉ text := fun hmem => absurd (hblank _ hmem) (by decide)
  have hframe : text ≠ frameText reason := by
    rintro rfl
    exact hbrace (List.mem_append_left _ (List.mem_append_left _ (by decide)))
  have hbody : text ≠ bodyText reason := by
    rintro rfl
    exact hbrace (List.mem_append_left _ (List.mem_append_left _ (by decide)))
  rw [finishedSerde]
  exact (if_neg hframe).trans (if_neg hbody)

theorem finished_round_trips (reason : Text) (h : bodyText reason ≠ frameText reason) :
    RoundTrips (finishedSerde reason) (assembledBody (finishedAssembly reason)) := by
  have hread : (finishedSerde reason).fromStr (bodyText reason) =
      some (assembledBody (finishedAssembly reason)) := by
    rw [finishedSerde]
    simp only
    rw [if_neg h]
    exact if_pos trivial
  exact ⟨_, hread, alike_refl _⟩

/-- The reader of the stream takes any finish reason, the gate only those it knows. -/
theorem recording_breaks :
    ∃ (serde : SerdeJson) (limit : ℕ) (chunks : List Text) (ended : Bool),
      RefusesBlank serde.fromStr ∧
        RoundTrips serde (assembledBody (streamed serde.fromStr limit chunks ended).1.assembly) ∧
        (streamed serde.fromStr limit chunks ended).1.plainBody = none ∧
        isCompleted (streamed serde.fromStr limit chunks ended).1 = true ∧
        isFailed (streamed serde.fromStr limit chunks ended).1 = false ∧
        ¬ Reproduces (streamed serde.fromStr limit chunks ended).2
          (completionEventsFromBody serde.fromStr
            (serde.toStr (assembledBody (streamed serde.fromStr limit chunks ended).1.assembly))) := by
  have hrun : (streamed (finishedSerde "eos").fromStr maxResponseBytes (finishedChunks "eos")
      false).1.assembly = finishedAssembly "eos" := rfl
  have hround := finished_round_trips "eos" (by decide)
  have hblank := finished_refuses_blank "eos"
  rw [← hrun] at hround
  refine ⟨finishedSerde "eos", maxResponseBytes, finishedChunks "eos", false, hblank, hround, rfl,
    rfl, rfl, ?_⟩
  intro hreproduces
  obtain ⟨hmirrors, hcommitted⟩ := recorded_of_completed (finishedSerde "eos").fromStr
    maxResponseBytes (finishedChunks "eos") false rfl rfl
  have hunsafe : ¬ ReplaySafe (streamed (finishedSerde "eos").fromStr maxResponseBytes
      (finishedChunks "eos") false).1.assembly := by
    rw [hrun]
    intro hsafe
    exact absurd (hsafe.finishReason "eos" rfl) (by decide)
  obtain ⟨message, hevents⟩ :=
    (recorded_replay _ hblank _ _ hround hmirrors hcommitted).2 hunsafe
  rw [hevents] at hreproduces
  exact hreproduces.unfailed message (by simp)

theorem recording_replays_stop :
    Reproduces (streamed (finishedSerde "stop").fromStr maxResponseBytes (finishedChunks "stop")
        false).2
      (completionEventsFromBody (finishedSerde "stop").fromStr
        ((finishedSerde "stop").toStr (assembledBody (streamed (finishedSerde "stop").fromStr
          maxResponseBytes (finishedChunks "stop") false).1.assembly))) := by
  have hrun : (streamed (finishedSerde "stop").fromStr maxResponseBytes (finishedChunks "stop")
      false).1.assembly = finishedAssembly "stop" := rfl
  have hround := finished_round_trips "stop" (by decide)
  rw [← hrun] at hround
  have hsafe : ReplaySafe (streamed (finishedSerde "stop").fromStr maxResponseBytes
      (finishedChunks "stop") false).1.assembly := by
    rw [hrun]
    refine ⟨?_, ?_, ?_⟩
    · rintro reason ⟨⟩
      decide
    · exact fun call hcall => absurd hcall List.not_mem_nil
    · exact fun usage husage => absurd husage (by simp [finishedAssembly])
  exact (recording_replays_iff (finishedSerde "stop") maxResponseBytes (finishedChunks "stop") false
    (finished_refuses_blank "stop") hround rfl rfl).mpr hsafe

end Siralos.Replay
