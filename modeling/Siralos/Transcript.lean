import Siralos.ToolRound

/-!
# Transcripts the validation accepts

A transcript is settled when it is admitted and leaves no call open. Settled transcripts
stay settled under a message, under a paired round of distinct ids, and when everything
before a user message is dropped.
-/

set_option autoImplicit false

namespace Siralos.Transcript
open Conversation Turn ToolRound

def absorb : List PendingCall → List ConversationItem →
    Except TranscriptFailure (List PendingCall)
  | pending, [] => .ok pending
  | pending, item :: items =>
    match validateItem pending item with
    | .error failure => .error failure
    | .ok pending => absorb pending items

def Closed (pending : List PendingCall) : Prop := ∀ call ∈ pending, call.resolved = true

def Settled (items : List ConversationItem) : Prop :=
  ∃ pending, absorb [] items = .ok pending ∧ Closed pending

theorem first_unresolved_none (pending : List PendingCall) :
    firstUnresolved pending = none ↔ Closed pending := by
  simp [firstUnresolved, Closed, List.find?_eq_none]

theorem validate_from_ok (pending : List PendingCall) (items : List ConversationItem) :
    validateFrom pending items = .ok () ↔
      ∃ left, absorb pending items = .ok left ∧ Closed left := by
  induction items generalizing pending with
  | nil =>
    simp only [validateFrom, absorb, Except.ok.injEq, exists_eq_left', ← first_unresolved_none]
    cases firstUnresolved pending <;> simp
  | cons item items ih =>
    simp only [validateFrom, absorb]
    cases validateItem pending item with
    | error failure => simp
    | ok pending => exact ih pending

theorem validate_ok_iff (items : List ConversationItem) :
    validateConversationItems items = .ok () ↔ Settled items :=
  validate_from_ok [] items

theorem absorb_append (pending : List PendingCall) (items more : List ConversationItem) :
    absorb pending (items ++ more) =
      match absorb pending items with
      | .error failure => .error failure
      | .ok left => absorb left more := by
  induction items generalizing pending with
  | nil => rfl
  | cons item items ih =>
    simp only [List.cons_append, absorb]
    cases validateItem pending item with
    | error failure => rfl
    | ok pending => exact ih pending

theorem absorb_append_ok (pending left final : List PendingCall)
    (items more : List ConversationItem) (h : absorb pending items = .ok left)
    (hm : absorb left more = .ok final) : absorb pending (items ++ more) = .ok final := by
  rw [absorb_append, h]
  exact hm

theorem closed_append (p q : List PendingCall) : Closed (p ++ q) ↔ Closed p ∧ Closed q := by
  simp [Closed, or_imp, forall_and]

theorem resolve_call_behind (closed pending : List PendingCall) (callId : Text)
    (h : Closed closed) :
    resolveCall callId (closed ++ pending) = (resolveCall callId pending).map (closed ++ ·) := by
  induction closed with
  | nil => simp
  | cons call closed ih =>
    have hcall : call.resolved = true := h call (by simp)
    rw [List.cons_append, resolveCall, if_neg (by simp [hcall]),
      ih fun c hc => h c (List.mem_cons_of_mem _ hc)]
    cases resolveCall callId pending <;> simp

theorem first_unresolved_behind (closed pending : List PendingCall) (h : Closed closed) :
    firstUnresolved (closed ++ pending) = firstUnresolved pending := by
  rw [firstUnresolved, List.find?_append, ← firstUnresolved, (first_unresolved_none closed).mpr h]
  rfl

theorem validate_item_behind (closed pending : List PendingCall) (item : ConversationItem)
    (h : Closed closed) :
    validateItem (closed ++ pending) item = (validateItem pending item).map (closed ++ ·) := by
  cases item with
  | userMessage content =>
    simp only [validateItem, first_unresolved_behind closed pending h]
    cases firstUnresolved pending <;> rfl
  | assistantMessage content => rfl
  | assistantToolCall callId toolName input =>
    have hclosed : (closed.any fun call => call.callId == callId && !call.resolved) = false := by
      simp only [List.any_eq_false, Bool.and_eq_true, Bool.not_eq_true', not_and]
      intro call hc _
      simp [h call hc]
    simp only [validateItem, List.any_append, hclosed, Bool.false_or]
    split
    · rfl
    · split <;> simp [Except.map]
  | toolResult callId toolName result =>
    simp only [validateItem, resolve_call_behind closed pending callId h]
    cases resolveCall callId pending <;> rfl

theorem absorb_behind (closed pending : List PendingCall) (items : List ConversationItem)
    (h : Closed closed) :
    absorb (closed ++ pending) items = (absorb pending items).map (closed ++ ·) := by
  induction items generalizing pending with
  | nil => rfl
  | cons item items ih =>
    simp only [absorb, validate_item_behind closed pending item h]
    cases validateItem pending item with
    | error failure => rfl
    | ok pending => exact ih pending

theorem absorb_closed_iff (closed : List PendingCall) (items : List ConversationItem)
    (h : Closed closed) :
    (∃ left, absorb closed items = .ok left ∧ Closed left) ↔ Settled items := by
  have hbehind := absorb_behind closed [] items h
  rw [List.append_nil] at hbehind
  rw [hbehind, Settled]
  cases absorb [] items with
  | error failure => simp [Except.map]
  | ok pending => simp [Except.map, closed_append, h]

theorem settled_append_iff (items more : List ConversationItem) (h : Settled items) :
    Settled (items ++ more) ↔ Settled more := by
  obtain ⟨pending, hp, hclosed⟩ := h
  rw [← absorb_closed_iff pending more hclosed, Settled, absorb_append, hp]

theorem settled_append (items more : List ConversationItem) (h : Settled items)
    (hm : Settled more) : Settled (items ++ more) :=
  (settled_append_iff items more h).mpr hm

theorem settled_nil : Settled [] := ⟨[], rfl, by simp [Closed]⟩

theorem settled_user (content : Text) : Settled [.userMessage content] :=
  ⟨[], rfl, by simp [Closed]⟩

theorem settled_assistant (content : Text) : Settled [.assistantMessage content] :=
  ⟨[], rfl, by simp [Closed]⟩

theorem settled_before_user (items more : List ConversationItem) (content : Text)
    (h : Settled (items ++ .userMessage content :: more)) : Settled items := by
  obtain ⟨left, hleft, -⟩ := h
  rw [absorb_append] at hleft
  cases hp : absorb [] items with
  | error failure => simp [hp] at hleft
  | ok pending =>
    rw [hp] at hleft
    simp only [absorb, validateItem] at hleft
    cases hf : firstUnresolved pending with
    | some call => simp [hf] at hleft
    | none => exact ⟨pending, hp, (first_unresolved_none pending).mp hf⟩

theorem settled_from_user (items more : List ConversationItem) (content : Text)
    (h : Settled (items ++ .userMessage content :: more)) :
    Settled (.userMessage content :: more) :=
  (settled_append_iff _ _ (settled_before_user items more content h)).mp h

def openCall (call : TurnToolCall) : PendingCall :=
  { callId := call.callId, toolName := call.toolName, resolved := false }

def closeCall (call : TurnToolCall) : PendingCall := { openCall call with resolved := true }

theorem seed_call_item (call : TurnToolCall) :
    ∃ input, seedCall call = .assistantToolCall call.callId call.toolName input := by
  cases call with
  | execute callId toolName input => exact ⟨_, rfl⟩
  | invalid callId toolName message => exact ⟨_, rfl⟩

theorem absorb_seed (opened calls : List TurnToolCall)
    (hnamed : [] ∉ calls.map TurnToolCall.callId)
    (hdistinct : ((opened ++ calls).map TurnToolCall.callId).Nodup) :
    absorb (opened.map openCall) (seedTranscript calls) =
      .ok ((opened ++ calls).map openCall) := by
  induction calls generalizing opened with
  | nil => simp [seedTranscript, absorb]
  | cons call calls ih =>
    obtain ⟨input, hitem⟩ := seed_call_item call
    simp only [List.map_cons, List.mem_cons, not_or] at hnamed
    have hfresh : ∀ other ∈ opened, other.callId ≠ call.callId := by
      intro other ho heq
      rw [List.map_append, List.nodup_append'] at hdistinct
      refine hdistinct.2.2 (List.mem_map_of_mem ho) ?_
      rw [heq]
      simp
    have hany : ((opened.map openCall).any
        fun c => c.callId == call.callId && !c.resolved) = false := by
      simp only [List.any_eq_false, List.mem_map]
      rintro c ⟨other, ho, rfl⟩
      simp [openCall, hfresh other ho]
    have hsnoc : opened.map openCall ++ [openCall call] = (opened ++ [call]).map openCall := by
      simp
    have hstep : validateItem (opened.map openCall) (seedCall call) =
        .ok ((opened ++ [call]).map openCall) := by
      rw [hitem, validateItem, if_neg (fun h => hnamed.1 h.symm), hany, ← hsnoc]
      rfl
    have hrest := ih (opened ++ [call]) hnamed.2 (by simpa using hdistinct)
    rw [seedTranscript, List.map_cons, absorb, hstep]
    simpa [seedTranscript] using hrest

theorem absorb_results (closed : List PendingCall) (calls : List TurnToolCall)
    (results : List ConversationItem) (hclosed : Closed closed) (h : Answered calls results) :
    absorb (closed ++ calls.map openCall) results = .ok (closed ++ calls.map closeCall) := by
  induction h generalizing closed with
  | nil => rfl
  | @cons call item calls results hitem _ ih =>
    obtain ⟨result, rfl⟩ := hitem
    have hstep : validateItem (closed ++ (call :: calls).map openCall)
        (.toolResult call.callId call.toolName result) =
        .ok ((closed ++ [closeCall call]) ++ calls.map openCall) := by
      rw [validateItem, resolve_call_behind _ _ _ hclosed, List.map_cons, resolveCall,
        if_pos ⟨rfl, rfl⟩]
      simp [closeCall]
    rw [absorb, hstep]
    have hclosed' : Closed (closed ++ [closeCall call]) := by
      rw [closed_append]
      exact ⟨hclosed, by simp [Closed, closeCall]⟩
    simpa using ih (closed ++ [closeCall call]) hclosed'

/-- The transcript of a round settles when its calls have distinct non-empty ids. -/
theorem settled_paired (calls : List TurnToolCall) (transcript : List ConversationItem)
    (hnamed : [] ∉ calls.map TurnToolCall.callId)
    (hdistinct : (calls.map TurnToolCall.callId).Nodup) (h : Paired calls transcript) :
    Settled transcript := by
  obtain ⟨results, hanswered, rfl⟩ := h
  have hseed := absorb_seed [] calls hnamed (by simpa using hdistinct)
  have hresults := absorb_results [] calls results (by simp [Closed]) hanswered
  refine ⟨calls.map closeCall, ?_, by simp [Closed, closeCall]⟩
  exact absorb_append_ok _ _ _ _ _ (by simpa using hseed) (by simpa using hresults)

/-- No synthetic id is also an id the provider chose. -/
def Unclashing (calls : List TurnToolCall) : Prop :=
  ∀ callId ∈ invalidIds calls, callId ∉ executeIds calls

instance (calls : List TurnToolCall) : Decidable (Unclashing calls) :=
  inferInstanceAs (Decidable (∀ callId ∈ invalidIds calls, callId ∉ executeIds calls))

theorem call_ids_perm (calls : List TurnToolCall) :
    (calls.map TurnToolCall.callId).Perm (invalidIds calls ++ executeIds calls) := by
  induction calls with
  | nil => exact .nil
  | cons call calls ih =>
    cases call with
    | invalid callId toolName message => exact ih.cons callId
    | execute callId toolName input =>
      exact (ih.cons callId).trans List.perm_middle.symm

theorem collected_ids_distinct (collected : Collected) (h : Numbered collected)
    (hclash : Unclashing collected.toolCalls) :
    [] ∉ collected.toolCalls.map TurnToolCall.callId ∧
      (collected.toolCalls.map TurnToolCall.callId).Nodup := by
  have hperm := call_ids_perm collected.toolCalls
  constructor
  · rw [hperm.mem_iff, List.mem_append, not_or]
    refine ⟨?_, h.named⟩
    rw [h.counted, List.mem_map]
    rintro ⟨index, -, hid⟩
    exact invalid_call_id_ne_nil _ hid
  · rw [hperm.nodup_iff]
    refine List.Nodup.append ?_ h.fresh hclash
    rw [h.counted]
    refine List.Nodup.map ?_ List.nodup_range
    intro m n hmn
    exact Nat.succ_injective (invalid_call_id_inj hmn)

end Siralos.Transcript
