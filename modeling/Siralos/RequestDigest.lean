import Mathlib.Logic.Equiv.Basic
import Siralos.Conversation
import Siralos.JsonText

/-!
# Request digests

A recording is bound to its request by the hash of the request's canonical JSON, and to its route by
the hash of a second document. The documents determine what they are written from.
-/

set_option autoImplicit false

namespace Siralos.RequestDigest

open Json Provider Conversation

structure ModelRequest where
  messages : List ConversationItem
  tools : List ToolDefinition
  system : Option Text

structure Route where
  providerId : Text
  endpoint : Text
  protocol : Text
  deriving DecidableEq

def statusStr : ToolExecutionResult → Text
  | .success _ _ => "success"
  | .invalidInput _ => "invalid_input"
  | .denied _ => "denied"
  | .conflict _ => "conflict"
  | .failed _ => "failed"
  | .cancelled _ => "cancelled"
  | .timedOut _ => "timed_out"
  | .outputLimit _ => "output_limit"
  | .sandboxDenied _ => "sandbox_denied"
  | .sandboxUnavailable _ => "sandbox_unavailable"
  | .workspaceViolation _ => "workspace_violation"
  | .unavailable _ => "unavailable"

def message : ToolExecutionResult → Text
  | .success _ _ => []
  | .invalidInput message | .denied message | .conflict message | .failed message
  | .cancelled message | .timedOut message | .outputLimit message | .sandboxDenied message
  | .sandboxUnavailable message | .workspaceViolation message | .unavailable message => message

-- The keys of every object ascend.
def inputValue : AssistantToolCallInput → Value
  | .present value => .object [("present", .bool true), ("value", value)]
  | .omitted => .object [("present", .bool false)]

def resultValue : ToolExecutionResult → Value
  | .success output summary =>
    .object [("output", output), ("status", .string "success"), ("summary", .string summary)]
  | other => .object [("message", .string (message other)), ("status", .string (statusStr other))]

def itemValue : ConversationItem → Value
  | .userMessage content => .object [("content", .string content), ("kind", .string "user")]
  | .assistantMessage content =>
    .object [("content", .string content), ("kind", .string "assistant")]
  | .assistantToolCall callId toolName input =>
    .object [("call_id", .string callId), ("input", inputValue input),
      ("kind", .string "assistant_tool_call"), ("tool_name", .string toolName)]
  | .toolResult callId toolName result =>
    .object [("call_id", .string callId), ("kind", .string "tool_result"),
      ("result", resultValue result), ("tool_name", .string toolName)]

def toolValue (tool : ToolDefinition) : Value :=
  .object [("description", .string tool.description), ("input_schema", tool.inputSchema),
    ("name", .string tool.name)]

def systemValue : Option Text → Value
  | none => .null
  | some system => .string system

def requestValue (request : ModelRequest) : Value :=
  .object [("messages", .array (request.messages.map itemValue)),
    ("system", systemValue request.system), ("tools", .array (request.tools.map toolValue))]

def routeValue (requestSha256 : Text) (route : Route) : Value :=
  .object [("endpoint", .string route.endpoint), ("protocol", .string route.protocol),
    ("provider", .string route.providerId), ("request", .string requestSha256)]

section Digests

variable (serde : SerdeJson) (sha256Hex : Text → Text)

def requestSha256 (request : ModelRequest) : Text := sha256Hex (serde.toStr (requestValue request))

def requestSha256ForRoute (request : ModelRequest) (route : Route) : Text :=
  sha256Hex (serde.toStr (routeValue (requestSha256 serde sha256Hex request) route))

end Digests

def failureOf (status message : Text) : ToolExecutionResult :=
  if status = "invalid_input" then .invalidInput message
  else if status = "denied" then .denied message
  else if status = "conflict" then .conflict message
  else if status = "failed" then .failed message
  else if status = "cancelled" then .cancelled message
  else if status = "timed_out" then .timedOut message
  else if status = "output_limit" then .outputLimit message
  else if status = "sandbox_denied" then .sandboxDenied message
  else if status = "sandbox_unavailable" then .sandboxUnavailable message
  else if status = "workspace_violation" then .workspaceViolation message
  else .unavailable message

def Failing : ToolExecutionResult → Prop
  | .success _ _ => False
  | _ => True

theorem failure_of_status {result : ToolExecutionResult} (h : Failing result) :
    failureOf (statusStr result) (message result) = result := by
  cases result with
  | success output summary => cases h
  | _ => rfl

theorem failing_value {result : ToolExecutionResult} (h : Failing result) :
    resultValue result =
      .object [("message", .string (message result)), ("status", .string (statusStr result))] := by
  cases result with
  | success output summary => cases h
  | _ => rfl

theorem object_ne {xs ys : List (Text × Value)} (m n : ℕ) (hx : xs.length = m)
    (hy : ys.length = n) (hne : m ≠ n) : Value.object xs ≠ .object ys := by
  intro h
  rw [← hx, ← hy, Value.object.inj h] at hne
  exact hne rfl

theorem text_pair_inj {k l x y x' y' : Text}
    (h : Value.object [(k, .string x), (l, .string y)] =
      .object [(k, .string x'), (l, .string y')]) : x = x' ∧ y = y' := by
  simp only [Value.object.injEq, List.cons.injEq, Prod.mk.injEq, Value.string.injEq, true_and,
    and_true] at h
  exact h

theorem second_key_inj {p p' : Text × Value} {k k' : Text} {v v' : Value}
    {rest rest' : List (Text × Value)}
    (h : Value.object (p :: (k, v) :: rest) = .object (p' :: (k', v') :: rest')) : k = k' := by
  simp only [Value.object.injEq, List.cons.injEq, Prod.mk.injEq] at h
  exact h.2.1.1

theorem result_value_inj {a b : ToolExecutionResult} (h : resultValue a = resultValue b) :
    a = b := by
  by_cases ha : Failing a
  · rw [failing_value ha] at h
    by_cases hb : Failing b
    · rw [failing_value hb] at h
      obtain ⟨hmessage, hstatus⟩ := text_pair_inj h
      rw [← failure_of_status ha, ← failure_of_status hb, hmessage, hstatus]
    · cases b with
      | success output summary => exact absurd h (object_ne 2 3 rfl rfl (by decide))
      | _ => exact absurd trivial hb
  · cases a with
    | success output summary =>
      by_cases hb : Failing b
      · rw [failing_value hb] at h
        exact absurd h (object_ne 3 2 rfl rfl (by decide))
      · cases b with
        | success output' summary' =>
          simp only [resultValue, Value.object.injEq, List.cons.injEq, Prod.mk.injEq,
            Value.string.injEq, true_and, and_true] at h
          rw [h.1, h.2]
        | _ => exact absurd trivial hb
    | _ => exact absurd trivial ha

theorem input_value_inj {a b : AssistantToolCallInput} (h : inputValue a = inputValue b) :
    a = b := by
  cases a with
  | present value =>
    cases b with
    | present other =>
      simp only [inputValue, Value.object.injEq, List.cons.injEq, Prod.mk.injEq, true_and,
        and_true] at h
      rw [h]
    | omitted => exact absurd h (object_ne 2 1 rfl rfl (by decide))
  | omitted =>
    cases b with
    | present other => exact absurd h (object_ne 1 2 rfl rfl (by decide))
    | omitted => rfl

theorem kinds_differ : ("user".toList ≠ "assistant".toList) :=
  Text.ofString_ne (by decide)

theorem call_keys_differ : ("input".toList ≠ "kind".toList) :=
  Text.ofString_ne (by decide)

theorem item_value_inj {a b : ConversationItem} (h : itemValue a = itemValue b) : a = b := by
  cases a with
  | userMessage content =>
    cases b with
    | userMessage other => rw [(text_pair_inj h).1]
    | assistantMessage other => exact absurd (text_pair_inj h).2 kinds_differ
    | assistantToolCall callId toolName input => exact absurd h (object_ne 2 4 rfl rfl (by decide))
    | toolResult callId toolName result => exact absurd h (object_ne 2 4 rfl rfl (by decide))
  | assistantMessage content =>
    cases b with
    | userMessage other => exact absurd (text_pair_inj h).2.symm kinds_differ
    | assistantMessage other => rw [(text_pair_inj h).1]
    | assistantToolCall callId toolName input => exact absurd h (object_ne 2 4 rfl rfl (by decide))
    | toolResult callId toolName result => exact absurd h (object_ne 2 4 rfl rfl (by decide))
  | assistantToolCall callId toolName input =>
    cases b with
    | userMessage other => exact absurd h (object_ne 4 2 rfl rfl (by decide))
    | assistantMessage other => exact absurd h (object_ne 4 2 rfl rfl (by decide))
    | assistantToolCall otherId otherName otherInput =>
      simp only [itemValue, Value.object.injEq, List.cons.injEq, Prod.mk.injEq,
        Value.string.injEq, true_and, and_true] at h
      rw [h.1, input_value_inj h.2.1, h.2.2]
    | toolResult otherId otherName result =>
      exact absurd (second_key_inj h) call_keys_differ
  | toolResult callId toolName result =>
    cases b with
    | userMessage other => exact absurd h (object_ne 4 2 rfl rfl (by decide))
    | assistantMessage other => exact absurd h (object_ne 4 2 rfl rfl (by decide))
    | assistantToolCall otherId otherName otherInput =>
      exact absurd (second_key_inj h).symm call_keys_differ
    | toolResult otherId otherName otherResult =>
      simp only [itemValue, Value.object.injEq, List.cons.injEq, Prod.mk.injEq,
        Value.string.injEq, true_and, and_true] at h
      rw [h.1, result_value_inj h.2.1, h.2.2]

theorem tool_value_inj {a b : ToolDefinition} (h : toolValue a = toolValue b) : a = b := by
  obtain ⟨name, description, inputSchema⟩ := a
  obtain ⟨otherName, otherDescription, otherSchema⟩ := b
  simp only [toolValue, Value.object.injEq, List.cons.injEq, Prod.mk.injEq, Value.string.injEq,
    true_and, and_true] at h
  rw [h.1, h.2.1, h.2.2]

theorem system_value_inj {a b : Option Text} (h : systemValue a = systemValue b) : a = b := by
  cases a with
  | none =>
    cases b with
    | none => rfl
    | some other => cases h
  | some system =>
    cases b with
    | none => cases h
    | some other => rw [Value.string.inj h]

theorem request_value_inj {a b : ModelRequest} (h : requestValue a = requestValue b) :
    a.messages = b.messages ∧ a.system = b.system ∧ a.tools = b.tools := by
  simp only [requestValue, Value.object.injEq, List.cons.injEq, Prod.mk.injEq,
    Value.array.injEq, true_and, and_true] at h
  exact ⟨List.map_injective_iff.mpr (fun _ _ => item_value_inj) h.1, system_value_inj h.2.1,
    List.map_injective_iff.mpr (fun _ _ => tool_value_inj) h.2.2⟩

theorem route_value_inj {digest other : Text} {a b : Route}
    (h : routeValue digest a = routeValue other b) : digest = other ∧ a = b := by
  obtain ⟨providerId, endpoint, protocol⟩ := a
  obtain ⟨otherProvider, otherEndpoint, otherProtocol⟩ := b
  simp only [routeValue, Value.object.injEq, List.cons.injEq, Prod.mk.injEq, Value.string.injEq,
    true_and, and_true] at h
  exact ⟨h.2.2.2, by rw [h.1, h.2.1, h.2.2.1]⟩

/-- The digest identifies the request and its route. -/
theorem request_digest_iff (serde : SerdeJson) (sha256Hex : Text → Text)
    (hserde : Function.Injective serde.toStr) (hsha : Function.Injective sha256Hex)
    (first second : ModelRequest) (route other : Route) :
    requestSha256ForRoute serde sha256Hex first route =
        requestSha256ForRoute serde sha256Hex second other ↔
      route = other ∧ first.system = second.system ∧ first.tools = second.tools ∧
        first.messages = second.messages := by
  constructor
  · intro h
    obtain ⟨hdigest, hroute⟩ := route_value_inj (hserde (hsha h))
    obtain ⟨hmessages, hsystem, htools⟩ := request_value_inj (hserde (hsha hdigest))
    exact ⟨hroute, hsystem, htools, hmessages⟩
  · rintro ⟨rfl, hsystem, htools, hmessages⟩
    rw [requestSha256ForRoute, requestSha256ForRoute, requestSha256, requestSha256, requestValue,
      requestValue, hmessages, hsystem, htools]

/-- The document of an empty request, and its SHA-256. -/
def emptyDocument : Text := "\x7b\"messages\":[],\"system\":null,\"tools\":[]\x7d"

def emptyHash : Text := "3fb5ee5ef5f83b9d1f136788fc0e1124c538f6734fadd661174d5f09c814cead"

def askedRequest : ModelRequest where
  messages :=
    [.userMessage "read a",
      .assistantToolCall "c1" "read" (.present (.object [("path", .string "a")])),
      .toolResult "c1" "read" (.success (.string "x") "Read a.")]
  tools := [⟨"read", "Reads a file.", .object []⟩]
  system := some "Be brief."

def askedHash : Text := "69b6789380890180bb00316ac6ff76abfe66d4f647249292ce6bc37eec230651"

/-- The document of the request on a route, by the provider of the route. -/
def askedOn (provider : Text) : Text := anyText (routeValue askedHash ⟨provider, ['e'], ['p']⟩)

def askedOnHash : Text := "e84d040593687da13e5a55c273a99dac4db2a9ea253a8cc0fecc4e492946d458"

def askedOtherHash : Text := "bf09a6f9fa78a8941e25096eea176e64daf302a3adbb1bf988da7463eeee10f6"

/-- Agrees with the real digest on the three documents. -/
def askedSha256 : Equiv.Perm Text :=
  (Equiv.swap (anyText (requestValue askedRequest)) askedHash).trans
    ((Equiv.swap (askedOn ['a']) askedOnHash).trans (Equiv.swap (askedOn ['b']) askedOtherHash))

theorem other_route_differs :
    requestSha256ForRoute ⟨fun _ => none, anyText⟩ askedSha256 askedRequest
        ⟨['a'], ['e'], ['p']⟩ ≠
      requestSha256ForRoute ⟨fun _ => none, anyText⟩ askedSha256 askedRequest
        ⟨['b'], ['e'], ['p']⟩ := by
  intro h
  have hsame := (request_digest_iff ⟨fun _ => none, anyText⟩ askedSha256 any_text_inj
    askedSha256.injective _ _ _ _).mp h
  exact absurd hsame.1 (by decide)

example : requestSha256ForRoute ⟨fun _ => none, anyText⟩ askedSha256 askedRequest
    ⟨['a'], ['e'], ['p']⟩ = askedOnHash := by decide +kernel

end Siralos.RequestDigest
