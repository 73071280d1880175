import Siralos.SseMoves

/-!
# The commit of a stream

What `commit` does to a live assembly: it delivers the calls and `Completed`, or
one failure, or, past the event bound, nothing.
-/

set_option autoImplicit false

namespace Siralos.Sse
open Text Json Provider Emission

/-- The events `commit` emits for the slots before the first refused one. -/
def readyEvents (parse : Text → Option Value) : List PartialCall → List ProviderEvent
  | [] => []
  | call :: calls =>
    match commitCall parse call with
    | .error _ => []
    | .ok none => readyEvents parse calls
    | .ok (some event) => event :: readyEvents parse calls

def refusal (parse : Text → Option Value) : List PartialCall → Option Text
  | [] => none
  | call :: calls =>
    match commitCall parse call with
    | .error message => some message
    | .ok _ => refusal parse calls

def commitNeeds (parse : Text → Option Value) (a : Assembly) : ℕ :=
  (readyEvents parse a.calls).length +
    if (refusal parse a.calls).isNone && usable a then 1 else 0

/-- The commit of this assembly stays within the event bound. -/
def commitFits (parse : Text → Option Value) (a : Assembly) : Prop :=
  a.eventCount + commitNeeds parse a ≤ maxStreamEvents

instance (parse : Text → Option Value) (a : Assembly) : Decidable (commitFits parse a) :=
  inferInstanceAs (Decidable (_ ≤ _))

def terminal : ProviderEvent → Bool
  | .event .completed => true
  | .failed _ => true
  | _ => false

def Nonterminal (events : List ProviderEvent) : Prop := ∀ e ∈ events, terminal e = false

theorem nonterminal_append {es fs : List ProviderEvent} :
    Nonterminal (es ++ fs) ↔ Nonterminal es ∧ Nonterminal fs := by
  simp [Nonterminal, or_imp, forall_and]

theorem commit_call_event (parse : Text → Option Value) (call : PartialCall)
    (event : ProviderEvent) (h : commitCall parse call = .ok (some event)) :
    ∃ input, parse call.arguments = some input ∧ input.isObject = true ∧
      event = .event (.toolCall call.id call.name (.fromValue input)) := by
  unfold commitCall at h
  split at h
  · split at h <;> simp at h
  split at h
  · simp at h
  split at h
  · simp at h
  split at h
  · simp at h
  · rename_i input hinput
    split at h
    · rename_i hobject
      simp only [Except.ok.injEq, Option.some.injEq] at h
      exact ⟨input, hinput, hobject, h.symm⟩
    · simp at h

theorem commit_call_refusal (parse : Text → Option Value) (call : PartialCall) (message : Text)
    (h : commitCall parse call = .error message) : message ≠ tooAmbiguous := by
  unfold commitCall at h
  split at h
  · split at h
    · simp at h
    · rw [← Except.error.inj h]
      exact ofString_ne (by simp)
  split at h
  · rw [← Except.error.inj h]
    exact ofString_ne (by simp)
  split at h
  · rw [← Except.error.inj h]
    exact ofString_ne (by simp)
  split at h
  · rw [← Except.error.inj h]
    exact ofString_ne (by simp)
  · split at h
    · simp at h
    · rw [← Except.error.inj h]
      exact ofString_ne (by simp)

theorem refusal_message (parse : Text → Option Value) (calls : List PartialCall)
    (message : Text) (h : refusal parse calls = some message) : message ≠ tooAmbiguous := by
  induction calls with
  | nil => simp [refusal] at h
  | cons call calls ih =>
    rw [refusal] at h
    split at h
    · rename_i m hcall
      rw [← Option.some.inj h]
      exact commit_call_refusal parse call m hcall
    · exact ih h

theorem ready_nonterminal (parse : Text → Option Value) (calls : List PartialCall) :
    Nonterminal (readyEvents parse calls) := by
  induction calls with
  | nil => simp [readyEvents, Nonterminal]
  | cons call calls ih =>
    rw [readyEvents]
    split
    · simp [Nonterminal]
    · exact ih
    · rename_i event hcall
      obtain ⟨input, -, -, rfl⟩ := commit_call_event parse call event hcall
      intro e he
      rcases List.mem_cons.mp he with rfl | he
      · rfl
      · exact ih e he

theorem commit_calls_fit (parse : Text → Option Value) (calls : List PartialCall)
    (a : Assembly) (events : List ProviderEvent)
    (hfit : a.eventCount + (readyEvents parse calls).length ≤ maxStreamEvents) :
    commitCalls parse calls a events =
      match refusal parse calls with
      | some message =>
        (fail { a with eventCount := a.eventCount + (readyEvents parse calls).length },
          .error [.failed message])
      | none => ({ a with eventCount := a.eventCount + (readyEvents parse calls).length },
          .ok (events ++ readyEvents parse calls)) := by
  induction calls generalizing a events with
  | nil => simp [commitCalls, refusal, readyEvents]
  | cons call calls ih =>
    rw [commitCalls, refusal]
    rw [readyEvents] at hfit ⊢
    rcases hcall : commitCall parse call with message | _ | event
    · simp
    · rw [hcall] at hfit
      exact ih a events hfit
    · rw [hcall] at hfit
      simp only [List.length_cons] at hfit ⊢
      rw [emit_event_under event a (by omega)]
      simp only
      rw [ih _ _ (by simp only; omega)]
      simp only [List.append_assoc, List.singleton_append]
      have hcount : a.eventCount + 1 + (readyEvents parse calls).length =
          a.eventCount + ((readyEvents parse calls).length + 1) := by omega
      rw [hcount]

theorem commit_calls_over (parse : Text → Option Value) (calls : List PartialCall)
    (a : Assembly) (events : List ProviderEvent) (hc : a.eventCount ≤ maxStreamEvents)
    (hover : maxStreamEvents < a.eventCount + (readyEvents parse calls).length) :
    ∃ n, commitCalls parse calls a events =
      (fail { a with eventCount := n }, .error []) := by
  induction calls generalizing a events with
  | nil =>
    simp only [readyEvents, List.length_nil] at hover
    omega
  | cons call calls ih =>
    rw [commitCalls]
    rw [readyEvents] at hover
    rcases hcall : commitCall parse call with message | _ | event
    · simp only [hcall, List.length_nil] at hover
      omega
    · rw [hcall] at hover
      exact ih a events hc hover
    · simp only [hcall, List.length_cons] at hover ⊢
      by_cases hnow : a.eventCount < maxStreamEvents
      · rw [emit_event_under event a hnow]
        exact ih { a with eventCount := a.eventCount + 1 } _ (by simp only; omega)
          (by simp only; omega)
      · rw [emit_event_over event a hnow]
        exact ⟨a.eventCount, rfl⟩

theorem commit_fits (parse : Text → Option Value) (a : Assembly) (hl : live a)
    (hfit : commitFits parse a) :
    (∃ n message, message ≠ tooAmbiguous ∧
        commit parse a = (fail { a with eventCount := n }, [.failed message])) ∨
      (refusal parse a.calls = none ∧ usable a = true ∧
        commit parse a =
          ({ a with completed := true, eventCount := a.eventCount + commitNeeds parse a },
            readyEvents parse a.calls ++ [.event .completed])) := by
  unfold commitFits commitNeeds at hfit
  have hready : a.eventCount + (readyEvents parse a.calls).length ≤ maxStreamEvents := by omega
  have hcalls := commit_calls_fit parse a.calls a [] hready
  rw [commit, if_neg (by simp [hl.1, hl.2])]
  rw [hcalls]
  cases hrefusal : refusal parse a.calls with
  | some message => exact Or.inl ⟨_, message, refusal_message parse _ message hrefusal, rfl⟩
  | none =>
    simp only [List.nil_append]
    by_cases husable : usable a = true
    · refine Or.inr ⟨trivial, husable, ?_⟩
      have hkeep : usable { a with
          eventCount := a.eventCount + (readyEvents parse a.calls).length } = true := husable
      rw [if_pos hkeep]
      simp only [hrefusal, Option.isNone_none, husable, Bool.and_self, if_true] at hfit
      rw [emit_event_under _ _ (by simp only; omega)]
      simp only [commitNeeds, hrefusal, Option.isNone_none, husable, Bool.and_self, if_true,
        Nat.add_assoc]
    · have hkeep : ¬ usable { a with
          eventCount := a.eventCount + (readyEvents parse a.calls).length } = true := husable
      rw [if_neg hkeep]
      exact Or.inl ⟨_, _, ofString_ne (by simp), rfl⟩

theorem commit_over (parse : Text → Option Value) (a : Assembly) (hl : live a)
    (hc : a.eventCount ≤ maxStreamEvents) (hover : ¬ commitFits parse a) :
    (commit parse a).1.failed = true ∧ (commit parse a).2 = [] := by
  unfold commitFits commitNeeds at hover
  rw [commit, if_neg (by simp [hl.1, hl.2])]
  by_cases hready : a.eventCount + (readyEvents parse a.calls).length ≤ maxStreamEvents
  · rw [commit_calls_fit parse a.calls a [] hready]
    cases hrefusal : refusal parse a.calls with
    | some message =>
      simp only [hrefusal, Option.isNone_some, Bool.false_and, Bool.false_eq_true, if_false]
        at hover
      omega
    | none =>
      by_cases husable : usable a = true
      · have hkeep : usable { a with
            eventCount := a.eventCount + (readyEvents parse a.calls).length } = true := husable
        simp only [hrefusal, Option.isNone_none, husable, Bool.and_self, if_true] at hover
        simp only [hkeep, if_true]
        rw [emit_event_over _ _ (by simp only; omega)]
        exact ⟨rfl, rfl⟩
      · simp only [hrefusal, husable, Bool.and_false, Bool.false_eq_true, if_false] at hover
        omega
  · obtain ⟨n, hn⟩ := commit_calls_over parse a.calls a [] hc (by omega)
    rw [hn]
    exact ⟨rfl, rfl⟩

end Siralos.Sse
