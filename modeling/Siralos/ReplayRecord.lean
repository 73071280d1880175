import Siralos.ReplayEvents
import Siralos.SseRecord

/-!
# The recording of a completed stream

The assembled body is written, read back and played. The reader may change the last bits
of a float, and only usage metadata can hold one.
-/

set_option autoImplicit false

namespace Siralos.Replay
open Text Json Provider Emission Sse

mutual

/-- Equal values, but for the bits of their floats. -/
inductive Alike : Value → Value → Prop
  | null : Alike .null .null
  | bool (b : Bool) : Alike (.bool b) (.bool b)
  | number (n : Number) : Alike (.number n) (.number n)
  | float (x y : UInt64) : Alike (.number (.float x)) (.number (.float y))
  | string (s : Text) : Alike (.string s) (.string s)
  | array (xs ys : List Value) (h : AlikeValues xs ys) : Alike (.array xs) (.array ys)
  | object (fs gs : List (Text × Value)) (h : AlikeFields fs gs) : Alike (.object fs) (.object gs)

inductive AlikeValues : List Value → List Value → Prop
  | nil : AlikeValues [] []
  | cons (x y : Value) (xs ys : List Value) (h : Alike x y) (hs : AlikeValues xs ys) :
    AlikeValues (x :: xs) (y :: ys)

inductive AlikeFields : List (Text × Value) → List (Text × Value) → Prop
  | nil : AlikeFields [] []
  | cons (key : Text) (x y : Value) (fs gs : List (Text × Value)) (h : Alike x y)
      (hs : AlikeFields fs gs) : AlikeFields ((key, x) :: fs) ((key, y) :: gs)

end

mutual

theorem alike_refl : ∀ value : Value, Alike value value
  | .null => .null
  | .bool b => .bool b
  | .number n => .number n
  | .string s => .string s
  | .array values => .array values values (alike_values_refl values)
  | .object fields => .object fields fields (alike_fields_refl fields)

theorem alike_values_refl : ∀ values : List Value, AlikeValues values values
  | [] => .nil
  | value :: values => .cons value value values values (alike_refl value) (alike_values_refl values)

theorem alike_fields_refl : ∀ fields : List (Text × Value), AlikeFields fields fields
  | [] => .nil
  | (key, value) :: fields =>
    .cons key value value fields fields (alike_refl value) (alike_fields_refl fields)

end

/-- What is written is read back, up to the last bits of floats. -/
def RoundTrips (serde : SerdeJson) (value : Value) : Prop :=
  ∃ again, serde.fromStr (serde.toStr value) = some again ∧ Alike value again

mutual

def floatFree : Value → Bool
  | .number (.float _) => false
  | .array values => floatFreeValues values
  | .object fields => floatFreeFields fields
  | _ => true

def floatFreeValues : List Value → Bool
  | [] => true
  | value :: values => floatFree value && floatFreeValues values

def floatFreeFields : List (Text × Value) → Bool
  | [] => true
  | (_, value) :: fields => floatFree value && floatFreeFields fields

end

mutual

theorem alike_float_free {x y : Value} (h : Alike x y) (hx : floatFree x = true) : y = x := by
  cases h with
  | float x y => exact absurd hx (by simp [floatFree])
  | array xs ys h => rw [alike_values_float_free h (by simpa [floatFree] using hx)]
  | object fs gs h => rw [alike_fields_float_free h (by simpa [floatFree] using hx)]
  | _ => rfl

theorem alike_values_float_free {xs ys : List Value} (h : AlikeValues xs ys)
    (hx : floatFreeValues xs = true) : ys = xs := by
  cases h with
  | nil => rfl
  | cons x y xs ys h hs =>
    simp only [floatFreeValues, Bool.and_eq_true] at hx
    rw [alike_float_free h hx.1, alike_values_float_free hs hx.2]

theorem alike_fields_float_free {fs gs : List (Text × Value)} (h : AlikeFields fs gs)
    (hx : floatFreeFields fs = true) : gs = fs := by
  cases h with
  | nil => rfl
  | cons key x y fs gs h hs =>
    simp only [floatFreeFields, Bool.and_eq_true] at hx
    rw [alike_float_free h hx.1, alike_fields_float_free hs hx.2]

end

theorem alike_asStr {x y : Value} (h : Alike x y) : y.asStr = x.asStr := by
  cases h <;> rfl

theorem alike_isNull {x y : Value} (h : Alike x y) : y.isNull = x.isNull := by
  cases h <;> rfl

mutual

theorem alike_text_fields {x y : Value} (h : Alike x y) :
    replayTextFieldsValid y = replayTextFieldsValid x := by
  cases h with
  | array xs ys h => exact alike_text_values h
  | object fs gs h => exact alike_text_object h
  | _ => rfl

theorem alike_text_values {xs ys : List Value} (h : AlikeValues xs ys) :
    replayValuesValid ys = replayValuesValid xs := by
  cases h with
  | nil => rfl
  | cons x y xs ys h hs =>
    rw [replayValuesValid, replayValuesValid, alike_text_fields h, alike_text_values hs]

theorem alike_text_object {fs gs : List (Text × Value)} (h : AlikeFields fs gs) :
    replayFieldsValid gs = replayFieldsValid fs := by
  cases h with
  | nil => rfl
  | cons key x y fs gs h hs =>
    have hrest := alike_text_object hs
    have hvalue := alike_text_fields h
    have hstr := alike_asStr h
    have hnull := alike_isNull h
    rw [replayFieldsValid, replayFieldsValid, hrest, hstr, hnull, hvalue]

end

theorem recorded_calls_float_free (calls : List PartialCall) :
    floatFreeValues (calls.map callValue) = true := by
  induction calls with
  | nil => rfl
  | cons call calls ih => simpa [floatFreeValues, callValue, floatFree, floatFreeFields] using ih

theorem append_float_free (fs gs : List (Text × Value)) :
    floatFreeFields (fs ++ gs) = (floatFreeFields fs && floatFreeFields gs) := by
  induction fs with
  | nil => rfl
  | cons field fs ih => simp [floatFreeFields, ih, Bool.and_assoc]

theorem recorded_message_float_free (a : Assembly) : floatFree (recordedMessage a) = true := by
  have hcalls : floatFree (.array (recordedCalls a)) = true :=
    recorded_calls_float_free (a.calls.filter _)
  simp only [recordedMessage, floatFree, append_float_free, Bool.and_eq_true]
  refine ⟨⟨⟨?_, ?_⟩, rfl⟩, ?_⟩
  · split <;> rfl
  · split <;> rfl
  · split
    · rfl
    · simpa [floatFreeFields] using hcalls

/-- Reading the body back changes nothing but the usage metadata. -/
theorem alike_body (a : Assembly) (again : Value) (h : Alike (assembledBody a) again) :
    ∃ usage : Option Value, again = assembledBody { a with usage } ∧
      (usage.all replayTextFieldsValid = a.usage.all replayTextFieldsValid) := by
  have hmessage := recorded_message_float_free a
  cases husage : a.usage with
  | none =>
    refine ⟨none, ?_, rfl⟩
    rw [alike_float_free h]
    · rw [assembledBody, assembledBody, husage]
      rfl
    · rw [assembledBody, husage]
      simp only [floatFree, floatFreeFields, floatFreeValues, List.append_nil, hmessage,
        Bool.and_true]
      cases a.finishReason <;> rfl
  | some usage =>
    rw [assembledBody, husage] at h
    cases h with
    | object _ gs h =>
    cases h with
    | cons _ _ choices _ gs hchoices h =>
    cases h with
    | cons _ _ id _ gs hid h =>
    cases h with
    | cons _ _ model _ gs hmodel h =>
    cases h with
    | cons _ _ read _ gs hread h =>
    cases h with
    | nil =>
    refine ⟨some read, ?_, alike_text_fields hread⟩
    rw [alike_float_free hchoices, alike_float_free hid rfl, alike_float_free hmodel rfl]
    · rfl
    · simp only [floatFree, floatFreeFields, floatFreeValues, hmessage, Bool.and_true]
      cases a.finishReason <;> rfl

end Siralos.Replay
