import Siralos.RecorderAccounts

/-!
# Runs of the recorder

A run is a sequence of calls on a fresh recorder. The replayable recordings are those of the body
calls that were accepted, in call order.
-/

set_option autoImplicit false

namespace Siralos.Determinism

inductive RecorderCall where
  | recordProviderResponse (identity : ProviderResponseIdentity)
  | recordProviderResponseWithBody (identity : ProviderResponseIdentity) (body : Text)
  | tryRecordProviderResponseWithBody (identity : ProviderResponseIdentity) (body : Text)
  | tryRecordProviderResponseWithBodyAndRequest (identity : ProviderResponseIdentity) (body : Text)
    (requestSha256 : Text)
  | tryRecordProviderResponseWithBodyAsEvidence (identity : ProviderResponseIdentity) (body : Text)
  deriving DecidableEq, Repr

/-- The body that a call offers for replay; evidence calls and identity calls offer none. -/
def RecorderCall.offer :
    RecorderCall → Option (ProviderResponseIdentity × Text × Option Text)
  | .recordProviderResponse _ => none
  | .recordProviderResponseWithBody identity body => some (identity, body, none)
  | .tryRecordProviderResponseWithBody identity body => some (identity, body, none)
  | .tryRecordProviderResponseWithBodyAndRequest identity body requestSha256 =>
    some (identity, body, some requestSha256)
  | .tryRecordProviderResponseWithBodyAsEvidence _ _ => none

namespace RetainingReplayRecorder

/-- The recording of an offer: identity, body and the lower-cased request digest. -/
def offered (call : RecorderCall) : Option ReplayRecording :=
  call.offer.map fun offer => accepted offer.1 offer.2.1 offer.2.2

section Steps

variable (sha256Hex : Text → Text)

/-- The methods without a result report what the checked call beneath them does. -/
def step (recorder : RetainingReplayRecorder) : RecorderCall → RetainingReplayRecorder × Bool
  | .recordProviderResponse identity => (recorder.recordProviderResponse identity, false)
  | .recordProviderResponseWithBody identity body =>
    (recorder.recordProviderResponseWithBody identity sha256Hex body,
      (recorder.tryRecordProviderResponseWithBody identity sha256Hex body).2)
  | .tryRecordProviderResponseWithBody identity body =>
    recorder.tryRecordProviderResponseWithBody identity sha256Hex body
  | .tryRecordProviderResponseWithBodyAndRequest identity body requestSha256 =>
    recorder.tryRecordProviderResponseWithBodyAndRequest identity sha256Hex body requestSha256
  | .tryRecordProviderResponseWithBodyAsEvidence identity body =>
    recorder.tryRecordProviderResponseWithBodyAsEvidence identity sha256Hex body

def run (recorder : RetainingReplayRecorder) : List RecorderCall → RetainingReplayRecorder
  | [] => recorder
  | call :: calls => run (step sha256Hex recorder call).1 calls

def retainedBy (recorder : RetainingReplayRecorder) (call : RecorderCall) :
    List ReplayRecording :=
  if (step sha256Hex recorder call).2 then (offered call).toList else []

/-- The offers of a run that were accepted, in call order. -/
def retained (recorder : RetainingReplayRecorder) : List RecorderCall → List ReplayRecording
  | [] => []
  | call :: calls =>
    retainedBy sha256Hex recorder call ++ retained (step sha256Hex recorder call).1 calls

/-- What a run from a fresh recorder leaves behind, and what its next call may not add. -/
structure RecorderSound (calls : List RecorderCall) : Prop where
  accounted : (run sha256Hex new calls).Accounted
  snapshot : (run sha256Hex new calls).replayableRecordsSnapshot = retained sha256Hex new calls
  valid : ∀ recording ∈ (run sha256Hex new calls).replayableRecordsSnapshot,
    recording.validate sha256Hex = .ok ()
  unoffered : ∀ call, offered call = none ∨ (step sha256Hex (run sha256Hex new calls) call).2 = false →
    (step sha256Hex (run sha256Hex new calls) call).1.replayableRecordsSnapshot =
      (run sha256Hex new calls).replayableRecordsSnapshot

end Steps

section Sound

variable (sha256Hex : Text → Text) {recorder : RetainingReplayRecorder}

theorem run_append (recorder : RetainingReplayRecorder) (calls more : List RecorderCall) :
    run sha256Hex recorder (calls ++ more) = run sha256Hex (run sha256Hex recorder calls) more := by
  induction calls generalizing recorder with
  | nil => rfl
  | cons call calls ih => exact ih _

theorem run_snoc (recorder : RetainingReplayRecorder) (calls : List RecorderCall)
    (call : RecorderCall) : run sha256Hex recorder (calls ++ [call]) =
      (step sha256Hex (run sha256Hex recorder calls) call).1 :=
  run_append sha256Hex recorder calls [call]

theorem new_accounted : new.Accounted :=
  ⟨rfl, rfl, rfl, rfl, rfl, Nat.zero_le _, Nat.zero_le _, Nat.zero_le _, Nat.zero_le _⟩

theorem step_offer {call : RecorderCall} {offer : ProviderResponseIdentity × Text × Option Text}
    (h : call.offer = some offer) :
    step sha256Hex recorder call = recorder.retainBody offer.1 sha256Hex offer.2.1 offer.2.2 := by
  cases call with
  | recordProviderResponse identity => cases h
  | tryRecordProviderResponseWithBodyAsEvidence identity body => cases h
  | recordProviderResponseWithBody identity body => cases h; rfl
  | tryRecordProviderResponseWithBody identity body => cases h; rfl
  | tryRecordProviderResponseWithBodyAndRequest identity body requestSha256 => cases h; rfl

theorem step_unoffered {call : RecorderCall} (ha : recorder.Accounted) (h : call.offer = none) :
    Keeps recorder (step sha256Hex recorder call).1 := by
  cases call with
  | recordProviderResponse identity => exact identity_keeps identity ha
  | tryRecordProviderResponseWithBodyAsEvidence identity body =>
    exact retain_evidence_keeps identity sha256Hex body none ha
  | recordProviderResponseWithBody identity body => cases h
  | tryRecordProviderResponseWithBody identity body => cases h
  | tryRecordProviderResponseWithBodyAndRequest identity body requestSha256 => cases h

theorem step_retains (ha : recorder.Accounted) (call : RecorderCall) :
    (step sha256Hex recorder call).1.Accounted ∧
      (step sha256Hex recorder call).1.replayableRecordsSnapshot =
        recorder.replayableRecordsSnapshot ++ retainedBy sha256Hex recorder call := by
  cases hoffer : call.offer with
  | none =>
    have hk := step_unoffered sha256Hex ha hoffer
    have hnone : retainedBy sha256Hex recorder call = [] := by
      rw [retainedBy, offered, hoffer]
      exact ite_self _
    rw [hnone, List.append_nil]
    exact ⟨hk.accounted, hk.replayable⟩
  | some offer =>
    rw [retainedBy, step_offer sha256Hex hoffer, offered, hoffer]
    exact retain_body_retains offer.1 sha256Hex offer.2.1 offer.2.2 ha

theorem run_retains (ha : recorder.Accounted) (calls : List RecorderCall) :
    (run sha256Hex recorder calls).Accounted ∧
      (run sha256Hex recorder calls).replayableRecordsSnapshot =
        recorder.replayableRecordsSnapshot ++ retained sha256Hex recorder calls := by
  induction calls generalizing recorder with
  | nil => exact ⟨ha, (List.append_nil _).symm⟩
  | cons call calls ih =>
    obtain ⟨hstep, hsnapshot⟩ := step_retains sha256Hex ha call
    obtain ⟨hrun, hrest⟩ := ih hstep
    rw [retained, ← List.append_assoc, ← hsnapshot]
    exact ⟨hrun, hrest⟩

theorem retained_by_valid (call : RecorderCall) :
    ∀ recording ∈ retainedBy sha256Hex recorder call, recording.validate sha256Hex = .ok () := by
  intro recording hmem
  unfold retainedBy at hmem
  split at hmem
  · rename_i hstep
    cases hoffer : call.offer with
    | none => simp [offered, hoffer] at hmem
    | some offer =>
      rw [step_offer sha256Hex hoffer] at hstep
      have heq : recording = accepted offer.1 offer.2.1 offer.2.2 := by
        simpa [offered, hoffer] using hmem
      rw [heq]
      exact retained_valid offer.1 sha256Hex offer.2.1 offer.2.2 hstep
  · cases hmem

theorem retained_all_valid (calls : List RecorderCall) :
    ∀ recording ∈ retained sha256Hex recorder calls, recording.validate sha256Hex = .ok () := by
  induction calls generalizing recorder with
  | nil =>
    intro recording hmem
    cases hmem
  | cons call calls ih =>
    intro recording hmem
    rcases List.mem_append.mp hmem with hmem | hmem
    · exact retained_by_valid sha256Hex call recording hmem
    · exact ih recording hmem

theorem run_snapshot (calls : List RecorderCall) :
    (run sha256Hex new calls).replayableRecordsSnapshot = retained sha256Hex new calls :=
  (run_retains sha256Hex new_accounted calls).2

/-- Every run keeps its accounts and replays exactly what it accepted. -/
theorem recorder_sound (calls : List RecorderCall) : RecorderSound sha256Hex calls := by
  have haccounted := (run_retains sha256Hex new_accounted calls).1
  refine ⟨haccounted, run_snapshot sha256Hex calls, ?_, ?_⟩
  · intro recording hmem
    rw [run_snapshot] at hmem
    exact retained_all_valid sha256Hex calls recording hmem
  · intro call h
    have hnone : retainedBy sha256Hex (run sha256Hex new calls) call = [] := by
      rcases h with h | h
      · rw [retainedBy, h]
        exact ite_self _
      · rw [retainedBy, h]
        rfl
    rw [(step_retains sha256Hex haccounted call).2, hnone, List.append_nil]

end Sound

end RetainingReplayRecorder

end Siralos.Determinism
