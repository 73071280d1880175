import Siralos.RecorderRuns

/-!
# Saturation of the recorder

A refused body ends replay retention, unless the refusal itself, or a later call, turns a pending
place into evidence: the freed place reopens the recorder, and the recordings then have a gap.
-/

set_option autoImplicit false

namespace Siralos.Determinism.RetainingReplayRecorder

section Conditions

variable (sha256Hex : Text → Text)

/-- The recording of a well-formed replay body. -/
def wellFormed (call : RecorderCall) : Option ReplayRecording :=
  (call.offer.filter fun offer =>
    offer.1.validate.toBool && !requestDigestInvalid offer.2.2 &&
      bodyValid offer.1 sha256Hex offer.2.1).map fun offer => accepted offer.1 offer.2.1 offer.2.2

/-- The well-formed replay bodies of a run, in call order. -/
def wellFormedOffers (calls : List RecorderCall) : List ReplayRecording :=
  calls.filterMap (wellFormed sha256Hex)

def Refuses (recorder : RetainingReplayRecorder) (call : RecorderCall) : Prop :=
  (wellFormed sha256Hex call).isSome = true ∧ (step sha256Hex recorder call).2 = false

/-- A call of the run refused a well-formed replay body. -/
def HasRefused (calls : List RecorderCall) : Prop :=
  ∃ before call after, calls = before ++ call :: after ∧
    Refuses sha256Hex (run sha256Hex new before) call

/-- At every point of the run: a refusal ends recording for good, and nothing is skipped. -/
structure Sticky (calls : List RecorderCall) : Prop where
  closed : ∀ done, done <+: calls → HasRefused sha256Hex done →
    (run sha256Hex new done).isRecording = false
  nothing : ∀ done call, done ++ [call] <+: calls → HasRefused sha256Hex done →
    retainedBy sha256Hex (run sha256Hex new done) call = []
  gapFree : ∀ done, done <+: calls →
    (run sha256Hex new done).replayableRecordsSnapshot <+: wellFormedOffers sha256Hex done

/-- A well-formed replay body that the saturated flag, the byte budget or the count stops. -/
def OverBudget (recorder : RetainingReplayRecorder) (call : RecorderCall) : Prop :=
  ∃ offer, call.offer = some offer ∧ (wellFormed sha256Hex call).isSome = true ∧
    (recorder.saturated = true ∨
      maxRetainedReplayTotalBytes < recorder.totalBodyBytes + Text.utf8Len offer.2.1 ∨
      (recorder.lastAwaits offer.1 = false ∧
        maxRetainedReplayRecordings ≤ recorder.replayRecordCount))

def HasOverrun (calls : List RecorderCall) : Prop :=
  ∃ before call after, calls = before ++ call :: after ∧
    OverBudget sha256Hex (run sha256Hex new before) call

/-- Recording the identity as evidence gives up a pending place, with bytes to spare. -/
def Frees (recorder : RetainingReplayRecorder) (identity : ProviderResponseIdentity) : Prop :=
  identity.validate = .ok () ∧ recorder.identityEvidenceIndices identity = [] ∧
    recorder.identityPlaceholderIndices identity ≠ [] ∧
    recorder.totalBodyBytes < maxRetainedReplayTotalBytes

/-- On a saturated recorder, or on the refusing call, the call frees a pending place. -/
def Reopens (recorder : RetainingReplayRecorder) : RecorderCall → Prop
  | .recordProviderResponse identity => Frees recorder identity
  | .recordProviderResponseWithBody identity _ => Frees recorder identity
  | .tryRecordProviderResponseWithBody identity _ => Frees recorder identity
  | .tryRecordProviderResponseWithBodyAndRequest identity _ requestSha256 =>
    requestDigestInvalid (some requestSha256) = false ∧ Frees recorder identity
  | .tryRecordProviderResponseWithBodyAsEvidence identity body =>
    (bodyValid identity sha256Hex body = false ∨
      (recorder.evidenceRecordCount < maxRetainedEvidenceRecords ∧
        maxRetainedEvidenceTotalBytes < recorder.evidenceTotalBodyBytes + Text.utf8Len body)) ∧
      Frees recorder identity

/-- From the first body that the budget stops, no call frees a pending place. -/
def StaysClosed (calls : List RecorderCall) : Prop :=
  ∀ done call, done ++ [call] <+: calls → HasOverrun sha256Hex (done ++ [call]) →
    ¬ Reopens sha256Hex (run sha256Hex new done) call

end Conditions

section Steps

variable (sha256Hex : Text → Text) (identity : ProviderResponseIdentity)
  {recorder : RetainingReplayRecorder}

theorem refresh_saturated (recorder : RetainingReplayRecorder)
    (hcount : recorder.replayRecordCount < maxRetainedReplayRecordings) :
    recorder.refreshSaturation.saturated = true ↔
      recorder.saturated = true ∧ ¬ recorder.totalBodyBytes < maxRetainedReplayTotalBytes := by
  unfold refreshSaturation
  by_cases hbytes : recorder.totalBodyBytes < maxRetainedReplayTotalBytes
  · rw [if_pos ⟨hcount, hbytes⟩]
    exact iff_of_false nofun fun h => h.2 hbytes
  · rw [if_neg fun h => hbytes h.2]
    exact ⟨fun h => ⟨h, hbytes⟩, fun h => h.1⟩

theorem freed_below (ha : recorder.Accounted)
    (h : recorder.identityPlaceholderIndices identity ≠ []) :
    recorder.replayRecordCount - (recorder.identityPlaceholderIndices identity).length <
      maxRetainedReplayRecordings := by
  have hlength := List.length_pos_iff.mpr h
  have hroom := ha.replayRoom
  have hmax : 0 < maxRetainedReplayRecordings := by decide
  omega

theorem evidence_saturated (ha : recorder.Accounted) :
    (recorder.recordEvidenceIdentityOnly identity).1.saturated = true ↔
      recorder.saturated = true ∧ ¬ Frees recorder identity := by
  unfold recordEvidenceIdentityOnly
  split
  · rename_i herror
    exact ⟨fun h => ⟨h, fun hf => absurd (herror.symm.trans hf.1) nofun⟩, fun h => h.1⟩
  · rename_i hvalid
    dsimp only
    by_cases hfailed : recorder.identityEvidenceIndices identity = []
    · rw [if_neg (by simp [hfailed])]
      by_cases hpending : recorder.identityPlaceholderIndices identity = []
      · rw [if_neg (by simp [hpending])]
        split_ifs with hfull
        · exact ⟨fun h => ⟨h, fun hf => hf.2.2.1 hpending⟩, fun h => h.1⟩
        · exact ⟨fun h => ⟨h, fun hf => hf.2.2.1 hpending⟩, fun h => h.1⟩
      · have hbelow := freed_below identity ha hpending
        have hfrees : recorder.saturated = true ∧
            ¬ recorder.totalBodyBytes < maxRetainedReplayTotalBytes ↔
            recorder.saturated = true ∧ ¬ Frees recorder identity :=
          ⟨fun h => ⟨h.1, fun hf => h.2 hf.2.2.2⟩,
            fun h => ⟨h.1, fun hb => h.2 ⟨hvalid, hfailed, hpending, hb⟩⟩⟩
        rw [if_pos (by simpa using hpending), ← hfrees]
        split_ifs with hroom
        · exact refresh_saturated _ hbelow
        · unfold discardIdentityPlaceholders
          dsimp only
          rw [if_neg (by simpa using hpending)]
          exact refresh_saturated _ hbelow
    · rw [if_pos (by simpa using hfailed)]
      exact ⟨fun h => ⟨h, fun hf => hfailed hf.2.1⟩, fun h => h.1⟩

theorem saturated_evidence (ha : recorder.Accounted) (hs : recorder.saturated = true) :
    (recorder.recordEvidenceIdentityOnly identity).1.saturated = true ↔
      ¬ Frees recorder identity := by
  rw [evidence_saturated identity ha]
  exact ⟨fun h => h.2, fun h => ⟨hs, h⟩⟩

theorem saturate_evidence (ha : recorder.Accounted) :
    (recorder.saturate.recordEvidenceIdentityOnly identity).1.saturated = true ↔
      ¬ Frees recorder identity :=
  @saturated_evidence identity recorder.saturate (flagged_accounted true ha) rfl

theorem frees_valid (h : identity.validate.toBool = false) : ¬ Frees recorder identity := by
  intro hf
  rw [(validate_to_bool identity).mpr hf.1] at h
  cases h

theorem retain_saturated (ha : recorder.Accounted) (body : Text) (requestSha256 : Option Text)
    (hs : recorder.saturated = true) :
    (recorder.retainBody identity sha256Hex body requestSha256).1.saturated = true ↔
      ¬ (requestDigestInvalid requestSha256 = false ∧ Frees recorder identity) := by
  unfold retainBody
  by_cases hrequest : requestDigestInvalid requestSha256 = true
  · rw [if_pos (by simp [hrequest])]
    exact iff_of_true hs fun h => by simp [hrequest] at h
  · have hrequest' : requestDigestInvalid requestSha256 = false := by simpa using hrequest
    have hfrees : ¬ (requestDigestInvalid requestSha256 = false ∧ Frees recorder identity) ↔
        ¬ Frees recorder identity := by simp [hrequest']
    rw [hfrees]
    by_cases hvalid : identity.validate.toBool = true
    · rw [if_neg (by simp [hvalid, hrequest'])]
      by_cases hbody : bodyValid identity sha256Hex body = true
      · rw [if_neg (by simp [hbody]), if_pos hs]
        exact saturated_evidence identity ha hs
      · rw [if_pos (by simpa using hbody)]
        exact saturated_evidence identity ha hs
    · rw [if_pos (by simp [hvalid])]
      exact iff_of_true hs (frees_valid identity (by simpa using hvalid))

theorem retain_evidence_saturated (ha : recorder.Accounted) (body : Text)
    (hs : recorder.saturated = true) :
    (recorder.retainEvidenceBody identity sha256Hex body none).1.saturated = true ↔
      ¬ ((bodyValid identity sha256Hex body = false ∨
        (recorder.evidenceRecordCount < maxRetainedEvidenceRecords ∧
          maxRetainedEvidenceTotalBytes < recorder.evidenceTotalBodyBytes + Text.utf8Len body)) ∧
        Frees recorder identity) := by
  unfold retainEvidenceBody
  by_cases hvalid : identity.validate.toBool = true
  · rw [if_neg (by simp [hvalid, requestDigestInvalid])]
    by_cases hbody : bodyValid identity sha256Hex body = true
    · rw [if_neg (by simp [hbody])]
      split_ifs with hfull hbytes
      · exact iff_of_true hs fun h => by simp [hbody] at h; omega
      · rw [saturated_evidence identity ha hs]
        exact not_congr ⟨fun h => ⟨Or.inr ⟨by omega, hbytes⟩, h⟩, fun h => h.2⟩
      · exact iff_of_true hs fun h => by simp [hbody] at h; omega
    · rw [if_pos (by simpa using hbody), saturated_evidence identity ha hs]
      exact not_congr ⟨fun h => ⟨Or.inl (by simpa using hbody), h⟩, fun h => h.2⟩
  · rw [if_pos (by simp [hvalid])]
    exact iff_of_true hs fun h => frees_valid identity (by simpa using hvalid) h.2

theorem reopens_offer {call : RecorderCall}
    {offer : ProviderResponseIdentity × Text × Option Text} (h : call.offer = some offer) :
    Reopens sha256Hex recorder call ↔
      requestDigestInvalid offer.2.2 = false ∧ Frees recorder offer.1 := by
  cases call with
  | recordProviderResponse identity => cases h
  | tryRecordProviderResponseWithBodyAsEvidence identity body => cases h
  | recordProviderResponseWithBody identity body =>
    cases h
    exact ⟨fun hf => ⟨rfl, hf⟩, fun hf => hf.2⟩
  | tryRecordProviderResponseWithBody identity body =>
    cases h
    exact ⟨fun hf => ⟨rfl, hf⟩, fun hf => hf.2⟩
  | tryRecordProviderResponseWithBodyAndRequest identity body requestSha256 =>
    cases h
    exact Iff.rfl

theorem identity_saturated (ha : recorder.Accounted) (hs : recorder.saturated = true) :
    (recorder.recordIdentityOnly identity).1.saturated = true ↔ ¬ Frees recorder identity := by
  unfold recordIdentityOnly
  split
  · rename_i herror
    exact iff_of_true hs fun hf => absurd (herror.symm.trans hf.1) nofun
  · rw [if_pos hs]
    exact saturated_evidence identity ha hs

theorem step_saturated (ha : recorder.Accounted) (call : RecorderCall)
    (hs : recorder.saturated = true) :
    (step sha256Hex recorder call).1.saturated = true ↔ ¬ Reopens sha256Hex recorder call := by
  cases hoffer : call.offer with
  | some offer =>
    rw [step_offer sha256Hex hoffer, reopens_offer sha256Hex hoffer]
    exact retain_saturated sha256Hex offer.1 ha offer.2.1 offer.2.2 hs
  | none =>
    cases call with
    | recordProviderResponse identity => exact identity_saturated identity ha hs
    | tryRecordProviderResponseWithBodyAsEvidence identity body =>
      exact retain_evidence_saturated sha256Hex identity ha body hs
    | recordProviderResponseWithBody identity body => cases hoffer
    | tryRecordProviderResponseWithBody identity body => cases hoffer
    | tryRecordProviderResponseWithBodyAndRequest identity body requestSha256 => cases hoffer

theorem well_formed_some {call : RecorderCall}
    {offer : ProviderResponseIdentity × Text × Option Text} (h : call.offer = some offer) :
    (wellFormed sha256Hex call).isSome = true ↔
      offer.1.validate.toBool = true ∧ requestDigestInvalid offer.2.2 = false ∧
        bodyValid offer.1 sha256Hex offer.2.1 = true := by
  simp [wellFormed, h, and_assoc]

theorem well_formed_none {call : RecorderCall} (h : call.offer = none) :
    wellFormed sha256Hex call = none := by
  rw [wellFormed, h]
  rfl

theorem well_formed_offered {call : RecorderCall}
    (h : (wellFormed sha256Hex call).isSome = true) :
    wellFormed sha256Hex call = offered call := by
  cases hoffer : call.offer with
  | none => simp [well_formed_none sha256Hex hoffer] at h
  | some offer =>
    have hpassed := (well_formed_some sha256Hex hoffer).mp h
    rw [wellFormed, offered, hoffer, Option.filter_some, if_pos (by simp [hpassed])]

theorem retain_well_formed (body : Text) (requestSha256 : Option Text)
    (hvalid : identity.validate.toBool = true)
    (hrequest : requestDigestInvalid requestSha256 = false)
    (hbody : bodyValid identity sha256Hex body = true) :
    recorder.retainBody identity sha256Hex body requestSha256 =
      if recorder.saturated then ((recorder.recordEvidenceIdentityOnly identity).1, false)
      else if maxRetainedReplayTotalBytes < recorder.totalBodyBytes + Text.utf8Len body then
        ((recorder.saturate.recordEvidenceIdentityOnly identity).1, false)
      else if recorder.lastAwaits identity then
        (recorder.fillLast identity body (requestSha256.map Text.toAsciiLowercase), true)
      else if maxRetainedReplayRecordings ≤ recorder.replayRecordCount then
        ((recorder.saturate.recordEvidenceIdentityOnly identity).1, false)
      else
        ({ recorder.push ⟨identity, body, requestSha256.map Text.toAsciiLowercase⟩ false with
            replayRecordCount := recorder.replayRecordCount + 1
            totalBodyBytes := recorder.totalBodyBytes + Text.utf8Len body }, true) := by
  rw [retainBody, if_neg (by simp [hvalid, hrequest]), if_neg (by simp [hbody])]

theorem refuses_iff (call : RecorderCall) :
    Refuses sha256Hex recorder call ↔ OverBudget sha256Hex recorder call := by
  cases hoffer : call.offer with
  | none =>
    have hnone := well_formed_none sha256Hex hoffer
    refine iff_of_false (fun h => ?_) (fun h => ?_)
    · have hwell := h.1
      rw [hnone] at hwell
      cases hwell
    · obtain ⟨offer, hsome, -⟩ := h
      rw [hoffer] at hsome
      cases hsome
  | some offer =>
    rw [Refuses, OverBudget, step_offer sha256Hex hoffer, hoffer]
    simp only [Option.some.injEq, exists_eq_left']
    apply and_congr_right
    intro hwell
    obtain ⟨hvalid, hrequest, hbody⟩ := (well_formed_some sha256Hex hoffer).mp hwell
    rw [retain_well_formed sha256Hex offer.1 offer.2.1 offer.2.2 hvalid hrequest hbody]
    split_ifs with hsaturated hbytes hlast hfull
    · exact iff_of_true rfl (Or.inl hsaturated)
    · exact iff_of_true rfl (Or.inr (Or.inl hbytes))
    · exact iff_of_false nofun (by simp [hsaturated, hbytes, hlast])
    · exact iff_of_true rfl (Or.inr (Or.inr ⟨by simpa using hlast, hfull⟩))
    · exact iff_of_false nofun (by simp [hsaturated, hbytes, hfull])

theorem overrun_saturated (ha : recorder.Accounted) (call : RecorderCall)
    (h : OverBudget sha256Hex recorder call) :
    (step sha256Hex recorder call).1.saturated = true ↔ ¬ Reopens sha256Hex recorder call := by
  by_cases hs : recorder.saturated = true
  · exact step_saturated sha256Hex ha call hs
  · obtain ⟨offer, hoffer, hwell, hover⟩ := h
    obtain ⟨hvalid, hrequest, hbody⟩ := (well_formed_some sha256Hex hoffer).mp hwell
    have hreopens : ¬ Reopens sha256Hex recorder call ↔ ¬ Frees recorder offer.1 := by
      rw [reopens_offer sha256Hex hoffer]
      exact not_congr ⟨fun h => h.2, fun h => ⟨hrequest, h⟩⟩
    rw [step_offer sha256Hex hoffer, hreopens,
      retain_well_formed sha256Hex offer.1 offer.2.1 offer.2.2 hvalid hrequest hbody, if_neg hs]
    rcases hover with hover | hover | ⟨hlast, hfull⟩
    · exact absurd hover hs
    · rw [if_pos hover]
      exact saturate_evidence offer.1 ha
    · split_ifs with hbytes hawaits
      · exact saturate_evidence offer.1 ha
      · rw [hlast] at hawaits
        cases hawaits
      · exact saturate_evidence offer.1 ha

theorem saturated_refuses (hs : recorder.saturated = true) (call : RecorderCall)
    (hwell : (wellFormed sha256Hex call).isSome = true) : Refuses sha256Hex recorder call := by
  rw [refuses_iff]
  cases hoffer : call.offer with
  | none =>
    rw [well_formed_none sha256Hex hoffer] at hwell
    cases hwell
  | some offer => exact ⟨offer, hoffer, hwell, Or.inl hs⟩

theorem refused_retains (call : RecorderCall) (h : Refuses sha256Hex recorder call) :
    retainedBy sha256Hex recorder call = [] := by
  rw [retainedBy, h.2]
  rfl

theorem malformed_retains (call : RecorderCall) (h : wellFormed sha256Hex call = none) :
    retainedBy sha256Hex recorder call = [] := by
  cases hoffer : call.offer with
  | none =>
    rw [retainedBy, offered, hoffer]
    exact ite_self _
  | some offer =>
    have hmalformed := mt (well_formed_some sha256Hex hoffer).mpr (by
      rw [h]
      exact Bool.false_ne_true)
    have hrefused : (step sha256Hex recorder call).2 = false := by
      rw [step_offer sha256Hex hoffer, retainBody]
      by_cases hform : (!offer.1.validate.toBool || requestDigestInvalid offer.2.2) = true
      · rw [if_pos hform]
      · rw [if_neg hform, if_pos]
        simp only [Bool.or_eq_true, Bool.not_eq_true', not_or, Bool.not_eq_false,
          Bool.not_eq_true] at hform
        by_contra hbody
        exact hmalformed ⟨hform.1, hform.2, by simpa using hbody⟩
    rw [retainedBy, hrefused]
    rfl

theorem accepted_retains (call : RecorderCall) (h : ¬ Refuses sha256Hex recorder call) :
    retainedBy sha256Hex recorder call = (wellFormed sha256Hex call).toList := by
  cases hwell : wellFormed sha256Hex call with
  | none => exact malformed_retains sha256Hex call hwell
  | some recording =>
    have hsome : (wellFormed sha256Hex call).isSome = true := by
      rw [hwell]
      rfl
    have hstep : (step sha256Hex recorder call).2 = true := by
      by_contra hfalse
      exact h ⟨hsome, by simpa using hfalse⟩
    rw [retainedBy, if_pos hstep, ← well_formed_offered sha256Hex hsome, hwell]

theorem saturated_retains (hs : recorder.saturated = true) (call : RecorderCall) :
    retainedBy sha256Hex recorder call = [] := by
  by_cases hwell : (wellFormed sha256Hex call).isSome = true
  · exact refused_retains sha256Hex call (saturated_refuses sha256Hex hs call hwell)
  · exact malformed_retains sha256Hex call (by simpa using hwell)

end Steps

section Runs

variable (sha256Hex : Text → Text)

theorem has_refused_iff (calls : List RecorderCall) :
    HasRefused sha256Hex calls ↔ HasOverrun sha256Hex calls := by
  simp only [HasRefused, HasOverrun, refuses_iff]

theorem refused_snoc (done : List RecorderCall) (call : RecorderCall) :
    HasRefused sha256Hex (done ++ [call]) ↔
      HasRefused sha256Hex done ∨ Refuses sha256Hex (run sha256Hex new done) call := by
  constructor
  · rintro ⟨before, refused, after, hsplit, hrefuses⟩
    rcases List.eq_nil_or_concat after with rfl | ⟨after, last, rfl⟩
    · obtain ⟨rfl, hcall⟩ := List.append_inj' hsplit rfl
      cases hcall
      exact Or.inr hrefuses
    · left
      refine ⟨before, refused, after, ?_, hrefuses⟩
      rw [List.concat_eq_append, ← List.cons_append, ← List.append_assoc] at hsplit
      exact (List.append_inj' hsplit rfl).1
  · rintro (⟨before, refused, after, rfl, hrefuses⟩ | hrefuses)
    · exact ⟨before, refused, after ++ [call], by simp, hrefuses⟩
    · exact ⟨done, call, [], rfl, hrefuses⟩

theorem not_refused_nil : ¬ HasRefused sha256Hex [] := by
  rintro ⟨before, refused, after, hsplit, -⟩
  simp at hsplit

theorem run_accounted (calls : List RecorderCall) : (run sha256Hex new calls).Accounted :=
  (run_retains sha256Hex new_accounted calls).1

theorem closed_saturated (calls : List RecorderCall) (h : StaysClosed sha256Hex calls)
    (done : List RecorderCall) : done <+: calls → HasRefused sha256Hex done →
      (run sha256Hex new done).saturated = true := by
  induction done using List.reverseRecOn with
  | nil => exact fun _ hrefused => absurd hrefused (not_refused_nil sha256Hex)
  | append_singleton done call ih =>
    intro hpart hrefused
    have hclosed := h done call hpart ((has_refused_iff sha256Hex _).mp hrefused)
    rw [run_snoc]
    rcases (refused_snoc sha256Hex done call).mp hrefused with hbefore | hnow
    · have hsaturated := ih ((List.prefix_append done [call]).trans hpart) hbefore
      exact (step_saturated sha256Hex (run_accounted sha256Hex done) call hsaturated).mpr hclosed
    · exact (overrun_saturated sha256Hex (run_accounted sha256Hex done) call
        ((refuses_iff sha256Hex call).mp hnow)).mpr hclosed

theorem snapshot_snoc (done : List RecorderCall) (call : RecorderCall) :
    (run sha256Hex new (done ++ [call])).replayableRecordsSnapshot =
      (run sha256Hex new done).replayableRecordsSnapshot ++
        retainedBy sha256Hex (run sha256Hex new done) call := by
  rw [run_snoc]
  exact (step_retains sha256Hex (run_accounted sha256Hex done) call).2

theorem offers_snoc (done : List RecorderCall) (call : RecorderCall) :
    wellFormedOffers sha256Hex (done ++ [call]) =
      wellFormedOffers sha256Hex done ++ (wellFormed sha256Hex call).toList := by
  rw [wellFormedOffers, List.filterMap_append, List.filterMap_cons, List.filterMap_nil]
  cases wellFormed sha256Hex call with
  | none => rfl
  | some recording => rfl

theorem closed_gap_free (calls : List RecorderCall) (h : StaysClosed sha256Hex calls)
    (done : List RecorderCall) : done <+: calls →
      (run sha256Hex new done).replayableRecordsSnapshot <+: wellFormedOffers sha256Hex done ∧
        (¬ HasRefused sha256Hex done →
          (run sha256Hex new done).replayableRecordsSnapshot =
            wellFormedOffers sha256Hex done) := by
  induction done using List.reverseRecOn with
  | nil => exact fun _ => ⟨List.prefix_refl _, fun _ => rfl⟩
  | append_singleton done call ih =>
    intro hpart
    have hdone := (List.prefix_append done [call]).trans hpart
    obtain ⟨hbefore, hequal⟩ := ih hdone
    rw [snapshot_snoc, offers_snoc, refused_snoc]
    by_cases hrefused : HasRefused sha256Hex done
    · have hsaturated := closed_saturated sha256Hex calls h done hdone hrefused
      rw [saturated_retains sha256Hex hsaturated call, List.append_nil]
      exact ⟨hbefore.trans (List.prefix_append _ _), fun hnot => absurd (Or.inl hrefused) hnot⟩
    · rw [hequal hrefused]
      by_cases hnow : Refuses sha256Hex (run sha256Hex new done) call
      · rw [refused_retains sha256Hex call hnow, List.append_nil]
        exact ⟨List.prefix_append _ _, fun hnot => absurd (Or.inr hnow) hnot⟩
      · rw [accepted_retains sha256Hex call hnow]
        exact ⟨List.prefix_refl _, fun _ => rfl⟩

theorem is_recording_false (recorder : RetainingReplayRecorder) :
    recorder.isRecording = false ↔ recorder.saturated = true := by
  rw [isRecording, Bool.not_eq_false']

/-- Saturation is sticky in a run exactly when no call frees a pending place from the first
refusal on. -/
theorem saturation_sticky_iff (calls : List RecorderCall) :
    Sticky sha256Hex calls ↔ StaysClosed sha256Hex calls := by
  constructor
  · intro h done call hpart hoverrun hreopens
    have hrefused := (has_refused_iff sha256Hex _).mpr hoverrun
    have hafter := (is_recording_false _).mp (h.closed _ hpart hrefused)
    rw [run_snoc] at hafter
    rcases (refused_snoc sha256Hex done call).mp hrefused with hbefore | hnow
    · have hsaturated := (is_recording_false _).mp
        (h.closed done ((List.prefix_append done [call]).trans hpart) hbefore)
      exact (step_saturated sha256Hex (run_accounted sha256Hex done) call hsaturated).mp hafter
        hreopens
    · exact (overrun_saturated sha256Hex (run_accounted sha256Hex done) call
        ((refuses_iff sha256Hex call).mp hnow)).mp hafter hreopens
  · intro h
    refine ⟨?_, ?_, ?_⟩
    · intro done hpart hrefused
      exact (is_recording_false _).mpr (closed_saturated sha256Hex calls h done hpart hrefused)
    · intro done call hpart hrefused
      have hdone := (List.prefix_append done [call]).trans hpart
      exact saturated_retains sha256Hex
        (closed_saturated sha256Hex calls h done hdone hrefused) call
    · intro done hpart
      exact (closed_gap_free sha256Hex calls h done hpart).1

end Runs

def sampleDigest : Text := "2d711642b726b04401627ca9fbac32f5c8530fb1903cc4db02258717921a4881".toList

/-- The response with body `x` to the model of the given name. -/
def sampleIdentity (model : Text) : ProviderResponseIdentity :=
  ⟨['p'], model, some 200, sampleDigest, 1, none, none, none, none⟩

def placeNames : List Text := (List.range 64).map fun n => 'm' :: Text.ofNat n

/-- Sixty-four observed identities, then the body of the first one. -/
def crowdedCalls : List RecorderCall :=
  placeNames.map fun name => .recordProviderResponse (sampleIdentity name)

def lateBody : RecorderCall :=
  .tryRecordProviderResponseWithBody (sampleIdentity ['m', '0']) ['x']

theorem crowded_run : Refuses (fun _ => sampleDigest)
      (run (fun _ => sampleDigest) new crowdedCalls) lateBody ∧
    (run (fun _ => sampleDigest) new (crowdedCalls ++ [lateBody])).isRecording = true := by
  show (_ ∧ _) ∧ _
  decide +kernel

/-- The body is refused because every place is taken, and its own pending place is freed. -/
theorem saturation_sticky_fails : ¬ ∀ (sha256Hex : Text → Text) (calls : List RecorderCall),
    Sticky sha256Hex calls := by
  intro h
  have hclosed := (h (fun _ => sampleDigest) (crowdedCalls ++ [lateBody])).closed
    (crowdedCalls ++ [lateBody]) (List.prefix_refl _) ⟨crowdedCalls, lateBody, [], rfl, crowded_run.1⟩
  rw [crowded_run.2] at hclosed
  cases hclosed

end Siralos.Determinism.RetainingReplayRecorder
