import Siralos.PlanCompact
import Siralos.PlanSize

/-!
# Storing accepted plans

An accepted candidate says in every field it was read at exactly what its content says. The
document rebuilt from the content is therefore accepted again, as the same content.
-/

set_option autoImplicit false

namespace Siralos.PlanValidation

open Json Identity Contract TaskModel PlanContent

theorem non_empty_filter (value : Option Value) (ok : Text → Bool) (text : Text) :
    (nonEmptyString value).filter ok = some text ↔
      value = some (.string text) ∧ (Text.trim text).isEmpty = false ∧ ok text = true := by
  rw [Option.filter_eq_some_iff]
  constructor
  · rintro ⟨hsome, hok⟩
    unfold nonEmptyString at hsome
    split at hsome
    · split at hsome
      · cases hsome
      · rename_i hblank
        cases hsome
        exact ⟨rfl, by simpa using hblank, hok⟩
    · cases hsome
  · rintro ⟨rfl, hblank, hok⟩
    refine ⟨?_, hok⟩
    rw [nonEmptyString, hblank]
    rfl

theorem string_array_texts (value : Option Value) (texts : List Text) :
    stringArrayTexts value = some texts ↔ value = some (stringArray texts) := by
  have hmap : ∀ values : List Value, values.mapM Value.asStr = some texts ↔
      values = texts.map .string := by
    intro values
    induction values generalizing texts with
    | nil => cases texts <;> simp
    | cons value values ih =>
      cases value with
      | string text =>
        cases texts with
        | nil => simp [Value.asStr, Option.bind_eq_some_iff]
        | cons head tail =>
          simp only [List.mapM_cons, Value.asStr, Option.pure_def, Option.bind_eq_bind,
            Option.bind_some, Option.bind_eq_some_iff, Option.some.injEq, List.cons.injEq,
            List.map_cons, Value.string.injEq]
          constructor
          · rintro ⟨rest, hrest, rfl, rfl⟩
            exact ⟨rfl, (ih _).mp hrest⟩
          · rintro ⟨rfl, hrest⟩
            exact ⟨tail, (ih _).mpr hrest, rfl, rfl⟩
      | _ => cases texts <;> simp [Value.asStr]
  unfold stringArrayTexts stringArray
  split
  · rename_i values
    simp [hmap]
  · rename_i hnot
    constructor
    · intro h
      cases h
    · intro h
      exact absurd h (hnot _)

theorem bounded_texts (value : Option Value) (max : ℕ) (texts : List Text) :
    boundedTexts value max = some texts ↔
      value = some (stringArray texts) ∧ texts.length ≤ max := by
  unfold boundedTexts
  rw [Option.filter_eq_some_iff, string_array_texts]
  simp

theorem string_list_array (texts : List Text) : stringList (some (stringArray texts)) = texts := by
  unfold stringList stringArray
  dsimp only
  rw [List.filterMap_map]
  induction texts with
  | nil => rfl
  | cons text texts ih => simpa [Value.asStr] using ih

theorem required_text_ok (value : Option Value) (ok : Text → Bool) (reason : Text)
    (h : (requiredText value ok reason).reasons = []) :
    ∃ text, requiredText value ok reason = ⟨[], some text⟩ ∧ value = some (.string text) ∧
      ok text = true := by
  unfold requiredText at h ⊢
  cases htext : (nonEmptyString value).filter ok with
  | none =>
    rw [htext] at h
    cases h
  | some text =>
    obtain ⟨hvalue, -, hok⟩ := (non_empty_filter value ok text).mp htext
    exact ⟨text, rfl, hvalue, hok⟩

theorem optional_text_ok (value : Option Value) (ok : Text → Bool) (reason : Text)
    (h : (optionalText value ok reason).reasons = []) :
    value = (optionalText value ok reason).value.map .string := by
  cases value with
  | none => rfl
  | some present =>
    obtain ⟨text, htext, hvalue, -⟩ := required_text_ok (some present) ok reason h
    have hsame : optionalText (some present) ok reason = requiredText (some present) ok reason := rfl
    rw [hsame, htext]
    exact hvalue

/-- The checks of one kind of entry look at `keys` only, and a checked entry has there what its
value is rebuilt to. -/
structure Rebuilds {α : Type} (keys : List Text)
    (check : Text → List (Text × Value) → Checked (Option α))
    (toFields : α → List (Text × Value)) (idOf : α → Text) : Prop where
  identified : ("id" : Text) ∈ keys
  distinct : ∀ v, ((toFields v).map Prod.fst).Nodup
  covered : ∀ v, (toFields v).map Prod.fst ⊆ keys
  reads : ∀ id fields fields', (∀ key ∈ keys, fieldOf key fields' = fieldOf key fields) →
    check id fields' = check id fields
  kept : ∀ id fields, fieldOf "id" fields = some (.string id) → (check id fields).reasons = [] →
    ∃ v, (check id fields).value = some v ∧ idOf v = id ∧
      ∀ key ∈ keys, fieldOf key fields = fieldOf key (toFields v)

/-- An entry that says what a value is rebuilt to. -/
def Says {α : Type} (keys : List Text) (check : Text → List (Text × Value) → Checked (Option α))
    (toFields : α → List (Text × Value)) (idOf : α → Text) (entry : Value) (v : α) : Prop :=
  ∃ fields, entry = .object fields ∧ check (idOf v) fields = ⟨[], some v⟩ ∧
    ∀ key ∈ keys, fieldOf key fields = fieldOf key (toFields v)

section Entries

variable {α : Type} {keys : List Text} {check : Text → List (Text × Value) → Checked (Option α)}
  {toFields : α → List (Text × Value)} {idOf : α → Text}

theorem identified_ok (h : Rebuilds keys check toFields idOf) (kind : Text) (ids : List Text)
    (entry : Value) (hok : (identifiedEntry kind check ids entry).reasons = []) :
    ∃ v, identifiedEntry kind check ids entry = ⟨[], some (idOf v), some v⟩ ∧ idOf v ∉ ids ∧
      identifiedEntry kind check ids (.object (toFields v)) = ⟨[], some (idOf v), some v⟩ ∧
      Says keys check toFields idOf entry v := by
  cases entry with
  | object fields =>
    unfold identifiedEntry at hok ⊢
    dsimp only at hok ⊢
    cases hid : (nonEmptyString (fieldOf "id" fields)).filter isValidPlanElementId with
    | none =>
      rw [hid] at hok
      cases hok
    | some id =>
      rw [hid] at hok
      dsimp only at hok ⊢
      by_cases hseen : ids.contains id = true
      · rw [if_pos hseen] at hok
        cases hok
      · rw [if_neg hseen] at hok ⊢
        have hfield := ((non_empty_filter _ _ _).mp hid).1
        obtain ⟨v, hvalue, rfl, hsaid⟩ := h.kept id fields hfield hok
        have hchecked : check (idOf v) fields = ⟨[], some v⟩ := by
          rw [← hok, ← hvalue]
        have hrebuilt : check (idOf v) (toFields v) = ⟨[], some v⟩ :=
          (h.reads _ _ _ fun key hkey => (hsaid key hkey).symm).trans hchecked
        refine ⟨v, ?_, by simpa using hseen, ?_, fields, rfl, hchecked, hsaid⟩
        · rw [hchecked]
        · rw [← hsaid _ h.identified, hid]
          dsimp only
          rw [if_neg hseen, hrebuilt]
  | _ => cases hok

theorem collected_ok (h : Rebuilds keys check toFields idOf) (kind : Text) (entries : List Value)
    (ids : List Text) (hids : ids.Nodup)
    (hok : (collectEntries (identifiedEntry kind check) ids entries).reasons = []) :
    ∃ values, collectEntries (identifiedEntry kind check) ids entries =
        ⟨[], ids ++ values.map idOf, values⟩ ∧ (ids ++ values.map idOf).Nodup ∧
      collectEntries (identifiedEntry kind check) ids (values.map fun v => .object (toFields v)) =
        ⟨[], ids ++ values.map idOf, values⟩ ∧
      List.Forall₂ (Says keys check toFields idOf) entries values := by
  induction entries generalizing ids with
  | nil => exact ⟨[], by simp [collectEntries], by simpa using hids, by simp [collectEntries], .nil⟩
  | cons entry entries ih =>
    unfold collectEntries at hok
    dsimp only at hok
    rw [List.append_eq_nil_iff] at hok
    obtain ⟨v, hentry, hnew, hrebuilt, hsaid⟩ := identified_ok h kind ids entry hok.1
    rw [hentry] at hok
    have hids' : (ids ++ [idOf v]).Nodup := by
      rw [List.nodup_append]
      refine ⟨hids, List.nodup_singleton _, ?_⟩
      rintro a ha b hb rfl
      rw [List.mem_singleton] at hb
      exact hnew (hb ▸ ha)
    obtain ⟨values, hrest, hnodup, hagain, hall⟩ := ih (ids ++ [idOf v]) hids' hok.2
    rw [List.append_assoc] at hnodup
    refine ⟨v :: values, ?_, by simpa using hnodup, ?_, .cons hsaid hall⟩
    · rw [collectEntries, hentry]
      dsimp only [Option.toList_some]
      rw [hrest]
      simp
    · rw [List.map_cons, collectEntries, hrebuilt]
      dsimp only [Option.toList_some]
      rw [hagain]
      simp

theorem says_size (h : Rebuilds keys check toFields idOf) (jsNumber : Number → Text)
    (entry : Value) (v : α) (hsaid : Says keys check toFields idOf entry v) :
    sizeOf jsNumber (.object (toFields v)) ≤ sizeOf jsNumber entry := by
  obtain ⟨fields, rfl, -, hsame⟩ := hsaid
  apply object_size_le jsNumber fields (toFields v) (h.distinct v)
  intro key value hmem
  rw [hsame key (h.covered v (List.mem_map.mpr ⟨_, hmem, rfl⟩))]
  exact field_of_mem key (toFields v) value (h.distinct v) hmem

theorem objects_size (h : Rebuilds keys check toFields idOf) (jsNumber : Number → Text)
    (entries : List Value) (values : List α)
    (hsaid : List.Forall₂ (Says keys check toFields idOf) entries values) :
    sizeOf jsNumber (objectsOf toFields values) ≤ sizeOf jsNumber (.array entries) := by
  apply array_size_le
  rw [List.forall₂_map_right_iff]
  exact hsaid.imp fun entry v hentry => says_size h jsNumber entry v hentry

end Entries

theorem reason_if_nil (refused : Bool) (reason : Text) :
    reasonIf refused reason = [] ↔ refused = false := by
  cases refused <;> simp [reasonIf]

theorem parse_confidence_some (value : Option Value) (confidence : TouchpointConfidence)
    (h : parseConfidence value = some confidence) : value = some (.string confidence.asStr) := by
  unfold parseConfidence at h
  split at h
  · split at h
    · rename_i htext
      cases h
      rw [htext]
      rfl
    · split at h
      · rename_i htext
        cases h
        rw [htext]
        rfl
      · cases h
  · cases h

theorem parse_severity_some (value : Option Value) (severity : PlanRiskSeverity)
    (h : parseSeverity value = some severity) : value = some (.string severity.asStr) := by
  unfold parseSeverity at h
  split at h
  · split at h
    · rename_i htext
      cases h
      rw [htext]
      rfl
    · split at h
      · rename_i htext
        cases h
        rw [htext]
        rfl
      · split at h
        · rename_i htext
          cases h
          rw [htext]
          rfl
        · cases h
  · cases h

theorem touchpoint_revision_ok (id : Text) (confidence : TouchpointConfidence)
    (value : Option Value) (h : (touchpointRevision id confidence value).reasons = []) :
    value = (touchpointRevision id confidence value).value.map .string ∧
      (confidence = .verified → ∃ revision,
        (touchpointRevision id confidence value).value = some revision ∧
          isValidRevisionHandle revision = true) := by
  cases confidence with
  | candidate => exact ⟨optional_text_ok value _ _ h, fun hverified => by cases hverified⟩
  | verified =>
    unfold touchpointRevision at h ⊢
    dsimp only at h ⊢
    cases hrevision : (nonEmptyString value).filter isValidRevisionHandle with
    | none =>
      rw [hrevision] at h
      cases h
    | some revision =>
      obtain ⟨hvalue, -, hhandle⟩ := (non_empty_filter _ _ _).mp hrevision
      rw [hrevision] at h
      dsimp only at h ⊢
      by_cases hbounded : bounded PlanningLimits.maxRevisionBytes revision = true
      · rw [if_pos hbounded]
        exact ⟨hvalue, fun _ => ⟨revision, rfl, hhandle⟩⟩
      · rw [if_neg hbounded] at h
        cases h

def touchpointKeys : List Text := ["id", "path", "confidence", "revision", "evidence", "note"]

theorem touchpoint_fields (t : PlanTouchpoint) :
    fieldOf "id" t.candidateFields = some (.string t.id) ∧
      fieldOf "path" t.candidateFields = some (.string t.path) ∧
      fieldOf "confidence" t.candidateFields = some (.string t.confidence.asStr) ∧
      fieldOf "revision" t.candidateFields = t.revision.map .string ∧
      fieldOf "evidence" t.candidateFields = t.evidence.map .string ∧
      fieldOf "note" t.candidateFields = t.note.map .string := by
  obtain ⟨id, path, confidence, revision, evidence, note⟩ := t
  cases revision <;> cases evidence <;> cases note <;> exact ⟨rfl, rfl, rfl, rfl, rfl, rfl⟩

theorem touchpoint_agrees (t : PlanTouchpoint) (fields : List (Text × Value))
    (hid : fieldOf "id" fields = some (.string t.id))
    (hpath : fieldOf "path" fields = some (.string t.path))
    (hconfidence : fieldOf "confidence" fields = some (.string t.confidence.asStr))
    (hrevision : fieldOf "revision" fields = t.revision.map .string)
    (hevidence : fieldOf "evidence" fields = t.evidence.map .string)
    (hnote : fieldOf "note" fields = t.note.map .string) :
    ∀ key ∈ touchpointKeys, fieldOf key fields = fieldOf key t.candidateFields := by
  intro key hkey
  obtain ⟨f₁, f₂, f₃, f₄, f₅, f₆⟩ := touchpoint_fields t
  simp only [touchpointKeys, List.mem_cons, List.not_mem_nil, or_false] at hkey
  rcases hkey with rfl | rfl | rfl | rfl | rfl | rfl
  · exact hid.trans f₁.symm
  · exact hpath.trans f₂.symm
  · exact hconfidence.trans f₃.symm
  · exact hrevision.trans f₄.symm
  · exact hevidence.trans f₅.symm
  · exact hnote.trans f₆.symm

theorem touchpoint_keys_sub (t : PlanTouchpoint) :
    (t.candidateFields.map Prod.fst).Sublist touchpointKeys := by
  obtain ⟨id, path, confidence, revision, evidence, note⟩ := t
  cases revision <;> cases evidence <;> cases note <;>
    simp [PlanTouchpoint.candidateFields, member, optionalField, touchpointKeys]

theorem touchpoint_kept (id : Text) (fields : List (Text × Value))
    (hid : fieldOf "id" fields = some (.string id)) (h : (checkTouchpoint id fields).reasons = []) :
    ∃ t, (checkTouchpoint id fields).value = some t ∧ t.id = id ∧
      (t.confidence = .verified → ∃ revision, t.revision = some revision ∧
        isValidRevisionHandle revision = true) ∧
      ∀ key ∈ touchpointKeys, fieldOf key fields = fieldOf key t.candidateFields := by
  unfold checkTouchpoint at h ⊢
  cases hpath : (nonEmptyString (fieldOf "path" fields)).filter
      (bounded PlanningLimits.maxPathBytes) with
  | none =>
    rw [hpath] at h
    cases h
  | some path =>
    rw [hpath] at h
    dsimp only at h ⊢
    cases hconfidence : parseConfidence (fieldOf "confidence" fields) with
    | none =>
      rw [hconfidence] at h
      cases h
    | some confidence =>
      rw [hconfidence] at h
      dsimp only at h ⊢
      simp only [List.append_eq_nil_iff] at h
      obtain ⟨⟨⟨_, hrevision⟩, hevidence⟩, hnote⟩ := h
      obtain ⟨hrevisionField, hhandle⟩ := touchpoint_revision_ok _ _ _ hrevision
      refine ⟨_, rfl, rfl, hhandle, touchpoint_agrees _ fields hid ?_ ?_ hrevisionField ?_ ?_⟩
      · exact ((non_empty_filter _ _ _).mp hpath).1
      · exact parse_confidence_some _ _ hconfidence
      · exact optional_text_ok _ _ _ hevidence
      · exact optional_text_ok _ _ _ hnote

theorem touchpoint_rebuilds : Rebuilds touchpointKeys checkTouchpoint
    PlanTouchpoint.candidateFields PlanTouchpoint.id where
  identified := by simp [touchpointKeys]
  distinct v := (touchpoint_keys_sub v).nodup (by decide)
  covered v := (touchpoint_keys_sub v).subset
  reads id fields fields' h := by
    simp only [touchpointKeys, List.forall_mem_cons] at h
    obtain ⟨-, hpath, hconfidence, hrevision, hevidence, hnote, -⟩ := h
    unfold checkTouchpoint
    rw [hpath, hconfidence, hrevision, hevidence, hnote]
  kept id fields hid h := by
    obtain ⟨t, hvalue, hsame, -, hfields⟩ := touchpoint_kept id fields hid h
    exact ⟨t, hvalue, hsame, hfields⟩

section Screened

variable (toLowercase : Text → Text)

def constraintKeys : List Text := ["id", "description"]

theorem constraint_kept (id : Text) (fields : List (Text × Value))
    (hid : fieldOf "id" fields = some (.string id))
    (h : (checkConstraint toLowercase id fields).reasons = []) :
    ∃ c, (checkConstraint toLowercase id fields).value = some c ∧ c.id = id ∧
      rejectPlanPolicyClaims toLowercase c.description = none ∧
      ∀ key ∈ constraintKeys, fieldOf key fields = fieldOf key c.candidateFields := by
  unfold checkConstraint at h ⊢
  cases hdescription : (nonEmptyString (fieldOf "description" fields)).filter
      (bounded PlanningLimits.maxStatementBytes) with
  | none =>
    rw [hdescription] at h
    cases h
  | some description =>
    rw [hdescription] at h
    dsimp only at h ⊢
    cases hclaim : rejectPlanPolicyClaims toLowercase description with
    | some claim =>
      rw [hclaim] at h
      cases h
    | none =>
      refine ⟨⟨id, description⟩, rfl, rfl, hclaim, ?_⟩
      intro key hkey
      simp only [constraintKeys, List.mem_cons, List.not_mem_nil, or_false] at hkey
      rcases hkey with rfl | rfl
      · exact hid
      · exact ((non_empty_filter _ _ _).mp hdescription).1

theorem constraint_rebuilds : Rebuilds constraintKeys (checkConstraint toLowercase)
    PlanConstraint.candidateFields PlanConstraint.id where
  identified := by simp [constraintKeys]
  distinct v := (by decide : constraintKeys.Nodup)
  covered v := (List.Subset.refl constraintKeys)
  reads id fields fields' h := by
    simp only [constraintKeys, List.forall_mem_cons] at h
    unfold checkConstraint
    rw [h.2.1]
  kept id fields hid h := by
    obtain ⟨c, hvalue, hsame, -, hfields⟩ := constraint_kept toLowercase id fields hid h
    exact ⟨c, hvalue, hsame, hfields⟩

def riskKeys : List Text := ["id", "severity", "description"]

theorem risk_rebuilds : Rebuilds riskKeys checkRisk PlanRisk.candidateFields PlanRisk.id where
  identified := by simp [riskKeys]
  distinct v := (by decide : riskKeys.Nodup)
  covered v := (List.Subset.refl riskKeys)
  reads id fields fields' h := by
    simp only [riskKeys, List.forall_mem_cons] at h
    unfold checkRisk
    rw [h.2.1, h.2.2.1]
  kept id fields hid h := by
    unfold checkRisk at h ⊢
    dsimp only at h ⊢
    rw [List.append_eq_nil_iff, reason_if_nil] at h
    obtain ⟨hseverity, hdescription⟩ := h
    obtain ⟨text, htext, hfield, -⟩ := required_text_ok _ _ _ hdescription
    cases hparsed : parseSeverity (fieldOf "severity" fields) with
    | none =>
      rw [hparsed] at hseverity
      cases hseverity
    | some severity =>
      rw [htext]
      refine ⟨⟨id, severity, text⟩, rfl, rfl, ?_⟩
      intro key hkey
      simp only [riskKeys, List.mem_cons, List.not_mem_nil, or_false] at hkey
      rcases hkey with rfl | rfl | rfl
      · exact hid
      · exact parse_severity_some _ _ hparsed
      · exact hfield

theorem references_nil (known : List Text) (references : List Text) (message : Text → Text)
    (h : (references.filter (fun reference => !known.contains reference)).map message = []) :
    ∀ reference ∈ references, reference ∈ known := by
  intro reference hreference
  rw [List.map_eq_nil_iff, List.filter_eq_nil_iff] at h
  simpa using h reference hreference

theorem expected_ok (id : Text) (touchpointIds : List Text) (value : Option Value)
    (h : (expectedReferences id touchpointIds value).reasons = []) :
    value = some (stringArray (expectedReferences id touchpointIds value).value) ∧
      ∀ reference ∈ (expectedReferences id touchpointIds value).value,
        reference ∈ touchpointIds := by
  unfold expectedReferences at h ⊢
  cases hreferences : boundedTexts value PlanningLimits.maxExpectedTouchpointsPerStep with
  | none =>
    rw [hreferences] at h
    cases h
  | some references =>
    rw [hreferences] at h
    exact ⟨((bounded_texts _ _ _).mp hreferences).1, references_nil _ _ _ h⟩

theorem verification_ok (id : Text) (criterionIds : List Text) (value : Option Value)
    (h : (verificationReferences id criterionIds value).reasons = []) :
    value = (verificationReferences id criterionIds value).value.map stringArray ∧
      ∀ references, (verificationReferences id criterionIds value).value = some references →
        ∀ reference ∈ references, reference ∈ criterionIds := by
  cases value with
  | none => exact ⟨rfl, fun references hsome => by cases hsome⟩
  | some present =>
    unfold verificationReferences at h ⊢
    dsimp only at h ⊢
    cases hreferences : boundedTexts (some present) PlanningLimits.maxVerificationRefsPerStep with
    | none =>
      rw [hreferences] at h
      cases h
    | some references =>
      rw [hreferences] at h
      refine ⟨((bounded_texts _ _ _).mp hreferences).1, ?_⟩
      rintro _ ⟨⟩
      exact references_nil _ _ _ h

theorem title_ok (id : Text) (value : Option Value)
    (h : (stepTitle toLowercase id value).reasons = []) :
    ∃ title, stepTitle toLowercase id value = ⟨[], some title⟩ ∧ value = some (.string title) ∧
      rejectPlanPolicyClaims toLowercase title = none := by
  unfold stepTitle at h ⊢
  cases htitle : (nonEmptyString value).filter (bounded PlanningLimits.maxStepTitleBytes) with
  | none =>
    rw [htitle] at h
    cases h
  | some title =>
    rw [htitle] at h
    dsimp only at h ⊢
    cases hclaim : rejectPlanPolicyClaims toLowercase title with
    | some claim =>
      rw [hclaim] at h
      cases h
    | none => exact ⟨title, rfl, ((non_empty_filter _ _ _).mp htitle).1, hclaim⟩

def stepKeys : List Text := ["id", "title", "description", "expectedTouchpoints", "verification"]

theorem step_fields (s : PlanStep) :
    fieldOf "id" s.candidateFields = some (.string s.id) ∧
      fieldOf "title" s.candidateFields = some (.string s.title) ∧
      fieldOf "description" s.candidateFields = s.description.map .string ∧
      fieldOf "expectedTouchpoints" s.candidateFields =
        some (stringArray s.expectedTouchpoints) ∧
      fieldOf "verification" s.candidateFields = s.verification.map stringArray := by
  obtain ⟨id, title, description, expected, verification⟩ := s
  cases description <;> cases verification <;> exact ⟨rfl, rfl, rfl, rfl, rfl⟩

theorem step_agrees (s : PlanStep) (fields : List (Text × Value))
    (hid : fieldOf "id" fields = some (.string s.id))
    (htitle : fieldOf "title" fields = some (.string s.title))
    (hdescription : fieldOf "description" fields = s.description.map .string)
    (hexpected : fieldOf "expectedTouchpoints" fields = some (stringArray s.expectedTouchpoints))
    (hverification : fieldOf "verification" fields = s.verification.map stringArray) :
    ∀ key ∈ stepKeys, fieldOf key fields = fieldOf key s.candidateFields := by
  intro key hkey
  obtain ⟨f₁, f₂, f₃, f₄, f₅⟩ := step_fields s
  simp only [stepKeys, List.mem_cons, List.not_mem_nil, or_false] at hkey
  rcases hkey with rfl | rfl | rfl | rfl | rfl
  · exact hid.trans f₁.symm
  · exact htitle.trans f₂.symm
  · exact hdescription.trans f₃.symm
  · exact hexpected.trans f₄.symm
  · exact hverification.trans f₅.symm

theorem step_keys_sub (s : PlanStep) : (s.candidateFields.map Prod.fst).Sublist stepKeys := by
  obtain ⟨id, title, description, expected, verification⟩ := s
  cases description <;> cases verification <;>
    simp [PlanStep.candidateFields, member, optionalField, stepKeys]

/-- What the references and the title of an accepted step have passed. -/
structure StepChecked (touchpointIds criterionIds : List Text) (s : PlanStep) : Prop where
  title : rejectPlanPolicyClaims toLowercase s.title = none
  expected : ∀ reference ∈ s.expectedTouchpoints, reference ∈ touchpointIds
  verification : ∀ references, s.verification = some references →
    ∀ reference ∈ references, reference ∈ criterionIds

variable (touchpointIds criterionIds : List Text)

theorem step_kept (id : Text) (fields : List (Text × Value))
    (hid : fieldOf "id" fields = some (.string id))
    (h : (checkStep toLowercase touchpointIds criterionIds id fields).reasons = []) :
    ∃ s, (checkStep toLowercase touchpointIds criterionIds id fields).value = some s ∧ s.id = id ∧
      StepChecked toLowercase touchpointIds criterionIds s ∧
      ∀ key ∈ stepKeys, fieldOf key fields = fieldOf key s.candidateFields := by
  unfold checkStep at h ⊢
  dsimp only at h ⊢
  simp only [List.append_eq_nil_iff] at h
  obtain ⟨⟨⟨htitle, hdescription⟩, hexpected⟩, hverification⟩ := h
  obtain ⟨title, hstep, htitleField, hclaim⟩ := title_ok toLowercase id _ htitle
  obtain ⟨hexpectedField, hknown⟩ := expected_ok id touchpointIds _ hexpected
  obtain ⟨hverificationField, hcriteria⟩ := verification_ok id criterionIds _ hverification
  rw [hstep]
  exact ⟨_, rfl, rfl, ⟨hclaim, hknown, hcriteria⟩, step_agrees _ fields hid htitleField
    (optional_text_ok _ _ _ hdescription) hexpectedField hverificationField⟩

theorem step_rebuilds : Rebuilds stepKeys (checkStep toLowercase touchpointIds criterionIds)
    PlanStep.candidateFields PlanStep.id where
  identified := by simp [stepKeys]
  distinct v := (step_keys_sub v).nodup (by decide)
  covered v := (step_keys_sub v).subset
  reads id fields fields' h := by
    simp only [stepKeys, List.forall_mem_cons] at h
    obtain ⟨-, htitle, hdescription, hexpected, hverification, -⟩ := h
    unfold checkStep
    rw [htitle, hdescription, hexpected, hverification]
  kept id fields hid h := by
    obtain ⟨s, hvalue, hsame, -, hfields⟩ :=
      step_kept toLowercase touchpointIds criterionIds id fields hid h
    exact ⟨s, hvalue, hsame, hfields⟩

end Screened

end Siralos.PlanValidation
