import Siralos.ReferenceBindings

/-!
# Selectors

An alias and an id share one namespace and aliases are looked up first. A reference is found under
both exactly when no other alias is spelled like its id.
-/

set_option autoImplicit false

namespace Siralos.References.ReferenceRegistry

section Selectors

variable (options : ReferenceRegistryOptions)

/-- The record of the first declaration of its alias. -/
structure Addressable (r : ReferenceRegistry) (i : ℕ) (record : ReferenceRecord) : Prop where
  found : r.records[i]? = some record
  first : r.aliases.idxOf? record.reference.aliasName = some i

/-- Every lookup by the selector is a lookup of the record. -/
structure Selects (r : ReferenceRegistry) (selector : Text) (i : ℕ) (record : ReferenceRecord) :
    Prop where
  get : r.get selector = some record.reference
  revision : r.revision selector = record.revision
  bound : ∀ binding, r.boundRevision binding selector =
    if r.isLive binding then binding.revisions.lookup record.id else none
  refreshed : (r.refresh options selector).1.records[i]? =
    some (refreshRecord options r.calls record).record
  others : ∀ j, j ≠ i → (r.refresh options selector).1.records[j]? = r.records[j]?

/-- The alias and the id of every addressable reference select it. -/
def Unambiguous (r : ReferenceRegistry) (i : ℕ) (record : ReferenceRecord) : Prop :=
  Selects options r record.reference.aliasName i record ∧ Selects options r record.id i record

/-- No other declared alias is spelled like the id. -/
def IdUncaptured (declarations : List ReferenceDeclaration) (record : ReferenceRecord) : Prop :=
  ∀ a ∈ declarations.map ReferenceDeclaration.aliasName, a = record.id →
    a = record.reference.aliasName

variable {options}

theorem index_selects {r : ReferenceRegistry} {selector : Text} {i : ℕ} {record : ReferenceRecord}
    (hrecord : r.records[i]? = some record) (hindex : r.recordIndex selector = some i) :
    Selects options r selector i record := by
  have hat : r.recordAt selector = some record := by
    rw [recordAt, hindex]
    exact hrecord
  have hrefresh : (r.refresh options selector).1.records =
      r.records.set i (refreshRecord options r.calls record).record := by
    rw [refresh, hindex]
    dsimp only
    rw [hrecord]
  obtain ⟨hlength, -⟩ := List.getElem?_eq_some_iff.mp hrecord
  constructor
  · rw [get, hat]
    rfl
  · rw [ReferenceRegistry.revision, hat]
    rfl
  · intro binding
    rw [boundRevision, hat]
    rfl
  · rw [hrefresh]
    exact List.getElem?_set_self hlength
  · intro j hji
    rw [hrefresh]
    exact List.getElem?_set_ne (Ne.symm hji)

theorem alias_index {r : ReferenceRegistry} (hr : Sound options r) {i : ℕ}
    {record : ReferenceRecord} (h : Addressable r i record) :
    r.recordIndex record.reference.aliasName = some i := by
  rw [recordIndex, hr.byAlias, h.first]
  rfl

theorem id_index {r : ReferenceRegistry} (hr : Sound options r)
    (hfree : ∀ a ∈ r.aliases, ∀ b ∈ r.aliases,
      createReferenceId options.sha256Hex a = createReferenceId options.sha256Hex b → a = b)
    {i : ℕ} {record : ReferenceRecord} (h : Addressable r i record)
    (huncaptured : ∀ a ∈ r.aliases, a = record.id → a = record.reference.aliasName) :
    r.recordIndex record.id = some i := by
  have hmem := List.mem_of_getElem? (alias_at h.found)
  have hid := (hr.records record (List.mem_of_getElem? h.found)).id
  by_cases hcaptured : record.id ∈ r.aliases
  · have hsame := huncaptured record.id hcaptured rfl
    rw [hsame]
    exact alias_index hr h
  · have hnone : r.byAlias.lookup record.id = none := by
      rw [hr.byAlias]
      exact List.idxOf?_eq_none_iff.mpr hcaptured
    rw [recordIndex, hnone, Option.none_or]
    obtain ⟨j, hj⟩ := Option.isSome_iff_exists.mp (hr.known _ hmem)
    obtain ⟨a, ha, hcreated⟩ := hr.byId _ j hj
    have hdeclared : a ∈ r.aliases := List.mem_of_getElem? (first_alias ha).1
    have hsame := hfree a hdeclared _ hmem hcreated
    rw [hsame, h.first] at ha
    rw [hid, hj, ← ha]

theorem captured_differs {r : ReferenceRegistry} (hr : Sound options r) {i : ℕ}
    {record : ReferenceRecord} (h : Selects options r record.id i record) :
    ∀ a ∈ r.aliases, a = record.id → a = record.reference.aliasName := by
  rintro a ha rfl
  obtain ⟨j, hj⟩ := Option.isSome_iff_exists.mp (List.isSome_idxOf?.mpr ha)
  have hat := (first_alias hj).1
  rw [aliases, List.getElem?_map] at hat
  obtain ⟨other, hother, halias⟩ := Option.map_eq_some_iff.mp hat
  have hget := h.get
  rw [get, recordAt, recordIndex, hr.byAlias, hj] at hget
  have hreference : other.reference = record.reference := by
    have hsome : (r.records[j]?).map ReferenceRecord.reference = some record.reference := hget
    rw [hother] at hsome
    exact Option.some.inj hsome
  rw [← halias, hreference]

/-- A reference is found under its alias and its id exactly when no other alias is its id. -/
theorem selectors_unambiguous_iff (options : ReferenceRegistryOptions)
    (declarations : List ReferenceDeclaration) (ops : List Op)
    (hfree : CollisionFree options declarations) (i : ℕ) (record : ReferenceRecord)
    (h : Addressable (run options (createReferenceRegistry options declarations) ops) i record) :
    Unambiguous options (run options (createReferenceRegistry options declarations) ops) i record ↔
      IdUncaptured declarations record := by
  have hr := run_sound (@created_sound options declarations) ops
  have haliases : (run options (createReferenceRegistry options declarations) ops).aliases =
      declarations.map ReferenceDeclaration.aliasName :=
    (run_aliases _ ops).trans (created_aliases declarations)
  constructor
  · rintro ⟨-, hid⟩
    have hsame := captured_differs hr hid
    rwa [haliases] at hsame
  · intro huncaptured
    refine ⟨index_selects h.found (alias_index hr h), index_selects h.found (id_index hr ?_ h ?_)⟩
    · rw [haliases]
      exact hfree
    · rw [haliases]
      exact huncaptured

end Selectors

def sampleRecord : ReferenceRecord where
  id := "ref_f46fa8d297f0e74dc552904b"
  reference :=
    { id := "ref_f46fa8d297f0e74dc552904b", aliasName := "aa", kind := .repository
      source := .repository "https://github.com/o/r" (.commit "0123456")
      trust := .explicitUser, description := none, status := .ready, failureReason := none }
  revision := some ⟨.repository "https://github.com/o/r" "0123456" (.commit "0123456"), 0⟩

/-- The second reference. -/
def pairRecord : ReferenceRecord where
  id := "ref_2bb1eff2b8632bf2523332b0"
  reference :=
    { id := "ref_2bb1eff2b8632bf2523332b0", aliasName := "bb", kind := .repository
      source := .repository "https://github.com/o/s" (.commit "0123456")
      trust := .explicitUser, description := none, status := .ready, failureReason := none }
  revision := some ⟨.repository "https://github.com/o/r" "0123456" (.commit "0123456"), 1⟩

theorem selectors_unambiguous_sample :
    Unambiguous pairOptions
        (run pairOptions (createReferenceRegistry pairOptions pairDeclarations) pairOps) 1
        pairRecord ↔ IdUncaptured pairDeclarations pairRecord :=
  selectors_unambiguous_iff pairOptions pairDeclarations pairOps pair_collision_free 1 pairRecord
    ⟨by decide +kernel, by decide⟩

/-- The digests of the first alias and of the alias that is spelled like its id. -/
def capturingSha (text : Text) : Text :=
  if text = "\x7b\"alias\":\"aa\"\x7d".toList then
    "f46fa8d297f0e74dc552904ba32fc1e3edb2734e4f40324a1fe43f0b94ce35e2"
  else "b5544a0c9bdd50f961fd927f97828045477bc359428a7ab7869d93f370ef873a"

def capturingOptions : ReferenceRegistryOptions :=
  { sampleOptions with sha256Hex := capturingSha }

def capturingDeclarations : List ReferenceDeclaration :=
  sampleDeclarations ++ [⟨"ref_f46fa8d297f0e74dc552904b", .repository,
    .repository "https://github.com/o/s" (.commit "0123456"), none⟩]

/-- The second alias takes the id of the first reference. -/
theorem selectors_unambiguous_fails :
    ¬ ∀ (options : ReferenceRegistryOptions) (declarations : List ReferenceDeclaration)
      (ops : List Op), CollisionFree options declarations →
      (∀ declaration ∈ declarations, validateReferenceAlias declaration.aliasName = true) →
      ∀ i record,
        Addressable (run options (createReferenceRegistry options declarations) ops) i record →
        Unambiguous options (run options (createReferenceRegistry options declarations) ops) i
          record := by
  intro h
  have hfree : CollisionFree capturingOptions capturingDeclarations := by
    unfold CollisionFree
    decide
  have hvalid : ∀ declaration ∈ capturingDeclarations,
      validateReferenceAlias declaration.aliasName = true := by
    decide
  have hselects := (h capturingOptions capturingDeclarations [] hfree hvalid 0 sampleRecord
    ⟨by decide, by decide⟩).2.get
  have hcaptured : ((run capturingOptions (createReferenceRegistry capturingOptions
      capturingDeclarations) []).get sampleRecord.id).map Reference.aliasName =
      some "ref_f46fa8d297f0e74dc552904b".toList := by
    decide
  rw [hselects] at hcaptured
  exact absurd hcaptured (by decide)

end Siralos.References.ReferenceRegistry
