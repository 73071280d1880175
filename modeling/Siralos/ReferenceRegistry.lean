import Siralos.Reference

/-!
# The life cycle of references

A registry starts from any declarations; refreshes and task bindings follow in any order, and the
resolver answers as it likes.
-/

set_option autoImplicit false

namespace Siralos.References

namespace ReferenceRegistry

inductive Op where
  | bindTask (taskId : Text)
  | refresh (selector : Text)
  deriving DecidableEq, Repr

section Runs

variable (options : ReferenceRegistryOptions)

def step (r : ReferenceRegistry) : Op → ReferenceRegistry
  | .bindTask taskId => (r.bindTask options taskId).1
  | .refresh selector => (r.refresh options selector).1

def run (r : ReferenceRegistry) (ops : List Op) : ReferenceRegistry := ops.foldl (step options) r

end Runs

section Records

variable (options : ReferenceRegistryOptions)

structure RecordSound (record : ReferenceRecord) : Prop where
  id : record.id = createReferenceId options.sha256Hex record.reference.aliasName
  referenceId : record.reference.id = record.id
  ready : record.revision.isSome = true ↔ record.reference.status = .ready
  outside : ∀ revision, record.revision = some revision →
    insideWorkspace options record.reference.source revision.identity = false
  pinned : options.allowMutableRefs = false → isBranchPinned record.reference.source = true →
    record.reference.status = .declined

/-- The identity that a refresh of the record would resolve to. -/
def answerFor (calls : PortCalls) (record : ReferenceRecord) : ReferenceResolutionOutcome :=
  options.resolver calls.resolved.length record.reference.source options.allowMutableRefs

/-- The answer leaves the reference without a revision. -/
def clears (record : ReferenceRecord) : ReferenceResolutionOutcome → Bool
  | .resolved identity => insideWorkspace options record.reference.source identity
  | .unavailable _ => true
  | .refused _ => true
  | .failed _ => true

structure RecordRefreshed (calls : PortCalls) (record after : ReferenceRecord) : Prop where
  declined : record.reference.status = .declined → after = record
  cleared : record.reference.status ≠ .declined →
    clears options record (answerFor options calls record) = true → after.revision = none
  kept : record.reference.status ≠ .declined → ∀ current identity,
    answerFor options calls record = .resolved identity → record.revision = some current →
    current.identity = identity → after.revision = some current

variable {options}

theorem identities_refl (identity : ResolvedReferenceIdentity) :
    identitiesEqual identity identity = true := by
  cases identity <;> simp [identitiesEqual]

theorem refreshed_fields (calls : PortCalls) (record : ReferenceRecord) :
    ∃ status reason revision, (refreshRecord options calls record).record =
      withStatus record status reason revision := by
  unfold refreshRecord
  split_ifs
  · exact ⟨_, _, _, rfl⟩
  · dsimp only
    split
    · split_ifs
      · exact ⟨_, _, _, rfl⟩
      · split
        · exact ⟨_, _, _, rfl⟩
        · exact ⟨_, _, _, rfl⟩
    · exact ⟨_, _, _, rfl⟩
    · exact ⟨_, _, _, rfl⟩
    · exact ⟨_, _, _, rfl⟩

theorem refreshed_alias (calls : PortCalls) (record : ReferenceRecord) :
    (refreshRecord options calls record).record.reference.aliasName =
      record.reference.aliasName := by
  obtain ⟨status, reason, revision, h⟩ := refreshed_fields calls record
  rw [h]
  rfl

/-- The revision that a successful refresh leaves: the current one, or one of the new identity. -/
def Renews (record : ReferenceRecord) (identity : ResolvedReferenceIdentity)
    (revision : ReferenceRevision) : Prop :=
  (record.revision = some revision ∧ identitiesEqual revision.identity identity = true) ∨
    (revision.identity = identity ∧ ∀ current, record.revision = some current →
      identitiesEqual current.identity identity = false)

theorem refreshed_cases (calls : PortCalls) (record : ReferenceRecord) :
    (record.reference.status = .declined ∧ (refreshRecord options calls record).record = record ∧
      (refreshRecord options calls record).calls = calls) ∨
    (record.reference.status ≠ .declined ∧ (refreshRecord options calls record).calls.resolved =
        calls.resolved ++ [record.reference.source] ∧
      ((clears options record (answerFor options calls record) = true ∧
        ∃ status reason, status ≠ .ready ∧
          (refreshRecord options calls record).record = applyFailure record status reason) ∨
      ∃ identity revision, answerFor options calls record = .resolved identity ∧
        insideWorkspace options record.reference.source identity = false ∧
        Renews record identity revision ∧
        (refreshRecord options calls record).record =
          withStatus record .ready none (some revision))) := by
  have hanswer : (resolveIdentity options calls record.reference.source).1 =
      answerFor options calls record := rfl
  unfold refreshRecord
  by_cases hdeclined : record.reference.status = .declined
  · rw [if_pos hdeclined]
    exact Or.inl ⟨hdeclined, rfl, rfl⟩
  · rw [if_neg hdeclined]
    right
    dsimp only
    rw [hanswer]
    cases answerFor options calls record with
    | unavailable reason =>
      exact ⟨hdeclined, rfl, Or.inl ⟨rfl, .unavailable, reason, nofun, rfl⟩⟩
    | refused reason =>
      exact ⟨hdeclined, rfl, Or.inl ⟨rfl, .declined, reason, nofun, rfl⟩⟩
    | failed reason =>
      exact ⟨hdeclined, rfl, Or.inl ⟨rfl, .resolutionFailed, reason, nofun, rfl⟩⟩
    | resolved identity =>
      dsimp only
      by_cases hinside : insideWorkspace options record.reference.source identity = true
      · rw [if_pos hinside]
        exact ⟨hdeclined, rfl, Or.inl ⟨hinside, .declined, workspaceContainmentRefusal, nofun, rfl⟩⟩
      · rw [if_neg hinside]
        cases hcurrent : record.revision.filter fun current =>
            identitiesEqual current.identity identity with
        | some current =>
          obtain ⟨hrevision, hequal⟩ := Option.filter_eq_some_iff.mp hcurrent
          refine ⟨hdeclined, rfl, Or.inr ⟨identity, current, rfl, by simpa using hinside,
            Or.inl ⟨hrevision, hequal⟩, ?_⟩⟩
          show withStatus record .ready none record.revision = _
          rw [hrevision]
        | none =>
          refine ⟨hdeclined, rfl, Or.inr ⟨identity, _, rfl, by simpa using hinside,
            Or.inr ⟨rfl, ?_⟩, rfl⟩⟩
          intro current hsome
          rw [hsome, Option.filter_eq_none_iff] at hcurrent
          simpa using hcurrent current rfl

theorem refreshed_sound (calls : PortCalls) {record : ReferenceRecord}
    (h : RecordSound options record) :
    RecordSound options (refreshRecord options calls record).record := by
  rcases refreshed_cases calls record with
    ⟨-, hrecord, -⟩ | ⟨hstatus, -, ⟨-, status, reason, hready, hrecord⟩ |
      ⟨identity, revision, -, hinside, hrenews, hrecord⟩⟩
  · rwa [hrecord]
  · rw [hrecord]
    refine ⟨h.id, h.referenceId, ?_, nofun, ?_⟩
    · exact iff_of_false Bool.false_ne_true hready
    · intro hmutable hpinned
      exact absurd (h.pinned hmutable hpinned) hstatus
  · rw [hrecord]
    refine ⟨h.id, h.referenceId, iff_of_true rfl rfl, ?_, ?_⟩
    · intro current hcurrent
      cases hcurrent
      rcases hrenews with ⟨hkept, -⟩ | ⟨hnew, -⟩
      · exact h.outside revision hkept
      · rw [hnew]
        exact hinside
    · intro hmutable hpinned
      exact absurd (h.pinned hmutable hpinned) hstatus

theorem record_refreshed (calls : PortCalls) {record : ReferenceRecord}
    (h : RecordSound options record) :
    RecordRefreshed options calls record (refreshRecord options calls record).record := by
  rcases refreshed_cases calls record with
    ⟨hstatus, hrecord, -⟩ | ⟨hstatus, -, ⟨hclears, status, reason, -, hrecord⟩ |
      ⟨identity, revision, hanswer, hinside, hrenews, hrecord⟩⟩
  · exact ⟨fun _ => hrecord, fun hnot => absurd hstatus hnot, fun hnot => absurd hstatus hnot⟩
  · refine ⟨fun hdeclined => absurd hdeclined hstatus, fun _ _ => by rw [hrecord]; rfl, ?_⟩
    intro _ current identity hanswer hcurrent hsame
    rw [hanswer, clears, ← hsame, h.outside current hcurrent] at hclears
    cases hclears
  · refine ⟨fun hdeclined => absurd hdeclined hstatus, ?_, ?_⟩
    · intro _ hclears
      rw [hanswer, clears, hinside] at hclears
      cases hclears
    · intro _ current other hother hcurrent hsame
      rw [hanswer] at hother
      cases hother
      rw [hrecord]
      rcases hrenews with ⟨hkept, -⟩ | ⟨-, hnew⟩
      · rw [hcurrent] at hkept
        exact hkept.symm
      · have hdiffer := hnew current hcurrent
        rw [hsame, identities_refl] at hdiffer
        cases hdiffer

end Records

section Registries

variable (options : ReferenceRegistryOptions)

def aliases (r : ReferenceRegistry) : List Text :=
  r.records.map fun record => record.reference.aliasName

/-- The first declaration of an alias is found under it and its id; a later one is declined. -/
structure Sound (r : ReferenceRegistry) : Prop where
  records : ∀ record ∈ r.records, RecordSound options record
  byAlias : ∀ a, r.byAlias.lookup a = r.aliases.idxOf? a
  byId : ∀ id i, r.byId.lookup id = some i →
    ∃ a, r.aliases.idxOf? a = some i ∧ createReferenceId options.sha256Hex a = id
  known : ∀ a ∈ r.aliases, (r.byId.lookup (createReferenceId options.sha256Hex a)).isSome = true
  duplicates : ∀ i record, r.records[i]? = some record →
    r.aliases.idxOf? record.reference.aliasName ≠ some i → record.reference.status = .declined
  immutable : options.allowMutableRefs = false →
    ∀ source ∈ r.calls.resolved, isBranchPinned source = false

structure SameShape (r r' : ReferenceRegistry) : Prop where
  aliases : r'.aliases = r.aliases
  byAlias : r'.byAlias = r.byAlias
  byId : r'.byId = r.byId

variable {options}

theorem refresh_cases (r : ReferenceRegistry) (selector : Text) :
    (r.refresh options selector).1 = r ∨
      ∃ i record, r.recordIndex selector = some i ∧ r.records[i]? = some record ∧
        (r.refresh options selector).1 =
          { r with
            records := r.records.set i (refreshRecord options r.calls record).record
            calls := (refreshRecord options r.calls record).calls } := by
  unfold refresh
  cases hindex : r.recordIndex selector with
  | none => exact Or.inl rfl
  | some i =>
    dsimp only
    cases hrecord : r.records[i]? with
    | none => exact Or.inl rfl
    | some record => exact Or.inr ⟨i, record, rfl, hrecord, rfl⟩

theorem refreshed_aliases {r : ReferenceRegistry} {i : ℕ} {record : ReferenceRecord}
    (h : r.records[i]? = some record) (calls : PortCalls) :
    (r.records.set i (refreshRecord options calls record).record).map
      (fun record => record.reference.aliasName) = r.aliases := by
  apply List.ext_getElem?
  intro j
  rw [aliases, List.getElem?_map, List.getElem?_map]
  by_cases hij : i = j
  · subst hij
    obtain ⟨hlength, -⟩ := List.getElem?_eq_some_iff.mp h
    rw [List.getElem?_set_self hlength, h, Option.map_some, Option.map_some, refreshed_alias]
  · rw [List.getElem?_set_ne hij]

theorem step_shape (r : ReferenceRegistry) (op : Op) : SameShape r (step options r op) := by
  cases op with
  | bindTask taskId => exact ⟨rfl, rfl, rfl⟩
  | refresh selector =>
    show SameShape r (r.refresh options selector).1
    rcases refresh_cases r selector with h | ⟨i, record, -, hrecord, h⟩
    · rw [h]
      exact ⟨rfl, rfl, rfl⟩
    · rw [h]
      exact ⟨refreshed_aliases hrecord r.calls, rfl, rfl⟩

theorem refresh_sound {r : ReferenceRegistry} (hr : Sound options r) (selector : Text) :
    Sound options (r.refresh options selector).1 := by
  have hshape := @step_shape options r (.refresh selector)
  have haliases : (r.refresh options selector).1.aliases = r.aliases := hshape.aliases
  have hbyAlias : (r.refresh options selector).1.byAlias = r.byAlias := hshape.byAlias
  have hbyId : (r.refresh options selector).1.byId = r.byId := hshape.byId
  rcases refresh_cases r selector with h | ⟨i, record, -, hrecord, h⟩
  · rwa [h]
  have hmem := List.mem_of_getElem? hrecord
  have hsound := hr.records record hmem
  obtain ⟨hlength, -⟩ := List.getElem?_eq_some_iff.mp hrecord
  constructor
  · rw [h]
    intro other hother
    rcases List.mem_or_eq_of_mem_set hother with hother | rfl
    · exact hr.records other hother
    · exact refreshed_sound r.calls hsound
  · rw [haliases, hbyAlias]
    exact hr.byAlias
  · rw [haliases, hbyId]
    exact hr.byId
  · rw [haliases, hbyId]
    exact hr.known
  · rw [haliases, h]
    intro j other hother hlater
    by_cases hij : i = j
    · subst hij
      rw [List.getElem?_set_self hlength, Option.some.injEq] at hother
      subst hother
      rw [refreshed_alias] at hlater
      have hdeclined := hr.duplicates i record hrecord hlater
      rw [(record_refreshed r.calls hsound).declined hdeclined]
      exact hdeclined
    · rw [List.getElem?_set_ne hij] at hother
      exact hr.duplicates j other hother hlater
  · intro hmutable
    rw [h]
    rcases refreshed_cases r.calls record with
      ⟨-, -, hcalls⟩ | ⟨hstatus, hcalls, -⟩
    · rw [hcalls]
      exact hr.immutable hmutable
    · intro source hsource
      rw [hcalls] at hsource
      rcases List.mem_append.mp hsource with hsource | hsource
      · exact hr.immutable hmutable source hsource
      · rw [List.mem_singleton.mp hsource]
        by_contra hpinned
        exact hstatus (hsound.pinned hmutable (by simpa using hpinned))

theorem step_sound {r : ReferenceRegistry} (hr : Sound options r) (op : Op) :
    Sound options (step options r op) := by
  cases op with
  | bindTask taskId =>
    exact ⟨hr.records, hr.byAlias, hr.byId, hr.known, hr.duplicates, hr.immutable⟩
  | refresh selector => exact refresh_sound hr selector

theorem run_sound {r : ReferenceRegistry} (hr : Sound options r) (ops : List Op) :
    Sound options (run options r ops) := by
  induction ops generalizing r with
  | nil => exact hr
  | cons op ops ih => exact ih (step_sound hr op)

end Registries

section Creation

variable {options : ReferenceRegistryOptions}

/-- The record of a declaration, without a look at earlier declarations. -/
def recordOf (resolution : Resolution) : ReferenceRecord :=
  ⟨resolution.reference.id, resolution.reference, resolution.revision⟩

theorem unready_sound (declaration : ReferenceDeclaration) (status : ReferenceStatus)
    (hstatus : status ≠ .ready) (reason : Option Text) (hpinned : options.allowMutableRefs = false →
      isBranchPinned declaration.source = true → status = .declined) (calls : PortCalls) :
    RecordSound options (recordOf ⟨declaredReference options declaration status reason, none,
      calls⟩) :=
  ⟨rfl, rfl, iff_of_false Bool.false_ne_true hstatus, nofun, hpinned⟩

theorem resolved_calls (calls : PortCalls) (declaration : ReferenceDeclaration)
    (hmutable : options.allowMutableRefs = false) :
    ∀ source ∈ (resolveDeclaration options calls declaration).calls.resolved,
      source ∈ calls.resolved ∨ isBranchPinned source = false := by
  have hasked : isBranchPinned declaration.source = false →
      ∀ source ∈ (resolveIdentity options calls declaration.source).2.resolved,
        source ∈ calls.resolved ∨ isBranchPinned source = false := by
    intro hpinned source hsource
    rcases List.mem_append.mp hsource with hsource | hsource
    · exact Or.inl hsource
    · rw [List.mem_singleton.mp hsource]
      exact Or.inr hpinned
  unfold resolveDeclaration
  dsimp only
  by_cases halias : (!validateReferenceAlias declaration.aliasName) = true
  · rw [if_pos halias]
    exact fun source hsource => Or.inl hsource
  rw [if_neg halias]
  by_cases hpinned : (isBranchPinned declaration.source && !options.allowMutableRefs) = true
  · rw [if_pos hpinned]
    exact fun source hsource => Or.inl hsource
  rw [if_neg hpinned]
  rw [hmutable, Bool.not_false, Bool.and_true, Bool.not_eq_true] at hpinned
  split
  · split_ifs
    · exact hasked hpinned
    · exact hasked hpinned
  · exact hasked hpinned
  · exact hasked hpinned
  · exact hasked hpinned

theorem resolved_sound (calls : PortCalls) (declaration : ReferenceDeclaration) :
    RecordSound options (recordOf (resolveDeclaration options calls declaration)) := by
  unfold resolveDeclaration
  dsimp only
  by_cases halias : (!validateReferenceAlias declaration.aliasName) = true
  · rw [if_pos halias]
    exact unready_sound declaration .declined nofun _ (fun _ _ => rfl) calls
  rw [if_neg halias]
  by_cases hpinned : (isBranchPinned declaration.source && !options.allowMutableRefs) = true
  · rw [if_pos hpinned]
    exact unready_sound declaration .declined nofun _ (fun _ _ => rfl) calls
  rw [if_neg hpinned]
  have hallowed : ∀ {status : ReferenceStatus}, options.allowMutableRefs = false →
      isBranchPinned declaration.source = true → status = .declined := by
    intro status hmutable hbranch
    rw [hmutable, hbranch] at hpinned
    exact absurd rfl hpinned
  split
  · split_ifs with hinside
    · exact unready_sound declaration .declined nofun _ (fun _ _ => rfl) _
    · refine ⟨rfl, rfl, iff_of_true rfl rfl, ?_, hallowed⟩
      intro revision hrevision
      cases hrevision
      exact Bool.eq_false_of_not_eq_true hinside
  · exact unready_sound declaration .unavailable nofun _ hallowed _
  · exact unready_sound declaration .declined nofun _ (fun _ _ => rfl) _
  · exact unready_sound declaration .resolutionFailed nofun _ hallowed _

theorem resolved_alias (calls : PortCalls) (declaration : ReferenceDeclaration) :
    (resolveDeclaration options calls declaration).reference.aliasName =
      declaration.aliasName := by
  unfold resolveDeclaration
  dsimp only
  split_ifs
  · rfl
  · rfl
  · split
    · split_ifs <;> rfl
    · rfl
    · rfl
    · rfl

structure BuildingSound (options : ReferenceRegistryOptions) (b : Building) : Prop where
  sound : Sound options b.registry
  seen : ∀ a, a ∈ b.seenAliases ↔ a ∈ b.registry.aliases

theorem index_append (names : List Text) (name a : Text) :
    (names ++ [name]).idxOf? a =
      (names.idxOf? a).or (if a = name then some names.length else none) := by
  rw [List.idxOf?, List.findIdx?_append]
  congr 1
  by_cases h : a = name
  · subst h
    simp
  · simp [h, Ne.symm h]

theorem added_duplicate {b : Building} {declaration : ReferenceDeclaration}
    (h : declaration.aliasName ∈ b.seenAliases) :
    ∃ record, record.reference.aliasName = declaration.aliasName ∧
      record.reference.status = .declined ∧ RecordSound options record ∧
      (addDeclaration options b declaration).registry =
        { b.registry with
          records := b.registry.records ++ [record]
          calls := (resolveDeclaration options b.registry.calls declaration).calls } := by
  have hsound := @resolved_sound options b.registry.calls declaration
  refine ⟨withStatus (recordOf (resolveDeclaration options b.registry.calls declaration)) .declined
    (some duplicateAliasReason) none, resolved_alias b.registry.calls declaration, rfl, ?_, ?_⟩
  · exact ⟨hsound.id, hsound.referenceId, iff_of_false Bool.false_ne_true nofun, nofun,
      fun _ _ => rfl⟩
  · simp only [addDeclaration, h, if_true]
    rfl

theorem added_first {b : Building} {declaration : ReferenceDeclaration}
    (h : declaration.aliasName ∉ b.seenAliases) :
    ∃ record, record.reference.aliasName = declaration.aliasName ∧ RecordSound options record ∧
      (addDeclaration options b declaration).registry =
        { b.registry with
          records := b.registry.records ++ [record]
          byAlias := b.registry.byAlias.insert declaration.aliasName b.registry.records.length
          byId := b.registry.byId.insert
            (createReferenceId options.sha256Hex declaration.aliasName) b.registry.records.length
          calls := (resolveDeclaration options b.registry.calls declaration).calls } := by
  have hsound := @resolved_sound options b.registry.calls declaration
  have halias := @resolved_alias options b.registry.calls declaration
  refine ⟨recordOf (resolveDeclaration options b.registry.calls declaration), halias, hsound, ?_⟩
  have hid := hsound.id
  simp only [recordOf, halias] at hid
  simp only [addDeclaration, h, if_false, halias, hid, recordOf]

theorem appended_aliases (records : List ReferenceRecord) (record : ReferenceRecord) :
    (records ++ [record]).map (fun record => record.reference.aliasName) =
      records.map (fun record => record.reference.aliasName) ++ [record.reference.aliasName] := by
  rw [List.map_append, List.map_singleton]

theorem aliases_length (r : ReferenceRegistry) : r.aliases.length = r.records.length :=
  List.length_map _

theorem added_aliases (b : Building) (declaration : ReferenceDeclaration) :
    (addDeclaration options b declaration).registry.aliases =
      b.registry.aliases ++ [declaration.aliasName] := by
  by_cases hseen : declaration.aliasName ∈ b.seenAliases
  · obtain ⟨record, halias, -, -, h⟩ := added_duplicate hseen
    rw [aliases, h, appended_aliases, halias]
    rfl
  · obtain ⟨record, halias, -, h⟩ := added_first hseen
    rw [aliases, h, appended_aliases, halias]
    rfl

theorem index_listed {names : List Text} {name : Text} (hname : name ∈ names) (a : Text) :
    (names ++ [name]).idxOf? a = names.idxOf? a := by
  rw [index_append]
  by_cases ha : a = name
  · subst ha
    cases hfound : names.idxOf? a with
    | none => exact absurd hname (List.idxOf?_eq_none_iff.mp hfound)
    | some i => rfl
  · rw [if_neg ha, Option.or_none]

theorem index_other (names : List Text) {name a : Text} (ha : a ≠ name) :
    (names ++ [name]).idxOf? a = names.idxOf? a := by
  rw [index_append, if_neg ha, Option.or_none]

theorem index_last {names : List Text} {name : Text} (hname : name ∉ names) :
    (names ++ [name]).idxOf? name = some names.length := by
  rw [index_append, List.idxOf?_eq_none_iff.mpr hname, if_pos rfl]
  rfl

theorem added_calls {b : Building} (hb : BuildingSound options b)
    (declaration : ReferenceDeclaration) (hmutable : options.allowMutableRefs = false) :
    ∀ source ∈ (resolveDeclaration options b.registry.calls declaration).calls.resolved,
      isBranchPinned source = false := by
  intro source hsource
  rcases resolved_calls b.registry.calls declaration hmutable source hsource with hold | hnew
  · exact hb.sound.immutable hmutable source hold
  · exact hnew

theorem added_seen {b : Building} (hb : BuildingSound options b)
    (declaration : ReferenceDeclaration) (a : Text) :
    a ∈ (addDeclaration options b declaration).seenAliases ↔
      a ∈ (addDeclaration options b declaration).registry.aliases := by
  show a ∈ insert declaration.aliasName b.seenAliases ↔ _
  rw [added_aliases, Finset.mem_insert, List.mem_append, List.mem_singleton, hb.seen a, or_comm]

theorem appended_sound {records : List ReferenceRecord} {record : ReferenceRecord}
    (h : ∀ other ∈ records, RecordSound options other) (hrecord : RecordSound options record) :
    ∀ other ∈ records ++ [record], RecordSound options other := by
  intro other hother
  rcases List.mem_append.mp hother with hold | hnew
  · exact h other hold
  · rw [List.mem_singleton.mp hnew]
    exact hrecord

theorem appended_record {records : List ReferenceRecord} {record other : ReferenceRecord} {i : ℕ}
    (h : (records ++ [record])[i]? = some other) :
    records[i]? = some other ∨ i = records.length ∧ other = record := by
  by_cases hi : i < records.length
  · rw [List.getElem?_append_left hi] at h
    exact Or.inl h
  · rw [List.getElem?_append_right (by omega), List.getElem?_singleton] at h
    split at h
    · cases h
      exact Or.inr ⟨by omega, rfl⟩
    · cases h

theorem added_duplicate_sound {b : Building} (hb : BuildingSound options b)
    {declaration : ReferenceDeclaration} (hseen : declaration.aliasName ∈ b.seenAliases) :
    Sound options (addDeclaration options b declaration).registry := by
  obtain ⟨record, halias, hdeclined, hrecord, h⟩ := added_duplicate hseen
  have hs := hb.sound
  have hmem : declaration.aliasName ∈ b.registry.aliases := (hb.seen _).mp hseen
  constructor
  case records =>
    rw [h]
    exact appended_sound hs.records hrecord
  case byAlias =>
    intro a
    rw [added_aliases, index_listed hmem, h]
    exact hs.byAlias a
  case byId =>
    intro id i hid
    rw [h] at hid
    obtain ⟨a, ha, hid⟩ := hs.byId id i hid
    exact ⟨a, by rw [added_aliases, index_listed hmem, ha], hid⟩
  case known =>
    intro a ha
    rw [added_aliases] at ha
    rw [h]
    rcases List.mem_append.mp ha with hold | hnew
    · exact hs.known a hold
    · rw [List.mem_singleton.mp hnew]
      exact hs.known _ hmem
  case duplicates =>
    intro i other hother hlater
    rw [added_aliases, index_listed hmem] at hlater
    rw [h] at hother
    rcases appended_record hother with hother | ⟨-, rfl⟩
    · exact hs.duplicates i other hother hlater
    · exact hdeclined
  case immutable =>
    intro hmutable
    rw [h]
    exact added_calls hb declaration hmutable

theorem added_first_sound {b : Building} (hb : BuildingSound options b)
    {declaration : ReferenceDeclaration} (hseen : declaration.aliasName ∉ b.seenAliases) :
    Sound options (addDeclaration options b declaration).registry := by
  obtain ⟨record, halias, hrecord, h⟩ := added_first hseen
  have hs := hb.sound
  have hnot : declaration.aliasName ∉ b.registry.aliases := mt (hb.seen _).mpr hseen
  have hlast : (b.registry.aliases ++ [declaration.aliasName]).idxOf? declaration.aliasName =
      some b.registry.records.length := (index_last hnot).trans (by rw [aliases_length])
  constructor
  case records =>
    rw [h]
    exact appended_sound hs.records hrecord
  case byAlias =>
    intro a
    rw [added_aliases, h]
    show (AList.insert _ _ b.registry.byAlias).lookup a = _
    by_cases ha : a = declaration.aliasName
    · subst ha
      rw [hlast, AList.lookup_insert]
    · rw [index_other _ ha, AList.lookup_insert_ne ha]
      exact hs.byAlias a
  case byId =>
    intro id i hid
    rw [h] at hid
    change (AList.insert _ _ b.registry.byId).lookup id = some i at hid
    by_cases hsame : id = createReferenceId options.sha256Hex declaration.aliasName
    · subst hsame
      rw [AList.lookup_insert, Option.some.injEq] at hid
      exact ⟨declaration.aliasName, by rw [added_aliases, hlast, hid], rfl⟩
    · rw [AList.lookup_insert_ne hsame] at hid
      obtain ⟨a, ha, hid⟩ := hs.byId id i hid
      have hne : a ≠ declaration.aliasName := by
        rintro rfl
        rw [List.idxOf?_eq_none_iff.mpr hnot] at ha
        cases ha
      exact ⟨a, by rw [added_aliases, index_other _ hne, ha], hid⟩
  case known =>
    intro a ha
    rw [added_aliases] at ha
    rw [h]
    show ((AList.insert _ _ b.registry.byId).lookup _).isSome = true
    by_cases hsame : createReferenceId options.sha256Hex a =
        createReferenceId options.sha256Hex declaration.aliasName
    · rw [hsame, AList.lookup_insert]
      rfl
    · rw [AList.lookup_insert_ne hsame]
      rcases List.mem_append.mp ha with hold | hnew
      · exact hs.known a hold
      · rw [List.mem_singleton.mp hnew] at hsame
        exact absurd rfl hsame
  case duplicates =>
    intro i other hget hlater
    rw [added_aliases] at hlater
    rw [h] at hget
    rcases appended_record hget with hget | ⟨rfl, rfl⟩
    · apply hs.duplicates i other hget
      intro hfirst
      apply hlater
      rw [index_append, hfirst]
      rfl
    · rw [halias, hlast] at hlater
      exact absurd rfl hlater
  case immutable =>
    intro hmutable
    rw [h]
    exact added_calls hb declaration hmutable

theorem added_sound {b : Building} (hb : BuildingSound options b)
    (declaration : ReferenceDeclaration) :
    BuildingSound options (addDeclaration options b declaration) where
  sound := by
    by_cases hseen : declaration.aliasName ∈ b.seenAliases
    · exact added_duplicate_sound hb hseen
    · exact added_first_sound hb hseen
  seen := added_seen hb declaration

theorem build_sound (b : Building) (hb : BuildingSound options b)
    (declarations : List ReferenceDeclaration) :
    BuildingSound options (declarations.foldl (addDeclaration options) b) := by
  induction declarations generalizing b with
  | nil => exact hb
  | cons declaration declarations ih => exact ih _ (added_sound hb declaration)

theorem build_aliases (b : Building) (declarations : List ReferenceDeclaration) :
    (declarations.foldl (addDeclaration options) b).registry.aliases =
      b.registry.aliases ++ declarations.map ReferenceDeclaration.aliasName := by
  induction declarations generalizing b with
  | nil => exact (List.append_nil _).symm
  | cons declaration declarations ih =>
    rw [List.foldl_cons, ih, added_aliases, List.map_cons, List.append_assoc]
    rfl

theorem build_bindings (b : Building) (declarations : List ReferenceDeclaration) :
    (declarations.foldl (addDeclaration options) b).registry.bindings = b.registry.bindings := by
  induction declarations generalizing b with
  | nil => rfl
  | cons declaration declarations ih => exact ih (addDeclaration options b declaration)

theorem created_sound (declarations : List ReferenceDeclaration) :
    Sound options (createReferenceRegistry options declarations) := by
  refine (build_sound {} ⟨⟨?_, fun _ => rfl, ?_, ?_, ?_, ?_⟩, ?_⟩ declarations).sound
  · exact fun record h => absurd h List.not_mem_nil
  · intro id i h
    cases h
  · exact fun a h => absurd h List.not_mem_nil
  · intro i record h
    cases h
  · exact fun _ source h => absurd h List.not_mem_nil
  intro a
  exact iff_of_false (Finset.notMem_empty a) List.not_mem_nil

theorem created_aliases (declarations : List ReferenceDeclaration) :
    (createReferenceRegistry options declarations).aliases =
      declarations.map ReferenceDeclaration.aliasName := build_aliases {} declarations

theorem run_aliases (r : ReferenceRegistry) (ops : List Op) :
    (run options r ops).aliases = r.aliases := by
  induction ops generalizing r with
  | nil => rfl
  | cons op ops ih => exact (ih (step options r op)).trans (step_shape r op).aliases

end Creation

section LifeCycle

variable (options : ReferenceRegistryOptions)

def Refreshes (r : ReferenceRegistry) (op : Op) (i : ℕ) : Prop :=
  ∃ selector, op = .refresh selector ∧ r.recordIndex selector = some i

structure LifeCycle (declarations : List ReferenceDeclaration) (r : ReferenceRegistry) : Prop where
  listed : r.list.map Reference.aliasName = declarations.map ReferenceDeclaration.aliasName
  ready : ∀ record ∈ r.records,
    record.revision.isSome = true ↔ record.reference.status = .ready
  outside : ∀ record ∈ r.records, record.reference.status = .ready →
    ∀ path, record.reference.source = .localDirectory path →
    ∀ canonicalPath fingerprint resolvedAtMs,
      record.revision = some ⟨.localDirectory canonicalPath fingerprint, resolvedAtMs⟩ →
      isPathWithin options.lower options.workspaceRoot canonicalPath = false
  duplicate : ∀ i j record other, i < j → r.records[i]? = some record →
    r.records[j]? = some other → record.reference.aliasName = other.reference.aliasName →
    (∀ selector, r.recordIndex selector ≠ some j) ∧ other.reference.status ≠ .ready
  pinned : options.allowMutableRefs = false →
    ∀ source ∈ r.calls.resolved, isBranchPinned source = false
  apart : ∀ op i, ¬ Refreshes r op i → (step options r op).records[i]? = r.records[i]?
  refreshed : ∀ selector i record, r.recordIndex selector = some i → r.records[i]? = some record →
    ∃ after, (step options r (.refresh selector)).records[i]? = some after ∧
      RecordRefreshed options r.calls record after

variable {options}

theorem selected_first {r : ReferenceRegistry} (hr : Sound options r) {selector : Text} {i : ℕ}
    (h : r.recordIndex selector = some i) : ∃ a, r.aliases.idxOf? a = some i := by
  rw [recordIndex, Option.or_eq_some_iff] at h
  rcases h with h | ⟨-, h⟩
  · exact ⟨selector, by rw [← hr.byAlias]; exact h⟩
  · obtain ⟨a, ha, -⟩ := hr.byId selector i h
    exact ⟨a, ha⟩

theorem alias_at {r : ReferenceRegistry} {i : ℕ} {record : ReferenceRecord}
    (h : r.records[i]? = some record) : r.aliases[i]? = some record.reference.aliasName := by
  rw [aliases, List.getElem?_map, h]
  rfl

theorem first_alias {names : List Text} {a : Text} {i : ℕ} (h : names.idxOf? a = some i) :
    names[i]? = some a ∧ ∀ j < i, names[j]? ≠ some a := by
  obtain ⟨hlength, hat, hbefore⟩ := List.idxOf?_eq_some_iff.mp h
  constructor
  · rw [List.getElem?_eq_getElem hlength, hat]
  · intro j hj hsame
    obtain ⟨hj', hat'⟩ := List.getElem?_eq_some_iff.mp hsame
    exact hbefore j hj hat'

theorem duplicate_unaddressed {r : ReferenceRegistry} (hr : Sound options r) {i j : ℕ}
    {record other : ReferenceRecord} (hij : i < j) (hi : r.records[i]? = some record)
    (hj : r.records[j]? = some other)
    (hsame : record.reference.aliasName = other.reference.aliasName) :
    (∀ selector, r.recordIndex selector ≠ some j) ∧ other.reference.status ≠ .ready := by
  have hnot : ∀ a, r.aliases.idxOf? a ≠ some j := by
    intro a hfirst
    obtain ⟨hat, hbefore⟩ := first_alias hfirst
    rw [alias_at hj, Option.some.injEq] at hat
    apply hbefore i hij
    rw [alias_at hi, hsame, hat]
  constructor
  · intro selector hselector
    obtain ⟨a, ha⟩ := selected_first hr hselector
    exact hnot a ha
  · rw [hr.duplicates j other hj (hnot _)]
    decide

theorem sound_apart (r : ReferenceRegistry) (op : Op) (i : ℕ) (h : ¬ Refreshes r op i) :
    (step options r op).records[i]? = r.records[i]? := by
  cases op with
  | bindTask taskId => rfl
  | refresh selector =>
    show (r.refresh options selector).1.records[i]? = _
    rcases refresh_cases r selector with hstep | ⟨j, record, hindex, -, hstep⟩
    · rw [hstep]
    · rw [hstep]
      apply List.getElem?_set_ne
      rintro rfl
      exact h ⟨selector, rfl, hindex⟩

theorem sound_refreshed {r : ReferenceRegistry} (hr : Sound options r) {selector : Text} {i : ℕ}
    {record : ReferenceRecord} (hindex : r.recordIndex selector = some i)
    (hrecord : r.records[i]? = some record) :
    ∃ after, (step options r (.refresh selector)).records[i]? = some after ∧
      RecordRefreshed options r.calls record after := by
  obtain ⟨hlength, -⟩ := List.getElem?_eq_some_iff.mp hrecord
  refine ⟨_, ?_, record_refreshed r.calls (hr.records record (List.mem_of_getElem? hrecord))⟩
  show (r.refresh options selector).1.records[i]? = _
  rw [refresh, hindex]
  dsimp only
  rw [hrecord]
  exact List.getElem?_set_self hlength

theorem registry_life_cycle (options : ReferenceRegistryOptions)
    (declarations : List ReferenceDeclaration) (ops : List Op) :
    LifeCycle options declarations
      (run options (createReferenceRegistry options declarations) ops) := by
  have hr := run_sound (@created_sound options declarations) ops
  constructor
  · rw [list, List.map_map]
    exact (run_aliases _ ops).trans (created_aliases declarations)
  · exact fun record hmem => (hr.records record hmem).ready
  · intro record hmem _ path hsource canonicalPath fingerprint resolvedAtMs hrevision
    have houtside := (hr.records record hmem).outside _ hrevision
    rw [hsource] at houtside
    exact houtside
  · exact fun i j record other => duplicate_unaddressed hr
  · exact hr.immutable
  · exact sound_apart _
  · exact fun selector i record => sound_refreshed hr

end LifeCycle

end ReferenceRegistry

end Siralos.References
