import Siralos.ReferenceRegistry

/-!
# Task bindings

A binding serves the revisions of its creation as long as it is live. Liveness is looked up by task
id, so a binding that left the ring serves again when its task id is bound once more.
-/

set_option autoImplicit false

namespace Siralos.References.ReferenceRegistry

section Traces

variable (options : ReferenceRegistryOptions)

/-- A registry with every binding it returned, each with the revisions of that moment. -/
structure Trace where
  registry : ReferenceRegistry
  issued : List (ReferenceTaskBinding × (Text → Option ReferenceRevision))

def traceStep (t : Trace) : Op → Trace
  | .bindTask taskId =>
    ⟨(t.registry.bindTask options taskId).1,
      t.issued ++ [((t.registry.bindTask options taskId).2, t.registry.revision)]⟩
  | .refresh selector => ⟨(t.registry.refresh options selector).1, t.issued⟩

def trace (declarations : List ReferenceDeclaration) (ops : List Op) : Trace :=
  ops.foldl (traceStep options) ⟨createReferenceRegistry options declarations, []⟩

def CollisionFree (declarations : List ReferenceDeclaration) : Prop :=
  ∀ a ∈ declarations.map ReferenceDeclaration.aliasName,
    ∀ b ∈ declarations.map ReferenceDeclaration.aliasName,
      createReferenceId options.sha256Hex a = createReferenceId options.sha256Hex b → a = b

/-- The oldest bindings, those that left the ring. -/
def Trace.Evicted (t : Trace) (i : ℕ) : Prop :=
  i + t.registry.bindings.length < t.issued.length

structure BindingsTruthful (t : Trace) : Prop where
  evicted : ∀ i entry, t.issued[i]? = some entry → t.Evicted i →
    ∀ selector, t.registry.boundRevision entry.1 selector = none
  live : ∀ i entry, t.issued[i]? = some entry → ¬ t.Evicted i →
    ∀ selector, t.registry.boundRevision entry.1 selector = entry.2 selector

/-- No live binding has the task id of an evicted one that holds a revision. -/
def NoTaskReused (t : Trace) : Prop :=
  ∀ i entry, t.issued[i]? = some entry → t.Evicted i →
    (∃ id, (entry.1.revisions.lookup id).isSome = true) →
    ∀ live ∈ t.registry.bindings, live.taskId ≠ entry.1.taskId

end Traces

section Snapshots

variable {options : ReferenceRegistryOptions}

/-- The id of the selected reference; it does not change. -/
def idAt (options : ReferenceRegistryOptions) (r : ReferenceRegistry) (selector : Text) :
    Option Text :=
  (r.recordIndex selector).bind fun i =>
    r.aliases[i]?.map (createReferenceId options.sha256Hex)

theorem same_id_at {r r' : ReferenceRegistry} (h : SameShape r r') (selector : Text) :
    idAt options r' selector = idAt options r selector := by
  rw [idAt, idAt, recordIndex, recordIndex, h.byAlias, h.byId, h.aliases]

theorem record_id_at {r : ReferenceRegistry} (hr : Sound options r) (selector : Text) :
    (r.recordAt selector).map ReferenceRecord.id = idAt options r selector := by
  rw [recordAt, idAt]
  cases r.recordIndex selector with
  | none => rfl
  | some i =>
    show (r.records[i]?).map ReferenceRecord.id = (r.aliases[i]?).map _
    rw [aliases, List.getElem?_map, Option.map_map]
    cases hrecord : r.records[i]? with
    | none => rfl
    | some record => exact congrArg some (hr.records record (List.mem_of_getElem? hrecord)).id

theorem served_eq {r : ReferenceRegistry} (hr : Sound options r) (selector : Text)
    (binding : ReferenceTaskBinding) :
    ((r.recordAt selector).bind fun record => binding.revisions.lookup record.id) =
      (idAt options r selector).bind binding.revisions.lookup := by
  rw [← record_id_at hr]
  cases r.recordAt selector <;> rfl

def contribution (record : ReferenceRecord) : Option ReferenceRevision :=
  if record.reference.status = .ready then record.revision else none

theorem sound_contribution {record : ReferenceRecord} (h : RecordSound options record) :
    contribution record = record.revision := by
  unfold contribution
  by_cases hready : record.reference.status = .ready
  · exact if_pos hready
  · rw [if_neg hready]
    cases hrevision : record.revision with
    | none => rfl
    | some revision => exact absurd (h.ready.mp (by rw [hrevision]; rfl)) hready

theorem snapshot_step (revisions : TextMap ReferenceRevision) (record : ReferenceRecord)
    (id : Text) :
    (snapshotStep revisions record).lookup id =
      if record.id = id then (contribution record).or (revisions.lookup id)
      else revisions.lookup id := by
  unfold snapshotStep contribution
  by_cases hready : record.reference.status = .ready
  · rw [if_pos hready, if_pos hready]
    cases record.revision with
    | none => exact (ite_self _).symm
    | some revision =>
      dsimp only
      by_cases hid : record.id = id
      · subst hid
        rw [if_pos rfl, AList.lookup_insert]
        rfl
      · rw [if_neg hid, AList.lookup_insert_ne (Ne.symm hid)]
  · rw [if_neg hready, if_neg hready]
    exact (ite_self _).symm

theorem snapshot_silent (records : List ReferenceRecord) (revisions : TextMap ReferenceRevision)
    (id : Text) (h : ∀ record ∈ records, record.id = id → contribution record = none) :
    (records.foldl snapshotStep revisions).lookup id = revisions.lookup id := by
  induction records generalizing revisions with
  | nil => rfl
  | cons record records ih =>
    rw [List.foldl_cons, ih _ fun other hother => h other (List.mem_cons_of_mem _ hother),
      snapshot_step]
    by_cases hid : record.id = id
    · rw [if_pos hid, h record List.mem_cons_self hid]
      rfl
    · exact if_neg hid

theorem snapshot_lookup {r : ReferenceRegistry} (hr : Sound options r)
    (hfree : ∀ a ∈ r.aliases, ∀ b ∈ r.aliases,
      createReferenceId options.sha256Hex a = createReferenceId options.sha256Hex b → a = b)
    {i : ℕ} {record : ReferenceRecord} (hrecord : r.records[i]? = some record)
    (hfirst : r.aliases.idxOf? record.reference.aliasName = some i) :
    (r.records.foldl snapshotStep ∅).lookup record.id = record.revision := by
  have hsound := hr.records record (List.mem_of_getElem? hrecord)
  have hothers : ∀ j other, j ≠ i → r.records[j]? = some other → other.id = record.id →
      contribution other = none := by
    intro j other hji hother hid
    have hsame := hr.records other (List.mem_of_getElem? hother)
    rw [hsame.id, hsound.id] at hid
    have halias := hfree _ (List.mem_of_getElem? (alias_at hother)) _
      (List.mem_of_getElem? (alias_at hrecord)) hid
    have hdeclined := hr.duplicates j other hother (by
      rw [halias, hfirst]
      exact fun h => hji (Option.some.inj h).symm)
    rw [contribution, hdeclined]
    rfl
  obtain ⟨hlength, hat⟩ := List.getElem?_eq_some_iff.mp hrecord
  have hsplit : r.records = r.records.take i ++ record :: r.records.drop (i + 1) := by
    rw [← hat, List.getElem_cons_drop, List.take_append_drop]
  rw [hsplit, List.foldl_append, List.foldl_cons, snapshot_silent, snapshot_step, if_pos rfl,
    snapshot_silent, sound_contribution hsound]
  · exact Option.or_none
  · intro other hother hid
    obtain ⟨j, hj⟩ := List.mem_iff_getElem?.mp hother
    have hlt : j < i := by
      obtain ⟨hlen, -⟩ := List.getElem?_eq_some_iff.mp hj
      rw [List.length_take] at hlen
      omega
    rw [List.getElem?_take_of_lt hlt] at hj
    exact hothers j other (by omega) hj hid
  · intro other hother hid
    obtain ⟨j, hj⟩ := List.mem_iff_getElem?.mp hother
    rw [List.getElem?_drop] at hj
    exact hothers (i + 1 + j) other (by omega) hj hid

theorem snapshot_source {records : List ReferenceRecord} {id : Text}
    (h : ((records.foldl snapshotStep ∅).lookup id).isSome = true) :
    ∃ record ∈ records, record.id = id ∧ contribution record ≠ none := by
  by_contra hnone
  push Not at hnone
  rw [snapshot_silent records ∅ id hnone] at h
  cases h

end Snapshots

section Serving

variable {options : ReferenceRegistryOptions} {declarations : List ReferenceDeclaration}

structure Faithful (options : ReferenceRegistryOptions) (declarations : List ReferenceDeclaration)
    (t : Trace) : Prop where
  sound : Sound options t.registry
  aliases : t.registry.aliases = declarations.map ReferenceDeclaration.aliasName
  ring : t.registry.bindings <:+ t.issued.map Prod.fst
  served : ∀ entry ∈ t.issued, ∀ selector,
    (idAt options t.registry selector).bind entry.1.revisions.lookup = entry.2 selector
  serving : ∀ entry ∈ t.issued, ∀ id, (entry.1.revisions.lookup id).isSome = true →
    ∃ selector, idAt options t.registry selector = some id

theorem created_faithful :
    Faithful options declarations ⟨createReferenceRegistry options declarations, []⟩ where
  sound := created_sound declarations
  aliases := created_aliases declarations
  ring := by
    have hbindings : (createReferenceRegistry options declarations).bindings = [] :=
      build_bindings {} declarations
    rw [hbindings]
    exact List.nil_suffix
  served := fun entry h => absurd h List.not_mem_nil
  serving := fun entry h => absurd h List.not_mem_nil

theorem bound_served {r : ReferenceRegistry} (hr : Sound options r)
    (hfree : ∀ a ∈ r.aliases, ∀ b ∈ r.aliases,
      createReferenceId options.sha256Hex a = createReferenceId options.sha256Hex b → a = b)
    (taskId selector : Text) :
    (idAt options r selector).bind (r.bindTask options taskId).2.revisions.lookup =
      r.revision selector := by
  rw [← served_eq hr selector, revision]
  cases hindex : r.recordIndex selector with
  | none => simp [recordAt, hindex]
  | some i =>
    obtain ⟨a, hfirst⟩ := selected_first hr hindex
    have hat := (first_alias hfirst).1
    rw [aliases, List.getElem?_map] at hat
    obtain ⟨record, hrecord, rfl⟩ := Option.map_eq_some_iff.mp hat
    have hselected : r.recordAt selector = some record := by
      rw [recordAt, hindex]
      exact hrecord
    rw [hselected]
    exact snapshot_lookup hr hfree hrecord hfirst

theorem bound_serving {r : ReferenceRegistry} (hr : Sound options r) (taskId id : Text)
    (h : ((r.bindTask options taskId).2.revisions.lookup id).isSome = true) :
    ∃ selector, idAt options r selector = some id := by
  obtain ⟨record, hmem, hid, hsome⟩ := snapshot_source h
  obtain ⟨i, hrecord⟩ := List.mem_iff_getElem?.mp hmem
  have hready : record.reference.status = .ready := by
    by_contra hnot
    exact hsome (if_neg hnot)
  have hfirst : r.aliases.idxOf? record.reference.aliasName = some i := by
    by_contra hlater
    rw [hr.duplicates i record hrecord hlater] at hready
    cases hready
  refine ⟨record.reference.aliasName, ?_⟩
  rw [idAt, recordIndex, hr.byAlias, hfirst]
  show (r.aliases[i]?).map _ = some id
  rw [alias_at hrecord, Option.map_some, ← (hr.records record hmem).id, hid]

theorem step_faithful (hfree : CollisionFree options declarations) {t : Trace}
    (ht : Faithful options declarations t) (op : Op) :
    Faithful options declarations (traceStep options t op) := by
  have hregistry : (traceStep options t op).registry = step options t.registry op := by
    cases op <;> rfl
  have hshape := @step_shape options t.registry op
  have hid : ∀ selector, idAt options (traceStep options t op).registry selector =
      idAt options t.registry selector := by
    intro selector
    rw [hregistry]
    exact same_id_at hshape selector
  have hissued : ∀ entry ∈ (traceStep options t op).issued, entry ∈ t.issued ∨
      ∃ taskId, entry = ((t.registry.bindTask options taskId).2, t.registry.revision) := by
    intro entry hentry
    cases op with
    | refresh selector => exact Or.inl hentry
    | bindTask taskId =>
      rcases List.mem_append.mp hentry with hentry | hentry
      · exact Or.inl hentry
      · exact Or.inr ⟨taskId, List.mem_singleton.mp hentry⟩
  constructor
  · rw [hregistry]
    exact step_sound ht.sound op
  · rw [hregistry, hshape.aliases]
    exact ht.aliases
  · cases op with
    | refresh selector =>
      have hbindings : (t.registry.refresh options selector).1.bindings =
          t.registry.bindings := by
        rcases refresh_cases t.registry selector with h | ⟨i, record, -, -, h⟩
        · rw [h]
        · rw [h]
      show (t.registry.refresh options selector).1.bindings <:+ t.issued.map Prod.fst
      rw [hbindings]
      exact ht.ring
    | bindTask taskId =>
      show (t.registry.bindings ++ [_]).drop _ <:+ (t.issued ++ [_]).map Prod.fst
      rw [List.map_append, List.map_singleton]
      obtain ⟨before, hbefore⟩ := ht.ring
      refine (List.drop_suffix _ _).trans ⟨before, ?_⟩
      rw [← hbefore, List.append_assoc]
      rfl
  · intro entry hentry selector
    rw [hid]
    rcases hissued entry hentry with hold | ⟨taskId, rfl⟩
    · exact ht.served entry hold selector
    · apply bound_served ht.sound
      rw [ht.aliases]
      exact hfree
  · intro entry hentry id hsome
    simp only [hid]
    rcases hissued entry hentry with hold | ⟨taskId, rfl⟩
    · exact ht.serving entry hold id hsome
    · exact bound_serving ht.sound taskId id hsome

theorem trace_faithful (hfree : CollisionFree options declarations) (ops : List Op) :
    Faithful options declarations (trace options declarations ops) := by
  have hrun : ∀ t, Faithful options declarations t →
      Faithful options declarations (ops.foldl (traceStep options) t) := by
    induction ops with
    | nil => exact fun t ht => ht
    | cons op ops ih => exact fun t ht => ih _ (step_faithful hfree ht op)
  exact hrun _ created_faithful

theorem live_binding {t : Trace} (ht : Faithful options declarations t) {i : ℕ}
    {entry : ReferenceTaskBinding × (Text → Option ReferenceRevision)}
    (hentry : t.issued[i]? = some entry) (hlive : ¬ t.Evicted i) :
    t.registry.isLive entry.1 = true := by
  obtain ⟨before, hbefore⟩ := ht.ring
  have hlength := congrArg List.length hbefore
  rw [List.length_append, List.length_map] at hlength
  rw [Trace.Evicted] at hlive
  have hat : (before ++ t.registry.bindings)[i]? = some entry.1 := by
    rw [hbefore, List.getElem?_map, hentry]
    rfl
  rw [List.getElem?_append_right (by omega)] at hat
  rw [isLive, List.any_eq_true]
  exact ⟨entry.1, List.mem_of_getElem? hat, beq_self_eq_true _⟩

theorem bound_revision_eq {t : Trace} (ht : Faithful options declarations t)
    {entry : ReferenceTaskBinding × (Text → Option ReferenceRevision)} (hentry : entry ∈ t.issued)
    (selector : Text) : t.registry.boundRevision entry.1 selector =
      if t.registry.isLive entry.1 then entry.2 selector else none := by
  rw [boundRevision, served_eq ht.sound, ht.served entry hentry]

/-- The bindings serve truthfully exactly when no live one has the task id of an evicted one. -/
theorem bindings_truthful_iff (options : ReferenceRegistryOptions)
    (declarations : List ReferenceDeclaration) (ops : List Op)
    (hfree : CollisionFree options declarations) :
    BindingsTruthful (trace options declarations ops) ↔
      NoTaskReused (trace options declarations ops) := by
  have ht := trace_faithful hfree ops
  constructor
  · intro h i entry hentry hevicted hsome live hlive hsame
    obtain ⟨id, hid⟩ := hsome
    have hmem := List.mem_of_getElem? hentry
    obtain ⟨selector, hselector⟩ := ht.serving entry hmem id hid
    have hnone := h.evicted i entry hentry hevicted selector
    have hany : (trace options declarations ops).registry.isLive entry.1 = true := by
      rw [isLive, List.any_eq_true]
      exact ⟨live, hlive, by rw [hsame]; exact beq_self_eq_true _⟩
    rw [bound_revision_eq ht hmem, if_pos hany, ← ht.served entry hmem, hselector] at hnone
    rw [Option.bind_some] at hnone
    rw [hnone] at hid
    cases hid
  · intro h
    constructor
    · intro i entry hentry hevicted selector
      have hmem := List.mem_of_getElem? hentry
      rw [bound_revision_eq ht hmem, ← ht.served entry hmem]
      by_cases hsome : ∃ id, (entry.1.revisions.lookup id).isSome = true
      · have hdead : ¬ (trace options declarations ops).registry.isLive entry.1 = true := by
          rw [isLive, List.any_eq_true]
          rintro ⟨live, hlive, hsame⟩
          exact h i entry hentry hevicted hsome live hlive (eq_of_beq hsame)
        exact if_neg hdead
      · have hempty : ∀ id, entry.1.revisions.lookup id = none := by
          intro id
          by_contra hnot
          exact hsome ⟨id, Option.isSome_iff_ne_none.mpr hnot⟩
        have hnone : (idAt options (trace options declarations ops).registry selector).bind
            entry.1.revisions.lookup = none := by
          cases idAt options (trace options declarations ops).registry selector with
          | none => rfl
          | some id => exact hempty id
        rw [hnone]
        exact ite_self _
    · intro i entry hentry hlive selector
      rw [bound_revision_eq ht (List.mem_of_getElem? hentry),
        if_pos (live_binding ht hentry hlive)]

end Serving

/-- One repository reference that always resolves, and the ring of the source. -/
def sampleOptions : ReferenceRegistryOptions where
  sha256Hex := fun _ => "f46fa8d297f0e74dc552904ba32fc1e3edb2734e4f40324a1fe43f0b94ce35e2"
  lower := plainCase
  trustFor := fun _ => .explicitUser
  workspaceRoot := "/w"
  resolver := fun _ _ _ => .resolved (.repository "https://github.com/o/r" "0123456"
    (.commit "0123456"))
  allowMutableRefs := false
  now := id
  maxRevisionBindings := 64

def sampleDeclarations : List ReferenceDeclaration :=
  [⟨"aa", .repository, .repository "https://github.com/o/r" (.commit "0123456"), none⟩]

theorem sample_collision_free : CollisionFree sampleOptions sampleDeclarations := by
  intro a ha b hb _
  rw [List.mem_singleton.mp ha, List.mem_singleton.mp hb]

/-- The digests of the two aliases. -/
def pairSha (text : Text) : Text :=
  if text = "\x7b\"alias\":\"aa\"\x7d".toList then
    "f46fa8d297f0e74dc552904ba32fc1e3edb2734e4f40324a1fe43f0b94ce35e2"
  else "2bb1eff2b8632bf2523332b0ee3dca0970f9149fb9124e6404de928f74e70e8d"

/-- Two references and a ring of two bindings. -/
def pairOptions : ReferenceRegistryOptions :=
  { sampleOptions with sha256Hex := pairSha, maxRevisionBindings := 2 }

def pairDeclarations : List ReferenceDeclaration :=
  sampleDeclarations ++
    [⟨"bb", .repository, .repository "https://github.com/o/s" (.commit "0123456"), none⟩]

theorem pair_collision_free : CollisionFree pairOptions pairDeclarations := by
  unfold CollisionFree
  decide

def pairOps : List Op := [.bindTask ['t'], .bindTask ['u'], .refresh ['b', 'b'], .bindTask ['v']]

/-- The third binding pushes the first one out. -/
theorem bindings_truthful_sample :
    (trace pairOptions pairDeclarations pairOps).Evicted 0 ∧
      (BindingsTruthful (trace pairOptions pairDeclarations pairOps) ↔
        NoTaskReused (trace pairOptions pairDeclarations pairOps)) := by
  refine ⟨?_, bindings_truthful_iff pairOptions pairDeclarations pairOps pair_collision_free⟩
  unfold Trace.Evicted
  decide +kernel

/-- The first of 65 bindings of one task left the ring and serves on. -/
theorem bindings_truthful_fails :
    ¬ ∀ (options : ReferenceRegistryOptions) (declarations : List ReferenceDeclaration)
      (ops : List Op), CollisionFree options declarations →
      BindingsTruthful (trace options declarations ops) := by
  intro h
  have ht := h sampleOptions sampleDeclarations (List.replicate 65 (.bindTask ['t']))
    sample_collision_free
  have hserved : (trace sampleOptions sampleDeclarations
      (List.replicate 65 (.bindTask ['t']))).issued[0]?.any (fun entry =>
        ((trace sampleOptions sampleDeclarations
          (List.replicate 65 (.bindTask ['t']))).registry.boundRevision entry.1
            ['a', 'a']).isSome) = true := by
    decide +kernel
  have hevicted : (trace sampleOptions sampleDeclarations
      (List.replicate 65 (.bindTask ['t']))).Evicted 0 := by
    unfold Trace.Evicted
    decide +kernel
  obtain ⟨entry, hentry, hsome⟩ := (Option.any_eq_true _ _).mp hserved
  rw [ht.evicted 0 entry hentry hevicted] at hsome
  cases hsome

end Siralos.References.ReferenceRegistry
