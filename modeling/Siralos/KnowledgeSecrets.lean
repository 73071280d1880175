import Siralos.Text
import Siralos.KnowledgeRevisions

/-!
# Secrets and stored knowledge

A proposal screens the content for the injected secrets and copies the subject key, the type, the
volatility and the provenance as they stand. Stored knowledge is free of secrets exactly when no
stored proposal carries one in what is copied.
-/

set_option autoImplicit false

namespace Siralos.Knowledge

open Json

mutual

/-- Every string of a value, its object keys included. -/
def valueTexts : Value → List Text
  | .string text => [text]
  | .array values => listTexts values
  | .object fields => fieldTexts fields
  | _ => []

def listTexts : List Value → List Text
  | [] => []
  | value :: values => valueTexts value ++ listTexts values

def fieldTexts : List (Text × Value) → List Text
  | [] => []
  | (key, value) :: fields => key :: (valueTexts value ++ fieldTexts fields)

end

def Fact.texts (fact : Fact) : List Text :=
  fact.content :: (fact.subjectKey.toList ++ [fact.kind, fact.volatility] ++
    valueTexts fact.provenance)

def FreeOf (secrets texts : List Text) : Prop :=
  ∀ secret ∈ secrets, ∀ text ∈ texts, ¬ secret <:+: text

def Secretless (secrets : List Text) (fact : Fact) : Prop := FreeOf secrets fact.texts

/-- What a stored fact takes from a candidate beside the screened content. -/
def copiedTexts (candidate : Value) : List Text :=
  (KnowledgeCoordinator.subjectOf candidate).toList ++
    [((valueAt candidate "type").asStr).getD "fact",
      ((valueAt candidate "proposedVolatility").asStr).getD "normal"] ++
    valueTexts ((candidate.get "provenance").getD (.array []))

theorem fixed_secretless (secrets : List Text) (fact : Fact) :
    Secretless secrets fact.fixed ↔ Secretless secrets fact := Iff.rfl

theorem free_cons (secrets : List Text) (text : Text) (texts : List Text) :
    FreeOf secrets (text :: texts) ↔
      (∀ secret ∈ secrets, ¬ secret <:+: text) ∧ FreeOf secrets texts := by
  constructor
  · intro h
    constructor
    · intro secret hsecret
      exact h secret hsecret text List.mem_cons_self
    · intro secret hsecret other hother
      exact h secret hsecret other (List.mem_cons_of_mem _ hother)
  · rintro ⟨hfirst, hrest⟩ secret hsecret other hother
    rcases List.mem_cons.mp hother with rfl | hother
    · exact hfirst secret hsecret
    · exact hrest secret hsecret other hother

namespace KnowledgeCoordinator

section States

variable (lib : KnowledgeLibrary) (k : KnowledgeCoordinator)

/-- No fact that an operation returns has a string that contains a secret. -/
structure NoSecrets : Prop where
  fact : ∀ s f, k.fact s = some f → Secretless k.ports.secrets f
  history : ∀ s, ∀ f ∈ k.history s, Secretless k.ports.secrets f
  active : ∀ f ∈ k.activeFacts, Secretless k.ports.secrets f
  pinned : ∀ f ∈ k.pinnedFacts, Secretless k.ports.secrets f
  retrieved : ∀ query k' facts trace, k.retrieve lib query = some (k', facts, trace) →
    ∀ f ∈ facts, Secretless k.ports.secrets f

/-- The candidate passes every check, so that a fact is stored for it. -/
def Stores (candidate : Value) : Prop :=
  validateCandidate lib k.ports k.limits candidate = .ok () ∧
    match subjectOf candidate with
    | some s => k.subjectRefusal candidate s = none
    | none => k.held < k.limits.maxFacts

def StoresClean : Call → Prop
  | .propose candidate => Stores lib k candidate → FreeOf k.ports.secrets (copiedTexts candidate)
  | _ => True

def RunStoresClean (k : KnowledgeCoordinator) : List Call → Prop
  | [] => True
  | call :: calls => StoresClean lib k call ∧ RunStoresClean (step lib k call) calls

def RunNoSecrets (k : KnowledgeCoordinator) : List Call → Prop
  | [] => NoSecrets lib k
  | call :: calls => NoSecrets lib k ∧ RunNoSecrets (step lib k call) calls

/-- The stored facts, in the histories and apart from any subject. -/
structure StoredSecretless : Prop where
  history : ∀ s, ∀ f ∈ k.history s, Secretless k.ports.secrets f
  oneOff : ∀ id f, k.oneOff.lookup id = some f → Secretless k.ports.secrets f

end States

section Facts

variable (lib : KnowledgeLibrary) {k : KnowledgeCoordinator}

theorem fact_history {s : Text} {f : Fact} (h : k.fact s = some f) : f ∈ k.history s := by
  unfold fact at h
  obtain ⟨entry, hentry, h⟩ := Option.bind_eq_some_iff.mp h
  obtain ⟨index, -, h⟩ := Option.bind_eq_some_iff.mp h
  rw [history, hentry]
  exact List.mem_of_getElem? h

theorem active_stored {f : Fact} (h : f ∈ k.activeFacts) :
    (∃ s, f ∈ k.history s) ∨ ∃ id, k.oneOff.lookup id = some f := by
  rw [activeFacts, List.mem_mergeSort] at h
  rcases List.mem_append.mp h with h | h
  · obtain ⟨s, -, hfact⟩ := List.mem_filterMap.mp h
    exact Or.inl ⟨s, fact_history hfact⟩
  · obtain ⟨id, -, hlookup⟩ := List.mem_filterMap.mp h
    exact Or.inr ⟨id, hlookup⟩

theorem one_off_active {id : Text} {f : Fact} (h : k.oneOff.lookup id = some f) :
    f ∈ k.activeFacts := by
  rw [activeFacts, List.mem_mergeSort]
  apply List.mem_append_right
  refine List.mem_filterMap.mpr ⟨id, ?_, h⟩
  rw [mem_sorted_keys, ← AList.lookup_isSome, h]
  rfl

theorem considered_active (q : Query) (atMs : ℕ) (facts : List Fact) (considered : List Considered)
    (h : considerAll lib q atMs facts = some considered) : ∀ c ∈ considered, c.fact ∈ facts := by
  induction facts generalizing considered with
  | nil =>
    cases h
    nofun
  | cons f facts ih =>
    rw [considerAll] at h
    split at h
    · obtain ⟨first, hfirst, h⟩ := Option.bind_eq_some_iff.mp h
      obtain ⟨rest, hrest, h⟩ := Option.bind_eq_some_iff.mp h
      simp only [Option.some.injEq] at h
      subst h
      intro c hc
      rcases List.mem_append.mp hc with hc | hc
      · cases first with
        | none => cases hc
        | some c' =>
          cases List.mem_singleton.mp hc
          rw [consider_fact lib q atMs f c hfirst]
          exact List.mem_cons_self
      · exact List.mem_cons_of_mem _ (ih rest hrest c hc)
    · intro c hc
      exact List.mem_cons_of_mem _ (ih considered h c hc)

theorem retrieved_active {k' : KnowledgeCoordinator} {query : Value} {facts : List Fact}
    {trace : RetrievalTrace} (h : k.retrieve lib query = some (k', facts, trace)) :
    ∀ f ∈ facts, f ∈ k.activeFacts := by
  unfold retrieve at h
  obtain ⟨considered, hconsidered, h⟩ := Option.bind_eq_some_iff.mp h
  simp only [Option.some.injEq, Prod.mk.injEq] at h
  obtain ⟨-, rfl, -⟩ := h
  intro f hf
  rcases selected_facts _ _ _ _ f hf with hf | ⟨c, hc, rfl⟩
  · cases hf
  · exact considered_active lib _ _ _ considered hconsidered c (List.mem_mergeSort.mp hc)

theorem no_secrets_iff : NoSecrets lib k ↔ StoredSecretless k := by
  constructor
  · intro h
    exact ⟨h.history, fun id f hf => h.active f (one_off_active hf)⟩
  · intro h
    have hactive : ∀ f ∈ k.activeFacts, Secretless k.ports.secrets f := by
      intro f hf
      rcases active_stored hf with ⟨s, hs⟩ | ⟨id, hid⟩
      · exact h.history s f hs
      · exact h.oneOff id f hid
    constructor
    · intro s f hf
      exact h.history s f (fact_history hf)
    · exact h.history
    · exact hactive
    · intro f hf
      obtain ⟨s, -, hfact⟩ := (mem_pinned_facts k f).mp hf
      exact h.history s f (fact_history hfact)
    · intro query k' facts trace hretrieve f hf
      exact hactive f (retrieved_active lib hretrieve f hf)

end Facts

section Steps

variable (lib : KnowledgeLibrary) {k : KnowledgeCoordinator}

theorem replaced_ports (s : Text) (activation : Activation) :
    (k.replaceActivation s activation).ports = k.ports := by
  unfold replaceActivation
  split <;> rfl

theorem replaced_one_off (s : Text) (activation : Activation) :
    (k.replaceActivation s activation).oneOff = k.oneOff := by
  unfold replaceActivation
  split <;> rfl

theorem same_secretless {k' : KnowledgeCoordinator} (hports : k'.ports = k.ports)
    (hhistory : ∀ s, (k'.history s).map Fact.fixed = (k.history s).map Fact.fixed)
    (honeOff : k'.oneOff = k.oneOff) (hk : StoredSecretless k) : StoredSecretless k' := by
  constructor
  · intro s f hf
    have hmem : f.fixed ∈ (k.history s).map Fact.fixed := by
      rw [← hhistory]
      exact List.mem_map_of_mem hf
    obtain ⟨before, hbefore, hsame⟩ := List.mem_map.mp hmem
    have hclean := hk.history s before hbefore
    rw [hports, ← fixed_secretless, ← hsame, fixed_secretless]
    exact hclean
  · intro id f hf
    rw [hports]
    exact hk.oneOff id f (honeOff ▸ hf)

theorem valid_content {candidate : Value}
    (h : validateCandidate lib k.ports k.limits candidate = .ok ()) :
    ∀ secret ∈ k.ports.secrets, ¬ secret <:+: textAt candidate "content" := by
  simp only [validateCandidate, except_bind_ok] at h
  obtain ⟨-, -, -, -, -, -, -, -, _, hsecret, -⟩ := h
  intro secret hmem
  unfold requireThat at hsecret
  split at hsecret
  · rename_i hall
    have hnot := List.all_eq_true.mp hall secret hmem
    rw [Bool.not_eq_true'] at hnot
    exact of_decide_eq_false hnot
  · cases hsecret

theorem built_secretless {candidate : Value} (activation : Activation) (revision : ℕ)
    (h : validateCandidate lib k.ports k.limits candidate = .ok ()) :
    Secretless k.ports.secrets (buildFact lib.sha256Hex k.ports (subjectOf candidate) revision
        candidate activation) ↔
      FreeOf k.ports.secrets (copiedTexts candidate) := by
  have htexts : (buildFact lib.sha256Hex k.ports (subjectOf candidate) revision candidate
      activation).texts = textAt candidate "content" :: copiedTexts candidate := rfl
  rw [Secretless, htexts, free_cons]
  exact and_iff_right (valid_content lib h)

theorem stored_secretless {candidate : Value} {s : Text} (hk : StoredSecretless k)
    (hvalid : validateCandidate lib k.ports k.limits candidate = .ok ())
    (hsubject : subjectOf candidate = some s) :
    StoredSecretless (k.storeRevision lib candidate s).1 ↔
      FreeOf k.ports.secrets (copiedTexts candidate) := by
  have hbuilt : Secretless k.ports.secrets (k.proposedFact lib candidate s) ↔
      FreeOf k.ports.secrets (copiedTexts candidate) := by
    rw [← built_secretless lib _ ((k.history s).length + 1) hvalid, hsubject]
    rfl
  rw [← hbuilt]
  constructor
  · intro h
    apply h.history s
    rw [stored_history]
    exact List.mem_append_right _ List.mem_cons_self
  · intro h
    constructor
    · intro t f hf
      by_cases hts : t = s
      · subst hts
        rw [stored_history] at hf
        rcases List.mem_append.mp hf with hf | hf
        · exact hk.history t f hf
        · rw [List.mem_singleton.mp hf]
          exact h
      · rw [stored_history_ne lib k s candidate t hts] at hf
        exact hk.history t f hf
    · exact hk.oneOff

theorem one_off_secretless {candidate : Value} (hk : StoredSecretless k)
    (hvalid : validateCandidate lib k.ports k.limits candidate = .ok ())
    (hsubject : subjectOf candidate = none) (hroom : k.held < k.limits.maxFacts) :
    StoredSecretless (k.proposeOneOff lib candidate).1 ↔
      FreeOf k.ports.secrets (copiedTexts candidate) := by
  have hbuilt := built_secretless lib .retrieved 1 hvalid
  rw [hsubject] at hbuilt
  rw [proposeOneOff, if_neg (Nat.not_le.mpr hroom), ← hbuilt]
  constructor
  · intro h
    exact h.oneOff _ _ (AList.lookup_insert _)
  · intro h
    constructor
    · exact hk.history
    · intro id f hf
      by_cases hid : id = (buildFact lib.sha256Hex k.ports none 1 candidate .retrieved).id
      · subst hid
        rw [AList.lookup_insert, Option.some.injEq] at hf
        rw [← hf]
        exact h
      · rw [AList.lookup_insert_ne hid] at hf
        exact hk.oneOff id f hf

theorem proposed_secretless (candidate : Value) (hk : StoredSecretless k) :
    StoredSecretless (k.propose lib candidate).1 ↔ StoresClean lib k (.propose candidate) := by
  unfold propose StoresClean Stores
  cases hvalid : validateCandidate lib k.ports k.limits candidate with
  | error reason =>
    refine iff_of_true hk ?_
    rintro ⟨h, -⟩
    rw [hvalid] at h
    cases h
  | ok valid =>
    dsimp only
    cases hsubject : subjectOf candidate with
    | some s =>
      dsimp only
      rw [proposeSubject]
      cases hrefusal : k.subjectRefusal candidate s with
      | some result =>
        refine iff_of_true hk ?_
        rintro ⟨-, h⟩
        cases h
      | none =>
        dsimp only
        rw [stored_secretless lib hk hvalid hsubject]
        exact ⟨fun h _ => h, fun h => h ⟨hvalid, rfl⟩⟩
    | none =>
      dsimp only
      by_cases hroom : k.held < k.limits.maxFacts
      · rw [one_off_secretless lib hk hvalid hsubject hroom]
        exact ⟨fun h _ => h, fun h => h ⟨hvalid, hroom⟩⟩
      · rw [proposeOneOff, if_pos (Nat.not_lt.mp hroom)]
        exact iff_of_true hk fun h => absurd h.2 hroom

theorem step_secretless (call : Call) (hk : StoredSecretless k) :
    StoredSecretless (step lib k call) ↔ StoresClean lib k call := by
  cases call with
  | propose candidate => exact proposed_secretless lib candidate hk
  | pin s =>
    refine iff_of_true ?_ trivial
    show StoredSecretless (k.pin s).1
    rcases pin_cases k s with h | ⟨-, h⟩
    · rwa [h]
    · rw [h]
      exact same_secretless (k := k) (by rw [replaced_ports]) (replaced_history _ s .pinned)
        (by rw [replaced_one_off]) hk
  | unpin s =>
    refine iff_of_true ?_ trivial
    show StoredSecretless (k.unpin s)
    by_cases hpinned : s ∈ k.pinned
    · rw [unpin, if_pos hpinned]
      exact same_secretless (k := k) (by rw [replaced_ports]) (replaced_history _ s .retrieved)
        (by rw [replaced_one_off]) hk
    · rwa [unpin, if_neg hpinned]
  | retire s =>
    refine iff_of_true ?_ trivial
    show StoredSecretless (k.retire s)
    by_cases hheld : s ∈ k.bySubject
    · rw [retire, if_pos hheld]
      exact ⟨hk.history, hk.oneOff⟩
    · rwa [retire, if_neg hheld]
  | retrieve query =>
    refine iff_of_true ?_ trivial
    obtain ⟨trace, h⟩ := retrieved_cases lib k query
    rw [h]
    exact ⟨hk.history, hk.oneOff⟩

theorem new_secretless (ports : KnowledgePorts) (overrides : KnowledgeLimits) :
    StoredSecretless (new ports overrides) := by
  constructor
  · intro s f h
    cases h
  · intro id f h
    cases h

theorem run_secretless (calls : List Call) (hk : StoredSecretless k) :
    RunNoSecrets lib k calls ↔ RunStoresClean lib k calls := by
  induction calls generalizing k with
  | nil => exact iff_of_true ((no_secrets_iff lib).mpr hk) trivial
  | cons call calls ih =>
    have hstep := step_secretless lib call hk
    constructor
    · intro h
      have hnext : StoredSecretless (step lib k call) := by
        apply (no_secrets_iff lib).mp
        cases calls with
        | nil => exact h.2
        | cons _ _ => exact h.2.1
      exact ⟨hstep.mp hnext, (ih hnext).mp h.2⟩
    · intro h
      exact ⟨(no_secrets_iff lib).mpr hk, (ih (hstep.mpr h.1)).mpr h.2⟩

end Steps

/-- Every state of a run is free of secrets exactly when every stored proposal is free of them in
what it copies. -/
theorem no_secrets_stored_iff (lib : KnowledgeLibrary) (ports : KnowledgePorts)
    (overrides : KnowledgeLimits) (calls : List Call) :
    RunNoSecrets lib (new ports overrides) calls ↔
      RunStoresClean lib (new ports overrides) calls :=
  run_secretless lib calls (new_secretless ports overrides)

def secretPorts : KnowledgePorts := ⟨0, ["hunter2".toList], [], none⟩

def secretCalls : List Call :=
  [.propose (.object [("subjectKey", .string ['a']), ("content", .string ['x']),
    ("provenance", .array [.object [("type", .string "evidence".toList),
      ("evidenceId", .string "hunter2".toList)]])])]

theorem no_secrets_fails : ¬ RunNoSecrets pinnedLibrary (new secretPorts {}) secretCalls := by
  have htexts : ((run pinnedLibrary (new secretPorts {}) secretCalls).fact ['a']).any
      (fun f => f.texts.contains "hunter2".toList) = true := by
    decide
  have hports : (run pinnedLibrary (new secretPorts {}) secretCalls).ports.secrets =
      ["hunter2".toList] := by
    decide
  intro h
  have hlast : NoSecrets pinnedLibrary (run pinnedLibrary (new secretPorts {}) secretCalls) := h.2
  obtain ⟨f, hfact, hcontains⟩ := (Option.any_eq_true _ _).mp htexts
  apply hlast.fact ['a'] f hfact "hunter2".toList _ "hunter2".toList _ List.infix_rfl
  · rw [hports]
    exact List.mem_cons_self
  · exact List.contains_iff_mem.mp hcontains

end KnowledgeCoordinator

end Siralos.Knowledge
