import Siralos.Profile
import Siralos.Text

/-!
# The effective run policy

A declared profile narrows the Host rules. The check of an entry and its insertion go together, so
a refusal half way leaves the entries before it in the rules that are handed out.
-/

set_option autoImplicit false

namespace Siralos.Composition

open ToolGate

def ruleName : PermissionRule → Text
  | .allow => "allow"
  | .ask => "ask"
  | .deny => "deny"

def decisionName : PermissionDecision → Text
  | .allow => "allow"
  | .ask _ => "ask"
  | .deny _ => "deny"

def ruleRank : PermissionRule → ℕ
  | .deny => 0
  | .ask => 1
  | .allow => 2

def decisionRank : PermissionDecision → ℕ
  | .deny _ => 0
  | .ask _ => 1
  | .allow => 2

structure NarrowedProfileOverlay where
  entries : List ProfileOverlayEntry
  deriving DecidableEq, Repr

inductive ProfileResolution where
  | resolved (name : Text) (narrowed : NarrowedProfileOverlay)
  | default
  | refused (reason : Text)
  deriving DecidableEq, Repr

/-- An entry that asks for more than the Host grants. -/
def broadens (host : PermissionPolicy) (entry : ProfileOverlayEntry) : Bool :=
  decide (decisionRank (evaluatePermission entry.capability host) < ruleRank entry.requested)

def refusedReason (host : PermissionPolicy) (entry : ProfileOverlayEntry) : Text :=
  "PROFILE_REFUSED: overlay requests ".toList ++ ruleName entry.requested ++
    " for capability ".toList ++ entry.capability ++ " but the Host grants ".toList ++
    decisionName (evaluatePermission entry.capability host) ++
    "; a profile may never broaden Host authority.".toList

def resolveProfileOverlay (record : ProfileRecord) (host : PermissionPolicy) :
    Except Text ProfileResolution := do
  record.validate
  match record.overlay.find? (broadens host) with
  | some entry => .ok (.refused (refusedReason host entry))
  | none => .ok (.resolved record.name ⟨record.overlay⟩)

inductive DeclaredProfile where
  | absent
  | resolved (name : Text) (narrowed : NarrowedProfileOverlay)
  | refused (reason : Text)
  | invalid (diagnostic : Text)
  deriving DecidableEq, Repr

def declareProfile (record : Option ProfileRecord) (host : PermissionPolicy) : DeclaredProfile :=
  match record with
  | none => .absent
  | some record =>
    match resolveProfileOverlay record host with
    | .ok (.resolved name narrowed) => .resolved name narrowed
    | .ok .default => .absent
    | .ok (.refused reason) => .refused reason
    | .error message => .invalid message

structure EffectiveRunPolicy where
  appliedProfile : Option Text
  diagnostic : Option Text
  rules : List PolicyRule
  deriving DecidableEq, Repr

abbrev RuleMap := TextMap PolicyRule

def insertRule (rules : RuleMap) (rule : PolicyRule) : RuleMap := rules.insert rule.capability rule

def overlayRule (entry : ProfileOverlayEntry) : PolicyRule := ⟨entry.capability, entry.requested⟩

/-- Every entry is checked against the Host and then written; the first broader entry ends the
loop with the rules as they are by then. -/
def narrowRules (host : PermissionPolicy) (rules : RuleMap) :
    List ProfileOverlayEntry → RuleMap × Option Text
  | [] => (rules, none)
  | entry :: entries =>
    if broadens host entry then (rules, some (refusedReason host entry))
    else narrowRules host (insertRule rules (overlayRule entry)) entries

def notApplied (diagnostic : Text) (rules : RuleMap) : EffectiveRunPolicy :=
  ⟨none, some diagnostic, sortedValues rules⟩

def composeEffectivePolicy (hostRules : List PolicyRule) (declared : DeclaredProfile) :
    EffectiveRunPolicy :=
  let rules := hostRules.foldl insertRule ∅
  match declared with
  | .absent => ⟨none, none, sortedValues rules⟩
  | .invalid diagnostic => notApplied diagnostic rules
  | .refused reason => notApplied reason rules
  | .resolved name narrowed =>
    match narrowRules (.fromRules hostRules) rules narrowed.entries with
    | (rules, some diagnostic) => notApplied diagnostic rules
    | (rules, none) => ⟨some name, none, sortedValues rules⟩

section Statement

variable (hostRules : List PolicyRule) (declared : DeclaredProfile)

def effective : PermissionPolicy := .fromRules (composeEffectivePolicy hostRules declared).rules

/-- Where a capability comes more than once in the overlay, the later entry replaces the earlier,
as it does among the Host rules. -/
def overlayPolicy (entries : List ProfileOverlayEntry) : PermissionPolicy :=
  .fromRules (entries.map overlayRule)

structure ProfileSafe : Prop where
  narrows : ∀ capability,
    decisionRank (evaluatePermission capability (effective hostRules declared)) ≤
      decisionRank (evaluatePermission capability (.fromRules hostRules))
  withheld : (composeEffectivePolicy hostRules declared).appliedProfile = none → ∀ capability,
    evaluatePermission capability (effective hostRules declared) =
      evaluatePermission capability (.fromRules hostRules)
  applied : ∀ applied name narrowed, declared = .resolved name narrowed →
    (composeEffectivePolicy hostRules declared).appliedProfile = some applied → ∀ capability,
      (∀ rule, (overlayPolicy narrowed.entries).rule capability = some rule →
        (effective hostRules declared).rule capability = some rule) ∧
      ((∀ entry ∈ narrowed.entries, entry.capability ≠ capability) →
        evaluatePermission capability (effective hostRules declared) =
          evaluatePermission capability (.fromRules hostRules))
  overlaid : ∀ applied, (composeEffectivePolicy hostRules declared).appliedProfile = some applied →
    ∃ narrowed, declared = .resolved applied narrowed
  declares : ∀ record name narrowed,
    declareProfile (some record) (.fromRules hostRules) = .resolved name narrowed →
      (composeEffectivePolicy hostRules (.resolved name narrowed)).appliedProfile = some name

def accepted (entries : List ProfileOverlayEntry) : List ProfileOverlayEntry :=
  entries.takeWhile fun entry => !broadens (.fromRules hostRules) entry

/-- Either no entry broadens, or what is written before the refusal is what the Host has. -/
def RefusedClean : DeclaredProfile → Prop
  | .resolved _ narrowed =>
    (∀ entry ∈ narrowed.entries, broadens (.fromRules hostRules) entry = false) ∨
      ∀ capability rule, (overlayPolicy (accepted hostRules narrowed.entries)).rule capability =
        some rule → (PermissionPolicy.fromRules hostRules).rule capability = some rule
  | _ => True

end Statement

theorem from_rules_append (first second : List PolicyRule) (capability : CapabilityId) :
    (PermissionPolicy.fromRules (first ++ second)).rule capability =
      ((PermissionPolicy.fromRules second).rule capability).or
        ((PermissionPolicy.fromRules first).rule capability) := by
  simp only [PermissionPolicy.fromRules, PermissionPolicy.rule, List.map_append,
    List.reverse_append, List.lookup_append]

theorem from_rules_single (rule : PolicyRule) (capability : CapabilityId) :
    (PermissionPolicy.fromRules [rule]).rule capability =
      if capability = rule.capability then some rule.rule else none := by
  show List.lookup capability [(rule.capability, rule.rule)] = _
  by_cases h : capability = rule.capability
  · rw [if_pos h, h]
    exact List.lookup_cons_self
  · rw [if_neg h, List.lookup_cons, beq_false_of_ne h]
    rfl

def heldRule (rules : RuleMap) (capability : CapabilityId) : Option PermissionRule :=
  (rules.lookup capability).map PolicyRule.rule

theorem held_inserted (rules : RuleMap) (rule : PolicyRule) (capability : CapabilityId) :
    heldRule (insertRule rules rule) capability =
      ((PermissionPolicy.fromRules [rule]).rule capability).or (heldRule rules capability) := by
  rw [from_rules_single, heldRule, insertRule]
  by_cases h : capability = rule.capability
  · rw [if_pos h, h, AList.lookup_insert]
    rfl
  · rw [if_neg h, AList.lookup_insert_ne h]
    rfl

theorem held_fold (rules : RuleMap) (inserted : List PolicyRule) (capability : CapabilityId) :
    heldRule (inserted.foldl insertRule rules) capability =
      ((PermissionPolicy.fromRules inserted).rule capability).or (heldRule rules capability) := by
  induction inserted generalizing rules with
  | nil => rfl
  | cons rule inserted ih =>
    rw [List.foldl_cons, ih, held_inserted, ← Option.or_assoc, ← from_rules_append]
    rfl

def Filed (rules : RuleMap) : Prop :=
  ∀ capability rule, rules.lookup capability = some rule → rule.capability = capability

theorem inserted_filed {rules : RuleMap} (rule : PolicyRule) (h : Filed rules) :
    Filed (insertRule rules rule) := by
  intro capability other hother
  by_cases heq : capability = rule.capability
  · rw [insertRule, heq, AList.lookup_insert, Option.some.injEq] at hother
    rw [← hother, heq]
  · rw [insertRule, AList.lookup_insert_ne heq] at hother
    exact h capability other hother

theorem fold_filed {rules : RuleMap} (inserted : List PolicyRule) (h : Filed rules) :
    Filed (inserted.foldl insertRule rules) := by
  induction inserted generalizing rules with
  | nil => exact h
  | cons rule inserted ih => exact ih (inserted_filed rule h)

theorem rule_mem {rules : List PolicyRule} {capability : CapabilityId} {rule : PermissionRule}
    (h : (PermissionPolicy.fromRules rules).rule capability = some rule) :
    ⟨capability, rule⟩ ∈ rules := by
  induction rules with
  | nil => cases h
  | cons first rules ih =>
    rw [show first :: rules = [first] ++ rules from rfl, from_rules_append, from_rules_single] at h
    rcases Option.or_eq_some_iff.mp h with h | ⟨-, h⟩
    · exact List.mem_cons_of_mem first (ih h)
    · split at h
      · rename_i heq
        simp only [Option.some.injEq] at h
        rw [heq, ← h]
        exact List.mem_cons_self
      · cases h

theorem rule_of_mem {rules : List PolicyRule} {capability : CapabilityId} {rule : PermissionRule}
    (hdistinct : (rules.map PolicyRule.capability).Nodup) (h : ⟨capability, rule⟩ ∈ rules) :
    (PermissionPolicy.fromRules rules).rule capability = some rule := by
  induction rules with
  | nil => cases h
  | cons first rules ih =>
    rw [List.map_cons, List.nodup_cons] at hdistinct
    rw [show first :: rules = [first] ++ rules from rfl, from_rules_append, from_rules_single]
    rcases List.mem_cons.mp h with heq | h
    · have hnone : (PermissionPolicy.fromRules rules).rule capability = none := by
        rw [Option.eq_none_iff_forall_ne_some]
        intro other hother
        apply hdistinct.1
        rw [← heq]
        exact List.mem_map.mpr ⟨_, rule_mem hother, rfl⟩
      rw [hnone, Option.none_or, ← heq, if_pos rfl]
    · rw [ih hdistinct.2 h]
      rfl

theorem values_capabilities {rules : RuleMap} (h : Filed rules) :
    (sortedValues rules).map PolicyRule.capability = sortedKeys rules := by
  have hkeys : ∀ keys : List Text, (∀ key ∈ keys, key ∈ rules) →
      (keys.filterMap rules.lookup).map PolicyRule.capability = keys := by
    intro keys hkeys
    induction keys with
    | nil => rfl
    | cons key keys ih =>
      obtain ⟨rule, hrule⟩ := Option.isSome_iff_exists.mp
        (AList.lookup_isSome.mpr (hkeys key List.mem_cons_self))
      have hcons : (key :: keys).filterMap rules.lookup = rule :: keys.filterMap rules.lookup :=
        List.filterMap_cons_some hrule
      rw [hcons, List.map_cons, h key rule hrule,
        ih fun other hother => hkeys other (List.mem_cons_of_mem key hother)]
  exact hkeys (sortedKeys rules) fun key hkey => (mem_sorted_keys rules key).mp hkey

theorem values_rule {rules : RuleMap} (h : Filed rules) (capability : CapabilityId) :
    (PermissionPolicy.fromRules (sortedValues rules)).rule capability =
      heldRule rules capability := by
  have hdistinct : ((sortedValues rules).map PolicyRule.capability).Nodup := by
    rw [values_capabilities h]
    exact sorted_keys_nodup rules
  ext rule
  constructor
  · intro hrule
    obtain ⟨key, hkey⟩ := (mem_sorted_values rules _).mp (rule_mem hrule)
    have heq : capability = key := h key _ hkey
    rw [heldRule, heq, hkey]
    rfl
  · intro hheld
    obtain ⟨held, hlookup, hrule⟩ := Option.map_eq_some_iff.mp hheld
    apply rule_of_mem hdistinct
    rw [mem_sorted_values]
    refine ⟨capability, ?_⟩
    rw [hlookup, ← h capability held hlookup, ← hrule]

theorem narrowed_rules (host : PermissionPolicy) (rules : RuleMap)
    (entries : List ProfileOverlayEntry) :
    (narrowRules host rules entries).1 =
      ((entries.takeWhile fun entry => !broadens host entry).map overlayRule).foldl
        insertRule rules := by
  induction entries generalizing rules with
  | nil => rfl
  | cons entry entries ih =>
    by_cases h : broadens host entry = true
    · rw [narrowRules, if_pos h, List.takeWhile_cons_of_neg (by simp [h])]
      rfl
    · rw [narrowRules, if_neg h, ih, List.takeWhile_cons_of_pos (by simp [h])]
      rfl

theorem narrowed_none (host : PermissionPolicy) (rules : RuleMap)
    (entries : List ProfileOverlayEntry) :
    (narrowRules host rules entries).2 = none ↔ ∀ entry ∈ entries, broadens host entry = false := by
  induction entries generalizing rules with
  | nil => simp [narrowRules]
  | cons entry entries ih =>
    by_cases h : broadens host entry = true
    · rw [narrowRules, if_pos h]
      simp [h]
    · rw [narrowRules, if_neg h, ih]
      simp [h]

variable (hostRules : List PolicyRule) (declared : DeclaredProfile)

def written : List ProfileOverlayEntry :=
  match declared with
  | .resolved _ narrowed => accepted hostRules narrowed.entries
  | _ => []

theorem host_filed : Filed (hostRules.foldl insertRule ∅) := by
  apply fold_filed
  intro capability rule h
  simp at h

theorem composed_rules :
    (composeEffectivePolicy hostRules declared).rules =
      sortedValues (((written hostRules declared).map overlayRule).foldl insertRule
        (hostRules.foldl insertRule ∅)) := by
  cases declared with
  | absent => rfl
  | invalid diagnostic => rfl
  | refused reason => rfl
  | resolved name narrowed =>
    have hrules := narrowed_rules (.fromRules hostRules) (hostRules.foldl insertRule ∅)
      narrowed.entries
    rw [written, accepted, ← hrules, composeEffectivePolicy]
    split <;> simp_all [notApplied]

theorem composed_applied (name : Text) (narrowed : NarrowedProfileOverlay) :
    (composeEffectivePolicy hostRules (.resolved name narrowed)).appliedProfile =
      if ∀ entry ∈ narrowed.entries, broadens (.fromRules hostRules) entry = false then some name
      else none := by
  rw [composeEffectivePolicy]
  split
  · rename_i rules diagnostic h
    rw [if_neg]
    · rfl
    · intro hall
      rw [← narrowed_none _ (hostRules.foldl insertRule ∅), h] at hall
      cases hall
  · rename_i rules h
    rw [if_pos]
    rw [← narrowed_none _ (hostRules.foldl insertRule ∅), h]

theorem effective_rule (capability : CapabilityId) :
    (effective hostRules declared).rule capability =
      ((overlayPolicy (written hostRules declared)).rule capability).or
        ((PermissionPolicy.fromRules hostRules).rule capability) := by
  have hhost : heldRule (hostRules.foldl insertRule ∅) capability =
      (PermissionPolicy.fromRules hostRules).rule capability := by
    rw [held_fold]
    exact Option.or_none
  rw [effective, composed_rules, values_rule (fold_filed _ (host_filed hostRules)), held_fold, hhost,
    overlayPolicy]

theorem decision_rank (capability : CapabilityId) (policy : PermissionPolicy) :
    decisionRank (evaluatePermission capability policy) =
      ((policy.rule capability).map ruleRank).getD 0 := by
  rw [evaluatePermission]
  split <;> simp_all [decisionRank, ruleRank]

theorem reasons_differ (capability : CapabilityId) :
    ("No permission rule is defined for " : Text) ++ capability ++ ("; failing closed." : Text) ≠
      ("Policy denies " : Text) ++ capability ++ ("." : Text) := by
  intro h
  have hmissing : ("No permission rule is defined for " : Text).head? = some 'N' := by decide
  have hdenied : ("Policy denies " : Text).head? = some 'P' := by decide
  have hhead := congrArg List.head? h
  rw [List.head?_append, List.head?_append, List.head?_append, List.head?_append, hmissing,
    hdenied] at hhead
  cases hhead

theorem evaluate_eq_iff (capability : CapabilityId) (policy other : PermissionPolicy) :
    evaluatePermission capability policy = evaluatePermission capability other ↔
      policy.rule capability = other.rule capability := by
  constructor
  · intro h
    rw [evaluatePermission, evaluatePermission] at h
    cases hp : policy.rule capability with
    | none =>
      cases ho : other.rule capability with
      | none => rfl
      | some o =>
        rw [hp, ho] at h
        cases o with
        | allow => cases h
        | ask => cases h
        | deny => exact absurd (PermissionDecision.deny.inj h) (reasons_differ capability)
    | some p =>
      cases ho : other.rule capability with
      | none =>
        rw [hp, ho] at h
        cases p with
        | allow => cases h
        | ask => cases h
        | deny => exact absurd (PermissionDecision.deny.inj h).symm (reasons_differ capability)
      | some o =>
        rw [hp, ho] at h
        cases p <;> cases o <;> first | rfl | cases h
  · intro h
    rw [evaluatePermission, evaluatePermission, h]

theorem accepted_all (entries : List ProfileOverlayEntry)
    (h : ∀ entry ∈ entries, broadens (.fromRules hostRules) entry = false) :
    accepted hostRules entries = entries := by
  rw [accepted, List.takeWhile_eq_self_iff]
  intro entry hentry
  rw [h entry hentry]
  rfl

theorem written_narrow (entry : ProfileOverlayEntry) (h : entry ∈ written hostRules declared) :
    broadens (.fromRules hostRules) entry = false := by
  cases declared with
  | absent => cases h
  | invalid diagnostic => cases h
  | refused reason => cases h
  | resolved name narrowed => simpa using List.mem_takeWhile_imp h

theorem composed_narrows (capability : CapabilityId) :
    decisionRank (evaluatePermission capability (effective hostRules declared)) ≤
      decisionRank (evaluatePermission capability (.fromRules hostRules)) := by
  rw [decision_rank capability (effective hostRules declared), effective_rule]
  cases h : (overlayPolicy (written hostRules declared)).rule capability with
  | none =>
    rw [decision_rank]
    exact Nat.le_refl _
  | some rule =>
    obtain ⟨entry, hentry, heq⟩ := List.mem_map.mp (rule_mem h)
    have hnarrow := written_narrow hostRules declared entry hentry
    have hcapability : entry.capability = capability := congrArg PolicyRule.capability heq
    have hrequested : entry.requested = rule := congrArg PolicyRule.rule heq
    rw [broadens, hcapability, hrequested, decide_eq_false_iff_not, Nat.not_lt] at hnarrow
    exact hnarrow

theorem composed_unwritten (capability : CapabilityId)
    (h : ∀ rule, (overlayPolicy (written hostRules declared)).rule capability = some rule →
      (PermissionPolicy.fromRules hostRules).rule capability = some rule) :
    evaluatePermission capability (effective hostRules declared) =
      evaluatePermission capability (.fromRules hostRules) := by
  rw [evaluate_eq_iff, effective_rule]
  cases hrule : (overlayPolicy (written hostRules declared)).rule capability with
  | none => rfl
  | some rule => exact (h rule hrule).symm

theorem composed_some {applied : Text}
    (h : (composeEffectivePolicy hostRules declared).appliedProfile = some applied) :
    ∃ narrowed, declared = .resolved applied narrowed ∧
      ∀ entry ∈ narrowed.entries, broadens (.fromRules hostRules) entry = false := by
  cases declared with
  | absent => cases h
  | invalid diagnostic => cases h
  | refused reason => cases h
  | resolved name narrowed =>
    rw [composed_applied] at h
    split at h
    · rename_i hall
      simp only [Option.some.injEq] at h
      rw [h]
      exact ⟨narrowed, rfl, hall⟩
    · cases h

theorem declared_applies (record : ProfileRecord) (name : Text) (narrowed : NarrowedProfileOverlay)
    (h : declareProfile (some record) (.fromRules hostRules) = .resolved name narrowed) :
    (composeEffectivePolicy hostRules (.resolved name narrowed)).appliedProfile = some name := by
  rw [composed_applied, if_pos]
  intro entry hentry
  rw [declareProfile] at h
  split at h
  · rename_i declaredName overlay hresolve
    rw [resolveProfileOverlay, except_bind_ok] at hresolve
    obtain ⟨_, -, hresolve⟩ := hresolve
    split at hresolve
    · cases hresolve
    · rename_i hfind
      cases hresolve
      cases h
      simpa using List.find?_eq_none.mp hfind entry hentry
  · cases h
  · cases h
  · cases h

/-- A declared profile narrows and is applied as a whole or not at all, exactly when the part of
the overlay before a refusal asks for what the Host has anyway. -/
theorem profile_safe_iff : ProfileSafe hostRules declared ↔ RefusedClean hostRules declared := by
  constructor
  · intro h
    cases declared with
    | absent => trivial
    | invalid diagnostic => trivial
    | refused reason => trivial
    | resolved name narrowed =>
      by_cases hall : ∀ entry ∈ narrowed.entries, broadens (.fromRules hostRules) entry = false
      · exact Or.inl hall
      · apply Or.inr
        intro capability rule hrule
        have hnone : (composeEffectivePolicy hostRules (.resolved name narrowed)).appliedProfile =
            none := by
          rw [composed_applied, if_neg hall]
        have heq := (evaluate_eq_iff _ _ _).mp (h.withheld hnone capability)
        rw [effective_rule, written, hrule, Option.some_or] at heq
        exact heq.symm
  · intro h
    constructor
    · exact composed_narrows hostRules declared
    · intro hnone capability
      apply composed_unwritten
      cases declared with
      | absent => exact fun rule hrule => by cases hrule
      | invalid diagnostic => exact fun rule hrule => by cases hrule
      | refused reason => exact fun rule hrule => by cases hrule
      | resolved name narrowed =>
        rcases h with hall | hclean
        · rw [composed_applied, if_pos hall] at hnone
          cases hnone
        · exact hclean capability
    · intro applied name narrowed hdeclared happlied capability
      obtain ⟨other, hother, hall⟩ := composed_some hostRules declared happlied
      rw [hdeclared] at hother
      cases hother
      have hwritten : written hostRules declared = narrowed.entries := by
        rw [hdeclared]
        exact accepted_all hostRules narrowed.entries hall
      constructor
      · intro rule hrule
        rw [effective_rule, hwritten, hrule]
        rfl
      · intro hunlisted
        apply composed_unwritten
        intro rule hrule
        rw [hwritten] at hrule
        obtain ⟨entry, hentry, heq⟩ := List.mem_map.mp (rule_mem hrule)
        exact absurd (congrArg PolicyRule.capability heq) (hunlisted entry hentry)
    · intro applied happlied
      obtain ⟨narrowed, hdeclared, -⟩ := composed_some hostRules declared happlied
      exact ⟨narrowed, hdeclared⟩
    · exact declared_applies hostRules

/-- The first entry is written before the second one refuses the profile. -/
def halfOverlay : NarrowedProfileOverlay := ⟨[⟨['a'], .deny⟩, ⟨['b'], .allow⟩]⟩

theorem profile_safe_fails :
    ¬ ProfileSafe [⟨['a'], .allow⟩, ⟨['b'], .ask⟩] (.resolved ['p'] halfOverlay) := by
  intro h
  have hnone : (composeEffectivePolicy [⟨['a'], .allow⟩, ⟨['b'], .ask⟩]
      (.resolved ['p'] halfOverlay)).appliedProfile = none := by
    rw [composed_applied]
    decide
  have hrank : decisionRank (evaluatePermission ['a'] (effective [⟨['a'], .allow⟩, ⟨['b'], .ask⟩]
      (.resolved ['p'] halfOverlay))) = 0 := by
    rw [decision_rank, effective_rule]
    decide
  have hwithheld := h.withheld hnone ['a']
  rw [hwithheld] at hrank
  revert hrank
  decide

end Siralos.Composition
