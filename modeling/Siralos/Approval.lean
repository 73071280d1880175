import Siralos.Provider
import Mathlib.Data.List.Nodup

/-!
# One-time per-action approvals

An approval record binds a tool name, an action digest and a task revision. The
ledger holds unconsumed records by digest; consuming one removes it. Every record
gets a serial number when it is minted, and the ledger keeps the order of what the
session does: no modelled function reads either.
-/

set_option autoImplicit false

namespace Siralos.Approval
open Text Json Provider

/-- A record with an empty tool name cannot be built. -/
structure ActionApproval (D : Type) where
  toolName : Text
  actionDigest : D
  taskRevision : Option ℕ
  named : toolName ≠ []

inductive ApprovalError where
  | emptyTool
  deriving DecidableEq, Repr

def ApprovalError.message : ApprovalError → Text
  | .emptyTool => "approval tool name is empty"

def ActionApproval.new {D : Type} (toolName : Text) (actionDigest : D)
    (taskRevision : Option ℕ) : Except ApprovalError (ActionApproval D) :=
  if h : toolName = [] then .error .emptyTool
  else .ok { toolName, actionDigest, taskRevision, named := h }

def revisionText : Option ℕ → Text
  | some revision => ofNat revision
  | none => "none"

def actionPreimage (toolName canonicalInput : Text) (taskRevision : Option ℕ) : Text :=
  toolName ++ '\n' :: (revisionText taskRevision ++ '\n' :: canonicalInput)

/-- `sha256Hex` is the dependency that hashes the text's bytes. -/
def actionDigest {D : Type} (sha256Hex : Text → D) (toolName canonicalInput : Text)
    (taskRevision : Option ℕ) : D :=
  sha256Hex (actionPreimage toolName canonicalInput taskRevision)

def canonicalInputJson (serde : SerdeJson) (input : Value) : Text := serde.toStr input

theorem of_nat_digit {n : ℕ} {c : Char} (h : c ∈ ofNat n) : c.isDigit = true :=
  Nat.isDigit_of_mem_toDigits (by decide) (by decide) h

theorem revision_text_line (revision : Option ℕ) : '\n' ∉ revisionText revision := by
  intro h
  cases revision with
  | none => exact absurd h (by decide)
  | some revision => exact absurd (of_nat_digit h) (by decide)

theorem revision_text_inj {v w : Option ℕ} (h : revisionText v = revisionText w) : v = w := by
  have hnone : 'n' ∈ revisionText none := by decide
  have hsome : ∀ revision, 'n' ∉ revisionText (some revision) := fun _ hn =>
    absurd (of_nat_digit hn) (by decide)
  cases v with
  | none =>
    cases w with
    | none => rfl
    | some w => exact absurd (h ▸ hnone) (hsome w)
  | some v =>
    cases w with
    | none => exact absurd (h ▸ hnone) (hsome v)
    | some w => exact congrArg some (of_nat_inj h)

theorem last_line_inj {s t u v : Text} (hu : '\n' ∉ u) (hv : '\n' ∉ v)
    (h : s ++ '\n' :: u = t ++ '\n' :: v) : s = t ∧ u = v := by
  rcases List.append_eq_append_iff.mp h with ⟨d, hd, hsplit⟩ | ⟨d, hd, hsplit⟩
  · cases d with
    | nil => exact ⟨by simpa using hd.symm, by simpa using hsplit⟩
    | cons c d =>
      simp only [List.cons_append, List.cons.injEq] at hsplit
      exact absurd (by rw [hsplit.2]; simp) hu
  · cases d with
    | nil => exact ⟨by simpa using hd, by simpa using hsplit.symm⟩
    | cons c d =>
      simp only [List.cons_append, List.cons.injEq] at hsplit
      exact absurd (by rw [hsplit.2]; simp) hv

theorem action_preimage_inj {t t' c c' : Text} {v v' : Option ℕ} (hc : '\n' ∉ c)
    (hc' : '\n' ∉ c') (h : actionPreimage t c v = actionPreimage t' c' v') :
    t = t' ∧ c = c' ∧ v = v' := by
  unfold actionPreimage at h
  have hassoc : ∀ (a b d : Text), a ++ '\n' :: (b ++ '\n' :: d) = (a ++ '\n' :: b) ++ '\n' :: d := by
    intro a b d
    simp
  rw [hassoc, hassoc] at h
  obtain ⟨hhead, htail⟩ := last_line_inj hc hc' h
  obtain ⟨htool, hrevision⟩ :=
    last_line_inj (revision_text_line v) (revision_text_line v') hhead
  exact ⟨htool, htail, revision_text_inj hrevision⟩

section Ledger

variable {D : Type}

/-- What a whole session does to records and tools, in order. `surfaced` is the tool
surface the host has approved from there on. -/
inductive Effect (D : Type) where
  | minted (serial : ℕ) (record : ActionApproval D)
  | consumed (serial : ℕ) (record : ActionApproval D)
  | surfaced (surface : Option (List Text))
  | executed (toolName : Text) (input : Value) (taskRevision : Option ℕ)

structure ActionApprovals (D : Type) where
  approvals : List (ℕ × ActionApproval D) := []
  nextSerial : ℕ := 0
  effects : List (Effect D) := []

def record (ledger : ActionApprovals D) (effect : Effect D) : ActionApprovals D :=
  { ledger with effects := ledger.effects ++ [effect] }

def mintedSerials (effects : List (Effect D)) : List ℕ :=
  effects.filterMap fun
    | .minted serial _ => some serial
    | _ => none

def consumedSerials (effects : List (Effect D)) : List ℕ :=
  effects.filterMap fun
    | .consumed serial _ => some serial
    | _ => none

/-- Live records were minted and are unconsumed; no serial is minted or consumed twice. -/
structure Accounted (ledger : ActionApprovals D) : Prop where
  minted : ∀ entry ∈ ledger.approvals, .minted entry.1 entry.2 ∈ ledger.effects
  mintedBefore : ∀ serial ∈ mintedSerials ledger.effects, serial < ledger.nextSerial
  mintedOnce : (mintedSerials ledger.effects).Nodup
  fresh : ∀ entry ∈ ledger.approvals, entry.1 < ledger.nextSerial
  distinct : (ledger.approvals.map Prod.fst).Nodup
  unspent : ∀ entry ∈ ledger.approvals, entry.1 ∉ consumedSerials ledger.effects
  spent : ∀ serial ∈ consumedSerials ledger.effects, serial < ledger.nextSerial
  once : (consumedSerials ledger.effects).Nodup

@[simp] theorem minted_serials_append (es fs : List (Effect D)) :
    mintedSerials (es ++ fs) = mintedSerials es ++ mintedSerials fs := by
  simp [mintedSerials]

@[simp] theorem consumed_serials_append (es fs : List (Effect D)) :
    consumedSerials (es ++ fs) = consumedSerials es ++ consumedSerials fs := by
  simp [consumedSerials]

theorem empty_accounted : Accounted ({} : ActionApprovals D) := by
  constructor <;> simp [consumedSerials, mintedSerials]

theorem record_accounted (ledger : ActionApprovals D) (effect : Effect D)
    (hminted : mintedSerials [effect] = []) (hconsumed : consumedSerials [effect] = [])
    (h : Accounted ledger) : Accounted (record ledger effect) := by
  have hm : mintedSerials (record ledger effect).effects = mintedSerials ledger.effects := by
    simp [record, hminted]
  have hc : consumedSerials (record ledger effect).effects = consumedSerials ledger.effects := by
    simp [record, hconsumed]
  constructor
  case minted => exact fun entry he => List.mem_append_left _ (h.minted entry he)
  case mintedBefore =>
    rw [hm]
    exact h.mintedBefore
  case mintedOnce =>
    rw [hm]
    exact h.mintedOnce
  case fresh => exact h.fresh
  case distinct => exact h.distinct
  case unspent =>
    rw [hc]
    exact h.unspent
  case spent =>
    rw [hc]
    exact h.spent
  case once =>
    rw [hc]
    exact h.once

variable [DecidableEq D]

def find (ledger : ActionApprovals D) (digest : D) : Option (ℕ × ActionApproval D) :=
  ledger.approvals.find? fun entry => entry.2.actionDigest = digest

def remove (approvals : List (ℕ × ActionApproval D)) (digest : D) :
    List (ℕ × ActionApproval D) :=
  approvals.filter fun entry => entry.2.actionDigest ≠ digest

/-- A later approval of the same digest replaces the earlier one. -/
def approve (ledger : ActionApprovals D) (approval : ActionApproval D) : ActionApprovals D :=
  { approvals := (ledger.nextSerial, approval) :: remove ledger.approvals approval.actionDigest
    nextSerial := ledger.nextSerial + 1
    effects := ledger.effects ++ [.minted ledger.nextSerial approval] }

def take (ledger : ActionApprovals D) (toolName : Text) (actionDigest : D)
    (taskRevision : Option ℕ) : Option (ActionApproval D) × ActionApprovals D :=
  match find ledger actionDigest with
  | none => (none, ledger)
  | some (serial, approval) =>
    if approval.toolName ≠ toolName ∨ approval.taskRevision ≠ taskRevision then (none, ledger)
    else (some approval,
      { ledger with
        approvals := remove ledger.approvals actionDigest
        effects := ledger.effects ++ [.consumed serial approval] })

theorem approve_accounted (ledger : ActionApprovals D) (approval : ActionApproval D)
    (h : Accounted ledger) : Accounted (approve ledger approval) := by
  have hkept : ∀ entry ∈ remove ledger.approvals approval.actionDigest,
      entry ∈ ledger.approvals := fun entry he => (List.mem_filter.mp he).1
  constructor
  case minted =>
    intro entry he
    rcases List.mem_cons.mp he with rfl | he
    · simp [approve]
    · exact List.mem_append_left _ (h.minted entry (hkept entry he))
  case mintedBefore =>
    intro serial hs
    simp only [approve, minted_serials_append, List.mem_append] at hs ⊢
    rcases hs with hs | hs
    · have := h.mintedBefore serial hs
      omega
    · simp only [mintedSerials, List.filterMap_cons, List.filterMap_nil, List.mem_singleton] at hs
      omega
  case mintedOnce =>
    simp only [approve, minted_serials_append]
    refine List.Nodup.append h.mintedOnce (by simp [mintedSerials]) ?_
    simpa [mintedSerials] using fun hm => lt_irrefl _ (h.mintedBefore _ hm)
  case fresh =>
    intro entry he
    rcases List.mem_cons.mp he with rfl | he
    · simp [approve]
    · have := h.fresh entry (hkept entry he)
      simp only [approve]
      omega
  case distinct =>
    simp only [approve, List.map_cons, List.nodup_cons]
    refine ⟨fun hm => ?_, (h.distinct.sublist (List.filter_sublist.map _))⟩
    obtain ⟨entry, he, hserial⟩ := List.mem_map.mp hm
    have := h.fresh entry (hkept entry he)
    omega
  case unspent =>
    intro entry he
    simp only [approve, consumed_serials_append]
    rcases List.mem_cons.mp he with rfl | he
    · intro hm
      have hm' : ledger.nextSerial ∈ consumedSerials ledger.effects := by
        simpa [consumedSerials] using hm
      exact absurd (h.spent _ hm') (lt_irrefl _)
    · simpa [consumedSerials] using h.unspent entry (hkept entry he)
  case spent =>
    intro serial hs
    have hs' : serial ∈ consumedSerials ledger.effects := by
      simpa [approve, consumedSerials] using hs
    have := h.spent serial hs'
    simp only [approve]
    omega
  case once => simpa [approve, consumedSerials] using h.once

theorem take_some (ledger ledger' : ActionApprovals D) (toolName : Text) (digest : D)
    (revision : Option ℕ) (record : ActionApproval D)
    (h : take ledger toolName digest revision = (some record, ledger')) :
    ∃ serial, (serial, record) ∈ ledger.approvals ∧ record.toolName = toolName ∧
      record.actionDigest = digest ∧ record.taskRevision = revision ∧
      ledger' = { ledger with
        approvals := remove ledger.approvals digest
        effects := ledger.effects ++ [.consumed serial record] } := by
  unfold take find at h
  split at h
  · simp at h
  · rename_i serial approval hfind
    split at h
    · simp at h
    · rename_i hbound
      simp only [ne_eq, not_or, not_not] at hbound
      simp only [Prod.mk.injEq, Option.some.injEq] at h
      obtain ⟨rfl, rfl⟩ := h
      have hdigest := List.find?_some hfind
      exact ⟨serial, List.mem_of_find?_eq_some hfind, hbound.1, by simpa using hdigest, hbound.2,
        rfl⟩

theorem take_none (ledger ledger' : ActionApprovals D) (toolName : Text) (digest : D)
    (revision : Option ℕ) (h : take ledger toolName digest revision = (none, ledger')) :
    ledger' = ledger := by
  unfold take at h
  split at h
  · exact (Prod.mk.inj h).2.symm
  · split at h
    · exact (Prod.mk.inj h).2.symm
    · simp at h

theorem take_accounted (ledger ledger' : ActionApprovals D) (toolName : Text) (digest : D)
    (revision : Option ℕ) (taken : Option (ActionApproval D))
    (h : take ledger toolName digest revision = (taken, ledger')) (ha : Accounted ledger) :
    Accounted ledger' := by
  cases taken with
  | none => rwa [take_none _ _ _ _ _ h]
  | some record =>
    obtain ⟨serial, hm, -, hdigest, -, rfl⟩ := take_some _ _ _ _ _ _ h
    have hkept : ∀ entry ∈ remove ledger.approvals digest, entry ∈ ledger.approvals :=
      fun entry he => (List.mem_filter.mp he).1
    have hspent : consumedSerials (ledger.effects ++ [.consumed serial record]) =
        consumedSerials ledger.effects ++ [serial] := by simp [consumedSerials]
    have hminted : mintedSerials (ledger.effects ++ [.consumed serial record]) =
        mintedSerials ledger.effects := by simp [mintedSerials]
    constructor
    case minted => exact fun entry he => List.mem_append_left _ (ha.minted entry (hkept entry he))
    case mintedBefore =>
      rw [hminted]
      exact ha.mintedBefore
    case mintedOnce =>
      rw [hminted]
      exact ha.mintedOnce
    case fresh => exact fun entry he => ha.fresh entry (hkept entry he)
    case distinct => exact ha.distinct.sublist (List.filter_sublist.map _)
    case unspent =>
      intro entry he
      rw [hspent]
      simp only [List.mem_append, List.mem_singleton, not_or]
      refine ⟨ha.unspent entry (hkept entry he), fun hserial => ?_⟩
      have hentry := List.inj_on_of_nodup_map ha.distinct (hkept entry he) hm hserial
      have hne := (List.mem_filter.mp he).2
      rw [hentry] at hne
      simp [hdigest] at hne
    case spent =>
      intro s hs
      rw [hspent] at hs
      rcases List.mem_append.mp hs with hs | hs
      · exact ha.spent s hs
      · rw [List.mem_singleton.mp hs]
        exact ha.fresh _ hm
    case once =>
      rw [hspent]
      exact List.Nodup.append ha.once (by simp) (by simpa using ha.unspent _ hm)

end Ledger
end Siralos.Approval
