import Mathlib.Data.List.Basic

/-!
# Codes that can be read back

A code is separable when the first codeword of a text can be told from what follows it. A sequence
of codewords is then read back, up to its end or up to a stop symbol no codeword begins with.
-/

set_option autoImplicit false

namespace Coding

variable {α σ : Type}

def Separable (code : α → List σ) : Prop :=
  ∀ a b r s, code a ++ r = code b ++ s → a = b ∧ r = s

/-- A reader of the first codeword makes a code separable. -/
theorem separable_of_read {code : α → List σ} (read : List σ → Option (α × List σ))
    (h : ∀ a r, read (code a ++ r) = some (a, r)) : Separable code := by
  intro a b r s heq
  have hread : some (a, r) = some (b, s) := by rw [← h a r, ← h b s, heq]
  simpa using hread

variable {code : α → List σ} (hcode : Separable code)

include hcode

theorem flat_map_inj (hne : ∀ a, code a ≠ []) {xs ys : List α}
    (h : xs.flatMap code = ys.flatMap code) : xs = ys := by
  induction xs generalizing ys with
  | nil =>
    cases ys with
    | nil => rfl
    | cons y ys => exact absurd (List.append_eq_nil_iff.mp h.symm).1 (hne y)
  | cons x xs ih =>
    cases ys with
    | nil => exact absurd (List.append_eq_nil_iff.mp h).1 (hne x)
    | cons y ys =>
      rw [List.flatMap_cons, List.flatMap_cons] at h
      obtain ⟨rfl, hrest⟩ := hcode x y _ _ h
      rw [ih hrest]

theorem flat_map_until {stop : σ} (hstop : ∀ a r s, code a ++ r ≠ stop :: s) {xs ys : List α}
    {r s : List σ} (h : xs.flatMap code ++ stop :: r = ys.flatMap code ++ stop :: s) :
    xs = ys ∧ r = s := by
  induction xs generalizing ys with
  | nil =>
    cases ys with
    | nil => exact ⟨rfl, (List.cons.inj h).2⟩
    | cons y ys =>
      rw [List.flatMap_cons, List.append_assoc] at h
      exact absurd h.symm (hstop y _ _)
  | cons x xs ih =>
    cases ys with
    | nil =>
      rw [List.flatMap_cons, List.append_assoc] at h
      exact absurd h (hstop x _ _)
    | cons y ys =>
      rw [List.flatMap_cons, List.flatMap_cons, List.append_assoc, List.append_assoc] at h
      obtain ⟨rfl, hrest⟩ := hcode x y _ _ h
      obtain ⟨rfl, hrs⟩ := ih hrest
      exact ⟨rfl, hrs⟩

end Coding
