import Mathlib.Data.List.Infix
import Mathlib.Data.Nat.Find

/-!
# Occurrences of a pattern

Every position counts at which a text goes on with the pattern, also where two of them overlap.
-/

set_option autoImplicit false

namespace Occurrence

variable {α : Type} {pattern : List α}

def OccursAt (pattern text : List α) (i : ℕ) : Prop := pattern <+: text.drop i

theorem snoc_split {items pre post : List α} {item found : α}
    (h : items ++ [item] = pre ++ found :: post) :
    (found = item ∧ pre = items) ∨ ∃ rest, items = pre ++ found :: rest := by
  rcases List.append_eq_append_iff.mp h with ⟨more, hpre, htail⟩ | ⟨more, hitems, htail⟩
  · cases more with
    | nil =>
      rw [List.nil_append] at htail
      cases htail
      exact .inl ⟨rfl, by rw [hpre, List.append_nil]⟩
    | cons other more =>
      have hnil := (List.cons.inj htail).2
      simp at hnil
  · cases more with
    | nil =>
      rw [List.append_nil] at hitems
      cases htail
      exact .inl ⟨rfl, hitems.symm⟩
    | cons other more =>
      rw [List.cons_append] at htail
      cases htail
      exact .inr ⟨more, hitems⟩

structure FirstAt (pattern text : List α) (i : ℕ) : Prop where
  occurs : OccursAt pattern text i
  least : ∀ j, OccursAt pattern text j → i ≤ j

theorem occurs_drop (text : List α) (n i : ℕ) :
    OccursAt pattern (text.drop n) i ↔ OccursAt pattern text (n + i) := by
  rw [OccursAt, OccursAt, List.drop_drop]

theorem exists_first {text : List α} {i : ℕ} (h : OccursAt pattern text i) :
    ∃ first, FirstAt pattern text first := by
  classical
  have hexists : ∃ j, OccursAt pattern text j := ⟨i, h⟩
  exact ⟨Nat.find hexists, Nat.find_spec hexists, fun j hj => Nat.find_min' hexists hj⟩

theorem FirstAt.tail {c : α} {rest : List α} {i : ℕ} (h : FirstAt pattern (c :: rest) (i + 1)) :
    FirstAt pattern rest i where
  occurs := h.occurs
  least j hj := by
    have hle := h.least (j + 1) hj
    omega

theorem FirstAt.not_zero {text : List α} {i : ℕ} (h : FirstAt pattern text (i + 1)) :
    ¬ OccursAt pattern text 0 := by
  intro hzero
  have hle := h.least 0 hzero
  omega

/-- Where a pattern occurs more than once, it also occurs behind its first occurrence. -/
def Separated (pattern text : List α) : Prop :=
  ∀ i j, FirstAt pattern text i → OccursAt pattern text j → i < j →
    ∃ k, OccursAt pattern text k ∧ i + pattern.length ≤ k

theorem unique_iff {text : List α} {first : ℕ} (hfirst : FirstAt pattern text first)
    (hne : pattern ≠ []) :
    (∃! i, OccursAt pattern text i) ↔
      Separated pattern text ∧ ∀ k, first + pattern.length ≤ k → ¬ OccursAt pattern text k := by
  have hlength : 0 < pattern.length := List.length_pos_of_ne_nil hne
  constructor
  · rintro ⟨i, -, hunique⟩
    have honly : ∀ j, OccursAt pattern text j → j = first := by
      intro j hj
      rw [hunique j hj, hunique first hfirst.occurs]
    constructor
    · intro i j hi hj hij
      have hsame := honly j hj
      have hother := honly i hi.occurs
      omega
    · intro k hk hoccurs
      have hsame := honly k hoccurs
      omega
  · rintro ⟨hseparated, hbehind⟩
    refine ⟨first, hfirst.occurs, ?_⟩
    intro j hj
    by_contra hne'
    have hle := hfirst.least j hj
    obtain ⟨k, hk, hbeyond⟩ := hseparated first j hfirst hj (by omega)
    exact hbehind k hbeyond hk

end Occurrence
