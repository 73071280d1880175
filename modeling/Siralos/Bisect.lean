import Mathlib.Order.Basic
import Mathlib.Tactic.Common

/-!
# Binary search for the last index that fits

The search keeps an index that fits below one beyond which nothing does. When fitting is inherited
by smaller indices it ends at the greatest index that fits.
-/

set_option autoImplicit false

namespace Bisect

def search (fits : ℕ → Bool) (low high : ℕ) : ℕ :=
  if h : low < high then
    let mid := (low + high + 1) / 2
    if fits mid then search fits mid high else search fits low (mid - 1)
  else low
termination_by high - low
decreasing_by all_goals omega

variable {p : ℕ → Bool}

theorem search_between (low high : ℕ) (h : low ≤ high) :
    low ≤ search p low high ∧ search p low high ≤ high := by
  induction low, high using search.induct p with
  | case1 low high hlt mid hfits ih =>
    rw [search, dif_pos hlt]
    have hbetween := ih (by omega)
    simp only [show p ((low + high + 1) / 2) = true from hfits, if_true]
    show low ≤ search p mid high ∧ search p mid high ≤ high
    omega
  | case2 low high hlt mid hfits ih =>
    rw [search, dif_pos hlt]
    have hbetween := ih (by omega)
    simp only [show p ((low + high + 1) / 2) = false by simpa using hfits]
    show low ≤ search p low (mid - 1) ∧ search p low (mid - 1) ≤ high
    omega
  | case3 low high hge =>
    rw [search, dif_neg hge]
    omega

theorem search_fits (low high : ℕ) (h : low ≤ high) (hlow : p low = true) :
    p (search p low high) = true := by
  induction low, high using search.induct p with
  | case1 low high hlt mid hfits ih =>
    rw [search, dif_pos hlt]
    simp only [show p ((low + high + 1) / 2) = true from hfits, if_true]
    exact ih (by omega) hfits
  | case2 low high hlt mid hfits ih =>
    rw [search, dif_pos hlt]
    simp only [show p ((low + high + 1) / 2) = false by simpa using hfits]
    exact ih (by omega) hlow
  | case3 low high hge =>
    rw [search, dif_neg hge]
    exact hlow

theorem search_greatest (hdown : ∀ m n, m ≤ n → p n = true → p m = true) (low high : ℕ)
    (h : low ≤ high) : ∀ n, search p low high < n → n ≤ high → p n = false := by
  induction low, high using search.induct p with
  | case1 low high hlt mid hfits ih =>
    rw [search, dif_pos hlt]
    simp only [show p ((low + high + 1) / 2) = true from hfits, if_true]
    exact ih (by omega)
  | case2 low high hlt mid hfits ih =>
    have hmid : p ((low + high + 1) / 2) = false := by simpa using hfits
    rw [search, dif_pos hlt]
    simp only [hmid]
    intro n hn hle
    by_cases hbelow : n ≤ mid - 1
    · exact ih (by omega) n hn hbelow
    · by_contra hp
      rw [Bool.not_eq_false] at hp
      have hmid' := hdown mid n (by omega) hp
      exact absurd (hmid.symm.trans hmid') Bool.false_ne_true
  | case3 low high hge =>
    rw [search, dif_neg hge]
    omega

end Bisect
