import Mathlib.Data.List.Basic
import Mathlib.Order.Lattice

/-!
# Shedding load

Items are given up one at a time, the first in an order first, until what is left is within
bounds or nothing may be given up any more.
-/

set_option autoImplicit false

namespace Shedding

section Lowest

variable {α : Type}

/-- The scan keeps its first candidate on ties. -/
def better (before : α → α → Bool) (a : α) : Option α → α
  | none => a
  | some best => if before a best then a else best

def lowest (before : α → α → Bool) (eligible : α → Bool) : Option α → List α → Option α
  | candidate, [] => candidate
  | candidate, a :: rest =>
    lowest before eligible (if eligible a then some (better before a candidate) else candidate)
      rest

theorem better_either (before : α → α → Bool) (a : α) (candidate : Option α) :
    better before a candidate = a ∨ candidate = some (better before a candidate) := by
  cases candidate with
  | none => exact .inl rfl
  | some best =>
    by_cases hbefore : before a best = true
    · exact .inl (if_pos hbefore)
    · exact .inr (by rw [better, if_neg hbefore])

theorem lowest_mem (before : α → α → Bool) (eligible : α → Bool) (as : List α)
    (candidate : Option α) (a : α) (h : lowest before eligible candidate as = some a) :
    candidate = some a ∨ (a ∈ as ∧ eligible a = true) := by
  induction as generalizing candidate with
  | nil => exact .inl h
  | cons b as ih =>
    rcases ih _ h with hsome | ⟨ha, heligible⟩
    · split at hsome
      · cases hsome
        rcases better_either before b candidate with hb | hbest
        · rw [hb]
          exact .inr ⟨by simp, by assumption⟩
        · exact .inl hbest
      · exact .inl hsome
    · exact .inr ⟨by simp [ha], heligible⟩

theorem lowest_some (before : α → α → Bool) (eligible : α → Bool) (as : List α) (best : α) :
    ∃ a, lowest before eligible (some best) as = some a := by
  induction as generalizing best with
  | nil => exact ⟨best, rfl⟩
  | cons b as ih =>
    rw [lowest]
    split
    · exact ih _
    · exact ih _

theorem lowest_none (before : α → α → Bool) (eligible : α → Bool) (as : List α)
    (h : lowest before eligible none as = none) (a : α) (ha : a ∈ as) : eligible a = false := by
  induction as with
  | nil => cases ha
  | cons b as ih =>
    by_cases hb : eligible b = true
    · rw [lowest, if_pos hb] at h
      obtain ⟨c, hc⟩ := lowest_some before eligible as (better before b none)
      rw [hc] at h
      cases h
    · rw [lowest, if_neg hb] at h
      rcases List.mem_cons.mp ha with rfl | ha
      · simpa using hb
      · exact ih h ha

variable {κ : Type} [LinearOrder κ] (key : α → κ)

theorem lowest_least (before : α → α → Bool) (eligible : α → Bool)
    (hbefore : ∀ a b, before a b = true ↔ key a < key b) (as : List α) (candidate : Option α)
    (best : α) (h : lowest before eligible candidate as = some best) :
    (∀ c, candidate = some c → key best ≤ key c) ∧
      ∀ a ∈ as, eligible a = true → key best ≤ key a := by
  induction as generalizing candidate with
  | nil =>
    constructor
    · intro c hc
      rw [lowest, hc] at h
      cases h
      exact le_refl _
    · intro a ha
      cases ha
  | cons b as ih =>
    rw [lowest] at h
    obtain ⟨hkept, hrest⟩ := ih _ h
    by_cases hb : eligible b = true
    · rw [if_pos hb] at hkept
      have hbetter := hkept _ rfl
      constructor
      · intro c hc
        subst hc
        refine le_trans hbetter ?_
        rw [better]
        split
        · rename_i hlt
          exact le_of_lt ((hbefore b c).mp hlt)
        · exact le_refl _
      · intro a ha heligible
        rcases List.mem_cons.mp ha with rfl | ha
        · refine le_trans hbetter ?_
          cases candidate with
          | none => exact le_refl _
          | some c =>
            rw [better]
            split
            · exact le_refl _
            · rename_i hnot
              exact le_of_not_gt fun hlt => hnot ((hbefore a c).mpr hlt)
        · exact hrest a ha heligible
    · rw [if_neg hb] at hkept
      refine ⟨hkept, ?_⟩
      intro a ha heligible
      rcases List.mem_cons.mp ha with rfl | ha
      · exact absurd heligible hb
      · exact hrest a ha heligible

end Lowest

variable {σ : Type}

/-- What a shedding loop watches, and the step that gives one item up. -/
structure Loop (σ : Type) where
  done : σ → Bool
  next : σ → Option σ
  size : σ → ℕ
  smaller : ∀ s s', next s = some s' → size s' < size s

def Loop.run (loop : Loop σ) (s : σ) : σ :=
  if loop.done s then s
  else
    match _hnext : loop.next s with
    | none => s
    | some s' => loop.run s'
termination_by loop.size s
decreasing_by exact loop.smaller s s' _hnext

theorem run_done (loop : Loop σ) (s : σ) (h : loop.done s = true) : loop.run s = s := by
  rw [Loop.run, if_pos h]

theorem run_stuck (loop : Loop σ) (s : σ) (h : loop.next s = none) : loop.run s = s := by
  rw [Loop.run]
  split
  · rfl
  · rw [h]

theorem run_next (loop : Loop σ) (s s' : σ) (hdone : ¬ loop.done s = true)
    (hnext : loop.next s = some s') : loop.run s = loop.run s' := by
  rw [Loop.run, if_neg hdone, hnext]

theorem run_keeps (loop : Loop σ) (Holds : σ → Prop)
    (hstep : ∀ s s', Holds s → loop.next s = some s' → Holds s') (s : σ) (h : Holds s) :
    Holds (loop.run s) := by
  fun_induction Loop.run loop s with
  | case1 s _ => exact h
  | case2 s _ _ => exact h
  | case3 s _ s' hnext ih => exact ih (hstep s s' h hnext)

theorem run_settled (loop : Loop σ) (s : σ) :
    loop.done (loop.run s) = true ∨ loop.next (loop.run s) = none := by
  fun_induction Loop.run loop s with
  | case1 s hdone => exact .inl hdone
  | case2 s _ hnext => exact .inr hnext
  | case3 s _ s' _ ih => exact ih

/-- A loop whose steps are known one by one stops at the first stage that is done, or at the
last one. -/
theorem run_prefix (loop : Loop σ) (limit : ℕ) (stage : ℕ → σ)
    (hstep : ∀ n, n < limit → loop.next (stage n) = some (stage (n + 1)))
    (hlast : loop.next (stage limit) = none) :
    ∃ k, k ≤ limit ∧ loop.run (stage 0) = stage k ∧
      (loop.done (stage k) = true ∨ k = limit) ∧ ∀ m, m < k → loop.done (stage m) = false := by
  induction limit generalizing stage with
  | zero =>
    exact ⟨0, le_refl 0, run_stuck loop _ hlast, .inr rfl, fun m hm => absurd hm (by omega)⟩
  | succ limit ih =>
    by_cases hdone : loop.done (stage 0) = true
    · exact ⟨0, by omega, run_done loop _ hdone, .inl hdone, fun m hm => absurd hm (by omega)⟩
    · have hfirst := hstep 0 (by omega)
      obtain ⟨k, hk, hrun, hsettled, hbefore⟩ := ih (fun n => stage (n + 1))
        (fun n hn => hstep (n + 1) (by omega)) hlast
      refine ⟨k + 1, by omega, ?_, ?_, ?_⟩
      · exact (run_next loop _ _ hdone hfirst).trans hrun
      · rcases hsettled with hdone | hlimit
        · exact .inl hdone
        · exact .inr (by omega)
      · intro m hm
        cases m with
        | zero => simpa using hdone
        | succ m => exact hbefore m (by omega)

inductive Passes (loop : Loop σ) : σ → σ → Prop
  | here (s : σ) : Passes loop s s
  | step {s s' t : σ} (hdone : ¬ loop.done s = true) (hnext : loop.next s = some s')
      (h : Passes loop s' t) : Passes loop s t

theorem passes_keep (loop : Loop σ) (Holds : σ → Prop)
    (hstep : ∀ s s', Holds s → loop.next s = some s' → Holds s') (s t : σ) (h : Passes loop s t)
    (hs : Holds s) : Holds t := by
  induction h with
  | here s => exact hs
  | step _ hnext _ ih => exact ih (hstep _ _ hs hnext)

end Shedding
