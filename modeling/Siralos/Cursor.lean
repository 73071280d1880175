import Mathlib.Algebra.GroupWithZero.Nat
import Mathlib.Data.List.Infix

/-!
# A cursor into a weighted list

A buffer whose entries have weights, and positions that are weights. A position either stands
between two entries or inside one, and only the first kind can cut the buffer.
-/

set_option autoImplicit false

namespace Siralos.Cursor

variable {α : Type*} (weight : α → ℕ)

def weigh (xs : List α) : ℕ := (xs.map weight).sum

@[simp] theorem weigh_nil : weigh weight [] = 0 := rfl

@[simp] theorem weigh_cons (x : α) (xs : List α) :
    weigh weight (x :: xs) = weight x + weigh weight xs := by
  simp [weigh]

@[simp] theorem weigh_append (xs ys : List α) :
    weigh weight (xs ++ ys) = weigh weight xs + weigh weight ys := by
  simp [weigh]

/-- Both sides of a position, or nothing where the position stands inside an entry. -/
def cut : ℕ → List α → Option (List α × List α)
  | 0, xs => some ([], xs)
  | _ + 1, [] => none
  | n + 1, x :: xs =>
    if weight x ≤ n + 1 then
      (cut (n + 1 - weight x) xs).map fun parts => (x :: parts.1, parts.2)
    else none

/-- The first position from `least` on, or the end; `index` is where the list begins. -/
def firstBoundary (least : ℕ) : ℕ → List α → ℕ
  | index, [] => index
  | index, x :: xs => if least ≤ index then index else firstBoundary least (index + weight x) xs

def lastBoundary (xs : List α) : ℕ → ℕ
  | 0 => 0
  | n + 1 => if (cut weight (n + 1) xs).isSome then n + 1 else lastBoundary xs n

/-- The entries that fit within a bound, after `used`. -/
def fit (bound : ℕ) : ℕ → List α → List α
  | _, [] => []
  | used, x :: xs => if bound < used + weight x then [] else x :: fit bound (used + weight x) xs

def Owes (buffer : List α) (cursor : ℕ) (owed : List α) : Prop :=
  ∃ shown, buffer = shown ++ owed ∧ weigh weight shown = cursor

variable {weight}

theorem weigh_zero (hpos : ∀ x, 0 < weight x) {xs : List α} (h : weigh weight xs = 0) :
    xs = [] := by
  cases xs with
  | nil => rfl
  | cons x xs =>
    have hx := hpos x
    rw [weigh_cons] at h
    omega

theorem cut_iff (hpos : ∀ x, 0 < weight x) (n : ℕ) (xs front rest : List α) :
    cut weight n xs = some (front, rest) ↔ xs = front ++ rest ∧ weigh weight front = n := by
  induction xs generalizing n front with
  | nil =>
    cases n with
    | zero =>
      constructor
      · intro h
        cases h
        exact ⟨rfl, rfl⟩
      · rintro ⟨hsplit, -⟩
        obtain ⟨rfl, rfl⟩ := List.append_eq_nil_iff.mp hsplit.symm
        rfl
    | succ n =>
      constructor
      · intro h
        cases h
      · rintro ⟨hsplit, hweight⟩
        obtain ⟨rfl, -⟩ := List.append_eq_nil_iff.mp hsplit.symm
        cases hweight
  | cons x xs ih =>
    cases n with
    | zero =>
      constructor
      · intro h
        cases h
        exact ⟨rfl, rfl⟩
      · rintro ⟨hsplit, hweight⟩
        rw [weigh_zero hpos hweight] at hsplit ⊢
        rw [cut, hsplit]
        rfl
    | succ n =>
      have hx := hpos x
      rw [cut]
      by_cases hfit : weight x ≤ n + 1
      · rw [if_pos hfit, Option.map_eq_some_iff]
        constructor
        · rintro ⟨parts, hparts, heq⟩
          cases heq
          obtain ⟨hsplit, hweight⟩ := (ih _ parts.1).mp hparts
          refine ⟨by rw [hsplit, List.cons_append], ?_⟩
          rw [weigh_cons, hweight]
          omega
        · rintro ⟨hsplit, hweight⟩
          cases front with
          | nil => cases hweight
          | cons y front =>
            rw [List.cons_append, List.cons.injEq] at hsplit
            rw [weigh_cons, ← hsplit.1] at hweight
            refine ⟨(front, rest), (ih _ front).mpr ⟨hsplit.2, by omega⟩, ?_⟩
            rw [hsplit.1]
      · rw [if_neg hfit]
        constructor
        · intro h
          cases h
        · rintro ⟨hsplit, hweight⟩
          cases front with
          | nil => cases hweight
          | cons y front =>
            rw [List.cons_append, List.cons.injEq] at hsplit
            rw [weigh_cons, ← hsplit.1] at hweight
            omega

theorem first_boundary_split (least index : ℕ) (xs : List α) :
    ∃ front rest, xs = front ++ rest ∧
      firstBoundary weight least index xs = index + weigh weight front := by
  induction xs generalizing index with
  | nil => exact ⟨[], [], rfl, rfl⟩
  | cons x xs ih =>
    rw [firstBoundary]
    by_cases hleast : least ≤ index
    · rw [if_pos hleast]
      exact ⟨[], x :: xs, rfl, rfl⟩
    · rw [if_neg hleast]
      obtain ⟨front, rest, hsplit, hfirst⟩ := ih (index + weight x)
      refine ⟨x :: front, rest, by rw [hsplit, List.cons_append], ?_⟩
      rw [hfirst, weigh_cons]
      omega

theorem le_first_boundary (least index : ℕ) (xs : List α)
    (h : least ≤ index + weigh weight xs) : least ≤ firstBoundary weight least index xs := by
  induction xs generalizing index with
  | nil => exact h
  | cons x xs ih =>
    rw [firstBoundary]
    by_cases hleast : least ≤ index
    · rwa [if_pos hleast]
    · rw [if_neg hleast]
      rw [weigh_cons] at h
      exact ih _ (by omega)

theorem first_boundary_le (least index : ℕ) (front rest : List α)
    (h : least ≤ index + weigh weight front) :
    firstBoundary weight least index (front ++ rest) ≤ index + weigh weight front := by
  induction front generalizing index with
  | nil =>
    rw [weigh_nil, Nat.add_zero] at h ⊢
    cases rest with
    | nil => exact le_rfl
    | cons x rest =>
      rw [List.nil_append, firstBoundary, if_pos h]
  | cons x front ih =>
    rw [List.cons_append, firstBoundary]
    by_cases hleast : least ≤ index
    · rw [if_pos hleast]
      exact Nat.le_add_right _ _
    · rw [if_neg hleast]
      rw [weigh_cons] at h ⊢
      have hnext := ih (index + weight x) (by omega)
      omega

theorem last_boundary_cut (xs : List α) (n : ℕ) :
    (cut weight (lastBoundary weight xs n) xs).isSome = true := by
  induction n with
  | zero => cases xs <;> rfl
  | succ n ih =>
    rw [lastBoundary]
    by_cases hcut : (cut weight (n + 1) xs).isSome = true
    · rwa [if_pos hcut]
    · rwa [if_neg hcut]

theorem fit_prefix (bound used : ℕ) (xs : List α) : fit weight bound used xs <+: xs := by
  induction xs generalizing used with
  | nil => exact List.nil_prefix
  | cons x xs ih =>
    rw [fit]
    by_cases hbound : bound < used + weight x
    · rw [if_pos hbound]
      exact List.nil_prefix
    · rw [if_neg hbound]
      exact List.cons_prefix_cons.mpr ⟨rfl, ih _⟩

theorem fit_weigh (bound used : ℕ) (xs : List α) (h : used ≤ bound) :
    used + weigh weight (fit weight bound used xs) ≤ bound := by
  induction xs generalizing used with
  | nil => exact h
  | cons x xs ih =>
    rw [fit]
    by_cases hbound : bound < used + weight x
    · rw [if_pos hbound]
      exact h
    · rw [if_neg hbound, weigh_cons]
      have hrest := ih (used + weight x) (by omega)
      omega

theorem owes_nil : Owes weight [] 0 [] := ⟨[], rfl, rfl⟩

theorem owes_weigh {buffer owed : List α} {cursor : ℕ} (h : Owes weight buffer cursor owed) :
    weigh weight buffer = cursor + weigh weight owed := by
  obtain ⟨shown, rfl, rfl⟩ := h
  rw [weigh_append]

theorem owes_cut (hpos : ∀ x, 0 < weight x) {buffer owed : List α} {cursor : ℕ}
    (h : Owes weight buffer cursor owed) : ∃ shown, cut weight cursor buffer = some (shown, owed) := by
  obtain ⟨shown, hbuffer, hcursor⟩ := h
  exact ⟨shown, (cut_iff hpos _ _ _ _).mpr ⟨hbuffer, hcursor⟩⟩

theorem owes_append {buffer owed : List α} {cursor : ℕ} (h : Owes weight buffer cursor owed)
    (more : List α) : Owes weight (buffer ++ more) cursor (owed ++ more) := by
  obtain ⟨shown, rfl, hcursor⟩ := h
  exact ⟨shown, List.append_assoc shown owed more, hcursor⟩

theorem owes_next {buffer owed : List α} {cursor : ℕ} {x : α}
    (h : Owes weight buffer cursor (x :: owed)) : Owes weight buffer (cursor + weight x) owed := by
  obtain ⟨shown, rfl, rfl⟩ := h
  refine ⟨shown ++ [x], by rw [List.append_assoc, List.singleton_append], ?_⟩
  rw [weigh_append, weigh_cons, weigh_nil, Nat.add_zero]

theorem owes_drop (hpos : ∀ x, 0 < weight x) {front rest owed : List α} {cursor : ℕ}
    (h : Owes weight (front ++ rest) cursor owed) (hfront : weigh weight front ≤ cursor) :
    Owes weight rest (cursor - weigh weight front) owed := by
  obtain ⟨shown, hsplit, rfl⟩ := h
  rcases List.append_eq_append_iff.mp hsplit with ⟨more, rfl, hrest⟩ | ⟨more, rfl, howed⟩
  · refine ⟨more, hrest, ?_⟩
    rw [weigh_append, Nat.add_sub_cancel_left]
  · rw [weigh_append] at hfront ⊢
    have hnone := @weigh_zero _ _ hpos more (by omega)
    refine ⟨[], ?_, ?_⟩
    · rw [howed, hnone, List.nil_append, List.nil_append]
    · rw [hnone, weigh_nil]
      omega

end Siralos.Cursor
