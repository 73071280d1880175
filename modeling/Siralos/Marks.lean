import Mathlib.Data.List.Basic

/-!
# Marked positions of a list

A test on the entries of a list marks positions. Erasing the marked positions from the last to
the first, or overwriting them, changes exactly the marked entries.
-/

set_option autoImplicit false

namespace Siralos.Marks

variable {α β : Type}

def indicesOf : List Bool → List ℕ
  | [] => []
  | true :: marks => 0 :: (indicesOf marks).map (· + 1)
  | false :: marks => (indicesOf marks).map (· + 1)

theorem indices_length (p : β → Bool) (l : List β) :
    (indicesOf (l.map p)).length = l.countP p := by
  induction l with
  | nil => rfl
  | cons b l ih =>
    by_cases hb : p b = true
    · rw [List.map_cons, hb, indicesOf, List.length_cons, List.length_map, ih,
        List.countP_cons_of_pos hb]
    · have hf : p b = false := by simpa using hb
      rw [List.map_cons, hf, indicesOf, List.length_map, ih, List.countP_cons_of_neg hb]

theorem enumerated (p : α → Bool → Bool) (l : List (α × Bool)) (shift : ℕ) :
    (((l.map Prod.fst).zipIdx shift).filter
        fun e => p e.1 ((l.map Prod.snd).getD (e.2 - shift) false)).map Prod.snd =
      (indicesOf (l.map fun e => p e.1 e.2)).map (· + shift) := by
  induction l generalizing shift with
  | nil => rfl
  | cons e l ih =>
    have htail : (((l.map Prod.fst).zipIdx (shift + 1)).filter
        fun e' => p e'.1 (((e :: l).map Prod.snd).getD (e'.2 - shift) false)) =
        ((l.map Prod.fst).zipIdx (shift + 1)).filter
          fun e' => p e'.1 ((l.map Prod.snd).getD (e'.2 - (shift + 1)) false) := by
      apply List.filter_congr
      intro e' he'
      have hlt : shift + 1 ≤ e'.2 := List.le_snd_of_mem_zipIdx he'
      have hsub : e'.2 - shift = (e'.2 - (shift + 1)) + 1 := by omega
      rw [hsub]
      rfl
    have hshift : (indicesOf (l.map fun e => p e.1 e.2)).map (· + (shift + 1)) =
        ((indicesOf (l.map fun e => p e.1 e.2)).map (· + 1)).map (· + shift) := by
      rw [List.map_map]
      apply List.map_congr_left
      intro i _
      show i + (shift + 1) = i + 1 + shift
      omega
    have hhead : p e.1 (((e :: l).map Prod.snd).getD (shift - shift) false) = p e.1 e.2 := by
      rw [Nat.sub_self]
      rfl
    have hcons : (((e :: l).map Prod.fst).zipIdx shift).filter
        (fun e' => p e'.1 (((e :: l).map Prod.snd).getD (e'.2 - shift) false)) =
        if p e.1 e.2 then (e.1, shift) :: ((l.map Prod.fst).zipIdx (shift + 1)).filter
          fun e' => p e'.1 ((l.map Prod.snd).getD (e'.2 - (shift + 1)) false)
        else ((l.map Prod.fst).zipIdx (shift + 1)).filter
          fun e' => p e'.1 ((l.map Prod.snd).getD (e'.2 - (shift + 1)) false) := by
      rw [show (e :: l).map Prod.fst = e.1 :: l.map Prod.fst from rfl, List.zipIdx_cons,
        List.filter_cons, htail, hhead]
    rw [hcons, List.map_cons]
    cases hp : p e.1 e.2 with
    | true =>
      rw [if_pos rfl, List.map_cons, ih, hshift, indicesOf, List.map_cons, Nat.zero_add]
    | false =>
      rw [if_neg Bool.false_ne_true, ih, hshift, indicesOf]

theorem erase_tail (a : α) (indices : List ℕ) (l : List α) :
    (indices.map (· + 1)).foldl List.eraseIdx (a :: l) = a :: indices.foldl List.eraseIdx l := by
  induction indices generalizing l with
  | nil => rfl
  | cons i indices ih => exact ih (l.eraseIdx i)

theorem erase_marked (p : β → Bool) (f : β → α) (l : List β) :
    (indicesOf (l.map p)).reverse.foldl List.eraseIdx (l.map f) =
      (l.filter fun b => !p b).map f := by
  induction l with
  | nil => rfl
  | cons b l ih =>
    rw [List.map_cons, List.map_cons, List.filter_cons]
    cases p b with
    | true =>
      rw [indicesOf, List.reverse_cons, List.foldl_append, ← List.map_reverse, erase_tail, ih]
      rfl
    | false =>
      rw [indicesOf, ← List.map_reverse, erase_tail, ih]
      rfl

theorem set_tail (a x : α) (indices : List ℕ) (l : List α) :
    (indices.map (· + 1)).foldl (fun l i => l.set i x) (a :: l) =
      a :: indices.foldl (fun l i => l.set i x) l := by
  induction indices generalizing l with
  | nil => rfl
  | cons i indices ih => exact ih (l.set i x)

theorem set_marked (p : β → Bool) (f : β → α) (x : α) (l : List β) :
    (indicesOf (l.map p)).foldl (fun l i => l.set i x) (l.map f) =
      l.map fun b => if p b then x else f b := by
  induction l with
  | nil => rfl
  | cons b l ih =>
    rw [List.map_cons, List.map_cons, List.map_cons]
    cases p b with
    | true =>
      rw [indicesOf, List.foldl_cons, List.set_cons_zero, set_tail, ih]
      rfl
    | false =>
      rw [indicesOf, set_tail, ih]
      rfl

end Siralos.Marks
