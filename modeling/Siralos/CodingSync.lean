import Siralos.Coding

/-!
# Codes that show where a codeword begins

Where every codeword begins with a lead symbol and has no other, a piece of an encoded text that
begins and ends like codewords is the code of a piece of the text.
-/

set_option autoImplicit false

namespace Coding

variable {α σ : Type}

structure Synced (code : α → List σ) (lead : σ → Prop) : Prop where
  separable : Separable code
  leads : ∀ a, ∃ s rest, code a = s :: rest ∧ lead s ∧ ∀ x ∈ rest, ¬ lead x

variable {code : α → List σ} {lead : σ → Prop} (h : Synced code lead)

include h

theorem Synced.ne_nil (a : α) : code a ≠ [] := by
  obtain ⟨s, rest, hcode, -⟩ := h.leads a
  rw [hcode]
  exact List.cons_ne_nil _ _

/-- A cut in front of a lead symbol lies between two codewords. -/
theorem Synced.cut {text : List α} {before after : List σ}
    (heq : text.flatMap code = before ++ after)
    (hlead : ∀ s rest, after = s :: rest → lead s) :
    ∃ left right, text = left ++ right ∧ left.flatMap code = before ∧
      right.flatMap code = after := by
  induction text generalizing before with
  | nil =>
    rw [List.flatMap_nil] at heq
    obtain ⟨hbefore, hafter⟩ := List.append_eq_nil_iff.mp heq.symm
    exact ⟨[], [], rfl, hbefore.symm, hafter.symm⟩
  | cons a text ih =>
    rw [List.flatMap_cons] at heq
    rcases List.append_eq_append_iff.mp heq with ⟨more, hbefore, hrest⟩ | ⟨more, hcode, hafter⟩
    · obtain ⟨left, right, htext, hleft, hright⟩ := ih hrest
      exact ⟨a :: left, right, by rw [htext]; rfl,
        by rw [List.flatMap_cons, hleft, hbefore], hright⟩
    · cases more with
      | nil =>
        rw [List.append_nil] at hcode
        have hnone : text.flatMap code = [] ++ after := hafter.symm
        obtain ⟨left, right, htext, hleft, hright⟩ := ih hnone
        exact ⟨a :: left, right, by rw [htext]; rfl,
          by rw [List.flatMap_cons, hleft, List.append_nil, hcode], hright⟩
      | cons s more =>
        have hs := hlead s _ hafter
        obtain ⟨first, rest, hfirst, -, hrest⟩ := h.leads a
        cases before with
        | nil =>
          refine ⟨[], a :: text, rfl, rfl, ?_⟩
          rw [List.flatMap_cons, hafter]
          rw [List.nil_append] at hcode
          rw [hcode]
        | cons b before =>
          rw [hfirst, List.cons_append] at hcode
          have htail := (List.cons.inj hcode).2
          exact absurd hs (hrest s (by rw [htail]; simp))

theorem Synced.prefix_of {xs ys : List α} (hleads : xs.flatMap code <+: ys.flatMap code) :
    xs <+: ys := by
  induction xs generalizing ys with
  | nil => exact List.nil_prefix
  | cons x xs ih =>
    obtain ⟨rest, hrest⟩ := hleads
    cases ys with
    | nil =>
      rw [List.flatMap_nil, List.flatMap_cons, List.append_assoc] at hrest
      exact absurd (List.append_eq_nil_iff.mp hrest).1 (h.ne_nil x)
    | cons y ys =>
      rw [List.flatMap_cons, List.flatMap_cons, List.append_assoc] at hrest
      obtain ⟨hhead, htail⟩ := h.separable x y _ _ hrest
      rw [hhead]
      exact (List.prefix_cons_inj y).mpr (ih ⟨rest, htail⟩)

theorem Synced.infix_of {xs ys : List α} (hne : xs ≠ [])
    (hpart : xs.flatMap code <:+: ys.flatMap code) : xs <:+: ys := by
  obtain ⟨before, after, heq⟩ := hpart
  rw [List.append_assoc] at heq
  have hlead : ∀ s rest, xs.flatMap code ++ after = s :: rest → lead s := by
    intro s rest hs
    cases xs with
    | nil => exact absurd rfl hne
    | cons x xs =>
      obtain ⟨first, tail, hfirst, hfirstLead, -⟩ := h.leads x
      rw [List.flatMap_cons, hfirst, List.cons_append] at hs
      rw [← (List.cons.inj hs).1]
      exact hfirstLead
  obtain ⟨left, right, hys, -, hright⟩ := h.cut heq.symm hlead
  obtain ⟨tail, htail⟩ := h.prefix_of ⟨after, hright.symm⟩
  exact ⟨left, tail, by rw [hys, ← htail, List.append_assoc]⟩

/-- An encoded text that ends in some beginning of another ends in the code of an end of its
own, which is a beginning of the other. -/
theorem Synced.ending {xs ys : List α} {k : ℕ} (hsuffix : (xs.flatMap code).take k <:+ ys.flatMap code) :
    ∃ left right, ys = left ++ right ∧ right.flatMap code = (xs.flatMap code).take k ∧
      right <+: xs := by
  obtain ⟨before, heq⟩ := hsuffix
  have hlead : ∀ s rest, (xs.flatMap code).take k = s :: rest → lead s := by
    intro s rest hs
    cases xs with
    | nil => simp at hs
    | cons x xs =>
      obtain ⟨first, tail, hfirst, hfirstLead, -⟩ := h.leads x
      cases k with
      | zero => simp at hs
      | succ k =>
        rw [List.flatMap_cons, hfirst, List.cons_append, List.take_succ_cons] at hs
        rw [← (List.cons.inj hs).1]
        exact hfirstLead
  obtain ⟨left, right, hys, -, hright⟩ := h.cut heq.symm hlead
  refine ⟨left, right, hys, hright, h.prefix_of ?_⟩
  rw [hright]
  exact List.take_prefix _ _

end Coding
