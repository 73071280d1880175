import Mathlib.Data.List.Infix
import Mathlib.Tactic.Common

/-!
# Splitting and joining at a separator

The pieces of a split hold no separator, the pieces of a beginning are beginnings of the pieces, and
joining adds nothing but separators.
-/

set_option autoImplicit false

namespace Splitting

variable {α : Type}

theorem mem_split_on (p : α → Bool) (value piece : List α) (h : piece ∈ value.splitOnP p) :
    ∀ c ∈ piece, p c = false ∧ c ∈ value := by
  induction value generalizing piece with
  | nil =>
    have hpiece : piece = [] := by simpa using h
    simp [hpiece]
  | cons d rest ih =>
    rw [List.splitOnP_cons_eq_if_modifyHead] at h
    by_cases hd : p d = true
    · rw [if_pos hd] at h
      intro c hc
      rcases List.mem_cons.mp h with rfl | h
      · cases hc
      · obtain ⟨hfalse, hmem⟩ := ih piece h c hc
        exact ⟨hfalse, List.mem_cons_of_mem _ hmem⟩
    · rw [if_neg hd] at h
      obtain ⟨first, others, hsplit⟩ :=
        List.exists_cons_of_ne_nil (@List.splitOnP_ne_nil _ p rest)
      rw [hsplit, List.modifyHead_cons] at h
      intro c hc
      rcases List.mem_cons.mp h with rfl | h
      · rcases List.mem_cons.mp hc with rfl | hc
        · exact ⟨by simpa using hd, by simp⟩
        · obtain ⟨hfalse, hmem⟩ := ih first (by simp [hsplit]) c hc
          exact ⟨hfalse, List.mem_cons_of_mem _ hmem⟩
      · obtain ⟨hfalse, hmem⟩ := ih piece (by simp [hsplit, h]) c hc
        exact ⟨hfalse, List.mem_cons_of_mem _ hmem⟩

theorem mem_join (sep : α) {pieces : List (List α)} {c : α} (h : c ∈ [sep].intercalate pieces) :
    c = sep ∨ ∃ piece ∈ pieces, c ∈ piece := by
  induction pieces with
  | nil => simp [List.intercalate] at h
  | cons piece pieces ih =>
    cases pieces with
    | nil => exact .inr ⟨piece, List.mem_cons_self, by simpa using h⟩
    | cons next rest =>
      rw [List.intercalate_cons_cons, List.append_assoc, List.mem_append, List.mem_append,
        List.mem_singleton] at h
      rcases h with hpiece | hsep | hrest
      · exact .inr ⟨piece, List.mem_cons_self, hpiece⟩
      · exact .inl hsep
      · rcases ih hrest with hsep | ⟨other, hother, hc⟩
        · exact .inl hsep
        · exact .inr ⟨other, List.mem_cons_of_mem _ hother, hc⟩

theorem split_take [BEq α] (sep : α) (text : List α) (n : ℕ) :
    ∀ piece ∈ (text.take n).splitOn sep, ∃ whole ∈ text.splitOn sep, piece <+: whole := by
  have hheads : ∀ text : List α, ∀ n, ∃ first others whole more,
      (text.take n).splitOn sep = first :: others ∧ text.splitOn sep = whole :: more ∧
        first <+: whole ∧ ∀ piece ∈ others, ∃ whole ∈ more, piece <+: whole := by
    intro text
    induction text with
    | nil =>
      intro n
      exact ⟨[], [], [], [], by simp, by simp, List.nil_prefix, by simp⟩
    | cons c text ih =>
      intro n
      cases n with
      | zero =>
        obtain ⟨whole, more, hwhole⟩ := List.exists_cons_of_ne_nil (List.splitOn_ne_nil sep (c :: text))
        exact ⟨[], [], whole, more, by simp, hwhole, List.nil_prefix, by simp⟩
      | succ n =>
        obtain ⟨first, others, whole, more, hfirst, hwhole, hprefix, hothers⟩ := ih n
        rw [List.take_succ_cons, List.splitOn_cons_eq_if_modifyHead,
          List.splitOn_cons_eq_if_modifyHead, hfirst, hwhole]
        by_cases hc : (c == sep) = true
        · rw [if_pos hc, if_pos hc]
          refine ⟨[], first :: others, [], whole :: more, rfl, rfl, List.nil_prefix, ?_⟩
          intro piece hpiece
          rcases List.mem_cons.mp hpiece with rfl | hpiece
          · exact ⟨whole, List.mem_cons_self, hprefix⟩
          · obtain ⟨other, hother, hpiece⟩ := hothers piece hpiece
            exact ⟨other, List.mem_cons_of_mem _ hother, hpiece⟩
        · rw [if_neg hc, if_neg hc]
          exact ⟨c :: first, others, c :: whole, more, rfl, rfl,
            List.cons_prefix_cons.mpr ⟨rfl, hprefix⟩, hothers⟩
  intro piece hpiece
  obtain ⟨first, others, whole, more, hfirst, hwhole, hprefix, hothers⟩ := hheads text n
  rw [hfirst] at hpiece
  rw [hwhole]
  rcases List.mem_cons.mp hpiece with rfl | hpiece
  · exact ⟨whole, List.mem_cons_self, hprefix⟩
  · obtain ⟨other, hother, hpiece⟩ := hothers piece hpiece
    exact ⟨other, List.mem_cons_of_mem _ hother, hpiece⟩

section Separator

variable [BEq α] [LawfulBEq α] (sep : α)

theorem split_free {text piece : List α} (h : piece ∈ text.splitOn sep) :
    sep ∉ piece ∧ ∀ c ∈ piece, c ∈ text := by
  rw [List.splitOn_eq_splitOnP] at h
  have hpiece := mem_split_on (· == sep) text piece h
  constructor
  · intro hmem
    simpa using (hpiece sep hmem).1
  · intro c hc
    exact (hpiece c hc).2

theorem filter_join (pieces : List (List α)) :
    ([sep].intercalate pieces).filter (fun c => !(c == sep)) =
      pieces.flatten.filter fun c => !(c == sep) := by
  induction pieces with
  | nil => simp [List.intercalate]
  | cons piece pieces ih =>
    cases pieces with
    | nil => simp
    | cons next rest =>
      rw [List.intercalate_cons_cons, List.filter_append, List.filter_append, ih,
        List.flatten_cons (l := piece), List.filter_append]
      simp

end Separator

end Splitting
