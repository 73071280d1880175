import Mathlib.Data.List.Basic
import Mathlib.Data.List.Forall2
import Mathlib.Data.List.Nodup
import Mathlib.Data.List.Perm.Subperm

/-!
# Keyed entries

Lists whose entries are found and updated by key, first match first, beside a second list
they stay aligned with.
-/

set_option autoImplicit false

namespace Keyed

variable {α β κ : Type}

theorem exists_free (name : ℕ → α) (taken : List α) {count : ℕ} (hcount : taken.length < count)
    (hinj : ∀ i < count, ∀ j < count, name i = name j → i = j) : ∃ i < count, name i ∉ taken := by
  by_contra hnone
  have hnodup : ((List.range count).map name).Nodup := by
    apply List.Nodup.map_on _ List.nodup_range
    intro i hi j hj
    exact hinj i (List.mem_range.mp hi) j (List.mem_range.mp hj)
  have hsubset : (List.range count).map name ⊆ taken := by
    intro x hx
    obtain ⟨i, hi, rfl⟩ := List.mem_map.mp hx
    by_contra hfree
    exact hnone ⟨i, List.mem_range.mp hi, hfree⟩
  have hlength := (hnodup.subperm hsubset).length_le
  rw [List.length_map, List.length_range] at hlength
  omega

theorem aligned_map {R : α → β → Prop} (make : α → β) (as : List α) (h : ∀ a, R a (make a)) :
    List.Forall₂ R as (as.map make) := by
  induction as with
  | nil => exact .nil
  | cons a as ih => exact .cons (h a) ih

theorem aligned_mem {R S : α → β → Prop} (as : List α) (bs : List β)
    (haligned : List.Forall₂ R as bs) (h : ∀ a b, b ∈ bs → R a b → S a b) :
    List.Forall₂ S as bs := by
  induction haligned with
  | nil => exact .nil
  | cons hab _ ih =>
    exact .cons (h _ _ (by simp) hab) (ih fun a b hb => h a b (List.mem_cons_of_mem _ hb))

theorem aligned_left {R : α → β → Prop} {as : List α} {bs : List β}
    (haligned : List.Forall₂ R as bs) (b : β) (hb : b ∈ bs) : ∃ a ∈ as, R a b := by
  induction haligned with
  | nil => cases hb
  | cons hab _ ih =>
    rcases List.mem_cons.mp hb with rfl | hb
    · exact ⟨_, by simp, hab⟩
    · obtain ⟨a, ha, hR⟩ := ih hb
      exact ⟨a, by simp [ha], hR⟩

theorem aligned_keys {R : α → β → Prop} {keyA : α → κ} {keyB : β → κ}
    (hkeys : ∀ a b, R a b → keyB b = keyA a) {as : List α} {bs : List β}
    (haligned : List.Forall₂ R as bs) : bs.map keyB = as.map keyA := by
  induction haligned with
  | nil => rfl
  | cons hab _ ih => rw [List.map_cons, List.map_cons, hkeys _ _ hab, ih]

theorem aligned_trans {γ : Type} {R : α → β → Prop} {S : β → γ → Prop} {T : α → γ → Prop}
    (htrans : ∀ a b c, R a b → S b c → T a c) {as : List α} {bs : List β} {cs : List γ}
    (hab : List.Forall₂ R as bs) (hbc : List.Forall₂ S bs cs) : List.Forall₂ T as cs := by
  induction hab generalizing cs with
  | nil =>
    cases hbc
    exact .nil
  | cons hR _ ih =>
    cases hbc with
    | cons hS hrest => exact .cons (htrans _ _ _ hR hS) (ih hrest)

variable [DecidableEq κ]

/-- Changes the first entry whose key is `k`. -/
def updateFirst (key : β → κ) (k : κ) (f : β → β) : List β → List β
  | [] => []
  | b :: rest => if key b = k then f b :: rest else b :: updateFirst key k f rest

theorem mem_update_first (key : β → κ) (k : κ) (f : β → β) (bs : List β) (b : β)
    (h : b ∈ updateFirst key k f bs) : b ∈ bs ∨ ∃ b₀ ∈ bs, key b₀ = k ∧ b = f b₀ := by
  induction bs with
  | nil => exact .inl h
  | cons c bs ih =>
    unfold updateFirst at h
    split at h
    · rename_i hc
      rcases List.mem_cons.mp h with rfl | h
      · exact .inr ⟨c, by simp, hc, rfl⟩
      · exact .inl (List.mem_cons_of_mem _ h)
    · rcases List.mem_cons.mp h with rfl | h
      · exact .inl (by simp)
      · rcases ih h with hb | ⟨b₀, hb₀, hkey, rfl⟩
        · exact .inl (List.mem_cons_of_mem _ hb)
        · exact .inr ⟨b₀, List.mem_cons_of_mem _ hb₀, hkey, rfl⟩

theorem aligned_update_first {R : β → β → Prop} (key : β → κ) (k : κ) (f : β → β)
    (hrefl : ∀ b, R b b) (hf : ∀ b, R b (f b)) (bs : List β) :
    List.Forall₂ R bs (updateFirst key k f bs) := by
  induction bs with
  | nil => exact .nil
  | cons b bs ih =>
    rw [updateFirst]
    split
    · exact .cons (hf b) (List.forall₂_same.mpr fun c _ => hrefl c)
    · exact .cons (hrefl b) ih

theorem update_first_keys (key : β → κ) (k : κ) (f : β → β) (hf : ∀ b, key (f b) = key b)
    (bs : List β) : (updateFirst key k f bs).map key = bs.map key := by
  have haligned : List.Forall₂ (fun a b => key b = key a) bs (updateFirst key k f bs) :=
    aligned_update_first (R := fun a b => key b = key a) key k f (fun _ => rfl) hf bs
  exact aligned_keys (fun _ _ h => h) haligned

theorem find_update_first (key : β → κ) (k : κ) (f : β → β) (hf : ∀ b, key (f b) = key b)
    (bs : List β) (other : κ) : (updateFirst key k f bs).find? (fun b => key b = other) =
      (bs.find? (fun b => key b = other)).map fun b => if other = k then f b else b := by
  induction bs with
  | nil => rfl
  | cons c bs ih =>
    by_cases hc : key c = k
    · rw [updateFirst, if_pos hc]
      by_cases hother : other = k
      · simp [hother, hc, hf]
      · have hne : key c ≠ other := fun h => hother (h ▸ hc)
        simp [hother, hne, hf]
    · rw [updateFirst, if_neg hc]
      by_cases hother : key c = other
      · have hne : other ≠ k := fun h => hc (hother.trans h)
        simp [hother, hne]
      · simp [hother, ih]

theorem update_first_map (key : β → κ) (k : κ) (f : β → β) (bs : List β)
    (hdistinct : (bs.map key).Nodup) :
    updateFirst key k f bs = bs.map fun b => if key b = k then f b else b := by
  induction bs with
  | nil => rfl
  | cons c bs ih =>
    rw [List.map_cons, List.nodup_cons] at hdistinct
    by_cases hc : key c = k
    · have hothers : ∀ b ∈ bs, (if key b = k then f b else b) = b := by
        intro b hb
        have hne : key b ≠ k := fun h => hdistinct.1 (List.mem_map.mpr ⟨b, hb, h.trans hc.symm⟩)
        rw [if_neg hne]
      have hrest : bs.map (fun b => if key b = k then f b else b) = bs :=
        (List.map_congr_left hothers).trans (List.map_id bs)
      rw [updateFirst, if_pos hc, List.map_cons, if_pos hc, hrest]
    · rw [updateFirst, if_neg hc, List.map_cons, if_neg hc, ih hdistinct.2]

theorem mem_update_key (key : β → κ) (k : κ) (f : β → β) (bs : List β) (b : β)
    (hdistinct : (bs.map key).Nodup) (h : b ∈ updateFirst key k f bs) (hkey : key b = k) :
    ∃ b₀ ∈ bs, b = f b₀ := by
  induction bs with
  | nil => cases h
  | cons c bs ih =>
    rw [List.map_cons, List.nodup_cons] at hdistinct
    unfold updateFirst at h
    split at h
    · rename_i hc
      rcases List.mem_cons.mp h with rfl | h
      · exact ⟨c, by simp, rfl⟩
      · exact absurd (List.mem_map.mpr ⟨b, h, hkey.trans hc.symm⟩) hdistinct.1
    · rename_i hc
      rcases List.mem_cons.mp h with rfl | h
      · exact absurd hkey hc
      · obtain ⟨b₀, hb₀, rfl⟩ := ih hdistinct.2 h
        exact ⟨b₀, List.mem_cons_of_mem _ hb₀, rfl⟩

theorem count_update_first (key : β → κ) (k : κ) (f : β → β) (p : β → Bool) (bs : List β) (b : β)
    (hfound : bs.find? (fun b => key b = k) = some b) (hb : p b = true) (hf : p (f b) = false) :
    (updateFirst key k f bs).countP p + 1 = bs.countP p := by
  induction bs with
  | nil => simp at hfound
  | cons c bs ih =>
    by_cases hc : key c = k
    · simp only [List.find?_cons, hc, decide_true, Option.some.injEq] at hfound
      subst hfound
      rw [updateFirst, if_pos hc, List.countP_cons_of_neg (by simp [hf]),
        List.countP_cons_of_pos hb]
    · simp only [List.find?_cons, hc, decide_false] at hfound
      rw [updateFirst, if_neg hc, List.countP_cons, List.countP_cons, ← ih hfound]
      omega

theorem filter_update_first (key : β → κ) (k : κ) (f : β → β) (p : β → Bool) (bs : List β) (b : β)
    (hfound : bs.find? (fun b => key b = k) = some b) (hb : p b = false) (hf : p (f b) = false) :
    (updateFirst key k f bs).filter p = bs.filter p := by
  induction bs with
  | nil => simp at hfound
  | cons c bs ih =>
    by_cases hc : key c = k
    · simp only [List.find?_cons, hc, decide_true, Option.some.injEq] at hfound
      subst hfound
      rw [updateFirst, if_pos hc, List.filter_cons_of_neg (by simp [hf]),
        List.filter_cons_of_neg (by simp [hb])]
    · simp only [List.find?_cons, hc, decide_false] at hfound
      rw [updateFirst, if_neg hc, List.filter_cons, List.filter_cons, ih hfound]

theorem find_key (key : α → κ) (k : κ) (as : List α) (a : α)
    (h : as.find? (fun a => key a = k) = some a) : key a = k := by
  simpa using List.find?_some h

theorem find_of_nodup (key : α → κ) (as : List α) (a : α) (hdistinct : (as.map key).Nodup)
    (ha : a ∈ as) : as.find? (fun b => key b = key a) = some a := by
  induction as with
  | nil => cases ha
  | cons b as ih =>
    rw [List.map_cons, List.nodup_cons] at hdistinct
    rcases List.mem_cons.mp ha with rfl | ha
    · simp
    · have hne : key b ≠ key a := fun h => hdistinct.1 (h ▸ List.mem_map_of_mem ha)
      rw [List.find?_cons_of_neg (by simpa using hne)]
      exact ih hdistinct.2 ha

theorem aligned_update {R : α → β → Prop} (keyA : α → κ) (keyB : β → κ) (k : κ) (f : β → β)
    (hkeys : ∀ a b, R a b → keyA a = keyB b) (as : List α) (bs : List β) (b₀ : β)
    (haligned : List.Forall₂ R as bs) (hfound : bs.find? (fun b => keyB b = k) = some b₀)
    (hf : ∀ a, as.find? (fun a => keyA a = k) = some a → R a b₀ → R a (f b₀)) :
    List.Forall₂ R as (updateFirst keyB k f bs) := by
  induction haligned with
  | nil => simp at hfound
  | cons hab hrest ih =>
    rename_i a b as bs
    have hkey := hkeys a b hab
    by_cases hb : keyB b = k
    · simp only [List.find?_cons, hb, decide_true, Option.some.injEq] at hfound
      subst hfound
      rw [updateFirst, if_pos hb]
      exact .cons (hf a (by simp [hkey, hb]) hab) hrest
    · simp only [List.find?_cons, hb, decide_false] at hfound
      rw [updateFirst, if_neg hb]
      refine .cons hab (ih hfound ?_)
      intro a' ha'
      exact hf a' (by simpa [List.find?_cons, hkey, hb] using ha')

end Keyed
