import Mathlib.Data.List.Pairwise
import Mathlib.Data.List.Sort
import Mathlib.Data.List.TakeWhile

/-!
# Stable sorting by a key

A stable sort keeps entries of one key in their arrival order. What is read off the sorted list does
not depend on the arrival order exactly when it is the same for entries of one key; the same holds
of the first selected entry of every key.
-/

set_option autoImplicit false

namespace StableSort

variable {α β κ : Type}

section Reading

variable (key : α → κ)

def Agree (f : α → β) (xs : List α) : Prop := ∀ a ∈ xs, ∀ b ∈ xs, key a = key b → f a = f b

theorem Agree.perm {f : α → β} {xs ys : List α} (h : Agree key f xs) (hperm : xs.Perm ys) :
    Agree key f ys := by
  intro a ha b hb
  exact h a (hperm.mem_iff.mpr ha) b (hperm.mem_iff.mpr hb)

end Reading

variable [LinearOrder κ] (key : α → κ)

def sortByKey (xs : List α) : List α := xs.insertionSort fun a b => key a ≤ key b

/-- The first selected entry of every key that is not seen yet. -/
def firsts (select : α → Bool) : List κ → List α → List α
  | _, [] => []
  | seen, x :: xs =>
    if key x ∈ seen then firsts select seen xs
    else if select x then x :: firsts select (seen ++ [key x]) xs
    else firsts select seen xs

variable {key}

theorem sort_perm (xs : List α) : (sortByKey key xs).Perm xs := List.perm_insertionSort _ xs

theorem mem_sort {a : α} {xs : List α} : a ∈ sortByKey key xs ↔ a ∈ xs :=
  List.mem_insertionSort _

theorem sort_pairwise (xs : List α) :
    (sortByKey key xs).Pairwise fun a b => key a ≤ key b := by
  have htotal : Std.Total fun a b => key a ≤ key b := ⟨fun a b => le_total (key a) (key b)⟩
  have htrans : IsTrans α fun a b => key a ≤ key b := ⟨fun a b c => le_trans⟩
  exact List.pairwise_insertionSort _ xs

/-- Two sorted lists with the same entries read alike where entries of one key do. -/
theorem map_eq_of_agree {f : α → β} {xs ys : List α} (hagree : Agree key f xs)
    (hperm : xs.Perm ys) (hxs : xs.Pairwise fun a b => key a ≤ key b)
    (hys : ys.Pairwise fun a b => key a ≤ key b) : xs.map f = ys.map f := by
  have hpairs : xs.map (fun a => (key a, f a)) = ys.map fun a => (key a, f a) := by
    have hfirst : (xs.map fun a => (key a, f a)).Pairwise fun p q => p.1 ≤ q.1 :=
      List.pairwise_map.mpr hxs
    have hsecond : (ys.map fun a => (key a, f a)).Pairwise fun p q => p.1 ≤ q.1 :=
      List.pairwise_map.mpr hys
    apply List.Perm.eq_of_pairwise _ hfirst hsecond (hperm.map _)
    intro p q hp hq hpq hqp
    obtain ⟨a, ha, rfl⟩ := List.mem_map.mp hp
    obtain ⟨b, hb, rfl⟩ := List.mem_map.mp hq
    have hkey : key a = key b := le_antisymm hpq hqp
    rw [hkey, hagree a ha b (hperm.mem_iff.mpr hb) hkey]
  have hsnd := congrArg (List.map Prod.snd) hpairs
  rw [List.map_map, List.map_map] at hsnd
  exact hsnd

theorem map_sort_perm {f : α → β} {xs ys : List α} (hagree : Agree key f xs)
    (hperm : xs.Perm ys) : (sortByKey key xs).map f = (sortByKey key ys).map f :=
  map_eq_of_agree (hagree.perm key (sort_perm xs).symm)
    ((sort_perm xs).trans (hperm.trans (sort_perm ys).symm)) (sort_pairwise xs) (sort_pairwise ys)

theorem sort_cons (a : α) (xs : List α) :
    sortByKey key (a :: xs) =
      ((sortByKey key xs).takeWhile fun b => decide (key b < key a)) ++
        a :: (sortByKey key xs).dropWhile fun b => decide (key b < key a) := by
  have h := List.insertionSort_cons_eq_take_drop (fun b c => key b ≤ key c) a xs
  simp only [not_le] at h
  exact h

theorem mem_lower {a b : α} {xs : List α}
    (h : b ∈ (sortByKey key xs).takeWhile fun c => decide (key c < key a)) : key b < key a :=
  of_decide_eq_true (List.mem_takeWhile_imp (p := fun c => decide (key c < key a)) h)

theorem sort_cons_cons {a b : α} (hkey : key a = key b) (xs : List α) :
    sortByKey key (a :: b :: xs) =
      ((sortByKey key xs).takeWhile fun c => decide (key c < key a)) ++
        a :: b :: (sortByKey key xs).dropWhile fun c => decide (key c < key a) := by
  have hlower : ∀ c ∈ (sortByKey key xs).takeWhile fun c => decide (key c < key a),
      decide (key c < key a) = true := by
    intro c hc
    exact decide_eq_true (mem_lower hc)
  have hstop : ¬ decide (key b < key a) = true := by simp [hkey]
  rw [sort_cons a, sort_cons b, ← hkey, List.takeWhile_append_of_pos hlower,
    List.dropWhile_append_of_pos hlower,
    List.takeWhile_cons_of_neg (p := fun c => decide (key c < key a)) hstop,
    List.dropWhile_cons_of_neg (p := fun c => decide (key c < key a)) hstop, List.append_nil]

theorem perm_cons_of_mem {a : α} {xs : List α} (h : a ∈ xs) : ∃ rest, xs.Perm (a :: rest) := by
  obtain ⟨before, after, rfl⟩ := List.append_of_mem h
  exact ⟨before ++ after, List.perm_middle⟩

/-- The sorted list reads alike for every arrival order exactly when entries of one key do. -/
theorem map_sort_iff (f : α → β) (xs : List α) :
    (∀ ys, xs.Perm ys → (sortByKey key ys).map f = (sortByKey key xs).map f) ↔
      Agree key f xs := by
  constructor
  · intro h a ha b hb hkey
    obtain ⟨rest, hrest⟩ := perm_cons_of_mem ha
    rcases List.mem_cons.mp (hrest.mem_iff.mp hb) with rfl | hb'
    · rfl
    obtain ⟨others, hothers⟩ := perm_cons_of_mem hb'
    have hab : xs.Perm (a :: b :: others) := hrest.trans (hothers.cons a)
    have hba : xs.Perm (b :: a :: others) := hab.trans (List.Perm.swap b a others)
    have hsame := (h _ hab).trans (h _ hba).symm
    rw [sort_cons_cons hkey, sort_cons_cons hkey.symm, ← hkey, List.map_append, List.map_append,
      List.append_cancel_left_eq] at hsame
    exact (List.cons.inj hsame).1
  · intro h ys hperm
    exact (map_sort_perm h hperm).symm

theorem mem_firsts {select : α → Bool} {a : α} {seen : List κ} {xs : List α}
    (h : a ∈ firsts key select seen xs) : a ∈ xs ∧ select a = true ∧ key a ∉ seen := by
  induction xs generalizing seen with
  | nil => cases h
  | cons x xs ih =>
    rw [firsts] at h
    split_ifs at h with hseen hselect
    · obtain ⟨hmem, hrest⟩ := ih h
      exact ⟨List.mem_cons_of_mem x hmem, hrest⟩
    · rcases List.mem_cons.mp h with rfl | h
      · exact ⟨List.mem_cons_self, hselect, hseen⟩
      · obtain ⟨hmem, hsel, hnot⟩ := ih h
        exact ⟨List.mem_cons_of_mem x hmem, hsel, fun hin => hnot (List.mem_append_left _ hin)⟩
    · obtain ⟨hmem, hrest⟩ := ih h
      exact ⟨List.mem_cons_of_mem x hmem, hrest⟩

theorem first_mem {select : α → Bool} {a : α} (hselect : select a = true) {lower : List α}
    (upper : List α) {seen : List κ} (hseen : key a ∉ seen) (hlower : ∀ b ∈ lower, key b ≠ key a) :
    a ∈ firsts key select seen (lower ++ a :: upper) := by
  induction lower generalizing seen with
  | nil =>
    rw [List.nil_append, firsts, if_neg hseen, if_pos hselect]
    exact List.mem_cons_self
  | cons x xs ih =>
    have hxs : ∀ b ∈ xs, key b ≠ key a := fun b hb => hlower b (List.mem_cons_of_mem x hb)
    rw [List.cons_append, firsts]
    split_ifs with hx hsel
    · exact ih hseen hxs
    · apply List.mem_cons_of_mem
      apply ih _ hxs
      intro hin
      rcases List.mem_append.mp hin with hin | hin
      · exact hseen hin
      · exact hlower x List.mem_cons_self (List.mem_singleton.mp hin).symm
    · exact ih hseen hxs

theorem firsts_cover {select : α → Bool} {a : α} (hselect : select a = true) {seen : List κ}
    (hseen : key a ∉ seen) {xs : List α} (h : a ∈ xs) :
    ∃ b ∈ firsts key select seen xs, key b = key a := by
  induction xs generalizing seen with
  | nil => cases h
  | cons x xs ih =>
    rw [firsts]
    split_ifs with hx hsel
    · rcases List.mem_cons.mp h with rfl | h
      · exact absurd hx hseen
      · exact ih hseen h
    · by_cases hkey : key x = key a
      · exact ⟨x, List.mem_cons_self, hkey⟩
      · rcases List.mem_cons.mp h with rfl | h
        · exact absurd rfl hkey
        · have hnot : key a ∉ seen ++ [key x] := by
            intro hin
            rcases List.mem_append.mp hin with hin | hin
            · exact hseen hin
            · exact hkey (List.mem_singleton.mp hin).symm
          obtain ⟨b, hb, hba⟩ := ih hnot h
          exact ⟨b, List.mem_cons_of_mem x hb, hba⟩
    · rcases List.mem_cons.mp h with rfl | h
      · exact absurd hselect hsel
      · exact ih hseen h

theorem firsts_pairwise (select : α → Bool) (seen : List κ) {xs : List α}
    (h : xs.Pairwise fun a b => key a ≤ key b) :
    (firsts key select seen xs).Pairwise fun a b => key a < key b := by
  induction xs generalizing seen with
  | nil => exact List.Pairwise.nil
  | cons x xs ih =>
    obtain ⟨hx, hxs⟩ := List.pairwise_cons.mp h
    rw [firsts]
    split_ifs with hseen hselect
    · exact ih seen hxs
    · apply List.pairwise_cons.mpr ⟨_, ih _ hxs⟩
      intro b hb
      obtain ⟨hmem, -, hnot⟩ := mem_firsts hb
      have hne : key x ≠ key b := by
        intro heq
        exact hnot (List.mem_append_right _ (List.mem_singleton.mpr heq.symm))
      exact lt_of_le_of_ne (hx b hmem) hne
    · exact ih seen hxs

theorem firsts_key_inj {select : α → Bool} {xs : List α} {a b : α}
    (ha : a ∈ firsts key select [] (sortByKey key xs))
    (hb : b ∈ firsts key select [] (sortByKey key xs)) (hkey : key a = key b) : a = b := by
  have hdiffer : (firsts key select [] (sortByKey key xs)).Pairwise fun c d => key c ≠ key d :=
    (firsts_pairwise select [] (sort_pairwise xs)).imp ne_of_lt
  have hsymm : Std.Symm fun c d : α => key c ≠ key d := ⟨fun _ _ h => h.symm⟩
  by_contra hne
  exact hdiffer.forall ha hb hne hkey

/-- What is read off the first entries of one arrival order is read off those of another. -/
theorem firsts_perm_mem {f : α → β} {select : α → Bool} {xs ys : List α}
    (hagree : Agree key f (xs.filter select)) (hperm : xs.Perm ys) {p : κ × β}
    (h : p ∈ (firsts key select [] (sortByKey key xs)).map fun a => (key a, f a)) :
    p ∈ (firsts key select [] (sortByKey key ys)).map fun a => (key a, f a) := by
  obtain ⟨a, ha, rfl⟩ := List.mem_map.mp h
  obtain ⟨hmem, hsel, -⟩ := mem_firsts ha
  have hin : a ∈ sortByKey key ys := mem_sort.mpr (hperm.mem_iff.mp (mem_sort.mp hmem))
  obtain ⟨b, hb, hkey⟩ := firsts_cover (κ := κ) hsel List.not_mem_nil hin
  obtain ⟨hbmem, hbsel, -⟩ := mem_firsts hb
  have hsame : f b = f a := by
    apply hagree b _ a _ hkey
    · exact List.mem_filter.mpr ⟨hperm.mem_iff.mpr (mem_sort.mp hbmem), hbsel⟩
    · exact List.mem_filter.mpr ⟨mem_sort.mp hmem, hsel⟩
  exact List.mem_map.mpr ⟨b, hb, by rw [hkey, hsame]⟩

/-- The first selected entries read alike for every arrival order exactly when selected entries of
one key do. What is read has to show the key. -/
theorem map_firsts_iff {f : α → β} (hf : ∀ a b, f a = f b → key a = key b) (select : α → Bool)
    (xs : List α) :
    (∀ ys, xs.Perm ys → (firsts key select [] (sortByKey key ys)).map f =
      (firsts key select [] (sortByKey key xs)).map f) ↔ Agree key f (xs.filter select) := by
  constructor
  · intro h a ha b hb hkey
    have hfirst : ∀ c ∈ xs.filter select,
        f c ∈ (firsts key select [] (sortByKey key xs)).map f := by
      intro c hc
      obtain ⟨hmem, hsel⟩ := List.mem_filter.mp hc
      obtain ⟨rest, hrest⟩ := perm_cons_of_mem hmem
      rw [← h _ hrest, sort_cons]
      apply List.mem_map_of_mem
      apply first_mem hsel _ List.not_mem_nil
      intro d hd
      exact ne_of_lt (mem_lower hd)
    obtain ⟨a', ha', hfa⟩ := List.mem_map.mp (hfirst a ha)
    obtain ⟨b', hb', hfb⟩ := List.mem_map.mp (hfirst b hb)
    have hsame : key a' = key b' := by rw [hf a' a hfa, hf b' b hfb, hkey]
    rw [← hfa, ← hfb, firsts_key_inj ha' hb' hsame]
  · intro hagree ys hperm
    have hpairs : (firsts key select [] (sortByKey key ys)).map (fun a => (key a, f a)) =
        (firsts key select [] (sortByKey key xs)).map fun a => (key a, f a) := by
      have hantisymm : Std.Antisymm fun p q : κ × β => p.1 < q.1 :=
        ⟨fun p q hpq hqp => absurd hpq (lt_asymm hqp)⟩
      have hirrefl : Std.Irrefl fun p q : κ × β => p.1 < q.1 := ⟨fun p => lt_irrefl p.1⟩
      have hsorted : ∀ zs : List α, ((firsts key select [] (sortByKey key zs)).map
          fun a => (key a, f a)).Pairwise fun p q => p.1 < q.1 := by
        intro zs
        exact List.pairwise_map.mpr (firsts_pairwise select [] (sort_pairwise zs))
      apply (hsorted ys).eq_of_mem_iff (hsorted xs)
      intro p
      constructor
      · have hys : Agree key f (ys.filter select) := hagree.perm key (hperm.filter select)
        exact firsts_perm_mem hys hperm.symm
      · exact firsts_perm_mem hagree hperm
    have hsnd := congrArg (List.map Prod.snd) hpairs
    rw [List.map_map, List.map_map] at hsnd
    exact hsnd

theorem filter_sort (k : κ) (xs : List α) :
    (sortByKey key xs).filter (fun a => key a = k) = xs.filter fun a => key a = k := by
  induction xs with
  | nil => rfl
  | cons a xs ih =>
    have hsplit := List.takeWhile_append_dropWhile (p := fun b => decide (key b < key a))
      (l := sortByKey key xs)
    rw [← hsplit, List.filter_append] at ih
    rw [sort_cons, List.filter_append, List.filter_cons, List.filter_cons, ← ih]
    by_cases ha : key a = k
    · have hlower : ((sortByKey key xs).takeWhile fun b => decide (key b < key a)).filter
          (fun b => key b = k) = [] := by
        rw [List.filter_eq_nil_iff]
        intro b hb
        have hlt := mem_lower hb
        rw [ha] at hlt
        simpa using hlt.ne
      rw [if_pos (by simpa using ha), if_pos (by simpa using ha), hlower]
      rfl
    · rw [if_neg (by simpa using ha), if_neg (by simpa using ha)]

theorem mem_firsts_iff {select : α → Bool} {a : α} (seen : List κ) (xs : List α) :
    a ∈ firsts key select seen xs ↔
      key a ∉ seen ∧ (xs.filter fun b => key b = key a).find? select = some a := by
  induction xs generalizing seen with
  | nil => simp [firsts]
  | cons x xs ih =>
    rw [firsts]
    by_cases hkey : key x = key a
    · rw [List.filter_cons_of_pos (by simpa using hkey), hkey]
      by_cases hseen : key a ∈ seen
      · rw [if_pos hseen, ih]
        simp [hseen]
      · rw [if_neg hseen, List.find?_cons]
        cases hselect : select x with
        | true =>
          rw [if_pos rfl, List.mem_cons, ih]
          simp only [List.mem_append, List.mem_singleton, or_true, not_true_eq_false, false_and,
            or_false, hseen, not_false_eq_true, true_and, Option.some_inj]
          exact eq_comm
        | false => rw [if_neg Bool.false_ne_true, ih]
    · rw [List.filter_cons_of_neg (by simpa using hkey)]
      have hother : a ≠ x := fun hsame => hkey (by rw [hsame])
      by_cases hseen : key x ∈ seen
      · rw [if_pos hseen]
        exact ih seen
      · rw [if_neg hseen]
        split
        · rw [List.mem_cons, ih, List.mem_append, List.mem_singleton]
          simp [hother, Ne.symm hkey]
        · exact ih seen

/-- With more selected, the first entry found stays or yields to one listed before it. -/
theorem find_grows {select more : α → Bool} (hmore : ∀ a, select a = true → more a = true)
    {xs : List α} {a : α} (h : xs.find? select = some a) :
    ∃ b, xs.find? more = some b ∧
      (b = a ∨ ∃ front middle back, xs = front ++ b :: (middle ++ a :: back) ∧
        (∀ x ∈ front, more x = false) ∧ ∀ x ∈ b :: middle, select x = false) := by
  obtain ⟨hselect, before, after, hxs, hbefore⟩ := List.find?_eq_some_iff_append.mp h
  cases hfind : before.find? more with
  | none =>
    refine ⟨a, ?_, .inl rfl⟩
    rw [hxs, List.find?_append, hfind, Option.none_or, List.find?_cons_of_pos (hmore a hselect)]
  | some b =>
    obtain ⟨hb, front, middle, hsplit, hfront⟩ := List.find?_eq_some_iff_append.mp hfind
    refine ⟨b, by rw [hxs, List.find?_append, hfind]; rfl, .inr ⟨front, middle, after, ?_, ?_, ?_⟩⟩
    · rw [hxs, hsplit, List.append_assoc, List.cons_append]
    · intro x hx
      simpa using hfront x hx
    · intro x hx
      have hmem : x ∈ before := by
        rw [hsplit]
        exact List.mem_append_right _ hx
      simpa using hbefore x hmem

section Merge

variable {select : α → Bool} {le le' : α → α → Bool}

theorem split_unique {before after before' after' : List α} (h : before ++ after = before' ++ after')
    (hbefore : ∀ a ∈ before, select a = false) (hafter : ∀ a ∈ after, select a = true)
    (hbefore' : ∀ a ∈ before', select a = false) (hafter' : ∀ a ∈ after', select a = true) :
    before = before' ∧ after = after' := by
  have hleft : ∀ xs ys : List α, (∀ a ∈ xs, select a = false) → (∀ a ∈ ys, select a = true) →
      (xs ++ ys).filter (fun a => !select a) = xs := by
    intro xs ys hxs hys
    rw [List.filter_append, List.filter_eq_self.mpr (by simpa using hxs),
      List.filter_eq_nil_iff.mpr (by simpa using hys), List.append_nil]
  have hfirst : before = before' := by
    rw [← hleft before after hbefore hafter, h, hleft before' after' hbefore' hafter']
  exact ⟨hfirst, List.append_cancel_left (hfirst ▸ h)⟩

/-- The selected entries of a sorted list are the selected ones sorted; among them the two orders
agree. -/
theorem filter_merge_sort (htrans : ∀ a b c, le a b = true → le b c = true → le a c = true)
    (htotal : ∀ a b, (le a b || le b a) = true)
    (htrans' : ∀ a b c, le' a b = true → le' b c = true → le' a c = true)
    (htotal' : ∀ a b, (le' a b || le' b a) = true)
    (hsame : ∀ a b, select a = true → select b = true → le' a b = le a b) (xs : List α) :
    (xs.mergeSort le).filter select = (xs.filter select).mergeSort le' := by
  induction xs with
  | nil => simp
  | cons a xs ih =>
    obtain ⟨before, after, hsort, hrest, hbefore⟩ := List.mergeSort_cons htrans htotal a xs
    have hsorted := List.pairwise_mergeSort htrans htotal (a :: xs)
    rw [hsort] at hsorted
    have hafter : ∀ b ∈ after, le a b = true :=
      (List.pairwise_cons.mp (List.pairwise_append.mp hsorted).2.1).1
    rw [hrest, List.filter_append] at ih
    by_cases ha : select a = true
    · obtain ⟨before', after', hsort', hrest', hbefore'⟩ :=
        List.mergeSort_cons htrans' htotal' a (xs.filter select)
      have hsorted' := List.pairwise_mergeSort htrans' htotal' (a :: xs.filter select)
      rw [hsort'] at hsorted'
      have hafter' : ∀ b ∈ after', le' a b = true :=
        (List.pairwise_cons.mp (List.pairwise_append.mp hsorted').2.1).1
      have hselected : ∀ b ∈ before' ++ after', le' a b = le a b := by
        intro b hb
        rw [← hrest', List.mem_mergeSort] at hb
        exact hsame a b ha (List.mem_filter.mp hb).2
      obtain ⟨hfirst, hlast⟩ := split_unique (ih.trans hrest')
        (fun b hb => by simpa using hbefore b (List.mem_of_mem_filter hb))
        (fun b hb => hafter b (List.mem_of_mem_filter hb))
        (fun b hb => by
          rw [← hselected b (List.mem_append_left _ hb)]
          simpa using hbefore' b hb)
        (fun b hb => by
          rw [← hselected b (List.mem_append_right _ hb)]
          exact hafter' b hb)
      rw [hsort, List.filter_cons_of_pos ha, hsort', List.filter_append,
        List.filter_cons_of_pos ha, hfirst, hlast]
    · rw [hsort, List.filter_cons_of_neg ha, List.filter_append, List.filter_cons_of_neg ha, ih]

end Merge

end StableSort
