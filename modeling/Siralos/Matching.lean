import Mathlib.Data.List.Infix
import Mathlib.Data.List.TakeDrop

/-!
# Matching by failure links

The state of a matcher is how much of its pattern the input read so far ends in. Where the next
item does not continue it, the failure table leads to the next shorter border. The state is the
longest beginning of the pattern that the input ends in, and the table is right by the same
argument: it is the matcher, run on the pattern without its head.
-/

set_option autoImplicit false

namespace Matching

section Matcher

variable {α : Type} [DecidableEq α]

/-- Follows the failure table until the item continues the match or nothing is left of it. The
bound is never reached: every link is shorter. -/
def descend (pattern : List α) (failure : List ℕ) (value : α) : ℕ → ℕ → ℕ
  | 0, matched => matched
  | bound + 1, matched =>
    if matched > 0 ∧ pattern[matched]? ≠ some value then
      descend pattern failure value bound (failure.getD (matched - 1) 0)
    else matched

def advance (pattern : List α) (failure : List ℕ) (matched : ℕ) (value : α) : ℕ :=
  let kept := descend pattern failure value pattern.length matched
  if pattern[kept]? = some value then kept + 1 else kept

/-- The table for what of the pattern is still to be read. -/
def extendTable (pattern : List α) : List α → List ℕ → ℕ → List ℕ
  | [], failure, _ => failure
  | value :: rest, failure, matched =>
    let next := advance pattern failure matched value
    extendTable pattern rest (failure ++ [next]) next

def kmpFailure : List α → List ℕ
  | [] => []
  | first :: rest => extendTable (first :: rest) rest [0] 0

def overlap (pattern input : List α) : ℕ :=
  input.foldl (advance pattern (kmpFailure pattern)) 0

end Matcher

variable {α : Type} {pattern input : List α} {failure : List ℕ}

/-- The input ends in the first `m` items of the pattern. -/
structure EndsIn (pattern input : List α) (m : ℕ) : Prop where
  within : m ≤ pattern.length
  suffix : pattern.take m <:+ input

structure Longest (pattern input : List α) (m : ℕ) : Prop where
  ends : EndsIn pattern input m
  greatest : ∀ k, EndsIn pattern input k → k ≤ m

theorem ends_zero (pattern input : List α) : EndsIn pattern input 0 := ⟨Nat.zero_le _, by simp⟩

theorem EndsIn.length {m : ℕ} (h : EndsIn pattern input m) : m ≤ input.length := by
  have hlength := h.suffix.length_le
  rwa [List.length_take, Nat.min_eq_left h.within] at hlength

theorem ends_succ (m : ℕ) (value : α) :
    EndsIn pattern (input ++ [value]) (m + 1) ↔
      EndsIn pattern input m ∧ pattern[m]? = some value := by
  constructor
  · rintro ⟨hwithin, rest, hrest⟩
    have hlt : m < pattern.length := hwithin
    have hsome : pattern[m]? = some pattern[m] := List.getElem?_eq_getElem hlt
    rw [List.take_add_one, hsome, Option.toList_some, ← List.append_assoc] at hrest
    obtain ⟨hinput, hlast⟩ := List.append_inj' hrest rfl
    exact ⟨⟨by omega, rest, hinput⟩, by rw [hsome, List.singleton_inj.mp hlast]⟩
  · rintro ⟨⟨-, rest, hrest⟩, hvalue⟩
    have hlt := (List.getElem?_eq_some_iff.mp hvalue).1
    refine ⟨hlt, rest, ?_⟩
    rw [List.take_add_one, hvalue, Option.toList_some, ← List.append_assoc, hrest]

theorem EndsIn.border {k m : ℕ} (h : EndsIn pattern input m) (hk : k ≤ m) :
    EndsIn pattern input k ↔ EndsIn pattern (pattern.take m) k := by
  constructor
  · intro hshort
    refine ⟨hshort.within, List.suffix_of_suffix_length_le hshort.suffix h.suffix ?_⟩
    rw [List.length_take, List.length_take]
    omega
  · intro hborder
    exact ⟨hborder.within, hborder.suffix.trans h.suffix⟩

/-- A proper border of a beginning of the pattern is an end of what follows its head. -/
theorem border_iff {n k : ℕ} (hk : k < n) (hn : n ≤ pattern.length) :
    EndsIn pattern (pattern.take n) k ↔ EndsIn pattern ((pattern.take n).drop 1) k := by
  constructor
  · intro h
    refine ⟨h.within, List.suffix_of_suffix_length_le h.suffix (List.drop_suffix 1 _) ?_⟩
    rw [List.length_drop, List.length_take, List.length_take]
    omega
  · intro h
    exact ⟨h.within, h.suffix.trans (List.drop_suffix 1 _)⟩

/-- The links of the first `n` states lead to the longest proper border of each. -/
structure Linked (pattern : List α) (failure : List ℕ) (n : ℕ) : Prop where
  shorter : ∀ m, 0 < m → m ≤ n → failure.getD (m - 1) 0 < m
  border : ∀ m, 0 < m → m ≤ n → EndsIn pattern (pattern.take m) (failure.getD (m - 1) 0)
  greatest : ∀ m, 0 < m → m ≤ n → ∀ k < m, EndsIn pattern (pattern.take m) k →
    k ≤ failure.getD (m - 1) 0

theorem Linked.mono {m n : ℕ} (h : Linked pattern failure n) (hm : m ≤ n) :
    Linked pattern failure m where
  shorter k hpos hk := h.shorter k hpos (hk.trans hm)
  border k hpos hk := h.border k hpos (hk.trans hm)
  greatest k hpos hk := h.greatest k hpos (hk.trans hm)

theorem Linked.snoc {next : ℕ}
    (hlinked : Linked pattern failure failure.length) (hlt : failure.length < pattern.length)
    (hnext : Longest pattern ((pattern.take (failure.length + 1)).drop 1) next) :
    Linked pattern (failure ++ [next]) (failure.length + 1) := by
  have hold : ∀ m, m ≤ failure.length → 0 < m →
      (failure ++ [next]).getD (m - 1) 0 = failure.getD (m - 1) 0 := by
    intro m hm hpos
    rw [List.getD_eq_getElem?_getD, List.getD_eq_getElem?_getD,
      List.getElem?_append_left (by omega)]
  have hnew : (failure ++ [next]).getD failure.length 0 = next := by simp
  have hshort : next < failure.length + 1 := by
    have hlength := hnext.ends.length
    rw [List.length_drop, List.length_take] at hlength
    omega
  constructor
  case shorter =>
    intro m hpos hm
    rcases Nat.le_add_one_iff.mp hm with hbefore | rfl
    · rw [hold m hbefore hpos]
      exact hlinked.shorter m hpos hbefore
    · rw [Nat.add_sub_cancel, hnew]
      exact hshort
  case border =>
    intro m hpos hm
    rcases Nat.le_add_one_iff.mp hm with hbefore | rfl
    · rw [hold m hbefore hpos]
      exact hlinked.border m hpos hbefore
    · rw [Nat.add_sub_cancel, hnew]
      exact (border_iff hshort hlt).mpr hnext.ends
  case greatest =>
    intro m hpos hm k hk hborder
    rcases Nat.le_add_one_iff.mp hm with hbefore | rfl
    · rw [hold m hbefore hpos]
      exact hlinked.greatest m hpos hbefore k hk hborder
    · rw [Nat.add_sub_cancel, hnew]
      exact hnext.greatest k ((border_iff hk hlt).mp hborder)

variable [DecidableEq α]

structure Kept (pattern input : List α) (value : α) (matched kept : ℕ) : Prop where
  le : kept ≤ matched
  ends : EndsIn pattern input kept
  stopped : kept = 0 ∨ pattern[kept]? = some value
  greatest : ∀ k ≤ matched, EndsIn pattern input k → pattern[k]? = some value → k ≤ kept

theorem descend_kept (value : α) (bound matched : ℕ) (hlinked : Linked pattern failure matched)
    (hends : EndsIn pattern input matched) (hbound : matched ≤ bound) :
    Kept pattern input value matched (descend pattern failure value bound matched) := by
  induction bound generalizing matched with
  | zero =>
    have hzero : matched = 0 := by omega
    exact ⟨le_rfl, hends, .inl hzero, fun k hk _ _ => hk⟩
  | succ bound ih =>
    rw [descend]
    by_cases hgoes : matched > 0 ∧ pattern[matched]? ≠ some value
    · rw [if_pos hgoes]
      have hshorter := hlinked.shorter matched hgoes.1 le_rfl
      have hborder := hlinked.border matched hgoes.1 le_rfl
      have hnext := (hends.border hshorter.le).mpr hborder
      have hkept := ih _ (hlinked.mono hshorter.le) hnext (by omega)
      refine ⟨hkept.le.trans hshorter.le, hkept.ends, hkept.stopped, ?_⟩
      intro k hk hkends hkvalue
      have hne : k ≠ matched := by
        intro heq
        exact hgoes.2 (heq ▸ hkvalue)
      have hlt : k < matched := by omega
      apply hkept.greatest k _ hkends hkvalue
      exact hlinked.greatest matched hgoes.1 le_rfl k hlt ((hends.border hk).mp hkends)
    · rw [if_neg hgoes]
      refine ⟨le_rfl, hends, ?_, fun k hk _ _ => hk⟩
      by_cases hzero : matched = 0
      · exact .inl hzero
      · exact .inr (by
          by_contra hvalue
          exact hgoes ⟨by omega, hvalue⟩)

theorem advance_longest (value : α) (matched : ℕ) (hlinked : Linked pattern failure matched)
    (h : Longest pattern input matched) :
    Longest pattern (input ++ [value]) (advance pattern failure matched value) := by
  have hkept := descend_kept value pattern.length matched hlinked h.ends h.ends.within
  rw [advance]
  by_cases hvalue : pattern[descend pattern failure value pattern.length matched]? = some value
  · rw [if_pos hvalue]
    refine ⟨(ends_succ _ _).mpr ⟨hkept.ends, hvalue⟩, ?_⟩
    intro k hk
    cases k with
    | zero => exact Nat.zero_le _
    | succ k =>
      obtain ⟨hshort, hnext⟩ := (ends_succ _ _).mp hk
      exact Nat.succ_le_succ (hkept.greatest k (h.greatest k hshort) hshort hnext)
  · rw [if_neg hvalue]
    have hzero := hkept.stopped.resolve_right hvalue
    rw [hzero] at hvalue ⊢
    refine ⟨ends_zero _ _, ?_⟩
    intro k hk
    cases k with
    | zero => exact le_rfl
    | succ k =>
      obtain ⟨hshort, hnext⟩ := (ends_succ _ _).mp hk
      have hle := hkept.greatest k (h.greatest k hshort) hshort hnext
      have hk0 : k = 0 := by omega
      rw [hk0] at hnext
      exact absurd hnext hvalue

theorem extend_linked (rest : List α) (failure : List ℕ) (matched : ℕ)
    (hrest : pattern.drop failure.length = rest) (hpos : 0 < failure.length)
    (hwithin : failure.length ≤ pattern.length) (hlinked : Linked pattern failure failure.length)
    (h : Longest pattern ((pattern.take failure.length).drop 1) matched) :
    Linked pattern (extendTable pattern rest failure matched) pattern.length := by
  induction rest generalizing failure matched with
  | nil =>
    have hall : failure.length = pattern.length := by
      have hle := List.drop_eq_nil_iff.mp hrest
      omega
    rw [extendTable, ← hall]
    exact hlinked
  | cons value rest ih =>
    have hlt : failure.length < pattern.length := by
      by_contra hge
      rw [List.drop_eq_nil_iff.mpr (by omega)] at hrest
      cases hrest
    have hvalue : pattern[failure.length]? = some value := by
      rw [← Nat.add_zero failure.length, ← List.getElem?_drop, hrest]
      rfl
    have hle : matched ≤ failure.length := by
      have hlength := h.ends.length
      rw [List.length_drop, List.length_take] at hlength
      omega
    have hgrown : (pattern.take failure.length).drop 1 ++ [value] =
        (pattern.take (failure.length + 1)).drop 1 := by
      rw [List.take_add_one, hvalue, Option.toList_some, List.drop_append_of_le_length]
      rw [List.length_take]
      omega
    have hnext := advance_longest value matched (hlinked.mono hle) h
    rw [hgrown] at hnext
    rw [extendTable]
    apply ih
    · rw [List.length_append, List.length_singleton, ← List.drop_drop, hrest]
      rfl
    · simp
    · rw [List.length_append, List.length_singleton]
      exact hlt
    · rw [List.length_append, List.length_singleton]
      exact hlinked.snoc hlt hnext
    · rw [List.length_append, List.length_singleton]
      exact hnext

theorem kmp_linked (pattern : List α) :
    Linked pattern (kmpFailure pattern) pattern.length := by
  cases pattern with
  | nil =>
    have hnone : ∀ m, 0 < m → ¬ m ≤ ([] : List α).length := by
      intro m hpos hle
      rw [List.length_nil] at hle
      omega
    exact ⟨fun m hpos hle => absurd hle (hnone m hpos), fun m hpos hle => absurd hle (hnone m hpos),
      fun m hpos hle => absurd hle (hnone m hpos)⟩
  | cons first rest =>
    rw [kmpFailure]
    have hone : ∀ m, 0 < m → m ≤ 1 → m = 1 := fun m hpos hle => by omega
    apply extend_linked
    · rfl
    · simp
    · simp
    · constructor
      · intro m hpos hle
        rw [hone m hpos hle]
        simp
      · intro m hpos hle
        rw [hone m hpos hle]
        exact ends_zero _ _
      · intro m hpos hle k hk _
        rw [hone m hpos hle] at hk
        omega
    · refine ⟨ends_zero _ _, ?_⟩
      intro k hk
      simpa using hk.length

theorem overlap_longest (pattern input : List α) :
    Longest pattern input (overlap pattern input) := by
  induction input using List.reverseRecOn with
  | nil => exact ⟨ends_zero _ _, fun k hk => hk.length⟩
  | append_singleton input value ih =>
    rw [overlap, List.foldl_append]
    exact advance_longest value _ ((kmp_linked pattern).mono ih.ends.within) ih

end Matching
