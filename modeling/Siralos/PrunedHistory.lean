import Siralos.SessionHistory

/-!
# Pruned histories

Rounds of the loop take a history from one user message to the next. It ends at the first turn from
which the rest fits, which is then the longest rest that begins with a user message.
-/

set_option autoImplicit false

namespace Siralos.PrunedHistory

open Provider Conversation Transcript Session

/-- The loop's body: the index is relative to the second item. -/
def drainTurn (history : List ConversationItem) : List ConversationItem :=
  match (history.drop 1).findIdx? isUserItem with
  | some nextUser => history.drop (nextUser + 1)
  | none => []

/-- What begins with a user message, or is empty. -/
def UserAligned (history : List ConversationItem) : Prop :=
  ∀ item ∈ history.head?, isUserItem item = true

theorem drain_turn_eq (history : List ConversationItem) : drainTurn history = dropTurn history := by
  have hskip : (fun item => !!isUserItem item) = isUserItem := by
    funext item
    rw [Bool.not_not]
  rw [drainTurn, dropTurn, List.dropWhile_eq_drop_findIdx_not, hskip, List.drop_one]
  cases hfound : history.tail.findIdx? isUserItem with
  | none =>
    rw [List.findIdx?_eq_none_iff_findIdx_eq] at hfound
    rw [hfound, List.drop_length]
  | some nextUser =>
    rw [List.findIdx?_eq_some_iff_findIdx_eq] at hfound
    rw [hfound.2, ← List.drop_one, List.drop_drop, Nat.add_comm]

section Alignment

variable {history rest : List ConversationItem}

theorem drop_turn_aligned (history : List ConversationItem) : UserAligned (dropTurn history) := by
  intro item hitem
  have hnot := List.head?_dropWhile_not (fun item => !isUserItem item) history.tail
  rw [dropTurn] at hitem
  rw [hitem] at hnot
  simpa using hnot

theorem drop_turn_suffix (history : List ConversationItem) : dropTurn history <:+ history :=
  (List.dropWhile_suffix _).trans (List.tail_suffix _)

theorem aligned_suffix (haligned : UserAligned rest) (h : rest <:+ history) (hne : rest ≠ history) :
    rest <:+ dropTurn history := by
  have htail : rest <:+ history.tail := by
    cases history with
    | nil => exact absurd (List.suffix_nil.mp h) hne
    | cons item items =>
      rcases List.suffix_cons_iff.mp h with hsame | hrest
      · exact absurd hsame hne
      · exact hrest
  rw [dropTurn]
  revert htail
  generalize history.tail = items
  intro htail
  induction items with
  | nil => exact htail
  | cons item items ih =>
    rw [List.dropWhile_cons]
    by_cases huser : isUserItem item = true
    · rw [if_neg (by simp [huser])]
      exact htail
    · rw [if_pos (by simpa using huser)]
      apply ih
      rcases List.suffix_cons_iff.mp htail with rfl | hrest
      · exact absurd (haligned item rfl) huser
      · exact hrest

end Alignment

variable (serde : SerdeJson)

theorem prune_history_suffix (history : List ConversationItem) :
    pruneHistory serde history <:+ history := by
  fun_induction pruneHistory serde history with
  | case1 history _ => exact List.suffix_rfl
  | case2 history _ ih => exact ih.trans (drop_turn_suffix history)

theorem prune_history_aligned (history : List ConversationItem) (h : UserAligned history) :
    UserAligned (pruneHistory serde history) := by
  fun_induction pruneHistory serde history with
  | case1 history _ => exact h
  | case2 history _ ih => exact ih (drop_turn_aligned history)

theorem prune_history_longest (history rest : List ConversationItem) (haligned : UserAligned rest)
    (h : rest <:+ history) (hfits : Fits serde rest) : rest <:+ pruneHistory serde history := by
  fun_induction pruneHistory serde history with
  | case1 history _ => exact h
  | case2 history hover ih =>
    apply ih
    apply aligned_suffix haligned h
    rintro rfl
    exact hover hfits

theorem drain_turn_users (history : List ConversationItem) (h : UserAligned history)
    (hne : history ≠ []) :
    (drainTurn history).countP isUserItem + 1 = history.countP isUserItem := by
  rw [drain_turn_eq, dropTurn]
  cases history with
  | nil => exact absurd rfl hne
  | cons item items =>
    have hsplit := List.takeWhile_append_dropWhile (p := fun item => !isUserItem item) (l := items)
    have hbefore : (items.takeWhile fun item => !isUserItem item).countP isUserItem = 0 := by
      rw [List.countP_eq_zero]
      intro other hother
      simpa using List.mem_takeWhile_imp hother
    have hitems : items.countP isUserItem =
        (items.dropWhile fun item => !isUserItem item).countP isUserItem := by
      conv_lhs => rw [← hsplit, List.countP_append, hbefore, Nat.zero_add]
    rw [List.countP_cons_of_pos (h item rfl), hitems]
    rfl

theorem prune_history_rounds (history : List ConversationItem) (h : UserAligned history) :
    ∃ rounds ≤ history.countP isUserItem, drainTurn^[rounds] history = pruneHistory serde history ∧
      ∀ earlier < rounds, ¬ Fits serde (drainTurn^[earlier] history) := by
  fun_induction pruneHistory serde history with
  | case1 history _ =>
    exact ⟨0, Nat.zero_le _, rfl, fun earlier hearlier => absurd hearlier (Nat.not_lt_zero _)⟩
  | case2 history hover ih =>
    have hne : history ≠ [] := by
      rintro rfl
      exact hover (fits_nil serde)
    have hturns := drain_turn_users history h hne
    have hdrain := drain_turn_eq history
    obtain ⟨rounds, hrounds, hlast, hearlier⟩ := ih (drop_turn_aligned history)
    rw [← hdrain] at hrounds hearlier
    refine ⟨rounds + 1, by omega, ?_, ?_⟩
    · rw [Function.iterate_succ_apply, hdrain]
      exact hlast
    · intro earlier hless
      cases earlier with
      | zero => exact hover
      | succ earlier => exact hearlier earlier (Nat.lt_of_succ_lt_succ hless)

/-- The loop ends, and what it leaves is the longest rest from a user message on that fits. -/
theorem prune_history_exact (history : List ConversationItem)
    (hvalid : validateConversationItems history = .ok ()) (huser : UserAligned history) :
    (∃ rounds ≤ history.countP isUserItem,
      drainTurn^[rounds] history = pruneHistory serde history ∧
        ∀ earlier < rounds, ¬ Fits serde (drainTurn^[earlier] history)) ∧
    pruneHistory serde history <:+ history ∧ Fits serde (pruneHistory serde history) ∧
    UserAligned (pruneHistory serde history) ∧
    validateConversationItems (pruneHistory serde history) = .ok () ∧
    ∀ rest, rest <:+ history → UserAligned rest → Fits serde rest →
      rest <:+ pruneHistory serde history := by
  refine ⟨prune_history_rounds serde history huser, prune_history_suffix serde history,
    prune_history_fits serde history, prune_history_aligned serde history huser, ?_, ?_⟩
  · rw [validate_ok_iff] at hvalid ⊢
    exact SessionHistory.prune_history_settled serde history hvalid
  · intro rest hrest haligned hfits
    exact prune_history_longest serde history rest haligned hrest hfits

theorem prune_history_oldest :
    (List.replicate 128 SessionHistory.exchanged).flatten <:+
      pruneHistory SessionHistory.plainLibraries.serde
        (List.replicate 129 SessionHistory.exchanged).flatten := by
  have hvalid := (validate_ok_iff _).mpr (SessionHistory.exchanges_settled 129)
  have haligned : UserAligned (List.replicate 128 SessionHistory.exchanged).flatten := by
    intro item hitem
    cases hitem
    rfl
  have hall : UserAligned (List.replicate 129 SessionHistory.exchanged).flatten := by
    intro item hitem
    cases hitem
    rfl
  obtain ⟨-, -, -, -, -, hlongest⟩ :=
    prune_history_exact SessionHistory.plainLibraries.serde _ hvalid hall
  apply hlongest _ _ haligned
  · constructor
    · rw [SessionHistory.exchanges_length, maxHistoryItems]
    · rw [SessionHistory.exchanges_bytes, maxHistoryBytes]
      omega
  · rw [List.replicate_succ (n := 128), List.flatten_cons]
    exact List.suffix_append _ _

end Siralos.PrunedHistory
