import Siralos.AssemblyOrder

/-!
# What the assembly selects

The entries are those of the nodes that stay HOT, and the nodes demoted for the budget are the
shortest prefix of the budget's order that brings the total within it.
-/

set_option autoImplicit false

namespace Siralos.WorkingSet

section Built

variable (sha256Hex : Text → Text) (graph : ContextGraph) (store : ContextRepresentationStore)

theorem sort_ids_sorted (ids : List Text) (h : ids.Pairwise (· < ·)) : sortIds ids = ids :=
  List.Pairwise.insertionSort_eq (h.imp fun hab => le_of_lt hab)

theorem ids_ascending (entries : Entries) (p : SchedulerEntry → Bool) :
    ((entries.val.filter p).map SchedulerEntry.nodeId).Pairwise (· < ·) :=
  entries.2.ascending.sublist (List.filter_sublist.map _)

theorem built_hot (entries : Entries) : buildAssembledEntries sha256Hex graph store entries =
    (entries.val.filter isHot).map fun e => assembledEntry sha256Hex graph store e.nodeId := by
  rw [buildAssembledEntries, sort_ids_sorted _ (ids_ascending entries isHot), List.map_map]
  rfl

theorem built_represented (entries : Entries) (demoted : List Text) :
    Represented ⟨entries, buildAssembledEntries sha256Hex graph store entries, demoted⟩ := by
  intro e he hhot
  change ∃ a ∈ buildAssembledEntries sha256Hex graph store entries, a.nodeId = e.nodeId
  rw [built_hot]
  exact ⟨assembledEntry sha256Hex graph store e.nodeId,
    List.mem_map.mpr ⟨e, List.mem_filter.mpr ⟨he, hhot⟩, rfl⟩, rfl⟩

theorem built_without (entries : Entries) (ids : List Text) :
    (buildAssembledEntries sha256Hex graph store entries).filter (fun a => a.nodeId ∉ ids) =
      buildAssembledEntries sha256Hex graph store (entries.updateEach (warmed ids)) := by
  rw [built_hot, built_hot, filter_warmed isHot (fun _ h => h), List.filter_map,
    List.filter_filter]
  have hsame : ∀ e : SchedulerEntry, (((fun a : AssembledEntry => decide (a.nodeId ∉ ids)) ∘
      fun e : SchedulerEntry => assembledEntry sha256Hex graph store e.nodeId) e && isHot e) =
        (isHot e && decide (e.nodeId ∉ ids)) := fun e => Bool.and_comm _ _
  rw [List.filter_congr fun e _ => hsame e]

end Built

def demotedBy (eligible : SchedulerEntry → Bool) (s : WorkingSetState)
    (context : AssembledContext) : List Text :=
  context.demoted.filter fun id => (s.entry id).any eligible

section Selection

variable (sha256Hex : Text → Text) (s : WorkingSetState) (graph : ContextGraph)
  (store : ContextRepresentationStore) (config : SchedulerConfig)

/-- The assembled entries with some nodes demoted, and the totals of both loops. -/
def builtTotal (ids : List Text) : ℕ :=
  assembledUniqueTotal ((buildAssembledEntries sha256Hex graph store s.entries).filter
    fun a => a.nodeId ∉ ids)

def builtPinnedTotal (ids : List Text) : ℕ :=
  pinnedAssembledUniqueTotal ((buildAssembledEntries sha256Hex graph store s.entries).filter
    fun a => a.nodeId ∉ ids) (s.entries.updateEach (warmed ids))

/-- The order in which nodes go over the budget. -/
def budgetOrder : List Text :=
  demotionOrder (budgetRetained s.lastSearchScores) s.tick unpinnedHot s.entries

def pinOrder : List Text := demotionOrder (fun _ => 0) s.tick pinnedHot s.entries

structure Selects (s' : WorkingSetState) (context : AssembledContext) : Prop where
  entries : context.entries = (s'.entries.val.filter isHot).map fun e =>
    assembledEntry sha256Hex graph store e.nodeId
  entries_ascending : (context.entries.map AssembledEntry.nodeId).Pairwise (· < ·)
  demoted : ∀ id, id ∈ context.demoted ↔ ∃ e e', s.entry id = some e ∧ e.tier = .hot ∧
    s'.entry id = some e' ∧ e'.tier = .warm
  demoted_ascending : context.demoted.Pairwise (· < ·)
  unchanged : s' = { s with entries := s.entries.updateEach (warmed context.demoted) }
  pinned : pinnedAssembledUniqueTotal context.entries s'.entries ≤ pinnedHotBudgetTokens
  total_after : context.totalTokensAfter = assembledUniqueTotal context.entries
  within : context.totalTokensAfter ≤ config.budgetTokens ∨
    ∀ e ∈ s'.entries.val, unpinnedHot e = false
  shortest : ∃ k, (∀ id, id ∈ demotedBy unpinnedHot s context ↔ id ∈ (budgetOrder s).take k) ∧
    context.totalTokensAfter = builtTotal sha256Hex s graph store
      (demotedBy pinnedHot s context ++ (budgetOrder s).take k) ∧
    ∀ m, m < k → config.budgetTokens < builtTotal sha256Hex s graph store
      (demotedBy pinnedHot s context ++ (budgetOrder s).take m)
  pinned_shortest : ∃ j, (∀ id, id ∈ demotedBy pinnedHot s context ↔ id ∈ (pinOrder s).take j) ∧
    ∀ m, m < j → pinnedHotBudgetTokens < builtPinnedTotal sha256Hex s graph store
      ((pinOrder s).take m)

theorem built_total_congr (ids others : List Text) (h : ∀ id, id ∈ ids ↔ id ∈ others) :
    builtTotal sha256Hex s graph store ids = builtTotal sha256Hex s graph store others := by
  simp only [builtTotal, h]

theorem mem_budget_order (id : Text) :
    id ∈ budgetOrder s ↔ (s.entry id).any unpinnedHot = true :=
  mem_demotion_order _ _ _ _ id

theorem mem_pin_order (id : Text) : id ∈ pinOrder s ↔ (s.entry id).any pinnedHot = true :=
  mem_demotion_order _ _ _ _ id

theorem pin_order_entry {e : SchedulerEntry} (he : e ∈ s.entries.val)
    (hpinned : pinnedHot e = true) : e.nodeId ∈ pinOrder s := by
  rw [mem_pin_order, WorkingSetState.entry, s.entries.entry_of_mem e he]
  exact hpinned

theorem budget_order_entry {e : SchedulerEntry} (he : e ∈ s.entries.val)
    (hunpinned : unpinnedHot e = true) : e.nodeId ∈ budgetOrder s := by
  rw [mem_budget_order, WorkingSetState.entry, s.entries.entry_of_mem e he]
  exact hunpinned

theorem not_both_orders (id : Text) (hpinned : id ∈ pinOrder s) : id ∉ budgetOrder s := by
  intro hunpinned
  rw [mem_budget_order, Option.any_eq_true] at hunpinned
  rw [mem_pin_order, Option.any_eq_true] at hpinned
  obtain ⟨e, he, hpinned⟩ := hpinned
  obtain ⟨e', he', hunpinned⟩ := hunpinned
  cases he.symm.trans he'
  rw [pinned_not_unpinned e hpinned] at hunpinned
  cases hunpinned

def assemblyStart : Assembly :=
  ⟨s.entries, buildAssembledEntries sha256Hex graph store s.entries, []⟩

def assemblyEnd : Assembly :=
  (assemblyBudget s.lastSearchScores s.tick config.budgetTokens).run
    ((assemblyPinQuota s.tick).run (assemblyStart sha256Hex s graph store))

/-- The pin quota takes a prefix of the pinned nodes, then the budget one of the others. -/
theorem assembly_prefixes : ∃ j k,
    assemblyEnd sha256Hex s graph store config = (assemblyStart sha256Hex s graph store).without
      ((pinOrder s).take j ++ (budgetOrder s).take k) ∧
    (builtPinnedTotal sha256Hex s graph store ((pinOrder s).take j) ≤ pinnedHotBudgetTokens ∨
      j = (pinOrder s).length) ∧
    (∀ m, m < j → pinnedHotBudgetTokens <
      builtPinnedTotal sha256Hex s graph store ((pinOrder s).take m)) ∧
    (builtTotal sha256Hex s graph store ((pinOrder s).take j ++ (budgetOrder s).take k) ≤
      config.budgetTokens ∨ k = (budgetOrder s).length) ∧
    ∀ m, m < k → config.budgetTokens <
      builtTotal sha256Hex s graph store ((pinOrder s).take j ++ (budgetOrder s).take m) := by
  have hcounts := pin_counts s.entries.val
  have hstart : Represented (assemblyStart sha256Hex s graph store) :=
    built_represented sha256Hex graph store s.entries []
  obtain ⟨j, hj, hquota, hpinned, hover⟩ := drained (assemblyPinQuota s.tick) rfl pinned_hot
    (scheduled_compares s.tick) hstart
    (by
      change 0 + s.entries.val.countP pinnedHot ≤ s.entries.val.length
      omega)
  change j ≤ (pinOrder s).length at hj
  change (assemblyPinQuota s.tick).run (assemblyStart sha256Hex s graph store) =
    (assemblyStart sha256Hex s graph store).without ((pinOrder s).take j) at hquota
  have horder : demotionOrder (budgetRetained s.lastSearchScores) s.tick unpinnedHot
      (s.entries.updateEach (warmed ((pinOrder s).take j))) = budgetOrder s := by
    apply demotion_order_warmed _ _ _ unpinned_hot
    intro e he hunpinned hin
    exact not_both_orders s e.nodeId (List.mem_of_mem_take hin) (budget_order_entry s he hunpinned)
  obtain ⟨k, hk, hbudget, hsettled, hbefore⟩ := drained
    (assemblyBudget s.lastSearchScores s.tick config.budgetTokens) rfl unpinned_hot
    (budget_compares s.lastSearchScores s.tick)
    (represented_without _ hstart ((pinOrder s).take j))
    (by
      have hlength : ((pinOrder s).take j).length ≤ s.entries.val.countP pinnedHot := by
        rw [List.length_take, pinOrder, demotion_order_length]
        exact Nat.min_le_right _ _
      have hunpinned : (s.entries.updateEach (warmed ((pinOrder s).take j))).val.countP
          unpinnedHot = s.entries.val.countP unpinnedHot := by
        rw [← demotion_order_length (budgetRetained s.lastSearchScores) s.tick, horder,
          budgetOrder, demotion_order_length]
      have hsame : (s.entries.updateEach (warmed ((pinOrder s).take j))).val.length =
          s.entries.val.length := List.length_map _
      change ([] ++ (pinOrder s).take j).length + (s.entries.updateEach _).val.countP unpinnedHot
        ≤ (s.entries.updateEach _).val.length
      rw [hunpinned, hsame, List.nil_append]
      omega)
  change k ≤ (demotionOrder _ _ unpinnedHot (s.entries.updateEach _)).length at hk
  change _ = (Assembly.without _ _).without ((demotionOrder _ _ unpinnedHot
    (s.entries.updateEach _)).take k) at hbudget
  change _ ∨ k = (demotionOrder _ _ unpinnedHot (s.entries.updateEach _)).length at hsettled
  change ∀ m, m < k → Shedding.Loop.done _ ((Assembly.without _ _).without ((demotionOrder _ _
    unpinnedHot (s.entries.updateEach _)).take m)) = false at hbefore
  rw [horder] at hk hbudget hsettled hbefore
  rw [without_append] at hbudget
  rw [hbudget] at hsettled
  refine ⟨j, k, ?_, ?_, ?_, ?_, ?_⟩
  · rw [assemblyEnd, hquota, hbudget]
  · rw [hquota] at hpinned
    exact hpinned.imp_left of_decide_eq_true
  · intro m hm
    exact not_le.mp (of_decide_eq_false (hover m hm))
  · exact hsettled.imp_left of_decide_eq_true
  · intro m hm
    have hnot := hbefore m hm
    rw [without_append] at hnot
    exact not_le.mp (of_decide_eq_false hnot)

theorem pinned_total_without (ids : List Text) : builtPinnedTotal sha256Hex s graph store ids =
    assembledUniqueTotal ((buildAssembledEntries sha256Hex graph store s.entries).filter fun a =>
      ((s.entries.val.filter fun e => pinnedHot e && decide (e.nodeId ∉ ids)).map
        SchedulerEntry.nodeId).contains a.nodeId) := by
  rw [builtPinnedTotal, pinnedAssembledUniqueTotal, filter_warmed pinnedHot pinned_hot,
    List.filter_filter]
  congr 1
  apply List.filter_congr
  intro a _
  rw [Bool.and_eq_left_iff_imp, List.contains_iff_mem]
  intro hin
  obtain ⟨e, he, hid⟩ := List.mem_map.mp hin
  have htest := (List.mem_filter.mp he).2
  rw [Bool.and_eq_true] at htest
  rw [← hid]
  exact htest.2

theorem pinned_total_append (ids more : List Text)
    (hmore : ∀ e ∈ s.entries.val, pinnedHot e = true → e.nodeId ∉ more) :
    builtPinnedTotal sha256Hex s graph store (ids ++ more) =
      builtPinnedTotal sha256Hex s graph store ids := by
  have hfilter : (s.entries.val.filter fun e => pinnedHot e && decide (e.nodeId ∉ ids ++ more)) =
      s.entries.val.filter fun e => pinnedHot e && decide (e.nodeId ∉ ids) := by
    apply List.filter_congr
    intro e he
    cases hpinned : pinnedHot e with
    | false => rfl
    | true => simp [hmore e he hpinned]
  rw [pinned_total_without, pinned_total_without, hfilter]

theorem pinned_total_all (ids : List Text)
    (hall : ∀ e ∈ s.entries.val, pinnedHot e = true → e.nodeId ∈ ids) :
    builtPinnedTotal sha256Hex s graph store ids = 0 := by
  have hfilter : (s.entries.val.filter fun e => pinnedHot e && decide (e.nodeId ∉ ids)) = [] := by
    rw [List.filter_eq_nil_iff]
    intro e he htest
    rw [Bool.and_eq_true, decide_eq_true_iff] at htest
    exact htest.2 (hall e he htest.1)
  rw [pinned_total_without, hfilter]
  simp [assembledUniqueTotal, uniqueTotal]

theorem demoted_iff (ids : List Text) (hhot : ∀ id ∈ ids, (s.entry id).any isHot = true)
    (id : Text) : id ∈ ids ↔ ∃ e e', s.entry id = some e ∧ e.tier = .hot ∧
      (s.entries.updateEach (warmed ids)).entry id = some e' ∧ e'.tier = .warm := by
  rw [entry_update_each]
  constructor
  · intro hid
    obtain ⟨e, he, htier⟩ := (Option.any_eq_true _ _).mp (hhot id hid)
    have hkey : e.nodeId = id := Keyed.find_key SchedulerEntry.nodeId id s.entries.val e he
    refine ⟨e, (warmed ids).apply e, he, by simpa [isHot] using htier, ?_, ?_⟩
    · change (s.entry id).map _ = _
      rw [he, Option.map_some]
    · simp [warmed, EntryUpdate.retier, hkey, hid]
  · intro h
    obtain ⟨e, e', he, htier, he', htier'⟩ := h
    have hkey : e.nodeId = id := Keyed.find_key SchedulerEntry.nodeId id s.entries.val e he
    change (s.entry id).map _ = _ at he'
    rw [he, Option.map_some, Option.some.injEq] at he'
    subst he'
    by_contra hout
    rw [warmed_out ids e (hkey ▸ hout), htier] at htier'
    cases htier'

theorem assemble_result (ids : List Text)
    (hend : assemblyEnd sha256Hex s graph store config =
      (assemblyStart sha256Hex s graph store).without ids) :
    s.assemble sha256Hex graph store config =
      ({ s with entries := s.entries.updateEach (warmed ids) }, {
        entries := buildAssembledEntries sha256Hex graph store (s.entries.updateEach (warmed ids))
        totalTokensBefore :=
          assembledUniqueTotal (buildAssembledEntries sha256Hex graph store s.entries)
        totalTokensAfter := builtTotal sha256Hex s graph store ids
        demoted := sortIds ids }) := by
  have hassembled : (assemblyEnd sha256Hex s graph store config).assembled =
      buildAssembledEntries sha256Hex graph store (s.entries.updateEach (warmed ids)) := by
    rw [hend]
    exact built_without sha256Hex graph store s.entries ids
  have hsorted : (buildAssembledEntries sha256Hex graph store
      (s.entries.updateEach (warmed ids))).insertionSort (fun a b => a.nodeId ≤ b.nodeId) =
        buildAssembledEntries sha256Hex graph store (s.entries.updateEach (warmed ids)) := by
    apply List.Pairwise.insertionSort_eq
    rw [built_hot, List.pairwise_map]
    exact (List.pairwise_map.mp (ids_ascending _ isHot)).imp fun hab => le_of_lt hab
  change (({ s with entries := (assemblyEnd sha256Hex s graph store config).entries }, {
    entries := (assemblyEnd sha256Hex s graph store config).assembled.insertionSort _
    totalTokensBefore := _
    totalTokensAfter := assembledUniqueTotal (assemblyEnd sha256Hex s graph store config).assembled
    demoted := sortIds (assemblyEnd sha256Hex s graph store config).demoted }) :
      WorkingSetState × AssembledContext) = _
  rw [hassembled, hsorted, hend, builtTotal, built_without]
  rfl

/-! A prefix of each order: the nodes that both loops demote. -/

theorem mem_chosen (j k : ℕ) (id : Text) :
    id ∈ sortIds ((pinOrder s).take j ++ (budgetOrder s).take k) ↔
      id ∈ (pinOrder s).take j ∨ id ∈ (budgetOrder s).take k :=
  (List.mem_insertionSort _).trans List.mem_append

theorem chosen_pinned (j k : ℕ) (id : Text) :
    id ∈ (sortIds ((pinOrder s).take j ++ (budgetOrder s).take k)).filter
      (fun id => (s.entry id).any pinnedHot) ↔ id ∈ (pinOrder s).take j := by
  rw [List.mem_filter, mem_chosen, ← mem_pin_order]
  constructor
  · intro hid
    rcases hid.1 with hin | hin
    · exact hin
    · exact absurd (List.mem_of_mem_take hin) (not_both_orders s id hid.2)
  · intro hin
    exact ⟨.inl hin, List.mem_of_mem_take hin⟩

theorem chosen_unpinned (j k : ℕ) (id : Text) :
    id ∈ (sortIds ((pinOrder s).take j ++ (budgetOrder s).take k)).filter
      (fun id => (s.entry id).any unpinnedHot) ↔ id ∈ (budgetOrder s).take k := by
  rw [List.mem_filter, mem_chosen, ← mem_budget_order]
  constructor
  · intro hid
    rcases hid.1 with hin | hin
    · exact absurd hid.2 (not_both_orders s id (List.mem_of_mem_take hin))
    · exact hin
  · intro hin
    exact ⟨.inr hin, List.mem_of_mem_take hin⟩

theorem chosen_hot (j k : ℕ) {id : Text}
    (hid : id ∈ sortIds ((pinOrder s).take j ++ (budgetOrder s).take k)) :
    (s.entry id).any isHot = true := by
  rcases (mem_chosen s j k id).mp hid with hin | hin
  · obtain ⟨e, he, hpinned⟩ :=
      (Option.any_eq_true _ _).mp ((mem_pin_order s id).mp (List.mem_of_mem_take hin))
    exact (Option.any_eq_true _ _).mpr ⟨e, he, pinned_hot e hpinned⟩
  · obtain ⟨e, he, hunpinned⟩ :=
      (Option.any_eq_true _ _).mp ((mem_budget_order s id).mp (List.mem_of_mem_take hin))
    exact (Option.any_eq_true _ _).mpr ⟨e, he, unpinned_hot e hunpinned⟩

theorem chosen_nodup (j k : ℕ) : ((pinOrder s).take j ++ (budgetOrder s).take k).Nodup := by
  apply List.Nodup.append
  · exact (demotion_order_nodup _ _ _ _).sublist (List.take_sublist _ _)
  · exact (demotion_order_nodup _ _ _ _).sublist (List.take_sublist _ _)
  · intro id hin hin'
    exact not_both_orders s id (List.mem_of_mem_take hin) (List.mem_of_mem_take hin')

theorem chosen_quota {j : ℕ} (k : ℕ)
    (hpinned : builtPinnedTotal sha256Hex s graph store ((pinOrder s).take j) ≤
      pinnedHotBudgetTokens ∨ j = (pinOrder s).length) :
    builtPinnedTotal sha256Hex s graph store ((pinOrder s).take j ++ (budgetOrder s).take k) ≤
      pinnedHotBudgetTokens := by
  rw [pinned_total_append]
  · rcases hpinned with hwithin | hall
    · exact hwithin
    · rw [pinned_total_all]
      · exact Nat.zero_le _
      · intro e he hpinnedEntry
        rw [hall, List.take_length]
        exact pin_order_entry s he hpinnedEntry
  · intro e he hpinnedEntry hin
    exact not_both_orders s e.nodeId (pin_order_entry s he hpinnedEntry) (List.mem_of_mem_take hin)

theorem chosen_all {j k : ℕ} (hall : k = (budgetOrder s).length) :
    ∀ e ∈ (s.entries.updateEach (warmed ((pinOrder s).take j ++ (budgetOrder s).take k))).val,
      unpinnedHot e = false := by
  intro e he
  by_contra hunpinned
  rw [Bool.not_eq_false] at hunpinned
  have hmem : e ∈ (s.entries.updateEach (warmed ((pinOrder s).take j ++
      (budgetOrder s).take k))).val.filter unpinnedHot := List.mem_filter.mpr ⟨he, hunpinned⟩
  rw [filter_warmed unpinnedHot unpinned_hot] at hmem
  obtain ⟨hentry, htest⟩ := List.mem_filter.mp hmem
  rw [Bool.and_eq_true, decide_eq_true_iff] at htest
  apply htest.2
  rw [hall, List.take_length, List.mem_append]
  exact .inr (budget_order_entry s hentry hunpinned)

theorem assemble_selects : Selects sha256Hex s graph store config
    (s.assemble sha256Hex graph store config).1 (s.assemble sha256Hex graph store config).2 := by
  obtain ⟨j, k, hend, hpinned, hover, hsettled, hbefore⟩ :=
    assembly_prefixes sha256Hex s graph store config
  rw [assemble_result sha256Hex s graph store config _ hend]
  have hwarmed : warmed (sortIds ((pinOrder s).take j ++ (budgetOrder s).take k)) =
      warmed ((pinOrder s).take j ++ (budgetOrder s).take k) :=
    warmed_congr _ _ fun id => List.mem_insertionSort _
  constructor
  case entries => exact built_hot sha256Hex graph store _
  case entries_ascending =>
    change (List.map _ (buildAssembledEntries _ _ _ _)).Pairwise _
    rw [built_hot, List.map_map]
    exact ids_ascending _ isHot
  case demoted =>
    intro id
    change id ∈ sortIds _ ↔ ∃ e e', _ ∧ _ ∧ (s.entries.updateEach (warmed _)).entry id = _ ∧ _
    rw [← hwarmed]
    exact demoted_iff s _ (fun _ => chosen_hot s j k) id
  case demoted_ascending => exact sort_ids_ascending _ (chosen_nodup s j k)
  case unchanged =>
    change _ = { s with entries := s.entries.updateEach (warmed (sortIds _)) }
    rw [hwarmed]
  case pinned =>
    change pinnedAssembledUniqueTotal (buildAssembledEntries _ _ _ _) (s.entries.updateEach _) ≤ _
    rw [← built_without]
    exact chosen_quota sha256Hex s graph store k hpinned
  case total_after =>
    change builtTotal _ _ _ _ _ = assembledUniqueTotal (buildAssembledEntries _ _ _ _)
    rw [builtTotal, built_without]
  case within => exact hsettled.imp_right (chosen_all s)
  case shortest =>
    have hsame : ∀ m, builtTotal sha256Hex s graph store ((sortIds ((pinOrder s).take j ++
        (budgetOrder s).take k)).filter (fun id => (s.entry id).any pinnedHot) ++
          (budgetOrder s).take m) =
        builtTotal sha256Hex s graph store ((pinOrder s).take j ++ (budgetOrder s).take m) := by
      intro m
      apply built_total_congr
      intro id
      rw [List.mem_append, List.mem_append, chosen_pinned]
    refine ⟨k, chosen_unpinned s j k, (hsame k).symm, ?_⟩
    intro m hm
    exact (hsame m).symm ▸ hbefore m hm
  case pinned_shortest => exact ⟨j, chosen_pinned s j k, hover⟩

end Selection

end Siralos.WorkingSet
