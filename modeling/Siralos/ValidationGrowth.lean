import Siralos.Decisions

/-!
# Validation plans of growing changes

Every check stays in the plan when changes or impacts are added. Of checks with one id the first
applicable one makes the item, whatever its class, so one that the registry lists before it may
take its place; a growing change weakens an item exactly when a weaker check does.
-/

set_option autoImplicit false

namespace Siralos.Determinism

open StableSort

/-- Required over recommended over unavailable. -/
def ValidationRequirementClass.rank : ValidationRequirementClass → ℕ
  | .required => 2
  | .recommended => 1
  | .unavailable => 0

theorem applies_grows {changed more : List Text} {relationships further : List ImpactRelationship}
    (hchanged : changed ⊆ more) (hrelationships : relationships ⊆ further)
    (registry : List ValidationRegistryEntry) (check : ValidationRegistryEntry)
    (h : applies ⟨changed, relationships, registry⟩ check = true) :
    applies ⟨more, further, registry⟩ check = true := by
  simp only [applies, List.any_eq_true, Bool.or_eq_true, mem_impacted] at h ⊢
  obtain ⟨surface, hsurface, happlies⟩ := h
  refine ⟨surface, hsurface, ?_⟩
  rcases happlies with ⟨path, hpath, hsame⟩ | ⟨path, hpath, hends⟩
  · exact .inl ⟨path, hchanged hpath, hsame⟩
  · refine .inr ⟨path, ?_, hends⟩
    rcases hpath with hpath | ⟨r, hr, hpath⟩
    · exact .inl (hchanged hpath)
    · exact .inr ⟨r, hrelationships hr, hpath⟩

/-- The check is the first of its id that applies. -/
def MakesItem (input : ValidationPlanInput) (check : ValidationRegistryEntry) : Prop :=
  input.validationRegistry.find? (fun entry => entry.id = check.id && applies input entry) =
    some check

theorem mem_plan_items (input : ValidationPlanInput) (item : ValidationItem) :
    item ∈ planItems input ↔ ∃ check, MakesItem input check ∧ validationItem check = item := by
  rw [planItems, List.mem_map]
  simp only [mem_firsts_iff, filter_sort, List.not_mem_nil, not_false_eq_true, true_and, MakesItem,
    List.find?_filter, decide_eq_true_eq, Bool.decide_and, Bool.decide_eq_true]

/-- In the larger input `earlier` makes the item that `later` makes in the smaller one. Of their
id the registry lists `earlier` as the first that applies to the larger input, before `later`, the
first that applies to the smaller. -/
structure TakesOver (smaller larger : ValidationPlanInput)
    (earlier later : ValidationRegistryEntry) : Prop where
  sameId : earlier.id = later.id
  held : applies smaller later = true
  applied : applies larger earlier = true
  listed : ∃ front middle back,
    smaller.validationRegistry = front ++ earlier :: (middle ++ later :: back) ∧
    (∀ check ∈ front, check.id = later.id → applies larger check = false) ∧
    ∀ check ∈ front ++ earlier :: middle, check.id = later.id → applies smaller check = false

/-- An item given up for one that the registry lists before it and that applies only now. -/
structure Displaced (smaller larger : ValidationPlanInput) (item grown : ValidationItem)
    (earlier later : ValidationRegistryEntry) : Prop where
  listed : [earlier, later].Sublist smaller.validationRegistry
  held : validationItem later = item
  taken : validationItem earlier = grown
  idle : applies smaller earlier = false
  applied : applies larger earlier = true

theorem takes_over_displaced {smaller larger : ValidationPlanInput}
    {earlier later : ValidationRegistryEntry} (h : TakesOver smaller larger earlier later) :
    Displaced smaller larger (validationItem later) (validationItem earlier) earlier later := by
  obtain ⟨front, middle, back, hregistry, -, hidle⟩ := h.listed
  refine ⟨?_, rfl, rfl, hidle earlier (by simp) h.sameId, h.applied⟩
  rw [hregistry]
  refine List.Sublist.trans ?_ (List.sublist_append_right front _)
  exact .cons_cons earlier ((List.singleton_sublist.mpr List.mem_cons_self).trans
    (List.sublist_append_right middle _))

section Growth

variable {changed more : List Text} {relationships further : List ImpactRelationship}
  (registry : List ValidationRegistryEntry)

theorem takes_over_makes {earlier later : ValidationRegistryEntry}
    (h : TakesOver ⟨changed, relationships, registry⟩ ⟨more, further, registry⟩ earlier later) :
    MakesItem ⟨changed, relationships, registry⟩ later ∧
      MakesItem ⟨more, further, registry⟩ earlier := by
  obtain ⟨front, middle, back, hregistry, hfront, hidle⟩ := h.listed
  simp only at hregistry
  simp only [MakesItem, List.find?_eq_some_iff_append, decide_true, Bool.true_and]
  refine ⟨⟨h.held, front ++ earlier :: middle, back, by simp [hregistry], ?_⟩,
    h.applied, front, _, hregistry, ?_⟩
  · intro check hcheck
    by_cases hid : check.id = later.id
    · simp [hid, hidle check hcheck hid]
    · simp [hid]
  · intro check hcheck
    rw [h.sameId]
    by_cases hid : check.id = later.id
    · simp [hid, hfront check hcheck hid]
    · simp [hid]

theorem makes_item_grows (hchanged : changed ⊆ more) (hrelationships : relationships ⊆ further)
    {later : ValidationRegistryEntry}
    (h : MakesItem ⟨changed, relationships, registry⟩ later) :
    ∃ grown, MakesItem ⟨more, further, registry⟩ grown ∧ grown.id = later.id ∧
      (grown = later ∨
        TakesOver ⟨changed, relationships, registry⟩ ⟨more, further, registry⟩ grown later) := by
  have hgrows : ∀ entry : ValidationRegistryEntry,
      (entry.id = later.id && applies ⟨changed, relationships, registry⟩ entry) = true →
        (entry.id = later.id && applies ⟨more, further, registry⟩ entry) = true := by
    intro entry hentry
    simp only [Bool.and_eq_true] at hentry ⊢
    exact ⟨hentry.1, applies_grows hchanged hrelationships registry entry hentry.2⟩
  obtain ⟨grown, hgrown, hkept⟩ := find_grows hgrows h
  have hfound := List.find?_some hgrown
  simp only [Bool.and_eq_true, decide_eq_true_eq] at hfound
  have hmakes : MakesItem ⟨more, further, registry⟩ grown := by
    rw [MakesItem, hfound.1]
    exact hgrown
  refine ⟨grown, hmakes, hfound.1, ?_⟩
  rcases hkept with hsame | ⟨front, middle, back, hregistry, hfront, hmiddle⟩
  · exact .inl hsame
  have hidle : ∀ check ∈ front ++ grown :: middle, check.id = later.id →
      applies ⟨changed, relationships, registry⟩ check = false := by
    intro check hcheck hid
    by_contra hheld
    rw [Bool.not_eq_false] at hheld
    have hselected : (check.id = later.id &&
        applies ⟨changed, relationships, registry⟩ check) = true := by simp [hid, hheld]
    rcases List.mem_append.mp hcheck with hcheck | hcheck
    · exact absurd (hgrows check hselected) (by simp [hfront check hcheck])
    · exact absurd hselected (by simp [hmiddle check hcheck])
  have hheld := List.find?_some h
  simp only [decide_true, Bool.true_and] at hheld
  refine .inr ⟨hfound.1, hheld, hfound.2, front, middle, back, hregistry, ?_, hidle⟩
  intro check hcheck hid
  simpa [hid] using hfront check hcheck

theorem item_grows (hchanged : changed ⊆ more) (hrelationships : relationships ⊆ further)
    {item : ValidationItem} (h : item ∈ planItems ⟨changed, relationships, registry⟩) :
    ∃ grown ∈ planItems ⟨more, further, registry⟩, grown.id = item.id ∧
      (grown = item ∨ ∃ earlier later, Displaced ⟨changed, relationships, registry⟩
        ⟨more, further, registry⟩ item grown earlier later) := by
  obtain ⟨later, hlater, rfl⟩ := (mem_plan_items _ item).mp h
  obtain ⟨grown, hgrown, hid, hkept⟩ :=
    makes_item_grows registry hchanged hrelationships hlater
  refine ⟨validationItem grown, (mem_plan_items _ _).mpr ⟨grown, hgrown, rfl⟩, hid, ?_⟩
  rcases hkept with rfl | htakes
  · exact .inl rfl
  · exact .inr ⟨grown, later, takes_over_displaced htakes⟩

end Growth

theorem item_applies (input : ValidationPlanInput) {item : ValidationItem}
    (h : item ∈ planItems input) :
    ∃ check ∈ input.validationRegistry, applies input check = true ∧
      item.id = check.id ∧ item.itemClass = check.baseClass := by
  obtain ⟨check, hfind, rfl⟩ := (mem_plan_items input item).mp h
  have happlies := List.find?_some hfind
  simp only [decide_true, Bool.true_and] at happlies
  exact ⟨check, List.mem_of_find?_eq_some hfind, happlies, rfl, rfl⟩

/-- No entry is listed before a stronger one of its id. -/
def StrongestFirst (registry : List ValidationRegistryEntry) : Prop :=
  ∀ earlier later, [earlier, later].Sublist registry → earlier.id = later.id →
    later.baseClass.rank ≤ earlier.baseClass.rank

/-- A growing change keeps every id in the plan, and every item but those displaced by an entry
listed before theirs. -/
theorem selection_grows (sha256Hex : Text → Text) (registry : List ValidationRegistryEntry)
    (changed more : List Text) (relationships further : List ImpactRelationship)
    (hchanged : changed ⊆ more) (hrelationships : relationships ⊆ further) :
    ∃ plan larger,
      deriveValidationPlan sha256Hex ⟨changed, relationships, registry⟩ = .ok plan ∧
      deriveValidationPlan sha256Hex ⟨more, further, registry⟩ = .ok larger ∧
      (∀ item ∈ plan.items, ∃ grown ∈ larger.items, grown.id = item.id ∧
        (grown = item ∨ ∃ earlier later, Displaced ⟨changed, relationships, registry⟩
          ⟨more, further, registry⟩ item grown earlier later) ∧
        (StrongestFirst registry → item.itemClass.rank ≤ grown.itemClass.rank)) ∧
      (∀ item ∈ plan.items, ∃ check ∈ registry,
        applies ⟨changed, relationships, registry⟩ check = true ∧
          item.id = check.id ∧ item.itemClass = check.baseClass) := by
  refine ⟨_, _, derive_plan_ok sha256Hex _, derive_plan_ok sha256Hex _, ?_,
    fun item hitem => item_applies _ hitem⟩
  intro item hitem
  obtain ⟨grown, hgrown, hid, hkept⟩ := item_grows registry hchanged hrelationships hitem
  refine ⟨grown, hgrown, hid, hkept, ?_⟩
  intro hstrongest
  rcases hkept with hsame | ⟨earlier, later, hdisplaced⟩
  · rw [hsame]
  · rw [← hdisplaced.held, ← hdisplaced.taken] at hid ⊢
    exact hstrongest earlier later hdisplaced.listed hid

/-- The larger change keeps every id of the plan with no weaker class, and the items of both
plans come from checks that apply. -/
def SelectionMonotone (sha256Hex : Text → Text) (smaller larger : ValidationPlanInput) : Prop :=
  ∃ plan more, deriveValidationPlan sha256Hex smaller = .ok plan ∧
    deriveValidationPlan sha256Hex larger = .ok more ∧
    (∀ item ∈ plan.items, ∃ grown ∈ more.items, grown.id = item.id ∧
      item.itemClass.rank ≤ grown.itemClass.rank) ∧
    (∀ item ∈ plan.items, ∃ check ∈ smaller.validationRegistry,
      applies smaller check = true ∧ item.id = check.id ∧ item.itemClass = check.baseClass) ∧
    ∀ item ∈ more.items, ∃ check ∈ larger.validationRegistry,
      applies larger check = true ∧ item.id = check.id ∧ item.itemClass = check.baseClass

theorem makes_item_unique {input : ValidationPlanInput} {a b : ValidationRegistryEntry}
    (ha : MakesItem input a) (hb : MakesItem input b) (hid : a.id = b.id) : a = b := by
  rw [MakesItem, hid] at ha
  exact Option.some.inj (ha.symm.trans hb)

/-- Selection is monotone between two inputs of one registry exactly when no weaker check takes
over an item. -/
theorem selection_monotone_iff (sha256Hex : Text → Text)
    (registry : List ValidationRegistryEntry) (changed more : List Text)
    (relationships further : List ImpactRelationship) (hchanged : changed ⊆ more)
    (hrelationships : relationships ⊆ further) :
    SelectionMonotone sha256Hex ⟨changed, relationships, registry⟩ ⟨more, further, registry⟩ ↔
      ∀ earlier later,
        TakesOver ⟨changed, relationships, registry⟩ ⟨more, further, registry⟩ earlier later →
        later.baseClass.rank ≤ earlier.baseClass.rank := by
  constructor
  · rintro ⟨plan, larger, hplan, hlarger, hmonotone, -⟩ earlier later htakes
    rw [derive_plan_ok] at hplan hlarger
    cases hplan
    cases hlarger
    obtain ⟨hlater, hearlier⟩ := takes_over_makes registry htakes
    obtain ⟨item, hitem, hid, hrank⟩ :=
      hmonotone _ ((mem_plan_items _ _).mpr ⟨later, hlater, rfl⟩)
    obtain ⟨check, hcheck, rfl⟩ := (mem_plan_items _ _).mp hitem
    rw [makes_item_unique hcheck hearlier (hid.trans htakes.sameId.symm)] at hrank
    exact hrank
  · intro hweaker
    refine ⟨_, _, derive_plan_ok sha256Hex _, derive_plan_ok sha256Hex _, ?_,
      fun item hitem => item_applies _ hitem, fun item hitem => item_applies _ hitem⟩
    intro item hitem
    obtain ⟨later, hlater, rfl⟩ := (mem_plan_items _ item).mp hitem
    obtain ⟨grown, hgrown, hid, hkept⟩ :=
      makes_item_grows registry hchanged hrelationships hlater
    refine ⟨validationItem grown, (mem_plan_items _ _).mpr ⟨grown, hgrown, rfl⟩, hid, ?_⟩
    rcases hkept with rfl | htakes
    · exact le_rfl
    · exact hweaker grown later htakes

def doubledRegistry : List ValidationRegistryEntry :=
  [⟨"a", ["docs"], .recommended⟩, ⟨"a", ["src"], .required⟩]

theorem docs_take_over : TakesOver ⟨["src"], [], doubledRegistry⟩
    ⟨["src", "docs"], [], doubledRegistry⟩ ⟨"a", ["docs"], .recommended⟩
    ⟨"a", ["src"], .required⟩ :=
  ⟨rfl, by decide, by decide, [], [], [], rfl, by simp, by decide⟩

theorem selection_monotone_iff_doubled :
    TakesOver ⟨["src"], [], doubledRegistry⟩ ⟨["src", "docs"], [], doubledRegistry⟩
      ⟨"a", ["docs"], .recommended⟩ ⟨"a", ["src"], .required⟩ ∧
    ¬ SelectionMonotone id ⟨["src"], [], doubledRegistry⟩
      ⟨["src", "docs"], [], doubledRegistry⟩ := by
  refine ⟨docs_take_over, fun hmonotone => ?_⟩
  have hrank := (selection_monotone_iff id doubledRegistry ["src"] ["src", "docs"] [] [] (by simp)
    (by simp)).mp hmonotone _ _ docs_take_over
  exact absurd hrank (by decide)

theorem weaker_check_takes_over :
    ¬ ∀ registry changed more relationships further, changed ⊆ more → relationships ⊆ further →
      ∀ item ∈ planItems ⟨changed, relationships, registry⟩,
        ∃ grown ∈ planItems ⟨more, further, registry⟩, grown.id = item.id ∧
          item.itemClass.rank ≤ grown.itemClass.rank := by
  intro hclaim
  have hbefore : planItems ⟨["src"], [], doubledRegistry⟩ =
      [validationItem ⟨"a", ["src"], .required⟩] := by decide
  have hafter : planItems ⟨["src", "docs"], [], doubledRegistry⟩ =
      [validationItem ⟨"a", ["docs"], .recommended⟩] := by decide
  obtain ⟨grown, hgrown, -, hrank⟩ := hclaim doubledRegistry ["src"] ["src", "docs"] [] []
    (by simp) (by simp) (validationItem ⟨"a", ["src"], .required⟩) (by rw [hbefore]; exact List.mem_singleton_self _)
  rw [hafter, List.mem_singleton] at hgrown
  rw [hgrown] at hrank
  exact absurd hrank (by decide)

end Siralos.Determinism
