import Siralos.Text

/-!
# Structural documents

A declaration forest is cut below a depth and after a number of declarations by one recursion that
carries the remaining budget and a flag. Listed in preorder with its addresses, the result is the
beginning of the forest less what lies too deep.
-/

set_option autoImplicit false

namespace Siralos.Structure

inductive StructureStatus
  | complete
  | partly
  deriving DecidableEq, Repr

inductive StructuralKind
  | type
  | function
  | method
  | field
  | variableKind
  | constant
  | enum
  | event
  | moduleKind
  | other
  deriving DecidableEq, Repr

structure StructuralDeclaration where
  kind : StructuralKind
  name : Option Text
  detail : Option Text
  line : Option ℕ
  attributes : List Text
  children : List StructuralDeclaration

def leaf (kind : StructuralKind) (name detail : Option Text) (line : Option ℕ)
    (attributes : List Text) : StructuralDeclaration :=
  ⟨kind, name, detail, line, attributes, []⟩

structure StructuralIssue where
  line : Option ℕ
  message : Text
  deriving DecidableEq, Repr

structure StructureOptions where
  maxDeclarations : ℕ
  maxDepth : ℕ
  maxDependencies : ℕ
  maxIssues : ℕ

structure StructuralDocument where
  path : Text
  revision : Option Text
  declarations : List StructuralDeclaration
  dependencies : List Text
  status : StructureStatus
  issues : List StructuralIssue
  truncated : Bool

theorem size_pending (declaration : StructuralDeclaration)
    (pending : List StructuralDeclaration) : sizeOf pending < sizeOf (declaration :: pending) := by
  rw [List.cons.sizeOf_spec]
  omega

theorem size_children (kind : StructuralKind) (name detail : Option Text) (line : Option ℕ)
    (attributes : List Text) (children pending : List StructuralDeclaration) :
    sizeOf children <
      sizeOf ((⟨kind, name, detail, line, attributes, children⟩ : StructuralDeclaration) ::
        pending) := by
  rw [List.cons.sizeOf_spec, StructuralDeclaration.mk.sizeOf_spec]
  omega

/-- The kept declarations, the budget left and the flag. -/
def boundAtDepth (maxDepth : ℕ) :
    List StructuralDeclaration → ℕ → ℕ × Bool → List StructuralDeclaration × ℕ × Bool
  | [], _, state => ([], state)
  | ⟨kind, name, detail, line, attributes, children⟩ :: pending, depth, (budget, truncated) =>
    if budget = 0 then ([], budget, true)
    else if maxDepth < depth then boundAtDepth maxDepth pending depth (budget, true)
    else
      let nested := boundAtDepth maxDepth children (depth + 1) (budget - 1, truncated)
      let out := boundAtDepth maxDepth pending depth nested.2
      (⟨kind, name, detail, line, attributes, nested.1⟩ :: out.1, out.2)
termination_by declarations => declarations
decreasing_by
  · exact size_pending _ _
  · exact size_children _ _ _ _ _ _ _
  · exact size_pending _ _

def boundDeclarations (declarations : List StructuralDeclaration) (maxDepth : ℕ)
    (state : ℕ × Bool) : List StructuralDeclaration × ℕ × Bool :=
  boundAtDepth maxDepth declarations 1 state

def normalizeStructuralDocument (path : Text) (declarations : List StructuralDeclaration)
    (dependencies : List Text) (issues : List StructuralIssue) (options : StructureOptions) :
    StructuralDocument :=
  let bounded := boundDeclarations declarations options.maxDepth (options.maxDeclarations, false)
  let keptIssues := issues.take options.maxIssues
  { path := path
    revision := none
    declarations := bounded.1
    dependencies := dependencies.take options.maxDependencies
    status := if keptIssues.isEmpty then .complete else .partly
    issues := keptIssues
    truncated := bounded.2.2 || decide (options.maxDependencies < dependencies.length) ||
      decide (options.maxIssues < issues.length) }

/-- Every declaration less its children, in preorder, under its address: the positions on the way
down from the top level. -/
def nodes : List StructuralDeclaration → List ℕ → ℕ → List (List ℕ × StructuralDeclaration)
  | [], _, _ => []
  | ⟨kind, name, detail, line, attributes, children⟩ :: rest, parent, i =>
    (parent ++ [i], leaf kind name detail line attributes) ::
      (nodes children (parent ++ [i]) 0 ++ nodes rest parent (i + 1))

def preorder (declarations : List StructuralDeclaration) : List (List ℕ × StructuralDeclaration) :=
  nodes declarations [] 0

def within (maxDepth : ℕ) (node : List ℕ × StructuralDeclaration) : Bool :=
  node.1.length ≤ maxDepth

theorem address_below (ds : List StructuralDeclaration) (parent : List ℕ) (i : ℕ) :
    ∀ node ∈ nodes ds parent i, parent.length < node.1.length := by
  induction ds, parent, i using nodes.induct with
  | case1 parent i => simp [nodes]
  | case2 kind name detail line attributes children rest parent i ihchildren ihrest =>
    intro node hnode
    rw [nodes, List.mem_cons, List.mem_append] at hnode
    rcases hnode with hnode | hnode | hnode
    · simp [hnode]
    · have hbelow := ihchildren node hnode
      rw [List.length_append, List.length_singleton] at hbelow
      omega
    · exact ihrest node hnode

/-- A listed declaration stands at the top level or below a listed one. -/
theorem parent_listed (ds : List StructuralDeclaration) (parent : List ℕ) (i : ℕ)
    {a : List ℕ} {k : ℕ} {d : StructuralDeclaration} (h : (a ++ [k], d) ∈ nodes ds parent i) :
    a = parent ∨ ∃ p, (a, p) ∈ nodes ds parent i := by
  induction ds, parent, i using nodes.induct with
  | case1 parent i => simp [nodes] at h
  | case2 kind name detail line attributes children rest parent i ihchildren ihrest =>
    rw [nodes, List.mem_cons, List.mem_append] at h
    simp only [nodes, List.mem_cons, List.mem_append]
    rcases h with h | h | h
    · have haddress := congrArg Prod.fst h
      exact .inl (List.append_inj_left' haddress rfl)
    · right
      rcases ihchildren h with ha | ⟨p, hp⟩
      · exact ⟨leaf kind name detail line attributes, .inl (by rw [ha])⟩
      · exact ⟨p, .inr (.inl hp)⟩
    · rcases ihrest h with ha | ⟨p, hp⟩
      · exact .inl ha
      · exact .inr ⟨p, .inr (.inr hp)⟩

theorem none_within (ds : List StructuralDeclaration) (parent : List ℕ) (i maxDepth : ℕ)
    (hdeep : maxDepth < parent.length + 1) : (nodes ds parent i).filter (within maxDepth) = [] := by
  rw [List.filter_eq_nil_iff]
  intro node hnode
  have hbelow := address_below ds parent i node hnode
  simp only [within, decide_eq_true_eq]
  omega

section Walk

variable (maxDepth : ℕ)

theorem bound_deep (ds : List StructuralDeclaration) (depth : ℕ) (state : ℕ × Bool)
    (hdeep : maxDepth < depth) :
    (boundAtDepth maxDepth ds depth state).1 = [] ∧
      (boundAtDepth maxDepth ds depth state).2.1 = state.1 := by
  induction ds generalizing state with
  | nil => simp [boundAtDepth]
  | cons d pending ih =>
    obtain ⟨kind, name, detail, line, attributes, children⟩ := d
    rw [boundAtDepth]
    by_cases hbudget : state.1 = 0
    · simp [hbudget]
    · rw [if_neg hbudget, if_pos hdeep]
      exact ih (state.1, true)

theorem bound_kept {kind : StructuralKind} {name detail : Option Text} {line : Option ℕ}
    {attributes : List Text} {children pending : List StructuralDeclaration} {depth budget : ℕ}
    {truncated : Bool} {nested : List StructuralDeclaration × ℕ × Bool} (hbudget : ¬ budget = 0)
    (hdeep : ¬ maxDepth < depth)
    (hnested : boundAtDepth maxDepth children (depth + 1) (budget - 1, truncated) = nested) :
    boundAtDepth maxDepth (⟨kind, name, detail, line, attributes, children⟩ :: pending) depth
        (budget, truncated) =
      (⟨kind, name, detail, line, attributes, nested.1⟩ ::
        (boundAtDepth maxDepth pending depth nested.2).1,
        (boundAtDepth maxDepth pending depth nested.2).2) := by
  rw [boundAtDepth, if_neg hbudget, if_neg hdeep, hnested]

/-- The walk lists the beginning of what is not too deep, and its budget pays for every node. -/
theorem bound_nodes (ds : List StructuralDeclaration) (depth : ℕ) (state : ℕ × Bool)
    (parent : List ℕ) (i : ℕ) (hdepth : depth = parent.length + 1) :
    nodes (boundAtDepth maxDepth ds depth state).1 parent i =
        ((nodes ds parent i).filter (within maxDepth)).take state.1 ∧
      (boundAtDepth maxDepth ds depth state).2.1 =
        state.1 - ((nodes ds parent i).filter (within maxDepth)).length := by
  induction ds, depth, state using boundAtDepth.induct maxDepth generalizing parent i with
  | case1 depth state => simp [boundAtDepth, nodes]
  | case2 kind name detail line attributes children pending depth truncated =>
    simp [boundAtDepth, nodes]
  | case3 kind name detail line attributes children pending depth budget truncated hbudget hdeep =>
    obtain ⟨hnone, hleft⟩ := bound_deep maxDepth
      (⟨kind, name, detail, line, attributes, children⟩ :: pending) depth (budget, truncated) hdeep
    rw [none_within _ parent i maxDepth (by omega), hnone, hleft]
    simp [nodes]
  | case4 kind name detail line attributes children pending depth budget truncated hbudget hdeep
      nested ihchildren ihpending =>
    obtain ⟨hchildren, hspent⟩ := ihchildren (parent ++ [i]) 0 (by simp [hdepth])
    obtain ⟨hpending, hleft⟩ := ihpending parent (i + 1) hdepth
    have hwithin : within maxDepth (parent ++ [i], leaf kind name detail line attributes) = true := by
      simp only [within, List.length_append, List.length_singleton, decide_eq_true_eq]
      omega
    obtain ⟨spare, rfl⟩ : ∃ spare, budget = spare + 1 := ⟨budget - 1, by omega⟩
    rw [boundAtDepth, if_neg hbudget, if_neg hdeep]
    simp only [nodes]
    rw [List.filter_cons_of_pos hwithin, List.filter_append, List.take_succ_cons, List.take_append,
      hchildren, hpending, hspent]
    refine ⟨rfl, ?_⟩
    rw [hleft, hspent, List.length_cons, List.length_append]
    omega

theorem kept_length_le (ds : List StructuralDeclaration) (depth : ℕ) (state : ℕ × Bool)
    (parent : List ℕ) (i : ℕ) (hdepth : depth = parent.length + 1) :
    (nodes (boundAtDepth maxDepth ds depth state).1 parent i).length ≤
      (nodes ds parent i).length := by
  rw [(bound_nodes maxDepth ds depth state parent i hdepth).1]
  rw [List.length_take]
  exact (min_le_right _ _).trans (List.length_filter_le _ _)

theorem bound_flag (ds : List StructuralDeclaration) (depth : ℕ) (state : ℕ × Bool)
    (parent : List ℕ) (i : ℕ) (hdepth : depth = parent.length + 1) :
    (boundAtDepth maxDepth ds depth state).2.2 = true ↔
      state.2 = true ∨
        (nodes (boundAtDepth maxDepth ds depth state).1 parent i).length <
          (nodes ds parent i).length := by
  induction ds, depth, state using boundAtDepth.induct maxDepth generalizing parent i with
  | case1 depth state => simp [boundAtDepth, nodes]
  | case2 kind name detail line attributes children pending depth truncated =>
    simp [boundAtDepth, nodes]
  | case3 kind name detail line attributes children pending depth budget truncated hbudget hdeep
      ihpending =>
    have hraised := (ihpending parent i hdepth).mpr (.inl rfl)
    have hnone := (bound_deep maxDepth pending depth (budget, true) hdeep).1
    rw [boundAtDepth, if_neg hbudget, if_pos hdeep, hnone]
    simp [hraised, nodes]
  | case4 kind name detail line attributes children pending depth budget truncated hbudget hdeep
      nested ihchildren ihpending =>
    have hnested : depth + 1 = (parent ++ [i]).length + 1 := by simp [hdepth]
    have hchildren : (nodes nested.1 (parent ++ [i]) 0).length ≤
        (nodes children (parent ++ [i]) 0).length :=
      kept_length_le maxDepth children (depth + 1) (budget - 1, truncated) _ 0 hnested
    have hpending := kept_length_le maxDepth pending depth nested.2 parent (i + 1) hdepth
    rw [bound_kept maxDepth hbudget hdeep (rfl : _ = nested)]
    rw [ihpending parent (i + 1) hdepth, show nested.2.2 = true ↔ truncated = true ∨
      (nodes nested.1 (parent ++ [i]) 0).length < (nodes children (parent ++ [i]) 0).length from
        ihchildren (parent ++ [i]) 0 hnested]
    simp only [nodes, List.length_cons, List.length_append]
    constructor
    · rintro ((hraised | hlost) | hlost)
      · exact .inl hraised
      · exact .inr (by omega)
      · exact .inr (by omega)
    · rintro (hraised | hlost)
      · exact .inl (.inl hraised)
      · by_cases hwhole : (nodes nested.1 (parent ++ [i]) 0).length <
            (nodes children (parent ++ [i]) 0).length
        · exact .inl (.inr hwhole)
        · exact .inr (by omega)

theorem bound_fits (ds : List StructuralDeclaration) (depth : ℕ) (state : ℕ × Bool)
    (parent : List ℕ) (i : ℕ) (hdepth : depth = parent.length + 1)
    (hwithin : ∀ node ∈ nodes ds parent i, within maxDepth node = true)
    (hcount : (nodes ds parent i).length ≤ state.1) :
    boundAtDepth maxDepth ds depth state =
      (ds, state.1 - (nodes ds parent i).length, state.2) := by
  induction ds, depth, state using boundAtDepth.induct maxDepth generalizing parent i with
  | case1 depth state => simp [boundAtDepth, nodes]
  | case2 kind name detail line attributes children pending depth truncated =>
    simp [nodes] at hcount
  | case3 kind name detail line attributes children pending depth budget truncated hbudget hdeep =>
    have htop := hwithin (parent ++ [i], leaf kind name detail line attributes) (by simp [nodes])
    simp only [within, List.length_append, List.length_singleton, decide_eq_true_eq] at htop
    omega
  | case4 kind name detail line attributes children pending depth budget truncated hbudget hdeep
      nested ihchildren ihpending =>
    simp only [nodes, List.length_cons, List.length_append] at hcount
    have hchildren : nested = (children,
        budget - 1 - (nodes children (parent ++ [i]) 0).length, truncated) := by
      apply ihchildren (parent ++ [i]) 0 (by simp [hdepth])
      · intro node hnode
        exact hwithin node (by simp [nodes, hnode])
      · show _ ≤ budget - 1
        omega
    have hleft : nested.2.1 = budget - 1 - (nodes children (parent ++ [i]) 0).length := by
      rw [hchildren]
    have hpending := ihpending parent (i + 1) hdepth (fun node hnode =>
      hwithin node (by simp [nodes, hnode])) (by omega)
    rw [bound_kept maxDepth hbudget hdeep (rfl : _ = nested), hpending, hchildren]
    simp only [nodes, List.length_cons, List.length_append, Prod.mk.injEq, and_true, true_and]
    omega

end Walk

theorem normalize_fits (path : Text) (declarations : List StructuralDeclaration)
    (dependencies : List Text) (issues : List StructuralIssue) (options : StructureOptions)
    (hwithin : ∀ node ∈ preorder declarations, within options.maxDepth node = true)
    (hcount : (preorder declarations).length ≤ options.maxDeclarations)
    (hdependencies : dependencies.length ≤ options.maxDependencies)
    (hissues : issues.length ≤ options.maxIssues) :
    normalizeStructuralDocument path declarations dependencies issues options =
      { path := path
        revision := none
        declarations := declarations
        dependencies := dependencies
        status := if issues.isEmpty then .complete else .partly
        issues := issues
        truncated := false } := by
  have hbound := bound_fits options.maxDepth declarations 1 (options.maxDeclarations, false) [] 0
    rfl hwithin hcount
  rw [normalizeStructuralDocument, boundDeclarations, hbound, List.take_of_length_le hdependencies,
    List.take_of_length_le hissues, decide_eq_false (by omega), decide_eq_false (by omega)]
  rfl

/-- Normalizing keeps the first declarations of the preorder less what lies too deep, each below
its parent, and the beginnings of the two lists; it says so when it loses anything, and it has
nothing left to do on its own result. -/
theorem normalize_preorder_prefix (path : Text) (declarations : List StructuralDeclaration)
    (dependencies : List Text) (issues : List StructuralIssue) (options : StructureOptions) :
    let document := normalizeStructuralDocument path declarations dependencies issues options
    preorder document.declarations =
        ((preorder declarations).filter (within options.maxDepth)).take options.maxDeclarations ∧
      (∀ a k d, (a ++ [k], d) ∈ preorder document.declarations → a ≠ [] →
        ∃ p, (a, p) ∈ preorder document.declarations ∧ (a, p) ∈ preorder declarations) ∧
      document.dependencies = dependencies.take options.maxDependencies ∧
      document.issues = issues.take options.maxIssues ∧
      (document.truncated = true ↔
        (preorder document.declarations).length < (preorder declarations).length ∨
          document.dependencies.length < dependencies.length ∨
          document.issues.length < issues.length) ∧
      normalizeStructuralDocument path document.declarations document.dependencies document.issues
        options = { document with truncated := false } := by
  intro document
  have hnodes : preorder document.declarations =
      ((preorder declarations).filter (within options.maxDepth)).take options.maxDeclarations :=
    (bound_nodes options.maxDepth declarations 1 (options.maxDeclarations, false) [] 0 rfl).1
  have hdependencies : document.dependencies = dependencies.take options.maxDependencies := rfl
  have hissues : document.issues = issues.take options.maxIssues := rfl
  refine ⟨hnodes, ?_, hdependencies, hissues, ?_, ?_⟩
  · intro a k d hnode ha
    obtain ⟨p, hp⟩ := (parent_listed document.declarations [] 0 hnode).resolve_left ha
    refine ⟨p, hp, ?_⟩
    have hkept : (a, p) ∈ preorder document.declarations := hp
    rw [hnodes] at hkept
    exact List.mem_of_mem_filter (List.mem_of_mem_take hkept)
  · have hflag := bound_flag options.maxDepth declarations 1 (options.maxDeclarations, false) [] 0 rfl
    show (_ || decide _ || decide _) = true ↔ _
    rw [Bool.or_eq_true, Bool.or_eq_true, boundDeclarations, hflag, hdependencies, hissues,
      List.length_take, List.length_take]
    simp only [Bool.false_eq_true, false_or, decide_eq_true_eq]
    rw [or_assoc]
    refine or_congr Iff.rfl (or_congr ?_ ?_)
    · omega
    · omega
  · apply normalize_fits
    · intro node hnode
      rw [hnodes] at hnode
      exact (List.mem_filter.mp (List.mem_of_mem_take hnode)).2
    · rw [hnodes]
      exact List.length_take_le _ _
    · exact List.length_take_le _ _
    · exact List.length_take_le _ _

end Siralos.Structure
