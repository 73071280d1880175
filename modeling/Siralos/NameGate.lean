import Siralos.WorkspacePath

/-!
# The name gate and the resolver

The gate normalizes a request on its own and compares the result with the path that the resolver
found. Both normalizations agree until a request steps above the workspace root: the resolver then
leaves the root's own names, and the gate has nothing left to leave.
-/

set_option autoImplicit false

namespace Siralos.Workspace

def dotDot : Text := ['.', '.']

/-- `resolve_workspace_path`, over what the operating system's `canonicalize` answers. -/
def resolveWith (canonicalize : Path → Option Path) (root : Path) (requested : Text) :
    Except PathRejection ResolvedWorkspacePath :=
  if requested.contains nul then .error .nullByte
  else if requested.isEmpty then .error .empty
  else if isAbsolutePattern requested then .error .absolute
  else if (splitSeparators requested).any (fun c => c.contains ':') then .error .invalidCharacter
  else
    match canonicalize root with
    | none => .error (.unresolvable "workspace root is not accessible")
    | some canonicalRoot =>
      let resolved := normalizeJoin canonicalRoot requested
      if !canonicalRoot.isPrefixOf resolved then .error .outsideWorkspace
      else
        match canonicalize resolved with
        | none => .error (.unresolvable "requested path is not accessible")
        | some target =>
          if !canonicalRoot.isPrefixOf target then .error .linkEscape
          else .ok ⟨relativeOf canonicalRoot target, target⟩

theorem resolve_with_file_system (fs : FileSystem) (root : Path) (requested : Text) :
    resolveWorkspacePath fs root requested = resolveWith fs.canonicalize root requested := rfl

section Gate

variable (fold : Text → Text)

def askComponent (asked : List Text) (component : Text) : List Text :=
  if component = [] ∨ component = ['.'] then asked
  else if component = dotDot then asked.dropLast
  else asked ++ [fold component]

/-- The gate on a platform that folds names so. -/
def requestedNameGate (root : Path) (requested : Text) (resolved : Path) : Bool :=
  root.isPrefixOf resolved && (resolved.drop root.length).all (· != dotDot) &&
    (splitSeparators requested).foldl (askComponent fold) [] ==
      (resolved.drop root.length).map fold

end Gate

/-- The names of a request, normalized on their own. -/
def askedNames (requested : Text) : List Text := (splitSeparators requested).foldl joinComponent []

/-- No `..` leaves the place where the components start, so many names below the base. -/
def staysBelow : ℕ → List Text → Bool
  | _, [] => true
  | depth, component :: rest =>
    if component = [] ∨ component = ['.'] then staysBelow depth rest
    else if component = dotDot then decide (0 < depth) && staysBelow (depth - 1) rest
    else staysBelow (depth + 1) rest

theorem ask_component (fold : Text → Text) (names : List Text) (component : Text) :
    askComponent fold (names.map fold) component = (joinComponent names component).map fold := by
  rw [askComponent, joinComponent, dotDot]
  split
  · rfl
  · split
    · rw [List.map_dropLast]
    · rw [List.map_append, List.map_singleton]

theorem asked_names (fold : Text → Text) (requested : Text) :
    (splitSeparators requested).foldl (askComponent fold) [] = (askedNames requested).map fold := by
  have hrun : ∀ (components names : List Text),
      components.foldl (askComponent fold) (names.map fold) =
        (components.foldl joinComponent names).map fold := by
    intro components
    induction components with
    | nil => exact fun _ => rfl
    | cons component components ih =>
      intro names
      rw [List.foldl_cons, ask_component, ih, List.foldl_cons]
  exact hrun _ []

theorem asked_ordinary (requested : Text) : ∀ name ∈ askedNames requested, Ordinary name := by
  intro name hname
  rcases join_component_mem [] _ name hname with hnone | ⟨_, hordinary⟩
  · cases hnone
  · exact hordinary

theorem requested_name_gate (fold : Text → Text) (root : Path) (requested : Text)
    (resolved : Path) :
    requestedNameGate fold root requested resolved = true ↔ ∃ live, resolved = root ++ live ∧
      dotDot ∉ live ∧ live.map fold = (askedNames requested).map fold := by
  rw [requestedNameGate, asked_names, Bool.and_eq_true, Bool.and_eq_true, beq_iff_eq,
    List.isPrefixOf_iff_prefix, List.all_eq_true]
  constructor
  · rintro ⟨⟨⟨live, hlive⟩, hup⟩, hnames⟩
    rw [← hlive, List.drop_left] at hup hnames
    refine ⟨live, hlive.symm, ?_, hnames.symm⟩
    intro hmem
    exact absurd (hup _ hmem) (by simp)
  · rintro ⟨live, hresolved, hup, hnames⟩
    rw [hresolved, List.drop_left]
    refine ⟨⟨List.prefix_append _ _, ?_⟩, hnames.symm⟩
    intro name hname
    have hother : name ≠ dotDot := fun hsame => hup (hsame ▸ hname)
    simpa using hother

theorem gate_plain (root : Path) (requested : Text) (resolved : Path) :
    requestedNameGate id root requested resolved =
      Checkpoint.requireRequestedParentName root requested resolved := by
  rw [Bool.eq_iff_iff, requested_name_gate, Checkpoint.requireRequestedParentName, Bool.and_eq_true,
    beq_iff_eq, List.isPrefixOf_iff_prefix, ← askedNames]
  constructor
  · rintro ⟨live, hresolved, _, hnames⟩
    rw [List.map_id, List.map_id] at hnames
    rw [hresolved, List.drop_left]
    exact ⟨List.prefix_append _ _, hnames.symm⟩
  · rintro ⟨⟨live, hlive⟩, hnames⟩
    rw [← hlive, List.drop_left] at hnames
    refine ⟨live, hlive.symm, ?_, by rw [hnames]⟩
    intro hmem
    rw [← hnames] at hmem
    exact (asked_ordinary requested _ hmem).2.2 rfl

theorem join_run (components : List Text) (base names : List Text) :
    ∃ kept, kept <+: base ∧
      components.foldl joinComponent (base ++ names) =
        kept ++ components.foldl joinComponent names ∧
      (kept = base ↔ base = [] ∨ staysBelow names.length components = true) := by
  induction components generalizing base names with
  | nil => exact ⟨base, List.prefix_rfl, rfl, by simp [staysBelow]⟩
  | cons component components ih =>
    rw [List.foldl_cons, List.foldl_cons, staysBelow]
    by_cases hskip : component = [] ∨ component = ['.']
    · rw [joinComponent, joinComponent, if_pos hskip, if_pos hskip, if_pos hskip]
      exact ih base names
    · rw [joinComponent, joinComponent, if_neg hskip, if_neg hskip, if_neg hskip]
      by_cases hup : component = dotDot
      · have hparent : component = ['.', '.'] := hup
        rw [if_pos hparent, if_pos hparent, if_pos hup]
        by_cases hnames : names = []
        · rw [hnames, List.append_nil]
          obtain ⟨kept, hkept, hjoin, -⟩ := ih base.dropLast []
          rw [List.append_nil] at hjoin
          refine ⟨kept, hkept.trans (List.dropLast_prefix base), hjoin, ?_⟩
          simp only [List.length_nil, Nat.lt_irrefl, decide_false, Bool.false_and,
            Bool.false_eq_true, or_false]
          constructor
          · intro hsame
            have hlength := hkept.length_le
            rw [hsame, List.length_dropLast] at hlength
            exact List.length_eq_zero_iff.mp (by omega)
          · intro hbase
            rw [hbase] at hkept ⊢
            exact List.prefix_nil.mp hkept
        · have hpos : 0 < names.length := List.length_pos_of_ne_nil hnames
          obtain ⟨kept, hkept, hjoin, hiff⟩ := ih base names.dropLast
          rw [List.dropLast_append_of_ne_nil hnames]
          rw [List.length_dropLast] at hiff
          rw [decide_eq_true hpos, Bool.true_and]
          exact ⟨kept, hkept, hjoin, hiff⟩
      · have hname : component ≠ ['.', '.'] := hup
        rw [if_neg hname, if_neg hname, if_neg hup, List.append_assoc]
        obtain ⟨kept, hkept, hjoin, hiff⟩ := ih base (names ++ [component])
        rw [List.length_append, List.length_singleton] at hiff
        exact ⟨kept, hkept, hjoin, hiff⟩

/-- The request never steps above the root, or there is nothing above it. -/
def StaysInside (root : Path) (requested : Text) : Prop :=
  root = [] ∨ staysBelow 0 (splitSeparators requested) = true

theorem normalize_join (root : Path) (requested : Text) :
    ∃ kept, kept <+: root ∧ normalizeJoin root requested = kept ++ askedNames requested ∧
      (kept = root ↔ StaysInside root requested) := by
  have hrun := join_run (splitSeparators requested) root []
  rwa [List.append_nil] at hrun

/-- Canonicalization finds the names that it is asked for, as the platform folds them. -/
structure LinkFree (fold : Text → Text) (canonicalize : Path → Option Path) (root : Path) :
    Prop where
  root_canonical : canonicalize root = some root
  same_names : ∀ names target, (∀ name ∈ names, Ordinary name) →
    canonicalize (root ++ names) = some target → target.map fold = (root ++ names).map fold
  no_parents : ∀ path target, canonicalize path = some target → dotDot ∉ target

theorem walk_names_link_free {node : Path → Option Node} {follow : Path → List Text → Option Path}
    (names : List Text) {here target : Path} (hordinary : ∀ name ∈ names, Ordinary name)
    (hlinks : ∀ path, here <+: path → ∀ link, node path ≠ some (.link link))
    (h : walkNames node follow here names = some target) : target = here ++ names := by
  induction names generalizing here with
  | nil =>
    rw [walkNames] at h
    rw [List.append_nil]
    exact (Option.some_inj.mp h).symm
  | cons name names ih =>
    obtain ⟨hempty, hdot, hup⟩ := hordinary name (by simp)
    rw [walkNames, if_neg (by rintro (h | h); exacts [hempty h, hdot h]), if_neg hup] at h
    cases hnode : node (here ++ [name]) with
    | none =>
      rw [hnode] at h
      cases h
    | some found =>
      rw [hnode] at h
      cases found with
      | directory =>
        have hrest := ih (fun other hother => hordinary other (List.mem_cons_of_mem _ hother))
          (fun path hpath => hlinks path ((List.prefix_append _ _).trans hpath)) h
        rw [hrest, List.append_assoc, List.singleton_append]
      | link link => exact absurd hnode (hlinks _ (List.prefix_append _ _) link)
      | file bytes =>
        by_cases hlast : names = []
        · simp only [if_pos hlast] at h
          rw [hlast]
          exact (Option.some_inj.mp h).symm
        · simp only [if_neg hlast] at h
          cases h
      | special =>
        by_cases hlast : names = []
        · simp only [if_pos hlast] at h
          rw [hlast]
          exact (Option.some_inj.mp h).symm
        · simp only [if_neg hlast] at h
          cases h

theorem link_free_tree {fs : FileSystem} {root : Path} (hroot : Opened fs root)
    (hlinks : ∀ path, root <+: path → ∀ link, fs.node path ≠ some (.link link)) :
    LinkFree id fs.canonicalize root where
  root_canonical := fs.canonicalize_of_resolved root hroot.resolved
  same_names names target hordinary h := by
    have hwalk : walkNames fs.node (walk fs.node 39) [] (root ++ names) = some target := h
    rw [walk_names_through fs.node _ [] root names (by simpa using hroot), List.nil_append] at hwalk
    rw [walk_names_link_free names hordinary hlinks hwalk]
  no_parents path target h hmem :=
    ((fs.canonicalize_resolved path target h).ordinary _ hmem).2.2 rfl

theorem resolve_with_ok {canonicalize : Path → Option Path} {root : Path} {requested : Text}
    {resolved : ResolvedWorkspacePath} (hroot : canonicalize root = some root)
    (h : resolveWith canonicalize root requested = .ok resolved) :
    root <+: normalizeJoin root requested ∧
      canonicalize (normalizeJoin root requested) = some resolved.absolutePath ∧
        root <+: resolved.absolutePath := by
  unfold resolveWith at h
  split at h
  · cases h
  split at h
  · cases h
  split at h
  · cases h
  split at h
  · cases h
  rw [hroot] at h
  dsimp only at h
  split at h
  · cases h
  next hinside =>
    split at h
    · cases h
    next target htarget =>
      split at h
      · cases h
      next hbelow =>
        cases h
        rw [Bool.not_eq_true, Bool.not_eq_false', List.isPrefixOf_iff_prefix] at hinside hbelow
        exact ⟨hinside, htarget, hbelow⟩

theorem resolved_gate {fold : Text → Text} {canonicalize : Path → Option Path} {root : Path}
    {requested : Text} {resolved : ResolvedWorkspacePath} (hfree : LinkFree fold canonicalize root)
    (h : resolveWith canonicalize root requested = .ok resolved) :
    requestedNameGate fold root requested resolved.absolutePath = true ↔
      StaysInside root requested := by
  obtain ⟨⟨below, hbelow⟩, htarget, live, hlive⟩ := resolve_with_ok hfree.root_canonical h
  obtain ⟨kept, ⟨more, hmore⟩, hjoin, hinside⟩ := normalize_join root requested
  have hasked : askedNames requested = more ++ below := by
    rw [← hbelow, ← hmore, List.append_assoc] at hjoin
    exact (List.append_cancel_left hjoin).symm
  have hordinary : ∀ name ∈ below, Ordinary name := by
    intro name hname
    exact asked_ordinary requested name (hasked ▸ List.mem_append_right more hname)
  have hnames : live.map fold = below.map fold := by
    have hsame := hfree.same_names below _ hordinary (by rw [hbelow]; exact htarget)
    rw [← hlive, List.map_append, List.map_append] at hsame
    exact List.append_cancel_left hsame
  have hup : dotDot ∉ live := by
    intro hmem
    exact hfree.no_parents _ _ htarget (hlive ▸ List.mem_append_right root hmem)
  rw [← hinside, requested_name_gate, hasked, ← hlive]
  constructor
  · rintro ⟨other, hother, _, hsame⟩
    rw [← List.append_cancel_left hother, hnames, List.map_append] at hsame
    have hlength := congrArg List.length hsame
    rw [List.length_append, List.length_map, List.length_map] at hlength
    have hnone : more = [] := List.length_eq_zero_iff.mp (by omega)
    rw [hnone, List.append_nil] at hmore
    exact hmore
  · intro hkept
    have hnone : more = [] := by
      rw [hkept] at hmore
      exact List.append_right_eq_self.mp hmore
    exact ⟨live, rfl, hup, by rw [hnone, hnames, List.nil_append]⟩

/-- What resolves passes the gate just where the request stays inside; what passes has the names
asked for, and they are those of the resolver's own normalization just where the request stays
inside. -/
theorem name_gate_law (fold : Text → Text) (root : Path) (requested : Text) :
    (∀ canonicalize resolved, LinkFree fold canonicalize root →
      resolveWith canonicalize root requested = .ok resolved →
        (requestedNameGate fold root requested resolved.absolutePath = true ↔
          StaysInside root requested)) ∧
    (∀ path, requestedNameGate fold root requested path = true →
      path.map fold = (root ++ askedNames requested).map fold) ∧
    ((∀ path, requestedNameGate fold root requested path = true →
      path.map fold = (normalizeJoin root requested).map fold) ↔ StaysInside root requested) := by
  have haccepts : ∀ path, requestedNameGate fold root requested path = true →
      path.map fold = (root ++ askedNames requested).map fold := by
    intro path hgate
    obtain ⟨live, hpath, _, hnames⟩ := (requested_name_gate fold root requested path).mp hgate
    rw [hpath, List.map_append, List.map_append, hnames]
  obtain ⟨kept, hkept, hjoin, hinside⟩ := normalize_join root requested
  refine ⟨fun canonicalize resolved hfree h => resolved_gate hfree h, haccepts, ?_⟩
  rw [← hinside, hjoin]
  constructor
  · intro hsame
    have hgate : requestedNameGate fold root requested (root ++ askedNames requested) = true :=
      (requested_name_gate fold root requested _).mpr
        ⟨_, rfl, fun hmem => (asked_ordinary requested _ hmem).2.2 rfl, rfl⟩
    have hlength := congrArg List.length (hsame _ hgate)
    simp only [List.length_map, List.length_append] at hlength
    exact hkept.eq_of_length (by omega)
  · intro hroot path hgate
    rw [haccepts path hgate, hroot]

def siblingTree : FileSystem := .ofNodes [([['w']], .directory)]

theorem sibling_tree_free : LinkFree id siblingTree.canonicalize [['w']] := by
  apply link_free_tree
  · constructor
    · intro q hq
      rcases List.prefix_cons_iff.mp hq with hnil | ⟨rest, hrest, hnone⟩
      · rw [hnil]
        rfl
      · rw [hrest, List.prefix_nil.mp hnone]
        rfl
    · intro name hname
      rw [List.mem_singleton.mp hname]
      exact ⟨by decide, by decide, by decide⟩
  · intro path _ link hlink
    simp only [siblingTree, FileSystem.ofNodes] at hlink
    split at hlink
    · cases hlink
    · rw [List.lookup_cons] at hlink
      split at hlink <;> simp at hlink

theorem returning_request_refused :
    ¬ ∀ fold canonicalize root requested resolved, LinkFree fold canonicalize root →
      resolveWith canonicalize root requested = .ok resolved →
        requestedNameGate fold root requested resolved.absolutePath = true := by
  intro hclaim
  have hgate := hclaim id siblingTree.canonicalize [['w']] "../w".toList ⟨['.'], [['w']]⟩
    sibling_tree_free (by decide)
  exact absurd hgate (by decide)

theorem name_gate_law_sibling :
    requestedNameGate id [['w']] "../w".toList [['w']] = true ↔
      StaysInside [['w']] "../w".toList :=
  (name_gate_law id [['w']] "../w".toList).1 siblingTree.canonicalize ⟨['.'], [['w']]⟩
    sibling_tree_free (by decide)

end Siralos.Workspace
