import Siralos.Inspection

/-!
# Paths of found files

Listing and searching spell a file by the names on the way to it; resolving reads such a spelling
with both separators. The two agree on a path exactly when it can be spelled that way.
-/

set_option autoImplicit false

namespace Siralos.Inspection

open Workspace Checkpoint Revision

theorem resolved_inside {node : Path → Option Node} {path q : Path} (h : Resolved node path)
    (hq : q <+: path) : (node q).isSome = true := by
  by_cases hpath : q = path
  · obtain ⟨n, hn, _⟩ := h.present
    simp [hpath, hn]
  · have hparent : q <+: path.dropLast := by
      rcases List.eq_nil_or_concat' path with rfl | ⟨init, last, rfl⟩
      · exact absurd (List.prefix_nil.mp hq) hpath
      · rw [List.dropLast_concat]
        exact (List.prefix_concat_iff.mp hq).resolve_left hpath
    simp [h.parent.directories q hparent]

theorem WorkspaceTree.valid_names (tree : WorkspaceTree) (names : List Text)
    (h : Resolved tree.fs.node (tree.root ++ names)) : ∀ name ∈ names, ValidName name := by
  intro name hname
  obtain ⟨before, after, rfl⟩ := List.append_of_mem hname
  refine tree.named (tree.root ++ before) name (resolved_inside h ?_)
  exact ⟨after, by simp⟩

variable {names : List Text}

theorem slash_split (hvalid : ∀ name ∈ names, ValidName name) (hne : names ≠ []) :
    (joinNames names).splitOn '/' = names := by
  refine split_join (· == '/') names rfl ?_ hne
  intro name hname c hc
  refine beq_eq_false_iff_ne.mpr ?_
  rintro rfl
  exact (hvalid name hname).slashless hc

theorem join_injective {other : List Text} (hvalid : ∀ name ∈ names, ValidName name)
    (hother : ∀ name ∈ other, ValidName name) (hne : names ≠ []) (hne' : other ≠ [])
    (h : joinNames names = joinNames other) : names = other := by
  rw [← slash_split hvalid hne, h, slash_split hother hne']

theorem join_ne_dot (hvalid : ∀ name ∈ names, ValidName name) (hne : names ≠ []) :
    joinNames names ≠ ['.'] := by
  intro hdot
  have hsplit := slash_split hvalid hne
  rw [hdot] at hsplit
  have hname := hvalid ['.'] (by rw [← hsplit]; decide)
  exact hname.ordinary.2.1 rfl

theorem relative_below (root : Path) (hne : names ≠ []) :
    relativeOf root (root ++ names) = joinNames names := by
  rw [relativeOf, if_neg (by simpa using hne), List.drop_left]

theorem relative_root (root : Path) : relativeOf root (root ++ []) = ['.'] := by
  simp [relativeOf]

theorem relative_injective {other : List Text} (root : Path)
    (hvalid : ∀ name ∈ names, ValidName name) (hother : ∀ name ∈ other, ValidName name)
    (h : relativeOf root (root ++ names) = relativeOf root (root ++ other)) : names = other := by
  by_cases hne : names = []
  · by_cases hne' : other = []
    · rw [hne, hne']
    · rw [hne, relative_root, relative_below root hne'] at h
      exact absurd h.symm (join_ne_dot hother hne')
  · by_cases hne' : other = []
    · rw [hne', relative_root, relative_below root hne] at h
      exact absurd h (join_ne_dot hvalid hne)
    · rw [relative_below root hne, relative_below root hne'] at h
      exact join_injective hvalid hother hne hne' h

theorem child_relative (root : Path) (name : Text) (hvalid : ∀ other ∈ names, ValidName other) :
    childRelativePath (relativeOf root (root ++ names)) name = joinNames (names ++ [name]) := by
  by_cases hne : names = []
  · rw [hne, relative_root]
    simp [childRelativePath, joinNames]
  · rw [relative_below root hne, childRelativePath, if_neg (join_ne_dot hvalid hne),
      join_snoc names name hne]

theorem first_excluded (folding : Folding) (root : Path)
    (hvalid : ∀ name ∈ names, ValidName name) :
    firstExcludedComponent folding (relativeOf root (root ++ names)) = none ↔
      ∀ name ∈ names, isExcludedName folding name = false := by
  by_cases hne : names = []
  · subst hne
    rw [relative_root]
    have hnone : (List.splitOn '/' ['.']).filter isGuardedComponent = [] := by decide
    simp [firstExcludedComponent, hnone]
  · have hguarded : names.filter isGuardedComponent = names := by
      rw [List.filter_eq_self]
      intro name hname
      obtain ⟨hempty, hdot, _⟩ := (hvalid name hname).ordinary
      simp [isGuardedComponent, hempty, hdot]
    rw [relative_below root hne, firstExcludedComponent, slash_split hvalid hne, hguarded,
      List.find?_eq_none]
    simp

theorem guard_none (folding : Folding) (excluded : Text → Text) (relative : Text) :
    guardPath folding excluded relative = none ↔
      firstExcludedComponent folding relative = none ∧
        isModelProtected folding relative = false := by
  unfold guardPath
  cases hfirst : firstExcludedComponent folding relative with
  | some component => simp
  | none => cases isModelProtected folding relative <;> simp

theorem split_covers (p : Char → Bool) (value : Text) (c : Char) (hc : p c = false)
    (h : c ∈ value) : ∃ piece ∈ value.splitOnP p, c ∈ piece := by
  induction value with
  | nil => cases h
  | cons d rest ih =>
    rw [List.splitOnP_cons_eq_if_modifyHead]
    by_cases hd : p d = true
    · have hrest : c ∈ rest := by
        rcases List.mem_cons.mp h with rfl | hrest
        · rw [hc] at hd
          cases hd
        · exact hrest
      obtain ⟨piece, hpiece, hmem⟩ := ih hrest
      rw [if_pos hd]
      exact ⟨piece, List.mem_cons_of_mem _ hpiece, hmem⟩
    · rw [if_neg hd]
      obtain ⟨first, others, hsplit⟩ :=
        List.exists_cons_of_ne_nil (@List.splitOnP_ne_nil _ p rest)
      rw [hsplit, List.modifyHead_cons]
      rcases List.mem_cons.mp h with rfl | hrest
      · exact ⟨c :: first, by simp, by simp⟩
      · obtain ⟨piece, hpiece, hmem⟩ := ih hrest
        rw [hsplit] at hpiece
        rcases List.mem_cons.mp hpiece with rfl | hpiece
        · exact ⟨d :: piece, by simp, by simp [hmem]⟩
        · exact ⟨piece, by simp [hpiece], hmem⟩

theorem colon_split (requested : Text) :
    (splitSeparators requested).any (fun c => c.contains ':') = false ↔ ':' ∉ requested := by
  rw [List.any_eq_false]
  constructor
  · intro h hcolon
    obtain ⟨piece, hpiece, hmem⟩ := split_covers isSeparator requested ':' (by decide) hcolon
    exact h piece hpiece (by simpa using hmem)
  · intro h piece hpiece hmem
    exact h (Splitting.mem_split_on isSeparator requested piece hpiece ':' (by simpa using hmem)).2

theorem resolve_iff {fs : FileSystem} {root : Path} (hroot : Opened fs root) (requested : Text)
    (target : Path) :
    resolveWorkspacePath fs root requested = .ok ⟨relativeOf root target, target⟩ ↔
      nul ∉ requested ∧ requested ≠ [] ∧ isAbsolutePattern requested = false ∧
        ':' ∉ requested ∧ root <+: normalizeJoin root requested ∧
        fs.canonicalize (normalizeJoin root requested) = some target ∧ root <+: target := by
  rw [← colon_split, ← List.isPrefixOf_iff_prefix, ← List.isPrefixOf_iff_prefix]
  unfold resolveWorkspacePath
  rw [fs.canonicalize_of_resolved root hroot.resolved]
  dsimp only
  constructor
  · intro h
    split at h
    · cases h
    rename_i hnul
    split at h
    · cases h
    rename_i hempty
    split at h
    · cases h
    rename_i habsolute
    split at h
    · cases h
    rename_i hcolons
    split at h
    · cases h
    rename_i hbelow
    split at h
    · cases h
    rename_i found hfound
    split at h
    · cases h
    rename_i hinside
    obtain ⟨_, rfl⟩ := ResolvedWorkspacePath.mk.inj (Except.ok.inj h)
    refine ⟨by simpa using hnul, by simpa using hempty, by simpa using habsolute,
      by simpa using hcolons, by simpa using hbelow, hfound, by simpa using hinside⟩
  · rintro ⟨hnul, hempty, habsolute, hcolons, hbelow, hfound, hinside⟩
    rw [if_neg (by simpa using hnul), if_neg (by simpa using hempty),
      if_neg (by simp [habsolute]), if_neg (by simp only [hcolons, Bool.false_eq_true,
        not_false_eq_true]), if_neg (by simp [hbelow]), hfound]
    dsimp only
    rw [if_neg (by simp [hinside])]

structure Entered (folding : Folding) (tree : WorkspaceTree) (names : List Text) : Prop where
  real : RealDirectory tree.fs.node (tree.root ++ names)
  included : ∀ name ∈ names, isExcludedName folding name = false

structure Shown (folding : Folding) (tree : WorkspaceTree) (names : List Text)
    (bytes : FileBytes) : Prop where
  nonempty : names ≠ []
  resolved : Resolved tree.fs.node (tree.root ++ names)
  file : tree.fs.node (tree.root ++ names) = some (.file bytes)
  included : ∀ name ∈ names, isExcludedName folding name = false
  visible : isModelProtected folding (joinNames names) = false

variable {folding : Folding} {tree : WorkspaceTree}

theorem Entered.valid (h : Entered folding tree names) : ∀ name ∈ names, ValidName name :=
  tree.valid_names names h.real.resolved

theorem Shown.valid {bytes : FileBytes} (h : Shown folding tree names bytes) :
    ∀ name ∈ names, ValidName name := tree.valid_names names h.resolved

theorem Entered.child (h : Entered folding tree names) (name : Text) (node : Node)
    (hnode : tree.fs.node (tree.root ++ names ++ [name]) = some node)
    (hlink : ∀ target, node ≠ .link target) (hincluded : isExcludedName folding name = false) :
    Resolved tree.fs.node (tree.root ++ (names ++ [name])) ∧
      ∀ other ∈ names ++ [name], isExcludedName folding other = false := by
  have hname : ValidName name := tree.named (tree.root ++ names) name (by rw [hnode]; rfl)
  constructor
  · rw [← List.append_assoc]
    exact resolved_leaf h.real hname.ordinary hnode hlink
  · intro other hother
    rcases List.mem_append.mp hother with hold | hnew
    · exact h.included other hold
    · rw [List.mem_singleton.mp hnew]
      exact hincluded

theorem Entered.directory (h : Entered folding tree names) (name : Text)
    (hnode : tree.fs.node (tree.root ++ names ++ [name]) = some .directory)
    (hincluded : isExcludedName folding name = false) :
    Entered folding tree (names ++ [name]) := by
  obtain ⟨hresolved, hall⟩ := h.child name .directory hnode (by simp) hincluded
  refine ⟨resolved_directory hresolved ?_, hall⟩
  rw [← List.append_assoc]
  exact hnode

theorem Entered.file (h : Entered folding tree names) (name : Text) (bytes : FileBytes)
    (hnode : tree.fs.node (tree.root ++ names ++ [name]) = some (.file bytes))
    (hincluded : isExcludedName folding name = false)
    (hvisible : isModelProtected folding
      (childRelativePath (relativeOf tree.root (tree.root ++ names)) name) = false) :
    Shown folding tree (names ++ [name]) bytes := by
  obtain ⟨hresolved, hall⟩ := h.child name (.file bytes) hnode (by simp) hincluded
  refine ⟨by simp, hresolved, ?_, hall, ?_⟩
  · rw [← List.append_assoc]
    exact hnode
  · rw [← child_relative tree.root name h.valid]
    exact hvisible

theorem entered_start {requested : Text} {resolved : ResolvedWorkspacePath}
    {excluded : Text → Text}
    (hresolve : resolveWorkspacePath tree.fs tree.root requested = .ok resolved)
    (hguard : guardPath folding excluded resolved.workspaceRelativePath = none) :
    ∃ names, resolved = ⟨relativeOf tree.root (tree.root ++ names), tree.root ++ names⟩ ∧
      Resolved tree.fs.node (tree.root ++ names) ∧
      ∀ name ∈ names, isExcludedName folding name = false := by
  obtain ⟨_, _, ⟨names, habsolute⟩, hresolved, hrelative⟩ :=
    resolve_ok requested resolved tree.opened hresolve
  rw [← habsolute] at hresolved hrelative
  have hvalid := tree.valid_names names hresolved
  rw [guard_none, hrelative, first_excluded folding tree.root hvalid] at hguard
  refine ⟨names, ?_, hresolved, hguard.1⟩
  rw [← hrelative, habsolute]

/-- With both separators the path leads, inside the root, to the file that it names. -/
structure LeadsBack (tree : WorkspaceTree) (path : Text) : Prop where
  relative : isAbsolutePattern path = false
  inside : tree.root <+: normalizeJoin tree.root path
  back : tree.fs.canonicalize (normalizeJoin tree.root path) =
    some (tree.root ++ path.splitOn '/')

structure Spellable (tree : WorkspaceTree) (path : Text) : Prop where
  colons : ':' ∉ path
  backslashes : '\\' ∈ path → LeadsBack tree path

/-- The path resolves to the file under the same spelling and is not refused a read. -/
structure Readable (folding : Folding) (tree : WorkspaceTree) (path : Text) (file : Path) :
    Prop where
  resolves : resolveWorkspacePath tree.fs tree.root path = .ok ⟨path, file⟩
  undenied : ∀ contentHex sha256Hex lowercase input limits revisions cancelled message,
    input.path = path →
      (readFile contentHex sha256Hex lowercase folding tree input limits revisions cancelled).1 ≠
        .denied message

theorem Shown.spells {bytes : FileBytes} (h : Shown folding tree names bytes) (name : Text)
    (hname : name ∈ names) : ∀ c ∈ name, c ∈ joinNames names := by
  intro c hc
  have hpiece : name ∈ (joinNames names).splitOn '/' := by
    rw [slash_split h.valid h.nonempty]
    exact hname
  exact (Splitting.mem_split_on (· == '/') (joinNames names) name hpiece c hc).2

theorem Shown.nuls {bytes : FileBytes} (h : Shown folding tree names bytes) :
    nul ∉ joinNames names := by
  intro hnul
  rcases join_mem names nul hnul with hslash | ⟨name, hname, hc⟩
  · exact absurd hslash (by decide)
  · exact (h.valid name hname).nuls hc

theorem Shown.spelled {bytes : FileBytes} (h : Shown folding tree names bytes)
    (hcolon : ':' ∉ joinNames names) (hback : '\\' ∉ joinNames names) :
    Spelled tree.fs tree.root names := by
  refine ⟨?_, h.nonempty, ?_⟩
  · intro name hname
    have hvalid := h.valid name hname
    refine ⟨hvalid.ordinary, ?_, fun hc => hcolon (h.spells name hname _ hc), hvalid.nuls⟩
    intro c hc
    have hslash : c ≠ '/' := fun heq => hvalid.slashless (heq ▸ hc)
    have hother : c ≠ '\\' := fun heq => hback (heq ▸ h.spells name hname c hc)
    simp [isSeparator, hslash, hother]
  · rw [← List.dropLast_append_of_ne_nil h.nonempty]
    exact h.resolved.parent

theorem Shown.resolves_iff {bytes : FileBytes} (h : Shown folding tree names bytes) :
    resolveWorkspacePath tree.fs tree.root (joinNames names) =
      .ok ⟨joinNames names, tree.root ++ names⟩ ↔ Spellable tree (joinNames names) := by
  have hsplit := slash_split h.valid h.nonempty
  have hiff := resolve_iff tree.opened (joinNames names) (tree.root ++ names)
  rw [relative_below tree.root h.nonempty] at hiff
  constructor
  · intro hresolve
    obtain ⟨_, _, habsolute, hcolon, hbelow, hfound, _⟩ := hiff.mp hresolve
    refine ⟨hcolon, fun _ => ⟨habsolute, hbelow, ?_⟩⟩
    rw [hsplit]
    exact hfound
  · intro hspell
    by_cases hback : '\\' ∈ joinNames names
    · obtain ⟨habsolute, hbelow, hfound⟩ := hspell.backslashes hback
      rw [hsplit] at hfound
      exact hiff.mpr ⟨h.nuls, List.ne_nil_of_mem hback, habsolute, hspell.colons, hbelow, hfound,
        List.prefix_append _ _⟩
    · exact (h.spelled hspell.colons hback).resolves h.resolved.present

section Undenied

variable (contentHex : FileBytes → Text) (sha256Hex : Text → Text) (lowercase : Text → Text)

theorem read_lines_undenied (input : ReadInput) (limits : InspectionLimits) (path sha256 : Text)
    (revision : Option Text) (text message : Text) :
    readLines input limits path sha256 revision text ≠ .denied message := by
  unfold readLines
  dsimp only
  split
  · simp
  · split
    · simp
    · split <;> simp

theorem read_regular_undenied (input : ReadInput) (limits : InspectionLimits)
    (revisions : Option WorkspaceRevisionRegistry) (path message : Text) (node : Option Node) :
    (readRegular contentHex sha256Hex lowercase input limits revisions path node).1 ≠
      .denied message := by
  unfold readRegular
  split
  · split
    · simp
    · split
      · simp
      · split
        · simp
        · unfold readText
          dsimp only
          split
          · exact read_lines_undenied _ _ _ _ _ _ _
          · split <;> simp
  · simp
  · simp

end Undenied

theorem Shown.readable_iff {bytes : FileBytes} (h : Shown folding tree names bytes) :
    Readable folding tree (joinNames names) (tree.root ++ names) ↔
      Spellable tree (joinNames names) := by
  rw [← h.resolves_iff]
  constructor
  · intro hreadable
    exact hreadable.resolves
  · intro hresolve
    refine ⟨hresolve, ?_⟩
    intro contentHex sha256Hex lowercase input limits revisions cancelled message hpath
    have hguard : guardPath folding insideExcluded (joinNames names) = none := by
      rw [guard_none, ← relative_below tree.root h.nonempty,
        first_excluded folding tree.root h.valid, relative_below tree.root h.nonempty]
      exact ⟨h.included, h.visible⟩
    rw [readFile, hpath, hresolve]
    dsimp only
    rw [hguard]
    dsimp only
    split
    · simp
    · exact read_regular_undenied _ _ _ _ _ _ _ _ _

end Siralos.Inspection
