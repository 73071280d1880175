import Siralos.Mutation
import Siralos.Splitting

/-!
# Canonical workspace-relative paths

A path that a mutation resolved is spelled with plain component names. Such a spelling is read
back, resolved and inspected as the file it names.
-/

set_option autoImplicit false

namespace Siralos.Workspace

open Siralos.Checkpoint

/-- A component that neither a separator nor a reserved character stands in. -/
structure PlainName (name : Text) : Prop where
  ordinary : Ordinary name
  separators : ∀ c ∈ name, isSeparator c = false
  colons : ':' ∉ name
  nuls : nul ∉ name

theorem join_cons (name : Text) (names : List Text) (h : names ≠ []) :
    joinNames (name :: names) = name ++ '/' :: joinNames names := by
  cases names with
  | nil => exact absurd rfl h
  | cons next rest => simp [joinNames, List.intercalate_cons_cons]

theorem join_snoc (names : List Text) (name : Text) (h : names ≠ []) :
    joinNames (names ++ [name]) = joinNames names ++ '/' :: name := by
  induction names with
  | nil => exact absurd rfl h
  | cons first rest ih =>
    cases rest with
    | nil => simp [joinNames, List.intercalate_cons_cons]
    | cons next rest =>
      rw [List.cons_append, join_cons first (next :: rest ++ [name]) (by simp), ih (by simp),
        join_cons first (next :: rest) (by simp), List.append_assoc, List.cons_append]

theorem split_join (p : Char → Bool) (names : List Text) (hslash : p '/' = true)
    (hnames : ∀ name ∈ names, ∀ c ∈ name, p c = false) (hne : names ≠ []) :
    (joinNames names).splitOnP p = names := by
  induction names with
  | nil => exact absurd rfl hne
  | cons name rest ih =>
    by_cases hrest : rest = []
    · subst hrest
      have hname : joinNames [name] = name := by simp [joinNames]
      rw [hname]
      exact List.splitOnP_eq_singleton (hnames name (by simp))
    · rw [join_cons name rest hrest,
        List.splitOnP_append_cons_of_forall_mem (hnames name (by simp)) '/' hslash,
        ih (fun other hother => hnames other (List.mem_cons_of_mem _ hother)) hrest]

theorem split_last_append (p : Char → Bool) (before after : Text) (c : Char) (hc : p c = true)
    (hafter : ∀ d ∈ after, p d = false) :
    splitLast p (before ++ c :: after) = some (before, after) := by
  have hany : (before ++ c :: after).any p = true := by simp [hc]
  have hdrop : (before ++ c :: after).rdropWhile (fun c => !p c) = before ++ [c] := by
    induction after using List.reverseRecOn with
    | nil => exact List.rdropWhile_concat_neg _ _ _ (by simp [hc])
    | append_singleton after d ih =>
      rw [show before ++ c :: (after ++ [d]) = (before ++ c :: after) ++ [d] by simp,
        List.rdropWhile_concat_pos _ _ _ (by simp [hafter d (by simp)])]
      exact ih (fun e he => hafter e (by simp [he])) (by simp [hc])
  have htake : (before ++ c :: after).rtakeWhile (fun c => !p c) = after := by
    have happend := List.rdropWhile_append_rtakeWhile (p := fun c => !p c)
      (l := before ++ c :: after)
    rw [hdrop] at happend
    simpa using happend
  rw [splitLast, if_pos hany, hdrop, htake]
  simp

theorem split_last_none (p : Char → Bool) (value : Text) (h : ∀ c ∈ value, p c = false) :
    splitLast p value = none := by
  have hany : value.any p = false := by simpa using h
  simp [splitLast, hany]

theorem join_mem (names : List Text) (c : Char) (h : c ∈ joinNames names) :
    c = '/' ∨ ∃ name ∈ names, c ∈ name := by
  induction names with
  | nil => simp [joinNames] at h
  | cons name rest ih =>
    by_cases hrest : rest = []
    · subst hrest
      exact .inr ⟨name, by simp, by simpa [joinNames] using h⟩
    · rw [join_cons name rest hrest] at h
      rcases List.mem_append.mp h with h | h
      · exact .inr ⟨name, by simp, h⟩
      · rcases List.mem_cons.mp h with rfl | h
        · exact .inl rfl
        · rcases ih h with hslash | ⟨other, hother, hc⟩
          · exact .inl hslash
          · exact .inr ⟨other, List.mem_cons_of_mem _ hother, hc⟩

theorem join_component_mem (out : Path) (components : List Text) (name : Text)
    (h : name ∈ components.foldl joinComponent out) :
    name ∈ out ∨ (name ∈ components ∧ Ordinary name) := by
  induction components generalizing out with
  | nil => exact .inl h
  | cons first rest ih =>
    rcases ih _ h with hout | ⟨hmem, hordinary⟩
    · unfold joinComponent at hout
      split at hout
      · exact .inl hout
      · rename_i hskip
        split at hout
        · exact .inl (List.mem_of_mem_dropLast hout)
        · rename_i hup
          rcases List.mem_append.mp hout with hout | hnew
          · exact .inl hout
          · have hfirst : name = first := by simpa using hnew
            subst hfirst
            exact .inr ⟨by simp, fun h => hskip (.inl h), fun h => hskip (.inr h), hup⟩
    · exact .inr ⟨List.mem_cons_of_mem _ hmem, hordinary⟩

theorem join_component_ordinary (out names : List Text) (h : ∀ name ∈ names, Ordinary name) :
    names.foldl joinComponent out = out ++ names := by
  induction names generalizing out with
  | nil => simp
  | cons name rest ih =>
    obtain ⟨hempty, hdot, hup⟩ := h name (by simp)
    have hjoin : joinComponent out name = out ++ [name] := by
      rw [joinComponent, if_neg (by rintro (h | h); exacts [hempty h, hdot h]), if_neg hup]
    rw [List.foldl_cons, hjoin, ih _ fun other hother => h other (List.mem_cons_of_mem _ hother)]
    simp

/-- Names below the root that spell a canonical path. -/
structure Spelled (fs : FileSystem) (root : Path) (names : List Text) : Prop where
  plain : ∀ name ∈ names, PlainName name
  nonempty : names ≠ []
  parent : RealDirectory fs.node (root ++ names.dropLast)

theorem Spelled.split {fs : FileSystem} {root : Path} {names : List Text}
    (h : Spelled fs root names) : ∃ init leaf, names = init ++ [leaf] := by
  obtain ⟨init, leaf, hnames⟩ := List.eq_nil_or_concat'  names |>.resolve_left h.nonempty
  exact ⟨init, leaf, hnames⟩

theorem plain_not_absolute (names : List Text) (hplain : ∀ name ∈ names, PlainName name)
    (hne : names ≠ []) : isAbsolutePattern (joinNames names) = false := by
  cases names with
  | nil => exact absurd rfl hne
  | cons name rest =>
    have hname := hplain name (by simp)
    have htail : joinNames (name :: rest) = name ∨
        joinNames (name :: rest) = name ++ '/' :: joinNames rest := by
      by_cases hrest : rest = []
      · left
        simp [hrest, joinNames]
      · exact .inr (join_cons name rest hrest)
    cases name with
    | nil => exact absurd rfl hname.ordinary.1
    | cons c cs =>
      have hc := hname.separators c (by simp)
      have hcolon : ∀ d ∈ cs, d ≠ ':' := by
        intro d hd heq
        exact hname.colons (heq ▸ List.mem_cons_of_mem _ hd)
      rcases htail with htail | htail
      · rw [htail]
        cases cs with
        | nil => simpa [isAbsolutePattern] using hc
        | cons d ds => simp [isAbsolutePattern, hc, hcolon d (by simp)]
      · rw [htail]
        cases cs with
        | nil => simp [isAbsolutePattern, hc]
        | cons d ds => simp [isAbsolutePattern, hc, hcolon d (by simp)]

theorem plain_valid (names : List Text) (hplain : ∀ name ∈ names, PlainName name)
    (hne : names ≠ []) : validateRelativePath (joinNames names) = .ok () := by
  have hnul : (joinNames names).contains nul = false := by
    rw [List.contains_eq_mem, decide_eq_false_iff_not]
    intro hmem
    rcases join_mem names nul hmem with hslash | ⟨name, hname, hc⟩
    · exact absurd hslash (by decide)
    · exact (hplain name hname).nuls hc
  have hsplit : splitSeparators (joinNames names) = names :=
    split_join isSeparator names rfl (fun name hname => (hplain name hname).separators) hne
  have hempty : (joinNames names).isEmpty = false := by
    rw [List.isEmpty_eq_false_iff]
    intro hnil
    rw [hnil] at hsplit
    have hname := hplain [] (by rw [← hsplit]; simp [splitSeparators])
    exact hname.ordinary.1 rfl
  have hup : (splitSeparators (joinNames names)).any (fun c => c == ['.', '.']) = false := by
    rw [hsplit, List.any_eq_false]
    intro name hname heq
    exact (hplain name hname).ordinary.2.2 (by simpa using heq)
  rw [validateRelativePath, hnul, hempty, plain_not_absolute names hplain hne, hup]
  simp

theorem walk_names_through (node : Path → Option Node) (follow : Path → List Text → Option Path)
    (here names rest : List Text) (h : RealDirectory node (here ++ names)) :
    walkNames node follow here (names ++ rest) = walkNames node follow (here ++ names) rest := by
  induction names generalizing here with
  | nil => simp
  | cons name names ih =>
    obtain ⟨hempty, hdot, hup⟩ := h.ordinary name (by simp)
    have hdir : node (here ++ [name]) = some .directory :=
      h.directories _ ⟨names, by simp⟩
    rw [List.cons_append, walkNames,
      if_neg (by rintro (h | h); exacts [hempty h, hdot h]), if_neg hup, hdir]
    have hnext := ih (here ++ [name]) (by simpa using h)
    simpa using hnext

theorem canonicalize_dot (fs : FileSystem) (root : Path) (h : RealDirectory fs.node root) :
    fs.canonicalize (root ++ [['.']]) = some root := by
  have hwalk : ∀ follow, walkNames fs.node follow [] (root ++ [['.']]) = some root := by
    intro follow
    rw [walk_names_through fs.node follow [] root [['.']] (by simpa using h)]
    simp [walkNames]
  exact hwalk _

variable {fs : FileSystem} {root : Path} {names : List Text}

theorem Spelled.root_directory (h : Spelled fs root names) : RealDirectory fs.node root where
  directories q hq := h.parent.directories q (hq.trans (List.prefix_append _ _))
  ordinary name hname := h.parent.ordinary name (by simp [hname])

theorem Spelled.lstat (h : Spelled fs root names) :
    ∃ init leaf, names = init ++ [leaf] ∧ fs.lstat (root ++ init) leaf = fs.node (root ++ names) ∧
      ∃ parent, (splitLast (· == '/') (joinNames names)).getD (['.'], joinNames names) =
        (parent, leaf) ∧ fs.canonicalize (root ++ parent.splitOn '/') = some (root ++ init) := by
  obtain ⟨init, leaf, rfl⟩ := h.split
  have hparent : RealDirectory fs.node (root ++ init) := by simpa using h.parent
  have hleaf := h.plain leaf (by simp)
  have hslash : ∀ name ∈ init ++ [leaf], ∀ c ∈ name, (c == '/') = false := by
    intro name hname c hc
    have hsep := (h.plain name hname).separators c hc
    unfold isSeparator at hsep
    exact (Bool.or_eq_false_iff.mp hsep).1
  refine ⟨init, leaf, rfl, ?_, ?_⟩
  · have hdir := hparent.directories (root ++ init) List.prefix_rfl
    simp only [FileSystem.lstat, hdir]
    rw [if_neg (by rintro (h | h); exacts [hleaf.ordinary.1 h, hleaf.ordinary.2.1 h]),
      List.append_assoc]
  · by_cases hinit : init = []
    · subst hinit
      refine ⟨['.'], ?_, ?_⟩
      · have hname : joinNames ([] ++ [leaf]) = leaf := by simp [joinNames]
        rw [hname, split_last_none _ _ (hslash leaf (by simp))]
        rfl
      · have hdot : List.splitOn '/' ['.'] = [['.']] := by decide
        rw [hdot, List.append_nil]
        exact canonicalize_dot fs root (by simpa using hparent)
    · refine ⟨joinNames init, ?_, ?_⟩
      · rw [join_snoc init leaf hinit,
          split_last_append _ _ _ '/' rfl (hslash leaf (by simp))]
        rfl
      · have hsplit : (joinNames init).splitOn '/' = init :=
          split_join (· == '/') init rfl (fun name hname => hslash name (by simp [hname])) hinit
        rw [hsplit]
        exact fs.canonicalize_of_resolved _ hparent.resolved

theorem Spelled.resolves (h : Spelled fs root names)
    (hpresent : ∃ n, fs.node (root ++ names) = some n ∧ ∀ target, n ≠ .link target) :
    resolveWorkspacePath fs root (joinNames names) =
      .ok ⟨joinNames names, root ++ names⟩ := by
  have hvalid := plain_valid names h.plain h.nonempty
  have hsplit : splitSeparators (joinNames names) = names :=
    split_join isSeparator names rfl (fun name hname => (h.plain name hname).separators) h.nonempty
  have hcolons : names.any (fun c => c.contains ':') = false := by
    rw [List.any_eq_false]
    intro name hname
    simpa using (h.plain name hname).colons
  have hordinary : ∀ name ∈ names, Ordinary name := fun name hname => (h.plain name hname).ordinary
  have hresolved : Resolved fs.node (root ++ names) := by
    refine ⟨?_, ?_, hpresent⟩
    · rw [List.dropLast_append_of_ne_nil h.nonempty]
      exact h.parent
    · intro name hname
      rcases List.mem_append.mp hname with hroot | hname
      · exact h.root_directory.ordinary name hroot
      · exact hordinary name hname
  have hrelative : relativeOf root (root ++ names) = joinNames names := by
    have hne : root ++ names ≠ root := by simpa using h.nonempty
    rw [relativeOf, if_neg hne, List.drop_left]
  have hjoin : normalizeJoin root (joinNames names) = root ++ names := by
    rw [normalizeJoin, hsplit, join_component_ordinary root names hordinary]
  have hbelow : root.isPrefixOf (root ++ names) = true :=
    List.isPrefixOf_iff_prefix.mpr (List.prefix_append _ _)
  unfold validateRelativePath at hvalid
  unfold resolveWorkspacePath
  split at hvalid
  · cases hvalid
  split at hvalid
  · cases hvalid
  split at hvalid
  · cases hvalid
  rename_i hnul hempty habsolute
  rw [if_neg hnul, if_neg hempty, if_neg habsolute, hsplit, hcolons,
    fs.canonicalize_of_resolved root h.root_directory.resolved]
  simp [hjoin, hbelow, fs.canonicalize_of_resolved _ hresolved, hrelative]

theorem Spelled.reads (sha256Hex : FileBytes → Text) (maxStateBytes : ℕ)
    (h : Spelled fs root names) :
    readWorkspaceFileState sha256Hex fs root (joinNames names) maxStateBytes =
      nodeState sha256Hex maxStateBytes (fs.node (root ++ names)) := by
  obtain ⟨init, leaf, _, hlstat, parent, hsplit, hcanonical⟩ := h.lstat
  have hbelow : root.isPrefixOf (root ++ init) = true :=
    List.isPrefixOf_iff_prefix.mpr (List.prefix_append _ _)
  unfold readWorkspaceFileState
  rw [plain_valid names h.plain h.nonempty,
    fs.canonicalize_of_resolved root h.root_directory.resolved]
  simp only [hsplit, hcanonical, hbelow, hlstat, Bool.not_true, Bool.false_eq_true, if_false]

/-- The root of an opened store is a real directory, spelled canonically. -/
abbrev Opened (fs : FileSystem) (root : Path) : Prop := RealDirectory fs.node root

theorem asked_plain (requested : Text) (hnul : requested.contains nul = false)
    (hcolons : (splitSeparators requested).any (fun c => c.contains ':') = false) :
    ∀ name ∈ (splitSeparators requested).foldl joinComponent [], PlainName name := by
  intro name hname
  rcases join_component_mem [] (splitSeparators requested) name hname with hnil | ⟨hmem, hord⟩
  · cases hnil
  · have hpiece := Splitting.mem_split_on isSeparator requested name hmem
    refine ⟨hord, fun c hc => (hpiece c hc).1, ?_, ?_⟩
    · intro hcolon
      have hany := List.any_eq_false.mp hcolons name hmem
      simp [hcolon] at hany
    · intro hmem'
      have hin := (hpiece nul hmem').2
      simp [hin] at hnul

theorem resolve_ok (requested : Text) (resolved : ResolvedWorkspacePath) (hroot : Opened fs root)
    (h : resolveWorkspacePath fs root requested = .ok resolved) :
    requested.contains nul = false ∧
      (splitSeparators requested).any (fun c => c.contains ':') = false ∧
      root <+: resolved.absolutePath ∧
      Resolved fs.node resolved.absolutePath ∧
      resolved.workspaceRelativePath = relativeOf root resolved.absolutePath := by
  unfold resolveWorkspacePath at h
  rw [fs.canonicalize_of_resolved root hroot.resolved] at h
  split at h
  · cases h
  rename_i hnul
  split at h
  · cases h
  split at h
  · cases h
  split at h
  · cases h
  rename_i hcolons
  dsimp only at h
  split at h
  · cases h
  split at h
  · cases h
  rename_i target htarget
  split at h
  · cases h
  rename_i hbelow
  cases h
  refine ⟨by simpa using hnul, by simpa using hcolons, ?_, fs.canonicalize_resolved _ _ htarget,
    rfl⟩
  exact List.isPrefixOf_iff_prefix.mp (by simpa using hbelow)

theorem require_name (requested : Text) (resolved : Path)
    (h : requireRequestedParentName root requested resolved = true) :
    resolved = root ++ (splitSeparators requested).foldl joinComponent [] := by
  obtain ⟨hbelow, hnames⟩ := Bool.and_eq_true_iff.mp h
  obtain ⟨rest, rfl⟩ := List.isPrefixOf_iff_prefix.mp hbelow
  rw [beq_iff_eq.mp hnames, List.drop_left]

theorem resolve_spelled (requested : Text) (resolved : ResolvedWorkspacePath)
    (hroot : Opened fs root) (h : resolveWorkspacePath fs root requested = .ok resolved)
    (hname : requireRequestedParentName root requested resolved.absolutePath = true)
    (bytes : FileBytes) (hfile : fs.node resolved.absolutePath = some (.file bytes)) :
    ∃ names, resolved.absolutePath = root ++ names ∧
      resolved.workspaceRelativePath = joinNames names ∧ Spelled fs root names := by
  obtain ⟨hnul, hcolons, _, hresolved, hrelative⟩ := resolve_ok requested resolved hroot h
  have hplain := asked_plain requested hnul hcolons
  have htarget := require_name requested resolved.absolutePath hname
  have hne : (splitSeparators requested).foldl joinComponent [] ≠ [] := by
    intro hnil
    rw [htarget, hnil, List.append_nil, hroot.directories root List.prefix_rfl] at hfile
    cases hfile
  refine ⟨_, htarget, ?_, hplain, hne, ?_⟩
  · rw [hrelative, htarget, relativeOf, if_neg (by simpa using hne), List.drop_left]
  · rw [← List.dropLast_append_of_ne_nil hne, ← htarget]
    exact hresolved.parent

theorem resolved_directory {node : Path → Option Node} {path : Path} (h : Resolved node path)
    (hdirectory : node path = some .directory) : RealDirectory node path where
  directories q hq := by
    induction path using List.reverseRecOn with
    | nil =>
      rw [List.prefix_nil.mp hq]
      exact hdirectory
    | append_singleton init name _ =>
      rcases List.prefix_concat_iff.mp hq with rfl | hq
      · exact hdirectory
      · have hparent := h.parent
        rw [List.dropLast_concat] at hparent
        exact hparent.directories q hq
  ordinary := h.ordinary

theorem split_last_some (p : Char → Bool) (value before after : Text)
    (h : splitLast p value = some (before, after)) :
    (∀ c ∈ after, p c = false) ∧ (∀ c ∈ before, c ∈ value) ∧ ∀ c ∈ after, c ∈ value := by
  unfold splitLast at h
  split at h
  · cases h
    refine ⟨?_, ?_, ?_⟩
    · intro c hc
      simpa using List.mem_rtakeWhile_imp hc
    · intro c hc
      exact (List.rdropWhile_prefix _ _).subset (List.mem_of_mem_dropLast hc)
    · intro c hc
      exact (List.rtakeWhile_suffix _ _).subset hc
  · cases h

theorem split_requested (requested : Text) :
    (∀ c ∈ (splitRequestedParent requested).2, isSeparator c = false ∧ c ∈ requested) ∧
      ∀ c ∈ (splitRequestedParent requested).1, c = '.' ∨ c ∈ requested := by
  unfold splitRequestedParent
  cases hsplit : splitLast isSeparator requested with
  | none =>
    have hnone : ∀ c ∈ requested, isSeparator c = false := by
      unfold splitLast at hsplit
      split at hsplit
      · cases hsplit
      · rename_i hany
        simpa using hany
    exact ⟨fun c hc => ⟨hnone c hc, hc⟩, fun c hc => .inl (by simpa using hc)⟩
  | some parts =>
    obtain ⟨hleaf, hparent, hmem⟩ := split_last_some _ _ _ _ hsplit
    exact ⟨fun c hc => ⟨hleaf c hc, hmem c hc⟩, fun c hc => .inr (hparent c hc)⟩

theorem create_target_ok (requested : Text) (target : PendingTarget)
    (h : resolveCreateTarget fs root requested = .ok target) :
    requested.contains nul = false ∧ Ordinary target.leaf ∧ ':' ∉ target.leaf ∧
      target.leaf = (splitRequestedParent requested).2 ∧
      ∃ parent resolved, resolveWorkspacePath fs root parent = .ok resolved ∧
        resolved.absolutePath = target.parent ∧
        (parent = (splitRequestedParent requested).1 ∨ (splitRequestedParent requested).1 = []) := by
  unfold resolveCreateTarget at h
  split at h
  · cases h
  rename_i hnul
  split at h
  · cases h
  split at h
  · cases h
  dsimp only at h
  split at h
  · cases h
  rename_i hleaf
  split at h
  · cases h
  split at h
  · cases h
  rename_i resolved hresolved
  cases h
  rw [not_or, not_or, not_or] at hleaf
  obtain ⟨hempty, hdot, hup, hcolon⟩ := hleaf
  refine ⟨by simpa using hnul, ⟨hempty, hdot, hup⟩, by simpa using hcolon, rfl, _, resolved,
    hresolved, rfl, ?_⟩
  by_cases hparent : (splitRequestedParent requested).1 = ['.'] ∨
      (splitRequestedParent requested).1 = []
  · rw [if_pos hparent]
    rcases hparent with hdot | hnil
    · exact .inl hdot.symm
    · exact .inr hnil
  · rw [if_neg hparent]
    exact .inl rfl

theorem create_spelled (requested relative : Text) (target : PendingTarget)
    (hroot : Opened fs root) (h : resolveCreateTarget fs root requested = .ok target)
    (hname : requireRequestedParentName root (splitRequestedParent requested).1 target.parent = true)
    (hrelative : createRelative root target.parent target.leaf = some relative)
    (hdirectory : fs.node target.parent = some .directory) :
    ∃ names, target.parent ++ [target.leaf] = root ++ names ∧ relative = joinNames names ∧
      Spelled fs root names := by
  obtain ⟨hnul, hordinary, hcolon, hleaf, parent, resolved, hresolve, htarget, hparent⟩ :=
    create_target_ok requested target h
  obtain ⟨hparentNul, hparentColons, _, hresolved, _⟩ := resolve_ok parent resolved hroot hresolve
  have hasked := require_name _ _ hname
  have hplain : ∀ name ∈ (splitSeparators (splitRequestedParent requested).1).foldl joinComponent [],
      PlainName name := by
    rcases hparent with rfl | hnil
    · exact asked_plain _ hparentNul hparentColons
    · rw [hnil]
      have hempty : (splitSeparators []).foldl joinComponent [] = [] := by decide
      simp [hempty]
  have hleafSeparators := (split_requested requested).1
  rw [← hleaf] at hleafSeparators
  have hleafPlain : PlainName target.leaf := by
    refine ⟨hordinary, fun c hc => (hleafSeparators c hc).1, hcolon, ?_⟩
    intro hmem
    have hin := (hleafSeparators nul hmem).2
    simp [hin] at hnul
  rw [htarget] at hresolved
  have hreal := resolved_directory hresolved hdirectory
  refine ⟨(splitSeparators (splitRequestedParent requested).1).foldl joinComponent [] ++
    [target.leaf], by rw [hasked, List.append_assoc], ?_, ?_, by simp, ?_⟩
  · unfold createRelative at hrelative
    split at hrelative
    · cases hrelative
      rw [hasked, List.drop_left]
    · cases hrelative
  · intro name hmem
    rcases List.mem_append.mp hmem with hold | hnew
    · exact hplain name hold
    · rw [List.mem_singleton.mp hnew]
      exact hleafPlain
  · rw [List.dropLast_concat, ← hasked]
    exact hreal

end Siralos.Workspace
