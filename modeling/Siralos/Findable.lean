import Siralos.Listing
import Siralos.Traversal

/-!
# What can be found can be read

A file that list or search shows is read under the path shown exactly when requests can spell that
path; a file that is read stands in every complete listing of its directory.
-/

set_option autoImplicit false

namespace Siralos.Inspection

open Workspace Checkpoint Revision

variable {folding : Folding} {tree : WorkspaceTree} {names : List Text}

section Accepted

variable (contentHex : FileBytes → Text) (sha256Hex : Text → Text) (lowercase : Text → Text)

theorem read_lines_accepted {input : ReadInput} {limits : InspectionLimits} {path sha256 : Text}
    {revision : Option Text} {text accepted : Text}
    (h : (readLines input limits path sha256 revision text).accepted = some accepted) :
    accepted = path := by
  unfold readLines at h
  dsimp only at h
  split at h
  · cases h
  · split at h
    · cases h
    · split at h
      · exact (Option.some.inj h).symm
      · exact (Option.some.inj h).symm

theorem read_regular_accepted {input : ReadInput} {limits : InspectionLimits}
    {revisions : Option WorkspaceRevisionRegistry} {path accepted : Text} {node : Option Node}
    (h : (readRegular contentHex sha256Hex lowercase input limits revisions path
      node).1.accepted = some accepted) :
    accepted = path ∧ ∃ bytes, node = some (.file bytes) := by
  unfold readRegular at h
  split at h
  · rename_i bytes
    refine ⟨?_, bytes, rfl⟩
    split at h
    · cases h
    · split at h
      · cases h
      · split at h
        · cases h
        · unfold readText at h
          dsimp only at h
          split at h
          · exact read_lines_accepted h
          · split at h
            · exact (Option.some.inj h).symm
            · exact (Option.some.inj h).symm
  · cases h
  · cases h

theorem read_shows {input : ReadInput} {limits : InspectionLimits}
    {revisions : Option WorkspaceRevisionRegistry} {cancelled : Bool} {path : Text}
    (h : (readFile contentHex sha256Hex lowercase folding tree input limits revisions
      cancelled).1.accepted = some path) :
    ∃ names bytes, resolveWorkspacePath tree.fs tree.root input.path =
        .ok ⟨path, tree.root ++ names⟩ ∧
      path = joinNames names ∧ Shown folding tree names bytes := by
  unfold readFile at h
  split at h
  · cases h
  rename_i resolved hresolve
  split at h
  · cases h
  rename_i hguard
  split at h
  · cases h
  obtain ⟨rfl, bytes, hfile⟩ := read_regular_accepted contentHex sha256Hex lowercase h
  obtain ⟨names, rfl, hresolved, hincluded⟩ := entered_start hresolve hguard
  have hne : names ≠ [] := by
    rintro rfl
    rw [List.append_nil, tree.opened.directories tree.root List.prefix_rfl] at hfile
    cases hfile
  refine ⟨names, bytes, hresolve, relative_below tree.root hne, hne, hresolved, hfile, hincluded,
    ?_⟩
  rw [← relative_below tree.root hne]
  exact ((guard_none folding _ _).mp hguard).2

end Accepted

theorem join_below (root out : Path) (components : List Text) (name : Text)
    (h : name ∈ (components.foldl joinComponent out).drop root.length) :
    name ∈ out.drop root.length ∨ name ∈ components := by
  induction components generalizing out with
  | nil => exact .inl h
  | cons component rest ih =>
    rcases ih _ h with hout | hrest
    · unfold joinComponent at hout
      split at hout
      · exact .inl hout
      · split at hout
        · exact .inl (((List.dropLast_prefix out).drop root.length).subset hout)
        · rcases List.mem_append.mp (List.drop_append ▸ hout) with hold | hnew
          · exact .inl hold
          · right
            have hname : name = component := List.mem_singleton.mp (List.mem_of_mem_drop hnew)
            simp [hname]
    · exact .inr (List.mem_cons_of_mem _ hrest)

theorem join_ordinary (root : Path) (requested : Text) (hroot : ∀ name ∈ root, Ordinary name) :
    ∀ name ∈ normalizeJoin root requested, Ordinary name := by
  intro name hname
  rcases join_component_mem root (splitSeparators requested) name hname with hold | ⟨_, hordinary⟩
  · exact hroot name hold
  · exact hordinary

theorem walk_names_unlinked (node : Path → Option Node)
    (hlinks : ∀ path target, node path ≠ some (.link target))
    (follow : Path → List Text → Option Path) (here : Path) (names : List Text) (p : Path)
    (hordinary : ∀ name ∈ names, Ordinary name) (h : walkNames node follow here names = some p) :
    p = here ++ names := by
  induction names generalizing here with
  | nil =>
    cases h
    simp
  | cons name rest ih =>
    obtain ⟨hempty, hdot, hup⟩ := hordinary name (by simp)
    have hrest : ∀ other ∈ rest, Ordinary other := fun other hother =>
      hordinary other (List.mem_cons_of_mem _ hother)
    rw [walkNames, if_neg (by rintro (h | h); exacts [hempty h, hdot h]), if_neg hup] at h
    cases hnode : node (here ++ [name]) with
    | none => simp [hnode] at h
    | some n =>
      rw [hnode] at h
      cases n with
      | directory => simpa using ih (here ++ [name]) hrest h
      | link target => exact absurd hnode (hlinks _ _)
      | file bytes =>
        dsimp only at h
        split at h
        · rename_i hlast
          cases h
          simp [hlast]
        · cases h
      | special =>
        dsimp only at h
        split at h
        · rename_i hlast
          cases h
          simp [hlast]
        · cases h

/-- Only a link leads back to a name with a backslash. -/
theorem spellable_unlinked {bytes : FileBytes} (h : Shown folding tree names bytes)
    (hlinks : ∀ path target, tree.fs.node path ≠ some (.link target)) :
    Spellable tree (joinNames names) ↔ ':' ∉ joinNames names ∧ '\\' ∉ joinNames names := by
  constructor
  · intro hspell
    refine ⟨hspell.colons, fun hback => ?_⟩
    have hleads := hspell.backslashes hback
    have hwalk := hleads.back
    rw [slash_split h.valid h.nonempty] at hwalk
    have hsame : tree.root ++ names = normalizeJoin tree.root (joinNames names) := by
      have harrive := walk_names_unlinked tree.fs.node hlinks _ [] _ _
        (join_ordinary tree.root _ tree.opened.ordinary) hwalk
      simpa using harrive
    rcases join_mem names '\\' hback with hslash | ⟨name, hname, hc⟩
    · exact absurd hslash (by decide)
    · have hdrop : name ∈ (normalizeJoin tree.root (joinNames names)).drop tree.root.length := by
        rw [← hsame, List.drop_left]
        exact hname
      rcases join_below tree.root tree.root _ name hdrop with hold | hpiece
      · simp at hold
      · have hsep := (Splitting.mem_split_on isSeparator (joinNames names) name hpiece '\\' hc).1
        exact absurd hsep (by decide)
  · rintro ⟨hcolon, hback⟩
    exact ⟨hcolon, fun hmem => absurd hmem hback⟩

theorem found_readable_iff (folding : Folding) (tree : WorkspaceTree) :
    (∀ requested limits path entries truncated,
      listDirectory folding tree requested limits = .success path entries truncated →
      ∀ entry ∈ entries, ∀ size, entry.kind = .file size →
        ∃ directory, resolveWorkspacePath tree.fs tree.root requested = .ok ⟨path, directory⟩ ∧
          (Readable folding tree entry.path (directory ++ [entry.name]) ↔
            Spellable tree entry.path)) ∧
    (∀ input limits control query path matched scannedFiles skippedFiles truncated reason,
      search folding tree input limits control =
        .success query path matched scannedFiles skippedFiles truncated reason →
      ∀ found ∈ matched, ∃ text,
        tree.fs.node (tree.root ++ found.path.splitOn '/') = some (.file (.text text)) ∧
          MatchedIn input limits (found.path.splitOn '/') text found ∧
          (Readable folding tree found.path (tree.root ++ found.path.splitOn '/') ↔
            Spellable tree found.path)) ∧
    ∀ contentHex sha256Hex lowercase input limits revisions cancelled path,
      (readFile contentHex sha256Hex lowercase folding tree input limits revisions
        cancelled).1.accepted = some path →
      ∃ parent name bytes,
        resolveWorkspacePath tree.fs tree.root input.path =
          .ok ⟨path, tree.root ++ parent ++ [name]⟩ ∧
        tree.fs.node (tree.root ++ parent ++ [name]) = some (.file bytes) ∧
        ∀ requested limits entries,
          listDirectory folding tree requested limits =
            .success (relativeOf tree.root (tree.root ++ parent)) entries false →
          ⟨name, path, .file bytes.length⟩ ∈ entries := by
  refine ⟨?_, ?_, ?_⟩
  · intro requested limits path entries truncated h entry hentry size hkind
    obtain ⟨names, visible, hlisted⟩ := list_shows h
    obtain ⟨hpath, bytes, hshown⟩ := hlisted.entry entry hentry size hkind
    refine ⟨tree.root ++ names, hlisted.resolves, ?_⟩
    rw [hpath, List.append_assoc]
    exact hshown.readable_iff
  · intro input limits control query path matched scannedFiles skippedFiles truncated reason h
      found hfound
    obtain ⟨start, hreported⟩ := search_reports tree.enumerate h
    obtain ⟨names, -, text, hfile, hmatched⟩ := hreported.located found hfound
    have hshown := hfile.shown
    have hpath : found.path = joinNames names := by
      obtain ⟨_, _, _, _, _, rfl⟩ := hmatched
      rfl
    rw [hpath, slash_split hshown.valid hshown.nonempty]
    exact ⟨text, hshown.file, hmatched, hshown.readable_iff⟩
  · intro contentHex sha256Hex lowercase input limits revisions cancelled path h
    obtain ⟨names, bytes, hresolve, rfl, hshown⟩ := read_shows contentHex sha256Hex lowercase h
    obtain ⟨parent, name, rfl⟩ := List.eq_nil_or_concat' names |>.resolve_left hshown.nonempty
    refine ⟨parent, name, bytes, ?_, ?_, ?_⟩
    · rw [List.append_assoc]
      exact hresolve
    · rw [List.append_assoc]
      exact hshown.file
    · intro requested limits entries hlist
      obtain ⟨names, visible, hlisted⟩ := list_shows hlist
      have hvalid : ∀ other ∈ parent, ValidName other := fun other hother =>
        hshown.valid other (List.mem_append_left _ hother)
      have hsame := relative_injective tree.root hvalid hlisted.entered.valid hlisted.relative
      subst hsame
      exact hlisted.shows name bytes hshown

theorem opened_single (nodes : List (Path × Node)) (name : Text) (hname : ValidName name)
    (hdirectory : (FileSystem.ofNodes nodes).node [name] = some .directory) :
    Opened (FileSystem.ofNodes nodes) [name] := by
  have hroot : RealDirectory (FileSystem.ofNodes nodes).node [] := by
    refine ⟨?_, by simp⟩
    intro q hq
    rw [List.prefix_nil.mp hq]
    exact (FileSystem.ofNodes nodes).root_directory
  exact hroot.snoc hname.ordinary hdirectory

/-- Beside a plain file stand one with a backslash and one with a colon in its name. -/
def separatorNodes : List (Path × Node) :=
  [(["w"], .directory), (["w", "a"], .directory), (["w", "a", "b"], .file (.text "x")),
    (["w", "a\\b"], .file (.text "x")), (["w", "ab:c"], .file (.text "x")),
    (["w", "e"], .file (.text "x"))]

def separatorTree : WorkspaceTree :=
  .ofNodes separatorNodes ["w"]
    (opened_single separatorNodes "w" (by decide) (by decide)) (by decide)

theorem found_readable_sample :
    Readable Folding.plain separatorTree "e" ["w", "e"] ∧
      Readable Folding.plain separatorTree "a/b" ["w", "a", "b"] ∧
      ∀ limits entries,
        listDirectory Folding.plain separatorTree "." limits = .success "." entries false →
        (⟨"e", "e", .file 1⟩ : ListEntry) ∈ entries := by
  obtain ⟨hlist, hsearch, hread⟩ := found_readable_iff Folding.plain separatorTree
  have hspell : ∀ path : Text, ':' ∉ path → '\\' ∉ path → Spellable separatorTree path :=
    fun path hcolon hback => ⟨hcolon, fun hmem => absurd hmem hback⟩
  refine ⟨?_, ?_, ?_⟩
  · obtain ⟨directory, hresolve, hiff⟩ := hlist "." workspaceLimits "." _ false
      (by decide : _ = ListOutcome.success "." [⟨"a", "a", .directory⟩,
        ⟨"a\\b", "a\\b", .file 1⟩, ⟨"ab:c", "ab:c", .file 1⟩, ⟨"e", "e", .file 1⟩] false)
      ⟨"e", "e", .file 1⟩ (by simp) 1 rfl
    have hroot : resolveWorkspacePath separatorTree.fs separatorTree.root "." =
        .ok ⟨".", ["w"]⟩ := by decide
    rw [hroot] at hresolve
    cases hresolve
    exact hiff.mpr (hspell "e" (by decide) (by decide))
  · obtain ⟨text, _, _, hiff⟩ := hsearch ⟨"x", "a", 1⟩ workspaceLimits
      ⟨fun _ => false, fun _ => false⟩ "x" "a" [⟨"a/b", 1, 1, "x"⟩] 1 0 true (some .matchLimit)
      (by decide) ⟨"a/b", 1, 1, "x"⟩ (by simp)
    exact hiff.mpr (hspell "a/b" (by decide) (by decide))
  · obtain ⟨parent, name, bytes, hresolve, hfile, hlisted⟩ :=
      hread (fun _ => []) id id ⟨"e", 1, none, .exact⟩ workspaceLimits none false "e"
        (by decide)
    have hroot : resolveWorkspacePath separatorTree.fs separatorTree.root "e" =
        .ok ⟨"e", separatorTree.root ++ [] ++ ["e".toList]⟩ := by decide
    rw [hroot] at hresolve
    have hnames := (ResolvedWorkspacePath.mk.inj (Except.ok.inj hresolve)).2
    obtain ⟨hparent, hname⟩ := List.append_inj' hnames rfl
    have hempty : [] = parent := List.append_cancel_left hparent
    subst hempty
    obtain rfl : "e".toList = name := List.singleton_inj.mp hname
    have hbytes : separatorTree.fs.node (separatorTree.root ++ [] ++ ["e".toList]) =
        some (.file (.text "x")) := by decide
    rw [hbytes] at hfile
    cases hfile
    intro limits entries hlist
    exact hlisted "." limits entries hlist

/-- One file is shown under the path of another, and one under a path that no request may spell. -/
theorem found_readable_fails :
    ¬ ∀ (tree : WorkspaceTree) requested limits path entries truncated,
      listDirectory Folding.plain tree requested limits = .success path entries truncated →
      ∀ entry ∈ entries, ∀ size, entry.kind = .file size →
        ∃ file, Readable Folding.plain tree entry.path file := by
  intro hall
  obtain ⟨file, hreadable⟩ := hall separatorTree "." workspaceLimits "."
    [⟨"a", "a", .directory⟩, ⟨"a\\b", "a\\b", .file 1⟩, ⟨"ab:c", "ab:c", .file 1⟩,
      ⟨"e", "e", .file 1⟩] false (by decide) ⟨"a\\b", "a\\b", .file 1⟩ (by simp) 1 rfl
  have hother : resolveWorkspacePath separatorTree.fs separatorTree.root "a\\b" =
      .ok ⟨"a/b", ["w", "a", "b"]⟩ := by decide
  have hresolves := hreadable.resolves
  rw [hother] at hresolves
  have hpath := (ResolvedWorkspacePath.mk.inj (Except.ok.inj hresolves)).1
  exact absurd hpath (by decide)

end Siralos.Inspection
