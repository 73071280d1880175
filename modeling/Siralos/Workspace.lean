import Siralos.Text

/-!
# The workspace and its paths

A file system of real directories, files and links, the paths a request may name in it, and
how a requested path is resolved inside the canonical root.
-/

set_option autoImplicit false

namespace Siralos.Workspace

/-- File content: a text when it is valid UTF-8, other bytes else. -/
inductive FileBytes where
  | text (value : Text)
  | binary (bytes : List UInt8)
  deriving DecidableEq, Repr

def FileBytes.length : FileBytes → ℕ
  | text value => Text.utf8Len value
  | binary bytes => bytes.length

abbrev Path := List Text

structure LinkTarget where
  absolute : Bool
  components : List Text
  deriving DecidableEq, Repr

inductive Node where
  | file (bytes : FileBytes)
  | directory
  | link (target : LinkTarget)
  | special
  deriving DecidableEq, Repr

structure FileSystem where
  node : Path → Option Node
  root_directory : node [] = some .directory

section Walk

variable (node : Path → Option Node)

/-- Every component before the last one is a directory; what a link names is left to `follow`. -/
def walkNames (follow : Path → List Text → Option Path) : Path → List Text → Option Path
  | here, [] => some here
  | here, name :: rest =>
    if name = [] ∨ name = ['.'] then walkNames follow here rest
    else if name = ['.', '.'] then walkNames follow here.dropLast rest
    else
      match node (here ++ [name]) with
      | some .directory => walkNames follow (here ++ [name]) rest
      | some (.link target) =>
        follow (if target.absolute then [] else here) (target.components ++ rest)
      | some (.file _) | some .special => if rest = [] then some (here ++ [name]) else none
      | none => none

/-- The number of links counts down: a cycle of links resolves to nothing. -/
def walk : ℕ → Path → List Text → Option Path
  | 0 => walkNames node fun _ _ => none
  | links + 1 => walkNames node (walk links)

end Walk

def maxLinks : ℕ := 40

namespace FileSystem

def canonicalize (fs : FileSystem) (path : Path) : Option Path := walk fs.node maxLinks [] path

/-- `symlink_metadata` of a leaf below a canonical path. -/
def lstat (fs : FileSystem) (parent : Path) (leaf : Text) : Option Node :=
  match fs.node parent with
  | some .directory =>
    if leaf = [] ∨ leaf = ['.'] then some .directory else fs.node (parent ++ [leaf])
  | _ => none

/-- The file system that lists these nodes below the root. -/
def ofNodes (nodes : List (Path × Node)) : FileSystem where
  node path := if path = [] then some .directory else nodes.lookup path
  root_directory := rfl

/-- A regular file put in place of the file or of nothing; the root stays a directory. -/
def setFile (fs : FileSystem) (target : Path) (bytes : FileBytes) : FileSystem where
  node path := if path = target ∧ target ≠ [] then some (.file bytes) else fs.node path
  root_directory := by
    rw [if_neg (by rintro ⟨h, hne⟩; exact hne h.symm)]
    exact fs.root_directory

end FileSystem

/-- Component names that a walk takes as they are. -/
def Ordinary (name : Text) : Prop := name ≠ [] ∧ name ≠ ['.'] ∧ name ≠ ['.', '.']

structure RealDirectory (node : Path → Option Node) (path : Path) : Prop where
  directories : ∀ q, q <+: path → node q = some .directory
  ordinary : ∀ name ∈ path, Ordinary name

/-- A path that names what it says: real directories, then something that is no link. -/
structure Resolved (node : Path → Option Node) (path : Path) : Prop where
  parent : RealDirectory node path.dropLast
  ordinary : ∀ name ∈ path, Ordinary name
  present : ∃ n, node path = some n ∧ ∀ target, n ≠ .link target

theorem RealDirectory.dropLast {node : Path → Option Node} {path : Path}
    (h : RealDirectory node path) : RealDirectory node path.dropLast where
  directories q hq := h.directories q (hq.trans (List.dropLast_prefix path))
  ordinary name hname := h.ordinary name (List.mem_of_mem_dropLast hname)

theorem RealDirectory.snoc {node : Path → Option Node} {path : Path} {name : Text}
    (h : RealDirectory node path) (hname : Ordinary name)
    (hnode : node (path ++ [name]) = some .directory) : RealDirectory node (path ++ [name]) where
  directories q hq := by
    rcases List.prefix_concat_iff.mp hq with rfl | hq
    · exact hnode
    · exact h.directories q hq
  ordinary other hother := by
    rcases List.mem_append.mp hother with hold | hnew
    · exact h.ordinary other hold
    · rw [List.mem_singleton.mp hnew]
      exact hname

theorem RealDirectory.resolved {node : Path → Option Node} {path : Path}
    (h : RealDirectory node path) : Resolved node path where
  parent := h.dropLast
  ordinary := h.ordinary
  present := ⟨.directory, h.directories path List.prefix_rfl, by simp⟩

theorem resolved_leaf {node : Path → Option Node} {path : Path} {name : Text} {n : Node}
    (h : RealDirectory node path) (hname : Ordinary name) (hnode : node (path ++ [name]) = some n)
    (hlink : ∀ target, n ≠ .link target) : Resolved node (path ++ [name]) where
  parent := by
    rw [List.dropLast_concat]
    exact h
  ordinary other hother := by
    rcases List.mem_append.mp hother with hold | hnew
    · exact h.ordinary other hold
    · rw [List.mem_singleton.mp hnew]
      exact hname
  present := ⟨n, hnode, hlink⟩

theorem walk_names_resolved (node : Path → Option Node)
    (follow : Path → List Text → Option Path)
    (hfollow : ∀ here rest p, RealDirectory node here → follow here rest = some p → Resolved node p)
    (here : Path) (names : List Text) (p : Path) (hroot : node [] = some .directory)
    (hhere : RealDirectory node here) (h : walkNames node follow here names = some p) :
    Resolved node p := by
  induction names generalizing here with
  | nil =>
    cases h
    exact hhere.resolved
  | cons name rest ih =>
    rw [walkNames] at h
    by_cases hskip : name = [] ∨ name = ['.']
    · rw [if_pos hskip] at h
      exact ih here hhere h
    · rw [if_neg hskip] at h
      by_cases hup : name = ['.', '.']
      · rw [if_pos hup] at h
        exact ih _ hhere.dropLast h
      · rw [if_neg hup] at h
        have hname : Ordinary name := ⟨fun h => hskip (.inl h), fun h => hskip (.inr h), hup⟩
        split at h
        · exact ih _ (hhere.snoc hname (by assumption)) h
        · rename_i target _
          refine hfollow _ _ p ?_ h
          by_cases habs : target.absolute = true
          · rw [if_pos habs]
            refine ⟨?_, by simp⟩
            intro q hq
            rw [List.prefix_nil.mp hq]
            exact hroot
          · rw [if_neg habs]
            exact hhere
        · split at h
          · cases h
            exact resolved_leaf hhere hname (by assumption) (by simp)
          · cases h
        · split at h
          · cases h
            exact resolved_leaf hhere hname (by assumption) (by simp)
          · cases h
        · cases h

theorem walk_resolved (node : Path → Option Node) (links : ℕ) (here : Path) (names : List Text)
    (p : Path) (hroot : node [] = some .directory) (hhere : RealDirectory node here)
    (h : walk node links here names = some p) : Resolved node p := by
  induction links generalizing here names p with
  | zero =>
    refine walk_names_resolved node _ ?_ here names p hroot hhere h
    intro _ _ _ _ hnone
    cases hnone
  | succ links ih =>
    exact walk_names_resolved node _ (fun here rest p hh => ih here rest p hh) here names p hroot
      hhere h

theorem walk_names_ordinary (node : Path → Option Node)
    (follow : Path → List Text → Option Path) (here : Path) (names : List Text)
    (h : Resolved node (here ++ names)) :
    walkNames node follow here names = some (here ++ names) := by
  induction names generalizing here with
  | nil => simp [walkNames]
  | cons name rest ih =>
    obtain ⟨hempty, hdot, hup⟩ := h.ordinary name (by simp)
    rw [walkNames, if_neg (by rintro (h | h); exacts [hempty h, hdot h]), if_neg hup]
    have happend : here ++ [name] ++ rest = here ++ name :: rest := by simp
    by_cases hrest : rest = []
    · subst hrest
      obtain ⟨n, hn, hlink⟩ := h.present
      rw [hn]
      cases n with
      | file bytes => rfl
      | directory => rfl
      | special => rfl
      | link target => exact absurd rfl (hlink target)
    · have hdir : node (here ++ [name]) = some .directory := by
        apply h.parent.directories
        rw [← happend, List.dropLast_append_of_ne_nil hrest]
        exact List.prefix_append _ _
      rw [hdir]
      have hnext := ih (here ++ [name]) (happend ▸ h)
      rw [happend] at hnext
      exact hnext

theorem walk_ordinary (node : Path → Option Node) (links : ℕ) (path : Path)
    (h : Resolved node path) : walk node links [] path = some path := by
  cases links with
  | zero => exact walk_names_ordinary node _ [] path h
  | succ links => exact walk_names_ordinary node _ [] path h

namespace FileSystem

theorem canonicalize_resolved (fs : FileSystem) (path p : Path)
    (h : fs.canonicalize path = some p) : Resolved fs.node p := by
  apply walk_resolved fs.node maxLinks [] path p fs.root_directory _ h
  refine ⟨?_, by simp⟩
  intro q hq
  rw [List.prefix_nil.mp hq]
  exact fs.root_directory

theorem canonicalize_of_resolved (fs : FileSystem) (path : Path) (h : Resolved fs.node path) :
    fs.canonicalize path = some path := walk_ordinary fs.node maxLinks path h

end FileSystem

/-- Whatever a walk found is still there, files with whatever content. -/
def Extends (node node' : Path → Option Node) : Prop :=
  ∀ path n, node path = some n →
    node' path = some n ∨ ∃ old new, n = .file old ∧ node' path = some (.file new)

theorem walk_names_extends (node node' : Path → Option Node) (hextends : Extends node node')
    (follow follow' : Path → List Text → Option Path)
    (hfollow : ∀ here rest p, follow here rest = some p → follow' here rest = some p)
    (here : Path) (names : List Text) (p : Path) (h : walkNames node follow here names = some p) :
    walkNames node' follow' here names = some p := by
  induction names generalizing here with
  | nil => exact h
  | cons name rest ih =>
    rw [walkNames] at h ⊢
    by_cases hskip : name = [] ∨ name = ['.']
    · rw [if_pos hskip] at h ⊢
      exact ih here h
    · rw [if_neg hskip] at h ⊢
      by_cases hup : name = ['.', '.']
      · rw [if_pos hup] at h ⊢
        exact ih _ h
      · rw [if_neg hup] at h ⊢
        cases hnode : node (here ++ [name]) with
        | none => simp [hnode] at h
        | some n =>
          rw [hnode] at h
          rcases hextends _ _ hnode with hsame | ⟨old, new, rfl, hnew⟩
          · rw [hsame]
            cases n with
            | directory => exact ih _ h
            | link target => exact hfollow _ _ _ h
            | file bytes => exact h
            | special => exact h
          · rw [hnew]
            exact h

theorem walk_extends (node node' : Path → Option Node) (hextends : Extends node node') (links : ℕ)
    (here : Path) (names : List Text) (p : Path) (h : walk node links here names = some p) :
    walk node' links here names = some p := by
  induction links generalizing here names p with
  | zero => exact walk_names_extends node node' hextends _ _ (fun _ _ _ h => h) here names p h
  | succ links ih => exact walk_names_extends node node' hextends _ _ ih here names p h

namespace FileSystem

def Writable (fs : FileSystem) (target : Path) : Prop :=
  fs.node target = none ∨ ∃ bytes, fs.node target = some (.file bytes)

theorem Writable.ne_root {fs : FileSystem} {target : Path} (h : fs.Writable target) :
    target ≠ [] := by
  rintro rfl
  rcases h with h | ⟨bytes, h⟩
  · rw [fs.root_directory] at h
    cases h
  · rw [fs.root_directory] at h
    cases h

theorem set_file_target (fs : FileSystem) (target : Path) (bytes : FileBytes)
    (h : fs.Writable target) : (fs.setFile target bytes).node target = some (.file bytes) :=
  if_pos ⟨rfl, h.ne_root⟩

theorem set_file_other (fs : FileSystem) (target path : Path) (bytes : FileBytes)
    (h : path ≠ target) : (fs.setFile target bytes).node path = fs.node path :=
  if_neg fun hand => h hand.1

theorem set_file_extends (fs : FileSystem) (target : Path) (bytes : FileBytes)
    (h : fs.Writable target) : Extends fs.node (fs.setFile target bytes).node := by
  intro path n hn
  by_cases hpath : path = target
  · subst hpath
    rcases h with hnone | ⟨old, hold⟩
    · rw [hnone] at hn
      cases hn
    · rw [hold] at hn
      cases hn
      exact .inr ⟨old, bytes, rfl, set_file_target fs path bytes (.inr ⟨old, hold⟩)⟩
  · rw [set_file_other fs target path bytes hpath]
    exact .inl hn

theorem set_file_canonicalize (fs : FileSystem) (target : Path) (bytes : FileBytes)
    (h : fs.Writable target) (path p : Path) (hp : fs.canonicalize path = some p) :
    (fs.setFile target bytes).canonicalize path = some p :=
  walk_extends _ _ (set_file_extends fs target bytes h) maxLinks [] path p hp

theorem ext (fs fs' : FileSystem) (h : ∀ path, fs.node path = fs'.node path) : fs = fs' := by
  cases fs
  cases fs'
  simp only [mk.injEq]
  exact funext h

theorem set_file_back (fs : FileSystem) (target : Path) (old new : FileBytes)
    (h : fs.node target = some (.file old)) :
    (fs.setFile target new).setFile target old = fs := by
  apply ext
  intro path
  have hwritable : fs.Writable target := .inr ⟨old, h⟩
  by_cases hpath : path = target
  · subst hpath
    rw [h]
    exact set_file_target _ path old (.inr ⟨new, set_file_target fs path new hwritable⟩)
  · rw [set_file_other _ _ _ _ hpath, set_file_other _ _ _ _ hpath]

end FileSystem

def isSeparator (c : Char) : Bool := c == '/' || c == '\\'

/-- The components of a request: both separators separate everywhere. -/
def splitSeparators (value : Text) : List Text := value.splitOnP isSeparator

/-- What stands before and after the last separator. -/
def splitLast (separator : Char → Bool) (value : Text) : Option (Text × Text) :=
  if value.any separator then
    some ((value.rdropWhile (fun c => !separator c)).dropLast,
      value.rtakeWhile (fun c => !separator c))
  else none

def isAbsolutePattern : Text → Bool
  | [] => false
  | [c] => isSeparator c
  | c :: d :: _ => (c.isAlpha && d == ':') || isSeparator c

inductive PathValidationError where
  | nullByte
  | empty
  | absolute
  | parentTraversal
  deriving DecidableEq, Repr

def nul : Char := Char.ofNat 0

def validateRelativePath (value : Text) : Except PathValidationError Unit :=
  if value.contains nul then .error .nullByte
  else if value.isEmpty then .error .empty
  else if isAbsolutePattern value then .error .absolute
  else if (splitSeparators value).any (fun c => c == ['.', '.']) then .error .parentTraversal
  else .ok ()

inductive PathRejection where
  | nullByte
  | empty
  | absolute
  | outsideWorkspace
  | invalidCharacter
  | unresolvable (detail : Text)
  | linkEscape
  deriving DecidableEq, Repr

def PathRejection.message : PathRejection → Text
  | nullByte => "Path contains a null byte."
  | empty => "Path is empty."
  | absolute => "Path must be relative to the workspace."
  | invalidCharacter => "Path contains an invalid character."
  | outsideWorkspace => "Path is outside the Siralos workspace."
  | unresolvable _ => "Path cannot be resolved."
  | linkEscape => "Path is outside the Siralos workspace."

structure ResolvedWorkspacePath where
  workspaceRelativePath : Text
  absolutePath : Path
  deriving DecidableEq, Repr

/-- One component of a request appended to a path without looking at the file system. -/
def joinComponent (out : Path) (component : Text) : Path :=
  if component = [] ∨ component = ['.'] then out
  else if component = ['.', '.'] then out.dropLast
  else out ++ [component]

def normalizeJoin (root : Path) (requested : Text) : Path :=
  (splitSeparators requested).foldl joinComponent root

def joinNames (names : List Text) : Text := ['/'].intercalate names

/-- The canonical path of a target below the canonical root. -/
def relativeOf (root target : Path) : Text :=
  if target = root then ['.'] else joinNames (target.drop root.length)

def resolveWorkspacePath (fs : FileSystem) (root : Path) (requested : Text) :
    Except PathRejection ResolvedWorkspacePath :=
  if requested.contains nul then .error .nullByte
  else if requested.isEmpty then .error .empty
  else if isAbsolutePattern requested then .error .absolute
  else if (splitSeparators requested).any (fun c => c.contains ':') then .error .invalidCharacter
  else
    match fs.canonicalize root with
    | none => .error (.unresolvable "workspace root is not accessible")
    | some canonicalRoot =>
      let resolved := normalizeJoin canonicalRoot requested
      if !canonicalRoot.isPrefixOf resolved then .error .outsideWorkspace
      else
        match fs.canonicalize resolved with
        | none => .error (.unresolvable "requested path is not accessible")
        | some target =>
          if !canonicalRoot.isPrefixOf target then .error .linkEscape
          else .ok ⟨relativeOf canonicalRoot target, target⟩

structure PendingTarget where
  parent : Path
  leaf : Text
  deriving DecidableEq, Repr

def splitRequestedParent (requested : Text) : Text × Text :=
  (splitLast isSeparator requested).getD (['.'], requested)

/-- A target that must not exist yet: only its parent directory is resolved. -/
def resolveCreateTarget (fs : FileSystem) (root : Path) (requested : Text) :
    Except PathRejection PendingTarget :=
  if requested.contains nul then .error .nullByte
  else if requested.isEmpty then .error .empty
  else if isAbsolutePattern requested then .error .absolute
  else
    let (parent, leaf) := splitRequestedParent requested
    if leaf = [] ∨ leaf = ['.'] ∨ leaf = ['.', '.'] ∨ leaf.contains ':' then
      .error .invalidCharacter
    else if (requested.splitOn '/').any (fun c => c.contains ':') then .error .invalidCharacter
    else
      match resolveWorkspacePath fs root (if parent = ['.'] ∨ parent = [] then ['.'] else parent)
        with
      | .error rejection => .error rejection
      | .ok resolved => .ok ⟨resolved.absolutePath, leaf⟩

inductive BoundedFileRead where
  | complete (bytes : FileBytes)
  | tooLarge
  | notReadable
  deriving DecidableEq, Repr

def readCompleteFileBounded (node : Option Node) (maxBytes : ℕ) : BoundedFileRead :=
  match node with
  | some (.file bytes) => if maxBytes < bytes.length then .tooLarge else .complete bytes
  | _ => .notReadable

inductive AtomicWriteFailure where
  | staged
  | targetChanged
  | parentChanged
  | requestedNameMismatch
  | targetIsNotARegularFile
  | stagedIdentityUnverifiable
  deriving DecidableEq, Repr

def maxCasReadBytes : ℕ := 16 * 1024 * 1024

def maxStagedRevalidationBytes : ℕ := 16 * 1024 * 1024

/-- What a commit demands of its target before the rename. -/
inductive CommitGuard where
  | ifAbsent
  | ifDigest (expected : Text)
  deriving DecidableEq, Repr

variable (sha256Hex : FileBytes → Text)

def guardHolds (target : Option Node) : CommitGuard → Bool
  | .ifAbsent => target.isNone
  | .ifDigest expected =>
    match readCompleteFileBounded target maxCasReadBytes with
    | .complete bytes => sha256Hex bytes == expected
    | .tooLarge | .notReadable => false

/-- The staged file stands beside its target, in a real directory. -/
def stageAtomic (fs : FileSystem) (directory : Path) : Except AtomicWriteFailure Unit :=
  match fs.node directory with
  | some .directory => .ok ()
  | _ => .error .staged

/-- The parent is the directory observed at staging: nobody else writes. -/
def commitInner (fs : FileSystem) (target : Path) (bytes : FileBytes) (guard : CommitGuard) :
    Except AtomicWriteFailure FileSystem :=
  match fs.node target with
  | some .directory | some (.link _) | some .special => .error .targetIsNotARegularFile
  | _ =>
    if !guardHolds sha256Hex (fs.node target) guard then .error .targetChanged
    else if maxStagedRevalidationBytes < bytes.length then .error .stagedIdentityUnverifiable
    else .ok (fs.setFile target bytes)

theorem commit_inner_ok (fs fs' : FileSystem) (target : Path) (bytes : FileBytes)
    (guard : CommitGuard) (h : commitInner sha256Hex fs target bytes guard = .ok fs') :
    fs.Writable target ∧ guardHolds sha256Hex (fs.node target) guard = true ∧
      bytes.length ≤ maxStagedRevalidationBytes ∧ fs' = fs.setFile target bytes := by
  unfold commitInner at h
  split at h
  · cases h
  · cases h
  · cases h
  · rename_i hdirectory hlink hspecial
    split at h
    · cases h
    · split at h
      · cases h
      · cases h
        rename_i hguard hlength
        refine ⟨?_, by simpa using hguard, by omega, rfl⟩
        cases hnode : fs.node target with
        | none => exact .inl hnode
        | some n =>
          cases n with
          | file bytes => exact .inr ⟨bytes, hnode⟩
          | directory => exact absurd hnode hdirectory
          | link target' => exact absurd hnode (hlink target')
          | special => exact absurd hnode hspecial

end Siralos.Workspace
