import Mathlib.Data.Char
import Mathlib.Data.List.Dedup
import Mathlib.Data.List.Lex
import Siralos.Revision
import Siralos.WorkspacePath

/-!
# Listing and reading a workspace

The model-facing inspection of a workspace tree: what is excluded and protected under the platform's
case folding, the bounded listing of a directory and the bounded read of a file.
-/

set_option autoImplicit false

namespace Siralos.Inspection

open Workspace Checkpoint Revision

structure ValidName (name : Text) : Prop where
  ordinary : Ordinary name
  slashless : '/' ∉ name
  nuls : nul ∉ name

/-- A workspace root in a file system whose real directories are enumerated in any order, or not at
all. -/
structure WorkspaceTree where
  fs : FileSystem
  root : Path
  readDir : Path → Option (List Text)
  opened : Opened fs root
  named : ∀ directory name, (fs.node (directory ++ [name])).isSome = true → ValidName name
  directories : ∀ directory names, readDir directory = some names →
    fs.node directory = some .directory
  enumerated : ∀ directory names, readDir directory = some names →
    ∀ name, name ∈ names ↔ (fs.node (directory ++ [name])).isSome = true
  distinct : ∀ directory names, readDir directory = some names → names.Nodup

def mutationTempPrefix : Text := ".siralos-mutation-"

/-- `fold_path_component` under the platform's policy: lower case, or nothing. -/
structure Folding where
  fold : Text → Text
  keeps_prefix : ∀ name, Text.startsWith mutationTempPrefix name = true →
    Text.startsWith mutationTempPrefix (fold name) = true

def Folding.plain : Folding := ⟨id, fun _ h => h⟩

/-- The fields of `WorkspaceLimits` that list, read and search use. -/
structure InspectionLimits where
  maxDirectoryEntries : ℕ
  maxReadFileSizeBytes : ℕ
  maxReadContentChars : ℕ
  maxSearchFileSizeBytes : ℕ
  maxSearchFiles : ℕ
  maxSearchLineLengthChars : ℕ
  maxSearchDirectories : ℕ
  maxSearchEntries : ℕ
  maxSearchFilesConsidered : ℕ
  maxSearchInputBytes : ℕ
  maxSearchOutputBytes : ℕ
  maxSearchDepth : ℕ
  deriving DecidableEq, Repr

def workspaceLimits : InspectionLimits where
  maxDirectoryEntries := 200
  maxReadFileSizeBytes := 512 * 1024
  maxReadContentChars := 64000
  maxSearchFileSizeBytes := 512 * 1024
  maxSearchFiles := 500
  maxSearchLineLengthChars := 400
  maxSearchDirectories := 2000
  maxSearchEntries := 25000
  maxSearchFilesConsidered := 2000
  maxSearchInputBytes := 64 * 1024 * 1024
  maxSearchOutputBytes := 200000
  maxSearchDepth := 64

instance (name : Text) : Decidable (ValidName name) :=
  decidable_of_iff
    ((name ≠ [] ∧ name ≠ ['.'] ∧ name ≠ ['.', '.']) ∧ '/' ∉ name ∧ nul ∉ name)
    ⟨fun h => ⟨h.1, h.2.1, h.2.2⟩, fun h => ⟨h.ordinary, h.slashless, h.nuls⟩⟩

def namesBelow (nodes : List (Path × Node)) (directory : Path) : List Text :=
  nodes.filterMap fun entry => if entry.1.dropLast = directory then entry.1.getLast? else none

theorem mem_names_below (nodes : List (Path × Node)) (directory : Path) (name : Text) :
    name ∈ namesBelow nodes directory ↔
      ((FileSystem.ofNodes nodes).node (directory ++ [name])).isSome = true := by
  have hne : directory ++ [name] ≠ [] := by simp
  simp only [FileSystem.ofNodes, if_neg hne, List.lookup_isSome_iff, beq_iff_eq, namesBelow,
    List.mem_filterMap]
  constructor
  · rintro ⟨entry, hentry, hname⟩
    split at hname
    · rename_i hdirectory
      obtain ⟨init, hinit⟩ := List.getLast?_eq_some_iff.mp hname
      rw [hinit, List.dropLast_concat] at hdirectory
      exact ⟨entry, hentry, by rw [hinit, hdirectory]⟩
    · cases hname
  · rintro ⟨entry, hentry, hpath⟩
    refine ⟨entry, hentry, ?_⟩
    rw [← hpath, List.dropLast_concat, if_pos rfl, List.getLast?_concat]

/-- A tree whose directories are all enumerated. -/
def WorkspaceTree.ofNodes (nodes : List (Path × Node)) (root : Path)
    (hopened : Opened (FileSystem.ofNodes nodes) root)
    (hnames : ∀ entry ∈ nodes, ∀ name ∈ entry.1, ValidName name) : WorkspaceTree where
  fs := FileSystem.ofNodes nodes
  root := root
  readDir directory :=
    if (FileSystem.ofNodes nodes).node directory = some .directory then
      some (namesBelow nodes directory).dedup
    else none
  opened := hopened
  named directory name h := by
    rw [← mem_names_below, namesBelow, List.mem_filterMap] at h
    obtain ⟨entry, hentry, hname⟩ := h
    split at hname
    · exact hnames entry hentry name (List.mem_of_getLast? hname)
    · cases hname
  directories directory names h := by
    split at h
    · assumption
    · cases h
  enumerated directory names h name := by
    split at h
    · cases h
      rw [List.mem_dedup]
      exact mem_names_below nodes directory name
    · cases h
  distinct directory names h := by
    split at h
    · cases h
      exact List.nodup_dedup _
    · cases h

section Guards

variable (folding : Folding)

def isExcludedName (name : Text) : Bool :=
  excludedDirectories.any fun candidate => folding.fold candidate == folding.fold name

def isGuardedComponent (component : Text) : Bool := component != [] && component != ['.']

def firstExcludedComponent (relative : Text) : Option Text :=
  ((relative.splitOn '/').filter isGuardedComponent).find? (isExcludedName folding)

/-- These are compared as they are written, too. -/
def reservedNames : List Text := ["AGENTS.md", "siralos.toml", "siralos.lock"]

def isProtectedFolded (folded : Text) : Bool :=
  (protectedNames.erase "AGENTS.md").contains folded ||
    protectedPrefixes.any (fun p => Text.startsWith p folded) ||
    protectedExtensions.any (fun extension => extension.isSuffixOf folded)

def isProtectedName (component : Text) : Bool :=
  isProtectedFolded (folding.fold component) || reservedNames.contains component

/-- `is_model_protected_workspace_path`: both separators separate. -/
def isModelProtected (relative : Text) : Bool :=
  ((splitSeparators relative).filter isGuardedComponent).any (isProtectedName folding)

def guardPath (excluded : Text → Text) (relative : Text) : Option Text :=
  match firstExcludedComponent folding relative with
  | some component => some (excluded component)
  | none =>
    if isModelProtected folding relative then
      some "Path is protected from model-facing workspace inspection."
    else none

def insideExcluded (_ : Text) : Text := "Path is inside the excluded directory."

end Guards

inductive EntryKind where
  | file (size : ℕ)
  | directory
  | symlink
  | other
  deriving DecidableEq, Repr

structure ListEntry where
  name : Text
  path : Text
  kind : EntryKind
  deriving DecidableEq, Repr

inductive ListOutcome where
  | denied (message : Text)
  | failed (message : Text)
  | success (path : Text) (entries : List ListEntry) (truncated : Bool)
  deriving DecidableEq, Repr

def childRelativePath (directoryPath name : Text) : Text :=
  if directoryPath = ['.'] then name else directoryPath ++ '/' :: name

def entryKind : Node → EntryKind
  | .link _ => .symlink
  | .directory => .directory
  | .file bytes => .file bytes.length
  | .special => .other

/-- The names a listing shows; hidden ones count against the enumeration's bound. -/
def isListed (folding : Folding) (directoryPath name : Text) : Bool :=
  !isExcludedName folding name && !Text.startsWith mutationTempPrefix name &&
    !isModelProtected folding (childRelativePath directoryPath name)

def listEntry (fs : FileSystem) (resolved : ResolvedWorkspacePath) (name : Text) :
    Option ListEntry :=
  (fs.node (resolved.absolutePath ++ [name])).map fun node =>
    ⟨name, childRelativePath resolved.workspaceRelativePath name, entryKind node⟩

/-- The entries of an enumerated directory, in the order of their names. -/
def listNames (folding : Folding) (tree : WorkspaceTree) (resolved : ResolvedWorkspacePath)
    (maxEntries : ℕ) (names : List Text) : ListOutcome :=
  let visible := ((names.take (maxEntries + 1)).filter
    (isListed folding resolved.workspaceRelativePath)).insertionSort (· ≤ ·)
  let truncated := decide (maxEntries + 1 ≤ names.length) || decide (maxEntries < visible.length)
  match (visible.take maxEntries).mapM (listEntry tree.fs resolved) with
  | none => .failed "Cannot inspect entry."
  | some entries => .success resolved.workspaceRelativePath entries truncated

def listDirectory (folding : Folding) (tree : WorkspaceTree) (requested : Text)
    (limits : InspectionLimits) : ListOutcome :=
  match resolveWorkspacePath tree.fs tree.root requested with
  | .error rejection => .denied rejection.message
  | .ok resolved =>
    match guardPath folding insideExcluded resolved.workspaceRelativePath with
    | some message => .denied message
    | none =>
      match tree.fs.node resolved.absolutePath with
      | none => .failed "Cannot inspect directory."
      | some .directory =>
        match tree.readDir resolved.absolutePath with
        | none => .failed "Cannot list directory."
        | some names => listNames folding tree resolved limits.maxDirectoryEntries names
      | some _ => .failed "Target is not a directory."

def stripLast (c : Char) (text : Text) : Text :=
  if text.getLast? = some c then text.dropLast else text

def splitIntoLines (text : Text) : List Text :=
  ((stripLast '\n' text).splitOn '\n').map (stripLast '\r')

def lenUtf16 (c : Char) : ℕ := if c.toNat < 0x10000 then 1 else 2

def utf16Len (text : Text) : ℕ := (text.map lenUtf16).sum

/-- The longest prefix of at most so many UTF-16 code units. -/
def utf16Slice : ℕ → Text → Text
  | _, [] => []
  | limit, c :: rest =>
    if limit < lenUtf16 c then [] else c :: utf16Slice (limit - lenUtf16 c) rest

def nulWithin : ℕ → Text → Bool
  | _, [] => false
  | count, c :: rest =>
    if count = 0 then false else c == nul || nulWithin (count - c.utf8Size) rest

def looksBinary : FileBytes → Bool
  | .text value => nulWithin 8192 value
  | .binary bytes => (bytes.take 8192).contains 0

def decodeUtf8 : FileBytes → Option Text
  | .text value => some value
  | .binary _ => none

structure ReadInput where
  path : Text
  startLine : ℕ
  endLine : Option ℕ
  mode : ObservedReadMode
  deriving DecidableEq, Repr

inductive ReadOutcome where
  | denied (message : Text)
  | cancelled
  | failed (message : Text)
  | success (path sha256 : Text) (revision : Option Text) (content : Text)
      (startLine endLine totalLines : ℕ) (truncated : Bool)
  | unsupported (path : Text) (mode : ObservedReadMode) (revision : Option Text) (supported : Bool)
      (reason : Text)
  deriving DecidableEq, Repr

def ReadOutcome.accepted : ReadOutcome → Option Text
  | .success path .. => some path
  | .unsupported path .. => some path
  | _ => none

section Read

variable (contentHex : FileBytes → Text) (sha256Hex : Text → Text) (lowercase : Text → Text)

def readLines (input : ReadInput) (limits : InspectionLimits) (path sha256 : Text)
    (revision : Option Text) (text : Text) : ReadOutcome :=
  let lines := splitIntoLines text
  if input.startLine = 0 ∨ input.endLine.any (fun last => decide (last < input.startLine)) then
    .failed "line bounds must be positive and ordered"
  else if lines.length < input.startLine then
    .failed ("\"startLine\" (".toList ++ Text.ofNat input.startLine ++
      ") is beyond the end of the file (".toList ++ Text.ofNat lines.length ++ " lines).".toList)
  else
    let endLine := min (input.endLine.getD lines.length) lines.length
    let content := ['\n'].intercalate
      ((lines.drop (input.startLine - 1)).take (endLine - input.startLine + 1))
    if limits.maxReadContentChars < utf16Len content then
      .success path sha256 revision (utf16Slice limits.maxReadContentChars content)
        input.startLine endLine lines.length true
    else .success path sha256 revision content input.startLine endLine lines.length false

/-- The revision of the text is issued and the read observed before the lines are cut. -/
def readText (input : ReadInput) (limits : InspectionLimits)
    (revisions : Option WorkspaceRevisionRegistry) (path sha256 text : Text) :
    ReadOutcome × Option WorkspaceRevisionRegistry :=
  let issued := revisions.map fun registry => registry.issue sha256Hex path sha256
  let revision := issued.map Prod.fst
  let observed := issued.map fun pair => pair.2.observeRead path pair.1 input.mode
  if input.mode = .exact then (readLines input limits path sha256 revision text, observed)
  else if ".gd".toList.isSuffixOf (lowercase path) then
    (.unsupported path input.mode revision true
      ("GDScript structural/summary extraction is Godot-module language intelligence (R8/R9) " ++
        "and is not ported in R5."), observed)
  else
    (.unsupported path input.mode revision false
      "Structural and summary modes support GDScript (.gd) files only.", observed)

/-- A regular file below the size bounds, not binary and valid UTF-8. -/
def readRegular (input : ReadInput) (limits : InspectionLimits)
    (revisions : Option WorkspaceRevisionRegistry) (path : Text) (node : Option Node) :
    ReadOutcome × Option WorkspaceRevisionRegistry :=
  match node with
  | some (.file bytes) =>
    if limits.maxReadFileSizeBytes < bytes.length then
      (.failed ("File is too large (".toList ++ Text.ofNat bytes.length ++ " bytes; limit ".toList ++
        Text.ofNat limits.maxReadFileSizeBytes ++ ").".toList), revisions)
    else if looksBinary bytes then (.failed "File appears to be binary.", revisions)
    else
      match decodeUtf8 bytes with
      | none => (.failed "File is not valid UTF-8 text.", revisions)
      | some text => readText sha256Hex lowercase input limits revisions path (contentHex bytes) text
  | some _ => (.failed "Target is not a regular file.", revisions)
  | none => (.failed "Cannot inspect file.", revisions)

def readFile (folding : Folding) (tree : WorkspaceTree) (input : ReadInput)
    (limits : InspectionLimits) (revisions : Option WorkspaceRevisionRegistry) (cancelled : Bool) :
    ReadOutcome × Option WorkspaceRevisionRegistry :=
  match resolveWorkspacePath tree.fs tree.root input.path with
  | .error rejection => (.denied rejection.message, revisions)
  | .ok resolved =>
    match guardPath folding insideExcluded resolved.workspaceRelativePath with
    | some message => (.denied message, revisions)
    | none =>
      if cancelled then (.cancelled, revisions)
      else readRegular contentHex sha256Hex lowercase input limits revisions
        resolved.workspaceRelativePath (tree.fs.node resolved.absolutePath)

end Read

end Siralos.Inspection
