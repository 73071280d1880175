import Siralos.Inspection

/-!
# Searching a workspace

The bounded traversal below a directory: every stop of it, the poll of the cancellation signal and
the look at the clock before each piece of work.
-/

set_option autoImplicit false

namespace Siralos.Inspection

open Workspace

inductive TruncationReason where
  | directoryBudget
  | entryBudget
  | fileBudget
  | scanBudget
  | inputBudget
  | outputBudget
  | timeBudget
  | matchLimit
  | depthBudget
  | unreadable
  deriving DecidableEq, Repr

structure SearchMatch where
  path : Text
  line : ℕ
  column : ℕ
  text : Text
  deriving DecidableEq, Repr

inductive SearchOutcome where
  | denied (message : Text)
  | cancelled
  | success (query path : Text) (matched : List SearchMatch) (scannedFiles skippedFiles : ℕ)
      (truncated : Bool) (truncationReason : Option TruncationReason)
  deriving DecidableEq, Repr

structure SearchInput where
  query : Text
  path : Text
  maxResults : ℕ
  deriving DecidableEq, Repr

/-- The characters before the first occurrence. -/
def findPrefix (query : Text) : Text → Option Text
  | [] => if query = [] then some [] else none
  | c :: rest =>
    if query.isPrefixOf (c :: rest) then some [] else (findPrefix query rest).map (c :: ·)

def utf16IndexOf (text query : Text) : Option ℕ :=
  if query = [] then some 0 else (findPrefix query text).map utf16Len

/-- What an enumeration gives: a name, or one that is not UTF-8 and what stands under it. -/
inductive DirectoryEntry where
  | name (text : Text)
  | foreign (raw : List UInt8) (node : Node)
  deriving DecidableEq, Repr

def DirectoryEntry.text : DirectoryEntry → Option Text
  | .name text => some text
  | .foreign .. => none

/-- The directories that can be read, each with its entries in the order of the platform. -/
structure Enumeration (tree : WorkspaceTree) where
  entries : Path → Option (List DirectoryEntry)
  directories : ∀ directory listed, entries directory = some listed →
    tree.fs.node directory = some .directory
  named : ∀ directory listed, entries directory = some listed →
    ∀ name, .name name ∈ listed ↔ (tree.fs.node (directory ++ [name])).isSome = true
  distinct : ∀ directory listed, entries directory = some listed → listed.Nodup

def WorkspaceTree.enumerate (tree : WorkspaceTree) : Enumeration tree where
  entries directory := (tree.readDir directory).map (List.map .name)
  directories directory listed h := by
    obtain ⟨names, hnames, -⟩ := Option.map_eq_some_iff.mp h
    exact tree.directories directory names hnames
  named directory listed h name := by
    obtain ⟨names, hnames, rfl⟩ := Option.map_eq_some_iff.mp h
    rw [← tree.enumerated directory names hnames name]
    simp
  distinct directory listed h := by
    obtain ⟨names, hnames, rfl⟩ := Option.map_eq_some_iff.mp h
    apply (tree.distinct directory names hnames).map
    intro a b hab
    exact DirectoryEntry.name.inj hab

structure PendingDirectory where
  absolute : Path
  relative : Text
  depth : ℕ
  deriving DecidableEq, Repr

/-- The traversal's variables, the top of the pending stack first; the polls and the looks at the
clock are counted. -/
structure SearchState where
  matched : List SearchMatch
  scannedFiles : ℕ
  skippedFiles : ℕ
  entriesExamined : ℕ
  filesConsidered : ℕ
  inputBytes : ℕ
  outputBytes : ℕ
  pending : List PendingDirectory
  polls : ℕ
  looks : ℕ
  deriving DecidableEq, Repr

inductive Halt where
  | cancelled
  | stopped (reason : TruncationReason) (state : SearchState)
  deriving DecidableEq, Repr

/-- What the signal says at each poll, and whether each look at the clock finds the deadline
passed. -/
structure SearchControl where
  cancelled : ℕ → Bool
  late : ℕ → Bool

def compareMatches (a b : SearchMatch) : Ordering :=
  (compare a.path b.path).then ((compare a.line b.line).then (compare a.column b.column))

namespace SearchState

def initial (resolved : ResolvedWorkspacePath) : SearchState :=
  ⟨[], 0, 0, 0, 0, 0, 0, [⟨resolved.absolutePath, resolved.workspaceRelativePath, 0⟩], 1, 0⟩

def skip (s : SearchState) : SearchState := { s with skippedFiles := s.skippedFiles + 1 }

def push (s : SearchState) (directory : PendingDirectory) : SearchState :=
  { s with pending := directory :: s.pending }

def record (s : SearchState) (found : SearchMatch) (outputBytes : ℕ) : SearchState :=
  { s with matched := s.matched ++ [found], outputBytes := outputBytes }

def examine (s : SearchState) : SearchState := { s with entriesExamined := s.entriesExamined + 1 }

def consider (s : SearchState) : SearchState := { s with filesConsidered := s.filesConsidered + 1 }

def scan (s : SearchState) : SearchState := { s with scannedFiles := s.scannedFiles + 1 }

def read (s : SearchState) (bytes : ℕ) : SearchState :=
  { s with inputBytes := s.inputBytes + bytes }

def pop (s : SearchState) (rest : List PendingDirectory) : SearchState := { s with pending := rest }

end SearchState

section Search

variable (folding : Folding) (tree : WorkspaceTree)
  (entries : Path → Option (List DirectoryEntry)) (input : SearchInput)
  (limits : InspectionLimits) (control : SearchControl)

def poll (s : SearchState) : Except Halt SearchState :=
  if control.cancelled s.polls then .error .cancelled else .ok { s with polls := s.polls + 1 }

def look (s : SearchState) : Except Halt SearchState :=
  if control.late s.looks then .error (.stopped .timeBudget s)
  else .ok { s with looks := s.looks + 1 }

/-- A budget that the work just counted goes beyond. -/
def within (exceeded : Bool) (reason : TruncationReason) (s : SearchState) :
    Except Halt SearchState :=
  if exceeded then .error (.stopped reason s) else .ok s

def matchLine (relative : Text) (index : ℕ) (line : Text) (s : SearchState) :
    Except Halt SearchState :=
  match utf16IndexOf line input.query with
  | none => .ok s
  | some column => do
    let text := utf16Slice limits.maxSearchLineLengthChars line
    let nextOutputBytes := s.outputBytes + Text.utf8Len text
    let s ← within (decide (limits.maxSearchOutputBytes < nextOutputBytes)) .outputBudget s
    let s := s.record ⟨relative, index + 1, column + 1, text⟩ nextOutputBytes
    within (decide (input.maxResults ≤ s.matched.length)) .matchLimit s

/-- The signal and the clock are looked at every so many lines. -/
def pollLines (index : ℕ) (s : SearchState) : Except Halt SearchState :=
  if index % 64 = 0 then poll control s >>= look control else .ok s

def searchLines (relative : Text) : ℕ → List Text → SearchState → Except Halt SearchState
  | _, [], s => .ok s
  | index, line :: rest, s => do
    let s ← pollLines control index s
    let s ← matchLine input limits relative index line s
    searchLines relative (index + 1) rest s

/-- A file is considered, then scanned, before its bytes are read. -/
def considerFile (bytes : FileBytes) (s : SearchState) : Except Halt SearchState := do
  let s := s.consider
  let s ← within (decide (limits.maxSearchFilesConsidered < s.filesConsidered)) .fileBudget s
  if limits.maxSearchFileSizeBytes < bytes.length then .ok s.skip
  else within (decide (limits.maxSearchFiles ≤ s.scannedFiles)) .scanBudget s

def scanFile (relative : Text) (bytes : FileBytes) (s : SearchState) : Except Halt SearchState := do
  let s ← poll control s.scan
  let s ← poll control s
  let s := s.read bytes.length
  let s ← within (decide (limits.maxSearchInputBytes < s.inputBytes)) .inputBudget s
  if looksBinary bytes then .ok s.skip
  else
    match decodeUtf8 bytes with
    | none => .ok s.skip
    | some text => do
      let s ← poll control s
      searchLines input limits control relative 0 (splitIntoLines text) s

/-- A file beyond the size bound is skipped; the bounded read of a smaller one is complete. -/
def visitFile (relative : Text) (bytes : FileBytes) (s : SearchState) : Except Halt SearchState :=
  do
  let s ← considerFile limits bytes s
  if limits.maxSearchFileSizeBytes < bytes.length then .ok s
  else scanFile input limits control relative bytes s

def visitName (directory : PendingDirectory) (name : Text) (s : SearchState) :
    Except Halt SearchState := do
  let s ← poll control s
  let s ← look control s
  let relative := childRelativePath directory.relative name
  if isModelProtected folding relative then .ok s.skip
  else do
    let s ← poll control s
    let absolute := directory.absolute ++ [name]
    match tree.fs.node absolute with
    | none => do
      let s ← poll control s
      .error (.stopped .unreadable s.skip)
    | some node => do
      let s ← poll control s
      match node with
      | .link _ => .ok s.skip
      | .directory => .ok (s.push ⟨absolute, relative, directory.depth + 1⟩)
      | .file bytes => visitFile input limits control relative bytes s
      | .special => .ok s.skip

def visitNames (directory : PendingDirectory) : List Text → SearchState → Except Halt SearchState
  | [], s => .ok s
  | name :: rest, s => do
    let s ← visitName folding tree input limits control directory name s
    visitNames directory rest s

def skipForeign (entry : DirectoryEntry) (s : SearchState) : SearchState :=
  if entry.text.isSome then s else s.skip

/-- Every enumerated entry counts, whatever its name. -/
def examineEntries : List DirectoryEntry → SearchState → Except Halt SearchState
  | [], s => .ok s
  | entry :: rest, s => do
    let s ← poll control s
    let s := s.examine
    let s ← within (decide (limits.maxSearchEntries < s.entriesExamined)) .entryBudget s
    let s ← poll control s
    examineEntries rest (skipForeign entry s)

/-- The names that are visited, in their order. -/
def visitedNames (names : List Text) : List Text :=
  (names.filter fun name => !isExcludedName folding name).insertionSort (· ≤ ·)

def visitDirectory (directory : PendingDirectory) (s : SearchState) : Except Halt SearchState := do
  let s ← within (decide (limits.maxSearchDepth < directory.depth)) .depthBudget s
  let s ← poll control s
  match entries directory.absolute with
  | none => do
    let s ← poll control s
    .error (.stopped .unreadable s.skip)
  | some listed => do
    let s ← poll control s
    let s ← examineEntries limits control listed s
    let names := visitedNames folding (listed.filterMap DirectoryEntry.text)
    visitNames folding tree input limits control directory names s

/-- The next pending directory is taken while the tree is not exhausted. -/
def arrive (rest : List PendingDirectory) (s : SearchState) : Except Halt SearchState := do
  let s ← poll control (s.pop rest)
  look control s

/-- The recursion is on the directories that may still be visited. -/
def searchLoop : ℕ → SearchState → Except Halt SearchState
  | 0, s =>
    match s.pending with
    | [] => .ok s
    | _ :: rest => do
      let s ← arrive control rest s
      .error (.stopped .directoryBudget s)
  | remaining + 1, s =>
    match s.pending with
    | [] => .ok s
    | directory :: rest => do
      let s ← arrive control rest s
      let s ← visitDirectory folding tree entries input limits control directory s
      searchLoop remaining s

/-- Matches are sorted at the boundary, however the traversal ended. -/
def reportSearch (path : Text) (s : SearchState) (reason : Option TruncationReason) :
    SearchOutcome :=
  .success input.query path (s.matched.insertionSort fun a b => compareMatches a b ≠ .gt)
    s.scannedFiles s.skippedFiles reason.isSome reason

def insideExcludedNamed (component : Text) : Text :=
  "Path is inside the excluded directory ".toList ++ component ++ ['.']

/-- `search_with_control`: the first poll stands before the traversal, the last one after it. -/
def searchEntries : SearchOutcome :=
  match resolveWorkspacePath tree.fs tree.root input.path with
  | .error rejection => .denied rejection.message
  | .ok resolved =>
    match guardPath folding insideExcludedNamed resolved.workspaceRelativePath with
    | some message => .denied message
    | none =>
      if control.cancelled 0 then .cancelled
      else
        match searchLoop folding tree entries input limits control limits.maxSearchDirectories
            (.initial resolved) >>= poll control with
        | .ok s => reportSearch input resolved.workspaceRelativePath s none
        | .error .cancelled => .cancelled
        | .error (.stopped reason s) =>
          reportSearch input resolved.workspaceRelativePath s (some reason)

def search : SearchOutcome := searchEntries folding tree tree.enumerate.entries input limits control

end Search

end Siralos.Inspection
