import Siralos.Text
import Siralos.Chunks
import Siralos.Cursor

/-!
# New files and their scope

The paths of a change are matched against the planned patterns. Signals are raised over the new
production files, and a report classifies every changed path.
-/

set_option autoImplicit false

namespace Siralos.NewFiles

open Chunks Cursor Text
open scoped Computability

structure NewFileRationale where
  path : Text
  reason : Text
  existingOwnersInspected : List Text
  deriving DecidableEq, Repr

structure ProliferationSignal where
  id : Text
  message : Text
  deriving DecidableEq, Repr

inductive ScopeDiffClassification where
  | expected
  | justifiedExpansion
  | unexplainedExpansion
  deriving DecidableEq, Repr

structure ScopeDiffEntry where
  path : Text
  classification : ScopeDiffClassification
  rationale : Option Text
  deriving DecidableEq, Repr

structure ScopeDiffReport where
  entries : List ScopeDiffEntry
  unexplained : List Text
  deriving DecidableEq, Repr

def maxPathBytes : ℕ := 1024

def maxSignals : ℕ := 32

def maxSignalMessageBytes : ℕ := 512

def maxDiffEntries : ℕ := 256

def maxNewProductionFiles : ℕ := 5

def maxTinyHelperFiles : ℕ := 2

def tinyFileBytes : ℕ := 256

def maxChangedOutsideScope : ℕ := 3

def validatePath (path : Text) : Except Text Text :=
  let text := trim path
  if text.isEmpty then .error "A file path must not be empty."
  else if maxPathBytes < utf8Len text then
    .error ("A file path exceeds ".toList ++ Text.ofNat maxPathBytes ++ " UTF-8 bytes.".toList)
  else .ok text

inductive Token where
  | lit (c : Char)
  | starNoSlash
  | doubleStar
  deriving DecidableEq, Repr

def segmentTokens (segment : Text) : List Token :=
  if segment == ['*', '*'] then [.doubleStar]
  else segment.map fun c => if c == '*' then .starNoSlash else .lit c

def tokensOf (pattern : Text) : List Token :=
  (pattern.splitOn '/').zipIdx.flatMap fun (segment, index) =>
    (if index > 0 then [.lit '/'] else []) ++ segmentTokens segment

def doubleStarValid (chars : Text) : Bool :=
  match chars with
  | [] => true
  | first :: _ =>
    first != '/' && (chars.zip chars.tail).all fun window => !(window.1 == '/' && window.2 == '/')

/-- `chars` are the characters from the position on. -/
def matchFrom : List Token → Text → Bool
  | [], chars => chars.isEmpty
  | .lit expected :: tokens, chars =>
    match chars with
    | [] => false
    | c :: rest => c == expected && matchFrom tokens rest
  | .starNoSlash :: tokens, chars =>
    anyCutBack (fun part => part.all (· != '/')) (matchFrom tokens) chars
  | .doubleStar :: tokens, chars => anyCut doubleStarValid (matchFrom tokens) chars

def pathMatchesPattern (path pattern : Text) : Bool :=
  if !pattern.contains '*' then path == pattern else matchFrom (tokensOf pattern) path

structure EvaluateScopeDiffInput where
  plannedPaths : List Text
  changedPaths : List Text
  rationales : List NewFileRationale

/-- The paths one by one, after the entries and the unexplained paths so far. -/
def scopeDiffFrom (planned : List Text) (rationales : List NewFileRationale) :
    List ScopeDiffEntry → List Text → List Text → Except Text ScopeDiffReport
  | entries, unexplained, [] => .ok ⟨entries, unexplained⟩
  | entries, unexplained, path :: paths => do
    let normalized ← validatePath path
    if planned.any (pathMatchesPattern normalized) then
      scopeDiffFrom planned rationales (entries ++ [⟨normalized, .expected, none⟩]) unexplained
        paths
    else
      match (rationales.find? (·.path == normalized)).map (·.reason) with
      | some rationale =>
        scopeDiffFrom planned rationales
          (entries ++ [⟨normalized, .justifiedExpansion, some rationale⟩]) unexplained paths
      | none =>
        scopeDiffFrom planned rationales (entries ++ [⟨normalized, .unexplainedExpansion, none⟩])
          (unexplained ++ [normalized]) paths

def evaluateScopeDiff (input : EvaluateScopeDiffInput) : Except Text ScopeDiffReport :=
  if maxDiffEntries < input.changedPaths.length then
    .error ("Scope evaluation accepts at most ".toList ++ Text.ofNat maxDiffEntries ++
      " changed paths.".toList)
  else scopeDiffFrom input.plannedPaths input.rationales [] [] input.changedPaths

structure NewProductionFile where
  path : Text
  sizeBytes : ℕ
  deriving DecidableEq, Repr

structure DetectProliferationSignalsInput where
  newProductionFiles : List NewProductionFile
  plannedPaths : List Text
  knownDirectories : List Text

def directoryOf (path : Text) : Text :=
  if path.contains '/' then (path.rdropWhile (· != '/')).dropLast else ['.']

def newDirectoriesFrom (known : List Text) : List Text → List NewProductionFile → List Text
  | found, [] => found
  | found, file :: files =>
    let directory := directoryOf file.path
    if directory != ['.'] && !known.contains directory && !found.contains directory then
      newDirectoriesFrom known (found ++ [directory]) files
    else newDirectoriesFrom known found files

def manyNewFiles (count : ℕ) : ProliferationSignal where
  id := "PROLIF.MANY_NEW_FILES"
  message := Text.ofNat count ++ " new production files in one task exceeds the ".toList ++
    Text.ofNat maxNewProductionFiles ++
    "-file review signal; confirm each has a recorded rationale.".toList

def tinyHelpers (count : ℕ) : ProliferationSignal where
  id := "PROLIF.TINY_HELPERS"
  message := Text.ofNat count ++ " tiny helper files (under ".toList ++
    Text.ofNat tinyFileBytes ++ " bytes); consider extending an existing owner.".toList

def directoryLead : Text := "new directories created for this change: "

def directoryTail : Text := "; verify a distinct responsibility boundary exists."

def newDirectory (directories : List Text) : ProliferationSignal where
  id := "PROLIF.NEW_DIRECTORY"
  message := directoryLead ++ [',', ' '].intercalate directories ++ directoryTail

def outsideScope (count : ℕ) : ProliferationSignal where
  id := "PROLIF.OUTSIDE_SCOPE"
  message := Text.ofNat count ++ " new files do not match any planned path; ".toList ++
    "record evidence and promote through the scope before treating them as expected.".toList

/-- A message that is too long is cut at a byte; nothing where the byte is inside a character. -/
def boundSignal (signal : ProliferationSignal) : Option ProliferationSignal :=
  if maxSignalMessageBytes < utf8Len signal.message then
    (cut Char.utf8Size (min 240 (utf8Len signal.message)) signal.message).map fun parts =>
      { signal with message := parts.1 ++ ['…'] }
  else some signal

def detectProliferationSignals (input : DetectProliferationSignalsInput) :
    Option (Except Text (List ProliferationSignal)) :=
  let files := input.newProductionFiles
  let many :=
    if files.length > maxNewProductionFiles then [manyNewFiles files.length] else []
  let tinyCount := files.countP fun file => file.sizeBytes < tinyFileBytes
  let tiny := if tinyCount > maxTinyHelperFiles then [tinyHelpers tinyCount] else []
  let newDirectories := newDirectoriesFrom input.knownDirectories [] files
  let directories := if !newDirectories.isEmpty then [newDirectory newDirectories] else []
  let outsideScopeCount := files.countP fun file =>
    !input.plannedPaths.any (pathMatchesPattern file.path)
  let outside :=
    if outsideScopeCount > maxChangedOutsideScope then [outsideScope outsideScopeCount] else []
  let signals := (many ++ tiny ++ directories ++ outside).take maxSignals
  (signals.mapM boundSignal).map Except.ok

end Siralos.NewFiles
