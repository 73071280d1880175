import Siralos.Knowledge

/-!
# Retrieval of knowledge

Every active fact that is neither pinned nor expired is scored against the query; the best ones
are selected until the bounds are reached.
-/

set_option autoImplicit false

namespace Siralos.Knowledge

open Json

def stopwords : List Text :=
  (["the", "a", "an", "is", "are", "was", "were", "to", "of", "for", "and", "or", "in", "on",
    "with", "at", "by", "it", "its", "this", "that", "project", "godot", "file", "files", "use",
    "uses"] : List String).map String.toList

def isTokenChar (c : Char) : Bool := isAsciiLower c || c.isDigit

/-- The maximal runs of token characters; `current` is the run being read, backwards. -/
def tokenRuns (current : Text) : Text → List Text
  | [] => if current.isEmpty then [] else [current.reverse]
  | c :: rest =>
    if isTokenChar c then tokenRuns (c :: current) rest
    else if current.isEmpty then tokenRuns [] rest
    else current.reverse :: tokenRuns [] rest

/-- The distinct tokens; nothing reads their order. -/
def tokenizeFactText (toLowercase : Text → Text) (text : Text) : List Text :=
  ((tokenRuns [] (toLowercase text)).filter fun token =>
    decide (1 < token.length) && !stopwords.contains token).dedup

structure Score where
  relevance : ℕ
  reasons : List Text
  deriving DecidableEq, Repr

namespace Score

def zero : Score := ⟨0, []⟩

def add (score : Score) (points : ℕ) (reason : Text) : Score :=
  ⟨score.relevance + points, score.reasons ++ [reason]⟩

end Score

def subjectExact : ℕ := 100
def subjectPrefix : ℕ := 40
def keywordPerOverlap : ℕ := 4
def keywordCap : ℕ := 40
def pathRelevance : ℕ := 20

def confidenceWeight : Confidence → ℕ
  | .high => 15
  | .medium => 8
  | .low => 2

def freshnessWeight (volatility : Text) : ℕ :=
  if volatility = ("volatile" : Text) then 12
  else if volatility = ("stable" : Text) then 6
  else if volatility = ("evergreen" : Text) then 4
  else 10

def freshnessWindowDays (volatility : Text) : ℕ :=
  if volatility = ("volatile" : Text) then 30
  else if volatility = ("stable" : Text) then 730
  else if volatility = ("evergreen" : Text) then 0
  else 180

def dayMs : ℕ := 86400000

structure Query where
  text : Option Text
  subjectKey : Option Text
  paths : List Text
  factTypes : Option (List Value)
  limit : Option ℕ
  maxBytes : Option ℕ
  deriving Repr

def cleanPath (raw : Text) : Text :=
  let unified := raw.map fun c => if c = '\\' then '/' else c
  (Text.stripPrefix ['.', '/'] unified).getD unified

def readQuery (query : Value) : Query where
  text := (valueAt query "text").asStr
  subjectKey := (valueAt query "subjectKey").asStr
  paths := (((valueAt query "paths").asArray).getD []).map fun path => cleanPath (path.asStr.getD [])
  factTypes := (valueAt query "factTypes").asArray
  limit := (valueAt query "limit").asU64
  maxBytes := (valueAt query "maxBytes").asU64

section Scoring

variable (lib : KnowledgeLibrary) (query : Query)

def scoreSubject (fact : Fact) (score : Score) : Score :=
  match query.subjectKey with
  | none => score
  | some subjectQuery =>
    let subjectKey := fact.subjectKey.getD []
    if subjectQuery = subjectKey then score.add subjectExact "exact subject-key match"
    else if Text.startsWith (subjectQuery ++ ['.']) subjectKey ||
        Text.startsWith (subjectKey ++ ['.']) subjectQuery then
      score.add subjectPrefix "subject-key prefix match"
    else score

def scoreKeywords (fact : Fact) (score : Score) : Score :=
  let factTokens := tokenizeFactText lib.toLowercase (fact.subjectKey.getD [] ++ ' ' :: fact.content)
  let overlap := ((tokenizeFactText lib.toLowercase (query.text.getD [])).filter
    factTokens.contains).length
  if 0 < overlap then
    score.add (min (overlap * keywordPerOverlap) keywordCap)
      ("keyword overlap (".toList ++ Text.ofNat overlap ++ ")".toList)
  else score

def relevantPath (paths : List Text) (reference : Text) : Bool :=
  paths.any fun path => reference == path || Text.startsWith (path ++ ['/']) reference ||
    Text.startsWith (reference ++ ['/']) path

def isWorkspaceFile (reference : Value) : Bool :=
  (valueAt reference "type").asStr == some "workspace_file".toList

def scorePaths (references : List Value) (score : Score) : Score :=
  match (references.filter isWorkspaceFile).find? fun reference =>
    relevantPath query.paths (textAt reference "path") with
  | none => score
  | some reference =>
    score.add pathRelevance
      ("provenance path relevance (".toList ++ textAt reference "path" ++ ")".toList)

def scoreConfidence (fact : Fact) (score : Score) : Score :=
  score.add (confidenceWeight fact.confidence) ("confidence ".toList ++ fact.confidence.asStr)

/-- The source computes the decay in floating point. A fact carries the reading of the one clock
its coordinator was built with, so the age that reaches this is zero, where nothing is rounded. -/
def scoreFreshness (atMs : ℕ) (fact : Fact) (score : Score) : Score :=
  let weight := freshnessWeight fact.volatility
  let windowMs := freshnessWindowDays fact.volatility * dayMs
  if windowMs = 0 then score.add weight "freshness 0d"
  else
    let ageMs := atMs - fact.updatedAtMs
    if ageMs < windowMs then
      score.add (weight * (windowMs - ageMs) / windowMs)
        ("freshness ".toList ++ Text.ofNat ((2 * ageMs + dayMs) / (2 * dayMs)) ++ "d".toList)
    else score

structure Considered where
  fact : Fact
  score : ℕ
  reasons : List Text
  deriving Repr

def matchesType (fact : Fact) : Bool :=
  match query.factTypes with
  | none => true
  | some types => types.any fun kind => kind.asStr == some fact.kind

/-- Whether a fact takes part in a retrieval at all. -/
def eligible (atMs : ℕ) (fact : Fact) : Bool :=
  !(fact.activation == .pinned || isExpired fact atMs) && matchesType query fact

/-- The outer option is the source's panic on a provenance that is not an array. -/
def consider (atMs : ℕ) (fact : Fact) : Option (Option Considered) := do
  let references ← fact.provenance.asArray
  let relevance := scorePaths query references
    (scoreKeywords lib query fact (scoreSubject query fact .zero))
  if relevance.relevance = 0 then some none
  else
    let score := scoreFreshness atMs fact (scoreConfidence fact relevance)
    some (some ⟨fact, score.relevance, score.reasons⟩)

def considerAll (atMs : ℕ) : List Fact → Option (List Considered)
  | [] => some []
  | fact :: facts => do
    if eligible query atMs fact then
      let first ← consider lib query atMs fact
      let rest ← considerAll atMs facts
      some (first.toList ++ rest)
    else considerAll atMs facts

end Scoring

def rankKey (fact : Fact) : Text := fact.subjectKey.getD fact.id

def ranksBefore (left right : Considered) : Bool :=
  decide (right.score < left.score) ||
    (left.score == right.score && (decide (rankKey left.fact < rankKey right.fact) ||
      (rankKey left.fact == rankKey right.fact &&
        decide (right.fact.revision ≤ left.fact.revision))))

structure Selected where
  facts : List Fact := []
  selections : List Selection := []
  usedBytes : ℕ := 0
  omitted : ℕ := 0
  deriving Repr

def selectionOf (c : Considered) : Selection where
  factId := c.fact.id
  subjectKey := c.fact.subjectKey
  revision := c.fact.revision
  confidence := c.fact.confidence
  volatility := c.fact.volatility
  score := c.score
  matchReasons := c.reasons
  expiresAtMs := c.fact.expiresAtMs

def select (limit maxBytes : ℕ) (s : Selected) (c : Considered) : Selected :=
  let bytes := factProjectionBytes c.fact
  if limit ≤ s.facts.length ∨ maxBytes < s.usedBytes + bytes then
    { s with omitted := s.omitted + 1 }
  else
    { s with
      facts := s.facts ++ [c.fact]
      selections := s.selections ++ [selectionOf c]
      usedBytes := s.usedBytes + bytes }

def boundedBy (bound : ℕ) (requested : Option ℕ) : ℕ :=
  match requested with
  | some value => min value bound
  | none => bound

namespace KnowledgeCoordinator

def retrieve (lib : KnowledgeLibrary) (k : KnowledgeCoordinator) (query : Value) :
    Option (KnowledgeCoordinator × List Fact × RetrievalTrace) := do
  let q := readQuery query
  let limit := boundedBy k.limits.maxRetrievalFacts q.limit
  let maxBytes := boundedBy k.limits.maxRetrievalBytes q.maxBytes
  let considered ← considerAll lib q k.ports.nowMs k.activeFacts
  let selected := (considered.mergeSort ranksBefore).foldl (select limit maxBytes) {}
  let trace : RetrievalTrace :=
    { atMs := k.ports.nowMs
      text := q.text
      subjectKey := q.subjectKey
      paths := q.paths
      factTypes := (query.get "factTypes").getD (.array [])
      selected := selected.selections
      consideredCount := considered.length
      omittedCount := selected.omitted
      limit := limit
      maxBytes := maxBytes
      usedBytes := selected.usedBytes }
  some ({ k with lastTrace := some trace }, selected.facts, trace)

end KnowledgeCoordinator

end Siralos.Knowledge
