import Siralos.KnowledgePolicy

/-!
# The screens of plan texts

Secret-shaped content and policy-shaped capability claims, found by hand-written scans over the
bytes of a text.
-/

set_option autoImplicit false

namespace Siralos.PlanValidation

open Knowledge

section Scans

variable (bytes : Bytes)

def boundaryBefore (start : ℕ) : Bool := start == 0 || !(bytes[start - 1]?).any isWordByte

def boundaryAfter (stop : ℕ) : Bool := !(bytes[stop]?).any isWordByte

def startsWithAt (start : ℕ) (sought : Bytes) : Bool := sought.isPrefixOf (bytes.drop start)

/-- The positions that `find_subslice` yields when each search starts one past the last hit. -/
def occurrences (start : ℕ) (needle : Bytes) : List ℕ :=
  (List.range' start (bytes.length + 1 - (start + needle.length))).filter fun position =>
    startsWithAt bytes position needle

/-- The end of the longest gap of at most `max` bytes without the excluded one. -/
def gapEnd (start max : ℕ) (excluded : UInt8) : ℕ :=
  start + (((bytes.drop start).take max).takeWhile (· != excluded)).length

def skipWhile (accepted : UInt8 → Bool) (start : ℕ) : ℕ :=
  start + ((bytes.drop start).takeWhile accepted).length

end Scans

def assignmentWords : List Bytes :=
  words ["api_key", "api-key", "apikey", "secret", "password", "passwd", "token", "bearer",
    "credential", "access-key", "private_key", "private-key", "privatekey", "access_key",
    "accesskey"]

def isSecretValueByte (b : UInt8) : Bool :=
  isAsciiAlphanumeric b || b == 0x5F || b == 0x2D || b == 0x2E || b == 0x2F || b == 0x2B

/-- What one word decides at one start: nothing, so that the next word is tried, or the answer
for this start. -/
def assignmentAt (bytes : Bytes) (start : ℕ) (sought : Bytes) : Option Bool :=
  if !startsWithAt bytes start sought then none
  else
    let stop := start + sought.length
    if !boundaryAfter bytes stop then none
    else if !boundaryBefore bytes start then none
    else
      let separator := skipWhile bytes isAsciiWhitespace stop
      if !(bytes[separator]?).any fun b => b == 0x3A || b == 0x3D then none
      else
        let value := skipWhile bytes isAsciiWhitespace (separator + 1)
        some (decide (8 ≤ ((bytes.drop value).takeWhile isSecretValueByte).length))

def secretAssignmentPattern (text : Text) : Bool :=
  let bytes := (bytesOf text).map toAsciiLower
  (List.range bytes.length).any fun start =>
    (assignmentWords.findSome? (assignmentAt bytes start)).getD false

def keyPrefixes : List Bytes := words ["sk", "pk", "ghp", "gho", "ghu"]

def keyPrefixAt (bytes lower : Bytes) (start : ℕ) (sought : Bytes) : Option Bool :=
  if !startsWithAt lower start sought then none
  else if !boundaryBefore lower start then none
  else
    let stop := skipWhile bytes isAsciiAlphanumeric (start + sought.length)
    if stop - (start + sought.length) < 16 then none else some (boundaryAfter bytes stop)

def isAwsKeyByte (b : UInt8) : Bool := (0x30 ≤ b && b ≤ 0x39) || (0x41 ≤ b && b ≤ 0x5A)

def awsKeyAt (bytes : Bytes) (start : ℕ) : Bool :=
  startsWithAt bytes start (word "AKIA") && boundaryBefore bytes start &&
    let stop := skipWhile bytes isAwsKeyByte (start + 4)
    decide (16 ≤ stop - (start + 4)) && boundaryAfter bytes stop

def secretKeyPrefixPattern (text : Text) : Bool :=
  let bytes := bytesOf text
  let lower := bytes.map toAsciiLower
  ((List.range bytes.length).any fun start =>
    (keyPrefixes.findSome? (keyPrefixAt bytes lower start)).getD false) ||
  (List.range bytes.length).any (awsKeyAt bytes)

def secretMessage : Text := "The plan contains secret-shaped content and was rejected."

def rejectSecretContent (text : Text) : Option Text :=
  if secretAssignmentPattern text || secretKeyPrefixPattern text then some secretMessage else none

section Claims

variable (bytes : Bytes)

/-- A match of two words: the second starts where the gap behind the first may end. -/
def targetWithin (targets : List Bytes) (start limit : ℕ) : Bool :=
  targets.any fun target =>
    ((occurrences bytes start target).takeWhile (· ≤ limit)).any fun position =>
      boundaryBefore bytes position && boundaryAfter bytes (position + target.length)

def claimVerbs : List Bytes := words ["enable", "allow", "grant", "permit", "approve"]

def claimNouns : List Bytes :=
  words ["network", "internet", "shell", "write", "execution", "commands", "command", "sandbox",
    "approval", "mutation"]

def claimQualifiers : List Bytes := words ["unrestricted", "full"]

/-- One of the nouns, with word boundaries on both sides. -/
def nounStartsNounMatch (cursor : ℕ) (nouns : List Bytes) : Bool :=
  if decide (bytes.length < cursor) ||
      (decide (cursor < bytes.length) && !boundaryBefore bytes cursor) then false
  else nouns.any fun noun =>
    startsWithAt bytes cursor noun && boundaryAfter bytes (cursor + noun.length)

def qualifiedNounAt (limit cursor : ℕ) (qualifier : Bytes) : Bool :=
  startsWithAt bytes cursor qualifier && boundaryBefore bytes cursor &&
    decide (cursor + qualifier.length ≤ limit) &&
    nounStartsNounMatch bytes (skipWhile bytes (· == 0x20) (cursor + qualifier.length)) claimNouns

/-- Every place inside the gap for the optional qualifier, or for the noun itself. -/
def policyClaimOne : Bool :=
  claimVerbs.any fun verb => (occurrences bytes 0 verb).any fun start =>
    let verbEnd := start + verb.length
    let limit := gapEnd bytes verbEnd 60 0x2E
    boundaryBefore bytes start && boundaryAfter bytes verbEnd &&
      (List.range' verbEnd (limit + 1 - verbEnd)).any fun cursor =>
        claimQualifiers.any (qualifiedNounAt bytes limit cursor) ||
          nounStartsNounMatch bytes cursor claimNouns

def disableLeads : List Bytes :=
  words ["disable", "bypass", "turn off", "turn down", "ignore", "override"]

def protectedTargets : List Bytes :=
  words ["sandbox", "approval", "checkpoint", "security", "policy", "restriction", "limit",
    "permission"]

/-- A lead between word boundaries, and one of the targets within the gap behind it. -/
def ledTarget (leads targets : List Bytes) (gap : ℕ) : Bool :=
  leads.any fun lead => (occurrences bytes 0 lead).any fun start =>
    let leadEnd := start + lead.length
    boundaryBefore bytes start && boundaryAfter bytes leadEnd &&
      targetWithin bytes targets leadEnd (gapEnd bytes leadEnd gap 0x2E)

def policyClaimTwo : Bool := ledTarget bytes disableLeads protectedTargets 60

def waivedKinds : List Bytes :=
  words ["no approval", "no permission", "no checkpoint", "no review", "no sandbox"]

def waivedTails : List Bytes := words ["needed", "required", "necessary"]

def policyClaimThree : Bool := ledTarget bytes waivedKinds waivedTails 40

def claimSubjects : List Bytes :=
  words ["commands", "command", "scripts", "script", "shell", "execution", "mutations", "mutation",
    "writes", "write", "edits", "edit"]

def claimConnectors : List Bytes := words ["without", "no"]

def claimObjects : List Bytes := words ["approval", "permission", "checkpoint", "review"]

/-- One of the words behind at least one space. -/
def spacedWord (objects : List Bytes) (stop : ℕ) : Bool :=
  let wordStart := skipWhile bytes (· == 0x20) stop
  wordStart != stop && objects.any fun object =>
    startsWithAt bytes wordStart object && boundaryAfter bytes (wordStart + object.length)

/-- The occurrences of a connector between word boundaries that start in the gap. -/
def connectorHits (start limit : ℕ) (connector : Bytes) : List ℕ :=
  ((occurrences bytes start connector).takeWhile (· ≤ limit)).filter fun position =>
    boundaryBefore bytes position && boundaryAfter bytes (position + connector.length)

/-- A connector that was found ends the search, with or without an object behind it. -/
def connectorSearch (start limit : ℕ) : List Bytes → Bool
  | [] => false
  | connector :: rest =>
    let hits := connectorHits bytes start limit connector
    if hits.any fun position => spacedWord bytes claimObjects (position + connector.length) then
      true
    else if !hits.isEmpty then false
    else connectorSearch start limit rest

def policyClaimFour : Bool :=
  claimSubjects.any fun subject => (occurrences bytes 0 subject).any fun start =>
    let subjectEnd := start + subject.length
    boundaryBefore bytes start && boundaryAfter bytes subjectEnd &&
      connectorSearch bytes subjectEnd (gapEnd bytes subjectEnd 40 0x2E) claimConnectors

def openingNouns : List Bytes := words ["network", "shell", "write", "access"]

def policyClaimFive : Bool :=
  claimQualifiers.any fun qualifier =>
    ((occurrences bytes 0 qualifier).takeWhile (· ≤ gapEnd bytes 0 40 0x2E)).any fun position =>
      boundaryBefore bytes position && boundaryAfter bytes (position + qualifier.length) &&
        spacedWord bytes openingNouns (position + qualifier.length)

end Claims

def policyClaimMessage : Text :=
  "The plan contains a policy-shaped capability claim; plans are descriptive and can never grant or disable capability, sandbox, approval, or execution policy."

/-- `split_whitespace` pieces joined by single spaces, after `to_lowercase`. -/
def normalizedClaimBytes (toLowercase : Text → Text) (text : Text) : Bytes :=
  bytesOf (Text.trim (collapseSpaces false (toLowercase text)))

def rejectPlanPolicyClaims (toLowercase : Text → Text) (text : Text) : Option Text :=
  let bytes := normalizedClaimBytes toLowercase text
  if policyClaimOne bytes || policyClaimTwo bytes || policyClaimThree bytes ||
      policyClaimFour bytes || policyClaimFive bytes then
    some policyClaimMessage
  else none

end Siralos.PlanValidation
