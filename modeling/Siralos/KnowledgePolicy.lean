import Siralos.Identity

/-!
# Policy-shaped knowledge

The structural rejection of permission and capability claims: word matches over the bytes of the
lower-cased content, with bounded gaps between them.
-/

set_option autoImplicit false

namespace Siralos.Knowledge

/-- `char::is_whitespace` runs become one space, and none stays at either end. -/
def collapseSpaces : Bool → Text → Text
  | _, [] => []
  | spaced, c :: rest =>
    if Text.isWhitespace c then
      if spaced then collapseSpaces true rest else ' ' :: collapseSpaces true rest
    else c :: collapseSpaces false rest

def normalizeLineBreaks : Text → Text
  | '\r' :: '\n' :: rest => '\n' :: normalizeLineBreaks rest
  | c :: rest => c :: normalizeLineBreaks rest
  | [] => []

def normalizeFactContent (content : Text) : Text :=
  Text.trim (collapseSpaces false (normalizeLineBreaks content))

abbrev Bytes := List UInt8

def bytesOf (text : Text) : Bytes := text.flatMap String.utf8EncodeChar

/-- `b".."` of an ASCII literal. -/
def word (text : Text) : Bytes := text.map fun c => UInt8.ofNat c.toNat

section Words

def isAsciiAlphanumeric (b : UInt8) : Bool :=
  (0x30 ≤ b && b ≤ 0x39) || (0x41 ≤ b && b ≤ 0x5A) || (0x61 ≤ b && b ≤ 0x7A)

def isWordByte (b : UInt8) : Bool := isAsciiAlphanumeric b || b == 0x5F

def isAsciiWhitespace (b : UInt8) : Bool :=
  b == 0x20 || b == 0x09 || b == 0x0A || b == 0x0C || b == 0x0D

def toAsciiLower (b : UInt8) : UInt8 := if 0x41 ≤ b && b ≤ 0x5A then b + 0x20 else b

variable (text : Bytes)

def wordStartsBefore (index : ℕ) : Bool :=
  index == 0 || !(text[index - 1]?).any isWordByte

def wordEndsAt (last : ℕ) : Bool := !(text[last]?).any isWordByte

def wordAt (sought : Bytes) (start : ℕ) : Bool :=
  ((text.drop start).take sought.length).map toAsciiLower == sought.map toAsciiLower &&
    wordStartsBefore text start && wordEndsAt text (start + sought.length)

def findWord (sought : Bytes) : List ℕ :=
  if text.length < sought.length then []
  else (List.range (text.length - sought.length + 1)).filter (wordAt text sought)

def gapOk (firstEnd secondStart maxGap : ℕ) : Bool :=
  decide (firstEnd ≤ secondStart ∧ secondStart - firstEnd ≤ maxGap) &&
    ((text.drop firstEnd).take (secondStart - firstEnd)).all fun b => b != 0x2E && b != 0x0A

def anyOrderedPairWithinGap (firsts seconds : List Bytes) (maxGap : ℕ) : Bool :=
  firsts.any fun first => (findWord text first).any fun firstStart =>
    seconds.any fun second => (findWord text second).any fun secondStart =>
      gapOk text (firstStart + first.length) secondStart maxGap

/-- The first position from `cursor` on that holds no white space. -/
def skipWhitespace (cursor : ℕ) : ℕ :=
  cursor + ((text.drop cursor).takeWhile isAsciiWhitespace).length

/-- Two words with nothing but white space between them, as start and end. -/
def phrasePositions (first second : Bytes) : List (ℕ × ℕ) :=
  (findWord text first).flatMap fun firstStart =>
    let firstEnd := firstStart + first.length
    let cursor := skipWhitespace text firstEnd
    if cursor = firstEnd then []
    else ((findWord text second).filter (· == cursor)).map fun secondStart =>
      (firstStart, secondStart + second.length)

end Words

section Claims

variable (lower : Bytes)

def words (names : List String) : List Bytes := names.map fun name => word name.toList

def allowVerbs : List Bytes := words ["allow", "enable", "grant", "permit", "approve"]

def effectNouns : List Bytes :=
  words ["shell", "network", "write", "execute", "exec", "access", "sandbox", "approval",
    "mutation", "command", "commands", "internet"]

def accessNouns : List Bytes :=
  words ["access", "shell", "network", "write", "execute", "command", "commands", "script",
    "scripts"]

def protectionNouns : List Bytes :=
  words ["sandbox", "approval", "checkpoint", "security", "policy", "restriction", "limit"]

def authorityNouns : List Bytes :=
  words ["policy", "rules", "restrictions", "security", "approval"]

def authorityTails : List Bytes := words ["needed", "required", "necessary"]

def reviewNouns : List Bytes := words ["approval", "permission", "checkpoint", "review"]

def withoutFirsts : List Bytes := words ["without", "no"]

def writeActors : List Bytes := words ["writes", "edits", "changes", "mutations"]

def executionActors : List Bytes :=
  words ["command", "commands", "script", "scripts", "shell", "execution", "mutation",
    "mutations", "write", "writes", "edit", "edits", "change", "changes"]

def alwaysAllows : Bool :=
  (findWord lower (word "always")).any fun alwaysStart =>
    let cursor := skipWhitespace lower (alwaysStart + 6)
    decide (alwaysStart + 6 < cursor) && (findWord lower (word "allow")).any (· == cursor)

def grantsEffect : Bool := anyOrderedPairWithinGap lower allowVerbs effectNouns 60

def accessGranted : Bool :=
  let phrases := (words ["is", "are"]).flatMap fun verb =>
    (words ["allowed", "permitted", "granted", "enabled"]).flatMap (phrasePositions lower verb)
  accessNouns.any fun noun => (findWord lower noun).any fun nounStart =>
    phrases.any fun phrase => gapOk lower (nounStart + noun.length) phrase.1 30

def disableSpans : List (ℕ × ℕ) :=
  (findWord lower (word "disable")).map (fun start => (start, start + 7)) ++
    (findWord lower (word "bypass")).map (fun start => (start, start + 6)) ++
    phrasePositions lower (word "turn") (word "off") ++
    phrasePositions lower (word "turn") (word "down")

def disablesProtection : Bool :=
  (disableSpans lower).any fun span => protectionNouns.any fun protection =>
    (findWord lower protection).any fun protectionStart => gapOk lower span.2 protectionStart 60

def ignoresAuthority : Bool := anyOrderedPairWithinGap lower [word "ignore"] authorityNouns 40

def noReviewNeeded : Bool :=
  (reviewNouns.flatMap (phrasePositions lower (word "no"))).any fun phrase =>
    authorityTails.any fun tail => (findWord lower tail).any fun tailStart =>
      gapOk lower phrase.2 tailStart 40

def withoutPhrases : List (ℕ × ℕ) :=
  withoutFirsts.flatMap fun first => reviewNouns.flatMap (phrasePositions lower first)

def actsWithoutReview : Bool :=
  (executionActors ++ writeActors).any fun actor => (findWord lower actor).any fun actorStart =>
    (withoutPhrases lower).any fun phrase => gapOk lower (actorStart + actor.length) phrase.1 40

/-- Of each phrase only the first occurrence behind the participle is looked at. -/
def grantedWithoutReview : Bool :=
  let phrases := (words ["is", "are"]).flatMap fun verb =>
    (words ["allowed", "permitted", "granted"]).flatMap (phrasePositions lower verb)
  phrases.any fun phrase =>
    (withoutFirsts.flatMap fun first => reviewNouns.filterMap fun second =>
      ((phrasePositions lower first second).map Prod.fst).find? fun start =>
        decide (phrase.2 ≤ start)).any fun start => gapOk lower phrase.2 start 40

def opensUnrestricted : Bool :=
  (words ["unrestricted", "full"]).any fun qualifier =>
    (findWord lower qualifier).any fun qualifierStart =>
      decide (qualifierStart ≤ 40) &&
        ((lower.take qualifierStart).all fun b => b != 0x2E && b != 0x0A) &&
        (words ["network", "shell", "write", "access"]).any fun object =>
          (phrasePositions lower qualifier object).any fun phrase => phrase.1 == qualifierStart

def policyShapedReason : Text :=
  "Knowledge that claims permissions, capability grants, or sandbox/approval policy is not accepted; knowledge is factual context and can never grant capability."

/-- `toLowercase` is the standard library's. -/
def rejectPolicyShapedContent (toLowercase : Text → Text) (content : Text) : Option Text :=
  let lower := bytesOf (normalizeFactContent (toLowercase content))
  if alwaysAllows lower || grantsEffect lower || accessGranted lower || disablesProtection lower ||
      ignoresAuthority lower || noReviewNeeded lower || actsWithoutReview lower ||
      grantedWithoutReview lower || opensUnrestricted lower then
    some policyShapedReason
  else none

end Claims

end Siralos.Knowledge
