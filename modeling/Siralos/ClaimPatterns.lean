import Siralos.Patterns
import Siralos.PlanScreen

/-!
# The regular expressions behind the policy claim matchers

Each matcher quotes the expression it was ported from. Beside them stand the matches that the ports
find, and the kinds of match that they pass over.
-/

set_option autoImplicit false

namespace Siralos.PlanValidation

open Knowledge

/-- `[^.\n]{least,most}` -/
def gap (least most : ℕ) : Pattern UInt8 :=
  .repeated (fun b => b != 0x2E && b != 0x0A) least (some most)

def isSpaceByte (b : UInt8) : Bool := (0x09 ≤ b && b ≤ 0x0D) || b == 0x20

/-- `\s{least,}` -/
def spaces (least : ℕ) : Pattern UInt8 := .repeated isSpaceByte least none

def literal (name : String) : Pattern UInt8 := .literal (word name.toList)

/-- `names?` -/
def plural (name : String) : Pattern UInt8 := .chain [literal name, .optional (literal "s")]

/-- `turn\s*way` -/
def turned (way : String) : Pattern UInt8 := .chain [literal "turn", spaces 0, literal way]

def documentedNouns : Pattern UInt8 :=
  .anyOf [literal "network", literal "internet", literal "shell", literal "write",
    literal "execution", plural "command", literal "sandbox", literal "approval",
    literal "mutation"]

/-- `\b(enable|allow|grant|permit|approve)\b[^.\n]{0,60}\b(unrestricted|full)?\s*(network|internet|
shell|write|execution|commands?|sandbox|approval|mutation)\b` -/
def documentedOne : Pattern UInt8 :=
  .chain [.edge, .oneOf claimVerbs, .edge, gap 0 60, .edge, .optional (.oneOf claimQualifiers),
    spaces 0, documentedNouns, .edge]

def documentedLeads : Pattern UInt8 :=
  .anyOf [literal "disable", literal "bypass", turned "off", turned "down", literal "ignore",
    literal "override"]

/-- `\b(disable|bypass|turn\s*off|turn\s*down|ignore|override)\b[^.\n]{0,60}\b(sandbox|approval|
checkpoint|security|policy|restriction|limit|permission)\b` -/
def documentedTwo : Pattern UInt8 :=
  .chain [.edge, documentedLeads, .edge, gap 0 60, .edge, .oneOf protectedTargets, .edge]

/-- `\bno\s+(approval|permission|checkpoint|review|sandbox)\b[^.\n]{0,40}\b(needed|required|
necessary)\b` -/
def documentedThree : Pattern UInt8 :=
  .chain [.edge, literal "no", spaces 1,
    .oneOf (words ["approval", "permission", "checkpoint", "review", "sandbox"]), .edge, gap 0 40,
    .edge, .oneOf waivedTails, .edge]

def documentedSubjects : Pattern UInt8 :=
  .anyOf [plural "command", plural "script", literal "shell", literal "execution",
    plural "mutation", plural "write", plural "edit"]

/-- `\b(commands?|scripts?|shell|execution|mutations?|writes?|edits?)\b[^.\n]{0,40}\b(without|no)\s+
(approval|permission|checkpoint|review)\b` -/
def documentedFour : Pattern UInt8 :=
  .chain [.edge, documentedSubjects, .edge, gap 0 40, .edge, .oneOf claimConnectors, spaces 1,
    .oneOf claimObjects, .edge]

/-- `^[^.\n]{0,40}\b(unrestricted|full)\s+(network|shell|write|access)\b` -/
def documentedFive : Pattern UInt8 :=
  .chain [.opening, gap 0 40, .edge, .oneOf claimQualifiers, spaces 1, .oneOf openingNouns, .edge]

def documentedClaims : List (Pattern UInt8) :=
  [documentedOne, documentedTwo, documentedThree, documentedFour, documentedFive]

/-- One of the words between boundaries, and the rest behind it. -/
def claimPattern (leads : List Bytes) (rest : List (Pattern UInt8)) : Pattern UInt8 :=
  .chain (.edge :: .oneOf leads :: .edge :: rest)

def nearNoun : Pattern UInt8 := claimPattern claimVerbs [gap 0 60, .edge, .oneOf claimNouns, .edge]

/-- A qualifier of the gap, at least one space and a noun. -/
def qualifiedNoun (least most : ℕ) (qualifier : String) : Pattern UInt8 :=
  claimPattern claimVerbs
    [gap least most, .edge, .oneOf (words [qualifier]), spaces 1, .oneOf claimNouns, .edge]

def ledPattern (leads targets : List Bytes) (most : ℕ) : Pattern UInt8 :=
  claimPattern leads [gap 0 most, .edge, .oneOf targets, .edge]

/-- The connector in the gap behind a subject, and an object. -/
def connected (connector : String) : List (Pattern UInt8) :=
  [gap 0 40, .edge, .oneOf (words [connector]), spaces 1, .oneOf claimObjects, .edge]

/-- The connector `without`, whatever stands behind it. -/
def withoutNear : Pattern UInt8 :=
  .chain [gap 0 40, .edge, .oneOf (words ["without"]), .edge]

def seenClaims : List (Pattern UInt8) :=
  [nearNoun, qualifiedNoun 0 48 "unrestricted", qualifiedNoun 0 56 "full",
    ledPattern disableLeads protectedTargets 60, ledPattern waivedKinds waivedTails 40,
    claimPattern claimSubjects (connected "without"),
    claimPattern claimSubjects (.notAhead withoutNear :: connected "no"), documentedFive]

def fusedNoun : Pattern UInt8 :=
  claimPattern claimVerbs [gap 0 60, .edge, .oneOf claimQualifiers, .oneOf claimNouns, .edge]

def lateNoun : Pattern UInt8 :=
  claimPattern claimVerbs [gap 60 60, .edge, spaces 1, .oneOf claimNouns, .edge]

def missedClaims : List (Pattern UInt8) :=
  [fusedNoun, lateNoun, qualifiedNoun 49 60 "unrestricted", qualifiedNoun 57 60 "full",
    ledPattern (words ["turnoff", "turndown"]) protectedTargets 60,
    claimPattern claimSubjects (.ahead withoutNear :: connected "no")]

/-- What the ports let through although an expression matches it. -/
def SlipsThrough (bytes : Bytes) : Prop :=
  (∃ p ∈ missedClaims, Pattern.Found isWordByte bytes p) ∧
    ¬ ∃ p ∈ seenClaims, Pattern.Found isWordByte bytes p

end Siralos.PlanValidation
