import Mathlib.Algebra.BigOperators.Group.List.Basic
import Siralos.Bisect
import Siralos.Inspection
import Siralos.Redaction
import Siralos.Structure

/-!
# Structural summaries

The summary of a structural document is its body and the advisory footer. A body over the budget is
cut after so many UTF-16 units, found by bisection over the byte lengths of its prefixes.
-/

set_option autoImplicit false

namespace Siralos.Summary

open Structure
open Inspection (lenUtf16 utf16Len)
open Redaction (utf16Units encodeUtf16)
open Text (utf8Len)

def replacementCharacter : Char := Char.ofNat 0xFFFD

/-- The bytes counted for the characters left, after so many units. -/
def prefixByteLenFrom (units : ℕ) : Text → ℕ → ℕ → ℕ
  | [], _, bytes => bytes
  | c :: rest, used, bytes =>
    if units < used + lenUtf16 c then
      if used + 1 = units then bytes + 3 else bytes
    else prefixByteLenFrom units rest (used + lenUtf16 c) (bytes + c.utf8Size)

def utf16PrefixByteLen (text : Text) (units : ℕ) : ℕ := prefixByteLenFrom units text 0 0

def prefixLossyFrom (units : ℕ) : Text → ℕ → Text
  | [], _ => []
  | c :: rest, used =>
    if units < used + lenUtf16 c then
      if used + 1 = units then [replacementCharacter] else []
    else c :: prefixLossyFrom units rest (used + lenUtf16 c)

def utf16PrefixLossy (text : Text) (units : ℕ) : Text := prefixLossyFrom units text 0

def declarationCount : List StructuralDeclaration → ℕ
  | [] => 0
  | ⟨_, _, _, _, _, children⟩ :: rest => 1 + declarationCount children + declarationCount rest
termination_by declarations => declarations
decreasing_by
  · exact size_children _ _ _ _ _ _ _
  · exact size_pending _ _

def countKind (kind : StructuralKind) : List StructuralDeclaration → ℕ
  | [] => 0
  | ⟨own, _, _, _, _, children⟩ :: rest =>
    (if own = kind then 1 else 0) + countKind kind children + countKind kind rest
termination_by declarations => declarations
decreasing_by
  · exact size_children _ _ _ _ _ _ _
  · exact size_pending _ _

def kinds : List StructuralKind :=
  [.type, .function, .method, .field, .variableKind, .constant, .enum, .event, .moduleKind, .other]

/-- The kinds that occur, in their fixed order. -/
def kindCounts (declarations : List StructuralDeclaration) : List (StructuralKind × ℕ) :=
  (kinds.map fun kind => (kind, countKind kind declarations)).filter fun count => 0 < count.2

def kindName : StructuralKind → Text
  | .type => "type"
  | .function => "function"
  | .method => "method"
  | .field => "field"
  | .variableKind => "variable"
  | .constant => "constant"
  | .enum => "enum"
  | .event => "event"
  | .moduleKind => "module"
  | .other => "other"

structure SummaryOptions where
  maxBytes : Option ℕ
  notableDeclarations : Option ℕ

def defaultSummaryMaxBytes : ℕ := 4096

def defaultSummaryNotableDeclarations : ℕ := 12

def summaryFooter : Text :=
  "\nadvisory structural summary — not authoritative source; read exact before editing."

def summaryTruncationMarker : Text := "\n… [summary truncated]"

structure StructuralSummary where
  path : Text
  revision : Option Text
  text : Text
  truncated : Bool
  bytes : ℕ

def commaJoined (parts : List Text) : Text := ", ".toList.intercalate parts

def summaryHeader (document : StructuralDocument) : Text :=
  let name := ((document.path.splitOn '/').getLast?).getD document.path
  match document.revision with
  | none => name ++ " (summary no revision)".toList
  | some revision => name ++ " (summary @ ".toList ++ revision ++ ")".toList

def declarationLine (declarations : List StructuralDeclaration) : Option Text :=
  let total := declarationCount declarations
  if 0 < total then
    some ("- declarations: ".toList ++ Text.ofNat total ++ " (".toList ++
      commaJoined ((kindCounts declarations).map fun count =>
        kindName count.1 ++ ": ".toList ++ Text.ofNat count.2) ++ ")".toList)
  else none

def topLevelLine (declarations : List StructuralDeclaration) (notable : ℕ) : Option Text :=
  let named := declarations.filterMap StructuralDeclaration.name
  if named.isEmpty then none
  else
    let listed := commaJoined (named.take notable)
    if notable < named.length then
      some ("- top-level: ".toList ++ listed ++ ", ... (".toList ++ Text.ofNat named.length ++
        " total)".toList)
    else some ("- top-level: ".toList ++ listed)

def dependencyLine (dependencies : List Text) : Option Text :=
  if dependencies.isEmpty then none
  else some ("- dependencies: ".toList ++ commaJoined dependencies)

def statusLine (document : StructuralDocument) : Option Text :=
  if document.status = .partly then
    some ("- structural status: partial (".toList ++ Text.ofNat document.issues.length ++
      " issue(s))".toList)
  else none

def truncatedLine (document : StructuralDocument) : Option Text :=
  if document.truncated then some "- structural output truncated (output bound reached)".toList
  else none

def summaryBody (document : StructuralDocument) (options : SummaryOptions) : Text :=
  let notable := options.notableDeclarations.getD defaultSummaryNotableDeclarations
  ['\n'].intercalate (summaryHeader document ::
    [declarationLine document.declarations, topLevelLine document.declarations notable,
      dependencyLine document.dependencies, statusLine document,
      truncatedLine document].reduceOption)

def summaryBound (options : SummaryOptions) : ℕ :=
  max (options.maxBytes.getD defaultSummaryMaxBytes)
    (utf8Len summaryFooter + utf8Len summaryTruncationMarker)

def cutFits (body : Text) (maxBytes units : ℕ) : Bool :=
  utf16PrefixByteLen body units + utf8Len summaryTruncationMarker + utf8Len summaryFooter ≤ maxBytes

def boundedText (body : Text) (maxBytes : ℕ) : Text :=
  let units := Bisect.search (cutFits body maxBytes) 0 (utf16Len body)
  utf16PrefixLossy body units ++ summaryTruncationMarker ++ summaryFooter

def buildStructuralSummary (document : StructuralDocument) (options : SummaryOptions) :
    StructuralSummary :=
  let maxBytes := summaryBound options
  let body := summaryBody document options
  if utf8Len body + utf8Len summaryFooter ≤ maxBytes then
    ⟨document.path, document.revision, body ++ summaryFooter, false,
      utf8Len (body ++ summaryFooter)⟩
  else
    ⟨document.path, document.revision, boundedText body maxBytes, true,
      utf8Len (boundedText body maxBytes)⟩

def isSurrogate (unit : ℕ) : Bool := 0xD800 ≤ unit && unit ≤ 0xDFFF

/-- Text from code units. Half of a pair is replaced. -/
def decodeLossy : List ℕ → Text
  | [] => []
  | [unit] => [if isSurrogate unit then replacementCharacter else Char.ofNat unit]
  | unit :: low :: rest =>
    if !isSurrogate unit then Char.ofNat unit :: decodeLossy (low :: rest)
    else if unit < 0xDC00 ∧ 0xDC00 ≤ low ∧ low ≤ 0xDFFF then
      Char.ofNat (0x10000 + (unit - 0xD800) * 0x400 + (low - 0xDC00)) :: decodeLossy rest
    else replacementCharacter :: decodeLossy (low :: rest)

def unitPrefix (text : Text) (units : ℕ) : Text := decodeLossy ((encodeUtf16 text).take units)

theorem decode_scalar (c : Char) (units : List ℕ) :
    decodeLossy (c.toNat :: units) = c :: decodeLossy units := by
  have hplain : isSurrogate c.toNat = false := by
    have hvalid := c.valid
    rw [isSurrogate, Bool.and_eq_false_iff, decide_eq_false_iff_not, decide_eq_false_iff_not]
    rcases hvalid with hlow | hhigh
    · exact .inl (by rw [Char.toNat]; omega)
    · exact .inr (by rw [Char.toNat]; omega)
  cases units with
  | nil => rw [decodeLossy, decodeLossy, hplain, if_neg Bool.false_ne_true, Char.ofNat_toNat]
  | cons low rest => rw [decodeLossy, hplain, Bool.not_false, if_pos rfl, Char.ofNat_toNat]

theorem high_surrogate {c : Char} (h : ¬ c.toNat < 0x10000) :
    0xD800 + (c.toNat - 0x10000) / 0x400 < 0xDC00 := by
  have hvalid := c.valid
  have hlt : c.toNat < 0x110000 := by
    rcases hvalid with hlow | hhigh
    · rw [Char.toNat]
      omega
    · exact hhigh.2
  omega

theorem high_is_surrogate {c : Char} (h : ¬ c.toNat < 0x10000) :
    isSurrogate (0xD800 + (c.toNat - 0x10000) / 0x400) = true := by
  have hhigh := high_surrogate h
  rw [isSurrogate, Bool.and_eq_true, decide_eq_true_eq, decide_eq_true_eq]
  omega

theorem decode_pair {c : Char} (h : ¬ c.toNat < 0x10000) (units : List ℕ) :
    decodeLossy ((0xD800 + (c.toNat - 0x10000) / 0x400) ::
      (0xDC00 + (c.toNat - 0x10000) % 0x400) :: units) = c :: decodeLossy units := by
  have hhigh := high_surrogate h
  rw [decodeLossy, high_is_surrogate h, Bool.not_true, if_neg Bool.false_ne_true,
    if_pos ⟨hhigh, by omega, by omega⟩, Nat.add_sub_cancel_left, Nat.add_sub_cancel_left]
  have hvalue : 0x10000 + (c.toNat - 0x10000) / 0x400 * 0x400 + (c.toNat - 0x10000) % 0x400 =
      c.toNat := by omega
  rw [hvalue, Char.ofNat_toNat]

theorem decode_half {c : Char} (h : ¬ c.toNat < 0x10000) :
    decodeLossy [0xD800 + (c.toNat - 0x10000) / 0x400] = [replacementCharacter] := by
  rw [decodeLossy, if_pos (high_is_surrogate h)]

theorem prefix_lossy_from (units : ℕ) (text : Text) (used : ℕ) (h : used ≤ units) :
    prefixLossyFrom units text used = unitPrefix text (units - used) := by
  induction text generalizing used with
  | nil =>
    rw [prefixLossyFrom, unitPrefix, encodeUtf16, List.flatMap_nil, List.take_nil, decodeLossy]
  | cons c rest ih =>
    rw [prefixLossyFrom, unitPrefix, encodeUtf16, List.flatMap_cons, utf16Units, lenUtf16]
    by_cases hscalar : c.toNat < 0x10000
    · rw [if_pos hscalar, if_pos hscalar]
      by_cases hcut : units < used + 1
      · rw [if_pos hcut, if_neg (by omega), Nat.sub_eq_zero_of_le (by omega), List.take_zero,
          decodeLossy]
      · obtain ⟨left, hleft⟩ : ∃ left, units - used = left + 1 := ⟨units - used - 1, by omega⟩
        rw [if_neg hcut, ih (used + 1) (by omega), hleft, List.singleton_append,
          List.take_succ_cons, decode_scalar, unitPrefix, encodeUtf16,
          show units - (used + 1) = left by omega]
    · rw [if_neg hscalar, if_neg hscalar]
      by_cases hcut : units < used + 2
      · rw [if_pos hcut]
        by_cases hhalf : used + 1 = units
        · rw [if_pos hhalf, show units - used = 0 + 1 by omega, List.cons_append,
            List.take_succ_cons, List.take_zero, decode_half hscalar]
        · rw [if_neg hhalf, show units - used = 0 by omega, List.take_zero, decodeLossy]
      · obtain ⟨left, hleft⟩ : ∃ left, units - used = left + 1 + 1 :=
          ⟨units - used - 2, by omega⟩
        rw [if_neg hcut, ih (used + 2) (by omega), hleft, List.cons_append, List.singleton_append,
          List.take_succ_cons, List.take_succ_cons, decode_pair hscalar, unitPrefix, encodeUtf16,
          show units - (used + 2) = left by omega]

theorem prefix_lossy_eq (text : Text) (units : ℕ) :
    utf16PrefixLossy text units = unitPrefix text units :=
  prefix_lossy_from units text 0 (Nat.zero_le _)

theorem units_length (text : Text) : (encodeUtf16 text).length = utf16Len text := by
  induction text with
  | nil => rfl
  | cons c rest ih =>
    rw [encodeUtf16, List.flatMap_cons, List.length_append, ← encodeUtf16, ih, utf16Len, utf16Len,
      List.map_cons, List.sum_cons, utf16Units, lenUtf16]
    by_cases hscalar : c.toNat < 0x10000
    · rw [if_pos hscalar, if_pos hscalar]
      rfl
    · rw [if_neg hscalar, if_neg hscalar]
      rfl

theorem prefix_bytes_from (units : ℕ) (text : Text) (used bytes : ℕ) :
    prefixByteLenFrom units text used bytes =
      bytes + utf8Len (prefixLossyFrom units text used) := by
  induction text generalizing used bytes with
  | nil => rfl
  | cons c rest ih =>
    rw [prefixByteLenFrom, prefixLossyFrom]
    by_cases hcut : units < used + lenUtf16 c
    · rw [if_pos hcut, if_pos hcut]
      by_cases hhalf : used + 1 = units
      · rw [if_pos hhalf, if_pos hhalf]
        rfl
      · rw [if_neg hhalf, if_neg hhalf]
        rfl
    · rw [if_neg hcut, if_neg hcut, ih, Text.utf8Len_cons, Nat.add_assoc]

theorem prefix_bytes (text : Text) (units : ℕ) :
    utf16PrefixByteLen text units = utf8Len (unitPrefix text units) := by
  rw [utf16PrefixByteLen, prefix_bytes_from, Nat.zero_add, ← utf16PrefixLossy, prefix_lossy_eq]

theorem cut_size {c : Char} {used units : ℕ} (hcut : units < used + lenUtf16 c)
    (hhalf : used + 1 = units) : c.utf8Size = 4 := by
  rw [lenUtf16] at hcut
  by_cases hscalar : c.toNat < 0x10000
  · rw [if_pos hscalar] at hcut
    omega
  · rw [Char.utf8Size_eq_four_iff]
    show (0xffff : ℕ) < c.toNat
    omega

theorem prefix_bytes_mono (text : Text) {fewer units : ℕ} (h : fewer ≤ units) (used : ℕ) :
    utf8Len (prefixLossyFrom fewer text used) ≤ utf8Len (prefixLossyFrom units text used) := by
  induction text generalizing used with
  | nil => rfl
  | cons c rest ih =>
    rw [prefixLossyFrom, prefixLossyFrom]
    by_cases hcut : fewer < used + lenUtf16 c
    · rw [if_pos hcut]
      by_cases hhalf : used + 1 = fewer
      · -- The replaced half is no longer than the character.
        have hsize := cut_size hcut hhalf
        rw [if_pos hhalf]
        show 3 ≤ _
        by_cases hcut' : units < used + lenUtf16 c
        · have hsame : used + 1 = units := by
            by_contra hne
            have hlen : lenUtf16 c ≤ 2 := by
              rw [lenUtf16]
              split
              · omega
              · omega
            omega
          rw [if_pos hcut', if_pos hsame]
          exact le_rfl
        · rw [if_neg hcut', Text.utf8Len_cons]
          omega
      · rw [if_neg hhalf]
        exact Nat.zero_le _
    · rw [if_neg hcut, if_neg (by omega), Text.utf8Len_cons, Text.utf8Len_cons]
      exact Nat.add_le_add_left (ih _) _

theorem cut_fits_iff (body : Text) (maxBytes units : ℕ) :
    cutFits body maxBytes units = true ↔
      utf8Len (unitPrefix body units ++ summaryTruncationMarker ++ summaryFooter) ≤ maxBytes := by
  rw [cutFits, decide_eq_true_eq, prefix_bytes, Text.utf8Len_append, Text.utf8Len_append]

theorem cut_fits_fewer (body : Text) (maxBytes fewer units : ℕ) (h : fewer ≤ units)
    (hfits : cutFits body maxBytes units = true) : cutFits body maxBytes fewer = true := by
  have hmono := prefix_bytes_mono body h 0
  simp only [cutFits, utf16PrefixByteLen, prefix_bytes_from, decide_eq_true_eq] at hfits ⊢
  omega

/-- The kept part is the longest prefix that fits together with the marker and the footer. -/
structure LongestCut (body : Text) (maxBytes : ℕ) (text : Text) (units : ℕ) : Prop where
  within : units ≤ (encodeUtf16 body).length
  text_eq : text = unitPrefix body units ++ summaryTruncationMarker ++ summaryFooter
  longest : ∀ more, units < more → more ≤ (encodeUtf16 body).length → maxBytes <
    utf8Len (unitPrefix body more ++ summaryTruncationMarker ++ summaryFooter)

theorem bounded_text_fits (body : Text) (options : SummaryOptions) :
    utf8Len (boundedText body (summaryBound options)) ≤ summaryBound options := by
  have hnone : cutFits body (summaryBound options) 0 = true := by
    rw [cut_fits_iff, unitPrefix, List.take_zero, decodeLossy, List.nil_append,
      Text.utf8Len_append, Nat.add_comm]
    exact Nat.le_max_right _ _
  have hfits := Bisect.search_fits 0 (utf16Len body) (Nat.zero_le _) hnone
  rwa [cut_fits_iff, ← prefix_lossy_eq] at hfits

theorem bounded_text_longest (body : Text) (maxBytes : ℕ) :
    ∃ units, LongestCut body maxBytes (boundedText body maxBytes) units := by
  refine ⟨Bisect.search (cutFits body maxBytes) 0 (utf16Len body), ?_, ?_, ?_⟩
  · rw [units_length]
    exact (Bisect.search_between 0 _ (Nat.zero_le _)).2
  · rw [boundedText, prefix_lossy_eq]
  · intro more hmore hlength
    rw [units_length] at hlength
    have hnot := Bisect.search_greatest (cut_fits_fewer body maxBytes) 0 _ (Nat.zero_le _) more
      hmore hlength
    by_contra hfits
    rw [Nat.not_lt, ← cut_fits_iff, hnot] at hfits
    cases hfits

structure Advisory (body : Text) (options : SummaryOptions) (summary : StructuralSummary) :
    Prop where
  footer : summaryFooter <:+ summary.text
  counted : summary.bytes = utf8Len summary.text
  bounded : summary.bytes ≤ summaryBound options
  flag : summary.truncated = true ↔ summaryBound options < utf8Len body + utf8Len summaryFooter
  whole : summary.truncated = false → summary.text = body ++ summaryFooter
  cut : summary.truncated = true →
    ∃ units, LongestCut body (summaryBound options) summary.text units

/-- Summaries are bounded, advisory and as long as the bound lets them be. -/
theorem build_structural_summary_spec (document : StructuralDocument) (options : SummaryOptions) :
    Advisory (summaryBody document options) options (buildStructuralSummary document options) := by
  rw [buildStructuralSummary]
  by_cases hfits :
      utf8Len (summaryBody document options) + utf8Len summaryFooter ≤ summaryBound options
  · rw [if_pos hfits]
    refine ⟨List.suffix_append _ _, rfl, ?_, ?_, fun _ => rfl, nofun⟩
    · rw [← Text.utf8Len_append] at hfits
      exact hfits
    · exact iff_of_false Bool.false_ne_true (Nat.not_lt.mpr hfits)
  · rw [if_neg hfits]
    exact ⟨List.suffix_append _ _, rfl, bounded_text_fits _ _,
      iff_of_true rfl (Nat.not_le.mp hfits), nofun, fun _ => bounded_text_longest _ _⟩

end Siralos.Summary
