import Siralos.Bisect
import Siralos.Splitting
import Siralos.ToolGate

/-!
# The model's view of evidence

Raw text is stripped of control characters, redacted, collapsed where that does not lengthen it, cut
into bounded lines and truncated, in this order, with a label for every step.
-/

set_option autoImplicit false

namespace Siralos.EvidenceView

def truncationMarker : Text := "\n… [truncated]"

def truncationMarkerBytes : ℕ := 16

def transformStripAnsi : Text := "strip-ansi-control"

def transformRedactSecrets : Text := "redact-secrets"

def transformCollapse : Text := "collapse-repeated-lines"

def transformBoundLines : Text := "bound-lines"

def transformTruncate : Text := "truncate"

def redactedPlaceholder : Text := "███[REDACTED]███"

structure ModelEvidenceView where
  evidenceId : Option Text
  revision : Option Text
  text : Text
  truncated : Bool
  shownBytes : ℕ
  originalBytes : ℕ
  transformations : List Text

structure EvidenceProjectorOptions where
  secrets : List Text := []
  maxTotalBytes : ℕ := 32 * 1024
  maxLineBytes : ℕ := 1024

def isFinal (c : Char) : Bool := 0x40 ≤ c.toNat && c.toNat ≤ 0x7E

def breaksOff (c : Char) : Bool := c.toNat < 0x20 || c.toNat == 0x7F

/-- An introducer whose parameters end in a final character before any control character. -/
def isAnsiEscapeAt : Text → Bool
  | '\x1b' :: '[' :: rest => (rest.find? fun c => isFinal c || breaksOff c).any isFinal
  | _ => false

/-- The characters behind the introducer, up to the final one. -/
def parameters (rest : Text) : ℕ :=
  (rest.takeWhile fun c => !(isFinal c || breaksOff c)).length + 1

def isControl (c : Char) : Bool :=
  c.toNat ≤ 0x08 || c.toNat == 0x0B || c.toNat == 0x0C || (0x0E ≤ c.toNat && c.toNat ≤ 0x1F) ||
    c.toNat == 0x7F

/-- The number counts the characters of a sequence that are still to be consumed. -/
def stripFrom : ℕ → Text → Text
  | _, [] => []
  | skip + 1, _ :: rest => stripFrom skip rest
  | 0, c :: rest =>
    if isAnsiEscapeAt (c :: rest) then stripFrom (1 + parameters (rest.drop 1)) rest
    else if isControl c then stripFrom 0 rest
    else c :: stripFrom 0 rest

def stripAnsiAndControl (text : Text) : Text := stripFrom 0 text

/-- The number counts the lines that an earlier run took. -/
def collapseFrom : ℕ → List Text → List Text
  | _, [] => []
  | skip + 1, _ :: rest => collapseFrom skip rest
  | 0, line :: rest =>
    let run := (rest.takeWhile fun next => next == line).length + 1
    (if 3 ≤ run then [line ++ [' ', '×'] ++ Text.ofNat run] else List.replicate run line) ++
      collapseFrom (run - 1) rest

def collapseRepeatedLines (text : Text) : Text :=
  ['\n'].intercalate (collapseFrom 0 (text.splitOn '\n'))

/-- `str::replace`; the number counts the characters of the last occurrence. -/
def replaceFrom (old new : Text) : ℕ → Text → Text
  | _, [] => []
  | skip + 1, _ :: rest => replaceFrom old new skip rest
  | 0, c :: rest =>
    if Text.startsWith old (c :: rest) then new ++ replaceFrom old new (old.length - 1) rest
    else c :: replaceFrom old new 0 rest

def contains (sought text : Text) : Bool := text.tails.any (Text.startsWith sought)

def redactSecrets (text : Text) (secrets : List Text) : Text :=
  secrets.foldl (fun out secret =>
    if secret.isEmpty then out else replaceFrom secret redactedPlaceholder 0 out) text

def hasSecret (secrets : List Text) (text : Text) : Bool :=
  secrets.any fun secret => !secret.isEmpty && contains secret text

/-- The scalar boundary behind the first characters. -/
def boundary (text : Text) (characters : ℕ) : ℕ := Text.utf8Len (text.take characters)

/-- The longest beginning of at least one character that fits the bound. -/
def fittingPrefix (maxLineBytes : ℕ) (remaining : Text) : ℕ :=
  Bisect.search (fun n => decide (boundary remaining n ≤ maxLineBytes)) 1 remaining.length

theorem fitting_pos (maxLineBytes : ℕ) (c : Char) (rest : Text) :
    0 < fittingPrefix maxLineBytes (c :: rest) :=
  (Bisect.search_between 1 (c :: rest).length (Nat.le_add_left _ _)).1

def chop (maxLineBytes : ℕ) (remaining : Text) : List Text :=
  if Text.utf8Len remaining ≤ maxLineBytes then
    if remaining.isEmpty then [] else [remaining]
  else
    match remaining with
    | [] => []
    | c :: rest =>
      -- a scalar wider than the bound stays whole
      if maxLineBytes < c.utf8Size then [c] :: chop maxLineBytes rest
      else
        let low := fittingPrefix maxLineBytes (c :: rest)
        (c :: rest).take low :: chop maxLineBytes ((c :: rest).drop low)
termination_by remaining.length
decreasing_by
  · exact Nat.lt_succ_self _
  · have hpos := fitting_pos maxLineBytes c rest
    rw [List.length_drop, List.length_cons]
    show rest.length + 1 - fittingPrefix maxLineBytes (c :: rest) < rest.length + 1
    omega

def boundLine (maxLineBytes : ℕ) (line : Text) : List Text :=
  if Text.utf8Len line ≤ maxLineBytes then [line] else chop maxLineBytes line

def boundLineLength (text : Text) (maxLineBytes : ℕ) : Text :=
  ['\n'].intercalate ((text.splitOn '\n').flatMap (boundLine maxLineBytes))

def truncateText (text : Text) (maxBytes : ℕ) : Text × Bool :=
  if Text.utf8Len text ≤ maxBytes then (text, false)
  else
    let low := Bisect.search (fun n =>
      decide (boundary text n + Text.utf8Len truncationMarker ≤ maxBytes)) 0 text.length
    let truncated := text.take low ++ truncationMarker
    if maxBytes < Text.utf8Len truncated ∧ maxBytes < Text.utf8Len truncationMarker then
      (truncationMarker, true)
    else (truncated, true)

structure Projecting where
  text : Text
  transformations : List Text

def Projecting.become (s : Projecting) (text label : Text) : Projecting :=
  { text, transformations := s.transformations ++ [label] }

def stripStep (s : Projecting) : Projecting :=
  let stripped := stripAnsiAndControl s.text
  if stripped ≠ s.text then s.become stripped transformStripAnsi else s

def redactStep (secrets : List Text) (s : Projecting) : Projecting :=
  if hasSecret secrets s.text then s.become (redactSecrets s.text secrets) transformRedactSecrets
  else s

def collapses (text : Text) : Bool :=
  let collapsed := collapseRepeatedLines text
  collapsed ≠ text && decide ((ToolGate.encodeUtf16 collapsed).length ≤
    (ToolGate.encodeUtf16 text).length)

def boundStep (maxLineBytes : ℕ) (s : Projecting) : Projecting :=
  let bounded := boundLineLength s.text maxLineBytes
  if bounded ≠ s.text then s.become bounded transformBoundLines else s

/-- The collapse is discarded when the bounded text outgrew the original one. -/
def reduceStep (maxLineBytes originalBytes : ℕ) (s : Projecting) : Projecting :=
  if collapses s.text then
    let bounded :=
      boundStep maxLineBytes (s.become (collapseRepeatedLines s.text) transformCollapse)
    if originalBytes < Text.utf8Len bounded.text then
      let text := boundLineLength s.text maxLineBytes
      let kept := bounded.transformations.filter fun label =>
        label ≠ transformCollapse && label ≠ transformBoundLines
      { text, transformations := if text ≠ s.text then kept ++ [transformBoundLines] else kept }
    else bounded
  else boundStep maxLineBytes s

def projectForModel (evidenceId revision : Option Text) (rawText : Text)
    (options : EvidenceProjectorOptions) : ModelEvidenceView :=
  let originalBytes := Text.utf8Len rawText
  let secured := redactStep options.secrets (stripStep ⟨rawText, []⟩)
  let bounded := reduceStep options.maxLineBytes originalBytes secured
  let truncated := truncateText bounded.text options.maxTotalBytes
  let final := if truncated.2 then bounded.become truncated.1 transformTruncate else bounded
  { evidenceId, revision, text := final.text, truncated := truncated.2,
    shownBytes := Text.utf8Len final.text, originalBytes,
    transformations := final.transformations }

/-- No control character but tabs, line feeds and carriage returns. -/
def Clean (text : Text) : Prop := ∀ c ∈ text, isControl c = false

/-- Within the bound, or one character that is not. -/
def LineOk (maxLineBytes : ℕ) (line : Text) : Prop :=
  Text.utf8Len line ≤ maxLineBytes ∨ line.length = 1

def withoutLf (text : Text) : Text := text.filter fun c => !(c == '\n')

theorem strip_clean (skip : ℕ) (text : Text) : Clean (stripFrom skip text) := by
  induction text generalizing skip with
  | nil => cases skip <;> simp [stripFrom, Clean]
  | cons c text ih =>
    cases skip with
    | succ skip => exact ih skip
    | zero =>
      rw [stripFrom]
      by_cases hescape : isAnsiEscapeAt (c :: text) = true
      · rw [if_pos hescape]
        exact ih _
      · rw [if_neg hescape]
        by_cases hcontrol : isControl c = true
        · rw [if_pos hcontrol]
          exact ih 0
        · rw [if_neg hcontrol]
          intro d hd
          rcases List.mem_cons.mp hd with rfl | hd
          · simpa using hcontrol
          · exact ih 0 d hd

theorem mem_replace {old new text : Text} {c : Char} (skip : ℕ)
    (h : c ∈ replaceFrom old new skip text) : c ∈ new ∨ c ∈ text := by
  induction text generalizing skip with
  | nil => cases skip <;> simp [replaceFrom] at h
  | cons d text ih =>
    have hlater : ∀ skip, c ∈ replaceFrom old new skip text → c ∈ new ∨ c ∈ d :: text :=
      fun skip hskip => (ih skip hskip).imp_right (List.mem_cons_of_mem d)
    cases skip with
    | succ skip => exact hlater skip h
    | zero =>
      rw [replaceFrom] at h
      split at h
      · rcases List.mem_append.mp h with hnew | hrest
        · exact .inl hnew
        · exact hlater _ hrest
      · rcases List.mem_cons.mp h with rfl | hrest
        · exact .inr List.mem_cons_self
        · exact hlater 0 hrest

theorem redact_clean (secrets : List Text) {text : Text} (h : Clean text) :
    Clean (redactSecrets text secrets) := by
  have hplaceholder : Clean redactedPlaceholder := by
    have hall : redactedPlaceholder.all (fun c => !isControl c) = true := by decide
    intro c hc
    simpa using List.all_eq_true.mp hall c hc
  induction secrets generalizing text with
  | nil => exact h
  | cons secret secrets ih =>
    apply ih
    show Clean (if secret.isEmpty then text else replaceFrom secret redactedPlaceholder 0 text)
    by_cases hempty : secret.isEmpty = true
    · rw [if_pos hempty]
      exact h
    · rw [if_neg hempty]
      intro c hc
      rcases mem_replace 0 hc with hc | hc
      · exact hplaceholder c hc
      · exact h c hc

theorem digit_clean (n : ℕ) : Clean (Text.ofNat n) := by
  intro c hc
  have hdigit : c.isDigit = true := Nat.isDigit_of_mem_toDigits (by omega) (by omega) hc
  simp only [Char.isDigit, Bool.and_eq_true, decide_eq_true_eq, UInt32.le_iff_toNat_le] at hdigit
  have hval : c.val.toNat = c.toNat := rfl
  have hzero : '0'.val.toNat = 48 := rfl
  have hnine : '9'.val.toNat = 57 := rfl
  simp only [isControl, Bool.or_eq_false_iff, Bool.and_eq_false_iff, decide_eq_false_iff_not,
    beq_eq_false_iff_ne]
  omega

theorem collapsed_clean {lines : List Text} (h : ∀ line ∈ lines, Clean line) (skip : ℕ) :
    ∀ line ∈ collapseFrom skip lines, Clean line := by
  induction lines generalizing skip with
  | nil => cases skip <;> simp [collapseFrom]
  | cons line lines ih =>
    have hlater := ih fun other hother => h other (List.mem_cons_of_mem _ hother)
    have hline := h line List.mem_cons_self
    cases skip with
    | succ skip => exact hlater skip
    | zero =>
      rw [collapseFrom]
      intro other hother
      rcases List.mem_append.mp hother with hother | hother
      · split at hother
        · rw [List.mem_singleton] at hother
          intro c hc
          rw [hother, List.mem_append, List.mem_append] at hc
          rcases hc with (hc | hc) | hc
          · exact hline c hc
          · simp only [List.mem_cons, List.not_mem_nil, or_false] at hc
            rcases hc with rfl | rfl <;> decide
          · exact digit_clean _ c hc
        · rw [List.eq_of_mem_replicate hother]
          exact hline
      · exact hlater _ other hother

theorem join_clean {lines : List Text} (h : ∀ line ∈ lines, Clean line) :
    Clean (['\n'].intercalate lines) := by
  intro c hc
  rcases Splitting.mem_join '\n' hc with rfl | ⟨line, hline, hc⟩
  · decide
  · exact h line hline c hc

theorem split_clean {text : Text} (h : Clean text) : ∀ line ∈ text.splitOn '\n', Clean line := by
  intro line hline c hc
  exact h c ((Splitting.split_free '\n' hline).2 c hc)

theorem collapse_clean {text : Text} (h : Clean text) : Clean (collapseRepeatedLines text) :=
  join_clean (collapsed_clean (split_clean h) 0)

section Lines

variable (maxLineBytes : ℕ)

theorem chop_fits {line : Text} (h : Text.utf8Len line ≤ maxLineBytes) :
    chop maxLineBytes line = if line.isEmpty then [] else [line] := by
  rw [chop.eq_def, if_pos h]

theorem chop_wide {c : Char} {rest : Text} (hlong : ¬ Text.utf8Len (c :: rest) ≤ maxLineBytes)
    (hwide : maxLineBytes < c.utf8Size) :
    chop maxLineBytes (c :: rest) = [c] :: chop maxLineBytes rest := by
  rw [chop.eq_def, if_neg hlong]
  exact if_pos hwide

theorem chop_narrow {c : Char} {rest : Text} (hlong : ¬ Text.utf8Len (c :: rest) ≤ maxLineBytes)
    (hnarrow : ¬ maxLineBytes < c.utf8Size) :
    chop maxLineBytes (c :: rest) =
      (c :: rest).take (fittingPrefix maxLineBytes (c :: rest)) ::
        chop maxLineBytes ((c :: rest).drop (fittingPrefix maxLineBytes (c :: rest))) := by
  rw [chop.eq_def, if_neg hlong]
  exact if_neg hnarrow

theorem chop_flatten (line : Text) : (chop maxLineBytes line).flatten = line := by
  induction line using chop.induct maxLineBytes with
  | case1 line hfits hempty =>
    rw [chop_fits maxLineBytes hfits, if_pos hempty]
    exact (List.isEmpty_iff.mp hempty).symm
  | case2 line hfits hsome =>
    rw [chop_fits maxLineBytes hfits, if_neg hsome]
    simp
  | case3 hlong => exact absurd (Nat.zero_le _) hlong
  | case4 c rest hwide hlong ih =>
    rw [chop_wide maxLineBytes hlong hwide, List.flatten_cons, ih]
    rfl
  | case5 c rest hnarrow low hlong ih =>
    rw [chop_narrow maxLineBytes hlong hnarrow, List.flatten_cons, ih, List.take_append_drop]

theorem boundary_one (c : Char) (rest : Text) : boundary (c :: rest) 1 = c.utf8Size := by
  simp [boundary]

theorem chop_ok (line : Text) : ∀ piece ∈ chop maxLineBytes line, LineOk maxLineBytes piece := by
  induction line using chop.induct maxLineBytes with
  | case1 line hfits hempty =>
    rw [chop_fits maxLineBytes hfits, if_pos hempty]
    simp
  | case2 line hfits hsome =>
    rw [chop_fits maxLineBytes hfits, if_neg hsome]
    intro piece hpiece
    rw [List.mem_singleton.mp hpiece]
    exact .inl hfits
  | case3 hlong => exact absurd (Nat.zero_le _) hlong
  | case4 c rest hwide hlong ih =>
    rw [chop_wide maxLineBytes hlong hwide]
    intro piece hpiece
    rcases List.mem_cons.mp hpiece with rfl | hpiece
    · exact .inr rfl
    · exact ih piece hpiece
  | case5 c rest hnarrow low hlong ih =>
    rw [chop_narrow maxLineBytes hlong hnarrow]
    intro piece hpiece
    rcases List.mem_cons.mp hpiece with rfl | hpiece
    · left
      have hfits := Bisect.search_fits (p := fun n =>
        decide (boundary (c :: rest) n ≤ maxLineBytes)) 1 (c :: rest).length
        (Nat.le_add_left _ _) (by rw [boundary_one, decide_eq_true_eq]; omega)
      exact of_decide_eq_true hfits
    · exact ih piece hpiece

theorem bound_line_flatten (line : Text) : (boundLine maxLineBytes line).flatten = line := by
  rw [boundLine]
  split
  · simp
  · exact chop_flatten maxLineBytes line

theorem bound_line_ok (line : Text) :
    ∀ piece ∈ boundLine maxLineBytes line, LineOk maxLineBytes piece := by
  rw [boundLine]
  split
  · rename_i hfits
    intro piece hpiece
    rw [List.mem_singleton.mp hpiece]
    exact .inl hfits
  · exact chop_ok maxLineBytes line

theorem bound_line_ne_nil (line : Text) : boundLine maxLineBytes line ≠ [] := by
  intro hnil
  have hflatten := bound_line_flatten maxLineBytes line
  rw [hnil] at hflatten
  have hfits : Text.utf8Len line ≤ maxLineBytes := by
    rw [← hflatten]
    exact Nat.zero_le _
  rw [boundLine, if_pos hfits] at hnil
  cases hnil

theorem bounded_piece {text piece : Text}
    (h : piece ∈ (text.splitOn '\n').flatMap (boundLine maxLineBytes)) :
    '\n' ∉ piece ∧ (∀ c ∈ piece, c ∈ text) ∧ LineOk maxLineBytes piece := by
  obtain ⟨line, hline, hpiece⟩ := List.mem_flatMap.mp h
  obtain ⟨hfree, hmem⟩ := Splitting.split_free '\n' hline
  have hinside : ∀ c ∈ piece, c ∈ line := by
    intro c hc
    rw [← bound_line_flatten maxLineBytes line]
    exact List.mem_flatten.mpr ⟨piece, hpiece, hc⟩
  exact ⟨fun hc => hfree (hinside _ hc), fun c hc => hmem c (hinside c hc),
    bound_line_ok maxLineBytes line piece hpiece⟩

theorem bounded_lines (text : Text) : (boundLineLength text maxLineBytes).splitOn '\n' =
    (text.splitOn '\n').flatMap (boundLine maxLineBytes) := by
  apply List.splitOn_intercalate
  · intro piece hpiece
    exact (bounded_piece maxLineBytes hpiece).1
  · obtain ⟨line, lines, hlines⟩ := List.exists_cons_of_ne_nil (List.splitOn_ne_nil '\n' text)
    rw [hlines, List.flatMap_cons]
    exact List.append_ne_nil_of_left_ne_nil (bound_line_ne_nil maxLineBytes line) _

theorem bounded_ok (text : Text) :
    ∀ line ∈ (boundLineLength text maxLineBytes).splitOn '\n', LineOk maxLineBytes line := by
  rw [bounded_lines]
  intro line hline
  exact (bounded_piece maxLineBytes hline).2.2

theorem bounded_clean {text : Text} (h : Clean text) : Clean (boundLineLength text maxLineBytes) :=
  join_clean fun _ hline c hc => h c ((bounded_piece maxLineBytes hline).2.1 c hc)

theorem flatten_bounded (lines : List Text) :
    (lines.flatMap (boundLine maxLineBytes)).flatten = lines.flatten := by
  induction lines with
  | nil => rfl
  | cons line lines ih =>
    rw [List.flatMap_cons, List.flatten_append, ih, bound_line_flatten, List.flatten_cons]

theorem bounded_without_lf (text : Text) :
    withoutLf (boundLineLength text maxLineBytes) = withoutLf text := by
  have hjoined : ['\n'].intercalate (text.splitOn '\n') = text := List.intercalate_splitOn '\n'
  rw [withoutLf, boundLineLength, Splitting.filter_join, flatten_bounded, ← Splitting.filter_join,
    hjoined]
  rfl

end Lines

theorem marker_bytes : Text.utf8Len truncationMarker = truncationMarkerBytes := by decide

def markerLine : Text := "… [truncated]"

theorem truncate_fits (text : Text) (maxBytes : ℕ) (h : truncationMarkerBytes ≤ maxBytes) :
    Text.utf8Len (truncateText text maxBytes).1 ≤ maxBytes := by
  rw [truncateText]
  by_cases hfits : Text.utf8Len text ≤ maxBytes
  · rw [if_pos hfits]
    exact hfits
  · rw [if_neg hfits]
    have hlow := Bisect.search_fits (p := fun n =>
      decide (boundary text n + Text.utf8Len truncationMarker ≤ maxBytes)) 0 text.length
      (Nat.zero_le _) (by rw [decide_eq_true_eq, marker_bytes]; exact (Nat.zero_add _).trans_le h)
    have hmarker : ¬ maxBytes < Text.utf8Len truncationMarker := by
      rw [marker_bytes]
      exact Nat.not_lt.mpr h
    rw [if_neg fun hboth => hmarker hboth.2]
    rw [Text.utf8Len_append]
    exact of_decide_eq_true hlow

theorem truncate_cases (text : Text) (maxBytes : ℕ) (h : truncationMarkerBytes ≤ maxBytes) :
    truncateText text maxBytes = (text, false) ∨
      ∃ n, truncateText text maxBytes = (text.take n ++ truncationMarker, true) ∧
        text.take n ++ truncationMarker ≠ text := by
  rw [truncateText]
  by_cases hfits : Text.utf8Len text ≤ maxBytes
  · rw [if_pos hfits]
    exact .inl rfl
  · right
    have hshown := truncate_fits text maxBytes h
    rw [truncateText] at hshown
    rw [if_neg hfits] at hshown ⊢
    have hmarker : ¬ maxBytes < Text.utf8Len truncationMarker := by
      rw [marker_bytes]
      exact Nat.not_lt.mpr h
    rw [if_neg fun hboth => hmarker hboth.2] at hshown ⊢
    refine ⟨_, rfl, ?_⟩
    intro hsame
    rw [hsame] at hshown
    exact hfits hshown

theorem take_ok {maxLineBytes : ℕ} {text : Text} (n : ℕ)
    (h : ∀ line ∈ text.splitOn '\n', LineOk maxLineBytes line) :
    ∀ line ∈ (text.take n).splitOn '\n', LineOk maxLineBytes line := by
  intro line hline
  obtain ⟨whole, hwhole, rest, hrest⟩ := Splitting.split_take '\n' text n line hline
  rcases h whole hwhole with hbytes | hsingle
  · left
    rw [← hrest, Text.utf8Len_append] at hbytes
    omega
  · rw [← hrest, List.length_append] at hsingle
    by_cases hempty : line = []
    · left
      rw [hempty]
      exact Nat.zero_le _
    · right
      have hpos := List.length_pos_of_ne_nil hempty
      omega

theorem marked_lines (text : Text) :
    (text ++ truncationMarker).splitOn '\n' = text.splitOn '\n' ++ [markerLine] := by
  have hmarker : truncationMarker = '\n' :: markerLine := by decide
  have hfree : '\n' ∉ markerLine := by decide
  rw [hmarker, List.splitOn_append_cons_self, List.splitOn_eq_singleton hfree]

def listed (changed : Bool) (label : Text) : List Text := if changed then [label] else []

theorem bound_step (maxLineBytes : ℕ) (s : Projecting) :
    boundStep maxLineBytes s = ⟨boundLineLength s.text maxLineBytes, s.transformations ++
      listed (boundLineLength s.text maxLineBytes ≠ s.text) transformBoundLines⟩ := by
  rw [boundStep, listed]
  by_cases hsame : boundLineLength s.text maxLineBytes = s.text
  · rw [if_neg (not_not_intro hsame), if_neg (by simpa using hsame), List.append_nil, hsame]
  · rw [if_pos hsame, if_pos (by simpa using hsame)]
    rfl

theorem collapses_changes {text : Text} (h : collapses text = true) :
    collapseRepeatedLines text ≠ text := by
  rw [collapses, Bool.and_eq_true, decide_eq_true_eq] at h
  exact h.1

theorem reduce_step (maxLineBytes originalBytes : ℕ) (s : Projecting)
    (hfresh : transformCollapse ∉ s.transformations ∧ transformBoundLines ∉ s.transformations) :
    ∃ reduced, (reduced = s.text ∨ reduced = collapseRepeatedLines s.text) ∧
      reduceStep maxLineBytes originalBytes s = ⟨boundLineLength reduced maxLineBytes,
        s.transformations ++ (listed (reduced ≠ s.text) transformCollapse ++
          listed (boundLineLength reduced maxLineBytes ≠ reduced) transformBoundLines)⟩ := by
  have hplain : listed (s.text ≠ s.text) transformCollapse = [] := by simp [listed]
  rw [reduceStep]
  by_cases hcollapses : collapses s.text = true
  · rw [if_pos hcollapses, bound_step]
    have hchanged : listed (collapseRepeatedLines s.text ≠ s.text) transformCollapse =
        [transformCollapse] := if_pos (by simpa using collapses_changes hcollapses)
    by_cases houtgrown : originalBytes < Text.utf8Len
        (boundLineLength (collapseRepeatedLines s.text) maxLineBytes)
    · refine ⟨s.text, .inl rfl, ?_⟩
      have hkept : (s.transformations ++ [transformCollapse] ++ listed (boundLineLength
          (collapseRepeatedLines s.text) maxLineBytes ≠ collapseRepeatedLines s.text)
            transformBoundLines).filter (fun label =>
              label ≠ transformCollapse && label ≠ transformBoundLines) = s.transformations := by
        have hold : s.transformations.filter (fun label =>
            label ≠ transformCollapse && label ≠ transformBoundLines) = s.transformations := by
          apply List.filter_eq_self.mpr
          intro label hlabel
          rw [Bool.and_eq_true, decide_eq_true_eq, decide_eq_true_eq]
          exact ⟨fun heq => hfresh.1 (heq ▸ hlabel), fun heq => hfresh.2 (heq ▸ hlabel)⟩
        rw [List.filter_append, List.filter_append, hold]
        rw [listed]
        split <;> simp
      show (if originalBytes < Text.utf8Len
        (boundLineLength (collapseRepeatedLines s.text) maxLineBytes) then _ else _) = _
      rw [if_pos houtgrown, hplain, List.nil_append]
      show Projecting.mk _ (if _ then _ else _) = _
      rw [show (s.become (collapseRepeatedLines s.text) transformCollapse).transformations =
        s.transformations ++ [transformCollapse] from rfl,
        show (s.become (collapseRepeatedLines s.text) transformCollapse).text =
          collapseRepeatedLines s.text from rfl, hkept, listed]
      by_cases hsame : boundLineLength s.text maxLineBytes = s.text
      · simp [hsame]
      · simp [hsame]
    · refine ⟨collapseRepeatedLines s.text, .inr rfl, ?_⟩
      show (if originalBytes < Text.utf8Len
        (boundLineLength (collapseRepeatedLines s.text) maxLineBytes) then _ else _) = _
      rw [if_neg houtgrown, hchanged, ← List.append_assoc]
      rfl
  · refine ⟨s.text, .inl rfl, ?_⟩
    rw [if_neg hcollapses, bound_step, hplain, List.nil_append]

/-- The text after the two steps that keep secrets and control sequences back. -/
def securedText (secrets : List Text) (rawText : Text) : Text :=
  let stripped := stripAnsiAndControl rawText
  if hasSecret secrets stripped then redactSecrets stripped secrets else stripped

theorem secured_step (secrets : List Text) (rawText : Text) :
    redactStep secrets (stripStep ⟨rawText, []⟩) = ⟨securedText secrets rawText,
      listed (stripAnsiAndControl rawText ≠ rawText) transformStripAnsi ++
        listed (hasSecret secrets (stripAnsiAndControl rawText)) transformRedactSecrets⟩ := by
  have hstrip : stripStep ⟨rawText, []⟩ = ⟨stripAnsiAndControl rawText,
      listed (stripAnsiAndControl rawText ≠ rawText) transformStripAnsi⟩ := by
    rw [stripStep, listed]
    by_cases hsame : stripAnsiAndControl rawText = rawText
    · simp [hsame]
    · simp [hsame, Projecting.become]
  rw [hstrip, redactStep, securedText]
  cases hsecret : hasSecret secrets (stripAnsiAndControl rawText) with
  | true => simp [listed, Projecting.become]
  | false => simp [listed]

theorem secured_clean (secrets : List Text) (rawText : Text) :
    Clean (securedText secrets rawText) := by
  rw [securedText]
  split
  · exact redact_clean secrets (strip_clean 0 rawText)
  · exact strip_clean 0 rawText

/-- The bounds, the labels and the content of a view. A step is labelled when it changed the text,
and redaction when a secret occurs in the stripped text. -/
structure Viewed (rawText : Text) (options : EvidenceProjectorOptions) (view : ModelEvidenceView) :
    Prop where
  fits : Text.utf8Len view.text ≤ options.maxTotalBytes
  lines : ∃ lines, view.text.splitOn '\n' = lines ++ listed view.truncated markerLine ∧
    ∀ line ∈ lines, LineOk options.maxLineBytes line
  clean : Clean view.text
  shown : view.shownBytes = Text.utf8Len view.text
  original : view.originalBytes = Text.utf8Len rawText
  steps : ∃ reduced, (reduced = securedText options.secrets rawText ∨
      reduced = collapseRepeatedLines (securedText options.secrets rawText)) ∧
    view.truncated = decide (view.text ≠ boundLineLength reduced options.maxLineBytes) ∧
    view.transformations =
      listed (stripAnsiAndControl rawText ≠ rawText) transformStripAnsi ++
      listed (hasSecret options.secrets (stripAnsiAndControl rawText)) transformRedactSecrets ++
      (listed (reduced ≠ securedText options.secrets rawText) transformCollapse ++
        listed (boundLineLength reduced options.maxLineBytes ≠ reduced) transformBoundLines) ++
      listed view.truncated transformTruncate
  kept : transformRedactSecrets ∉ view.transformations →
    transformCollapse ∉ view.transformations → view.truncated = false →
      withoutLf view.text = withoutLf (stripAnsiAndControl rawText)

theorem redact_listed {secrets : List Text} {rawText : Text} {transformations more : List Text}
    (h : transformations = listed (stripAnsiAndControl rawText ≠ rawText) transformStripAnsi ++
      listed (hasSecret secrets (stripAnsiAndControl rawText)) transformRedactSecrets ++ more)
    (hnot : transformRedactSecrets ∉ transformations) :
    securedText secrets rawText = stripAnsiAndControl rawText := by
  rw [securedText]
  cases hsecret : hasSecret secrets (stripAnsiAndControl rawText) with
  | true =>
    rw [hsecret] at h
    exact absurd (by rw [h]; simp [listed]) hnot
  | false => rfl

theorem bounded_kept {secrets : List Text} {rawText reduced : Text} {maxLineBytes : ℕ}
    {transformations more last : List Text}
    (h : transformations = listed (stripAnsiAndControl rawText ≠ rawText) transformStripAnsi ++
      listed (hasSecret secrets (stripAnsiAndControl rawText)) transformRedactSecrets ++
      (listed (reduced ≠ securedText secrets rawText) transformCollapse ++ more) ++ last)
    (hredacted : transformRedactSecrets ∉ transformations)
    (hcollapsed : transformCollapse ∉ transformations) :
    withoutLf (boundLineLength reduced maxLineBytes) = withoutLf (stripAnsiAndControl rawText) := by
  rw [bounded_without_lf, ← redact_listed (h.trans (List.append_assoc _ _ _)) hredacted]
  by_cases hsame : reduced = securedText secrets rawText
  · rw [hsame]
  · exact absurd (by rw [h]; simp [listed, hsame]) hcollapsed

theorem project_viewed (evidenceId revision : Option Text) (rawText : Text)
    (options : EvidenceProjectorOptions) (h : truncationMarkerBytes ≤ options.maxTotalBytes) :
    Viewed rawText options (projectForModel evidenceId revision rawText options) := by
  have hfresh : transformCollapse ∉ (listed (stripAnsiAndControl rawText ≠ rawText)
        transformStripAnsi ++ listed (hasSecret options.secrets (stripAnsiAndControl rawText))
          transformRedactSecrets) ∧
      transformBoundLines ∉ (listed (stripAnsiAndControl rawText ≠ rawText) transformStripAnsi ++
        listed (hasSecret options.secrets (stripAnsiAndControl rawText)) transformRedactSecrets) := by
    rw [listed, listed]
    constructor
    all_goals
      split_ifs
      all_goals decide
  obtain ⟨reduced, hreduced, hstep⟩ := reduce_step options.maxLineBytes (Text.utf8Len rawText)
    ⟨securedText options.secrets rawText, _⟩ hfresh
  have hsecured := secured_clean options.secrets rawText
  have hclean : Clean (boundLineLength reduced options.maxLineBytes) := by
    apply bounded_clean
    rcases hreduced with heq | heq
    · rw [heq]
      exact hsecured
    · rw [heq]
      exact collapse_clean hsecured
  have hok := bounded_ok options.maxLineBytes reduced
  have hfits := truncate_fits (boundLineLength reduced options.maxLineBytes) options.maxTotalBytes h
  have hview : projectForModel evidenceId revision rawText options =
      let truncated := truncateText (boundLineLength reduced options.maxLineBytes)
        options.maxTotalBytes
      { evidenceId, revision, text := truncated.1, truncated := truncated.2
        shownBytes := Text.utf8Len truncated.1, originalBytes := Text.utf8Len rawText
        transformations :=
          listed (stripAnsiAndControl rawText ≠ rawText) transformStripAnsi ++
          listed (hasSecret options.secrets (stripAnsiAndControl rawText)) transformRedactSecrets ++
          (listed (reduced ≠ securedText options.secrets rawText) transformCollapse ++
            listed (boundLineLength reduced options.maxLineBytes ≠ reduced) transformBoundLines) ++
          listed truncated.2 transformTruncate } := by
    rw [projectForModel, secured_step, hstep]
    rcases truncate_cases (boundLineLength reduced options.maxLineBytes) options.maxTotalBytes h
      with hwhole | ⟨n, hcut, -⟩
    · simp [hwhole, listed]
    · simp [hcut, listed, Projecting.become]
  rw [hview]
  rcases truncate_cases (boundLineLength reduced options.maxLineBytes) options.maxTotalBytes h
    with hwhole | ⟨n, hcut, hdiffers⟩
  · rw [hwhole] at hfits ⊢
    refine ⟨hfits, ⟨_, (List.append_nil _).symm, hok⟩, hclean, rfl, rfl,
      ⟨reduced, hreduced, by simp, rfl⟩, ?_⟩
    intro hredacted hcollapsed _
    exact bounded_kept rfl hredacted hcollapsed
  · rw [hcut] at hfits ⊢
    refine ⟨hfits, ⟨_, marked_lines _, take_ok n hok⟩, ?_, rfl, rfl,
      ⟨reduced, hreduced, by simpa using hdiffers, rfl⟩, fun _ _ hnot => absurd hnot (by simp)⟩
    intro c hc
    rcases List.mem_append.mp hc with hc | hc
    · exact hclean c (List.mem_of_mem_take hc)
    · have hmarker : truncationMarker.all (fun c => !isControl c) = true := by decide
      simpa using List.all_eq_true.mp hmarker c hc

/-- A coloured secret, repeated lines, a line beyond the bound and more than the view may hold. -/
def noisyText : Text :=
  '\x1b' :: "[31mkey hunter2\nsame\nsame\nsame\nsame\nsame\nsame\n".toList ++
    List.replicate 300 'x'

def noisyOptions : EvidenceProjectorOptions :=
  { secrets := ["hunter2"], maxTotalBytes := 200, maxLineBytes := 64 }

theorem project_viewed_sample :
    Viewed noisyText noisyOptions (projectForModel none none noisyText noisyOptions) ∧
      (projectForModel none none noisyText noisyOptions).transformations =
        [transformStripAnsi, transformRedactSecrets, transformCollapse, transformBoundLines,
          transformTruncate] := by
  refine ⟨project_viewed none none noisyText noisyOptions (by decide), ?_⟩
  decide +kernel

def placeholderOptions : EvidenceProjectorOptions := { secrets := [redactedPlaceholder] }

theorem redaction_of_nothing :
    ¬ ∀ (evidenceId revision : Option Text) (rawText : Text) (options : EvidenceProjectorOptions),
      truncationMarkerBytes ≤ options.maxTotalBytes →
        (transformRedactSecrets ∈
            (projectForModel evidenceId revision rawText options).transformations ↔
          redactSecrets (stripAnsiAndControl rawText) options.secrets ≠
            stripAnsiAndControl rawText) := by
  intro hclaim
  have hlisted : transformRedactSecrets ∈
      (projectForModel none none redactedPlaceholder placeholderOptions).transformations := by
    decide
  have hsame : redactSecrets (stripAnsiAndControl redactedPlaceholder) placeholderOptions.secrets =
      stripAnsiAndControl redactedPlaceholder := by decide
  exact (hclaim none none redactedPlaceholder placeholderOptions (by decide)).mp hlisted hsame

end Siralos.EvidenceView
