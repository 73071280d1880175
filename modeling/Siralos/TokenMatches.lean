import Siralos.RedactionPlain

/-!
# Replaced token matches

The scan over the tokens of a text is held to what it is for: each position of the text is kept or
removed once, and every occurrence of the pattern leaves one marker where its source ends.
-/

set_option autoImplicit false

namespace Siralos.TokenMatches

open Text Matching Redaction

/-- A slice panics where it runs backwards or out of the text. -/
def sliceAt (text : Text) (start stop : ℕ) : Option Text :=
  if start ≤ stop ∧ stop ≤ text.length then some (slice text start stop) else none

section Checked

variable (text : Text) (pattern failure : List ℕ) (marker : Text)

def replaceAt (token : RedactionToken) (s : TokenScan) : Option TokenScan :=
  let start := s.starts.head?.getD token.start
  let kept := if s.copied ≤ start then sliceAt text s.copied start else some []
  kept.map fun kept => TokenScan.fallBack failure
    { s with output := s.output ++ kept ++ marker, copied := token.stop }

def scanTokenAt (token : RedactionToken) : ℕ → TokenScan → Option TokenScan
  | bound, s =>
    if pattern[s.matched]? = some token.value then
      let grown := { s with matched := s.matched + 1, starts := s.starts ++ [token.start] }
      if grown.matched = pattern.length then replaceAt text failure marker token grown
      else some grown
    else if s.matched = 0 then
      (sliceAt text s.copied token.stop).map fun kept =>
        { s with output := s.output ++ kept, copied := token.stop }
    else
      match bound with
      | 0 => some s
      | bound + 1 => scanTokenAt token bound (s.fallBack failure)

end Checked

def redactTokenMatchesAt (text : Text) (pattern : List ℕ) (tokens : List RedactionToken)
    (marker : Text) : Option Text :=
  if pattern.isEmpty ∨ tokens.isEmpty then some text
  else
    let scanned := tokens.foldlM (fun s token =>
      scanTokenAt text pattern (kmpFailure pattern) marker token s.matched s) ⟨[], 0, 0, []⟩
    scanned.bind fun s => (sliceAt text s.copied text.length).map fun rest => s.output ++ rest

def values (tokens : List RedactionToken) : List ℕ := tokens.map RedactionToken.value

/-- The last tokens, as many as the pattern has values. -/
def window (pattern : List ℕ) (seen : List RedactionToken) : List RedactionToken :=
  seen.drop (seen.length - pattern.length)

/-- The windows of all beginnings that have the values of the pattern. -/
def occurrences (pattern : List ℕ) (tokens : List RedactionToken) : List (List RedactionToken) :=
  (tokens.inits.map (window pattern)).filter fun last => values last == pattern

/-- Where an occurrence begins and ends in the text. -/
def source (last : List RedactionToken) : ℕ × ℕ :=
  ((last.head?.map RedactionToken.start).getD 0, (last.getLast?.map RedactionToken.stop).getD 0)

def sources (pattern : List ℕ) (tokens : List RedactionToken) : List (ℕ × ℕ) :=
  (occurrences pattern tokens).map source

section Weave

variable (text marker : Text)

/-- The characters that are not removed, with as many markers in front of each as end there. -/
def weave (ends : ℕ → ℕ) (removed : ℕ → Bool) (stop : ℕ) : Text :=
  (List.range stop).flatMap (fun p => (List.replicate (ends p) marker).flatten ++
    if removed p then [] else (text[p]?).toList) ++ (List.replicate (ends stop) marker).flatten

def endsAt (spans : List (ℕ × ℕ)) (p : ℕ) : ℕ := spans.countP fun span => span.2 == p

def covered (spans : List (ℕ × ℕ)) (p : ℕ) : Bool :=
  spans.any fun span => decide (span.1 ≤ p) && decide (p < span.2)

/-- The text without the sources, and a marker for each of them at its end. -/
def expected (spans : List (ℕ × ℕ)) : Text :=
  weave text marker (endsAt spans) (covered spans) text.length

end Weave

example : expected ['a', 'b', 'c', 'd'] ['*'] [(0, 2), (1, 3)] = ['*', '*', 'd'] := by decide

/-- Spans that lie in the text and do not decrease. -/
structure Spanned (text : Text) (tokens : List RedactionToken) : Prop where
  ordered : tokens.Pairwise fun a b => a.start ≤ b.start ∧ a.stop ≤ b.stop
  within : ∀ token ∈ tokens, token.start ≤ token.stop ∧ token.stop ≤ text.length

/-- Where an occurrence begins in front of the end of an earlier token that no beginning of the
pattern ends in, what lies between is removed already. -/
def Aligned (pattern : List ℕ) (tokens : List RedactionToken) : Prop :=
  ∀ front token middle first rest after,
    tokens = front ++ token :: (middle ++ (first :: rest) ++ after) →
      values (first :: rest) = pattern →
        (∀ m, EndsIn pattern (values (front ++ [token])) m → m = 0) →
          ∀ p, first.start ≤ p → p < token.stop → covered (sources pattern front) p = true

section Weaving

variable {text marker : Text} {ends others : ℕ → ℕ} {removed spared : ℕ → Bool} {start stop : ℕ}

theorem weave_succ (stop : ℕ) : weave text marker ends removed (stop + 1) =
    weave text marker ends removed stop ++ (if removed stop then [] else (text[stop]?).toList) ++
      (List.replicate (ends (stop + 1)) marker).flatten := by
  simp only [weave, List.range_succ, List.flatMap_append, List.flatMap_singleton, List.append_assoc]

theorem weave_congr (hends : ∀ p ≤ stop, ends p = others p)
    (hremoved : ∀ p < stop, removed p = spared p) :
    weave text marker ends removed stop = weave text marker others spared stop := by
  induction stop with
  | zero => rw [weave, weave, hends 0 le_rfl]; rfl
  | succ stop ih =>
    rw [weave_succ, weave_succ, hends (stop + 1) le_rfl, hremoved stop (Nat.lt_succ_self _),
      ih (fun p hp => hends p (hp.trans (Nat.le_succ _))) fun p hp => hremoved p (by omega)]

theorem weave_mark (hends : ∀ p < stop, others p = ends p) (hmore : others stop = ends stop + 1) :
    weave text marker others removed stop = weave text marker ends removed stop ++ marker := by
  cases stop with
  | zero =>
    rw [weave, weave, hmore, List.replicate_succ']
    simp
  | succ stop =>
    rw [weave_succ, weave_succ, hmore, List.replicate_succ', List.flatten_append,
      weave_congr (fun p hp => hends p (Nat.lt_succ_of_le hp)) fun p _ => rfl]
    simp

theorem weave_kept (hle : start ≤ stop) (hstop : stop ≤ text.length)
    (hends : ∀ p, start < p → p ≤ stop → ends p = 0)
    (hkept : ∀ p, start ≤ p → p < stop → removed p = false) :
    weave text marker ends removed stop =
      weave text marker ends removed start ++ slice text start stop := by
  induction stop, hle using Nat.le_induction with
  | base => simp [slice]
  | succ stop hle ih =>
    have hlast : text[stop]? = some text[stop] := List.getElem?_eq_getElem hstop
    have hslice : slice text start (stop + 1) = slice text start stop ++ [text[stop]] := by
      rw [slice, slice, List.take_add_one, hlast, Option.toList_some, List.drop_append_of_le_length]
      rw [List.length_take]
      omega
    rw [weave_succ, hends (stop + 1) (by omega) le_rfl, hkept stop hle (by omega), hlast, hslice,
      ih (by omega) (fun p hp hp' => hends p hp (by omega)) fun p hp hp' => hkept p hp (by omega)]
    simp

theorem weave_removed (hle : start ≤ stop) (hends : ∀ p, start < p → p ≤ stop → ends p = 0)
    (hgone : ∀ p, start ≤ p → p < stop → removed p = true) :
    weave text marker ends removed stop = weave text marker ends removed start := by
  induction stop, hle using Nat.le_induction with
  | base => rfl
  | succ stop hle ih =>
    rw [weave_succ, hends (stop + 1) (by omega) le_rfl, hgone stop hle (by omega),
      ih (fun p hp hp' => hends p hp (by omega)) fun p hp hp' => hgone p hp (by omega)]
    simp

end Weaving

section Sources

variable {text marker : Text} {spans : List (ℕ × ℕ)} {copied start stop : ℕ}

theorem ends_behind (hstops : ∀ span ∈ spans, span.2 ≤ copied) {p : ℕ} (hp : copied < p) :
    endsAt spans p = 0 := by
  rw [endsAt, List.countP_eq_zero]
  intro span hspan hsame
  have := hstops span hspan
  rw [beq_iff_eq] at hsame
  omega

theorem covered_behind (hstops : ∀ span ∈ spans, span.2 ≤ copied) {p : ℕ} (hp : copied ≤ p) :
    covered spans p = false := by
  rw [covered, List.any_eq_false]
  intro span hspan
  have := hstops span hspan
  simp only [Bool.and_eq_true, decide_eq_true_eq]
  omega

theorem weave_copy (hstops : ∀ span ∈ spans, span.2 ≤ copied) (hle : copied ≤ stop)
    (hwithin : stop ≤ text.length) :
    weave text marker (endsAt spans) (covered spans) stop =
      weave text marker (endsAt spans) (covered spans) copied ++ slice text copied stop :=
  weave_kept hle hwithin (fun _ hp _ => ends_behind hstops hp) fun _ hp _ =>
    covered_behind hstops hp

theorem weave_replace (hstops : ∀ span ∈ spans, span.2 ≤ copied) (hle : copied ≤ stop)
    (hspan : start ≤ stop) (hwithin : stop ≤ text.length)
    (hbefore : ∀ p, start ≤ p → p < copied → covered spans p = true) :
    weave text marker (endsAt (spans ++ [(start, stop)])) (covered (spans ++ [(start, stop)]))
        stop =
      weave text marker (endsAt spans) (covered spans) copied ++
        (if copied ≤ start then slice text copied start else []) ++ marker := by
  have hends : ∀ p < stop, endsAt (spans ++ [(start, stop)]) p = endsAt spans p := by
    intro p hp
    rw [endsAt, List.countP_append, List.countP_singleton, endsAt]
    simp only [beq_iff_eq]
    rw [if_neg (by omega), Nat.add_zero]
  have hmore : endsAt (spans ++ [(start, stop)]) stop = endsAt spans stop + 1 := by
    rw [endsAt, List.countP_append, List.countP_singleton, endsAt]
    simp
  have hcovered : ∀ p, covered (spans ++ [(start, stop)]) p =
      (covered spans p || (decide (start ≤ p) && decide (p < stop))) := by
    intro p
    simp [covered]
  rw [weave_mark hends hmore]
  congr 1
  have hold : weave text marker (endsAt spans) (covered (spans ++ [(start, stop)])) copied =
      weave text marker (endsAt spans) (covered spans) copied := by
    apply weave_congr (fun _ _ => rfl)
    intro p hp
    rw [hcovered]
    by_cases hstart : start ≤ p
    · rw [hbefore p hstart hp, Bool.true_or]
    · simp [hstart]
  rw [weave_removed (max_le hle hspan)
    (fun p hp _ => ends_behind hstops (lt_of_le_of_lt (le_max_left _ _) hp)) (by
      intro p hp hp'
      rw [hcovered]
      have := le_of_max_le_right hp
      simp [this, hp'])]
  by_cases hgap : copied ≤ start
  · rw [if_pos hgap, max_eq_right hgap, ← hold]
    apply weave_kept hgap (hspan.trans hwithin)
    · exact fun p hp _ => ends_behind hstops hp
    · intro p hp hp'
      rw [hcovered, covered_behind hstops hp]
      simp [Nat.not_le.mpr hp']
  · rw [if_neg hgap, max_eq_left (Nat.le_of_not_le hgap), hold, List.append_nil]

end Sources

/-- The longest proper beginning of the pattern that the input ends in. -/
structure LongestProper (pattern input : List ℕ) (m : ℕ) : Prop where
  ends : EndsIn pattern input m
  proper : m < pattern.length
  greatest : ∀ k < pattern.length, EndsIn pattern input k → k ≤ m

def lastStarts (tokens : List RedactionToken) (m : ℕ) : List ℕ :=
  (tokens.map RedactionToken.start).drop (tokens.length - m)

theorem last_starts_drop {tokens : List RedactionToken} {m k : ℕ} (hk : k ≤ m)
    (hm : m ≤ tokens.length) : (lastStarts tokens m).drop (m - k) = lastStarts tokens k := by
  have hsum : tokens.length - m + (m - k) = tokens.length - k := by omega
  rw [lastStarts, lastStarts, List.drop_drop, hsum]

theorem last_starts_snoc {tokens : List RedactionToken} {m : ℕ} (token : RedactionToken) :
    lastStarts (tokens ++ [token]) (m + 1) = lastStarts tokens m ++ [token.start] := by
  have hdrop : (tokens ++ [token]).length - (m + 1) = tokens.length - m := by simp
  rw [lastStarts, lastStarts, hdrop, List.map_append, List.drop_append_of_le_length (by simp)]
  rfl

theorem values_snoc (tokens : List RedactionToken) (token : RedactionToken) :
    values (tokens ++ [token]) = values tokens ++ [token.value] := by
  simp [values]

theorem first_source (seen : List RedactionToken) (token : RedactionToken) {m : ℕ}
    (hm : m ≤ seen.length) : (lastStarts seen m ++ [token.start]).head?.getD token.start =
      (source ((seen ++ [token]).drop ((seen ++ [token]).length - (m + 1)))).1 := by
  have hdrop : (seen ++ [token]).length - (m + 1) = seen.length - m := by simp
  rw [source, hdrop, List.drop_append_of_le_length (by omega), lastStarts, ← List.map_drop]
  cases seen.drop (seen.length - m) with
  | nil => rfl
  | cons first rest => rfl

section Step

variable (text marker : Text) {pattern : List ℕ} (token : RedactionToken)
  (seen : List RedactionToken) (output : Text) (copied : ℕ)

/-- What a token does to a scan that has copied so much: it belongs to an incomplete match, it
completes one, or nothing of the pattern ends in it. -/
inductive Step (pattern : List ℕ) (after : List RedactionToken) : Option TokenScan → Prop where
  | grown (m : ℕ) : LongestProper pattern (values after) m →
      ¬ EndsIn pattern (values after) pattern.length → 0 < m →
        Step pattern after (some ⟨output, copied, m, lastStarts after m⟩)
  | replaced (m : ℕ) : LongestProper pattern (values after) m →
      EndsIn pattern (values after) pattern.length →
        Step pattern after (((if copied ≤ (source (window pattern after)).1 then
          sliceAt text copied (source (window pattern after)).1 else some []).map fun kept =>
              ⟨output ++ kept ++ marker, token.stop, m, lastStarts after m⟩))
  | passed : (∀ m, EndsIn pattern (values after) m → m = 0) →
      Step pattern after ((sliceAt text copied token.stop).map fun kept =>
        ⟨output ++ kept, token.stop, 0, []⟩)

theorem longest_border {input : List ℕ} (hne : pattern ≠ [])
    (hall : EndsIn pattern input pattern.length) :
    LongestProper pattern input ((kmpFailure pattern).getD (pattern.length - 1) 0) := by
  have hlinked := kmp_linked pattern
  have hpos : 0 < pattern.length := List.length_pos_iff.mpr hne
  have hshorter := hlinked.shorter pattern.length hpos le_rfl
  refine ⟨?_, hshorter, ?_⟩
  · exact (hall.border hshorter.le).mpr (hlinked.border pattern.length hpos le_rfl)
  · intro k hk hkends
    exact hlinked.greatest pattern.length hpos le_rfl k hk ((hall.border hk.le).mp hkends)

theorem step_completed {m : ℕ} (hgrown : EndsIn pattern (values (seen ++ [token])) (m + 1))
    (hlength : m ≤ seen.length) (hfull : m + 1 = pattern.length) :
    Step text marker token output copied pattern (seen ++ [token])
      (replaceAt text (kmpFailure pattern) marker token
        ⟨output, copied, m + 1, lastStarts seen m ++ [token.start]⟩) := by
  have hne : pattern ≠ [] := List.length_pos_iff.mp (by omega)
  have hall : EndsIn pattern (values (seen ++ [token])) pattern.length := by rwa [← hfull]
  have hlongest := longest_border hne hall
  have hproper := hlongest.proper
  have hreplaced := @Step.replaced text marker token output copied pattern (seen ++ [token]) _
    hlongest hall
  rw [← hfull, Nat.add_sub_cancel] at hproper hreplaced
  rw [window, ← hfull] at hreplaced
  rw [replaceAt, first_source seen token hlength]
  simp only [TokenScan.fallBack, Nat.add_sub_cancel, ← last_starts_snoc]
  rw [last_starts_drop hproper.le (by simpa using hlength)]
  exact hreplaced

theorem step_extended {m : ℕ} (hgrown : EndsIn pattern (values (seen ++ [token])) (m + 1))
    (hproper : m + 1 < pattern.length)
    (hgreatest : ∀ k < pattern.length,
      EndsIn pattern (values (seen ++ [token])) (k + 1) → k ≤ m) :
    Step text marker token output copied pattern (seen ++ [token])
      (some ⟨output, copied, m + 1, lastStarts seen m ++ [token.start]⟩) := by
  have hlongest : LongestProper pattern (values (seen ++ [token])) (m + 1) := by
    refine ⟨hgrown, hproper, ?_⟩
    intro k hk hkends
    cases k with
    | zero => omega
    | succ k => exact Nat.succ_le_succ (hgreatest k (by omega) hkends)
  rw [← last_starts_snoc]
  apply Step.grown (m + 1) hlongest _ (Nat.succ_pos m)
  intro hall
  obtain ⟨last, hlast⟩ : ∃ last, pattern.length = last + 1 := ⟨pattern.length - 1, by omega⟩
  rw [hlast] at hall
  have := hgreatest last (by omega) hall
  omega

theorem scan_step (bound m : ℕ) (hends : EndsIn pattern (values seen) m)
    (hproper : m < pattern.length) (hbound : m ≤ bound)
    (hgreatest : ∀ k < pattern.length,
      EndsIn pattern (values (seen ++ [token])) (k + 1) → k ≤ m) :
    Step text marker token output copied pattern (seen ++ [token])
      (scanTokenAt text pattern (kmpFailure pattern) marker token bound
        ⟨output, copied, m, lastStarts seen m⟩) := by
  have hlinked := kmp_linked pattern
  have hlength : m ≤ seen.length := by simpa [values] using hends.length
  rw [scanTokenAt.eq_def]
  by_cases hvalue : pattern[m]? = some token.value
  · have hgrown : EndsIn pattern (values (seen ++ [token])) (m + 1) := by
      rw [values_snoc]
      exact (ends_succ m token.value).mpr ⟨hends, hvalue⟩
    simp only [if_pos hvalue]
    by_cases hfull : m + 1 = pattern.length
    · rw [if_pos hfull]
      exact step_completed text marker token seen output copied hgrown hlength hfull
    · rw [if_neg hfull]
      exact step_extended text marker token seen output copied hgrown (by omega) hgreatest
  · by_cases hzero : m = 0
    · subst hzero
      have hnone : lastStarts seen 0 = [] := List.drop_eq_nil_of_le (by simp)
      simp only [if_neg hvalue, if_true, hnone]
      apply Step.passed
      intro k hk
      cases k with
      | zero => rfl
      | succ k =>
        have hle := hgreatest k (Nat.lt_of_succ_le hk.within) hk
        rw [values_snoc] at hk
        have hkvalue := ((ends_succ k token.value).mp hk).2
        rw [Nat.le_zero.mp hle] at hkvalue
        exact absurd hkvalue hvalue
    · cases bound with
      | zero => omega
      | succ bound =>
        have hpos : 0 < m := by omega
        have hshorter := hlinked.shorter m hpos hends.within
        have hborder := hlinked.border m hpos hends.within
        simp only [if_neg hvalue, if_neg hzero]
        have hfallen : TokenScan.fallBack (kmpFailure pattern)
            ⟨output, copied, m, lastStarts seen m⟩ =
            ⟨output, copied, (kmpFailure pattern).getD (m - 1) 0,
              lastStarts seen ((kmpFailure pattern).getD (m - 1) 0)⟩ := by
          rw [← last_starts_drop hshorter.le hlength]
          rfl
        rw [hfallen]
        apply scan_step bound _ ((hends.border hshorter.le).mpr hborder) (hshorter.trans hproper)
          (by omega)
        intro k hk hkends
        have hle := hgreatest k hk hkends
        rw [values_snoc] at hkends
        obtain ⟨hkshort, hkvalue⟩ := (ends_succ k token.value).mp hkends
        have hne : k ≠ m := by
          rintro rfl
          exact hvalue hkvalue
        exact hlinked.greatest m hpos hends.within k (by omega) ((hends.border hle).mp hkshort)

end Step

section Occurrences

variable {pattern : List ℕ} {seen : List RedactionToken}

theorem window_iff : values (window pattern seen) = pattern ↔
    EndsIn pattern (values seen) pattern.length := by
  have hdrop : values (window pattern seen) =
      (values seen).drop ((values seen).length - pattern.length) := by
    simp [values, window]
  rw [hdrop]
  constructor
  · intro h
    refine ⟨le_rfl, ?_⟩
    rw [List.take_length]
    exact List.suffix_iff_eq_drop.mpr h.symm
  · intro h
    have hsuffix := h.suffix
    rw [List.take_length] at hsuffix
    exact (List.suffix_iff_eq_drop.mp hsuffix).symm

theorem occurrences_snoc (token : RedactionToken) : occurrences pattern (seen ++ [token]) =
    occurrences pattern seen ++
      [window pattern (seen ++ [token])].filter fun last => values last == pattern := by
  have hinits : (seen ++ [token]).inits = seen.inits ++ [seen ++ [token]] := by
    rw [List.inits_append]
    rfl
  rw [occurrences, hinits, List.map_append, List.filter_append]
  rfl

theorem sources_snoc_none {token : RedactionToken}
    (h : ¬ EndsIn pattern (values (seen ++ [token])) pattern.length) :
    sources pattern (seen ++ [token]) = sources pattern seen := by
  rw [sources, occurrences_snoc, List.filter_singleton]
  rw [← window_iff, ← beq_iff_eq] at h
  rw [Bool.not_eq_true] at h
  simp [h, sources]

theorem sources_snoc {token : RedactionToken}
    (h : EndsIn pattern (values (seen ++ [token])) pattern.length) :
    sources pattern (seen ++ [token]) =
      sources pattern seen ++ [source (window pattern (seen ++ [token]))] := by
  rw [sources, occurrences_snoc, List.filter_singleton]
  rw [← window_iff, ← beq_iff_eq] at h
  simp [h, sources]

theorem sources_nil (hne : pattern ≠ []) : sources pattern [] = [] := by
  have hnot : (values (window pattern []) == pattern) = false := by
    rw [beq_eq_false_iff_ne]
    intro hnil
    rw [window, List.length_nil, List.drop_nil] at hnil
    exact hne hnil.symm
  rw [sources, occurrences, List.inits, List.map_singleton, List.filter_singleton, hnot]
  rfl

theorem sources_grow (rest : List RedactionToken) :
    sources pattern seen <+: sources pattern (seen ++ rest) := by
  induction rest using List.reverseRecOn with
  | nil =>
    rw [List.append_nil]
  | append_singleton rest token ih =>
    rw [← List.append_assoc]
    apply ih.trans
    by_cases h : EndsIn pattern (values (seen ++ rest ++ [token])) pattern.length
    · rw [sources_snoc h]
      exact List.prefix_append _ _
    · rw [sources_snoc_none h]

theorem covered_grow (rest : List RedactionToken) {p : ℕ}
    (h : covered (sources pattern seen) p = true) :
    covered (sources pattern (seen ++ rest)) p = true := by
  rw [covered, List.any_eq_true] at h ⊢
  obtain ⟨span, hmem, hspan⟩ := h
  exact ⟨span, (sources_grow rest).subset hmem, hspan⟩

theorem ends_earlier {input : List ℕ} (more : List ℕ) {m : ℕ}
    (h : EndsIn pattern (input ++ more) (m + more.length)) : EndsIn pattern input m := by
  induction more using List.reverseRecOn with
  | nil => simpa using h
  | append_singleton more value ih =>
    rw [← List.append_assoc, List.length_append, List.length_singleton, ← Nat.add_assoc] at h
    exact ih ((ends_succ _ value).mp h).1

def startAt (tokens : List RedactionToken) (k : ℕ) : ℕ :=
  ((tokens.drop k).head?.map RedactionToken.start).getD 0

theorem start_at_append {k : ℕ} (hk : k < seen.length) (rest : List RedactionToken) :
    startAt (seen ++ rest) k = startAt seen k := by
  rw [startAt, startAt, List.head?_drop, List.head?_drop, List.getElem?_append_left hk]

theorem start_at_le {text : Text} {tokens : List RedactionToken} (h : Spanned text tokens) {i j : ℕ}
    (hij : i ≤ j) (hj : j < tokens.length) : startAt tokens i ≤ startAt tokens j := by
  rcases Nat.eq_or_lt_of_le hij with rfl | hless
  · exact le_rfl
  · rw [startAt, startAt, List.head?_drop, List.head?_drop,
      List.getElem?_eq_getElem (hless.trans hj), List.getElem?_eq_getElem hj]
    exact (List.pairwise_iff_getElem.mp h.ordered i j (hless.trans hj) hj hless).1

theorem start_at_last (token : RedactionToken) (rest : List RedactionToken) :
    startAt (seen ++ token :: rest) seen.length = token.start := by
  rw [startAt, List.drop_left]
  rfl

theorem window_source (hne : pattern ≠ []) (seen : List RedactionToken) (token : RedactionToken) :
    source (window pattern (seen ++ [token])) =
      (startAt (seen ++ [token]) ((seen ++ [token]).length - pattern.length), token.stop) := by
  have hpos : 0 < pattern.length := List.length_pos_iff.mpr hne
  have hdrop : (seen ++ [token]).length - pattern.length ≤ seen.length := by
    rw [List.length_append, List.length_singleton]
    omega
  rw [source, startAt, window]
  congr 1
  rw [List.drop_append_of_le_length hdrop, List.getLast?_append]
  rfl

theorem window_start (hne : pattern ≠ []) (seen : List RedactionToken) (token : RedactionToken)
    (later : List RedactionToken) : (source (window pattern (seen ++ [token]))).1 =
      startAt (seen ++ token :: later) (seen.length + 1 - pattern.length) := by
  have hpos : 0 < pattern.length := List.length_pos_iff.mpr hne
  have hgrown : seen ++ token :: later = seen ++ [token] ++ later := by simp
  have hlength : (seen ++ [token]).length = seen.length + 1 := by simp
  rw [window_source hne, hgrown, hlength]
  exact (start_at_append (by omega) later).symm

end Occurrences

section Run

variable {text marker : Text} {pattern : List ℕ} {tokens : List RedactionToken}

/-- The scan has read these tokens. The text is copied up to the end of a token that nothing of the
pattern ends in, or that completes an occurrence. -/
structure Scanned (text marker : Text) (pattern : List ℕ) (tokens seen : List RedactionToken)
    (s : TokenScan) : Prop where
  matched : LongestProper pattern (values seen) s.matched
  starts : s.starts = lastStarts seen s.matched
  stops : ∀ span ∈ sources pattern seen, span.2 ≤ s.copied
  reached : s.copied = 0 ∨ ∃ front token rest, seen = front ++ token :: rest ∧
    token.stop = s.copied ∧ ((∀ m, EndsIn pattern (values (front ++ [token])) m → m = 0) ∨
      EndsIn pattern (values (front ++ [token])) pattern.length)
  output : Aligned pattern tokens → s.output =
    weave text marker (endsAt (sources pattern seen)) (covered (sources pattern seen)) s.copied

theorem copied_le {seen later : List RedactionToken} {s : TokenScan} {token : RedactionToken}
    (hspans : Spanned text tokens) (htokens : tokens = seen ++ token :: later)
    (h : Scanned text marker pattern tokens seen s) : s.copied ≤ token.stop := by
  rcases h.reached with hzero | ⟨front, last, rest, hseen, hstop, -⟩
  · omega
  · have hordered := hspans.ordered
    rw [htokens, hseen, List.append_assoc, List.cons_append] at hordered
    have hlast := (List.pairwise_append.mp hordered).2.1
    rw [← hstop]
    exact ((List.pairwise_cons.mp hlast).1 token (by simp)).2

/-- A window that began at a token which nothing of the pattern ends in, or before it, would end a
beginning of the pattern there. -/
theorem window_behind {front rest : List RedactionToken} {last token : RedactionToken}
    (hne : pattern ≠ []) (hpassed : ∀ m, EndsIn pattern (values (front ++ [last])) m → m = 0)
    (hall : EndsIn pattern (values (front ++ last :: rest ++ [token])) pattern.length) :
    window pattern (front ++ last :: rest ++ [token]) =
      (rest ++ [token]).drop ((rest ++ [token]).length - pattern.length) := by
  have hpos : 0 < pattern.length := List.length_pos_iff.mpr hne
  have hfront : front ++ last :: rest ++ [token] = (front ++ [last]) ++ (rest ++ [token]) := by
    simp
  have hshort : pattern.length ≤ (rest ++ [token]).length := by
    by_contra hlong
    obtain ⟨m, hm⟩ : ∃ m, pattern.length = m + (rest ++ [token]).length :=
      ⟨pattern.length - (rest ++ [token]).length, by omega⟩
    have hvalues : values (front ++ last :: rest ++ [token]) =
        values (front ++ [last]) ++ values (rest ++ [token]) := by
      simp [values]
    have hlength : (values (rest ++ [token])).length = (rest ++ [token]).length := by
      simp [values]
    rw [hvalues, hm, ← hlength] at hall
    have := hpassed m (ends_earlier _ hall)
    omega
  rw [window, hfront, List.length_append, Nat.add_sub_assoc hshort, ← List.drop_drop,
    List.drop_left]

theorem passed_covered {front rest later : List RedactionToken} {last token : RedactionToken}
    (hne : pattern ≠ []) (haligned : Aligned pattern tokens)
    (htokens : tokens = front ++ last :: rest ++ token :: later)
    (hpassed : ∀ m, EndsIn pattern (values (front ++ [last])) m → m = 0)
    (hall : EndsIn pattern (values (front ++ last :: rest ++ [token])) pattern.length) {p : ℕ}
    (hstart : (source (window pattern (front ++ last :: rest ++ [token]))).1 ≤ p)
    (hp : p < last.stop) : covered (sources pattern (front ++ last :: rest)) p = true := by
  have hvalues := window_iff.mpr hall
  rw [window_behind hne hpassed hall] at hvalues hstart
  cases hlast : (rest ++ [token]).drop ((rest ++ [token]).length - pattern.length) with
  | nil =>
    rw [hlast] at hvalues
    exact absurd hvalues.symm hne
  | cons first more =>
    rw [hlast] at hvalues hstart
    have hparts := List.take_append_drop ((rest ++ [token]).length - pattern.length)
      (rest ++ [token])
    rw [hlast] at hparts
    apply covered_grow _ (haligned front last ((rest ++ [token]).take
      ((rest ++ [token]).length - pattern.length)) first more later _ hvalues hpassed p hstart hp)
    rw [hparts, htokens]
    simp

theorem matched_covered {front rest later : List RedactionToken} {last token : RedactionToken}
    (hne : pattern ≠ []) (hspans : Spanned text tokens)
    (htokens : tokens = front ++ last :: rest ++ token :: later)
    (hmatched : EndsIn pattern (values (front ++ [last])) pattern.length) {p : ℕ}
    (hstart : (source (window pattern (front ++ last :: rest ++ [token]))).1 ≤ p)
    (hp : p < last.stop) : covered (sources pattern (front ++ last :: rest)) p = true := by
  have hgrown : front ++ last :: rest = front ++ [last] ++ rest := by simp
  have hfront : tokens = front ++ last :: (rest ++ token :: later) := by
    rw [htokens]
    simp
  have hmem : source (window pattern (front ++ [last])) ∈
      sources pattern (front ++ last :: rest) := by
    rw [hgrown]
    apply (sources_grow rest).subset
    rw [sources_snoc hmatched]
    exact List.mem_append_right _ List.mem_cons_self
  have hfirst : (source (window pattern (front ++ [last]))).1 ≤
      (source (window pattern (front ++ last :: rest ++ [token]))).1 := by
    rw [window_start hne front last (rest ++ token :: later),
      window_start hne (front ++ last :: rest) token later, ← hfront, ← htokens]
    apply start_at_le hspans
    · rw [List.length_append, List.length_cons]
      omega
    · rw [htokens]
      simp only [List.length_append, List.length_cons]
      have := List.length_pos_iff.mpr hne
      omega
  have hstop : (source (window pattern (front ++ [last]))).2 = last.stop := by
    rw [window_source hne]
  rw [covered, List.any_eq_true]
  refine ⟨_, hmem, ?_⟩
  rw [Bool.and_eq_true, decide_eq_true_eq, decide_eq_true_eq, hstop]
  exact ⟨hfirst.trans hstart, hp⟩

theorem replaced_before {seen later : List RedactionToken} {s : TokenScan} {token : RedactionToken}
    (hne : pattern ≠ []) (hspans : Spanned text tokens) (haligned : Aligned pattern tokens)
    (htokens : tokens = seen ++ token :: later) (h : Scanned text marker pattern tokens seen s)
    (hall : EndsIn pattern (values (seen ++ [token])) pattern.length) {p : ℕ}
    (hstart : (source (window pattern (seen ++ [token]))).1 ≤ p) (hp : p < s.copied) :
    covered (sources pattern seen) p = true := by
  rcases h.reached with hzero | ⟨front, last, rest, rfl, hstop, hpassed | hmatched⟩
  · omega
  · rw [← hstop] at hp
    exact passed_covered hne haligned htokens hpassed hall hstart hp
  · rw [← hstop] at hp
    exact matched_covered hne hspans htokens hmatched hstart hp

theorem Scanned.grow {seen : List RedactionToken} {s : TokenScan} {token : RedactionToken}
    (h : Scanned text marker pattern tokens seen s) {m : ℕ}
    (hlongest : LongestProper pattern (values (seen ++ [token])) m)
    (hnot : ¬ EndsIn pattern (values (seen ++ [token])) pattern.length) :
    Scanned text marker pattern tokens (seen ++ [token])
      ⟨s.output, s.copied, m, lastStarts (seen ++ [token]) m⟩ where
  matched := hlongest
  starts := rfl
  stops := by
    rw [sources_snoc_none hnot]
    exact h.stops
  reached := by
    rcases h.reached with hzero | ⟨front, last, rest, rfl, hstop, hlast⟩
    · exact .inl hzero
    · exact .inr ⟨front, last, rest ++ [token], by simp, hstop, hlast⟩
  output := by
    rw [sources_snoc_none hnot]
    exact h.output

/-- Nothing of the pattern ends in the token: the text is copied up to its end. -/
theorem Scanned.pass {seen : List RedactionToken} {s : TokenScan} {token : RedactionToken}
    (hne : pattern ≠ []) (h : Scanned text marker pattern tokens seen s)
    (hle : s.copied ≤ token.stop) (hwithin : token.stop ≤ text.length)
    (hnone : ∀ m, EndsIn pattern (values (seen ++ [token])) m → m = 0) :
    Scanned text marker pattern tokens (seen ++ [token])
      ⟨s.output ++ slice text s.copied token.stop, token.stop, 0, []⟩ := by
  have hpos : 0 < pattern.length := List.length_pos_iff.mpr hne
  have hnot : ¬ EndsIn pattern (values (seen ++ [token])) pattern.length := by
    intro hall
    have := hnone _ hall
    omega
  constructor
  case matched => exact ⟨ends_zero _ _, hpos, fun k _ hk => (hnone k hk).le⟩
  case starts => exact (List.drop_eq_nil_of_le (by simp)).symm
  case stops =>
    rw [sources_snoc_none hnot]
    exact fun span hmem => (h.stops span hmem).trans hle
  case reached => exact .inr ⟨seen, token, [], rfl, rfl, .inl hnone⟩
  case output =>
    intro haligned
    simp only
    rw [sources_snoc_none hnot, h.output haligned]
    exact (weave_copy h.stops hle hwithin).symm

theorem window_within {seen later : List RedactionToken} {token : RedactionToken}
    (hne : pattern ≠ []) (hspans : Spanned text tokens)
    (htokens : tokens = seen ++ token :: later) :
    (source (window pattern (seen ++ [token]))).1 ≤ token.stop := by
  have hpos : 0 < pattern.length := List.length_pos_iff.mpr hne
  have hmem : token ∈ tokens := by
    rw [htokens]
    exact List.mem_append_right _ List.mem_cons_self
  rw [window_start hne seen token later]
  calc startAt (seen ++ token :: later) (seen.length + 1 - pattern.length)
      ≤ startAt (seen ++ token :: later) seen.length :=
        start_at_le (htokens ▸ hspans) (by omega) (by simp)
    _ = token.start := start_at_last token later
    _ ≤ token.stop := (hspans.within token hmem).1

/-- The token completes an occurrence: what is in front of it is kept, and the marker stands for
it. -/
theorem Scanned.complete {seen later : List RedactionToken} {s : TokenScan}
    {token : RedactionToken} (hne : pattern ≠ []) (hspans : Spanned text tokens)
    (htokens : tokens = seen ++ token :: later) (h : Scanned text marker pattern tokens seen s)
    (hwithin : token.stop ≤ text.length) {m : ℕ}
    (hlongest : LongestProper pattern (values (seen ++ [token])) m)
    (hall : EndsIn pattern (values (seen ++ [token])) pattern.length) :
    Scanned text marker pattern tokens (seen ++ [token])
      ⟨s.output ++ (if s.copied ≤ (source (window pattern (seen ++ [token]))).1 then
          slice text s.copied (source (window pattern (seen ++ [token]))).1 else []) ++ marker,
        token.stop, m, lastStarts (seen ++ [token]) m⟩ := by
  have hle := copied_le hspans htokens h
  have hfirst := window_within hne hspans htokens
  have hsource := window_source hne seen token
  constructor
  case matched => exact hlongest
  case starts => rfl
  case stops =>
    rw [sources_snoc hall, hsource]
    intro span hmem
    rcases List.mem_append.mp hmem with hold | hnew
    · exact (h.stops span hold).trans hle
    · rw [List.mem_singleton.mp hnew]
  case reached => exact .inr ⟨seen, token, [], rfl, rfl, .inr hall⟩
  case output =>
    intro haligned
    have hcovered := fun p => @replaced_before _ _ _ _ _ _ _ _ hne hspans haligned htokens h hall p
    simp only
    rw [sources_snoc hall, h.output haligned]
    rw [hsource] at hfirst hcovered ⊢
    exact (weave_replace h.stops hle hfirst hwithin fun p hp hp' => hcovered p hp hp').symm

theorem scan_next {seen later : List RedactionToken} {s : TokenScan} {token : RedactionToken}
    (hne : pattern ≠ []) (hspans : Spanned text tokens)
    (htokens : tokens = seen ++ token :: later) (h : Scanned text marker pattern tokens seen s) :
    ∃ next, scanTokenAt text pattern (kmpFailure pattern) marker token s.matched s = some next ∧
      Scanned text marker pattern tokens (seen ++ [token]) next := by
  have hmem : token ∈ tokens := by
    rw [htokens]
    exact List.mem_append_right _ List.mem_cons_self
  have hle := copied_le hspans htokens h
  have hwithin := (hspans.within token hmem).2
  have hstep := scan_step text marker token seen s.output s.copied s.matched s.matched
    h.matched.ends h.matched.proper le_rfl fun k hk hends => by
      rw [values_snoc] at hends
      exact h.matched.greatest k hk ((ends_succ k token.value).mp hends).1
  rw [← h.starts] at hstep
  generalize scanTokenAt text pattern (kmpFailure pattern) marker token s.matched
    ⟨s.output, s.copied, s.matched, s.starts⟩ = scanned at hstep ⊢
  cases hstep with
  | grown m hlongest hnot hpos => exact ⟨_, rfl, h.grow hlongest hnot⟩
  | passed hnone =>
    rw [sliceAt, if_pos ⟨hle, hwithin⟩]
    exact ⟨_, rfl, h.pass hne hle hwithin hnone⟩
  | replaced m hlongest hall =>
    have hfirst := window_within hne hspans htokens
    have hkept : (if s.copied ≤ (source (window pattern (seen ++ [token]))).1 then
        sliceAt text s.copied (source (window pattern (seen ++ [token]))).1 else some []) =
        some (if s.copied ≤ (source (window pattern (seen ++ [token]))).1 then
          slice text s.copied (source (window pattern (seen ++ [token]))).1 else []) := by
      by_cases hgap : s.copied ≤ (source (window pattern (seen ++ [token]))).1
      · rw [if_pos hgap, if_pos hgap, sliceAt, if_pos ⟨hgap, hfirst.trans hwithin⟩]
      · rw [if_neg hgap, if_neg hgap]
    rw [hkept]
    exact ⟨_, rfl, h.complete hne hspans htokens hwithin hlongest hall⟩

theorem scan_run (hne : pattern ≠ []) (hspans : Spanned text tokens)
    (later seen : List RedactionToken) (s : TokenScan) (htokens : tokens = seen ++ later)
    (h : Scanned text marker pattern tokens seen s) :
    ∃ last, later.foldlM (fun s token =>
        scanTokenAt text pattern (kmpFailure pattern) marker token s.matched s) s = some last ∧
      Scanned text marker pattern tokens tokens last := by
  induction later generalizing seen s with
  | nil =>
    rw [List.append_nil] at htokens
    subst htokens
    exact ⟨s, rfl, h⟩
  | cons token later ih =>
    obtain ⟨next, hnext, hscanned⟩ := scan_next hne hspans htokens h
    obtain ⟨last, hlast, hdone⟩ := ih (seen ++ [token]) next (by simp [htokens]) hscanned
    refine ⟨last, ?_, hdone⟩
    rw [List.foldlM_cons, hnext]
    exact hlast

theorem scanned_nothing (hne : pattern ≠ []) :
    Scanned text marker pattern tokens [] ⟨[], 0, 0, []⟩ := by
  have hpos : 0 < pattern.length := List.length_pos_iff.mpr hne
  have hnone := sources_nil hne
  refine ⟨⟨ends_zero _ _, hpos, ?_⟩, rfl, ?_, .inl rfl, ?_⟩
  · intro k _ hk
    simpa [values] using hk.length
  · rw [hnone]
    intro span hmem
    exact absurd hmem List.not_mem_nil
  · intro _
    rw [hnone]
    rfl

theorem expected_none : expected text marker [] = text := by
  have hnone : ∀ span ∈ ([] : List (ℕ × ℕ)), span.2 ≤ 0 := by simp
  rw [expected, weave_copy hnone (Nat.zero_le _) le_rfl]
  simp [weave, endsAt, slice]

end Run

section Slices

variable {text : Text} {pattern failure : List ℕ} {marker : Text}

theorem slice_at_eq {start stop : ℕ} {kept : Text} (h : sliceAt text start stop = some kept) :
    slice text start stop = kept := by
  rw [sliceAt] at h
  split_ifs at h
  exact Option.some.inj h

theorem replace_at_eq {token : RedactionToken} {s next : TokenScan}
    (h : replaceAt text failure marker token s = some next) :
    s.replace text failure marker token = next := by
  rw [replaceAt] at h
  obtain ⟨kept, hkept, rfl⟩ := Option.map_eq_some_iff.mp h
  have hsame : (if s.copied ≤ s.starts.head?.getD token.start then
      slice text s.copied (s.starts.head?.getD token.start) else []) = kept := by
    split_ifs at hkept ⊢
    · exact slice_at_eq hkept
    · exact Option.some.inj hkept
  rw [TokenScan.replace, ← hsame]

theorem grown_at_eq {token : RedactionToken} (grown : TokenScan) {next : TokenScan}
    (h : (if grown.matched = pattern.length then replaceAt text failure marker token grown
      else some grown) = some next) :
    (if grown.matched = pattern.length then grown.replace text failure marker token else grown) =
      next := by
  by_cases hfull : grown.matched = pattern.length
  · rw [if_pos hfull] at h ⊢
    exact replace_at_eq h
  · rw [if_neg hfull] at h ⊢
    exact Option.some.inj h

theorem passed_at_eq {token : RedactionToken} {s next : TokenScan}
    (h : (sliceAt text s.copied token.stop).map (fun kept =>
      ({ s with output := s.output ++ kept, copied := token.stop } : TokenScan)) = some next) :
    ({ s with output := s.output ++ slice text s.copied token.stop, copied := token.stop } :
      TokenScan) = next := by
  obtain ⟨kept, hkept, rfl⟩ := Option.map_eq_some_iff.mp h
  rw [slice_at_eq hkept]

theorem scan_token_at_eq {token : RedactionToken} (bound : ℕ) {s next : TokenScan}
    (h : scanTokenAt text pattern failure marker token bound s = some next) :
    scanToken text pattern failure marker token bound s = next := by
  induction bound generalizing s with
  | zero =>
    rw [scanTokenAt] at h
    rw [scanToken]
    by_cases hvalue : pattern[s.matched]? = some token.value
    · simp only [if_pos hvalue] at h ⊢
      exact grown_at_eq
        { s with matched := s.matched + 1, starts := s.starts ++ [token.start] } h
    · simp only [if_neg hvalue] at h ⊢
      by_cases hzero : s.matched = 0
      · rw [if_pos hzero] at h ⊢
        exact passed_at_eq h
      · rw [if_neg hzero] at h ⊢
        exact Option.some.inj h
  | succ bound ih =>
    rw [scanTokenAt] at h
    rw [scanToken]
    by_cases hvalue : pattern[s.matched]? = some token.value
    · simp only [if_pos hvalue] at h ⊢
      exact grown_at_eq
        { s with matched := s.matched + 1, starts := s.starts ++ [token.start] } h
    · simp only [if_neg hvalue] at h ⊢
      by_cases hzero : s.matched = 0
      · rw [if_pos hzero] at h ⊢
        exact passed_at_eq h
      · rw [if_neg hzero] at h ⊢
        exact ih h

theorem redact_token_matches_eq {tokens : List RedactionToken} {output : Text}
    (h : redactTokenMatchesAt text pattern tokens marker = some output) :
    redactTokenMatches text pattern tokens marker = output := by
  rw [redactTokenMatchesAt] at h
  rw [redactTokenMatches]
  split_ifs at h ⊢
  · exact Option.some.inj h
  · obtain ⟨last, hlast, hrest⟩ := Option.bind_eq_some_iff.mp h
    obtain ⟨rest, hslice, rfl⟩ := Option.map_eq_some_iff.mp hrest
    have hscan : ∀ (later : List RedactionToken) (s : TokenScan), later.foldlM (fun s token =>
        scanTokenAt text pattern (kmpFailure pattern) marker token s.matched s) s = some last →
          later.foldl (fun s token =>
            scanToken text pattern (kmpFailure pattern) marker token s.matched s) s = last := by
      intro later
      induction later with
      | nil => exact fun s hs => Option.some.inj hs
      | cons token later ih =>
        intro s hs
        obtain ⟨next, hnext, hlater⟩ := Option.bind_eq_some_iff.mp hs
        rw [List.foldl_cons, scan_token_at_eq _ hnext]
        exact ih next hlater
    have hend := slice_at_eq hslice
    rw [slice, List.take_length] at hend
    simp only [hscan tokens _ hlast, hend]

end Slices

/-- The tokens lie in order between the cursor and the stop, and of those that share a source only
the first is a lead. -/
structure Placed (lead : ℕ → Prop) (tokens : List RedactionToken) (cursor stop : ℕ) : Prop where
  within : ∀ token ∈ tokens,
    cursor ≤ token.start ∧ token.start ≤ token.stop ∧ token.stop ≤ stop
  ordered : tokens.Pairwise fun a b =>
    a.start ≤ b.start ∧ a.stop ≤ b.stop ∧ (a.stop ≤ b.start ∨ ¬ lead b.value)

section Placing

variable {lead : ℕ → Prop} {tokens : List RedactionToken} {cursor next stop : ℕ}

theorem placed_nil : Placed lead [] cursor stop := ⟨by simp, List.Pairwise.nil⟩

theorem Placed.piece (h : Placed lead tokens next stop) (hle : cursor ≤ next) (hstop : next ≤ stop)
    (values : List ℕ) (hrest : ∀ value ∈ values.tail, ¬ lead value) :
    Placed lead (values.map (fun value => ⟨value, cursor, next⟩) ++ tokens) cursor stop where
  within token htoken := by
    rcases List.mem_append.mp htoken with hnew | hold
    · obtain ⟨value, -, rfl⟩ := List.mem_map.mp hnew
      exact ⟨le_rfl, hle, hstop⟩
    · have := h.within token hold
      omega
  ordered := by
    rw [List.pairwise_append]
    refine ⟨?_, h.ordered, ?_⟩
    · rw [List.pairwise_map]
      cases values with
      | nil => exact List.Pairwise.nil
      | cons first rest =>
        rw [List.pairwise_cons]
        refine ⟨fun value hvalue => ⟨le_rfl, le_rfl, .inr (hrest value hvalue)⟩, ?_⟩
        rw [List.pairwise_iff_forall_sublist]
        intro a b hab
        exact ⟨le_rfl, le_rfl, .inr (hrest b (hab.subset (by simp)))⟩
    · intro token htoken later hlater
      obtain ⟨value, -, rfl⟩ := List.mem_map.mp htoken
      have hplaced := h.within later hlater
      exact ⟨hle.trans hplaced.1, hplaced.1.trans hplaced.2.1, .inl hplaced.1⟩

theorem Placed.spanned {text : Text} (h : Placed lead tokens 0 text.length) :
    Spanned text tokens where
  ordered := h.ordered.imp fun hab => ⟨hab.1, hab.2.1⟩
  within token htoken := (h.within token htoken).2

/-- A pattern that begins with a lead begins in no source of another token. -/
theorem Placed.aligned {pattern : List ℕ} (h : Placed lead tokens cursor stop)
    (hlead : ∀ value ∈ pattern.head?, lead value) : Aligned pattern tokens := by
  intro front token middle first rest after htokens hvalues _ p hstart hp
  have hordered := h.ordered
  rw [htokens] at hordered
  have hlater := (List.pairwise_cons.mp (List.pairwise_append.mp hordered).2.1).1 first (by simp)
  have hfirst : lead first.value := by
    apply hlead
    rw [← hvalues]
    rfl
  rcases hlater.2.2 with hbehind | hnot
  · omega
  · exact absurd hfirst hnot

end Placing

theorem json_escape_within {text : Text} {unit width : ℕ}
    (h : jsonEscapeAt text = some (unit, width)) : width ≤ text.length := by
  unfold jsonEscapeAt at h
  split at h
  · obtain ⟨_, hread, heq⟩ := Option.map_eq_some_iff.mp h
    rw [hexOf] at hread
    split_ifs at hread
    cases heq
    simp only [List.length_cons]
    omega
  · obtain ⟨_, -, heq⟩ := Option.map_eq_some_iff.mp h
    cases heq
    simp only [List.length_cons]
    omega
  · exact absurd h (by simp)

theorem json_placed (patternIsAscii : Bool) (text : Text) (skip cursor : ℕ)
    (hskip : skip ≤ text.length) :
    Placed (fun unit => ¬ (0xDC00 ≤ unit ∧ unit < 0xE000))
      (jsonTokens patternIsAscii skip cursor text) (cursor + skip) (cursor + text.length) := by
  induction text generalizing skip cursor with
  | nil =>
    rw [jsonTokens]
    exact placed_nil
  | cons c text ih =>
    have hstop : cursor + (c :: text).length = cursor + 1 + text.length := by
      rw [List.length_cons]
      omega
    rw [hstop]
    cases skip with
    | succ skip =>
      have hrest := ih skip (cursor + 1) (Nat.le_of_succ_le_succ hskip)
      rwa [Nat.add_right_comm, Nat.add_assoc cursor skip 1] at hrest
    | zero =>
      rw [jsonTokens]
      cases hescape : jsonEscapeAt (c :: text) with
      | some read =>
        obtain ⟨unit, width⟩ := read
        have hwidth := json_escape_width hescape
        have hwithin := json_escape_within hescape
        rw [List.length_cons] at hwithin
        have hrest := ih (width - 1) (cursor + 1) (by omega)
        rw [show cursor + 1 + (width - 1) = cursor + width by omega] at hrest
        exact hrest.piece (by omega) (by omega)
          [if patternIsAscii && 255 < unit then nonUtf16Token else unit] (by simp)
      | none =>
        have hrest := ih 0 (cursor + 1) (Nat.zero_le _)
        simp only
        split
        · exact hrest.piece (by omega) (by omega) [nonUtf16Token] (by simp)
        · obtain ⟨first, rest, hunits, -, hafter⟩ := utf16_synced.leads c
          apply hrest.piece (by omega) (by omega) (utf16Units c)
          rw [hunits]
          exact hafter

theorem percent_placed (text : Text) (skip cursor : ℕ) (hskip : skip ≤ text.length) :
    Placed (fun byte => ¬ (128 ≤ byte ∧ byte < 192)) (percentTokens skip cursor text)
      (cursor + skip) (cursor + text.length) := by
  induction text generalizing skip cursor with
  | nil =>
    rw [percentTokens]
    exact placed_nil
  | cons c text ih =>
    have hstop : cursor + (c :: text).length = cursor + 1 + text.length := by
      rw [List.length_cons]
      omega
    rw [hstop]
    cases skip with
    | succ skip =>
      have hrest := ih skip (cursor + 1) (Nat.le_of_succ_le_succ hskip)
      rwa [Nat.add_right_comm, Nat.add_assoc cursor skip 1] at hrest
    | zero =>
      rw [percentTokens]
      cases hescape : percentEscapeAt (c :: text) with
      | some value =>
        have hwithin : 2 ≤ text.length := by
          unfold percentEscapeAt at hescape
          split at hescape
          · rename_i heq
            rw [hexOf] at hescape
            split_ifs at hescape
            rw [(List.cons.inj heq).2]
            omega
          · exact absurd hescape (by simp)
        exact (ih 2 (cursor + 1) hwithin).piece (by omega) (by omega) [percentEscapeToken value]
          (by simp)
      | none =>
        apply (ih 0 (cursor + 1) (Nat.zero_le _)).piece (by omega) (by omega) (percentCharValues c)
        rw [percentCharValues]
        split
        · simp
        · obtain ⟨first, rest, hbytes, -, hafter⟩ := utf8_synced.leads c
          rw [hbytes]
          exact hafter

theorem encoded_aligned (text secret : Text) (hne : secret ≠ []) :
    (Spanned text (jsonTokens (isAscii secret) 0 0 text) ∧
        Aligned (encodeUtf16 secret) (jsonTokens (isAscii secret) 0 0 text)) ∧
      Spanned text (percentTokens 0 0 text) ∧
        Aligned (percentPattern secret) (percentTokens 0 0 text) := by
  cases secret with
  | nil => exact absurd rfl hne
  | cons c secret =>
    constructor
    · obtain ⟨unit, rest, hunits, hlead, -⟩ := utf16_synced.leads c
      have hpattern : encodeUtf16 (c :: secret) = unit :: (rest ++ encodeUtf16 secret) := by
        rw [encodeUtf16, List.flatMap_cons, hunits]
        rfl
      have hplaced := json_placed (isAscii (c :: secret)) text 0 0 (Nat.zero_le _)
      rw [Nat.zero_add, Nat.zero_add] at hplaced
      refine ⟨hplaced.spanned, hplaced.aligned ?_⟩
      rw [hpattern]
      intro value hvalue
      rwa [← Option.some.inj hvalue]
    · obtain ⟨byte, rest, hbytes, hlead, -⟩ := utf8_synced.leads c
      have hpattern : percentPattern (c :: secret) =
          percentEscapeToken byte :: (rest ++ encodeUtf8 secret).map percentEscapeToken := by
        rw [percentPattern, encodeUtf8, List.flatMap_cons, hbytes]
        rfl
      have hplaced := percent_placed text 0 0 (Nat.zero_le _)
      rw [Nat.zero_add, Nat.zero_add] at hplaced
      refine ⟨hplaced.spanned, hplaced.aligned ?_⟩
      rw [hpattern]
      intro value hvalue
      rw [← Option.some.inj hvalue, percentEscapeToken]
      split
      · decide
      · exact hlead

/-- No slice runs backwards or out of the text, whatever the pattern. Where no occurrence begins in
text that is copied already, the output is the text without the sources of all occurrences and a
marker at the end of each. -/
theorem token_matches_exact (text : Text) (pattern : List ℕ) (tokens : List RedactionToken)
    (marker : Text) (hne : pattern ≠ []) (hspans : Spanned text tokens) :
    redactTokenMatchesAt text pattern tokens marker =
        some (redactTokenMatches text pattern tokens marker) ∧
      (Aligned pattern tokens → redactTokenMatches text pattern tokens marker =
        expected text marker (sources pattern tokens)) := by
  have hstart : Scanned text marker pattern tokens [] ⟨[], 0, 0, []⟩ := scanned_nothing hne
  obtain ⟨last, hlast, hdone⟩ := scan_run hne hspans tokens [] _ rfl hstart
  have hcopied : last.copied ≤ text.length := by
    rcases hdone.reached with hzero | ⟨front, token, rest, hseen, hstop, -⟩
    · omega
    · rw [← hstop]
      apply (hspans.within token _).2
      rw [hseen]
      exact List.mem_append_right _ List.mem_cons_self
  have hslice : sliceAt text last.copied text.length = some (slice text last.copied text.length) :=
    if_pos ⟨hcopied, le_rfl⟩
  have hpattern : pattern.isEmpty = false := List.isEmpty_eq_false_iff.mpr hne
  by_cases hnone : tokens = []
  · subst hnone
    have hmodel : redactTokenMatches text pattern [] marker = text := by
      rw [redactTokenMatches, if_pos (.inr rfl)]
    rw [hmodel, redactTokenMatchesAt, if_pos (.inr rfl), sources_nil hne, expected_none]
    exact ⟨rfl, fun _ => rfl⟩
  · have hrun : redactTokenMatchesAt text pattern tokens marker =
        some (last.output ++ slice text last.copied text.length) := by
      rw [redactTokenMatchesAt, if_neg (by simp [hpattern, hnone]), hlast]
      simp only [Option.bind_some, hslice, Option.map_some]
    rw [redact_token_matches_eq hrun]
    refine ⟨hrun, fun haligned => ?_⟩
    rw [hdone.output haligned, expected, weave_copy hdone.stops hcopied le_rfl]

/-- Three letters that overlap in one, in the text as it stands. -/
theorem token_matches_overlap :
    redactTokenMatches ['x', 'a', 'b', 'a', 'b', 'a', 'y'] (encodeUtf16 ['a', 'b', 'a'])
        (jsonTokens (isAscii ['a', 'b', 'a']) 0 0 ['x', 'a', 'b', 'a', 'b', 'a', 'y']) ['*'] =
        ['x', '*', '*', 'y'] ∧
      redactTokenMatches ['x', 'a', 'b', 'a', 'b', 'a', 'y'] (encodeUtf16 ['a', 'b', 'a'])
        (jsonTokens (isAscii ['a', 'b', 'a']) 0 0 ['x', 'a', 'b', 'a', 'b', 'a', 'y']) ['*'] =
        expected ['x', 'a', 'b', 'a', 'b', 'a', 'y'] ['*'] (sources (encodeUtf16 ['a', 'b', 'a'])
          (jsonTokens (isAscii ['a', 'b', 'a']) 0 0 ['x', 'a', 'b', 'a', 'b', 'a', 'y'])) :=
  ⟨by decide, (token_matches_exact _ _ _ _ (by decide)
    (encoded_aligned _ ['a', 'b', 'a'] (by decide)).1.1).2
      (encoded_aligned _ ['a', 'b', 'a'] (by decide)).1.2⟩

/-- The second of two tokens of one character begins an occurrence: its source is copied for the
first. -/
theorem token_matches_copied : Spanned ['a'] [⟨1, 0, 1⟩, ⟨2, 0, 1⟩] ∧
    redactTokenMatches ['a'] [2] [⟨1, 0, 1⟩, ⟨2, 0, 1⟩] ['*'] = ['a', '*'] ∧
      expected ['a'] ['*'] (sources [2] [⟨1, 0, 1⟩, ⟨2, 0, 1⟩]) = ['*'] :=
  ⟨⟨by decide, by decide⟩, by decide, by decide⟩

end Siralos.TokenMatches
