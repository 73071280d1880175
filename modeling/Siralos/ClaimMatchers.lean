import Siralos.ClaimPatterns

/-!
# What the policy claim matchers find

Over bytes without runs of white space, each hand-written search finds just the matches of its own
patterns: the scans forward meet every place that backtracking would try.
-/

set_option autoImplicit false

namespace Siralos.PlanValidation

open Knowledge Pattern

/-- Bytes whose only white space is single spaces. -/
structure Normal (bytes : Bytes) : Prop where
  spaced : ∀ b ∈ bytes, isSpaceByte b = true → b = 0x20
  single : ∀ i : ℕ, bytes[i]? = some 0x20 → bytes[i + 1]? ≠ some 0x20

abbrev Matches (bytes : Bytes) (p : Pattern UInt8) : Prop := Found isWordByte bytes p

abbrev At (bytes : Bytes) (ps : List (Pattern UInt8)) (i : ℕ) : Prop :=
  Leads isWordByte bytes (chain ps) i

variable {bytes : Bytes}

theorem boundary_before (i : ℕ) : boundaryBefore bytes i = !wordBefore isWordByte bytes i := by
  cases i with
  | zero => rfl
  | succ i => rfl

theorem stands_iff (sought : Bytes) (i : ℕ) :
    Stands isWordByte bytes sought i ↔ sought <+: bytes.drop i ∧ boundaryBefore bytes i = true ∧
      boundaryAfter bytes (i + sought.length) = true := by
  rw [boundary_before, Bool.not_eq_true', boundaryAfter, Bool.not_eq_true']
  constructor
  · rintro ⟨hleads, hbefore, hbehind⟩
    exact ⟨hleads, hbefore, hbehind⟩
  · rintro ⟨hleads, hbefore, hbehind⟩
    exact ⟨hleads, hbefore, hbehind⟩

theorem mem_occurrences {sought : Bytes} (hne : sought ≠ []) (start i : ℕ) :
    i ∈ occurrences bytes start sought ↔ start ≤ i ∧ sought <+: bytes.drop i := by
  rw [occurrences, List.mem_filter, List.mem_range'_1, startsWithAt, List.isPrefixOf_iff_prefix]
  constructor
  · rintro ⟨⟨hstart, _⟩, hleads⟩
    exact ⟨hstart, hleads⟩
  · rintro ⟨hstart, hleads⟩
    have hpos := List.length_pos_of_ne_nil hne
    have hlength := hleads.length_le
    rw [List.length_drop] at hlength
    exact ⟨⟨hstart, by omega⟩, hleads⟩

theorem mem_take_le {positions : List ℕ} (h : positions.Pairwise (· < ·)) (limit i : ℕ) :
    i ∈ positions.takeWhile (· ≤ limit) ↔ i ∈ positions ∧ i ≤ limit := by
  induction positions with
  | nil => simp
  | cons first positions ih =>
    rw [List.pairwise_cons] at h
    by_cases hfirst : first ≤ limit
    · rw [List.takeWhile_cons_of_pos (by simpa using hfirst), List.mem_cons, ih h.2, List.mem_cons]
      constructor
      · intro hmem
        rcases hmem with hsame | ⟨hmem, hle⟩
        · exact ⟨.inl hsame, by omega⟩
        · exact ⟨.inr hmem, hle⟩
      · rintro ⟨hmem, hle⟩
        rcases hmem with hsame | hmem
        · exact .inl hsame
        · exact .inr ⟨hmem, hle⟩
    · rw [List.takeWhile_cons_of_neg (by simpa using hfirst)]
      constructor
      · intro hmem
        cases hmem
      · rintro ⟨hmem, hle⟩
        rcases List.mem_cons.mp hmem with hsame | hmem
        · omega
        · have := h.1 i hmem
          omega

theorem mem_occurrences_within {sought : Bytes} (hne : sought ≠ []) (start limit i : ℕ) :
    i ∈ (occurrences bytes start sought).takeWhile (· ≤ limit) ↔
      start ≤ i ∧ i ≤ limit ∧ sought <+: bytes.drop i := by
  have hsorted : (occurrences bytes start sought).Pairwise (· < ·) :=
    List.Pairwise.filter _ List.pairwise_lt_range'
  rw [mem_take_le hsorted, mem_occurrences hne]
  constructor
  · rintro ⟨⟨hstart, hleads⟩, hle⟩
    exact ⟨hstart, hle, hleads⟩
  · rintro ⟨hstart, hle, hleads⟩
    exact ⟨⟨hstart, hleads⟩, hle⟩

theorem lexical_ne_nil {sought : Bytes} (h : Lexical isWordByte sought) : sought ≠ [] := by
  intro hnil
  rw [hnil] at h
  exact absurd h.1 (by decide)

/-- The search of every matcher: each place where a lead stands, and what follows it. -/
theorem any_lead {leads : List Bytes} (hleads : ∀ lead ∈ leads, Lexical isWordByte lead)
    (search : ℕ → Bool) {P : ℕ → Prop} (hsearch : ∀ stop, search stop = true ↔ P stop) :
    (leads.any fun lead => (occurrences bytes 0 lead).any fun start =>
      boundaryBefore bytes start && boundaryAfter bytes (start + lead.length) &&
        search (start + lead.length)) = true ↔
      ∃ i, ∃ lead ∈ leads, Stands isWordByte bytes lead i ∧ P (i + lead.length) := by
  simp only [List.any_eq_true, Bool.and_eq_true, stands_iff, hsearch]
  constructor
  · rintro ⟨lead, hmem, i, hi, ⟨hbefore, hbehind⟩, hP⟩
    have hoccurs := (mem_occurrences (lexical_ne_nil (hleads lead hmem)) 0 i).mp hi
    exact ⟨i, lead, hmem, ⟨hoccurs.2, hbefore, hbehind⟩, hP⟩
  · rintro ⟨i, lead, hmem, ⟨hoccurs, hbefore, hbehind⟩, hP⟩
    have hi := (mem_occurrences (lexical_ne_nil (hleads lead hmem)) 0 i).mpr ⟨Nat.zero_le _, hoccurs⟩
    exact ⟨lead, hmem, i, hi, ⟨hbefore, hbehind⟩, hP⟩

section Classes

variable (h : Normal bytes)

include h

theorem run_gap (i n : ℕ) :
    Run bytes (fun b => b != 0x2E && b != 0x0A) i n ↔ Run bytes (· != 0x2E) i n := by
  apply run_congr
  intro b hb
  by_cases hline : b = 0x0A
  · have hspace := h.spaced b hb (by rw [hline]; decide)
    rw [hline] at hspace
    exact absurd hspace (by decide)
  · simp [hline]

theorem spans_gap (least most i j : ℕ) :
    Spans isWordByte bytes (gap least most) i j ↔
      ∃ n, j = i + n ∧ least ≤ n ∧ n ≤ most ∧ Run bytes (· != 0x2E) i n := by
  simp only [gap, Spans, Option.mem_some_iff, forall_eq', run_gap h]

theorem spans_gap_end (most i j : ℕ) :
    Spans isWordByte bytes (gap 0 most) i j ↔ i ≤ j ∧ j ≤ gapEnd bytes i most 0x2E := by
  rw [spans_gap h]
  constructor
  · rintro ⟨n, hj, _, hmost, hrun⟩
    have hle := (le_take_while_iff _ n).mpr ((run_window n).mpr ⟨hmost, hrun⟩)
    rw [gapEnd]
    omega
  · rintro ⟨hi, hj⟩
    rw [gapEnd] at hj
    have hlength : j - i ≤ (((bytes.drop i).take most).takeWhile (· != 0x2E)).length := by
      omega
    have hwindow := (le_take_while_iff _ _).mp hlength
    obtain ⟨hmost, hrun⟩ := (run_window (j - i)).mp hwindow
    exact ⟨j - i, by omega, Nat.zero_le _, hmost, hrun⟩

theorem run_spaces (i n : ℕ) :
    Run bytes isSpaceByte i n ↔ n = 0 ∨ n = 1 ∧ bytes[i]? = some 0x20 := by
  have hat : ∀ k : ℕ, (bytes[k]?).any isSpaceByte = true ↔ bytes[k]? = some 0x20 := by
    intro k
    cases hget : bytes[k]? with
    | none => simp
    | some b =>
      rw [Option.any_some, Option.some_inj]
      constructor
      · exact h.spaced b (List.mem_of_getElem? hget)
      · intro hb
        rw [hb]
        rfl
  constructor
  · intro hrun
    by_cases hlong : 2 ≤ n
    · have hfirst := (hat _).mp (hrun 0 (by omega))
      have hnext := (hat _).mp (hrun 1 (by omega))
      exact absurd hnext (h.single i hfirst)
    · by_cases hzero : n = 0
      · exact .inl hzero
      · exact .inr ⟨by omega, (hat _).mp (hrun 0 (by omega))⟩
  · intro hspaces
    rcases hspaces with hzero | ⟨hone, hspace⟩
    · rw [hzero]
      exact Run.zero
    · rw [hone, run_one]
      exact (hat i).mpr hspace

theorem spans_spaces_one (i j : ℕ) :
    Spans isWordByte bytes (spaces 1) i j ↔ j = i + 1 ∧ bytes[i]? = some 0x20 := by
  simp only [spaces, Spans, run_spaces h]
  constructor
  · rintro ⟨n, hj, hleast, _, hrun⟩
    rcases hrun with hzero | ⟨hone, hspace⟩
    · omega
    · exact ⟨by omega, hspace⟩
  · rintro ⟨hj, hspace⟩
    exact ⟨1, hj, le_rfl, by rintro _ ⟨⟩, .inr ⟨rfl, hspace⟩⟩

theorem spans_spaces_zero (i j : ℕ) :
    Spans isWordByte bytes (spaces 0) i j ↔
      j = i ∨ Spans isWordByte bytes (spaces 1) i j := by
  rw [spans_spaces_one h]
  simp only [spaces, Spans, run_spaces h]
  constructor
  · rintro ⟨n, hj, _, _, hrun⟩
    rcases hrun with hzero | ⟨hone, hspace⟩
    · exact .inl (by omega)
    · exact .inr ⟨by omega, hspace⟩
  · intro hspaces
    rcases hspaces with hj | ⟨hj, hspace⟩
    · exact ⟨0, hj, le_rfl, by rintro _ ⟨⟩, .inl rfl⟩
    · exact ⟨1, hj, Nat.zero_le _, by rintro _ ⟨⟩, .inr ⟨rfl, hspace⟩⟩

theorem at_spaces (rest : List (Pattern UInt8)) (i : ℕ) :
    At bytes (spaces 1 :: rest) i ↔ bytes[i]? = some 0x20 ∧ At bytes rest (i + 1) := by
  rw [At, leads_chain]
  constructor
  · rintro ⟨j, hspaces, hrest⟩
    obtain ⟨hj, hspace⟩ := (spans_spaces_one h i j).mp hspaces
    rw [hj] at hrest
    exact ⟨hspace, hrest⟩
  · rintro ⟨hspace, hrest⟩
    exact ⟨i + 1, (spans_spaces_one h i _).mpr ⟨rfl, hspace⟩, hrest⟩

theorem at_word_spaces {words : List Bytes} (hwords : ∀ sought ∈ words, Lexical isWordByte sought)
    (rest : List (Pattern UInt8)) (i : ℕ) :
    At bytes (.edge :: .oneOf words :: spaces 1 :: rest) i ↔
      ∃ sought ∈ words, Stands isWordByte bytes sought i ∧
        At bytes (spaces 1 :: rest) (i + sought.length) := by
  rw [← leads_bounded hwords, At, leads_edge, leads_edge, leads_one, leads_one]
  apply and_congr_right
  intro _
  apply exists_congr
  intro sought
  apply and_congr_right
  intro hmem
  apply and_congr_right
  intro hleads
  rw [leads_edge]
  constructor
  · intro hrest
    have hspace := ((at_spaces h rest _).mp hrest).1
    rw [(hwords sought hmem).word_before hleads, Pattern.wordAt, hspace]
    exact ⟨by decide, hrest⟩
  · exact And.right

theorem skip_spaces (i : ℕ) :
    skipWhile bytes (· == 0x20) i = if bytes[i]? = some 0x20 then i + 1 else i := by
  have hclass : ∀ n, n ≤ ((bytes.drop i).takeWhile (· == 0x20)).length ↔
      n = 0 ∨ n = 1 ∧ bytes[i]? = some 0x20 := by
    intro n
    rw [le_take_while_iff, ← run_spaces h, run_drop]
    apply run_congr
    intro b hb
    by_cases hspace : isSpaceByte b = true
    · rw [hspace, h.spaced b hb hspace]
      rfl
    · have hother : b ≠ 0x20 := by
        intro hb
        rw [hb] at hspace
        exact hspace rfl
      simp [hspace, hother]
  rw [skipWhile]
  split
  · next hspace =>
    have hone := (hclass 1).mpr (.inr ⟨rfl, hspace⟩)
    have htwo := mt (hclass 2).mp (by omega)
    omega
  · next hspace =>
    have hone := mt (hclass 1).mp (by simp [hspace])
    omega

end Classes

theorem noun_starts_noun_match {nouns : List Bytes}
    (hnouns : ∀ noun ∈ nouns, Lexical isWordByte noun) (cursor : ℕ) :
    nounStartsNounMatch bytes cursor nouns = true ↔
      At bytes [.edge, .oneOf nouns, .edge] cursor := by
  have hstart : ∀ noun ∈ nouns, noun <+: bytes.drop cursor → cursor < bytes.length := by
    intro noun hmem hleads
    have hpos := List.length_pos_of_ne_nil (lexical_ne_nil (hnouns noun hmem))
    have hlength := hleads.length_le
    rw [List.length_drop] at hlength
    omega
  rw [At, leads_bounded hnouns, nounStartsNounMatch]
  constructor
  · intro hmatch
    split at hmatch
    · cases hmatch
    · next hopen =>
      obtain ⟨noun, hmem, hnoun⟩ := List.any_eq_true.mp hmatch
      rw [Bool.and_eq_true, startsWithAt, List.isPrefixOf_iff_prefix] at hnoun
      have hbefore : boundaryBefore bytes cursor = true := by
        simp [hstart noun hmem hnoun.1] at hopen
        exact hopen.2
      exact ⟨noun, hmem, (stands_iff noun cursor).mpr ⟨hnoun.1, hbefore, hnoun.2⟩, leads_nil⟩
  · rintro ⟨noun, hmem, hstands, _⟩
    obtain ⟨hleads, hbefore, hbehind⟩ := (stands_iff noun cursor).mp hstands
    have hlt := hstart noun hmem hleads
    rw [if_neg (by simp [hbefore, hlt.le]), List.any_eq_true]
    refine ⟨noun, hmem, ?_⟩
    rw [Bool.and_eq_true, startsWithAt, List.isPrefixOf_iff_prefix]
    exact ⟨hleads, hbehind⟩

theorem target_within (h : Normal bytes) {targets : List Bytes}
    (htargets : ∀ target ∈ targets, Lexical isWordByte target) (start most : ℕ) :
    targetWithin bytes targets start (gapEnd bytes start most 0x2E) = true ↔
      At bytes [gap 0 most, .edge, .oneOf targets, .edge] start := by
  rw [At, leads_chain]
  simp only [targetWithin, List.any_eq_true, Bool.and_eq_true, spans_gap_end h,
    leads_bounded htargets, stands_iff]
  constructor
  · rintro ⟨target, hmem, i, hi, hbefore, hbehind⟩
    obtain ⟨hstart, hle, hleads⟩ :=
      (mem_occurrences_within (lexical_ne_nil (htargets target hmem)) start _ i).mp hi
    exact ⟨i, ⟨hstart, hle⟩, target, hmem, ⟨hleads, hbefore, hbehind⟩, leads_nil⟩
  · rintro ⟨i, ⟨hstart, hle⟩, target, hmem, ⟨hleads, hbefore, hbehind⟩, _⟩
    have hi := (mem_occurrences_within (lexical_ne_nil (htargets target hmem)) start
      (gapEnd bytes start most 0x2E) i).mpr ⟨hstart, hle, hleads⟩
    exact ⟨target, hmem, i, hi, hbefore, hbehind⟩

theorem spaced_word (h : Normal bytes) {objects : List Bytes}
    (hobjects : ∀ object ∈ objects, Lexical isWordByte object) (stop : ℕ) :
    spacedWord bytes objects stop = true ↔ At bytes [spaces 1, .oneOf objects, .edge] stop := by
  rw [at_spaces h, At, leads_one, spacedWord, skip_spaces h]
  by_cases hspace : bytes[stop]? = some 0x20
  · have hedge : ∀ object ∈ objects, object <+: bytes.drop (stop + 1) →
        (boundaryAfter bytes (stop + 1 + object.length) = true ↔
          Leads isWordByte bytes (chain [.edge]) (stop + 1 + object.length)) := by
      intro object hmem hleads
      rw [leads_edge, (hobjects object hmem).word_before hleads, boundaryAfter]
      simp [Pattern.wordAt]
    simp only [hspace, true_and, Bool.and_eq_true, List.any_eq_true, startsWithAt,
      List.isPrefixOf_iff_prefix]
    constructor
    · rintro ⟨_, object, hmem, hleads, hbehind⟩
      exact ⟨object, hmem, hleads, (hedge object hmem hleads).mp hbehind⟩
    · rintro ⟨object, hmem, hleads, hbehind⟩
      exact ⟨by simp, object, hmem, hleads, (hedge object hmem hleads).mpr hbehind⟩
  · simp [hspace]

def claimWordLists : List (List Bytes) :=
  [claimVerbs, claimNouns, claimQualifiers, disableLeads, protectedTargets, waivedKinds,
    waivedTails, claimSubjects, claimConnectors, claimObjects, openingNouns]

theorem lexical_lists : ∀ names ∈ claimWordLists, ∀ sought ∈ names, Lexical isWordByte sought := by
  decide +kernel

theorem gap_before_word (h : Normal bytes) {sought : Bytes} {most cursor : ℕ}
    (hleads : sought <+: bytes.drop cursor) (hclean : ∀ b ∈ sought, (b != 0x2E) = true)
    (hshort : sought.length ≤ most) (start : ℕ) :
    Spans isWordByte bytes (gap 0 (most - sought.length)) start cursor ↔
      start ≤ cursor ∧ cursor + sought.length ≤ gapEnd bytes start most 0x2E := by
  have hword := run_literal hleads hclean
  constructor
  · intro hgap
    obtain ⟨n, hcursor, _, hmost, hrun⟩ := (spans_gap h _ _ _ _).mp hgap
    have hlonger : Spans isWordByte bytes (gap 0 most) start (cursor + sought.length) := by
      rw [spans_gap h]
      refine ⟨n + sought.length, by omega, Nat.zero_le _, by omega, ?_⟩
      rw [run_add, ← hcursor]
      exact ⟨hrun, hword⟩
    exact ⟨by omega, ((spans_gap_end h _ _ _).mp hlonger).2⟩
  · rintro ⟨hstart, hend⟩
    have hlonger := (spans_gap_end h most start _).mpr ⟨by omega, hend⟩
    obtain ⟨n, hcursor, _, hmost, hrun⟩ := (spans_gap h _ _ _ _).mp hlonger
    rw [spans_gap h]
    refine ⟨n - sought.length, by omega, Nat.zero_le _, by omega, ?_⟩
    rw [show n = n - sought.length + sought.length by omega, run_add] at hrun
    exact hrun.1

theorem qualified_noun_at (h : Normal bytes) {qualifier : Bytes}
    (hqualifier : qualifier ∈ claimQualifiers) (start cursor : ℕ) :
    (start ≤ cursor ∧ qualifiedNounAt bytes (gapEnd bytes start 60 0x2E) cursor qualifier = true) ↔
      Spans isWordByte bytes (gap 0 (60 - qualifier.length)) start cursor ∧
        At bytes [.edge, .oneOf [qualifier], spaces 1, .oneOf claimNouns, .edge] cursor := by
  have hlexical := lexical_lists claimQualifiers (by simp [claimWordLists]) qualifier hqualifier
  have hnouns := lexical_lists claimNouns (by simp [claimWordLists])
  have hclean : ∀ q ∈ claimQualifiers, (∀ b ∈ q, (b != 0x2E) = true) ∧ q.length ≤ 60 := by
    decide +kernel
  obtain ⟨hclean, hshort⟩ := hclean qualifier hqualifier
  have hone : ∀ sought ∈ [qualifier], Lexical isWordByte sought := by simpa using hlexical
  rw [at_word_spaces h hone]
  simp only [List.mem_singleton, exists_eq_left, qualifiedNounAt, Bool.and_eq_true,
    decide_eq_true_eq, at_spaces h, skip_spaces h, startsWithAt, List.isPrefixOf_iff_prefix]
  constructor
  · rintro ⟨hstart, ⟨⟨hleads, hbefore⟩, hlimit⟩, hnoun⟩
    rw [noun_starts_noun_match hnouns] at hnoun
    by_cases hspace : bytes[cursor + qualifier.length]? = some 0x20
    · rw [if_pos hspace, At, leads_edge] at hnoun
      have hbehind : boundaryAfter bytes (cursor + qualifier.length) = true := by
        rw [boundaryAfter, hspace]
        decide
      exact ⟨(gap_before_word h hleads hclean hshort start).mpr ⟨hstart, hlimit⟩,
        (stands_iff qualifier cursor).mpr ⟨hleads, hbefore, hbehind⟩, hspace, hnoun.2⟩
    · rw [if_neg hspace, At, leads_bounded hnouns] at hnoun
      obtain ⟨noun, _, hstands, _⟩ := hnoun
      have hword := hlexical.word_before hleads
      rw [hstands.before] at hword
      cases hword
  · rintro ⟨hgap, hstands, hspace, hnoun⟩
    obtain ⟨hleads, hbefore, _⟩ := (stands_iff qualifier cursor).mp hstands
    obtain ⟨hstart, hlimit⟩ := (gap_before_word h hleads hclean hshort start).mp hgap
    refine ⟨hstart, ⟨⟨hleads, hbefore⟩, hlimit⟩, ?_⟩
    rw [if_pos hspace, noun_starts_noun_match hnouns, At, leads_edge]
    refine ⟨?_, hnoun⟩
    obtain ⟨noun, hmem, hnounleads, _⟩ := leads_one.mp hnoun
    rw [(hnouns noun hmem).word_at hnounleads, wordBefore, Pattern.wordAt, hspace]
    decide

theorem found_lead {leads : List Bytes} (hleads : leads ∈ claimWordLists)
    (rest : List (Pattern UInt8)) :
    Matches bytes (claimPattern leads rest) ↔
      ∃ i, ∃ lead ∈ leads, Stands isWordByte bytes lead i ∧ At bytes rest (i + lead.length) :=
  found_bounded (lexical_lists leads hleads)

theorem led_target (h : Normal bytes) (leads targets : List Bytes)
    (hleads : leads ∈ claimWordLists) (htargets : targets ∈ claimWordLists) (most : ℕ) :
    ledTarget bytes leads targets most = true ↔ Matches bytes (ledPattern leads targets most) := by
  rw [ledPattern, found_lead hleads]
  exact any_lead (lexical_lists leads hleads)
    (fun stop => targetWithin bytes targets stop (gapEnd bytes stop most 0x2E)) fun stop =>
      target_within h (lexical_lists targets htargets) stop most

theorem policy_claim_one (h : Normal bytes) :
    policyClaimOne bytes = true ↔ Matches bytes nearNoun ∨
      Matches bytes (qualifiedNoun 0 48 "unrestricted") ∨
        Matches bytes (qualifiedNoun 0 56 "full") := by
  have hverbs : claimVerbs ∈ claimWordLists := by simp [claimWordLists]
  have hnouns := lexical_lists claimNouns (by simp [claimWordLists])
  have hsearch : ∀ stop, ((List.range' stop (gapEnd bytes stop 60 0x2E + 1 - stop)).any fun cursor =>
      claimQualifiers.any (qualifiedNounAt bytes (gapEnd bytes stop 60 0x2E) cursor) ||
        nounStartsNounMatch bytes cursor claimNouns) = true ↔
      At bytes [gap 0 60, .edge, .oneOf claimNouns, .edge] stop ∨
        ∃ qualifier ∈ claimQualifiers, At bytes [gap 0 (60 - qualifier.length), .edge,
          .oneOf [qualifier], spaces 1, .oneOf claimNouns, .edge] stop := by
    intro stop
    simp only [List.any_eq_true, Bool.or_eq_true, List.mem_range'_1]
    constructor
    · rintro ⟨cursor, ⟨hstart, hend⟩, hmatch⟩
      rcases hmatch with ⟨qualifier, hmem, hqualified⟩ | hnoun
      · obtain ⟨hgap, hrest⟩ := (qualified_noun_at h hmem stop cursor).mp ⟨hstart, hqualified⟩
        exact .inr ⟨qualifier, hmem, leads_chain.mpr ⟨cursor, hgap, hrest⟩⟩
      · have hgap := (spans_gap_end h 60 stop cursor).mpr ⟨hstart, by omega⟩
        exact .inl (leads_chain.mpr ⟨cursor, hgap, (noun_starts_noun_match hnouns _).mp hnoun⟩)
    · intro hmatch
      rcases hmatch with hnoun | ⟨qualifier, hmem, hqualified⟩
      · obtain ⟨cursor, hgap, hrest⟩ := leads_chain.mp hnoun
        obtain ⟨hstart, hend⟩ := (spans_gap_end h 60 stop cursor).mp hgap
        exact ⟨cursor, ⟨hstart, by omega⟩, .inr ((noun_starts_noun_match hnouns _).mpr hrest)⟩
      · obtain ⟨cursor, hgap, hrest⟩ := leads_chain.mp hqualified
        obtain ⟨hstart, hfound⟩ := (qualified_noun_at h hmem stop cursor).mpr ⟨hgap, hrest⟩
        have hend : cursor + qualifier.length ≤ gapEnd bytes stop 60 0x2E := by
          simp only [qualifiedNounAt, Bool.and_eq_true, decide_eq_true_eq] at hfound
          exact hfound.1.2
        exact ⟨cursor, ⟨hstart, by omega⟩, .inl ⟨qualifier, hmem, hfound⟩⟩
  have hqualifiers : ∀ stop, (∃ qualifier ∈ claimQualifiers, At bytes [gap 0 (60 - qualifier.length),
      .edge, .oneOf [qualifier], spaces 1, .oneOf claimNouns, .edge] stop) ↔
      At bytes [gap 0 48, .edge, .oneOf (words ["unrestricted"]), spaces 1, .oneOf claimNouns,
        .edge] stop ∨
      At bytes [gap 0 56, .edge, .oneOf (words ["full"]), spaces 1, .oneOf claimNouns,
        .edge] stop := by
    intro stop
    show (∃ qualifier ∈ [word "unrestricted".toList, word "full".toList], _) ↔ _
    rw [List.exists_mem_cons_iff, List.exists_mem_cons_iff]
    simp only [List.not_mem_nil, false_and, exists_false, or_false]
    exact Iff.rfl
  have hany : policyClaimOne bytes = true ↔ _ :=
    any_lead (lexical_lists claimVerbs hverbs) _ hsearch
  rw [hany, nearNoun, qualifiedNoun, qualifiedNoun, found_lead hverbs, found_lead hverbs,
    found_lead hverbs]
  simp only [hqualifiers, and_or_left, exists_or]

/-! The search for a connector of a subject. -/

theorem connector_hits (h : Normal bytes) {connector : String}
    (hconnector : Lexical isWordByte (word connector.toList)) (start i : ℕ) :
    i ∈ connectorHits bytes start (gapEnd bytes start 40 0x2E) (word connector.toList) ↔
      Spans isWordByte bytes (gap 0 40) start i ∧
        Stands isWordByte bytes (word connector.toList) i := by
  rw [connectorHits, List.mem_filter, mem_occurrences_within (lexical_ne_nil hconnector),
    Bool.and_eq_true, spans_gap_end h, stands_iff]
  constructor
  · rintro ⟨⟨hstart, hend, hleads⟩, hbounds⟩
    exact ⟨⟨hstart, hend⟩, hleads, hbounds⟩
  · rintro ⟨⟨hstart, hend⟩, hleads, hbounds⟩
    exact ⟨⟨hstart, hend, hleads⟩, hbounds⟩

theorem any_connected (h : Normal bytes) {connector : String}
    (hconnector : Lexical isWordByte (word connector.toList)) (start : ℕ) :
    ((connectorHits bytes start (gapEnd bytes start 40 0x2E) (word connector.toList)).any
      fun i => spacedWord bytes claimObjects (i + (word connector.toList).length)) = true ↔
      At bytes (connected connector) start := by
  have hobjects := lexical_lists claimObjects (by simp [claimWordLists])
  have hone : ∀ sought ∈ words [connector], Lexical isWordByte sought := by
    simpa [words] using hconnector
  rw [connected, At, leads_chain, List.any_eq_true]
  apply exists_congr
  intro i
  rw [connector_hits h hconnector, spaced_word h hobjects, and_assoc]
  apply and_congr_right
  intro _
  have hword := at_word_spaces h hone [.oneOf claimObjects, .edge] i
  rw [At] at hword
  rw [hword]
  simp [words]

theorem hits_nonempty (h : Normal bytes) (start : ℕ) :
    (connectorHits bytes start (gapEnd bytes start 40 0x2E) (word "without".toList)).isEmpty = false ↔
      Leads isWordByte bytes withoutNear start := by
  have hconnector : Lexical isWordByte (word "without".toList) := by decide
  have hone : ∀ sought ∈ words ["without"], Lexical isWordByte sought := by
    simpa [words] using hconnector
  rw [withoutNear, leads_chain, List.isEmpty_eq_false_iff_exists_mem]
  apply exists_congr
  intro i
  rw [connector_hits h hconnector, leads_bounded hone]
  simp [words]

theorem connector_search (h : Normal bytes) (start : ℕ) :
    connectorSearch bytes start (gapEnd bytes start 40 0x2E) claimConnectors = true ↔
      At bytes (connected "without") start ∨
        At bytes (.notAhead withoutNear :: connected "no") start := by
  have hwithout := any_connected h (by decide : Lexical isWordByte (word "without".toList)) start
  have hno := any_connected h (by decide : Lexical isWordByte (word "no".toList)) start
  have hnone := hits_nonempty h start
  show connectorSearch bytes start _ [word "without".toList, word "no".toList] = true ↔ _
  rw [connectorSearch, connectorSearch, connectorSearch, At, At, leads_not_ahead, ← hnone]
  split
  · next hfound =>
    exact iff_of_true rfl (.inl (hwithout.mp hfound))
  · next hfound =>
    have hfirst := mt hwithout.mpr hfound
    split
    · next hhits =>
      rw [Bool.not_eq_true'] at hhits
      exact iff_of_false Bool.false_ne_true fun hleads =>
        hleads.elim hfirst fun hshadowed => hshadowed.1 hhits
    · next hhits =>
      rw [Bool.not_eq_true'] at hhits
      split
      · next hsome =>
        exact iff_of_true rfl (.inr ⟨hhits, hno.mp hsome⟩)
      · next hsome =>
        have hlast := mt hno.mpr hsome
        rw [ite_self]
        exact iff_of_false Bool.false_ne_true fun hleads =>
          hleads.elim hfirst fun hshadowed => hlast hshadowed.2

theorem policy_claim_four (h : Normal bytes) :
    policyClaimFour bytes = true ↔ Matches bytes (claimPattern claimSubjects (connected "without")) ∨
      Matches bytes (claimPattern claimSubjects (.notAhead withoutNear :: connected "no")) := by
  have hsubjects : claimSubjects ∈ claimWordLists := by simp [claimWordLists]
  have hany : policyClaimFour bytes = true ↔ _ :=
    any_lead (lexical_lists claimSubjects hsubjects)
      (fun stop => connectorSearch bytes stop (gapEnd bytes stop 40 0x2E) claimConnectors)
      (connector_search h)
  rw [hany, found_lead hsubjects, found_lead hsubjects]
  simp only [and_or_left, exists_or]

theorem policy_claim_five (h : Normal bytes) :
    policyClaimFive bytes = true ↔ Matches bytes documentedFive := by
  have hqualifiers := lexical_lists claimQualifiers (by simp [claimWordLists])
  have hnouns := lexical_lists openingNouns (by simp [claimWordLists])
  have hopening : Matches bytes documentedFive ↔ ∃ i, Spans isWordByte bytes (gap 0 40) 0 i ∧
      At bytes [.edge, .oneOf claimQualifiers, spaces 1, .oneOf openingNouns, .edge] i := by
    rw [Matches, Found, documentedFive]
    constructor
    · rintro ⟨start, _, hleads⟩
      obtain ⟨j, ⟨hj, hstart⟩, hrest⟩ := leads_chain.mp hleads
      rw [hj, hstart] at hrest
      exact leads_chain.mp hrest
    · intro hrest
      exact ⟨0, Nat.zero_le _, leads_chain.mpr ⟨0, ⟨rfl, rfl⟩, leads_chain.mpr hrest⟩⟩
  rw [hopening]
  simp only [policyClaimFive, List.any_eq_true, Bool.and_eq_true, at_word_spaces h hqualifiers,
    spaced_word h hnouns, spans_gap_end h, stands_iff]
  constructor
  · rintro ⟨qualifier, hmem, i, hi, hbounds, hrest⟩
    obtain ⟨_, hend, hleads⟩ :=
      (mem_occurrences_within (lexical_ne_nil (hqualifiers qualifier hmem)) 0 _ i).mp hi
    exact ⟨i, ⟨Nat.zero_le _, hend⟩, qualifier, hmem, ⟨hleads, hbounds⟩, hrest⟩
  · rintro ⟨i, ⟨_, hend⟩, qualifier, hmem, ⟨hleads, hbounds⟩, hrest⟩
    have hi := (mem_occurrences_within (lexical_ne_nil (hqualifiers qualifier hmem)) 0
      (gapEnd bytes 0 40 0x2E) i).mpr ⟨Nat.zero_le _, hend, hleads⟩
    exact ⟨qualifier, hmem, i, hi, hbounds, hrest⟩

end Siralos.PlanValidation
