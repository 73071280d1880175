import Siralos.ClaimMatchers
import Siralos.RedactionForms

/-!
# Where the policy claim matchers follow their regular expressions

On normalized bytes each expression matches just where its matcher does or where one of the kinds
passed over does. So the screen decides the documented expressions on every text but those that match
nothing else.
-/

set_option autoImplicit false

namespace Siralos.PlanValidation

open Knowledge Pattern

/-- Texts whose only white space is single spaces. -/
structure Collapsed (text : Text) : Prop where
  spaced : ∀ c ∈ text, Text.isWhitespace c = true → c = ' '
  single : ¬ [' ', ' '] <:+: text

theorem collapse_spaces (text : Text) (spaced : Bool) :
    Collapsed (collapseSpaces spaced text) ∧
      (spaced = true → ¬ [' '] <+: collapseSpaces spaced text) := by
  induction text generalizing spaced with
  | nil => exact ⟨⟨by simp [collapseSpaces], by simp [collapseSpaces]⟩, by simp [collapseSpaces]⟩
  | cons c text ih =>
    rw [collapseSpaces]
    by_cases hspace : Text.isWhitespace c = true
    · rw [if_pos hspace]
      obtain ⟨hcollapsed, hhead⟩ := ih true
      cases spaced with
      | true => exact ⟨hcollapsed, hhead⟩
      | false =>
        refine ⟨⟨?_, ?_⟩, nofun⟩
        · intro d hd hwhite
          rcases List.mem_cons.mp hd with hsame | hmem
          · exact hsame
          · exact hcollapsed.spaced d hmem hwhite
        · intro hpair
          rcases List.infix_cons_iff.mp hpair with hfirst | hlater
          · exact hhead rfl (List.cons_prefix_cons.mp hfirst).2
          · exact hcollapsed.single hlater
    · rw [if_neg hspace]
      obtain ⟨hcollapsed, -⟩ := ih false
      have hother : ' ' ≠ c := by
        intro hc
        rw [← hc] at hspace
        exact hspace (by decide)
      refine ⟨⟨?_, ?_⟩, ?_⟩
      · intro d hd hwhite
        rcases List.mem_cons.mp hd with hsame | hmem
        · rw [hsame] at hwhite
          exact absurd hwhite hspace
        · exact hcollapsed.spaced d hmem hwhite
      · intro hpair
        rcases List.infix_cons_iff.mp hpair with hfirst | hlater
        · exact hother (List.cons_prefix_cons.mp hfirst).1
        · exact hcollapsed.single hlater
      · intro _ hhead
        exact hother (List.cons_prefix_cons.mp hhead).1

theorem Collapsed.of_piece {text piece : Text} (h : Collapsed text) (hpiece : piece <:+: text) :
    Collapsed piece where
  spaced c hc := h.spaced c (hpiece.subset hc)
  single hpair := h.single (hpair.trans hpiece)

theorem trim_piece (text : Text) : Text.trim text <:+: text :=
  (List.rdropWhile_prefix _ _).isInfix.trans (List.dropWhile_suffix _).isInfix

theorem Collapsed.normal {text : Text} (h : Collapsed text) : Normal (bytesOf text) where
  spaced b hb hspace := by
    obtain ⟨c, hc, hbyte⟩ := List.mem_flatMap.mp hb
    have hvalue : (9 ≤ b.toNat ∧ b.toNat ≤ 13) ∨ b = 0x20 := by
      simp only [isSpaceByte, Bool.or_eq_true, Bool.and_eq_true, decide_eq_true_eq, beq_iff_eq,
        UInt8.le_iff_toNat_le] at hspace
      exact hspace
    rcases hvalue with hcontrol | hsame
    · have hchar := (Redaction.ascii_byte hbyte (by omega)).2
      have hblank := h.spaced c hc (by simp [Text.isWhitespace]; omega)
      rw [hblank] at hchar
      have : (' ').toNat = 32 := rfl
      omega
    · exact hsame
  single i hfirst hnext := by
    have hpair : [0x20, 0x20] <:+: bytesOf text := by
      have hboth : [0x20] ++ [0x20] <+: (bytesOf text).drop i :=
        literal_append.mpr ⟨literal_one.mpr hfirst, literal_one.mpr hnext⟩
      exact hboth.isInfix.trans (List.drop_suffix i _).isInfix
    have hvalues : [' ', ' '].flatMap Redaction.utf8Bytes <:+: text.flatMap Redaction.utf8Bytes := by
      have hmap := hpair.map UInt8.toNat
      rwa [bytesOf, List.map_flatMap] at hmap
    exact h.single (Redaction.utf8_synced.infix_of (List.cons_ne_nil _ _) hvalues)

theorem normalized_claim_bytes (toLowercase : Text → Text) (text : Text) :
    Normal (normalizedClaimBytes toLowercase text) :=
  ((collapse_spaces _ false).1.of_piece (trim_piece _)).normal

section Parts

variable {bytes : Bytes}

theorem spans_plural (name : String) (i j : ℕ) :
    Spans isWordByte bytes (plural name) i j ↔
      Spans isWordByte bytes (.literal (word name.toList ++ word "s".toList)) i j ∨
        Spans isWordByte bytes (literal name) i j := by
  simp only [plural, chain, literal, Pattern.optional, Spans, literal_append, List.length_append]
  constructor
  · rintro ⟨k, ⟨hname, hk⟩, l, hmore, hj⟩
    rw [hk] at hmore
    rcases hmore with ⟨hs, hl⟩ | hl
    · exact .inl ⟨⟨hname, hs⟩, by omega⟩
    · exact .inr ⟨hname, by omega⟩
  · intro hspans
    rcases hspans with ⟨⟨hname, hs⟩, hj⟩ | ⟨hname, hj⟩
    · exact ⟨_, ⟨hname, rfl⟩, _, .inl ⟨hs, rfl⟩, by omega⟩
    · exact ⟨_, ⟨hname, rfl⟩, _, .inr rfl, hj⟩

theorem spans_turned (h : Normal bytes) (way : String) (i j : ℕ) :
    Spans isWordByte bytes (turned way) i j ↔
      Spans isWordByte bytes (.literal (word "turn".toList ++ [0x20] ++ word way.toList)) i j ∨
        Spans isWordByte bytes (.literal (word "turn".toList ++ word way.toList)) i j := by
  have hturned : Spans isWordByte bytes (turned way) i j ↔ ∃ k, Spans isWordByte bytes
      (literal "turn") i k ∧ ∃ l, Spans isWordByte bytes (spaces 0) k l ∧ ∃ m, Spans isWordByte
        bytes (literal way) l m ∧ j = m := Iff.rfl
  simp only [hturned, spans_spaces_zero h, spans_spaces_one h, literal, Spans, literal_append,
    literal_one, List.length_append, List.length_singleton]
  constructor
  · rintro ⟨k, ⟨hturn, hk⟩, l, hspaces, m, ⟨hway, hm⟩, hj⟩
    rw [hk] at hspaces
    rcases hspaces with hl | ⟨hl, hspace⟩
    · rw [hl] at hway
      exact .inr ⟨⟨hturn, hway⟩, by omega⟩
    · rw [hl] at hway
      exact .inl ⟨⟨⟨hturn, hspace⟩, hway⟩, by omega⟩
  · intro hspans
    rcases hspans with ⟨⟨⟨hturn, hspace⟩, hway⟩, hj⟩ | ⟨⟨hturn, hway⟩, hj⟩
    · exact ⟨_, ⟨hturn, rfl⟩, _, .inr ⟨rfl, hspace⟩, _, ⟨hway, rfl⟩, by omega⟩
    · exact ⟨_, ⟨hturn, rfl⟩, _, .inl rfl, _, ⟨hway, rfl⟩, by omega⟩

theorem spans_nouns (i j : ℕ) :
    Spans isWordByte bytes documentedNouns i j ↔
      Spans isWordByte bytes (.oneOf claimNouns) i j := by
  simp only [documentedNouns, claimNouns, oneOf, words, List.map_cons, List.map_nil, spans_any,
    List.exists_mem_cons_iff, List.not_mem_nil, false_and, exists_false, or_false, spans_plural,
    or_assoc]
  exact Iff.rfl

theorem spans_subjects (i j : ℕ) :
    Spans isWordByte bytes documentedSubjects i j ↔
      Spans isWordByte bytes (.oneOf claimSubjects) i j := by
  simp only [documentedSubjects, claimSubjects, oneOf, words, List.map_cons, List.map_nil,
    spans_any, List.exists_mem_cons_iff, List.not_mem_nil, false_and, exists_false, or_false,
    spans_plural, or_assoc]
  exact Iff.rfl

theorem spans_leads (h : Normal bytes) (i j : ℕ) :
    Spans isWordByte bytes documentedLeads i j ↔
      Spans isWordByte bytes (.oneOf (disableLeads ++ words ["turnoff", "turndown"])) i j := by
  have hoff : word "turn".toList ++ [0x20] ++ word "off".toList = word "turn off".toList := rfl
  have hdown : word "turn".toList ++ [0x20] ++ word "down".toList = word "turn down".toList := rfl
  have hfusedOff : word "turn".toList ++ word "off".toList = word "turnoff".toList := rfl
  have hfusedDown : word "turn".toList ++ word "down".toList = word "turndown".toList := rfl
  simp only [documentedLeads, disableLeads, oneOf, words, List.map_cons, List.map_nil,
    List.cons_append, List.nil_append, spans_any, List.exists_mem_cons_iff, List.not_mem_nil,
    false_and, exists_false, or_false, spans_turned h, hoff, hdown, hfusedOff, hfusedDown, literal]
  have hregroup : ∀ a b c d e f g h : Prop,
      (a ∨ b ∨ (c ∨ d) ∨ (e ∨ f) ∨ g ∨ h) ↔ (a ∨ b ∨ c ∨ e ∨ g ∨ h ∨ d ∨ f) := by
    simp only [or_comm, or_left_comm, implies_true]
  exact hregroup _ _ _ _ _ _ _ _

end Parts

section Laws

variable {bytes : Bytes} (h : Normal bytes)

include h

theorem at_spaces_zero (rest : List (Pattern UInt8)) (i : ℕ) :
    At bytes (spaces 0 :: rest) i ↔ At bytes rest i ∨ At bytes (spaces 1 :: rest) i := by
  simp only [At, leads_chain, spans_spaces_zero h, or_and_right, exists_or, exists_eq_left]

theorem at_gap_split {least middle most : ℕ} (hleast : least ≤ middle) (hmost : middle ≤ most)
    (rest : List (Pattern UInt8)) (i : ℕ) :
    At bytes (gap least most :: rest) i ↔
      At bytes (gap least middle :: rest) i ∨ At bytes (gap (middle + 1) most :: rest) i := by
  have hsplit : ∀ j, Spans isWordByte bytes (gap least most) i j ↔
      Spans isWordByte bytes (gap least middle) i j ∨
        Spans isWordByte bytes (gap (middle + 1) most) i j := by
    intro j
    simp only [spans_gap h]
    constructor
    · rintro ⟨n, hj, hlow, hhigh, hrun⟩
      by_cases hn : n ≤ middle
      · exact .inl ⟨n, hj, hlow, hn, hrun⟩
      · exact .inr ⟨n, hj, by omega, hhigh, hrun⟩
    · intro hgaps
      rcases hgaps with ⟨n, hj, hlow, hhigh, hrun⟩ | ⟨n, hj, hlow, hhigh, hrun⟩
      · exact ⟨n, hj, hlow, by omega, hrun⟩
      · exact ⟨n, hj, by omega, hhigh, hrun⟩
  simp only [At, leads_chain, hsplit, or_and_right, exists_or]

theorem at_gap_space {words : List Bytes} (hwords : ∀ sought ∈ words, Lexical isWordByte sought)
    (rest : List (Pattern UInt8)) (most i : ℕ)
    (hat : At bytes (gap 0 most :: .edge :: spaces 1 :: .oneOf words :: rest) i) :
    At bytes (gap 0 most :: .edge :: .oneOf words :: rest) i ∨
      At bytes (gap most most :: .edge :: spaces 1 :: .oneOf words :: rest) i := by
  obtain ⟨j, hgap, hrest⟩ := leads_chain.mp hat
  obtain ⟨n, hj, _, hmost, hrun⟩ := (spans_gap h 0 most i j).mp hgap
  by_cases hfull : n = most
  · have hfullGap := (spans_gap h most most i j).mpr ⟨n, hj, hfull.ge, hmost, hrun⟩
    exact .inr (leads_chain.mpr ⟨j, hfullGap, hrest⟩)
  · obtain ⟨hspace, hnoun⟩ := (at_spaces h _ j).mp (leads_edge.mp hrest).2
    have hlonger : Spans isWordByte bytes (gap 0 most) i (j + 1) := by
      rw [spans_gap h]
      refine ⟨n + 1, by omega, Nat.zero_le _, by omega, ?_⟩
      rw [run_add, ← hj, run_one, hspace]
      exact ⟨hrun, by decide⟩
    have hedge : wordBefore isWordByte bytes (j + 1) ≠ Pattern.wordAt isWordByte bytes (j + 1) := by
      obtain ⟨noun, hmem, hleads, _⟩ := leads_one.mp hnoun
      rw [(hwords noun hmem).word_at hleads, wordBefore, Pattern.wordAt, hspace]
      decide
    exact .inl (leads_chain.mpr ⟨j + 1, hlonger, leads_edge.mpr ⟨hedge, hnoun⟩⟩)

theorem at_qualified (i : ℕ) :
    At bytes [.edge, .optional (.oneOf claimQualifiers), spaces 0, documentedNouns, .edge] i ↔
      At bytes [.edge, .oneOf claimNouns, .edge] i ∨
      At bytes [.edge, .oneOf claimQualifiers, .oneOf claimNouns, .edge] i ∨
      At bytes [.edge, spaces 1, .oneOf claimNouns, .edge] i ∨
      At bytes [.edge, .oneOf (words ["unrestricted"]), spaces 1, .oneOf claimNouns, .edge] i ∨
      At bytes [.edge, .oneOf (words ["full"]), spaces 1, .oneOf claimNouns, .edge] i := by
  have hnouns : ∀ k, At bytes [documentedNouns, .edge] k ↔ At bytes [.oneOf claimNouns, .edge] k :=
    fun k => leads_congr spans_nouns
  have hspaces : ∀ k, At bytes [spaces 0, documentedNouns, .edge] k ↔
      At bytes [.oneOf claimNouns, .edge] k ∨ At bytes [spaces 1, .oneOf claimNouns, .edge] k := by
    intro k
    rw [at_spaces_zero h, at_spaces h, hnouns, hnouns, at_spaces h]
  have hqualifiers : claimQualifiers = words ["unrestricted"] ++ words ["full"] := rfl
  have hqualified : At bytes [.oneOf claimQualifiers, spaces 0, documentedNouns, .edge] i ↔
      At bytes [.oneOf claimQualifiers, .oneOf claimNouns, .edge] i ∨
        At bytes [.oneOf (words ["unrestricted"]), spaces 1, .oneOf claimNouns, .edge] i ∨
        At bytes [.oneOf (words ["full"]), spaces 1, .oneOf claimNouns, .edge] i := by
    rw [← leads_one_append, ← hqualifiers, At, At, leads_one, leads_one, leads_one]
    simp only [hspaces, and_or_left, exists_or]
  simp only [At, leads_edge, leads_optional] at hqualified hspaces ⊢
  rw [hqualified, hspaces]
  simp only [and_or_left]
  have hregroup : ∀ a b c d e : Prop, ((a ∨ b ∨ c) ∨ d ∨ e) ↔ (d ∨ a ∨ e ∨ b ∨ c) := by
    simp only [or_comm, or_left_comm, implies_true]
  exact hregroup _ _ _ _ _

theorem documented_one :
    Matches bytes documentedOne ↔ (Matches bytes nearNoun ∨
      Matches bytes (qualifiedNoun 0 48 "unrestricted") ∨
        Matches bytes (qualifiedNoun 0 56 "full")) ∨
      Matches bytes fusedNoun ∨ Matches bytes lateNoun ∨
        Matches bytes (qualifiedNoun 49 60 "unrestricted") ∨
          Matches bytes (qualifiedNoun 57 60 "full") := by
  have hverbs : claimVerbs ∈ claimWordLists := by simp [claimWordLists]
  have hnouns := lexical_lists claimNouns (by simp [claimWordLists])
  have hrest : ∀ stop, At bytes [gap 0 60, .edge, .optional (.oneOf claimQualifiers), spaces 0,
      documentedNouns, .edge] stop ↔
      (At bytes [gap 0 60, .edge, .oneOf claimNouns, .edge] stop ∨
        At bytes [gap 0 48, .edge, .oneOf (words ["unrestricted"]), spaces 1, .oneOf claimNouns,
          .edge] stop ∨
        At bytes [gap 0 56, .edge, .oneOf (words ["full"]), spaces 1, .oneOf claimNouns,
          .edge] stop) ∨
      At bytes [gap 0 60, .edge, .oneOf claimQualifiers, .oneOf claimNouns, .edge] stop ∨
      At bytes [gap 60 60, .edge, spaces 1, .oneOf claimNouns, .edge] stop ∨
      At bytes [gap 49 60, .edge, .oneOf (words ["unrestricted"]), spaces 1, .oneOf claimNouns,
        .edge] stop ∨
      At bytes [gap 57 60, .edge, .oneOf (words ["full"]), spaces 1, .oneOf claimNouns,
        .edge] stop := by
    intro stop
    rw [At, leads_next (at_qualified h)]
    simp only [and_or_left, exists_or, ← leads_chain]
    have hunrestricted := at_gap_split h (show 0 ≤ 48 by decide) (show 48 ≤ 60 by decide)
      [.edge, .oneOf (words ["unrestricted"]), spaces 1, .oneOf claimNouns, .edge] stop
    have hfull := at_gap_split h (show 0 ≤ 56 by decide) (show 56 ≤ 60 by decide)
      [.edge, .oneOf (words ["full"]), spaces 1, .oneOf claimNouns, .edge] stop
    have hspaced := at_gap_split h (show 0 ≤ 59 by decide) (show 59 ≤ 60 by decide)
      [.edge, spaces 1, .oneOf claimNouns, .edge] stop
    have hlate := at_gap_space h hnouns [.edge] 60 stop
    constructor
    · intro hmatch
      rcases hmatch with hnear | hfused | hspace | hwide | hnarrow
      · exact .inl (.inl hnear)
      · exact .inr (.inl hfused)
      · exact (hlate hspace).elim (fun hnear => .inl (.inl hnear)) fun hend => .inr (.inr (.inl hend))
      · exact (hunrestricted.mp hwide).elim (fun hfirst => .inl (.inr (.inl hfirst)))
          fun hlast => .inr (.inr (.inr (.inl hlast)))
      · exact (hfull.mp hnarrow).elim (fun hfirst => .inl (.inr (.inr hfirst)))
          fun hlast => .inr (.inr (.inr (.inr hlast)))
    · intro hmatch
      rcases hmatch with (hnear | hfirst | hfirst) | hfused | hend | hlast | hlast
      · exact .inl hnear
      · exact .inr (.inr (.inr (.inl (hunrestricted.mpr (.inl hfirst)))))
      · exact .inr (.inr (.inr (.inr (hfull.mpr (.inl hfirst)))))
      · exact .inr (.inl hfused)
      · exact .inr (.inr (.inl (hspaced.mpr (.inr hend))))
      · exact .inr (.inr (.inr (.inl (hunrestricted.mpr (.inr hlast)))))
      · exact .inr (.inr (.inr (.inr (hfull.mpr (.inr hlast)))))
  have hfound : Matches bytes documentedOne ↔ ∃ i, ∃ lead ∈ claimVerbs,
      Stands isWordByte bytes lead i ∧ At bytes [gap 0 60, .edge, .optional (.oneOf claimQualifiers),
        spaces 0, documentedNouns, .edge] (i + lead.length) := found_lead hverbs _
  rw [hfound]
  simp only [nearNoun, qualifiedNoun, fusedNoun, lateNoun, found_lead hverbs, hrest, and_or_left,
    exists_or]

theorem documented_two :
    Matches bytes documentedTwo ↔ Matches bytes (ledPattern disableLeads protectedTargets 60) ∨
      Matches bytes (ledPattern (words ["turnoff", "turndown"]) protectedTargets 60) := by
  have hleads := lexical_lists disableLeads (by simp [claimWordLists])
  have hfused : ∀ sought ∈ words ["turnoff", "turndown"], Lexical isWordByte sought := by decide
  have hboth : ∀ sought ∈ disableLeads ++ words ["turnoff", "turndown"],
      Lexical isWordByte sought := by
    intro sought hmem
    exact (List.mem_append.mp hmem).elim (hleads sought) (hfused sought)
  have hdocumented : Matches bytes documentedTwo ↔ Matches bytes (ledPattern
      (disableLeads ++ words ["turnoff", "turndown"]) protectedTargets 60) := by
    simp only [Matches, Found, documentedTwo, ledPattern, claimPattern, leads_edge,
      leads_congr (spans_leads h)]
  rw [hdocumented]
  simp only [ledPattern, claimPattern, Matches, found_bounded hboth, found_bounded hleads,
    found_bounded hfused, List.mem_append, or_and_right, exists_or]

theorem documented_three :
    Matches bytes documentedThree ↔ Matches bytes (ledPattern waivedKinds waivedTails 40) := by
  have hkinds : waivedKinds = (words ["approval", "permission", "checkpoint", "review",
      "sandbox"]).map fun kind => word "no".toList ++ [0x20] ++ kind := rfl
  have hwaived : ∀ (rest : List (Pattern UInt8)) (i : ℕ),
      At bytes (literal "no" :: spaces 1 :: .oneOf (words ["approval", "permission", "checkpoint",
        "review", "sandbox"]) :: rest) i ↔ At bytes (.oneOf waivedKinds :: rest) i := by
    intro rest i
    rw [hkinds]
    rw [At, At, literal, leads_literal, leads_one]
    constructor
    · rintro ⟨hno, hnext⟩
      obtain ⟨hspace, hkind⟩ := (at_spaces h _ _).mp hnext
      obtain ⟨kind, hmem, hleads, hrest⟩ := leads_one.mp hkind
      refine ⟨word "no".toList ++ [0x20] ++ kind, List.mem_map_of_mem hmem, ?_, ?_⟩
      · rw [literal_append, literal_append, literal_one]
        exact ⟨⟨hno, hspace⟩, hleads⟩
      · rwa [List.length_append, List.length_append, List.length_singleton, ← Nat.add_assoc,
          ← Nat.add_assoc]
    · rintro ⟨sought, hmem, hleads, hrest⟩
      obtain ⟨kind, hkind, hsought⟩ := List.mem_map.mp hmem
      rw [← hsought, literal_append, literal_append, literal_one] at hleads
      rw [← hsought] at hrest
      refine ⟨hleads.1.1, (at_spaces h _ _).mpr ⟨hleads.1.2, ?_⟩⟩
      rw [At, leads_one]
      refine ⟨kind, hkind, ?_, ?_⟩
      · rw [List.length_append, List.length_singleton, ← Nat.add_assoc] at hleads
        exact hleads.2
      · rwa [List.length_append, List.length_append, List.length_singleton, ← Nat.add_assoc,
          ← Nat.add_assoc] at hrest
  have hdocumented : Matches bytes documentedThree ↔ ∃ i ≤ bytes.length,
      At bytes (.edge :: literal "no" :: spaces 1 :: .oneOf (words ["approval", "permission",
        "checkpoint", "review", "sandbox"]) :: [.edge, gap 0 40, .edge, .oneOf waivedTails,
          .edge]) i := Iff.rfl
  rw [hdocumented]
  simp only [At, leads_edge] at hwaived ⊢
  simp only [hwaived, ← leads_edge]
  exact Iff.rfl

omit h in
theorem documented_four :
    Matches bytes documentedFour ↔ (Matches bytes (claimPattern claimSubjects (connected "without")) ∨
      Matches bytes (claimPattern claimSubjects (.notAhead withoutNear :: connected "no"))) ∨
        Matches bytes (claimPattern claimSubjects (.ahead withoutNear :: connected "no")) := by
  have hsubjects : claimSubjects ∈ claimWordLists := by simp [claimWordLists]
  have hconnectors : claimConnectors = words ["without"] ++ words ["no"] := rfl
  have hdocumented : Matches bytes documentedFour ↔ Matches bytes (claimPattern claimSubjects
      [gap 0 40, .edge, .oneOf claimConnectors, spaces 1, .oneOf claimObjects, .edge]) := by
    simp only [Matches, Found, documentedFour, claimPattern, leads_edge, leads_congr spans_subjects]
  have hrest : ∀ stop, At bytes [gap 0 40, .edge, .oneOf claimConnectors, spaces 1,
      .oneOf claimObjects, .edge] stop ↔ (At bytes (connected "without") stop ∨
        At bytes (.notAhead withoutNear :: connected "no") stop) ∨
          At bytes (.ahead withoutNear :: connected "no") stop := by
    intro stop
    have hsplit : At bytes [gap 0 40, .edge, .oneOf claimConnectors, spaces 1, .oneOf claimObjects,
        .edge] stop ↔ At bytes (connected "without") stop ∨ At bytes (connected "no") stop := by
      have hedge : ∀ j, At bytes [.edge, .oneOf claimConnectors, spaces 1, .oneOf claimObjects,
          .edge] j ↔
          At bytes [.edge, .oneOf (words ["without"]), spaces 1, .oneOf claimObjects, .edge] j ∨
            At bytes [.edge, .oneOf (words ["no"]), spaces 1, .oneOf claimObjects, .edge] j := by
        intro j
        rw [hconnectors, At, At, At, leads_edge, leads_edge, leads_edge, leads_one_append,
          and_or_left]
      rw [At, leads_next hedge]
      simp only [and_or_left, exists_or, ← leads_chain]
      exact Iff.rfl
    rw [hsplit, At, At, At, At, leads_not_ahead, leads_ahead, or_assoc, ← or_and_right,
      and_iff_right (Classical.em _).symm]
  rw [hdocumented]
  simp only [found_lead hsubjects, hrest, and_or_left, exists_or]

theorem screen_seen :
    (policyClaimOne bytes || policyClaimTwo bytes || policyClaimThree bytes ||
      policyClaimFour bytes || policyClaimFive bytes) = true ↔
      ∃ p ∈ seenClaims, Matches bytes p := by
  have htwo : policyClaimTwo bytes = true ↔ _ := led_target h disableLeads protectedTargets
    (by simp [claimWordLists]) (by simp [claimWordLists]) 60
  have hthree : policyClaimThree bytes = true ↔ _ := led_target h waivedKinds waivedTails
    (by simp [claimWordLists]) (by simp [claimWordLists]) 40
  simp only [Bool.or_eq_true, policy_claim_one h, htwo, hthree, policy_claim_four h,
    policy_claim_five h, seenClaims, List.exists_mem_cons_iff, List.not_mem_nil, false_and,
    exists_false, or_false, or_assoc]

/-- The expressions match what the screen finds and what it passes over. -/
theorem documented_claims :
    (∃ p ∈ documentedClaims, Matches bytes p) ↔
      (∃ p ∈ seenClaims, Matches bytes p) ∨ ∃ p ∈ missedClaims, Matches bytes p := by
  simp only [documentedClaims, seenClaims, missedClaims, List.exists_mem_cons_iff,
    List.not_mem_nil, false_and, exists_false, or_false, documented_one h, documented_two h,
    documented_three h, documented_four, or_assoc]
  have hregroup : ∀ s₁ s₂ s₃ m₁ m₂ m₃ m₄ s₄ m₅ s₅ s₆ s₇ m₆ s₈ : Prop,
      (s₁ ∨ s₂ ∨ s₃ ∨ m₁ ∨ m₂ ∨ m₃ ∨ m₄ ∨ s₄ ∨ m₅ ∨ s₅ ∨ s₆ ∨ s₇ ∨ m₆ ∨ s₈) ↔
        (s₁ ∨ s₂ ∨ s₃ ∨ s₄ ∨ s₅ ∨ s₆ ∨ s₇ ∨ s₈ ∨ m₁ ∨ m₂ ∨ m₃ ∨ m₄ ∨ m₅ ∨ m₆) := by
    simp only [or_comm, or_left_comm, implies_true]
  exact hregroup _ _ _ _ _ _ _ _ _ _ _ _ _ _

end Laws

/-- The screen decides the documented expressions, but for texts that match only in a kind that the
ports pass over. -/
theorem screen_follows_expressions (toLowercase : Text → Text) (text : Text) :
    ((rejectPlanPolicyClaims toLowercase text).isSome = true ↔
      ∃ p ∈ documentedClaims, Found isWordByte (normalizedClaimBytes toLowercase text) p) ↔
      ¬ SlipsThrough (normalizedClaimBytes toLowercase text) := by
  have h := normalized_claim_bytes toLowercase text
  have hscreen : (rejectPlanPolicyClaims toLowercase text).isSome = true ↔
      ∃ p ∈ seenClaims, Matches (normalizedClaimBytes toLowercase text) p := by
    rw [rejectPlanPolicyClaims, Option.isSome_ite]
    exact screen_seen h
  rw [hscreen, documented_claims h, SlipsThrough]
  constructor
  · intro hsame ⟨hmissed, hunseen⟩
    exact hunseen (hsame.mpr (.inr hmissed))
  · intro hcaught
    constructor
    · exact .inl
    · intro hmatch
      by_contra hunseen
      exact hcaught ⟨hmatch.resolve_left hunseen, hunseen⟩

def shadowedText : Text := "edits without tests, no review".toList

/-- The connector `without` hides the other one. -/
theorem shadowed_connector_slips :
    ¬ ∀ text, ((rejectPlanPolicyClaims Text.toAsciiLowercase text).isSome = true ↔
      ∃ p ∈ documentedClaims,
        Found isWordByte (normalizedClaimBytes Text.toAsciiLowercase text) p) := by
  intro hclaim
  have hnone : rejectPlanPolicyClaims Text.toAsciiLowercase shadowedText = none := by
    decide +kernel
  have hbytes : normalizedClaimBytes Text.toAsciiLowercase shadowedText = word shadowedText := by
    decide +kernel
  have hnormal := normalized_claim_bytes Text.toAsciiLowercase shadowedText
  rw [hbytes] at hnormal
  have hfound : Matches (word shadowedText) documentedFour := by
    rw [documented_four, found_lead (by simp [claimWordLists]), found_lead (by simp [claimWordLists]),
      found_lead (by simp [claimWordLists])]
    refine .inr ⟨0, word "edits".toList, by decide, ?_, ?_⟩
    · rw [stands_iff]
      decide +kernel
    · rw [At, leads_ahead, ← hits_nonempty hnormal]
      exact ⟨by decide +kernel, (any_connected hnormal (by decide) 5).mp (by decide +kernel)⟩
  have hsome := (hclaim shadowedText).mpr ⟨documentedFour, by simp [documentedClaims],
    by rw [hbytes]; exact hfound⟩
  rw [hnone] at hsome
  cases hsome

end Siralos.PlanValidation
