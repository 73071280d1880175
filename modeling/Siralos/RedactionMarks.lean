import Siralos.RedactionPlain

/-!
# Texts that the marker cuts

Where the marker is not empty and no end of the credential begins it, it keeps the pieces of a
redacted text apart, and the credential is gone from what the three passes return.
-/

set_option autoImplicit false

namespace Siralos.Redaction

open Text Matching

/-- The marker that is chosen for the text is not empty, and no end of the credential begins it. -/
structure MarkerApart (secret text : Text) : Prop where
  chosen : redactionMarker text (sensitiveVariants secret) ≠ []
  ends : ∀ back, back ≠ [] → back <:+ secret →
    ¬ back <+: redactionMarker text (sensitiveVariants secret)

/-- No occurrence of the credential reaches into the marker from either side. -/
structure Parts (secret marker : Text) : Prop where
  absent : ¬ secret <:+: marker
  outside : ¬ marker <:+: secret
  ends : ∀ back, back ≠ [] → back <:+ secret → ¬ back <+: marker
  starts : ∀ front, front ≠ [] → front <+: secret → front ≠ secret → ¬ front <:+ marker

theorem occurs_iff (part text : Text) : occursIn part text = true ↔ part <:+: text := by
  rw [occursIn, List.any_eq_true]
  constructor
  · rintro ⟨tail, htail, hbegins⟩
    exact ((starts_with_iff part tail).mp hbegins).isInfix.trans
      ((List.mem_tails tail text).mp htail).isInfix
  · rintro ⟨before, after, rfl⟩
    refine ⟨part ++ after, (List.mem_tails _ _).mpr ⟨before, by simp⟩, ?_⟩
    exact (starts_with_iff _ _).mpr (List.prefix_append _ _)

theorem ends_proper_iff (marker variant : Text) : endsWithProperPrefix marker variant = true ↔
    ∃ front, front ≠ [] ∧ front <+: variant ∧ front ≠ variant ∧ front <:+ marker := by
  simp only [endsWithProperPrefix, List.any_eq_true, List.mem_range, Bool.and_eq_true,
    decide_eq_true_eq, List.isSuffixOf_iff_suffix]
  constructor
  · rintro ⟨n, hn, hpos, hsuffix⟩
    refine ⟨variant.take n, ?_, List.take_prefix n variant, ?_, hsuffix⟩
    · intro hnil
      have := congrArg List.length hnil
      simp only [List.length_take, List.length_nil] at this
      omega
    · intro hall
      have := congrArg List.length hall
      simp only [List.length_take] at this
      omega
  · rintro ⟨front, hne, hlead, hproper, hsuffix⟩
    refine ⟨front.length, ?_, List.length_pos_iff.mpr hne, ?_⟩
    · apply Nat.lt_of_le_of_ne hlead.length_le
      exact fun h => hproper (hlead.eq_of_length h)
    · rwa [← List.prefix_iff_eq_take.mp hlead]

theorem MarkerApart.parts {secret text : Text} (hne : secret ≠ []) (h : MarkerApart secret text) :
    Parts secret (redactionMarker text (sensitiveVariants secret)) := by
  have hfound : !(sensitiveVariants secret).any
      (collides (redactionMarker text (sensitiveVariants secret))) := by
    have hchosen := h.chosen
    rw [redactionMarker] at hchosen ⊢
    cases hfind : ((List.range 32).map markerText).find? fun marker =>
        !occursIn marker text && !(sensitiveVariants secret).any (collides marker) with
    | none => simp [hfind] at hchosen
    | some marker =>
      have hmarker := List.find?_some hfind
      rw [Bool.and_eq_true] at hmarker
      exact hmarker.2
  rw [Bool.not_eq_true', List.any_eq_false] at hfound
  have hapart := hfound secret (secret_variant secret)
  simp only [collides, Bool.and_eq_true, Bool.or_eq_true, Bool.not_eq_true',
    List.isEmpty_eq_false_iff, not_and, not_or] at hapart
  obtain ⟨⟨habsent, houtside⟩, hproper⟩ := hapart hne
  refine ⟨fun h => habsent ((occurs_iff _ _).mpr h), fun h => houtside ((occurs_iff _ _).mpr h),
    h.ends, ?_⟩
  intro front hfront hlead hshort hsuffix
  exact hproper ((ends_proper_iff _ _).mpr ⟨front, hfront, hlead, hshort, hsuffix⟩)

section Pieces

variable {secret marker : Text}

theorem Parts.join (h : Parts secret marker) {left right : Text} (hleft : ¬ secret <:+: left)
    (hright : ¬ secret <:+: right) : ¬ secret <:+: left ++ marker ++ right := by
  intro hpart
  rcases List.infix_append_iff_ne_nil.mp hpart with
    hbefore | hafter | ⟨front, back, hfront, hback, hsecret, hsuffix, hlead⟩
  · rcases List.infix_append_iff_ne_nil.mp hbefore with
      hpiece | hmarker | ⟨front, back, -, hback, hsecret, -, hlead⟩
    · exact hleft hpiece
    · exact h.absent hmarker
    · exact h.ends back hback ⟨front, hsecret.symm⟩ hlead
  · exact hright hafter
  · have hbegins : front <+: secret := ⟨back, hsecret.symm⟩
    rcases List.suffix_or_suffix_of_suffix hsuffix (List.suffix_append left marker) with
      hwithin | hwhole
    · apply h.starts front hfront hbegins _ hwithin
      intro hall
      rw [hall] at hsecret
      exact hback (List.self_eq_append_right.mp hsecret)
    · exact h.outside (hwhole.isInfix.trans hbegins.isInfix)

/-- What is written so far ends with a marker, and the credential is nowhere in it. -/
def Sealed (secret marker output : Text) : Prop :=
  output = [] ∨ ∃ front, output = front ++ marker ∧ ¬ secret <:+: front

theorem Sealed.piece (hparts : Parts secret marker) {output piece : Text}
    (h : Sealed secret marker output) (hpiece : ¬ secret <:+: piece) :
    ¬ secret <:+: output ++ piece := by
  rcases h with rfl | ⟨front, rfl, hfront⟩
  · exact hpiece
  · exact hparts.join hfront hpiece

theorem Sealed.mark (hparts : Parts secret marker) {output piece : Text}
    (h : Sealed secret marker output) (hpiece : ¬ secret <:+: piece) :
    Sealed secret marker (output ++ piece ++ marker) :=
  .inr ⟨output ++ piece, rfl, h.piece hparts hpiece⟩

end Pieces

theorem find_longest {P : Text → Bool} {text node : Text} (hnode : node <:+ text)
    (hfits : P node = true) : ∃ longest, text.tails.find? P = some longest ∧ node <:+ longest := by
  induction text with
  | nil =>
    rw [List.suffix_nil.mp hnode] at hfits ⊢
    exact ⟨[], by simp [hfits], List.suffix_rfl⟩
  | cons c text ih =>
    by_cases hwhole : P (c :: text) = true
    · exact ⟨c :: text, by simp [hwhole], hnode⟩
    · rcases List.suffix_cons_iff.mp hnode with rfl | hshorter
      · exact absurd hfits hwhole
      · obtain ⟨longest, hfound, hlongest⟩ := ih hshorter
        refine ⟨longest, ?_, hlongest⟩
        rw [List.tails_cons, List.find?_cons_of_neg hwhole, hfound]

theorem matcher_longest {variants : List Text} {state node : Text} {c : Char}
    (hnode : node <:+ state ++ [c]) (hbegins : variants.any (startsWith node) = true) :
    node <:+ matcherStep variants state c := by
  obtain ⟨longest, hfound, hlongest⟩ :=
    find_longest (P := fun node => variants.any (startsWith node)) hnode hbegins
  rwa [matcherStep, hfound]

theorem output_pos {variants : List Text} {state variant : Text} (hvariant : variant ∈ variants)
    (hne : variant ≠ []) (hends : variant <:+ state) : 0 < outputLen variants state := by
  have hfits : (!variant.isEmpty && variants.contains variant) = true := by
    simp [hne, hvariant]
  obtain ⟨longest, hfound, hlongest⟩ :=
    find_longest (P := fun node => !node.isEmpty && variants.contains node) hends hfits
  rw [outputLen, hfound]
  exact (List.length_pos_iff.mpr hne).trans_le hlongest.length_le

section Replacing

variable {text secret marker : Text} {variants : List Text}

/-- The variants that end in the text read are replaced; behind the last of them the credential
does not stand yet. -/
structure Replaced (variants : List Text) (secret marker seen : Text) (s : Replacing) : Prop where
  sealing : Sealed secret marker s.output
  index : s.index = seen.length
  copied : s.copied ≤ seen.length
  behind : ¬ secret <:+: seen.drop s.copied
  state : ∀ node, node <:+ seen → variants.any (startsWith node) = true → node <:+ s.state

theorem slice_seen {seen rest : Text} {copied start : ℕ} (hstart : start ≤ seen.length) :
    slice (seen ++ rest) copied start <:+: seen.drop copied := by
  rw [slice, List.take_append_of_le_length hstart, List.drop_take]
  exact (List.take_prefix _ _).isInfix

theorem replace_replaced (hparts : Parts secret marker) (hne : secret ≠ [])
    (hvariant : secret ∈ variants) {seen rest : Text} {c : Char} {s : Replacing}
    (htext : text = seen ++ c :: rest) (h : Replaced variants secret marker seen s) :
    Replaced variants secret marker (seen ++ [c]) (replaceStep text variants marker s c) := by
  have hlength : (seen ++ [c]).length = seen.length + 1 := by simp
  have hstate : ∀ node, node <:+ seen ++ [c] → variants.any (startsWith node) = true →
      node <:+ matcherStep variants s.state c := by
    intro node hnode hbegins
    apply matcher_longest _ hbegins
    rcases List.suffix_concat_iff.mp hnode with rfl | ⟨shorter, rfl, hshorter⟩
    · exact List.nil_suffix
    · obtain ⟨variant, hmem, hnode⟩ := List.any_eq_true.mp hbegins
      obtain ⟨before, hbefore⟩ := h.state shorter hshorter (List.any_eq_true.mpr ⟨variant, hmem,
        (starts_with_iff _ _).mpr
          ((List.prefix_append _ _).trans ((starts_with_iff _ _).mp hnode))⟩)
      exact ⟨before, by rw [← List.append_assoc, hbefore]⟩
  rw [replaceStep]
  by_cases hmatch : 0 < outputLen variants (matcherStep variants s.state c)
  · simp only [if_pos hmatch]
    refine ⟨?_, by simp [h.index], by simp [h.index], ?_, hstate⟩
    · apply h.sealing.mark hparts
      split
      · intro hpart
        rw [htext] at hpart
        exact h.behind (hpart.trans (slice_seen (by rw [h.index]; omega)))
      · exact fun hpart => hne (List.infix_nil.mp hpart)
    · rw [h.index, ← hlength, List.drop_length]
      exact fun hpart => hne (List.infix_nil.mp hpart)
  · simp only [if_neg hmatch]
    refine ⟨h.sealing, by simp [h.index], by rw [hlength]; exact Nat.le_succ_of_le h.copied, ?_,
      hstate⟩
    rw [List.drop_append_of_le_length h.copied]
    intro hpart
    rcases List.infix_concat_iff.mp hpart with hends | hbefore
    · apply hmatch
      apply output_pos hvariant hne
      apply hstate secret
      · rw [← List.drop_append_of_le_length h.copied] at hends
        exact hends.trans (List.drop_suffix _ _)
      · exact List.any_eq_true.mpr ⟨secret, hvariant, (starts_with_iff _ _).mpr List.prefix_rfl⟩
    · exact h.behind hbefore

theorem replace_run (hparts : Parts secret marker) (hne : secret ≠ []) (hvariant : secret ∈ variants)
    (rest : Text) : ∀ (seen : Text) (s : Replacing), text = seen ++ rest →
      Replaced variants secret marker seen s →
        Replaced variants secret marker text (rest.foldl (replaceStep text variants marker) s) := by
  induction rest with
  | nil =>
    intro seen s htext h
    rw [List.append_nil] at htext
    rwa [htext]
  | cons c rest ih =>
    intro seen s htext h
    rw [List.foldl_cons]
    apply ih (seen ++ [c])
    · rw [htext, List.append_assoc, List.singleton_append]
    · exact replace_replaced hparts hne hvariant htext h

theorem replace_free (hparts : Parts secret marker) (hne : secret ≠ [])
    (hvariant : secret ∈ variants) : ¬ secret <:+: replaceVariantMatches text variants marker := by
  have hstart : Replaced variants secret marker [] ⟨[], 0, 0, []⟩ := by
    refine ⟨.inl rfl, rfl, le_rfl, fun hpart => hne (List.infix_nil.mp hpart), ?_⟩
    exact fun node hnode _ => hnode
  have hrun := replace_run hparts hne hvariant text [] _ rfl hstart
  rw [replaceVariantMatches, if_neg]
  · exact hrun.sealing.piece hparts hrun.behind
  · intro hall
    exact hne (List.isEmpty_iff.mp (List.all_eq_true.mp hall secret hvariant))

end Replacing

section Scan

variable {text secret marker : Text} (pattern failure : List ℕ)

/-- What is written ends with a marker and a piece of the text in front of the cursor. -/
def Copied (text secret marker : Text) (s : TokenScan) : Prop :=
  ∃ output start, Sealed secret marker output ∧ start ≤ s.copied ∧
    s.output = output ++ slice text start s.copied

theorem slice_free (hfree : ¬ secret <:+: text) (start stop : ℕ) :
    ¬ secret <:+: slice text start stop := by
  intro hpart
  apply hfree
  rw [slice] at hpart
  exact hpart.trans ((List.drop_suffix _ _).isInfix.trans (List.take_prefix _ _).isInfix)

theorem slice_slice {start copied stop : ℕ} (hstart : start ≤ copied) (hstop : copied ≤ stop) :
    slice text start copied ++ slice text copied stop = slice text start stop := by
  have hsplit : stop - start = copied - start + (stop - copied) := by omega
  have hnext : start + (copied - start) = copied := by omega
  simp only [slice, List.drop_take]
  rw [hsplit, List.take_add, List.drop_drop, hnext]

theorem slice_drop {start copied : ℕ} (hstart : start ≤ copied) :
    slice text start copied ++ text.drop copied = text.drop start := by
  have hnext : start + (copied - start) = copied := by omega
  have hrest : text.drop copied = (text.drop start).drop (copied - start) := by
    rw [List.drop_drop, hnext]
  rw [slice, List.drop_take, hrest, List.take_append_drop]

variable (hparts : Parts secret marker) (hfree : ¬ secret <:+: text)

include hparts hfree in
theorem replace_copied (token : RedactionToken) {s : TokenScan} (h : Copied text secret marker s) :
    Copied text secret marker (s.replace text failure marker token) ∧
      (s.replace text failure marker token).copied = token.stop := by
  obtain ⟨output, start, hsealed, hstart, houtput⟩ := h
  refine ⟨⟨(s.replace text failure marker token).output, token.stop, ?_, le_rfl, ?_⟩, rfl⟩
  · simp only [TokenScan.replace, TokenScan.fallBack, houtput]
    split
    · rename_i hle
      rw [List.append_assoc output, slice_slice hstart hle]
      exact hsealed.mark hparts (slice_free hfree _ _)
    · rw [List.append_nil]
      exact hsealed.mark hparts (slice_free hfree _ _)
  · simp [slice, TokenScan.replace, TokenScan.fallBack]

include hparts hfree in
theorem scan_copied (token : RedactionToken) (bound : ℕ) (s : TokenScan)
    (h : Copied text secret marker s) (hstop : s.copied ≤ token.stop) :
    Copied text secret marker (scanToken text pattern failure marker token bound s) ∧
      (scanToken text pattern failure marker token bound s).copied ≤ token.stop := by
  rw [scanToken.eq_def]
  by_cases hvalue : pattern[s.matched]? = some token.value
  · simp only [if_pos hvalue]
    split
    · obtain ⟨hcopied, hend⟩ := replace_copied failure hparts hfree token
        (s := { s with matched := s.matched + 1, starts := s.starts ++ [token.start] }) h
      exact ⟨hcopied, hend.le⟩
    · exact ⟨h, hstop⟩
  · by_cases hzero : s.matched = 0
    · simp only [if_neg hvalue, if_pos hzero]
      obtain ⟨output, start, hsealed, hstart, houtput⟩ := h
      refine ⟨⟨output, start, hsealed, hstart.trans hstop, ?_⟩, le_rfl⟩
      rw [houtput, List.append_assoc, slice_slice hstart hstop]
    · simp only [if_neg hvalue, if_neg hzero]
      cases bound with
      | zero => exact ⟨h, hstop⟩
      | succ bound => exact scan_copied token bound (s.fallBack failure) h hstop

include hparts hfree in
theorem scan_run_copied (tokens : List RedactionToken) (s : TokenScan)
    (h : Copied text secret marker s) (hstops : ∀ token ∈ tokens, s.copied ≤ token.stop)
    (hsorted : tokens.Pairwise fun a b => a.stop ≤ b.stop) :
    Copied text secret marker (tokens.foldl (fun s token =>
      scanToken text pattern failure marker token s.matched s) s) := by
  induction tokens generalizing s with
  | nil => exact h
  | cons token tokens ih =>
    obtain ⟨hcopied, hend⟩ := scan_copied pattern failure hparts hfree token s.matched s h
      (hstops token List.mem_cons_self)
    rw [List.pairwise_cons] at hsorted
    rw [List.foldl_cons]
    exact ih _ hcopied (fun later hlater => hend.trans (hsorted.1 later hlater)) hsorted.2

include hparts hfree in
/-- A pass over tokens puts the credential together nowhere. -/
theorem tokens_free (tokens : List RedactionToken)
    (hsorted : tokens.Pairwise fun a b => a.stop ≤ b.stop) :
    ¬ secret <:+: redactTokenMatches text pattern tokens marker := by
  rw [redactTokenMatches]
  split
  · exact hfree
  · have hstart : Copied text secret marker ⟨[], 0, 0, []⟩ := ⟨[], 0, .inl rfl, le_rfl, rfl⟩
    obtain ⟨output, start, hsealed, hle, houtput⟩ := scan_run_copied pattern (kmpFailure pattern)
      hparts hfree tokens _ hstart (fun _ _ => Nat.zero_le _) hsorted
    simp only [houtput, List.append_assoc, slice_drop hle]
    apply hsealed.piece hparts
    exact fun hpart => hfree (hpart.trans (List.drop_suffix _ _).isInfix)

end Scan

theorem redact_free {secret text : Text} (hne : secret ≠ []) (hapart : MarkerApart secret text) :
    ¬ secret <:+: redactSensitive text (some secret) := by
  have hparts := hapart.parts hne
  have hreplaced : ¬ secret <:+: replaceVariantMatches text (sensitiveVariants secret)
      (redactionMarker text (sensitiveVariants secret)) :=
    replace_free hparts hne (secret_variant secret)
  cases secret with
  | nil => exact absurd rfl hne
  | cons c rest =>
    apply tokens_free _ hparts _ _ (percent_sorted _ 0 0).2
    exact tokens_free _ hparts hreplaced _ (json_sorted _ _ 0 0).2

-- Behind an empty marker the neighbours join, and a bracket may end what stands before the marker.
example : ['E', 'D'] <:+: redactSensitive ['E', 'E', 'E', 'E', 'D', 'D', 'D', 'D']
    (some ['E', 'D']) := by
  decide +kernel

example : ['A', '['] <:+: redactSensitive ['A', 'A', 'A', 'A', '['] (some ['A', '[']) := by
  decide +kernel

/-- The text holds no form of the credential, or what replaces them stands apart. -/
def Separable (secret text : Text) : Prop := Clean secret text ∨ MarkerApart secret text

theorem Separable.free {secret text : Text} (hne : secret ≠ []) (h : Separable secret text) :
    ¬ secret <:+: redactSensitive text (some secret) := by
  rcases h with hclean | hapart
  · have hsame : redactSensitive text (some secret) = text := by
      cases secret with
      | nil => exact absurd rfl hne
      | cons c rest => exact redact_clean hne hclean
    rw [hsame]
    exact hclean.variants secret (secret_variant secret) hne
  · exact redact_free hne hapart

theorem marker_apart {secret text : Text} (hbracket : '[' ∉ secret)
    (hchosen : redactionMarker text (sensitiveVariants secret) ≠ []) : MarkerApart secret text := by
  refine ⟨hchosen, ?_⟩
  intro back hne hends hbegins
  apply hbracket
  rw [redactionMarker] at hchosen hbegins
  cases hfind : ((List.range 32).map markerText).find? fun marker =>
      !occursIn marker text && !(sensitiveVariants secret).any (collides marker) with
  | none => simp [hfind] at hchosen
  | some marker =>
    rw [hfind, Option.getD_some] at hbegins
    obtain ⟨n, -, rfl⟩ := List.mem_map.mp (List.mem_of_find?_eq_some hfind)
    have hhead : (markerText n).head? = some '[' := by
      rw [markerText]
      split <;> rfl
    cases back with
    | nil => exact absurd rfl hne
    | cons c back =>
      obtain ⟨after, hafter⟩ := hbegins
      rw [← hafter, List.cons_append, List.head?_cons, Option.some.injEq] at hhead
      exact hends.subset (hhead ▸ List.mem_cons_self)

end Siralos.Redaction
