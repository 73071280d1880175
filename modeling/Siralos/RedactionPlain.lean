import Mathlib.Order.MinMax
import Siralos.Matching
import Siralos.RedactionForms

/-!
# Redaction of a plain text

A text without backslashes, percent signs and pluses in which the credential does not occur stays
as it is; and what is held back of it is the longest of its ends that begins the credential.
-/

set_option autoImplicit false

namespace Siralos.Redaction

open Text Matching StreamingSecretRedactor

theorem Headed.not_plain {text : Text} (h : Headed text) : ¬ Plain text := by
  obtain ⟨e, after, rfl, he⟩ := h
  intro hplain
  exact hplain e List.mem_cons_self he

theorem Plain.of_piece {text piece : Text} (h : Plain text) (hpiece : piece <:+: text) :
    Plain piece := fun c hc => h c (hpiece.subset hc)

theorem variant_absent {secret text variant : Text} (hplain : Plain text)
    (habsent : ¬ secret <:+: text) (hvariant : variant ∈ sensitiveVariants secret) :
    ¬ variant <:+: text := by
  intro hpart
  rcases variant_spells secret variant hvariant with rfl | ⟨before, rest, after, -, -, rfl, hafter⟩
  · exact habsent hpart
  · apply hafter.not_plain
    exact (hplain.of_piece hpart).of_piece (List.suffix_append before after).isInfix

theorem matcher_suffix (variants : List Text) (state : Text) (c : Char) :
    matcherStep variants state c <:+ state ++ [c] := by
  rw [matcherStep]
  cases hfound : (state ++ [c]).tails.find? fun node => variants.any (startsWith node) with
  | none => exact List.nil_suffix
  | some node => exact (List.mem_tails _ _).mp (List.mem_of_find?_eq_some hfound)

theorem output_zero {variants : List Text} {state : Text}
    (h : ∀ variant ∈ variants, variant ≠ [] → ¬ variant <:+: state) :
    outputLen variants state = 0 := by
  rw [outputLen]
  cases hfound : state.tails.find? fun node => !node.isEmpty && variants.contains node with
  | none => rfl
  | some node =>
    have hnode := List.find?_some hfound
    have hsuffix := (List.mem_tails _ _).mp (List.mem_of_find?_eq_some hfound)
    simp only [Bool.and_eq_true, Bool.not_eq_true', List.isEmpty_eq_false_iff,
      List.contains_iff_mem] at hnode
    exact absurd hsuffix.isInfix (h node hnode.2 hnode.1)

theorem replace_scan {text : Text} {variants : List Text} (marker : Text)
    (h : ∀ variant ∈ variants, variant ≠ [] → ¬ variant <:+: text) (rest : Text) :
    ∀ (seen : Text) (s : Replacing), text = seen ++ rest → s.state <:+ seen → s.output = [] →
      s.copied = 0 → (rest.foldl (replaceStep text variants marker) s).output = [] ∧
        (rest.foldl (replaceStep text variants marker) s).copied = 0 := by
  induction rest with
  | nil => exact fun _ _ _ _ houtput hcopied => ⟨houtput, hcopied⟩
  | cons c rest ih =>
    intro seen s htext hstate houtput hcopied
    have hnext : matcherStep variants s.state c <:+ seen ++ [c] := by
      apply (matcher_suffix variants s.state c).trans
      obtain ⟨more, hmore⟩ := hstate
      exact ⟨more, by rw [← List.append_assoc, hmore]⟩
    have hwithin : matcherStep variants s.state c <:+: text := by
      apply hnext.isInfix.trans
      exact ⟨[], rest, by rw [htext]; simp⟩
    have hnone : outputLen variants (matcherStep variants s.state c) = 0 :=
      output_zero fun variant hvariant hne hpart =>
        h variant hvariant hne (hpart.trans hwithin)
    rw [List.foldl_cons]
    apply ih (seen ++ [c])
    · rw [htext]
      simp
    · rw [replaceStep]
      simpa [hnone] using hnext
    · rw [replaceStep]
      simpa [hnone] using houtput
    · rw [replaceStep]
      simpa [hnone] using hcopied

theorem replace_plain {text marker : Text} {variants : List Text}
    (h : ∀ variant ∈ variants, variant ≠ [] → ¬ variant <:+: text) :
    replaceVariantMatches text variants marker = text := by
  rw [replaceVariantMatches]
  split
  · rfl
  · obtain ⟨houtput, hcopied⟩ := replace_scan marker h text [] ⟨[], 0, 0, []⟩ rfl
      List.nil_suffix rfl rfl
    simp [houtput, hcopied]

/-- Nothing is replaced so far; `seen` are the values read. -/
structure Copying (text : Text) (pattern seen : List ℕ) (s : TokenScan) : Prop where
  output : s.output = text.take s.copied
  ends : EndsIn pattern seen s.matched

section Scan

variable {text marker : Text} {pattern : List ℕ}

theorem take_slice {copied stop : ℕ} (h : copied ≤ stop) :
    text.take copied ++ slice text copied stop = text.take stop := by
  have hshort : text.take copied = (text.take stop).take copied := by
    rw [List.take_take, Nat.min_eq_left h]
  rw [slice, hshort, List.take_append_drop]

variable (marker) in
theorem scan_copying (token : RedactionToken) (bound : ℕ) (s : TokenScan) (seen : List ℕ)
    (h : Copying text pattern seen s) (hbound : s.matched ≤ bound)
    (hstop : s.copied ≤ token.stop) (habsent : ¬ pattern <:+: seen ++ [token.value]) :
    Copying text pattern (seen ++ [token.value])
        (scanToken text pattern (kmpFailure pattern) marker token bound s) ∧
      (scanToken text pattern (kmpFailure pattern) marker token bound s).copied ≤ token.stop := by
  rw [scanToken.eq_def]
  by_cases hvalue : pattern[s.matched]? = some token.value
  · have hgrown := (ends_succ s.matched token.value).mpr ⟨h.ends, hvalue⟩
    have hshort : s.matched + 1 ≠ pattern.length := by
      intro hfull
      apply habsent
      have hsuffix := hgrown.suffix
      rw [hfull, List.take_length] at hsuffix
      exact hsuffix.isInfix
    simp only [if_pos hvalue, if_neg hshort]
    exact ⟨⟨h.output, hgrown⟩, hstop⟩
  · by_cases hzero : s.matched = 0
    · simp only [if_neg hvalue, if_pos hzero]
      refine ⟨⟨?_, ?_⟩, le_rfl⟩
      · rw [h.output]
        exact take_slice hstop
      · simp only [hzero]
        exact ends_zero _ _
    · cases bound with
      | zero => omega
      | succ bound =>
        have hpos : 0 < s.matched := by omega
        have hlinked := kmp_linked pattern
        have hshorter := hlinked.shorter s.matched hpos h.ends.within
        have hborder := hlinked.border s.matched hpos h.ends.within
        simp only [if_neg hvalue, if_neg hzero]
        have hfallen : Copying text pattern seen (s.fallBack (kmpFailure pattern)) :=
          ⟨h.output, (h.ends.border hshorter.le).mpr hborder⟩
        have hless : (s.fallBack (kmpFailure pattern)).matched ≤ bound :=
          Nat.le_of_lt_succ (hshorter.trans_le hbound)
        exact scan_copying token bound (s.fallBack (kmpFailure pattern)) seen hfallen hless hstop
          habsent

variable (marker) in
theorem tokens_copying (tokens : List RedactionToken) (s : TokenScan) (seen : List ℕ)
    (h : Copying text pattern seen s) (hstops : ∀ token ∈ tokens, s.copied ≤ token.stop)
    (hsorted : tokens.Pairwise fun a b => a.stop ≤ b.stop)
    (habsent : ¬ pattern <:+: seen ++ tokens.map RedactionToken.value) :
    Copying text pattern (seen ++ tokens.map RedactionToken.value) (tokens.foldl (fun s token =>
      scanToken text pattern (kmpFailure pattern) marker token s.matched s) s) := by
  induction tokens generalizing s seen with
  | nil => simpa using h
  | cons token tokens ih =>
    have hmoved : seen ++ (token :: tokens).map RedactionToken.value =
        seen ++ [token.value] ++ tokens.map RedactionToken.value := by simp
    rw [hmoved] at habsent ⊢
    have hfirst : ¬ pattern <:+: seen ++ [token.value] := fun hpart =>
      habsent (hpart.trans (List.prefix_append _ _).isInfix)
    obtain ⟨hcopying, hcopied⟩ := scan_copying marker token s.matched s seen h le_rfl
      (hstops token List.mem_cons_self) hfirst
    rw [List.pairwise_cons] at hsorted
    rw [List.foldl_cons]
    exact ih _ _ hcopying (fun later hlater => hcopied.trans (hsorted.1 later hlater)) hsorted.2
      habsent

variable (marker) in
theorem redact_tokens_plain (tokens : List RedactionToken)
    (hsorted : tokens.Pairwise fun a b => a.stop ≤ b.stop)
    (habsent : ¬ pattern <:+: tokens.map RedactionToken.value) :
    redactTokenMatches text pattern tokens marker = text := by
  rw [redactTokenMatches]
  split
  · rfl
  · have hstart : Copying text pattern [] ⟨[], 0, 0, []⟩ := ⟨rfl, ends_zero pattern []⟩
    have hcopying := tokens_copying marker tokens _ [] hstart (fun _ _ => Nat.zero_le _) hsorted
      habsent
    simp only [hcopying.output]
    exact List.take_append_drop _ _

end Scan

theorem json_escape_none {c : Char} (rest : Text) (h : c ≠ '\\') :
    jsonEscapeAt (c :: rest) = none := by
  unfold jsonEscapeAt
  split
  · rename_i heq
    exact absurd (List.cons.inj heq).1 h
  · rename_i heq
    exact absurd (List.cons.inj heq).1 h
  · rfl

theorem percent_escape_none {c : Char} (rest : Text) (h : c ≠ '%') :
    percentEscapeAt (c :: rest) = none := by
  unfold percentEscapeAt
  split
  · rename_i heq
    exact absurd (List.cons.inj heq).1 h
  · rfl

def jsonUnits (patternIsAscii : Bool) (c : Char) : List ℕ :=
  if patternIsAscii && 128 ≤ c.toNat then [nonUtf16Token] else utf16Units c

/-- Tokens that end in order, all of them behind the cursor, with these values. -/
structure Tokens (tokens : List RedactionToken) (cursor : ℕ) (values : List ℕ) : Prop where
  values : tokens.map RedactionToken.value = values
  behind : ∀ token ∈ tokens, cursor < token.stop
  sorted : tokens.Pairwise fun a b => a.stop ≤ b.stop

theorem Tokens.cons {tokens : List RedactionToken} {cursor : ℕ} {rest : List ℕ}
    (h : Tokens tokens (cursor + 1) rest) (values : List ℕ) :
    Tokens (values.map (fun value => ⟨value, cursor, cursor + 1⟩) ++ tokens) cursor
      (values ++ rest) where
  values := by simp [h.values, Function.comp_def]
  behind token htoken := by
    rcases List.mem_append.mp htoken with hnew | hold
    · obtain ⟨value, -, rfl⟩ := List.mem_map.mp hnew
      exact Nat.lt_succ_self _
    · exact (Nat.lt_succ_self _).trans (h.behind token hold)
  sorted := by
    rw [List.pairwise_append]
    refine ⟨?_, h.sorted, ?_⟩
    · rw [List.pairwise_map]
      exact List.pairwise_of_forall fun _ _ => le_rfl
    · intro token htoken later hlater
      obtain ⟨value, -, rfl⟩ := List.mem_map.mp htoken
      exact (h.behind later hlater).le

theorem json_tokens (patternIsAscii : Bool) (text : Text) (h : Plain text) (cursor : ℕ) :
    Tokens (jsonTokens patternIsAscii 0 cursor text) cursor
      (text.flatMap (jsonUnits patternIsAscii)) := by
  induction text generalizing cursor with
  | nil => exact ⟨rfl, by simp [jsonTokens], by simp [jsonTokens]⟩
  | cons c text ih =>
    have hc : c ≠ '\\' := fun heq => h c List.mem_cons_self (.inl heq)
    have hrest := ih (fun d hd => h d (List.mem_cons_of_mem _ hd)) (cursor + 1)
    rw [jsonTokens, json_escape_none text hc, List.flatMap_cons]
    have hunits : (if (patternIsAscii && decide (128 ≤ c.toNat)) = true then
          [(⟨nonUtf16Token, cursor, cursor + 1⟩ : RedactionToken)]
        else (utf16Units c).map fun unit => ⟨unit, cursor, cursor + 1⟩) =
        (jsonUnits patternIsAscii c).map fun unit => ⟨unit, cursor, cursor + 1⟩ := by
      rw [jsonUnits]
      split <;> rfl
    simp only [hunits]
    exact hrest.cons _

theorem percent_tokens (text : Text) (h : Plain text) (cursor : ℕ) :
    Tokens (percentTokens 0 cursor text) cursor (encodeUtf8 text) := by
  induction text generalizing cursor with
  | nil => exact ⟨rfl, by simp [percentTokens], by simp [percentTokens]⟩
  | cons c text ih =>
    have hc : c ≠ '%' := fun heq => h c List.mem_cons_self (.inr (.inl heq))
    have hplus : c ≠ '+' := fun heq => h c List.mem_cons_self (.inr (.inr heq))
    have hrest := ih (fun d hd => h d (List.mem_cons_of_mem _ hd)) (cursor + 1)
    rw [percentTokens, percent_escape_none text hc, encodeUtf8, List.flatMap_cons]
    simp only [percentCharValues, if_neg hplus]
    exact hrest.cons _

theorem ascii_units {c : Char} (h : c.toNat < 128) : utf16Units c = [c.toNat] :=
  if_pos (by omega)

theorem ascii_secret {secret : Text} (h : ∀ c ∈ secret, c.toNat < 128) :
    encodeUtf16 secret = secret.map Char.toNat := by
  induction secret with
  | nil => rfl
  | cons c secret ih =>
    rw [encodeUtf16, List.flatMap_cons, ascii_units (h c List.mem_cons_self), List.map_cons]
    exact congrArg _ (ih fun d hd => h d (List.mem_cons_of_mem _ hd))

theorem json_absent {secret text : Text} (hne : secret ≠ []) (habsent : ¬ secret <:+: text) :
    ¬ encodeUtf16 secret <:+: text.flatMap (jsonUnits (isAscii secret)) := by
  intro hpart
  cases hascii : isAscii secret with
  | false =>
    rw [hascii] at hpart
    exact habsent (utf16_synced.infix_of hne hpart)
  | true =>
    have hall : ∀ c ∈ secret, c.toNat < 128 := by simpa [isAscii] using hascii
    have hsingle : text.flatMap (jsonUnits true) =
        text.map fun c => if 128 ≤ c.toNat then nonUtf16Token else c.toNat := by
      rw [List.map_eq_flatMap]
      congr 1
      funext c
      by_cases hc : 128 ≤ c.toNat
      · simp [jsonUnits, hc]
      · simp [jsonUnits, hc, ascii_units (Nat.lt_of_not_le hc)]
    rw [hascii, hsingle, ascii_secret hall, List.infix_map_iff] at hpart
    obtain ⟨piece, hpiece, hmap⟩ := hpart
    have hsame : secret = piece := by
      apply List.ext_getElem
      · simpa using congrArg List.length hmap
      · intro i hi hj
        have hvalue := congrArg (fun values => values[i]?) hmap
        have hlt := hall secret[i] (List.getElem_mem hi)
        simp only [List.getElem?_map, List.getElem?_eq_getElem hi, List.getElem?_eq_getElem hj,
          Option.map_some, Option.some.injEq] at hvalue
        split_ifs at hvalue with hbig
        · rw [hvalue, nonUtf16Token] at hlt
          omega
        · exact Char.toNat_inj.mp hvalue
    rw [hsame] at habsent
    exact habsent hpiece

theorem escape_tokens {bytes : List ℕ}
    (h : percentLiteralPlusToken ∉ bytes.map percentEscapeToken) :
    bytes.map percentEscapeToken = bytes := by
  have hsame : ∀ byte ∈ bytes, percentEscapeToken byte = id byte := by
    intro byte hbyte
    by_cases hplus : byte = '+'.toNat
    · have hmem := List.mem_map_of_mem (f := percentEscapeToken) hbyte
      rw [percentEscapeToken, if_pos hplus] at hmem
      exact absurd hmem h
    · exact if_neg hplus
  rw [List.map_congr_left hsame, List.map_id]

theorem bytes_small {text : Text} : percentLiteralPlusToken ∉ encodeUtf8 text := by
  intro hmem
  obtain ⟨c, -, hc⟩ := List.mem_flatMap.mp hmem
  obtain ⟨byte, -, hbyte⟩ := List.mem_map.mp hc
  have hlt := byte.toNat_lt
  rw [hbyte, percentLiteralPlusToken] at hlt
  omega

theorem percent_absent {secret text : Text} (hne : secret ≠ []) (habsent : ¬ secret <:+: text) :
    ¬ percentPattern secret <:+: encodeUtf8 text := by
  intro hpart
  have hpattern : percentPattern secret = encodeUtf8 secret :=
    escape_tokens fun hmem => bytes_small (hpart.subset hmem)
  rw [hpattern] at hpart
  exact habsent (utf8_synced.infix_of hne hpart)

theorem json_escape_width {text : Text} {unit width : ℕ}
    (h : jsonEscapeAt text = some (unit, width)) : 1 ≤ width := by
  unfold jsonEscapeAt at h
  split at h
  · obtain ⟨_, -, heq⟩ := Option.map_eq_some_iff.mp h
    cases heq
    omega
  · obtain ⟨_, -, heq⟩ := Option.map_eq_some_iff.mp h
    cases heq
    omega
  · exact absurd h nofun

/-- Tokens that end in order, all of them behind the cursor. -/
def EndsSorted (tokens : List RedactionToken) (cursor : ℕ) : Prop :=
  (∀ token ∈ tokens, cursor < token.stop) ∧ tokens.Pairwise fun a b => a.stop ≤ b.stop

theorem EndsSorted.cons {tokens : List RedactionToken} {value start stop cursor : ℕ}
    (h : EndsSorted tokens stop) (hstop : cursor < stop) :
    EndsSorted (⟨value, start, stop⟩ :: tokens) cursor := by
  refine ⟨?_, List.pairwise_cons.mpr ⟨fun later hlater => (h.1 later hlater).le, h.2⟩⟩
  intro token htoken
  rcases List.mem_cons.mp htoken with rfl | hrest
  · exact hstop
  · exact hstop.trans (h.1 token hrest)

theorem EndsSorted.units {tokens : List RedactionToken} {cursor : ℕ}
    (h : EndsSorted tokens (cursor + 1)) (values : List ℕ) :
    EndsSorted (values.map (fun value => ⟨value, cursor, cursor + 1⟩) ++ tokens) cursor :=
  let hrest : Tokens tokens (cursor + 1) (tokens.map RedactionToken.value) := ⟨rfl, h.1, h.2⟩
  ⟨(hrest.cons values).behind, (hrest.cons values).sorted⟩

theorem json_sorted (patternIsAscii : Bool) (text : Text) (skip cursor : ℕ) :
    EndsSorted (jsonTokens patternIsAscii skip cursor text) (cursor + skip) := by
  induction text generalizing skip cursor with
  | nil => exact ⟨by simp [jsonTokens], by simp [jsonTokens]⟩
  | cons c text ih =>
    cases skip with
    | succ skip =>
      have hrest := ih skip (cursor + 1)
      rwa [Nat.add_right_comm, Nat.add_assoc] at hrest
    | zero =>
      rw [jsonTokens]
      cases hescape : jsonEscapeAt (c :: text) with
      | some read =>
        obtain ⟨unit, width⟩ := read
        have hwidth := json_escape_width hescape
        have hrest := ih (width - 1) (cursor + 1)
        rw [show cursor + 1 + (width - 1) = cursor + width by omega] at hrest
        exact hrest.cons (by omega)
      | none =>
        have hrest := ih 0 (cursor + 1)
        simp only
        split
        · exact hrest.units [nonUtf16Token]
        · exact hrest.units (utf16Units c)

theorem percent_sorted (text : Text) (skip cursor : ℕ) :
    EndsSorted (percentTokens skip cursor text) (cursor + skip) := by
  induction text generalizing skip cursor with
  | nil => exact ⟨by simp [percentTokens], by simp [percentTokens]⟩
  | cons c text ih =>
    cases skip with
    | succ skip =>
      have hrest := ih skip (cursor + 1)
      rwa [Nat.add_right_comm, Nat.add_assoc] at hrest
    | zero =>
      rw [percentTokens]
      cases percentEscapeAt (c :: text) with
      | some value => exact (ih 2 (cursor + 1)).cons (by omega)
      | none => exact (ih 0 (cursor + 1)).units (percentCharValues c)

/-- The text holds the credential in none of the forms that are looked for. -/
structure Clean (secret text : Text) : Prop where
  variants : ∀ variant ∈ sensitiveVariants secret, variant ≠ [] → ¬ variant <:+: text
  json : ¬ encodeUtf16 secret <:+: (jsonTokens (isAscii secret) 0 0 text).map RedactionToken.value
  percent : ¬ percentPattern secret <:+: (percentTokens 0 0 text).map RedactionToken.value

theorem redact_clean {secret text : Text} (hne : secret ≠ []) (h : Clean secret text) :
    redactSensitiveWithVariants text (sensitiveVariants secret) (some secret) = text := by
  have hreplaced : ∀ marker, replaceVariantMatches text (sensitiveVariants secret) marker = text :=
    fun marker => replace_plain h.variants
  have hjson : ∀ marker, redactEncodedJson text secret marker = text := fun marker =>
    redact_tokens_plain marker _ (json_sorted (isAscii secret) text 0 0).2 h.json
  have hpercent : ∀ marker, redactEncodedPercent text secret marker = text := fun marker =>
    redact_tokens_plain marker _ (percent_sorted text 0 0).2 h.percent
  cases secret with
  | nil => exact absurd rfl hne
  | cons c rest =>
    simp only [redactSensitiveWithVariants, hreplaced, hjson, hpercent]

theorem clean_plain {secret text : Text} (hne : secret ≠ []) (hplain : Plain text)
    (habsent : ¬ secret <:+: text) : Clean secret text where
  variants variant hvariant _ := variant_absent hplain habsent hvariant
  json := by
    rw [(json_tokens (isAscii secret) text hplain 0).values]
    exact json_absent hne habsent
  percent := by
    rw [(percent_tokens text hplain 0).values]
    exact percent_absent hne habsent

theorem redact_plain {secret text : Text} (hne : secret ≠ []) (hplain : Plain text)
    (habsent : ¬ secret <:+: text) :
    redactSensitiveWithVariants text (sensitiveVariants secret) (some secret) = text :=
  redact_clean hne (clean_plain hne hplain habsent)

/-- Each character gives its units, which begin where it does. -/
def charTokens (units : Char → List ℕ) : ℕ → Text → List (ℕ × ℕ)
  | _, [] => []
  | cursor, c :: rest =>
    (units c).map (fun unit => (unit, cursor)) ++ charTokens units (cursor + 1) rest

/-- The matched units are the last ones read, and `starts` are theirs. -/
structure Tracking (pattern : List ℕ) (seen : List (ℕ × ℕ)) (s : PrefixState) : Prop where
  ends : EndsIn pattern (seen.map Prod.fst) s.matched
  starts : s.starts = (seen.map Prod.snd).drop (seen.length - s.matched)

variable {pattern : List ℕ}

theorem advance_tracking (value start bound : ℕ) (s : PrefixState) (seen : List (ℕ × ℕ))
    (h : Tracking pattern seen s) (hbound : s.matched ≤ bound) :
    Tracking pattern (seen ++ [(value, start)])
      (advancePrefixState pattern (kmpFailure pattern) value start bound s) := by
  have hlength : s.matched ≤ seen.length := by simpa using h.ends.length
  have hempty : Tracking pattern (seen ++ [(value, start)]) ⟨0, []⟩ :=
    ⟨ends_zero _ _, by simp⟩
  rw [advancePrefixState.eq_def]
  by_cases hvalue : pattern[s.matched]? = some value
  · simp only [if_pos hvalue]
    split
    · exact hempty
    · constructor
      · rw [List.map_append]
        exact (ends_succ s.matched value).mpr ⟨h.ends, hvalue⟩
      · have hdrop : (seen ++ [(value, start)]).length - (s.matched + 1) =
            seen.length - s.matched := by simp
        rw [hdrop, List.map_append, List.drop_append_of_le_length (by simp), h.starts]
        rfl
  · by_cases hzero : s.matched = 0
    · simp only [if_neg hvalue, if_pos hzero]
      refine ⟨by rw [hzero]; exact ends_zero _ _, ?_⟩
      rw [h.starts, hzero, List.drop_eq_nil_of_le (by simp), List.drop_eq_nil_of_le (by simp)]
    · cases bound with
      | zero => omega
      | succ bound =>
        have hpos : 0 < s.matched := by omega
        have hlinked := kmp_linked pattern
        have hshorter := hlinked.shorter s.matched hpos h.ends.within
        have hborder := hlinked.border s.matched hpos h.ends.within
        simp only [if_neg hvalue, if_neg hzero]
        have hfallen : Tracking pattern seen ⟨(kmpFailure pattern).getD (s.matched - 1) 0,
            s.starts.drop (s.matched - (kmpFailure pattern).getD (s.matched - 1) 0)⟩ := by
          refine ⟨(h.ends.border hshorter.le).mpr hborder, ?_⟩
          have hsum : seen.length - s.matched +
              (s.matched - (kmpFailure pattern).getD (s.matched - 1) 0) =
              seen.length - (kmpFailure pattern).getD (s.matched - 1) 0 := by
            omega
          rw [h.starts, List.drop_drop, hsum]
        exact advance_tracking value start bound _ seen hfallen
          (Nat.le_of_lt_succ (hshorter.trans_le hbound))

variable (pattern) in
theorem tokens_tracking (tokens : List (ℕ × ℕ)) (s : PrefixState) (seen : List (ℕ × ℕ))
    (h : Tracking pattern seen s) :
    Tracking pattern (seen ++ tokens)
      (tokens.foldl (PrefixState.read pattern (kmpFailure pattern)) s) := by
  induction tokens generalizing s seen with
  | nil => simpa using h
  | cons token tokens ih =>
    have hnext := ih _ _ (advance_tracking token.1 token.2 s.matched s seen h le_rfl)
    rw [List.append_assoc] at hnext
    exact hnext

theorem char_tokens_values (units : Char → List ℕ) (cursor : ℕ) (text : Text) :
    (charTokens units cursor text).map Prod.fst = text.flatMap units := by
  induction text generalizing cursor with
  | nil => rfl
  | cons c text ih => simp [charTokens, ih, Function.comp_def]

theorem char_tokens_append (units : Char → List ℕ) (cursor : ℕ) (left right : Text) :
    charTokens units cursor (left ++ right) =
      charTokens units cursor left ++ charTokens units (cursor + left.length) right := by
  induction left generalizing cursor with
  | nil => rfl
  | cons c left ih =>
    rw [List.cons_append, charTokens, charTokens, ih, List.append_assoc, List.length_cons]
    congr 3
    omega

theorem tracked_start {units : Char → List ℕ} {lead : ℕ → Prop}
    (hsynced : Coding.Synced units lead) {secret text : Text} {s : PrefixState} {start : ℕ}
    (h : Tracking pattern (charTokens units 0 text) s)
    (hpattern : pattern.take s.matched = (secret.flatMap units).take s.matched)
    (hstart : s.starts.head? = some start) :
    ∃ left right, text = left ++ right ∧ right <+: secret ∧ start = left.length := by
  have hsuffix := h.ends.suffix
  rw [char_tokens_values, hpattern] at hsuffix
  obtain ⟨left, right, htext, hright, hleads⟩ := hsynced.ending hsuffix
  have hmatched : (right.flatMap units).length = s.matched := by
    rw [hright, ← hpattern, List.length_take, Nat.min_eq_left h.ends.within]
  have hleft : (charTokens units 0 text).length - s.matched =
      (charTokens units 0 left).length := by
    have hall := congrArg List.length (char_tokens_values units 0 text)
    have hpart := congrArg List.length (char_tokens_values units 0 left)
    rw [List.length_map] at hall hpart
    rw [htext, List.flatMap_append, List.length_append, hmatched] at hall
    rw [htext]
    omega
  refine ⟨left, right, htext, hleads, ?_⟩
  rw [h.starts, hleft, htext, char_tokens_append, List.map_append] at hstart
  have hdrop : (charTokens units 0 left).length =
      ((charTokens units 0 left).map Prod.snd).length := by simp
  rw [hdrop, List.drop_left, Nat.zero_add] at hstart
  cases right with
  | nil => cases hstart
  | cons c right =>
    obtain ⟨first, rest, hunits, -⟩ := hsynced.leads c
    rw [charTokens, hunits] at hstart
    exact (Option.some.inj hstart).symm

theorem partial_json_false {c : Char} (rest : Text) (h : c ≠ '\\') :
    partialJsonEscapeAt (c :: rest) = false := by
  unfold partialJsonEscapeAt
  split
  · rename_i heq
    exact absurd (List.cons.inj heq).1 h
  · rename_i heq
    exact absurd (List.cons.inj heq).1 h
  · rfl

theorem partial_percent_false {c : Char} (rest : Text) (h : c ≠ '%') :
    partialPercentEscapeAt (c :: rest) = false := by
  unfold partialPercentEscapeAt
  split
  · rename_i heq
    exact absurd (List.cons.inj heq).1 h
  · rename_i heq
    exact absurd (List.cons.inj heq).1 h
  · rfl

theorem json_prefix_tokens (text : Text) (h : Plain text) (cursor : ℕ) :
    jsonPrefixTokens 0 cursor text = (charTokens utf16Units cursor text, none) := by
  induction text generalizing cursor with
  | nil => rfl
  | cons c text ih =>
    have hc : c ≠ '\\' := fun heq => h c List.mem_cons_self (.inl heq)
    have hrest := ih (fun d hd => h d (List.mem_cons_of_mem _ hd)) (cursor + 1)
    rw [jsonPrefixTokens, json_escape_none text hc, partial_json_false text hc, hrest]
    rfl

theorem percent_prefix_scan {failure : List ℕ} (text : Text) (h : Plain text) (cursor : ℕ)
    (s : PrefixState) : percentPrefixScan pattern failure 0 cursor s text =
      ((charTokens utf8Bytes cursor text).foldl (PrefixState.read pattern failure)
        s).starts.head? := by
  induction text generalizing cursor s with
  | nil => rfl
  | cons c text ih =>
    have hc : c ≠ '%' := fun heq => h c List.mem_cons_self (.inr (.inl heq))
    have hplus : c ≠ '+' := fun heq => h c List.mem_cons_self (.inr (.inr heq))
    rw [percentPrefixScan, percent_escape_none text hc, partial_percent_false text hc]
    simp only [Bool.false_and, Bool.false_eq_true, if_false]
    rw [ih fun d hd => h d (List.mem_cons_of_mem _ hd)]
    rw [charTokens, List.foldl_append, percentCharValues, if_neg hplus]

structure Held (secret text piece : Text) : Prop where
  suffix : piece <:+ text
  begins : piece <+: secret

theorem Held.drop {secret text piece : Text} (h : Held secret text piece) :
    text.drop (text.length - piece.length) = piece :=
  (List.suffix_iff_eq_drop.mp h.suffix).symm

theorem json_start_held {secret text : Text} {start : ℕ} (hplain : Plain text)
    (h : jsonPrefixStart text secret = some start) :
    ∃ piece, Held secret text piece ∧ text.length - start = piece.length := by
  rw [jsonPrefixStart] at h
  split at h
  · cases h
  · rw [json_prefix_tokens text hplain] at h
    have htracking := tokens_tracking (encodeUtf16 secret)
      (charTokens utf16Units 0 text) ⟨0, []⟩ [] ⟨ends_zero _ _, rfl⟩
    obtain ⟨left, right, rfl, hleads, rfl⟩ := tracked_start utf16_synced htracking rfl h
    exact ⟨right, ⟨List.suffix_append _ _, hleads⟩, by simp⟩

theorem percent_start_held {secret text : Text} {start : ℕ} (hplain : Plain text)
    (h : percentPrefixStart text secret = some start) :
    ∃ piece, Held secret text piece ∧ text.length - start = piece.length := by
  rw [percentPrefixStart] at h
  split at h
  · cases h
  · rw [percent_prefix_scan text hplain] at h
    have htracking := tokens_tracking (percentPattern secret)
      (charTokens utf8Bytes 0 text) ⟨0, []⟩ [] ⟨ends_zero _ _, rfl⟩
    rw [List.nil_append] at htracking
    have hpattern := htracking.ends.suffix
    rw [char_tokens_values, percentPattern, ← List.map_take] at hpattern
    have hsame := escape_tokens fun hmem => bytes_small (hpattern.subset hmem)
    rw [List.map_take] at hsame
    obtain ⟨left, right, rfl, hleads, rfl⟩ := tracked_start utf8_synced htracking hsame h
    exact ⟨right, ⟨List.suffix_append _ _, hleads⟩, by simp⟩

theorem source_start_held {secret text : Text} {start : ℕ} (hplain : Plain text)
    (h : sourcePrefixStart text secret = some start) :
    ∃ piece, Held secret text piece ∧ text.length - start = piece.length := by
  have hmem := List.min?_mem h
  rcases List.mem_append.mp hmem with hjson | hpercent
  · exact json_start_held hplain (Option.mem_toList.mp hjson)
  · exact percent_start_held hplain (Option.mem_toList.mp hpercent)

theorem foldl_max (values : List ℕ) (start : ℕ) :
    (values.foldl max start = start ∨ values.foldl max start ∈ values) ∧
      start ≤ values.foldl max start ∧ ∀ value ∈ values, value ≤ values.foldl max start := by
  induction values generalizing start with
  | nil => simp
  | cons value values ih =>
    obtain ⟨hreached, hstart, hall⟩ := ih (max start value)
    rw [List.foldl_cons]
    refine ⟨?_, (le_max_left _ _).trans hstart, ?_⟩
    · rcases hreached with hsame | hmem
      · rcases max_choice start value with hleft | hright
        · exact .inl (hsame.trans hleft)
        · exact .inr (by rw [hsame, hright]; exact List.mem_cons_self)
      · exact .inr (List.mem_cons_of_mem _ hmem)
    · intro other hother
      rcases List.mem_cons.mp hother with rfl | hlater
      · exact (le_max_right _ _).trans hstart
      · exact hall other hlater

theorem variant_begins {secret text variant piece : Text} (hplain : Plain text)
    (hvariant : variant ∈ sensitiveVariants secret) (hpiece : piece <:+ text)
    (hbegins : piece <+: variant) : piece <+: secret := by
  rcases variant_spells secret variant hvariant with rfl | ⟨before, rest, after, rfl, -, rfl, hafter⟩
  · exact hbegins
  · have hwithin : piece.length ≤ before.length := by
      by_contra hbeyond
      obtain ⟨e, tail, rfl, he⟩ := hafter
      have hlong : before ++ [e] <+: piece := by
        apply List.prefix_of_prefix_length_le _ hbegins
        · simp only [List.length_append, List.length_singleton]
          omega
        · exact ⟨tail, by simp⟩
      apply hplain e _ he
      apply hpiece.subset
      apply hlong.subset
      exact List.mem_append_right _ List.mem_cons_self
    exact (List.prefix_of_prefix_length_le hbegins (List.prefix_append _ _) hwithin).trans
      (List.prefix_append _ _)

theorem overlap_held {secret text variant window : Text} (hplain : Plain text)
    (hvariant : variant ∈ sensitiveVariants secret) (hwindow : window <:+ text) :
    ∃ piece, Held secret text piece ∧ overlap variant window = piece.length := by
  have hlongest := (overlap_longest variant window).ends
  have hlength : (variant.take (overlap variant window)).length = overlap variant window := by
    rw [List.length_take, Nat.min_eq_left hlongest.within]
  have hsuffix := hlongest.suffix.trans hwindow
  exact ⟨variant.take (overlap variant window),
    ⟨hsuffix, variant_begins hplain hvariant hsuffix (List.take_prefix _ _)⟩, hlength.symm⟩

theorem hold_held {text : Text} (secret : Text) (hplain : Plain text) :
    ∃ piece, Held secret text piece ∧
      holdLen text (sensitiveVariants secret) secret = piece.length := by
  have hvariant : ∃ piece, Held secret text piece ∧
      variantPrefixLen text (sensitiveVariants secret) = piece.length := by
    rw [variantPrefixLen]
    rcases (foldl_max ((sensitiveVariants secret).map fun variant =>
      overlap variant (text.drop (text.length - (variant.length - 1)))) 0).1 with hzero | hmem
    · exact ⟨[], ⟨List.nil_suffix, List.nil_prefix⟩, hzero⟩
    · obtain ⟨variant, hvariant, hvalue⟩ := List.mem_map.mp hmem
      rw [← hvalue]
      exact overlap_held hplain hvariant (List.drop_suffix _ _)
  rw [holdLen]
  cases hsource : sourcePrefixStart text secret with
  | none => exact hvariant
  | some start =>
    simp only
    rcases max_choice (variantPrefixLen text (sensitiveVariants secret)) (text.length - start)
      with hleft | hright
    · rw [hleft]
      exact hvariant
    · rw [hright]
      exact source_start_held hplain hsource

theorem held_le_hold {secret text piece : Text} (habsent : ¬ secret <:+: text)
    (h : Held secret text piece) :
    piece.length ≤ holdLen text (sensitiveVariants secret) secret := by
  have hle := h.begins.length_le
  have hproper : piece.length ≤ secret.length - 1 := by
    by_contra hfull
    have hsame : piece = secret := h.begins.eq_of_length (by omega)
    rw [← hsame] at habsent
    exact habsent h.suffix.isInfix
  have hwindow : piece <:+ text.drop (text.length - (secret.length - 1)) := by
    apply List.suffix_of_suffix_length_le h.suffix (List.drop_suffix _ _)
    have hlength := h.suffix.length_le
    rw [List.length_drop]
    omega
  have hends : EndsIn secret (text.drop (text.length - (secret.length - 1))) piece.length :=
    ⟨hle, by rw [← List.prefix_iff_eq_take.mp h.begins]; exact hwindow⟩
  have hoverlap := (overlap_longest _ _).greatest _ hends
  have hvariant : piece.length ≤ variantPrefixLen text (sensitiveVariants secret) := by
    apply hoverlap.trans
    apply (foldl_max _ 0).2.2
    exact List.mem_map.mpr ⟨secret, secret_variant secret, rfl⟩
  rw [holdLen]
  cases sourcePrefixStart text secret with
  | none => exact hvariant
  | some start => exact hvariant.trans (le_max_left _ _)

/-- The longest end of the text that begins the secret. -/
structure LongestHeld (secret text piece : Text) : Prop where
  held : Held secret text piece
  longest : ∀ other, Held secret text other → other.length ≤ piece.length

theorem hold_longest {text : Text} (secret : Text) (hplain : Plain text) (habsent : ¬ secret <:+: text) :
    LongestHeld secret text
      (text.drop (text.length - holdLen text (sensitiveVariants secret) secret)) := by
  obtain ⟨piece, hheld, hlength⟩ := hold_held secret hplain
  rw [hlength, hheld.drop]
  refine ⟨hheld, ?_⟩
  intro other hother
  rw [← hlength]
  exact held_le_hold habsent hother

theorem LongestHeld.unique {secret text a b : Text} (ha : LongestHeld secret text a)
    (hb : LongestHeld secret text b) : a = b := by
  have hle := hb.longest a ha.held
  have hge := ha.longest b hb.held
  have hsuffix := List.suffix_of_suffix_length_le ha.held.suffix hb.held.suffix hle
  exact hsuffix.eq_of_length (by omega)

/-- What was held before decides, of all the text before, what is held now. -/
theorem LongestHeld.extend {secret before pending text held : Text}
    (hpending : LongestHeld secret before pending)
    (hheld : LongestHeld secret (pending ++ text) held) :
    LongestHeld secret (before ++ text) held := by
  obtain ⟨front, hfront⟩ := hpending.held.suffix
  have hsuffix : pending ++ text <:+ before ++ text :=
    ⟨front, by rw [← List.append_assoc, hfront]⟩
  refine ⟨⟨hheld.held.suffix.trans hsuffix, hheld.held.begins⟩, ?_⟩
  intro other hother
  by_cases hshort : other.length ≤ (pending ++ text).length
  · exact hheld.longest other
      ⟨List.suffix_of_suffix_length_le hother.suffix hsuffix hshort, hother.begins⟩
  · have htext : text <:+ other := by
      apply List.suffix_of_suffix_length_le (List.suffix_append before text) hother.suffix
      rw [List.length_append] at hshort
      omega
    obtain ⟨more, rfl⟩ := htext
    obtain ⟨start, hstart⟩ := hother.suffix
    rw [← List.append_assoc, List.append_cancel_right_eq] at hstart
    have hmore := hpending.longest more
      ⟨⟨start, hstart⟩, (List.prefix_append more text).trans hother.begins⟩
    rw [List.length_append, List.length_append] at hshort
    omega

end Siralos.Redaction
