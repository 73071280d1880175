import Siralos.Cursor
import Siralos.RedactionChannels

/-!
# A stream without the credential

The redactor counts what it holds back in bytes. Of a plain text these are the bytes of one of its
ends, so that the text is parted between two characters and nothing of it is lost.
-/

set_option autoImplicit false

namespace Siralos.Redaction

open Text Matching Cursor StreamingSecretRedactor

/-- The bytes of a text, each as the character of its number. -/
def byteChars (text : Text) : Text := (encodeUtf8 text).map Char.ofNat

def byteValue (byte : Char) : ℕ := if byte = '+' then 0x20 else byte.toNat

def percentByteScan (pattern failure : List ℕ) : ℕ → ℕ → PrefixState → Text → Option ℕ
  | _, _, s, [] => s.starts.head?
  | skip + 1, cursor, s, _ :: rest => percentByteScan pattern failure skip (cursor + 1) s rest
  | 0, cursor, s, byte :: rest =>
    match percentEscapeAt (byte :: rest) with
    | some value =>
      percentByteScan pattern failure 2 (cursor + 1)
        (s.read pattern failure (percentEscapeToken value, cursor)) rest
    | none =>
      if partialPercentEscapeAt (byte :: rest) &&
          percentContinues pattern failure (byte :: rest) s.matched s.matched then
        some (s.starts.head?.getD cursor)
      else
        percentByteScan pattern failure 0 (cursor + 1)
          (s.read pattern failure (byteValue byte, cursor)) rest

def percentPrefixByte (text secret : Text) : Option ℕ :=
  let pattern := percentPattern secret
  if pattern.isEmpty then none
  else percentByteScan pattern (kmpFailure pattern) 0 0 ⟨0, []⟩ (byteChars text)

/-- This walk goes from character to character; its starts are byte offsets all the same. -/
def jsonPrefixByte (text secret : Text) : Option ℕ :=
  (jsonPrefixStart text secret).map fun start => utf8Len (text.take start)

def sourcePrefixByte (text secret : Text) : Option ℕ :=
  ((jsonPrefixByte text secret).toList ++ (percentPrefixByte text secret).toList).min?

def variantOverlap (bytes : List ℕ) (variant : Text) : ℕ :=
  let pattern := encodeUtf8 variant
  if pattern.length ≤ 1 then 0
  else overlap pattern (bytes.drop (bytes.length - (pattern.length - 1)))

def variantPrefixBytes (text : Text) (variants : List Text) : ℕ :=
  (variants.map (variantOverlap (encodeUtf8 text))).foldl max 0

def holdBytes (redacted : Text) (variants : List Text) (secret : Text) : ℕ :=
  match sourcePrefixByte redacted secret with
  | some start => max (variantPrefixBytes redacted variants) (utf8Len redacted - start)
  | none => variantPrefixBytes redacted variants

/-- `truncate` and `split_off` panic inside a character. -/
def redactBytes (r : StreamingSecretRedactor) (text : Text) :
    Option (StreamingSecretRedactor × Text) :=
  match r.secret with
  | none => some (r, text)
  | some secret =>
    let redacted := redactSensitiveWithVariants (r.pending ++ text) r.variants (some secret)
    let hold := holdBytes redacted r.variants secret
    let parts := cut Char.utf8Size (utf8Len redacted - hold) redacted
    if maxPendingRedactionBytes < hold then
      parts.map fun parts =>
        ({ r with pending := [] }, parts.1 ++ redactionMarker [] r.variants)
    else if 0 < hold then parts.map fun parts => ({ r with pending := parts.2 }, parts.1)
    else some ({ r with pending := [] }, redacted)

/-- Chunk after chunk, with what is shown of each. -/
def redactChunks (r : StreamingSecretRedactor) :
    List Text → Option (StreamingSecretRedactor × List Text)
  | [] => some (r, [])
  | chunk :: chunks =>
    (redactBytes r chunk).bind fun next =>
      (redactChunks next.1 chunks).map fun later => (later.1, next.2 :: later.2)

theorem encode_bytes_append (left right : Text) :
    encodeUtf8 (left ++ right) = encodeUtf8 left ++ encodeUtf8 right := List.flatMap_append

theorem Held.bytes_le {secret text a b : Text} (ha : Held secret text a) (hb : Held secret text b)
    (h : a.length ≤ b.length) : utf8Len a ≤ utf8Len b := by
  obtain ⟨front, hfront⟩ := List.suffix_of_suffix_length_le ha.suffix hb.suffix h
  rw [← hfront, utf8Len_append]
  omega

theorem bytes_ending {whole text : Text} {k : ℕ} (hk : k ≤ (encodeUtf8 whole).length)
    (h : (encodeUtf8 whole).take k <:+ encodeUtf8 text) :
    ∃ piece, piece <:+ text ∧ piece <+: whole ∧ utf8Len piece = k := by
  obtain ⟨left, right, htext, hright, hbegins⟩ := utf8_synced.ending h
  refine ⟨right, ⟨left, htext.symm⟩, hbegins, ?_⟩
  change encodeUtf8 right = (encodeUtf8 whole).take k at hright
  rw [← bytes_length, hright, List.length_take, Nat.min_eq_left hk]

/-- The bytes that the variant shares with the end of the text are those of an end that begins the
secret. -/
theorem variant_overlap_held {secret text variant : Text} (hplain : Plain text)
    (hvariant : variant ∈ sensitiveVariants secret) :
    ∃ piece, Held secret text piece ∧ variantOverlap (encodeUtf8 text) variant = utf8Len piece := by
  rw [variantOverlap]
  split
  · exact ⟨[], ⟨List.nil_suffix, List.nil_prefix⟩, rfl⟩
  · have hends := (overlap_longest (encodeUtf8 variant) ((encodeUtf8 text).drop
      ((encodeUtf8 text).length - ((encodeUtf8 variant).length - 1)))).ends
    obtain ⟨piece, hpiece, hbegins, hlength⟩ := bytes_ending hends.within
      (hends.suffix.trans (List.drop_suffix _ _))
    exact ⟨piece, ⟨hpiece, variant_begins hplain hvariant hpiece hbegins⟩, hlength.symm⟩

theorem variant_bytes_held (secret : Text) {text : Text} (hplain : Plain text) :
    ∃ piece, Held secret text piece ∧
      variantPrefixBytes text (sensitiveVariants secret) = utf8Len piece := by
  rcases (foldl_max ((sensitiveVariants secret).map (variantOverlap (encodeUtf8 text))) 0).1
    with hzero | hmem
  · exact ⟨[], ⟨List.nil_suffix, List.nil_prefix⟩, hzero⟩
  · obtain ⟨variant, hvariant, hvalue⟩ := List.mem_map.mp hmem
    rw [variantPrefixBytes, ← hvalue]
    exact variant_overlap_held hplain hvariant

theorem byte_char {byte : ℕ} (h : byte < 256) : (Char.ofNat byte).toNat = byte := by
  have hvalid : byte.isValidChar := .inl (by omega)
  rw [Char.ofNat, dif_pos hvalid]
  rfl

theorem plain_byte {text : Text} (h : Plain text) :
    ∀ byte ∈ encodeUtf8 text, byte < 256 ∧ Char.ofNat byte ≠ '%' ∧ Char.ofNat byte ≠ '+' := by
  intro byte hbyte
  obtain ⟨c, hc, hmem⟩ := List.mem_flatMap.mp hbyte
  obtain ⟨b, hb, rfl⟩ := List.mem_map.mp hmem
  have hsmall := b.toNat_lt
  have hother : ∀ d : Char, d.toNat < 128 → Special d → Char.ofNat b.toNat ≠ d := by
    intro d hascii hd heq
    have hvalue := congrArg Char.toNat heq
    rw [byte_char (by omega)] at hvalue
    have hchar := (ascii_byte hb (by omega)).2
    have hsame : c = d := Char.toNat_inj.mp (hchar.trans hvalue)
    rw [hsame] at hc
    exact h d hc hd
  exact ⟨by omega, hother '%' (by decide) (.inr (.inl rfl)), hother '+' (by decide) (.inr (.inr rfl))⟩

theorem percent_byte_scan {pattern failure : List ℕ} (bytes : List ℕ)
    (h : ∀ byte ∈ bytes, byte < 256 ∧ Char.ofNat byte ≠ '%' ∧ Char.ofNat byte ≠ '+') (cursor : ℕ)
    (s : PrefixState) : percentByteScan pattern failure 0 cursor s (bytes.map Char.ofNat) =
      ((bytes.zipIdx cursor).foldl (PrefixState.read pattern failure) s).starts.head? := by
  induction bytes generalizing cursor s with
  | nil => rfl
  | cons byte bytes ih =>
    obtain ⟨hsmall, hpercent, hplus⟩ := h byte List.mem_cons_self
    have hrest := ih (fun other hother => h other (List.mem_cons_of_mem _ hother)) (cursor + 1)
    rw [List.map_cons, percentByteScan, percent_escape_none _ hpercent,
      partial_percent_false _ hpercent]
    simp only [Bool.false_and, Bool.false_eq_true, if_false]
    rw [hrest, byteValue, if_neg hplus, byte_char hsmall, List.zipIdx_cons, List.foldl_cons]

theorem percent_byte_held {secret text : Text} {start : ℕ} (hplain : Plain text)
    (h : percentPrefixByte text secret = some start) :
    ∃ piece, Held secret text piece ∧ utf8Len text - start = utf8Len piece := by
  rw [percentPrefixByte] at h
  split at h
  · cases h
  · rw [byteChars, percent_byte_scan _ (plain_byte hplain)] at h
    have htracking := tokens_tracking (percentPattern secret) ((encodeUtf8 text).zipIdx 0) ⟨0, []⟩ []
      ⟨ends_zero _ _, rfl⟩
    rw [List.nil_append] at htracking
    have hends := htracking.ends
    rw [List.zipIdx_map_fst] at hends
    have hsuffix := hends.suffix
    rw [percentPattern, ← List.map_take] at hsuffix
    have hsame := escape_tokens fun hmem => bytes_small (hsuffix.subset hmem)
    rw [hsame] at hsuffix
    have hwithin := hends.within
    rw [percentPattern, List.length_map] at hwithin
    obtain ⟨piece, hpiece, hbegins, hlength⟩ := bytes_ending hwithin hsuffix
    refine ⟨piece, ⟨hpiece, hbegins⟩, ?_⟩
    rw [hlength, ← percentPattern]
    -- the tokens stand at their own numbers
    rw [htracking.starts, List.zipIdx_map_snd, List.length_zipIdx, List.drop_range',
      List.head?_range'] at h
    have hmatched := hends.length
    rw [bytes_length] at h hmatched
    split at h
    · cases h
    · cases h
      omega

theorem json_byte_held {secret text : Text} {start : ℕ} (hplain : Plain text)
    (h : jsonPrefixByte text secret = some start) :
    ∃ piece, Held secret text piece ∧ utf8Len text - start = utf8Len piece := by
  obtain ⟨before, hbefore, rfl⟩ := Option.map_eq_some_iff.mp h
  obtain ⟨piece, hheld, hlength⟩ := json_start_held hplain hbefore
  refine ⟨piece, hheld, ?_⟩
  have hdrop : text.drop before = piece := by
    have hpiece := hheld.drop
    rw [← hlength] at hpiece
    by_cases hwithin : before ≤ text.length
    · rwa [Nat.sub_sub_self hwithin] at hpiece
    · rw [← hpiece, List.drop_eq_nil_of_le (by omega), List.drop_eq_nil_of_le (by omega)]
  have hparts := utf8Len_append (text.take before) (text.drop before)
  rw [List.take_append_drop] at hparts
  rw [hparts, hdrop]
  omega

theorem hold_bytes_held {text : Text} (secret : Text) (hplain : Plain text) :
    ∃ piece, Held secret text piece ∧
      holdBytes text (sensitiveVariants secret) secret = utf8Len piece := by
  have hvariant := variant_bytes_held secret hplain
  rw [holdBytes]
  cases hsource : sourcePrefixByte text secret with
  | none => exact hvariant
  | some start =>
    have hstart : ∃ piece, Held secret text piece ∧ utf8Len text - start = utf8Len piece := by
      rcases List.mem_append.mp (List.min?_mem hsource) with hjson | hpercent
      · exact json_byte_held hplain (Option.mem_toList.mp hjson)
      · exact percent_byte_held hplain (Option.mem_toList.mp hpercent)
    simp only
    rcases max_choice (variantPrefixBytes text (sensitiveVariants secret)) (utf8Len text - start)
      with hleft | hright
    · rw [hleft]
      exact hvariant
    · rw [hright]
      exact hstart

theorem held_le_bytes {secret text piece : Text} (habsent : ¬ secret <:+: text)
    (h : Held secret text piece) :
    utf8Len piece ≤ holdBytes text (sensitiveVariants secret) secret := by
  have hproper : piece.length < secret.length := by
    by_contra hfull
    have hsame : piece = secret := h.begins.eq_of_length_le (by omega)
    rw [← hsame] at habsent
    exact habsent h.suffix.isInfix
  have hless : utf8Len piece < utf8Len secret := by
    obtain ⟨rest, rfl⟩ := h.begins
    rw [List.length_append] at hproper
    have hrest := length_le_utf8Len rest
    rw [utf8Len_append]
    omega
  have hoverlap : utf8Len piece ≤ variantOverlap (encodeUtf8 text) secret := by
    rw [variantOverlap]
    split
    · rw [bytes_length] at *
      omega
    · apply (overlap_longest _ _).greatest
      constructor
      · rw [bytes_length]
        exact hless.le
      · obtain ⟨rest, hrest⟩ := h.begins
        have htake : (encodeUtf8 secret).take (utf8Len piece) = encodeUtf8 piece := by
          rw [← hrest, ← bytes_length, encode_bytes_append]
          exact List.take_left
        have hsuffix : encodeUtf8 piece <:+ encodeUtf8 text := by
          obtain ⟨front, hfront⟩ := h.suffix
          exact ⟨encodeUtf8 front, by rw [← hfront, encode_bytes_append]⟩
        rw [htake]
        apply List.suffix_of_suffix_length_le hsuffix (List.drop_suffix _ _)
        have hlength := hsuffix.length_le
        simp only [List.length_drop, bytes_length] at hlength ⊢
        omega
  have hvariant : utf8Len piece ≤ variantPrefixBytes text (sensitiveVariants secret) := by
    apply hoverlap.trans
    apply (foldl_max _ 0).2.2
    exact List.mem_map.mpr ⟨secret, secret_variant secret, rfl⟩
  rw [holdBytes]
  cases sourcePrefixByte text secret with
  | none => exact hvariant
  | some start => exact hvariant.trans (le_max_left _ _)

theorem hold_bytes {text : Text} (secret : Text) (hplain : Plain text)
    (habsent : ¬ secret <:+: text) :
    holdBytes text (sensitiveVariants secret) secret = utf8Len
      (text.drop (text.length - holdLen text (sensitiveVariants secret) secret)) := by
  have hlongest := hold_longest secret hplain habsent
  obtain ⟨piece, hheld, hlength⟩ := hold_bytes_held secret hplain
  apply le_antisymm
  · rw [hlength]
    exact hheld.bytes_le hlongest.held (hlongest.longest piece hheld)
  · exact held_le_bytes habsent hlongest.held

theorem redact_bytes_text {secret pending text : Text} (hne : secret ≠ [])
    (hplain : Plain (pending ++ text)) (habsent : ¬ secret <:+: pending ++ text) :
    redactBytes ⟨some secret, sensitiveVariants secret, pending⟩ text =
      some (redactText ⟨some secret, sensitiveVariants secret, pending⟩ text) := by
  simp only [redactBytes, redactText, redact_plain hne hplain habsent,
    hold_bytes secret hplain habsent]
  generalize hsplit : (pending ++ text).length - _ = split
  have hparts := utf8Len_append ((pending ++ text).take split) ((pending ++ text).drop split)
  rw [List.take_append_drop] at hparts
  have hcut : cut Char.utf8Size (utf8Len (pending ++ text) -
      utf8Len ((pending ++ text).drop split)) (pending ++ text) =
      some ((pending ++ text).take split, (pending ++ text).drop split) := by
    rw [cut_iff Char.utf8Size_pos]
    refine ⟨(List.take_append_drop _ _).symm, ?_⟩
    change utf8Len _ = _
    omega
  rw [hcut]
  by_cases hlong : maxPendingRedactionBytes < utf8Len ((pending ++ text).drop split)
  · rw [if_pos hlong, if_pos hlong]
    rfl
  · rw [if_neg hlong, if_neg hlong]
    by_cases hheld : 0 < utf8Len ((pending ++ text).drop split)
    · rw [if_pos hheld]
      rfl
    · have hnone : (pending ++ text).drop split = [] := by
        have hlength := length_le_utf8Len ((pending ++ text).drop split)
        exact List.eq_nil_of_length_eq_zero (by omega)
      have hall : (pending ++ text).take split = pending ++ text := by
        have hwhole := List.take_append_drop split (pending ++ text)
        rwa [hnone, List.append_nil] at hwhole
      rw [if_neg hheld, hnone, hall]

theorem redact_chunks_plain {secret : Text} (hne : secret ≠ [])
    (hsize : utf8Len secret ≤ maxPendingRedactionBytes) (chunks : List Text) (pending : Text)
    (hplain : Plain (pending ++ chunks.flatten))
    (habsent : ¬ secret <:+: pending ++ chunks.flatten) :
    ∃ held shown, redactChunks ⟨some secret, sensitiveVariants secret, pending⟩ chunks =
        some (⟨some secret, sensitiveVariants secret, held⟩, shown) ∧
      shown.length = chunks.length ∧ shown.flatten ++ held = pending ++ chunks.flatten := by
  induction chunks generalizing pending with
  | nil => exact ⟨pending, [], rfl, rfl, by simp⟩
  | cons chunk chunks ih =>
    rw [List.flatten_cons, ← List.append_assoc] at hplain habsent ⊢
    have hfirst : Plain (pending ++ chunk) := hplain.of_piece (List.prefix_append _ _).isInfix
    have hnone : ¬ secret <:+: pending ++ chunk := fun hpart =>
      habsent (hpart.trans (List.prefix_append _ _).isInfix)
    have hbound : ∀ piece, Held secret (pending ++ chunk) piece →
        utf8Len piece ≤ maxPendingRedactionBytes := by
      intro piece hheld
      obtain ⟨rest, hrest⟩ := hheld.begins
      rw [← hrest, utf8Len_append] at hsize
      omega
    obtain ⟨held, kept, hparted, hredact⟩ := Streaming.redact_text_plain hne hfirst hnone hbound
    -- the chunks that follow meet the end that is held, and nothing else of the text before
    have hsuffix : held ++ chunks.flatten <:+ pending ++ chunk ++ chunks.flatten :=
      ⟨kept, by rw [← hparted.all, List.append_assoc]⟩
    obtain ⟨last, shown, hrun, hlength, hall⟩ := ih held (hplain.of_piece hsuffix.isInfix)
      fun hpart => habsent (hpart.trans hsuffix.isInfix)
    refine ⟨last, kept :: shown, ?_, congrArg (· + 1) hlength, ?_⟩
    · rw [redactChunks, redact_bytes_text hne hfirst hnone, hredact, Option.bind_some, hrun,
        Option.map_some]
    · rw [List.flatten_cons, List.append_assoc, hall, ← List.append_assoc, hparted.all]

theorem clean_stream_lossless (secret : Text) (chunks : List Text) (hne : secret ≠ [])
    (hsize : ∀ variant ∈ sensitiveVariants secret, utf8Len variant ≤ 64 * 1024)
    (hplain : Plain chunks.flatten) (habsent : ¬ secret <:+: chunks.flatten) :
    ∀ received, received <+: chunks → ∃ r shown,
      redactChunks (StreamingSecretRedactor.new (some secret)) received = some (r, shown) ∧
        shown.length = received.length ∧ shown.flatten ++ r.pending = received.flatten := by
  intro received hreceived
  obtain ⟨later, hchunks⟩ := hreceived
  have hpiece : received.flatten <:+: chunks.flatten := by
    rw [← hchunks, List.flatten_append]
    exact (List.prefix_append _ _).isInfix
  have hnew : StreamingSecretRedactor.new (some secret) =
      ⟨some secret, sensitiveVariants secret, []⟩ := by
    cases secret with
    | nil => exact absurd rfl hne
    | cons c rest => rfl
  obtain ⟨held, shown, hrun, hlength, hall⟩ := redact_chunks_plain hne
    (hsize secret (secret_variant secret)) received [] (hplain.of_piece hpiece) fun hpart =>
      habsent (hpart.trans hpiece)
  rw [hnew]
  exact ⟨_, shown, hrun, hlength, hall⟩

/-- The end of the first chunk begins the credential and is held back. -/
theorem clean_stream_sample : ∃ r shown,
    redactChunks (StreamingSecretRedactor.new (some ['é', 'k'])) [['a', 'é']] =
        some (r, shown) ∧
      shown.length = [['a', 'é']].length ∧
        shown.flatten ++ r.pending = [['a', 'é']].flatten := by
  have hsize : (sensitiveVariants ['é', 'k']).all
      (fun variant => decide (utf8Len variant ≤ 64 * 1024)) = true := by decide
  refine clean_stream_lossless ['é', 'k'] [['a', 'é'], ['b', 'é']] (by decide) ?_ ?_ (by decide)
    [['a', 'é']] ⟨[['b', 'é']], rfl⟩
  · intro variant hvariant
    exact of_decide_eq_true (List.all_eq_true.mp hsize variant hvariant)
  · intro c hc
    simp only [List.flatten_cons, List.flatten_nil, List.append_nil, List.cons_append,
      List.nil_append, List.mem_cons, List.not_mem_nil, or_false] at hc
    rcases hc with rfl | rfl | rfl | rfl
    all_goals
      unfold Special
      decide

end Siralos.Redaction
