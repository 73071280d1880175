import Siralos.Keyed
import Siralos.StreamingTurn

/-!
# Tool names

The provider takes letters, digits and underscores. A request gives each of its tools an alias of
these, and the calls that come back are named by the tools again.
-/

set_option autoImplicit false

namespace Siralos.Streaming

open Text Json Provider Redaction

def maxProviderToolNameBytes : ℕ := 64

def digestBytes : ℕ := 8

def fnvStep (hash : UInt64) (byte : UInt8) : UInt64 := (hash ^^^ byte.toUInt64) * 0x100000001b3

def shortDigest (real : Text) : Text :=
  let hash := (real.flatMap String.utf8EncodeChar).foldl fnvStep 0xcbf29ce484222325
  lowerHex 8 (hash.toNat % 2 ^ 32)

def nameChar (c : Char) : Bool := c.isAlphanum || c == '_'

def providerToolName (real : Text) : Text :=
  let safe := real.map fun c => if nameChar c then c else '_'
  let named : Text := if safe.isEmpty then ['t', 'o', 'o', 'l'] else safe
  let out : Text := if named.head?.any Char.isDigit then 't' :: '_' :: named else named
  if maxProviderToolNameBytes < utf8Len out then
    out.take (maxProviderToolNameBytes - digestBytes - 1) ++ '_' :: shortDigest real
  else out

example : providerToolName ['9', '.', 'a'] = ['t', '_', '9', '_', 'a'] := by decide

namespace ToolNames

def taken (pairs : List (Text × Text)) (real candidate : Text) : Bool :=
  pairs.any fun pair => pair.1 == candidate && pair.2 != real

def suffixed (base : Text) (suffix : ℕ) : Text :=
  let suffixText : Text := '_' :: ofNat suffix
  let keep := maxProviderToolNameBytes - utf8Len suffixText
  base.take (min keep (utf8Len base)) ++ suffixText

/-- The loop over the suffixes, as far as the bound. -/
def freeAlias (pairs : List (Text × Text)) (real base : Text) : ℕ → ℕ → Text → Option Text
  | 0, _, _ => none
  | bound + 1, suffix, candidate =>
    if taken pairs real candidate then
      freeAlias pairs real base bound (suffix + 1) (suffixed base suffix)
    else some candidate

def assign (pairs : List (Text × Text)) (real : Text) : Option (List (Text × Text)) :=
  let base := providerToolName real
  (freeAlias pairs real base (pairs.length + 2) 2 base).map fun found => pairs ++ [(found, real)]

def new (reals : List Text) : Option ToolNames := (reals.foldlM assign []).map ToolNames.mk

/-- The alias that the provider sees; an unlisted name is sanitized on the fly. -/
def aliasOf (names : ToolNames) (real : Text) : Text :=
  match names.pairs.find? fun pair => pair.2 == real with
  | some pair => pair.1
  | none => providerToolName real

def issueEvent (names : ToolNames) : ProviderEvent → ProviderEvent
  | .event (.toolCall callId toolName input) =>
    .event (.toolCall callId (names.aliasOf toolName) input)
  | other => other

structure ProviderSafe (name : Text) : Prop where
  head : ∃ c rest, name = c :: rest ∧ c.isDigit = false
  chars : ∀ c ∈ name, nameChar c = true
  short : utf8Len name ≤ maxProviderToolNameBytes

def maxLength : ℕ := 2 ^ 63 - 1

theorem name_char_size {c : Char} (h : nameChar c = true) : c.utf8Size = 1 := by
  rw [Char.utf8Size_eq_one_iff, UInt32.le_iff_toNat_le]
  have hclasses : (c.isUpper || c.isLower || c.isDigit || c == '_') = true := h
  simp only [Bool.or_eq_true, beq_iff_eq] at hclasses
  rcases hclasses with ((hupper | hlower) | hdigit) | rfl
  · have hbounds : decide (c.val ≥ 'A'.val ∧ c.val ≤ 'Z'.val) = true := hupper
    exact le_trans (UInt32.le_iff_toNat_le.mp (of_decide_eq_true hbounds).2) (by decide)
  · have hbounds : (decide (c.val ≥ 'a'.val) && decide (c.val ≤ 'z'.val)) = true := hlower
    have hlast := of_decide_eq_true ((Bool.and_eq_true _ _).mp hbounds).2
    exact le_trans (UInt32.le_iff_toNat_le.mp hlast) (by decide)
  · have hbounds : (decide (c.val ≥ '0'.val) && decide (c.val ≤ '9'.val)) = true := hdigit
    have hlast := of_decide_eq_true ((Bool.and_eq_true _ _).mp hbounds).2
    exact le_trans (UInt32.le_iff_toNat_le.mp hlast) (by decide)
  · decide

theorem safe_length {name : Text} (h : ∀ c ∈ name, nameChar c = true) : utf8Len name = name.length := by
  induction name with
  | nil => rfl
  | cons c name ih =>
    rw [utf8Len_cons, name_char_size (h c List.mem_cons_self), List.length_cons,
      ih fun d hd => h d (List.mem_cons_of_mem _ hd)]
    omega

theorem digit_name {c : Char} (h : c.isDigit = true) : nameChar c = true := by
  simp [nameChar, Char.isAlphanum, h]

theorem of_nat_name {c : Char} {n : ℕ} (h : c ∈ ofNat n) : nameChar c = true :=
  digit_name (Nat.isDigit_of_mem_toDigits (by decide) (by decide) h)

theorem hex_name (n : ℕ) : ∀ c ∈ Nat.toDigits 16 n, nameChar c = true := by
  induction n using Nat.strong_induction_on with
  | _ n ih =>
    have hdigit : ∀ d < 16, nameChar (Nat.digitChar d) = true := by decide
    intro c hc
    rw [Nat.toDigits_eq_if (by decide)] at hc
    by_cases hsmall : n < 16
    · rw [if_pos hsmall, List.mem_singleton] at hc
      rw [hc]
      exact hdigit n hsmall
    · rw [if_neg hsmall] at hc
      rcases List.mem_append.mp hc with hc | hc
      · exact ih (n / 16) (by omega) c hc
      · rw [List.mem_singleton] at hc
        rw [hc]
        exact hdigit _ (Nat.mod_lt _ (by decide))

theorem short_digest (real : Text) :
    (∀ c ∈ shortDigest real, nameChar c = true) ∧ (shortDigest real).length = digestBytes := by
  have hless : ∀ n, n % 2 ^ 32 < 16 ^ 8 := fun n => Nat.mod_lt n (by decide)
  constructor
  · intro c hc
    rcases List.mem_append.mp hc with hzero | hc
    · rw [List.eq_of_mem_replicate hzero]
      decide
    · exact hex_name _ c hc
  · rw [shortDigest, lowerHex, List.length_leftpad]
    exact max_eq_left ((Nat.length_toDigits_le_iff (by decide) (by decide)).mpr (hless _))

theorem provider_safe (real : Text) : ProviderSafe (providerToolName real) := by
  have hsafe : ∀ c ∈ real.map fun c => if nameChar c then c else '_', nameChar c = true := by
    intro c hc
    obtain ⟨d, -, rfl⟩ := List.mem_map.mp hc
    by_cases hd : nameChar d = true
    · rwa [if_pos hd]
    · rw [if_neg hd]
      decide
  rw [providerToolName]
  generalize real.map (fun c => if nameChar c then c else '_') = safe at hsafe
  have hnamed : ∃ c rest, (if safe.isEmpty then (['t', 'o', 'o', 'l'] : Text) else safe) = c :: rest ∧
      ∀ d ∈ c :: rest, nameChar d = true := by
    cases safe with
    | nil =>
      have hall : (['t', 'o', 'o', 'l'] : Text).all nameChar = true := by decide
      exact ⟨'t', ['o', 'o', 'l'], rfl, List.all_eq_true.mp hall⟩
    | cons c rest => exact ⟨c, rest, rfl, hsafe⟩
  obtain ⟨first, more, hcons, hfirst⟩ := hnamed
  simp only [hcons, List.head?_cons, Option.any_some]
  have hout : ∃ c rest, (if first.isDigit then 't' :: '_' :: first :: more else first :: more) =
      c :: rest ∧ c.isDigit = false ∧ ∀ d ∈ c :: rest, nameChar d = true := by
    by_cases hdigit : first.isDigit = true
    · refine ⟨'t', '_' :: first :: more, if_pos hdigit, by decide, ?_⟩
      intro d hd
      rcases List.mem_cons.mp hd with rfl | hd
      · decide
      · rcases List.mem_cons.mp hd with rfl | hd
        · decide
        · exact hfirst d hd
    · exact ⟨first, more, if_neg hdigit, by simpa using hdigit, hfirst⟩
  obtain ⟨c, rest, hout, hdigit, hchars⟩ := hout
  rw [hout]
  by_cases hlong : maxProviderToolNameBytes < utf8Len (c :: rest)
  · obtain ⟨hdigest, hlength⟩ := short_digest real
    rw [if_pos hlong]
    have hall : ∀ d ∈ (c :: rest).take (maxProviderToolNameBytes - digestBytes - 1) ++
        '_' :: shortDigest real, nameChar d = true := by
      intro d hd
      rcases List.mem_append.mp hd with hd | hd
      · exact hchars d (List.mem_of_mem_take hd)
      · rcases List.mem_cons.mp hd with rfl | hd
        · decide
        · exact hdigest d hd
    refine ⟨⟨c, _, rfl, hdigit⟩, hall, ?_⟩
    have hbytes : maxProviderToolNameBytes = 64 := rfl
    have hdigits : digestBytes = 8 := rfl
    rw [safe_length hall, List.length_append, List.length_take,
      @List.length_cons _ '_' (shortDigest real), hlength]
    omega
  · rw [if_neg hlong]
    exact ⟨⟨c, rest, rfl, hdigit⟩, hchars, Nat.le_of_not_lt hlong⟩

theorem suffixed_safe {base : Text} {suffix : ℕ} (h : ProviderSafe base) (hsuffix : suffix < 10 ^ 20) :
    ProviderSafe (suffixed base suffix) := by
  obtain ⟨⟨c, rest, rfl, hdigit⟩, hchars, hshort⟩ := h
  have htext : ∀ d ∈ ('_' :: ofNat suffix : Text), nameChar d = true := by
    intro d hd
    rcases List.mem_cons.mp hd with rfl | hd
    · decide
    · exact of_nat_name hd
  have hdigits : (ofNat suffix).length ≤ 20 :=
    (Nat.length_toDigits_le_iff (by decide) (by decide)).mpr hsuffix
  have hkeep : maxProviderToolNameBytes = 64 := rfl
  rw [suffixed, safe_length htext, safe_length hchars, List.length_cons]
  obtain ⟨kept, hkept⟩ : ∃ kept, min (maxProviderToolNameBytes - ((ofNat suffix).length + 1))
      (c :: rest).length = kept + 1 := by
    refine ⟨min (maxProviderToolNameBytes - ((ofNat suffix).length + 1)) (c :: rest).length - 1, ?_⟩
    rw [List.length_cons]
    omega
  have hall : ∀ d ∈ (c :: rest).take (kept + 1) ++ '_' :: ofNat suffix, nameChar d = true := by
    intro d hd
    rcases List.mem_append.mp hd with hd | hd
    · exact hchars d (List.mem_of_mem_take hd)
    · exact htext d hd
  rw [hkept]
  refine ⟨⟨c, _, rfl, hdigit⟩, hall, ?_⟩
  rw [safe_length hall, List.length_append, List.length_take,
    @List.length_cons _ '_' (ofNat suffix)]
  omega

theorem suffixed_inj {base : Text} {m n : ℕ} (h : suffixed base m = suffixed base n) : m = n := by
  rw [suffixed, suffixed] at h
  have hdigits : ∀ n more, ((ofNat n).reverse ++ '_' :: more).takeWhile (· != '_') =
      (ofNat n).reverse := by
    intro n more
    have hnot : ∀ c ∈ (ofNat n).reverse, (c != '_') = true := by
      intro c hc
      rw [bne_iff_ne]
      rintro rfl
      exact Nat.underscore_not_in_toDigits (List.mem_reverse.mp hc)
    rw [List.takeWhile_append_of_pos hnot]
    simp
  have hback := congrArg List.reverse h
  simp only [List.reverse_append, List.reverse_cons, List.append_assoc, List.singleton_append]
    at hback
  have hsame := congrArg (List.takeWhile (· != '_')) hback
  rw [hdigits, hdigits, List.reverse_inj] at hsame
  exact of_nat_inj hsame

theorem taken_iff {pairs : List (Text × Text)} {real candidate : Text} :
    taken pairs real candidate = true ↔ ∃ owner, (candidate, owner) ∈ pairs ∧ owner ≠ real := by
  rw [taken, List.any_eq_true]
  constructor
  · rintro ⟨pair, hpair, htaken⟩
    rw [Bool.and_eq_true, beq_iff_eq, bne_iff_ne] at htaken
    exact ⟨pair.2, htaken.1 ▸ hpair, htaken.2⟩
  · rintro ⟨owner, hpair, hother⟩
    refine ⟨_, hpair, ?_⟩
    rw [Bool.and_eq_true, beq_iff_eq, bne_iff_ne]
    exact ⟨rfl, hother⟩

theorem free_alias_none {pairs : List (Text × Text)} {real base : Text} {bound suffix : ℕ}
    {candidate : Text} (h : freeAlias pairs real base bound suffix candidate = none) :
    ∀ i, i + 1 < bound → taken pairs real (suffixed base (suffix + i)) = true := by
  induction bound generalizing suffix candidate with
  | zero =>
    intro i hi
    omega
  | succ bound ih =>
    rw [freeAlias] at h
    split at h
    · intro i hi
      cases i with
      | zero =>
        cases bound with
        | zero => omega
        | succ bound =>
          rw [freeAlias] at h
          split at h
          · assumption
          · cases h
      | succ i =>
        rw [Nat.add_succ, ← Nat.succ_add]
        exact ih h i (by omega)
    · cases h

theorem free_alias_some {pairs : List (Text × Text)} {real base : Text} {bound suffix : ℕ}
    {candidate found : Text} (h : freeAlias pairs real base bound suffix candidate = some found) :
    taken pairs real found = false ∧
      (found = candidate ∨ ∃ i, i < bound ∧ found = suffixed base (suffix + i)) := by
  induction bound generalizing suffix candidate with
  | zero => cases h
  | succ bound ih =>
    rw [freeAlias] at h
    split at h
    · obtain ⟨hfree, hfound⟩ := ih h
      refine ⟨hfree, .inr ?_⟩
      rcases hfound with rfl | ⟨i, hi, rfl⟩
      · exact ⟨0, by omega, rfl⟩
      · refine ⟨i + 1, by omega, ?_⟩
        rw [Nat.add_assoc, Nat.add_comm 1 i]
    · rename_i hfree
      cases h
      exact ⟨by simpa using hfree, .inl rfl⟩

theorem free_alias_exists (pairs : List (Text × Text)) (real base : Text) :
    ∃ found, freeAlias pairs real base (pairs.length + 2) 2 base = some found := by
  cases h : freeAlias pairs real base (pairs.length + 2) 2 base with
  | some found => exact ⟨found, rfl⟩
  | none =>
    have hinj : ∀ i < pairs.length + 1, ∀ j < pairs.length + 1,
        suffixed base (2 + i) = suffixed base (2 + j) → i = j := by
      intro i _ j _ hij
      have := suffixed_inj hij
      omega
    obtain ⟨i, hi, hfree⟩ := Keyed.exists_free (fun i => suffixed base (2 + i))
      (pairs.map Prod.fst) (by simp) hinj
    obtain ⟨owner, hpair, -⟩ := taken_iff.mp (free_alias_none h i (by omega))
    exact absurd (List.mem_map_of_mem (f := Prod.fst) hpair) hfree

/-- Every alias is safe and belongs to one tool. -/
structure Assigned (pairs : List (Text × Text)) : Prop where
  safe : ∀ pair ∈ pairs, ProviderSafe pair.1
  owner : ∀ found first second, (found, first) ∈ pairs → (found, second) ∈ pairs → first = second

theorem assigned_nil : Assigned [] where
  safe pair hpair := by cases hpair
  owner found first second hfirst := by cases hfirst

theorem assign_step {pairs : List (Text × Text)} (real : Text) (h : Assigned pairs)
    (hfits : pairs.length < maxLength) :
    ∃ found, assign pairs real = some (pairs ++ [(found, real)]) ∧
      Assigned (pairs ++ [(found, real)]) := by
  obtain ⟨found, hfound⟩ := free_alias_exists pairs real (providerToolName real)
  obtain ⟨hfree, hshape⟩ := free_alias_some hfound
  have hmost : maxLength = 2 ^ 63 - 1 := rfl
  refine ⟨found, by rw [assign, hfound]; rfl, ?_, ?_⟩
  · intro pair hpair
    rcases List.mem_append.mp hpair with hold | hnew
    · exact h.safe pair hold
    · rw [List.mem_singleton.mp hnew]
      rcases hshape with rfl | ⟨i, hi, rfl⟩
      · exact provider_safe real
      · exact suffixed_safe (provider_safe real) (by omega)
  · have hother : ∀ owner, (found, owner) ∈ pairs → owner = real := by
      intro owner hpair
      by_contra hne
      rw [taken_iff.mpr ⟨owner, hpair, hne⟩] at hfree
      cases hfree
    intro candidate first second hfirst hsecond
    rcases List.mem_append.mp hfirst with hfirst | hfirst
    · rcases List.mem_append.mp hsecond with hsecond | hsecond
      · exact h.owner candidate first second hfirst hsecond
      · cases List.mem_singleton.mp hsecond
        exact hother first hfirst
    · cases List.mem_singleton.mp hfirst
      rcases List.mem_append.mp hsecond with hsecond | hsecond
      · exact (hother second hsecond).symm
      · cases List.mem_singleton.mp hsecond
        rfl

theorem assign_run (reals : List Text) (pairs : List (Text × Text)) (h : Assigned pairs)
    (hfits : pairs.length + reals.length ≤ maxLength) :
    ∃ final, reals.foldlM assign pairs = some final ∧ Assigned final ∧
      final.map Prod.snd = pairs.map Prod.snd ++ reals := by
  induction reals generalizing pairs with
  | nil => exact ⟨pairs, rfl, h, by simp⟩
  | cons real reals ih =>
    rw [List.length_cons] at hfits
    obtain ⟨found, hassign, hnext⟩ := assign_step real h (by omega)
    obtain ⟨final, hrun, hfinal, hnames⟩ := ih (pairs ++ [(found, real)]) hnext (by
      rw [List.length_append, List.length_singleton]
      omega)
    refine ⟨final, ?_, hfinal, ?_⟩
    · rw [List.foldlM_cons, hassign]
      exact hrun
    · rw [hnames, List.map_append, List.append_assoc]
      rfl

section Lookup

variable {names : ToolNames} {name : Text}

theorem alias_pair (h : name ∈ names.pairs.map Prod.snd) :
    (names.aliasOf name, name) ∈ names.pairs := by
  obtain ⟨pair, hpair, howner⟩ := List.mem_map.mp h
  rw [aliasOf]
  cases hfound : names.pairs.find? fun pair => pair.2 == name with
  | none => exact absurd (List.find?_eq_none.mp hfound pair hpair) (by simp [howner])
  | some first =>
    have hname := beq_iff_eq.mp (List.find?_some (p := fun pair : Text × Text => pair.2 == name) hfound)
    have hmem := List.mem_of_find?_eq_some hfound
    rwa [← hname]

theorem real_alias (h : Assigned names.pairs) (hname : name ∈ names.pairs.map Prod.snd) :
    names.real (names.aliasOf name) = some name := by
  have hpair := alias_pair hname
  rw [real]
  cases hfound : names.pairs.find? fun pair => pair.1 == names.aliasOf name with
  | none => exact absurd (List.find?_eq_none.mp hfound _ hpair) (by simp)
  | some first =>
    have hsame := List.find?_some (p := fun pair : Text × Text => pair.1 == names.aliasOf name) hfound
    have hmem := List.mem_of_find?_eq_some hfound
    have hfirst : (names.aliasOf name, first.2) ∈ names.pairs := by
      rwa [← beq_iff_eq.mp hsame]
    exact congrArg some (h.owner _ _ _ hfirst hpair)

end Lookup

def callNames (events : List ProviderEvent) : List Text :=
  events.filterMap fun event =>
    match event with
    | .event (.toolCall _ toolName _) => some toolName
    | _ => none

theorem restore_issued {names : ToolNames} (h : Assigned names.pairs) (events : List ProviderEvent)
    (hlisted : ∀ name ∈ callNames events, name ∈ names.pairs.map Prod.snd) :
    names.restoreEvents (events.map names.issueEvent) = events := by
  rw [restoreEvents, List.map_map]
  have hsame : ∀ event ∈ events, (names.restoreEvent ∘ names.issueEvent) event = id event := by
    intro event hevent
    cases event with
    | event model =>
      cases model with
      | toolCall callId toolName input =>
        have hmem : toolName ∈ callNames events := List.mem_filterMap.mpr ⟨_, hevent, rfl⟩
        rw [Function.comp_apply, issueEvent, restoreEvent, real_alias h (hlisted _ hmem)]
        rfl
      | textDelta text => rfl
      | reasoningDelta text => rfl
      | completed => rfl
    | raw value => rfl
    | failed message => rfl
    | cancelled message => rfl
  rw [List.map_congr_left hsame, List.map_id]

structure RoundTrip (reals : List Text) (names : ToolNames) : Prop where
  listed : names.pairs.map Prod.snd = reals
  safe : ∀ pair ∈ names.pairs, ProviderSafe pair.1
  distinct : ∀ first ∈ names.pairs, ∀ second ∈ names.pairs, first.2 ≠ second.2 → first.1 ≠ second.1
  real : ∀ name ∈ reals, names.real (names.aliasOf name) = some name
  restored : ∀ events, (∀ name ∈ callNames events, name ∈ reals) →
    names.restoreEvents (events.map names.issueEvent) = events

theorem tool_names_round_trip (reals : List Text) (hfits : reals.length ≤ maxLength) :
    ∃ names, new reals = some names ∧ RoundTrip reals names := by
  obtain ⟨pairs, hrun, hassigned, hnames⟩ := assign_run reals [] assigned_nil (by simpa using hfits)
  rw [List.map_nil, List.nil_append] at hnames
  refine ⟨⟨pairs⟩, by rw [new, hrun]; rfl, hnames, hassigned.safe, ?_, ?_, ?_⟩
  · intro first hfirst second hsecond hne hsame
    apply hne
    apply hassigned.owner first.1 first.2 second.2 hfirst
    rwa [hsame]
  · intro name hname
    exact real_alias hassigned (hnames ▸ hname)
  · intro events hlisted
    exact restore_issued hassigned events (hnames ▸ hlisted)

/-- Two names with one sanitized form, one of them twice. -/
theorem tool_names_sample : ∃ names, new [['a', '.'], ['a', '_'], ['a', '.']] = some names ∧
    RoundTrip [['a', '.'], ['a', '_'], ['a', '.']] names :=
  tool_names_round_trip _ (by decide)

end ToolNames

end Siralos.Streaming
