import Siralos.Profile

/-!
# Route URLs

The chat and the model-listing URL of an endpoint are its own text with another end of the path.
Segments are recognised on the whole text before the query, so a host can be taken for one.
-/

set_option autoImplicit false

namespace Siralos.RouteUrl

open Composition
open Text (utf8Len)

inductive Protocol where
  | openAiCompletions
  | openAiResponses
  | anthropicMessages
  deriving DecidableEq, Repr

def Protocol.parse (value : Text) : Option Protocol :=
  if value = "openai-completions" then some .openAiCompletions
  else if value = "openai-responses" then some .openAiResponses
  else if value = "anthropic-messages" then some .anthropicMessages
  else if value = "openai-compatible" then some .openAiCompletions
  else if value = "anthropic" then some .anthropicMessages
  else none

def Protocol.asStr : Protocol → Text
  | .openAiCompletions => "openai-completions"
  | .openAiResponses => "openai-responses"
  | .anthropicMessages => "anthropic-messages"

def genericPlaceholderEndpoint : Text := "https://generic.invalid/endpoint"

def Protocol.segment : Protocol → Text
  | .openAiCompletions => "/chat/completions"
  | .openAiResponses => "/responses"
  | .anthropicMessages => "/messages"

def segments : List Text := ["/chat/completions", "/responses", "/messages"]

/-- What stands before and after the first question mark. -/
def splitEndpointQuery (endpoint : Text) : Text × Option Text :=
  (endpoint.takeWhile (· != '?'),
    match endpoint.dropWhile (· != '?') with
    | [] => none
    | _ :: query => some query)

def querySuffix : Option Text → Text
  | none => []
  | some query => '?' :: query

def refusedEndpoint (endpoint : Text) : Bool :=
  decide (maxProfileEndpointBytes < utf8Len endpoint) || !isValidHttpEndpoint endpoint

def chatUrl (endpoint : Text) (protocol : Protocol) : Text :=
  if refusedEndpoint endpoint then genericPlaceholderEndpoint
  else
    let (base, query) := splitEndpointQuery endpoint
    let trimmed := Text.trimEndMatches '/' base
    (if protocol.segment <:+ trimmed then trimmed else trimmed ++ protocol.segment) ++
      querySuffix query

def stripSuffix (suffix text : Text) : Option Text :=
  if suffix <:+ text then some (text.take (text.length - suffix.length)) else none

/-- The text less the first of the segments it ends with. -/
def stripSegment (text : Text) : Text := (segments.findSome? fun s => stripSuffix s text).getD text

def modelsSegment : Text := "/models"

def modelsUrl (endpoint : Text) : Text :=
  if refusedEndpoint endpoint then genericPlaceholderEndpoint ++ modelsSegment
  else
    let (path, query) := splitEndpointQuery endpoint
    stripSegment (Text.trimEndMatches '/' path) ++ modelsSegment ++ querySuffix query

structure Url where
  scheme : Text
  authority : Text
  path : Text
  query : Option Text
  deriving DecidableEq

def slashes : Text := [':', '/', '/']

def Url.front (url : Url) : Text := url.scheme ++ slashes ++ url.authority

def Url.text (url : Url) : Text := url.front ++ url.path ++ querySuffix url.query

def inAuthority (c : Char) : Bool := !(c == '/' || c == '?')

def urlOf (text : Text) : Url :=
  let scheme := text.takeWhile (· != ':')
  let rest := text.drop (scheme.length + slashes.length)
  let behind := rest.dropWhile inAuthority
  { scheme := scheme
    authority := rest.takeWhile inAuthority
    path := (splitEndpointQuery behind).1
    query := (splitEndpointQuery behind).2 }

def authorityValid (authority : Text) : Bool :=
  if authority.isEmpty || authority.contains '@' || authority.contains '\\' ||
      authority.contains '[' != authority.contains ']' then false
  else
    match authority with
    | '[' :: literal => isBracketed literal
    | _ => isHostAndPort authority

def plainChar (c : Char) : Bool :=
  !Text.isControl c && !Text.isWhitespace c && c != '#'

structure Admitted (url : Url) : Prop where
  scheme : url.scheme = "https".toList ∨ url.scheme = "http".toList
  authority : authorityValid url.authority = true
  within : ∀ c ∈ url.authority, inAuthority c = true
  rooted : url.path = [] ∨ ∃ rest, url.path = '/' :: rest
  noQuery : ∀ c ∈ url.path, (c != '?') = true
  plain : ∀ c ∈ url.text, plainChar c = true

section Parsing

variable {url : Url}

theorem take_drop_while {p : Char → Bool} {first second : Text} (hfirst : ∀ c ∈ first, p c = true)
    (hsecond : ∀ c ∈ second.head?, p c = false) :
    (first ++ second).takeWhile p = first ∧ (first ++ second).dropWhile p = second := by
  rw [List.takeWhile_append_of_pos hfirst, List.dropWhile_append_of_pos hfirst]
  cases second with
  | nil => exact ⟨List.append_nil _, rfl⟩
  | cons c rest =>
    have hstop := hsecond c rfl
    rw [List.takeWhile_cons_of_neg (by rw [hstop]; exact Bool.false_ne_true),
      List.dropWhile_cons_of_neg (by rw [hstop]; exact Bool.false_ne_true), List.append_nil]
    exact ⟨rfl, rfl⟩

theorem split_query {base : Text} (query : Option Text) (h : ∀ c ∈ base, (c != '?') = true) :
    splitEndpointQuery (base ++ querySuffix query) = (base, query) := by
  have hsuffix : ∀ c ∈ (querySuffix query).head?, (c != '?') = false := by
    intro c hc
    cases query with
    | none => cases hc
    | some text =>
      rw [querySuffix, List.head?_cons, Option.mem_some_iff] at hc
      rw [← hc]
      rfl
  obtain ⟨htake, hdrop⟩ := take_drop_while h hsuffix
  rw [splitEndpointQuery, htake, hdrop]
  cases query with
  | none => rfl
  | some text => rfl

theorem scheme_all (h : Admitted url) {p : Char → Bool} (hall : "https".toList.all p = true) :
    ∀ c ∈ url.scheme, p c = true := by
  intro c hc
  rcases h.scheme with hscheme | hscheme
  · exact List.all_eq_true.mp hall c (by rwa [hscheme] at hc)
  · rw [hscheme] at hc
    exact List.all_eq_true.mp hall c (List.mem_append_left ['s'] hc)

theorem behind_authority (h : Admitted url) :
    ∀ c ∈ (url.path ++ querySuffix url.query).head?, inAuthority c = false := by
  intro c hc
  rcases h.rooted with hpath | ⟨rest, hpath⟩
  · rw [hpath, List.nil_append] at hc
    cases hquery : url.query with
    | none =>
      rw [hquery] at hc
      cases hc
    | some text =>
      rw [hquery, querySuffix, List.head?_cons, Option.mem_some_iff] at hc
      rw [← hc]
      rfl
  · rw [hpath, List.cons_append, List.head?_cons, Option.mem_some_iff] at hc
    rw [← hc]
    rfl

theorem url_of_text (h : Admitted url) : urlOf url.text = url := by
  have hscheme : url.text.takeWhile (· != ':') = url.scheme := by
    rw [Url.text, Url.front, List.append_assoc, List.append_assoc, List.append_assoc]
    exact (take_drop_while (scheme_all h (by decide)) (by rintro c ⟨⟩; rfl)).1
  have hrest : url.text.drop (url.scheme.length + slashes.length) =
      url.authority ++ (url.path ++ querySuffix url.query) := by
    rw [Url.text, Url.front, List.append_assoc, List.append_assoc, ← List.length_append]
    exact List.drop_left
  obtain ⟨hauthority, hpath⟩ := take_drop_while h.within (behind_authority h)
  have hsplit := split_query url.query h.noQuery
  rw [urlOf]
  simp only [hscheme, hrest, hauthority, hpath, hsplit]

theorem after_scheme (h : Admitted url) :
    afterScheme url.text = url.authority ++ (url.path ++ querySuffix url.query) := by
  rw [Url.text, Url.front, List.append_assoc, List.append_assoc]
  rcases h.scheme with hscheme | hscheme
  · rw [hscheme]
    rfl
  · rw [hscheme]
    rfl

theorem valid_endpoint (value : Text) : isValidHttpEndpoint value =
    (if !hasHttpScheme value || value.any Text.isControl || value.any Text.isWhitespace ||
      value.contains '#' then false
    else authorityValid ((afterScheme value).takeWhile inAuthority)) := rfl

theorem plain_iff (value : Text) : (value.any Text.isControl || value.any Text.isWhitespace ||
    value.contains '#') = false ↔ ∀ c ∈ value, plainChar c = true := by
  simp only [Bool.or_eq_false_iff, List.any_eq_false, List.contains_eq_mem, decide_eq_false_iff_not,
    plainChar, Bool.and_eq_true, Bool.not_eq_true', bne_iff_ne, Bool.not_eq_true]
  constructor
  · rintro ⟨⟨hcontrol, hspace⟩, hhash⟩ c hc
    exact ⟨⟨hcontrol c hc, hspace c hc⟩, fun h => hhash (h ▸ hc)⟩
  · intro h
    exact ⟨⟨fun c hc => (h c hc).1.1, fun c hc => (h c hc).1.2⟩, fun hc => (h _ hc).2 rfl⟩

theorem scheme_text (h : Admitted url) : hasHttpScheme url.text = true := by
  rw [hasHttpScheme, Bool.or_eq_true, Text.starts_with_iff, Text.starts_with_iff, Url.text,
    Url.front]
  rcases h.scheme with hscheme | hscheme
  · refine .inl ⟨url.authority ++ (url.path ++ querySuffix url.query), ?_⟩
    rw [hscheme]
    simp only [List.append_assoc]
    rfl
  · refine .inr ⟨url.authority ++ (url.path ++ querySuffix url.query), ?_⟩
    rw [hscheme]
    simp only [List.append_assoc]
    rfl

theorem text_valid (h : Admitted url) : isValidHttpEndpoint url.text = true := by
  have hplain := (plain_iff url.text).mpr h.plain
  rw [valid_endpoint, scheme_text h, Bool.not_true, Bool.false_or, hplain,
    if_neg Bool.false_ne_true, after_scheme h, (take_drop_while h.within (behind_authority h)).1]
  exact h.authority

theorem split_joined (text : Text) :
    (splitEndpointQuery text).1 ++ querySuffix (splitEndpointQuery text).2 = text := by
  have hwhole := List.takeWhile_append_dropWhile (p := (· != '?')) (l := text)
  rw [splitEndpointQuery]
  cases hdrop : text.dropWhile (· != '?') with
  | nil => rwa [hdrop] at hwhole
  | cons c query =>
    have hhead := List.head?_dropWhile_not (· != '?') text
    rw [hdrop] at hhead hwhole
    simp only [List.head?_cons, bne_eq_false_iff_eq] at hhead
    rwa [hhead] at hwhole

theorem rooted_tail (rest : Text) : (splitEndpointQuery (rest.dropWhile inAuthority)).1 = [] ∨
    ∃ path, (splitEndpointQuery (rest.dropWhile inAuthority)).1 = '/' :: path := by
  rw [splitEndpointQuery]
  cases hdrop : rest.dropWhile inAuthority with
  | nil => exact .inl rfl
  | cons c tail =>
    have hhead := List.head?_dropWhile_not inAuthority rest
    rw [hdrop] at hhead
    simp only [List.head?_cons, inAuthority, Bool.not_eq_false', Bool.or_eq_true,
      beq_iff_eq] at hhead
    rcases hhead with rfl | rfl
    · exact .inr ⟨tail.takeWhile (· != '?'), rfl⟩
    · exact .inl rfl

theorem admitted_of_valid {endpoint : Text} (h : isValidHttpEndpoint endpoint = true) :
    ∃ url, Admitted url ∧ url.text = endpoint := by
  rw [valid_endpoint] at h
  split at h
  · cases h
  · rename_i hshape
    rw [Bool.not_eq_true, Bool.or_assoc, Bool.or_assoc, Bool.or_eq_false_iff, ← Bool.or_assoc,
      plain_iff, Bool.not_eq_false'] at hshape
    obtain ⟨hscheme, hplain⟩ := hshape
    obtain ⟨scheme, rest, hnamed, rfl⟩ : ∃ scheme rest : Text,
        (scheme = "https".toList ∨ scheme = "http".toList) ∧
          endpoint = scheme ++ slashes ++ rest := by
      rw [hasHttpScheme, Bool.or_eq_true, Text.starts_with_iff, Text.starts_with_iff] at hscheme
      rcases hscheme with ⟨rest, hrest⟩ | ⟨rest, hrest⟩
      · exact ⟨"https".toList, rest, .inl rfl, hrest.symm⟩
      · exact ⟨"http".toList, rest, .inr rfl, hrest.symm⟩
    have hafter : afterScheme (scheme ++ slashes ++ rest) = rest := by
      rcases hnamed with rfl | rfl
      · rfl
      · rfl
    rw [hafter] at h
    have htext : Url.text ⟨scheme, rest.takeWhile inAuthority,
        (splitEndpointQuery (rest.dropWhile inAuthority)).1,
        (splitEndpointQuery (rest.dropWhile inAuthority)).2⟩ = scheme ++ slashes ++ rest := by
      rw [Url.text, Url.front, List.append_assoc, split_joined, List.append_assoc,
        List.takeWhile_append_dropWhile]
    refine ⟨_, ⟨hnamed, h, fun _ hc => List.mem_takeWhile_imp hc, rooted_tail rest,
      fun _ hc => List.mem_takeWhile_imp (p := (· != '?')) hc, ?_⟩, htext⟩
    rw [htext]
    exact hplain

end Parsing

def Url.trimmed (url : Url) : Text := Text.trimEndMatches '/' url.path

section Segments

variable {url : Url} {segment : Text}

theorem trim_append {p : Char → Bool} {first : Text} (second : Text) (hne : first ≠ [])
    (hlast : p (first.getLast hne) = false) :
    (first ++ second).rdropWhile p = first ++ second.rdropWhile p := by
  induction second using List.reverseRecOn with
  | nil =>
    rw [List.append_nil, List.rdropWhile_nil, List.append_nil, List.rdropWhile_eq_self_iff]
    intro hl
    rw [hlast]
    exact Bool.false_ne_true
  | append_singleton second c ih =>
    rw [← List.append_assoc, List.rdropWhile_concat, List.rdropWhile_concat]
    by_cases hc : p c = true
    · rw [if_pos hc, if_pos hc, ih]
    · rw [if_neg hc, if_neg hc, List.append_assoc]

theorem authority_ne (h : Admitted url) : url.authority ≠ [] := by
  intro hnil
  have hvalid := h.authority
  rw [hnil] at hvalid
  cases hvalid

theorem authority_slash (h : Admitted url) {rest : Text} : url.authority ≠ '/' :: rest := by
  intro hslash
  have hwithin := h.within '/' (by rw [hslash]; exact List.mem_cons_self)
  cases hwithin

theorem front_ne (url : Url) : url.front ≠ [] := by
  rw [Url.front, List.append_assoc]
  exact List.append_ne_nil_of_right_ne_nil _ (List.cons_ne_nil _ _)

theorem trimmed_base (h : Admitted url) :
    Text.trimEndMatches '/' (url.front ++ url.path) = url.front ++ url.trimmed := by
  rw [Text.trimEndMatches, trim_append url.path (front_ne url), Url.trimmed, Text.trimEndMatches]
  have hlast : url.front.getLast (front_ne url) = url.authority.getLast (authority_ne h) := by
    simp only [Url.front]
    exact List.getLast_append_right (authority_ne h)
  rw [hlast, beq_eq_false_iff_ne]
  intro hslash
  have hwithin := h.within _ (List.getLast_mem (authority_ne h))
  rw [hslash] at hwithin
  cases hwithin

/-- A segment starts with its only leading slash. -/
def Leading (segment : Text) : Prop := ∃ c rest, segment = '/' :: c :: rest ∧ c ≠ '/'

theorem scheme_tail (h : Admitted url) {tail : Text} (hsuffix : tail <:+ url.scheme ++ slashes)
    (hhead : tail.head? = some '/') : tail = ['/'] ∨ tail = ['/', '/'] := by
  rw [← List.mem_tails] at hsuffix
  rcases h.scheme with hscheme | hscheme
  · rw [hscheme] at hsuffix
    revert tail
    decide
  · rw [hscheme] at hsuffix
    revert tail
    decide

theorem suffix_before {before text rest : Text} (h : before ++ rest <:+ text ++ rest) :
    before <:+ text := by
  obtain ⟨outside, houtside⟩ := h
  rw [← List.append_assoc] at houtside
  exact ⟨outside, List.append_cancel_right houtside⟩

/-- A text ends with a segment in its path, or its authority and path are the segment. -/
theorem suffix_cases (h : Admitted url) (hleading : Leading segment) (path : Text) :
    segment <:+ url.front ++ path ↔
      segment <:+ path ∨ segment = '/' :: (url.authority ++ path) := by
  obtain ⟨c, tail, hsegment, hc⟩ := hleading
  constructor
  · intro hsuffix
    rcases List.suffix_or_suffix_of_suffix hsuffix (List.suffix_append url.front path) with
      hpath | ⟨before, hbefore⟩
    · exact .inl hpath
    rw [← hbefore] at hsuffix
    have hfront := suffix_before hsuffix
    rcases List.suffix_or_suffix_of_suffix hfront
      (List.suffix_append (url.scheme ++ slashes) url.authority) with hinside | ⟨start, hstart⟩
    · -- A leading slash within the authority.
      cases before with
      | nil =>
        rw [List.nil_append] at hbefore
        exact .inl (by rw [hbefore])
      | cons d before =>
        rw [hsegment] at hbefore
        have hslash := (List.cons.inj hbefore).1
        have hwithin := h.within d (hinside.subset List.mem_cons_self)
        rw [hslash] at hwithin
        cases hwithin
    · rw [← hstart] at hfront hbefore
      cases start with
      | nil =>
        rw [List.nil_append, hsegment] at hbefore
        cases hauthority : url.authority with
        | nil => exact absurd hauthority (authority_ne h)
        | cons d rest =>
          rw [hauthority] at hbefore
          rw [(List.cons.inj hbefore).1] at hauthority
          exact absurd hauthority (authority_slash h)
      | cons d start =>
        have hslash : d = '/' := by
          rw [hsegment] at hbefore
          exact (List.cons.inj hbefore).1
        rcases scheme_tail h (suffix_before hfront) (by rw [hslash]; rfl) with hone | htwo
        · rw [hone] at hbefore
          exact .inr hbefore.symm
        · rw [htwo, hsegment] at hbefore
          exact absurd (List.cons.inj (List.cons.inj hbefore).2).1.symm hc
  · rintro (hsuffix | hwhole)
    · exact hsuffix.trans (List.suffix_append _ _)
    · rw [hwhole]
      exact ⟨url.scheme ++ [':', '/'], by
        rw [Url.front, List.append_assoc, List.append_assoc, List.append_assoc]
        rfl⟩

theorem segment_leading (h : segment ∈ segments) : Leading segment := by
  simp only [segments, List.mem_cons, List.not_mem_nil, or_false] at h
  rcases h with rfl | rfl | rfl
  · exact ⟨'c', "hat/completions".toList, rfl, by decide⟩
  · exact ⟨'r', "esponses".toList, rfl, by decide⟩
  · exact ⟨'m', "essages".toList, rfl, by decide⟩

theorem protocol_segment (protocol : Protocol) : protocol.segment ∈ segments := by
  cases protocol
  · exact List.mem_cons_self
  · exact List.mem_cons_of_mem _ List.mem_cons_self
  · exact List.mem_cons_of_mem _ (List.mem_cons_of_mem _ List.mem_cons_self)

theorem segments_apart : ∀ first ∈ segments, ∀ second ∈ segments, first <:+ second →
    first = second := by
  decide

theorem segment_plain : ∀ s ∈ segments, s.getLast? ≠ some '/' ∧
    s.all (fun c => plainChar c && c != '?') = true ∧ ¬ modelsSegment <+: s := by
  decide

theorem strip_suffix_append (suffix text : Text) :
    stripSuffix suffix (text ++ suffix) = some text := by
  rw [stripSuffix, if_pos (List.suffix_append _ _), List.length_append, Nat.add_sub_cancel,
    List.take_left]

theorem strip_found (h : segment ∈ segments) (text : Text) :
    stripSegment (text ++ segment) = text := by
  have hstrip : ∀ s ∈ segments, ∀ kept, stripSuffix s (text ++ segment) = some kept →
      kept = text := by
    intro s hs kept hkept
    have hsame : s = segment := by
      by_cases hsuffix : s <:+ text ++ segment
      · rcases List.suffix_or_suffix_of_suffix hsuffix (List.suffix_append text segment) with
          hends | hends
        · exact segments_apart s hs segment h hends
        · exact (segments_apart segment h s hs hends).symm
      · rw [stripSuffix, if_neg hsuffix] at hkept
        cases hkept
    rw [hsame, strip_suffix_append] at hkept
    exact (Option.some.inj hkept).symm
  rw [stripSegment]
  cases hfind : segments.findSome? fun s => stripSuffix s (text ++ segment) with
  | none =>
    have hnone := List.findSome?_eq_none_iff.mp hfind segment h
    rw [strip_suffix_append] at hnone
    cases hnone
  | some kept =>
    obtain ⟨s, hs, hkept⟩ := List.exists_of_findSome?_eq_some hfind
    exact hstrip s hs kept hkept

theorem strip_absent {text : Text} (h : ∀ s ∈ segments, ¬ s <:+ text) :
    stripSegment text = text := by
  have hnone : (segments.findSome? fun s => stripSuffix s text) = none :=
    List.findSome?_eq_none_iff.mpr fun s hs => if_neg (h s hs)
  rw [stripSegment, hnone, Option.getD_none]

/-- The authority is taken for a part of a segment. -/
def Url.Swallowed (url : Url) : Prop := '/' :: (url.authority ++ url.trimmed) ∈ segments

theorem strip_front (h : Admitted url) {path : Text}
    (hplain : '/' :: (url.authority ++ path) ∉ segments) :
    stripSegment (url.front ++ path) = url.front ++ stripSegment path := by
  by_cases hfound : ∃ s ∈ segments, s <:+ path
  · obtain ⟨s, hs, kept, hkept⟩ := hfound
    rw [← hkept, ← List.append_assoc, strip_found hs, strip_found hs]
  · have habsent : ∀ s ∈ segments, ¬ s <:+ path := fun s hs hsuffix => hfound ⟨s, hs, hsuffix⟩
    rw [strip_absent habsent, strip_absent]
    intro s hs hsuffix
    rcases (suffix_cases h (segment_leading hs) path).mp hsuffix with hpath | hwhole
    · exact habsent s hs hpath
    · rw [← hwhole] at hplain
      exact hplain hs

theorem strip_shortens (text : Text) : stripSegment text <+: text := by
  by_cases hfound : ∃ s ∈ segments, s <:+ text
  · obtain ⟨s, hs, kept, hkept⟩ := hfound
    rw [← hkept, strip_found hs]
    exact List.prefix_append _ _
  · rw [strip_absent fun s hs hsuffix => hfound ⟨s, hs, hsuffix⟩]

def Url.chatPath (url : Url) (protocol : Protocol) : Text :=
  if protocol.segment <:+ url.trimmed then url.trimmed else url.trimmed ++ protocol.segment

def Url.modelsPath (url : Url) : Text := stripSegment url.trimmed ++ modelsSegment

theorem not_refused (h : Admitted url) (hlen : utf8Len url.text ≤ maxProfileEndpointBytes) :
    refusedEndpoint url.text = false := by
  rw [refusedEndpoint, text_valid h, Bool.not_true, Bool.or_false, decide_eq_false_iff_not]
  exact Nat.not_lt.mpr hlen

theorem base_split (h : Admitted url) :
    splitEndpointQuery url.text = (url.front ++ url.path, url.query) := by
  rw [Url.text]
  apply split_query
  intro c hc
  rcases List.mem_append.mp hc with hfront | hpath
  · rw [Url.front, List.append_assoc, List.mem_append, List.mem_append] at hfront
    rcases hfront with hscheme | hslash | hauthority
    · exact scheme_all h (p := (· != '?')) (by decide) c hscheme
    · have hall : slashes.all (· != '?') = true := by decide
      exact List.all_eq_true.mp hall c hslash
    · have hwithin := h.within c hauthority
      rw [inAuthority, Bool.not_eq_true', Bool.or_eq_false_iff, beq_eq_false_iff_ne,
        beq_eq_false_iff_ne] at hwithin
      rw [bne_iff_ne]
      exact hwithin.2
  · exact h.noQuery c hpath

theorem chat_text (h : Admitted url) (hlen : utf8Len url.text ≤ maxProfileEndpointBytes)
    (protocol : Protocol) (hplain : protocol.segment ≠ '/' :: (url.authority ++ url.trimmed)) :
    chatUrl url.text protocol = { url with path := url.chatPath protocol }.text := by
  have hsuffix : protocol.segment <:+ url.front ++ url.trimmed ↔
      protocol.segment <:+ url.trimmed := by
    rw [suffix_cases h (segment_leading (protocol_segment protocol))]
    exact or_iff_left hplain
  rw [chatUrl, not_refused h hlen, if_neg Bool.false_ne_true, base_split h]
  simp only [trimmed_base h, hsuffix]
  rw [Url.text, Url.chatPath]
  by_cases hends : protocol.segment <:+ url.trimmed
  · rw [if_pos hends, if_pos hends]
    rfl
  · rw [if_neg hends, if_neg hends, List.append_assoc url.front]
    rfl

theorem models_text (h : Admitted url) (hlen : utf8Len url.text ≤ maxProfileEndpointBytes)
    (hplain : ¬ url.Swallowed) : modelsUrl url.text = { url with path := url.modelsPath }.text := by
  rw [modelsUrl, not_refused h hlen, if_neg Bool.false_ne_true, base_split h]
  simp only [trimmed_base h, strip_front h hplain]
  rw [Url.text, Url.modelsPath, List.append_assoc url.front]
  rfl

theorem path_admitted (h : Admitted url) {kept ending : Text} (hkept : kept <+: url.path)
    (hrooted : ending = [] ∨ ∃ rest, ending = '/' :: rest)
    (hplain : ending.all (fun c => plainChar c && c != '?') = true) :
    Admitted { url with path := kept ++ ending } := by
  rw [List.all_eq_true] at hplain
  obtain ⟨after, hafter⟩ := hkept
  refine ⟨h.scheme, h.authority, h.within, ?_, ?_, ?_⟩
  · show kept ++ ending = [] ∨ ∃ rest, kept ++ ending = '/' :: rest
    cases kept with
    | nil => exact hrooted
    | cons c kept =>
      rcases h.rooted with hpath | ⟨rest, hpath⟩
      · rw [hpath] at hafter
        cases hafter
      · rw [hpath] at hafter
        rw [(List.cons.inj hafter).1]
        exact .inr ⟨kept ++ ending, rfl⟩
  · intro c hc
    rcases List.mem_append.mp hc with hc | hc
    · exact h.noQuery c (by rw [← hafter]; exact List.mem_append_left _ hc)
    · exact (Bool.and_eq_true_iff.mp (hplain c hc)).2
  · intro c hc
    have hwhole := h.plain c
    simp only [Url.text, Url.front, ← hafter, List.mem_append] at hc hwhole
    rcases hc with (hfront | hkept | hending) | hquery
    · exact hwhole (.inl (.inl hfront))
    · exact hwhole (.inl (.inr (.inl hkept)))
    · exact (Bool.and_eq_true_iff.mp (hplain c hending)).1
    · exact hwhole (.inr hquery)

theorem trimmed_front (url : Url) : url.trimmed <+: url.path := List.rdropWhile_prefix ..

theorem chat_admitted (h : Admitted url) (protocol : Protocol) :
    Admitted { url with path := url.chatPath protocol } := by
  have hsegment := protocol_segment protocol
  obtain ⟨c, rest, hrooted, -⟩ := segment_leading hsegment
  rw [Url.chatPath]
  by_cases hends : protocol.segment <:+ url.trimmed
  · rw [if_pos hends, ← List.append_nil url.trimmed]
    exact path_admitted h (trimmed_front url) (.inl rfl) rfl
  · rw [if_neg hends]
    exact path_admitted h (trimmed_front url) (.inr ⟨_, hrooted⟩)
      (segment_plain _ hsegment).2.1

theorem models_admitted (h : Admitted url) : Admitted { url with path := url.modelsPath } :=
  path_admitted h ((strip_shortens _).trans (trimmed_front url)) (.inr ⟨_, rfl⟩) (by decide)

theorem chat_path_ends (url : Url) (protocol : Protocol) :
    protocol.segment <:+ url.chatPath protocol := by
  rw [Url.chatPath]
  by_cases hends : protocol.segment <:+ url.trimmed
  · rw [if_pos hends]
    exact hends
  · rw [if_neg hends]
    exact List.suffix_append _ _

theorem chat_trimmed (url : Url) (protocol : Protocol) :
    Url.trimmed { url with path := url.chatPath protocol } = url.chatPath protocol := by
  obtain ⟨before, hbefore⟩ := chat_path_ends url protocol
  have hplain := (segment_plain _ (protocol_segment protocol)).1
  show (url.chatPath protocol).rdropWhile (· == '/') = url.chatPath protocol
  rw [← hbefore, List.rdropWhile_eq_self_iff]
  intro hne hslash
  have hlast := List.getLast?_eq_some_getLast hne
  rw [beq_iff_eq.mp hslash, List.getLast?_append] at hlast
  cases hsegment : protocol.segment.getLast? with
  | none =>
    obtain ⟨c, rest, hrooted, -⟩ := segment_leading (protocol_segment protocol)
    rw [hrooted, List.getLast?_eq_none_iff] at hsegment
    cases hsegment
  | some c =>
    rw [hsegment, Option.some_or] at hlast
    rw [hlast] at hsegment
    exact hplain hsegment

theorem whole_not_suffix {path : Text} (h : segment <:+ path) (authority : Text) :
    segment ≠ '/' :: (authority ++ path) := by
  intro hwhole
  have hle := h.length_le
  rw [hwhole, List.length_cons, List.length_append] at hle
  omega

theorem chat_again (h : Admitted url) (protocol : Protocol)
    (hlen : utf8Len (Url.text { url with path := url.chatPath protocol }) ≤
      maxProfileEndpointBytes) :
    chatUrl (Url.text { url with path := url.chatPath protocol }) protocol =
      Url.text { url with path := url.chatPath protocol } := by
  have hends := chat_path_ends url protocol
  have htrimmed := chat_trimmed url protocol
  rw [chat_text (chat_admitted h protocol) hlen protocol
    (by rw [htrimmed]; exact whole_not_suffix hends _)]
  have hsame : Url.chatPath { url with path := url.chatPath protocol } protocol =
      url.chatPath protocol := by
    rw [Url.chatPath, htrimmed, if_pos hends]
  rw [hsame]

theorem chat_not_swallowed (url : Url) (protocol : Protocol) :
    ¬ Url.Swallowed { url with path := url.chatPath protocol } := by
  intro hswallowed
  have hends := chat_path_ends url protocol
  rw [Url.Swallowed, chat_trimmed] at hswallowed
  have hsuffix : protocol.segment <:+ '/' :: (url.authority ++ url.chatPath protocol) :=
    hends.trans ((List.suffix_append _ _).trans (List.suffix_cons _ _))
  exact whole_not_suffix hends _
    (segments_apart _ (protocol_segment protocol) _ hswallowed hsuffix)

theorem same_path {first second : Text}
    (h : Url.text { url with path := first } = Url.text { url with path := second }) :
    first = second :=
  List.append_cancel_left (List.append_cancel_right h)

theorem models_chat_iff (h : Admitted url) (hlen : utf8Len url.text ≤ maxProfileEndpointBytes)
    (hplain : ¬ url.Swallowed) (protocol : Protocol)
    (hchat : utf8Len (Url.text { url with path := url.chatPath protocol }) ≤
      maxProfileEndpointBytes) :
    modelsUrl (Url.text { url with path := url.chatPath protocol }) = modelsUrl url.text ↔
      protocol.segment <:+ url.trimmed ∨ ∀ s ∈ segments, ¬ s <:+ url.trimmed := by
  rw [models_text (chat_admitted h protocol) hchat (chat_not_swallowed url protocol),
    models_text h hlen hplain]
  have hpaths : Url.modelsPath { url with path := url.chatPath protocol } = url.modelsPath ↔
      protocol.segment <:+ url.trimmed ∨ ∀ s ∈ segments, ¬ s <:+ url.trimmed := by
    rw [Url.modelsPath, Url.modelsPath, chat_trimmed, List.append_left_inj, Url.chatPath]
    by_cases hends : protocol.segment <:+ url.trimmed
    · rw [if_pos hends]
      exact iff_of_true rfl (.inl hends)
    · rw [if_neg hends, strip_found (protocol_segment protocol), or_iff_right hends]
      constructor
      · rintro hsame s hs ⟨kept, hkept⟩
        rw [← hkept, strip_found hs] at hsame
        obtain ⟨c, rest, hrooted, -⟩ := segment_leading hs
        have hlength := congrArg List.length hsame
        rw [hrooted, List.length_append, List.length_cons] at hlength
        omega
      · intro habsent
        exact (strip_absent habsent).symm
  rw [← hpaths]
  exact ⟨fun hsame => same_path hsame, fun hsame => by rw [hsame]⟩

/-- The listing of models at a host the endpoint does not name. -/
theorem models_swallowed (h : Admitted url) (hlen : utf8Len url.text ≤ maxProfileEndpointBytes)
    (hswallowed : url.Swallowed) : (urlOf (modelsUrl url.text)).authority ≠ url.authority := by
  have hbase : url.front ++ url.trimmed =
      (url.scheme ++ [':', '/']) ++ ('/' :: (url.authority ++ url.trimmed)) := by
    rw [Url.front, List.append_assoc, List.append_assoc, List.append_assoc]
    rfl
  have htext : modelsUrl url.text =
      Url.text ⟨url.scheme, modelsSegment.drop 1, [], url.query⟩ := by
    rw [modelsUrl, not_refused h hlen, if_neg Bool.false_ne_true, base_split h]
    simp only [trimmed_base h]
    rw [hbase, strip_found hswallowed, Url.text, Url.front, List.append_nil, List.append_assoc,
      List.append_assoc url.scheme, List.append_assoc, List.append_assoc]
    rfl
  have hadmitted : Admitted ⟨url.scheme, modelsSegment.drop 1, [], url.query⟩ := by
    have hvalid : authorityValid (modelsSegment.drop 1) = true := by decide
    refine ⟨h.scheme, hvalid, ?_, .inl rfl, nofun, ?_⟩
    · have hall : (modelsSegment.drop 1).all inAuthority = true := by decide
      exact List.all_eq_true.mp hall
    · intro c hc
      have hwhole := h.plain c
      have hall : (modelsSegment.drop 1).all plainChar = true := by decide
      simp only [Url.text, Url.front, List.mem_append, List.append_nil] at hc hwhole
      rcases hc with (hfront | hmodels) | hquery
      · exact hwhole (.inl (.inl (.inl hfront)))
      · exact List.all_eq_true.mp hall c hmodels
      · exact hwhole (.inr hquery)
  rw [htext, url_of_text hadmitted]
  intro hsame
  have hprefix : modelsSegment <+: '/' :: (url.authority ++ url.trimmed) := by
    rw [← hsame]
    exact ⟨url.trimmed, rfl⟩
  exact (segment_plain _ hswallowed).2.2 hprefix

end Segments

/-- The host, the query and the protocol's path of both URLs. -/
structure RouteKept (endpoint : Text) (protocol : Protocol) : Prop where
  chatHost : (urlOf (chatUrl endpoint protocol)).scheme = (urlOf endpoint).scheme ∧
    (urlOf (chatUrl endpoint protocol)).authority = (urlOf endpoint).authority ∧
    (urlOf (chatUrl endpoint protocol)).query = (urlOf endpoint).query
  modelsHost : (urlOf (modelsUrl endpoint)).scheme = (urlOf endpoint).scheme ∧
    (urlOf (modelsUrl endpoint)).authority = (urlOf endpoint).authority ∧
    (urlOf (modelsUrl endpoint)).query = (urlOf endpoint).query
  chatPath : protocol.segment <:+ (urlOf (chatUrl endpoint protocol)).path
  modelsPath : modelsSegment <:+ (urlOf (modelsUrl endpoint)).path
  again : utf8Len (chatUrl endpoint protocol) ≤ maxProfileEndpointBytes →
    chatUrl (chatUrl endpoint protocol) protocol = chatUrl endpoint protocol
  models : (∀ s ∈ segments, ¬ s <:+ (urlOf endpoint).path) →
    utf8Len (chatUrl endpoint protocol) ≤ maxProfileEndpointBytes →
    modelsUrl (chatUrl endpoint protocol) = modelsUrl endpoint

/-- The path ends with the segment of another protocol and slashes, and leaves room for this one. -/
structure Url.Slashed (url : Url) (protocol : Protocol) : Prop where
  slashed : ∀ s ∈ segments, ¬ s <:+ url.path
  other : ∃ s ∈ segments, s <:+ url.trimmed
  notOwn : ¬ protocol.segment <:+ url.trimmed
  room : utf8Len url.text + utf8Len protocol.segment ≤
    maxProfileEndpointBytes + (url.path.length - url.trimmed.length)

theorem slashes_length (url : Url) :
    utf8Len url.path = utf8Len url.trimmed + (url.path.length - url.trimmed.length) := by
  have hsplit : url.path = url.trimmed ++ url.path.rtakeWhile (· == '/') :=
    List.rdropWhile_append_rtakeWhile.symm
  have hbytes : ∀ text : Text, (∀ c ∈ text, c = '/') → utf8Len text = text.length := by
    intro text htext
    induction text with
    | nil => rfl
    | cons c rest ih =>
      rw [Text.utf8Len_cons, ih fun d hd => htext d (List.mem_cons_of_mem _ hd),
        htext c List.mem_cons_self, List.length_cons, Nat.add_comm]
      rfl
  have hslashes := hbytes (url.path.rtakeWhile (· == '/')) fun c hc =>
    beq_iff_eq.mp (List.mem_rtakeWhile_imp (p := (· == '/')) hc)
  have hlength := congrArg List.length hsplit
  rw [List.length_append] at hlength
  have hwhole := congrArg utf8Len hsplit
  rw [Text.utf8Len_append] at hwhole
  omega

theorem room_iff (url : Url) {protocol : Protocol} (h : ¬ protocol.segment <:+ url.trimmed) :
    utf8Len (Url.text { url with path := url.chatPath protocol }) ≤ maxProfileEndpointBytes ↔
      utf8Len url.text + utf8Len protocol.segment ≤
        maxProfileEndpointBytes + (url.path.length - url.trimmed.length) := by
  have hpath := slashes_length url
  have hchat : utf8Len (Url.text { url with path := url.chatPath protocol }) =
      utf8Len url.front + (utf8Len url.trimmed + utf8Len protocol.segment) +
        utf8Len (querySuffix url.query) := by
    rw [Url.chatPath, if_neg h, Url.text, Text.utf8Len_append, Text.utf8Len_append,
      Text.utf8Len_append]
    rfl
  rw [hchat, Url.text, Text.utf8Len_append, Text.utf8Len_append]
  omega

theorem segment_apart {url : Url} (h : ¬ url.Swallowed) (protocol : Protocol) :
    protocol.segment ≠ '/' :: (url.authority ++ url.trimmed) := by
  intro hwhole
  have hsegment := protocol_segment protocol
  rw [hwhole] at hsegment
  exact h hsegment

/-- A route keeps its host and its laws unless the host reads as a part of a segment or slashes
hide the segment of another protocol. -/
theorem route_kept_iff (endpoint : Text) (protocol : Protocol)
    (hvalid : isValidHttpEndpoint endpoint = true)
    (hlen : utf8Len endpoint ≤ maxProfileEndpointBytes) :
    RouteKept endpoint protocol ↔
      ¬ (urlOf endpoint).Swallowed ∧ ¬ (urlOf endpoint).Slashed protocol := by
  obtain ⟨url, h, rfl⟩ := admitted_of_valid hvalid
  rw [url_of_text h]
  constructor
  · intro hkept
    have hplain : ¬ url.Swallowed := by
      intro hswallowed
      have hhost := hkept.modelsHost.2.1
      rw [url_of_text h] at hhost
      exact models_swallowed h hlen hswallowed hhost
    refine ⟨hplain, fun hslashed => ?_⟩
    have hchat := chat_text h hlen protocol (segment_apart hplain protocol)
    have hroom := (room_iff url hslashed.notOwn).mpr hslashed.room
    have hmodels := hkept.models
    rw [url_of_text h, hchat] at hmodels
    rcases (models_chat_iff h hlen hplain protocol hroom).mp (hmodels hslashed.slashed hroom) with
      hown | habsent
    · exact hslashed.notOwn hown
    · obtain ⟨s, hs, hends⟩ := hslashed.other
      exact habsent s hs hends
  · rintro ⟨hplain, hslashed⟩
    have hchat := chat_text h hlen protocol (segment_apart hplain protocol)
    have hmodels := models_text h hlen hplain
    constructor
    · rw [hchat, url_of_text (chat_admitted h protocol), url_of_text h]
      exact ⟨rfl, rfl, rfl⟩
    · rw [hmodels, url_of_text (models_admitted h), url_of_text h]
      exact ⟨rfl, rfl, rfl⟩
    · rw [hchat, url_of_text (chat_admitted h protocol)]
      exact chat_path_ends url protocol
    · rw [hmodels, url_of_text (models_admitted h)]
      exact List.suffix_append _ _
    · rw [hchat]
      exact chat_again h protocol
    · rw [hchat, url_of_text h]
      intro hpath hroom
      rw [models_chat_iff h hlen hplain protocol hroom]
      by_contra hneither
      rw [not_or] at hneither
      apply hslashed
      refine ⟨hpath, ?_, hneither.1, (room_iff url hneither.1).mp hroom⟩
      by_contra hother
      exact hneither.2 fun s hs hends => hother ⟨s, hs, hends⟩

/-- The host of this endpoint is taken for the segment, and the models are listed elsewhere. -/
theorem route_kept_fails : ¬ ∀ (endpoint : Text) (protocol : Protocol),
    isValidHttpEndpoint endpoint = true → utf8Len endpoint ≤ maxProfileEndpointBytes →
    RouteKept endpoint protocol := by
  intro hall
  have hhost := (hall "https://messages" .anthropicMessages (by decide)
    (by decide)).modelsHost.2.1
  revert hhost
  decide

theorem sample_route_kept : RouteKept "https://h/v" .anthropicMessages := by
  rw [route_kept_iff "https://h/v" .anthropicMessages (by decide) (by decide)]
  constructor
  · show '/' :: ((urlOf "https://h/v").authority ++ (urlOf "https://h/v").trimmed) ∉ segments
    decide
  · intro hslashed
    exact absurd hslashed.other (by decide)

end Siralos.RouteUrl
