import Siralos.Keyed
import Siralos.LiveText
import Siralos.RedactionPlain

/-!
# The channels of a redacted stream

One redactor holds back what either channel may have begun. It keeps the channels apart as long
as it holds nothing whenever the stream goes over from one to the other.
-/

set_option autoImplicit false

namespace Siralos.Streaming

open Text Json Provider Redaction StreamingSecretRedactor

inductive Channel where
  | answer
  | reasoning
  deriving DecidableEq, Repr

def channelDelta : ProviderEvent → Option (Channel × Text)
  | .event (.textDelta text) => some (.answer, text)
  | .event (.reasoningDelta text) => some (.reasoning, text)
  | _ => none

def addition (channel : Channel) (event : ProviderEvent) : Text :=
  match channelDelta event with
  | some (other, text) => if other = channel then text else []
  | none => []

def channelText (channel : Channel) (events : List ProviderEvent) : Text :=
  events.flatMap (addition channel)

/-- The channel of the last delta that is not empty. -/
def lastChannel (events : List ProviderEvent) : Option Channel :=
  events.foldl (fun last event =>
    match channelDelta event with
    | some (channel, _ :: _) => some channel
    | _ => last) none

theorem delta_channel (event : ProviderEvent) :
    delta event = (channelDelta event).map Prod.snd := by
  cases event with
  | event e => cases e <;> rfl
  | _ => rfl

theorem channel_text_snoc (channel : Channel) (events : List ProviderEvent)
    (event : ProviderEvent) :
    channelText channel (events ++ [event]) = channelText channel events ++ addition channel event := by
  simp [channelText]

theorem delta_text_snoc (events : List ProviderEvent) (event : ProviderEvent) :
    deltaText (events ++ [event]) = deltaText events ++ (delta event).getD [] := by
  rw [delta_text_append]
  cases h : delta event <;> simp [deltaText, deltas, h]

structure Parted (secret text held kept : Text) : Prop where
  longest : LongestHeld secret text held
  all : kept ++ held = text

theorem redact_text_plain {secret pending text : Text} (hne : secret ≠ [])
    (hplain : Plain (pending ++ text)) (habsent : ¬ secret <:+: pending ++ text)
    (hbound : ∀ piece, Held secret (pending ++ text) piece →
      utf8Len piece ≤ maxPendingRedactionBytes) :
    ∃ held kept, Parted secret (pending ++ text) held kept ∧
      redactText ⟨some secret, sensitiveVariants secret, pending⟩ text =
        (⟨some secret, sensitiveVariants secret, held⟩, kept) := by
  have hlongest := hold_longest secret hplain habsent
  refine ⟨_, _, ⟨hlongest, List.take_append_drop _ _⟩, ?_⟩
  simp only [redactText, redact_plain hne hplain habsent]
  rw [if_neg (Nat.not_lt.mpr (hbound _ hlongest.held))]

/-- No character of the deltas is special, and the secret does not occur in them. -/
structure PlainStream (secret : Text) (events : List ProviderEvent) : Prop where
  plain : Plain (deltaText events)
  absent : ¬ secret <:+: deltaText events

/-- The next event leaves the channel only while nothing of the text before may begin the secret,
and what may begin it then is not too long to be held. -/
structure QuietStep (secret : Text) (before : List ProviderEvent) (event : ProviderEvent) :
    Prop where
  switch : ∀ channel text last, channelDelta event = some (channel, text) → text ≠ [] →
    lastChannel before = some last → last ≠ channel →
      ∀ piece, Held secret (deltaText before) piece → piece = []
  bounded : ∀ piece, Held secret (deltaText (before ++ [event])) piece →
    utf8Len piece ≤ maxPendingRedactionBytes

def Quiet (secret : Text) (events : List ProviderEvent) : Prop :=
  ∀ before event after, events = before ++ event :: after → QuietStep secret before event

variable (serde : SerdeJson)

def redacted (secret : Text) (events : List ProviderEvent) :
    StreamingSecretRedactor × List ProviderEvent :=
  redactEvents serde (StreamingSecretRedactor.new (some secret)) events

/-- Each channel shows a beginning of what it was given. -/
def ChannelsKept (secret : Text) (events : List ProviderEvent) : Prop :=
  ∀ channel, channelText channel (redacted serde secret events).2 <+: channelText channel events

/-- The redactor holds the longest end that may begin the secret, all of it from the channel
that was last written to. -/
structure Apart (secret : Text) (events : List ProviderEvent) (pending : Text) : Prop where
  redactor : (redacted serde secret events).1 =
    ⟨some secret, sensitiveVariants secret, pending⟩
  longest : LongestHeld secret (deltaText events) pending
  idle : lastChannel events = none → pending = []
  last : ∀ channel, lastChannel events = some channel →
    channelText channel (redacted serde secret events).2 ++ pending = channelText channel events
  others : ∀ channel, lastChannel events ≠ some channel →
    channelText channel (redacted serde secret events).2 = channelText channel events

theorem redacted_snoc (secret : Text) (events : List ProviderEvent) (event : ProviderEvent) :
    redacted serde secret (events ++ [event]) =
      (((redacted serde secret events).1.redactEvent serde event).1,
        (redacted serde secret events).2 ++
          [((redacted serde secret events).1.redactEvent serde event).2]) := by
  have hall : ∀ (es : List ProviderEvent) (r : StreamingSecretRedactor),
      redactEvents serde r (es ++ [event]) =
        (((redactEvents serde r es).1.redactEvent serde event).1,
          (redactEvents serde r es).2 ++
            [((redactEvents serde r es).1.redactEvent serde event).2]) := by
    intro es
    induction es with
    | nil => exact fun r => rfl
    | cons e es ih =>
      intro r
      simp only [List.cons_append, redactEvents, ih]
  exact hall events _

theorem last_channel_snoc (events : List ProviderEvent) (event : ProviderEvent) :
    lastChannel (events ++ [event]) =
      match channelDelta event with
      | some (channel, _ :: _) => some channel
      | _ => lastChannel events := by
  rw [lastChannel, List.foldl_append]
  rfl

theorem redact_event_channel (r : StreamingSecretRedactor) {event : ProviderEvent}
    {channel : Channel} {text : Text} (h : channelDelta event = some (channel, text)) :
    (r.redactEvent serde event).1 = (r.redactText text).1 ∧
      channelDelta (r.redactEvent serde event).2 = some (channel, (r.redactText text).2) := by
  unfold channelDelta at h
  split at h
  · cases h
    exact ⟨rfl, rfl⟩
  · cases h
    exact ⟨rfl, rfl⟩
  · cases h

theorem start_apart {secret : Text} (hne : secret ≠ []) : Apart serde secret [] [] := by
  cases secret with
  | nil => exact absurd rfl hne
  | cons c rest =>
    refine ⟨rfl, ⟨⟨List.nil_suffix, List.nil_prefix⟩, ?_⟩, fun _ => rfl, ?_, fun _ _ => rfl⟩
    · intro other hother
      exact hother.suffix.length_le
    · intro channel hlast
      cases hlast

theorem addition_delta {event : ProviderEvent} {channel : Channel} {text : Text}
    (h : channelDelta event = some (channel, text)) (other : Channel) :
    addition other event = if channel = other then text else [] := by
  rw [addition, h]

theorem addition_other {event : ProviderEvent} (h : channelDelta event = none)
    (channel : Channel) : addition channel event = [] := by
  rw [addition, h]

theorem Apart.still {secret pending : Text} {events : List ProviderEvent} {event : ProviderEvent}
    (h : Apart serde secret events pending)
    (hredactor : (redacted serde secret (events ++ [event])).1 =
      ⟨some secret, sensitiveVariants secret, pending⟩)
    (hdelta : deltaText (events ++ [event]) = deltaText events)
    (hlast : lastChannel (events ++ [event]) = lastChannel events)
    (hshown : ∀ channel, channelText channel (redacted serde secret (events ++ [event])).2 =
      channelText channel (redacted serde secret events).2)
    (hgiven : ∀ channel, channelText channel (events ++ [event]) = channelText channel events) :
    Apart serde secret (events ++ [event]) pending where
  redactor := hredactor
  longest := by
    rw [hdelta]
    exact h.longest
  idle := by
    rw [hlast]
    exact h.idle
  last channel := by
    rw [hlast, hshown, hgiven]
    exact h.last channel
  others channel := by
    rw [hlast, hshown, hgiven]
    exact h.others channel

theorem other_apart {secret pending : Text} {events : List ProviderEvent} {event : ProviderEvent}
    (h : Apart serde secret events pending) (hevent : channelDelta event = none) :
    Apart serde secret (events ++ [event]) pending := by
  have hdelta : delta event = none := by rw [delta_channel, hevent]; rfl
  obtain ⟨hsame, hnone⟩ := redact_event_other serde (redacted serde secret events).1 event hdelta
  have hout : channelDelta ((redacted serde secret events).1.redactEvent serde event).2 = none := by
    rw [delta_channel, Option.map_eq_none_iff] at hnone
    exact hnone
  apply h.still
  · rw [redacted_snoc, hsame]
    exact h.redactor
  · rw [delta_text_snoc, hdelta, Option.getD_none, List.append_nil]
  · rw [last_channel_snoc, hevent]
  · intro channel
    rw [redacted_snoc, channel_text_snoc, addition_other hout, List.append_nil]
  · intro channel
    rw [channel_text_snoc, addition_other hevent, List.append_nil]

theorem Apart.own {secret pending : Text} {events : List ProviderEvent} {channel : Channel}
    (h : Apart serde secret events pending)
    (hleft : ∀ other, lastChannel events = some other → other ≠ channel → pending = []) :
    channelText channel (redacted serde secret events).2 ++ pending =
      channelText channel events := by
  by_cases hsame : lastChannel events = some channel
  · exact h.last channel hsame
  · have hpending : pending = [] := by
      cases hbefore : lastChannel events with
      | none => exact h.idle hbefore
      | some other =>
        apply hleft other hbefore
        intro heq
        exact hsame (by rw [hbefore, heq])
    rw [hpending, List.append_nil]
    exact h.others channel hsame

theorem Apart.left {secret pending : Text} {events : List ProviderEvent} {channel : Channel}
    (h : Apart serde secret events pending)
    (hleft : lastChannel events = some channel → pending = []) :
    channelText channel (redacted serde secret events).2 = channelText channel events := by
  by_cases hsame : lastChannel events = some channel
  · have hall := h.last channel hsame
    rwa [hleft hsame, List.append_nil] at hall
  · exact h.others channel hsame

/-- What a delta to a channel adds, where all of what is held came from that channel. -/
theorem delta_apart {secret pending text : Text} {events : List ProviderEvent}
    {event : ProviderEvent} {channel : Channel} (hne : secret ≠ [])
    (h : Apart serde secret events pending) (hevent : channelDelta event = some (channel, text))
    (hstream : PlainStream secret (events ++ [event])) (hquiet : QuietStep secret events event) :
    ∃ held, Apart serde secret (events ++ [event]) held := by
  have hdelta : delta event = some text := by rw [delta_channel, hevent]; rfl
  have hall : deltaText (events ++ [event]) = deltaText events ++ text := by
    rw [delta_text_snoc, hdelta, Option.getD_some]
  obtain ⟨front, hfront⟩ := h.longest.held.suffix
  have hpart : pending ++ text <:+: deltaText (events ++ [event]) :=
    ⟨front, [], by rw [hall, ← hfront]; simp⟩
  have hbound : ∀ piece, Held secret (pending ++ text) piece →
      utf8Len piece ≤ maxPendingRedactionBytes := by
    intro piece hpiece
    apply hquiet.bounded piece
    refine ⟨hpiece.suffix.trans ⟨front, ?_⟩, hpiece.begins⟩
    rw [hall, ← hfront, List.append_assoc]
  obtain ⟨held, kept, hparted, hredact⟩ := redact_text_plain hne
    (hstream.plain.of_piece hpart) (fun hinside => hstream.absent (hinside.trans hpart)) hbound
  obtain ⟨hnext, hshown⟩ := redact_event_channel serde (redacted serde secret events).1 hevent
  rw [h.redactor, hredact] at hnext hshown
  have hlongest := h.longest.extend hparted.longest
  have hgiven : ∀ other, channelText other (events ++ [event]) =
      channelText other events ++ if channel = other then text else [] := by
    intro other
    rw [channel_text_snoc, addition_delta hevent]
  have hout : ∀ other, channelText other (redacted serde secret (events ++ [event])).2 =
      channelText other (redacted serde secret events).2 ++
        if channel = other then kept else [] := by
    intro other
    rw [redacted_snoc, channel_text_snoc, h.redactor, addition_delta hshown]
  have hredactor : (redacted serde secret (events ++ [event])).1 =
      ⟨some secret, sensitiveVariants secret, held⟩ := by
    rw [redacted_snoc, h.redactor]
    exact hnext
  refine ⟨held, ?_⟩
  cases text with
  | nil =>
    -- An empty delta leaves all as it was, whichever its channel.
    rw [List.append_nil] at hlongest hall
    have hsame : held = pending := hlongest.unique h.longest
    have hkept : kept = [] := by
      have hparts := hparted.all
      rw [hsame, List.append_nil] at hparts
      exact List.append_left_eq_self.mp hparts
    rw [hsame] at hredactor ⊢
    apply h.still serde hredactor hall
    · rw [last_channel_snoc, hevent]
    · intro other
      rw [hout, hkept, ite_self, List.append_nil]
    · intro other
      rw [hgiven, ite_self, List.append_nil]
  | cons first text =>
    have hlast : lastChannel (events ++ [event]) = some channel := by
      rw [last_channel_snoc, hevent]
    have hleft : ∀ other, lastChannel events = some other → other ≠ channel → pending = [] := by
      intro other hother hdiffers
      exact hquiet.switch channel _ other hevent (List.cons_ne_nil _ _) hother hdiffers pending
        h.longest.held
    constructor
    · exact hredactor
    · rw [hall]
      exact hlongest
    · intro hnone
      rw [hlast] at hnone
      cases hnone
    · intro other hother
      rw [hlast, Option.some.injEq] at hother
      rw [← hother, hout, hgiven, if_pos rfl, if_pos rfl, List.append_assoc, hparted.all,
        ← List.append_assoc, h.own serde hleft]
    · intro other hother
      rw [hlast, ne_eq, Option.some.injEq] at hother
      rw [hout, hgiven, if_neg hother, if_neg hother, List.append_nil, List.append_nil]
      exact h.left serde fun hsame => hleft other hsame fun heq => hother heq.symm

theorem PlainStream.before {secret : Text} {events more : List ProviderEvent}
    (h : PlainStream secret (events ++ more)) : PlainStream secret events := by
  have hpart : deltaText events <:+: deltaText (events ++ more) := by
    rw [delta_text_append]
    exact (List.prefix_append _ _).isInfix
  exact ⟨h.plain.of_piece hpart, fun hinside => h.absent (hinside.trans hpart)⟩

theorem run_apart {secret : Text} (hne : secret ≠ []) (events : List ProviderEvent)
    (hstream : PlainStream secret events) (hquiet : Quiet secret events) :
    ∃ pending, Apart serde secret events pending := by
  induction events using List.reverseRecOn with
  | nil => exact ⟨[], start_apart serde hne⟩
  | append_singleton events event ih =>
    have hbefore : Quiet secret events := by
      intro before next after heq
      exact hquiet before next (after ++ [event]) (by rw [heq]; simp)
    obtain ⟨pending, hapart⟩ := ih hstream.before hbefore
    cases hevent : channelDelta event with
    | none => exact ⟨pending, other_apart serde hapart hevent⟩
    | some delta =>
      exact delta_apart serde hne hapart hevent hstream (hquiet events event [] rfl)

theorem Apart.kept {secret pending : Text} {events : List ProviderEvent}
    (h : Apart serde secret events pending) : ChannelsKept serde secret events := by
  intro channel
  by_cases hlast : lastChannel events = some channel
  · exact ⟨pending, h.last channel hlast⟩
  · rw [h.others channel hlast]

def deltaEvent (channel : Channel) (text : Text) : ProviderEvent :=
  match channel with
  | .answer => .event (.textDelta text)
  | .reasoning => .event (.reasoningDelta text)

theorem delta_event (channel : Channel) (text : Text) :
    channelDelta (deltaEvent channel text) = some (channel, text) := by
  cases channel <;> rfl

theorem of_nat_to_nat {n : ℕ} (h : 0x10000 ≤ n) (hn : n < 0x110000) :
    (Char.ofNat n).toNat = n := by
  have hvalid : n.isValidChar := .inr ⟨by omega, hn⟩
  rw [Char.ofNat, dif_pos hvalid]
  rfl

theorem exists_fresh (avoid : Text) (h : avoid.length < 0x100000) :
    ∃ c, c ∉ avoid ∧ ¬ Special c := by
  have hnat : ∀ i < 0x100000, (Char.ofNat (0x10000 + i)).toNat = 0x10000 + i := fun i hi =>
    of_nat_to_nat (by omega) (by omega)
  have hinj : ∀ i < 0x100000, ∀ j < 0x100000,
      Char.ofNat (0x10000 + i) = Char.ofNat (0x10000 + j) → i = j := by
    intro i hi j hj heq
    have hcode := congrArg Char.toNat heq
    rw [hnat i hi, hnat j hj] at hcode
    omega
  obtain ⟨i, hi, hfree⟩ := Keyed.exists_free (fun i => Char.ofNat (0x10000 + i)) avoid h hinj
  refine ⟨_, hfree, ?_⟩
  have hcode := hnat i hi
  rintro (heq | heq | heq)
  all_goals rw [heq] at hcode
  all_goals simp at hcode
  all_goals omega

/-- With a character that cannot go on with what is held, nothing may begin the secret. -/
theorem fresh_held {secret text pending piece : Text} {x : Char}
    (hpending : LongestHeld secret text pending) (hx : x ∉ secret.take (pending.length + 1))
    (hpiece : Held secret (text ++ [x]) piece) : piece = [] := by
  rcases List.suffix_concat_iff.mp hpiece.suffix with hnil | ⟨more, rfl, hmore⟩
  · exact hnil
  · have hheld : Held secret text more := ⟨hmore, (List.prefix_append _ _).trans hpiece.begins⟩
    have hle := hpending.longest more hheld
    exfalso
    apply hx
    have htake : more ++ [x] = secret.take (more.length + 1) := by
      have hleads := List.prefix_iff_eq_take.mp hpiece.begins
      rwa [List.length_append, List.length_singleton] at hleads
    have hmem : x ∈ (secret.take (pending.length + 1)).take (more.length + 1) := by
      rw [List.take_take, Nat.min_eq_left (by omega), ← htake]
      simp
    exact List.mem_of_mem_take hmem

theorem fresh_stream {secret pending : Text} {x : Char} {events : List ProviderEvent}
    {event : ProviderEvent} (hne : secret ≠ []) (hstream : PlainStream secret events)
    (hpending : LongestHeld secret (deltaText events) pending)
    (hx : x ∉ secret.take (pending.length + 1)) (hspecial : ¬ Special x)
    (hevent : delta event = some [x]) : PlainStream secret (events ++ [event]) := by
  have hall : deltaText (events ++ [event]) = deltaText events ++ [x] := by
    rw [delta_text_snoc, hevent, Option.getD_some]
  constructor
  · rw [hall]
    intro c hc
    rcases List.mem_append.mp hc with hold | hnew
    · exact hstream.plain c hold
    · rw [List.mem_singleton.mp hnew]
      exact hspecial
  · rw [hall]
    intro hpart
    rcases List.infix_concat_iff.mp hpart with hsuffix | hold
    · exact hne (fresh_held hpending hx ⟨hsuffix, List.prefix_rfl⟩)
    · exact hstream.absent hold

theorem switch_breaks {secret pending : Text} {events : List ProviderEvent} {channel : Channel}
    {x : Char} (hne : secret ≠ []) (h : Apart serde secret events pending)
    (hpending : pending ≠ []) (hchannel : lastChannel events ≠ some channel)
    (hx : x ∉ secret.take (pending.length + 1))
    (hstream : PlainStream secret (events ++ [deltaEvent channel [x]])) :
    ¬ ChannelsKept serde secret (events ++ [deltaEvent channel [x]]) := by
  have hevent := delta_event channel [x]
  have hdelta : delta (deltaEvent channel [x]) = some [x] := by
    rw [delta_channel, hevent]
    rfl
  have hall : deltaText (events ++ [deltaEvent channel [x]]) = deltaText events ++ [x] := by
    rw [delta_text_snoc, hdelta, Option.getD_some]
  obtain ⟨front, hfront⟩ := h.longest.held.suffix
  have hsuffix : pending ++ [x] <:+ deltaText events ++ [x] :=
    ⟨front, by rw [← List.append_assoc, hfront]⟩
  have hnone : ∀ piece, Held secret (pending ++ [x]) piece → piece = [] := fun piece hpiece =>
    fresh_held h.longest hx ⟨hpiece.suffix.trans hsuffix, hpiece.begins⟩
  have hpart : pending ++ [x] <:+: deltaText (events ++ [deltaEvent channel [x]]) := by
    rw [hall]
    exact hsuffix.isInfix
  obtain ⟨held, kept, hparted, hredact⟩ := redact_text_plain hne
    (hstream.plain.of_piece hpart) (fun hinside => hstream.absent (hinside.trans hpart))
    (fun piece hpiece => by rw [hnone piece hpiece]; exact Nat.zero_le _)
  obtain ⟨-, hshown⟩ := redact_event_channel serde (redacted serde secret events).1 hevent
  rw [h.redactor, hredact] at hshown
  have hkept : kept = pending ++ [x] := by
    have hparts := hparted.all
    rwa [hnone held hparted.longest.held, List.append_nil] at hparts
  intro hkeeps
  have hleads := (hkeeps channel).length_le
  rw [redacted_snoc, channel_text_snoc, channel_text_snoc, h.redactor, addition_delta hshown,
    addition_delta hevent, if_pos rfl, if_pos rfl, h.others channel hchannel, hkept] at hleads
  have hpos := List.length_pos_of_ne_nil hpending
  simp only [List.length_append, List.length_singleton] at hleads
  omega

/-- Every run whose switches are quiet keeps the channels apart. After such a run that ends while
something may begin the secret, one character on the other channel is enough to mix them. -/
theorem channels_kept {secret : Text} (hne : secret ≠ []) :
    (∀ events, PlainStream secret events → Quiet secret events →
      ChannelsKept serde secret events) ∧
    (∀ events last channel piece, PlainStream secret events → Quiet secret events →
      lastChannel events = some last → last ≠ channel →
      Held secret (deltaText events) piece → piece ≠ [] →
        ∃ x, PlainStream secret (events ++ [deltaEvent channel [x]]) ∧
          ¬ ChannelsKept serde secret (events ++ [deltaEvent channel [x]])) := by
  constructor
  · intro events hstream hquiet
    obtain ⟨pending, hapart⟩ := run_apart serde hne events hstream hquiet
    exact hapart.kept
  · intro events last channel piece hstream hquiet hlast hother hheld hpiece
    obtain ⟨pending, hapart⟩ := run_apart serde hne events hstream hquiet
    have hpending : pending ≠ [] := by
      intro hnil
      have hle := hapart.longest.longest piece hheld
      rw [hnil] at hle
      exact hpiece (List.length_eq_zero_iff.mp (Nat.le_zero.mp hle))
    have hshort : pending.length ≤ maxPendingRedactionBytes := by
      cases events using List.reverseRecOn with
      | nil => cases hlast
      | append_singleton events event =>
        have hbounded := (hquiet events event [] rfl).bounded pending hapart.longest.held
        exact (length_le_utf8Len pending).trans hbounded
    have havoid : (secret.take (pending.length + 1)).length < 0x100000 := by
      rw [List.length_take]
      rw [maxPendingRedactionBytes] at hshort
      omega
    obtain ⟨x, hx, hspecial⟩ := exists_fresh _ havoid
    have hdelta : delta (deltaEvent channel [x]) = some [x] := by
      rw [delta_channel, delta_event]
      rfl
    have hnext := fresh_stream hne hstream hapart.longest hx hspecial hdelta
    refine ⟨x, hnext, ?_⟩
    apply switch_breaks serde hne hapart hpending _ hx hnext
    rw [hlast]
    intro heq
    exact hother (Option.some.inj heq)

def pairSecret : Text := ['a', 'b']

def quietEvents : List ProviderEvent := [deltaEvent .reasoning ['x'], deltaEvent .answer ['c']]

def heldEvents : List ProviderEvent := [deltaEvent .reasoning ['x', 'a']]

theorem held_mem {secret text piece : Text} (h : Held secret text piece) :
    piece ∈ text.tails.filter fun tail => tail.isPrefixOf secret :=
  List.mem_filter.mpr ⟨(List.mem_tails _ _).mpr h.suffix, List.isPrefixOf_iff_prefix.mpr h.begins⟩

theorem quiet_events : Quiet pairSecret quietEvents := by
  have hx : ∀ piece, Held pairSecret ['x'] piece → piece = [] := fun piece hpiece =>
    (by decide : ∀ tail ∈ (['x'].tails.filter fun tail => tail.isPrefixOf pairSecret), tail = [])
      piece (held_mem hpiece)
  have hxc : ∀ piece, Held pairSecret ['x', 'c'] piece → piece = [] := fun piece hpiece =>
    (by decide : ∀ tail ∈ (['x', 'c'].tails.filter fun tail => tail.isPrefixOf pairSecret),
      tail = []) piece (held_mem hpiece)
  intro before event after heq
  rcases before with _ | ⟨first, _ | ⟨second, before⟩⟩
  · cases heq
    refine ⟨fun _ _ _ _ _ hlast => (by cases hlast), ?_⟩
    intro piece hpiece
    rw [hx piece hpiece]
    exact Nat.zero_le _
  · cases heq
    refine ⟨fun channel text last _ _ _ _ piece hpiece => hx piece hpiece, ?_⟩
    intro piece hpiece
    rw [hxc piece hpiece]
    exact Nat.zero_le _
  · simp [quietEvents] at heq

theorem held_events : Quiet pairSecret heldEvents := by
  intro before event after heq
  rcases before with _ | ⟨first, before⟩
  · cases heq
    refine ⟨fun _ _ _ _ _ hlast => (by cases hlast), ?_⟩
    intro piece hpiece
    have hall : ∀ tail ∈ (['x', 'a'].tails.filter fun tail => tail.isPrefixOf pairSecret),
        utf8Len tail ≤ maxPendingRedactionBytes := by decide
    exact hall piece (held_mem hpiece)
  · simp [heldEvents] at heq

theorem channels_kept_sample :
    ChannelsKept heldSerde pairSecret quietEvents ∧
    ∃ x, PlainStream pairSecret (heldEvents ++ [deltaEvent .answer [x]]) ∧
      ¬ ChannelsKept heldSerde pairSecret (heldEvents ++ [deltaEvent .answer [x]]) := by
  have hne : pairSecret ≠ [] := List.cons_ne_nil _ _
  have hplain : PlainStream pairSecret quietEvents :=
    ⟨by simp [Plain, Special, quietEvents, deltaEvent, deltaText, deltas, delta], by decide⟩
  have hheld : PlainStream pairSecret heldEvents :=
    ⟨by simp [Plain, Special, heldEvents, deltaEvent, deltaText, deltas, delta], by decide⟩
  have hpiece : Held pairSecret (deltaText heldEvents) ['a'] := ⟨by decide, by decide⟩
  exact ⟨(channels_kept heldSerde hne).1 quietEvents hplain quiet_events,
    (channels_kept heldSerde hne).2 heldEvents .reasoning .answer ['a'] hheld held_events rfl
      (by decide) hpiece (by decide)⟩

/-- The last character of the reasoning is shown as the first of the answer. -/
theorem channels_mixed :
    pairSecret ≠ [] ∧ PlainStream pairSecret (heldEvents ++ [deltaEvent .answer ['c']]) ∧
    channelText .answer
        (redacted heldSerde pairSecret (heldEvents ++ [deltaEvent .answer ['c']])).2 =
      ['a', 'c'] ∧
    ¬ ChannelsKept heldSerde pairSecret (heldEvents ++ [deltaEvent .answer ['c']]) := by
  have hshown : channelText .answer
      (redacted heldSerde pairSecret (heldEvents ++ [deltaEvent .answer ['c']])).2 =
        ['a', 'c'] := by
    decide
  refine ⟨List.cons_ne_nil _ _, ⟨?_, by decide⟩, hshown, ?_⟩
  · simp [Plain, Special, heldEvents, deltaEvent, deltaText, deltas, delta]
  · intro hkept
    have hleads := hkept .answer
    rw [hshown] at hleads
    exact absurd hleads (by decide)

end Siralos.Streaming
