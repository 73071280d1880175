import Siralos.TuiSink

/-!
# Text released a character at a time

Over every order of the calls no text that is owed goes missing. A push or a write cuts its text,
though, for revealed bytes that the buffer still holds.
-/

set_option autoImplicit false

namespace Siralos.Reveal

open Cursor Text

structure Record where
  before : TuiSink
  op : Op
  event : Event
  after : TuiSink

/-- The steps of a run, or nothing where one panics. -/
def run : TuiSink → List Op → Option (List Record)
  | _, [] => some []
  | s, op :: ops => do
    let stepped ← s.step op
    let later ← run stepped.1 ops
    some (⟨s, op, stepped.2, stepped.1⟩ :: later)

def accepted (records : List Record) (channel : Channel) : Text :=
  records.flatMap fun r => r.event.accepted channel

def released (records : List Record) (channel : Channel) : Text :=
  records.flatMap fun r => r.event.released channel

/-- A push takes off the front what was revealed, and keeps no more than it must. -/
def Trimmed (r : Record) : Prop :=
  ∀ accepted removed, r.event = .pushed accepted removed →
    r.before.state.reasoning ++ accepted = removed ++ r.after.state.reasoning ∧
      utf8Len removed ≤ r.before.state.reasoningShown ∧
      utf8Len r.after.state.reasoning ≤ max reasoningBytes (r.after.state.unrevealed .reasoning)

/-- The text that an operation brings to a channel. -/
def TuiSink.offer (s : TuiSink) : Op → Option (Channel × Text)
  | .pushReasoning text => some (.reasoning, text)
  | .write bytes => some (.stream, (s.decode bytes).2)
  | .revealChar => none

/-- A text is cut only where it exceeds the bound with the bytes owed. -/
def CutOwed (r : Record) : Prop :=
  ∀ channel text, r.before.offer r.op = some (channel, text) →
    r.event.accepted channel ≠ text →
      bound channel < r.before.state.unrevealed channel + utf8Len text

/-- What a channel accepts is the front of what it was brought. -/
def Offered (r : Record) : Prop :=
  ∀ channel, r.event.accepted channel = [] ∨
    ∃ text, r.before.offer r.op = some (channel, text) ∧ r.event.accepted channel <+: text

/-- Bytes that a call leaves to its caller are beyond the bound as well. -/
def LeftOwed (r : Record) : Prop :=
  ∀ bytes accepted taken, r.op = .write bytes → r.event = .wrote accepted (.ok taken) →
    taken < bytes.length →
      maxStreamBytes < r.before.state.unrevealed .stream + bytes.length

/-- What the reader is owed is kept, over the steps of a run. -/
structure RevealLaw (records : List Record) : Prop where
  boundaries : ∀ r ∈ records, ∀ channel,
    (cut Char.utf8Size (r.after.state.cursor channel) (r.after.state.buffer channel)).isSome = true
  ordered : ∀ done, done <+: records → ∀ channel, released done channel <+: accepted done channel
  trimmed : ∀ r ∈ records, Trimmed r
  offered : ∀ r ∈ records, Offered r
  cutOwed : ∀ r ∈ records, CutOwed r
  leftOwed : ∀ r ∈ records, LeftOwed r

def Revealed (ops : List Op) : Prop :=
  ∃ records, run TuiSink.new ops = some records ∧ RevealLaw records

/-- No revealed byte is charged: the text fits beside the whole buffer, or exceeds the bound with
the bytes owed alone. -/
def Uncharged (s : TuiSink) (op : Op) : Prop :=
  ∀ channel text, s.offer op = some (channel, text) →
    utf8Len (s.state.buffer channel) + utf8Len text ≤ bound channel ∨
      bound channel < s.state.unrevealed channel + utf8Len text

section

variable {s next : TuiSink} {owed : Channel → Text} {op : Op} {event : Event}

theorem step_owing (h : Owing s.state owed) (op : Op) :
    ∃ next event owed', s.step op = some (next, event) ∧ Owing next.state owed' ∧
      (∀ channel, owed channel ++ event.accepted channel =
        event.released channel ++ owed' channel) ∧
      Trimmed ⟨s, op, event, next⟩ := by
  cases op with
  | pushReasoning text =>
    obtain ⟨pushed, removed, owed', hpush, howing, howed, hsplit, hshown, hlen⟩ :=
      push_reasoning_owing h text
    refine ⟨{ s with state := pushed }, .pushed (admitted s.state .reasoning text) removed, owed',
      ?_, howing, ?_, ?_⟩
    · rw [TuiSink.step, hpush, Option.map_some]
    · intro channel
      rw [howed]
      cases channel with
      | reasoning =>
        rw [Function.update_self]
        rfl
      | stream =>
        rw [Function.update_of_ne (by decide)]
        exact List.append_nil _
    · intro accepted taken hevent
      cases hevent
      refine ⟨hsplit, hshown, ?_⟩
      rw [unrevealed_eq howing]
      exact hlen
  | write bytes =>
    obtain ⟨written, result, hwrite, hbuffer, hcursor, -⟩ := write_eq s bytes
    refine ⟨written, .wrote (admitted s.state .stream (s.decode bytes).2) result,
      Function.update owed .stream (owed .stream ++ admitted s.state .stream (s.decode bytes).2),
      ?_, append_owing h .stream _ hbuffer hcursor, ?_, ?_⟩
    · rw [TuiSink.step, hwrite]
    · intro channel
      cases channel with
      | reasoning =>
        rw [Function.update_of_ne (by decide)]
        exact List.append_nil _
      | stream =>
        rw [Function.update_self]
        rfl
    · intro accepted taken hevent
      cases hevent
  | revealChar =>
    obtain ⟨revealed, shown, owed', hreveal, howing, howed⟩ := reveal_char_owing h
    refine ⟨{ s with state := revealed }, .revealed shown, owed', ?_, howing, ?_, ?_⟩
    · rw [TuiSink.step, hreveal, Option.map_some]
    · intro channel
      rw [← howed channel]
      cases channel <;> exact List.append_nil _
    · intro accepted taken hevent
      cases hevent

theorem step_admits (h : Owing s.state owed) (hstep : s.step op = some (next, event))
    {channel : Channel} {text : Text} (hoffer : s.offer op = some (channel, text)) :
    event.accepted channel = admitted s.state channel text := by
  cases op with
  | pushReasoning pushed =>
    obtain ⟨state, removed, owed', hpush, -⟩ := push_reasoning_owing h pushed
    rw [TuiSink.step, hpush] at hstep
    cases hstep
    cases hoffer
    rfl
  | write bytes =>
    obtain ⟨written, result, hwrite, -⟩ := write_eq s bytes
    rw [TuiSink.step, hwrite] at hstep
    cases hstep
    cases hoffer
    rfl
  | revealChar => cases hoffer

theorem step_silent (hstep : s.step op = some (next, event)) {channel : Channel}
    (hoffer : ∀ text, s.offer op ≠ some (channel, text)) : event.accepted channel = [] := by
  cases op with
  | pushReasoning pushed =>
    rw [TuiSink.step] at hstep
    obtain ⟨state, -, heq⟩ := Option.map_eq_some_iff.mp hstep
    cases heq
    cases channel with
    | reasoning => exact absurd rfl (hoffer pushed)
    | stream => rfl
  | write bytes =>
    cases hstep
    cases channel with
    | reasoning => rfl
    | stream => exact absurd rfl (hoffer (s.decode bytes).2)
  | revealChar =>
    rw [TuiSink.step] at hstep
    obtain ⟨state, -, heq⟩ := Option.map_eq_some_iff.mp hstep
    cases heq
    cases channel <;> rfl

theorem step_offered (h : Owing s.state owed) (hstep : s.step op = some (next, event)) :
    Offered ⟨s, op, event, next⟩ := by
  intro channel
  by_cases hoffer : ∃ text, s.offer op = some (channel, text)
  · obtain ⟨text, htext⟩ := hoffer
    refine Or.inr ⟨text, htext, ?_⟩
    show event.accepted channel <+: text
    rw [step_admits h hstep htext]
    exact truncate_prefix text _
  · exact Or.inl (step_silent hstep fun text htext => hoffer ⟨text, htext⟩)

theorem step_cut_iff (h : Owing s.state owed) (hstep : s.step op = some (next, event)) :
    CutOwed ⟨s, op, event, next⟩ ↔ Uncharged s op := by
  have hcut : ∀ channel text, s.offer op = some (channel, text) →
      (event.accepted channel = text ↔
        utf8Len (s.state.buffer channel) + utf8Len text ≤ bound channel) := by
    intro channel text hoffer
    have hheld := h.held channel
    rw [step_admits h hstep hoffer, admitted, truncate_eq_iff]
    omega
  constructor
  · intro howed channel text hoffer
    by_cases hfits : utf8Len (s.state.buffer channel) + utf8Len text ≤ bound channel
    · exact Or.inl hfits
    · have hne : event.accepted channel ≠ text := fun hsame =>
        hfits ((hcut channel text hoffer).mp hsame)
      exact Or.inr (howed channel text hoffer hne)
  · intro huncharged channel text hoffer hne
    rcases huncharged channel text hoffer with hfits | hexceeds
    · exact absurd ((hcut channel text hoffer).mpr hfits) hne
    · exact hexceeds

theorem step_left (hstep : s.step op = some (next, event)) : LeftOwed ⟨s, op, event, next⟩ := by
  intro bytes accepted taken hop hevent hless
  have hop : op = .write bytes := hop
  have hevent : event = .wrote accepted (.ok taken) := hevent
  subst hop
  obtain ⟨written, result, hwrite, -, -, htaken⟩ := write_eq s bytes
  rw [TuiSink.step, hwrite] at hstep
  cases hstep
  cases hevent
  have htaken := htaken taken rfl
  show maxStreamBytes < s.state.unrevealed .stream + bytes.length
  omega

end

theorem run_cons {s next : TuiSink} {op : Op} {event : Event} {ops : List Op}
    (hstep : s.step op = some (next, event)) :
    run s (op :: ops) = (run next ops).map (⟨s, op, event, next⟩ :: ·) := by
  rw [run, hstep]
  simp only [Option.bind_eq_bind, Option.bind_some]
  cases run next ops <;> rfl

theorem run_records {s : TuiSink} {owed : Channel → Text} (h : Owing s.state owed) (ops : List Op) :
    ∃ records, run s ops = some records ∧
      (∀ r ∈ records, r.before.step r.op = some (r.after, r.event) ∧
        ∃ owed', Owing r.before.state owed') ∧
      ∀ done, done <+: records → ∀ channel, ∃ owed',
        owed channel ++ accepted done channel = released done channel ++ owed' := by
  induction ops generalizing s owed with
  | nil =>
    refine ⟨[], rfl, fun r hr => absurd hr List.not_mem_nil, ?_⟩
    intro done hdone channel
    rw [List.prefix_nil.mp hdone]
    exact ⟨owed channel, List.append_nil _⟩
  | cons op ops ih =>
    obtain ⟨next, event, owed', hstep, howing, hqueue, -⟩ := step_owing h op
    obtain ⟨later, hlater, hsteps, hordered⟩ := ih howing
    refine ⟨⟨s, op, event, next⟩ :: later, ?_, ?_, ?_⟩
    · rw [run_cons hstep, hlater, Option.map_some]
    · intro r hr
      rcases List.mem_cons.mp hr with rfl | hr
      · exact ⟨hstep, owed, h⟩
      · exact hsteps r hr
    · intro done hdone channel
      cases done with
      | nil => exact ⟨owed channel, List.append_nil _⟩
      | cons first done =>
        obtain ⟨rfl, htail⟩ := List.cons_prefix_cons.mp hdone
        obtain ⟨last, hlast⟩ := hordered done htail channel
        refine ⟨last, ?_⟩
        calc owed channel ++ accepted (⟨s, op, event, next⟩ :: done) channel
            = owed channel ++ event.accepted channel ++ accepted done channel :=
              (List.append_assoc _ _ _).symm
          _ = event.released channel ++ owed' channel ++ accepted done channel := by
              rw [hqueue channel]
          _ = event.released channel ++ (released done channel ++ last) := by
              rw [List.append_assoc, hlast]
          _ = released (⟨s, op, event, next⟩ :: done) channel ++ last :=
              (List.append_assoc _ _ _).symm

theorem run_law (ops : List Op) :
    ∃ records, run TuiSink.new ops = some records ∧
      (∀ r ∈ records, CutOwed r ↔ Uncharged r.before r.op) ∧
      ((∀ r ∈ records, CutOwed r) → RevealLaw records) := by
  obtain ⟨records, hrun, hsteps, hordered⟩ := run_records (s := TuiSink.new) new_owing ops
  refine ⟨records, hrun, ?_, ?_⟩
  · intro r hr
    obtain ⟨hstep, owed, howing⟩ := hsteps r hr
    exact step_cut_iff howing hstep
  · intro hcut
    constructor
    case cutOwed => exact hcut
    case boundaries =>
      intro r hr channel
      obtain ⟨hstep, owed, howing⟩ := hsteps r hr
      obtain ⟨next, event, owed', hsame, hnext, -⟩ := step_owing howing r.op
      rw [hstep] at hsame
      cases hsame
      obtain ⟨shown, hshown⟩ := owes_cut Char.utf8Size_pos (hnext.owes channel)
      rw [hshown]
      rfl
    case ordered =>
      intro done hdone channel
      obtain ⟨owed', howed⟩ := hordered done hdone channel
      exact ⟨owed', howed.symm⟩
    case trimmed =>
      intro r hr
      obtain ⟨hstep, owed, howing⟩ := hsteps r hr
      obtain ⟨next, event, owed', hsame, -, -, htrimmed⟩ := step_owing howing r.op
      rw [hstep] at hsame
      cases hsame
      exact htrimmed
    case offered =>
      intro r hr
      obtain ⟨hstep, owed, howing⟩ := hsteps r hr
      exact step_offered howing hstep
    case leftOwed =>
      intro r hr
      exact step_left (hsteps r hr).1

/-- The reader gets all that is owed exactly where no text is cut for revealed bytes that its buffer
still holds. -/
theorem reveal_law_iff (ops : List Op) :
    Revealed ops ↔
      ∀ records, run TuiSink.new ops = some records → ∀ r ∈ records, Uncharged r.before r.op := by
  obtain ⟨records, hrun, hcut, hlaw⟩ := run_law ops
  constructor
  · rintro ⟨kept, hkept, hrevealed⟩ others hothers r hr
    rw [hrun] at hkept hothers
    cases hkept
    cases hothers
    exact (hcut r hr).mp (hrevealed.cutOwed r hr)
  · intro huncharged
    exact ⟨records, hrun, hlaw fun r hr => (hcut r hr).mpr (huncharged records hrun r hr)⟩

/-- One character is shown, and then 64 KiB arrive. -/
def caughtUp : List Op :=
  [.pushReasoning ['a'], .revealChar,
    .pushReasoning (List.replicate maxReasoningBufferBytes 'b')]

theorem replicate_len (n : ℕ) : utf8Len (List.replicate n 'b') = n := by
  induction n with
  | zero => rfl
  | succ n ih =>
    rw [List.replicate_succ, utf8Len_cons, ih, Nat.add_comm]
    rfl

/-- The sink that holds the character, before and after its frame. -/
def oneHeld (shown : ℕ) : TuiSink :=
  { TuiSink.new with state := { TuiState.new with reasoning := ['a'], reasoningShown := shown } }

theorem one_pushed :
    TuiSink.new.step (.pushReasoning ['a']) = some (oneHeld 0, .pushed ['a'] []) := by
  have hpush : TuiSink.new.state.pushReasoning ['a'] = some ((oneHeld 0).state, ['a'], []) := by
    decide
  rw [TuiSink.step, hpush]
  rfl

theorem one_revealed :
    (oneHeld 0).step .revealChar = some (oneHeld 1, .revealed (some (.reasoning, 'a'))) := by
  have hreveal : (oneHeld 0).state.revealChar =
      some ((oneHeld 1).state, some (.reasoning, 'a')) := by
    decide
  rw [TuiSink.step, hreveal]
  rfl

theorem one_held_owing : Owing (oneHeld 1).state fun _ => [] where
  owes := by
    intro channel
    cases channel with
    | reasoning => exact ⟨['a'], rfl, rfl⟩
    | stream => exact owes_nil
  held := by
    intro channel
    cases channel <;> decide

theorem caught_up_departs : ¬ Revealed caughtUp := by
  rintro ⟨records, hrun, hlaw⟩
  obtain ⟨next, event, owed', hstep, -⟩ := step_owing one_held_owing
    (.pushReasoning (List.replicate maxReasoningBufferBytes 'b'))
  rw [caughtUp, run_cons one_pushed, run_cons one_revealed, run_cons hstep] at hrun
  rw [← Option.some.inj hrun] at hlaw
  have hcut := hlaw.cutOwed ⟨oneHeld 1, _, event, next⟩
    (List.mem_cons_of_mem _ (List.mem_cons_of_mem _ List.mem_cons_self))
  have huncharged := (step_cut_iff one_held_owing hstep).mp hcut .reasoning _ rfl
  rw [replicate_len] at huncharged
  revert huncharged
  decide

theorem reveal_law_fails : ¬ ∀ ops, Revealed ops := by
  intro h
  exact caught_up_departs (h caughtUp)

end Siralos.Reveal
