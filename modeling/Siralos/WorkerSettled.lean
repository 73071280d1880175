import Siralos.WorkerShutdown

/-!
# What every run of the worker loop settles and flushes

An accepted prompt awaits its settlement until the response is over. At every point of the loop it
is known whether a prompt awaits it and whether the session may be responding; a refused delivery
goes together with the stop bit, which leads to the shutdown.
-/

set_option autoImplicit false

namespace Siralos.SessionWorker.Exit

variable {σ ω : Type}

def awaitStep (awaiting : Bool) : Entry → Bool
  | .call (.sendPrompt accepted) _ => accepted
  | .call .turnSettled _ => false
  | _ => awaiting

/-- The last prompt was accepted, and no settlement followed it. -/
def awaiting (trace : List Entry) : Bool := trace.foldl awaitStep false

theorem awaiting_snoc (trace : List Entry) (entry : Entry) :
    awaiting (trace ++ [entry]) = awaitStep (awaiting trace) entry := by
  rw [awaiting, List.foldl_append]
  rfl

/-- A settlement belongs to an accepted prompt that awaits it, when the response is over; and no
prompt is sent while another awaits its settlement. -/
structure Orderly (trace : List Entry) : Prop where
  settled : ∀ pre r post, trace = pre ++ .call .turnSettled r :: post →
    r = false ∧ awaiting pre = true
  prompted : ∀ pre accepted r post, trace = pre ++ .call (.sendPrompt accepted) r :: post →
    awaiting pre = false

theorem Orderly.snoc {trace : List Entry} {entry : Entry} (h : Orderly trace)
    (hsettled : ∀ r, entry = .call .turnSettled r → r = false ∧ awaiting trace = true)
    (hprompted : ∀ accepted r, entry = .call (.sendPrompt accepted) r →
      awaiting trace = false) : Orderly (trace ++ [entry]) where
  settled pre r post heq := by
    rcases Occurrence.snoc_split heq with ⟨hfound, hpre⟩ | ⟨rest, htrace⟩
    · rw [hpre]
      exact hsettled r hfound.symm
    · exact h.settled pre r rest htrace
  prompted pre accepted r post heq := by
    rcases Occurrence.snoc_split heq with ⟨hfound, hpre⟩ | ⟨rest, htrace⟩
    · rw [hpre]
      exact hprompted accepted r hfound.symm
    · exact h.prompted pre accepted r rest htrace

/-- A call that neither prompts nor settles nor flushes. -/
def Call.Neutral : Call → Prop
  | .sendPrompt _ => False
  | .turnSettled => False
  | .flushResult => False
  | _ => True

def Unflushed (trace : List Entry) : Prop := ∀ r, .call .flushResult r ∉ trace

theorem Unflushed.snoc {trace : List Entry} {entry : Entry} (h : Unflushed trace)
    (hentry : ∀ r, entry ≠ .call .flushResult r) : Unflushed (trace ++ [entry]) := by
  intro r hmem
  rcases List.mem_append.mp hmem with hold | hnew
  · exact h r hold
  · exact hentry r (List.mem_singleton.mp hnew).symm

def Farewell (event : WorkerEvent) : Prop := event = .failed ∨ event = .stopped

/-- One flush, and behind it only the events of the end. A session that did not quiesce was
responding when it was cancelled for the last time; any other is flushed when it does not
respond. -/
structure Flushed (trace : List Entry) (quiesced : Bool) (pre : List Entry) (r : Bool)
    (post : List Entry) : Prop where
  parts : trace = pre ++ .call .flushResult r :: post
  first : Unflushed pre
  behind : ∀ entry ∈ post, ∃ event, entry = .send event ∧ Farewell event
  still : quiesced = true → r = false
  last : quiesced = false → ∃ before, pre = before ++ [.call .cancel true]

/-- Whether the session may be responding, and whether a prompt awaits its settlement. A refused
event is one that meets the stop bit. -/
def Fits : Point → Bool → Bool → Bool → Prop
  | .receiving, _, responding, awaiting => responding = false ∧ awaiting = false
  | .taken _, _, responding, awaiting => responding = false ∧ awaiting = false
  | .serving _, _, responding, awaiting => responding = false ∧ awaiting = false
  | .polling, _, _, awaiting => awaiting = true
  | .relayed, _, _, awaiting => awaiting = true
  | .relayedPane, _, _, awaiting => awaiting = true
  | .settling, stop, responding, awaiting => awaiting = true ∧ (responding = true → stop = true)
  | .settle, _, responding, awaiting => awaiting = true ∧ responding = false
  | .stopping, _, responding, awaiting => awaiting = responding
  | .cancelling, _, responding, awaiting => awaiting = true ∧ responding = true
  | .draining _, _, _, awaiting => awaiting = true
  | .drainPoll _, _, _, awaiting => awaiting = true
  | .drainIdle _, _, _, awaiting => awaiting = true
  | .drained, _, responding, awaiting => awaiting = true ∧ responding = false
  | .unquiet, _, responding, awaiting => awaiting = true ∧ responding = true
  | .flushing, _, responding, awaiting => responding = false ∧ awaiting = false
  | .sending _ next fail, stop, responding, awaiting =>
    Fits next stop responding awaiting ∧ Fits fail true responding awaiting
  | .terminal _ outcome, _, _, awaiting => awaiting = !outcome.quiesced
  | .stopped outcome, _, _, awaiting => awaiting = !outcome.quiesced
  | _, stop, responding, awaiting => awaiting = responding ∧ (responding = true → stop = true)

theorem fits_stop {point : Point} {stop responding awaiting : Bool}
    (h : Fits point stop responding awaiting) : Fits point true responding awaiting := by
  induction point with
  | sending event next fail hnext hfail => exact ⟨hnext h.1, h.2⟩
  | settling => exact ⟨h.1, fun _ => rfl⟩
  | openPane => exact ⟨h.1, fun _ => rfl⟩
  | openReady => exact ⟨h.1, fun _ => rfl⟩
  | top => exact ⟨h.1, fun _ => rfl⟩
  | announce => exact ⟨h.1, fun _ => rfl⟩
  | settledPane => exact ⟨h.1, fun _ => rfl⟩
  | settledReady => exact ⟨h.1, fun _ => rfl⟩
  | clearing => exact ⟨h.1, fun _ => rfl⟩
  | _ => exact h

theorem fits_tell {event : WorkerEvent} {next : Point} {stop responding awaiting : Bool}
    (h : Fits next stop responding awaiting) : Fits (tell event next) stop responding awaiting :=
  ⟨h, fits_stop h⟩

def Ahead : Point → Prop
  | .sending _ next fail => Ahead next ∧ Ahead fail
  | .terminal _ _ => False
  | .stopped _ => False
  | _ => True

def Flushing (point : Point) (trace : List Entry) : Prop :=
  (Ahead point ∧ Unflushed trace) ∨
    (∃ events outcome pre r post, point = .terminal events outcome ∧
      (∀ event ∈ events, Farewell event) ∧ Flushed trace outcome.quiesced pre r post) ∨
    ∃ outcome pre r post, point = .stopped outcome ∧ Flushed trace outcome.quiesced pre r post

structure Sound (S : Session σ ω) (w : World σ) : Prop where
  fits : Fits w.point w.stop (S.isResponding w.session) (awaiting w.trace)
  orderly : Orderly w.trace
  flushing : Flushing w.point w.trace

section Steps

variable {S : Session σ ω} {w : World σ}

theorem Sound.goto {point : Point} (h : Sound S w) (hflush : Unflushed w.trace)
    (hahead : Ahead point)
    (hfits : Fits point w.stop (S.isResponding w.session) (awaiting w.trace)) :
    Sound S (w.goto point) := ⟨hfits, h.orderly, .inl ⟨hahead, hflush⟩⟩

theorem neutral_await {c : Call} (hc : c.Neutral) (r awaiting : Bool) :
    awaitStep awaiting (.call c r) = awaiting := by
  cases c with
  | sendPrompt accepted => cases hc
  | turnSettled => cases hc
  | _ => rfl

theorem Sound.calls {c : Call} {session : σ} {point : Point} (h : Sound S w)
    (hflush : Unflushed w.trace) (hc : c.Neutral) (hahead : Ahead point)
    (hfits : Fits point w.stop (S.isResponding session) (awaiting w.trace)) :
    Sound S (w.calls S c session point) where
  fits := by
    change Fits point w.stop (S.isResponding session) (awaiting (w.trace ++ [_]))
    rw [awaiting_snoc, neutral_await hc]
    exact hfits
  orderly := by
    apply h.orderly.snoc
    · intro r heq
      cases heq
      cases hc
    · intro accepted r heq
      cases heq
      cases hc
  flushing := by
    refine .inl ⟨hahead, hflush.snoc ?_⟩
    intro r heq
    cases heq
    cases hc

theorem Sound.prompts {accepted : Bool} {session : σ} {point : Point} (h : Sound S w)
    (hflush : Unflushed w.trace) (hidle : awaiting w.trace = false) (hahead : Ahead point)
    (hfits : Fits point w.stop (S.isResponding session) accepted) :
    Sound S (w.calls S (.sendPrompt accepted) session point) where
  fits := by
    change Fits point w.stop (S.isResponding session) (awaiting (w.trace ++ [_]))
    rw [awaiting_snoc]
    exact hfits
  orderly := h.orderly.snoc (fun r heq => by cases heq) fun _ _ _ => hidle
  flushing := .inl ⟨hahead, hflush.snoc fun r heq => by cases heq⟩

theorem Sound.settles {session : σ} {point : Point} (h : Sound S w)
    (hflush : Unflushed w.trace) (hawaits : awaiting w.trace = true)
    (hover : S.isResponding w.session = false) (hahead : Ahead point)
    (hfits : Fits point w.stop (S.isResponding session) false) :
    Sound S (w.calls S .turnSettled session point) where
  fits := by
    change Fits point w.stop (S.isResponding session) (awaiting (w.trace ++ [_]))
    rw [awaiting_snoc]
    exact hfits
  orderly := by
    apply h.orderly.snoc
    · intro r heq
      cases heq
      exact ⟨hover, hawaits⟩
    · intro accepted r heq
      cases heq
  flushing := .inl ⟨hahead, hflush.snoc fun r heq => by cases heq⟩

theorem Sound.idles {c : Call} {session : σ} {point : Point} (h : Sound S w)
    (hflush : Unflushed w.trace) (hno : awaiting w.trace = false) (hc : c.Neutral)
    (hover : S.isResponding session = false) (hahead : Ahead point)
    (hfits : ∀ stop, Fits point stop false false) : Sound S (w.calls S c session point) := by
  apply h.calls hflush hc hahead
  rw [hover, hno]
  exact hfits w.stop

theorem fits_top (stop : Bool) : Fits .top stop false false := ⟨rfl, fun h => by cases h⟩

theorem fits_announce (stop : Bool) : Fits .announce stop false false :=
  ⟨rfl, fun h => by cases h⟩

theorem fits_clearing (stop : Bool) : Fits .clearing stop false false :=
  ⟨rfl, fun h => by cases h⟩

theorem fits_failed (stop : Bool) : Fits turnFailed stop false false :=
  fits_tell (fits_tell (fits_clearing stop))

theorem serve_sound (hS : S.Lawful) (h : Sound S w) (hflush : Unflushed w.trace)
    (hover : S.isResponding w.session = false) (hno : awaiting w.trace = false) (m : Moment ω)
    (command : WorkerCommand) : Sound S (serve S m w command) := by
  have hfailed : Ahead turnFailed := by simp [turnFailed, tell, Ahead]
  have hreport : Sound S (w.calls S .report w.session (tell .report .top)) :=
    h.idles hflush hno trivial hover ⟨trivial, trivial⟩ fun stop => fits_tell (fits_top stop)
  cases command with
  | prompt text =>
    rw [serve]
    split
    · exact h.idles hflush hno trivial (hS.cancelled _ _ hover) hfailed fits_failed
    · cases haccepted : (S.sendPrompt m.outside text w.session).1 with
      | true =>
        simp only [haccepted, if_true]
        exact h.prompts hflush hno trivial rfl
      | false =>
        have hrefused := hS.refused _ _ _ haccepted hover
        simp only [haccepted, Bool.false_eq_true, if_false]
        apply h.prompts hflush hno hfailed
        rw [hrefused]
        exact fits_failed w.stop
  | cancel =>
    rw [serve]
    exact h.idles hflush hno trivial (hS.cancelled _ _ hover) trivial fits_clearing
  | contextReport => exact hreport
  | toolsReport => exact hreport
  | uiPreview id => exact hreport
  | panelsReport =>
    rw [serve]
    exact h.idles hflush hno trivial hover ⟨trivial, trivial⟩ fun stop => fits_tell (fits_top stop)
  | setModel model =>
    have hset := hS.modelSet m.outside model _ hover
    rw [serve]
    cases hok : (S.setModel m.outside model w.session).1 with
    | true =>
      simp only [hok, if_true]
      exact h.idles hflush hno trivial hset trivial fits_announce
    | false =>
      simp only [hok, Bool.false_eq_true, if_false]
      exact h.idles hflush hno trivial hset ⟨trivial, trivial⟩ fun stop => fits_tell (fits_top stop)
  | modelsFetch =>
    rw [serve]
    split
    · have hfits : Fits (tell .failed .clearing) w.stop (S.isResponding w.session)
          (awaiting w.trace) := by
        rw [hover, hno]
        exact fits_tell (fits_clearing w.stop)
      exact h.goto hflush ⟨trivial, trivial⟩ hfits
    · exact h.idles hflush hno trivial (hS.fetched _ _ hover) ⟨trivial, trivial⟩ fun stop =>
        fits_tell (fits_clearing stop)
  | rebuild =>
    have hrebuilt := hS.rebuilt m.outside _ hover
    rw [serve]
    cases hok : (S.rebuild m.outside w.session).1 with
    | true =>
      simp only [hok, if_true]
      exact h.idles hflush hno trivial hrebuilt ⟨trivial, trivial⟩ fun stop =>
        fits_tell (fits_announce stop)
    | false =>
      simp only [hok, Bool.false_eq_true, if_false]
      exact h.idles hflush hno trivial hrebuilt ⟨trivial, trivial⟩ fun stop =>
        fits_tell (fits_top stop)
  | reload =>
    rw [serve]
    exact h.idles hflush hno trivial (hS.reloaded _ _ hover) ⟨trivial, trivial⟩ fun stop =>
      fits_tell (fits_announce stop)
  | shutdown =>
    have hfits : Fits .stopping w.stop (S.isResponding w.session) (awaiting w.trace) := by
      rw [hover, hno]
      rfl
    exact h.goto hflush trivial hfits

theorem send_sound (h : Sound S w) (hflush : Unflushed w.trace) (m : Moment ω)
    {event : WorkerEvent} {next fail : Point} (hpoint : w.point = .sending event next fail)
    (hahead : Ahead (.sending event next fail)) : Sound S (trySend m w event next fail) := by
  have hfits := h.fits
  rw [hpoint] at hfits
  have horderly : Orderly (w.trace ++ [.send event]) :=
    h.orderly.snoc (fun r heq => by cases heq) fun accepted r heq => by cases heq
  have hunflushed : Unflushed (w.trace ++ [.send event]) := hflush.snoc fun r heq => by cases heq
  have hawait : awaiting (w.trace ++ [.send event]) = awaiting w.trace := awaiting_snoc _ _
  rw [trySend]
  by_cases hstop : w.stop = true
  · rw [if_pos hstop]
    apply h.goto hflush hahead.2
    rw [hstop]
    exact hfits.2
  · rw [if_neg hstop]
    cases m.delivery with
    | accepted =>
      refine ⟨?_, horderly, .inl ⟨hahead.1, hunflushed⟩⟩
      change Fits next w.stop _ (awaiting (w.trace ++ [.send event]))
      rw [hawait]
      exact hfits.1
    | full =>
      refine ⟨?_, horderly, .inl ⟨?_, hunflushed⟩⟩
      · change Fits w.point w.stop _ (awaiting (w.trace ++ [.send event]))
        rw [hawait, hpoint]
        exact hfits
      · change Ahead w.point
        rw [hpoint]
        exact hahead
    | expired =>
      refine ⟨?_, horderly, .inl ⟨hahead.2, hunflushed⟩⟩
      change Fits fail true _ (awaiting (w.trace ++ [.send event]))
      rw [hawait]
      exact hfits.2
    | disconnected =>
      refine ⟨?_, horderly, .inl ⟨hahead.2, hunflushed⟩⟩
      change Fits fail true _ (awaiting (w.trace ++ [.send event]))
      rw [hawait]
      exact hfits.2

theorem Flushed.send {trace pre post : List Entry} {quiesced r : Bool}
    (h : Flushed trace quiesced pre r post) {event : WorkerEvent} (hevent : Farewell event) :
    Flushed (trace ++ [.send event]) quiesced pre r (post ++ [.send event]) where
  parts := by rw [h.parts]; simp
  first := h.first
  behind entry hentry := by
    rcases List.mem_append.mp hentry with hold | hnew
    · exact h.behind entry hold
    · exact ⟨event, List.mem_singleton.mp hnew, hevent⟩
  still := h.still
  last := h.last

theorem terminal_sound (h : Sound S w) (m : Moment ω) {events : List WorkerEvent}
    {outcome : WorkerStopOutcome} (hpoint : w.point = .terminal events outcome) :
    Sound S (act S m w) := by
  have hfits := h.fits
  rw [hpoint] at hfits
  obtain ⟨hevents, pre, r, post, hflushed⟩ : (∀ event ∈ events, Farewell event) ∧
      ∃ pre r post, Flushed w.trace outcome.quiesced pre r post := by
    rcases h.flushing with ⟨hahead, -⟩ | ⟨others, other, pre, r, post, heq, hevents, hflushed⟩ |
      ⟨other, pre, r, post, heq, -⟩
    · rw [hpoint] at hahead
      cases hahead
    · rw [hpoint] at heq
      cases heq
      exact ⟨hevents, pre, r, post, hflushed⟩
    · rw [hpoint] at heq
      cases heq
  cases events with
  | nil =>
    rw [act, hpoint]
    exact ⟨hfits, h.orderly, .inr (.inr ⟨outcome, pre, r, post, rfl, hflushed⟩)⟩
  | cons event rest =>
    have hsent := hflushed.send (hevents event List.mem_cons_self)
    have horderly : Orderly (w.trace ++ [.send event]) :=
      h.orderly.snoc (fun r heq => by cases heq) fun accepted r heq => by cases heq
    have hawait : awaiting (w.trace ++ [.send event]) = awaiting w.trace := awaiting_snoc _ _
    have hgone : Sound S (World.goto { w with trace := w.trace ++ [.send event] }
        (.terminal rest outcome)) := by
      refine ⟨?_, horderly, .inr (.inl ⟨rest, outcome, pre, r, _, rfl, ?_, hsent⟩)⟩
      · change awaiting (w.trace ++ [.send event]) = !outcome.quiesced
        rw [hawait]
        exact hfits
      · exact fun later hlater => hevents later (List.mem_cons_of_mem _ hlater)
    rw [act, hpoint]
    simp only [trySendTerminal]
    cases m.delivery with
    | full =>
      refine ⟨?_, horderly, .inr (.inl ⟨event :: rest, outcome, pre, r, _, hpoint, hevents, hsent⟩)⟩
      change Fits w.point w.stop _ (awaiting (w.trace ++ [.send event]))
      rw [hawait, hpoint]
      exact hfits
    | accepted => exact hgone
    | expired => exact hgone
    | disconnected => exact hgone

theorem terminal_farewell (outcome : WorkerStopOutcome) :
    ∀ event ∈ terminalEvents outcome, Farewell event := by
  intro event hevent
  cases outcome <;> simp [terminalEvents] at hevent <;> simp [Farewell, hevent]

theorem flush_awaits (awaits r : Bool) : awaitStep awaits (.call .flushResult r) = awaits := rfl

theorem flushed_quiesced (flush : Except FlushError FlushOutcome) :
    (flushedOutcome flush).quiesced = true := by
  rcases flush with error | (_ | _ | _) <;> rfl

theorem flush_sound {session : σ} {outcome : WorkerStopOutcome} (h : Orderly w.trace)
    (hflush : Unflushed w.trace) (hawaits : awaiting w.trace = !outcome.quiesced)
    (hstill : outcome.quiesced = true → S.isResponding w.session = false)
    (hlast : outcome.quiesced = false → ∃ before, w.trace = before ++ [.call .cancel true]) :
    Sound S (w.calls S .flushResult session (.terminal (terminalEvents outcome) outcome)) where
  fits := by
    change awaiting (w.trace ++ [_]) = !outcome.quiesced
    rw [awaiting_snoc, flush_awaits]
    exact hawaits
  orderly := h.snoc (fun r heq => by cases heq) fun accepted r heq => by cases heq
  flushing := .inr (.inl ⟨_, outcome, w.trace, _, [], rfl, terminal_farewell outcome,
    ⟨rfl, hflush, by simp, hstill, hlast⟩⟩)

theorem unquiet_sound (h : Sound S w) (hflush : Unflushed w.trace) (m : Moment ω)
    (hpoint : w.point = .unquiet) : Sound S (act S m w) := by
  have hfits := h.fits
  rw [hpoint] at hfits
  have horderly : Orderly (w.trace ++ [.call .cancel (S.isResponding w.session)]) :=
    h.orderly.snoc (fun r heq => by cases heq) fun accepted r heq => by cases heq
  have hunflushed : Unflushed (w.trace ++ [.call .cancel (S.isResponding w.session)]) :=
    hflush.snoc fun r heq => by cases heq
  have hawaits : awaiting (w.trace ++ [.call .cancel (S.isResponding w.session)]) = true := by
    rw [awaiting_snoc]
    exact hfits.1
  simp only [act, hpoint]
  apply flush_sound horderly hunflushed hawaits
  · intro hquiesced
    cases hquiesced
  · intro _
    refine ⟨w.trace, ?_⟩
    rw [← hfits.2]
    rfl

theorem Flushing.ahead {point : Point} {trace : List Entry} (h : Flushing point trace)
    (hterminal : ∀ events outcome, point ≠ .terminal events outcome)
    (hstopped : ∀ outcome, point ≠ .stopped outcome) : Ahead point ∧ Unflushed trace := by
  rcases h with hahead | ⟨events, outcome, pre, r, post, heq, -⟩ | ⟨outcome, pre, r, post, heq, -⟩
  · exact hahead
  · exact absurd heq (hterminal events outcome)
  · exact absurd heq (hstopped outcome)

theorem Sound.at_point {point : Point} (h : Sound S w) (hpoint : w.point = point)
    (hterminal : ∀ events outcome, point ≠ .terminal events outcome)
    (hstopped : ∀ outcome, point ≠ .stopped outcome) :
    Fits point w.stop (S.isResponding w.session) (awaiting w.trace) ∧ Ahead point ∧
      Unflushed w.trace := by
  have hfits := h.fits
  have hflushing := h.flushing
  rw [hpoint] at hfits hflushing
  exact ⟨hfits, hflushing.ahead hterminal hstopped⟩

theorem open_pane_sound (h : Sound S w) (m : Moment ω) (hpoint : w.point = .openPane) :
    Sound S (act S m w) := by
  obtain ⟨hfits, -, hflush⟩ := h.at_point hpoint (by simp) (by simp)
  simp only [act, hpoint]
  split
  · exact h.calls hflush trivial ⟨trivial, trivial⟩ ⟨hfits, hfits.1⟩
  · exact h.calls hflush trivial trivial hfits

theorem open_ready_sound (h : Sound S w) (m : Moment ω) (hpoint : w.point = .openReady) :
    Sound S (act S m w) := by
  obtain ⟨hfits, -, hflush⟩ := h.at_point hpoint (by simp) (by simp)
  simp only [act, hpoint]
  exact h.calls hflush trivial ⟨trivial, trivial⟩ ⟨hfits, hfits.1⟩

theorem top_sound (h : Sound S w) (m : Moment ω) (hpoint : w.point = .top) :
    Sound S (act S m w) := by
  obtain ⟨hfits, -, hflush⟩ := h.at_point hpoint (by simp) (by simp)
  simp only [act, hpoint]
  by_cases hstop : w.stop = true
  · simp only [if_pos hstop]
    exact h.goto hflush trivial hfits.1
  · have hover : S.isResponding w.session = false := by
      by_contra hresponding
      exact hstop (hfits.2 (by simpa using hresponding))
    simp only [if_neg hstop]
    exact h.goto hflush trivial ⟨hover, hfits.1.trans hover⟩

theorem receiving_sound (h : Sound S w) (m : Moment ω) (hpoint : w.point = .receiving) :
    Sound S (act S m w) := by
  obtain ⟨hfits, -, hflush⟩ := h.at_point hpoint (by simp) (by simp)
  have htop : Fits .top w.stop (S.isResponding w.session) (awaiting w.trace) := by
    rw [hfits.1, hfits.2]
    exact fits_top w.stop
  simp only [act, hpoint]
  cases m.received with
  | command command => exact h.goto hflush trivial hfits
  | timeout => exact h.goto hflush trivial htop
  | closed => exact h.goto hflush trivial htop.1

theorem taken_sound (h : Sound S w) (m : Moment ω) {command : WorkerCommand}
    (hpoint : w.point = .taken command) : Sound S (act S m w) := by
  obtain ⟨hfits, -, hflush⟩ := h.at_point hpoint (by simp) (by simp)
  have hstopping : Fits .stopping w.stop (S.isResponding w.session) (awaiting w.trace) :=
    hfits.2.trans hfits.1.symm
  simp only [act, hpoint]
  split
  · exact h.goto hflush trivial hstopping
  · exact h.goto hflush trivial hfits

theorem announce_sound (h : Sound S w) (m : Moment ω) (hpoint : w.point = .announce) :
    Sound S (act S m w) := by
  obtain ⟨hfits, -, hflush⟩ := h.at_point hpoint (by simp) (by simp)
  simp only [act, hpoint]
  exact h.calls hflush trivial ⟨trivial, trivial⟩ ⟨hfits, fits_stop hfits⟩

theorem polling_sound (hS : S.Lawful) (h : Sound S w) (m : Moment ω) (hpoint : w.point = .polling) :
    Sound S (act S m w) := by
  obtain ⟨hfits, -, hflush⟩ := h.at_point hpoint (by simp) (by simp)
  simp only [act, hpoint]
  cases hfound : (S.pollEvent m.outside w.session).1 with
  | true =>
    simp only [if_true]
    exact h.calls hflush trivial ⟨trivial, trivial⟩ ⟨hfits, hfits, fun _ => rfl⟩
  | false =>
    have hover := hS.ended m.outside w.session hfound
    have hsettling : Fits .settling w.stop
        (S.isResponding (S.pollEvent m.outside w.session).2) (awaiting w.trace) := by
      rw [hover]
      exact ⟨hfits, fun h => by cases h⟩
    simp only [Bool.false_eq_true, if_false]
    exact h.calls hflush trivial trivial hsettling

theorem relayed_sound (h : Sound S w) (m : Moment ω) (hpoint : w.point = .relayed) :
    Sound S (act S m w) := by
  obtain ⟨hfits, -, hflush⟩ := h.at_point hpoint (by simp) (by simp)
  simp only [act, hpoint]
  split
  · exact h.calls hflush trivial trivial hfits
  · exact h.goto hflush trivial hfits

theorem relayed_pane_sound (h : Sound S w) (m : Moment ω) (hpoint : w.point = .relayedPane) :
    Sound S (act S m w) := by
  obtain ⟨hfits, -, hflush⟩ := h.at_point hpoint (by simp) (by simp)
  simp only [act, hpoint]
  split
  · exact h.calls hflush trivial ⟨trivial, trivial⟩ ⟨hfits, hfits⟩
  · exact h.calls hflush trivial trivial hfits

theorem settling_sound (h : Sound S w) (m : Moment ω) (hpoint : w.point = .settling) :
    Sound S (act S m w) := by
  obtain ⟨hfits, -, hflush⟩ := h.at_point hpoint (by simp) (by simp)
  simp only [act, hpoint]
  cases hresponding : S.isResponding w.session with
  | true =>
    have hpane : Fits .settledPane w.stop (S.isResponding w.session) (awaiting w.trace) :=
      ⟨hfits.1.trans hresponding.symm, hfits.2⟩
    simp only [if_true]
    exact h.calls hflush trivial trivial hpane
  | false =>
    simp only [Bool.false_eq_true, if_false]
    exact h.calls hflush trivial trivial ⟨hfits.1, hresponding⟩

theorem settle_sound (hS : S.Lawful) (h : Sound S w) (m : Moment ω) (hpoint : w.point = .settle) :
    Sound S (act S m w) := by
  obtain ⟨hfits, -, hflush⟩ := h.at_point hpoint (by simp) (by simp)
  have hover := hS.settled m.outside w.session hfits.2
  have hpane : Fits .settledPane w.stop
      (S.isResponding (S.turnSettled m.outside w.session)) false := by
    rw [hover]
    exact ⟨rfl, fun h => by cases h⟩
  simp only [act, hpoint]
  exact h.settles hflush hfits.1 hfits.2 trivial hpane

theorem settled_pane_sound (h : Sound S w) (m : Moment ω) (hpoint : w.point = .settledPane) :
    Sound S (act S m w) := by
  obtain ⟨hfits, -, hflush⟩ := h.at_point hpoint (by simp) (by simp)
  simp only [act, hpoint]
  split
  · exact h.calls hflush trivial ⟨trivial, trivial⟩ ⟨hfits, fits_stop hfits⟩
  · exact h.calls hflush trivial trivial hfits

theorem settled_ready_sound (h : Sound S w) (m : Moment ω) (hpoint : w.point = .settledReady) :
    Sound S (act S m w) := by
  obtain ⟨hfits, -, hflush⟩ := h.at_point hpoint (by simp) (by simp)
  have hclearing : Fits .clearing w.stop (S.isResponding w.session) (awaiting w.trace) := hfits
  simp only [act, hpoint]
  exact h.calls hflush trivial ⟨⟨trivial, trivial⟩, trivial, trivial⟩
    (fits_tell (fits_tell hclearing))

theorem clearing_sound (h : Sound S w) (m : Moment ω) (hpoint : w.point = .clearing) :
    Sound S (act S m w) := by
  obtain ⟨hfits, -, hflush⟩ := h.at_point hpoint (by simp) (by simp)
  simp only [act, hpoint]
  exact ⟨hfits, h.orderly, .inl ⟨trivial, hflush⟩⟩

theorem stopping_sound (h : Sound S w) (m : Moment ω) (hpoint : w.point = .stopping) :
    Sound S (act S m w) := by
  obtain ⟨hfits, -, hflush⟩ := h.at_point hpoint (by simp) (by simp)
  simp only [act, hpoint]
  cases hresponding : S.isResponding w.session with
  | true =>
    simp only [if_true]
    exact h.calls hflush trivial trivial ⟨hfits.trans hresponding, hresponding⟩
  | false =>
    simp only [Bool.false_eq_true, if_false]
    exact h.calls hflush trivial trivial ⟨hresponding, hfits.trans hresponding⟩

theorem cancelling_sound (h : Sound S w) (m : Moment ω) (hpoint : w.point = .cancelling) :
    Sound S (act S m w) := by
  obtain ⟨hfits, -, hflush⟩ := h.at_point hpoint (by simp) (by simp)
  simp only [act, hpoint]
  exact h.calls hflush trivial trivial hfits.1

theorem draining_sound (h : Sound S w) (m : Moment ω) {drained : ℕ}
    (hpoint : w.point = .draining drained) : Sound S (act S m w) := by
  obtain ⟨hfits, -, hflush⟩ := h.at_point hpoint (by simp) (by simp)
  simp only [act, hpoint]
  cases hresponding : S.isResponding w.session with
  | true =>
    simp only [if_true]
    split
    · exact h.calls hflush trivial trivial ⟨hfits, hresponding⟩
    · exact h.calls hflush trivial trivial hfits
  | false =>
    simp only [Bool.false_eq_true, if_false]
    exact h.calls hflush trivial trivial ⟨hfits, hresponding⟩

theorem drain_poll_sound (h : Sound S w) (m : Moment ω) {drained : ℕ}
    (hpoint : w.point = .drainPoll drained) : Sound S (act S m w) := by
  obtain ⟨hfits, -, hflush⟩ := h.at_point hpoint (by simp) (by simp)
  simp only [act, hpoint]
  split
  · exact h.calls hflush trivial trivial hfits
  · exact h.calls hflush trivial trivial hfits

theorem drain_idle_sound (h : Sound S w) (m : Moment ω) {drained : ℕ}
    (hpoint : w.point = .drainIdle drained) : Sound S (act S m w) := by
  obtain ⟨hfits, -, hflush⟩ := h.at_point hpoint (by simp) (by simp)
  simp only [act, hpoint]
  cases hresponding : S.isResponding w.session with
  | true =>
    simp only [if_true]
    exact h.calls hflush trivial trivial hfits
  | false =>
    simp only [Bool.false_eq_true, if_false]
    exact h.calls hflush trivial trivial ⟨hfits, hresponding⟩

theorem drained_sound (hS : S.Lawful) (h : Sound S w) (m : Moment ω) (hpoint : w.point = .drained) :
    Sound S (act S m w) := by
  obtain ⟨hfits, -, hflush⟩ := h.at_point hpoint (by simp) (by simp)
  simp only [act, hpoint]
  exact h.settles hflush hfits.1 hfits.2 trivial ⟨hS.settled m.outside w.session hfits.2, rfl⟩

theorem flushing_sound (h : Sound S w) (m : Moment ω) (hpoint : w.point = .flushing) :
    Sound S (act S m w) := by
  obtain ⟨hfits, -, hflush⟩ := h.at_point hpoint (by simp) (by simp)
  have hquiesced := flushed_quiesced (S.flushResult m.outside w.session).1
  simp only [act, hpoint]
  apply flush_sound h.orderly hflush
  · rw [hquiesced]
    exact hfits.2
  · exact fun _ => hfits.1
  · intro hquiet
    rw [hquiesced] at hquiet
    cases hquiet

theorem act_sound (hS : S.Lawful) (h : Sound S w) (m : Moment ω) : Sound S (act S m w) := by
  cases hpoint : w.point with
  | terminal events outcome => exact terminal_sound h m hpoint
  | stopped outcome =>
    rw [act, hpoint]
    exact h
  | unquiet =>
    obtain ⟨-, -, hflush⟩ := h.at_point hpoint (by simp) (by simp)
    exact unquiet_sound h hflush m hpoint
  | sending event next fail =>
    obtain ⟨-, hahead, hflush⟩ := h.at_point hpoint (by simp) (by simp)
    simp only [act, hpoint]
    exact send_sound h hflush m hpoint hahead
  | serving command =>
    obtain ⟨hfits, -, hflush⟩ := h.at_point hpoint (by simp) (by simp)
    simp only [act, hpoint]
    exact serve_sound hS h hflush hfits.1 hfits.2 m command
  | openPane => exact open_pane_sound h m hpoint
  | openReady => exact open_ready_sound h m hpoint
  | top => exact top_sound h m hpoint
  | receiving => exact receiving_sound h m hpoint
  | taken command => exact taken_sound h m hpoint
  | announce => exact announce_sound h m hpoint
  | polling => exact polling_sound hS h m hpoint
  | relayed => exact relayed_sound h m hpoint
  | relayedPane => exact relayed_pane_sound h m hpoint
  | settling => exact settling_sound h m hpoint
  | settle => exact settle_sound hS h m hpoint
  | settledPane => exact settled_pane_sound h m hpoint
  | settledReady => exact settled_ready_sound h m hpoint
  | clearing => exact clearing_sound h m hpoint
  | stopping => exact stopping_sound h m hpoint
  | cancelling => exact cancelling_sound h m hpoint
  | draining drained => exact draining_sound h m hpoint
  | drainPoll drained => exact drain_poll_sound h m hpoint
  | drainIdle drained => exact drain_idle_sound h m hpoint
  | drained => exact drained_sound hS h m hpoint
  | flushing => exact flushing_sound h m hpoint

theorem step_sound (hS : S.Lawful) (h : Sound S w) (label : Label ω) :
    Sound S (step S w label) := by
  cases label with
  | worker m => exact act_sound hS h m
  | raiseStop => exact ⟨fits_stop h.fits, h.orderly, h.flushing⟩
  | requestCancel => exact ⟨h.fits, h.orderly, h.flushing⟩

theorem run_sound (hS : S.Lawful) (h : Sound S w) (labels : List (Label ω)) :
    Sound S (run S labels w) := by
  induction labels generalizing w with
  | nil => exact h
  | cons label labels ih => exact ih (step_sound hS h label)

theorem start_sound {session : σ} (hidle : S.isResponding session = false) :
    Sound S (start session) where
  fits := ⟨hidle.symm, fun h => by rw [start, hidle] at h; cases h⟩
  orderly := ⟨fun pre r post h => by simp [start] at h,
    fun pre accepted r post h => by simp [start] at h⟩
  flushing := .inl ⟨trivial, fun r h => by cases h⟩

end Steps

theorem Flushed.unique {trace pre post others more : List Entry} {quiesced r other : Bool}
    (h : Flushed trace quiesced pre r post)
    (heq : trace = others ++ .call .flushResult other :: more) : others = pre ∧ more = post := by
  rw [h.parts] at heq
  rcases List.append_eq_append_iff.mp heq with ⟨rest, hothers, htail⟩ | ⟨rest, hpre, htail⟩
  · cases rest with
    | nil =>
      rw [List.append_nil] at hothers
      cases htail
      exact ⟨hothers, rfl⟩
    | cons entry rest =>
      rw [List.cons_append] at htail
      have hmem : Entry.call .flushResult other ∈ post := by
        rw [(List.cons.inj htail).2]
        simp
      obtain ⟨event, hevent, -⟩ := h.behind _ hmem
      cases hevent
  · cases rest with
    | nil =>
      rw [List.append_nil] at hpre
      cases htail
      exact ⟨hpre.symm, rfl⟩
    | cons entry rest =>
      rw [List.cons_append] at htail
      have hmem : Entry.call .flushResult other ∈ pre := by
        rw [hpre, (List.cons.inj htail).1]
        simp
      exact absurd hmem (h.first other)

def isSettlement : Entry → Bool
  | .call .turnSettled _ => true
  | _ => false

def isAcceptance : Entry → Bool
  | .call (.sendPrompt true) _ => true
  | _ => false

theorem Orderly.before {trace : List Entry} {entry : Entry} (h : Orderly (trace ++ [entry])) :
    Orderly trace where
  settled pre r post heq := h.settled pre r (post ++ [entry]) (by rw [heq]; simp)
  prompted pre accepted r post heq :=
    h.prompted pre accepted r (post ++ [entry]) (by rw [heq]; simp)

/-- One settlement for each accepted prompt, save one that awaits it. -/
theorem Orderly.count {trace : List Entry} (h : Orderly trace) :
    trace.countP isSettlement + (awaiting trace).toNat = trace.countP isAcceptance := by
  induction trace using List.reverseRecOn with
  | nil => rfl
  | append_singleton trace entry ih =>
    have hbefore := ih h.before
    rw [List.countP_append, List.countP_append, awaiting_snoc]
    rcases entry with ⟨c, r⟩ | event
    · cases c with
      | sendPrompt accepted =>
        rw [h.prompted trace accepted r [] rfl, Bool.toNat_false] at hbefore
        cases accepted <;> simp [isSettlement, isAcceptance, awaitStep] <;> omega
      | turnSettled =>
        rw [(h.settled trace r [] rfl).2, Bool.toNat_true] at hbefore
        simpa [isSettlement, isAcceptance, awaitStep] using hbefore
      | _ => simpa [isSettlement, isAcceptance, awaitStep] using hbefore
    · simpa [isSettlement, isAcceptance, awaitStep] using hbefore

/-- What the loop has called and sent: a settlement belongs to an accepted prompt that awaits it
and is called when the response is over, no prompt is sent while one awaits its settlement, and
behind a flush there are only the events of the end. A loop that has ended flushed once, while the
session did not respond, and settled every accepted prompt; unless the session did not quiesce,
which was responding still when it was cancelled for the last time: then it settled all but the
last. -/
theorem loop_settles (S : Session σ ω) (hS : S.Lawful) (session : σ)
    (hidle : S.isResponding session = false) (labels : List (Label ω)) :
    Orderly (run S labels (start session)).trace ∧
    (∀ pre r post, (run S labels (start session)).trace = pre ++ .call .flushResult r :: post →
      Unflushed pre ∧ ∀ entry ∈ post, ∃ event, entry = .send event ∧ Farewell event) ∧
    ∀ outcome, (run S labels (start session)).point = .stopped outcome →
      (∃ pre r post, Flushed (run S labels (start session)).trace outcome.quiesced pre r post) ∧
      (run S labels (start session)).trace.countP isSettlement + (!outcome.quiesced).toNat =
        (run S labels (start session)).trace.countP isAcceptance := by
  have hsound := run_sound hS (start_sound hidle) labels
  refine ⟨hsound.orderly, ?_, ?_⟩
  · intro pre r post heq
    rcases hsound.flushing with ⟨-, hunflushed⟩ | ⟨_, outcome, first, r', last, -, -, hflushed⟩ |
      ⟨outcome, first, r', last, -, hflushed⟩
    · exact absurd (by rw [heq]; simp) (hunflushed r)
    · obtain ⟨hpre, hpost⟩ := hflushed.unique heq
      rw [hpre, hpost]
      exact ⟨hflushed.first, hflushed.behind⟩
    · obtain ⟨hpre, hpost⟩ := hflushed.unique heq
      rw [hpre, hpost]
      exact ⟨hflushed.first, hflushed.behind⟩
  · intro outcome hpoint
    have hawaiting := hsound.fits
    rw [hpoint] at hawaiting
    refine ⟨?_, ?_⟩
    · rcases hsound.flushing with ⟨hahead, -⟩ | ⟨_, other, pre, r, post, heq, -⟩ |
        ⟨other, pre, r, post, heq, hflushed⟩
      · rw [hpoint] at hahead
        cases hahead
      · rw [hpoint] at heq
        cases heq
      · rw [hpoint] at heq
        cases heq
        exact ⟨pre, r, post, hflushed⟩
    · have hcount := hsound.orderly.count
      rwa [show awaiting _ = !outcome.quiesced from hawaiting] at hcount

/-- A session whose answer has three events; each cancellation takes one of them away. -/
def countdown : Session ℕ Unit where
  isResponding n := decide (0 < n)
  pane _ _ := false
  sendPrompt _ _ _ := (true, 3)
  pollEvent _ n := (decide (0 < n), n - 1)
  cancel _ n := n - 1
  turnSettled _ n := n
  setModel _ _ n := (true, n)
  reload _ n := (true, n)
  rebuild _ n := (true, n)
  fetchModels _ n := (true, n)
  flushResult _ n := (.ok .noRecorder, n)

theorem countdown_lawful : countdown.Lawful where
  ended o n h := by
    have hzero : n = 0 := by simpa [countdown] using h
    simp [countdown, hzero]
  refused o text n h := by cases h
  cancelled o n h := by
    have hzero : n = 0 := by simpa [countdown] using h
    simp [countdown, hzero]
  settled o n h := h
  modelSet o model n h := h
  reloaded o n h := h
  rebuilt o n h := h
  fetched o n h := h

def works (n : ℕ) : List (Label Unit) :=
  List.replicate n (.worker ⟨(), .timeout, .accepted, false⟩)

def receives (command : WorkerCommand) : List (Label Unit) :=
  [.worker ⟨(), .command command, .accepted, false⟩]

def settledRun : List (Label Unit) :=
  works 4 ++ receives (.prompt []) ++ works 23 ++ receives .shutdown ++ works 6

/-- The stop bit meets the first event, and the drain is given no time. -/
def unsettledRun : List (Label Unit) :=
  works 4 ++ receives (.prompt []) ++ works 2 ++ [Label.raiseStop] ++ works 11 ++
    [Label.worker ⟨(), .timeout, .accepted, true⟩] ++ works 4

theorem loop_settles_sample :
    Orderly (run countdown settledRun (start 0)).trace ∧
    (run countdown settledRun (start 0)).trace.countP isSettlement = 1 := by
  have hsample := loop_settles countdown countdown_lawful 0 rfl settledRun
  have hcount := (hsample.2.2 (.flushed .noRecorder) rfl).2
  exact ⟨hsample.1, hcount.trans (by decide)⟩

/-- The second cancellation ends the answer, which nothing settles. -/
theorem ended_unsettled :
    countdown.Lawful ∧ countdown.isResponding 0 = false ∧
    (run countdown unsettledRun (start 0)).point =
      .stopped (.quiesceFailed (.ok .noRecorder)) ∧
    countdown.isResponding (run countdown unsettledRun (start 0)).session = false ∧
    (run countdown unsettledRun (start 0)).trace.countP isAcceptance = 1 ∧
    (run countdown unsettledRun (start 0)).trace.countP isSettlement = 0 :=
  ⟨countdown_lawful, rfl, rfl, rfl, by decide, by decide⟩

end Siralos.SessionWorker.Exit
