import Siralos.Occurrence
import Siralos.WorkerLoop

/-!
# How the worker loop ends

The loop as it calls its session: every call and every event it tries to send goes to a trace.
The stop bit and the cancel flag may be raised at any time, and a delivery may be refused at any
time; the session answers as it likes.
-/

set_option autoImplicit false

namespace Siralos.SessionWorker.Exit

inductive FlushOutcome where
  | legacy
  | noRecorder
  | persisted (recordings : ℕ)
  deriving DecidableEq, Repr

inductive FlushError where
  | persistence (message : Text)
  deriving DecidableEq, Repr

inductive WorkerStopOutcome where
  | flushed (outcome : FlushOutcome)
  | flushFailed (error : FlushError)
  | flushEvidenceMissing
  | quiesceFailed (flush : Except FlushError FlushOutcome)

def WorkerStopOutcome.quiesced : WorkerStopOutcome → Bool
  | .quiesceFailed _ => false
  | _ => true

/-- The methods of `WorkerSession` that the loop calls; `ω` is what else may decide an answer. The
reports and the status only read the session. -/
structure Session (σ ω : Type) where
  isResponding : σ → Bool
  pane : ω → σ → Bool
  sendPrompt : ω → Text → σ → Bool × σ
  pollEvent : ω → σ → Bool × σ
  cancel : ω → σ → σ
  turnSettled : ω → σ → σ
  setModel : ω → Text → σ → Bool × σ
  reload : ω → σ → Bool × σ
  rebuild : ω → σ → Bool × σ
  fetchModels : ω → σ → Bool × σ
  flushResult : ω → σ → Except FlushError FlushOutcome × σ

/-- `poll_event` returns nothing only when the response is over, and only an accepted prompt
begins one. -/
structure Session.Lawful {σ ω : Type} (S : Session σ ω) : Prop where
  ended : ∀ o s, (S.pollEvent o s).1 = false → S.isResponding (S.pollEvent o s).2 = false
  refused : ∀ o text s, (S.sendPrompt o text s).1 = false → S.isResponding s = false →
    S.isResponding (S.sendPrompt o text s).2 = false
  cancelled : ∀ o s, S.isResponding s = false → S.isResponding (S.cancel o s) = false
  settled : ∀ o s, S.isResponding s = false → S.isResponding (S.turnSettled o s) = false
  modelSet : ∀ o model s, S.isResponding s = false →
    S.isResponding (S.setModel o model s).2 = false
  reloaded : ∀ o s, S.isResponding s = false → S.isResponding (S.reload o s).2 = false
  rebuilt : ∀ o s, S.isResponding s = false → S.isResponding (S.rebuild o s).2 = false
  fetched : ∀ o s, S.isResponding s = false → S.isResponding (S.fetchModels o s).2 = false

inductive Call where
  | isResponding
  | pane
  | status
  | report
  | panelsReport
  | sendPrompt (accepted : Bool)
  | pollEvent
  | cancel
  | turnSettled
  | setModel
  | reload
  | rebuild
  | fetchModels
  | flushResult
  deriving DecidableEq, Repr

/-- A call, with whether the session was responding, or an attempt to send an event. -/
inductive Entry where
  | call (c : Call) (responding : Bool)
  | send (event : WorkerEvent)
  deriving DecidableEq, Repr

inductive Point where
  | openPane
  | openReady
  | top
  | receiving
  | taken (command : WorkerCommand)
  | serving (command : WorkerCommand)
  | announce
  | polling
  | relayed
  | relayedPane
  | settling
  | settle
  | settledPane
  | settledReady
  | clearing
  | stopping
  | cancelling
  | draining (drained : ℕ)
  | drainPoll (drained : ℕ)
  | drainIdle (drained : ℕ)
  | drained
  | unquiet
  | flushing
  /-- An event to send, and where the worker goes on when it is sent and when it is refused. -/
  | sending (event : WorkerEvent) (next fail : Point)
  | terminal (events : List WorkerEvent) (outcome : WorkerStopOutcome)
  | stopped (outcome : WorkerStopOutcome)

inductive Received where
  | command (command : WorkerCommand)
  | timeout
  | closed
  deriving DecidableEq, Repr

/-- What `try_send` meets; `expired` is a full queue after the deadline. -/
inductive Delivery where
  | accepted
  | full
  | expired
  | disconnected
  deriving DecidableEq, Repr

structure Moment (ω : Type) where
  outside : ω
  received : Received
  delivery : Delivery
  expired : Bool

structure World (σ : Type) where
  point : Point
  session : σ
  stop : Bool
  cancelFlag : Bool
  trace : List Entry

variable {σ ω : Type}

def start (session : σ) : World σ := ⟨.openPane, session, false, false, []⟩

namespace World

def goto (w : World σ) (point : Point) : World σ := { w with point := point }

/-- One call of the session, which leaves it as `session`. -/
def calls (S : Session σ ω) (w : World σ) (c : Call) (session : σ) (point : Point) : World σ :=
  { w with
    point := point
    session := session
    trace := w.trace ++ [.call c (S.isResponding w.session)] }

end World

def maxShutdownDrainEvents : ℕ := 256

/-- `let _ = events.send(event)` -/
def tell (event : WorkerEvent) (next : Point) : Point := .sending event next next

def turnFailed : Point := tell .failed (tell .turnFinished .clearing)

def serve (S : Session σ ω) (m : Moment ω) (w : World σ) : WorkerCommand → World σ
  | .prompt text =>
    if w.cancelFlag then w.calls S .cancel (S.cancel m.outside w.session) turnFailed
    else
      let (accepted, session) := S.sendPrompt m.outside text w.session
      w.calls S (.sendPrompt accepted) session (if accepted then .polling else turnFailed)
  | .cancel => w.calls S .cancel (S.cancel m.outside w.session) .clearing
  | .contextReport => w.calls S .report w.session (tell .report .top)
  | .toolsReport => w.calls S .report w.session (tell .report .top)
  | .uiPreview _ => w.calls S .report w.session (tell .report .top)
  | .panelsReport => w.calls S .panelsReport w.session (tell .panels .top)
  | .setModel model =>
    let (ok, session) := S.setModel m.outside model w.session
    w.calls S .setModel session (if ok then .announce else tell .failed .top)
  | .modelsFetch =>
    if w.cancelFlag then w.goto (tell .failed .clearing)
    else
      let (ok, session) := S.fetchModels m.outside w.session
      w.calls S .fetchModels session (tell (if ok then .models else .failed) .clearing)
  | .rebuild =>
    let (ok, session) := S.rebuild m.outside w.session
    w.calls S .rebuild session (if ok then tell .report .announce else tell .failed .top)
  | .reload =>
    let (ok, session) := S.reload m.outside w.session
    w.calls S .reload session (tell (if ok then .report else .failed) .announce)
  | .shutdown => w.goto .stopping

/-- `StopAwareEvents::send`, one attempt at a time. -/
def trySend (m : Moment ω) (w : World σ) (event : WorkerEvent) (next fail : Point) : World σ :=
  if w.stop then w.goto fail
  else
    let tried := { w with trace := w.trace ++ [.send event] }
    match m.delivery with
    | .accepted => tried.goto next
    | .full => tried
    | .expired => { tried with stop := true, point := fail }
    | .disconnected => { tried with stop := true, point := fail }

/-- What follows the flush of a session that is not responding. -/
def flushedOutcome : Except FlushError FlushOutcome → WorkerStopOutcome
  | .ok .legacy => .flushEvidenceMissing
  | .ok outcome => .flushed outcome
  | .error error => .flushFailed error

def terminalEvents : WorkerStopOutcome → List WorkerEvent
  | .flushed _ => [.stopped]
  | _ => [.failed, .stopped]

/-- `StopAwareEvents::send_terminal`, one attempt at a time: it gives up, but never stops. -/
def trySendTerminal (m : Moment ω) (w : World σ) (event : WorkerEvent) (rest : List WorkerEvent)
    (outcome : WorkerStopOutcome) : World σ :=
  let tried := { w with trace := w.trace ++ [.send event] }
  match m.delivery with
  | .full => tried
  | _ => tried.goto (.terminal rest outcome)

def act (S : Session σ ω) (m : Moment ω) (w : World σ) : World σ :=
  match w.point with
  | .openPane =>
    w.calls S .pane w.session
      (if S.pane m.outside w.session then .sending .pane .openReady .stopping else .openReady)
  | .openReady => w.calls S .status w.session (.sending .ready .top .stopping)
  | .top => w.goto (if w.stop then .stopping else .receiving)
  | .receiving =>
    match m.received with
    | .command command => w.goto (.taken command)
    | .timeout => w.goto .top
    | .closed => w.goto .stopping
  | .taken command =>
    w.goto (if w.stop && command != .shutdown then .stopping else .serving command)
  | .serving command => serve S m w command
  | .announce => w.calls S .status w.session (tell .ready .top)
  | .polling =>
    let (found, session) := S.pollEvent m.outside w.session
    w.calls S .pollEvent session (if found then .sending .session .relayed .settling else .settling)
  | .relayed =>
    if w.cancelFlag then w.calls S .cancel (S.cancel m.outside w.session) .relayedPane
    else w.goto .relayedPane
  | .relayedPane =>
    w.calls S .pane w.session
      (if S.pane m.outside w.session then tell .pane .polling else .polling)
  | .settling =>
    w.calls S .isResponding w.session
      (if S.isResponding w.session then .settledPane else .settle)
  | .settle => w.calls S .turnSettled (S.turnSettled m.outside w.session) .settledPane
  | .settledPane =>
    w.calls S .pane w.session
      (if S.pane m.outside w.session then tell .pane .settledReady else .settledReady)
  | .settledReady =>
    w.calls S .status w.session (tell .ready (tell .turnFinished .clearing))
  | .clearing => { w with cancelFlag := false, point := .top }
  | .stopping =>
    w.calls S .isResponding w.session
      (if S.isResponding w.session then .cancelling else .flushing)
  | .cancelling => w.calls S .cancel (S.cancel m.outside w.session) (.draining 0)
  | .draining drained =>
    w.calls S .isResponding w.session
      (if S.isResponding w.session then
        (if maxShutdownDrainEvents ≤ drained ∨ m.expired = true then .unquiet
          else .drainPoll drained)
      else .drained)
  | .drainPoll drained =>
    let (found, session) := S.pollEvent m.outside w.session
    w.calls S .pollEvent session (if found then .draining (drained + 1) else .drainIdle drained)
  | .drainIdle drained =>
    w.calls S .isResponding w.session
      (if S.isResponding w.session then .draining drained else .drained)
  | .drained => w.calls S .turnSettled (S.turnSettled m.outside w.session) .flushing
  | .unquiet =>
    let again := w.calls S .cancel (S.cancel m.outside w.session) .unquiet
    let (flush, session) := S.flushResult m.outside again.session
    again.calls S .flushResult session
      (.terminal (terminalEvents (.quiesceFailed flush)) (.quiesceFailed flush))
  | .flushing =>
    let (flush, session) := S.flushResult m.outside w.session
    w.calls S .flushResult session
      (.terminal (terminalEvents (flushedOutcome flush)) (flushedOutcome flush))
  | .sending event next fail => trySend m w event next fail
  | .terminal (event :: rest) outcome => trySendTerminal m w event rest outcome
  | .terminal [] outcome => w.goto (.stopped outcome)
  | .stopped _ => w

inductive Label (ω : Type) where
  | worker (moment : Moment ω)
  | raiseStop
  | requestCancel

def step (S : Session σ ω) (w : World σ) : Label ω → World σ
  | .worker m => act S m w
  | .raiseStop => { w with stop := true }
  | .requestCancel => { w with cancelFlag := true }

def run (S : Session σ ω) : List (Label ω) → World σ → World σ
  | [], w => w
  | label :: labels, w => run S labels (step S w label)

end Siralos.SessionWorker.Exit
