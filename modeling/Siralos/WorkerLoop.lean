import Siralos.Text

/-!
# The worker loop

The worker owns the session. It takes one command after another from its channel, sends the events
that answer it, and shares a cancel flag with the frontend. The session answers as it likes; every
command and event carries the number of the command it belongs to, which the program does not see.
-/

set_option autoImplicit false

namespace Siralos.SessionWorker

inductive WorkerCommand where
  | prompt (text : Text)
  | cancel
  | contextReport
  | toolsReport
  | setModel (model : Text)
  | reload
  | modelsFetch
  | rebuild
  | uiPreview (id : Text)
  | panelsReport
  | shutdown
  deriving DecidableEq, Repr

/-- What the events carry is the session's own and is passed on unread. -/
inductive WorkerEvent where
  | session
  | pane
  | report
  | panels
  | failed
  | turnFinished
  | models
  | ready
  | approvalRequest
  | stopped
  deriving DecidableEq, Repr

abbrev TaggedCommand := ℕ × WorkerCommand

abbrev TaggedEvent := ℕ × WorkerEvent

/-- What the worker does when the events of a command are sent. -/
inductive Afterwards where
  | next
  | clearFlag
  | stop
  deriving DecidableEq, Repr

/-- Where the worker stands in its loop, and for which command. -/
inductive Phase where
  | receiving
  | taken (id : ℕ) (command : WorkerCommand)
  | polling (id : ℕ)
  | relayed (id : ℕ)
  | polled (id : ℕ)
  | fetching (id : ℕ)
  | sending (id : ℕ) (events : List WorkerEvent) (afterwards : Afterwards)
  | clearing
  | stopped
  deriving DecidableEq, Repr

structure World where
  commands : List TaggedCommand
  events : List TaggedEvent
  cancelFlag : Bool
  worker : Phase
  issued : ℕ
  deriving DecidableEq, Repr

/-- The session's answers to one step: whether the call succeeds, whether there is a pane. -/
structure Answer where
  ok : Bool
  pane : Bool
  deriving DecidableEq, Repr

def paneEvents (answer : Answer) : List WorkerEvent := if answer.pane then [.pane] else []

/-- The startup pane and header belong to no command. -/
def spawn (answer : Answer) : World where
  commands := []
  events := []
  cancelFlag := false
  worker := .sending 0 (paneEvents answer ++ [.ready]) .next
  issued := 1

namespace World

def post (w : World) (id : ℕ) (event : WorkerEvent) : World :=
  { w with events := w.events ++ [(id, event)] }

/-- `WorkerHandle::send` to a channel with room. -/
def send (w : World) (command : WorkerCommand) : World :=
  { w with commands := w.commands ++ [(w.issued, command)], issued := w.issued + 1 }

/-- `CancelFlag::request` -/
def request (w : World) : World := { w with cancelFlag := true }

def receive (w : World) : World := { w with events := w.events.tail }

end World

def serve (id : ℕ) (cancelFlag : Bool) (answer : Answer) : WorkerCommand → Phase
  | .prompt _ =>
    if cancelFlag then .sending id [.failed, .turnFinished] .clearFlag
    else if answer.ok then .polling id
    else .sending id [.failed, .turnFinished] .clearFlag
  | .cancel => .clearing
  | .contextReport => .sending id [.report] .next
  | .toolsReport => .sending id [.report] .next
  | .uiPreview _ => .sending id [.report] .next
  | .panelsReport => .sending id [.panels] .next
  | .setModel _ => .sending id [if answer.ok then .ready else .failed] .next
  | .modelsFetch =>
    if cancelFlag then .sending id [.failed] .clearFlag else .fetching id
  | .rebuild => .sending id (if answer.ok then [.report, .ready] else [.failed]) .next
  | .reload => .sending id [if answer.ok then .report else .failed, .ready] .next
  | .shutdown => .sending id [.stopped] .stop

/-- One step of the worker; a worker that waits or has stopped stays as it is. -/
def workerStep (w : World) (answer : Answer) : World :=
  match w.worker with
  | .receiving =>
    match w.commands with
    | [] => w
    | (id, command) :: rest => { w with commands := rest, worker := .taken id command }
  | .taken id command => { w with worker := serve id w.cancelFlag answer command }
  | .polling id =>
    if answer.ok then { w.post id .session with worker := .relayed id }
    else
      { w with worker := .sending id (paneEvents answer ++ [.ready, .turnFinished]) .clearFlag }
  | .relayed id => { w with worker := .polled id }
  | .polled id => { (if answer.pane then w.post id .pane else w) with worker := .polling id }
  | .fetching id =>
    { w with worker := .sending id [if answer.ok then .models else .failed] .clearFlag }
  | .sending id (event :: rest) afterwards =>
    { w.post id event with worker := .sending id rest afterwards }
  | .sending _ [] .next => { w with worker := .receiving }
  | .sending _ [] .clearFlag => { w with worker := .clearing }
  | .sending _ [] .stop => { w with worker := .stopped }
  | .clearing => { w with cancelFlag := false, worker := .receiving }
  | .stopped => w

/-- A tool call asks for approval while the session is polled. -/
def approvalStep (w : World) : World :=
  match w.worker with
  | .polling id => w.post id .approvalRequest
  | _ => w

/-- The prompt for which the next step of the worker calls `session.cancel()`. -/
def cancels (w : World) : List ℕ :=
  match w.worker with
  | .taken id (.prompt _) => if w.cancelFlag then [id] else []
  | .relayed id => if w.cancelFlag then [id] else []
  | _ => []

end Siralos.SessionWorker
