import Siralos.WorkerLoop

/-!
# Relaying an answer

The frontend sends a command and pumps the event channel until an event ends the relay. Events name
no command: a relay answers truthfully when nothing it heeds is left over from an earlier command.
-/

set_option autoImplicit false

namespace Siralos.SessionWorker

inductive Until where
  | turnFinished
  | answer
  | applied
  | status
  deriving DecidableEq, Repr

def untilOf : WorkerCommand → Until
  | .prompt _ => .turnFinished
  | .setModel _ => .status
  | .reload => .applied
  | _ => .answer

structure ReplyEffects where
  answer : Option TaggedEvent
  appliedAnswerSeen : Bool
  appliedReadySeen : Bool
  deriving DecidableEq, Repr

namespace ReplyEffects

def none : ReplyEffects := ⟨Option.none, false, false⟩

def answered (effects : ReplyEffects) (entry : TaggedEvent) : ReplyEffects :=
  { effects with answer := some entry }

/-- The report or the failure of an applied command. -/
def answeredApplied (effects : ReplyEffects) (entry : TaggedEvent) : ReplyEffects :=
  { effects with answer := some entry, appliedAnswerSeen := true }

/-- The header of an applied command; it is the answer while there is no other. -/
def readyApplied (effects : ReplyEffects) (entry : TaggedEvent) : ReplyEffects :=
  { effects with
    answer := if effects.appliedAnswerSeen then effects.answer else some entry
    appliedReadySeen := true }

end ReplyEffects

/-- `pump_worker` at one event: what it collects and whether it stops. -/
def pumpEvent (mode : Until) (effects : ReplyEffects) (entry : TaggedEvent) :
    ReplyEffects × Bool :=
  match entry.2, mode with
  | .ready, .applied => (effects.readyApplied entry, effects.appliedAnswerSeen)
  | .ready, .status => (effects.answered entry, true)
  | .ready, _ => (effects, false)
  | .pane, _ => (effects, false)
  | .turnFinished, _ => (effects, true)
  | .stopped, _ => (effects, true)
  | .approvalRequest, _ => (effects, true)
  | .report, .applied => (effects.answeredApplied entry, effects.appliedReadySeen)
  | .report, .turnFinished => (effects, false)
  | .report, _ => (effects.answered entry, true)
  | .failed, .applied => (effects.answeredApplied entry, effects.appliedReadySeen)
  | .failed, .turnFinished => (effects, false)
  | .failed, _ => (effects.answered entry, true)
  | .models, .turnFinished => (effects, false)
  | .models, _ => (effects.answered entry, true)
  | .panels, .answer => (effects.answered entry, true)
  | .panels, .status => (effects.answered entry, true)
  | .panels, _ => (effects, false)
  | .session, _ => (effects, false)

def answersOf : WorkerCommand → List WorkerEvent
  | .prompt _ => [.session, .pane, .approvalRequest, .failed, .ready, .turnFinished]
  | .cancel => []
  | .contextReport => [.report]
  | .toolsReport => [.report]
  | .uiPreview _ => [.report]
  | .panelsReport => [.panels]
  | .setModel _ => [.ready, .failed]
  | .modelsFetch => [.models, .failed]
  | .rebuild => [.report, .ready, .failed]
  | .reload => [.report, .failed, .ready]
  | .shutdown => [.stopped]

/-- The events that a relay collects or stops at. -/
def heeds (mode : Until) : WorkerEvent → Bool
  | .session => false
  | .pane => false
  | .turnFinished => true
  | .stopped => true
  | .approvalRequest => true
  | .ready => mode = .applied ∨ mode = .status
  | .report => mode ≠ .turnFinished
  | .failed => mode ≠ .turnFinished
  | .models => mode ≠ .turnFinished
  | .panels => mode = .answer ∨ mode = .status

def ignores (mode : Until) (command : WorkerCommand) : Bool :=
  (answersOf command).all fun event => !heeds mode event

theorem pump_unheeded {mode : Until} (effects : ReplyEffects) {entry : TaggedEvent}
    (h : heeds mode entry.2 = false) : pumpEvent mode effects entry = (effects, false) := by
  obtain ⟨id, event⟩ := entry
  cases event <;> cases mode <;> first | rfl | (simp [heeds] at h)

theorem pump_answer (mode : Until) (effects : ReplyEffects) (entry : TaggedEvent) :
    (pumpEvent mode effects entry).1.answer = effects.answer ∨
      (pumpEvent mode effects entry).1.answer = some entry := by
  have hready : (effects.readyApplied entry).answer = effects.answer ∨
      (effects.readyApplied entry).answer = some entry := by
    unfold ReplyEffects.readyApplied
    dsimp only
    split_ifs
    · exact Or.inl rfl
    · exact Or.inr rfl
  obtain ⟨id, event⟩ := entry
  cases event <;> cases mode <;> first | exact Or.inl rfl | exact Or.inr rfl | exact hready

theorem pump_ready_seen {mode : Until} {effects : ReplyEffects} {entry : TaggedEvent}
    (h : (pumpEvent mode effects entry).1.appliedReadySeen = true) :
    effects.appliedReadySeen = true ∨ entry.2 = .ready := by
  obtain ⟨id, event⟩ := entry
  cases event <;> cases mode <;> first | exact Or.inl h | exact Or.inr rfl

theorem pump_applied_stops {effects : ReplyEffects} {entry : TaggedEvent}
    (hstop : (pumpEvent .applied effects entry).2 = true)
    (hkind : entry.2 = .report ∨ entry.2 = .failed ∨ entry.2 = .ready) :
    effects.appliedReadySeen = true ∨ entry.2 = .ready := by
  obtain ⟨id, event⟩ := entry
  rcases hkind with rfl | rfl | rfl
  · exact Or.inl hstop
  · exact Or.inl hstop
  · exact Or.inr rfl

structure Relay where
  id : ℕ
  command : WorkerCommand
  effects : ReplyEffects
  deriving DecidableEq, Repr

/-- A relay that returned, with the event that ended it. -/
structure Returned where
  id : ℕ
  command : WorkerCommand
  answer : Option TaggedEvent
  last : TaggedEvent
  deriving DecidableEq, Repr

/-- The frontend's thread and what has happened: the headers it applied, the commands for which
`set_model` succeeded, and the relays that returned. -/
structure RelayRun where
  world : World
  relay : Option Relay
  midCancel : Bool
  applied : List TaggedEvent
  adopted : List ℕ
  returned : List Returned
  deriving DecidableEq, Repr

inductive RelayLabel where
  | work (answer : Answer)
  | approve
  | ask (command : WorkerCommand)
  | requestCancel
  | enqueueCancel
  | receive
  | timeout
  deriving DecidableEq, Repr

/-- The command for which the next step of the worker finds `session.set_model` to succeed. -/
def adopts (w : World) (answer : Answer) : List ℕ :=
  match w.worker with
  | .taken id (.setModel _) => if answer.ok then [id] else []
  | _ => []

def applyStatus (applied : List TaggedEvent) (entry : TaggedEvent) : List TaggedEvent :=
  if entry.2 = .ready then applied ++ [entry] else applied

namespace RelayRun

def start (answer : Answer) : RelayRun := ⟨spawn answer, none, false, [], [], []⟩

def work (s : RelayRun) (answer : Answer) : RelayRun :=
  { s with
    world := workerStep s.world answer
    adopted := s.adopted ++ adopts s.world answer }

/-- The commands that the dispatcher relays, one after another. -/
def mayAsk (s : RelayRun) (command : WorkerCommand) : Bool :=
  !s.midCancel && s.relay.isNone && command != .cancel && command != .shutdown

def ask (s : RelayRun) (command : WorkerCommand) : RelayRun :=
  { s with
    world := s.world.send command
    relay := some ⟨s.world.issued, command, .none⟩ }

/-- A frame drain outside of relays: the event is applied and dropped. -/
def drain (s : RelayRun) (entry : TaggedEvent) : RelayRun :=
  { s with
    world := s.world.receive
    applied := applyStatus s.applied entry }

/-- A turn that asks for approval is relayed on after the verdict; a worker that stopped is an error
and no answer. -/
def pump (s : RelayRun) (relay : Relay) (entry : TaggedEvent) : RelayRun :=
  let (effects, stop) := pumpEvent (untilOf relay.command) relay.effects entry
  let s := s.drain entry
  if entry.2 = .stopped then { s with relay := none }
  else if entry.2 = .approvalRequest ∧ untilOf relay.command = .turnFinished then
    { s with relay := some { relay with effects := .none } }
  else if stop then
    { s with
      relay := none
      returned := s.returned ++ [⟨relay.id, relay.command, effects.answer, entry⟩] }
  else { s with relay := some { relay with effects := effects } }

/-- A step that is not enabled changes nothing. -/
def step (s : RelayRun) : RelayLabel → RelayRun
  | .work answer => s.work answer
  | .approve => { s with world := approvalStep s.world }
  | .ask command => if s.mayAsk command then s.ask command else s
  | .requestCancel =>
    if s.midCancel then s else { s with world := s.world.request, midCancel := true }
  | .enqueueCancel =>
    if s.midCancel then { s with world := s.world.send .cancel, midCancel := false } else s
  | .receive =>
    match s.world.events, s.midCancel, s.relay with
    | entry :: _, false, none => s.drain entry
    | entry :: _, false, some relay => s.pump relay entry
    | _, _, _ => s
  | .timeout =>
    match s.relay with
    | some relay =>
      if untilOf relay.command = .turnFinished then s else { s with relay := none }
    | none => s

def run : List RelayLabel → RelayRun → RelayRun
  | [], s => s
  | label :: labels, s => run labels (s.step label)

/-- A returned relay was ended and answered by its own command. -/
structure Attributed (s : RelayRun) (r : Returned) : Prop where
  last : r.last.1 = r.id
  answer : ∀ entry, r.answer = some entry → entry.1 = r.id
  switched : ∀ model, r.command = .setModel model → ∀ entry, r.answer = some entry →
    entry.2 = .ready → r.id ∈ s.adopted
  reloaded : r.command = .reload → (r.id, .ready) ∈ s.applied

/-- The worker is done but for events that a relay of the mode ignores. -/
def silent (mode : Until) : Phase → Bool
  | .receiving => true
  | .clearing => true
  | .stopped => true
  | .taken _ command => ignores mode command
  | .fetching _ => ignores mode .modelsFetch
  | .sending _ events _ => events.all fun event => !heeds mode event
  | _ => false

/-- Nothing that a new relay would heed is left over from earlier commands. -/
structure Quiet (mode : Until) (w : World) : Prop where
  events : ∀ entry ∈ w.events, heeds mode entry.2 = false
  commands : ∀ entry ∈ w.commands, ignores mode entry.2 = true
  worker : silent mode w.worker = true

/-- A relay starts only when nothing is left over. -/
def Settled (s : RelayRun) : RelayLabel → Prop
  | .ask command => s.mayAsk command = true → Quiet (untilOf command) s.world
  | _ => True

def SettledRun : List RelayLabel → RelayRun → Prop
  | [], _ => True
  | label :: labels, s => s.Settled label ∧ SettledRun labels (s.step label)

end RelayRun

/-- An event of the relayed command, of a kind that the command answers with. -/
structure Own (number : ℕ) (asked : WorkerCommand) (adopted : List ℕ) (entry : TaggedEvent) : Prop where
  id : entry.1 = number
  reload : asked = .reload → entry.2 = .report ∨ entry.2 = .failed ∨ entry.2 = .ready
  switched : ∀ model, asked = .setModel model → entry.2 = .ready → entry.1 ∈ adopted

/-- The worker serves the relayed command, or answers another with what the relay ignores. -/
def Serves (number : ℕ) (asked : WorkerCommand) (adopted : List ℕ) : Phase → Prop
  | .receiving => True
  | .taken id command =>
    ignores (untilOf asked) command = true ∨ (id = number ∧ command = asked)
  | .polling id => id = number ∧ ∃ text, asked = .prompt text
  | .relayed id => id = number ∧ ∃ text, asked = .prompt text
  | .polled id => id = number ∧ ∃ text, asked = .prompt text
  | .fetching id =>
    ignores (untilOf asked) .modelsFetch = true ∨ (id = number ∧ asked = .modelsFetch)
  | .sending id events _ => ∀ event ∈ events, heeds (untilOf asked) event = true →
    Own number asked adopted (id, event)
  | .clearing => True
  | .stopped => True

/-- Whatever the relay heeds, now or later, is its own. -/
structure OwnWorld (number : ℕ) (asked : WorkerCommand) (adopted : List ℕ) (w : World) : Prop where
  events : ∀ entry ∈ w.events, heeds (untilOf asked) entry.2 = true →
    Own number asked adopted entry
  commands : ∀ entry ∈ w.commands,
    ignores (untilOf asked) entry.2 = true ∨ entry = (number, asked)
  worker : Serves number asked adopted w.worker

theorem Own.mono {number : ℕ} {asked : WorkerCommand} {adopted : List ℕ} {entry : TaggedEvent} (more : List ℕ)
    (h : Own number asked adopted entry) : Own number asked (adopted ++ more) entry where
  id := h.id
  reload := h.reload
  switched model hmodel hready := List.mem_append_left _ (h.switched model hmodel hready)

theorem own_other {number : ℕ} {asked : WorkerCommand} (adopted : List ℕ) (event : WorkerEvent)
    (hreload : asked ≠ .reload) (hmodel : ∀ model, asked ≠ .setModel model) :
    Own number asked adopted (number, event) where
  id := rfl
  reload h := absurd h hreload
  switched model h := absurd h (hmodel model)

theorem prompt_own {number : ℕ} {asked : WorkerCommand} {text : Text} (h : asked = .prompt text)
    (adopted : List ℕ) (event : WorkerEvent) : Own number asked adopted (number, event) := by
  apply own_other adopted event
  · rw [h]
    simp
  · rw [h]
    simp

theorem serve_serves (number : ℕ) (asked : WorkerCommand) (adopted : List ℕ) (w : World) (answer : Answer)
    (hworker : w.worker = .taken number asked) :
    Serves number asked (adopted ++ adopts w answer)
      (serve number w.cancelFlag answer asked) := by
  cases asked with
  | prompt text =>
    have hown : ∀ event, Own number (.prompt text) (adopted ++ adopts w answer) (number, event) :=
      fun event => prompt_own rfl _ event
    rw [serve]
    split_ifs
    · exact fun event _ _ => hown event
    · exact ⟨rfl, text, rfl⟩
    · exact fun event _ _ => hown event
  | cancel => trivial
  | modelsFetch =>
    rw [serve]
    split_ifs
    · exact fun event _ _ => own_other _ event (by simp) (by simp)
    · exact Or.inr ⟨rfl, rfl⟩
  | setModel model =>
    intro event hevent _
    have hadopts : event = .ready → number ∈ adopts w answer := by
      rintro rfl
      rw [adopts, hworker]
      cases hok : answer.ok with
      | true => simp
      | false => simp [hok] at hevent
    exact ⟨rfl, by simp, fun _ _ hready => List.mem_append_right _ (hadopts hready)⟩
  | reload =>
    intro event hevent _
    refine ⟨rfl, fun _ => ?_, by simp⟩
    cases hok : answer.ok <;> simp [hok] at hevent <;> rcases hevent with rfl | rfl <;> simp
  | _ => exact fun event _ _ => own_other _ event (by simp) (by simp)

theorem ignores_heeds {mode : Until} {command : WorkerCommand} {event : WorkerEvent}
    (h : ignores mode command = true) (hevent : event ∈ answersOf command) :
    ¬ heeds mode event = true := by
  have hnot := List.all_eq_true.mp h event hevent
  simpa using hnot

theorem prompt_heeded (mode : Until) (text : Text) : ¬ ignores mode (.prompt text) = true := by
  intro h
  exact ignores_heeds h (show WorkerEvent.turnFinished ∈ _ by simp [answersOf]) rfl

theorem serve_ignored (number : ℕ) (asked : WorkerCommand) (adopted : List ℕ) (id : ℕ)
    (cancelFlag : Bool) (answer : Answer) {command : WorkerCommand}
    (h : ignores (untilOf asked) command = true) :
    Serves number asked adopted (serve id cancelFlag answer command) := by
  have hsilent : ∀ (events : List WorkerEvent) (afterwards : Afterwards),
      events ⊆ answersOf command →
        Serves number asked adopted (.sending id events afterwards) := by
    intro events afterwards hsubset event hevent hheeds
    exact absurd hheeds (ignores_heeds h (hsubset hevent))
  cases command with
  | prompt text => exact absurd h (prompt_heeded _ text)
  | cancel => trivial
  | modelsFetch =>
    rw [serve]
    split_ifs
    · exact hsilent _ _ (by simp [answersOf])
    · exact Or.inl h
  | setModel model =>
    apply hsilent
    cases answer.ok <;> simp [answersOf]
  | rebuild =>
    apply hsilent
    cases answer.ok <;> simp [answersOf]
  | reload =>
    apply hsilent
    cases answer.ok <;> simp [answersOf]
  | _ => exact hsilent _ _ (by simp [answersOf])

theorem serves_mono {number : ℕ} {asked : WorkerCommand} {adopted : List ℕ} (more : List ℕ) {phase : Phase}
    (h : Serves number asked adopted phase) : Serves number asked (adopted ++ more) phase := by
  cases phase with
  | sending id events afterwards =>
    intro event hevent hheeds
    exact (h event hevent hheeds).mono more
  | _ => exact h

theorem OwnWorld.mono {number : ℕ} {asked : WorkerCommand} {adopted : List ℕ} {w : World} (more : List ℕ)
    (h : OwnWorld number asked adopted w) : OwnWorld number asked (adopted ++ more) w where
  events entry hentry hheeds := (h.events entry hentry hheeds).mono more
  commands := h.commands
  worker := serves_mono more h.worker

theorem post_own {number : ℕ} {asked : WorkerCommand} {adopted : List ℕ} {w : World} (h : OwnWorld number asked adopted w)
    {id : ℕ} {event : WorkerEvent}
    (hown : heeds (untilOf asked) event = true → Own number asked adopted (id, event))
    {phase : Phase} (hphase : Serves number asked adopted phase) :
    OwnWorld number asked adopted { w.post id event with worker := phase } where
  events entry hentry hheeds := by
    rcases List.mem_append.mp hentry with hold | hnew
    · exact h.events entry hold hheeds
    · rw [List.mem_singleton.mp hnew] at hheeds ⊢
      exact hown hheeds
  commands := h.commands
  worker := hphase

theorem move_own {number : ℕ} {asked : WorkerCommand} {adopted : List ℕ} {w : World} (h : OwnWorld number asked adopted w)
    {phase : Phase} (hphase : Serves number asked adopted phase) :
    OwnWorld number asked adopted { w with worker := phase } := ⟨h.events, h.commands, hphase⟩

theorem work_own {number : ℕ} {asked : WorkerCommand} {adopted : List ℕ} {w : World} (h : OwnWorld number asked adopted w)
    (answer : Answer) : OwnWorld number asked (adopted ++ adopts w answer) (workerStep w answer) := by
  have hmore := h.mono (adopts w answer)
  have hserves := hmore.worker
  unfold workerStep
  cases hw : w.worker with
  | receiving =>
    cases hc : w.commands with
    | nil => exact hmore
    | cons entry rest =>
      refine ⟨hmore.events, fun other hother => ?_, ?_⟩
      · exact h.commands other (by rw [hc]; exact List.mem_cons_of_mem entry hother)
      · rcases h.commands entry (by rw [hc]; exact List.mem_cons_self) with hignored | hsame
        · exact Or.inl hignored
        · exact Or.inr ⟨congrArg Prod.fst hsame, congrArg Prod.snd hsame⟩
  | taken id command =>
    rw [hw] at hserves
    rcases hserves with hignored | ⟨rfl, rfl⟩
    · exact move_own hmore (serve_ignored _ _ _ id w.cancelFlag answer hignored)
    · exact move_own hmore (serve_serves id command adopted w answer hw)
  | polling id =>
    rw [hw] at hserves
    obtain ⟨rfl, text, hprompt⟩ := hserves
    dsimp only
    split_ifs
    · exact post_own hmore (fun _ => prompt_own hprompt _ _) ⟨rfl, text, hprompt⟩
    · exact move_own hmore fun event _ _ => prompt_own hprompt _ event
  | relayed id =>
    rw [hw] at hserves
    exact move_own hmore hserves
  | polled id =>
    rw [hw] at hserves
    dsimp only
    split_ifs
    · obtain ⟨rfl, text, hprompt⟩ := hserves
      exact post_own hmore (fun _ => prompt_own hprompt _ _) ⟨rfl, text, hprompt⟩
    · exact move_own hmore hserves
  | fetching id =>
    rw [hw] at hserves
    apply move_own hmore
    rcases hserves with hignored | ⟨rfl, rfl⟩
    · intro event hevent hheeds
      refine absurd hheeds (ignores_heeds hignored ?_)
      cases hok : answer.ok <;> simp [hok] at hevent <;> rw [hevent] <;> simp [answersOf]
    · exact fun event _ _ => own_other _ event (by simp) (by simp)
  | sending id events afterwards =>
    rw [hw] at hserves
    cases events with
    | nil => cases afterwards <;> exact move_own hmore trivial
    | cons event rest =>
      apply post_own hmore (hserves event List.mem_cons_self)
      intro other hother
      exact hserves other (List.mem_cons_of_mem event hother)
  | clearing => exact ⟨hmore.events, hmore.commands, trivial⟩
  | stopped => exact hmore

theorem approval_own {number : ℕ} {asked : WorkerCommand} {adopted : List ℕ} {w : World}
    (h : OwnWorld number asked adopted w) : OwnWorld number asked adopted (approvalStep w) := by
  unfold approvalStep
  cases hw : w.worker with
  | polling id =>
    have hserves := h.worker
    rw [hw] at hserves
    obtain ⟨rfl, text, hprompt⟩ := hserves
    have hphase : Serves id asked adopted (w.post id .approvalRequest).worker := h.worker
    exact post_own h (fun _ => prompt_own hprompt _ _) hphase
  | _ => exact h

theorem quiet_own {command : WorkerCommand} {w : World}
    (h : RelayRun.Quiet (untilOf command) w) (adopted : List ℕ) :
    OwnWorld w.issued command adopted (w.send command) where
  events entry hentry hheeds := by
    have hsilent := h.events entry hentry
    exact absurd (hheeds.symm.trans hsilent) (by decide)
  commands entry hentry := by
    rcases List.mem_append.mp hentry with hold | hnew
    · exact Or.inl (h.commands entry hold)
    · exact Or.inr (List.mem_singleton.mp hnew)
  worker := by
    have hworker := h.worker
    show Serves _ _ adopted w.worker
    cases hw : w.worker with
    | taken id other =>
      rw [hw] at hworker
      exact Or.inl hworker
    | fetching id =>
      rw [hw] at hworker
      exact Or.inl hworker
    | sending id events afterwards =>
      rw [hw] at hworker
      intro event hevent hheeds
      have hsilent := List.all_eq_true.mp hworker event hevent
      rw [hheeds] at hsilent
      cases hsilent
    | receiving => trivial
    | clearing => trivial
    | stopped => trivial
    | _ =>
      rw [hw] at hworker
      cases hworker

namespace RelayRun

structure Relaying (s : RelayRun) (relay : Relay) : Prop where
  world : OwnWorld relay.id relay.command s.adopted s.world
  answer : ∀ entry, relay.effects.answer = some entry → Own relay.id relay.command s.adopted entry
  readied : relay.command = .reload → relay.effects.appliedReadySeen = true →
    (relay.id, .ready) ∈ s.applied

structure Truthful (s : RelayRun) : Prop where
  relaying : ∀ relay, s.relay = some relay → s.Relaying relay
  returned : ∀ r ∈ s.returned, s.Attributed r

theorem Attributed.mono {s t : RelayRun} {r : Returned} (h : s.Attributed r)
    (hadopted : ∀ id ∈ s.adopted, id ∈ t.adopted) (happlied : ∀ e ∈ s.applied, e ∈ t.applied) :
    t.Attributed r where
  last := h.last
  answer := h.answer
  switched model hmodel entry hentry hready :=
    hadopted r.id (h.switched model hmodel entry hentry hready)
  reloaded hreload := happlied _ (h.reloaded hreload)

theorem start_truthful (answer : Answer) : (start answer).Truthful where
  relaying := by
    intro relay h
    cases h
  returned := by
    intro r h
    cases h

theorem applied_mono (applied : List TaggedEvent) (entry : TaggedEvent) :
    ∀ e ∈ applied, e ∈ applyStatus applied entry := by
  intro e he
  unfold applyStatus
  split_ifs
  · exact List.mem_append_left _ he
  · exact he

theorem ready_applied (applied : List TaggedEvent) {entry : TaggedEvent} {id : ℕ}
    (hid : entry.1 = id) (hready : entry.2 = .ready) :
    (id, .ready) ∈ applyStatus applied entry := by
  rw [applyStatus, if_pos hready, ← hid, ← hready]
  exact List.mem_append_right _ (List.mem_singleton.mpr rfl)

theorem pump_own {s : RelayRun} {relay : Relay} (h : s.Relaying relay) {entry : TaggedEvent}
    (hmem : entry ∈ s.world.events) :
    (∀ e, (pumpEvent (untilOf relay.command) relay.effects entry).1.answer = some e →
      Own relay.id relay.command s.adopted e) ∧
    (relay.command = .reload →
      (pumpEvent (untilOf relay.command) relay.effects entry).1.appliedReadySeen = true →
      (relay.id, .ready) ∈ applyStatus s.applied entry) := by
  cases hheeds : heeds (untilOf relay.command) entry.2 with
  | false =>
    rw [pump_unheeded relay.effects hheeds]
    refine ⟨h.answer, fun hreload hseen => ?_⟩
    exact applied_mono s.applied entry _ (h.readied hreload hseen)
  | true =>
    have hown := h.world.events entry hmem hheeds
    constructor
    · intro e he
      rcases pump_answer (untilOf relay.command) relay.effects entry with hold | hnew
      · exact h.answer e (hold.symm.trans he)
      · rw [hnew] at he
        cases he
        exact hown
    · intro hreload hseen
      rcases pump_ready_seen hseen with hold | hready
      · exact applied_mono s.applied entry _ (h.readied hreload hold)
      · exact ready_applied s.applied hown.id hready

theorem pump_returns {s : RelayRun} {relay : Relay} (h : s.Relaying relay) {entry : TaggedEvent}
    (hmem : entry ∈ s.world.events)
    (hstop : (pumpEvent (untilOf relay.command) relay.effects entry).2 = true) :
    (s.drain entry).Attributed ⟨relay.id, relay.command,
      (pumpEvent (untilOf relay.command) relay.effects entry).1.answer, entry⟩ := by
  obtain ⟨hanswer, -⟩ := pump_own h hmem
  have hheeds : heeds (untilOf relay.command) entry.2 = true := by
    by_contra hnot
    rw [pump_unheeded relay.effects (Bool.not_eq_true _ ▸ hnot)] at hstop
    cases hstop
  have hown := h.world.events entry hmem hheeds
  constructor
  · exact hown.id
  · intro e he
    exact (hanswer e he).id
  · intro model hmodel e he hready
    have hcommand := hanswer e he
    have hadopted := hcommand.switched model hmodel hready
    rwa [hcommand.id] at hadopted
  · intro hreload
    have hkind := hown.reload hreload
    have hmode : untilOf relay.command = .applied := congrArg untilOf hreload
    rw [hmode] at hstop
    rcases pump_applied_stops hstop hkind with hseen | hready
    · exact applied_mono s.applied entry _ (h.readied hreload hseen)
    · exact ready_applied s.applied hown.id hready

theorem receive_own {number : ℕ} {asked : WorkerCommand} {adopted : List ℕ} {w : World}
    (h : OwnWorld number asked adopted w) : OwnWorld number asked adopted w.receive where
  events entry hentry := h.events entry (List.mem_of_mem_tail hentry)
  commands := h.commands
  worker := h.worker

theorem drain_returned {s : RelayRun} (h : s.Truthful) (entry : TaggedEvent) :
    ∀ r ∈ s.returned, (s.drain entry).Attributed r := by
  intro r hr
  exact (h.returned r hr).mono (fun _ hid => hid) (applied_mono s.applied entry)

theorem pump_truthful {s : RelayRun} (h : s.Truthful) {relay : Relay}
    (hrelay : s.relay = some relay) {entry : TaggedEvent} (hmem : entry ∈ s.world.events) :
    (s.pump relay entry).Truthful := by
  have hrelaying := h.relaying relay hrelay
  have hworld : OwnWorld relay.id relay.command s.adopted s.world.receive := receive_own hrelaying.world
  obtain ⟨hanswer, hreadied⟩ := pump_own hrelaying hmem
  have hreturned := drain_returned h entry
  rw [pump]
  dsimp only
  split_ifs with hstopped happroval hstop
  · refine ⟨?_, fun r hr => (hreturned r hr).mono (fun _ hid => hid) fun _ he => he⟩
    intro other hother
    cases hother
  · refine ⟨?_, fun r hr => (hreturned r hr).mono (fun _ hid => hid) fun _ he => he⟩
    intro other hother
    cases hother
    refine ⟨⟨hworld.events, hworld.commands, ?_⟩, ?_, ?_⟩
    · exact hworld.worker
    · intro e he
      cases he
    · intro _ hseen
      cases hseen
  · refine ⟨?_, ?_⟩
    · intro other hother
      cases hother
    · intro r hr
      rcases List.mem_append.mp hr with hold | hnew
      · exact (hreturned r hold).mono (fun _ hid => hid) fun _ he => he
      · rw [List.mem_singleton.mp hnew]
        exact (pump_returns hrelaying hmem hstop).mono (fun _ hid => hid) fun _ he => he
  · refine ⟨?_, fun r hr => (hreturned r hr).mono (fun _ hid => hid) fun _ he => he⟩
    intro other hother
    cases hother
    exact ⟨⟨hworld.events, hworld.commands, hworld.worker⟩, hanswer, hreadied⟩

theorem ask_truthful {s : RelayRun} (h : s.Truthful) {command : WorkerCommand}
    (hquiet : Quiet (untilOf command) s.world) : (s.ask command).Truthful where
  relaying relay hrelay := by
    cases hrelay
    refine ⟨quiet_own hquiet s.adopted, ?_, ?_⟩
    · intro entry hentry
      cases hentry
    · intro _ hseen
      cases hseen
  returned r hr := (h.returned r hr).mono (fun _ hid => hid) fun _ he => he

theorem work_truthful {s : RelayRun} (h : s.Truthful) (answer : Answer) :
    (s.work answer).Truthful where
  relaying relay hrelay := by
    have hrelaying := h.relaying relay hrelay
    exact ⟨work_own hrelaying.world answer, fun entry hentry => (hrelaying.answer entry hentry).mono _,
      hrelaying.readied⟩
  returned r hr :=
    (h.returned r hr).mono (fun _ hid => List.mem_append_left _ hid) fun _ he => he

theorem world_truthful {s : RelayRun} (h : s.Truthful) (world : World) (midCancel : Bool)
    (hworld : ∀ number asked, OwnWorld number asked s.adopted s.world →
      OwnWorld number asked s.adopted world) :
    ({ s with world := world, midCancel := midCancel } : RelayRun).Truthful where
  relaying relay hrelay := by
    have hrelaying := h.relaying relay hrelay
    exact ⟨hworld relay.id relay.command hrelaying.world, hrelaying.answer, hrelaying.readied⟩
  returned r hr := (h.returned r hr).mono (fun _ hid => hid) fun _ he => he

theorem cancel_own {number : ℕ} {asked : WorkerCommand} {adopted : List ℕ} {w : World}
    (h : OwnWorld number asked adopted w) : OwnWorld number asked adopted (w.send .cancel) where
  events := h.events
  commands entry hentry := by
    rcases List.mem_append.mp hentry with hold | hnew
    · exact h.commands entry hold
    · rw [List.mem_singleton.mp hnew]
      exact Or.inl rfl
  worker := h.worker

theorem receive_truthful {s : RelayRun} (h : s.Truthful) : (s.step .receive).Truthful := by
  rw [step]
  cases hevents : s.world.events with
  | nil => exact h
  | cons entry rest =>
    cases hmid : s.midCancel with
    | true => exact h
    | false =>
      cases hrelay : s.relay with
      | none =>
        refine ⟨?_, drain_returned h entry⟩
        intro relay hsome
        exact absurd (hrelay.symm.trans hsome) (by simp)
      | some relay => exact pump_truthful h hrelay (by rw [hevents]; exact List.mem_cons_self)

theorem step_truthful {s : RelayRun} (h : s.Truthful) (label : RelayLabel)
    (hsettled : s.Settled label) : (s.step label).Truthful := by
  cases label with
  | work answer => exact work_truthful h answer
  | approve => exact world_truthful h _ s.midCancel fun _ _ => approval_own
  | ask command =>
    rw [step]
    split_ifs with hmay
    · exact ask_truthful h (hsettled hmay)
    · exact h
  | requestCancel =>
    rw [step]
    split_ifs
    · exact h
    · exact world_truthful h _ true fun _ _ hown => ⟨hown.events, hown.commands, hown.worker⟩
  | enqueueCancel =>
    rw [step]
    split_ifs
    · exact world_truthful h _ false fun _ _ => cancel_own
    · exact h
  | receive => exact receive_truthful h
  | timeout =>
    rw [step]
    cases hrelay : s.relay with
    | none => exact h
    | some relay =>
      dsimp only
      split_ifs
      · exact h
      · refine ⟨?_, fun r hr => (h.returned r hr).mono (fun _ hid => hid) fun _ he => he⟩
        intro other hother
        cases hother

theorem run_truthful (labels : List RelayLabel) {s : RelayRun} (h : s.Truthful)
    (hsettled : SettledRun labels s) : (run labels s).Truthful := by
  induction labels generalizing s with
  | nil => exact h
  | cons label labels ih => exact ih (step_truthful h label hsettled.1) hsettled.2

/-- Every relay that returns was ended and answered by its own command when no relay starts while
something it heeds is left over. -/
theorem answers_attributed (answer : Answer) (labels : List RelayLabel)
    (h : SettledRun labels (start answer)) :
    ∀ r ∈ (run labels (start answer)).returned, (run labels (start answer)).Attributed r :=
  (run_truthful labels (start_truthful answer) h).returned

instance (mode : Until) (w : World) : Decidable (Quiet mode w) :=
  decidable_of_iff ((∀ entry ∈ w.events, heeds mode entry.2 = false) ∧
      (∀ entry ∈ w.commands, ignores mode entry.2 = true) ∧ silent mode w.worker = true)
    ⟨fun h => ⟨h.1, h.2.1, h.2.2⟩, fun h => ⟨h.events, h.commands, h.worker⟩⟩

instance (s : RelayRun) (label : RelayLabel) : Decidable (s.Settled label) :=
  match label with
  | .ask command =>
    inferInstanceAs (Decidable (s.mayAsk command = true → Quiet (untilOf command) s.world))
  | .work _ | .approve | .requestCancel | .enqueueCancel | .receive | .timeout =>
    inferInstanceAs (Decidable True)

instance decidableSettledRun : ∀ labels s, Decidable (SettledRun labels s)
  | [], _ => inferInstanceAs (Decidable True)
  | label :: labels, s =>
    @instDecidableAnd _ _ inferInstance (decidableSettledRun labels (s.step label))

/-- The startup header is drained and a rebuild is relayed up to its report. -/
def rebuilt : List RelayLabel :=
  [.work ⟨true, false⟩, .work ⟨true, false⟩, .receive, .ask .rebuild, .work ⟨true, false⟩,
    .work ⟨true, false⟩, .work ⟨true, false⟩, .receive]

/-- The header of the rebuild is drained before the model is switched. -/
def drainedSwitch : List RelayLabel :=
  rebuilt ++ [RelayLabel.work ⟨true, false⟩, .receive, .ask (.setModel ['m']), .work ⟨true, false⟩,
    .work ⟨true, false⟩, .work ⟨true, false⟩, .work ⟨true, false⟩, .receive]

theorem answers_attributed_sample :
    (run drainedSwitch (start ⟨true, false⟩)).returned.length = 2 ∧
      ∀ r ∈ (run drainedSwitch (start ⟨true, false⟩)).returned,
        (run drainedSwitch (start ⟨true, false⟩)).Attributed r :=
  ⟨by decide, answers_attributed ⟨true, false⟩ drainedSwitch (by decide)⟩

/-- The model is switched while the worker still owes the header of the rebuild. -/
def hastySwitch : List RelayLabel :=
  rebuilt ++ [.ask (.setModel ['m']), .work ⟨true, false⟩, .receive]

theorem answers_attributed_fails :
    ¬ ∀ (answer : Answer) (labels : List RelayLabel),
      ∀ r ∈ (run labels (start answer)).returned, (run labels (start answer)).Attributed r := by
  intro h
  have hreturned : ⟨2, .setModel ['m'], some (1, .ready), (1, .ready)⟩ ∈
      (run hastySwitch (start ⟨true, false⟩)).returned := by
    decide
  have hlast := (h ⟨true, false⟩ hastySwitch _ hreturned).last
  exact absurd hlast (by decide)

end RelayRun

end Siralos.SessionWorker
