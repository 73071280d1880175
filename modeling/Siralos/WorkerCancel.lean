import Siralos.WorkerLoop

/-!
# Cancelling a prompt

A cancel sets the shared flag and queues a command; the worker looks at the flag when it begins a
prompt and after every event it relays. It clears the flag in three places. A cancel reaches its
prompt unless the flag is cleared while the cancelled prompt still waits for the worker.
-/

set_option autoImplicit false

namespace Siralos.SessionWorker

def isPrompt : WorkerCommand → Bool
  | .prompt _ => true
  | _ => false

def promptIds (commands : List TaggedCommand) : List ℕ :=
  commands.flatMap fun entry => if isPrompt entry.2 then [entry.1] else []

def takenIds : Phase → List ℕ
  | .taken id command => if isPrompt command then [id] else []
  | _ => []

def relayingIds : Phase → List ℕ
  | .polling id => [id]
  | .relayed id => [id]
  | .polled id => [id]
  | _ => []

/-- The prompt that is served until its end is sent. -/
def servedIds : Phase → List ℕ
  | .taken id command => if isPrompt command then [id] else []
  | .polling id => [id]
  | .relayed id => [id]
  | .polled id => [id]
  | .sending id events _ => events.flatMap fun event => if event = .turnFinished then [id] else []
  | _ => []

def finishedIds (events : List TaggedEvent) : List ℕ :=
  events.flatMap fun entry => if entry.2 = .turnFinished then [entry.1] else []

def waitingIds (w : World) : List ℕ := promptIds w.commands ++ takenIds w.worker

/-- The prompts whose end has not reached the frontend. -/
def underWay (w : World) : List ℕ :=
  promptIds w.commands ++ servedIds w.worker ++ finishedIds w.events

/-- The prompt of which the worker relays an event in its next step. -/
def relays (w : World) (answer : Answer) : List ℕ :=
  match w.worker with
  | .polling id => if answer.ok then [id] else []
  | _ => []

/-- The prompts before whose next event, or end, the worker still looks at the flag. -/
def checkedIds (w : World) : List ℕ :=
  waitingIds w ++ match w.worker with
    | .relayed id => [id]
    | _ => []

/-- The frontend's thread and what has happened: the prompts that were cancelled, those that were
cancelled in time, and those for which the session was told. -/
structure CancelRun where
  world : World
  outstanding : Option ℕ
  midCancel : Bool
  asked : List ℕ
  due : List ℕ
  cancelled : List ℕ
  deriving DecidableEq, Repr

inductive CancelLabel where
  | work (answer : Answer)
  | approve
  | send (command : WorkerCommand)
  | requestCancel
  | enqueueCancel
  | receive
  deriving DecidableEq, Repr

namespace CancelRun

def start (answer : Answer) : CancelRun := ⟨spawn answer, none, false, [], [], []⟩

/-- The frontend sends a prompt when the last one is finished; `Cancel` is `cancel`'s own. -/
def maySend (s : CancelRun) (command : WorkerCommand) : Bool :=
  !s.midCancel && command != .cancel && !(isPrompt command && s.outstanding.isSome)

def work (s : CancelRun) (answer : Answer) : CancelRun :=
  { s with
    world := workerStep s.world answer
    due := s.due ++ (relays s.world answer).filter fun id => s.asked.contains id
    cancelled := s.cancelled ++ cancels s.world }

def send (s : CancelRun) (command : WorkerCommand) : CancelRun :=
  { s with
    world := s.world.send command
    outstanding := if isPrompt command then some s.world.issued else s.outstanding }

/-- The first half of `WorkerSource::cancel`. -/
def requestCancel (s : CancelRun) (id : ℕ) : CancelRun :=
  { s with
    world := s.world.request
    midCancel := true
    asked := s.asked ++ [id]
    due := if id ∈ waitingIds s.world then s.due ++ [id] else s.due }

/-- The second half: the command follows the flag. -/
def enqueueCancel (s : CancelRun) : CancelRun :=
  { s with world := s.world.send .cancel, midCancel := false }

def receive (s : CancelRun) (entry : TaggedEvent) : CancelRun :=
  { s with
    world := s.world.receive
    outstanding := if entry.2 = .turnFinished then none else s.outstanding }

/-- A step that is not enabled changes nothing. -/
def step (s : CancelRun) : CancelLabel → CancelRun
  | .work answer => s.work answer
  | .approve => { s with world := approvalStep s.world }
  | .send command => if s.maySend command then s.send command else s
  | .requestCancel =>
    match s.outstanding, s.midCancel with
    | some id, false => s.requestCancel id
    | _, _ => s
  | .enqueueCancel => if s.midCancel then s.enqueueCancel else s
  | .receive =>
    match s.world.events, s.midCancel with
    | entry :: _, false => s.receive entry
    | _, _ => s

def run : List CancelLabel → CancelRun → CancelRun
  | [], s => s
  | label :: labels, s => run labels (s.step label)

/-- A prompt that was cancelled in time is cancelled unless the worker is still to look. -/
def NotLost (s : CancelRun) : Prop := ∀ id ∈ s.due, id ∈ s.cancelled ∨ id ∈ checkedIds s.world

/-- A prompt is refused or cancelled only for a cancel called for it. -/
def NotMisdirected (s : CancelRun) : Prop := ∀ id ∈ s.cancelled, id ∈ s.asked

/-- The worker does not clear the flag while a cancelled prompt waits for it. -/
def Careful (s : CancelRun) : CancelLabel → Prop
  | .work _ => s.world.worker = .clearing → ∀ id ∈ s.asked, id ∉ waitingIds s.world
  | _ => True

def CarefulRun : List CancelLabel → CancelRun → Prop
  | [], _ => True
  | label :: labels, s => s.Careful label ∧ CarefulRun labels (s.step label)

end CancelRun

theorem serve_served_ids (id : ℕ) (cancelFlag : Bool) (answer : Answer) (command : WorkerCommand) :
    servedIds (serve id cancelFlag answer command) = servedIds (.taken id command) := by
  obtain ⟨ok, pane⟩ := answer
  cases command <;> cases cancelFlag <;> cases ok <;> rfl

theorem settled_ids (id : ℕ) (answer : Answer) :
    servedIds (.sending id (paneEvents answer ++ [.ready, .turnFinished]) .clearFlag) = [id] := by
  obtain ⟨ok, pane⟩ := answer
  cases pane <;> rfl

theorem post_under_way (w : World) (id : ℕ) (event : WorkerEvent) (h : event ≠ .turnFinished) :
    finishedIds (w.post id event).events = finishedIds w.events := by
  simp [finishedIds, World.post, h]

theorem work_under_way (w : World) (answer : Answer) :
    (underWay (workerStep w answer)).Perm (underWay w) := by
  apply List.perm_iff_count.mpr
  intro id
  unfold workerStep
  cases hw : w.worker with
  | receiving =>
    cases hc : w.commands with
    | nil => rfl
    | cons entry rest =>
      simp only [underWay, promptIds, servedIds, hw, hc, List.flatMap_cons, List.count_append,
        List.count_nil]
      omega
  | taken served command => simp only [underWay, serve_served_ids, hw]
  | polling served =>
    dsimp only
    split_ifs
    · simp only [underWay, hw]
      rw [show finishedIds _ = _ from post_under_way w served .session (by decide)]
      rfl
    · simp only [underWay, settled_ids, hw]
      rfl
  | relayed served =>
    simp only [underWay, hw]
    rfl
  | polled served =>
    dsimp only
    split_ifs
    · simp only [underWay, hw]
      rw [show finishedIds _ = _ from post_under_way w served .pane (by decide)]
      rfl
    · simp only [underWay, hw]
      rfl
  | fetching served =>
    dsimp only
    split_ifs
    · simp only [underWay, hw]
      rfl
    · simp only [underWay, hw]
      rfl
  | sending served events afterwards =>
    cases events with
    | nil =>
      cases afterwards with
      | next => simp only [underWay, hw]; rfl
      | clearFlag => simp only [underWay, hw]; rfl
      | stop => simp only [underWay, hw]; rfl
    | cons event rest =>
      simp only [underWay, servedIds, finishedIds, World.post, hw, List.flatMap_cons,
        List.flatMap_append, List.flatMap_nil, List.count_append, List.count_nil]
      omega
  | clearing =>
    simp only [underWay, hw]
    rfl
  | stopped => rfl

theorem approval_under_way (w : World) : underWay (approvalStep w) = underWay w := by
  unfold approvalStep
  cases hw : w.worker with
  | polling id =>
    simp only [underWay, hw]
    rw [post_under_way w id .approvalRequest (by decide)]
    simp only [World.post, hw]
  | _ => rfl

theorem send_under_way (w : World) (command : WorkerCommand) :
    (underWay (w.send command)).Perm
      ((if isPrompt command then [w.issued] else []) ++ underWay w) := by
  apply List.perm_iff_count.mpr
  intro id
  simp only [underWay, promptIds, World.send, List.flatMap_append, List.flatMap_cons,
    List.flatMap_nil, List.count_append, List.count_nil]
  omega

theorem receive_under_way (w : World) (entry : TaggedEvent) (rest : List TaggedEvent)
    (h : w.events = entry :: rest) :
    (underWay w).Perm ((if entry.2 = .turnFinished then [entry.1] else []) ++
      underWay w.receive) := by
  apply List.perm_iff_count.mpr
  intro id
  simp only [underWay, finishedIds, World.receive, h, List.flatMap_cons, List.count_append,
    List.tail_cons]
  omega

theorem work_commands (w : World) (answer : Answer) (h : w.worker ≠ .receiving) :
    (workerStep w answer).commands = w.commands := by
  unfold workerStep
  cases hw : w.worker with
  | receiving => exact absurd hw h
  | polling id =>
    dsimp only
    split_ifs <;> rfl
  | polled id =>
    dsimp only
    split_ifs <;> rfl
  | sending id events afterwards => cases events <;> cases afterwards <;> rfl
  | _ => rfl

theorem work_flag (w : World) (answer : Answer) (h : w.worker ≠ .clearing) :
    (workerStep w answer).cancelFlag = w.cancelFlag := by
  unfold workerStep
  cases hw : w.worker with
  | clearing => exact absurd hw h
  | receiving => cases w.commands <;> rfl
  | polling id =>
    dsimp only
    split_ifs <;> rfl
  | polled id =>
    dsimp only
    split_ifs <;> rfl
  | sending id events afterwards => cases events <;> cases afterwards <;> rfl
  | _ => rfl

theorem work_issued (w : World) (answer : Answer) :
    (workerStep w answer).issued = w.issued := by
  unfold workerStep
  cases hw : w.worker with
  | receiving => cases w.commands <;> rfl
  | polling id =>
    dsimp only
    split_ifs <;> rfl
  | polled id =>
    dsimp only
    split_ifs <;> rfl
  | sending id events afterwards => cases events <;> cases afterwards <;> rfl
  | _ => rfl

theorem work_clears (w : World) (answer : Answer) (h : w.worker = .clearing) :
    (workerStep w answer).cancelFlag = false := by
  unfold workerStep
  rw [h]

theorem flag_before {w : World} (answer : Answer) (h : (workerStep w answer).cancelFlag = true) :
    w.cancelFlag = true := by
  by_cases hclearing : w.worker = .clearing
  · rw [work_clears w answer hclearing] at h
    cases h
  · rwa [work_flag w answer hclearing] at h

/-- The worker has a queued cancel in hand, or is about to clear the flag. -/
def Consumes (phase : Phase) : Prop := phase = .clearing ∨ ∃ id, phase = .taken id .cancel

/-- The command of the last request is still to be served. -/
def CancelPending (w : World) : Prop :=
  (∃ id, (id, .cancel) ∈ w.commands) ∨ Consumes w.worker

/-- The prompt waits behind the command of the last request. -/
def CancelFirst (w : World) (id : ℕ) : Prop :=
  (∃ before text after, w.commands = before ++ (id, .prompt text) :: after ∧
    ∃ other, (other, .cancel) ∈ before) ∨ (id ∈ promptIds w.commands ∧ Consumes w.worker)

theorem CancelFirst.queued {w : World} {id : ℕ} (h : CancelFirst w id) :
    id ∈ promptIds w.commands := by
  rcases h with ⟨before, text, after, hcommands, -⟩ | ⟨hmem, -⟩
  · rw [hcommands, promptIds]
    exact List.mem_flatMap.mpr ⟨(id, .prompt text), by simp, by simp [isPrompt]⟩
  · exact hmem

theorem consumes_step {w : World} (answer : Answer) (h : Consumes w.worker)
    (hflag : (workerStep w answer).cancelFlag = true) :
    (workerStep w answer).worker = .clearing ∧ (workerStep w answer).commands = w.commands := by
  rcases h with hclearing | ⟨id, htaken⟩
  · rw [work_clears w answer hclearing] at hflag
    cases hflag
  · refine ⟨?_, work_commands w answer (by rw [htaken]; intro h; cases h)⟩
    unfold workerStep
    rw [htaken]
    rfl

theorem work_pending {w : World} (answer : Answer) (h : CancelPending w)
    (hflag : (workerStep w answer).cancelFlag = true) : CancelPending (workerStep w answer) := by
  rcases h with ⟨id, hmem⟩ | hconsumes
  · by_cases hreceiving : w.worker = .receiving
    · obtain ⟨before, after, hcommands⟩ := List.append_of_mem hmem
      unfold workerStep
      rw [hreceiving, hcommands]
      cases before with
      | nil => exact Or.inr (Or.inr ⟨id, rfl⟩)
      | cons entry before => exact Or.inl ⟨id, by simp⟩
    · left
      rw [work_commands w answer hreceiving]
      exact ⟨id, hmem⟩
  · right
    left
    exact (consumes_step answer hconsumes hflag).1

theorem work_first {w : World} (answer : Answer) {id : ℕ} (h : CancelFirst w id)
    (hflag : (workerStep w answer).cancelFlag = true) : CancelFirst (workerStep w answer) id := by
  rcases h with ⟨before, text, after, hcommands, other, hother⟩ | ⟨hmem, hconsumes⟩
  · by_cases hreceiving : w.worker = .receiving
    · have hprompt : ∀ front : List TaggedCommand,
          id ∈ promptIds (front ++ (id, .prompt text) :: after) := by
        intro front
        exact List.mem_flatMap.mpr ⟨(id, .prompt text), by simp, by simp [isPrompt]⟩
      unfold workerStep
      rw [hreceiving, hcommands]
      cases before with
      | nil => cases hother
      | cons entry before =>
        rcases List.mem_cons.mp hother with rfl | hother
        · exact Or.inr ⟨hprompt before, Or.inr ⟨other, rfl⟩⟩
        · exact Or.inl ⟨before, text, after, rfl, other, hother⟩
    · left
      rw [work_commands w answer hreceiving]
      exact ⟨before, text, after, hcommands, other, hother⟩
  · obtain ⟨hworker, hcommands⟩ := consumes_step answer hconsumes hflag
    right
    rw [hcommands, hworker]
    exact ⟨hmem, Or.inl rfl⟩

theorem send_pending {w : World} (command : WorkerCommand) (h : CancelPending w) :
    CancelPending (w.send command) := by
  rcases h with ⟨id, hmem⟩ | hconsumes
  · exact Or.inl ⟨id, List.mem_append_left _ hmem⟩
  · exact Or.inr hconsumes

theorem send_first {w : World} (command : WorkerCommand) {id : ℕ} (h : CancelFirst w id) :
    CancelFirst (w.send command) id := by
  rcases h with ⟨before, text, after, hcommands, hother⟩ | ⟨hmem, hconsumes⟩
  · left
    refine ⟨before, text, after ++ [(w.issued, command)], ?_, hother⟩
    simp [World.send, hcommands]
  · right
    refine ⟨?_, hconsumes⟩
    rw [promptIds, World.send, List.flatMap_append]
    exact List.mem_append_left _ hmem

theorem pending_first {w : World} (text : Text) (h : CancelPending w) :
    CancelFirst (w.send (.prompt text)) w.issued := by
  rcases h with ⟨id, hmem⟩ | hconsumes
  · exact Or.inl ⟨w.commands, text, [], rfl, id, hmem⟩
  · right
    refine ⟨?_, hconsumes⟩
    rw [promptIds, World.send, List.flatMap_append]
    exact List.mem_append_right _ (by simp [isPrompt])

theorem serve_taken (id : ℕ) (cancelFlag : Bool) (answer : Answer) (command : WorkerCommand) :
    takenIds (serve id cancelFlag answer command) = [] := by
  obtain ⟨ok, pane⟩ := answer
  cases command <;> cases cancelFlag <;> cases ok <;> rfl

theorem serve_relaying (id : ℕ) (cancelFlag : Bool) (answer : Answer) (command : WorkerCommand) :
    relayingIds (serve id cancelFlag answer command) ⊆ takenIds (.taken id command) := by
  obtain ⟨ok, pane⟩ := answer
  cases command <;> cases cancelFlag <;> cases ok <;> simp [serve, relayingIds, takenIds, isPrompt]

theorem work_taken (w : World) (answer : Answer) (h : w.worker ≠ .receiving) :
    takenIds (workerStep w answer).worker = [] := by
  unfold workerStep
  cases hw : w.worker with
  | receiving => exact absurd hw h
  | taken id command => exact serve_taken id w.cancelFlag answer command
  | polling id =>
    dsimp only
    split_ifs <;> rfl
  | sending id events afterwards => cases events <;> cases afterwards <;> rfl
  | stopped => simp only [hw, takenIds]
  | _ => rfl

theorem work_waiting {w : World} (answer : Answer) {id : ℕ}
    (h : id ∈ waitingIds (workerStep w answer)) : id ∈ waitingIds w := by
  by_cases hreceiving : w.worker = .receiving
  · unfold workerStep at h
    rw [hreceiving] at h
    cases hc : w.commands with
    | nil =>
      rw [hc] at h
      exact h
    | cons entry rest =>
      rw [hc] at h
      rw [waitingIds, hc, promptIds, List.flatMap_cons]
      rcases List.mem_append.mp h with hrest | htaken
      · exact List.mem_append_left _ (List.mem_append_right _ hrest)
      · exact List.mem_append_left _ (List.mem_append_left _ htaken)
  · rw [waitingIds, work_commands w answer hreceiving, work_taken w answer hreceiving,
      List.append_nil] at h
    exact List.mem_append_left _ h

theorem work_relaying {w : World} (answer : Answer) {id : ℕ}
    (h : id ∈ relayingIds (workerStep w answer).worker) :
    id ∈ waitingIds w ∨ id ∈ relayingIds w.worker := by
  unfold workerStep at h
  cases hw : w.worker with
  | receiving =>
    rw [hw] at h
    cases hc : w.commands with
    | nil => simp [hc, hw, relayingIds] at h
    | cons entry rest => simp [hc, relayingIds] at h
  | taken served command =>
    rw [hw] at h
    left
    rw [waitingIds, hw]
    exact List.mem_append_right _ (serve_relaying served w.cancelFlag answer command h)
  | polling served =>
    rw [hw] at h
    right
    by_cases hok : answer.ok = true
    · simpa [hok, relayingIds] using h
    · simp [hok, relayingIds] at h
  | relayed served =>
    rw [hw] at h
    exact Or.inr h
  | polled served =>
    rw [hw] at h
    exact Or.inr h
  | sending served events afterwards =>
    rw [hw] at h
    cases events <;> cases afterwards <;> simp [relayingIds] at h
  | fetching served => simp [hw, relayingIds] at h
  | clearing => simp [hw, relayingIds] at h
  | stopped => simp [hw, relayingIds] at h

theorem work_checked {w : World} (answer : Answer) {id : ℕ} (h : id ∈ checkedIds w)
    (hflag : w.cancelFlag = true) :
    id ∈ checkedIds (workerStep w answer) ∨ id ∈ cancels w := by
  rcases List.mem_append.mp h with hwaits | hrelayed
  · rcases List.mem_append.mp hwaits with hqueued | htaken
    · left
      apply List.mem_append_left
      by_cases hreceiving : w.worker = .receiving
      · unfold workerStep
        rw [hreceiving]
        cases hc : w.commands with
        | nil =>
          rw [hc] at hqueued
          cases hqueued
        | cons entry rest =>
          rw [hc, promptIds, List.flatMap_cons] at hqueued
          rcases List.mem_append.mp hqueued with hhead | hrest
          · exact List.mem_append_right _ hhead
          · exact List.mem_append_left _ hrest
      · rw [waitingIds, work_commands w answer hreceiving]
        exact List.mem_append_left _ hqueued
    · right
      cases hw : w.worker with
      | taken served command =>
        rw [hw] at htaken
        cases command with
        | prompt text => simpa [cancels, hw, hflag, takenIds, isPrompt] using htaken
        | _ => simp [takenIds, isPrompt] at htaken
      | _ => simp [hw, takenIds] at htaken
  · right
    cases hw : w.worker with
    | relayed served => simpa [cancels, hw, hflag] using hrelayed
    | _ => simp [hw] at hrelayed

theorem relays_checked {w : World} {answer : Answer} {id : ℕ} (h : id ∈ relays w answer) :
    id ∈ checkedIds (workerStep w answer) := by
  unfold relays at h
  cases hw : w.worker with
  | polling served =>
    simp only [hw, List.mem_ite_nil_right, List.mem_singleton] at h
    apply List.mem_append_right
    simp [workerStep, hw, h.1, h.2]
  | _ => simp [hw] at h

namespace CancelRun

structure Sound (s : CancelRun) : Prop where
  underWay : (underWay s.world).Perm s.outstanding.toList
  asked_issued : ∀ id ∈ s.asked, id < s.world.issued
  outstanding_issued : ∀ id, s.outstanding = some id → id < s.world.issued
  pending : s.world.cancelFlag = true → s.midCancel = true ∨ CancelPending s.world
  first : s.world.cancelFlag = true → ∀ id, s.outstanding = some id → id ∉ s.asked →
    CancelFirst s.world id
  cancelled : s.NotMisdirected

theorem start_sound (answer : Answer) : (start answer).Sound where
  underWay := by
    obtain ⟨ok, pane⟩ := answer
    cases pane <;> exact List.Perm.refl _
  asked_issued := by
    intro id h
    cases h
  outstanding_issued := by
    intro id h
    cases h
  pending := by
    intro h
    cases h
  first := by
    intro h
    cases h
  cancelled := by
    intro id h
    cases h

theorem Sound.serving {s : CancelRun} (h : s.Sound) {id : ℕ}
    (hserved : servedIds s.world.worker = [id]) :
    s.outstanding = some id ∧ promptIds s.world.commands = [] := by
  have hperm := h.underWay
  rw [SessionWorker.underWay, hserved] at hperm
  have hmem : id ∈ s.outstanding.toList := hperm.mem_iff.mp (by simp)
  have hlength := hperm.length_eq
  rw [Option.mem_toList] at hmem
  rw [hmem] at hlength
  simp only [List.length_append, List.length_singleton, Option.toList_some] at hlength
  exact ⟨hmem, List.length_eq_zero_iff.mp (by omega)⟩

theorem Sound.checked {s : CancelRun} (h : s.Sound) : ∀ id ∈ cancels s.world, id ∈ s.asked := by
  intro id hid
  have hserved : servedIds s.world.worker = [id] ∧ s.world.cancelFlag = true := by
    unfold cancels at hid
    cases hw : s.world.worker with
    | taken served command =>
      rw [hw] at hid
      cases command with
      | prompt text =>
        simp only [List.mem_ite_nil_right, List.mem_singleton] at hid
        exact ⟨by rw [hid.2]; rfl, hid.1⟩
      | _ => cases hid
    | relayed served =>
      rw [hw] at hid
      simp only [List.mem_ite_nil_right, List.mem_singleton] at hid
      exact ⟨by rw [hid.2]; rfl, hid.1⟩
    | _ =>
      rw [hw] at hid
      cases hid
  obtain ⟨houtstanding, hnone⟩ := h.serving hserved.1
  by_contra hnot
  have hqueued := (h.first hserved.2 id houtstanding hnot).queued
  rw [hnone] at hqueued
  cases hqueued

theorem work_sound {s : CancelRun} (h : s.Sound) (answer : Answer) : (s.work answer).Sound where
  underWay := (work_under_way s.world answer).trans h.underWay
  asked_issued id hid := by
    have hlt := h.asked_issued id hid
    rwa [← work_issued s.world answer] at hlt
  outstanding_issued id hid := by
    have hlt := h.outstanding_issued id hid
    rwa [← work_issued s.world answer] at hlt
  pending hflag := by
    rcases h.pending (flag_before answer hflag) with hmid | hpending
    · exact Or.inl hmid
    · exact Or.inr (work_pending answer hpending hflag)
  first hflag id houtstanding hnot := by
    exact work_first answer (h.first (flag_before answer hflag) id houtstanding hnot) hflag
  cancelled id hid := by
    rcases List.mem_append.mp hid with hold | hnew
    · exact h.cancelled id hold
    · exact h.checked id hnew

theorem approve_sound {s : CancelRun} (h : s.Sound) :
    ({ s with world := approvalStep s.world } : CancelRun).Sound := by
  have hsame : (approvalStep s.world).commands = s.world.commands ∧
      (approvalStep s.world).cancelFlag = s.world.cancelFlag ∧
      (approvalStep s.world).worker = s.world.worker ∧
      (approvalStep s.world).issued = s.world.issued := by
    unfold approvalStep
    cases hw : s.world.worker <;> exact ⟨rfl, rfl, hw, rfl⟩
  obtain ⟨hcommands, hflag, hworker, hissued⟩ := hsame
  constructor
  · rw [approval_under_way]
    exact h.underWay
  · rw [hissued]
    exact h.asked_issued
  · rw [hissued]
    exact h.outstanding_issued
  · simp only [CancelPending, hflag, hcommands, hworker]
    exact h.pending
  · simp only [CancelFirst, hflag, hcommands, hworker]
    exact h.first
  · exact h.cancelled

theorem send_sound {s : CancelRun} (h : s.Sound) (command : WorkerCommand)
    (hmay : s.maySend command = true) : (s.send command).Sound := by
  simp only [maySend, Bool.and_eq_true, Bool.not_eq_true', Bool.and_eq_false_iff] at hmay
  obtain ⟨⟨hmid, -⟩, hfree⟩ := hmay
  have hlater : ∀ id, id < s.world.issued → id < (s.world.send command).issued := by
    intro id hid
    exact Nat.lt_succ_of_lt hid
  have hpending : s.world.cancelFlag = true → CancelPending s.world := by
    intro hflag
    rcases h.pending hflag with hcancelling | hpending
    · rw [hmid] at hcancelling
      cases hcancelling
    · exact hpending
  by_cases hprompt : isPrompt command = true
  · have hnone : s.outstanding = none := by
      rcases hfree with hno | hnone
      · rw [hprompt] at hno
        cases hno
      · exact Option.not_isSome_iff_eq_none.mp (by rw [hnone]; decide)
    have hnew : (s.send command).outstanding = some s.world.issued := by simp [send, hprompt]
    constructor
    · have hperm := send_under_way s.world command
      rw [if_pos hprompt] at hperm
      have hempty := h.underWay
      rw [hnone, Option.toList_none] at hempty
      rw [List.perm_nil.mp hempty, List.append_nil] at hperm
      rw [hnew]
      exact hperm
    · intro id hid
      exact hlater id (h.asked_issued id hid)
    · intro id hid
      rw [hnew] at hid
      cases hid
      exact Nat.lt_succ_self _
    · intro hflag
      exact Or.inr (send_pending command (hpending hflag))
    · intro hflag id hid _
      rw [hnew] at hid
      cases hid
      cases command with
      | prompt text => exact pending_first text (hpending hflag)
      | _ => cases hprompt
    · exact h.cancelled
  · have hsame : (s.send command).outstanding = s.outstanding := by simp [send, hprompt]
    constructor
    · have hperm := send_under_way s.world command
      rw [if_neg hprompt, List.nil_append] at hperm
      rw [hsame]
      exact hperm.trans h.underWay
    · intro id hid
      exact hlater id (h.asked_issued id hid)
    · intro id hid
      rw [hsame] at hid
      exact hlater id (h.outstanding_issued id hid)
    · intro hflag
      exact Or.inr (send_pending command (hpending hflag))
    · intro hflag id hid hnot
      rw [hsame] at hid
      exact send_first command (h.first hflag id hid hnot)
    · exact h.cancelled

theorem request_sound {s : CancelRun} (h : s.Sound) {id : ℕ} (hid : s.outstanding = some id) :
    (s.requestCancel id).Sound where
  underWay := h.underWay
  asked_issued other hother := by
    rcases List.mem_append.mp hother with hold | hnew
    · exact h.asked_issued other hold
    · rw [List.mem_singleton.mp hnew]
      exact h.outstanding_issued id hid
  outstanding_issued := h.outstanding_issued
  pending _ := Or.inl rfl
  first _ other hother hnot := by
    have hsame : some id = some other := hid.symm.trans hother
    cases hsame
    exact absurd (List.mem_append_right _ (List.mem_singleton.mpr rfl)) hnot
  cancelled other hother := List.mem_append_left _ (h.cancelled other hother)

theorem enqueue_sound {s : CancelRun} (h : s.Sound) : s.enqueueCancel.Sound where
  underWay := by
    have hperm := send_under_way s.world .cancel
    rw [if_neg (by decide), List.nil_append] at hperm
    exact hperm.trans h.underWay
  asked_issued id hid := Nat.lt_succ_of_lt (h.asked_issued id hid)
  outstanding_issued id hid := Nat.lt_succ_of_lt (h.outstanding_issued id hid)
  pending _ := by
    right
    left
    exact ⟨s.world.issued, List.mem_append_right _ (List.mem_singleton.mpr rfl)⟩
  first hflag id hid hnot := send_first .cancel (h.first hflag id hid hnot)
  cancelled := h.cancelled

theorem receive_sound {s : CancelRun} (h : s.Sound) {entry : TaggedEvent} {rest : List TaggedEvent}
    (hevents : s.world.events = entry :: rest) : (s.receive entry).Sound := by
  have hperm := (receive_under_way s.world entry rest hevents).symm.trans h.underWay
  constructor
  · by_cases hfinished : entry.2 = .turnFinished
    · have hmem : entry.1 ∈ s.outstanding.toList := by
        rw [if_pos hfinished] at hperm
        exact hperm.mem_iff.mp (by simp)
      rw [Option.mem_toList] at hmem
      rw [if_pos hfinished, hmem] at hperm
      have hnone : (s.receive entry).outstanding = none := by simp [receive, hfinished]
      rw [hnone]
      have hempty := (List.perm_cons entry.1).mp hperm
      exact hempty
    · rw [if_neg hfinished, List.nil_append] at hperm
      have hsame : (s.receive entry).outstanding = s.outstanding := by simp [receive, hfinished]
      rw [hsame]
      exact hperm
  · exact h.asked_issued
  · intro id hid
    by_cases hfinished : entry.2 = .turnFinished
    · simp [receive, hfinished] at hid
    · simp only [receive, hfinished, if_false] at hid
      exact h.outstanding_issued id hid
  · exact h.pending
  · intro hflag id hid hnot
    by_cases hfinished : entry.2 = .turnFinished
    · simp [receive, hfinished] at hid
    · simp only [receive, hfinished, if_false] at hid
      exact h.first hflag id hid hnot
  · exact h.cancelled

theorem step_sound {s : CancelRun} (h : s.Sound) (label : CancelLabel) : (s.step label).Sound := by
  cases label with
  | work answer => exact work_sound h answer
  | approve => exact approve_sound h
  | send command =>
    rw [step]
    split_ifs with hmay
    · exact send_sound h command hmay
    · exact h
  | requestCancel =>
    rw [step]
    cases hid : s.outstanding with
    | none => exact h
    | some id =>
      cases hmid : s.midCancel with
      | false => exact request_sound h hid
      | true => exact h
  | enqueueCancel =>
    rw [step]
    split_ifs with hmid
    · exact enqueue_sound h
    · exact h
  | receive =>
    rw [step]
    cases hevents : s.world.events with
    | nil => exact h
    | cons entry rest =>
      cases hmid : s.midCancel with
      | false => exact receive_sound h hevents
      | true => exact h

theorem run_sound (labels : List CancelLabel) {s : CancelRun} (h : s.Sound) :
    (run labels s).Sound := by
  induction labels generalizing s with
  | nil => exact h
  | cons label labels ih => exact ih (step_sound h label)

/-- While a cancelled prompt waits or is relayed the flag is set. -/
structure Delivering (s : CancelRun) : Prop where
  due_asked : ∀ id ∈ s.due, id ∈ s.asked
  flagged : ∀ id ∈ s.asked, id ∈ waitingIds s.world ∨ id ∈ relayingIds s.world.worker →
    s.world.cancelFlag = true
  delivered : s.NotLost

theorem start_delivering (answer : Answer) : (start answer).Delivering where
  due_asked := by
    intro id h
    cases h
  flagged := by
    intro id h
    cases h
  delivered := by
    intro id h
    cases h

theorem checked_live {w : World} {id : ℕ} (h : id ∈ checkedIds w) :
    id ∈ waitingIds w ∨ id ∈ relayingIds w.worker := by
  rcases List.mem_append.mp h with hwaits | hrelayed
  · exact Or.inl hwaits
  · right
    cases hw : w.worker with
    | relayed served => simpa [hw, relayingIds] using hrelayed
    | _ => simp [hw] at hrelayed

theorem work_delivering {s : CancelRun} (h : s.Delivering) (answer : Answer)
    (hcareful : s.Careful (.work answer)) : (s.work answer).Delivering where
  due_asked id hid := by
    rcases List.mem_append.mp hid with hold | hnew
    · exact h.due_asked id hold
    · exact List.contains_iff_mem.mp (List.mem_filter.mp hnew).2
  flagged id hid hlive := by
    by_cases hclearing : s.world.worker = .clearing
    · have hnone := hcareful hclearing id hid
      rcases hlive with hwaits | hrelaying
      · exact absurd (work_waiting answer hwaits) hnone
      · rcases work_relaying answer hrelaying with hwaits | hrelaying
        · exact absurd hwaits hnone
        · rw [hclearing] at hrelaying
          cases hrelaying
    · have hsame : (s.work answer).world.cancelFlag = s.world.cancelFlag :=
        work_flag s.world answer hclearing
      rw [hsame]
      apply h.flagged id hid
      rcases hlive with hwaits | hrelaying
      · exact Or.inl (work_waiting answer hwaits)
      · exact work_relaying answer hrelaying
  delivered id hid := by
    rcases List.mem_append.mp hid with hold | hnew
    · rcases h.delivered id hold with hcancelled | hchecked
      · exact Or.inl (List.mem_append_left _ hcancelled)
      · have hflag := h.flagged id (h.due_asked id hold) (checked_live hchecked)
        rcases work_checked answer hchecked hflag with hchecked | hcancels
        · exact Or.inr hchecked
        · exact Or.inl (List.mem_append_right _ hcancels)
    · exact Or.inr (relays_checked (List.mem_filter.mp hnew).1)

theorem send_waiting {w : World} (command : WorkerCommand) {id : ℕ}
    (h : id ∈ waitingIds (w.send command)) : id ∈ waitingIds w ∨ id = w.issued := by
  rcases List.mem_append.mp h with hqueued | htaken
  · rw [promptIds, World.send, List.flatMap_append] at hqueued
    rcases List.mem_append.mp hqueued with hold | hnew
    · exact Or.inl (List.mem_append_left _ hold)
    · right
      exact (show isPrompt command = true ∧ id = w.issued by simpa using hnew).2
  · exact Or.inl (List.mem_append_right _ htaken)

theorem send_checked {w : World} (command : WorkerCommand) {id : ℕ} (h : id ∈ checkedIds w) :
    id ∈ checkedIds (w.send command) := by
  rcases List.mem_append.mp h with hwaits | hrelayed
  · apply List.mem_append_left
    rcases List.mem_append.mp hwaits with hqueued | htaken
    · apply List.mem_append_left
      rw [promptIds, World.send, List.flatMap_append]
      exact List.mem_append_left _ hqueued
    · exact List.mem_append_right _ htaken
  · exact List.mem_append_right _ hrelayed

theorem send_flagged {s : CancelRun} (hs : s.Sound) (h : s.Delivering) (command : WorkerCommand) :
    ∀ id ∈ s.asked, id ∈ waitingIds (s.world.send command) ∨ id ∈ relayingIds s.world.worker →
      s.world.cancelFlag = true := by
  intro id hid hlive
  apply h.flagged id hid
  rcases hlive with hwaits | hrelaying
  · rcases send_waiting command hwaits with hwaits | hnew
    · exact Or.inl hwaits
    · exact absurd (hs.asked_issued id hid) (by rw [hnew]; exact lt_irrefl _)
  · exact Or.inr hrelaying

theorem send_delivered {s : CancelRun} (h : s.NotLost) (command : WorkerCommand) :
    ∀ id ∈ s.due, id ∈ s.cancelled ∨ id ∈ checkedIds (s.world.send command) := by
  intro id hid
  rcases h id hid with hcancelled | hchecked
  · exact Or.inl hcancelled
  · exact Or.inr (send_checked command hchecked)

theorem request_delivering {s : CancelRun} (h : s.Delivering) (id : ℕ) :
    (s.requestCancel id).Delivering where
  due_asked other hother := by
    by_cases hwaits : id ∈ waitingIds s.world
    · simp only [requestCancel, if_pos hwaits] at hother
      rcases List.mem_append.mp hother with hold | hnew
      · exact List.mem_append_left _ (h.due_asked other hold)
      · exact List.mem_append_right _ hnew
    · simp only [requestCancel, if_neg hwaits] at hother
      exact List.mem_append_left _ (h.due_asked other hother)
  flagged _ _ _ := rfl
  delivered other hother := by
    by_cases hwaits : id ∈ waitingIds s.world
    · simp only [requestCancel, if_pos hwaits] at hother
      rcases List.mem_append.mp hother with hold | hnew
      · exact h.delivered other hold
      · rw [List.mem_singleton.mp hnew]
        exact Or.inr (List.mem_append_left _ hwaits)
    · simp only [requestCancel, if_neg hwaits] at hother
      exact h.delivered other hother

theorem step_delivering {s : CancelRun} (hs : s.Sound) (h : s.Delivering) (label : CancelLabel)
    (hcareful : s.Careful label) : (s.step label).Delivering := by
  cases label with
  | work answer => exact work_delivering h answer hcareful
  | approve =>
    have hsame : (approvalStep s.world).commands = s.world.commands ∧
        (approvalStep s.world).cancelFlag = s.world.cancelFlag ∧
        (approvalStep s.world).worker = s.world.worker := by
      unfold approvalStep
      cases hw : s.world.worker <;> exact ⟨rfl, rfl, hw⟩
    obtain ⟨hcommands, hflag, hworker⟩ := hsame
    constructor
    · exact h.due_asked
    · simp only [step, waitingIds, hcommands, hflag, hworker]
      exact h.flagged
    · simp only [step, NotLost, checkedIds, waitingIds, hcommands, hworker]
      exact h.delivered
  | send command =>
    rw [step]
    split_ifs with hmay
    · exact ⟨h.due_asked, send_flagged hs h command, send_delivered h.delivered command⟩
    · exact h
  | requestCancel =>
    rw [step]
    cases hid : s.outstanding with
    | none => exact h
    | some id =>
      cases hmid : s.midCancel with
      | false => exact request_delivering h id
      | true => exact h
  | enqueueCancel =>
    rw [step]
    split_ifs with hmid
    · exact ⟨h.due_asked, send_flagged hs h .cancel, send_delivered h.delivered .cancel⟩
    · exact h
  | receive =>
    rw [step]
    cases hevents : s.world.events with
    | nil => exact h
    | cons entry rest =>
      cases hmid : s.midCancel with
      | false => exact ⟨h.due_asked, h.flagged, h.delivered⟩
      | true => exact h

theorem run_delivering (labels : List CancelLabel) {s : CancelRun} (hs : s.Sound)
    (h : s.Delivering) (hcareful : CarefulRun labels s) : (run labels s).Delivering := by
  induction labels generalizing s with
  | nil => exact h
  | cons label labels ih =>
    exact ih (step_sound hs label) (step_delivering hs h label hcareful.1) hcareful.2

/-- No cancel is misdirected. None is lost when the worker never clears the flag of a prompt that
waits. -/
theorem cancel_reaches_prompt (answer : Answer) (labels : List CancelLabel) :
    (run labels (start answer)).NotMisdirected ∧
      (CarefulRun labels (start answer) → (run labels (start answer)).NotLost) := by
  constructor
  · exact (run_sound labels (start_sound answer)).cancelled
  · intro hcareful
    exact (run_delivering labels (start_sound answer) (start_delivering answer) hcareful).delivered

instance (s : CancelRun) (label : CancelLabel) : Decidable (s.Careful label) :=
  match label with
  | .work _ =>
    inferInstanceAs (Decidable (s.world.worker = .clearing → ∀ id ∈ s.asked, id ∉ waitingIds s.world))
  | .approve | .send _ | .requestCancel | .enqueueCancel | .receive => inferInstanceAs (Decidable True)

instance decidableCarefulRun : ∀ labels s, Decidable (CarefulRun labels s)
  | [], _ => inferInstanceAs (Decidable True)
  | label :: labels, s =>
    @instDecidableAnd _ _ inferInstance (decidableCarefulRun labels (s.step label))

instance (s : CancelRun) : Decidable s.NotLost :=
  inferInstanceAs (Decidable (∀ id ∈ s.due, id ∈ s.cancelled ∨ id ∈ checkedIds s.world))

def happy : Answer := ⟨true, false⟩

def unavailable : Answer := ⟨false, false⟩

/-- A prompt is cancelled while its first event is relayed. -/
def cancelledTurn : List CancelLabel :=
  [.work happy, .work happy, .send (.prompt ['a']), .work happy, .work happy, .requestCancel,
    .enqueueCancel, .work happy, .work happy]

theorem cancel_reaches_prompt_sample : (run cancelledTurn (start happy)).NotLost :=
  (cancel_reaches_prompt happy cancelledTurn).2 (by decide)

/-- The next prompt is sent and cancelled between the end of the last turn and the clearing of the
flag. -/
def lateClear : List CancelLabel :=
  [.work happy, .work happy, .send (.prompt ['a']), .work happy, .work happy, .work unavailable,
    .work happy, .work happy, .receive, .receive, .receive, .send (.prompt ['b']), .requestCancel,
    .enqueueCancel, .work happy, .work happy, .work happy, .work happy, .work unavailable]

theorem cancel_reaches_prompt_fails :
    ¬ ∀ (answer : Answer) (labels : List CancelLabel),
      (run labels (start answer)).NotMisdirected ∧ (run labels (start answer)).NotLost := by
  intro h
  exact absurd (h happy lateClear).2 (by decide)

end CancelRun

end Siralos.SessionWorker
