import Siralos.Occurrence
import Siralos.ToolGate

/-!
# The approval exchange

A blocked hook of the worker and the deciding frontend share a table of pending requests. The
worker's calls follow each other; deliveries and the stop flag come at any time, and a delivery
may be interrupted between taking a sender from the table and sending on it.
-/

set_option autoImplicit false

namespace Siralos.ApprovalExchange

open ToolGate

/-- Where a blocked `request_blocking` is. -/
inductive HookPhase where
  | announcing
  | waiting
  /-- Timed out, with the stop flag still to be read. -/
  | checking
  | removing (verdict : ApprovalVerdict)
  | returning (verdict : ApprovalVerdict)
  deriving DecidableEq, Repr

/-- The call under way, with what its channel holds. `serial` numbers the calls. -/
structure Hook where
  serial : ℕ
  id : ℕ
  phase : HookPhase
  inbox : List ApprovalVerdict
  deriving DecidableEq, Repr

/-- A delivery that holds the sender of one call. -/
structure Delivery where
  id : ℕ
  verdict : ApprovalVerdict
  sender : ℕ
  deriving DecidableEq, Repr

inductive Event where
  | allocated (serial id : ℕ)
  | delivering (id : ℕ) (verdict : ApprovalVerdict)
  | delivered (id : ℕ) (accepted : Bool)
  | received (serial id : ℕ) (verdict : ApprovalVerdict)
  | returned (serial id : ℕ) (verdict : ApprovalVerdict)
  deriving DecidableEq, Repr

structure Exchange where
  nextId : ℕ
  /-- Each pending id with the call whose sender it holds. -/
  pending : List (ℕ × ℕ)
  hook : Option Hook
  deliveries : List Delivery
  stop : Bool
  requests : ℕ
  events : List Event
  deriving DecidableEq, Repr

namespace Exchange

def start : Exchange := ⟨0, [], none, [], false, 0, []⟩

def log (s : Exchange) (events : List Event) : Exchange := { s with events := s.events ++ events }

def removed (pending : List (ℕ × ℕ)) (id : ℕ) : List (ℕ × ℕ) :=
  pending.filter fun entry => entry.1 ≠ id

/-- The id wraps, and an insertion replaces what its id held. -/
def request (s : Exchange) : Exchange :=
  match s.hook with
  | some _ => s
  | none =>
    { s with
      nextId := (s.nextId + 1) % 2 ^ 64
      pending := removed s.pending s.nextId ++ [(s.nextId, s.requests)]
      hook := some ⟨s.requests, s.nextId, .announcing, []⟩
      requests := s.requests + 1
      events := s.events ++ [.allocated s.requests s.nextId] }

def withPhase (s : Exchange) (h : Hook) (phase : HookPhase) : Exchange :=
  { s with hook := some { h with phase := phase } }

/-- Whether the sender of a call still exists somewhere. -/
def senderAlive (s : Exchange) (serial : ℕ) : Bool :=
  s.pending.any (fun entry => entry.2 == serial) || s.deliveries.any (fun d => d.sender == serial)

/-- The next thing the blocked call does; `connected` and `timeOut` are what it meets. -/
inductive HookMove where
  | announce (connected : Bool)
  | receive
  | disconnect
  | timeOut
  | checkStop
  | remove
  | finish
  deriving DecidableEq, Repr

def hookStep (s : Exchange) (h : Hook) (move : HookMove) : Exchange :=
  match move, h.phase with
  | .announce connected, .announcing =>
    s.withPhase h (if connected then .waiting else .removing .deny)
  | .receive, .waiting =>
    match h.inbox with
    | [] => s
    | verdict :: rest =>
      ({ s with hook := some { h with phase := .removing verdict, inbox := rest } } : Exchange).log
        [.received h.serial h.id verdict]
  | .disconnect, .waiting =>
    if h.inbox.isEmpty && !s.senderAlive h.serial then s.withPhase h (.removing .deny) else s
  | .timeOut, .waiting => if h.inbox.isEmpty then s.withPhase h .checking else s
  | .checkStop, .checking => s.withPhase h (if s.stop then .removing .deny else .waiting)
  | .remove, .removing verdict =>
    { s with
      pending := removed s.pending h.id
      hook := some { h with phase := .returning verdict } }
  | .finish, .returning verdict =>
    ({ s with hook := none } : Exchange).log [.returned h.serial h.id verdict]
  | _, _ => s

/-- `deliver` up to the sender that it takes out of the table. -/
def deliver (s : Exchange) (id : ℕ) (verdict : ApprovalVerdict) : Exchange :=
  match s.pending.lookup id with
  | none => s.log [.delivering id verdict, .delivered id false]
  | some serial =>
    ({ s with
      pending := removed s.pending id
      deliveries := s.deliveries ++ [⟨id, verdict, serial⟩] } : Exchange).log
      [.delivering id verdict]

/-- The send succeeds as long as the call still holds its receiver. -/
def send (s : Exchange) (index : ℕ) : Exchange :=
  match s.deliveries[index]? with
  | none => s
  | some d =>
    let rest := { s with deliveries := s.deliveries.eraseIdx index }
    match s.hook with
    | some h =>
      if h.serial = d.sender then
        ({ rest with hook := some { h with inbox := h.inbox ++ [d.verdict] } } : Exchange).log
          [.delivered d.id true]
      else rest.log [.delivered d.id false]
    | none => rest.log [.delivered d.id false]

end Exchange

inductive Label where
  | request
  | hook (move : Exchange.HookMove)
  | deliver (id : ℕ) (verdict : ApprovalVerdict)
  | send (index : ℕ)
  | raiseStop
  deriving DecidableEq, Repr

def step (s : Exchange) : Label → Exchange
  | .request => s.request
  | .hook move =>
    match s.hook with
    | some h => s.hookStep h move
    | none => s
  | .deliver id verdict => s.deliver id verdict
  | .send index => s.send index
  | .raiseStop => { s with stop := true }

def run : List Label → Exchange → Exchange
  | [], s => s
  | label :: labels, s => run labels (step s label)

def firstDelivered (id : ℕ) : List Event → Option ApprovalVerdict
  | [] => none
  | .delivering other verdict :: rest =>
    if other = id then some verdict else firstDelivered id rest
  | _ :: rest => firstDelivered id rest

/-- The verdict of the first delivery for an id after a call allocated it. -/
def verdictFor (serial id : ℕ) : List Event → Option ApprovalVerdict
  | [] => none
  | event :: rest =>
    if event = .allocated serial id then firstDelivered id rest else verdictFor serial id rest

theorem first_delivered_append (id : ℕ) (events more : List Event) :
    firstDelivered id (events ++ more) =
      (firstDelivered id events).or (firstDelivered id more) := by
  induction events with
  | nil => rfl
  | cons event events ih =>
    cases event with
    | delivering other verdict =>
      by_cases hother : other = id
      · simp [firstDelivered, hother]
      · simpa [firstDelivered, hother] using ih
    | _ => exact ih

theorem verdict_append (serial id : ℕ) (events more : List Event)
    (h : .allocated serial id ∈ events) : verdictFor serial id (events ++ more) =
      (verdictFor serial id events).or (firstDelivered id more) := by
  induction events with
  | nil => cases h
  | cons event events ih =>
    by_cases hevent : event = .allocated serial id
    · simp [verdictFor, hevent, first_delivered_append]
    · have hrest : .allocated serial id ∈ events :=
        (List.mem_cons.mp h).resolve_left fun heq => hevent heq.symm
      simp [verdictFor, hevent, ih hrest]

theorem verdict_unallocated (serial id : ℕ) (events : List Event)
    (h : .allocated serial id ∉ events) : verdictFor serial id events = none := by
  induction events with
  | nil => rfl
  | cons event events ih =>
    rw [List.mem_cons, not_or] at h
    rw [verdictFor, if_neg (fun heq => h.1 heq.symm), ih h.2]

theorem verdict_allocated (serial id : ℕ) (events : List Event) (verdict : ApprovalVerdict)
    (h : verdictFor serial id events = some verdict) : .allocated serial id ∈ events := by
  by_contra hnone
  rw [verdict_unallocated serial id events hnone] at h
  cases h

theorem verdict_stays (serial id : ℕ) (events more : List Event) (verdict : ApprovalVerdict)
    (h : verdictFor serial id events = some verdict) :
    verdictFor serial id (events ++ more) = some verdict := by
  rw [verdict_append _ _ _ _ (verdict_allocated _ _ _ _ h), h, Option.some_or]

theorem verdict_fresh (serial id : ℕ) (events : List Event) (h : .allocated serial id ∉ events) :
    verdictFor serial id (events ++ [.allocated serial id]) = none := by
  induction events with
  | nil => simp [verdictFor, firstDelivered]
  | cons event events ih =>
    rw [List.mem_cons, not_or] at h
    rw [List.cons_append, verdictFor, if_neg (fun heq => h.1 heq.symm), ih h.2]

structure Justified (events : List Event) : Prop where
  received : ∀ pre post serial id verdict,
    events = pre ++ .received serial id verdict :: post → verdictFor serial id pre = some verdict
  returned : ∀ pre post serial id,
    events = pre ++ .returned serial id .approve :: post →
      verdictFor serial id pre = some .approve
  once : ∀ id, events.count (.delivered id true) ≤ 1

/-- A blocked call: its id is the last one, and its channel holds the verdict of that id. -/
structure HookSound (s : Exchange) (h : Hook) : Prop where
  id : h.id = h.serial
  last : h.serial + 1 = s.requests
  inbox : ∀ verdict ∈ h.inbox, verdictFor h.serial h.id s.events = some verdict
  phase : h.phase = .removing .approve ∨ h.phase = .returning .approve →
    verdictFor h.serial h.id s.events = some .approve

/-- A pending entry belongs to the blocked call, and nobody has taken its sender yet. -/
structure PendingSound (s : Exchange) (entry : ℕ × ℕ) (h : Hook) : Prop where
  own : entry = (h.id, h.serial)
  blocked : ∀ verdict, h.phase ≠ .returning verdict
  inbox : h.inbox = []
  allocated : .allocated h.serial h.id ∈ s.events
  untaken : verdictFor h.serial h.id s.events = none

structure DeliverySound (s : Exchange) (d : Delivery) : Prop where
  sender : d.sender = d.id
  taken : verdictFor d.sender d.id s.events = some d.verdict
  unanswered : .delivered d.id true ∉ s.events
  inbox : ∀ h, s.hook = some h → h.serial = d.sender → h.inbox = []

structure Sound (s : Exchange) : Prop where
  next : s.nextId = s.requests % 2 ^ 64
  allocated : ∀ serial id, .allocated serial id ∈ s.events → id = serial ∧ serial < s.requests
  hook : ∀ h, s.hook = some h → HookSound s h
  pending : ∀ entry ∈ s.pending, ∃ h, s.hook = some h ∧ PendingSound s entry h
  deliveries : ∀ d ∈ s.deliveries, DeliverySound s d
  distinct : (s.deliveries.map Delivery.id).Nodup
  answered : ∀ id, .delivered id true ∈ s.events → ∃ verdict,
    verdictFor id id s.events = some verdict
  justified : Justified s.events

theorem start_sound : Sound .start where
  next := rfl
  allocated serial id h := by cases h
  hook h hsome := by cases hsome
  pending entry h := by cases h
  deliveries d h := by cases h
  distinct := List.nodup_nil
  answered id h := by cases h
  justified := ⟨fun pre post serial id verdict h => by simp [Exchange.start] at h,
    fun pre post serial id h => by simp [Exchange.start] at h, fun id => Nat.zero_le _⟩

theorem Justified.snoc {events : List Event} {event : Event} (h : Justified events)
    (hreceived : ∀ serial id verdict, event = .received serial id verdict →
      verdictFor serial id events = some verdict)
    (hreturned : ∀ serial id, event = .returned serial id .approve →
      verdictFor serial id events = some .approve)
    (hdelivered : ∀ id, event = .delivered id true → .delivered id true ∉ events) :
    Justified (events ++ [event]) where
  received pre post serial id verdict heq := by
    rcases Occurrence.snoc_split heq with ⟨hfound, hpre⟩ | ⟨rest, hevents⟩
    · rw [hpre]
      exact hreceived serial id verdict hfound.symm
    · exact h.received pre rest serial id verdict hevents
  returned pre post serial id heq := by
    rcases Occurrence.snoc_split heq with ⟨hfound, hpre⟩ | ⟨rest, hevents⟩
    · rw [hpre]
      exact hreturned serial id hfound.symm
    · exact h.returned pre rest serial id hevents
  once id := by
    rw [List.count_append]
    by_cases hevent : event = .delivered id true
    · have hnone := List.count_eq_zero_of_not_mem (hdelivered id hevent)
      rw [hnone, hevent]
      simp
    · have hzero : List.count (.delivered id true) [event] = 0 :=
        List.count_eq_zero_of_not_mem (by simpa using fun heq => hevent heq.symm)
      rw [hzero]
      exact h.once id

theorem Justified.delivering {events : List Event} (h : Justified events) (id : ℕ)
    (verdict : ApprovalVerdict) : Justified (events ++ [.delivering id verdict]) := by
  apply h.snoc
  all_goals intros
  all_goals contradiction

section Frames

variable {s s' : Exchange} {more : List Event} (hevents : s'.events = s.events ++ more)

include hevents

theorem HookSound.grow {h : Hook} (hs : HookSound s h) (hrequests : s'.requests = s.requests) :
    HookSound s' h where
  id := hs.id
  last := by rw [hrequests]; exact hs.last
  inbox verdict hmem := by
    rw [hevents]
    exact verdict_stays _ _ _ _ _ (hs.inbox verdict hmem)
  phase hphase := by
    rw [hevents]
    exact verdict_stays _ _ _ _ _ (hs.phase hphase)

theorem PendingSound.grow {entry : ℕ × ℕ} {h : Hook} (hp : PendingSound s entry h)
    (hmore : firstDelivered h.id more = none) : PendingSound s' entry h where
  own := hp.own
  blocked := hp.blocked
  inbox := hp.inbox
  allocated := by
    rw [hevents]
    exact List.mem_append_left _ hp.allocated
  untaken := by
    rw [hevents, verdict_append _ _ _ _ hp.allocated, hp.untaken, hmore]
    rfl

theorem DeliverySound.grow {d : Delivery} (hd : DeliverySound s d)
    (hmore : .delivered d.id true ∉ more)
    (hinbox : ∀ h, s'.hook = some h → h.serial = d.sender → h.inbox = []) :
    DeliverySound s' d where
  sender := hd.sender
  taken := by
    rw [hevents]
    exact verdict_stays _ _ _ _ _ hd.taken
  unanswered := by
    rw [hevents, List.mem_append, not_or]
    exact ⟨hd.unanswered, hmore⟩
  inbox := hinbox

theorem answered_grow (h : Sound s) (id : ℕ) (hid : .delivered id true ∈ s.events) :
    ∃ verdict, verdictFor id id s'.events = some verdict := by
  obtain ⟨verdict, hverdict⟩ := h.answered id hid
  rw [hevents]
  exact ⟨verdict, verdict_stays _ _ _ _ _ hverdict⟩

end Frames

theorem Sound.idle_pending {s : Exchange} (h : Sound s) (hidle : s.hook = none) :
    s.pending = [] := by
  apply List.eq_nil_iff_forall_not_mem.mpr
  intro entry hentry
  obtain ⟨hook, hhook, -⟩ := h.pending entry hentry
  rw [hidle] at hhook
  cases hhook

theorem Sound.removed_pending {s : Exchange} (h : Sound s) {hook : Hook}
    (hhook : s.hook = some hook) : Exchange.removed s.pending hook.id = [] := by
  apply List.filter_eq_nil_iff.mpr
  intro entry hentry
  obtain ⟨other, hother, hsound⟩ := h.pending entry hentry
  rw [hhook] at hother
  cases hother
  simp [hsound.own]

theorem request_sound {s : Exchange} (h : Sound s) (hbound : s.requests < 2 ^ 64) :
    Sound s.request := by
  cases hhook : s.hook with
  | some hook =>
    rw [Exchange.request, hhook]
    exact h
  | none =>
    have hid : s.nextId = s.requests := by rw [h.next, Nat.mod_eq_of_lt hbound]
    have hfresh : .allocated s.requests s.requests ∉ s.events := fun hmem =>
      absurd (h.allocated _ _ hmem).2 (Nat.lt_irrefl _)
    have hrequest : s.request =
        { s with
          nextId := (s.requests + 1) % 2 ^ 64
          pending := [(s.requests, s.requests)]
          hook := some ⟨s.requests, s.requests, .announcing, []⟩
          requests := s.requests + 1
          events := s.events ++ [.allocated s.requests s.requests] } := by
      rw [Exchange.request, hhook, hid, h.idle_pending hhook]
      rfl
    rw [hrequest]
    exact
      { next := rfl
        allocated := by
          intro serial id hmem
          rcases List.mem_append.mp hmem with hold | hnew
          · have hlt := h.allocated serial id hold
            exact ⟨hlt.1, Nat.lt_succ_of_lt hlt.2⟩
          · cases List.mem_singleton.mp hnew
            exact ⟨rfl, Nat.lt_succ_self _⟩
        hook := by
          intro hook hsome
          cases hsome
          exact ⟨rfl, rfl, fun verdict hmem => (List.not_mem_nil hmem).elim, by simp⟩
        pending := by
          intro entry hentry
          cases List.mem_singleton.mp hentry
          exact ⟨_, rfl, rfl, by simp, rfl, by simp, verdict_fresh _ _ _ hfresh⟩
        deliveries := by
          intro d hd
          apply (h.deliveries d hd).grow rfl (by simp)
          intro hook hsome _
          cases hsome
          rfl
        distinct := h.distinct
        answered := by
          intro id hid
          exact answered_grow rfl h id (by simpa using hid)
        justified := by
          apply h.justified.snoc
          all_goals intros
          all_goals contradiction }

theorem deliver_unknown_sound {s : Exchange} (h : Sound s) (id : ℕ) (verdict : ApprovalVerdict)
    (hnone : s.pending.lookup id = none) :
    Sound (s.log [.delivering id verdict, .delivered id false]) where
  next := h.next
  allocated other serial hmem := h.allocated other serial (by simpa [Exchange.log] using hmem)
  hook hook hsome := (h.hook hook hsome).grow rfl rfl
  pending entry hentry := by
    obtain ⟨hook, hhook, hsound⟩ := h.pending entry hentry
    have hne : id ≠ hook.id := by
      intro heq
      have hkey := List.lookup_eq_none_iff.mp hnone entry hentry
      rw [hsound.own, heq] at hkey
      simp at hkey
    exact ⟨hook, hhook, hsound.grow rfl (by simp [firstDelivered, hne])⟩
  deliveries d hd := (h.deliveries d hd).grow rfl (by simp) (h.deliveries d hd).inbox
  distinct := h.distinct
  answered other hmem := answered_grow rfl h other (by simpa [Exchange.log] using hmem)
  justified := by
    have hboth : Justified (s.events ++ [.delivering id verdict] ++ [.delivered id false]) :=
      (h.justified.delivering id verdict).snoc (by simp) (by simp) (by simp)
    simpa [Exchange.log] using hboth

theorem deliver_taken_sound {s : Exchange} (h : Sound s) (id serial : ℕ)
    (verdict : ApprovalVerdict) (hsome : s.pending.lookup id = some serial) :
    Sound (({ s with
      pending := Exchange.removed s.pending id
      deliveries := s.deliveries ++ [⟨id, verdict, serial⟩] } : Exchange).log
      [.delivering id verdict]) := by
  have hentry : (id, serial) ∈ s.pending := by
    obtain ⟨before, after, hpending, -⟩ := List.lookup_eq_some_iff.mp hsome
    rw [hpending]
    simp
  obtain ⟨hook, hhook, hsound⟩ := h.pending (id, serial) hentry
  have hown := hsound.own
  cases hown
  have hid := (h.hook hook hhook).id
  have hempty := h.removed_pending hhook
  have huntaken : verdictFor hook.id hook.id s.events = none := by
    have hnone := hsound.untaken
    rwa [← hid] at hnone
  exact
    { next := h.next
      allocated := fun other id hmem => h.allocated other id (by simpa [Exchange.log] using hmem)
      hook := fun other hother => (h.hook other hother).grow rfl rfl
      pending := by
        intro entry hmem
        change entry ∈ Exchange.removed s.pending hook.id at hmem
        rw [hempty] at hmem
        cases hmem
      deliveries := by
        intro d hd
        rcases List.mem_append.mp hd with hold | hnew
        · exact (h.deliveries d hold).grow rfl (by simp) (h.deliveries d hold).inbox
        · cases List.mem_singleton.mp hnew
          have hunanswered : .delivered hook.id true ∉ s.events := by
            intro hmem
            obtain ⟨other, hother⟩ := h.answered hook.id hmem
            rw [huntaken] at hother
            cases hother
          have htaken : verdictFor hook.serial hook.id
              (s.events ++ [.delivering hook.id verdict]) = some verdict := by
            rw [verdict_append _ _ _ _ hsound.allocated, hsound.untaken]
            simp [firstDelivered]
          refine ⟨hid.symm, htaken, by simpa [Exchange.log] using hunanswered, ?_⟩
          intro other hother _
          change s.hook = some other at hother
          rw [hhook] at hother
          cases hother
          exact hsound.inbox
      distinct := by
        change ((s.deliveries ++ [Delivery.mk hook.id verdict hook.serial]).map _).Nodup
        rw [List.map_append, List.nodup_append]
        refine ⟨h.distinct, by simp, ?_⟩
        intro other hother last hlast heq
        obtain ⟨d, hd, rfl⟩ := List.mem_map.mp hother
        have hlastId : last = hook.id := by simpa using hlast
        have htaken := (h.deliveries d hd).taken
        rw [(h.deliveries d hd).sender, heq, hlastId, huntaken] at htaken
        cases htaken
      answered := fun other hmem => answered_grow rfl h other (by simpa [Exchange.log] using hmem)
      justified := h.justified.delivering hook.id verdict }

theorem deliver_sound {s : Exchange} (h : Sound s) (id : ℕ) (verdict : ApprovalVerdict) :
    Sound (s.deliver id verdict) := by
  rw [Exchange.deliver]
  cases hlookup : s.pending.lookup id with
  | none => exact deliver_unknown_sound h id verdict hlookup
  | some serial => exact deliver_taken_sound h id serial verdict hlookup

theorem remaining_deliveries {s : Exchange} (h : Sound s) {index : ℕ} {d : Delivery}
    (hd : s.deliveries[index]? = some d) (other : Delivery)
    (hother : other ∈ s.deliveries.eraseIdx index) : other ∈ s.deliveries ∧ other.id ≠ d.id := by
  have hmem := List.mem_of_mem_eraseIdx hother
  refine ⟨hmem, ?_⟩
  intro heq
  obtain ⟨place, hne, hplace⟩ := List.mem_eraseIdx_iff_getElem?.mp hother
  obtain ⟨hlt, hget⟩ := List.getElem?_eq_some_iff.mp hd
  obtain ⟨hltPlace, hgetPlace⟩ := List.getElem?_eq_some_iff.mp hplace
  have hltMap : index < (s.deliveries.map Delivery.id).length := by simpa using hlt
  have hltPlaceMap : place < (s.deliveries.map Delivery.id).length := by simpa using hltPlace
  have hids : (s.deliveries.map Delivery.id)[place] = (s.deliveries.map Delivery.id)[index] := by
    simp [hget, hgetPlace, heq]
  exact hne ((h.distinct.getElem_inj_iff).mp hids)

theorem send_refused_sound {s : Exchange} (h : Sound s) (index id : ℕ) :
    Sound (({ s with deliveries := s.deliveries.eraseIdx index } : Exchange).log
      [.delivered id false]) where
  next := h.next
  allocated other serial hmem := h.allocated other serial (by simpa [Exchange.log] using hmem)
  hook hook hsome := (h.hook hook hsome).grow rfl rfl
  pending entry hentry := by
    obtain ⟨hook, hhook, hsound⟩ := h.pending entry hentry
    exact ⟨hook, hhook, hsound.grow rfl (by simp [firstDelivered])⟩
  deliveries d hd := by
    have hmem := List.mem_of_mem_eraseIdx hd
    exact (h.deliveries d hmem).grow rfl (by simp) (h.deliveries d hmem).inbox
  distinct := ((List.eraseIdx_sublist _ _).map _).nodup h.distinct
  answered other hmem := answered_grow rfl h other (by simpa [Exchange.log] using hmem)
  justified := h.justified.snoc (by simp) (by simp) (by simp)

theorem send_accepted_sound {s : Exchange} (h : Sound s) {index : ℕ} {d : Delivery} {hook : Hook}
    (hd : s.deliveries[index]? = some d) (hhook : s.hook = some hook)
    (hserial : hook.serial = d.sender) :
    Sound (({ s with
      deliveries := s.deliveries.eraseIdx index
      hook := some { hook with inbox := hook.inbox ++ [d.verdict] } } : Exchange).log
      [.delivered d.id true]) := by
  have hsound := h.deliveries d (List.mem_of_getElem? hd)
  have hhookSound := h.hook hook hhook
  have hid : hook.id = d.id := by rw [hhookSound.id, hserial, hsound.sender]
  have htaken : verdictFor hook.serial hook.id s.events = some d.verdict := by
    rw [hserial, hid]
    exact hsound.taken
  have hgrown : HookSound (s.log [.delivered d.id true]) hook := hhookSound.grow rfl rfl
  exact
    { next := h.next
      allocated := fun other id hmem => h.allocated other id (by simpa [Exchange.log] using hmem)
      hook := by
        intro other hother
        cases hother
        refine ⟨hhookSound.id, hhookSound.last, ?_, hgrown.phase⟩
        intro verdict hmem
        rcases List.mem_append.mp hmem with hold | hnew
        · exact hgrown.inbox verdict hold
        · cases List.mem_singleton.mp hnew
          exact verdict_stays _ _ _ _ _ htaken
      pending := by
        intro entry hentry
        obtain ⟨other, hother, hpending⟩ := h.pending entry hentry
        rw [hhook] at hother
        cases hother
        have huntaken := hpending.untaken
        rw [htaken] at huntaken
        cases huntaken
      deliveries := by
        intro other hother
        obtain ⟨hmem, hne⟩ := remaining_deliveries h hd other hother
        apply (h.deliveries other hmem).grow rfl (by simpa using hne)
        intro current hcurrent hsender
        cases hcurrent
        have hclash : d.sender = other.sender := hserial.symm.trans hsender
        rw [hsound.sender, (h.deliveries other hmem).sender] at hclash
        exact absurd hclash.symm hne
      distinct := ((List.eraseIdx_sublist _ _).map _).nodup h.distinct
      answered := by
        intro other hmem
        rcases List.mem_append.mp hmem with hold | hnew
        · exact answered_grow rfl h other hold
        · cases List.mem_singleton.mp hnew
          refine ⟨d.verdict, verdict_stays _ _ _ _ _ ?_⟩
          have hverdict := hsound.taken
          rwa [hsound.sender] at hverdict
      justified := by
        apply h.justified.snoc (by simp) (by simp)
        intro id heq
        cases heq
        exact hsound.unanswered }

theorem send_sound {s : Exchange} (h : Sound s) (index : ℕ) : Sound (s.send index) := by
  rw [Exchange.send]
  cases hd : s.deliveries[index]? with
  | none => exact h
  | some d =>
    cases hhook : s.hook with
    | none =>
      have hrefused := send_refused_sound h index d.id
      rw [hhook] at hrefused
      exact hrefused
    | some hook =>
      by_cases hserial : hook.serial = d.sender
      · have haccepted := send_accepted_sound h hd hhook hserial
        simpa [hserial] using haccepted
      · have hrefused := send_refused_sound h index d.id
        rw [hhook] at hrefused
        simpa [hserial] using hrefused

theorem phase_sound {s : Exchange} (h : Sound s) {hook : Hook} (hhook : s.hook = some hook)
    (phase : HookPhase) (hblocked : ∀ verdict, phase ≠ .returning verdict)
    (hphase : phase ≠ .removing .approve) : Sound (s.withPhase hook phase) where
  next := h.next
  allocated := h.allocated
  hook other hother := by
    cases hother
    have hsound := h.hook hook hhook
    refine ⟨hsound.id, hsound.last, hsound.inbox, ?_⟩
    intro hbad
    rcases hbad with hremoving | hreturning
    · exact absurd hremoving hphase
    · exact absurd hreturning (hblocked .approve)
  pending entry hentry := by
    obtain ⟨other, hother, hsound⟩ := h.pending entry hentry
    rw [hhook] at hother
    cases hother
    exact ⟨_, rfl, hsound.own, hblocked, hsound.inbox, hsound.allocated, hsound.untaken⟩
  deliveries d hd := by
    have hsound := h.deliveries d hd
    refine ⟨hsound.sender, hsound.taken, hsound.unanswered, ?_⟩
    intro other hother
    cases hother
    exact hsound.inbox hook hhook
  distinct := h.distinct
  answered := h.answered
  justified := h.justified

theorem receive_sound {s : Exchange} (h : Sound s) {hook : Hook} (hhook : s.hook = some hook)
    {verdict : ApprovalVerdict} {rest : List ApprovalVerdict}
    (hinbox : hook.inbox = verdict :: rest) :
    Sound (({ s with
      hook := some { hook with phase := .removing verdict, inbox := rest } } : Exchange).log
      [.received hook.serial hook.id verdict]) := by
  have hsound := h.hook hook hhook
  have hverdict := hsound.inbox verdict (by rw [hinbox]; exact List.mem_cons_self)
  have hgrown : HookSound (s.log [.received hook.serial hook.id verdict]) hook :=
    hsound.grow rfl rfl
  exact
    { next := h.next
      allocated := fun other id hmem => h.allocated other id (by simpa [Exchange.log] using hmem)
      hook := by
        intro other hother
        cases hother
        refine ⟨hsound.id, hsound.last, ?_, ?_⟩
        · intro later hlater
          exact hgrown.inbox later (by rw [hinbox]; exact List.mem_cons_of_mem _ hlater)
        · intro hphase
          have happrove : verdict = .approve := by simpa using hphase
          rw [← happrove]
          exact verdict_stays _ _ _ _ _ hverdict
      pending := by
        intro entry hentry
        obtain ⟨other, hother, hpending⟩ := h.pending entry hentry
        rw [hhook] at hother
        cases hother
        have hempty := hpending.inbox
        rw [hinbox] at hempty
        cases hempty
      deliveries := by
        intro d hd
        apply (h.deliveries d hd).grow rfl (by simp)
        intro other hother hserial
        cases hother
        have hempty := (h.deliveries d hd).inbox hook hhook hserial
        rw [hinbox] at hempty
        cases hempty
      distinct := h.distinct
      answered := fun other hmem => answered_grow rfl h other (by simpa [Exchange.log] using hmem)
      justified := by
        apply h.justified.snoc _ (by simp) (by simp)
        intro serial id received heq
        cases heq
        exact hverdict }

theorem remove_sound {s : Exchange} (h : Sound s) {hook : Hook} (hhook : s.hook = some hook)
    {verdict : ApprovalVerdict} (hphase : hook.phase = .removing verdict) :
    Sound { s with
      pending := Exchange.removed s.pending hook.id
      hook := some { hook with phase := .returning verdict } } where
  next := h.next
  allocated := h.allocated
  hook other hother := by
    cases hother
    have hsound := h.hook hook hhook
    refine ⟨hsound.id, hsound.last, hsound.inbox, ?_⟩
    intro hreturning
    have happrove : verdict = .approve := by simpa using hreturning
    exact hsound.phase (.inl (by rw [hphase, happrove]))
  pending entry hentry := by
    change entry ∈ Exchange.removed s.pending hook.id at hentry
    rw [h.removed_pending hhook] at hentry
    cases hentry
  deliveries d hd := by
    have hsound := h.deliveries d hd
    refine ⟨hsound.sender, hsound.taken, hsound.unanswered, ?_⟩
    intro other hother
    cases hother
    exact hsound.inbox hook hhook
  distinct := h.distinct
  answered := h.answered
  justified := h.justified

theorem finish_sound {s : Exchange} (h : Sound s) {hook : Hook} (hhook : s.hook = some hook)
    {verdict : ApprovalVerdict} (hphase : hook.phase = .returning verdict) :
    Sound (({ s with hook := none } : Exchange).log
      [.returned hook.serial hook.id verdict]) where
  next := h.next
  allocated other id hmem := h.allocated other id (by simpa [Exchange.log] using hmem)
  hook other hother := by cases hother
  pending entry hentry := by
    obtain ⟨other, hother, hsound⟩ := h.pending entry hentry
    rw [hhook] at hother
    cases hother
    exact absurd hphase (hsound.blocked verdict)
  deliveries d hd := by
    apply (h.deliveries d hd).grow rfl (by simp)
    intro other hother
    cases hother
  distinct := h.distinct
  answered other hmem := answered_grow rfl h other (by simpa [Exchange.log] using hmem)
  justified := by
    apply h.justified.snoc (by simp) _ (by simp)
    intro serial id heq
    cases heq
    exact (h.hook hook hhook).phase (.inr hphase)

theorem hook_sound {s : Exchange} (h : Sound s) {hook : Hook} (hhook : s.hook = some hook)
    (move : Exchange.HookMove) : Sound (s.hookStep hook move) := by
  cases move with
  | announce connected =>
    cases hphase : hook.phase with
    | announcing =>
      simp only [Exchange.hookStep, hphase]
      cases connected <;> exact phase_sound h hhook _ (by simp) (by simp)
    | _ => simpa [Exchange.hookStep, hphase] using h
  | receive =>
    cases hphase : hook.phase with
    | waiting =>
      simp only [Exchange.hookStep, hphase]
      cases hinbox : hook.inbox with
      | nil => exact h
      | cons verdict rest => exact receive_sound h hhook hinbox
    | _ => simpa [Exchange.hookStep, hphase] using h
  | disconnect =>
    cases hphase : hook.phase with
    | waiting =>
      simp only [Exchange.hookStep, hphase]
      split
      · exact phase_sound h hhook _ (by simp) (by simp)
      · exact h
    | _ => simpa [Exchange.hookStep, hphase] using h
  | timeOut =>
    cases hphase : hook.phase with
    | waiting =>
      simp only [Exchange.hookStep, hphase]
      split
      · exact phase_sound h hhook _ (by simp) (by simp)
      · exact h
    | _ => simpa [Exchange.hookStep, hphase] using h
  | checkStop =>
    cases hphase : hook.phase with
    | checking =>
      simp only [Exchange.hookStep, hphase]
      cases s.stop <;> exact phase_sound h hhook _ (by simp) (by simp)
    | _ => simpa [Exchange.hookStep, hphase] using h
  | remove =>
    cases hphase : hook.phase with
    | removing verdict =>
      simp only [Exchange.hookStep, hphase]
      exact remove_sound h hhook hphase
    | _ => simpa [Exchange.hookStep, hphase] using h
  | finish =>
    cases hphase : hook.phase with
    | returning verdict =>
      simp only [Exchange.hookStep, hphase]
      exact finish_sound h hhook hphase
    | _ => simpa [Exchange.hookStep, hphase] using h

theorem step_sound {s : Exchange} (h : Sound s) (hbound : s.requests < 2 ^ 64) (label : Label) :
    Sound (step s label) := by
  cases label with
  | request => exact request_sound h hbound
  | hook move =>
    cases hhook : s.hook with
    | none => simpa [step, hhook] using h
    | some hook =>
      simp only [step, hhook]
      exact hook_sound h hhook move
  | deliver id verdict => exact deliver_sound h id verdict
  | send index => exact send_sound h index
  | raiseStop =>
    have hsame : (step s .raiseStop).events = s.events ++ [] := (List.append_nil _).symm
    exact
      { next := h.next
        allocated := h.allocated
        hook := fun hook hhook => (h.hook hook hhook).grow hsame rfl
        pending := by
          intro entry hentry
          obtain ⟨hook, hhook, hsound⟩ := h.pending entry hentry
          exact ⟨hook, hhook, hsound.grow hsame rfl⟩
        deliveries := fun d hd =>
          (h.deliveries d hd).grow hsame (by simp) (h.deliveries d hd).inbox
        distinct := h.distinct
        answered := h.answered
        justified := h.justified }

theorem hook_requests (s : Exchange) (hook : Hook) (move : Exchange.HookMove) :
    (s.hookStep hook move).requests = s.requests := by
  fun_cases Exchange.hookStep s hook move <;> simp [Exchange.withPhase, Exchange.log]

theorem step_requests (s : Exchange) (label : Label) :
    s.requests ≤ (step s label).requests := by
  cases label with
  | request =>
    rw [step, Exchange.request]
    cases s.hook with
    | none => exact Nat.le_succ _
    | some hook => exact le_rfl
  | hook move =>
    rw [step]
    cases s.hook with
    | none => exact le_rfl
    | some hook => exact (hook_requests s hook move).ge
  | deliver id verdict =>
    rw [step, Exchange.deliver]
    cases s.pending.lookup id <;> exact le_rfl
  | send index =>
    rw [step]
    fun_cases Exchange.send s index <;> exact le_rfl
  | raiseStop => exact le_rfl

theorem run_requests (labels : List Label) (s : Exchange) :
    s.requests ≤ (run labels s).requests := by
  induction labels generalizing s with
  | nil => exact le_rfl
  | cons label labels ih => exact (step_requests s label).trans (ih _)

theorem run_sound (labels : List Label) (s : Exchange) (h : Sound s)
    (hbound : (run labels s).requests < 2 ^ 64) : Sound (run labels s) := by
  induction labels generalizing s with
  | nil => exact h
  | cons label labels ih =>
    have hearlier : s.requests < 2 ^ 64 :=
      (run_requests (label :: labels) s).trans_lt hbound
    exact ih _ (step_sound h hearlier label) hbound

/-- An approval comes from the first delivery for the call's own id since that id was allocated,
and so does every verdict a call receives; an id is accepted at most once; and no entry is left
once no call is blocked. -/
theorem exchange_exact (labels : List Label) (hbound : (run labels .start).requests < 2 ^ 64) :
    (∀ pre post serial id,
      (run labels .start).events = pre ++ .returned serial id .approve :: post →
        verdictFor serial id pre = some .approve) ∧
    (∀ pre post serial id verdict,
      (run labels .start).events = pre ++ .received serial id verdict :: post →
        verdictFor serial id pre = some verdict) ∧
    (∀ id, (run labels .start).events.count (.delivered id true) ≤ 1) ∧
    ((run labels .start).hook = none → (run labels .start).pending = []) := by
  have hsound := run_sound labels .start start_sound hbound
  exact ⟨hsound.justified.returned, hsound.justified.received, hsound.justified.once,
    hsound.idle_pending⟩

/-- A denial for the id before any call has it, and then an approval of the call that has it. -/
def strayThenApproved : List Label :=
  [.deliver 0 .deny, .request, .hook (.announce true), .deliver 0 .approve, .send 0,
    .hook .receive, .hook .remove, .hook .finish]

theorem exchange_exact_sample :
    (run strayThenApproved .start).pending = [] ∧
    verdictFor 0 0 [.delivering 0 .deny, .delivered 0 false, .allocated 0 0,
      .delivering 0 .approve, .delivered 0 true, .received 0 0 .approve] = some .approve :=
  ⟨(exchange_exact strayThenApproved (by decide)).2.2.2 (by decide),
    (exchange_exact strayThenApproved (by decide)).1 _ [] 0 0 (by decide)⟩

/-- The denial came first for that id, and the call was approved all the same. -/
theorem stray_delivery_forgotten :
    (run strayThenApproved .start).requests < 2 ^ 64 ∧
    ∃ pre post, (run strayThenApproved .start).events = pre ++ .returned 0 0 .approve :: post ∧
      firstDelivered 0 pre = some .deny := by
  refine ⟨by decide, [.delivering 0 .deny, .delivered 0 false, .allocated 0 0,
    .delivering 0 .approve, .delivered 0 true, .received 0 0 .approve], [], ?_, ?_⟩
  · decide
  · rfl

end Siralos.ApprovalExchange
