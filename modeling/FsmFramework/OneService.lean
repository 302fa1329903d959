import FsmFramework.Amplification

/-!
# Each service by itself

The factories of a manager share its pump, its timers and its dispatcher. `ServiceView` is what a
state shows of one of them: the factory with its instances, its own messages and timers, and what
happened in its dispatches. A dispatch for another factory leaves the view as it is, and a dispatch
for this one does the same to any two states with one view; so the factory goes through nothing
that it would not go through as the only one there is.

The ids of the timers are shared, and no part of the view. Nor are the return codes of `ProcessMsg`:
a timer that is given the id zero counts as a failure there, and that depends on how many timers
were started before.

## Main definitions

* `CfactoryMgr.only` — the manager with one of its factories, and what is pending for that one.
* `DispatchState.view` — what a state shows of one service.

## Main results

* `alone_simulation` — the manager with one factory simulates the manager, seen by that factory.
* `service_alone` — every view that a service has among others it has alone.
-/

namespace FsmFramework

/-! ## Views -/

/-- The message is for the factory with this id. -/
def PumpMsg.isOf (serviceId : UInt32) (pm : PumpMsg) : Bool := pm.msg.serviceId = serviceId

/-- A timer without its id. -/
def CTimer.anonymous {α : Type*} (t : CTimer α) : CTimer α := { t with id := 0 }

/-- The factory whose dispatch an event belongs to. -/
def Event.serviceId : Event → UInt32
  | .created facId _ _ _ | .called facId _ _ | .processed facId _ _ _ | .removed facId _ => facId
  | .completed _ event => event.serviceId
  | .returned pm _ _ => pm.msg.serviceId

/-- An event without the return code of `ProcessMsg`. -/
def Event.withoutRet : Event → Event
  | .processed facId inst pm _ => .processed facId inst pm .success
  | .returned pm _ target => .returned pm .success target
  | e => e

/-- The timers that carry messages for this factory, without their ids. -/
def timersOf (serviceId : UInt32) (l : List (CTimer PumpMsg)) : List (CTimer PumpMsg) :=
  (l.map CTimer.anonymous).filter fun t => t.timeoutMsg.isOf serviceId

/-- The events of this factory's dispatches. -/
def eventsOf (serviceId : UInt32) (l : List Event) : List Event :=
  (l.map Event.withoutRet).filter fun e => e.serviceId = serviceId

/-- What there is to see of one service. -/
structure ServiceView where
  factory : Option (Cfactory FsmKind)
  queue : List PumpMsg
  stopped : Bool
  running : Bool
  timers : List (CTimer PumpMsg)
  lost : List PumpMsg
  events : List Event

/-- What a state shows of the service. -/
def DispatchState.view (s : DispatchState FsmKind) (serviceId : UInt32) : ServiceView where
  factory := s.mgr.findFactory serviceId
  queue := s.mgr.pump.queue.filter (·.isOf serviceId)
  stopped := s.mgr.pump.stopped
  running := s.mgr.pump.running
  timers := timersOf serviceId s.mgr.timers.timerList
  lost := s.mgr.lost.filter (·.isOf serviceId)
  events := eventsOf serviceId s.events

/-- The messages and timers that are for this factory. -/
def MsgPorts.only (p : MsgPorts) (serviceId : UInt32) : MsgPorts where
  pump := { p.pump with queue := p.pump.queue.filter (·.isOf serviceId) }
  timers := { p.timers with
    timerList := p.timers.timerList.filter fun t => t.timeoutMsg.isOf serviceId }
  lost := p.lost.filter (·.isOf serviceId)

/-- The manager with this factory alone. -/
def CfactoryMgr.only (m : CfactoryMgr FsmKind) (serviceId : UInt32) : CfactoryMgr FsmKind where
  toMsgPorts := m.toMsgPorts.only serviceId
  facList := m.facList.filter fun fac => fac.facId = serviceId
  facCapacity := (List.length_filter_le _ _).trans m.facCapacity
  facId_nodup := m.facId_nodup.sublist (List.filter_sublist.map _)

/-- No timer is cancelled by its id. -/
def NotById : EnvLabel → Prop
  | .stopTimer _ => False
  | _ => True

/-- Moreover, clients post to this factory only. -/
def OnlyFor (serviceId : UInt32) : EnvLabel → Prop
  | .stopTimer _ => False
  | .sendMsg _ msg => msg.serviceId = serviceId
  | _ => True

variable {serviceId : UInt32} {p p' q : MsgPorts} {pm : PumpMsg} {m a : CfactoryMgr FsmKind}

/-- Timers that differ in their ids only. -/
theorem CTimer.eq_of_anonymous {t t' : CTimer PumpMsg} (h : t'.anonymous = t.anonymous) :
    t'.phase = t.phase ∧ t'.active = t.active ∧ t'.timeoutMsg = t.timeoutMsg := by
  cases t
  cases t'
  simp_all [CTimer.anonymous]

@[simp] theorem timersOf_append {l l' : List (CTimer PumpMsg)} :
    timersOf serviceId (l ++ l') = timersOf serviceId l ++ timersOf serviceId l' := by
  simp [timersOf]

theorem timersOf_cons_own {t : CTimer PumpMsg} {l : List (CTimer PumpMsg)}
    (h : t.timeoutMsg.isOf serviceId = true) :
    timersOf serviceId (t :: l) = t.anonymous :: timersOf serviceId l := by
  simp [timersOf, CTimer.anonymous, h]

theorem timersOf_cons_other {t : CTimer PumpMsg} {l : List (CTimer PumpMsg)}
    (h : t.timeoutMsg.isOf serviceId = false) :
    timersOf serviceId (t :: l) = timersOf serviceId l := by
  simp [timersOf, CTimer.anonymous, h]

@[simp] theorem eventsOf_append {l l' : List Event} :
    eventsOf serviceId (l ++ l') = eventsOf serviceId l ++ eventsOf serviceId l' := by
  simp [eventsOf]

theorem eventsOf_cons {e : Event} {l : List Event} :
    eventsOf serviceId (e :: l) = eventsOf serviceId [e] ++ eventsOf serviceId l :=
  eventsOf_append (l := [e])

theorem Event.serviceId_withoutRet (e : Event) : e.withoutRet.serviceId = e.serviceId := by
  cases e <;> rfl

/-- The events of other factories are not seen. -/
theorem eventsOf_eq_nil {l : List Event} (h : ∀ e ∈ l, e.serviceId ≠ serviceId) :
    eventsOf serviceId l = [] := by
  rw [eventsOf, List.filter_eq_nil_iff]
  intro e he
  obtain ⟨e, hmem, rfl⟩ := List.mem_map.mp he
  simpa [Event.serviceId_withoutRet] using h e hmem

/-- A rule that posts a follow-up does not end the flow. -/
theorem FsmKind.alive_of_hasNext (k : FsmKind) {fsm : Cfsm} {t : FsmTransition FsmAction}
    {event : MsgType} (hk : fsm.state ≠ .killFsm) (hrule : k.rule fsm.state event = some t)
    (hnext : t.hasNext = true) : t.toState ≠ .killFsm := by
  cases hs : fsm.state with
  | idle =>
      obtain ⟨-, hto, -⟩ := k.rule_idle (hs ▸ hrule)
      simp [hto]
  | working =>
      obtain ⟨-, hto, -⟩ | ⟨-, -, hlast⟩ := k.rule_working (hs ▸ hrule)
      · simp [hto]
      · simp [hlast] at hnext
  | killFsm => exact absurd hs hk

/-! ## The ports -/

/-- `q` shows of the service what `p` shows of it, and holds nothing else. -/
structure MsgPorts.Shows (serviceId : UInt32) (p q : MsgPorts) : Prop where
  queue : q.pump.queue = p.pump.queue.filter (·.isOf serviceId)
  stopped : q.pump.stopped = p.pump.stopped
  running : q.pump.running = p.pump.running
  timers : q.timers.timerList.map CTimer.anonymous = timersOf serviceId p.timers.timerList
  lost : q.lost = p.lost.filter (·.isOf serviceId)

namespace MsgPorts

theorem shows_only (p : MsgPorts) (serviceId : UInt32) : p.Shows serviceId (p.only serviceId) where
  queue := rfl
  stopped := rfl
  running := rfl
  timers := by simp [only, timersOf, List.filter_map, Function.comp_def, CTimer.anonymous]
  lost := rfl

/-- A message for this factory is posted in both, or refused in both. -/
theorem Shows.sendMsg_own (h : p.Shows serviceId q) (hfor : pm.isOf serviceId = true) :
    (q.sendMsg pm).1 = (p.sendMsg pm).1 ∧
      (p.sendMsg pm).2.Shows serviceId (q.sendMsg pm).2 := by
  cases hs : p.pump.stopped with
  | true =>
      rw [sendMsg_of_stopped hs, sendMsg_of_stopped (h.stopped.trans hs)]
      exact ⟨rfl, h.queue, h.stopped, h.running, h.timers, by simp [h.lost, hfor]⟩
  | false =>
      rw [sendMsg_of_running hs, sendMsg_of_running (h.stopped.trans hs)]
      exact ⟨rfl, by simp [h.queue, hfor], h.stopped, h.running, h.timers, h.lost⟩

/-- A message for another factory is not seen. -/
theorem Shows.sendMsg_other (h : p.Shows serviceId q) (hfor : pm.isOf serviceId = false) :
    (p.sendMsg pm).2.Shows serviceId q := by
  cases hs : p.pump.stopped with
  | true =>
      rw [sendMsg_of_stopped hs]
      exact ⟨h.queue, h.stopped, h.running, h.timers, by simp [h.lost, hfor]⟩
  | false =>
      rw [sendMsg_of_running hs]
      exact ⟨by simp [h.queue, hfor], h.stopped, h.running, h.timers, h.lost⟩

theorem Shows.startTimer_own {ms : UInt32} (h : p.Shows serviceId q)
    (hfor : pm.isOf serviceId = true) :
    (p.startTimer ms pm).2.Shows serviceId (q.startTimer ms pm).2 where
  queue := h.queue
  stopped := h.stopped
  running := h.running
  timers := by
    simp [startTimer, TimerManager.startTimer, h.timers, timersOf, CTimer.anonymous, hfor]
  lost := h.lost

theorem Shows.startTimer_other {ms : UInt32} (h : p.Shows serviceId q)
    (hfor : pm.isOf serviceId = false) : (p.startTimer ms pm).2.Shows serviceId q where
  queue := h.queue
  stopped := h.stopped
  running := h.running
  timers := by
    simp [startTimer, TimerManager.startTimer, h.timers, timersOf, CTimer.anonymous, hfor]
  lost := h.lost

/-- A list around its `k`-th element. -/
private theorem split_of_getElem? {β : Type*} {l : List β} {k : ℕ} {x : β} (h : l[k]? = some x) :
    ∃ before after, l = before ++ x :: after ∧ before.length = k := by
  obtain ⟨hlt, rfl⟩ := List.getElem?_eq_some_iff.mp h
  exact ⟨l.take k, l.drop (k + 1), by simp, by simp; omega⟩

/-- What a timer's thread does is not seen, if its message is for another factory. -/
theorem Shows.setPhase_other {k : ℕ} {t : CTimer PumpMsg} (h : p.Shows serviceId q)
    (phase : TimerPhase) (ht : p.timers.timerList[k]? = some t)
    (hfor : t.timeoutMsg.isOf serviceId = false) :
    { p with timers := p.timers.setPhase k t phase }.Shows serviceId q := by
  obtain ⟨before, after, hlist, rfl⟩ := split_of_getElem? ht
  refine ⟨h.queue, h.stopped, h.running, ?_, h.lost⟩
  have hfor' : { t with phase := phase }.timeoutMsg.isOf serviceId = false := hfor
  rw [h.timers, TimerManager.setPhase, hlist]
  simp [timersOf_cons_other hfor, timersOf_cons_other hfor']

/-- One timer in two places: they differ in its number and its id, and whatever phase its thread
enters in the one, it shows as if it had entered it in the other. -/
structure SameTimer (serviceId : UInt32) (p q : MsgPorts) (k k' : ℕ) (t t' : CTimer PumpMsg) :
    Prop where
  here : p.timers.timerList[k]? = some t
  there : q.timers.timerList[k']? = some t'
  own : t.timeoutMsg.isOf serviceId = true
  same : t'.anonymous = t.anonymous
  setPhase : ∀ phase, { p with timers := p.timers.setPhase k t phase }.Shows serviceId
    { q with timers := q.timers.setPhase k' t' phase }

/-- Where it stands in the two lists. -/
theorem Shows.sameTimer {before after before' after' : List (CTimer PumpMsg)}
    {t t' : CTimer PumpMsg} (h : p.Shows serviceId q)
    (hlist : p.timers.timerList = before ++ t :: after)
    (hlist' : q.timers.timerList = before' ++ t' :: after')
    (hown : t.timeoutMsg.isOf serviceId = true) (hsame : t'.anonymous = t.anonymous)
    (hbefore : before'.map CTimer.anonymous = timersOf serviceId before)
    (hafter : after'.map CTimer.anonymous = timersOf serviceId after) :
    SameTimer serviceId p q before.length before'.length t t' where
  here := by simp [hlist]
  there := by simp [hlist']
  own := hown
  same := hsame
  setPhase phase := by
    refine ⟨h.queue, h.stopped, h.running, ?_, h.lost⟩
    have hown' : { t with phase := phase }.timeoutMsg.isOf serviceId = true := hown
    have hsame' : { t' with phase := phase }.anonymous = { t with phase := phase }.anonymous :=
      congrArg (fun t : CTimer PumpMsg => { t with phase := phase }) hsame
    rw [TimerManager.setPhase, TimerManager.setPhase, hlist, hlist']
    simp [timersOf_cons_own hown', hbefore, hafter, hsame']

/-- A timer of this factory is in both. -/
theorem Shows.exists_there {k : ℕ} {t : CTimer PumpMsg} (h : p.Shows serviceId q)
    (ht : p.timers.timerList[k]? = some t) (hown : t.timeoutMsg.isOf serviceId = true) :
    ∃ k' t', SameTimer serviceId p q k k' t t' := by
  obtain ⟨before, after, hlist, rfl⟩ := split_of_getElem? ht
  have htimers := h.timers
  rw [hlist, timersOf_append, timersOf_cons_own hown] at htimers
  obtain ⟨before', rest, hlist', hbefore, hrest⟩ := List.map_eq_append_iff.mp htimers
  obtain ⟨t', after', rfl, hsame, hafter⟩ := List.map_eq_cons_iff.mp hrest
  exact ⟨_, _, h.sameTimer hlist hlist' hown hsame hbefore hafter⟩

/-- Any timer of `q` is in both. -/
theorem Shows.exists_here {k' : ℕ} {t' : CTimer PumpMsg} (h : p.Shows serviceId q)
    (ht : q.timers.timerList[k']? = some t') : ∃ k t, SameTimer serviceId p q k k' t t' := by
  obtain ⟨before', after', hlist', rfl⟩ := split_of_getElem? ht
  have htimers := h.timers
  rw [hlist', List.map_append, List.map_cons] at htimers
  obtain ⟨front, rest, hsplit, hfront, hrest⟩ := List.filter_eq_append_iff.mp htimers.symm
  obtain ⟨skipped, rest', rfl, hskipped, hfor, hrest'⟩ := List.filter_eq_cons_iff.mp hrest
  rw [← List.append_assoc] at hsplit
  obtain ⟨before, tail, hlist, hbefore, htail⟩ := List.map_eq_append_iff.mp hsplit
  obtain ⟨t, after, rfl, hsame, rfl⟩ := List.map_eq_cons_iff.mp htail
  refine ⟨_, _, h.sameTimer hlist hlist' ?_ hsame.symm ?_ hrest'.symm⟩
  · have hmsg := (CTimer.eq_of_anonymous hsame).2.2
    rw [hmsg]
    exact hfor
  · rw [timersOf, hbefore, List.filter_append, hfront,
      List.filter_eq_nil_iff.mpr fun x hx => hskipped x hx, List.append_nil]

/-- The thread of such a timer wakes up in both or in none. -/
theorem SameTimer.timerWake {k k' : ℕ} {t t' : CTimer PumpMsg}
    (h : SameTimer serviceId p q k k' t t') (hs : p.Shows serviceId q) :
    Option.Rel (Shows serviceId) (p.env (.timerWake k)) (q.env (.timerWake k')) := by
  obtain ⟨hphase, hactive, hmsg⟩ := CTimer.eq_of_anonymous h.same
  simp only [MsgPorts.env, TimerManager.wake, h.here, h.there, hphase, hactive, hmsg]
  split
  · split
    · exact .some (by simpa using h.setPhase .expired)
    · have hfin := h.setPhase .finished
      exact .some ⟨hfin.queue, hfin.stopped, hfin.running, hfin.timers, by simp [hs.lost, h.own]⟩
  · exact .none

/-- It posts in both or in none. -/
theorem SameTimer.timerPost {k k' : ℕ} {t t' : CTimer PumpMsg}
    (h : SameTimer serviceId p q k k' t t') :
    Option.Rel (Shows serviceId) (p.env (.timerPost k)) (q.env (.timerPost k')) := by
  obtain ⟨hphase, -, hmsg⟩ := CTimer.eq_of_anonymous h.same
  simp only [MsgPorts.env, TimerManager.expire, h.here, h.there, hphase, hmsg]
  split
  · exact .some ((h.setPhase .finished).sendMsg_own h.own).2
  · exact .none

/-- What is no step of a timer's thread, and posts to this factory if it posts at all, does the
same to both. -/
theorem Shows.env_same {l : EnvLabel} (h : p.Shows serviceId q) (hl : OnlyFor serviceId l)
    (hwake : ∀ k, l ≠ .timerWake k) (hpost : ∀ k, l ≠ .timerPost k) :
    Option.Rel (Shows serviceId) (p.env l) (q.env l) := by
  cases l with
  | sendMsg n msg =>
      have hfor : PumpMsg.isOf serviceId ⟨msg, .client n⟩ = true := decide_eq_true hl
      exact .some (h.sendMsg_own hfor).2
  | start joinable =>
      refine .some ?_
      simp only [Pump.start, h.running]
      split
      · exact h
      · split
        · exact h
        · exact ⟨h.queue, rfl, rfl, h.timers, h.lost⟩
  | stop => exact .some ⟨h.queue, rfl, h.running, h.timers, h.lost⟩
  | leaveRun => exact .some ⟨h.queue, h.stopped, rfl, h.timers, h.lost⟩
  | timerWake k => exact absurd rfl (hwake k)
  | timerPost k => exact absurd rfl (hpost k)
  | stopTimer => exact hl.elim
  | stopAllTimers =>
      refine .some ⟨h.queue, h.stopped, h.running, ?_, h.lost⟩
      have htimers := congrArg (List.map fun t : CTimer PumpMsg => { t with active := false })
        h.timers
      simpa [TimerManager.stopAllTimers, timersOf, List.filter_map, Function.comp_def,
        CTimer.anonymous] using htimers

/-- A step of the surroundings is not seen, or is one around the factory alone. -/
theorem Shows.env {l : EnvLabel} (h : p.Shows serviceId q) (hl : NotById l)
    (hp : p.env l = some p') : p'.Shows serviceId q ∨
      ∃ l', OnlyFor serviceId l' ∧ Option.Rel (Shows serviceId) (some p') (q.env l') := by
  cases l with
  | sendMsg n msg =>
      by_cases hmsg : msg.serviceId = serviceId
      · exact .inr ⟨.sendMsg n msg, hmsg, hp ▸ h.env_same hmsg (by simp) (by simp)⟩
      · obtain rfl := Option.some.inj hp
        exact .inl (h.sendMsg_other (decide_eq_false hmsg))
  | start joinable =>
      exact .inr ⟨.start joinable, trivial, hp ▸ h.env_same trivial (by simp) (by simp)⟩
  | stop => exact .inr ⟨.stop, trivial, hp ▸ h.env_same trivial (by simp) (by simp)⟩
  | leaveRun => exact .inr ⟨.leaveRun, trivial, hp ▸ h.env_same trivial (by simp) (by simp)⟩
  | stopAllTimers =>
      exact .inr ⟨.stopAllTimers, trivial, hp ▸ h.env_same trivial (by simp) (by simp)⟩
  | timerWake k =>
      obtain ⟨⟨dropped, tm⟩, hwake, rfl⟩ := Option.map_eq_some_iff.mp hp
      obtain ⟨t, ht, hsleep, hcase⟩ := TimerManager.wake_some hwake
      cases hfor : t.timeoutMsg.isOf serviceId with
      | true =>
          obtain ⟨k', t', hsame⟩ := h.exists_there ht hfor
          exact .inr ⟨.timerWake k', trivial, hp ▸ hsame.timerWake h⟩
      | false =>
          left
          obtain ⟨-, rfl, rfl⟩ | ⟨-, rfl, rfl⟩ := hcase
          · simpa using h.setPhase_other .expired ht hfor
          · have hfin := h.setPhase_other .finished ht hfor
            exact ⟨hfin.queue, hfin.stopped, hfin.running, hfin.timers, by simp [h.lost, hfor]⟩
  | timerPost k =>
      obtain ⟨⟨posted, tm⟩, hexpire, rfl⟩ := Option.map_eq_some_iff.mp hp
      obtain ⟨t, ht, hexpired, rfl, rfl⟩ := TimerManager.expire_some hexpire
      cases hfor : t.timeoutMsg.isOf serviceId with
      | true =>
          obtain ⟨k', t', hsame⟩ := h.exists_there ht hfor
          exact .inr ⟨.timerPost k', trivial, hp ▸ hsame.timerPost⟩
      | false => exact .inl ((h.setPhase_other .finished ht hfor).sendMsg_other hfor)
  | stopTimer => exact hl.elim

/-- A step around the factory alone is one that can be taken among others. -/
theorem Shows.env_back {l : EnvLabel} {q' : MsgPorts} (h : p.Shows serviceId q)
    (hl : OnlyFor serviceId l) (hq : q.env l = some q') :
    ∃ l', NotById l' ∧ Option.Rel (Shows serviceId) (p.env l') (some q') := by
  cases l with
  | sendMsg n msg => exact ⟨.sendMsg n msg, trivial, hq ▸ h.env_same hl (by simp) (by simp)⟩
  | start joinable => exact ⟨.start joinable, trivial, hq ▸ h.env_same hl (by simp) (by simp)⟩
  | stop => exact ⟨.stop, trivial, hq ▸ h.env_same hl (by simp) (by simp)⟩
  | leaveRun => exact ⟨.leaveRun, trivial, hq ▸ h.env_same hl (by simp) (by simp)⟩
  | stopAllTimers => exact ⟨.stopAllTimers, trivial, hq ▸ h.env_same hl (by simp) (by simp)⟩
  | timerWake k =>
      obtain ⟨r, hwake, -⟩ := Option.map_eq_some_iff.mp hq
      obtain ⟨t', ht, -⟩ := TimerManager.wake_some hwake
      obtain ⟨k', t, hsame⟩ := h.exists_here ht
      exact ⟨.timerWake k', trivial, hq ▸ hsame.timerWake h⟩
  | timerPost k =>
      obtain ⟨r, hexpire, -⟩ := Option.map_eq_some_iff.mp hq
      obtain ⟨t', ht, -⟩ := TimerManager.expire_some hexpire
      obtain ⟨k', t, hsame⟩ := h.exists_here ht
      exact ⟨.timerPost k', trivial, hq ▸ hsame.timerPost⟩
  | stopTimer => exact hl.elim

/-- The front message can be taken. -/
theorem exists_unpop {after : List PumpMsg} (h : p.pump.queue = pm :: after) :
    ∃ q : MsgPorts, p = q.unpop pm ∧ q.pump.queue = after := by
  refine ⟨{ p with pump := { p.pump with queue := after } }, ?_, rfl⟩
  obtain ⟨⟨queue, stopped, running⟩, timers, lost⟩ := p
  obtain rfl : queue = pm :: after := h
  rfl

/-- Taking a message for another factory out of the queue is not seen. -/
theorem Shows.unpop_other (h : (p.unpop pm).Shows serviceId q)
    (hfor : pm.isOf serviceId = false) : p.Shows serviceId q where
  queue := by simpa [unpop, Pump.unpop, hfor] using h.queue
  stopped := h.stopped
  running := h.running
  timers := h.timers
  lost := h.lost

/-- One for this factory is the front message of both. -/
theorem Shows.unpop_own (h : (p.unpop pm).Shows serviceId q) (hfor : pm.isOf serviceId = true) :
    ∃ q', q = q'.unpop pm ∧ p.Shows serviceId q' := by
  obtain ⟨⟨queue, stopped, running⟩, timers, lost⟩ := q
  obtain ⟨hqueue, hstopped, hrunning, htimers, hlost⟩ := h
  obtain rfl : queue = pm :: p.pump.queue.filter (·.isOf serviceId) := by
    simpa [unpop, Pump.unpop, hfor] using hqueue
  exact ⟨⟨⟨_, stopped, running⟩, timers, lost⟩, rfl, rfl, hstopped, hrunning, htimers, hlost⟩

/-! ## Dispatches -/

section ProcessMsg

variable (facId : UInt32) (fsm : Cfsm) (msg : CMsg)

theorem Shows.postNextEvent_own (h : p.Shows serviceId q) (tr : FsmTransition FsmAction)
    (hmsg : msg.serviceId = serviceId) :
    (postNextEvent facId tr msg fsm p).2.Shows serviceId (postNextEvent facId tr msg fsm q).2 := by
  have hfor : ∀ sender, PumpMsg.isOf serviceId ⟨nextMsg fsm msg tr.nextEvent, sender⟩ = true :=
    fun _ => decide_eq_true hmsg
  rw [postNextEvent, postNextEvent]
  split
  · exact (h.sendMsg_own (hfor _)).2
  · exact h.startTimer_own (hfor _)

/-- A machine of another factory posts to that factory. -/
theorem Shows.processMsg_other (h : p.Shows serviceId q) (k : FsmKind)
    (hmsg : msg.serviceId ≠ serviceId) :
    (BusinessFsm.processMsg k facId fsm msg p).2.2.Shows serviceId q := by
  rcases k.ports_processMsg facId fsm msg p with heq | ⟨t, -, heq⟩
  · exact heq.symm ▸ h
  · have hfor : ∀ fsm sender, PumpMsg.isOf serviceId ⟨nextMsg fsm msg t.nextEvent, sender⟩ =
        false := fun _ _ => decide_eq_false hmsg
    show (k.processMsg facId fsm msg p).2.2.Shows serviceId q
    rw [heq, postNextEvent]
    split
    · exact h.sendMsg_other (hfor _ _)
    · exact h.startTimer_other (hfor _ _)

/-- A machine of this factory does the same over both, and returns the same where it ends. -/
theorem Shows.processMsg_own (h : p.Shows serviceId q) (k : FsmKind)
    (hmsg : msg.serviceId = serviceId) :
    (BusinessFsm.processMsg k facId fsm msg q).2.1 =
        (BusinessFsm.processMsg k facId fsm msg p).2.1 ∧
      (BusinessFsm.processMsg k facId fsm msg p).2.2.Shows serviceId
        (BusinessFsm.processMsg k facId fsm msg q).2.2 ∧
      ((BusinessFsm.processMsg k facId fsm msg p).2.1.state = .killFsm →
        (BusinessFsm.processMsg k facId fsm msg q).1 =
          (BusinessFsm.processMsg k facId fsm msg p).1) := by
  have heq : ∀ w, BusinessFsm.processMsg k facId fsm msg w =
      executeFsmTransition runAction (postNextEvent facId) k.getTransitions fsm msg w :=
    fun w => k.processMsg_eq facId fsm msg w
  rw [heq, heq]
  by_cases hk : fsm.state = .killFsm
  · rw [executeFsmTransition_kill hk, executeFsmTransition_kill hk]
    exact ⟨rfl, h, fun _ => rfl⟩
  cases hrule : findFsmTransition k.getTransitions fsm.state msg.type with
  | none =>
      rw [executeFsmTransition_none hk hrule, executeFsmTransition_none hk hrule]
      exact ⟨rfl, h, fun _ => rfl⟩
  | some t =>
      cases hnext : t.hasNext with
      | false =>
          rw [executeFsmTransition_last hk hrule hnext, executeFsmTransition_last hk hrule hnext]
          exact ⟨rfl, h, fun _ => rfl⟩
      | true =>
          rw [executeFsmTransition_next hk hrule hnext, executeFsmTransition_next hk hrule hnext]
          have hposts := h.postNextEvent_own facId (fsm.setState t.toState) msg t hmsg
          refine ⟨rfl, hposts, fun hkill => ?_⟩
          rw [Cfsm.setState_state] at hkill
          exact absurd hkill (k.alive_of_hasNext hk hrule hnext)

end ProcessMsg

end MsgPorts

/-- `a` shows of the service what `m` shows of it. -/
structure CfactoryMgr.Shows (serviceId : UInt32) (m a : CfactoryMgr FsmKind) : Prop where
  factory : a.findFactory serviceId = m.findFactory serviceId
  ports : m.toMsgPorts.Shows serviceId a.toMsgPorts

/-- What a dispatch comes back with, seen from the service. -/
structure DispatchResult.Shows (serviceId : UInt32) (r r' : DispatchResult FsmKind) : Prop where
  mgr : r.mgr.Shows serviceId r'.mgr
  events : eventsOf serviceId r'.events = eventsOf serviceId r.events

namespace CfactoryMgr

variable {fac fac' : Cfactory FsmKind} {fsm : Cfsm}

theorem shows_only (m : CfactoryMgr FsmKind) (serviceId : UInt32) :
    m.Shows serviceId (m.only serviceId) where
  factory := by
    cases h : m.findFactory serviceId with
    | some fac => exact KeyedList.lookup_filter h (decide_eq_true (findFactory_facId h))
    | none =>
        have hno := KeyedList.lookup_eq_none_iff.mp h
        exact KeyedList.lookup_eq_none_iff.mpr fun x hx => hno x (List.mem_of_mem_filter hx)
  ports := m.toMsgPorts.shows_only serviceId

/-- Writing to another factory is not seen. -/
theorem Shows.setFactory_other (h : m.Shows serviceId a) (fac : Cfactory FsmKind)
    (hid : fac.facId ≠ serviceId) : (m.setFactory fac).Shows serviceId a where
  factory := h.factory.trans (findFactory_setFactory_of_ne hid).symm
  ports := h.ports

theorem Shows.setFactory_own (h : m.Shows serviceId a)
    (hfac : m.findFactory serviceId = some fac) (fac' : Cfactory FsmKind)
    (hid : fac'.facId = serviceId) : (m.setFactory fac').Shows serviceId (a.setFactory fac') where
  factory := by
    rw [findFactory_setFactory hfac hid, findFactory_setFactory (h.factory.trans hfac) hid]
  ports := h.ports

/-- Removing an instance of another factory is not seen. -/
theorem Shows.killFsm_other {fsmId : UInt32} (h : m.Shows serviceId a)
    (hid : fac.facId ≠ serviceId) : (m.killFsm fac fsmId).1.Shows serviceId a :=
  h.setFactory_other _ (Cfactory.killFsm_facId.trans_ne hid)

theorem Shows.killFsm_own {fsmId : UInt32} (h : m.Shows serviceId a)
    (hfac : m.findFactory serviceId = some fac) (hid : fac.facId = serviceId) :
    (m.killFsm fac fsmId).1.Shows serviceId (a.killFsm fac fsmId).1 :=
  h.setFactory_own hfac _ (Cfactory.killFsm_facId.trans hid)

/-- A dispatch to an instance of another factory is not seen. -/
theorem Shows.dispatchToFsm_other (h : m.Shows serviceId a) (fsm : Cfsm)
    (hid : fac.facId ≠ serviceId) (hmsg : pm.msg.serviceId ≠ serviceId) :
    (m.dispatchToFsm fac fsm pm).mgr.Shows serviceId a ∧
      eventsOf serviceId (m.dispatchToFsm fac fsm pm).events = [] := by
  have hports := h.ports.processMsg_other fac.facId fsm { pm.msg with fsmId := fsm.fsmId }
    fac.kind hmsg
  simp only [dispatchToFsm]
  generalize BusinessFsm.processMsg fac.kind fac.facId fsm _ m.toMsgPorts = r at hports ⊢
  have hset : ((m.setFactory (fac.setState fsm.inst r.2.1.state)).withPorts r.2.2).Shows
      serviceId a :=
    ⟨(h.setFactory_other (fac.setState fsm.inst r.2.1.state) hid).factory, hports⟩
  split
  · refine ⟨hset.killFsm_other hid, eventsOf_eq_nil ?_⟩
    intro e he
    simp only [List.mem_append, List.mem_cons, List.not_mem_nil, or_false,
      mem_killFsm_events] at he
    rcases he with ((rfl | rfl | rfl | rfl | rfl) | rfl | ⟨_, -, rfl⟩) | rfl
    all_goals assumption
  · refine ⟨hset, eventsOf_eq_nil ?_⟩
    simp [Event.serviceId, hid, hmsg]

/-- A dispatch to an instance of this factory does the same in both. -/
theorem Shows.dispatchToFsm_own (h : m.Shows serviceId a) (fsm : Cfsm)
    (hfac : m.findFactory serviceId = some fac') (hid : fac.facId = serviceId)
    (hmsg : pm.msg.serviceId = serviceId) :
    (m.dispatchToFsm fac fsm pm).Shows serviceId (a.dispatchToFsm fac fsm pm) := by
  obtain ⟨hfsm, hports, hret⟩ := h.ports.processMsg_own fac.facId fsm
    { pm.msg with fsmId := fsm.fsmId } fac.kind hmsg
  simp only [dispatchToFsm, hfsm]
  generalize BusinessFsm.processMsg fac.kind fac.facId fsm _ m.toMsgPorts = r at hports hret ⊢
  generalize BusinessFsm.processMsg fac.kind fac.facId fsm _ a.toMsgPorts = r' at hports hret ⊢
  have hset : ((m.setFactory (fac.setState fsm.inst r.2.1.state)).withPorts r.2.2).Shows
      serviceId ((a.setFactory (fac.setState fsm.inst r.2.1.state)).withPorts r'.2.2) :=
    ⟨(h.setFactory_own hfac (fac.setState fsm.inst r.2.1.state) hid).factory, hports⟩
  split
  · rename_i hkill
    rw [hret hkill]
    exact ⟨hset.killFsm_own (findFactory_setFactory hfac hid) hid, rfl⟩
  · exact ⟨hset, by simp [eventsOf, Event.withoutRet]⟩

/-- A message for another factory is not seen. -/
theorem Shows.dispatchMsg_other (h : m.Shows serviceId a) (hmsg : pm.msg.serviceId ≠ serviceId) :
    (m.dispatchMsg pm).mgr.Shows serviceId a ∧
      eventsOf serviceId (m.dispatchMsg pm).events = [] := by
  have hreturned : ∀ ret target, eventsOf serviceId [.returned pm ret target] = [] :=
    fun _ _ => eventsOf_eq_nil (by simpa [Event.serviceId] using hmsg)
  rw [dispatchMsg]
  split
  · exact ⟨h, hreturned _ _⟩
  rename_i fac hfac
  have hid : fac.facId ≠ serviceId := (findFactory_facId hfac).trans_ne hmsg
  rw [facMsgPrc]
  split
  · exact h.dispatchToFsm_other _ hid hmsg
  split
  · exact ⟨h, hreturned _ _⟩
  split
  · exact ⟨h, hreturned _ _⟩
  rename_i fsm fac' hadd
  have hid' : fac'.facId ≠ serviceId := (Cfactory.addFsm_some hadd).2.1.trans_ne hid
  obtain ⟨hmgr, hevents⟩ := (h.setFactory_other fac' hid').dispatchToFsm_other fsm hid' hmsg
  refine ⟨hmgr, ?_⟩
  have hcreated : eventsOf serviceId [.created fac.facId fsm.inst fsm.fsmId pm] = [] :=
    eventsOf_eq_nil (by simpa [Event.serviceId] using hid)
  rw [eventsOf_cons, hcreated, hevents, List.nil_append]

/-- A dispatch only appends to the queue. -/
theorem queue_dispatchMsg : m.pump.queue <+: (m.dispatchMsg pm).mgr.pump.queue := by
  rcases ports_dispatchMsg m pm with heq | ⟨fac, fsm, -, -, heq⟩
  · rw [heq]
  · rw [heq]
    exact fac.kind.queue_processMsg _ _ _ _

/-- A message for this factory does the same in both. -/
theorem Shows.dispatchMsg_own (h : m.Shows serviceId a) (hmsg : pm.msg.serviceId = serviceId) :
    (m.dispatchMsg pm).Shows serviceId (a.dispatchMsg pm) := by
  rw [dispatchMsg, dispatchMsg, hmsg, h.factory]
  cases hfac : m.findFactory serviceId with
  | none => exact ⟨h, rfl⟩
  | some fac =>
      have hid : fac.facId = serviceId := findFactory_facId hfac
      simp only [facMsgPrc]
      split
      · exact h.dispatchToFsm_own _ hfac hid hmsg
      split
      · exact ⟨h, rfl⟩
      split
      · exact ⟨h, rfl⟩
      rename_i fsm fac' hadd
      have hid' : fac'.facId = serviceId := (Cfactory.addFsm_some hadd).2.1.trans hid
      obtain ⟨hmgr, hevents⟩ := (h.setFactory_own hfac fac' hid').dispatchToFsm_own fsm
        (findFactory_setFactory hfac hid') hid' hmsg
      exact ⟨hmgr, by rw [eventsOf_cons, hevents, ← eventsOf_cons]⟩

end CfactoryMgr

/-! ## Runs -/

/-- `a` is a state of the manager with one factory that shows what `s` shows. -/
structure SeqState.Shows (serviceId : UInt32) (s a : SeqState FsmKind) : Prop where
  mgr : s.mgr.Shows serviceId a.mgr
  events : eventsOf serviceId a.events = eventsOf serviceId s.events

namespace SeqState

variable {s s' b b' : SeqState FsmKind}

/-- Where the manager is after it has dispatched this message from these ports. -/
def dispatched (s : SeqState FsmKind) (p : MsgPorts) (pm : PumpMsg) : SeqState FsmKind where
  mgr := ((s.mgr.withPorts p).dispatchMsg pm).mgr
  events := s.events ++ ((s.mgr.withPorts p).dispatchMsg pm).events

theorem step_dispatched (hports : s.mgr.toMsgPorts = p.unpop pm) :
    s.step .dispatch = some (s.dispatched p pm) :=
  step_dispatch_iff.mpr ⟨pm, p, hports, rfl⟩

/-- A dispatch for another factory is not seen. -/
theorem Shows.dispatched_other (h : s.Shows serviceId b) (hports : s.mgr.toMsgPorts = p.unpop pm)
    (hmsg : pm.msg.serviceId ≠ serviceId) : (s.dispatched p pm).Shows serviceId b := by
  have hshows := h.mgr.ports
  rw [hports] at hshows
  have hmgr : (s.mgr.withPorts p).Shows serviceId b.mgr :=
    ⟨h.mgr.factory, hshows.unpop_other (decide_eq_false hmsg)⟩
  obtain ⟨hmgr', hnone⟩ := hmgr.dispatchMsg_other hmsg
  exact ⟨hmgr', by rw [dispatched, eventsOf_append, hnone, List.append_nil, h.events]⟩

/-- A dispatch for this factory can be made by the factory alone as well. -/
theorem Shows.dispatched_own (h : s.Shows serviceId b) (hports : s.mgr.toMsgPorts = p.unpop pm)
    (hmsg : pm.msg.serviceId = serviceId) :
    ∃ b', b.step .dispatch = some b' ∧ (s.dispatched p pm).Shows serviceId b' := by
  have hshows := h.mgr.ports
  rw [hports] at hshows
  obtain ⟨q, hq, hrest⟩ := hshows.unpop_own (decide_eq_true hmsg)
  have hmgr : (s.mgr.withPorts p).Shows serviceId (b.mgr.withPorts q) := ⟨h.mgr.factory, hrest⟩
  have hr := hmgr.dispatchMsg_own hmsg
  refine ⟨b.dispatched q pm, step_dispatched hq, hr.mgr, ?_⟩
  rw [dispatched, dispatched, eventsOf_append, eventsOf_append, h.events, hr.events]

/-- The messages for others that stand in front of one for this factory are dispatched first. -/
theorem Shows.skip {before after : List PumpMsg} (h : s.Shows serviceId b)
    (hqueue : s.mgr.pump.queue = before ++ pm :: after)
    (hothers : ∀ x ∈ before, x.msg.serviceId ≠ serviceId) :
    ∃ s₁ after₁, (seqSystem m).RunVia (admits NotById) s s₁ ∧ s₁.Shows serviceId b ∧
      s₁.mgr.pump.queue = pm :: after₁ := by
  induction before generalizing s after with
  | nil => exact ⟨s, after, Lts.RunVia.refl s, h, hqueue⟩
  | cons x before ih =>
      obtain ⟨p, hp, hrest⟩ := MsgPorts.exists_unpop hqueue
      have hstep : (seqSystem m).RunVia (admits NotById) s (s.dispatched p x) :=
        Lts.RunVia.single (a := .dispatch) trivial (step_dispatched hp)
      have hshows := h.dispatched_other hp (hothers x List.mem_cons_self)
      obtain ⟨posted, hposted⟩ : p.pump.queue <+: (s.dispatched p x).mgr.pump.queue :=
        CfactoryMgr.queue_dispatchMsg (m := s.mgr.withPorts p)
      have hqueue' : (s.dispatched p x).mgr.pump.queue = before ++ pm :: (after ++ posted) := by
        rw [← hposted, hrest]
        exact List.append_assoc before (pm :: after) posted
      obtain ⟨s₁, after₁, hrun, hend⟩ :=
        ih hshows hqueue' fun y hy => hothers y (List.mem_cons_of_mem x hy)
      exact ⟨s₁, after₁, hstep.trans hrun, hend⟩

/-- What surrounds the dispatches does the same to both, or is not seen. -/
theorem Shows.env {l : EnvLabel} (h : s.Shows serviceId b) (hl : NotById l)
    (hs : s.step (.env l) = some s') : s'.Shows serviceId b ∨
      ∃ l' b', OnlyFor serviceId l' ∧ b.step (.env l') = some b' ∧ s'.Shows serviceId b' := by
  obtain ⟨p, hp, rfl⟩ := SeqState.step_env_iff.mp hs
  obtain hshows | ⟨l', hl', hrel⟩ := h.mgr.ports.env hl hp
  · exact .inl ⟨⟨h.mgr.factory, hshows⟩, h.events⟩
  · generalize hq : b.mgr.env l' = o at hrel
    cases hrel with
    | some hshows =>
        exact .inr ⟨l', _, hl', SeqState.step_env_iff.mpr ⟨_, hq, rfl⟩,
          ⟨h.mgr.factory, hshows⟩, h.events⟩

/-- What is done around the factory alone can be done around it among others. -/
theorem Shows.env_back {l : EnvLabel} (h : s.Shows serviceId b) (hl : OnlyFor serviceId l)
    (hb : b.step (.env l) = some b') :
    ∃ l' s', NotById l' ∧ s.step (.env l') = some s' ∧ s'.Shows serviceId b' := by
  obtain ⟨q, hq, rfl⟩ := SeqState.step_env_iff.mp hb
  obtain ⟨l', hl', hrel⟩ := h.mgr.ports.env_back hl hq
  generalize hp : s.mgr.env l' = o at hrel
  cases hrel with
  | some hshows =>
      exact ⟨l', _, hl', step_env_iff.mpr ⟨_, hp, rfl⟩, ⟨h.mgr.factory, hshows⟩, h.events⟩

/-- A dispatch of the factory alone comes about among others when its message comes to the front. -/
theorem Shows.dispatch_back (h : s.Shows serviceId b) (hb : b.step .dispatch = some b') :
    ∃ s', (seqSystem m).RunVia (admits NotById) s s' ∧ s'.Shows serviceId b' := by
  obtain ⟨pm, q, hports, rfl⟩ := step_dispatch_iff.mp hb
  have hqueue := h.mgr.ports.queue
  rw [hports] at hqueue
  obtain ⟨before, after, hsplit, hothers, hfor, -⟩ := List.filter_eq_cons_iff.mp hqueue.symm
  obtain ⟨s₁, after₁, hrun, h₁, hfront⟩ := h.skip (m := m) hsplit
    fun x hx => of_decide_eq_false (Bool.eq_false_of_not_eq_true (hothers x hx))
  obtain ⟨p, hp, -⟩ := MsgPorts.exists_unpop hfront
  obtain ⟨b₁, hb₁, hshows⟩ := h₁.dispatched_own hp (of_decide_eq_true hfor)
  obtain rfl := Option.some.inj (hb.symm.trans hb₁)
  have hstep : (seqSystem m).step s₁ .dispatch = some (s₁.dispatched p pm) := step_dispatched hp
  exact ⟨s₁.dispatched p pm, hrun.tail (a := SeqLabel.dispatch) trivial hstep, hshows⟩

/-- What shows the service has its view. -/
theorem Shows.view (h : s.Shows serviceId b) :
    (DispatchState.resting b.mgr b.events).view serviceId =
      (DispatchState.resting s.mgr s.events).view serviceId := by
  obtain ⟨⟨hfactory, hqueue, hstopped, hrunning, htimers, hlost⟩, hevents⟩ := h
  simp [DispatchState.view, DispatchState.resting, hfactory, hqueue, hstopped, hrunning, hlost,
    hevents, timersOf, htimers]

end SeqState

/-- **The factory alone can do what it does among others.** -/
theorem alone_simulation : Lts.Simulation (seqSystem m) (admits NotById)
    (seqSystem (m.only serviceId)) (admits (OnlyFor serviceId)) (SeqState.Shows serviceId) where
  init := by
    rintro s rfl
    exact ⟨_, rfl, m.shows_only serviceId, rfl⟩
  step := by
    intro s l s' b _ _ h hg hs
    cases l with
    | env l =>
        obtain h' | ⟨l', b', hl', hb, h'⟩ := h.env hg hs
        · exact ⟨b, Lts.RunVia.refl b, h'⟩
        · exact ⟨b', Lts.RunVia.single (a := .env l') hl' hb, h'⟩
    | dispatch =>
        obtain ⟨pm, p, hports, rfl⟩ := SeqState.step_dispatch_iff.mp hs
        by_cases hmsg : pm.msg.serviceId = serviceId
        · obtain ⟨b', hb, h'⟩ := h.dispatched_own hports hmsg
          exact ⟨b', Lts.RunVia.single (a := .dispatch) trivial hb, h'⟩
        · exact ⟨b, Lts.RunVia.refl b, h.dispatched_other hports hmsg⟩

/-- **Among others it can do what it does alone.** -/
theorem among_simulation : Lts.Simulation (seqSystem (m.only serviceId))
    (admits (OnlyFor serviceId)) (seqSystem m) (admits NotById)
    (fun b s => s.Shows serviceId b) where
  init := by
    rintro b rfl
    exact ⟨_, rfl, m.shows_only serviceId, rfl⟩
  step := by
    intro b l b' s _ _ h hg hb
    cases l with
    | env l =>
        obtain ⟨l', s', hl', hs, h'⟩ := h.env_back hg hb
        exact ⟨s', Lts.RunVia.single (a := .env l') hl' hs, h'⟩
    | dispatch => exact h.dispatch_back hb

/-- The service shows this view between two dispatches of some run from `m`. -/
def HasView (m : CfactoryMgr FsmKind) (E : EnvLabel → Prop) (serviceId : UInt32)
    (v : ServiceView) : Prop :=
  ∃ s, (dispatchSystem m).ReachableVia (serial E) s ∧ s.Quiet ∧ s.view serviceId = v

/-- **Each service by itself.** In a manager with any factories, as long as no timer is cancelled by
its id, what a service can show between two dispatches is exactly what it can show in the manager
that has this factory only, and to which clients post for this factory only: its instances, its
pending and lost messages and its timers in the same order, and the same events of its dispatches.
The other factories can neither bring it into a state of their making nor keep it from one. -/
theorem service_alone (m : CfactoryMgr FsmKind) (serviceId : UInt32) (v : ServiceView) :
    HasView m NotById serviceId v ↔ HasView (m.only serviceId) (OnlyFor serviceId) serviceId v := by
  constructor
  case mp =>
    rintro ⟨s, hs, hq, rfl⟩
    obtain ⟨b, hb, hshows⟩ := alone_simulation.reachable (seq_reachable_of_quiet hs hq)
    exact ⟨_, resting_reachable hb, fun _ => rfl, hshows.view⟩
  case mpr =>
    rintro ⟨s, hs, hq, rfl⟩
    obtain ⟨a, ha, hshows⟩ := among_simulation.reachable (seq_reachable_of_quiet hs hq)
    exact ⟨_, resting_reachable ha, fun _ => rfl, hshows.view.symm⟩

end FsmFramework
