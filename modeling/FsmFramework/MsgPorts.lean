import FsmFramework.Pump
import FsmFramework.TimerManager

/-!
# What a state machine can reach of its manager

A business state machine acts on its manager in two ways, `SendMsg` and `StartTimer`;
clients and timer threads act on the same two components. `MsgPorts` is the pump together
with the timers, and `MsgPorts.env` is one step of everything around a dispatch: a client's
`SendMsg`, a block of `Start`, `Stop` or `Run`'s exit, a step of a timer thread, a
cancellation.

`lost` is history: the messages nobody will be handed any more, because `SendMsg` rejected
them on a stopped pump or because their timer was cancelled.
-/

namespace FsmFramework

/-- The pump, the timers, and the messages that were lost so far. -/
structure MsgPorts where
  pump : Pump PumpMsg := {}
  timers : TimerManager PumpMsg := {}
  lost : List PumpMsg := []
  deriving DecidableEq, Repr

/-- A step of the surroundings. `start` carries what `_worker_thread.joinable()` answers,
and timers are named by their position in `_timer_list`. -/
inductive EnvLabel
  | sendMsg (n : ℕ) (msg : CMsg)
  | start (joinable : Bool)
  | stop
  | leaveRun
  | timerWake (k : ℕ)
  | timerPost (k : ℕ)
  | stopTimer (timerId : UInt32)
  | stopAllTimers
  deriving DecidableEq, Repr

/-- What a step of the surroundings posts by itself. -/
def EnvLabel.posted : EnvLabel → List PumpMsg
  | .sendMsg n msg => [⟨msg, .client n⟩]
  | _ => []

namespace MsgPorts

/-- `Cfactory_mgr::SendMsg`. -/
def sendMsg (p : MsgPorts) (m : PumpMsg) : EerrNo × MsgPorts :=
  let r := p.pump.sendMsg m
  (r.1, { p with pump := r.2, lost := if r.1 = .success then p.lost else p.lost ++ [m] })

/-- `Cfactory_mgr::StartTimer`. -/
def startTimer (p : MsgPorts) (timeoutMs : UInt32) (timeoutMsg : PumpMsg) : UInt32 × MsgPorts :=
  let r := p.timers.startTimer timeoutMs timeoutMsg
  (r.1, { p with timers := r.2 })

/-- One step of the surroundings. A timer thread's callback is `SendMsg`, whose answer it
ignores. -/
def env (p : MsgPorts) : EnvLabel → Option MsgPorts
  | .sendMsg n msg => some (p.sendMsg ⟨msg, .client n⟩).2
  | .start joinable => some { p with pump := (p.pump.start joinable).2 }
  | .stop => some { p with pump := p.pump.stop }
  | .leaveRun => some { p with pump := p.pump.leaveRun }
  | .timerWake k =>
      (p.timers.wake k).map fun r => { p with timers := r.2, lost := p.lost ++ r.1 }
  | .timerPost k => (p.timers.expire k).map fun r => ({ p with timers := r.2 }.sendMsg r.1).2
  | .stopTimer timerId => some { p with timers := (p.timers.stopTimer timerId).2 }
  | .stopAllTimers => some { p with timers := p.timers.stopAllTimers }

/-- Take the front message of the pump. -/
def pop (p : MsgPorts) : Option (PumpMsg × MsgPorts) :=
  p.pump.pop.map fun r => (r.1, { p with pump := r.2 })

/-- Put a message back in front of the pump. -/
def unpop (m : PumpMsg) (p : MsgPorts) : MsgPorts := { p with pump := p.pump.unpop m }

theorem sendMsg_of_stopped {p : MsgPorts} (h : p.pump.stopped = true) (m : PumpMsg) :
    p.sendMsg m = (.invalidState, { p with lost := p.lost ++ [m] }) := by
  simp [sendMsg, Pump.sendMsg_of_stopped h]

theorem sendMsg_of_running {p : MsgPorts} (h : p.pump.stopped = false) (m : PumpMsg) :
    p.sendMsg m =
      (.success, { p with pump := { p.pump with queue := p.pump.queue ++ [m] } }) := by
  simp [sendMsg, Pump.sendMsg_of_running h]

theorem sendMsg_stopped {p : MsgPorts} {m : PumpMsg} :
    (p.sendMsg m).2.pump.stopped = p.pump.stopped := Pump.sendMsg_stopped _ _

theorem sendMsg_ne_invalidMsg (p : MsgPorts) (m : PumpMsg) : (p.sendMsg m).1 ≠ .invalidMsg := by
  cases h : p.pump.stopped with
  | true => simp [sendMsg_of_stopped h]
  | false => simp [sendMsg_of_running h]

/-- A message is appended, or refused. -/
theorem sendMsg_queue {p : MsgPorts} {m : PumpMsg} :
    p.pump.queue <+: (p.sendMsg m).2.pump.queue := by
  cases h : p.pump.stopped with
  | true => exact (sendMsg_of_stopped h m).symm ▸ List.prefix_rfl
  | false => exact (sendMsg_of_running h m).symm ▸ List.prefix_append _ _

/-- What surrounds a dispatch only appends to the queue. -/
theorem queue_env {p p' : MsgPorts} {l : EnvLabel} (h : p.env l = some p') :
    p.pump.queue <+: p'.pump.queue := by
  cases l with
  | sendMsg n msg => exact Option.some.inj h ▸ sendMsg_queue
  | start joinable =>
      obtain rfl := Option.some.inj h
      exact (Pump.start_queue p.pump joinable).symm ▸ List.prefix_rfl
  | stop | leaveRun | stopTimer | stopAllTimers => exact Option.some.inj h ▸ List.prefix_rfl
  | timerWake k =>
      obtain ⟨r, -, rfl⟩ := Option.map_eq_some_iff.mp h
      exact List.prefix_rfl
  | timerPost k =>
      obtain ⟨r, -, rfl⟩ := Option.map_eq_some_iff.mp h
      exact sendMsg_queue (p := { p with timers := r.2 })

/-- Only `Stop` stops a pump. -/
theorem accepting_env {p p' : MsgPorts} {l : EnvLabel} (h : p.env l = some p')
    (ha : p.pump.stopped = false) (hl : l ≠ .stop) : p'.pump.stopped = false := by
  cases l with
  | sendMsg n msg => exact Option.some.inj h ▸ sendMsg_stopped.trans ha
  | start joinable =>
      obtain rfl := Option.some.inj h
      show (p.pump.start joinable).2.stopped = false
      rw [Pump.start]
      split
      · exact ha
      · split
        · exact ha
        · rfl
  | stop => contradiction
  | leaveRun | stopTimer | stopAllTimers => exact Option.some.inj h ▸ ha
  | timerWake k =>
      obtain ⟨r, -, rfl⟩ := Option.map_eq_some_iff.mp h
      exact ha
  | timerPost k =>
      obtain ⟨r, -, rfl⟩ := Option.map_eq_some_iff.mp h
      exact sendMsg_stopped.trans ha

theorem pop_eq_some_iff {p q : MsgPorts} {m : PumpMsg} :
    p.pop = some (m, q) ↔ p = q.unpop m := by
  simp only [pop, Option.map_eq_some_iff, Prod.mk.injEq]
  constructor
  · rintro ⟨r, hr, rfl, rfl⟩
    rw [unpop, ← Pump.pop_eq_some_iff.mp hr]
  · rintro rfl
    exact ⟨(m, q.pump), Pump.pop_unpop _ _, rfl, rfl⟩

/-- What surrounds a dispatch does not see the message the dispatch took: a step around a
pump with that message put back is the same step without it. -/
theorem env_unpop (p : MsgPorts) (front : PumpMsg) (l : EnvLabel) :
    (p.unpop front).env l = (p.env l).map (unpop front) := by
  have hsend : ∀ (q : MsgPorts) (m : PumpMsg),
      ((q.unpop front).sendMsg m).2 = (q.sendMsg m).2.unpop front := by
    intro q m
    simp only [sendMsg, unpop, Pump.sendMsg_unpop]
  cases l with
  | sendMsg n msg => simp only [env, Option.map_some, hsend]
  | start joinable => simp only [env, unpop, Option.map_some, Pump.start_unpop]
  | stop | leaveRun => rfl
  | timerWake k =>
      cases h : p.timers.wake k <;> simp [env, unpop, h]
  | timerPost k =>
      cases h : p.timers.expire k with
      | none => simp [env, unpop, h]
      | some r =>
          simp only [env, unpop, h, Option.map_some]
          exact congrArg some (hsend { p with timers := r.2 } r.1)
  | stopTimer timerId | stopAllTimers => rfl

/-! ## The messages on their way -/

/-- Every message that some state machine is still to be handed: those in the pump and
those that outstanding timers carry. -/
def pending (p : MsgPorts) : List PumpMsg := p.pump.queue ++ p.timers.outstanding

/-- The messages on their way together with those that were lost: nothing a step posts
leaves this list again except by being dispatched. -/
def traffic (p : MsgPorts) : List PumpMsg := p.pending ++ p.lost

/-- Posting, accepted or refused, adds one message to the traffic. -/
theorem traffic_sendMsg (p : MsgPorts) (m : PumpMsg) :
    (p.sendMsg m).2.traffic.Perm (m :: p.traffic) := by
  cases h : p.pump.stopped with
  | true =>
      rw [sendMsg_of_stopped h]
      simp only [traffic, pending, ← List.append_assoc]
      exact List.perm_append_singleton m _
  | false =>
      rw [sendMsg_of_running h]
      simp only [traffic, pending, List.append_assoc, List.singleton_append]
      exact List.perm_middle

/-- Starting a timer adds its message to the traffic. -/
theorem traffic_startTimer (p : MsgPorts) (ms : UInt32) (m : PumpMsg) :
    (p.startTimer ms m).2.traffic.Perm (m :: p.traffic) := by
  simp only [traffic, pending, startTimer, TimerManager.outstanding_startTimer,
    List.append_assoc, List.singleton_append]
  rw [← List.append_assoc, ← List.append_assoc]
  exact List.perm_middle

/-- A step of the surroundings adds what a client posts, and moves messages from a timer to the
pump or to the lost ones. -/
theorem traffic_env {p p' : MsgPorts} {l : EnvLabel} (h : p.env l = some p') :
    p'.traffic.Perm (l.posted ++ p.traffic) := by
  cases l with
  | sendMsg n msg =>
      simp only [env, Option.some.injEq] at h
      subst h
      exact traffic_sendMsg p _
  | start joinable =>
      simp only [env, Option.some.injEq] at h
      subst h
      simp [traffic, pending, EnvLabel.posted]
  | stop | leaveRun | stopTimer timerId | stopAllTimers =>
      simp only [env, Option.some.injEq] at h
      subst h
      simp [traffic, pending, EnvLabel.posted, Pump.stop, Pump.leaveRun]
  | timerWake k =>
      simp only [env, Option.map_eq_some_iff] at h
      obtain ⟨⟨dropped, tm⟩, hw, rfl⟩ := h
      have hout := TimerManager.outstanding_wake hw
      simp only [traffic, pending, EnvLabel.posted, List.nil_append, List.append_assoc]
      refine List.Perm.append_left _ ?_
      have hswap : (tm.outstanding ++ (p.lost ++ dropped)).Perm
          ((dropped ++ tm.outstanding) ++ p.lost) := by
        rw [← List.append_assoc, List.append_assoc dropped]
        exact List.perm_append_comm
      exact hswap.trans (hout.symm.append_right _)
  | timerPost k =>
      simp only [env, Option.map_eq_some_iff] at h
      obtain ⟨⟨m, tm⟩, he, rfl⟩ := h
      refine (traffic_sendMsg _ _).trans ?_
      have hout := TimerManager.outstanding_expire he
      simp only [traffic, pending, EnvLabel.posted, List.nil_append, List.append_assoc]
      exact List.perm_middle.symm.trans
        (List.Perm.append_left _ (hout.symm.append_right p.lost))

/-- Taking the front message takes it out of the traffic. -/
theorem traffic_unpop (p : MsgPorts) (m : PumpMsg) :
    (p.unpop m).traffic = m :: p.traffic := rfl

end MsgPorts

end FsmFramework
