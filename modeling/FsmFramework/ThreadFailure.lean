import FsmFramework.Pump
import FsmFramework.TimerCancel

/-!
# When a thread cannot be created

The constructor of `std::thread` throws when the system has no thread left. `Cfactory_mgr::Start`
and `TimerManager::StartTimer` do not catch the exception, and both have changed the object by
then: `Start` has set its flags, `StartTimer` has listed an active control block. Neither takes
that back.
-/

namespace FsmFramework

namespace Pump

variable {α : Type*}

/-- `Start`, with the constructor of the worker thread as it turns out. `none` is the call that
ends by the constructor's exception; the lock is released and `_worker_thread` is as before. -/
def startWith (threadCreated : Bool) (p : Pump α) (joinable : Bool) : Option EerrNo × Pump α :=
  if p.running then (some .error, p)
  else if joinable then (some .error, p)
  else
    let p' := { p with stopped := false, running := true }
    if threadCreated then (some .success, p') else (none, p')

/-- With a thread to be had this is `Start`. -/
theorem startWith_true (p : Pump α) (joinable : Bool) :
    p.startWith true joinable = (some (p.start joinable).1, (p.start joinable).2) := by
  rw [startWith, start]
  split
  · rfl
  · split <;> rfl

/-- The constructor is reached when no worker runs and none is left to be joined, and an
exception there leaves both flags set for a worker. -/
theorem startWith_throws_iff {p p' : Pump α} {joinable : Bool} :
    p.startWith false joinable = (none, p') ↔
      p.running = false ∧ joinable = false ∧ p' = { p with stopped := false, running := true } := by
  cases hr : p.running <;> cases joinable <;> simp [startWith, hr, eq_comm]

end Pump

namespace TimerSystem

variable {α : Type*}

/-- A `StartTimer` call, alone, whose thread cannot be created. -/
def startTimerThrows (s : TimerSystem α) (timeoutMs : UInt32) (timeoutMsg : α) :
    Option (TimerSystem α) :=
  (s.startTimer timeoutMs timeoutMsg).moveTimer s.ctrls.length .createFails

/-- The members of the object: the control blocks of `_timer_list` with their ids and flags,
`_timer_threads` and `_next_timer_id`. -/
def members (s : TimerSystem α) : List (Option (UInt32 × Bool)) × List ℕ × UInt32 :=
  (s.timerList.map fun k => s.ctrls[k]?.map fun c => (c.id, c.active), s.timerThreads,
    s.nextTimerId)

/-- An active control block in `_timer_list` without a timer thread, of a call that has ended. -/
def Abandoned (s : TimerSystem α) (k : ℕ) : Prop :=
  k ∈ s.timerList ∧
    ∃ c, s.ctrls[k]? = some c ∧ c.active = true ∧ c.thread = .absent ∧ c.call = .threw

/-- What the exception leaves: one more control block, and the next id. -/
theorem startTimerThrows_eq (s : TimerSystem α) (ms : UInt32) (m : α) :
    s.startTimerThrows ms m = some { s with
      ctrls := s.ctrls ++
        [{ id := s.nextTimerId, timeoutMs := ms, timeoutMsg := m, call := .threw }]
      timerList := s.timerList ++ [s.ctrls.length]
      nextTimerId := s.nextTimerId + 1 } := by
  simp [startTimerThrows, moveTimer, startTimer, TimerCtrl.advance]

/-- `StopTimer` answers `SUCCESS` for an id that is in the list. -/
theorem stopTimer_success {s : TimerSystem α} {timerId : UInt32} {k : ℕ} (hk : k ∈ s.timerList)
    (hid : s.HasId timerId k) : (s.stopTimer timerId).1 = .success := by
  obtain ⟨j, -, -, heq⟩ | ⟨hnone, -⟩ := s.stopTimer_cases timerId
  · rw [heq]
  · exact absurd hid (hnone k hk)

end TimerSystem

variable {α β : Type*}

/-- **No rollback.** Whenever the thread constructor throws in `Start` or in `StartTimer`, the
members of the object differ from those before the call. The manager counts as running with no
worker, and every later `Start` is refused; the timer manager lists an active control block that
no thread will ever read, and `StopTimer` answers `SUCCESS` for its id. -/
theorem thread_failure_not_atomic :
    (∀ (p p' : Pump α) (joinable : Bool), p.startWith false joinable = (none, p') →
      p' ≠ p ∧ ∀ j, p'.start j = (.error, p')) ∧
    ∀ (s s' : TimerSystem β) (ms : UInt32) (m : β), s.startTimerThrows ms m = some s' →
      s'.members ≠ s.members ∧ s'.Abandoned s.ctrls.length ∧
        (s'.stopTimer s.nextTimerId).1 = .success := by
  constructor
  · intro p p' joinable h
    obtain ⟨hrunning, -, rfl⟩ := Pump.startWith_throws_iff.mp h
    refine ⟨fun heq => ?_, fun j => by simp [Pump.start]⟩
    have hflag : true = p.running := congrArg Pump.running heq
    exact absurd (hflag.trans hrunning) (by decide)
  · intro s s' ms m h
    rw [TimerSystem.startTimerThrows_eq] at h
    cases h
    refine ⟨fun heq => ?_, ⟨by simp, _, List.getElem?_concat_length, rfl, rfl, rfl⟩, ?_⟩
    · have hlen := congrArg (fun f => f.1.length) heq
      simp [TimerSystem.members] at hlen
    · refine TimerSystem.stopTimer_success (k := s.ctrls.length) (by simp) ?_
      simp [TimerSystem.HasId]

/-- A new manager and a new timer manager, in a process that has no thread left. -/
theorem thread_failure_not_atomic_new :
    ({ running := true } : Pump CMsg).start false = (.error, { running := true }) ∧
      ∃ s' : TimerSystem CMsg,
        ({} : TimerSystem CMsg).startTimerThrows 10 TimerSystem.timeoutMsg = some s' ∧
          s'.Abandoned 0 ∧ (s'.stopTimer 1).1 = .success := by
  obtain ⟨hpump, htimer⟩ := thread_failure_not_atomic (α := CMsg) (β := CMsg)
  obtain ⟨-, hrefused⟩ := hpump {} { running := true } false rfl
  obtain ⟨-, habandoned, hsuccess⟩ := htimer {} _ 10 TimerSystem.timeoutMsg rfl
  exact ⟨hrefused false, _, rfl, habandoned, hsuccess⟩

theorem thread_failure_leaves_trace :
    (∃ p' : Pump CMsg, ({} : Pump CMsg).startWith false false = (none, p') ∧ p' ≠ {}) ∧
      ∃ s' : TimerSystem CMsg,
        ({} : TimerSystem CMsg).startTimerThrows 10 TimerSystem.timeoutMsg = some s' ∧
          s'.members ≠ ({} : TimerSystem CMsg).members :=
  ⟨⟨_, rfl, by decide⟩, _, rfl, by decide⟩

end FsmFramework
