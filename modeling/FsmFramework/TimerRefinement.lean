import FsmFramework.TimerThreads

/-!
# The timers as the manager's model sees them

The manager's model uses `TimerManager`, where starting a timer is one step. The call-by-call
timers simulate it: a timer whose thread is not created yet is one that has not woken up, and a
callback that has posted is done. The simulation ends where `StopAndJoin` clears the list, after
which an id names no timer any more.
-/

namespace FsmFramework

def ThreadPc.phase : ThreadPc → TimerPhase
  | .absent | .sleeping => .sleeping
  | .expired => .expired
  | .calling | .finished => .finished

/-- A timer without the steps of its `StartTimer` call. -/
def TimerCtrl.toTimer {α : Type*} (c : TimerCtrl α) : CTimer α :=
  ⟨c.id, c.active, c.timeoutMs, c.timeoutMsg, c.thread.phase⟩

/-- The operations of `TimerManager`, each one step. -/
inductive TimerOp (α : Type*)
  | startTimer (timeoutMs : UInt32) (timeoutMsg : α)
  | stopTimer (timerId : UInt32)
  | stopAllTimers
  | wake (k : ℕ)
  | expire (k : ℕ)
  deriving DecidableEq, Repr

def timerManagerSystem (α : Type*) : Lts (TimerManager α) (TimerOp α) where
  init tm := tm = {}
  step tm
    | .startTimer timeoutMs timeoutMsg => some (tm.startTimer timeoutMs timeoutMsg).2
    | .stopTimer timerId => some (tm.stopTimer timerId).2
    | .stopAllTimers => some tm.stopAllTimers
    | .wake k => (tm.wake k).map (·.2)
    | .expire k => (tm.expire k).map (·.2)

namespace TimerSystem

variable {α : Type*} {s s' : TimerSystem α} {a : TimerLabel α}

def toManager (s : TimerSystem α) : TimerManager α :=
  { timerList := s.ctrls.map TimerCtrl.toTimer, nextTimerId := s.nextTimerId }

/-! ## The calls -/

theorem toManager_startTimer (s : TimerSystem α) (ms : UInt32) (m : α) :
    (s.startTimer ms m).toManager = (s.toManager.startTimer ms m).2 := by
  simp [toManager, startTimer, TimerManager.startTimer, TimerCtrl.toTimer, ThreadPc.phase]

theorem toManager_stopAllTimers (hlist : s.timerList = List.range s.ctrls.length) :
    s.stopAllTimers.toManager = s.toManager.stopAllTimers := by
  simp only [toManager, stopAllTimers, deactivate, TimerManager.stopAllTimers, hlist]
  congr 1
  refine List.ext_getElem (by simp) fun k hk _ => ?_
  have hlt : k < s.ctrls.length := by simpa using hk
  simp [TimerCtrl.toTimer, hlt]

/-- Both look for the first timer with the id. -/
theorem find_eq_findIdx (hlist : s.timerList = List.range s.ctrls.length) (timerId : UInt32) :
    (s.timerList.find? fun k => s.HasId timerId k) =
      s.toManager.timerList.findIdx? fun t => t.id = timerId := by
  cases hfind : s.toManager.timerList.findIdx? fun t => t.id = timerId with
  | some k =>
      obtain ⟨hlt, hk, hbefore⟩ := List.findIdx?_eq_some_iff_getElem.mp hfind
      simp only [toManager, List.length_map] at hlt
      simp only [toManager, List.getElem_map, TimerCtrl.toTimer, decide_eq_true_eq] at hk hbefore
      rw [hlist, List.find?_range_eq_some]
      refine ⟨by simp [HasId, hlt, hk], List.mem_range.mpr hlt, fun j hj => ?_⟩
      have hjlt : j < s.ctrls.length := hj.trans hlt
      simpa [HasId, hjlt] using hbefore j hj
  | none =>
      rw [List.find?_eq_none]
      intro k hk
      have hlt : k < s.ctrls.length := by simpa [hlist] using hk
      have hne := List.findIdx?_eq_none_iff.mp hfind (s.ctrls[k].toTimer)
        (List.mem_map_of_mem (List.getElem_mem hlt))
      simpa [HasId, hlt, TimerCtrl.toTimer] using of_decide_eq_false hne

theorem toManager_stopTimer (hlist : s.timerList = List.range s.ctrls.length)
    (timerId : UInt32) :
    (s.stopTimer timerId).1 = (s.toManager.stopTimer timerId).1 ∧
      (s.stopTimer timerId).2.toManager = (s.toManager.stopTimer timerId).2 := by
  rw [stopTimer, TimerManager.stopTimer, find_eq_findIdx hlist]
  cases s.toManager.timerList.findIdx? fun t => t.id = timerId with
  | none => exact ⟨rfl, rfl⟩
  | some k =>
      refine ⟨rfl, ?_⟩
      simp only [toManager, deactivate]
      congr 1
      refine List.ext_getElem? fun j => ?_
      rw [List.getElem?_modify, List.getElem?_map, List.getElem?_map, List.getElem?_mapIdx]
      by_cases hj : k = j
      · subst hj
        cases s.ctrls[k]? <;> simp [TimerCtrl.toTimer]
      · have hne : j ≠ k := Ne.symm hj
        cases s.ctrls[j]? <;> simp [hj, hne]

/-! ## The threads -/

/-- Each step of a timer's call or thread is a step of the timer, or none. -/
theorem toManager_moveTimer {k : ℕ} {move : TimerMove} (hok : s.TimerOk k)
    (h : s.moveTimer k move = some s') :
    s'.toManager = s.toManager ∨
      ∃ op, (timerManagerSystem α).step s.toManager op = some s'.toManager := by
  obtain ⟨c, c', hc, hadv, rfl⟩ := moveTimer_eq_some h
  have htimer : (s.ctrls.map TimerCtrl.toTimer)[k]? = some c.toTimer := by simp [hc]
  have hset : ∀ d : TimerCtrl α, (s.ctrls.set k d).map TimerCtrl.toTimer =
      (s.ctrls.map TimerCtrl.toTimer).set k d.toTimer := fun d => List.map_set
  have hstay : (s.ctrls.map TimerCtrl.toTimer).set k c.toTimer =
      s.ctrls.map TimerCtrl.toTimer := by
    obtain ⟨hlt, heq⟩ := List.getElem?_eq_some_iff.mp htimer
    rw [← heq, List.set_getElem_self]
  cases move <;> simp only [TimerCtrl.advance, Option.ite_none_right_eq_some,
    Option.some.injEq] at hadv <;> obtain ⟨hat, rfl⟩ := hadv
  case createThread =>
    have hnone : c.thread = .absent := (hok.2 c hc).absent.mpr (.inl hat)
    left
    simp only [toManager, hset]
    rw [← hstay]
    simp [TimerCtrl.toTimer, hnone, ThreadPc.phase]
  case createFails | storeThread | returnStart =>
    left
    simp only [toManager, hset]
    exact congrArg (TimerManager.mk · s.nextTimerId) hstay
  case wake =>
    refine .inr ⟨.wake k, ?_⟩
    simp only [timerManagerSystem, TimerManager.wake, toManager, htimer, hset]
    cases hactive : c.active <;>
      simp [TimerCtrl.toTimer, hat, hactive, ThreadPc.phase, TimerManager.setPhase]
  case callback =>
    refine .inr ⟨.expire k, ?_⟩
    simp only [timerManagerSystem, TimerManager.expire, toManager, htimer, hset]
    simp [TimerCtrl.toTimer, hat, ThreadPc.phase, TimerManager.setPhase]
  case finish =>
    left
    simp only [toManager, hset]
    rw [← hstay]
    simp [TimerCtrl.toTimer, hat, ThreadPc.phase]

/-! ## The simulation -/

/-- `StopAndJoin` does not take its last step, the clearing of the list. -/
def KeepsList (s : TimerSystem α) (a : TimerLabel α) : Prop :=
  a = .stopAndJoin → s.joiner ≠ .joining []

theorem joiner_of_keepsList (hs : (timerSystem α).ReachableVia KeepsList s) :
    s.joiner ≠ .returned := by
  refine hs.invariant (I := fun s => s.joiner ≠ .returned) ?init ?step
  case init =>
    rintro _ rfl
    exact JoinPc.noConfusion
  case step =>
    intro s a t hj hkeep hstep
    obtain ⟨ms, m, -, rfl⟩ | ⟨-, -, ⟨-, hsame⟩ | ⟨rfl, hclear, -⟩⟩ := step_list hstep
    · exact hj
    · exact fun hret => hj (hsame.mp hret)
    · exact absurd hclear (hkeep rfl)

/-- **Refinement.** The call-by-call timers, as long as the list is not cleared, simulate the
operations of `TimerManager`. -/
theorem timers_refine : Lts.Simulation (timerSystem α) KeepsList (timerManagerSystem α) Lts.anyStep
    fun s tm => tm = s.toManager where
  init := by
    rintro _ rfl
    exact ⟨{}, rfl, rfl⟩
  step := by
    rintro s a s' _ hs - rfl - hstep
    suffices h : s'.toManager = s.toManager ∨
        ∃ op, (timerManagerSystem α).step s.toManager op = some s'.toManager by
      obtain heq | ⟨op, hop⟩ := h
      · exact ⟨_, by rw [heq]; exact Lts.RunVia.refl _, rfl⟩
      · exact ⟨_, Lts.RunVia.single trivial hop, rfl⟩
    have hlist := (listOk_of_reachable hs.reachable).timerList (joiner_of_keepsList hs)
    cases a with
    | startTimer ms m =>
        cases hstep
        exact .inr ⟨.startTimer ms m, by rw [toManager_startTimer]; rfl⟩
    | stopTimer timerId =>
        cases hstep
        exact .inr ⟨.stopTimer timerId, by rw [(toManager_stopTimer hlist timerId).2]; rfl⟩
    | stopAllTimers =>
        cases hstep
        exact .inr ⟨.stopAllTimers, by rw [toManager_stopAllTimers hlist]; rfl⟩
    | stopAndJoin =>
        cases joinStep_of_stopAndJoin hstep with
        | start | swap | join | clear => exact .inl rfl
        | cancel =>
            refine .inr ⟨.stopAllTimers, ?_⟩
            exact congrArg some (toManager_stopAllTimers hlist).symm
    | timer k move =>
        exact toManager_moveTimer (timerOk_of_reachable hs.reachable k) hstep

end TimerSystem

end FsmFramework
