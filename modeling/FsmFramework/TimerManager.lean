import FsmFramework.Common

/-!
# Timers

`TimerManager.cpp`: one thread a timer. The thread sleeps, reads the `active` flag of
its control block, and if it is set calls the callback with the timer's message. The
flag and the call are separate steps, so a timer has a phase between them. A timer is
named by its position in `_timer_list`, the control block its thread points to.
-/

namespace FsmFramework

/-- Where a timer thread stands. -/
inductive TimerPhase
  | sleeping   -- before the test of `active`
  | expired    -- `active` was read as true, the callback is not called yet
  | finished   -- the thread has posted, or has found its timer cancelled
  deriving DecidableEq, Repr

/-- A control block together with the thread that was started for it. -/
structure CTimer (α : Type*) where
  id : UInt32
  active : Bool
  timeoutMs : UInt32
  timeoutMsg : α
  phase : TimerPhase
  deriving DecidableEq, Repr

/-- `_timer_list` with the timer threads, and the id generator. -/
structure TimerManager (α : Type*) where
  timerList : List (CTimer α) := []
  nextTimerId : UInt32 := 1
  deriving DecidableEq, Repr

namespace TimerManager

variable {α : Type*}

/-- Start a timer. The id that comes back is the generator's value, which wraps. -/
def startTimer (tm : TimerManager α) (timeoutMs : UInt32) (timeoutMsg : α) :
    UInt32 × TimerManager α :=
  (tm.nextTimerId,
    { timerList := tm.timerList ++ [⟨tm.nextTimerId, true, timeoutMs, timeoutMsg, .sleeping⟩]
      nextTimerId := tm.nextTimerId + 1 })

/-- Clear the `active` flag of the first timer with this id. -/
def stopTimer (tm : TimerManager α) (timerId : UInt32) : EerrNo × TimerManager α :=
  match tm.timerList.findIdx? fun t => t.id = timerId with
  | some k =>
      (.success, { tm with timerList := tm.timerList.modify k fun t => { t with active := false } })
  | none => (.timerError, tm)

/-- Clear every `active` flag. -/
def stopAllTimers (tm : TimerManager α) : TimerManager α :=
  { tm with timerList := tm.timerList.map fun t => { t with active := false } }

/-- Move the `k`-th timer's thread, `t`, to another phase. -/
def setPhase (tm : TimerManager α) (k : ℕ) (t : CTimer α) (phase : TimerPhase) :
    TimerManager α :=
  { tm with timerList := tm.timerList.set k { t with phase := phase } }

/-- The `k`-th timer's thread wakes up and reads `active`. What comes back with the timers is
the message that will not be posted any more, if the timer was cancelled. -/
def wake (tm : TimerManager α) (k : ℕ) : Option (List α × TimerManager α) :=
  match tm.timerList[k]? with
  | some t =>
      if t.phase = .sleeping then
        if t.active then some ([], tm.setPhase k t .expired)
        else some ([t.timeoutMsg], tm.setPhase k t .finished)
      else none
  | none => none

/-- The `k`-th timer's thread calls the callback: the message to post, and the timers
afterwards. -/
def expire (tm : TimerManager α) (k : ℕ) : Option (α × TimerManager α) :=
  match tm.timerList[k]? with
  | some t =>
      if t.phase = .expired then some (t.timeoutMsg, tm.setPhase k t .finished) else none
  | none => none

/-- The messages of started timers whose thread has not finished. -/
def outstanding (tm : TimerManager α) : List α :=
  tm.timerList.filterMap fun t => if t.phase = .finished then none else some t.timeoutMsg

/-! ## The steps of a timer's thread -/

section Thread

variable {tm tm' : TimerManager α} {k : ℕ} {dropped : List α} {m : α}

/-- A thread that wakes up reads `active`, and goes on or drops its message. -/
theorem wake_some (h : tm.wake k = some (dropped, tm')) :
    ∃ t, tm.timerList[k]? = some t ∧ t.phase = .sleeping ∧
      ((t.active = true ∧ dropped = [] ∧ tm' = tm.setPhase k t .expired) ∨
        (t.active = false ∧ dropped = [t.timeoutMsg] ∧ tm' = tm.setPhase k t .finished)) := by
  rw [wake] at h
  split at h
  · rename_i t ht
    split at h
    · rename_i hsleep
      split at h
      · rename_i hactive
        obtain ⟨rfl, rfl⟩ := Prod.mk.inj (Option.some.inj h)
        exact ⟨t, ht, hsleep, .inl ⟨hactive, rfl, rfl⟩⟩
      · rename_i hactive
        obtain ⟨rfl, rfl⟩ := Prod.mk.inj (Option.some.inj h)
        exact ⟨t, ht, hsleep, .inr ⟨by simpa using hactive, rfl, rfl⟩⟩
    · contradiction
  · contradiction

/-- A thread that has read `active` as true posts its message. -/
theorem expire_some (h : tm.expire k = some (m, tm')) :
    ∃ t, tm.timerList[k]? = some t ∧ t.phase = .expired ∧ m = t.timeoutMsg ∧
      tm' = tm.setPhase k t .finished := by
  rw [expire] at h
  split at h
  · rename_i t ht
    split at h
    · rename_i hexpired
      obtain ⟨rfl, rfl⟩ := Prod.mk.inj (Option.some.inj h)
      exact ⟨t, ht, hexpired, rfl, rfl⟩
    · contradiction
  · contradiction

end Thread

/-! ## The outstanding messages under each operation -/

@[simp] theorem outstanding_startTimer (tm : TimerManager α) (ms : UInt32) (m : α) :
    (tm.startTimer ms m).2.outstanding = tm.outstanding ++ [m] := by
  simp [startTimer, outstanding]

/-- Cancelling leaves the thread asleep: it is still outstanding. -/
@[simp] theorem outstanding_stopAllTimers (tm : TimerManager α) :
    tm.stopAllTimers.outstanding = tm.outstanding := by
  simp [stopAllTimers, outstanding, List.filterMap_map]

private theorem filterMap_set_of_eq {β γ : Type*} {f : β → Option γ} {l : List β} {k : ℕ} {x y : β}
    (hk : l[k]? = some x) (h : f y = f x) : (l.set k y).filterMap f = l.filterMap f := by
  induction l generalizing k with
  | nil => simp at hk
  | cons z zs ih =>
      cases k with
      | zero =>
          simp only [List.getElem?_cons_zero, Option.some.injEq] at hk
          subst hk
          simp [List.filterMap_cons, h]
      | succ k =>
          simp only [List.getElem?_cons_succ] at hk
          simp [List.filterMap_cons, ih hk]

private theorem filterMap_perm_set_of_none {β γ : Type*} {f : β → Option γ} {l : List β} {k : ℕ}
    {x y : β} {z : γ} (hk : l[k]? = some x) (hx : f x = some z) (hy : f y = none) :
    (l.filterMap f).Perm (z :: (l.set k y).filterMap f) := by
  induction l generalizing k with
  | nil => simp at hk
  | cons w ws ih =>
      cases k with
      | zero =>
          simp only [List.getElem?_cons_zero, Option.some.injEq] at hk
          subst hk
          simp [hx, hy]
      | succ k =>
          simp only [List.getElem?_cons_succ] at hk
          cases hw : f w with
          | none => simpa [List.filterMap_cons, hw] using ih hk
          | some v =>
              simp only [List.filterMap_cons, hw, List.set_cons_succ]
              exact ((ih hk).cons v).trans (List.Perm.swap z v _)

/-- Cancelling one timer leaves the outstanding messages as they are. -/
@[simp] theorem outstanding_stopTimer (tm : TimerManager α) (id : UInt32) :
    (tm.stopTimer id).2.outstanding = tm.outstanding := by
  rw [stopTimer]
  split
  · rename_i k hk
    simp only [outstanding]
    rw [List.modify_eq_set_getElem?]
    cases hx : tm.timerList[k]? with
    | none => simp
    | some t => exact filterMap_set_of_eq hx rfl
  · rfl

/-- A message is outstanding until its timer is found cancelled. -/
theorem outstanding_wake {tm tm' : TimerManager α} {k : ℕ} {dropped : List α}
    (h : tm.wake k = some (dropped, tm')) :
    tm.outstanding.Perm (dropped ++ tm'.outstanding) := by
  obtain ⟨t, ht, hs, ⟨-, rfl, rfl⟩ | ⟨-, rfl, rfl⟩⟩ := wake_some h
  · exact .of_eq (filterMap_set_of_eq ht (by simp [hs])).symm
  · exact filterMap_perm_set_of_none ht (by simp [hs]) (by simp)

/-- The posted message was outstanding and is no longer. -/
theorem outstanding_expire {tm tm' : TimerManager α} {k : ℕ} {m : α}
    (h : tm.expire k = some (m, tm')) : tm.outstanding.Perm (m :: tm'.outstanding) := by
  obtain ⟨t, ht, hs, rfl, rfl⟩ := expire_some h
  exact filterMap_perm_set_of_none ht (by simp [hs]) (by simp)

end TimerManager

end FsmFramework
