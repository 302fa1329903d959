import FsmFramework.TimerThreads

/-!
# Cancelling a timer

`StopTimer` and `StopAllTimers` clear a flag that the timer's thread reads once, before it
calls the callback. A timer whose thread has not read the flag is silent from then on. A timer
whose thread has read it as true and stands before the callback still posts.
-/

namespace FsmFramework

namespace TimerSystem

variable {α : Type*} {s s' t : TimerSystem α} {a : TimerLabel α} {k : ℕ}

/-! ## Muted timers -/

/-- The flag is cleared, and the thread does not stand between reading it and the callback. -/
def Muted (s : TimerSystem α) (k : ℕ) : Prop :=
  ∃ c, s.ctrls[k]? = some c ∧ c.active = false ∧ c.thread ≠ .expired

/-- No flag is ever set again, so a muted timer does not get to its callback. -/
theorem Muted.step (h : s.Muted k) (hs : s.step a = some s') :
    s'.Muted k ∧ s'.posts k = s.posts k := by
  obtain ⟨c, hc, hactive, hthread⟩ := h
  obtain ⟨c', hc', hstep⟩ := step_ctrl hs hc
  suffices hmute : (c'.active = false ∧ c'.thread ≠ .expired) ∧ s'.posts k = s.posts k from
    ⟨⟨c', hc', hmute.1⟩, hmute.2⟩
  generalize s'.posts k = posts' at hstep
  cases hstep with
  | stay | createFails | storeThread | returnStart => exact ⟨⟨hactive, hthread⟩, rfl⟩
  | cancel => exact ⟨⟨rfl, hthread⟩, rfl⟩
  | createThread | wakeCancelled | finish => exact ⟨⟨hactive, by simp⟩, rfl⟩
  | wakeActive _ hset => exact absurd (hactive.symm.trans hset) (by decide)
  | callback hat => exact absurd hat hthread

/-- A muted timer posts nothing any more. -/
theorem Muted.run (h : s.Muted k) (hrun : (timerSystem α).RunVia Lts.anyStep s t) :
    t.posts k = s.posts k := by
  refine (hrun.invariant (I := fun t => t.Muted k ∧ t.posts k = s.posts k) ?_ ⟨h, rfl⟩).2
  rintro u a v ⟨hu, hposts⟩ - hs
  obtain ⟨hv, hsame⟩ := hu.step hs
  exact ⟨hv, hsame.trans hposts⟩

/-! ## A cancelled timer is silent -/

/-- The call `a` cancels the timer numbered `k`: `StopTimer` with its id, answered `SUCCESS`, or
`StopAllTimers`. -/
def Cancels (s : TimerSystem α) (k : ℕ) : TimerLabel α → Prop
  | .stopTimer timerId => s.HasId timerId k ∧ (s.stopTimer timerId).1 = .success
  | .stopAllTimers => True
  | .startTimer _ _ | .timer _ _ | .stopAndJoin => False

/-- A cancelling call clears the flag and does nothing else to its timer. -/
theorem ctrl_of_cancels (h : s.ListOk) (hj : s.joiner ≠ .returned)
    (hlt : s.ctrls.length < 2 ^ 32) {c : TimerCtrl α} (hc : s.ctrls[k]? = some c)
    (hcancel : s.Cancels k a) (hs : s.step a = some s') :
    s'.ctrls[k]? = some { c with active := false } ∧ s'.posts k = s.posts k := by
  have hklt : k < s.ctrls.length := (List.getElem?_eq_some_iff.mp hc).1
  cases a with
  | stopTimer timerId =>
      cases hs
      obtain ⟨hid, hsuccess⟩ := hcancel
      obtain ⟨j, -, hjid, heq⟩ | ⟨-, heq⟩ := s.stopTimer_cases timerId
      · cases h.eq_of_hasId hlt hjid hid
        simp [heq, getElem?_deactivate, hc]
      · rw [heq] at hsuccess
        cases hsuccess
  | stopAllTimers =>
      cases hs
      refine ⟨?_, rfl⟩
      rw [stopAllTimers, getElem?_deactivate, hc, h.timerList hj]
      simp [hklt]
  | startTimer | timer | stopAndJoin => exact hcancel.elim

/-- **Cancelling.** Fewer than 2^32 timers have been started, and `StopTimer` answers `SUCCESS`,
or `StopAllTimers` runs, for a timer whose `StartTimer` has returned. That timer posts nothing at
any later step, in any run, if and only if its thread does not stand between reading the flag and
calling the callback. -/
theorem silent_after_cancel_iff (hs : (timerSystem α).Reachable s) (hj : s.joiner ≠ .returned)
    (hlt : s.ctrls.length < 2 ^ 32) (hret : s.Returned k) (hcancel : s.Cancels k a)
    (hstep : s.step a = some s') :
    (∀ t, (timerSystem α).RunVia Lts.anyStep s' t → t.posts k = s'.posts k) ↔
      ¬ s.ThreadAt k .expired := by
  obtain ⟨c, hc, -⟩ := hret
  obtain ⟨hc', -⟩ := ctrl_of_cancels (listOk_of_reachable hs) hj hlt hc hcancel hstep
  constructor
  · rintro hsilent ⟨d, hd, hexpired⟩
    cases hd.symm.trans hc
    -- The thread takes its next step: it calls the callback.
    have hcall : ∃ t, s'.moveTimer k .callback = some t := by
      simp [moveTimer, hc', TimerCtrl.advance, hexpired]
    obtain ⟨t, ht⟩ := hcall
    have hposts := posts_moveTimer hc' ht k
    rw [hsilent t (Lts.RunVia.single (a := .timer k .callback) trivial ht)] at hposts
    simp at hposts
  · intro hthread t hrun
    have hmuted : s'.Muted k :=
      ⟨_, hc', rfl, fun hexpired => hthread ⟨c, hc, hexpired⟩⟩
    exact hmuted.run hrun

/-- The message of a timer. -/
def timeoutMsg : CMsg := { type := .msgTimeout, serviceId := facRegFacId, fsmId := 1 }

/-- A `StartTimer` call from its beginning to its end. -/
def startSchedule (k : ℕ) : List (TimerLabel CMsg) :=
  [.startTimer 10 timeoutMsg, .timer k .createThread, .timer k .storeThread,
    .timer k .returnStart]

theorem silent_after_cancel_asleep : ∃ s : TimerSystem CMsg,
    (timerSystem CMsg).exec (fun _ _ => true) {} (startSchedule 0) = some s ∧
      ∀ t, (timerSystem CMsg).RunVia Lts.anyStep (s.stopTimer 1).2 t → t.posts 0 = [] := by
  obtain ⟨s, hs, hj, hlt, hret, hcancel, hthread, hposts⟩ : ∃ s : TimerSystem CMsg,
      (timerSystem CMsg).exec (fun _ _ => true) {} (startSchedule 0) = some s ∧
        s.joiner ≠ .returned ∧ s.ctrls.length < 2 ^ 32 ∧ s.Returned 0 ∧
        s.Cancels 0 (.stopTimer 1) ∧ ¬ s.ThreadAt 0 .expired ∧
        (s.stopTimer 1).2.posts 0 = [] := by
    refine ⟨_, rfl, ?_, ?_, ⟨_, rfl, rfl⟩, ⟨rfl, rfl⟩, ?_, rfl⟩
    · exact JoinPc.noConfusion
    · decide
    · rintro ⟨c, hc, hexpired⟩
      cases hc
      cases hexpired
  have hr : (timerSystem CMsg).Reachable s := ⟨_, rfl, Lts.runVia_of_exec (fun _ _ _ => trivial) hs⟩
  exact ⟨s, hs, fun t hrun =>
    ((silent_after_cancel_iff hr hj hlt hret hcancel rfl).mpr hthread t hrun).trans hposts⟩

/-- The thread reads its flag, `StopTimer` answers `SUCCESS` and returns, and the thread calls
the callback. -/
theorem cancelled_timer_posts : ∃ s s' t : TimerSystem CMsg,
    (timerSystem CMsg).Reachable s ∧ s.joiner = .idle ∧ s.ctrls.length < 2 ^ 32 ∧
      s.Returned 0 ∧ s.Cancels 0 (.stopTimer 1) ∧ s.step (.stopTimer 1) = some s' ∧
      (timerSystem CMsg).RunVia Lts.anyStep s' t ∧ s'.posts 0 = [] ∧
      t.posts 0 = [timeoutMsg] := by
  obtain ⟨s, hs, s', hs', t, ht, hj, hlen, hret, hcancel, hposts⟩ :
      ∃ s, (timerSystem CMsg).exec (fun _ _ => true) {}
          (startSchedule 0 ++ [.timer 0 .wake]) = some s ∧
        ∃ s', s.step (.stopTimer 1) = some s' ∧
        ∃ t, s'.step (.timer 0 .callback) = some t ∧
        s.joiner = .idle ∧ s.ctrls.length < 2 ^ 32 ∧ s.Returned 0 ∧
        s.Cancels 0 (.stopTimer 1) ∧ s'.posts 0 = [] ∧ t.posts 0 = [timeoutMsg] := by
    refine ⟨_, rfl, _, rfl, _, rfl, rfl, ?_, ⟨_, rfl, rfl⟩, ?_, rfl, rfl⟩
    · decide
    · exact ⟨rfl, rfl⟩
  exact ⟨s, s', t, ⟨_, rfl, Lts.runVia_of_exec (fun _ _ _ => trivial) hs⟩, hj, hlen, hret, hcancel,
    hs', Lts.RunVia.single (a := .timer 0 .callback) trivial ht, hposts⟩

end TimerSystem

end FsmFramework
