import FsmFramework.Lib.Progress
import FsmFramework.TimerShutdown

/-!
# The timers come to rest

What a `TimerManager` comes to when nobody starts or cancels a timer any more and nobody calls
`StopAndJoin` anew. Every step of a `StartTimer` that is under way, of a timer's thread and of a
`StopAndJoin` that has begun uses up a part of what these have left to do, so they end. Where they
have ended every timer has posted its message once, or was cancelled, or has no thread since its
`StartTimer` threw.

## Main results

* `timers_settle` — the calls return, and no timer that nobody cancelled is lost.
-/

namespace FsmFramework

/-- What a `StartTimer` has left to do, and the thread that it is still to create. -/
def StartPc.stepsLeft : StartPc → ℕ
  | .listed => 9
  | .created => 4
  | .stored => 1
  | .returned | .threw => 0

/-- What a timer's thread has left to do. -/
def ThreadPc.stepsLeft : ThreadPc → ℕ
  | .sleeping => 3
  | .expired => 2
  | .calling => 1
  | .absent | .finished => 0

/-- What one timer has left to do. -/
def TimerCtrl.work {α : Type*} (c : TimerCtrl α) : ℕ := c.call.stepsLeft + c.thread.stepsLeft

/-- Every step of its own brings a timer forward. One that stores the thread object makes up for
the `join` that comes with it. -/
theorem TimerCtrl.work_advance {α : Type*} {c c' : TimerCtrl α} {move : TimerMove}
    (h : c.advance move = some c') :
    c'.work + (if move = .storeThread then 1 else 0) < c.work := by
  cases move <;> simp only [TimerCtrl.advance, Option.ite_none_right_eq_some,
    Option.some.injEq] at h <;> obtain ⟨hat, rfl⟩ := h
  case wake => cases hactive : c.active <;> simp [work, hat, ThreadPc.stepsLeft]
  all_goals simp [work, hat, StartPc.stepsLeft, ThreadPc.stepsLeft]
  all_goals omega

namespace TimerSystem

variable {α : Type*} {s s' t : TimerSystem α} {a : TimerLabel α} {k : ℕ}

/-- The steps of the calls that are under way and of the timers' threads. -/
def settling (s : TimerSystem α) : TimerLabel α → Prop
  | .timer _ _ => True
  | .stopAndJoin => s.joiner ≠ .idle
  | .startTimer _ _ | .stopTimer _ | .stopAllTimers => False

/-- What `StopAndJoin` has left to do. -/
def joinWork (s : TimerSystem α) : ℕ :=
  match s.joiner with
  | .idle | .returned => 0
  | .begun => s.timerThreads.length + 4
  | .cancelled => s.timerThreads.length + 3
  | .joining threads => threads.length + 1

/-- What the calls and the threads have left to do. -/
def work (s : TimerSystem α) : ℕ := (s.ctrls.map TimerCtrl.work).sum + s.joinWork

/-- Cancelling makes nothing shorter. -/
theorem works_deactivate (s : TimerSystem α) (ks : List ℕ) :
    (s.deactivate ks).ctrls.map TimerCtrl.work = s.ctrls.map TimerCtrl.work := by
  apply List.ext_getElem?
  intro k
  rw [List.getElem?_map, getElem?_deactivate, List.getElem?_map, Option.map_map]
  refine congrArg (fun f => s.ctrls[k]?.map f) (funext fun c => ?_)
  by_cases hk : k ∈ ks <;> simp [hk, TimerCtrl.work]

/-- A thread object that is stored is one more to join. -/
theorem joinWork_moveTimer {move : TimerMove} (h : s.moveTimer k move = some s') :
    s'.joinWork ≤ s.joinWork + (if move = .storeThread then 1 else 0) := by
  obtain ⟨c, c', -, -, rfl⟩ := moveTimer_eq_some h
  have hlength : (if move = .storeThread then s.timerThreads ++ [k] else s.timerThreads).length =
      s.timerThreads.length + (if move = .storeThread then 1 else 0) := by
    split <;> simp
  simp only [joinWork, hlength]
  split <;> omega

/-- Every step uses up a part of the work. -/
theorem work_step (hg : settling s a) (hs : s.step a = some s') : s'.work < s.work := by
  cases a with
  | startTimer | stopTimer | stopAllTimers => exact hg.elim
  | timer k move =>
      have hjoin := joinWork_moveTimer hs
      obtain ⟨c, c', hc, hadv, rfl⟩ := moveTimer_eq_some hs
      have hwork := TimerCtrl.work_advance hadv
      have hsum := Lts.sum_map_set (f := TimerCtrl.work) c' hc
      simp only [work] at hjoin ⊢
      omega
  | stopAndJoin =>
      cases joinStep_of_stopAndJoin hs with
      | start hj => exact absurd hj hg
      | cancel hj =>
          have hsame : s.stopAllTimers.ctrls.map TimerCtrl.work = s.ctrls.map TimerCtrl.work :=
            works_deactivate s s.timerList
          have hthreads : s.stopAllTimers.timerThreads = s.timerThreads := rfl
          simp only [work, joinWork, hj, hsame, hthreads]
          omega
      | swap hj => simp [work, joinWork, hj]
      | join hj => simp [work, joinWork, hj]
      | clear hj => simp [work, joinWork, hj]

/-! ## What is left where nothing goes on -/

/-- The thread objects that somebody is still to join. -/
def handles (s : TimerSystem α) : List ℕ :=
  s.timerThreads ++ match s.joiner with
    | .joining threads => threads
    | _ => []

/-- The thread object of this timer was stored. -/
def Stored (s : TimerSystem α) (k : ℕ) : Prop :=
  ∃ c, s.ctrls[k]? = some c ∧ (c.call = .stored ∨ c.call = .returned)

theorem Stored.step (h : s.Stored k) (hs : s.step a = some s') : s'.Stored k := by
  obtain ⟨c, hc, hcall⟩ := h
  obtain ⟨c', hc', hstep⟩ := step_ctrl hs hc
  refine ⟨c', hc', ?_⟩
  generalize s'.posts k = posts' at hstep
  cases hstep with
  | stay | cancel | wakeActive | wakeCancelled | callback | finish => exact hcall
  | createThread hat | createFails hat | storeThread hat => simp [hat] at hcall
  | returnStart => exact .inr rfl

/-- A thread object that was not there before was just stored. -/
theorem mem_handles_step (hs : s.step a = some s') (hk : k ∈ s'.handles) :
    k ∈ s.handles ∨ a = .timer k .storeThread := by
  cases a with
  | startTimer =>
      cases hs
      exact .inl hk
  | stopTimer timerId =>
      cases hs
      obtain ⟨j, -, -, heq⟩ | ⟨-, heq⟩ := s.stopTimer_cases timerId
      · rw [heq] at hk
        exact .inl hk
      · rw [heq] at hk
        exact .inl hk
  | stopAllTimers =>
      cases hs
      exact .inl hk
  | stopAndJoin =>
      left
      cases joinStep_of_stopAndJoin hs with
      | start hj => simpa [handles, hj] using hk
      | cancel hj => simpa [handles, hj, stopAllTimers, deactivate] using hk
      | swap hj => simpa [handles, hj] using hk
      | join hj hfin =>
          simp only [handles, hj, List.mem_append, List.mem_cons] at hk ⊢
          tauto
      | clear hj => simpa [handles, hj] using hk
  | timer j move =>
      obtain ⟨c, c', -, -, rfl⟩ := moveTimer_eq_some hs
      by_cases hmove : move = .storeThread
      · simp only [handles, hmove, if_true, List.mem_append, List.mem_singleton] at hk ⊢
        tauto
      · exact .inl (by simpa [handles, hmove] using hk)

/-- Whoever is joined has had its thread object stored. -/
theorem stored_of_reachable (hs : (timerSystem α).Reachable s) : ∀ k ∈ s.handles, s.Stored k := by
  refine hs.invariant (I := fun s => ∀ k ∈ s.handles, s.Stored k) ?init ?step
  case init =>
    rintro _ rfl
    simp [handles]
  case step =>
    intro s a s' h _ hs k hk
    obtain hold | rfl := mem_handles_step hs hk
    · exact (h k hold).step hs
    · obtain ⟨c, c', hc, hadv, rfl⟩ := moveTimer_eq_some hs
      have hlt : k < s.ctrls.length := (List.getElem?_eq_some_iff.mp hc).1
      refine ⟨c', List.getElem?_set_self hlt, ?_⟩
      simp only [TimerCtrl.advance, Option.ite_none_right_eq_some, Option.some.injEq] at hadv
      obtain ⟨-, rfl⟩ := hadv
      exact .inl rfl

/-- A thread that has ended without a post has found its timer cancelled. -/
def Spent (s : TimerSystem α) (k : ℕ) : Prop :=
  ∀ c, s.ctrls[k]? = some c → c.thread = .finished → s.posts k = [] → c.active = false

theorem spent_of_reachable (hs : (timerSystem α).Reachable s) (k : ℕ) : s.Spent k := by
  refine hs.invariant_reachable (I := fun s => s.Spent k) ?init ?step
  case init =>
    rintro _ rfl
    simp [Spent]
  case step =>
    intro s a s' hr h _ hs c' hc' hfin hposts
    cases hc : s.ctrls[k]? with
    | none =>
        obtain hnone | ⟨-, ms, m, hnew⟩ := (step_fresh hs hc).2
        · exact absurd (hc'.symm.trans hnone) (Option.some_ne_none c')
        · cases hc'.symm.trans hnew
          cases hfin
    | some c =>
        obtain ⟨d, hd, hstep⟩ := step_ctrl hs hc
        cases hc'.symm.trans hd
        rw [hposts] at hstep
        generalize hempty : ([] : List α) = posts' at hstep
        cases hstep with
        | stay => exact h _ hc hfin hempty.symm
        | createFails | storeThread | returnStart => exact h c hc hfin hempty.symm
        | cancel => rfl
        | createThread | wakeActive => cases hfin
        | wakeCancelled _ hactive => exact hactive
        | callback => simp at hempty
        | finish hat =>
            have hone := ((timerOk_of_reachable hr k).2 c hc).calling hat
            rw [hone] at hempty
            cases hempty

/-- All calls have returned or thrown, and all threads have ended. What a timer has posted is its
message, unless it was cancelled or was given no thread. -/
structure Settled (s : TimerSystem α) : Prop where
  joiner : s.joiner = .idle ∨ s.joiner = .returned
  timers : ∀ k c, s.ctrls[k]? = some c → c.call = .threw ∧ s.posts k = [] ∨
    c.call = .returned ∧ c.thread = .finished ∧
      (s.posts k = [c.timeoutMsg] ∨ s.posts k = [] ∧ c.active = false)

/-- A timer whose next step is possible. -/
theorem stepVia_of_advance {c c' : TimerCtrl α} {move : TimerMove} (hc : s.ctrls[k]? = some c)
    (hadv : c.advance move = some c') : ∃ t, (timerSystem α).StepVia settling s t := by
  obtain ⟨t, ht⟩ : ∃ t, s.moveTimer k move = some t := by
    rw [moveTimer, hc, Option.bind_some, hadv, Option.map_some]
    exact ⟨_, rfl⟩
  exact ⟨t, .timer k move, trivial, ht⟩

/-- Where no timer can go on, its call and its thread have ended. -/
theorem ended_of_stuck (hstuck : (timerSystem α).Stuck settling s) {c : TimerCtrl α}
    (hc : s.ctrls[k]? = some c) :
    (c.call = .returned ∨ c.call = .threw) ∧ (c.thread = .absent ∨ c.thread = .finished) := by
  have hnone : ∀ move c', c.advance move ≠ some c' := by
    intro move c' hadv
    obtain ⟨t, ht⟩ := stepVia_of_advance hc hadv
    exact hstuck t ht
  constructor
  case left =>
    cases hcall : c.call with
    | returned => exact .inl rfl
    | threw => exact .inr rfl
    | listed => exact absurd (if_pos hcall) (hnone .createThread _)
    | created => exact absurd (if_pos hcall) (hnone .storeThread _)
    | stored => exact absurd (if_pos hcall) (hnone .returnStart _)
  case right =>
    cases hthread : c.thread with
    | absent => exact .inl rfl
    | finished => exact .inr rfl
    | sleeping => exact absurd (if_pos hthread) (hnone .wake _)
    | expired => exact absurd (if_pos hthread) (hnone .callback _)
    | calling => exact absurd (if_pos hthread) (hnone .finish _)

/-- Where nothing goes on, `StopAndJoin` waits for nobody. -/
theorem joiner_of_stuck (hs : (timerSystem α).Reachable s)
    (hstuck : (timerSystem α).Stuck settling s) : s.joiner = .idle ∨ s.joiner = .returned := by
  by_cases hidle : s.joiner = .idle
  · exact .inl hidle
  have hnone : ∀ s', s.stopAndJoin ≠ some s' := fun s' hjoin =>
    hstuck s' ⟨.stopAndJoin, hidle, hjoin⟩
  rw [stopAndJoin] at hnone
  split at hnone
  case h_4 k threads hj =>
    -- the thread that is to be joined has ended
    have hmem : k ∈ s.handles := by simp [handles, hj]
    obtain ⟨c, hc, hcall⟩ := stored_of_reachable hs k hmem
    have hpresent : c.thread ≠ .absent := by
      rw [Ne, ((timerOk_of_reachable hs k).2 c hc).absent]
      rcases hcall with hcall | hcall <;> simp [hcall]
    have hfin : c.thread = .finished := (ended_of_stuck hstuck hc).2.resolve_left hpresent
    simp [hc, hfin] at hnone
  case h_6 hj => exact .inr hj
  all_goals exact absurd rfl (hnone _)

/-- Where no step is possible any more everything is settled. -/
theorem settled_of_stuck (hs : (timerSystem α).Reachable s)
    (hstuck : (timerSystem α).Stuck settling s) : s.Settled where
  joiner := joiner_of_stuck hs hstuck
  timers := by
    intro k c hc
    have hok := (timerOk_of_reachable hs k).2 c hc
    obtain ⟨hcall | hcall, hthread⟩ := ended_of_stuck hstuck hc
    · have hpresent : c.thread ≠ .absent := by
        rw [Ne, hok.absent]
        simp [hcall]
      have hfin := hthread.resolve_left hpresent
      obtain hnone | hone := hok.finished hfin
      · exact .inr ⟨hcall, hfin, .inr ⟨hnone, spent_of_reachable hs k c hc hfin hnone⟩⟩
      · exact .inr ⟨hcall, hfin, .inl hone⟩
    · exact .inl ⟨hcall, hok.early (.inl (hok.absent.mpr (.inr hcall)))⟩

/-! ## The run -/

/-- This timer is active, and `StopAndJoin` is not about to cancel it. -/
def Active (s : TimerSystem α) (k : ℕ) (m : α) : Prop :=
  s.joiner ≠ .begun ∧ ∃ c, s.ctrls[k]? = some c ∧ c.active = true ∧ c.timeoutMsg = m

/-- What is under way cancels no timer, but for the `StopAllTimers` of `StopAndJoin`. -/
theorem Active.step {m : α} (h : s.Active k m) (hg : settling s a) (hs : s.step a = some s') :
    s'.Active k m := by
  obtain ⟨hbegun, c, hc, hactive, hmsg⟩ := h
  cases a with
  | startTimer | stopTimer | stopAllTimers => exact hg.elim
  | stopAndJoin =>
      cases joinStep_of_stopAndJoin hs with
      | start hj => exact absurd hj hg
      | cancel hj => exact absurd hj hbegun
      | swap | join | clear => exact ⟨JoinPc.noConfusion, c, hc, hactive, hmsg⟩
  | timer j move =>
      obtain ⟨d, d', hd, hadv, rfl⟩ := moveTimer_eq_some hs
      refine ⟨hbegun, ?_⟩
      by_cases hjk : j = k
      · subst hjk
        cases hd.symm.trans hc
        have hlt : j < s.ctrls.length := (List.getElem?_eq_some_iff.mp hd).1
        refine ⟨d', List.getElem?_set_self hlt, ?_⟩
        cases move <;> simp only [TimerCtrl.advance, Option.ite_none_right_eq_some,
          Option.some.injEq] at hadv <;> obtain ⟨-, rfl⟩ := hadv <;> exact ⟨hactive, hmsg⟩
      · exact ⟨c, by rw [List.getElem?_set_ne hjk, hc], hactive, hmsg⟩

/-- **The timers come to rest.** From any reachable state, once nobody starts or cancels a timer any
more, every order of the steps of the calls under way and of the timers' threads inevitably comes to
an end at which all calls have returned or thrown and all threads have ended. Every timer has posted
its message once by then, unless it was cancelled or its `StartTimer` threw; and a timer that was
active when the callers fell silent, with no `StopAndJoin` about to cancel it, was not cancelled. -/
theorem timers_settle (hs : (timerSystem α).Reachable s) :
    (timerSystem α).Inevitably settling (fun t => t.Settled ∧
      ∀ k c, s.ctrls[k]? = some c → c.active = true → s.joiner ≠ .begun →
        t.posts k = [c.timeoutMsg] ∨ ∃ d, t.ctrls[k]? = some d ∧ d.call = .threw) s := by
  have hterm : (timerSystem α).Terminates settling s :=
    Lts.Terminates.of_measure (I := fun _ => True) Nat.lt_wfRel.wf work
      (fun _ _ _ _ hg hs => ⟨trivial, work_step hg hs⟩) trivial
  refine hterm.inevitably fun t hrun hstuck => ?_
  have ht : (timerSystem α).Reachable t := hs.run (hrun.mono fun _ _ _ => trivial)
  have hsettled := settled_of_stuck ht hstuck
  refine ⟨hsettled, fun k c hc hactive hbegun => ?_⟩
  obtain ⟨-, d, hd, hon, hmsg⟩ : t.Active k c.timeoutMsg :=
    hrun.invariant (I := fun t => t.Active k c.timeoutMsg) (fun _ _ _ h hg hs => h.step hg hs)
      ⟨hbegun, c, hc, hactive, rfl⟩
  rw [← hmsg]
  obtain ⟨hthrew, -⟩ | ⟨-, -, hone | ⟨-, hoff⟩⟩ := hsettled.timers k d hd
  · exact .inr ⟨d, hd, hthrew⟩
  · exact .inl hone
  · exact absurd (hon.symm.trans hoff) Bool.noConfusion

/-- Two timers are started, the first one is cancelled, and `StopAndJoin` has cancelled the other
one as well, when its thread had already read the flag. -/
def settlingSchedule : List (TimerLabel CMsg) :=
  startSchedule 0 ++ startSchedule 1 ++
    [.stopTimer 1, .timer 1 .wake, .stopAndJoin, .stopAndJoin, .stopAndJoin]

theorem timers_settle_joining : ∃ s : TimerSystem CMsg,
    (timerSystem CMsg).exec (fun _ _ => true) {} settlingSchedule = some s ∧
      s.joiner = .joining [0, 1] ∧
      (timerSystem CMsg).Inevitably settling (fun t => t.Settled ∧
        ∀ k c, s.ctrls[k]? = some c → c.active = true → s.joiner ≠ .begun →
          t.posts k = [c.timeoutMsg] ∨ ∃ d, t.ctrls[k]? = some d ∧ d.call = .threw) s := by
  obtain ⟨s, hs, hj⟩ : ∃ s : TimerSystem CMsg,
      (timerSystem CMsg).exec (fun _ _ => true) {} settlingSchedule = some s ∧
        s.joiner = .joining [0, 1] := ⟨_, rfl, rfl⟩
  have hr : (timerSystem CMsg).Reachable s :=
    ⟨_, rfl, Lts.runVia_of_exec (fun _ _ _ => trivial) hs⟩
  exact ⟨s, hs, hj, timers_settle hr⟩

end TimerSystem

end FsmFramework
