import FsmFramework.TimerCancel

/-!
# Shutting the timers down

`StopAndJoin` cancels every listed timer, takes the stored thread objects and joins them. A
timer whose `StartTimer` has returned before has its thread among them: it is silent once
`StopAndJoin` has returned, and whether it posts at all is settled by whether its thread had
read the flag when the timers were cancelled.
-/

namespace FsmFramework

/-- `StopAndJoin` has not taken the thread objects yet. -/
def JoinPc.beforeSwap : JoinPc → Bool
  | .idle | .begun | .cancelled => true
  | .joining _ | .returned => false

namespace TimerSystem

variable {α : Type*} {s s' t u : TimerSystem α} {a : TimerLabel α} {k : ℕ}

/-! ## The stored thread objects -/

/-- Only `StopAndJoin` moves its own position and takes thread objects out. -/
theorem step_joiner (h : s.step a = some s') :
    JoinStep s s' ∨ s'.joiner = s.joiner ∧ ∀ j ∈ s.timerThreads, j ∈ s'.timerThreads := by
  cases a with
  | startTimer =>
      cases h
      exact .inr ⟨rfl, fun j hj => hj⟩
  | stopTimer timerId =>
      cases h
      obtain ⟨j, -, -, heq⟩ | ⟨-, heq⟩ := s.stopTimer_cases timerId <;>
        exact .inr (by simp [heq, deactivate])
  | stopAllTimers =>
      cases h
      exact .inr ⟨rfl, fun j hj => hj⟩
  | stopAndJoin => exact .inl (joinStep_of_stopAndJoin h)
  | timer j move =>
      obtain ⟨c, c', -, -, rfl⟩ := moveTimer_eq_some h
      refine .inr ⟨rfl, fun i hi => ?_⟩
      by_cases hmove : move = .storeThread <;> simp [hmove, hi]

/-- The thread object of this timer is in `_timer_threads`, if `StartTimer` has put it there and
`StopAndJoin` has not taken it. -/
def StoredOk (s : TimerSystem α) (k : ℕ) : Prop :=
  ∀ c, s.ctrls[k]? = some c → c.call = .stored ∨ c.call = .returned →
    s.joiner.beforeSwap = true → k ∈ s.timerThreads

/-- Before the swap, a step takes no thread object out. -/
theorem mem_timerThreads_step (h : s.step a = some s') (hbefore : s'.joiner.beforeSwap = true) :
    s.joiner.beforeSwap = true ∧ ∀ j ∈ s.timerThreads, j ∈ s'.timerThreads := by
  obtain hjoin | ⟨hsame, hmem⟩ := step_joiner h
  · cases hjoin with
    | start hj | cancel hj => exact ⟨by rw [hj]; rfl, fun j hmem => hmem⟩
    | swap | clear => cases hbefore
    | join => cases hbefore
  · exact ⟨hsame ▸ hbefore, hmem⟩

theorem StoredOk.step (h : s.StoredOk k) (hs : s.step a = some s') : s'.StoredOk k := by
  intro c' hc' hcall hbefore
  obtain ⟨hbefore₀, hmem⟩ := mem_timerThreads_step hs hbefore
  cases hk : s.ctrls[k]? with
  | none =>
      -- A new control block is listed and no more.
      obtain hnone | ⟨-, ms, m, hnew⟩ := (step_fresh hs hk).2
      · exact absurd (hc'.symm.trans hnone) (Option.some_ne_none c')
      · cases hc'.symm.trans hnew
        simp at hcall
  | some c =>
      obtain ⟨d, hd, hstep⟩ := step_ctrl hs hk
      cases hc'.symm.trans hd
      generalize s'.posts k = posts' at hstep
      cases hstep with
      | stay | cancel | wakeActive | wakeCancelled | callback | finish =>
          exact hmem k (h _ hk hcall hbefore₀)
      | createThread | createFails => simp at hcall
      | returnStart hat => exact hmem k (h _ hk (.inl hat) hbefore₀)
      | storeThread =>
          obtain ⟨_, _, -, -, rfl⟩ := moveTimer_eq_some hs
          simp

theorem storedOk_of_reachable (hs : (timerSystem α).Reachable s) (k : ℕ) : s.StoredOk k := by
  refine hs.invariant (I := fun s => s.StoredOk k) ?init ?step
  case init =>
    rintro _ rfl
    simp [StoredOk]
  case step => exact fun _ _ _ h _ hs => h.step hs

/-! ## Joining -/

/-- A finished thread stays finished. -/
theorem ThreadAt.step_finished (hok : s.TimerOk k) (h : s.ThreadAt k .finished)
    (hs : s.step a = some s') : s'.ThreadAt k .finished := by
  obtain ⟨c, hc, hfin⟩ := h
  obtain ⟨c', hc', hstep⟩ := step_ctrl hs hc
  refine ⟨c', hc', ?_⟩
  generalize s'.posts k = posts' at hstep
  cases hstep with
  | stay | cancel | createFails | storeThread | returnStart => exact hfin
  | createThread hat =>
      have hnone : c.thread = .absent := (hok.2 c hc).absent.mpr (.inl hat)
      exact absurd (hnone.symm.trans hfin) (by decide)
  | wakeActive hat | callback hat => exact absurd (hat.symm.trans hfin) (by decide)
  | wakeCancelled | finish => rfl

/-- Where `StopAndJoin` stands with the thread of a timer that it is going to join. -/
def Tracked (s : TimerSystem α) (k : ℕ) : Prop :=
  match s.joiner with
  | .idle | .begun | .cancelled => k ∈ s.timerThreads
  | .joining threads => k ∈ threads ∨ s.ThreadAt k .finished
  | .returned => s.ThreadAt k .finished

theorem Tracked.step (hok : s.TimerOk k) (h : s.Tracked k) (hs : s.step a = some s') :
    s'.Tracked k := by
  obtain hjoin | ⟨hsame, hmem⟩ := step_joiner hs
  · rw [Tracked] at h
    cases hjoin with
    | start hj | cancel hj =>
        rw [hj] at h
        exact h
    | swap hj =>
        rw [hj] at h
        exact .inl h
    | @join j threads hj hfin =>
        rw [hj] at h
        obtain hmem | hfin' := h
        · obtain rfl | hmem := List.mem_cons.mp hmem
          · exact .inr hfin
          · exact .inl hmem
        · exact .inr hfin'
    | clear hj =>
        rw [hj] at h
        exact h.resolve_left List.not_mem_nil
  · rw [Tracked, hsame]
    rw [Tracked] at h
    split <;> rename_i hj <;> simp only [hj] at h
    · exact hmem k h
    · exact hmem k h
    · exact hmem k h
    · exact h.imp_right fun hfin => hfin.step_finished hok hs
    · exact h.step_finished hok hs

theorem Tracked.run (hs : (timerSystem α).Reachable s) (h : s.Tracked k)
    (hrun : (timerSystem α).RunVia Lts.anyStep s t) : t.Tracked k := by
  refine (hrun.invariant (I := fun t => t.TimerOk k ∧ t.Tracked k) ?_
    ⟨timerOk_of_reachable hs k, h⟩).2
  rintro u a v ⟨hok, htracked⟩ - hstep
  exact ⟨hok.step hstep, htracked.step hok hstep⟩

/-- A finished thread posts nothing any more. -/
theorem ThreadAt.run_finished (hs : (timerSystem α).Reachable s) (h : s.ThreadAt k .finished)
    (hrun : (timerSystem α).RunVia Lts.anyStep s t) : t.posts k = s.posts k := by
  refine (hrun.invariant
    (I := fun t => t.TimerOk k ∧ t.ThreadAt k .finished ∧ t.posts k = s.posts k) ?_
    ⟨timerOk_of_reachable hs k, h, rfl⟩).2.2
  rintro u a v ⟨hok, hfin, hposts⟩ - hstep
  refine ⟨hok.step hstep, hfin.step_finished hok hstep, ?_⟩
  obtain ⟨c, hc, hthread⟩ := hfin
  obtain ⟨c', -, hctrl⟩ := step_ctrl hstep hc
  rw [← hposts]
  generalize v.posts k = posts' at hctrl
  cases hctrl with
  | callback hat => exact absurd (hat.symm.trans hthread) (by decide)
  | _ => rfl

/-! ## Before and after the flag is read -/

/-- The thread has read its flag as true: it stands before the callback or has called it. -/
def HasReadTrue (s : TimerSystem α) (k : ℕ) : Prop :=
  ∃ c, s.ctrls[k]? = some c ∧ (c.thread = .expired ∨ s.posts k ≠ [])

theorem HasReadTrue.step (hok : s.TimerOk k) (h : s.HasReadTrue k) (hs : s.step a = some s') :
    s'.HasReadTrue k := by
  obtain ⟨c, hc, hread⟩ := h
  obtain ⟨c', hc', hstep⟩ := step_ctrl hs hc
  have hctrl := hok.2 c hc
  refine ⟨c', hc', ?_⟩
  generalize s'.posts k = posts' at hstep ⊢
  cases hstep with
  | stay | cancel | createFails | storeThread | returnStart => exact hread
  | createThread hat =>
      have hnone : c.thread = .absent := hctrl.absent.mpr (.inl hat)
      simp [hnone, hctrl.early (.inl hnone)] at hread
  | wakeActive => exact .inl rfl
  | wakeCancelled hat => simp [hat, hctrl.early (.inr (.inl hat))] at hread
  | callback => exact .inr (by simp)
  | finish hat => exact .inr (by simp [hctrl.calling hat])

theorem HasReadTrue.run (hs : (timerSystem α).Reachable s) (h : s.HasReadTrue k)
    (hrun : (timerSystem α).RunVia Lts.anyStep s t) : t.HasReadTrue k := by
  refine (hrun.invariant (I := fun t => t.TimerOk k ∧ t.HasReadTrue k) ?_
    ⟨timerOk_of_reachable hs k, h⟩).2
  rintro u a v ⟨hok, hread⟩ - hstep
  exact ⟨hok.step hstep, hread.step hok hstep⟩

/-- `StopAllTimers` mutes every listed timer whose thread is asleep. -/
theorem muted_of_stopAllTimers (hlist : s.ListOk) (hj : s.joiner = .begun)
    (hasleep : s.ThreadAt k .sleeping) (hs : s.stopAndJoin = some s') :
    s'.Muted k ∧ s'.posts k = s.posts k := by
  obtain ⟨c, hc, hthread⟩ := hasleep
  have hklt : k < s.ctrls.length := (List.getElem?_eq_some_iff.mp hc).1
  have hlisted : k ∈ s.timerList := by
    rw [hlist.timerList (by rw [hj]; exact JoinPc.noConfusion)]
    exact List.mem_range.mpr hklt
  rw [stopAndJoin, hj] at hs
  cases hs
  refine ⟨⟨{ c with active := false }, ?_, rfl, ?_⟩, rfl⟩
  · change s.stopAllTimers.ctrls[k]? = _
    simp [stopAllTimers, getElem?_deactivate, hc, hlisted]
  · rw [hthread]
    exact ThreadPc.noConfusion

/-- **Shutdown.** Every timer posts its message at most once. A timer whose `StartTimer` had
returned before `StopAndJoin` began posts nothing after `StopAndJoin` has returned. If its thread
was asleep when `StopAndJoin` cancelled the timers, it never posts; if its thread had read the flag
as true by then, it has called the callback and come back from it before `StopAndJoin` returns. -/
theorem timer_shutdown (hs : (timerSystem α).Reachable s) :
    (∀ k c, s.ctrls[k]? = some c → s.posts k = [] ∨ s.posts k = [c.timeoutMsg]) ∧
      ∀ k, s.joiner = .idle → s.Returned k → ∀ t, (timerSystem α).RunVia Lts.anyStep s t →
        (t.joiner = .returned → ∀ u, (timerSystem α).RunVia Lts.anyStep t u →
          u.posts k = t.posts k) ∧
        (t.joiner = .begun → ∀ u v, t.step .stopAndJoin = some u →
          (timerSystem α).RunVia Lts.anyStep u v →
            (t.ThreadAt k .sleeping → v.posts k = []) ∧
            (t.HasReadTrue k → v.joiner = .returned →
              v.ThreadAt k .finished ∧ v.posts k ≠ [])) := by
  refine ⟨fun k c hc => ((timerOk_of_reachable hs k).2 c hc).posts_eq,
    fun k hidle hret t hst => ?_⟩
  have htracked : s.Tracked k := by
    obtain ⟨c, hc, hcall⟩ := hret
    have hstored := storedOk_of_reachable hs k c hc (.inr hcall) (by rw [hidle]; rfl)
    simpa [Tracked, hidle] using hstored
  have ht : (timerSystem α).Reachable t := hs.run hst
  refine ⟨?silent, ?settled⟩
  case silent =>
    intro hreturned u hu
    have hfin := htracked.run hs hst
    rw [Tracked, hreturned] at hfin
    exact ThreadAt.run_finished ht hfin hu
  case settled =>
    intro hbegun u v hstep huv
    refine ⟨fun hasleep => ?_, fun hread hreturned => ?_⟩
    · obtain ⟨hmuted, hposts⟩ :=
        muted_of_stopAllTimers (listOk_of_reachable ht) hbegun hasleep hstep
      obtain ⟨c, hc, hthread⟩ := hasleep
      rw [hmuted.run huv, hposts]
      exact ((timerOk_of_reachable ht k).2 c hc).early (.inr (.inl hthread))
    · have htv : (timerSystem α).RunVia Lts.anyStep t v :=
        (Lts.RunVia.single (a := .stopAndJoin) trivial hstep).trans huv
      have hfin := htracked.run hs (hst.trans htv)
      rw [Tracked, hreturned] at hfin
      refine ⟨hfin, ?_⟩
      obtain ⟨c, hc, hthread⟩ := hfin
      obtain ⟨d, hd, hexpired | hposts⟩ := hread.run ht htv
      · cases hd.symm.trans hc
        exact absurd (hexpired.symm.trans hthread) (by decide)
      · exact hposts

/-- `StopAndJoin` from its cancelling to its end, while timer 1 is in the callback. -/
def joinSchedule : List (TimerLabel CMsg) :=
  [.timer 0 .wake, .stopAndJoin, .timer 1 .callback, .stopAndJoin, .timer 1 .finish,
    .stopAndJoin, .stopAndJoin]

theorem timer_shutdown_two : ∃ s t u v : TimerSystem CMsg,
    (timerSystem CMsg).exec (fun _ _ => true) {} (startSchedule 0 ++ startSchedule 1) = some s ∧
      (timerSystem CMsg).exec (fun _ _ => true) s [.timer 1 .wake, .stopAndJoin] = some t ∧
      t.step .stopAndJoin = some u ∧
      (timerSystem CMsg).exec (fun _ _ => true) u joinSchedule = some v ∧
      (∀ k c, v.ctrls[k]? = some c → v.posts k = [] ∨ v.posts k = [c.timeoutMsg]) ∧
      v.posts 0 = [] ∧ v.ThreadAt 1 .finished ∧ v.posts 1 ≠ [] ∧
      ∀ w, (timerSystem CMsg).RunVia Lts.anyStep v w → w.posts 1 = v.posts 1 := by
  obtain ⟨s, hs, hidle, hret₀, hret₁, t, ht, hbegun, hasleep, hread, u, hu, v, hv, hreturned⟩ :
      ∃ s, (timerSystem CMsg).exec (fun _ _ => true) {}
          (startSchedule 0 ++ startSchedule 1) = some s ∧
        s.joiner = .idle ∧ s.Returned 0 ∧ s.Returned 1 ∧
      ∃ t, (timerSystem CMsg).exec (fun _ _ => true) s [.timer 1 .wake, .stopAndJoin] = some t ∧
        t.joiner = .begun ∧ t.ThreadAt 0 .sleeping ∧ t.HasReadTrue 1 ∧
      ∃ u, t.step .stopAndJoin = some u ∧
      ∃ v, (timerSystem CMsg).exec (fun _ _ => true) u joinSchedule = some v ∧
        v.joiner = .returned :=
    ⟨_, rfl, rfl, ⟨_, rfl, rfl⟩, ⟨_, rfl, rfl⟩, _, rfl, rfl, ⟨_, rfl, rfl⟩,
      ⟨_, rfl, .inl rfl⟩, _, rfl, _, rfl, rfl⟩
  have hany : ∀ s a, (fun (_ : TimerSystem CMsg) (_ : TimerLabel CMsg) => true) s a = true →
      Lts.anyStep s a := fun _ _ _ => trivial
  have hr : (timerSystem CMsg).Reachable s := ⟨_, rfl, Lts.runVia_of_exec hany hs⟩
  have hst : (timerSystem CMsg).RunVia Lts.anyStep s t := Lts.runVia_of_exec hany ht
  have huv : (timerSystem CMsg).RunVia Lts.anyStep u v := Lts.runVia_of_exec hany hv
  have htv : (timerSystem CMsg).RunVia Lts.anyStep t v :=
    (Lts.RunVia.single (a := .stopAndJoin) trivial hu).trans huv
  obtain ⟨-, hall⟩ := timer_shutdown hr
  obtain ⟨honce, -⟩ := timer_shutdown (hr.run (hst.trans htv))
  obtain ⟨-, hsettled₀⟩ := hall 0 hidle hret₀ t hst
  obtain ⟨-, hsettled₁⟩ := hall 1 hidle hret₁ t hst
  obtain ⟨hsilent, -⟩ := hall 1 hidle hret₁ v (hst.trans htv)
  obtain ⟨hfin, hposts⟩ := (hsettled₁ hbegun u v hu huv).2 hread hreturned
  exact ⟨s, t, u, v, hs, ht, hu, hv, honce, (hsettled₀ hbegun u v hu huv).1 hasleep, hfin, hposts,
    hsilent hreturned⟩

end TimerSystem

end FsmFramework
