import FsmFramework.ServiceTeardown
import FsmFramework.WholeFlows

/-!
# `main` returns

After the signal `main` has a bounded number of steps to the join inside `HttpServer::Stop`, and
waits for nobody on the way. There it and the threads of the server have a bounded number of steps,
one of which is always possible. From then on every step of the process brings the return of `main`
closer: clients are gone, the follow-ups of what is still in the pump use up its weight under
`Ranking.flow`, and a timer posts once. Where `main` waits, the thread that it waits for can go on.

## Main results

* `service_exits` — the three bounds.
-/

namespace FsmFramework

open IoServer

variable {json : BoostJson} {s s' : ServiceState} {l : ServiceLabel}

/-! ## What is left to do -/

def ServiceLabel.isMain : ServiceLabel → Bool
  | .main => true
  | _ => false

/-- A step of `main`, or of a thread of the server that goes on in its handler or leaves. -/
def ServiceLabel.isServer : ServiceLabel → Bool
  | .main => true
  | .io a => a.isOwn
  | _ => false

/-- A step that some thread takes. -/
def ServiceLabel.isThread : ServiceLabel → Bool
  | .signal => false
  | _ => true

namespace ServiceState

/-- `Stop` of the server has stopped the I/O context, or there was no server. -/
def stopping (s : ServiceState) : Prop :=
  s.main = .httpStop ∧ s.io.joining ∨ s.main.afterHttp

/-- The steps that are left to `main` before it waits for the threads of the server. -/
def bootRank (s : ServiceState) : ℕ :=
  match s.main with
  | .managerStart => threadCount + 9
  | .httpStart => threadCount + 8
  | .sleeping => threadCount + 7
  | .httpStop => s.io.stopRank
  | _ => 0

/-- The steps that are left to it and to the threads of the server. -/
def serverRank (s : ServiceState) : ℕ := if s.main = .httpStop then s.io.joinRank + 1 else 0

/-- The steps that are left to a call of the callback. -/
def callbackRank (s : ServiceState) : ℕ :=
  match s.io.http.callbacks 0 with
  | none => 0
  | some (.collect _ event) =>
      2 + (s.io.http.waiters.toNotify s.io.http.entries.alive event.waitKey).length
  | some (.notify _ _ entriesToNotify next) => 1 + (entriesToNotify.length - next)

/-- The steps that are left to the worker in this round of its loop. -/
def workerRank (s : ServiceState) : ℕ :=
  match s.worker with
  | some .runLoop => 2
  | some .dispatchMsg => 3 + stepsLeft (s.io.http.core.threads 0)
  | some .leaveRun => 1
  | some .exited | none => 0

/-- The steps that are left to the process. A round of the worker's loop is paid for by the message
that it takes. -/
noncomputable def exitRank (s : ServiceState) : ℕ :=
  if s.main = .returned then 0
  else 30 * (Ranking.flow 1).state s.io.http.core + s.workerRank + s.callbackRank + s.main.toEnd

end ServiceState

open ServiceState

/-! ## Up to the join of the server's threads -/

theorem bootRank_step (hs : (serviceSystem json).Reachable s) (hstep : s.step json l = some s')
    (hstopping : ¬ s.stopping) : (if l.isMain then 1 else 0) + s'.bootRank ≤ s.bootRank := by
  have hmain := mainInv_of_reachable hs
  have hserver : ∀ {pc : MainPc}, s.main = pc → pc.toEnd = 9 ∨ pc.toEnd = 10 →
      (ioSystem json).Reachable s.io := by
    rintro _ rfl hpc
    refine (systems_of_reachable hs ?_).2 (hmain.started hpc)
    intro hreturned
    simp [hreturned, MainPc.toEnd] at hpc
  have hstop : ∀ {a : IoLabel} {io : IoServer}, s.main = .httpStop → s.io.step json a = some io →
      (if a.isStop then 1 else 0) + io.stopRank ≤ s.io.stopRank := by
    intro a io hpc hio
    exact stopRank_step (hserver hpc (by simp [MainPc.toEnd])) hio
      fun hjoining => hstopping (.inl ⟨hpc, hjoining⟩)
  -- `main` stays where it is
  have hbeside : ∀ {a : IoLabel} {io : IoServer} {w : Option WorkerPc},
      s.io.step json a = some io →
      0 + ServiceState.bootRank { s with io := io, worker := w } ≤ s.bootRank := by
    intro a io w hio
    have hle := fun hpc => hstop hpc hio
    simp only [ServiceState.bootRank]
    cases hpc : s.main with
    | httpStop =>
        have := hle hpc
        simp only
        omega
    | _ => simp
  cases step_cases hstep with
  | signal => simp [ServiceLabel.isMain, ServiceState.bootRank]
  | timer hl hio => cases hl <;> exact hbeside (w := s.worker) hio
  | handler hl hio => exact hbeside (w := s.worker) hio
  | called hw hcall hio => exact hbeside (w := s.worker) hio
  | advanced hw hcall hio => exact hbeside (w := s.worker) hio
  | popped hw hio => exact hbeside hio
  | left hw hio => exact hbeside hio
  | broke | dispatched => simp [ServiceLabel.isMain, ServiceState.bootRank]
  | startRefused hpc | httpFailed hpc | managerStarted hpc | httpStarted hpc =>
      simp only [ServiceLabel.isMain, ServiceState.bootRank, hpc, if_true]
      omega
  | awoken hpc =>
      have hle := stopRank_le (hserver hpc (by simp [MainPc.toEnd]))
      simp only [ServiceLabel.isMain, ServiceState.bootRank, hpc, if_true]
      omega
  | stopping hpc hne hio =>
      rcases hpc with hpc | hpc
      · simpa [ServiceLabel.isMain, ServiceState.bootRank, hpc, IoLabel.isStop] using hstop hpc hio
      · exact absurd (.inr (by simp [MainPc.afterHttp, hpc, MainPc.toEnd])) hstopping
  | httpStopped hpc hst => exact absurd (.inl ⟨hpc, .inr hst⟩) hstopping
  | httpDestroyed hpc | cancelled hpc | timersJoined hpc | cleared hpc =>
      exact absurd (.inr (by simp [MainPc.afterHttp, hpc, MainPc.toEnd])) hstopping
  | pumpStopped hpc | joined hpc =>
      refine absurd (.inr ?_) hstopping
      rcases hpc with ⟨hpc, -⟩ | ⟨hpc, -⟩ <;> simp [MainPc.afterHttp, hpc, MainPc.toEnd]

/-- The environment lets `Start`, `Stop` and a cancellation happen at any time. -/
theorem withIo_env {e : EnvLabel} {f : ServiceState → ServiceState}
    (hp : (s.mgr.env e).isSome = true) :
    ∃ s', s.withIo json (.core (.env e)) f = some s' := by
  obtain ⟨p, hp⟩ := Option.isSome_iff_exists.mp hp
  obtain ⟨io, hio⟩ := io_env_of json (c := s.io) hp
  exact ⟨_, withIo_eq_some_iff.mpr ⟨io, hio, rfl⟩⟩

/-- Until then `main` waits for nobody but the signal. -/
theorem main_enabled (json : BoostJson) (hreq : s.stopRequested = true) (hstopping : ¬ s.stopping) :
    ∃ s', s.step json .main = some s' := by
  have hafter : ∀ {P : Prop}, s.main.toEnd ≤ 8 → P := fun hend => absurd (.inr hend) hstopping
  simp only [ServiceState.step, stepMain]
  cases hpc : s.main with
  | managerStart =>
      dsimp only
      split
      · exact ⟨_, rfl⟩
      · exact withIo_env rfl
  | httpStart =>
      dsimp only
      split <;> exact ⟨_, rfl⟩
  | sleeping => exact ⟨_, if_pos hreq⟩
  | httpStop =>
      dsimp only
      split
      · exact ⟨_, rfl⟩
      · obtain ⟨io, hio⟩ : ∃ io, s.io.step json .stop = some io :=
          stop_enabled fun hjoining => hstopping (.inl ⟨hpc, hjoining⟩)
        exact ⟨_, withIo_eq_some_iff.mpr ⟨io, hio, rfl⟩⟩
  | _ => exact hafter (by simp [hpc, MainPc.toEnd])

/-! ## Up to the return of `Stop` -/

theorem serverRank_step (hs : (serviceSystem json).Reachable s) (hstep : s.step json l = some s')
    (hstopping : s.stopping) (hm : ¬ s.main.afterHttp) :
    s'.stopping ∧ (if l.isServer then 1 else 0) + s'.serverRank ≤ s.serverRank := by
  obtain ⟨hpc, hjoining⟩ := hstopping.resolve_right hm
  have hstarted := (mainInv_of_reachable hs).started (by simp [hpc, MainPc.toEnd])
  have hinv := ioInv_of_reachable ((systems_of_reachable hs (by simp [hpc])).2 hstarted)
  have hbeside : ∀ {a : IoLabel} {io : IoServer} {w : Option WorkerPc},
      s.io.step json a = some io →
      ServiceState.stopping { s with io := io, worker := w } ∧
        (if a.isOwn then 1 else 0) + serverRank { s with io := io, worker := w } ≤
          s.serverRank := by
    intro a io w hio
    obtain ⟨hjoining', hle⟩ := joinRank_step hinv hio hjoining
    refine ⟨.inl ⟨hpc, hjoining'⟩, ?_⟩
    simp only [serverRank, hpc, if_true]
    omega
  have hother : ∀ {pc : MainPc}, s.main = pc → pc ≠ .httpStop → False := by
    rintro _ rfl hne
    exact hne hpc
  cases step_cases hstep with
  | signal | broke | dispatched =>
      exact ⟨.inl ⟨hpc, hjoining⟩, by simp [ServiceLabel.isServer, serverRank]⟩
  | timer hl hio => cases hl <;> exact hbeside (w := s.worker) hio
  | handler hl hio => exact hbeside (w := s.worker) hio
  | called hw hcall hio => exact hbeside (w := s.worker) hio
  | advanced hw hcall hio => exact hbeside (w := s.worker) hio
  | popped hw hio => exact hbeside hio
  | left hw hio => exact hbeside hio
  | stopping hpc' hne hio => exact hbeside (w := s.worker) hio
  | httpStopped hpc' hst =>
      refine ⟨.inr (by simp [MainPc.afterHttp, MainPc.toEnd]), ?_⟩
      simp [ServiceLabel.isServer, serverRank, hpc]
  | startRefused hpc' | managerStarted hpc' | httpFailed hpc' | httpStarted hpc' | awoken hpc'
  | httpDestroyed hpc' | cancelled hpc' | timersJoined hpc' | cleared hpc' =>
      exact (hother hpc' (by simp)).elim
  | pumpStopped hpc' | joined hpc' =>
      rcases hpc' with ⟨hpc', -⟩ | ⟨hpc', -⟩ <;> exact (hother hpc' (by simp)).elim

/-- `main` or a thread that it waits for can go on. -/
theorem server_enabled (hs : (serviceSystem json).Reachable s) (hstopping : s.stopping)
    (hm : ¬ s.main.afterHttp) : ∃ l s', l.isServer = true ∧ s.step json l = some s' := by
  obtain ⟨hpc, hjoining⟩ := hstopping.resolve_right hm
  have hstarted := (mainInv_of_reachable hs).started (by simp [hpc, MainPc.toEnd])
  have hinv := ioInv_of_reachable ((systems_of_reachable hs (by simp [hpc])).2 hstarted)
  by_cases hstop : s.io.http.stop = .stopped
  · exact ⟨.main, _, rfl, by simp only [ServiceState.step, stepMain, hpc, hstop, if_true]; rfl⟩
  · obtain ⟨a, io, ha, hio⟩ := own_enabled hinv hjoining hstop
    have hto : s.withIo json a id = some { s with io := io } :=
      withIo_eq_some_iff.mpr ⟨io, hio, rfl⟩
    cases a with
    | stop =>
        have hmain : s.stepMain json = s.withIo json .stop id := by
          rw [stepMain, hpc]
          exact if_neg hstop
        exact ⟨.main, { s with io := io }, rfl, hmain.trans hto⟩
    | advance t => exact ⟨.io (.advance t), { s with io := io }, rfl, hto⟩
    | leave t => exact ⟨.io (.leave t), { s with io := io }, rfl, hto⟩
    | core | onCompletion | accept | read | write => cases ha

/-! ## Up to the return of `main` -/

/-- The weight of what is under way pays for the dispatches and the steps of the timers. -/
theorem state_core {core core' : DispatchState FsmKind} {a : DispatchLabel FsmKind}
    (hcore : (dispatchSystem .boot).ReachableVia (serial fun _ => True) core)
    (hs : core.step a = some core') (hg : serial (fun _ => True) core a)
    (hclient : accepted core a = 0) :
    dispatches core a + timerSteps core a + (Ranking.flow 1).state core' ≤
      (Ranking.flow 1).state core := by
  have hbalance := Ranking.step (R := .flow 1) (ranked_of_reachable hcore) hg
    (.inl (Ranking.flow_posts 1)) hs
  rw [hclient] at hbalance
  simpa [Ranking.flow] using hbalance

/-- A step of the manager that is no dispatch is none of the worker's. -/
theorem ranks_env {e : EnvLabel} {io : IoServer}
    (hio : s.io.step json (.core (.env e)) = some io) (w : Option WorkerPc) (pc : MainPc) :
    ServiceState.callbackRank { s with io := io, worker := w, main := pc } = s.callbackRank ∧
      (w = s.worker → ServiceState.workerRank { s with io := io, worker := w, main := pc } =
        s.workerRank) := by
  obtain ⟨p, -, rfl⟩ := io_env hio
  refine ⟨rfl, ?_⟩
  rintro rfl
  rfl

/-- The callback that the worker is in goes on. -/
theorem callbackRank_called {call : CallbackPc} {io : IoServer}
    (hcall : s.io.http.callbacks 0 = some call)
    (hio : s.io.step json (.onCompletion 0) = some io) :
    io.http.core = s.io.http.core ∧
      1 + ServiceState.callbackRank { s with io := io } ≤ s.callbackRank := by
  obtain ⟨http, hhttp, rfl⟩ := stepHttp_eq_some_iff.mp hio
  obtain ⟨call', hcall', rfl⟩ := HttpState.step_onCompletion hhttp
  obtain rfl : call = call' := Option.some.inj (hcall.symm.trans hcall')
  refine ⟨(s.io.http.stepOnCompletion_frame 0 call).1, ?_⟩
  cases call with
  | collect inst event =>
      simp only [ServiceState.callbackRank, hcall, HttpState.stepOnCompletion,
        Function.update_self]
      omega
  | notify inst event entriesToNotify next =>
      simp only [ServiceState.callbackRank, hcall, HttpState.stepOnCompletion]
      cases hr : entriesToNotify[next]? with
      | some r =>
          have hlt := (List.getElem?_eq_some_iff.mp hr).1
          simp only [Function.update_self]
          omega
      | none =>
          simp only [Function.update_self]
          omega

theorem exitRank_step (hs : (serviceSystem json).Reachable s) (hstep : s.step json l = some s')
    (hm : s.main.afterHttp) (hreturned : s.main ≠ .returned) :
    s'.main.afterHttp ∧ (if l.isThread then 1 else 0) + s'.exitRank ≤ s.exitRank := by
  have hserver := serverInv_of_reachable hs
  have hstop := hserver.stopped hm
  have hcore := (systems_of_reachable hs hreturned).1
  have hwork := workInv_of_reachable hs
  have hafter : ∀ {pc : MainPc}, s.main = pc → 8 < pc.toEnd → False := by
    rintro _ rfl hpc
    exact absurd hm (not_le.mpr hpc)
  -- it is enough to compare the sums
  have hless : ∀ {n : ℕ} {s' : ServiceState} (w k : ℕ), s'.workerRank = w → s'.callbackRank = k →
      n + (30 * (Ranking.flow 1).state s'.io.http.core + w + k + s'.main.toEnd) ≤
        30 * (Ranking.flow 1).state s.io.http.core + s.workerRank + s.callbackRank +
          s.main.toEnd → n + s'.exitRank ≤ s.exitRank := by
    rintro n s' _ _ rfl rfl hle
    rw [exitRank, exitRank, if_neg hreturned]
    split <;> omega
  have henv : ∀ {e : EnvLabel} {io : IoServer}, s.io.step json (.core (.env e)) = some io →
      e.accepted s.mgr.toMsgPorts = 0 → e.timerSteps + (Ranking.flow 1).state io.http.core ≤
        (Ranking.flow 1).state s.io.http.core := by
    intro e io hio hclient
    obtain ⟨p, hp, rfl⟩ := io_env hio
    have hle := state_core hcore (a := .env e) (DispatchState.step_env_iff.mpr ⟨p, hp, rfl⟩)
      trivial hclient
    simpa [dispatches, timerSteps] using hle
  cases step_cases hstep with
  | signal => exact ⟨hm, hless _ _ rfl rfl (Nat.zero_add _).le⟩
  | @timer _ e io hl hio =>
      have hpaid := henv hio (by cases hl <;> rfl)
      have hone : e.timerSteps = 1 := by cases hl <;> rfl
      have hthread : l.isThread = true := by cases hl <;> rfl
      obtain ⟨hcall, hwork⟩ := ranks_env hio s.worker s.main
      refine ⟨hm, hless _ _ (hwork rfl) hcall ?_⟩
      rw [hthread, if_pos rfl]
      simp only
      omega
  | handler hl hio => simp [handlers_joined hs hm] at hstep
  | popped hw hio =>
      obtain ⟨core, hpop, rfl⟩ := io_pop hio
      have hquiet : s.io.http.core.Quiet := fun t => (hwork.only t (.inr (by simp [hw]))).1
      have hpaid := state_core hcore hpop hquiet rfl
      have hrank : s.workerRank = 2 := by rw [ServiceState.workerRank, hw]
      have hleft : stepsLeft (core.threads 0) = 9 := by
        obtain ⟨-, pm, p, -, rfl⟩ := DispatchState.step_pop_iff.mp hpop
        simp [stepsLeft]
      refine ⟨hm, hless 12 s.callbackRank ?_ rfl ?_⟩
      · simp [ServiceState.workerRank, hleft]
      · simp only [ServiceLabel.isThread, dispatches, timerSteps, if_true] at hpaid ⊢
        omega
  | broke hw =>
      have hrank : s.workerRank = 2 := by rw [ServiceState.workerRank, hw]
      refine ⟨hm, hless 1 s.callbackRank rfl rfl ?_⟩
      simp only [ServiceLabel.isThread, if_true]
      omega
  | called hw hcall hio =>
      obtain ⟨hsame, hle⟩ := callbackRank_called hcall hio
      refine ⟨hm, hless s.workerRank _ ?_ rfl ?_⟩
      · rw [ServiceState.workerRank, ServiceState.workerRank, hsame]
      · simp only [ServiceLabel.isThread, if_true, hsame]
        omega
  | advanced hw hcall hio =>
      obtain ⟨core, hadvance, rfl⟩ := io_advance hio
      have hpaid := state_core hcore hadvance trivial rfl
      have hunset := hserver.callbackSet (by rw [hstop]; rfl)
      have hnotifying : s.io.http.notifying 0 = none := by
        rw [HttpState.notifying]
        split <;> simp [hunset]
      obtain ⟨th, next, m', ev, ht, hadv, rfl⟩ := DispatchState.step_advance_iff.mp hadvance
      have hleft : stepsLeft next + 1 ≤ stepsLeft (some th) :=
        hadv.stepsLeft (serial_running hcore ht)
      have hrank : s.workerRank = 3 + stepsLeft (some th) := by
        rw [ServiceState.workerRank, hw, ht]
      refine ⟨hm, hless (3 + stepsLeft next) 0 ?_ ?_ ?_⟩
      · simp [ServiceState.workerRank, hw]
      · simp [ServiceState.callbackRank, hnotifying]
      · simp only [ServiceLabel.isThread, dispatches, timerSteps, if_true] at hpaid ⊢
        omega
  | dispatched hw hcall ht =>
      have hrank : s.workerRank = 3 := by rw [ServiceState.workerRank, hw, ht]; rfl
      refine ⟨hm, hless 2 s.callbackRank rfl rfl ?_⟩
      simp only [ServiceLabel.isThread, if_true]
      omega
  | left hw hio =>
      have hpaid := henv hio rfl
      have hrank : s.workerRank = 1 := by rw [ServiceState.workerRank, hw]
      obtain ⟨hcall, -⟩ := ranks_env hio (some .exited) s.main
      refine ⟨hm, hless 0 _ rfl hcall ?_⟩
      simp only [ServiceLabel.isThread, if_true]
      omega
  | startRefused hpc | managerStarted hpc | httpFailed hpc | httpStarted hpc | awoken hpc
  | httpStopped hpc => exact (hafter hpc (by simp [MainPc.toEnd])).elim
  | stopping hpc hne => exact absurd hstop hne
  | httpDestroyed hpc | timersJoined hpc =>
      refine ⟨by simp [MainPc.afterHttp, MainPc.toEnd],
        hless s.workerRank s.callbackRank rfl rfl ?_⟩
      simp only [ServiceLabel.isThread, if_true, hpc, MainPc.toEnd]
      omega
  | @pumpStopped next io hpc hio =>
      have hpaid := henv hio rfl
      obtain ⟨hcall, hwork⟩ := ranks_env hio s.worker next
      have hend : next.toEnd + 1 = s.main.toEnd := by
        rcases hpc with ⟨hpc, rfl⟩ | ⟨hpc, rfl⟩ <;> simp [hpc, MainPc.toEnd]
      have hm' : s.main.toEnd ≤ 8 := hm
      refine ⟨?_, hless _ _ (hwork rfl) hcall ?_⟩
      · simp only [MainPc.afterHttp]
        omega
      · simp only [ServiceLabel.isThread, if_true]
        omega
  | @joined next hpc =>
      have hend : next.toEnd + 1 = s.main.toEnd := by
        rcases hpc with ⟨hpc, rfl⟩ | ⟨hpc, rfl⟩ <;> simp [hpc, MainPc.toEnd]
      have hm' : s.main.toEnd ≤ 8 := hm
      refine ⟨?_, hless s.workerRank s.callbackRank rfl rfl ?_⟩
      · simp only [MainPc.afterHttp]
        omega
      · simp only [ServiceLabel.isThread, if_true]
        omega
  | cancelled hpc hio =>
      have hpaid := henv hio rfl
      obtain ⟨hcall, hwork⟩ := ranks_env hio s.worker .joinTimers
      refine ⟨by simp [MainPc.afterHttp, MainPc.toEnd], hless _ _ (hwork rfl) hcall ?_⟩
      simp only [ServiceLabel.isThread, if_true, hpc, MainPc.toEnd]
      omega
  | cleared hpc =>
      refine ⟨by simp [MainPc.afterHttp, MainPc.toEnd], ?_⟩
      rw [exitRank, if_pos rfl, exitRank, if_neg hreturned, hpc]
      simp only [ServiceLabel.isThread, if_true, MainPc.toEnd]
      omega

/-- The worker can go on with a dispatch, and take a message that is there. -/
theorem dispatch_enabled (hs : (serviceSystem json).Reachable s)
    (hw : s.worker = some .dispatchMsg ∨ s.worker = some .runLoop ∧ s.mgr.pump.queue ≠ []) :
    ∃ s', s.step json .worker = some s' := by
  simp only [ServiceState.step, stepWorker]
  rcases hw with hw | ⟨hw, hqueue⟩
  · simp only [hw]
    split
    · rename_i hcall
      obtain ⟨call, hcall⟩ := Option.isSome_iff_exists.mp hcall
      obtain ⟨io, hio⟩ := io_onCompletion_of json hcall
      exact ⟨_, withIo_eq_some_iff.mpr ⟨io, hio, rfl⟩⟩
    · rename_i hcall
      rw [Option.not_isSome_iff_eq_none] at hcall
      split
      · rename_i ht
        obtain ⟨th, ht⟩ := Option.isSome_iff_exists.mp ht
        obtain ⟨io, hio⟩ := io_advance_of json hcall ht
        exact ⟨_, withIo_eq_some_iff.mpr ⟨io, hio, rfl⟩⟩
      · exact ⟨_, rfl⟩
  · obtain ⟨pm, rest, hqueue⟩ := List.exists_cons_of_ne_nil hqueue
    have hnone := ((workInv_of_reachable hs).only 0 (.inr (by simp [hw]))).1
    obtain ⟨io, hio⟩ := io_pop_of json hnone hqueue
    simp only [hw, hqueue, reduceCtorEq, and_false, if_false]
    exact ⟨_, withIo_eq_some_iff.mpr ⟨io, hio, rfl⟩⟩

/-- The worker of a stopped pump can go on. -/
theorem worker_enabled (hs : (serviceSystem json).Reachable s)
    (hstop : s.mgr.pump.stopped = true) (hw : s.worker ≠ none) (hw' : s.worker ≠ some .exited) :
    ∃ s', s.step json .worker = some s' := by
  cases hpc : s.worker with
  | none => exact absurd hpc hw
  | some pc =>
      cases pc with
      | exited => exact absurd hpc hw'
      | dispatchMsg => exact dispatch_enabled hs (.inl hpc)
      | leaveRun =>
          simp only [ServiceState.step, stepWorker, hpc]
          exact withIo_env rfl
      | runLoop =>
          by_cases hqueue : s.mgr.pump.queue = []
          · exact ⟨{ s with worker := some .leaveRun },
              by simp [ServiceState.step, stepWorker, hpc, hstop, hqueue]⟩
          · exact dispatch_enabled hs (.inr ⟨hpc, hqueue⟩)

/-- Until `main` has returned, it or a thread that it waits for can go on. -/
theorem thread_enabled (hs : (serviceSystem json).Reachable s) (hm : s.main.afterHttp)
    (hreturned : s.main ≠ .returned) :
    ∃ l s', l.isThread = true ∧ s.step json l = some s' := by
  have hmain := mainInv_of_reachable hs
  have hto : ∀ {pc : MainPc}, s.main = pc → (∃ s', s.stepMain json = some s') →
      ∃ l s', l.isThread = true ∧ s.step json l = some s' := by
    rintro _ rfl ⟨s', hs'⟩
    exact ⟨.main, s', rfl, hs'⟩
  have hm' : s.main.toEnd ≤ 8 := hm
  cases hpc : s.main with
  | managerStart | httpStart | sleeping | httpStop => simp [hpc, MainPc.toEnd] at hm'
  | managerStop | destroyStop | stopAllTimers =>
      refine hto hpc ?_
      simp only [stepMain, hpc]
      exact withIo_env rfl
  | managerJoin =>
      obtain ⟨hjoinable, hw⟩ := hmain.joinable (by simp [hpc, MainPc.toEnd])
        (by simp [hpc, MainPc.toEnd])
      by_cases hexited : s.worker = some .exited
      · exact hto hpc ⟨_, by simp only [stepMain, hpc, join, hjoinable, hexited, if_true]; rfl⟩
      · have hstop := (workInv_of_reachable hs).refusing (by simp [hpc, MainPc.toEnd])
        obtain ⟨s', hs'⟩ := worker_enabled hs hstop hw hexited
        exact ⟨.worker, s', rfl, hs'⟩
  | destroyHttp =>
      have hstop := (serverInv_of_reachable hs).stopped hm
      exact hto hpc ⟨_, by simp only [stepMain, hpc, hstop, if_true]; rfl⟩
  | destroyJoin =>
      have hjoinable := (hmain.joined (by simp [MainPc.joined, hpc, MainPc.toEnd])).1
      exact hto hpc ⟨_, by rw [stepMain, hpc]; exact if_neg (by simp [hjoinable])⟩
  | joinTimers =>
      by_cases hnone : s.mgr.timers.outstanding = []
      · exact hto hpc ⟨_, by simp only [stepMain, hpc, hnone, if_true]; rfl⟩
      · obtain ⟨e, halone, hp⟩ := timer_step_of_outstanding hnone
        obtain ⟨s', hs'⟩ : ∃ s', s.withIo json (.core (.env e)) id = some s' := withIo_env hp
        cases e with
        | timerWake k => exact ⟨.timerWake k, s', rfl, hs'⟩
        | timerPost k => exact ⟨.timerPost k, s', rfl, hs'⟩
        | _ => exact halone.elim
  | clear => exact hto hpc ⟨_, by simp only [stepMain, hpc]; rfl⟩
  | returned => exact absurd hpc hreturned

/-! ## The whole way -/

theorem requested_step (hreq : s.stopRequested = true) (hstep : s.step json l = some s') :
    s'.stopRequested = true := by
  cases step_cases hstep with
  | signal => rfl
  | _ => exact hreq

theorem bootRank_le (hs : (serviceSystem json).Reachable s) : s.bootRank ≤ threadCount + 9 := by
  rw [ServiceState.bootRank]
  cases hpc : s.main with
  | httpStop =>
      have hstarted := (mainInv_of_reachable hs).started (by simp [hpc, MainPc.toEnd])
      have hle := stopRank_le ((systems_of_reachable hs (by simp [hpc])).2 hstarted)
      simp only
      omega
  | _ => simp

theorem serverRank_le : s.serverRank ≤ 3 + 9 * threadCount := by
  have hle := joinRank_le (c := s.io)
  rw [ServiceState.serverRank]
  split <;> omega

/-- **`main` returns.** Once the signal has come, `main` takes so many steps, and waits for nobody,
until it joins the threads of the server or finds that there is none; it and those threads take so
many steps until `Stop` has returned; and all threads together take so many steps until `main` has
returned. Each time one of them can take the next step, whatever the others do. -/
theorem service_exits (hs : (serviceSystem json).Reachable s) (hreq : s.stopRequested = true) :
    (serviceSystem json).Within ServiceLabel.isMain ServiceState.stopping (threadCount + 9) s ∧
      (s.stopping → (serviceSystem json).Within ServiceLabel.isServer (fun s => s.main.afterHttp)
        (3 + 9 * threadCount) s) ∧
      (s.main.afterHttp → (serviceSystem json).Within ServiceLabel.isThread
        (fun s => s.main = .returned) s.exitRank s) := by
  refine ⟨?_, ?_, ?_⟩
  · have hwithin : (serviceSystem json).Within ServiceLabel.isMain ServiceState.stopping
        s.bootRank s := by
      refine Lts.Within.of_measure (V := ServiceState.bootRank)
        (I := fun s => (serviceSystem json).Reachable s ∧ s.stopRequested = true)
        ?step ?next ⟨hs, hreq⟩
      case step =>
        rintro s a t ⟨hr, hreq⟩ hstopping hstep
        exact ⟨⟨hr.step trivial hstep, requested_step hreq hstep⟩, bootRank_step hr hstep hstopping⟩
      case next =>
        rintro s ⟨-, hreq⟩ hstopping
        obtain ⟨s', hstep⟩ := main_enabled json hreq hstopping
        exact ⟨.main, s', rfl, hstep⟩
    exact hwithin.mono (bootRank_le hs)
  · intro hstopping
    have hwithin : (serviceSystem json).Within ServiceLabel.isServer (fun s => s.main.afterHttp)
        s.serverRank s := by
      refine Lts.Within.of_measure (V := ServiceState.serverRank)
        (I := fun s => (serviceSystem json).Reachable s ∧ s.stopping) ?step ?next ⟨hs, hstopping⟩
      case step =>
        rintro s a t ⟨hr, hstopping⟩ hm hstep
        obtain ⟨hstopping', hle⟩ := serverRank_step hr hstep hstopping hm
        exact ⟨⟨hr.step trivial hstep, hstopping'⟩, hle⟩
      case next =>
        rintro s ⟨hr, hstopping⟩ hm
        obtain ⟨l, s', hl, hstep⟩ := server_enabled hr hstopping hm
        exact ⟨l, s', hl, hstep⟩
    exact hwithin.mono serverRank_le
  · intro hm
    refine Lts.Within.of_measure (V := ServiceState.exitRank)
      (I := fun s => (serviceSystem json).Reachable s ∧ s.main.afterHttp) ?step ?next ⟨hs, hm⟩
    case step =>
      rintro s a t ⟨hr, hm⟩ hreturned hstep
      obtain ⟨hm', hle⟩ := exitRank_step hr hstep hm hreturned
      exact ⟨⟨hr.step trivial hstep, hm'⟩, hle⟩
    case next =>
      rintro s ⟨hr, hm⟩ hreturned
      obtain ⟨l, s', hl, hstep⟩ := thread_enabled hr hm hreturned
      exact ⟨l, s', hl, hstep⟩

/-- The signal comes while a registration waits. -/
theorem service_exits_signalled : ∃ s : ServiceState,
    (serviceSystem oneObjectJson).exec (fun _ _ => true) { io := .unstarted, boost := {} }
        signalled = some s ∧
      s.main = .managerJoin ∧
      (serviceSystem oneObjectJson).Within ServiceLabel.isThread (fun s => s.main = .returned)
        s.exitRank s := by
  obtain ⟨s, hrun, hm, hreq⟩ : ∃ s : ServiceState,
      (serviceSystem oneObjectJson).exec (fun _ _ => true) { io := .unstarted, boost := {} }
          signalled = some s ∧ s.main = .managerJoin ∧ s.stopRequested = true := ⟨_, rfl, rfl, rfl⟩
  have hs : (serviceSystem oneObjectJson).Reachable s :=
    ⟨_, ⟨{}, rfl⟩, Lts.runVia_of_exec (fun _ _ _ => trivial) hrun⟩
  exact ⟨s, hrun, hm, (service_exits hs hreq).2.2 (by simp [MainPc.afterHttp, hm, MainPc.toEnd])⟩

end FsmFramework
