import FsmFramework.ServiceMain

/-!
# What the destructors find

`main` stops the server before the manager, and joins the worker before either is destroyed. What
holds while it goes that way is said in four invariants: before the server is started nothing can
move (`Booting`), what `main` knows of the others (`MainInv`), what is left of the server
(`ServerInv`) and what the worker and the timers still do (`WorkInv`).

## Main results

* `teardown_safe` — no thread is left that could use what a destructor has freed.
* `destroyed_once` — every instance is destroyed, and only once.
-/

namespace FsmFramework

open IoServer

/-! ## Before the server is started -/

/-- The manager has been started, and nothing has happened yet. -/
def IoServer.managerStarted : IoServer where
  http := {
    core := .resting (CfactoryMgr.boot.withPorts { pump := { running := true } }) []
    callbackSet := false
    stop := .stopped }
  acceptorOpen := false
  acceptPending := false
  io := fun _ => .exited

variable {json : BoostJson} {s s' : ServiceState} {l : ServiceLabel}

/-- Until the server is started there is nothing that could move beside `main`. -/
structure Booting (s : ServiceState) : Prop where
  managerStart : s.main = .managerStart →
    s.io = .unstarted ∧ s.worker = none ∧ s.joinable = false
  httpStart : s.main = .httpStart → s.io = .managerStarted ∧ s.worker = some .runLoop

/-- A manager that nobody has used yet, and no server. -/
structure IoServer.Unused (c : IoServer) : Prop where
  timers : c.http.core.mgr.timers.outstanding = []
  queue : c.http.core.mgr.pump.queue = []
  running : c.http.core.mgr.pump.stopped = false
  exited : ∀ t, c.io t = .exited
  stop : c.http.stop = .stopped
  callbackSet : c.http.callbackSet = false

theorem Booting.unused (hb : Booting s) (hm : 11 ≤ s.main.toEnd) : s.io.Unused := by
  cases hpc : s.main with
  | managerStart =>
      rw [(hb.managerStart hpc).1]
      exact ⟨rfl, rfl, rfl, fun _ => rfl, rfl, rfl⟩
  | httpStart =>
      rw [(hb.httpStart hpc).1]
      exact ⟨rfl, rfl, rfl, fun _ => rfl, rfl, rfl⟩
  | _ => simp [hpc, MainPc.toEnd] at hm

/-- A timer's thread moves only before it is finished. -/
theorem outstanding_of_timer {p p' : MsgPorts} {e : EnvLabel} (hl : ServiceState.TimerStep l e)
    (hp : p.env e = some p') : p.timers.outstanding ≠ [] := by
  have hmem : ∀ {k : ℕ} {t : CTimer PumpMsg}, p.timers.timerList[k]? = some t →
      t.phase ≠ .finished → p.timers.outstanding ≠ [] := by
    intro k t hk hphase
    refine List.ne_nil_of_mem (a := t.timeoutMsg) (List.mem_filterMap.mpr ⟨t, ?_, if_neg hphase⟩)
    exact List.mem_of_getElem? hk
  cases hl with
  | wake k =>
      obtain ⟨r, hr, -⟩ := Option.map_eq_some_iff.mp hp
      obtain ⟨t, hk, hsleep, -⟩ := TimerManager.wake_some hr
      exact hmem hk (by simp [hsleep])
  | post k =>
      obtain ⟨r, hr, -⟩ := Option.map_eq_some_iff.mp hp
      obtain ⟨t, hk, hexpired, -⟩ := TimerManager.expire_some hr
      exact hmem hk (by simp [hexpired])

theorem Booting.step (hb : Booting s) (hs : s.step json l = some s') : Booting s' := by
  have hmoved : ∀ {s' : ServiceState} {pc : MainPc}, s'.main = pc → pc.toEnd < 11 →
      Booting s' := by
    rintro s' _ rfl hm
    refine ⟨fun hpc => ?_, fun hpc => ?_⟩ <;> simp [hpc, MainPc.toEnd] at hm
  have hbeside : ∀ {s' : ServiceState}, s'.main = s.main → (s.io.Unused → False) →
      Booting s' := by
    intro s' hmain hcontra
    apply hmoved hmain
    by_contra hm
    exact hcontra (hb.unused (by omega))
  cases ServiceState.step_cases hs with
  | signal => exact ⟨hb.managerStart, hb.httpStart⟩
  | timer hl hio =>
      obtain ⟨p, hp, rfl⟩ := io_env hio
      exact hbeside rfl fun hu => outstanding_of_timer hl hp hu.timers
  | handler hl hio =>
      obtain ⟨t, ht⟩ := (handler_frame hl hio).alive
      exact hbeside rfl fun hu => ht (hu.exited t)
  | popped hw hio =>
      obtain ⟨core, hcore, rfl⟩ := io_pop hio
      obtain ⟨-, pm, p, hports, rfl⟩ := DispatchState.step_pop_iff.mp hcore
      refine hbeside rfl fun hu => ?_
      have hqueue := hu.queue
      rw [hports] at hqueue
      cases hqueue
  | broke hw hstop => exact hbeside rfl fun hu => by simp [hu.running] at hstop
  | called hw | advanced hw | dispatched hw | left hw =>
      refine ⟨fun hpc => ?_, fun hpc => ?_⟩
      · simp [(hb.managerStart hpc).2.1] at hw
      · simp [(hb.httpStart hpc).2] at hw
  | startRefused => exact hmoved rfl (by simp [MainPc.toEnd])
  | managerStarted hm hio =>
      obtain ⟨hunstarted, -, hjoinable⟩ := hb.managerStart hm
      rw [hunstarted, hjoinable] at hio
      obtain rfl := Option.some.inj hio
      exact ⟨fun hpc => by simp at hpc, fun _ => ⟨rfl, rfl⟩⟩
  | httpFailed | httpStarted | awoken | httpStopped | httpDestroyed | cancelled | timersJoined
  | cleared => exact hmoved rfl (by simp [MainPc.toEnd])
  | stopping hm =>
      refine hmoved rfl ?_
      rcases hm with hm | hm <;> simp [hm, MainPc.toEnd]
  | pumpStopped hm | joined hm =>
      refine hmoved rfl ?_
      rcases hm with ⟨-, rfl⟩ | ⟨-, rfl⟩ <;> simp [MainPc.toEnd]

theorem booting_of_reachable (hs : (serviceSystem json).Reachable s) : Booting s := by
  refine hs.invariant ?init fun _ _ _ hb _ hs => hb.step hs
  case init =>
    rintro _ ⟨boost, rfl⟩
    exact ⟨fun _ => ⟨rfl, rfl, rfl⟩, fun hpc => by simp at hpc⟩

/-! ## Where `main` stands, and what that means -/

/-- What `main` knows of the worker, of the signal and of its return value. -/
structure MainInv (s : ServiceState) : Prop where
  joinable : 7 ≤ s.main.toEnd → s.main.toEnd ≤ 11 → s.joinable = true ∧ s.worker ≠ none
  joined : s.main.joined → s.joinable = false ∧ s.worker = some .exited
  unstarted : 11 ≤ s.main.toEnd → s.started = false ∧ s.code = 0
  started : s.main.toEnd = 9 ∨ s.main.toEnd = 10 → s.started = true
  code : s.main.toEnd ≤ 10 → s.code = if s.started then 0 else 2
  requested : s.main.toEnd ≤ 9 → s.started = true → s.stopRequested = true

theorem MainInv.step (hb : Booting s) (hI : MainInv s) (hs : s.step json l = some s') :
    MainInv s' := by
  obtain ⟨hjoinable, hjoined, hunstarted, hstarted, hcode, hrequested⟩ := hI
  cases ServiceState.step_cases hs with
  | signal => exact ⟨hjoinable, hjoined, hunstarted, hstarted, hcode, fun _ _ => rfl⟩
  | timer | handler | called | advanced | stopping =>
      exact ⟨hjoinable, hjoined, hunstarted, hstarted, hcode, hrequested⟩
  | popped hw | broke hw | dispatched hw | left hw =>
      refine ⟨fun hm hm' => ⟨(hjoinable hm hm').1, by simp⟩, fun hm => ?_, hunstarted, hstarted,
        hcode, hrequested⟩
      simp [(hjoined hm).2] at hw
  | startRefused hm hret =>
      obtain ⟨hunused, -, hfalse⟩ := hb.managerStart hm
      rw [hfalse, ServiceState.mgr, hunused] at hret
      exact absurd rfl hret
  | managerStarted hm =>
      simp only [hm, MainPc.toEnd] at hunstarted
      constructor <;> simp_all [MainPc.toEnd, MainPc.joined]
  | httpFailed hm =>
      simp only [hm, MainPc.toEnd] at hunstarted hjoinable
      constructor <;> simp_all [MainPc.toEnd, MainPc.joined]
  | httpStarted hm =>
      simp only [hm, MainPc.toEnd] at hunstarted hjoinable
      constructor <;> simp_all [MainPc.toEnd, MainPc.joined]
  | awoken hm | httpStopped hm | cancelled hm | timersJoined hm | cleared hm =>
      constructor <;> simp_all [MainPc.toEnd, MainPc.joined]
  | httpDestroyed hm => constructor <;> simp_all [MainPc.toEnd, MainPc.joined]
  | pumpStopped hm =>
      rcases hm with ⟨hm, rfl⟩ | ⟨hm, rfl⟩ <;>
        constructor <;> simp_all [MainPc.toEnd, MainPc.joined]
  | joined hm =>
      rcases hm with ⟨hm, rfl⟩ | ⟨hm, rfl⟩ <;>
        constructor <;> simp_all [MainPc.toEnd, MainPc.joined]

theorem mainInv_of_reachable (hs : (serviceSystem json).Reachable s) : MainInv s := by
  refine hs.invariant_reachable ?init
    fun _ _ _ hr hI _ hs => hI.step (booting_of_reachable hr) hs
  case init =>
    rintro _ ⟨boost, rfl⟩
    constructor <;> simp [MainPc.toEnd, MainPc.joined]

/-- What is left of the server. -/
structure ServerInv (s : ServiceState) : Prop where
  stopped : s.main.toEnd ≤ 8 → s.io.http.stop = .stopped
  exited : s.io.http.stop = .stopped → ∀ t, s.io.io t = .exited
  callbackSet : s.io.http.stop.unset = true → s.io.http.callbackSet = false

theorem ServerInv.step (hb : Booting s) (hI : ServerInv s) (hs : s.step json l = some s') :
    ServerInv s' := by
  obtain ⟨hstopped, hexited, hset⟩ := hI
  have hsame : ∀ (io : IoServer), io.http.stop = s.io.http.stop →
      io.http.callbackSet = s.io.http.callbackSet → (∀ t, s.io.io t = .exited → io.io t = .exited) →
      (io.http.stop = .stopped → ∀ t, io.io t = .exited) ∧
        (io.http.stop.unset = true → io.http.callbackSet = false) := by
    intro io hstop hcallback hio
    rw [hstop, hcallback]
    exact ⟨fun hst t => hio t (hexited hst t), hset⟩
  have hcore : ∀ {a : IoLabel} {io : IoServer}, (∃ l, a = .core l) →
      s.io.step json a = some io →
      io.http.stop = s.io.http.stop ∧ (io.http.stop = .stopped → ∀ t, io.io t = .exited) ∧
        (io.http.stop.unset = true → io.http.callbackSet = false) := by
    rintro _ io ⟨l, rfl⟩ hio
    obtain ⟨http, hhttp, rfl⟩ := stepHttp_eq_some_iff.mp hio
    obtain ⟨hstop, hcallback⟩ := beside_stop (by simp) hhttp
    exact ⟨hstop, hsame _ hstop hcallback fun _ h => h⟩
  cases ServiceState.step_cases hs with
  | signal | broke | dispatched => exact ⟨hstopped, hexited, hset⟩
  | startRefused hm =>
      exact ⟨fun _ => (hb.unused (by simp [hm, MainPc.toEnd])).stop, hexited, hset⟩
  | httpFailed hm =>
      exact ⟨fun _ => (hb.unused (by simp [hm, MainPc.toEnd])).stop, hexited, hset⟩
  | timer hl hio =>
      obtain ⟨hstop, hrest⟩ := hcore ⟨_, rfl⟩ hio
      exact ⟨fun hm => hstop.trans (hstopped hm), hrest.1, hrest.2⟩
  | popped hw hio | left hw hio | advanced hw hcall hio =>
      obtain ⟨hstop, hrest⟩ := hcore ⟨_, rfl⟩ hio
      exact ⟨fun hm => hstop.trans (hstopped hm), hrest.1, hrest.2⟩
  | managerStarted hm hio =>
      obtain ⟨hstop, hrest⟩ := hcore ⟨_, rfl⟩ hio
      exact ⟨fun hm => by simp [MainPc.toEnd] at hm, hrest.1, hrest.2⟩
  | pumpStopped hm hio =>
      obtain ⟨hstop, hrest⟩ := hcore ⟨_, rfl⟩ hio
      refine ⟨fun _ => hstop.trans (hstopped ?_), hrest.1, hrest.2⟩
      rcases hm with ⟨hm, -⟩ | ⟨hm, -⟩ <;> simp [hm, MainPc.toEnd]
  | cancelled hm hio =>
      obtain ⟨hstop, hrest⟩ := hcore ⟨_, rfl⟩ hio
      exact ⟨fun _ => hstop.trans (hstopped (by simp [hm, MainPc.toEnd])), hrest.1, hrest.2⟩
  | handler hl hio =>
      have hframe := handler_frame hl hio
      obtain ⟨hex, hset'⟩ := hsame _ hframe.stop hframe.callbackSet hframe.exited
      exact ⟨fun hm => hframe.stop.trans (hstopped hm), hex, hset'⟩
  | @called call io hw hcall hio =>
      obtain ⟨http, hhttp, rfl⟩ := stepHttp_eq_some_iff.mp hio
      obtain ⟨hstop, hcallback⟩ := beside_stop (by simp) hhttp
      obtain ⟨hex, hset'⟩ := hsame { s.io with http := http } hstop hcallback fun _ h => h
      exact ⟨fun hm => hstop.trans (hstopped hm), hex, hset'⟩
  | httpStarted hm =>
      exact ⟨fun hm => by simp [MainPc.toEnd] at hm, fun hstop => by simp at hstop,
        fun hunset => by simp [StopPc.unset] at hunset⟩
  | awoken hm => exact ⟨fun hm => by simp [MainPc.toEnd] at hm, hexited, hset⟩
  | httpStopped hm hstop => exact ⟨fun _ => hstop, hexited, hset⟩
  | httpDestroyed hm hstop => exact ⟨fun _ => hstop, hexited, hset⟩
  | timersJoined hm | cleared hm =>
      exact ⟨fun _ => hstopped (by simp [hm, MainPc.toEnd]), hexited, hset⟩
  | joined hm =>
      refine ⟨fun _ => hstopped ?_, hexited, hset⟩
      rcases hm with ⟨hm, -⟩ | ⟨hm, -⟩ <;> simp [hm, MainPc.toEnd]
  | stopping hm hstop hio =>
      refine ⟨fun hm' => absurd (hstopped hm') hstop, ?_, ?_⟩
      · intro hst t
        cases IoServer.step_cases hio with
        | acceptorClosed hcollect => exact absurd (hst.symm.trans hcollect) (by simp)
        | stop hopen hjoin hhttp =>
            cases HttpState.stepStop_cases hhttp with
            | joined hpc => exact hjoin hpc t
            | exchanged | unset | collected | notified | released | iocStopped => cases hst
      · cases IoServer.step_cases hio with
        | acceptorClosed hcollect => exact hset
        | stop hopen hjoin hhttp => exact unset_step hset hhttp

theorem serverInv_of_reachable (hs : (serviceSystem json).Reachable s) : ServerInv s := by
  refine hs.invariant_reachable ?init
    fun _ _ _ hr hI _ hs => hI.step (booting_of_reachable hr) hs
  case init =>
    rintro _ ⟨boost, rfl⟩
    exact ⟨fun _ => rfl, fun _ _ => rfl, fun _ => rfl⟩

/-! ## The dispatches -/

/-- The worker is the one that dispatches, and once `main` has stopped the pump and joined it, no
message is left. -/
structure WorkInv (s : ServiceState) : Prop where
  only : ∀ t, t ≠ 0 ∨ s.worker ≠ some .dispatchMsg →
    s.io.http.core.threads t = none ∧ s.io.http.callbacks t = none
  refusing : s.main.toEnd ≤ 7 → s.mgr.pump.stopped = true
  drained : s.worker = some .leaveRun ∨ s.worker = some .exited →
    s.mgr.pump.stopped = true ∧ s.mgr.pump.queue = []
  timers : s.main.timersGone → s.mgr.timers.outstanding = []

/-- A stopped pump refuses what is posted. -/
theorem pump_env {p p' : MsgPorts} {e : EnvLabel} (hp : p.env e = some p')
    (hstop : p.pump.stopped = true) (hstart : ∀ joinable, e ≠ .start joinable) :
    p'.pump.stopped = true ∧ p'.pump.queue = p.pump.queue := by
  have hsend : ∀ {q : MsgPorts} {m : PumpMsg}, q.pump = p.pump →
      (q.sendMsg m).2.pump.stopped = true ∧ (q.sendMsg m).2.pump.queue = p.pump.queue := by
    intro q m hq
    have hstopped : q.pump.stopped = true := by rw [hq, hstop]
    rw [MsgPorts.sendMsg_of_stopped hstopped, hq]
    exact ⟨hstop, rfl⟩
  cases e with
  | sendMsg n msg => exact Option.some.inj hp ▸ hsend rfl
  | start joinable => exact absurd rfl (hstart joinable)
  | stop => exact Option.some.inj hp ▸ ⟨rfl, rfl⟩
  | leaveRun | stopTimer | stopAllTimers => exact Option.some.inj hp ▸ ⟨hstop, rfl⟩
  | timerWake k =>
      obtain ⟨r, -, rfl⟩ := Option.map_eq_some_iff.mp hp
      exact ⟨hstop, rfl⟩
  | timerPost k =>
      obtain ⟨r, -, rfl⟩ := Option.map_eq_some_iff.mp hp
      exact hsend rfl

/-- Only `Start` lets a stopped pump accept again. -/
theorem stopped_core {core core' : DispatchState FsmKind} {a : DispatchLabel FsmKind}
    (hs : core.step a = some core') (hstart : ∀ joinable, a ≠ .env (.start joinable))
    (hstop : core.mgr.pump.stopped = true) : core'.mgr.pump.stopped = true := by
  cases a with
  | env e =>
      obtain ⟨p, hp, rfl⟩ := DispatchState.step_env_iff.mp hs
      refine (pump_env hp hstop fun joinable => ?_).1
      rintro rfl
      exact hstart joinable rfl
  | registerFactory factory =>
      obtain rfl := DispatchState.step_registerFactory_iff.mp hs
      rw [CfactoryMgr.registerFactory_toMsgPorts]
      exact hstop
  | pop t =>
      obtain ⟨-, pm, p, hports, rfl⟩ := DispatchState.step_pop_iff.mp hs
      rw [hports] at hstop
      exact hstop
  | advance t =>
      obtain ⟨th, next, m', ev, -, hadv, rfl⟩ := DispatchState.step_advance_iff.mp hs
      rcases hadv.ports with hsame | ⟨kind, facId, fsm, hsame⟩
      · rw [hsame]
        exact hstop
      · rw [hsame]
        exact (kind.stopped_processMsg facId fsm _ _).trans hstop

theorem WorkInv.step (hb : Booting s) (hm : MainInv s) (hI : WorkInv s)
    (hs : s.step json l = some s') : WorkInv s' := by
  obtain ⟨honly, hrefusing, hdrained, htimers⟩ := hI
  have hworking : ∀ {P : Prop}, s.main.timersGone → s.worker ≠ some .exited → P := by
    intro P hend hw
    exact absurd (hm.joined (le_trans hend (by decide))).2 hw
  have hsame : ∀ {io : IoServer}, io.http.core = s.io.http.core →
      (∀ t, t ≠ 0 ∨ s.worker ≠ some .dispatchMsg → io.http.callbacks t = none) →
      WorkInv { s with io := io } := by
    intro io hcore hcallbacks
    have hmgr : ServiceState.mgr { s with io := io } = s.mgr := congrArg DispatchState.mgr hcore
    refine ⟨fun t ht => ⟨hcore ▸ (honly t ht).1, hcallbacks t ht⟩, ?_, ?_, ?_⟩
    · rw [hmgr]
      exact hrefusing
    · rw [hmgr]
      exact hdrained
    · rw [hmgr]
      exact htimers
  cases ServiceState.step_cases hs with
  | signal => exact ⟨honly, hrefusing, hdrained, htimers⟩
  | @timer _ e io hl hio =>
      obtain ⟨p, hp, rfl⟩ := io_env hio
      have hstart : ∀ joinable, e ≠ .start joinable := by cases hl <;> simp
      refine ⟨honly, fun hend => (pump_env hp (hrefusing hend) hstart).1, fun hw => ?_,
        fun hend => absurd (htimers hend) (outstanding_of_timer hl hp)⟩
      obtain ⟨hstop, hempty⟩ := hdrained hw
      obtain ⟨hstop', hsame⟩ := pump_env hp hstop hstart
      exact ⟨hstop', hsame.trans hempty⟩
  | @handler _ io hl hio =>
      have hframe := handler_frame hl hio
      have hports : io.http.core.threads = s.io.http.core.threads ∧
          io.http.core.mgr.timers = s.mgr.timers ∧ (s.mgr.pump.stopped = true →
            io.http.core.mgr.pump.stopped = true ∧
              io.http.core.mgr.pump.queue = s.mgr.pump.queue) := by
        rcases hframe.core with heq | ⟨r, msg, heq⟩
        · rw [heq]
          exact ⟨rfl, rfl, fun hstop => ⟨hstop, rfl⟩⟩
        · rw [heq]
          refine ⟨rfl, rfl, fun hstop => ?_⟩
          exact pump_env (p := s.mgr.toMsgPorts) (e := .sendMsg r msg) rfl hstop (by simp)
      obtain ⟨hthreads, hsame, hpump⟩ := hports
      refine ⟨fun t ht => ?_, fun hend => (hpump (hrefusing hend)).1, fun hw => ?_, fun hend => ?_⟩
      · rw [hthreads, hframe.callbacks]
        exact honly t ht
      · obtain ⟨hstop, hempty⟩ := hdrained hw
        obtain ⟨hstop', hqueue⟩ := hpump hstop
        exact ⟨hstop', hqueue.trans hempty⟩
      · rw [ServiceState.mgr, hsame]
        exact htimers hend
  | popped hw hio =>
      obtain ⟨core, hcore, rfl⟩ := io_pop hio
      have hpump := stopped_core hcore (by simp)
      obtain ⟨-, pm, p, -, rfl⟩ := DispatchState.step_pop_iff.mp hcore
      refine ⟨fun t ht => ?_, fun hend => hpump (hrefusing hend), fun hw' => by simp at hw',
        fun hend => hworking hend (by simp [hw])⟩
      have hne : t ≠ 0 := ht.resolve_right fun h => h rfl
      obtain ⟨hthread, hnone⟩ := honly t (.inl hne)
      exact ⟨(Function.update_of_ne hne ..).trans hthread, hnone⟩
  | broke hw hstop hempty =>
      exact ⟨fun t _ => honly t (.inr (by simp [hw])), hrefusing, fun _ => ⟨hstop, hempty⟩,
        htimers⟩
  | called hw hcall hio =>
      obtain ⟨http, hhttp, rfl⟩ := stepHttp_eq_some_iff.mp hio
      obtain ⟨call, -, rfl⟩ := HttpState.step_onCompletion hhttp
      refine hsame (s.io.http.stepOnCompletion_frame 0 call).1 fun t ht => ?_
      have hne : t ≠ 0 := ht.resolve_right fun h => h hw
      obtain hkept | ⟨hl, -⟩ | ⟨call', hl, -⟩ := callbacks_step hhttp t
      · exact hkept.trans (honly t (.inl hne)).2
      · cases hl
      · cases hl
        exact absurd rfl hne
  | advanced hw hcall hio =>
      obtain ⟨core, hcore, rfl⟩ := io_advance hio
      have hpump := stopped_core hcore (by simp)
      refine ⟨fun t ht => ?_, fun hend => hpump (hrefusing hend), fun hw' => by simp [hw] at hw',
        fun hend => hworking hend (by simp [hw])⟩
      have hne : t ≠ 0 := ht.resolve_right fun h => h hw
      obtain ⟨hthread, hnone⟩ := honly t (.inl hne)
      obtain ⟨th, next, m', ev, -, -, rfl⟩ := DispatchState.step_advance_iff.mp hcore
      exact ⟨(Function.update_of_ne hne ..).trans hthread,
        (Function.update_of_ne hne ..).trans hnone⟩
  | dispatched hw hcall ht =>
      refine ⟨fun t _ => ?_, hrefusing, fun hw' => by simp at hw',
        fun hend => hworking hend (by simp [hw])⟩
      rcases eq_or_ne t 0 with rfl | hne
      · exact ⟨ht, hcall⟩
      · exact honly t (.inl hne)
  | left hw hio =>
      obtain ⟨p, hp, rfl⟩ := io_env hio
      obtain ⟨hstop, hempty⟩ := hdrained (.inl hw)
      obtain ⟨hstop', hsame⟩ := pump_env hp hstop (by simp)
      exact ⟨fun t _ => honly t (.inr (by simp [hw])), fun _ => hstop',
        fun _ => ⟨hstop', hsame.trans hempty⟩, fun hend => hworking hend (by simp [hw])⟩
  | startRefused hpc hret =>
      obtain ⟨hunused, -, hfalse⟩ := hb.managerStart hpc
      rw [hfalse, ServiceState.mgr, hunused] at hret
      exact absurd rfl hret
  | managerStarted hpc hio =>
      obtain ⟨hunused, hnone, -⟩ := hb.managerStart hpc
      obtain ⟨p, hp, rfl⟩ := io_env hio
      exact ⟨fun t _ => honly t (.inr (by simp [hnone])),
        fun hend => by simp [MainPc.toEnd] at hend, fun hw => by simp at hw,
        fun hend => by simp [MainPc.timersGone, MainPc.toEnd] at hend⟩
  | httpStarted hpc =>
      have hw := (hb.httpStart hpc).2
      exact ⟨fun t _ => ⟨(honly t (.inr (by simp [hw]))).1, rfl⟩,
        fun hend => by simp [MainPc.toEnd] at hend, hdrained,
        fun hend => by simp [MainPc.timersGone, MainPc.toEnd] at hend⟩
  | httpFailed | awoken | httpStopped =>
      exact ⟨honly, fun hend => by simp [MainPc.toEnd] at hend, hdrained,
        fun hend => by simp [MainPc.timersGone, MainPc.toEnd] at hend⟩
  | httpDestroyed hpc =>
      exact ⟨honly, fun _ => hrefusing (by simp [hpc, MainPc.toEnd]), hdrained,
        fun hend => by simp [MainPc.timersGone, MainPc.toEnd] at hend⟩
  | stopping hpc hstop hio =>
      obtain ⟨hcore, hcallbacks⟩ := io_stop hio
      exact hsame hcore fun t ht => hcallbacks ▸ (honly t ht).2
  | pumpStopped hpc hio =>
      obtain ⟨p, hp, rfl⟩ := io_env hio
      obtain rfl := Option.some.inj hp
      refine ⟨honly, fun _ => rfl, fun hw => ⟨rfl, (hdrained hw).2⟩, fun hend => ?_⟩
      rcases hpc with ⟨-, rfl⟩ | ⟨-, rfl⟩ <;> simp [MainPc.timersGone, MainPc.toEnd] at hend
  | joined hpc hexited =>
      refine ⟨honly, fun _ => hrefusing ?_, hdrained, fun hend => ?_⟩
      · rcases hpc with ⟨hpc, -⟩ | ⟨hpc, -⟩ <;> simp [hpc, MainPc.toEnd]
      · rcases hpc with ⟨-, rfl⟩ | ⟨-, rfl⟩ <;> simp [MainPc.timersGone, MainPc.toEnd] at hend
  | cancelled hpc hio =>
      obtain ⟨p, hp, rfl⟩ := io_env hio
      obtain rfl := Option.some.inj hp
      exact ⟨honly, fun _ => hrefusing (by simp [hpc, MainPc.toEnd]), hdrained,
        fun hend => by simp [MainPc.timersGone, MainPc.toEnd] at hend⟩
  | timersJoined hpc hnone =>
      exact ⟨honly, fun _ => hrefusing (by simp [hpc, MainPc.toEnd]), hdrained, fun _ => hnone⟩
  | cleared hpc =>
      exact ⟨honly, fun _ => hrefusing (by simp [hpc, MainPc.toEnd]), hdrained, fun _ => rfl⟩

theorem workInv_of_reachable (hs : (serviceSystem json).Reachable s) : WorkInv s := by
  refine hs.invariant_reachable ?init fun _ _ _ hr hI _ hs =>
    hI.step (booting_of_reachable hr) (mainInv_of_reachable hr) hs
  case init =>
    rintro _ ⟨boost, rfl⟩
    exact ⟨fun _ _ => ⟨rfl, rfl⟩, fun hend => by simp [MainPc.toEnd] at hend,
      fun hw => by simp at hw, fun _ => rfl⟩

/-- Below `main` the manager runs as it does with one dispatcher, and the server as it does by
itself. -/
theorem systems_of_reachable (hs : (serviceSystem json).Reachable s) (hm : s.main ≠ .returned) :
    (dispatchSystem .boot).ReachableVia (serial fun _ => True) s.io.http.core ∧
      (s.started = true → (ioSystem json).Reachable s.io) := by
  refine hs.invariant_reachable (I := fun s => s.main ≠ .returned →
    (dispatchSystem .boot).ReachableVia (serial fun _ => True) s.io.http.core ∧
      (s.started = true → (ioSystem json).Reachable s.io)) ?init ?step hm
  case init =>
    rintro _ ⟨boost, rfl⟩ -
    exact ⟨.of_init rfl, fun h => by simp at h⟩
  case step =>
    intro s l s' hr hI _ hs hm
    have hstep : ∀ {a : IoLabel} {io : IoServer}, s.main ≠ .returned →
        s.io.step json a = some io →
        (∀ t, a = .core (.pop t) → s.io.http.core.Quiet) →
        (∀ f, a ≠ .core (.registerFactory f)) →
        (dispatchSystem .boot).ReachableVia (serial fun _ => True) io.http.core ∧
          (s.started = true → (ioSystem json).Reachable io) := by
      intro a io hm hio hquiet hregister
      obtain ⟨hcore, hserver⟩ := hI hm
      refine ⟨?_, fun hstarted => (hserver hstarted).step trivial hio⟩
      rcases io_core hio with heq | ⟨b, hb, ha⟩
      · rwa [heq]
      · refine hcore.step ?_ hb
        rcases ha with rfl | ⟨r, msg, rfl⟩
        · cases b with
          | env e => exact trivial
          | registerFactory f => exact hregister f rfl
          | pop t => exact hquiet t rfl
          | advance t => exact trivial
        · exact trivial
    cases ServiceState.step_cases hs with
    | signal | broke | dispatched => exact hI hm
    | timer hl hio | called hw hcall hio | advanced hw hcall hio | stopping hpc hstop hio =>
        exact hstep hm hio (by simp) (by simp)
    | handler hl hio =>
        refine hstep hm hio ?_ ?_
        · rintro t rfl
          cases hl
        · rintro f rfl
          cases hl
    | popped hw hio =>
        refine hstep hm hio (fun _ _ t => ?_) (by simp)
        exact ((workInv_of_reachable hr).only t (.inr (by simp [hw]))).1
    | left hw hio => exact hstep hm hio (by simp) (by simp)
    | startRefused hpc | httpFailed hpc | awoken hpc | httpStopped hpc | httpDestroyed hpc
    | timersJoined hpc => exact hI (by simp [hpc])
    | managerStarted hpc hio | cancelled hpc hio =>
        exact hstep (by simp [hpc]) hio (by simp) (by simp)
    | httpStarted hpc =>
        have hcore := (hI (by simp [hpc])).1
        refine ⟨hcore, fun _ => ?_⟩
        rw [((booting_of_reachable hr).httpStart hpc).1]
        refine Lts.ReachableVia.step (M := ioSystem json)
          (s := { http := { core := .resting .boot [], nextSessionId := 1 } })
          (a := .core (.env (.start false))) (.of_init ⟨1, rfl⟩) trivial rfl
    | pumpStopped hpc hio =>
        refine hstep ?_ hio (by simp) (by simp)
        rcases hpc with ⟨hpc, -⟩ | ⟨hpc, -⟩ <;> simp [hpc]
    | joined hpc =>
        refine hI ?_
        rcases hpc with ⟨hpc, -⟩ | ⟨hpc, -⟩ <;> simp [hpc]
    | cleared => exact absurd rfl hm

/-! ## The destructors -/

/-- When the worker has been joined, it takes no step. -/
theorem worker_joined (hs : (serviceSystem json).Reachable s) (hm : s.main.joined) :
    s.step json .worker = none := by
  have hexited := ((mainInv_of_reachable hs).joined hm).2
  simp [ServiceState.step, ServiceState.stepWorker, hexited]

/-- When `Stop` of the server has returned, no thread of the server is left. -/
theorem handlers_joined (hs : (serviceSystem json).Reachable s) (hm : s.main.afterHttp)
    (a : IoLabel) : s.step json (.io a) = none := by
  have hserver := serverInv_of_reachable hs
  cases ht : s.step json (.io a) with
  | none => rfl
  | some s' =>
      cases ServiceState.step_cases ht with
      | timer hl => cases hl
      | handler hl hio =>
          obtain ⟨t, halive⟩ := (handler_frame hl hio).alive
          exact absurd (hserver.exited (hserver.stopped hm) t) halive

/-- When the timers' threads have been joined, none of them takes a step. -/
theorem timers_joined {e : EnvLabel} (hs : (serviceSystem json).Reachable s)
    (hm : s.main.timersGone) (hl : ServiceState.TimerStep l e) : s.step json l = none := by
  cases ht : s.step json l with
  | none => rfl
  | some s' =>
      cases ServiceState.step_cases ht with
      | timer hl hio =>
          obtain ⟨p, hp, rfl⟩ := io_env hio
          exact absurd ((workInv_of_reachable hs).timers hm) (outstanding_of_timer hl hp)
      | _ => cases hl

/-- After the return of `main` only the signal can come. -/
theorem returned_step (hs : (serviceSystem json).Reachable s) (hm : s.main = .returned)
    (hstep : s.step json l = some s') : l = .signal := by
  have hjoined : s.main.joined := by simp [MainPc.joined, MainPc.toEnd, hm]
  have hgone : s.main.timersGone := by simp [MainPc.timersGone, MainPc.toEnd, hm]
  cases l with
  | signal => rfl
  | main => simp [ServiceState.step, ServiceState.stepMain, hm] at hstep
  | worker => simp [worker_joined hs hjoined] at hstep
  | io a => simp [handlers_joined hs (le_trans hjoined (by decide)) a] at hstep
  | timerWake k => simp [timers_joined hs hgone (.wake k)] at hstep
  | timerPost k => simp [timers_joined hs hgone (.post k)] at hstep

/-- **Nothing is used after it is freed.** No thread ever uses a dangling pointer. Before `~Impl`
begins the worker is joined: no dispatch and no callback is under way, no message is left, and no
thread of the server nor the worker takes another step. When `~TimerManager` is over no timer's
thread does. So when `main` returns only the signal can still come, and the return value says
whether the server was started; if it was, the signal came. -/
theorem teardown_safe (hs : (serviceSystem json).Reachable s) :
    (∀ t th, s.io.http.core.threads t = some th → th.pc ≠ .undefined) ∧
      (s.main.joined → s.io.http.core.Quiet ∧ (∀ t, s.io.http.callbacks t = none) ∧
        s.io.http.callbackSet = false ∧ s.mgr.pump.queue = [] ∧ s.joinable = false ∧
        s.step json .worker = none ∧ ∀ a, s.step json (.io a) = none) ∧
      (s.main.timersGone → ∀ k,
        s.step json (.timerWake k) = none ∧ s.step json (.timerPost k) = none) ∧
      (s.main = .returned → (∀ a s', s.step json a = some s' → a = .signal) ∧
        s.code = (if s.started then 0 else 2) ∧
        (s.started = true → s.stopRequested = true)) := by
  have hmain := mainInv_of_reachable hs
  have hserver := serverInv_of_reachable hs
  have hwork := workInv_of_reachable hs
  have hquiet : s.main.joined → s.io.http.core.Quiet ∧ (∀ t, s.io.http.callbacks t = none) := by
    intro hend
    have hnone := fun t => hwork.only t (.inr (by simp [(hmain.joined hend).2]))
    exact ⟨fun t => (hnone t).1, fun t => (hnone t).2⟩
  refine ⟨?_, ?_, ?_, ?_⟩
  · intro t th ht
    by_cases hpc : s.main = .returned
    · rw [(hquiet (by simp [MainPc.joined, MainPc.toEnd, hpc])).1 t] at ht
      cases ht
    · exact serial_running (systems_of_reachable hs hpc).1 ht
  · intro hend
    obtain ⟨hjoinable, hexited⟩ := hmain.joined hend
    have hstop := hserver.stopped (le_trans hend (by decide))
    exact ⟨(hquiet hend).1, (hquiet hend).2, hserver.callbackSet (by rw [hstop]; rfl),
      (hwork.drained (.inr hexited)).2, hjoinable, worker_joined hs hend,
      handlers_joined hs (le_trans hend (by decide))⟩
  · exact fun hend k => ⟨timers_joined hs hend (.wake k), timers_joined hs hend (.post k)⟩
  · intro hpc
    have hend : s.main.toEnd = 0 := by simp [hpc, MainPc.toEnd]
    exact ⟨fun _ _ hstep => returned_step hs hpc hstep, hmain.code (by omega),
      hmain.requested (by omega)⟩

/-- A registration that waits. -/
def waitingIo : List IoLabel :=
  acceptSteps 0 ++ [.read 0 0 (.request registerMessage)] ++ List.replicate 3 (.advance 0)

/-- It is answered, and the threads leave. -/
def leavingIo : List IoLabel := List.replicate 4 (.advance 0) ++ [.leave 0, .leave 1]

/-- The signal comes before the worker has taken the message of the registration. -/
def signalled : List ServiceLabel :=
  [.main, .main] ++ waitingIo.map .io ++ [.signal] ++ List.replicate 8 .main ++
    leavingIo.map .io ++ List.replicate 3 .main

/-- The worker dispatches it all the same, and `main` returns. -/
def tornDown : List ServiceLabel :=
  signalled ++ List.replicate 11 .worker ++ List.replicate 7 .main

theorem teardown_safe_signalled : ∃ s : ServiceState,
    (serviceSystem oneObjectJson).exec (fun _ _ => true) { io := .unstarted, boost := {} }
        tornDown = some s ∧
      s.main = .returned ∧ s.mgr.pump.queue = [] ∧ s.code = 0 ∧
        ∀ a s', s.step oneObjectJson a = some s' → a = .signal := by
  obtain ⟨s, hrun, hm, hstarted⟩ : ∃ s : ServiceState,
      (serviceSystem oneObjectJson).exec (fun _ _ => true) { io := .unstarted, boost := {} }
          tornDown = some s ∧ s.main = .returned ∧ s.started = true := ⟨_, rfl, rfl, rfl⟩
  have hs : (serviceSystem oneObjectJson).Reachable s :=
    ⟨_, ⟨{}, rfl⟩, Lts.runVia_of_exec (fun _ _ _ => trivial) hrun⟩
  obtain ⟨-, hjoined, -, hreturned⟩ := teardown_safe hs
  obtain ⟨honly, hcode, -⟩ := hreturned hm
  have hend : s.main.joined := by simp [MainPc.joined, MainPc.toEnd, hm]
  exact ⟨s, hrun, hm, (hjoined hend).2.2.2.1, by rw [hcode, hstarted]; rfl, honly⟩

/-- The instances of a factory that `~Cfactory` destroyed. -/
def destroyedIn (facId : UInt32) (destroyed : List (UInt32 × ℕ)) : List ℕ :=
  destroyed.filterMap fun d => if d.1 = facId then some d.2 else none

/-- They are those in its list. -/
theorem destroyedIn_allInsts {K : Type*} (m : CfactoryMgr K) (facId : UInt32) :
    destroyedIn facId m.allInsts = m.liveInsts facId := by
  have key : ∀ {l : List (Cfactory K)}, (l.map Cfactory.facId).Nodup →
      destroyedIn facId (l.flatMap fun fac => fac.fsmList.map fun fsm => (fac.facId, fsm.inst)) =
        ((KeyedList.lookup Cfactory.facId facId l).map fun f => f.fsmList.map Cfsm.inst).getD
          [] := by
    intro l hnodup
    induction l with
    | nil => rfl
    | cons fac rest ih =>
        rw [List.map_cons, List.nodup_cons] at hnodup
        have hrest := ih hnodup.2
        rw [destroyedIn] at hrest ⊢
        rw [List.flatMap_cons, List.filterMap_append, hrest, List.filterMap_map]
        by_cases hid : fac.facId = facId
        · subst hid
          have hnone : KeyedList.lookup Cfactory.facId fac.facId rest = none := by
            refine KeyedList.lookup_eq_none_iff.mpr fun x hx heq => hnodup.1 ?_
            exact heq ▸ List.mem_map_of_mem hx
          simp [hnone, KeyedList.lookup_cons_self]
        · simp [hid, KeyedList.lookup]
  exact key m.facId_nodup

/-- **Every instance is destroyed, and only once.** When `main` returns, the instances that a
factory has created are those that `KillFsm` has removed and those that its destructor has
destroyed, each in one of the two ways. -/
theorem destroyed_once (hs : (serviceSystem json).Reachable s) (hm : s.main = .returned)
    (facId : UInt32) :
    (removedIn facId s.io.http.core.events ++ destroyedIn facId s.destroyed).Perm
        ((createdIn facId s.io.http.core.events).map Prod.fst) ∧
      ((createdIn facId s.io.http.core.events).map Prod.fst).Nodup := by
  refine hs.invariant_reachable (I := fun s => s.main = .returned →
    (removedIn facId s.io.http.core.events ++ destroyedIn facId s.destroyed).Perm
        ((createdIn facId s.io.http.core.events).map Prod.fst) ∧
      ((createdIn facId s.io.http.core.events).map Prod.fst).Nodup) ?init ?step hm
  case init =>
    rintro _ ⟨boost, rfl⟩ hm
    cases hm
  case step =>
    intro s l s' hr hI _ hs hm
    have hgone : s.main ≠ .returned ∨ l = .signal := by
      by_cases hpc : s.main = .returned
      · exact .inr (returned_step hr hpc hs)
      · exact .inl hpc
    cases ServiceState.step_cases hs with
    | signal => exact hI hm
    | timer hl =>
        rcases hgone with hne | rfl
        · exact absurd hm hne
        · cases hl
    | handler | popped | broke | called | advanced | dispatched | left | stopping =>
        exact absurd hm (hgone.resolve_right (by simp))
    | startRefused | managerStarted | httpFailed | httpStarted | awoken | httpStopped
    | httpDestroyed | cancelled | timersJoined => cases hm
    | pumpStopped hpc => rcases hpc with ⟨-, rfl⟩ | ⟨-, rfl⟩ <;> cases hm
    | joined hpc => rcases hpc with ⟨-, rfl⟩ | ⟨-, rfl⟩ <;> cases hm
    | cleared hpc =>
        have hcore := (systems_of_reachable hr (by simp [hpc])).1.reachable
        have hcreated := createdInv_of_reachable CfactoryMgr.fresh_boot hcore facId
        have hmap : (createdIn facId s.io.http.core.events).map Prod.fst =
            List.range (s.mgr.createdCount facId) := by
          rw [hcreated, List.map_map]
          exact List.map_id _
        have hbalanced := balanced_of_reachable CfactoryMgr.fresh_boot hcore facId
        change (removedIn facId s.io.http.core.events ++ destroyedIn facId s.mgr.allInsts).Perm
          ((createdIn facId s.io.http.core.events).map Prod.fst) ∧ _
        rw [hmap, destroyedIn_allInsts]
        exact ⟨List.perm_append_comm.trans hbalanced, List.nodup_range⟩

/-- The instance of the registration was created while the pump refused its follow-up. -/
theorem destroyed_once_signalled : ∃ s : ServiceState,
    (serviceSystem oneObjectJson).exec (fun _ _ => true) { io := .unstarted, boost := {} }
        tornDown = some s ∧
      s.destroyed = [(1, 0)] ∧
      (removedIn 1 s.io.http.core.events ++ destroyedIn 1 s.destroyed).Perm
        ((createdIn 1 s.io.http.core.events).map Prod.fst) := by
  obtain ⟨s, hrun, hm, hdestroyed⟩ : ∃ s : ServiceState,
      (serviceSystem oneObjectJson).exec (fun _ _ => true) { io := .unstarted, boost := {} }
          tornDown = some s ∧ s.main = .returned ∧ s.destroyed = [(1, 0)] := ⟨_, rfl, rfl, rfl⟩
  have hs : (serviceSystem oneObjectJson).Reachable s :=
    ⟨_, ⟨{}, rfl⟩, Lts.runVia_of_exec (fun _ _ _ => trivial) hrun⟩
  exact ⟨s, hrun, hdestroyed, (destroyed_once hs hm 1).1⟩

end FsmFramework
