import FsmFramework.HttpStop
import FsmFramework.ServerStart

/-!
# The process of `main`

`main` owns the manager and, after it, the server: both are destroyed in the reverse order when it
returns, on the path where the server could not be started and on the path where a signal stopped
it. Beside `main` there are the worker that `Cfactory_mgr::Start` made, the two threads of the
server, and one thread a timer. `~Impl` and `~Cfactory_mgr` free what these threads use: a handler
or a callback that runs after the one, or a timer that calls `SendMsg` after the other, would use
memory that is gone.

A wait of the worker is over when its predicate holds, as `PumpWaiting` shows. `sleeping` is the
loop of `main` over `g_stopRequested`; it is over when the flag is set.

## Main definitions

* `serviceSystem` — the process, from the registration of the factories to the return of `main`.
-/

namespace FsmFramework

open IoServer

/-! ## The state -/

/-- The worker: at the top of the loop of `Run`, inside `DispatchMsg`, behind the loop, or gone. -/
inductive WorkerPc
  | runLoop
  | dispatchMsg
  | leaveRun
  | exited
  deriving DecidableEq, Repr

/-- Where `main` stands. `httpStop` is `Stop` of the server; from `destroyHttp` on it is inside the
destructors. -/
inductive MainPc
  | managerStart
  | httpStart
  | sleeping
  | httpStop
  | managerStop
  | managerJoin
  | destroyHttp
  | destroyStop
  | destroyJoin
  | stopAllTimers
  | joinTimers
  | clear
  | returned
  deriving DecidableEq, Repr

namespace MainPc

/-- How far `main` is from its return. -/
def toEnd : MainPc → ℕ
  | .managerStart => 12
  | .httpStart => 11
  | .sleeping => 10
  | .httpStop => 9
  | .managerStop => 8
  | .managerJoin => 7
  | .destroyHttp => 6
  | .destroyStop => 5
  | .destroyJoin => 4
  | .stopAllTimers => 3
  | .joinTimers => 2
  | .clear => 1
  | .returned => 0

/-- The worker has been joined. -/
def joined (pc : MainPc) : Prop := pc.toEnd ≤ 6

/-- `Stop` of the server has returned, or there was no server. -/
def afterHttp (pc : MainPc) : Prop := pc.toEnd ≤ 8

/-- `~TimerManager` has joined its threads. -/
def timersGone (pc : MainPc) : Prop := pc.toEnd ≤ 1

end MainPc

/-- The process. `boost` are the answers that `HttpServer::Start` will get; `started` says whether
it has succeeded, and is history, as `destroyed` is: the instances that `~Cfactory` destroyed. -/
structure ServiceState where
  io : IoServer
  boost : BoostCalls
  worker : Option WorkerPc := none
  joinable : Bool := false
  main : MainPc := .managerStart
  stopRequested : Bool := false
  code : ℕ := 0
  started : Bool := false
  destroyed : List (UInt32 × ℕ) := []

/-- A step of `main`, of the worker, of a timer's thread or of a thread of the server, or the
signal. -/
inductive ServiceLabel
  | main
  | worker
  | timerWake (k : ℕ)
  | timerPost (k : ℕ)
  | io (l : IoLabel)
  | signal

/-- A step that a thread of the server takes. -/
def IoLabel.isHandler : IoLabel → Bool
  | .accept .. | .read .. | .write .. | .advance _ | .leave _ => true
  | .core _ | .onCompletion _ | .stop => false

/-- There is no server yet: no thread, no acceptor and no callback. -/
def IoServer.unstarted : IoServer where
  http := { core := .resting .boot [], callbackSet := false, stop := .stopped }
  acceptorOpen := false
  acceptPending := false
  io := fun _ => .exited

/-- `~Cfactory_mgr` at its end, and the timers' list before. -/
def CfactoryMgr.cleared {K : Type*} (m : CfactoryMgr K) : CfactoryMgr K where
  toMsgPorts := { m.toMsgPorts with timers := { m.timers with timerList := [] } }
  facList := []
  facCapacity := by simp
  facId_nodup := by simp

/-- The instances that `~Cfactory` finds in the lists. -/
def CfactoryMgr.allInsts {K : Type*} (m : CfactoryMgr K) : List (UInt32 × ℕ) :=
  m.facList.flatMap fun fac => fac.fsmList.map fun fsm => (fac.facId, fsm.inst)

namespace ServiceState

/-- The manager. -/
abbrev mgr (s : ServiceState) : CfactoryMgr FsmKind := s.io.http.core.mgr

/-- The server takes a step, and `f` says what becomes of the rest. -/
def withIo (s : ServiceState) (json : BoostJson) (l : IoLabel)
    (f : ServiceState → ServiceState) : Option ServiceState :=
  (s.io.step json l).map fun io => f { s with io := io }

/-- `Join` of the worker. -/
def join (s : ServiceState) (next : MainPc) : Option ServiceState :=
  if s.joinable then
    if s.worker = some .exited then some { s with joinable := false, main := next } else none
  else some { s with main := next }

/-- A step of the worker. -/
def stepWorker (json : BoostJson) (s : ServiceState) : Option ServiceState :=
  match s.worker with
  | none | some .exited => none
  | some .runLoop =>
      if s.mgr.pump.stopped ∧ s.mgr.pump.queue = [] then some { s with worker := some .leaveRun }
      else s.withIo json (.core (.pop 0)) fun s => { s with worker := some .dispatchMsg }
  | some .dispatchMsg =>
      if (s.io.http.callbacks 0).isSome then s.withIo json (.onCompletion 0) id
      else if (s.io.http.core.threads 0).isSome then s.withIo json (.core (.advance 0)) id
      else some { s with worker := some .runLoop }
  | some .leaveRun =>
      s.withIo json (.core (.env .leaveRun)) fun s => { s with worker := some .exited }

/-- A step of `main`. -/
def stepMain (json : BoostJson) (s : ServiceState) : Option ServiceState :=
  match s.main with
  | .managerStart =>
      if (s.mgr.pump.start s.joinable).1 ≠ .success then
        some { s with code := 2, main := .destroyStop }
      else s.withIo json (.core (.env (.start s.joinable))) fun s =>
        { s with worker := some .runLoop, joinable := true, main := .httpStart }
  | .httpStart =>
      if (({} : ServerProcess Unit).start () s.boost).1 ≠ .success then
        some { s with code := 2, main := .managerStop }
      else some { s with
        io := { http := { core := s.io.http.core } }, started := true, main := .sleeping }
  | .sleeping => if s.stopRequested then some { s with main := .httpStop } else none
  | .httpStop =>
      if s.io.http.stop = .stopped then some { s with main := .managerStop }
      else s.withIo json .stop id
  | .managerStop => s.withIo json (.core (.env .stop)) fun s => { s with main := .managerJoin }
  | .managerJoin => s.join .destroyHttp
  | .destroyHttp =>
      if s.io.http.stop = .stopped then some { s with main := .destroyStop }
      else s.withIo json .stop id
  | .destroyStop => s.withIo json (.core (.env .stop)) fun s => { s with main := .destroyJoin }
  | .destroyJoin => s.join .stopAllTimers
  | .stopAllTimers =>
      s.withIo json (.core (.env .stopAllTimers)) fun s => { s with main := .joinTimers }
  | .joinTimers =>
      if s.mgr.timers.outstanding = [] then some { s with main := .clear } else none
  | .clear =>
      let http := s.io.http
      some { s with
        io := { s.io with http := { http with core := { http.core with mgr := s.mgr.cleared } } }
        destroyed := s.mgr.allInsts
        main := .returned }
  | .returned => none

/-- Take a step, if it is enabled. -/
def step (json : BoostJson) (s : ServiceState) : ServiceLabel → Option ServiceState
  | .main => s.stepMain json
  | .worker => s.stepWorker json
  | .timerWake k => s.withIo json (.core (.env (.timerWake k))) id
  | .timerPost k => s.withIo json (.core (.env (.timerPost k))) id
  | .io l => if l.isHandler then s.withIo json l id else none
  | .signal => some { s with stopRequested := true }

end ServiceState

/-- `main` from the registration of the two factories on, whatever Boost will answer. -/
def serviceSystem (json : BoostJson) : Lts ServiceState ServiceLabel where
  init s := ∃ boost, s = { io := .unstarted, boost := boost }
  step := ServiceState.step json

/-! ## What a step can do -/

namespace ServiceState

/-- The step of a timer's thread. -/
inductive TimerStep : ServiceLabel → EnvLabel → Prop
  | wake (k : ℕ) : TimerStep (.timerWake k) (.timerWake k)
  | post (k : ℕ) : TimerStep (.timerPost k) (.timerPost k)

/-- Every step: under which label, and to which state. -/
inductive ServiceStep (json : BoostJson) (s : ServiceState) : ServiceLabel → ServiceState → Prop
  | signal : ServiceStep json s .signal { s with stopRequested := true }
  | timer {l : ServiceLabel} {e : EnvLabel} {io : IoServer} (hl : TimerStep l e)
      (hio : s.io.step json (.core (.env e)) = some io) : ServiceStep json s l { s with io := io }
  | handler {l : IoLabel} {io : IoServer} (hl : l.isHandler = true)
      (hio : s.io.step json l = some io) : ServiceStep json s (.io l) { s with io := io }
  | popped {io : IoServer} (hw : s.worker = some .runLoop)
      (hio : s.io.step json (.core (.pop 0)) = some io) :
      ServiceStep json s .worker { s with io := io, worker := some .dispatchMsg }
  | broke (hw : s.worker = some .runLoop) (hstop : s.mgr.pump.stopped = true)
      (hempty : s.mgr.pump.queue = []) :
      ServiceStep json s .worker { s with worker := some .leaveRun }
  | called {call : CallbackPc} {io : IoServer} (hw : s.worker = some .dispatchMsg)
      (hcall : s.io.http.callbacks 0 = some call)
      (hio : s.io.step json (.onCompletion 0) = some io) :
      ServiceStep json s .worker { s with io := io }
  | advanced {io : IoServer} (hw : s.worker = some .dispatchMsg)
      (hcall : s.io.http.callbacks 0 = none)
      (hio : s.io.step json (.core (.advance 0)) = some io) :
      ServiceStep json s .worker { s with io := io }
  | dispatched (hw : s.worker = some .dispatchMsg) (hcall : s.io.http.callbacks 0 = none)
      (ht : s.io.http.core.threads 0 = none) :
      ServiceStep json s .worker { s with worker := some .runLoop }
  | left {io : IoServer} (hw : s.worker = some .leaveRun)
      (hio : s.io.step json (.core (.env .leaveRun)) = some io) :
      ServiceStep json s .worker { s with io := io, worker := some .exited }
  | startRefused (hm : s.main = .managerStart)
      (hret : (s.mgr.pump.start s.joinable).1 ≠ .success) :
      ServiceStep json s .main { s with code := 2, main := .destroyStop }
  | managerStarted {io : IoServer} (hm : s.main = .managerStart)
      (hio : s.io.step json (.core (.env (.start s.joinable))) = some io) :
      ServiceStep json s .main
        { s with io := io, worker := some .runLoop, joinable := true, main := .httpStart }
  | httpFailed (hm : s.main = .httpStart) :
      ServiceStep json s .main { s with code := 2, main := .managerStop }
  | httpStarted (hm : s.main = .httpStart) : ServiceStep json s .main { s with
      io := { http := { core := s.io.http.core } }, started := true, main := .sleeping }
  | awoken (hm : s.main = .sleeping) (hreq : s.stopRequested = true) :
      ServiceStep json s .main { s with main := .httpStop }
  | stopping {io : IoServer} (hm : s.main = .httpStop ∨ s.main = .destroyHttp)
      (hstop : s.io.http.stop ≠ .stopped) (hio : s.io.step json .stop = some io) :
      ServiceStep json s .main { s with io := io }
  | httpStopped (hm : s.main = .httpStop) (hstop : s.io.http.stop = .stopped) :
      ServiceStep json s .main { s with main := .managerStop }
  | httpDestroyed (hm : s.main = .destroyHttp) (hstop : s.io.http.stop = .stopped) :
      ServiceStep json s .main { s with main := .destroyStop }
  | pumpStopped {next : MainPc} {io : IoServer}
      (hm : s.main = .managerStop ∧ next = .managerJoin ∨
        s.main = .destroyStop ∧ next = .destroyJoin)
      (hio : s.io.step json (.core (.env .stop)) = some io) :
      ServiceStep json s .main { s with io := io, main := next }
  | joined {next : MainPc}
      (hm : s.main = .managerJoin ∧ next = .destroyHttp ∨
        s.main = .destroyJoin ∧ next = .stopAllTimers)
      (hexited : s.joinable = true → s.worker = some .exited) :
      ServiceStep json s .main { s with joinable := false, main := next }
  | cancelled {io : IoServer} (hm : s.main = .stopAllTimers)
      (hio : s.io.step json (.core (.env .stopAllTimers)) = some io) :
      ServiceStep json s .main { s with io := io, main := .joinTimers }
  | timersJoined (hm : s.main = .joinTimers) (hnone : s.mgr.timers.outstanding = []) :
      ServiceStep json s .main { s with main := .clear }
  | cleared (hm : s.main = .clear) : ServiceStep json s .main { s with
      io := { s.io with
        http := { s.io.http with core := { s.io.http.core with mgr := s.mgr.cleared } } }
      destroyed := s.mgr.allInsts
      main := .returned }

variable {json : BoostJson} {s s' : ServiceState} {l : ServiceLabel}

theorem withIo_eq_some_iff {a : IoLabel} {f : ServiceState → ServiceState} :
    s.withIo json a f = some s' ↔
      ∃ io, s.io.step json a = some io ∧ s' = f { s with io := io } := by
  simp [withIo, eq_comm]

theorem join_cases {next : MainPc} (hs : s.join next = some s') :
    (s.joinable = true → s.worker = some .exited) ∧
      s' = { s with joinable := false, main := next } := by
  rw [join] at hs
  split at hs
  · obtain ⟨hexited, heq⟩ := Option.ite_none_right_eq_some.mp hs
    exact ⟨fun _ => hexited, (Option.some.inj heq).symm⟩
  · rename_i hjoinable
    obtain rfl := Option.some.inj hs
    refine ⟨fun h => absurd h hjoinable, ?_⟩
    rw [Bool.not_eq_true] at hjoinable
    rw [hjoinable]

/-- The cases are exhaustive. -/
theorem step_cases (hs : s.step json l = some s') : ServiceStep json s l s' := by
  cases l with
  | signal =>
      obtain rfl := Option.some.inj hs
      exact .signal
  | timerWake k =>
      obtain ⟨io, hio, rfl⟩ := withIo_eq_some_iff.mp hs
      exact .timer (.wake k) hio
  | timerPost k =>
      obtain ⟨io, hio, rfl⟩ := withIo_eq_some_iff.mp hs
      exact .timer (.post k) hio
  | io a =>
      obtain ⟨hl, hs⟩ := Option.ite_none_right_eq_some.mp hs
      obtain ⟨io, hio, rfl⟩ := withIo_eq_some_iff.mp hs
      exact .handler hl hio
  | worker =>
      simp only [step, stepWorker] at hs
      split at hs
      · contradiction
      · contradiction
      · rename_i hw
        split at hs
        · rename_i hleave
          obtain rfl := Option.some.inj hs
          exact .broke hw hleave.1 hleave.2
        · obtain ⟨io, hio, rfl⟩ := withIo_eq_some_iff.mp hs
          exact .popped hw hio
      · rename_i hw
        split at hs
        · rename_i hcall
          obtain ⟨call, hcall⟩ := Option.isSome_iff_exists.mp hcall
          obtain ⟨io, hio, rfl⟩ := withIo_eq_some_iff.mp hs
          exact .called hw hcall hio
        · rename_i hcall
          rw [Option.not_isSome_iff_eq_none] at hcall
          split at hs
          · obtain ⟨io, hio, rfl⟩ := withIo_eq_some_iff.mp hs
            exact .advanced hw hcall hio
          · rename_i ht
            obtain rfl := Option.some.inj hs
            exact .dispatched hw hcall (Option.not_isSome_iff_eq_none.mp ht)
      · rename_i hw
        obtain ⟨io, hio, rfl⟩ := withIo_eq_some_iff.mp hs
        exact .left hw hio
  | main =>
      simp only [step, stepMain] at hs
      cases hm : s.main with
      | managerStart =>
          simp only [hm] at hs
          split at hs
          · rename_i hret
            obtain rfl := Option.some.inj hs
            exact .startRefused hm hret
          · obtain ⟨io, hio, rfl⟩ := withIo_eq_some_iff.mp hs
            exact .managerStarted hm hio
      | httpStart =>
          simp only [hm] at hs
          split at hs
          · obtain rfl := Option.some.inj hs
            exact .httpFailed hm
          · obtain rfl := Option.some.inj hs
            exact .httpStarted hm
      | sleeping =>
          simp only [hm] at hs
          obtain ⟨hreq, heq⟩ := Option.ite_none_right_eq_some.mp hs
          obtain rfl := Option.some.inj heq
          exact .awoken hm hreq
      | httpStop =>
          simp only [hm] at hs
          split at hs
          · rename_i hstop
            obtain rfl := Option.some.inj hs
            exact .httpStopped hm hstop
          · rename_i hstop
            obtain ⟨io, hio, rfl⟩ := withIo_eq_some_iff.mp hs
            exact .stopping (.inl hm) hstop hio
      | managerStop =>
          simp only [hm] at hs
          obtain ⟨io, hio, rfl⟩ := withIo_eq_some_iff.mp hs
          exact .pumpStopped (.inl ⟨hm, rfl⟩) hio
      | managerJoin =>
          simp only [hm] at hs
          obtain ⟨hexited, rfl⟩ := join_cases hs
          exact .joined (.inl ⟨hm, rfl⟩) hexited
      | destroyHttp =>
          simp only [hm] at hs
          split at hs
          · rename_i hstop
            obtain rfl := Option.some.inj hs
            exact .httpDestroyed hm hstop
          · rename_i hstop
            obtain ⟨io, hio, rfl⟩ := withIo_eq_some_iff.mp hs
            exact .stopping (.inr hm) hstop hio
      | destroyStop =>
          simp only [hm] at hs
          obtain ⟨io, hio, rfl⟩ := withIo_eq_some_iff.mp hs
          exact .pumpStopped (.inr ⟨hm, rfl⟩) hio
      | destroyJoin =>
          simp only [hm] at hs
          obtain ⟨hexited, rfl⟩ := join_cases hs
          exact .joined (.inr ⟨hm, rfl⟩) hexited
      | stopAllTimers =>
          simp only [hm] at hs
          obtain ⟨io, hio, rfl⟩ := withIo_eq_some_iff.mp hs
          exact .cancelled hm hio
      | joinTimers =>
          simp only [hm] at hs
          obtain ⟨hnone, heq⟩ := Option.ite_none_right_eq_some.mp hs
          obtain rfl := Option.some.inj heq
          exact .timersJoined hm hnone
      | clear =>
          simp only [hm] at hs
          obtain rfl := Option.some.inj hs
          exact .cleared hm
      | returned => simp [hm] at hs

end ServiceState

/-! ## What a step does to the server -/

section Io

variable {json : BoostJson} {c c' : IoServer} {a : IoLabel} {t : ℕ}

/-- A step of the manager's surroundings. -/
theorem io_env {e : EnvLabel} (hio : c.step json (.core (.env e)) = some c') :
    ∃ p, c.http.core.mgr.env e = some p ∧ c' = { c with http := { c.http with
      core := { c.http.core with mgr := c.http.core.mgr.withPorts p } } } := by
  obtain ⟨http, hhttp, rfl⟩ := stepHttp_eq_some_iff.mp hio
  obtain ⟨core, hcore, rfl⟩ := Option.map_eq_some_iff.mp hhttp
  obtain ⟨p, hp, rfl⟩ := DispatchState.step_env_iff.mp hcore
  exact ⟨p, hp, rfl⟩

theorem io_env_of (json : BoostJson) {e : EnvLabel} {p : MsgPorts}
    (hp : c.http.core.mgr.env e = some p) :
    ∃ c', c.step json (.core (.env e)) = some c' := by
  have hcore := DispatchState.step_env_iff.mpr ⟨p, hp, rfl⟩
  exact ⟨_, stepHttp_eq_some_iff.mpr ⟨_, Option.map_eq_some_iff.mpr ⟨_, hcore, rfl⟩, rfl⟩⟩

/-- A dispatching thread takes a message. -/
theorem io_pop (hio : c.step json (.core (.pop t)) = some c') :
    ∃ core, c.http.core.step (.pop t) = some core ∧
      c' = { c with http := { c.http with core := core } } := by
  obtain ⟨http, hhttp, rfl⟩ := stepHttp_eq_some_iff.mp hio
  obtain ⟨core, hcore, rfl⟩ := Option.map_eq_some_iff.mp hhttp
  exact ⟨core, hcore, rfl⟩

theorem io_pop_of (json : BoostJson) {pm : PumpMsg} {rest : List PumpMsg}
    (ht : c.http.core.threads t = none)
    (hqueue : c.http.core.mgr.pump.queue = pm :: rest) :
    ∃ c', c.step json (.core (.pop t)) = some c' := by
  let ports := c.http.core.mgr.toMsgPorts
  have hports : ports = ({ ports with pump := { ports.pump with queue := rest } }).unpop pm := by
    simp [ports, MsgPorts.unpop, Pump.unpop, ← hqueue]
  have hcore := DispatchState.step_pop_iff.mpr ⟨ht, pm, _, hports, rfl⟩
  exact ⟨_, stepHttp_eq_some_iff.mpr ⟨_, Option.map_eq_some_iff.mpr ⟨_, hcore, rfl⟩, rfl⟩⟩

/-- A dispatching thread goes on, and may copy the callback. -/
theorem io_advance (hio : c.step json (.core (.advance t)) = some c') :
    ∃ core, c.http.core.step (.advance t) = some core ∧
      c' = { c with http := { c.http with
        core := core, callbacks := Function.update c.http.callbacks t (c.http.notifying t) } } := by
  obtain ⟨http, hhttp, rfl⟩ := stepHttp_eq_some_iff.mp hio
  obtain ⟨core, callbacks, hcore, rfl, hcb⟩ := HttpState.step_core hhttp
  obtain ⟨u, hu, -, rfl⟩ | ⟨hne, -⟩ := hcb
  · cases hu
    exact ⟨core, hcore, rfl⟩
  · exact absurd rfl (hne t)

theorem io_advance_of (json : BoostJson) {th : DispatchThread} (hcall : c.http.callbacks t = none)
    (ht : c.http.core.threads t = some th) :
    ∃ c', c.step json (.core (.advance t)) = some c' := by
  obtain ⟨core, hcore⟩ : ∃ core, c.http.core.step (.advance t) = some core := by
    simp [DispatchState.step, ht]
  have hhttp : c.http.step (.core (.advance t)) = some { c.http with
      core := core, callbacks := Function.update c.http.callbacks t (c.http.notifying t) } := by
    simp [HttpState.step, HttpState.stepCore, hcall, hcore]
  exact ⟨_, stepHttp_eq_some_iff.mpr ⟨_, hhttp, rfl⟩⟩

theorem io_onCompletion_of (json : BoostJson) {call : CallbackPc}
    (hcall : c.http.callbacks t = some call) : ∃ c', c.step json (.onCompletion t) = some c' :=
  ⟨_, stepHttp_eq_some_iff.mpr ⟨_, Option.map_eq_some_iff.mpr ⟨call, hcall, rfl⟩, rfl⟩⟩

/-- A thread of the server does not dispatch, and what it posts a stopped pump refuses. -/
structure HandlerFrame (c c' : IoServer) : Prop where
  core : c'.http.core = c.http.core ∨ ∃ r msg, c'.http.core = (c.http.sendMsg r msg).2.core
  callbacks : c'.http.callbacks = c.http.callbacks
  callbackSet : c'.http.callbackSet = c.http.callbackSet
  stop : c'.http.stop = c.http.stop
  exited : ∀ t, c.io t = .exited → c'.io t = .exited
  alive : ∃ t, c.io t ≠ .exited

theorem handler_frame (hl : a.isHandler = true) (hio : c.step json a = some c') :
    HandlerFrame c c' := by
  have hgoto : ∀ {t : Fin threadCount} {pc : IoPc}, c.io t ≠ .exited →
      ∀ u, c.io u = .exited → Function.update c.io t pc u = .exited := by
    intro t pc ht u hu
    have hne : u ≠ t := by
      rintro rfl
      exact ht hu
    rwa [Function.update_of_ne hne]
  have hready : ∀ {t : Fin threadCount}, c.ready t = true → c.io t ≠ .exited := by
    intro t h
    rw [(decide_eq_true_eq.mp h).1]
    simp
  cases step_cases hio with
  | core | onCompletion | acceptorClosed | stop => cases hl
  | accepted ht =>
      exact ⟨.inl rfl, rfl, rfl, rfl, hgoto (hready ht), _, hready ht⟩
  | hungUp ht | rejected ht | written ht =>
      exact ⟨.inl rfl, rfl, rfl, rfl, fun _ h => h, _, hready ht⟩
  | arrived ht => exact ⟨.inl rfl, rfl, rfl, rfl, hgoto (hready ht), _, hready ht⟩
  | @passed t ok ht | @connected t ht | @acceptFailed t ht | @tested t ht | @armed t ht
  | @left t ht =>
      have hne : c.io t ≠ .exited := by simp [ht]
      exact ⟨.inl rfl, rfl, rfl, rfl, hgoto hne, _, hne⟩
  | @answered t _ _ _ _ _ _ ht =>
      have hne : c.io t ≠ .exited := by simp [ht]
      exact ⟨.inl rfl, rfl, rfl, rfl, hgoto hne, _, hne⟩
  | @acceptOver t ht =>
      have hne : c.io t ≠ .exited := by rcases ht with ⟨ok, ht⟩ | ht <;> simp [ht]
      exact ⟨.inl rfl, rfl, rfl, rfl, hgoto hne, _, hne⟩
  | @handled t k r http ht hhttp =>
      have hne : c.io t ≠ .exited := by simp [ht]
      obtain ⟨hstop, hset⟩ := beside_stop (by simp) hhttp
      obtain ⟨th, th', h, -, hd, rfl⟩ := HttpState.step_handle hhttp
      refine ⟨?_, ?_, hset, hstop, fun _ h => h, t, hne⟩
      · rcases hd.core with heq | ⟨msg, -, heq⟩
        · exact .inl heq
        · exact .inr ⟨r, msg, heq⟩
      · cases hd <;> rfl

/-- `Stop` does not touch the manager's dispatches. -/
theorem io_stop (hio : c.step json .stop = some c') :
    c'.http.core = c.http.core ∧ c'.http.callbacks = c.http.callbacks := by
  cases step_cases hio with
  | acceptorClosed => exact ⟨rfl, rfl⟩
  | stop _ _ hhttp => exact ⟨(HttpState.stepStop_frame hhttp).1, (stop_callback hhttp).1⟩

/-- The manager moves as it does alone. -/
theorem io_core (hio : c.step json a = some c') : c'.http.core = c.http.core ∨
    ∃ l, c.http.core.step l = some c'.http.core ∧
      (a = .core l ∨ ∃ r msg, l = .env (.sendMsg r msg)) := by
  cases hl : a.isHandler with
  | true =>
      rcases (handler_frame hl hio).core with heq | ⟨r, msg, heq⟩
      · exact .inl heq
      · exact .inr ⟨_, heq ▸ HttpState.step_core_sendMsg r msg, .inr ⟨r, msg, rfl⟩⟩
  | false =>
      cases step_cases hio with
      | @core l http hhttp =>
          obtain ⟨core, callbacks, hcore, rfl, -⟩ := HttpState.step_core hhttp
          exact .inr ⟨l, hcore, .inl rfl⟩
      | @onCompletion t http hhttp =>
          obtain ⟨call, -, rfl⟩ := HttpState.step_onCompletion hhttp
          exact .inl (c.http.stepOnCompletion_frame t call).1
      | acceptorClosed | stop => exact .inl (io_stop hio).1
      | _ => cases hl

end Io

end FsmFramework
