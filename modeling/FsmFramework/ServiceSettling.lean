import FsmFramework.ServiceAnswers
import FsmFramework.ServiceExit

/-!
# The service comes to rest

While `main` sleeps nothing is stopped or cancelled, so whatever has been read from a connection is
dealt with. If the clients leave the server alone from some moment on, and no read fails, its
threads, the worker and the timers come to rest in whatever order they go on: a handler may post a
message, but has only so many steps; a message makes work for the worker and the timers, but the
flows end; and a dispatch calls back a bounded number of waiters. The measure is lexicographic in
this order.

## Main results

* `service_settles` — in the end every flow has ended and every request has its answer.
-/

namespace FsmFramework

open IoServer ServiceState

variable {json : BoostJson} {c c' : IoServer} {a : IoLabel} {s s' : ServiceState} {l : ServiceLabel}

/-! ## Left alone -/

/-- An accept or a read completes: a client connects, sends or hangs up, or the read fails. -/
def IoLabel.isArrival : IoLabel → Bool
  | .accept .. | .read .. => true
  | _ => false

/-- No accept and no read completes, and no signal comes. -/
def settling (_s : ServiceState) : ServiceLabel → Prop
  | .signal => False
  | .io a => a.isArrival = false
  | _ => True

/-- `main` sleeps, and no signal has come. -/
structure ServiceState.Sleeps (json : BoostJson) (s : ServiceState) : Prop where
  reachable : (serviceSystem json).Reachable s
  main : s.main = .sleeping
  unrequested : s.stopRequested = false

theorem ServiceState.Sleeps.served (h : s.Sleeps json) : s.io.http.Served :=
  served_of_reachable (attended_of_sleeping h.reachable h.main)

theorem ServiceState.Sleeps.accepting (h : s.Sleeps json) : s.mgr.pump.stopped = false :=
  accepting_of_reachable h.served.core_unstopped

theorem ServiceState.Sleeps.step (h : s.Sleeps json) (hg : settling s l)
    (hs : s.step json l = some s') : s'.Sleeps json := by
  refine ⟨h.reachable.step trivial hs, ?_, ?_⟩
  all_goals
    have hmain := h.main
    have hreq := h.unrequested
    cases step_cases hs with
    | signal => exact hg.elim
    | timer | handler | popped | broke | called | advanced | dispatched | left => assumption
    | awoken _ hreq' => simp [hreq] at hreq'
    | startRefused hpc | managerStarted hpc | httpFailed hpc | httpStarted hpc | httpStopped hpc
    | httpDestroyed hpc | cancelled hpc | timersJoined hpc | cleared hpc => simp [hmain] at hpc
    | stopping hpc | pumpStopped hpc | joined hpc => simp [hmain] at hpc

/-! ## What is left to the handlers -/

def SessionPc.isWriting : SessionPc → Bool
  | .doWrite _ => true
  | _ => false

/-- The answers that are not written yet. -/
def IoServer.unwritten (c : IoServer) : ℕ := c.sessions.countP fun x => x.pc.isWriting

/-- The steps that are left to the handlers and to the connections. A handler that is done leaves
an answer to be written. -/
def IoServer.handlerRank (c : IoServer) : ℕ := 2 * c.joinRank + c.unwritten

theorem handlerRank_frame (hstop : c'.http.stop = c.http.stop)
    (hnext : c'.http.nextSessionId = c.http.nextSessionId)
    (hreq : c'.http.requests = c.http.requests) (hio : c'.io = c.io)
    (hsessions : c'.sessions = c.sessions) : c'.handlerRank = c.handlerRank := by
  simp [IoServer.handlerRank, IoServer.unwritten, IoServer.joinRank, HttpState.retries, hstop,
    hnext, ioRank_of_requests hreq, hio, hsessions]

/-- A connection goes on. -/
theorem unwritten_setSession {k : ℕ} {x y : Session} (hk : c.sessions[k]? = some x) :
    (c.setSession k y).unwritten + x.pc.isWriting.toNat =
      c.unwritten + y.pc.isWriting.toNat := by
  obtain ⟨hlt, rfl⟩ := List.getElem?_eq_some_iff.mp hk
  have hpos : c.sessions[k].pc.isWriting = true → 0 < c.unwritten := by
    intro hw
    exact List.countP_pos_iff.mpr ⟨_, List.getElem_mem hlt, hw⟩
  simp only [IoServer.unwritten, setSession, List.countP_set hlt] at hpos ⊢
  cases hold : c.sessions[k].pc.isWriting
  · cases hnew : y.pc.isWriting <;> simp
  · have := hpos hold
    cases hnew : y.pc.isWriting <;> simp <;> omega

/-- A thread goes on, and leaves one answer at most. -/
theorem handlerRank_moved {t : Fin threadCount} {pc : IoPc}
    (hio : c'.io = Function.update c.io t pc) (hhttp : c'.http = c.http)
    (hlt : c.http.ioRank pc < c.http.ioRank (c.io t)) (hle : c'.unwritten ≤ c.unwritten + 1) :
    c'.handlerRank < c.handlerRank := by
  have hjoin := joinRank_update hio (by rw [hhttp]) (by rw [hhttp]) (by rw [hhttp]) hlt
  simp only [IoServer.handlerRank]
  omega

/-- Without the clients, every step of a handler brings it closer to its end. -/
theorem handlerRank_step (hinv : IoInv json c) (hl : a.isHandler = true)
    (harrival : a.isArrival = false) (hs : c.step json a = some c') :
    c'.handlerRank < c.handlerRank := by
  cases IoServer.step_cases hs with
  | core | onCompletion | acceptorClosed | stop => cases hl
  | accepted | hungUp | rejected | arrived => cases harrival
  | @written t k x answer hready hk hpc =>
      have hcount := unwritten_setSession (y := { x with pc := .closed (some answer) }) hk
      have hjoin : (c.setSession k { x with pc := .closed (some answer) }).joinRank =
          c.joinRank := rfl
      simp only [hpc, SessionPc.isWriting, Bool.toNat_true, Bool.toNat_false] at hcount
      simp only [IoServer.handlerRank, hjoin]
      omega
  | connected ht =>
      refine handlerRank_moved rfl rfl (by simp [ht, HttpState.ioRank]) ?_
      simp [IoServer.unwritten, goto, SessionPc.isWriting]
  | passed ht | acceptFailed ht | tested ht | armed ht | left ht =>
      exact handlerRank_moved rfl rfl (by simp [ht, HttpState.ioRank]) (Nat.le_succ _)
  | acceptOver ht =>
      refine handlerRank_moved rfl rfl ?_ (Nat.le_succ _)
      rcases ht with ⟨ok, ht⟩ | ht <;> simp [ht, HttpState.ioRank]
  | @answered t k r x th msg response ht hk hth hpc =>
      have hcount := unwritten_setSession
        (y := { x with pc := .doWrite (.response response) }) hk
      refine handlerRank_moved rfl rfl ?_ ?_
      · simp only [ht, HttpState.ioRank]
        omega
      · change (c.setSession k _).unwritten ≤ _
        simp only [SessionPc.isWriting, Bool.toNat_true] at hcount
        omega
  | @handled t k r http ht hhttp =>
      have hjoin := joinRank_handled hinv ht hhttp
      have hsame : IoServer.unwritten { c with http := http } = c.unwritten := rfl
      simp only [IoServer.handlerRank, hsame]
      omega

/-! ## What is left to the service -/

/-- What the handlers, the dispatches and timers, and the worker still have to do. -/
noncomputable def ServiceState.settleRank (s : ServiceState) : ℕ ×ₗ (ℕ ×ₗ ℕ) ×ₗ ℕ :=
  toLex (s.io.handlerRank, toLex (workLeft s.io.http.core,
    (if s.worker = some .dispatchMsg then 1 else 0) + s.callbackRank))

/-- One of the parts gets smaller, and those before it stay. -/
theorem settleRank_lt (h : s'.io.handlerRank < s.io.handlerRank ∨
    s'.io.handlerRank = s.io.handlerRank ∧ (workLeft s'.io.http.core < workLeft s.io.http.core ∨
      workLeft s'.io.http.core = workLeft s.io.http.core ∧
        (if s'.worker = some .dispatchMsg then 1 else 0) + s'.callbackRank <
          (if s.worker = some .dispatchMsg then 1 else 0) + s.callbackRank)) :
    s'.settleRank < s.settleRank := by
  apply Prod.Lex.toLex_lt_toLex.mpr
  rcases h with hlt | ⟨heq, h⟩
  · exact .inl hlt
  · exact .inr ⟨heq, Prod.Lex.toLex_lt_toLex.mpr h⟩

theorem settleRank_step (h : s.Sleeps json) (hg : settling s l) (hs : s.step json l = some s') :
    s'.settleRank < s.settleRank := by
  have hserved := h.served
  have hwork := workInv_of_reachable h.reachable
  have hopen := h.accepting
  -- a step of the manager
  have hcore : ∀ {b : DispatchLabel FsmKind} {core : DispatchState FsmKind},
      s.io.http.core.step b = some core → serial alone s.io.http.core b →
      workLeft core < workLeft s.io.http.core :=
    fun hb hgb => workLeft_step hserved.core hgb hb
  cases step_cases hs with
  | signal => exact hg.elim
  | @timer _ e io hl hio =>
      obtain ⟨p, hp, rfl⟩ := io_env hio
      refine settleRank_lt (.inr ⟨handlerRank_frame rfl rfl rfl rfl rfl, .inl ?_⟩)
      refine hcore (b := .env e) (DispatchState.step_env_iff.mpr ⟨p, hp, rfl⟩) ?_
      cases hl <;> trivial
  | handler hl hio =>
      have hinv : IoInv json s.io := ioInv_of_reachable (attended_of_sleeping h.reachable h.main)
      exact settleRank_lt (.inl (handlerRank_step hinv hl hg hio))
  | popped hw hio =>
      obtain ⟨core, hpop, rfl⟩ := io_pop hio
      refine settleRank_lt (.inr ⟨handlerRank_frame rfl rfl rfl rfl rfl, .inl (hcore hpop ?_)⟩)
      exact fun t => (hwork.only t (.inr (by simp [hw]))).1
  | advanced hw hcall hio =>
      obtain ⟨core, hadvance, rfl⟩ := io_advance hio
      refine settleRank_lt (.inr ⟨handlerRank_frame rfl rfl rfl rfl rfl, .inl ?_⟩)
      exact hcore hadvance trivial
  | called hw hcall hio =>
      obtain ⟨hsame, hle⟩ := callbackRank_called hcall hio
      obtain ⟨http, hhttp, rfl⟩ := stepHttp_eq_some_iff.mp hio
      have hstop := (beside_stop (by simp) hhttp).1
      obtain ⟨call', -, rfl⟩ := HttpState.step_onCompletion hhttp
      refine settleRank_lt (.inr ⟨?_, .inr ⟨by rw [hsame], by simp only; omega⟩⟩)
      exact handlerRank_frame hstop (stepOnCompletion_nextSessionId 0 call')
        (s.io.http.stepOnCompletion_frame 0 call').2.1 rfl rfl
  | dispatched hw hcall ht =>
      refine settleRank_lt (.inr ⟨rfl, .inr ⟨rfl, ?_⟩⟩)
      have hrank : ServiceState.callbackRank { s with worker := some .runLoop } =
          s.callbackRank := rfl
      simp [hw, hrank]
  | broke hw hstop => simp [hopen] at hstop
  | left hw =>
      have hstop := (hwork.drained (.inl hw)).1
      simp [hopen] at hstop
  | awoken _ hreq => simp [h.unrequested] at hreq
  | startRefused hpc | managerStarted hpc | httpFailed hpc | httpStarted hpc | httpStopped hpc
  | httpDestroyed hpc | cancelled hpc | timersJoined hpc | cleared hpc | stopping hpc
  | pumpStopped hpc | joined hpc => simp [h.main] at hpc

/-! ## Where nothing is left -/

/-- Everything that was begun is done: no dispatch and no callback is under way, no message is
pending, the threads of the server are between two handlers, and what was read from a connection
has its answer. Unless a factory has run out of ids, all flows have ended. -/
structure ServiceState.Settled (s : ServiceState) : Prop where
  quiet : s.io.http.core.Quiet
  callbacks : ∀ t, s.io.http.callbacks t = none
  pending : s.mgr.pending = []
  threads : ∀ t, s.io.io t = .run
  listening : s.io.acceptPending = true
  waiting : ∀ (k : ℕ) (x : Session), s.io.sessions[k]? = some x → x.message = none →
    x.pc = .doRead ∨ x.pc = .closed none
  answered : ∀ (k : ℕ) (x : Session) (message : HttpMessage), s.io.sessions[k]? = some x →
    x.message = some message → ∃ answer, x.pc = .closed (some answer)
  ended : (∀ fac ∈ s.mgr.facList, fac.created < 2 ^ 32 - 1) → Ended s.io.http.core

/-- Where no step is possible but those of clients, the threads of the server wait for them. -/
theorem threads_of_stuck (h : s.Sleeps json)
    (hstuck : (serviceSystem json).Stuck settling s) :
    (∀ t, s.io.io t = .run) ∧ s.io.acceptPending = true := by
  have hio := attended_of_sleeping h.reachable h.main
  have haccept := acceptInv_of_reachable hio
  have hrun : s.io.running = true := decide_eq_true h.served.running
  have hthreads : ∀ t, s.io.io t = .run := by
    intro t
    by_contra hne
    obtain ⟨c', hs⟩ := advance_enabled (ioInv_of_reachable hio) hne (haccept.alive hrun t)
    exact hstuck _ ⟨.io (.advance t), rfl, withIo_eq_some_iff.mpr ⟨c', hs, rfl⟩⟩
  refine ⟨hthreads, ?_⟩
  have hone := haccept.one hrun
  simp only [IoServer.accepts, hthreads, IoPc.accepts, Bool.toNat_false, Finset.sum_const_zero,
    Nat.add_zero] at hone
  cases hpending : s.io.acceptPending with
  | true => rfl
  | false => simp [hpending] at hone

/-- A connection has been written its answer, or waits for the client. -/
theorem session_of_stuck (h : s.Sleeps json) (hstuck : (serviceSystem json).Stuck settling s)
    {k : ℕ} {x : Session} (hk : s.io.sessions[k]? = some x) :
    (x.message = none ∧ (x.pc = .doRead ∨ x.pc = .closed none)) ∨
      ∃ message answer, x.message = some message ∧ x.pc = .closed (some answer) := by
  have hinv : IoInv json s.io := ioInv_of_reachable (attended_of_sleeping h.reachable h.main)
  obtain ⟨hthreads, -⟩ := threads_of_stuck h hstuck
  have hready : s.io.ready 0 = true := by
    simp [ready, hthreads, h.served.running, StopPc.accepting]
  have hwritten : ∀ {answer : HttpAnswer}, x.pc.answer = some answer →
      x.pc = .closed (some answer) := by
    intro answer ha
    cases hpc : x.pc with
    | doRead | onRead => simp [hpc, SessionPc.answer] at ha
    | closed answer' => simpa [hpc, SessionPc.answer] using ha
    | doWrite answer' =>
        -- it could be written
        refine absurd ?_ (hstuck { s with io := s.io.setSession k { x with
          pc := .closed (some answer') } })
        refine ⟨.io (.write 0 k), rfl, withIo_eq_some_iff.mpr ⟨_, ?_, rfl⟩⟩
        obtain ⟨message, request, pc⟩ := x
        obtain rfl : pc = .doWrite answer' := hpc
        simp [IoServer.step, hk, hready]
  cases hinv.ok k x hk with
  | doRead => exact .inl ⟨rfl, .inl rfl⟩
  | hungUp => exact .inl ⟨rfl, .inr rfl⟩
  | @onRead message r hreads =>
      obtain ⟨t, ht⟩ := hinv.handlers k r ⟨_, hk, rfl, rfl⟩
      simp [hthreads t] at ht
  | rejected hcheck hpc => exact .inr ⟨_, _, rfl, hwritten hpc⟩
  | answered hreads hans hpc => exact .inr ⟨_, _, rfl, hwritten hpc⟩

/-- The worker waits for a message, and no timer is left. -/
theorem dispatcher_of_stuck (h : s.Sleeps json)
    (hstuck : (serviceSystem json).Stuck settling s) :
    s.io.http.core.Quiet ∧ (∀ t, s.io.http.callbacks t = none) ∧ s.mgr.pending = [] := by
  have hwork := workInv_of_reachable h.reachable
  have hopen := h.accepting
  have hdrained : s.worker ≠ some .leaveRun ∧ s.worker ≠ some .exited := by
    constructor
    · intro hw
      simp [(hwork.drained (.inl hw)).1] at hopen
    · intro hw
      simp [(hwork.drained (.inr hw)).1] at hopen
  have hnone : ¬ ∃ s', s.step json .worker = some s' := by
    rintro ⟨s', hs⟩
    exact hstuck s' ⟨.worker, trivial, hs⟩
  have hworker : s.worker = some .runLoop := by
    have hthere := ((mainInv_of_reachable h.reachable).joinable (by simp [h.main, MainPc.toEnd])
      (by simp [h.main, MainPc.toEnd])).2
    cases hw : s.worker with
    | none => exact absurd hw hthere
    | some pc =>
        cases pc with
        | runLoop => rfl
        | dispatchMsg => exact absurd (dispatch_enabled h.reachable (.inl hw)) hnone
        | leaveRun => exact absurd hw hdrained.1
        | exited => exact absurd hw hdrained.2
  have hidle := fun t => hwork.only t (.inr (by simp [hworker]))
  refine ⟨fun t => (hidle t).1, fun t => (hidle t).2, ?_⟩
  have hqueue : s.mgr.pump.queue = [] := by
    by_contra hne
    exact hnone (dispatch_enabled h.reachable (.inr ⟨hworker, hne⟩))
  have htimers : s.mgr.timers.outstanding = [] := by
    by_contra hne
    obtain ⟨e, halone, hp⟩ := timer_step_of_outstanding hne
    obtain ⟨s', hs⟩ : ∃ s', s.withIo json (.core (.env e)) id = some s' := withIo_env hp
    cases e with
    | timerWake k => exact hstuck s' ⟨.timerWake k, trivial, hs⟩
    | timerPost k => exact hstuck s' ⟨.timerPost k, trivial, hs⟩
    | _ => exact halone.elim
  rw [MsgPorts.pending, hqueue, htimers, List.append_nil]

theorem settled_of_stuck (h : s.Sleeps json) (hstuck : (serviceSystem json).Stuck settling s) :
    s.Settled := by
  obtain ⟨hthreads, hlistening⟩ := threads_of_stuck h hstuck
  obtain ⟨hquiet, hcallbacks, hpending⟩ := dispatcher_of_stuck h hstuck
  refine ⟨hquiet, hcallbacks, hpending, hthreads, hlistening, ?_, ?_, ?_⟩
  · intro k x hk hnone
    rcases session_of_stuck h hstuck hk with ⟨-, hpc⟩ | ⟨message, answer, hmessage, -⟩
    · exact hpc
    · simp [hnone] at hmessage
  · intro k x message hk hmessage
    rcases session_of_stuck h hstuck hk with ⟨hnone, -⟩ | ⟨-, answer, -, hpc⟩
    · simp [hnone] at hmessage
    · exact ⟨answer, hpc⟩
  · exact fun hb => ended_of_pending h.served.core hquiet hb hpending

/-- **The service comes to rest.** While `main` sleeps and no signal has come: if no accept and no
read completes from now on, every order of the steps of the server's threads, the worker and the
timers comes to a state in which everything that was begun is done. -/
theorem service_settles (hs : (serviceSystem json).Reachable s) (hm : s.main = .sleeping)
    (hreq : s.stopRequested = false) :
    (serviceSystem json).Inevitably settling ServiceState.Settled s := by
  have h : s.Sleeps json := ⟨hs, hm, hreq⟩
  have hterminates : (serviceSystem json).Terminates settling s := by
    refine Lts.Terminates.of_measure (wellFounded_lt (α := ℕ ×ₗ (ℕ ×ₗ ℕ) ×ₗ ℕ))
      (I := ServiceState.Sleeps json) ServiceState.settleRank ?_ h
    intro s l t hsleeps hg hstep
    exact ⟨hsleeps.step hg hstep, settleRank_step hsleeps hg hstep⟩
  refine hterminates.inevitably fun t hrun hstuck => settled_of_stuck ?_ hstuck
  exact hrun.invariant (I := ServiceState.Sleeps json)
    (fun s l t hsleeps hg hstep => hsleeps.step hg hstep) h

/-- A registration is in the queue, and its request waits. -/
theorem service_settles_waiting : ∃ s : ServiceState,
    (serviceSystem oneObjectJson).exec (fun _ _ => true) { io := .unstarted, boost := {} }
        ([.main, .main] ++ waitingIo.map .io) = some s ∧
      s.mgr.pump.queue.length = 1 ∧ s.io.http.waiters.find ⟨1, 123⟩ = [0] ∧
      (serviceSystem oneObjectJson).Inevitably settling ServiceState.Settled s := by
  obtain ⟨s, hrun, hm, hreq, hqueue, hfind⟩ : ∃ s : ServiceState,
      (serviceSystem oneObjectJson).exec (fun _ _ => true) { io := .unstarted, boost := {} }
          ([.main, .main] ++ waitingIo.map .io) = some s ∧ s.main = .sleeping ∧
        s.stopRequested = false ∧ s.mgr.pump.queue.length = 1 ∧
        s.io.http.waiters.find ⟨1, 123⟩ = [0] := ⟨_, rfl, rfl, rfl, rfl, rfl⟩
  have hs : (serviceSystem oneObjectJson).Reachable s :=
    ⟨_, ⟨{}, rfl⟩, Lts.runVia_of_exec (fun _ _ _ => trivial) hrun⟩
  exact ⟨s, hrun, hqueue, hfind, service_settles hs hm hreq⟩

end FsmFramework
