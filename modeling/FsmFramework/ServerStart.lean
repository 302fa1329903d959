import FsmFramework.Shutdown

/-!
# Starting a server, and failing to

`HttpServer::Impl::Start` with its five steps that can fail, and `Stop`, beside the rest of the
process: the manager has one completion callback, and other components may install theirs. Each
Boost call succeeds or fails as the environment decides. The first two failures put `_running`
back; the others call `Stop`, which is written for a server that has been started.

A component's callback is a value of `C`. While the server runs its waiter map may be anything;
`Stop` returns with an empty one, as `waiters_empty_of_stopped` shows for the threads at work in
it.
-/

namespace FsmFramework

/-! ## What the stopped server leaves -/

/-- `Stop` joins the threads of the I/O context, and so returns when every request is answered. -/
theorem answered_of_stopped {h : HttpState} (hh : httpSystem.Reachable h)
    (hstop : h.stop = .stopped) :
    ∀ th ∈ h.requests, ∃ msg response, th.pc = .answered msg response := by
  refine hh.invariant (I := fun h => h.stop = .stopped →
    ∀ th ∈ h.requests, ∃ msg response, th.pc = .answered msg response) ?init ?step hstop
  case init =>
    rintro _ ⟨n, rfl⟩ hstop
    cases hstop
  case step =>
    rintro h l h' hall - hs hstop
    change h.step l = some h' at hs
    cases l with
    | stop =>
        obtain ⟨-, hreq⟩ := HttpState.stepStop_frame hs
        rw [hreq]
        change h.stepStop = some h' at hs
        rw [HttpState.stepStop] at hs
        split at hs
        case h_4 => split at hs <;> rw [← Option.some.inj hs] at hstop <;> cases hstop
        case h_6 =>
          -- `join` goes on only when it finds all requests answered
          obtain ⟨hanswered, -⟩ := Option.ite_none_right_eq_some.mp hs
          intro th hth
          have hpc := List.all_eq_true.mp hanswered th hth
          split at hpc
          · rename_i msg response heq
            exact ⟨msg, response, heq⟩
          · cases hpc
        case h_7 => contradiction
        all_goals rw [← Option.some.inj hs] at hstop; cases hstop
    | core l =>
        obtain ⟨core, callbacks, -, rfl, -⟩ := HttpState.step_core hs
        exact hall hstop
    | request req =>
        have hstop' := (beside_stop (by simp) hs).1.symm.trans hstop
        simp [HttpState.step, hstop', StopPc.accepting] at hs
    | handle r =>
        have hstop' := (beside_stop (by simp) hs).1.symm.trans hstop
        obtain ⟨th, hth, hs⟩ := Option.bind_eq_some_iff.mp hs
        obtain ⟨msg, response, hpc⟩ := hall hstop' th (List.mem_of_getElem? hth)
        simp [HttpState.stepHandle, hpc] at hs
    | onCompletion t =>
        have hstop' := (beside_stop (by simp) hs).1.symm.trans hstop
        obtain ⟨call, -, rfl⟩ := HttpState.step_onCompletion hs
        rw [(h.stepOnCompletion_frame t call).2.1]
        exact hall hstop'

/-- With no request left, no waiter is left. -/
theorem waiters_empty_of_stopped {h : HttpState} (hh : httpSystem.Reachable h)
    (hstop : h.stop = .stopped) : h.waiters.entries = [] := by
  obtain ⟨w, hw, hwatches⟩ := watched hh
  rw [← hwatches.waiters]
  refine (registryInv_of_reachable hw).noneEmpty.entries_eq_nil fun key =>
    List.eq_nil_iff_forall_not_mem.mpr fun r hr => ?_
  obtain ⟨q, hq, -, hreg, -⟩ := ((registryInv_of_reachable hw).listed key r).mp hr
  have hseen := hwatches.requests r
  rw [hq] at hseen
  generalize hth : h.requests[r]? = o at hseen
  cases hseen with
  | @waiting th msg pc since hmsg hpc =>
      obtain ⟨msg', response, hanswered⟩ :=
        answered_of_stopped hh hstop th (List.mem_of_getElem? hth)
      rw [hanswered] at hpc
      cases hpc
  | answered hpc => cases hreg

/-! ## The process -/

/-- Which Boost calls of `Start` succeed, and the port that the system gave to the acceptor. -/
structure BoostCalls where
  makeAddress : Bool := true
  openAcceptor : Bool := true
  setOption : Bool := true
  bind : Bool := true
  listen : Bool := true
  localPort : UInt32 := 8080
  deriving DecidableEq, Repr

/-- The manager's completion callback, and the members of a server. -/
structure ServerProcess (C : Type*) where
  completionCallback : Option C := none
  running : Bool := false
  acceptorOpen : Bool := false
  threads : ℕ := 0
  actualPort : UInt32 := 0
  waiters : Waiters := {}
  iocStopped : Bool := false
  deriving DecidableEq

namespace ServerProcess

variable {C : Type*}

/-- `Stop`, from its beginning to its end. -/
def stop (s : ServerProcess C) : ServerProcess C :=
  if s.running then
    { s with
      running := false, completionCallback := none, acceptorOpen := false, waiters := {}
      iocStopped := true, threads := 0, actualPort := 0 }
  else s

/-- `Start` of the server whose callback is `self`. -/
def start (self : C) (calls : BoostCalls) (s : ServerProcess C) : EerrNo × ServerProcess C :=
  if s.running then (.error, s)
  else
    let s := { s with running := true, iocStopped := false }
    if !calls.makeAddress then (.error, { s with running := false })
    else if !calls.openAcceptor then (.error, { s with running := false })
    else
      let s := { s with acceptorOpen := true }
      if !calls.setOption then (.error, s.stop)
      else if !calls.bind then (.error, s.stop)
      else if !calls.listen then (.error, s.stop)
      else (.success, { s with
        actualPort := calls.localPort, completionCallback := some self, threads := 2 })

end ServerProcess

/-- What happens to the server: its own calls, requests while it runs, and the callbacks of other
components. -/
inductive ServerLabel (C : Type*)
  | start (calls : BoostCalls)
  | stop
  | serve (waiters : Waiters)
  | setCompletionCallback (callback : Option C)
  deriving DecidableEq

/-- A process with the server whose callback is `self`. -/
def serverProcess {C : Type*} (self : C) : Lts (ServerProcess C) (ServerLabel C) where
  init s := s = {}
  step s
    | .start calls => some (s.start self calls).2
    | .stop => some s.stop
    | .serve waiters => if s.running then some { s with waiters := waiters } else none
    | .setCompletionCallback callback => some { s with completionCallback := callback }

namespace ServerProcess

variable {C : Type*} {self : C} {calls : BoostCalls} {s : ServerProcess C}

/-- The members of a server that is not running. -/
structure Idle (s : ServerProcess C) : Prop where
  running : s.running = false
  threads : s.threads = 0
  actualPort : s.actualPort = 0
  acceptor : s.acceptorOpen = false
  waiters : s.waiters = {}

/-! ## Reachable processes -/

theorem idle_stop (hs : s.running = true) : s.stop.Idle ∧ s.stop.completionCallback = none := by
  rw [stop, if_pos hs]
  exact ⟨⟨rfl, rfl, rfl, rfl, rfl⟩, rfl⟩

/-- The server in the middle of `Start`, with its acceptor open. -/
def opened (s : ServerProcess C) : ServerProcess C :=
  { s with running := true, iocStopped := false, acceptorOpen := true }

/-- The three ways in which `Start` of a server that is not running can end. -/
theorem start_cases (self : C) (calls : BoostCalls) (hs : s.running = false) :
    (calls.makeAddress = false ∨ calls.openAcceptor = false) ∧
        s.start self calls = (.error, { s with running := false, iocStopped := false }) ∨
      ¬ (calls.makeAddress = false ∨ calls.openAcceptor = false) ∧
        s.start self calls = (.error, s.opened.stop) ∨
      s.start self calls = (.success, { s.opened with
        actualPort := calls.localPort, completionCallback := some self, threads := 2 }) := by
  by_cases hopen : calls.makeAddress = false ∨ calls.openAcceptor = false
  · refine .inl ⟨hopen, ?_⟩
    obtain haddress | hacceptor := hopen
    · simp [start, hs, haddress]
    · simp [start, hs, hacceptor]
  obtain ⟨haddress, hacceptor⟩ := not_or.mp hopen
  rw [Bool.not_eq_false] at haddress hacceptor
  by_cases hlisten : calls.setOption = true ∧ calls.bind = true ∧ calls.listen = true
  · obtain ⟨hset, hbind, hlisten⟩ := hlisten
    exact .inr (.inr (by simp [start, hs, haddress, hacceptor, hset, hbind, hlisten, opened]))
  · refine .inr (.inl ⟨hopen, ?_⟩)
    cases hset : calls.setOption <;> cases hbind : calls.bind <;>
      simp_all [start, opened]

/-- A server that is not running is idle, in every reachable state. -/
theorem idle_of_reachable (hs : (serverProcess self).Reachable s) (hrunning : s.running = false) :
    s.Idle := by
  refine hs.invariant (I := fun s => s.running = false → s.Idle) ?init ?step hrunning
  case init =>
    rintro _ rfl -
    exact ⟨rfl, rfl, rfl, rfl, rfl⟩
  case step =>
    rintro s a t hidle - hstep ht
    cases a with
    | start calls =>
        cases hstep
        by_cases hs : s.running = false
        · have h := hidle hs
          obtain ⟨-, heq⟩ | ⟨-, heq⟩ | heq := start_cases self calls hs
          · rw [heq]
            exact ⟨rfl, h.threads, h.actualPort, h.acceptor, h.waiters⟩
          · rw [heq]
            exact (idle_stop (show s.opened.running = true from rfl)).1
          · rw [heq] at ht
            cases ht
        · have heq : s.start self calls = (.error, s) := by simp [start, hs]
          rw [heq] at ht
          exact absurd ht hs
    | stop =>
        cases hstep
        cases hs : s.running with
        | true => exact (idle_stop hs).1
        | false =>
            have heq : s.stop = s := by simp [stop, hs]
            rw [heq]
            exact hidle hs
    | serve waiters =>
        obtain ⟨hs, heq⟩ := Option.ite_none_right_eq_some.mp hstep
        rw [← Option.some.inj heq] at ht
        simp [hs] at ht
    | setCompletionCallback callback =>
        cases hstep
        obtain ⟨h₁, h₂, h₃, h₄, h₅⟩ := hidle ht
        exact ⟨h₁, h₂, h₃, h₄, h₅⟩

/-! ## A failed start -/

/-- The callback is the one before the call, and the server is again not running, with its waiter
map as it was. -/
def NoTrace (s s' : ServerProcess C) : Prop :=
  s'.completionCallback = s.completionCallback ∧ s'.running = false ∧ s'.threads = 0 ∧
    s'.actualPort = 0 ∧ s'.acceptorOpen = false ∧ s'.waiters = s.waiters

/-- **A failed start.** `Start` of a server that is not running returns `ERROR`. It leaves no trace
if and only if it failed at the address or at the opening of the acceptor, or no completion
callback was installed. -/
theorem start_noTrace_iff (hs : (serverProcess self).Reachable s) (hrunning : s.running = false)
    (herr : (s.start self calls).1 = .error) :
    NoTrace s (s.start self calls).2 ↔
      (calls.makeAddress = false ∨ calls.openAcceptor = false) ∨ s.completionCallback = none := by
  have hidle := idle_of_reachable hs hrunning
  obtain ⟨hopen, heq⟩ | ⟨hopen, heq⟩ | heq := start_cases self calls hrunning
  · rw [heq]
    exact iff_of_true ⟨rfl, rfl, hidle.threads, hidle.actualPort, hidle.acceptor, rfl⟩ (.inl hopen)
  · rw [heq]
    obtain ⟨hstop, hcallback⟩ : s.opened.stop.Idle ∧ s.opened.stop.completionCallback = none :=
      idle_stop rfl
    constructor
    · rintro ⟨hsame, -⟩
      exact .inr (hsame.symm.trans hcallback)
    · intro h
      have hnone := h.resolve_left hopen
      exact ⟨hcallback.trans hnone.symm, hstop.running, hstop.threads, hstop.actualPort,
        hstop.acceptor, hstop.waiters.trans hidle.waiters.symm⟩
  · rw [heq] at herr
    cases herr

/-- The address is not an address. -/
theorem start_noTrace_address : ∃ s : ServerProcess ℕ,
    (serverProcess 1).exec (fun _ _ => true) {} [.setCompletionCallback (some 0)] = some s ∧
      NoTrace s (s.start 1 { makeAddress := false }).2 := by
  obtain ⟨s, hs, hrunning, herr⟩ : ∃ s : ServerProcess ℕ,
      (serverProcess 1).exec (fun _ _ => true) {} [.setCompletionCallback (some 0)] = some s ∧
        s.running = false ∧ (s.start 1 { makeAddress := false }).1 = .error :=
    ⟨_, rfl, rfl, rfl⟩
  have hr : (serverProcess 1).Reachable s :=
    ⟨_, rfl, Lts.runVia_of_exec (fun _ _ _ => trivial) hs⟩
  exact ⟨s, hs, (start_noTrace_iff hr hrunning herr).mpr (.inl (.inl rfl))⟩

/-- A second server is started on the port of the first, whose callback is 0: `bind` fails, and the
first server's callback is gone. -/
theorem failed_start_takes_callback : ∃ s : ServerProcess ℕ,
    (serverProcess 1).Reachable s ∧ s.running = false ∧ s.completionCallback = some 0 ∧
      (s.start 1 { bind := false }).1 = .error ∧
      (s.start 1 { bind := false }).2.completionCallback = none := by
  obtain ⟨s, hs, h⟩ : ∃ s : ServerProcess ℕ,
      (serverProcess 1).exec (fun _ _ => true) {} [.setCompletionCallback (some 0)] = some s ∧
        s.running = false ∧ s.completionCallback = some 0 ∧
        (s.start 1 { bind := false }).1 = .error ∧
        (s.start 1 { bind := false }).2.completionCallback = none :=
    ⟨_, rfl, rfl, rfl, rfl, rfl⟩
  exact ⟨s, ⟨_, rfl, Lts.runVia_of_exec (fun _ _ _ => trivial) hs⟩, h⟩

end ServerProcess

end FsmFramework
