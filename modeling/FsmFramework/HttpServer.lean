import FsmFramework.DispatchSystem
import FsmFramework.Waiters

/-!
# The HTTP server beside the manager

`HttpServer.cpp`: each request that passes the checks of `HandleRequest` becomes a `MSG_INIT`.
An asynchronous request is answered when `SendMsg` has accepted it. A synchronous request
registers a waiter first, waits for a completion with its service and session, and gives up
after a while; time is not modelled, a wait may end at any moment. Completions come from the
dispatching threads: `NotifyFsmCompleted` copies the callback and calls it, and `OnCompletion`
collects the waiters of the key and delivers the event to one after the other.

A request is named by its position in `requests`, and its message is posted under this name.
`registered`, the events at the time of `RegisterWaiter`, is history.
-/

namespace FsmFramework

/-! ## Requests and answers -/

/-- The two routes. -/
inductive HttpRoute
  | register | auth
  deriving DecidableEq, Repr

namespace HttpRoute

def serviceId : HttpRoute → UInt32
  | .register => facRegFacId
  | .auth => facAuthFacId

def serviceName : HttpRoute → String
  | .register => "register"
  | .auth => "auth"

end HttpRoute

/-- A request that has passed the checks of `HandleRequest`. A session id that the client
chooses is not zero. -/
structure HttpRequest where
  route : HttpRoute
  wait : Bool
  sessionId : Option { n : UInt32 // n ≠ 0 } := none
  payload : List UInt8 := []
  deriving DecidableEq

/-- The message of a request, given the id that was generated for it. -/
def HttpRequest.msg (req : HttpRequest) (generated : UInt32) : CMsg where
  type := .msgInit
  serviceId := req.route.serviceId
  fsmId := 0
  sessionId := (req.sessionId.map Subtype.val).getD generated
  msg := req.payload

def errNoToString : EerrNo → String
  | .init => "INIT"
  | .success => "SUCCESS"
  | .error => "ERROR"
  | .invalidState => "INVALID_STATE"
  | .invalidMsg => "INVALID_MSG"
  | .timerError => "TIMER_ERROR"

inductive HttpStatus
  | ok | accepted | internalServerError | serviceUnavailable | gatewayTimeout
  deriving DecidableEq, Repr

/-- The JSON object of an answer; its `status` member is the constructor's name. -/
inductive HttpBody
  | accepted (sessionId : UInt32) (service : String)
  | completed (sessionId : UInt32) (service : String) (fsmId : UInt32) (result : String)
  | error (error message : String)
  deriving DecidableEq, Repr

structure HttpResponse where
  status : HttpStatus
  body : HttpBody
  deriving DecidableEq, Repr

/-- What `HandleSyncRequest` has in hand when it unregisters its waiter. -/
inductive WaitOutcome
  | refused (sendResult : EerrNo)
  | waited (completed : Bool) (completion : FsmCompletionEvent)
  deriving DecidableEq, Repr

/-- The answer to an asynchronous request. -/
def asyncResponse (req : HttpRequest) (msg : CMsg) (sendResult : EerrNo) : HttpResponse :=
  if sendResult ≠ .success then
    ⟨.serviceUnavailable, .error "service_unavailable" (errNoToString sendResult)⟩
  else ⟨.accepted, .accepted msg.sessionId req.route.serviceName⟩

/-- The answer to a synchronous request. -/
def syncResponse (req : HttpRequest) : WaitOutcome → HttpResponse
  | .refused sendResult =>
      ⟨.serviceUnavailable, .error "service_unavailable" (errNoToString sendResult)⟩
  | .waited completed completion =>
      if !completed then
        ⟨.gatewayTimeout, .error "timeout" "FSM flow did not complete before timeout"⟩
      else if completion.result ≠ .success then
        ⟨.internalServerError, .error "fsm_failed" (errNoToString completion.result)⟩
      else
        ⟨.ok, .completed completion.sessionId req.route.serviceName completion.fsmId
          (errNoToString completion.result)⟩

/-! ## The state -/

/-- Where the thread that handles a request stands, with its message once it has one. -/
inductive HttpPc
  | generateSessionId
  | sendMsg (msg : CMsg)
  | registerWaiter (msg : CMsg)
  | syncSendMsg (msg : CMsg)
  | waitFor (msg : CMsg)
  | unregisterWaiter (msg : CMsg) (outcome : WaitOutcome)
  | returning (msg : CMsg) (outcome : WaitOutcome)
  | answered (msg : CMsg) (response : HttpResponse)
  deriving DecidableEq, Repr

/-- A request being handled. -/
structure HttpThread where
  request : HttpRequest
  pc : HttpPc := .generateSessionId
  registered : Option (List Event) := none
  deriving DecidableEq

/-- A dispatching thread that has copied the callback, with the instance that completed:
before it takes `_waitersLock`, and in the loop over the entries it holds. -/
inductive CallbackPc
  | collect (inst : ℕ) (event : FsmCompletionEvent)
  | notify (inst : ℕ) (event : FsmCompletionEvent) (entriesToNotify : List ℕ) (next : ℕ)
  deriving DecidableEq, Repr

/-- Where `HttpServer::Stop` stands. -/
inductive StopPc
  | running
  | setCompletionCallback
  | collect
  | notify (entriesToNotify : List ℕ) (next : ℕ)
  | stopIoc
  | join
  | stopped
  deriving DecidableEq, Repr

/-- New requests are handled until the I/O context is stopped. -/
def StopPc.accepting : StopPc → Bool
  | .join | .stopped => false
  | _ => true

/-- The manager with its dispatchers, and the server. -/
structure HttpState where
  core : DispatchState FsmKind
  callbackSet : Bool := true
  callbacks : ℕ → Option CallbackPc := fun _ => none
  waiters : Waiters := {}
  entries : WaitEntries := fun _ => {}
  requests : List HttpThread := []
  nextSessionId : UInt32 := 1
  stop : StopPc := .running

/-- A step of the manager, a request that arrives, a step of the thread that handles a request,
a step of a dispatching thread inside the callback, or a step of `HttpServer::Stop`. -/
inductive HttpLabel
  | core (l : DispatchLabel FsmKind)
  | request (req : HttpRequest)
  | handle (r : ℕ)
  | onCompletion (t : ℕ)
  | stop

/-! ## The steps -/

namespace HttpState

/-- The callback that thread `t` is about to copy, if it stands at `NotifyFsmCompleted`. -/
def notifying (h : HttpState) (t : ℕ) : Option CallbackPc :=
  match h.core.threads t with
  | some ⟨pm, .notify facId inst fsmId ret⟩ =>
      if h.callbackSet then
        some (.collect inst (CfactoryMgr.completionEvent facId fsmId pm.msg ret))
      else none
  | _ => none

/-- A step of the manager. A thread inside the callback takes none. -/
def stepCore (h : HttpState) : DispatchLabel FsmKind → Option HttpState
  | .advance t =>
      match h.callbacks t with
      | some _ => none
      | none => (h.core.step (.advance t)).map fun core =>
          { h with core := core, callbacks := Function.update h.callbacks t (h.notifying t) }
  | l => (h.core.step l).map fun core => { h with core := core }

/-- The thread that handles request `r` goes on at `pc`. -/
def goto (h : HttpState) (r : ℕ) (th : HttpThread) (pc : HttpPc) : HttpState :=
  { h with requests := h.requests.set r { th with pc := pc } }

/-- Request `r` posts its message: what `SendMsg` answers, and the state afterwards. -/
def sendMsg (h : HttpState) (r : ℕ) (msg : CMsg) : EerrNo × HttpState :=
  let res := h.core.mgr.toMsgPorts.sendMsg ⟨msg, .client r⟩
  (res.1, { h with core := { h.core with mgr := h.core.mgr.withPorts res.2 } })

/-- A step of the thread that handles request `r`. -/
def stepHandle (h : HttpState) (r : ℕ) (th : HttpThread) : Option HttpState :=
  match th.pc with
  | .generateSessionId =>
      let id := h.nextSessionId
      let h := { h with nextSessionId := id + 1 }
      if id = 0 then some h
      else
        let msg := th.request.msg id
        some (h.goto r th (if th.request.wait then .registerWaiter msg else .sendMsg msg))
  | .sendMsg msg =>
      let (sendResult, h) := h.sendMsg r msg
      some (h.goto r th (.answered msg (asyncResponse th.request msg sendResult)))
  | .registerWaiter msg =>
      some { h with
        waiters := h.waiters.register msg.waitKey r
        entries := h.entries.create r
        requests := h.requests.set r
          { th with pc := .syncSendMsg msg, registered := some h.core.events } }
  | .syncSendMsg msg =>
      let (sendResult, h) := h.sendMsg r msg
      some (h.goto r th (if sendResult ≠ .success then .unregisterWaiter msg (.refused sendResult)
        else .waitFor msg))
  | .waitFor msg =>
      let entry := h.entries r
      some (h.goto r th (.unregisterWaiter msg (.waited entry.completed entry.event)))
  | .unregisterWaiter msg outcome =>
      some { h.goto r th (.returning msg outcome) with
        waiters := h.waiters.unregister h.entries.alive msg.waitKey r }
  | .returning msg outcome =>
      some { h.goto r th (.answered msg (syncResponse th.request outcome)) with
        entries := h.entries.release [r] }
  | .answered .. => none

/-- A step of thread `t` inside `OnCompletion`. -/
def stepOnCompletion (h : HttpState) (t : ℕ) : CallbackPc → HttpState
  | .collect inst event =>
      let entriesToNotify := h.waiters.toNotify h.entries.alive event.waitKey
      { h with
        entries := h.entries.hold entriesToNotify
        callbacks := Function.update h.callbacks t (some (.notify inst event entriesToNotify 0)) }
  | .notify inst event entriesToNotify next =>
      match entriesToNotify[next]? with
      | some r => { h with
          entries := h.entries.complete r event
          callbacks := Function.update h.callbacks t
            (some (.notify inst event entriesToNotify (next + 1))) }
      | none => { h with
          entries := h.entries.release entriesToNotify
          callbacks := Function.update h.callbacks t none }

/-- A step of `HttpServer::Stop`, with `NotifyAllWaitersAsStopped`. -/
def stepStop (h : HttpState) : Option HttpState :=
  match h.stop with
  | .running => some { h with stop := .setCompletionCallback }
  | .setCompletionCallback => some { h with callbackSet := false, stop := .collect }
  | .collect =>
      let entriesToNotify := h.waiters.allToNotify h.entries.alive
      some { h with
        entries := h.entries.hold entriesToNotify
        waiters := {}
        stop := .notify entriesToNotify 0 }
  | .notify entriesToNotify next =>
      match entriesToNotify[next]? with
      | some r => some { h with
          entries := h.entries.complete r { (h.entries r).event with result := .invalidState }
          stop := .notify entriesToNotify (next + 1) }
      | none => some { h with entries := h.entries.release entriesToNotify, stop := .stopIoc }
  | .stopIoc => some { h with stop := .join }
  | .join =>
      if h.requests.all fun th => th.pc matches .answered .. then some { h with stop := .stopped }
      else none
  | .stopped => none

/-- Take a step, if it is enabled. -/
def step (h : HttpState) : HttpLabel → Option HttpState
  | .core l => h.stepCore l
  | .request req =>
      if h.stop.accepting then some { h with requests := h.requests ++ [{ request := req }] }
      else none
  | .handle r => h.requests[r]?.bind (h.stepHandle r)
  | .onCompletion t => (h.callbacks t).map (h.stepOnCompletion t)
  | .stop => h.stepStop

end HttpState

/-- A server that was started on the booted manager, whatever its counter says. -/
def httpSystem : Lts HttpState HttpLabel where
  init h := ∃ n, h = { core := .resting .boot [], nextSessionId := n }
  step := HttpState.step

/-! ## What a step can do -/

/-- The message of a request, once it has one. -/
def HttpPc.msg : HttpPc → Option CMsg
  | .generateSessionId => none
  | .sendMsg msg | .registerWaiter msg | .syncSendMsg msg | .waitFor msg
  | .unregisterWaiter msg _ | .returning msg _ | .answered msg _ => some msg

/-- The request has registered no waiter yet. -/
def HttpPc.early : HttpPc → Bool
  | .generateSessionId | .sendMsg _ | .registerWaiter _ => true
  | _ => false

/-- The completion that a request has read from its entry. -/
def HttpPc.completion : HttpPc → Option FsmCompletionEvent
  | .unregisterWaiter _ (.waited true completion)
  | .returning _ (.waited true completion) => some completion
  | _ => none

/-- Every step of the thread that handles request `r`: from which thread, to which thread, and
what becomes of the state beside it. -/
inductive Handled (h : HttpState) (r : ℕ) : HttpThread → HttpThread → HttpState → Prop
  | retried {th : HttpThread} (hpc : th.pc = .generateSessionId) (hz : h.nextSessionId = 0) :
      Handled h r th th { h with nextSessionId := 1 }
  | generated {th : HttpThread} {pc : HttpPc} (hpc : th.pc = .generateSessionId)
      (hz : h.nextSessionId ≠ 0) (hnext : pc = if th.request.wait
        then .registerWaiter (th.request.msg h.nextSessionId)
        else .sendMsg (th.request.msg h.nextSessionId)) :
      Handled h r th { th with pc := pc } { h with nextSessionId := h.nextSessionId + 1 }
  | sent {th : HttpThread} {msg : CMsg} (hpc : th.pc = .sendMsg msg) :
      Handled h r th
        { th with pc := .answered msg (asyncResponse th.request msg (h.sendMsg r msg).1) }
        (h.sendMsg r msg).2
  | registered {th : HttpThread} {msg : CMsg} (hpc : th.pc = .registerWaiter msg) :
      Handled h r th { th with pc := .syncSendMsg msg, registered := some h.core.events }
        { h with waiters := h.waiters.register msg.waitKey r, entries := h.entries.create r }
  | refused {th : HttpThread} {msg : CMsg} (hpc : th.pc = .syncSendMsg msg)
      (hsend : (h.sendMsg r msg).1 ≠ .success) :
      Handled h r th { th with pc := .unregisterWaiter msg (.refused (h.sendMsg r msg).1) }
        (h.sendMsg r msg).2
  | syncSent {th : HttpThread} {msg : CMsg} (hpc : th.pc = .syncSendMsg msg)
      (hsend : (h.sendMsg r msg).1 = .success) :
      Handled h r th { th with pc := .waitFor msg } (h.sendMsg r msg).2
  | waited {th : HttpThread} {msg : CMsg} (hpc : th.pc = .waitFor msg) :
      Handled h r th { th with
        pc := .unregisterWaiter msg (.waited (h.entries r).completed (h.entries r).event) } h
  | unregistered {th : HttpThread} {msg : CMsg} {outcome : WaitOutcome}
      (hpc : th.pc = .unregisterWaiter msg outcome) :
      Handled h r th { th with pc := .returning msg outcome }
        { h with waiters := h.waiters.unregister h.entries.alive msg.waitKey r }
  | answered {th : HttpThread} {msg : CMsg} {outcome : WaitOutcome}
      (hpc : th.pc = .returning msg outcome) :
      Handled h r th { th with pc := .answered msg (syncResponse th.request outcome) }
        { h with entries := h.entries.release [r] }

namespace HttpState

variable {h h' : HttpState} {r : ℕ}

/-- The cases are exhaustive. -/
theorem step_handle (hs : h.step (.handle r) = some h') :
    ∃ th th' k, h.requests[r]? = some th ∧ Handled h r th th' k ∧
      h' = { k with requests := h.requests.set r th' } := by
  obtain ⟨th, hth, hs⟩ := Option.bind_eq_some_iff.mp hs
  rw [stepHandle] at hs
  split at hs
  case h_1 hpc =>
    dsimp only at hs
    split at hs
    · rename_i hz
      have hset : h.requests.set r th = h.requests := by
        obtain ⟨hlt, rfl⟩ := List.getElem?_eq_some_iff.mp hth
        exact List.set_getElem_self hlt
      refine ⟨th, th, _, hth, .retried hpc hz, ?_⟩
      rw [hset, ← Option.some.inj hs, hz]
      rfl
    · rename_i hz
      exact ⟨th, _, _, hth, .generated hpc hz rfl, (Option.some.inj hs).symm⟩
  case h_2 msg hpc => exact ⟨th, _, _, hth, .sent hpc, (Option.some.inj hs).symm⟩
  case h_3 msg hpc => exact ⟨th, _, _, hth, .registered hpc, (Option.some.inj hs).symm⟩
  case h_4 msg hpc =>
    have heq : (h.sendMsg r msg).2.goto r th (if (h.sendMsg r msg).1 ≠ .success
        then .unregisterWaiter msg (.refused (h.sendMsg r msg).1) else .waitFor msg) = h' :=
      Option.some.inj hs
    by_cases hsend : (h.sendMsg r msg).1 = .success
    · rw [if_neg (not_not.mpr hsend)] at heq
      exact ⟨th, _, _, hth, .syncSent hpc hsend, heq.symm⟩
    · rw [if_pos hsend] at heq
      exact ⟨th, _, _, hth, .refused hpc hsend, heq.symm⟩
  case h_5 msg hpc => exact ⟨th, _, _, hth, .waited hpc, (Option.some.inj hs).symm⟩
  case h_6 msg outcome hpc =>
    exact ⟨th, _, _, hth, .unregistered hpc, (Option.some.inj hs).symm⟩
  case h_7 msg outcome hpc => exact ⟨th, _, _, hth, .answered hpc, (Option.some.inj hs).symm⟩
  case h_8 => contradiction

/-- A step of the manager, and what it means for the callbacks. -/
theorem step_core {l : DispatchLabel FsmKind} (hs : h.step (.core l) = some h') :
    ∃ core callbacks, h.core.step l = some core ∧
      h' = { h with core := core, callbacks := callbacks } ∧
      ((∃ t, l = .advance t ∧ h.callbacks t = none ∧
          callbacks = Function.update h.callbacks t (h.notifying t)) ∨
        ((∀ t, l ≠ .advance t) ∧ callbacks = h.callbacks)) := by
  change h.stepCore l = some h' at hs
  cases l with
  | advance t =>
      simp only [stepCore] at hs
      split at hs
      · contradiction
      · rename_i hnone
        obtain ⟨core, hcore, rfl⟩ := Option.map_eq_some_iff.mp hs
        exact ⟨core, _, hcore, rfl, .inl ⟨t, rfl, hnone, rfl⟩⟩
  | env | registerFactory | pop =>
      simp only [stepCore] at hs
      obtain ⟨core, hcore, rfl⟩ := Option.map_eq_some_iff.mp hs
      exact ⟨core, _, hcore, rfl, .inr ⟨by simp, rfl⟩⟩

/-- Posting a message is a step of the manager's surroundings. -/
theorem step_core_sendMsg (r : ℕ) (msg : CMsg) :
    h.core.step (.env (.sendMsg r msg)) = some (h.sendMsg r msg).2.core := rfl

theorem step_request {req : HttpRequest} (hs : h.step (.request req) = some h') :
    h' = { h with requests := h.requests ++ [{ request := req }] } := by
  simp only [step] at hs
  split at hs
  · exact (Option.some.inj hs).symm
  · contradiction

theorem step_onCompletion {t : ℕ} (hs : h.step (.onCompletion t) = some h') :
    ∃ call, h.callbacks t = some call ∧ h' = h.stepOnCompletion t call := by
  obtain ⟨call, hcall, rfl⟩ := Option.map_eq_some_iff.mp hs
  exact ⟨call, hcall, rfl⟩

/-- The callback acts on entries only. -/
theorem stepOnCompletion_frame (t : ℕ) (call : CallbackPc) :
    (h.stepOnCompletion t call).core = h.core ∧
      (h.stepOnCompletion t call).requests = h.requests ∧
      (h.stepOnCompletion t call).waiters = h.waiters := by
  cases call with
  | collect => exact ⟨rfl, rfl, rfl⟩
  | notify inst event entriesToNotify next =>
      simp only [stepOnCompletion]
      split <;> exact ⟨rfl, rfl, rfl⟩

/-- `HttpServer::Stop` acts on neither the manager's state nor the requests. -/
theorem stepStop_frame (hs : h.stepStop = some h') :
    h'.core = h.core ∧ h'.requests = h.requests := by
  rw [stepStop] at hs
  split at hs
  case h_4 =>
    split at hs <;> obtain rfl := Option.some.inj hs <;> exact ⟨rfl, rfl⟩
  case h_6 =>
    split at hs
    · obtain rfl := Option.some.inj hs
      exact ⟨rfl, rfl⟩
    · contradiction
  case h_7 => contradiction
  all_goals obtain rfl := Option.some.inj hs; exact ⟨rfl, rfl⟩

/-- What a thread that is about to copy the callback will go on with. -/
theorem notifying_eq_some {t : ℕ} {call : CallbackPc} (hn : h.notifying t = some call) :
    ∃ pm facId inst fsmId ret, h.core.threads t = some ⟨pm, .notify facId inst fsmId ret⟩ ∧
      call = .collect inst (CfactoryMgr.completionEvent facId fsmId pm.msg ret) := by
  rw [notifying] at hn
  split at hn
  · rename_i pm facId inst fsmId ret ht
    split at hn
    · exact ⟨pm, facId, inst, fsmId, ret, ht, (Option.some.inj hn).symm⟩
    · contradiction
  · contradiction

end HttpState

end FsmFramework
