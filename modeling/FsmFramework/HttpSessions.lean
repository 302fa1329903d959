import FsmFramework.HttpAdmission
import FsmFramework.Shutdown

/-!
# Connections and the threads that serve them

Below the requests of `HttpServer` lie its connections: `DoAccept` keeps one asynchronous accept
outstanding, each accepted connection is a `Session` that reads one request, has it handled and
writes one answer, and all their handlers run on the two threads inside `_ioc.run()`. A handler
that calls `HandleRequest` keeps its thread until the request is answered.

Boost.Asio is the environment: an operation that was started completes at any moment, in any way,
and its handler begins on a thread that is between two handlers, as long as the context is not
stopped. The request behind a `Session` is one of `HttpState`, whose thread takes its steps.

## Main results

* `connection_answers` — a connection has at most one request and a request one connection, and
  what is written to a connection is what `HandleRequest` makes of the message read from it.
-/

namespace FsmFramework

open CString

/-- `threadCount` of `Start`. -/
def threadCount : ℕ := 2

instance : NeZero threadCount := ⟨by decide⟩

/-! ## The checks of a request -/

/-- What the checks of `HandleRequest` make of a request: an answer, maybe after a session id was
generated, or a request to be handled. -/
inductive CheckedRequest
  | rejected (generated : Bool) (answer : HttpAnswer)
  | request (req : HttpRequest)
  deriving DecidableEq

/-- The part of `HandleRequest` in which it looks at nothing but the request. -/
def checkRequest (json : BoostJson) (request : HttpMessage) :
    Except StdFailure CheckedRequest := do
  let path ← extractPath request.target
  let query ← extractQuery request.target
  match resolveRoute path with
  | none => return .rejected false (.rejected .notFound "not_found" "unknown endpoint")
  | some route =>
      if request.method ≠ .post then
        return .rejected false (.rejected .methodNotAllowed "method_not_allowed"
          "only POST is supported")
      match payloadValue json request.body with
      | none =>
          return .rejected false (.rejected .badRequest "invalid_json"
            "request body must be a JSON object")
      | some members =>
          match readSessionId members with
          | .error error =>
              return .rejected true (.rejected .badRequest "invalid_session_id" error)
          | .ok sessionId =>
              let wait ← queryHasWaitTrue query
              return .request {
                route := route
                wait := wait
                sessionId := sessionId
                payload := if request.body = [] then [] else json.serialize (.object members) }

/-- `HandleRequest` is its checks and what follows them. -/
theorem handleRequest_checkRequest (json : BoostJson) (request : HttpMessage) (h : HttpState) :
    ∃ id next, generateSessionId 2 h.nextSessionId = .ok (id, next) ∧
      h.handleRequest json request = (checkRequest json request).map fun
        | .rejected generated answer => (.answered answer,
            { h with nextSessionId := if generated then next else h.nextSessionId })
        | .request req =>
            if req.wait then { h with nextSessionId := next }.handleSyncRequest
              h.requests.length req (req.msg id)
            else { h with nextSessionId := next }.handleAsyncRequest h.requests.length req
              (req.msg id) := by
  obtain ⟨path, query, wait, hpath, hquery, hwait⟩ := extract_ok request.target
  obtain ⟨id, next, hgen, -⟩ := generateSessionId_cases h.nextSessionId
  refine ⟨id, next, hgen, ?_⟩
  rw [HttpState.handleRequest, checkRequest, hpath, hquery]
  simp only [bind, Except.bind]
  cases resolveRoute path with
  | none => rfl
  | some route =>
      by_cases hmethod : request.method ≠ .post
      · simp only [if_pos hmethod]
        rfl
      · simp only [if_neg hmethod]
        cases payloadValue json request.body with
        | none => rfl
        | some members =>
            simp only [hgen]
            cases readSessionId members with
            | error error => rfl
            | ok sessionId =>
                simp only [hwait]
                rfl

/-! ## The state -/

/-- Where a connection stands: its read, its handler or its write is outstanding, or nothing is.
In the end it keeps the answer that was written to it, if one was. -/
inductive SessionPc
  | doRead
  | onRead
  | doWrite (answer : HttpAnswer)
  | closed (answer : Option HttpAnswer)
  deriving DecidableEq

/-- Nothing is outstanding on the connection. -/
def SessionPc.isClosed : SessionPc → Bool
  | .closed _ => true
  | _ => false

/-- A connection: the message that was read from it, the request it was, and where it stands. -/
structure Session where
  message : Option HttpMessage := none
  request : Option ℕ := none
  pc : SessionPc := .doRead
  deriving DecidableEq

/-- A thread inside `_ioc.run()`: between two handlers, in the handler of an accept, before its
test and behind it, in `DoAccept`, before the test and behind it, or in `OnRead` of connection `k`
with request `r`. -/
inductive IoPc
  | run
  | onAccept (ok : Bool)
  | accepted (ok : Bool)
  | doAccept
  | asyncAccept
  | onRead (k r : ℕ)
  | exited
  deriving DecidableEq, Repr

/-- How a read completes. -/
inductive ReadResult
  | endOfStream
  | failed
  | request (request : HttpMessage)
  deriving DecidableEq, Repr

/-- The server with its connections and its threads. -/
structure IoServer where
  http : HttpState
  acceptorOpen : Bool := true
  acceptPending : Bool := true
  sessions : List Session := []
  io : Fin threadCount → IoPc := fun _ => .run

/-- A step of the manager, of a dispatching thread inside the callback or of `Stop`; an operation
completes and its handler begins on thread `t`; thread `t` goes on in its handler, or leaves
`run`. -/
inductive IoLabel
  | core (l : DispatchLabel FsmKind)
  | onCompletion (t : ℕ)
  | stop
  | accept (t : Fin threadCount) (ok : Bool)
  | read (t : Fin threadCount) (k : ℕ) (result : ReadResult)
  | write (t : Fin threadCount) (k : ℕ)
  | advance (t : Fin threadCount)
  | leave (t : Fin threadCount)

namespace IoServer

/-- `_running`. -/
def running (c : IoServer) : Bool := c.http.stop = .running

/-- A handler can begin on this thread. -/
def ready (c : IoServer) (t : Fin threadCount) : Bool := c.io t = .run ∧ c.http.stop.accepting

/-- No operation is outstanding and no handler is running: `run` returns by itself. -/
def outOfWork (c : IoServer) : Bool :=
  c.acceptPending = false ∧ (∀ s ∈ c.sessions, s.pc.isClosed = true) ∧
    ∀ t, c.io t = .run ∨ c.io t = .exited

/-- Connection `k` goes on. -/
def setSession (c : IoServer) (k : ℕ) (s : Session) : IoServer :=
  { c with sessions := c.sessions.set k s }

/-- Thread `t` goes on. -/
def goto (c : IoServer) (t : Fin threadCount) (pc : IoPc) : IoServer :=
  { c with io := Function.update c.io t pc }

/-- The server behind the connections takes a step. -/
def stepHttp (c : IoServer) (l : HttpLabel) : Option IoServer :=
  (c.http.step l).map fun http => { c with http := http }

/-- `Session::OnRead` for a request that was read, up to the steps of its thread. -/
def onRead (json : BoostJson) (c : IoServer) (t : Fin threadCount) (k : ℕ)
    (request : HttpMessage) : Option IoServer :=
  match checkRequest json request with
  | .error _ => none
  | .ok (.rejected generated answer) =>
      match generateSessionId 2 c.http.nextSessionId with
      | .error _ => none
      | .ok (_, next) =>
          let next := if generated then next else c.http.nextSessionId
          some { c.setSession k { message := some request, pc := .doWrite answer } with
            http := { c.http with nextSessionId := next } }
  | .ok (.request req) =>
      let r := c.http.requests.length
      (c.stepHttp (.request req)).map fun c =>
        (c.setSession k { message := some request, request := some r, pc := .onRead }).goto t
          (.onRead k r)

/-- Thread `t` goes on in its handler. -/
def stepIo (c : IoServer) (t : Fin threadCount) : Option IoServer :=
  match c.io t with
  | .run | .exited => none
  | .onAccept ok => some (c.goto t (if c.running then .accepted ok else .run))
  | .accepted ok =>
      -- `Stop` may have begun since the test
      let sessions := if ok then c.sessions ++ [{ pc := .doRead }] else c.sessions
      some ({ c with sessions := sessions }.goto t .doAccept)
  | .doAccept => some (c.goto t (if c.running then .asyncAccept else .run))
  | .asyncAccept => some ({ c with acceptPending := true }.goto t .run)
  | .onRead k r =>
      match c.sessions[k]?, c.http.requests[r]?.map HttpThread.pc with
      | some s, some (.answered _ response) =>
          some ((c.setSession k { s with pc := .doWrite (.response response) }).goto t .run)
      | _, _ => c.stepHttp (.handle r)

/-- A step of `Stop`: it closes the acceptor before it notifies the waiters, and it joins the
threads. -/
def stepStop (c : IoServer) : Option IoServer :=
  if c.http.stop = .collect ∧ c.acceptorOpen = true then some { c with acceptorOpen := false }
  else if c.http.stop = .join ∧ ∃ t, c.io t ≠ .exited then none
  else c.stepHttp .stop

/-- Take a step, if it is enabled. -/
def step (json : BoostJson) (c : IoServer) : IoLabel → Option IoServer
  | .core l => c.stepHttp (.core l)
  | .onCompletion t => c.stepHttp (.onCompletion t)
  | .stop => c.stepStop
  | .accept t ok =>
      if c.ready t ∧ c.acceptPending then
        some ({ c with acceptPending := false }.goto t (.onAccept ok))
      else none
  | .read t k result =>
      if c.ready t ∧ c.sessions[k]? = some { pc := .doRead } then
        match result with
        | .request request => c.onRead json t k request
        | .endOfStream | .failed => some (c.setSession k { pc := .closed none })
      else none
  | .write t k =>
      match c.sessions[k]? with
      | some ⟨message, r, .doWrite answer⟩ =>
          if c.ready t then some (c.setSession k ⟨message, r, .closed (some answer)⟩) else none
      | _ => none
  | .advance t => c.stepIo t
  | .leave t =>
      if c.io t = .run ∧ (c.http.stop.accepting = false ∨ c.outOfWork) then
        some (c.goto t .exited)
      else none

end IoServer

/-- A server that was started on the booted manager: an accept is outstanding and the threads are
inside `run`. -/
def ioSystem (json : BoostJson) : Lts IoServer IoLabel where
  init c := ∃ n, c = { http := { core := .resting .boot [], nextSessionId := n } }
  step := IoServer.step json

/-! ## What a step can do -/

namespace IoServer

/-- Every step: under which label, and to which state. -/
inductive IoStep (json : BoostJson) (c : IoServer) : IoLabel → IoServer → Prop
  | core {l : DispatchLabel FsmKind} {http : HttpState}
      (hhttp : c.http.step (.core l) = some http) :
      IoStep json c (.core l) { c with http := http }
  | onCompletion {t : ℕ} {http : HttpState} (hhttp : c.http.step (.onCompletion t) = some http) :
      IoStep json c (.onCompletion t) { c with http := http }
  | acceptorClosed (hstop : c.http.stop = .collect) (hopen : c.acceptorOpen = true) :
      IoStep json c .stop { c with acceptorOpen := false }
  | stop {http : HttpState} (hopen : c.http.stop = .collect → c.acceptorOpen = false)
      (hjoin : c.http.stop = .join → ∀ t, c.io t = .exited)
      (hhttp : c.http.step .stop = some http) : IoStep json c .stop { c with http := http }
  | accepted {t : Fin threadCount} {ok : Bool} (hready : c.ready t = true)
      (hpending : c.acceptPending = true) :
      IoStep json c (.accept t ok)
        (IoServer.goto { c with acceptPending := false } t (.onAccept ok))
  | hungUp {t : Fin threadCount} {k : ℕ} {result : ReadResult} (hready : c.ready t = true)
      (hk : c.sessions[k]? = some { pc := .doRead }) :
      IoStep json c (.read t k result) (c.setSession k { pc := .closed none })
  | rejected {t : Fin threadCount} {k : ℕ} {request : HttpMessage} {generated : Bool}
      {answer : HttpAnswer} {next : UInt32} (hready : c.ready t = true)
      (hk : c.sessions[k]? = some { pc := .doRead })
      (hcheck : checkRequest json request = .ok (.rejected generated answer)) :
      IoStep json c (.read t k (.request request))
        { c.setSession k { message := some request, pc := .doWrite answer } with
          http := { c.http with nextSessionId := next } }
  | arrived {t : Fin threadCount} {k : ℕ} {request : HttpMessage} {req : HttpRequest}
      (hready : c.ready t = true) (hk : c.sessions[k]? = some { pc := .doRead })
      (hcheck : checkRequest json request = .ok (.request req)) :
      IoStep json c (.read t k (.request request))
        ((IoServer.setSession { c with
            http := { c.http with requests := c.http.requests ++ [{ request := req }] } } k
          { message := some request, request := some c.http.requests.length, pc := .onRead }).goto t
            (.onRead k c.http.requests.length))
  | written {t : Fin threadCount} {k : ℕ} {s : Session} {answer : HttpAnswer}
      (hready : c.ready t = true) (hk : c.sessions[k]? = some s) (hpc : s.pc = .doWrite answer) :
      IoStep json c (.write t k) (c.setSession k { s with pc := .closed (some answer) })
  | passed {t : Fin threadCount} {ok : Bool} (ht : c.io t = .onAccept ok)
      (hrun : c.running = true) : IoStep json c (.advance t) (c.goto t (.accepted ok))
  | connected {t : Fin threadCount} (ht : c.io t = .accepted true) :
      IoStep json c (.advance t)
        (IoServer.goto { c with sessions := c.sessions ++ [{ pc := .doRead }] } t .doAccept)
  | acceptFailed {t : Fin threadCount} (ht : c.io t = .accepted false) :
      IoStep json c (.advance t) (c.goto t .doAccept)
  | acceptOver {t : Fin threadCount} (ht : (∃ ok, c.io t = .onAccept ok) ∨ c.io t = .doAccept)
      (hstop : c.running = false) : IoStep json c (.advance t) (c.goto t .run)
  | tested {t : Fin threadCount} (ht : c.io t = .doAccept) (hrun : c.running = true) :
      IoStep json c (.advance t) (c.goto t .asyncAccept)
  | armed {t : Fin threadCount} (ht : c.io t = .asyncAccept) :
      IoStep json c (.advance t) (IoServer.goto { c with acceptPending := true } t .run)
  | answered {t : Fin threadCount} {k r : ℕ} {s : Session} {th : HttpThread} {msg : CMsg}
      {response : HttpResponse} (ht : c.io t = .onRead k r) (hk : c.sessions[k]? = some s)
      (hth : c.http.requests[r]? = some th) (hpc : th.pc = .answered msg response) :
      IoStep json c (.advance t)
        ((c.setSession k { s with pc := .doWrite (.response response) }).goto t .run)
  | handled {t : Fin threadCount} {k r : ℕ} {http : HttpState} (ht : c.io t = .onRead k r)
      (hhttp : c.http.step (.handle r) = some http) :
      IoStep json c (.advance t) { c with http := http }
  | left {t : Fin threadCount} (ht : c.io t = .run)
      (hwhy : c.http.stop.accepting = false ∨ c.outOfWork = true) :
      IoStep json c (.leave t) (c.goto t .exited)

variable {json : BoostJson} {c c' : IoServer} {l : IoLabel}

theorem stepHttp_eq_some_iff {l : HttpLabel} :
    c.stepHttp l = some c' ↔ ∃ http, c.http.step l = some http ∧ c' = { c with http := http } := by
  simp [stepHttp, eq_comm]

/-- The cases are exhaustive. -/
theorem step_cases (hs : c.step json l = some c') : IoStep json c l c' := by
  cases l with
  | core l =>
      obtain ⟨http, hhttp, rfl⟩ := stepHttp_eq_some_iff.mp hs
      exact .core hhttp
  | onCompletion t =>
      obtain ⟨http, hhttp, rfl⟩ := stepHttp_eq_some_iff.mp hs
      exact .onCompletion hhttp
  | stop =>
      simp only [step, stepStop] at hs
      split at hs
      · rename_i hclose
        obtain rfl := Option.some.inj hs
        exact .acceptorClosed hclose.1 hclose.2
      · rename_i hclosed
        split at hs
        · contradiction
        · rename_i hjoin
          obtain ⟨http, hhttp, rfl⟩ := stepHttp_eq_some_iff.mp hs
          refine .stop (fun hc => ?_) (fun hj t => ?_) hhttp
          · cases hopen : c.acceptorOpen with
            | false => rfl
            | true => exact absurd ⟨hc, hopen⟩ hclosed
          · by_contra hne
            exact hjoin ⟨hj, t, hne⟩
  | accept t ok =>
      obtain ⟨⟨hready, hpending⟩, hs⟩ := Option.ite_none_right_eq_some.mp hs
      obtain rfl := Option.some.inj hs
      exact .accepted hready hpending
  | read t k result =>
      obtain ⟨⟨hready, hk⟩, hs⟩ := Option.ite_none_right_eq_some.mp hs
      cases result with
      | endOfStream | failed =>
          obtain rfl := Option.some.inj hs
          exact .hungUp hready hk
      | request request =>
          simp only [onRead] at hs
          split at hs
          · contradiction
          · rename_i generated answer hcheck
            split at hs
            · contradiction
            · obtain rfl := Option.some.inj hs
              exact .rejected hready hk hcheck
          · rename_i req hcheck
            obtain ⟨c₁, hstep, rfl⟩ := Option.map_eq_some_iff.mp hs
            obtain ⟨http, hhttp, rfl⟩ := stepHttp_eq_some_iff.mp hstep
            obtain rfl := HttpState.step_request hhttp
            exact .arrived hready hk hcheck
  | write t k =>
      simp only [step] at hs
      split at hs
      · rename_i message r answer hk
        obtain ⟨hready, hs⟩ := Option.ite_none_right_eq_some.mp hs
        obtain rfl := Option.some.inj hs
        exact .written (s := ⟨message, r, .doWrite answer⟩) hready hk rfl
      · contradiction
  | advance t =>
      simp only [step, stepIo] at hs
      cases ht : c.io t with
      | run | exited => simp [ht] at hs
      | onAccept ok =>
          cases hrun : c.running with
          | false =>
              simp only [ht, hrun, Bool.false_eq_true, if_false] at hs
              obtain rfl := Option.some.inj hs
              exact .acceptOver (.inl ⟨ok, ht⟩) hrun
          | true =>
              simp only [ht, hrun, if_true] at hs
              obtain rfl := Option.some.inj hs
              exact .passed ht hrun
      | accepted ok =>
          simp only [ht] at hs
          obtain rfl := Option.some.inj hs
          cases ok with
          | true => exact .connected ht
          | false => exact .acceptFailed ht
      | doAccept =>
          cases hrun : c.running with
          | false =>
              simp only [ht, hrun, Bool.false_eq_true, if_false] at hs
              obtain rfl := Option.some.inj hs
              exact .acceptOver (.inr ht) hrun
          | true =>
              simp only [ht, hrun, if_true] at hs
              obtain rfl := Option.some.inj hs
              exact .tested ht hrun
      | asyncAccept =>
          simp only [ht] at hs
          obtain rfl := Option.some.inj hs
          exact .armed ht
      | onRead k r =>
          simp only [ht] at hs
          split at hs
          · rename_i s msg response hk hpc
            obtain rfl := Option.some.inj hs
            obtain ⟨th, hth, hpc⟩ := Option.map_eq_some_iff.mp hpc
            exact .answered ht hk hth hpc
          · obtain ⟨http, hhttp, rfl⟩ := stepHttp_eq_some_iff.mp hs
            exact .handled ht hhttp
  | leave t =>
      obtain ⟨⟨ht, hwhy⟩, hs⟩ := Option.ite_none_right_eq_some.mp hs
      obtain rfl := Option.some.inj hs
      exact .left ht hwhy

end IoServer

/-! ## Requests under the steps of the server -/

namespace HttpState

variable {h h' : HttpState} {l : HttpLabel} {r : ℕ} {response : HttpResponse}

/-- Request `r` is answered. -/
def Answered (h : HttpState) (r : ℕ) (response : HttpResponse) : Prop :=
  ∃ th msg, h.requests[r]? = some th ∧ th.pc = .answered msg response

/-- Request `r` is what the message was taken for. -/
def Reads (json : BoostJson) (h : HttpState) (message : HttpMessage) (r : ℕ) : Prop :=
  ∃ th, h.requests[r]? = some th ∧ checkRequest json message = .ok (.request th.request)

/-- Requests stay, and so do their answers. -/
def Keeps (h h' : HttpState) : Prop :=
  ∀ (r : ℕ) (th : HttpThread), h.requests[r]? = some th →
    ∃ th' : HttpThread, h'.requests[r]? = some th' ∧ th'.request = th.request ∧
      ∀ msg response, th.pc = .answered msg response → th'.pc = .answered msg response

theorem Keeps.of_requests (hreq : h'.requests = h.requests) : h.Keeps h' :=
  fun _ th hth => ⟨th, hreq ▸ hth, rfl, fun _ _ hpc => hpc⟩

theorem Keeps.append {th : HttpThread} :
    h.Keeps { h with requests := h.requests ++ [th] } := by
  intro r x hx
  have hlt := (List.getElem?_eq_some_iff.mp hx).1
  exact ⟨x, (List.getElem?_append_left hlt).trans hx, rfl, fun _ _ hpc => hpc⟩

theorem Keeps.of_step (hs : h.step l = some h') : h.Keeps h' := by
  intro r th hth
  rcases HttpState.step_request_at hs hth with hsame | ⟨th', k, -, hth', hd, -⟩
  · exact ⟨th, hsame, rfl, fun _ _ hpc => hpc⟩
  · refine ⟨th', hth', hd.thread.1, ?_⟩
    intro msg response hpc
    -- the thread of an answered request takes no step
    cases hd <;> simp_all

theorem Answered.mono (hkeeps : h.Keeps h') (ha : h.Answered r response) :
    h'.Answered r response := by
  obtain ⟨th, msg, hth, hpc⟩ := ha
  obtain ⟨th', hth', -, hans⟩ := hkeeps r th hth
  exact ⟨th', msg, hth', hans msg response hpc⟩

theorem Reads.mono {json : BoostJson} {message : HttpMessage} (hkeeps : h.Keeps h')
    (hr : h.Reads json message r) : h'.Reads json message r := by
  obtain ⟨th, hth, hcheck⟩ := hr
  obtain ⟨th', hth', hreq, -⟩ := hkeeps r th hth
  exact ⟨th', hth', hreq ▸ hcheck⟩

/-- Requests only arrive by themselves. -/
theorem length_requests_step (hs : h.step l = some h') (hl : ∀ req, l ≠ .request req) :
    h'.requests.length = h.requests.length := by
  cases l with
  | core l =>
      obtain ⟨core, callbacks, -, rfl, -⟩ := step_core hs
      rfl
  | request req => exact absurd rfl (hl req)
  | handle x =>
      obtain ⟨th₀, th', k, hx, hd, rfl⟩ := step_handle hs
      simp
  | onCompletion t =>
      obtain ⟨call, -, rfl⟩ := step_onCompletion hs
      rw [(h.stepOnCompletion_frame t call).2.1]
  | stop => rw [(stepStop_frame hs).2]

end HttpState

/-! ## Connections, requests and threads -/

/-- The answer that is being written to the connection, or was. -/
def SessionPc.answer : SessionPc → Option HttpAnswer
  | .doWrite answer => some answer
  | .closed answer => answer
  | .doRead | .onRead => none

/-- A connection as it can be. -/
inductive SessionOk (json : BoostJson) (h : HttpState) : Session → Prop
  | doRead : SessionOk json h { pc := .doRead }
  | onRead {message : HttpMessage} {r : ℕ} (hreq : h.Reads json message r) :
      SessionOk json h ⟨some message, some r, .onRead⟩
  | hungUp : SessionOk json h { pc := .closed none }
  | rejected {message : HttpMessage} {pc : SessionPc} {generated : Bool} {answer : HttpAnswer}
      (hcheck : checkRequest json message = .ok (.rejected generated answer))
      (hpc : pc.answer = some answer) : SessionOk json h ⟨some message, none, pc⟩
  | answered {message : HttpMessage} {pc : SessionPc} {r : ℕ} {response : HttpResponse}
      (hreq : h.Reads json message r) (ha : h.Answered r response)
      (hpc : pc.answer = some (.response response)) : SessionOk json h ⟨some message, some r, pc⟩

/-- Request `r` came in on connection `k`. -/
def IoServer.CameOn (c : IoServer) (r k : ℕ) : Prop :=
  ∃ s, c.sessions[k]? = some s ∧ s.request = some r

/-- Connection `k` is in `OnRead` with request `r`. -/
def IoServer.Handles (c : IoServer) (k r : ℕ) : Prop :=
  ∃ s, c.sessions[k]? = some s ∧ s.request = some r ∧ s.pc = .onRead

/-- Connections and requests correspond, and so do the threads and the requests they handle. -/
structure IoInv (json : BoostJson) (c : IoServer) : Prop where
  ok : ∀ (k : ℕ) (s : Session), c.sessions[k]? = some s → SessionOk json c.http s
  bound : ∀ r k, c.CameOn r k → r < c.http.requests.length
  unique : ∀ r k k', c.CameOn r k → c.CameOn r k' → k = k'
  total : ∀ r < c.http.requests.length, ∃ k, c.CameOn r k
  threads : ∀ (t : Fin threadCount) (k r : ℕ), c.io t = .onRead k r → c.Handles k r
  handlers : ∀ (k r : ℕ), c.Handles k r → ∃ t, c.io t = .onRead k r
  alone : ∀ t u k r, c.io t = .onRead k r → c.io u = .onRead k r → t = u

theorem SessionOk.mono {json : BoostJson} {h h' : HttpState} {s : Session}
    (hkeeps : h.Keeps h') (hok : SessionOk json h s) : SessionOk json h' s := by
  cases hok with
  | doRead => exact .doRead
  | onRead hreq => exact .onRead (hreq.mono hkeeps)
  | hungUp => exact .hungUp
  | rejected hcheck hpc => exact .rejected hcheck hpc
  | answered hreq ha hpc => exact .answered (hreq.mono hkeeps) (ha.mono hkeeps) hpc

namespace IoServer

variable {c : IoServer} {t : Fin threadCount} {k : ℕ} {s s' : Session}

/-- Where a request came in, after a connection has gone on. -/
theorem cameOn_setSession (hk : c.sessions[k]? = some s) {x y : ℕ} :
    (c.setSession k s').CameOn x y ↔
      (y = k ∧ s'.request = some x) ∨ (y ≠ k ∧ c.CameOn x y) := by
  have hlt := (List.getElem?_eq_some_iff.mp hk).1
  by_cases hy : y = k
  · subst hy
    simp [CameOn, setSession, hlt]
  · simp [CameOn, setSession, List.getElem?_set_ne (Ne.symm hy), hy]

/-- Which connections are in `OnRead`, after one has gone on. -/
theorem handles_setSession (hk : c.sessions[k]? = some s) {x y : ℕ} :
    (c.setSession k s').Handles y x ↔
      (y = k ∧ s'.request = some x ∧ s'.pc = .onRead) ∨ (y ≠ k ∧ c.Handles y x) := by
  have hlt := (List.getElem?_eq_some_iff.mp hk).1
  by_cases hy : y = k
  · subst hy
    simp [Handles, setSession, hlt]
  · simp [Handles, setSession, List.getElem?_set_ne (Ne.symm hy), hy]

/-- The connections, after one has gone on. -/
theorem sessions_setSession (hk : c.sessions[k]? = some s) {y : ℕ} {z : Session}
    (hz : (c.setSession k s').sessions[y]? = some z) :
    z = s' ∨ c.sessions[y]? = some z := by
  have hlt := (List.getElem?_eq_some_iff.mp hk).1
  by_cases hy : y = k
  · subst hy
    simp [setSession, hlt] at hz
    exact .inl hz.symm
  · simp [setSession, List.getElem?_set_ne (Ne.symm hy)] at hz
    exact .inr hz

/-- A thread moves outside the handlers of requests. -/
theorem io_goto {pc : IoPc} (ht : ∀ k r, c.io t ≠ .onRead k r) (hpc : ∀ k r, pc ≠ .onRead k r)
    (u : Fin threadCount) (k r : ℕ) : (c.goto t pc).io u = .onRead k r ↔ c.io u = .onRead k r := by
  by_cases hu : u = t
  · subst hu
    simp [goto, ht, hpc]
  · simp [goto, Function.update_of_ne hu]

end IoServer

namespace IoInv

open IoServer

variable {json : BoostJson} {c c' : IoServer} {l : IoLabel} {t : Fin threadCount} {k r : ℕ}
  {s s' : Session}

/-- Steps that no connection sees. -/
theorem frame (hinv : IoInv json c) (hsessions : c'.sessions = c.sessions)
    (hlen : c'.http.requests.length = c.http.requests.length) (hkeeps : c.http.Keeps c'.http)
    (hio : ∀ t k r, c'.io t = .onRead k r ↔ c.io t = .onRead k r) : IoInv json c' := by
  have hcame : ∀ r k, c'.CameOn r k ↔ c.CameOn r k := by
    intro r k
    simp only [CameOn, hsessions]
  have hhandles : ∀ k r, c'.Handles k r ↔ c.Handles k r := by
    intro k r
    simp only [Handles, hsessions]
  constructor
  case ok => exact fun k s hk => (hinv.ok k s (hsessions ▸ hk)).mono hkeeps
  case bound => exact fun r k hr => hlen ▸ hinv.bound r k ((hcame r k).mp hr)
  case unique =>
    exact fun r k k' hr hr' => hinv.unique r k k' ((hcame r k).mp hr) ((hcame r k').mp hr')
  case total =>
    intro r hr
    obtain ⟨k, hk⟩ := hinv.total r (hlen ▸ hr)
    exact ⟨k, (hcame r k).mpr hk⟩
  case threads => exact fun t k r ht => (hhandles k r).mpr (hinv.threads t k r ((hio t k r).mp ht))
  case handlers =>
    intro k r hk
    obtain ⟨t, ht⟩ := hinv.handlers k r ((hhandles k r).mp hk)
    exact ⟨t, (hio t k r).mpr ht⟩
  case alone =>
    exact fun t u k r ht hu => hinv.alone t u k r ((hio t k r).mp ht) ((hio u k r).mp hu)

/-- A thread moves outside the handlers of requests, and no connection sees it. -/
theorem goto {pc : IoPc} (hinv : IoInv json c) (ht : ∀ k r, c.io t ≠ .onRead k r)
    (hpc : ∀ k r, pc ≠ .onRead k r) : IoInv json (c.goto t pc) :=
  hinv.frame rfl rfl (.of_requests rfl) (io_goto ht hpc)

/-- The server behind the connections takes a step that is no new request. -/
theorem http {l : HttpLabel} {h : HttpState} (hinv : IoInv json c) (hs : c.http.step l = some h)
    (hl : ∀ req, l ≠ .request req) : IoInv json { c with http := h } :=
  hinv.frame rfl (HttpState.length_requests_step hs hl) (.of_step hs) fun _ _ _ => Iff.rfl

/-- A connection goes on outside its handler. -/
theorem setSession (hinv : IoInv json c) (hk : c.sessions[k]? = some s)
    (hreq : s'.request = s.request) (hpc : s.pc ≠ .onRead) (hpc' : s'.pc ≠ .onRead)
    (hok : SessionOk json c.http s') : IoInv json (c.setSession k s') := by
  have hcame : ∀ x y, (c.setSession k s').CameOn x y ↔ c.CameOn x y := by
    intro x y
    rw [cameOn_setSession hk]
    by_cases hy : y = k
    · subst hy
      simp [CameOn, hk, hreq]
    · simp [hy]
  have hhandles : ∀ y x, (c.setSession k s').Handles y x ↔ c.Handles y x := by
    intro y x
    rw [handles_setSession hk]
    by_cases hy : y = k
    · subst hy
      simp [Handles, hk, hpc, hpc']
    · simp [hy]
  constructor
  case ok =>
    intro y z hz
    rcases sessions_setSession hk hz with rfl | hz
    · exact hok
    · exact hinv.ok y z hz
  case bound => exact fun x y hx => hinv.bound x y ((hcame x y).mp hx)
  case unique =>
    exact fun x y y' hx hx' => hinv.unique x y y' ((hcame x y).mp hx) ((hcame x y').mp hx')
  case total =>
    intro x hx
    obtain ⟨y, hy⟩ := hinv.total x hx
    exact ⟨y, (hcame x y).mpr hy⟩
  case threads => exact fun t y x ht => (hhandles y x).mpr (hinv.threads t y x ht)
  case handlers => exact fun y x hy => hinv.handlers y x ((hhandles y x).mp hy)
  case alone => exact hinv.alone

/-- A request arrives on a connection. -/
theorem arrived {message : HttpMessage} {req : HttpRequest} (hinv : IoInv json c)
    (hk : c.sessions[k]? = some { pc := .doRead }) (ht : ∀ k r, c.io t ≠ .onRead k r)
    (hcheck : checkRequest json message = .ok (.request req)) :
    IoInv json ((IoServer.setSession { c with
        http := { c.http with requests := c.http.requests ++ [{ request := req }] } } k
      { message := some message, request := some c.http.requests.length, pc := .onRead }).goto t
        (.onRead k c.http.requests.length)) := by
  have hcame : ∀ x y, (c.setSession k
      { message := some message, request := some c.http.requests.length, pc := .onRead }).CameOn
        x y ↔ (y = k ∧ x = c.http.requests.length) ∨ (y ≠ k ∧ c.CameOn x y) := by
    intro x y
    rw [cameOn_setSession hk]
    simp [eq_comm]
  have hhandles : ∀ y x, (c.setSession k
      { message := some message, request := some c.http.requests.length, pc := .onRead }).Handles
        y x ↔ (y = k ∧ x = c.http.requests.length) ∨ (y ≠ k ∧ c.Handles y x) := by
    intro y x
    rw [handles_setSession hk]
    simp [eq_comm]
  have hio : ∀ u y x, (c.goto t (.onRead k c.http.requests.length)).io u = .onRead y x ↔
      (u = t ∧ y = k ∧ x = c.http.requests.length) ∨ (u ≠ t ∧ c.io u = .onRead y x) := by
    intro u y x
    by_cases hu : u = t
    · simp [IoServer.goto, hu, eq_comm]
    · simp [IoServer.goto, hu]
  -- the connection was in no handler before
  have hne : ∀ y x, c.Handles y x → y ≠ k := by
    rintro y x ⟨z, hz, hreq, -⟩ rfl
    rw [hk] at hz
    cases hz
    cases hreq
  constructor
  case ok =>
    intro y z hz
    have hkeeps : c.http.Keeps
        { c.http with requests := c.http.requests ++ [{ request := req }] } := .append
    rcases sessions_setSession hk hz with rfl | hz
    · exact .onRead ⟨{ request := req }, by simp [IoServer.goto, IoServer.setSession], hcheck⟩
    · exact (hinv.ok y z hz).mono hkeeps
  case bound =>
    intro x y hx
    simp only [IoServer.goto, IoServer.setSession, List.length_append, List.length_singleton]
    rcases (hcame x y).mp hx with ⟨-, rfl⟩ | ⟨-, hx⟩
    · omega
    · have := hinv.bound x y hx
      omega
  case unique =>
    intro x y y' hx hx'
    rcases (hcame x y).mp hx with ⟨rfl, rfl⟩ | ⟨-, hx⟩
    · rcases (hcame _ y').mp hx' with ⟨rfl, -⟩ | ⟨-, hx'⟩
      · rfl
      · exact absurd (hinv.bound _ _ hx') (Nat.lt_irrefl _)
    · rcases (hcame x y').mp hx' with ⟨-, rfl⟩ | ⟨-, hx'⟩
      · exact absurd (hinv.bound _ _ hx) (Nat.lt_irrefl _)
      · exact hinv.unique x y y' hx hx'
  case total =>
    intro x hx
    simp only [IoServer.goto, IoServer.setSession, List.length_append, List.length_singleton] at hx
    by_cases hnew : x = c.http.requests.length
    · exact ⟨k, (hcame x k).mpr (.inl ⟨rfl, hnew⟩)⟩
    · obtain ⟨y, hy⟩ := hinv.total x (by omega)
      refine ⟨y, (hcame x y).mpr (.inr ⟨?_, hy⟩)⟩
      rintro rfl
      obtain ⟨z, hz, hreq⟩ := hy
      rw [hk] at hz
      cases hz
      cases hreq
  case threads =>
    intro u y x hu
    rcases (hio u y x).mp hu with ⟨-, hnew⟩ | ⟨-, hold⟩
    · exact (hhandles y x).mpr (.inl hnew)
    · have hy := hinv.threads u y x hold
      exact (hhandles y x).mpr (.inr ⟨hne y x hy, hy⟩)
  case handlers =>
    intro y x hy
    rcases (hhandles y x).mp hy with hnew | ⟨-, hold⟩
    · exact ⟨t, (hio t y x).mpr (.inl ⟨rfl, hnew⟩)⟩
    · obtain ⟨u, hu⟩ := hinv.handlers y x hold
      refine ⟨u, (hio u y x).mpr (.inr ⟨?_, hu⟩)⟩
      rintro rfl
      exact ht y x hu
  case alone =>
    intro u v y x hu hv
    rcases (hio u y x).mp hu with ⟨hut, hyk, -⟩ | ⟨-, hu⟩
    · rcases (hio v y x).mp hv with ⟨hvt, -⟩ | ⟨-, hv⟩
      · exact hut.trans hvt.symm
      · exact absurd hyk (hne y x (hinv.threads v y x hv))
    · rcases (hio v y x).mp hv with ⟨-, hyk, -⟩ | ⟨-, hv⟩
      · exact absurd hyk (hne y x (hinv.threads u y x hu))
      · exact hinv.alone u v y x hu hv

/-- A request's handler starts to write its answer. -/
theorem answered {response : HttpResponse} (hinv : IoInv json c) (ht : c.io t = .onRead k r)
    (hk : c.sessions[k]? = some s) (ha : c.http.Answered r response) :
    IoInv json ((c.setSession k { s with pc := .doWrite (.response response) }).goto t .run) := by
  obtain ⟨z, hz, hreq, hpc⟩ := hinv.threads t k r ht
  obtain rfl := Option.some.inj (hk.symm.trans hz)
  have hcame : ∀ x y, (c.setSession k { s with pc := .doWrite (.response response) }).CameOn x y ↔
      c.CameOn x y := by
    intro x y
    rw [cameOn_setSession hk]
    by_cases hy : y = k
    · subst hy
      simp [CameOn, hk]
    · simp [hy]
  have hhandles : ∀ y x, (c.setSession k
      { s with pc := .doWrite (.response response) }).Handles y x ↔ y ≠ k ∧ c.Handles y x := by
    intro y x
    rw [handles_setSession hk]
    simp
  have hio : ∀ u y x, (c.goto t .run).io u = .onRead y x ↔ u ≠ t ∧ c.io u = .onRead y x := by
    intro u y x
    by_cases hu : u = t
    · simp [IoServer.goto, hu]
    · simp [IoServer.goto, hu]
  constructor
  case ok =>
    intro y z hz
    rcases sessions_setSession hk hz with rfl | hz
    · cases hinv.ok k s hk with
      | onRead hread =>
          obtain rfl := Option.some.inj hreq
          exact .answered hread ha rfl
      | doRead | hungUp | rejected => cases hreq
      | answered _ _ hans =>
          obtain rfl : _ = SessionPc.onRead := hpc
          cases hans
    · exact hinv.ok y z hz
  case bound => exact fun x y hx => hinv.bound x y ((hcame x y).mp hx)
  case unique =>
    exact fun x y y' hx hx' => hinv.unique x y y' ((hcame x y).mp hx) ((hcame x y').mp hx')
  case total =>
    intro x hx
    obtain ⟨y, hy⟩ := hinv.total x hx
    exact ⟨y, (hcame x y).mpr hy⟩
  case threads =>
    intro u y x hu
    obtain ⟨hut, hold⟩ := (hio u y x).mp hu
    refine (hhandles y x).mpr ⟨?_, hinv.threads u y x hold⟩
    rintro rfl
    obtain ⟨z, hz, hreq', -⟩ := hinv.threads u y x hold
    obtain rfl := Option.some.inj (hk.symm.trans hz)
    obtain rfl := Option.some.inj (hreq.symm.trans hreq')
    exact hut (hinv.alone u t y r hold ht)
  case handlers =>
    intro y x hy
    obtain ⟨hyk, hold⟩ := (hhandles y x).mp hy
    obtain ⟨u, hu⟩ := hinv.handlers y x hold
    refine ⟨u, (hio u y x).mpr ⟨?_, hu⟩⟩
    rintro rfl
    rw [ht] at hu
    cases hu
    exact hyk rfl
  case alone =>
    exact fun u v y x hu hv => hinv.alone u v y x ((hio u y x).mp hu).2 ((hio v y x).mp hv).2

/-- A connection is there. -/
theorem connected (hinv : IoInv json c) (ht : ∀ k r, c.io t ≠ .onRead k r) :
    IoInv json (IoServer.goto { c with sessions := c.sessions ++ [{ pc := .doRead }] } t
      .doAccept) := by
  have hget : ∀ (y : ℕ) (z : Session), z ≠ { pc := .doRead } →
      ((c.sessions ++ [({ pc := .doRead } : Session)])[y]? = some z ↔
        c.sessions[y]? = some z) := by
    intro y z hz
    rw [List.getElem?_append]
    split
    · rfl
    · rename_i hle
      rw [List.getElem?_eq_none (not_lt.mp hle), List.getElem?_singleton]
      split
      · simp [Ne.symm hz]
      · simp
  have hmap : ∀ (P : Session → Prop) (y : ℕ), ¬ P { pc := .doRead } →
      ((∃ z, (c.sessions ++ [({ pc := .doRead } : Session)])[y]? = some z ∧ P z) ↔
        ∃ z, c.sessions[y]? = some z ∧ P z) := by
    intro P y hP
    apply exists_congr
    intro z
    by_cases hz : z = { pc := .doRead }
    · simp [hz, hP]
    · rw [hget y z hz]
  have hcame : ∀ x y, IoServer.CameOn
      { c with sessions := c.sessions ++ [{ pc := .doRead }] } x y ↔ c.CameOn x y :=
    fun x y => hmap (fun z => z.request = some x) y (by simp)
  have hhandles : ∀ y x, IoServer.Handles
      { c with sessions := c.sessions ++ [{ pc := .doRead }] } y x ↔ c.Handles y x :=
    fun y x => hmap (fun z => z.request = some x ∧ z.pc = .onRead) y (by simp)
  have hio : ∀ u y x, (IoServer.goto { c with sessions := c.sessions ++ [{ pc := .doRead }] } t
      .doAccept).io u = .onRead y x ↔ c.io u = .onRead y x := io_goto (c := c) ht (by simp)
  constructor
  case ok =>
    intro y z hz
    by_cases hnew : z = { pc := .doRead }
    · subst hnew
      exact .doRead
    · exact hinv.ok y z ((hget y z hnew).mp hz)
  case bound => exact fun x y hx => hinv.bound x y ((hcame x y).mp hx)
  case unique =>
    exact fun x y y' hx hx' => hinv.unique x y y' ((hcame x y).mp hx) ((hcame x y').mp hx')
  case total =>
    intro x hx
    obtain ⟨y, hy⟩ := hinv.total x hx
    exact ⟨y, (hcame x y).mpr hy⟩
  case threads =>
    exact fun u y x hu => (hhandles y x).mpr (hinv.threads u y x ((hio u y x).mp hu))
  case handlers =>
    intro y x hy
    obtain ⟨u, hu⟩ := hinv.handlers y x ((hhandles y x).mp hy)
    exact ⟨u, (hio u y x).mpr hu⟩
  case alone =>
    exact fun u v y x hu hv => hinv.alone u v y x ((hio u y x).mp hu) ((hio v y x).mp hv)

/-- Every step keeps it so. -/
theorem step (hinv : IoInv json c) (hs : c.step json l = some c') : IoInv json c' := by
  cases step_cases hs with
  | core hhttp => exact hinv.http hhttp (by simp)
  | onCompletion hhttp => exact hinv.http hhttp (by simp)
  | acceptorClosed => exact hinv.frame rfl rfl (.of_requests rfl) fun _ _ _ => Iff.rfl
  | stop _ _ hhttp => exact hinv.http hhttp (by simp)
  | @accepted t ok hready hpending =>
      have ht : c.io t = .run := (decide_eq_true_eq.mp hready).1
      exact hinv.frame rfl rfl (.of_requests rfl) (io_goto (by simp [ht]) (by simp))
  | hungUp hready hk => exact hinv.setSession hk rfl (by simp) (by simp) .hungUp
  | @rejected t k message generated answer next hready hk hcheck =>
      have hset : IoInv json (c.setSession k { message := some message, pc := .doWrite answer }) :=
        hinv.setSession hk rfl (by simp) (by simp) (.rejected hcheck rfl)
      exact hset.frame rfl rfl (.of_requests rfl) fun _ _ _ => Iff.rfl
  | arrived hready hk hcheck =>
      have ht := (decide_eq_true_eq.mp hready).1
      exact hinv.arrived hk (by simp [ht]) hcheck
  | @written t k s answer hready hk hpc =>
      refine hinv.setSession hk rfl (by simp [hpc]) (by simp) ?_
      obtain ⟨message, request, pc⟩ := s
      obtain rfl : pc = .doWrite answer := hpc
      cases hinv.ok k _ hk with
      | rejected hcheck hans => exact .rejected hcheck hans
      | answered hreq ha hans => exact .answered hreq ha hans
  | passed ht => exact hinv.goto (by simp [ht]) (by simp)
  | connected ht => exact hinv.connected (by simp [ht])
  | acceptFailed ht => exact hinv.goto (by simp [ht]) (by simp)
  | acceptOver ht hstop =>
      apply hinv.goto _ (by simp)
      rcases ht with ⟨ok, ht⟩ | ht
      · simp [ht]
      · simp [ht]
  | tested ht hrun => exact hinv.goto (by simp [ht]) (by simp)
  | armed ht => exact hinv.frame rfl rfl (.of_requests rfl) (io_goto (by simp [ht]) (by simp))
  | answered ht hk hth hpc => exact hinv.answered ht hk ⟨_, _, hth, hpc⟩
  | handled ht hhttp => exact hinv.http hhttp (by simp)
  | left ht hwhy => exact hinv.goto (by simp [ht]) (by simp)

end IoInv

theorem ioInv_of_reachable {json : BoostJson} {c : IoServer}
    {G : IoServer → IoLabel → Prop} (hc : (ioSystem json).ReachableVia G c) : IoInv json c := by
  refine hc.invariant ?init fun _ _ _ hinv _ hs => hinv.step hs
  case init =>
    rintro _ ⟨n, rfl⟩
    constructor
    case ok => intro k s hk; simp at hk
    case handlers => rintro k r ⟨s, hk, -⟩; simp at hk
    case bound => rintro r k ⟨s, hk, -⟩; simp at hk
    case unique => rintro r k k' ⟨s, hk, -⟩; simp at hk
    case total => intro r hr; simp at hr
    case threads => intro t k r ht; cases ht
    case alone => intro t u k r ht; cases ht

/-! ## What a connection is given -/

/-- A connection later on: what was read from it stays, and so does the answer that it is given;
once it is closed nothing changes. -/
structure Session.Becomes (s s' : Session) : Prop where
  message : ∀ message, s.message = some message →
    s'.message = some message ∧ s'.request = s.request
  answer : ∀ answer, s.pc.answer = some answer → s'.pc.answer = some answer
  closed : s.pc.isClosed = true → s' = s

namespace Session.Becomes

variable {s s' s'' : Session}

theorem refl (s : Session) : s.Becomes s :=
  ⟨fun _ h => ⟨h, rfl⟩, fun _ h => h, fun _ => rfl⟩

theorem trans (h : s.Becomes s') (h' : s'.Becomes s'') : s.Becomes s'' := by
  constructor
  case message =>
    intro message hm
    obtain ⟨hm', hreq⟩ := h.message message hm
    obtain ⟨hm'', hreq'⟩ := h'.message message hm'
    exact ⟨hm'', hreq'.trans hreq⟩
  case answer => exact fun answer ha => h'.answer answer (h.answer answer ha)
  case closed =>
    intro hc
    obtain rfl := h.closed hc
    exact h'.closed hc

end Session.Becomes

namespace IoServer

variable {json : BoostJson} {c c' : IoServer} {l : IoLabel} {k : ℕ} {s s' : Session}

theorem becomes_setSession {y : ℕ} (hk : c.sessions[k]? = some s) (hb : s.Becomes s')
    {z : Session} (hz : c.sessions[y]? = some z) :
    ∃ z', (c.setSession k s').sessions[y]? = some z' ∧ z.Becomes z' := by
  have hlt := (List.getElem?_eq_some_iff.mp hk).1
  by_cases hy : y = k
  · subst hy
    obtain rfl := Option.some.inj (hk.symm.trans hz)
    exact ⟨s', by simp [setSession, hlt], hb⟩
  · exact ⟨z, by simpa [setSession, List.getElem?_set_ne (Ne.symm hy)] using hz, .refl z⟩

/-- One step of the server. -/
theorem becomes_step (hinv : IoInv json c) (hs : c.step json l = some c')
    (hk : c.sessions[k]? = some s) : ∃ s', c'.sessions[k]? = some s' ∧ s.Becomes s' := by
  cases step_cases hs with
  | core | onCompletion | acceptorClosed | stop | accepted | passed | acceptFailed | acceptOver
  | tested | armed | handled | left => exact ⟨s, hk, .refl s⟩
  | hungUp hready hx =>
      exact becomes_setSession hx ⟨by simp, by simp [SessionPc.answer],
        by simp [SessionPc.isClosed]⟩ hk
  | rejected hready hx hcheck =>
      exact becomes_setSession hx ⟨by simp, by simp [SessionPc.answer],
        by simp [SessionPc.isClosed]⟩ hk
  | arrived hready hx hcheck =>
      exact becomes_setSession hx ⟨by simp, by simp [SessionPc.answer],
        by simp [SessionPc.isClosed]⟩ hk
  | written hready hx hpc =>
      apply becomes_setSession hx ?_ hk
      exact ⟨fun _ hm => ⟨hm, rfl⟩, by simp [hpc, SessionPc.answer],
        by simp [hpc, SessionPc.isClosed]⟩
  | connected ht =>
      have hlt := (List.getElem?_eq_some_iff.mp hk).1
      exact ⟨s, (List.getElem?_append_left hlt).trans hk, .refl s⟩
  | @answered t x r z th msg response ht hx hth hpc =>
      obtain ⟨z', hz', -, hpc'⟩ := hinv.threads t x r ht
      obtain rfl := Option.some.inj (hx.symm.trans hz')
      apply becomes_setSession hx ?_ hk
      exact ⟨fun _ hm => ⟨hm, rfl⟩, by simp [hpc', SessionPc.answer],
        by simp [hpc', SessionPc.isClosed]⟩

end IoServer

/-- **Connections and their answers.** A request came in on exactly one connection. What a
connection is given is what `HandleRequest` makes of the message that was read from it: the
rejection, or the answer of its request. And in the rest of the run it is given nothing else. -/
theorem connection_answers {json : BoostJson} {c : IoServer} (hc : (ioSystem json).Reachable c) :
    (∀ r < c.http.requests.length, ∃! k, c.CameOn r k) ∧
      (∀ (k : ℕ) (s : Session) (answer : HttpAnswer), c.sessions[k]? = some s →
        s.pc.answer = some answer → ∃ message, s.message = some message ∧
          ((∃ generated, s.request = none ∧
              checkRequest json message = .ok (.rejected generated answer)) ∨
            ∃ r th msg response, s.request = some r ∧ c.http.requests[r]? = some th ∧
              checkRequest json message = .ok (.request th.request) ∧
              th.pc = .answered msg response ∧ answer = .response response)) ∧
      ∀ (c' : IoServer) (k : ℕ) (s : Session), (ioSystem json).RunVia Lts.anyStep c c' →
        c.sessions[k]? = some s → ∃ s', c'.sessions[k]? = some s' ∧ s.Becomes s' := by
  have hinv := ioInv_of_reachable hc
  refine ⟨?_, ?_, ?_⟩
  · intro r hr
    obtain ⟨k, hk⟩ := hinv.total r hr
    exact ⟨k, hk, fun k' hk' => hinv.unique r k' k hk' hk⟩
  · intro k s answer hk ha
    cases hinv.ok k s hk with
    | doRead | onRead | hungUp => cases ha
    | rejected hcheck hpc =>
        obtain rfl := Option.some.inj (ha.symm.trans hpc)
        exact ⟨_, rfl, .inl ⟨_, rfl, hcheck⟩⟩
    | @answered message pc r response hreq hans hpc =>
        obtain rfl := Option.some.inj (ha.symm.trans hpc)
        obtain ⟨th, hth, hcheck⟩ := hreq
        obtain ⟨th', msg, hth', hpc'⟩ := hans
        obtain rfl := Option.some.inj (hth.symm.trans hth')
        exact ⟨message, rfl, .inr ⟨r, th, msg, response, rfl, hth, hcheck, hpc', rfl⟩⟩
  · intro c' k s hrun hk
    suffices hgoal : IoInv json c' ∧ ∃ s', c'.sessions[k]? = some s' ∧ s.Becomes s' from hgoal.2
    refine hrun.invariant (I := fun c' => IoInv json c' ∧
      ∃ s', c'.sessions[k]? = some s' ∧ s.Becomes s') ?step ⟨hinv, s, hk, .refl s⟩
    case step =>
      rintro c₁ l c₂ ⟨hinv₁, s₁, hk₁, hb₁⟩ - hs
      obtain ⟨s₂, hk₂, hb₂⟩ := IoServer.becomes_step hinv₁ hs hk₁
      exact ⟨hinv₁.step hs, s₂, hk₂, hb₁.trans hb₂⟩

/-- An asynchronous registration for session 123. -/
def asyncMessage : HttpMessage := { registerMessage with target := lit "/api/v1/register" }

/-- A connection is accepted on thread `t`, and the next accept is started. -/
def acceptSteps (t : Fin threadCount) : List IoLabel :=
  .accept t true :: List.replicate 4 (.advance t)

/-- Two connections; what comes in on the first is no request, on the second a registration. -/
def twoConnections : List IoLabel :=
  acceptSteps 0 ++ acceptSteps 1 ++
    [.read 1 0 (.request { registerMessage with method := .get }), .write 0 0,
      .read 1 1 (.request asyncMessage)] ++ List.replicate 3 (.advance 1) ++ [.write 0 1]

theorem connection_answers_two : ∃ c : IoServer,
    (ioSystem oneObjectJson).exec (fun _ _ => true)
        { http := { core := .resting .boot [], nextSessionId := 1 } } twoConnections = some c ∧
      c.sessions.map (fun s => s.pc.answer.map HttpAnswer.code) = [some 405, some 202] ∧
      ∃! k, c.CameOn 0 k := by
  obtain ⟨c, hrun, hcodes, hlen⟩ : ∃ c : IoServer,
      (ioSystem oneObjectJson).exec (fun _ _ => true)
          { http := { core := .resting .boot [], nextSessionId := 1 } } twoConnections = some c ∧
        c.sessions.map (fun s => s.pc.answer.map HttpAnswer.code) = [some 405, some 202] ∧
        c.http.requests.length = 1 := ⟨_, rfl, rfl, rfl⟩
  have hc : (ioSystem oneObjectJson).Reachable c :=
    ⟨_, ⟨1, rfl⟩, Lts.runVia_of_exec (fun _ _ _ => trivial) hrun⟩
  exact ⟨c, hrun, hcodes, (connection_answers hc).1 0 (by omega)⟩

end FsmFramework
