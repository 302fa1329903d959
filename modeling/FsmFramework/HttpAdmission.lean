import FsmFramework.HttpTarget
import FsmFramework.HttpWaits

/-!
# Admitting a request

`HttpServer::Impl::HandleRequest` from the bytes of a request on: the route, the method, the body
and its session id are checked, in this order, before the request becomes a message. A function
here is one call of the source that nobody interrupts; where a synchronous request begins to wait,
it comes back with what it waits for, and `finishSyncRequest` is the rest of the call.
`handleRequest_run` connects it with the server whose threads interleave.

Boost.JSON is a parameter: a partial function that parses, and one that serialises.

## Main results

* `handleRequest_cases` — what a call comes back with.
* `http_admission` — which requests post a message, which one, and what becomes of the others.
-/

namespace FsmFramework

open CString

/-! ## Requests -/

/-- `boost::beast::http::verb`. -/
inductive HttpVerb
  | unknown | delete | get | head | post | put | connect | options | trace
  | copy | lock | mkcol | move | propfind | proppatch | search | unlock | bind | rebind | unbind
  | acl | report | mkactivity | checkout | merge | msearch | notify | subscribe | unsubscribe
  | patch | purge | mkcalendar | link | unlink
  deriving DecidableEq, Repr

/-- What `HandleRequest` reads of a request. -/
structure HttpMessage where
  method : HttpVerb
  target : CString
  body : CString := []
  deriving DecidableEq, Repr

/-- A `boost::json::value`, by its kind. A double is named by its representation. -/
inductive JsonValue
  | null
  | bool (b : Bool)
  | int64 (n : Int64)
  | uint64 (n : UInt64)
  | double (bits : UInt64)
  | string (s : CString)
  | array (values : List JsonValue)
  | object (members : List (CString × JsonValue))

/-- What the server uses of Boost.JSON. -/
structure BoostJson where
  parse : CString → Option JsonValue
  serialize : JsonValue → CString

/-! ## Answers -/

/-- The statuses of the answers that `HandleRequest` gives before it has a message. -/
inductive RejectionStatus
  | notFound | methodNotAllowed | badRequest
  deriving DecidableEq, Repr

/-- An answer before there is a message, or one of those that `HttpServer` knows. -/
inductive HttpAnswer
  | rejected (status : RejectionStatus) (error message : String)
  | response (response : HttpResponse)
  deriving DecidableEq, Repr

def HttpStatus.code : HttpStatus → ℕ
  | .ok => 200
  | .accepted => 202
  | .internalServerError => 500
  | .serviceUnavailable => 503
  | .gatewayTimeout => 504

def HttpAnswer.code : HttpAnswer → ℕ
  | .rejected .notFound .. => 404
  | .rejected .methodNotAllowed .. => 405
  | .rejected .badRequest .. => 400
  | .response ⟨status, _⟩ => status.code

/-- A call that has come back, or one that waits for a completion. -/
inductive HandleOutcome
  | answered (answer : HttpAnswer)
  | waiting (req : HttpRequest) (msg : CMsg)
  deriving DecidableEq

/-- The call has come back with 202, or waits for the completion. -/
def HandleOutcome.accepted : HandleOutcome → Prop
  | .answered answer => answer.code = 202
  | .waiting .. => True

/-! ## The checks -/

def HttpRoute.path : HttpRoute → CString
  | .register => lit "/api/v1/register"
  | .auth => lit "/api/v1/auth"

def resolveRoute (path : CString) : Option HttpRoute :=
  if path = HttpRoute.register.path then some .register
  else if path = HttpRoute.auth.path then some .auth
  else none

/-- The members of the request's body. An empty body is an empty object. -/
def payloadValue (json : BoostJson) (body : CString) : Option (List (CString × JsonValue)) :=
  if body = [] then some []
  else
    match json.parse body with
    | some (.object members) => some members
    | _ => none

/-- The member `sessionId`. -/
def sessionIdValue (members : List (CString × JsonValue)) : Option JsonValue :=
  (KeyedList.lookup Prod.fst (lit "sessionId") members).map Prod.snd

/-- The number of a positive integer value. -/
def rawSessionId : JsonValue → Option UInt64
  | .uint64 n => some n
  | .int64 n => if 0 < n then some n.toUInt64 else none
  | _ => none

theorem toUInt32_ne_zero {n : UInt64} (h : ¬ (n = 0 ∨ 4294967295 < n)) : n.toUInt32 ≠ 0 := by
  intro hz
  have hnat := congrArg UInt32.toNat hz
  rw [UInt64.toNat_toUInt32, UInt32.toNat_zero] at hnat
  have hle : ¬ (4294967295 < n.toNat) := fun hlt => h (.inr (UInt64.lt_iff_toNat_lt.mpr hlt))
  exact h (.inl (UInt64.toNat_inj.mp (by simp; omega)))

/-- The session id that the client has chosen, if it has chosen one. -/
def readSessionId (members : List (CString × JsonValue)) :
    Except String (Option { n : UInt32 // n ≠ 0 }) :=
  match sessionIdValue members with
  | none => .ok none
  | some value =>
      match rawSessionId value with
      | none => .error "sessionId must be a positive integer"
      | some n =>
          if h : n = 0 ∨ 4294967295 < n then .error "sessionId is out of range"
          else .ok (some ⟨n.toUInt32, toUInt32_ne_zero h⟩)

/-- `GenerateSessionId`: the id, and the counter afterwards. -/
def generateSessionId : ℕ → UInt32 → Except StdFailure (UInt32 × UInt32)
  | 0, _ => .error .outOfFuel
  | fuel + 1, next => if next = 0 then generateSessionId fuel (next + 1) else .ok (next, next + 1)

/-! ## The call -/

namespace HttpState

/-- An asynchronous request, as request `r`. -/
def handleAsyncRequest (h : HttpState) (r : ℕ) (req : HttpRequest) (msg : CMsg) :
    HandleOutcome × HttpState :=
  let (sendResult, h) := h.sendMsg r msg
  (.answered (.response (asyncResponse req msg sendResult)), h)

/-- `HandleSyncRequest` up to its wait. -/
def handleSyncRequest (h : HttpState) (r : ℕ) (req : HttpRequest) (msg : CMsg) :
    HandleOutcome × HttpState :=
  let h := { h with
    waiters := h.waiters.register msg.waitKey r
    entries := h.entries.create r }
  let (sendResult, h) := h.sendMsg r msg
  if sendResult ≠ .success then
    (.answered (.response (syncResponse req (.refused sendResult))), { h with
      waiters := h.waiters.unregister h.entries.alive msg.waitKey r
      entries := h.entries.release [r] })
  else (.waiting req msg, h)

/-- `HandleSyncRequest` after its wait. -/
def finishSyncRequest (h : HttpState) (r : ℕ) (req : HttpRequest) (msg : CMsg) :
    HttpResponse × HttpState :=
  let entry := h.entries r
  (syncResponse req (.waited entry.completed entry.event), { h with
    waiters := h.waiters.unregister h.entries.alive msg.waitKey r
    entries := h.entries.release [r] })

/-- `HandleRequest`, up to the wait of a synchronous request. -/
def handleRequest (json : BoostJson) (request : HttpMessage) (h : HttpState) :
    Except StdFailure (HandleOutcome × HttpState) := do
  let path ← extractPath request.target
  let query ← extractQuery request.target
  match resolveRoute path with
  | none => return (.answered (.rejected .notFound "not_found" "unknown endpoint"), h)
  | some route =>
      if request.method ≠ .post then
        return (.answered (.rejected .methodNotAllowed "method_not_allowed"
          "only POST is supported"), h)
      match payloadValue json request.body with
      | none =>
          return (.answered (.rejected .badRequest "invalid_json"
            "request body must be a JSON object"), h)
      | some members =>
          -- the counter is zero at most once
          let (generated, nextSessionId) ← generateSessionId 2 h.nextSessionId
          let h := { h with nextSessionId := nextSessionId }
          match readSessionId members with
          | .error error =>
              return (.answered (.rejected .badRequest "invalid_session_id" error), h)
          | .ok sessionId =>
              let wait ← queryHasWaitTrue query
              let req : HttpRequest := {
                route := route
                wait := wait
                sessionId := sessionId
                payload := if request.body = [] then [] else json.serialize (.object members) }
              let r := h.requests.length
              return if wait then h.handleSyncRequest r req (req.msg generated)
                else h.handleAsyncRequest r req (req.msg generated)

end HttpState

/-! ## What the checks let through -/

/-- The target is the path of the route, alone or in front of a query. -/
def HttpMessage.Targets (request : HttpMessage) (route : HttpRoute) : Prop :=
  request.target = route.path ∨ ∃ query, request.target = route.path ++ chr '?' :: query

/-- The body is empty, or parses to the object with these members. -/
def HttpMessage.BodyIs (json : BoostJson) (request : HttpMessage)
    (members : List (CString × JsonValue)) : Prop :=
  request.body = [] ∧ members = [] ∨
    request.body ≠ [] ∧ json.parse request.body = some (.object members)

/-- The number that a value of one of the two integer kinds stands for. -/
def JsonValue.integer : JsonValue → Option ℤ
  | .int64 n => some n.toInt
  | .uint64 n => some n.toNat
  | _ => none

/-- The session id is absent, or a positive number of 32 bits. -/
def SessionIdOk (members : List (CString × JsonValue)) : Prop :=
  ∀ value, sessionIdValue members = some value →
    ∃ n, value.integer = some n ∧ 1 ≤ n ∧ n ≤ 2 ^ 32 - 1

/-- What was read is what the member says. -/
def SessionIdRead (members : List (CString × JsonValue)) : Option { n : UInt32 // n ≠ 0 } → Prop
  | none => sessionIdValue members = none
  | some id => ∃ value, sessionIdValue members = some value ∧
      value.integer = some (id.val.toNat : ℤ)

section Checks

variable {json : BoostJson} {request : HttpMessage} {route : HttpRoute} {path : CString}
  {members : List (CString × JsonValue)} {value : JsonValue} {n : UInt64}

theorem resolveRoute_eq_some_iff : resolveRoute path = some route ↔ path = route.path := by
  rw [resolveRoute]
  constructor
  · intro h
    split at h
    · rename_i hpath
      exact Option.some.inj h ▸ hpath
    · obtain ⟨hpath, hroute⟩ := Option.ite_none_right_eq_some.mp h
      exact Option.some.inj hroute ▸ hpath
  · rintro rfl
    cases route with
    | register => rfl
    | auth => rfl

/-- The route is found by the path of the target. -/
theorem resolveRoute_extractPath (hpath : extractPath request.target = .ok path) :
    resolveRoute path = some route ↔ request.Targets route := by
  rw [resolveRoute_eq_some_iff, HttpMessage.Targets]
  have hroute : chr '?' ∉ route.path := by cases route <;> decide
  obtain ⟨hnone, htarget, -⟩ | ⟨p, query, hnone, htarget, heq, -⟩ := extract_cases request.target
  · rw [hpath] at htarget
    cases htarget
    refine ⟨.inl, fun h => h.resolve_right ?_⟩
    rintro ⟨query, hquery⟩
    exact hnone (by simp [hquery])
  · rw [hpath] at heq
    cases heq
    rw [htarget]
    constructor
    · rintro rfl
      exact .inr ⟨query, rfl⟩
    · rintro (h | ⟨query', h⟩)
      · exact absurd (by simp [← h]) hroute
      · have hle := prefix_of_not_mem (h ▸ List.prefix_append path _) hnone
        have hge := prefix_of_not_mem (h ▸ List.prefix_append route.path _) hroute
        exact hle.eq_of_length_le hge.length_le

theorem payloadValue_eq_some_iff :
    payloadValue json request.body = some members ↔ request.BodyIs json members := by
  rw [payloadValue, HttpMessage.BodyIs]
  split
  · rename_i hbody
    simp [hbody, eq_comm]
  · rename_i hbody
    split
    · rename_i members' hparse
      simp [hbody, hparse]
    · rename_i hparse
      simpa [hbody] using fun h => hparse members h

/-- The cast to `uint64` does not change a positive number. -/
theorem integer_of_rawSessionId (h : rawSessionId value = some n) :
    value.integer = some (n.toNat : ℤ) := by
  cases value with
  | uint64 k => cases h; rfl
  | int64 k =>
      obtain ⟨hpos, heq⟩ := Option.ite_none_right_eq_some.mp h
      obtain rfl := Option.some.inj heq
      have hle : 0 ≤ k := Int64.le_of_lt hpos
      rw [JsonValue.integer, Int64.toNat_toUInt64_of_le hle, Int64.cast_toNatClampNeg k hle]
  | null | bool | double | string | array | object => cases h

theorem rawSessionId_of_integer {k : ℤ} (h : value.integer = some k) (hk : 1 ≤ k) :
    ∃ n, rawSessionId value = some n := by
  cases value with
  | uint64 n => exact ⟨n, rfl⟩
  | int64 n =>
      obtain rfl := Option.some.inj h
      have hpos : 0 < n := Int64.lt_iff_toInt_lt.mpr (Int.lt_of_lt_of_le (by decide) hk)
      exact ⟨_, if_pos hpos⟩
  | null | bool | double | string | array | object => cases h

/-- A session id that is absent or in range is read, and no other. -/
theorem readSessionId_cases (members : List (CString × JsonValue)) :
    (SessionIdOk members ∧
        ∃ sessionId, readSessionId members = .ok sessionId ∧ SessionIdRead members sessionId) ∨
      (¬ SessionIdOk members ∧ ∃ error, readSessionId members = .error error) := by
  cases hvalue : sessionIdValue members with
  | none =>
      refine .inl ⟨?_, none, ?_, hvalue⟩
      · rintro value h
        rw [hvalue] at h
        cases h
      · rw [readSessionId, hvalue]
  | some value =>
      cases hraw : rawSessionId value with
      | none =>
          refine .inr ⟨fun hok => ?_, "sessionId must be a positive integer", ?_⟩
          · obtain ⟨k, hk, hpos, -⟩ := hok value hvalue
            obtain ⟨n, hn⟩ := rawSessionId_of_integer hk hpos
            rw [hraw] at hn
            cases hn
          · simp only [readSessionId, hvalue, hraw]
      | some n =>
          have hint := integer_of_rawSessionId hraw
          by_cases hrange : n = 0 ∨ 4294967295 < n
          · refine .inr ⟨fun hok => ?_, "sessionId is out of range", ?_⟩
            · obtain ⟨k, hk, hpos, hle⟩ := hok value hvalue
              obtain rfl := Option.some.inj (hint.symm.trans hk)
              obtain rfl | hlt := hrange
              · simp at hpos
              · rw [UInt64.lt_iff_toNat_lt] at hlt
                have : (4294967295 : UInt64).toNat = 4294967295 := rfl
                omega
            · simp only [readSessionId, hvalue, hraw, dif_pos hrange]
          · have hne : n.toNat ≠ 0 := fun hz => hrange (.inl (UInt64.toNat_inj.mp hz))
            have hle : n.toNat ≤ 4294967295 :=
              not_lt.mp fun hlt => hrange (.inr (UInt64.lt_iff_toNat_lt.mpr hlt))
            refine .inl ⟨?_, some ⟨n.toUInt32, toUInt32_ne_zero hrange⟩, ?_, value, hvalue, ?_⟩
            · intro value' hvalue'
              obtain rfl := Option.some.inj (hvalue.symm.trans hvalue')
              exact ⟨_, hint, by omega, by omega⟩
            · simp only [readSessionId, hvalue, hraw, dif_neg hrange]
            · rw [hint, UInt64.toNat_toUInt32, Nat.mod_eq_of_lt (by omega)]

/-- The loop of `GenerateSessionId` ends, with an id. -/
theorem generateSessionId_cases (next : UInt32) :
    ∃ id next', generateSessionId 2 next = .ok (id, next') ∧ id ≠ 0 := by
  by_cases hz : next = 0
  · exact ⟨1, 2, by subst hz; rfl, by decide⟩
  · exact ⟨next, next + 1, by rw [generateSessionId, if_neg hz], hz⟩

end Checks

/-- The body is empty or an object, and its session id is one that is let through. -/
def HttpMessage.ValidBody (json : BoostJson) (request : HttpMessage) : Prop :=
  ∃ members, request.BodyIs json members ∧ SessionIdOk members

/-- The message is the one that the request asks for. -/
structure HttpMessage.Posts (json : BoostJson) (request : HttpMessage) (msg : CMsg) : Prop where
  type : msg.type = .msgInit
  fsmId : msg.fsmId = 0
  service : ∃ route, request.Targets route ∧ msg.serviceId = route.serviceId
  sessionId : ∃ members, request.BodyIs json members ∧
    (sessionIdValue members = none ∧ msg.sessionId ≠ 0 ∨ ∃ value, sessionIdValue members =
      some value ∧ value.integer = some (msg.sessionId.toNat : ℤ))
  payload : request.body = [] ∧ msg.msg = [] ∨ ∃ value, request.body ≠ [] ∧
    json.parse request.body = some value ∧ msg.msg = json.serialize value

/-! ## What a call comes back with -/

section Call

variable {json : BoostJson} {request : HttpMessage} {h : HttpState} {r : ℕ} {req : HttpRequest}
  {msg : CMsg}

theorem HttpMessage.BodyIs.unique {members members' : List (CString × JsonValue)}
    (hb : request.BodyIs json members) (hb' : request.BodyIs json members') :
    members = members' := by
  have hsome := payloadValue_eq_some_iff.mpr hb
  exact Option.some.inj (hsome.symm.trans (payloadValue_eq_some_iff.mpr hb'))

/-- The message of a request that has passed the checks. -/
theorem posts_msg {route : HttpRoute} {members : List (CString × JsonValue)}
    (ht : request.Targets route) (hb : request.BodyIs json members)
    (hread : SessionIdRead members req.sessionId) (hroute : req.route = route)
    (hpayload : req.payload =
      if request.body = [] then [] else json.serialize (.object members)) {id : UInt32}
    (hid : id ≠ 0) : request.Posts json (req.msg id) where
  type := rfl
  fsmId := rfl
  service := ⟨route, ht, congrArg HttpRoute.serviceId hroute⟩
  sessionId := by
    refine ⟨members, hb, ?_⟩
    simp only [HttpRequest.msg]
    cases hsession : req.sessionId with
    | none => exact .inl ⟨by rw [hsession] at hread; exact hread, hid⟩
    | some given => exact .inr (by rw [hsession] at hread; exact hread)
  payload := by
    obtain ⟨hbody, -⟩ | ⟨hbody, hparse⟩ := hb
    · exact .inl ⟨hbody, hpayload.trans (if_pos hbody)⟩
    · exact .inr ⟨_, hbody, hparse, hpayload.trans (if_neg hbody)⟩

/-- A call answers at the first check that fails, without a trace but for the generated id, or
goes on with the message that the request asks for. -/
theorem handleRequest_cases (json : BoostJson) (request : HttpMessage) (h : HttpState) :
    (¬ (∃ route, request.Targets route) ∧ h.handleRequest json request =
        .ok (.answered (.rejected .notFound "not_found" "unknown endpoint"), h)) ∨
      ((∃ route, request.Targets route) ∧ request.method ≠ .post ∧
        h.handleRequest json request = .ok (.answered (.rejected .methodNotAllowed
          "method_not_allowed" "only POST is supported"), h)) ∨
      ((∃ route, request.Targets route) ∧ request.method = .post ∧ ¬ request.ValidBody json ∧
        ∃ next error message, h.handleRequest json request =
          .ok (.answered (.rejected .badRequest error message),
            { h with nextSessionId := next })) ∨
      ((∃ route, request.Targets route) ∧ request.method = .post ∧ request.ValidBody json ∧
        ∃ req id next, generateSessionId 2 h.nextSessionId = .ok (id, next) ∧
          request.Posts json (req.msg id) ∧ h.handleRequest json request =
            .ok (if req.wait then
                { h with nextSessionId := next }.handleSyncRequest h.requests.length req
                  (req.msg id)
              else
                { h with nextSessionId := next }.handleAsyncRequest h.requests.length req
                  (req.msg id))) := by
  obtain ⟨path, query, wait, hpath, hquery, hwait⟩ := extract_ok request.target
  obtain ⟨id, next, hgen, hid⟩ := generateSessionId_cases h.nextSessionId
  have htargets : ∀ route, resolveRoute path = some route ↔ request.Targets route :=
    fun _ => resolveRoute_extractPath hpath
  rw [HttpState.handleRequest, hpath, hquery]
  simp only [bind, Except.bind]
  cases hroute : resolveRoute path with
  | none =>
      refine .inl ⟨?_, rfl⟩
      rintro ⟨route, ht⟩
      rw [(htargets route).mpr ht] at hroute
      cases hroute
  | some route =>
      have ht := (htargets route).mp hroute
      by_cases hmethod : request.method ≠ .post
      · exact .inr (.inl ⟨⟨route, ht⟩, hmethod, by simp only [if_pos hmethod]; rfl⟩)
      simp only [if_neg hmethod]
      rw [not_not] at hmethod
      cases hbody : payloadValue json request.body with
      | none =>
          refine .inr (.inr (.inl ⟨⟨route, ht⟩, hmethod, ?_, h.nextSessionId, _, _, rfl⟩))
          rintro ⟨members, hb, -⟩
          rw [payloadValue_eq_some_iff.mpr hb] at hbody
          cases hbody
      | some members =>
          have hb := payloadValue_eq_some_iff.mp hbody
          simp only [hgen]
          obtain ⟨hok, sessionId, hread, hsession⟩ | ⟨hbad, error, hread⟩ :=
            readSessionId_cases members
          · refine .inr (.inr (.inr ⟨⟨route, ht⟩, hmethod, ⟨members, hb, hok⟩, ?_⟩))
            simp only [hread, hwait]
            let req : HttpRequest := {
              route := route
              wait := wait
              sessionId := sessionId
              payload := if request.body = [] then [] else json.serialize (.object members) }
            exact ⟨req, id, next, rfl, posts_msg ht hb hsession rfl rfl hid, rfl⟩
          · refine .inr (.inr (.inl ⟨⟨route, ht⟩, hmethod, ?_, next, "invalid_session_id", error,
              ?_⟩))
            · rintro ⟨members', hb', hok⟩
              exact hbad (hb.unique hb' ▸ hok)
            · simp only [hread]
              rfl

end Call

/-! ## The registry while the manager refuses -/

/-- The same server over a manager in another state, with another counter. -/
def HttpState.over (h : HttpState) (mgr : CfactoryMgr FsmKind) (next : UInt32) : HttpState :=
  { h with core := { h.core with mgr := mgr }, nextSessionId := next }

section Registry

variable {h : HttpState} {r : ℕ} {req : HttpRequest} {msg : CMsg}

/-- No key stands with an empty vector, every waiter that is listed is alive, and none is listed
under a number that is not in use yet. -/
structure RegistryOk (h : HttpState) : Prop where
  noneEmpty : h.waiters.NoneEmpty
  alive : ∀ key, ∀ x ∈ h.waiters.find key, h.entries.alive x = true
  fresh : ∀ key, h.requests.length ∉ h.waiters.find key

theorem registryOk_of_reachable (hh : httpSystem.Reachable h) : RegistryOk h := by
  obtain ⟨w, hw, hwatches⟩ := watched hh
  have hreg := registryInv_of_reachable hw
  refine ⟨hwatches.waiters ▸ hreg.noneEmpty, fun key x hx => ?_, fun key hx => ?_⟩
  · rw [← hwatches.waiters] at hx
    exact hwatches.entries ▸ hreg.alive_of_listed hx
  · rw [← hwatches.waiters] at hx
    obtain ⟨q, hq, -⟩ := (hreg.listed key _).mp hx
    have hseen := hwatches.requests h.requests.length
    rw [hq, List.getElem?_eq_none (Nat.le_refl _)] at hseen
    cases hseen

/-- The registry does not depend on the manager and the counter. -/
theorem RegistryOk.over (hreg : RegistryOk h) (mgr : CfactoryMgr FsmKind) (next : UInt32) :
    RegistryOk (h.over mgr next) := ⟨hreg.noneEmpty, hreg.alive, hreg.fresh⟩

/-- The registration of a request that is refused is undone. -/
theorem RegistryOk.unregister_register (hreg : RegistryOk h) (key : WaitKey) :
    (h.waiters.register key h.requests.length).unregister
      (h.entries.create h.requests.length).alive key h.requests.length = h.waiters := by
  refine Waiters.unregister_register hreg.noneEmpty (hreg.fresh key) fun x hx => ?_
  have hne : x ≠ h.requests.length := ne_of_mem_of_not_mem hx (hreg.fresh key)
  have halive := hreg.alive key x hx
  rwa [WaitEntries.alive, WaitEntries.create, Function.update_of_ne hne]

/-- The answer of a stopped manager. -/
def managerStopped : HttpResponse :=
  ⟨.serviceUnavailable, .error "service_unavailable" "INVALID_STATE"⟩

/-- What becomes of a request that posts `msg`, by what `SendMsg` answers. -/
def SendOutcome (h : HttpState) (msg : CMsg) (res : HandleOutcome × HttpState) : Prop :=
  h.core.mgr.pump.stopped = false ∧ res.1.accepted ∧ res.2.core.mgr.pump = { h.core.mgr.pump with
      queue := h.core.mgr.pump.queue ++ [⟨msg, .client h.requests.length⟩] } ∨
    h.core.mgr.pump.stopped = true ∧ res.1 = .answered (.response managerStopped) ∧
      res.2.core.mgr.pump = h.core.mgr.pump ∧ res.2.waiters = h.waiters

theorem handleAsyncRequest_outcome :
    SendOutcome h msg (h.handleAsyncRequest h.requests.length req msg) := by
  cases hstop : h.core.mgr.pump.stopped with
  | false =>
      have heq := MsgPorts.sendMsg_of_running hstop ⟨msg, .client h.requests.length⟩
      refine .inl ⟨hstop, ?_⟩
      simp only [HttpState.handleAsyncRequest, HttpState.sendMsg, heq]
      exact ⟨rfl, rfl⟩
  | true =>
      have heq := MsgPorts.sendMsg_of_stopped hstop ⟨msg, .client h.requests.length⟩
      refine .inr ⟨hstop, ?_⟩
      simp only [HttpState.handleAsyncRequest, HttpState.sendMsg, heq]
      exact ⟨rfl, rfl, trivial⟩

/-- A synchronous request that is refused has its registration undone. -/
theorem handleSyncRequest_outcome (hreg : RegistryOk h) :
    SendOutcome h msg (h.handleSyncRequest h.requests.length req msg) := by
  cases hstop : h.core.mgr.pump.stopped with
  | false =>
      have heq := MsgPorts.sendMsg_of_running hstop ⟨msg, .client h.requests.length⟩
      have hret : ¬ EerrNo.success ≠ .success := not_not.mpr rfl
      refine .inl ⟨hstop, ?_⟩
      simp only [HttpState.handleSyncRequest, HttpState.sendMsg, heq, if_neg hret]
      exact ⟨trivial, rfl⟩
  | true =>
      have heq := MsgPorts.sendMsg_of_stopped hstop ⟨msg, .client h.requests.length⟩
      have hret : EerrNo.invalidState ≠ .success := EerrNo.noConfusion
      refine .inr ⟨hstop, ?_⟩
      simp only [HttpState.handleSyncRequest, HttpState.sendMsg, heq, if_pos hret]
      exact ⟨rfl, rfl, hreg.unregister_register msg.waitKey⟩

end Registry

/-! ## Admission -/

/-- The request is one that is let through. -/
def HttpMessage.Admissible (json : BoostJson) (request : HttpMessage) : Prop :=
  (∃ route, request.Targets route) ∧ request.method = .post ∧ request.ValidBody json

open Classical in
/-- The status that a request is refused with, in the order of precedence. -/
noncomputable def HttpMessage.refusalCode (json : BoostJson) (request : HttpMessage) : ℕ :=
  if ¬ ∃ route, request.Targets route then 404
  else if request.method ≠ .post then 405
  else if ¬ request.ValidBody json then 400
  else 503

/-- A call posts the message of the request, or refuses the request. -/
theorem handleRequest_outcome {h : HttpState} (hreg : RegistryOk h) (json : BoostJson)
    (request : HttpMessage) :
    ∃ outcome h', h.handleRequest json request = .ok (outcome, h') ∧
      ((request.Admissible json ∧ h.core.mgr.pump.stopped = false) ∧ outcome.accepted ∧
          (∃ msg, request.Posts json msg ∧ h'.core.mgr.pump = { h.core.mgr.pump with
            queue := h.core.mgr.pump.queue ++ [⟨msg, .client h.requests.length⟩] }) ∨
        ¬ (request.Admissible json ∧ h.core.mgr.pump.stopped = false) ∧
          (∃ answer, outcome = .answered answer ∧ answer.code = request.refusalCode json) ∧
          h'.core.mgr.pump = h.core.mgr.pump ∧ h'.waiters = h.waiters) := by
  obtain ⟨hroute, heq⟩ | ⟨hroute, hmethod, heq⟩ | ⟨hroute, hmethod, hbody, next, error, message,
    heq⟩ | ⟨hroute, hmethod, hbody, req, id, next, -, hposts, heq⟩ :=
    handleRequest_cases json request h
  · refine ⟨_, _, heq, .inr ⟨fun hadm => hroute hadm.1.1, ⟨_, rfl, ?_⟩, rfl, rfl⟩⟩
    exact (if_pos hroute).symm
  · refine ⟨_, _, heq, .inr ⟨fun hadm => hmethod hadm.1.2.1, ⟨_, rfl, ?_⟩, rfl, rfl⟩⟩
    simp [HttpMessage.refusalCode, hroute, hmethod, HttpAnswer.code]
  · refine ⟨_, _, heq, .inr ⟨fun hadm => hbody hadm.1.2.2, ⟨_, rfl, ?_⟩, rfl, rfl⟩⟩
    simp [HttpMessage.refusalCode, hroute, hmethod, hbody, HttpAnswer.code]
  · have hadm : request.Admissible json := ⟨hroute, hmethod, hbody⟩
    have hcode : request.refusalCode json = 503 := by
      simp [HttpMessage.refusalCode, hroute, hmethod, hbody]
    obtain ⟨res, hres, hsent⟩ : ∃ res, h.handleRequest json request = .ok res ∧
        SendOutcome h (req.msg id) res := by
      cases hwait : req.wait with
      | true =>
          rw [hwait, if_pos rfl] at heq
          exact ⟨_, heq, handleSyncRequest_outcome (hreg.over h.core.mgr next)⟩
      | false =>
          rw [hwait, if_neg Bool.false_ne_true] at heq
          exact ⟨_, heq, handleAsyncRequest_outcome (h := { h with nextSessionId := next })⟩
    refine ⟨res.1, res.2, hres, ?_⟩
    obtain ⟨hrun, haccepted, hpump⟩ | ⟨hstop, hanswer, hsame⟩ := hsent
    · exact .inl ⟨⟨hadm, hrun⟩, haccepted, _, hposts, hpump⟩
    · refine .inr ⟨fun hadm => ?_, ⟨_, hanswer, hcode.symm⟩, hsame⟩
      rw [hadm.2] at hstop
      cases hstop

/-- **Admission.** Whatever the request, the manager and the counter, the call posts exactly one
message if and only if the request is admissible and the manager is not stopped. The message is
the one that the request asks for. In every other case the call answers with the first status
that applies, and leaves the pump and the waiters as they were. After its wait a synchronous
request posts nothing more. -/
theorem http_admission {h : HttpState} (hh : httpSystem.Reachable h) (json : BoostJson)
    (request : HttpMessage) (mgr : CfactoryMgr FsmKind) (next : UInt32) :
    ∃ outcome h', (h.over mgr next).handleRequest json request = .ok (outcome, h') ∧
      ((∃ m, h'.core.mgr.pump = { mgr.pump with queue := mgr.pump.queue ++ [m] }) ↔
        request.Admissible json ∧ mgr.pump.stopped = false) ∧
      (∀ m, h'.core.mgr.pump = { mgr.pump with queue := mgr.pump.queue ++ [m] } →
        request.Posts json m.msg ∧ outcome.accepted) ∧
      (¬ (request.Admissible json ∧ mgr.pump.stopped = false) →
        ∃ answer, outcome = .answered answer ∧ answer.code = request.refusalCode json ∧
          h'.core.mgr.pump = mgr.pump ∧ h'.waiters = h.waiters) ∧
      ∀ (k : HttpState) r req msg, (k.finishSyncRequest r req msg).2.core = k.core := by
  have hreg : RegistryOk (h.over mgr next) := (registryOk_of_reachable hh).over mgr next
  obtain ⟨outcome, h', heq, ⟨hadm, haccepted, msg, hposts, hpump⟩ |
    ⟨hadm, hanswer, hpump, hsame⟩⟩ := handleRequest_outcome hreg json request
  · refine ⟨outcome, h', heq, iff_of_true ⟨_, hpump⟩ hadm, fun m hm => ?_,
      fun hno => absurd hadm hno, fun _ _ _ _ => rfl⟩
    have hqueue := congrArg Pump.queue (hpump.symm.trans hm)
    obtain ⟨-, hmsg⟩ := List.append_inj hqueue rfl
    obtain rfl := List.singleton_inj.mp hmsg
    exact ⟨hposts, haccepted⟩
  · have hnone : ∀ m, h'.core.mgr.pump ≠ { mgr.pump with queue := mgr.pump.queue ++ [m] } := by
      intro m hm
      have hlen := congrArg (fun p => p.queue.length) (hpump.symm.trans hm)
      simp [HttpState.over] at hlen
    obtain ⟨answer, houtcome, hcode⟩ := hanswer
    refine ⟨outcome, h', heq, iff_of_false ?_ hadm, fun m hm => absurd hm (hnone m),
      fun _ => ⟨answer, houtcome, hcode, hpump, hsame⟩, fun _ _ _ _ => rfl⟩
    rintro ⟨m, hm⟩
    exact hnone m hm

/-- A synchronous registration that asks for session 123, and a parser that knows its body. -/
def registerMessage : HttpMessage where
  method := .post
  target := lit "/api/v1/register?wait=true"
  body := lit "\x7b\"sessionId\":123\x7d"

def oneObjectJson : BoostJson where
  parse s :=
    if s = registerMessage.body then some (.object [(lit "sessionId", .int64 123)]) else none
  serialize _ := registerMessage.body

theorem http_admission_register : ∃ outcome h' m,
    ({ core := .resting .boot [], nextSessionId := 1 } : HttpState).handleRequest oneObjectJson
        registerMessage = .ok (outcome, h') ∧ outcome.accepted ∧
      h'.core.mgr.pump.queue = [m] ∧ registerMessage.Posts oneObjectJson m.msg := by
  have hh : httpSystem.Reachable { core := .resting .boot [], nextSessionId := 1 } :=
    .of_init ⟨1, rfl⟩
  have hadm : registerMessage.Admissible oneObjectJson := by
    have hparse : oneObjectJson.parse registerMessage.body =
        some (.object [(lit "sessionId", .int64 123)]) := by
      simp [oneObjectJson]
    refine ⟨⟨.register, .inr ⟨lit "wait=true", rfl⟩⟩, rfl, _, .inr ⟨by decide, hparse⟩, ?_⟩
    rintro value hvalue
    obtain rfl : .int64 123 = value := Option.some.inj hvalue
    exact ⟨123, rfl, by decide, by decide⟩
  obtain ⟨outcome, h', heq, hiff, hposts, -⟩ :=
    http_admission hh oneObjectJson registerMessage .boot 1
  obtain ⟨m, hpump⟩ := hiff.mpr ⟨hadm, rfl⟩
  obtain ⟨hmsg, haccepted⟩ := hposts m hpump
  exact ⟨outcome, h', m, heq, haccepted, congrArg Pump.queue hpump, hmsg⟩

/-! ## The threads of the server -/

namespace HttpState

/-- The server with one more request. -/
def append (h : HttpState) (th : HttpThread) : HttpState :=
  { h with requests := h.requests ++ [th] }

/-- Where the thread of a request stands when the call has come to this. -/
def Stands : HandleOutcome → HttpPc → Prop
  | .waiting _ msg, pc => pc = .waitFor msg
  | .answered (.response response), pc => ∃ msg, pc = .answered msg response
  | .answered (.rejected ..), _ => False

variable {h h' : HttpState} {th : HttpThread} {req : HttpRequest} {msg : CMsg} {id next : UInt32}

theorem step_append :
    (h.append th).step (.handle h.requests.length) =
      (h.append th).stepHandle h.requests.length th := by
  simp [step, append]

theorem goto_append {pc : HttpPc} :
    (h.append th).goto h.requests.length th pc = h.append { th with pc := pc } := by
  simp [goto, append]

/-- The thread of the last request takes a step. -/
theorem run_append {th' : HttpThread}
    (hs : (h.append th).stepHandle h.requests.length th = some (h'.append th')) :
    httpSystem.RunVia Lts.anyStep (h.append th) (h'.append th') :=
  .single trivial (a := .handle h.requests.length) (step_append.trans hs)

/-- The thread's first step, where the counter is not zero. -/
theorem run_fetchAdd (hz : h.nextSessionId ≠ 0) :
    httpSystem.RunVia Lts.anyStep (h.append { request := req })
      ({ h with nextSessionId := h.nextSessionId + 1 }.append {
        request := req
        pc := if req.wait then .registerWaiter (req.msg h.nextSessionId)
          else .sendMsg (req.msg h.nextSessionId) }) := by
  refine run_append ?_
  simp only [stepHandle]
  rw [if_neg (show ¬ (h.append { request := req }).nextSessionId = 0 from hz)]
  exact congrArg some (goto_append (h := { h with nextSessionId := h.nextSessionId + 1 }))

/-- `GenerateSessionId`, and the choice of the path. -/
theorem run_generateSessionId (req : HttpRequest)
    (hgen : generateSessionId 2 h.nextSessionId = .ok (id, next)) :
    httpSystem.RunVia Lts.anyStep (h.append { request := req })
      ({ h with nextSessionId := next }.append {
        request := req
        pc := if req.wait then .registerWaiter (req.msg id) else .sendMsg (req.msg id) }) := by
  by_cases hz : h.nextSessionId = 0
  · rw [hz] at hgen
    obtain ⟨rfl, rfl⟩ : (1 : UInt32) = id ∧ (2 : UInt32) = next := by
      simpa [generateSessionId] using hgen
    have hretry : httpSystem.RunVia Lts.anyStep (h.append { request := req })
        ({ h with nextSessionId := 1 }.append { request := req }) := by
      refine run_append ?_
      simp [stepHandle, append, hz]
    have hone : (1 : UInt32) ≠ 0 := by decide
    exact hretry.trans (run_fetchAdd (h := { h with nextSessionId := 1 }) hone)
  · obtain ⟨rfl, rfl⟩ : h.nextSessionId = id ∧ h.nextSessionId + 1 = next := by
      simpa [generateSessionId, hz] using hgen
    exact run_fetchAdd hz

/-- An asynchronous request. -/
theorem run_handleAsyncRequest (req : HttpRequest) (msg : CMsg) :
    httpSystem.RunVia Lts.anyStep (h.append { request := req, pc := .sendMsg msg })
      ((h.handleAsyncRequest h.requests.length req msg).2.append {
        request := req
        pc := .answered msg (asyncResponse req msg (h.sendMsg h.requests.length msg).1) }) :=
  run_append (congrArg some (goto_append (h := (h.sendMsg h.requests.length msg).2)))

/-- A synchronous request, up to its wait or to the answer that the manager is stopped. -/
theorem run_handleSyncRequest (req : HttpRequest) (msg : CMsg) :
    ∃ th', httpSystem.RunVia Lts.anyStep (h.append { request := req, pc := .registerWaiter msg })
      ((h.handleSyncRequest h.requests.length req msg).2.append th') ∧
      Stands (h.handleSyncRequest h.requests.length req msg).1 th'.pc := by
  let k : HttpState := { h with
    waiters := h.waiters.register msg.waitKey h.requests.length
    entries := h.entries.create h.requests.length }
  let r := h.requests.length
  let th : HttpThread := {
    request := req, pc := .syncSendMsg msg, registered := some h.core.events }
  have hregister : httpSystem.RunVia Lts.anyStep
      (h.append { request := req, pc := .registerWaiter msg }) (k.append th) :=
    run_append (by simp [stepHandle, append, k, th])
  let sent := (k.sendMsg r msg).2
  have hsent : httpSystem.RunVia Lts.anyStep (k.append th) (sent.append { th with
      pc := if (k.sendMsg r msg).1 ≠ .success
        then .unregisterWaiter msg (.refused (k.sendMsg r msg).1) else .waitFor msg }) :=
    run_append (h := k) (congrArg some (goto_append (h := sent)))
  by_cases hsend : (k.sendMsg r msg).1 = .success
  · have heq : h.handleSyncRequest r req msg = (.waiting req msg, sent) :=
      if_neg (not_not.mpr hsend)
    rw [if_neg (not_not.mpr hsend)] at hsent
    rw [heq]
    exact ⟨_, hregister.trans hsent, rfl⟩
  · let outcome : WaitOutcome := .refused (k.sendMsg r msg).1
    let unregistered : HttpState := { sent with
      waiters := sent.waiters.unregister sent.entries.alive msg.waitKey r }
    let returned : HttpState := { unregistered with
      entries := unregistered.entries.release [r] }
    have heq : h.handleSyncRequest r req msg =
        (.answered (.response (syncResponse req outcome)), returned) := if_pos hsend
    rw [if_pos hsend] at hsent
    have hunregister : httpSystem.RunVia Lts.anyStep
        (sent.append { th with pc := .unregisterWaiter msg outcome })
        (unregistered.append { th with pc := .returning msg outcome }) :=
      run_append (h := sent) (congrArg some (goto_append (h := unregistered)))
    have hreturn : httpSystem.RunVia Lts.anyStep
        (unregistered.append { th with pc := .returning msg outcome })
        (returned.append { th with pc := .answered msg (syncResponse req outcome) }) :=
      run_append (h := unregistered) (congrArg some (goto_append (h := returned)))
    rw [heq]
    exact ⟨_, ((hregister.trans hsent).trans hunregister).trans hreturn, msg, rfl⟩

/-- What one call does, the threads of the server can do step by step: the state is the same, with
the request and its thread beside it. Requests that are rejected have no thread. -/
theorem handleRequest_run {json : BoostJson} {request : HttpMessage} {outcome : HandleOutcome}
    (haccepting : h.stop.accepting = true)
    (hres : h.handleRequest json request = .ok (outcome, h')) :
    (∃ status error message next, outcome = .answered (.rejected status error message) ∧
        h' = { h with nextSessionId := next }) ∨
      ∃ th, httpSystem.RunVia Lts.anyStep h (h'.append th) ∧ Stands outcome th.pc := by
  obtain ⟨-, heq⟩ | ⟨-, -, heq⟩ | ⟨-, -, -, next, error, message, heq⟩ |
    ⟨-, -, -, req, id, next, hgen, -, heq⟩ := handleRequest_cases json request h
  · obtain ⟨rfl, rfl⟩ := Prod.mk.inj (Except.ok.inj (heq.symm.trans hres))
    exact .inl ⟨_, _, _, h.nextSessionId, rfl, rfl⟩
  · obtain ⟨rfl, rfl⟩ := Prod.mk.inj (Except.ok.inj (heq.symm.trans hres))
    exact .inl ⟨_, _, _, h.nextSessionId, rfl, rfl⟩
  · obtain ⟨rfl, rfl⟩ := Prod.mk.inj (Except.ok.inj (heq.symm.trans hres))
    exact .inl ⟨_, _, _, next, rfl, rfl⟩
  · have harrive : httpSystem.RunVia Lts.anyStep h (h.append { request := req }) :=
      .single trivial (a := .request req) (if_pos haccepting)
    have hgenerate := harrive.trans (run_generateSessionId req hgen)
    have hcall := Except.ok.inj (heq.symm.trans hres)
    refine .inr ?_
    cases hwait : req.wait with
    | true =>
        simp only [hwait, if_true] at hgenerate hcall
        obtain ⟨th, hrun, hstands⟩ :=
          run_handleSyncRequest (h := { h with nextSessionId := next }) req (req.msg id)
        rw [hcall] at hrun hstands
        exact ⟨th, hgenerate.trans hrun, hstands⟩
    | false =>
        simp only [hwait, Bool.false_eq_true, if_false] at hgenerate hcall
        have hrun :=
          run_handleAsyncRequest (h := { h with nextSessionId := next }) req (req.msg id)
        obtain ⟨rfl, rfl⟩ := Prod.mk.inj hcall
        exact ⟨_, hgenerate.trans hrun, _, rfl⟩

end HttpState

end FsmFramework
