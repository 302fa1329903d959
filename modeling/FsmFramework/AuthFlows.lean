import FsmFramework.SeqRuns
import FsmFramework.ServedRuns

/-!
# Authentication flows, one after the other

One message on its way at a time, beside timers that sleep: a flow from its `MSG_INIT` to its
timer, and from its timer to its `MSG_CLOSE`, whatever other instances are in the list.

## Main results

* `AuthAt.start` — a flow comes to its timer.
* `AuthAt.finish` — a flow comes from its timer to its end.
-/

namespace FsmFramework

/-- A message of an authentication flow. -/
def authMsg (sessionId fsmId : UInt32) (type : MsgType) : CMsg where
  type := type
  serviceId := facAuthFacId
  fsmId := fsmId
  sessionId := sessionId

/-- Between dispatches: the queue, and what `AuthFactory` has created and lists. -/
structure AuthAt (a : SeqState FsmKind) (queue : List PumpMsg) (fsmList : List Cfsm) (n : ℕ) :
    Prop where
  working : AllWorking a.mgr
  accepting : a.mgr.pump.stopped = false
  queue : a.mgr.pump.queue = queue
  factory : ∃ fac, a.mgr.findFactory facAuthFacId = some fac ∧ fac.kind = .auth ∧
    fac.created = n ∧ fac.fsmList = fsmList

/-- The instance that is created after `n` others, once it has started. -/
def startedFsm (n : ℕ) : Cfsm := ⟨n, fsmIdOf n, .working⟩

/-- A list of instances leads from an id to an instance. -/
def RoutesTo (fsmList : List Cfsm) (fsmId : UInt32) (x : Cfsm) : Prop :=
  fsmId ≠ 0 ∧ KeyedList.lookup Cfsm.fsmId fsmId fsmList = some x

variable {a a' : SeqState FsmKind} {key : WaitKey} {pm : PumpMsg} {rest : List PumpMsg}
  {fsmList : List Cfsm} {n : ℕ} {sessionId fsmId : UInt32} {sender : Sender} {x : Cfsm}
  {r : DispatchResult FsmKind}

theorem RoutesTo.route {fac : Cfactory FsmKind} (hx : RoutesTo fac.fsmList fsmId x) :
    fac.route fsmId = some x := by
  rw [Cfactory.route, if_pos hx.1]
  exact hx.2

/-- The follow-ups of a message of a flow are messages of the flow. -/
theorem RoutesTo.nextMsg {type : MsgType} (hx : RoutesTo fsmList fsmId x) (next : MsgType) :
    nextMsg x (authMsg sessionId fsmId type) next = authMsg sessionId fsmId next := by
  have hid : x.fsmId = fsmId := KeyedList.key_of_lookup hx.2
  simp [FsmFramework.nextMsg, authMsg, hid]

/-- The timer that was started last sleeps, with this message. -/
def LastTimer (a : SeqState FsmKind) (pm : PumpMsg) : Prop :=
  ∃ timers t, a.mgr.timers.timerList = timers ++ [t] ∧ t.phase = .sleeping ∧ t.active = true ∧
    t.timeoutMsg = pm

/-- Events are never taken back. -/
theorem seq_events {G : SeqState FsmKind → SeqLabel → Prop}
    (hrun : (seqSystem .boot).RunVia G a a') : a.events <+: a'.events := by
  refine hrun.invariant (I := fun b => a.events <+: b.events) ?step List.prefix_rfl
  case step =>
    intro b l b' ih _ hs
    refine ih.trans ?_
    cases l with
    | env l =>
        obtain ⟨p, -, rfl⟩ := SeqState.step_env_iff.mp hs
        exact List.prefix_rfl
    | dispatch =>
        obtain ⟨pm, p, -, rfl⟩ := SeqState.step_dispatch_iff.mp hs
        exact List.prefix_append _ _

/-- A dispatch whose completions have the key. -/
theorem quietly_dispatch (hs : a.step .dispatch = some ⟨r.mgr, a.events ++ r.events⟩)
    (hkey : ∀ inst event, .completed inst event ∈ r.events → event.waitKey = key) :
    (seqSystem .boot).RunVia (quietly key) a ⟨r.mgr, a.events ++ r.events⟩ := by
  refine Lts.RunVia.single (a := .dispatch) ⟨nofun, fun a' ev hs' hev => ?_⟩ hs
  obtain rfl := Option.some.inj (hs.symm.trans hs')
  obtain rfl := List.append_cancel_left hev
  exact hkey

/-- A step of a timer thread. -/
theorem quietly_timer {l : EnvLabel} {k : ℕ} {p : MsgPorts}
    (hl : l = .timerWake k ∨ l = .timerPost k) (hp : a.mgr.env l = some p) :
    (seqSystem .boot).RunVia (quietly key) a ⟨a.mgr.withPorts p, a.events⟩ := by
  have hs : a.step (.env l) = some ⟨a.mgr.withPorts p, a.events⟩ :=
    SeqState.step_env_iff.mpr ⟨p, hp, rfl⟩
  refine Lts.RunVia.single (a := .env l) ⟨?_, fun a' ev hs' hev => ?_⟩ hs
  · intro e he
    obtain rfl := SeqLabel.env.inj he
    exact ⟨k, hl⟩
  · obtain rfl := Option.some.inj (hs.symm.trans hs')
    obtain rfl : ev = [] := by simpa using hev
    simp

namespace AuthAt

/-- The front message is dispatched. -/
theorem dispatch (h : AuthAt a (pm :: rest) fsmList n) : ∃ p r,
    Dispatched (a.mgr.withPorts p) pm r ∧
      a.step .dispatch = some ⟨r.mgr, a.events ++ r.events⟩ ∧ p.pump.queue = rest ∧
      p.pump.stopped = false := by
  obtain ⟨mgr, ev⟩ := a
  let p : MsgPorts := { mgr.toMsgPorts with pump := { mgr.pump with queue := rest } }
  have hunpop : mgr.toMsgPorts = p.unpop pm := by
    have hq : mgr.pump.queue = pm :: rest := h.queue
    simp [MsgPorts.unpop, Pump.unpop, p, ← hq]
  exact ⟨p, _, dispatched_dispatchMsg (m := mgr.withPorts p) h.working pm,
    SeqState.step_dispatch_iff.mpr ⟨pm, p, hunpop, rfl⟩, rfl, h.accepting⟩

/-- `MSG_INIT` creates an instance, which posts its first follow-up. -/
theorem init (key : WaitKey) (h : AuthAt a [⟨authMsg sessionId 0 .msgInit, sender⟩] fsmList n)
    (hlen : fsmList.length < fsmNumInFac) :
    ∃ a', (seqSystem .boot).RunVia (quietly key) a a' ∧
      AuthAt a' [⟨authMsg sessionId (fsmIdOf n) .msgConnect, .fsm facAuthFacId n⟩]
        (fsmList ++ [startedFsm n]) (n + 1) ∧
      .created facAuthFacId n (fsmIdOf n) ⟨authMsg sessionId 0 .msgInit, sender⟩ ∈ a'.events := by
  obtain ⟨p, r, hd, hs, hqueue, hacc⟩ := h.dispatch
  obtain ⟨fac, hfac, hkind, hcreated, hlist⟩ := h.factory
  have hworking : AllWorking r.mgr := allWorking_dispatched (m := a.mgr.withPorts p) h.working hd
  cases hd with
  | rejected hret hwhy =>
      have hfull := Cfactory.addFsm_eq_none_iff.mp ((hwhy fac hfac).2 rfl).2
      rw [hlist] at hfull
      omega
  | @created fac₀ fac' fsm ret p' hfac' hroute htype hadd hpost =>
      obtain rfl := Option.some.inj (hfac.symm.trans hfac')
      obtain ⟨rfl, hid, hkind', -, hcreated', hlist'⟩ := Cfactory.addFsm_some hadd
      have hfacId := CfactoryMgr.findFactory_facId hfac
      have hports : p.sendMsg ⟨authMsg sessionId fac.nextFsmId .msgConnect,
          .fsm facAuthFacId fac.created⟩ = (ret, p') := hfacId ▸ hpost
      rw [MsgPorts.sendMsg_of_running hacc, hqueue, fac.nextFsmId_eq, hcreated] at hports
      obtain ⟨rfl, rfl⟩ := Prod.mk.inj hports
      refine ⟨_, quietly_dispatch hs (by simp [handedEvents]), ⟨hworking, hacc, rfl, ?factory⟩, ?_⟩
      case factory =>
        refine ⟨fac'.setState fac.created .working, ?_, hkind'.trans hkind,
          hcreated'.trans (congrArg (· + 1) hcreated), ?_⟩
        · exact CfactoryMgr.findFactory_setFactory hfac (hid.trans hfacId)
        · have hold : KeyedList.modify Cfsm.inst fac.created
              (fun fsm => { fsm with state := .working }) fac.fsmList = fac.fsmList :=
            KeyedList.modify_eq_self fun x hx hk => absurd hk (fac.inst_lt x hx).ne
          show KeyedList.modify _ _ _ fac'.fsmList = _
          rw [KeyedList.modify] at hold ⊢
          rw [hlist', List.map_append, hold, hlist]
          simp [fac.nextFsmId_eq, hcreated, startedFsm]
      · refine List.mem_append_right _ ?_
        rw [hfacId, fac.nextFsmId_eq, hcreated]
        exact List.mem_cons_self
  | ignored hfac' hroute | wentOn hfac' hroute | closed hfac' hroute =>
      exact absurd rfl (Cfactory.mem_of_route hroute).2.2

/-- A message that names no instance, and is no `MSG_INIT`, is rejected. -/
theorem reject (key : WaitKey)
    (h : AuthAt a [⟨authMsg sessionId 0 .msgConnect, sender⟩] fsmList n) :
    ∃ a', (seqSystem .boot).RunVia (quietly key) a a' ∧ AuthAt a' [] fsmList n := by
  obtain ⟨p, r, hd, hs, hqueue, hacc⟩ := h.dispatch
  cases hd with
  | rejected =>
      exact ⟨_, quietly_dispatch hs (by simp), h.working, hacc, hqueue, h.factory⟩
  | created _ _ htype => cases htype
  | ignored hfac' hroute | wentOn hfac' hroute | closed hfac' hroute =>
      exact absurd rfl (Cfactory.mem_of_route hroute).2.2

/-- A message with a rule is handed to the instance that it names, which posts the follow-up. -/
theorem goOn (key : WaitKey) {type : MsgType} {tr : FsmTransition FsmAction}
    (h : AuthAt a [⟨authMsg sessionId fsmId type, sender⟩] fsmList n)
    (hx : RoutesTo fsmList fsmId x) (hrule : FsmKind.auth.rule .working type = some tr)
    (hclose : type ≠ .msgClose) : ∃ ev p,
      (seqSystem .boot).RunVia (quietly key) a ⟨a.mgr.withPorts
        (postNextEvent facAuthFacId tr (authMsg sessionId fsmId type) x p).2, ev⟩ ∧
      p.pump.queue = [] ∧ p.pump.stopped = false := by
  obtain ⟨p, r, hd, hs, hqueue, hacc⟩ := h.dispatch
  obtain ⟨fac, hfac, hkind, -, rfl⟩ := h.factory
  have hroute := hx.route
  have hid : x.fsmId = fsmId := (Cfactory.mem_of_route hroute).2.1
  cases hd with
  | rejected hret hwhy => exact absurd (hroute.symm.trans (hwhy fac hfac).1) nofun
  | created hfac' hnone =>
      obtain rfl := Option.some.inj (hfac.symm.trans hfac')
      exact absurd (hroute.symm.trans hnone) nofun
  | ignored hfac' _ hnone =>
      obtain rfl := Option.some.inj (hfac.symm.trans hfac')
      rw [hkind] at hnone
      exact absurd (hrule.symm.trans hnone) nofun
  | @wentOn _ fsm tr' ret p' hfac' hroute' hrule' _ hpost =>
      obtain rfl := Option.some.inj (hfac.symm.trans hfac')
      obtain rfl := Option.some.inj (hroute.symm.trans hroute')
      rw [hkind] at hrule'
      obtain rfl := Option.some.inj (hrule.symm.trans hrule')
      have hhanded : (handedTo x ⟨authMsg sessionId fsmId type, sender⟩).msg =
          authMsg sessionId fsmId type := by simp [handedTo, authMsg, hid]
      rw [CfactoryMgr.findFactory_facId hfac, hhanded] at hpost
      have hports : (postNextEvent facAuthFacId tr (authMsg sessionId fsmId type) x p).2 = p' :=
        congrArg Prod.snd hpost
      exact ⟨_, p, hports ▸ quietly_dispatch hs (by simp [handedEvents]), hqueue, hacc⟩
  | closed _ _ htype => exact absurd htype hclose

/-- `MSG_CLOSE` ends the instance that it names. -/
theorem close (h : AuthAt a [⟨authMsg sessionId fsmId .msgClose, sender⟩] fsmList n)
    (hx : RoutesTo fsmList fsmId x) : ∃ a',
      (seqSystem .boot).RunVia (quietly ⟨facAuthFacId, sessionId⟩) a a' ∧
      AuthAt a' [] (fsmList.filter fun y => y.inst ≠ x.inst) n ∧
      .completed x.inst ⟨facAuthFacId, fsmId, sessionId, .success, .msgClose⟩ ∈ a'.events := by
  obtain ⟨p, r, hd, hs, hqueue, hacc⟩ := h.dispatch
  obtain ⟨fac, hfac, hkind, hcreated, rfl⟩ := h.factory
  have hroute := hx.route
  have hid : x.fsmId = fsmId := (Cfactory.mem_of_route hroute).2.1
  have hworking : AllWorking r.mgr := allWorking_dispatched (m := a.mgr.withPorts p) h.working hd
  cases hd with
  | rejected hret hwhy => exact absurd (hroute.symm.trans (hwhy fac hfac).1) nofun
  | created hfac' hnone =>
      obtain rfl := Option.some.inj (hfac.symm.trans hfac')
      exact absurd (hroute.symm.trans hnone) nofun
  | ignored _ _ hnone =>
      obtain ⟨tr, htr⟩ := FsmKind.rule_working_close ‹Cfactory FsmKind›.kind
      exact absurd (htr.symm.trans hnone) nofun
  | wentOn _ _ _ hclose => exact absurd rfl hclose
  | @closed _ fsm hfac' hroute' htype =>
      obtain rfl := Option.some.inj (hfac.symm.trans hfac')
      obtain rfl := Option.some.inj (hroute.symm.trans hroute')
      have hfacId := CfactoryMgr.findFactory_facId hfac
      obtain ⟨-, hid', hkind', -, hcreated', hlist⟩ :=
        Cfactory.killFsm_of_some (Cfactory.findFsm_self_of_route hroute)
      have hevent : CfactoryMgr.completionEvent fac.facId x.fsmId
          (authMsg sessionId fsmId .msgClose) .success =
            ⟨facAuthFacId, fsmId, sessionId, .success, .msgClose⟩ := by
        simp [CfactoryMgr.completionEvent, authMsg, hfacId, hid]
      refine ⟨_, quietly_dispatch hs ?key, ⟨hworking, hacc, hqueue, _,
        CfactoryMgr.findFactory_setFactory hfac (hid'.trans hfacId), hkind'.trans hkind,
        hcreated'.trans hcreated, hlist⟩, ?completed⟩
      case key =>
        intro inst event he
        obtain ⟨-, rfl⟩ : inst = x.inst ∧ event = _ := by simpa [handedEvents] using he
        rw [hevent]
        rfl
      case completed => exact List.mem_append_right _ (by simp [hevent])

/-- The ports change, and the factories stay. -/
theorem withPorts (h : AuthAt a rest fsmList n) {p : MsgPorts} {queue : List PumpMsg}
    {ev : List Event} (hqueue : p.pump.queue = queue) (hacc : p.pump.stopped = false) :
    AuthAt ⟨a.mgr.withPorts p, ev⟩ queue fsmList n :=
  ⟨h.working, hacc, hqueue, h.factory⟩

/-- A message whose rule has no delay is followed by the next one. -/
theorem post (key : WaitKey) {type : MsgType} {tr : FsmTransition FsmAction}
    (h : AuthAt a [⟨authMsg sessionId fsmId type, sender⟩] fsmList n)
    (hx : RoutesTo fsmList fsmId x) (hrule : FsmKind.auth.rule .working type = some tr)
    (hclose : type ≠ .msgClose) (hdelay : tr.delayMs = 0) : ∃ a' sender',
      (seqSystem .boot).RunVia (quietly key) a a' ∧
      AuthAt a' [⟨authMsg sessionId fsmId tr.nextEvent, sender'⟩] fsmList n := by
  obtain ⟨ev, p, hrun, hqueue, hacc⟩ := h.goOn key hx hrule hclose
  refine ⟨_, .fsm facAuthFacId x.inst, hrun, h.withPorts ?_ ?_⟩
  · simp [postNextEvent, hdelay, MsgPorts.sendMsg_of_running hacc, hqueue, hx.nextMsg]
  · simp [postNextEvent, hdelay, MsgPorts.sendMsg_of_running hacc, hacc]

/-- A message whose rule has a delay starts a timer with the next one. -/
theorem delay (key : WaitKey) {type : MsgType} {tr : FsmTransition FsmAction}
    (h : AuthAt a [⟨authMsg sessionId fsmId type, sender⟩] fsmList n)
    (hx : RoutesTo fsmList fsmId x) (hrule : FsmKind.auth.rule .working type = some tr)
    (hclose : type ≠ .msgClose) (hdelay : tr.delayMs ≠ 0) : ∃ a' sender',
      (seqSystem .boot).RunVia (quietly key) a a' ∧ AuthAt a' [] fsmList n ∧
      LastTimer a' ⟨authMsg sessionId fsmId tr.nextEvent, sender'⟩ := by
  obtain ⟨ev, p, hrun, hqueue, hacc⟩ := h.goOn key hx hrule hclose
  refine ⟨_, .fsm facAuthFacId x.inst, hrun, h.withPorts ?_ ?_, p.timers.timerList,
    ⟨p.timers.nextTimerId, true, tr.delayMs,
      ⟨authMsg sessionId fsmId tr.nextEvent, .fsm facAuthFacId x.inst⟩, .sleeping⟩,
    ?_, rfl, rfl, rfl⟩
  · simp [postNextEvent, hdelay, MsgPorts.startTimer, hqueue]
  · simp [postNextEvent, hdelay, MsgPorts.startTimer, hacc]
  · simp [postNextEvent, hdelay, MsgPorts.startTimer, TimerManager.startTimer, hx.nextMsg]

/-- The timer that was started last fires. -/
theorem fire (key : WaitKey) (h : AuthAt a [] fsmList n) (ht : LastTimer a pm) : ∃ a',
    (seqSystem .boot).RunVia (quietly key) a a' ∧ AuthAt a' [pm] fsmList n := by
  obtain ⟨timers, t, hlist, hphase, hactive, rfl⟩ := ht
  obtain ⟨mgr, ev⟩ := a
  have hlist : mgr.timers.timerList = timers ++ [t] := hlist
  let p : MsgPorts :=
    { mgr.toMsgPorts with timers := mgr.timers.setPhase timers.length t .expired }
  let q : MsgPorts :=
    { p with timers := p.timers.setPhase timers.length { t with phase := .expired } .finished }
  have hwake : mgr.toMsgPorts.env (.timerWake timers.length) = some p := by
    simp [MsgPorts.env, TimerManager.wake, hlist, hphase, hactive, p]
  have hpost : p.env (.timerPost timers.length) = some (q.sendMsg t.timeoutMsg).2 := by
    simp [MsgPorts.env, TimerManager.expire, hlist, p, q, TimerManager.setPhase]
  have hacc : q.pump.stopped = false := h.accepting
  have hqueue : q.pump.queue = [] := h.queue
  have hfirst : (seqSystem .boot).RunVia (quietly key) ⟨mgr, ev⟩ ⟨mgr.withPorts p, ev⟩ :=
    quietly_timer (.inl rfl) hwake
  have hsecond : (seqSystem .boot).RunVia (quietly key) ⟨mgr.withPorts p, ev⟩
      ⟨mgr.withPorts (q.sendMsg t.timeoutMsg).2, ev⟩ := quietly_timer (.inr rfl) hpost
  refine ⟨_, hfirst.trans hsecond, h.withPorts ?_ ?_⟩
  · simp [MsgPorts.sendMsg_of_running hacc, hqueue]
  · simp [MsgPorts.sendMsg_of_running hacc, hacc]

/-- **To its timer.** A flow begins, and comes to its timer. -/
theorem start (key : WaitKey) (h : AuthAt a [⟨authMsg sessionId 0 .msgInit, sender⟩] fsmList n)
    (hlen : fsmList.length < fsmNumInFac)
    (hx : RoutesTo (fsmList ++ [startedFsm n]) (fsmIdOf n) x) : ∃ a' sender',
      (seqSystem .boot).RunVia (quietly key) a a' ∧
      AuthAt a' [] (fsmList ++ [startedFsm n]) (n + 1) ∧
      LastTimer a' ⟨authMsg sessionId (fsmIdOf n) .msgClose, sender'⟩ ∧
      .created facAuthFacId n (fsmIdOf n) ⟨authMsg sessionId 0 .msgInit, sender⟩ ∈ a'.events := by
  obtain ⟨a₁, hinit, h₁, hcreated⟩ := h.init key hlen
  obtain ⟨a₂, s₂, hconnect, h₂⟩ := h₁.post key hx rfl (by decide) rfl
  obtain ⟨a₃, s₃, hreq, h₃⟩ := h₂.post key hx rfl (by decide) rfl
  obtain ⟨a₄, s₄, hresp, h₄, hlast⟩ := h₃.delay key hx rfl (by decide) (by decide)
  have hrest := (hconnect.trans hreq).trans hresp
  exact ⟨a₄, s₄, hinit.trans hrest, h₄, hlast, (seq_events hrest).subset hcreated⟩

/-- **From its timer.** The timer fires, and the flow ends. -/
theorem finish (h : AuthAt a [] fsmList n)
    (ht : LastTimer a ⟨authMsg sessionId fsmId .msgClose, sender⟩)
    (hx : RoutesTo fsmList fsmId x) : ∃ a',
      (seqSystem .boot).RunVia (quietly ⟨facAuthFacId, sessionId⟩) a a' ∧
      AuthAt a' [] (fsmList.filter fun y => y.inst ≠ x.inst) n ∧
      .completed x.inst ⟨facAuthFacId, fsmId, sessionId, .success, .msgClose⟩ ∈ a'.events := by
  obtain ⟨a₁, hfire, h₁⟩ := h.fire _ ht
  obtain ⟨a₂, hclose, h₂, hcompleted⟩ := h₁.close hx
  exact ⟨a₂, hfire.trans hclose, h₂, hcompleted⟩

end AuthAt

/-! ## Below a server -/

/-- An asynchronous authentication with this session. -/
def asyncAuth (sessionId : { n : UInt32 // n ≠ 0 }) : HttpRequest where
  route := .auth
  wait := false
  sessionId := some sessionId

/-- A server whose manager has nothing to do, and what `AuthFactory` has created and lists. -/
structure ServerAt (h : HttpState) (fsmList : List Cfsm) (n : ℕ) : Prop where
  idle : h.Idle
  running : h.stop = .running
  below : ∃ a : SeqState FsmKind, h.core = .resting a.mgr a.events ∧ AuthAt a [] fsmList n

variable {h : HttpState} {s : { n : UInt32 // n ≠ 0 }}

namespace ServerAt

/-- The manager goes on below the server. -/
theorem serves (hp : h.Idle) (hcore : h.core = .resting a.mgr a.events)
    (hkey : h.waiters.find key = []) (ha : (seqSystem .boot).RunVia (quietly key) a a') :
    ∃ h', httpSystem.RunVia serving h h' ∧ Beside h h' ∧ h'.core = .resting a'.mgr a'.events := by
  refine ⟨h.withCore (.resting a'.mgr a'.events), ?_,
    ⟨⟨hp.callbackSet, hp.callbacks⟩, rfl, rfl, rfl, fun i x hx => hx, ?_⟩, rfl⟩
  · have hself : h.withCore (.resting a.mgr a.events) = h := by rw [HttpState.withCore, ← hcore]
    exact hself ▸ hp.run hkey ha
  · rw [hcore]
    exact seq_events ha

/-- A request arrives, and its message is in the queue. -/
theorem request (hs : ServerAt h fsmList n) : ∃ h' a, httpSystem.RunVia serving h h' ∧
    Beside h h' ∧ h'.core = .resting a.mgr a.events ∧
    AuthAt a [⟨authMsg s 0 .msgInit, .client h.requests.length⟩] fsmList n := by
  obtain ⟨a, hcore, ha⟩ := hs.below
  have hasync : (asyncAuth s).wait = false := rfl
  have haccept : h.stop.accepting = true := by rw [hs.running]; rfl
  obtain ⟨m, h', hrun, hbeside, hcore'⟩ := served_request hs.idle haccept hasync hcore
  refine ⟨h', _, hrun, hbeside, hcore', ha.withPorts ?_ ?_⟩
  · rw [MsgPorts.sendMsg_of_running ha.accepting]
    exact congrArg (· ++ _) ha.queue
  · rw [MsgPorts.sendMsg_of_running ha.accepting]
    exact ha.accepting

/-- **One flow**, from its request to its end. -/
theorem flow (hs : ServerAt h fsmList n) (hnobody : h.waiters.find ⟨facAuthFacId, s⟩ = [])
    (hlen : fsmList.length < fsmNumInFac)
    (hx : RoutesTo (fsmList ++ [startedFsm n]) (fsmIdOf n) x) :
    ∃ h', httpSystem.RunVia serving h h' ∧ Beside h h' ∧
      ServerAt h' ((fsmList ++ [startedFsm n]).filter fun y => y.inst ≠ x.inst)
        (n + 1) ∧
      .completed x.inst ⟨facAuthFacId, fsmIdOf n, s, .success, .msgClose⟩ ∈ h'.core.events := by
  obtain ⟨h₁, a₁, hrequest, hbeside, hcore, h₁at⟩ := hs.request (s := s)
  obtain ⟨a₂, sender, hstart, h₂, htimer, -⟩ := h₁at.start ⟨facAuthFacId, s⟩ hlen hx
  obtain ⟨a₃, hfinish, h₃, hcompleted⟩ := h₂.finish htimer hx
  obtain ⟨h₃', hrun, hbeside', hcore'⟩ := serves hbeside.idle hcore
    (by rw [hbeside.waiters, hnobody]) (hstart.trans hfinish)
  refine ⟨h₃', hrequest.trans hrun, hbeside.trans hbeside', ⟨hbeside'.idle, ?_, a₃, hcore', h₃⟩, ?_⟩
  · exact hbeside'.stop.trans (hbeside.stop.trans hs.running)
  · rw [hcore']
    exact hcompleted

/-- **A flow that goes no further**: its instance has id zero. -/
theorem stuck (hs : ServerAt h fsmList n) (hnobody : h.waiters.find ⟨facAuthFacId, s⟩ = [])
    (hlen : fsmList.length < fsmNumInFac) (hz : fsmIdOf n = 0) :
    ∃ h', httpSystem.RunVia serving h h' ∧ Beside h h' ∧
      ServerAt h' (fsmList ++ [startedFsm n]) (n + 1) := by
  obtain ⟨h₁, a₁, hrequest, hbeside, hcore, h₁at⟩ := hs.request (s := s)
  obtain ⟨a₂, hinit, h₂, -⟩ := h₁at.init ⟨facAuthFacId, s⟩ hlen
  rw [hz] at h₂
  obtain ⟨a₃, hreject, h₃⟩ := h₂.reject ⟨facAuthFacId, s⟩
  obtain ⟨h₃', hrun, hbeside', hcore'⟩ := serves hbeside.idle hcore
    (by rw [hbeside.waiters, hnobody]) (hinit.trans hreject)
  exact ⟨h₃', hrequest.trans hrun, hbeside.trans hbeside', hbeside'.idle,
    hbeside'.stop.trans (hbeside.stop.trans hs.running), a₃, hcore', h₃⟩

/-- **All flows up to the wrap**, beside the first instance, which goes no further. -/
theorem flows (hs : ServerAt h [startedFsm 0] 1)
    (hnobody : h.waiters.find ⟨facAuthFacId, s⟩ = []) (hn : n + 2 ≤ 2 ^ 32) :
    ∃ h', httpSystem.RunVia serving h h' ∧ Beside h h' ∧ ServerAt h' [startedFsm 0] (n + 1) := by
  induction n with
  | zero => exact ⟨h, Lts.RunVia.refl h, .refl hs.idle, hs⟩
  | succ n ih =>
      obtain ⟨h₁, hrun, hbeside, h₁at⟩ := ih (by omega)
      have hz : fsmIdOf (n + 1) ≠ 0 := by
        rw [Ne, fsmIdOf_eq_zero_iff]
        omega
      have hne : fsmIdOf 0 ≠ fsmIdOf (n + 1) := by
        rw [Ne, fsmIdOf_eq_iff]
        omega
      have hx : RoutesTo ([startedFsm 0] ++ [startedFsm (n + 1)]) (fsmIdOf (n + 1))
          (startedFsm (n + 1)) := ⟨hz, by simp [KeyedList.lookup, startedFsm, hne]⟩
      obtain ⟨h₂, hrun', hbeside', h₂at, -⟩ := h₁at.flow (s := s)
        (by rw [hbeside.waiters, hnobody]) (by decide) hx
      refine ⟨h₂, hrun.trans hrun', hbeside.trans hbeside', ?_⟩
      simpa [startedFsm] using h₂at

end ServerAt

end FsmFramework
