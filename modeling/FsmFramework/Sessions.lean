import FsmFramework.Completion
import FsmFramework.Provenance

/-!
# Where the session of a completion comes from

No instance stores a session: it travels in the messages, and a completion takes it from the
`MSG_CLOSE` that closed the instance. Followed back through the instance's own follow-ups, that is
the session of a message that somebody else sent it and that took a rule of its table
(`completed_session`): of the `MSG_INIT` that created it, unless a client sent it another message
that it took in between. Messages that an instance ignores leave no trace.
-/

namespace FsmFramework

/-! ## Services -/

/-- A thread inside a dispatch works for the service of its message. -/
structure ThreadRouted (events : List Event) (th : DispatchThread) : Prop where
  factory : ∀ f, th.pc.factory = some f → f = th.pm.msg.serviceId
  adding : ∀ f, th.pc = .addFsm f → th.pm.msg.type = .msgInit
  notified : ∀ f i id ret, th.pc = .notify f i id ret → (i, id) ∈ createdIn f events

/-- Services, wherever they stand in a state. -/
structure RoutedInv (s : DispatchState FsmKind) : Prop where
  threads : ∀ t th, s.threads t = some th → ThreadRouted s.events th
  created : ∀ f i id pm, .created f i id pm ∈ s.events →
    pm.msg.type = .msgInit ∧ pm.msg.serviceId = f
  completed : ∀ inst event, .completed inst event ∈ s.events →
    (inst, event.fsmId) ∈ createdIn event.serviceId s.events

variable {m m' : CfactoryMgr FsmKind} {pm : PumpMsg} {pc : DispatchPc}
  {next : Option DispatchThread} {events ev : List Event} {s s' : DispatchState FsmKind}
  {a : SeqState FsmKind} {r : DispatchResult FsmKind} {facId : UInt32} {inst : ℕ}
  {sessionId : UInt32}

theorem createdIn_append_left {x : ℕ × UInt32} (h : x ∈ createdIn facId events) :
    x ∈ createdIn facId (events ++ ev) := by
  rw [createdIn_append]
  exact List.mem_append_left _ h

theorem ThreadRouted.append {th : DispatchThread} (h : ThreadRouted events th)
    (ev : List Event) : ThreadRouted (events ++ ev) th where
  factory := h.factory
  adding := h.adding
  notified f i id ret hpc := createdIn_append_left (h.notified f i id ret hpc)

/-- The thread that moves. -/
theorem ThreadRouted.advance {th : DispatchThread} (hadv : Advance s.mgr pm pc (some th) m' ev)
    (hok : ThreadRouted s.events ⟨pm, pc⟩) (hcre : CreatedInv s) :
    ThreadRouted (s.events ++ ev) th := by
  have hfactory := hadv.factory hok.factory
  cases hadv with
  | service | found | added | noFactory | dangling | undefined =>
      exact ⟨hfactory, by simp, by simp⟩
  | missing _ _ hi => exact ⟨hfactory, fun _ _ => hi, by simp⟩
  | prePrcMsg | processMsg | postPrcMsg | notify => exact ⟨hfactory, by simp, by simp⟩
  | @terminal f i ret fac fsm h hk =>
      refine ⟨hfactory, by simp, ?_⟩
      intro g j id ret' hpc
      obtain ⟨rfl, rfl, rfl, -⟩ := DispatchPc.notify.inj hpc
      obtain ⟨hfac, hfsm⟩ := CfactoryMgr.deref_eq_some_iff.mp h
      obtain ⟨hmemf, rfl⟩ := CfactoryMgr.findFactory_eq_some_iff.mp hfac
      obtain ⟨hmem, rfl⟩ := Cfactory.mem_of_deref hfsm
      exact createdIn_append_left (hcre.mem_of_live hmemf hmem)

/-- What a step reports. -/
theorem reported_advance (hadv : Advance m pm pc next m' ev)
    (hok : ThreadRouted events ⟨pm, pc⟩) :
    (∀ f i id x, .created f i id x ∈ ev → x.msg.type = .msgInit ∧ x.msg.serviceId = f) ∧
      ∀ inst event, .completed inst event ∈ ev →
        (inst, event.fsmId) ∈ createdIn event.serviceId events := by
  cases hadv with
  | added =>
      refine ⟨fun f i id x hx => ?_, by simp⟩
      obtain ⟨rfl, -, -, rfl⟩ := Event.created.inj (List.mem_singleton.mp hx)
      exact ⟨hok.adding _ rfl, (hok.factory _ rfl).symm⟩
  | notify =>
      refine ⟨by simp, fun inst event hmem => ?_⟩
      obtain ⟨rfl, rfl⟩ := Event.completed.inj (List.mem_singleton.mp hmem)
      exact hok.notified _ _ _ _ rfl
  | _ => simp

theorem RoutedInv.step {l : DispatchLabel FsmKind} (hinv : RoutedInv s) (hcre : CreatedInv s)
    (hs : s.step l = some s') : RoutedInv s' := by
  cases l with
  | env l =>
      obtain ⟨p, hp, rfl⟩ := DispatchState.step_env_iff.mp hs
      exact ⟨hinv.threads, hinv.created, hinv.completed⟩
  | registerFactory factory =>
      obtain rfl := DispatchState.step_registerFactory_iff.mp hs
      exact ⟨hinv.threads, hinv.created, hinv.completed⟩
  | pop t =>
      obtain ⟨-, pm, p, hports, rfl⟩ := DispatchState.step_pop_iff.mp hs
      refine ⟨?_, hinv.created, hinv.completed⟩
      intro u th hu
      rcases DispatchState.threads_update hu with ⟨-, hnew⟩ | ⟨-, hold⟩
      · obtain rfl := Option.some.inj hnew
        exact ⟨by simp [DispatchPc.factory], by simp, by simp⟩
      · exact hinv.threads u th hold
  | advance t =>
      obtain ⟨⟨pm, pc⟩, next, m', ev, ht, hadv, rfl⟩ := DispatchState.step_advance_iff.mp hs
      obtain ⟨hcreated, hcompleted⟩ := reported_advance hadv (hinv.threads t _ ht)
      refine ⟨?_, ?_, ?_⟩
      · intro u th hu
        rcases DispatchState.threads_update hu with ⟨rfl, rfl⟩ | ⟨-, hold⟩
        · exact ThreadRouted.advance hadv (hinv.threads u _ ht) hcre
        · exact (hinv.threads u th hold).append ev
      · intro f i id x hx
        rcases List.mem_append.mp hx with hold | hnew
        · exact hinv.created f i id x hold
        · exact hcreated f i id x hnew
      · intro inst event hmem
        rcases List.mem_append.mp hmem with hold | hnew
        · exact createdIn_append_left (hinv.completed inst event hold)
        · exact createdIn_append_left (hcompleted inst event hnew)

theorem routedInv_of_reachable {G : DispatchState FsmKind → DispatchLabel FsmKind → Prop}
    (h : (dispatchSystem .boot).ReachableVia G s) : RoutedInv s := by
  suffices hboth : RoutedInv s ∧ CreatedInv s from hboth.1
  refine h.invariant (I := fun s => RoutedInv s ∧ CreatedInv s) ?init ?step
  case init =>
    rintro s rfl
    exact ⟨⟨by simp [DispatchState.resting], by simp [DispatchState.resting],
      by simp [DispatchState.resting]⟩, createdInv_of_reachable CfactoryMgr.fresh_boot
        (Lts.ReachableVia.of_init rfl)⟩
  case step =>
    rintro s l s' ⟨hinv, hcre⟩ - hs
    exact ⟨hinv.step hcre hs, createdInv_step hs hcre⟩

/-! ## Sessions -/

/-- A machine that is not terminal answers `INVALID_MSG` exactly where its table has no rule for
the message. -/
theorem FsmKind.processMsg_invalidMsg_iff (k : FsmKind) (facId : UInt32) {fsm : Cfsm} {msg : CMsg}
    (p : MsgPorts) (hk : fsm.state ≠ .killFsm) :
    (k.processMsg facId fsm msg p).1 = .invalidMsg ↔ k.rule fsm.state msg.type = none := by
  rw [processMsg_eq]
  cases hrule : k.rule fsm.state msg.type with
  | none =>
      rw [executeFsmTransition_none hk hrule]
      simp
  | some tr =>
      cases hnext : tr.hasNext with
      | false =>
          rw [executeFsmTransition_last hk hrule hnext]
          simp
      | true =>
          rw [executeFsmTransition_next hk hrule hnext]
          simp [postNextEvent_ne_invalidMsg]

/-- Instance `inst` took a message of this session, by a rule of its table, that it had not posted
itself. -/
def Carried (events : List Event) (facId : UInt32) (inst : ℕ) (sessionId : UInt32) : Prop :=
  ∃ pm ret, .processed facId inst pm ret ∈ events ∧ ret ≠ .invalidMsg ∧
    pm.sender ≠ .fsm facId inst ∧ pm.msg.sessionId = sessionId

/-- What an instance posts has a session that was carried to it. -/
def Sourced (events : List Event) (pm : PumpMsg) : Prop :=
  ∀ facId inst, pm.sender = .fsm facId inst → Carried events facId inst pm.msg.sessionId

/-- What is on its way is sourced, and so is what an instance has taken. -/
structure SessionInv (a : SeqState FsmKind) : Prop where
  traffic : ∀ pm ∈ a.mgr.traffic, Sourced a.events pm
  taken : ∀ f i pm ret, .processed f i pm ret ∈ a.events → ret ≠ .invalidMsg →
    Carried a.events f i pm.msg.sessionId

theorem Carried.mono (h : Carried events facId inst sessionId)
    (hsub : ∀ f i pm ret, .processed f i pm ret ∈ events → .processed f i pm ret ∈ ev) :
    Carried ev facId inst sessionId := by
  obtain ⟨pm, ret, hmem, hret, hs⟩ := h
  exact ⟨pm, ret, hsub _ _ _ _ hmem, hret, hs⟩

theorem Carried.append (h : Carried events facId inst sessionId) (ev : List Event) :
    Carried (events ++ ev) facId inst sessionId :=
  h.mono fun _ _ _ _ hmem => List.mem_append_left _ hmem

theorem Sourced.append (h : Sourced events pm) (ev : List Event) : Sourced (events ++ ev) pm :=
  fun f i hs => (h f i hs).append ev

/-- A dispatch hands over its own message, and the follow-up is posted by an instance that has
taken it. -/
theorem Dispatched.sources (hd : Dispatched m pm r) :
    (∀ f i pm' ret, .processed f i pm' ret ∈ r.events →
        pm'.sender = pm.sender ∧ pm'.msg.sessionId = pm.msg.sessionId) ∧
      ∀ pm' ∈ r.mgr.traffic, pm' ∈ m.traffic ∨ (pm'.msg.sessionId = pm.msg.sessionId ∧
        ∃ f i x ret, pm'.sender = .fsm f i ∧ .processed f i x ret ∈ r.events ∧
          ret ≠ .invalidMsg) := by
  have hposted : ∀ {p q : MsgPorts} {new : PumpMsg}, q.traffic.Perm (new :: p.traffic) →
      ∀ pm' ∈ q.traffic, pm' = new ∨ pm' ∈ p.traffic :=
    fun hperm pm' hpm' => List.mem_cons.mp (hperm.subset hpm')
  cases hd with
  | rejected => exact ⟨by simp, fun pm' hpm' => .inl hpm'⟩
  | ignored | closed =>
      refine ⟨?_, fun pm' hpm' => .inl hpm'⟩
      intro f i pm' ret hmem
      obtain ⟨-, -, rfl, -⟩ : _ ∧ _ ∧ pm' = handedTo _ pm ∧ _ := by
        simpa [handedEvents] using hmem
      exact ⟨rfl, rfl⟩
  | @created fac fac' fsm ret p hfac hroute htype hadd hpost =>
      constructor
      · intro f i pm' ret' hmem
        obtain ⟨-, -, rfl, -⟩ : _ ∧ _ ∧ pm' = handedTo fsm pm ∧ _ := by
          simpa [handedEvents] using hmem
        exact ⟨rfl, rfl⟩
      · intro pm' hpm'
        have hperm := MsgPorts.traffic_sendMsg m.toMsgPorts
          ⟨nextMsg fsm pm.msg .msgConnect, .fsm fac.facId fsm.inst⟩
        have hret := m.toMsgPorts.sendMsg_ne_invalidMsg
          ⟨nextMsg fsm pm.msg .msgConnect, .fsm fac.facId fsm.inst⟩
        rw [hpost] at hperm hret
        rcases hposted hperm pm' hpm' with rfl | hold
        · exact .inr ⟨rfl, _, _, handedTo fsm pm, ret, rfl, by simp [handedEvents], hret⟩
        · exact .inl hold
  | @wentOn fac fsm tr ret p hfac hroute hrule hclose hpost =>
      constructor
      · intro f i pm' ret' hmem
        obtain ⟨-, -, rfl, -⟩ : _ ∧ _ ∧ pm' = handedTo fsm pm ∧ _ := by
          simpa [handedEvents] using hmem
        exact ⟨rfl, rfl⟩
      · intro pm' hpm'
        have hperm := traffic_postNextEvent fac.facId tr (handedTo fsm pm).msg fsm m.toMsgPorts
        have hret := postNextEvent_ne_invalidMsg fac.facId tr (handedTo fsm pm).msg fsm
          m.toMsgPorts
        rw [hpost] at hperm hret
        rcases hposted hperm pm' hpm' with rfl | hold
        · exact .inr ⟨rfl, _, _, handedTo fsm pm, ret, rfl, by simp [handedEvents], hret⟩
        · exact .inl hold

/-- A dispatch keeps track of the sessions. -/
theorem SessionInv.dispatched {p : MsgPorts} (hinv : SessionInv a)
    (hports : a.mgr.toMsgPorts = p.unpop pm) (hd : Dispatched (a.mgr.withPorts p) pm r) :
    SessionInv ⟨r.mgr, a.events ++ r.events⟩ := by
  obtain ⟨hhanded, hposted⟩ := hd.sources
  have htraffic : a.mgr.traffic = pm :: p.traffic := by rw [hports, MsgPorts.traffic_unpop]
  have hpm : Sourced a.events pm := hinv.traffic pm (htraffic ▸ List.mem_cons_self)
  -- what is taken now was sourced, or is a source itself
  have htaken : ∀ f i x ret, .processed f i x ret ∈ r.events → ret ≠ .invalidMsg →
      Carried (a.events ++ r.events) f i pm.msg.sessionId := by
    intro f i x ret hmem hret
    obtain ⟨hsender, hsession⟩ := hhanded f i x ret hmem
    by_cases hown : pm.sender = .fsm f i
    · exact (hpm f i hown).append _
    · exact ⟨x, ret, List.mem_append_right _ hmem, hret, hsender ▸ hown, hsession⟩
  constructor
  case traffic =>
    intro pm' hpm'
    rcases hposted pm' hpm' with hold | ⟨hsession, f, i, x, ret, hsender, hmem, hret⟩
    · exact (hinv.traffic pm' (htraffic ▸ List.mem_cons_of_mem _ hold)).append _
    · intro g j hs
      obtain ⟨rfl, rfl⟩ := Sender.fsm.inj (hsender.symm.trans hs)
      exact hsession ▸ htaken f i x ret hmem hret
  case taken =>
    intro f i x ret hmem hret
    rcases List.mem_append.mp hmem with hold | hnew
    · exact (hinv.taken f i x ret hold hret).append _
    · exact (hhanded f i x ret hnew).2 ▸ htaken f i x ret hnew hret

theorem sessionInv_of_reachable {E : EnvLabel → Prop}
    (h : (seqSystem .boot).ReachableVia (admits E) a) : SessionInv a := by
  refine seq_invariant (I := SessionInv) (B := fun _ => True) ?init (fun _ _ _ _ _ => trivial)
    ?env ?dispatch h trivial
  case init =>
    constructor
    · simp [MsgPorts.traffic, MsgPorts.pending, TimerManager.outstanding, CfactoryMgr.boot_eq]
    · simp
  case env =>
    intro a l p _ hinv _ hp
    refine ⟨?_, hinv.taken⟩
    intro pm hpm
    rcases List.mem_append.mp ((MsgPorts.traffic_env hp).mem_iff.mp hpm) with hposted | hold
    · -- what comes from outside is no instance's
      intro f i hsender
      cases l with
      | sendMsg n msg =>
          rw [EnvLabel.posted, List.mem_singleton] at hposted
          simp [hposted] at hsender
      | _ => simp [EnvLabel.posted] at hposted
    · exact hinv.traffic pm hold
  case dispatch => exact fun a pm p r _ _ hinv hports hd => hinv.dispatched hports hd

/-- **The session of a completion** is that of the `MSG_CLOSE` which closed the instance, and of a
message that the instance took and had not posted itself. If all such messages have one session, it
is that of the `MSG_INIT` that created the instance, and the completion has the service and the
session of this `MSG_INIT`; below the wrap of the ids these messages are those of clients. -/
theorem completed_session {E : EnvLabel → Prop}
    (h : (dispatchSystem .boot).ReachableVia (serial E) s) {event : FsmCompletionEvent}
    (hc : .completed inst event ∈ s.events) :
    ∃ pm₀, .created event.serviceId inst event.fsmId pm₀ ∈ s.events ∧ pm₀.msg.type = .msgInit ∧
      pm₀.msg.serviceId = event.serviceId ∧
      (∃ pm, .processed event.serviceId inst pm .success ∈ s.events ∧ pm.msg.type = .msgClose ∧
        pm.msg.sessionId = event.sessionId) ∧
      Carried s.events event.serviceId inst event.sessionId ∧
      ((∀ pm ret, .processed event.serviceId inst pm ret ∈ s.events → ret ≠ .invalidMsg →
          pm.sender ≠ .fsm event.serviceId inst → pm.msg.sessionId = pm₀.msg.sessionId) →
        event.sessionId = pm₀.msg.sessionId) ∧
      (s.mgr.IdsLeft → ∀ pm ret, .processed event.serviceId inst pm ret ∈ s.events →
        pm.sender ≠ .fsm event.serviceId inst → ∃ n, pm.sender = .client n) := by
  have hrouted := routedInv_of_reachable h
  obtain ⟨pm₀, hpm₀⟩ := mem_createdIn.mp (hrouted.completed inst event hc)
  obtain ⟨htype, hservice⟩ := hrouted.created _ _ _ _ hpm₀
  obtain ⟨a, ha, hR⟩ := seq_simulation.reachable h
  obtain ⟨kind, pm, -, hclose, hevent, hinfix⟩ :=
    (completionInv_of_reachable ha).closing inst event (hR.completed hc)
  have hsession : event.sessionId = pm.msg.sessionId := by rw [hevent]
  have hmem : .processed event.serviceId inst pm .success ∈ a.events :=
    hinfix.subset (by simp [closingEvents])
  have hcarried : Carried s.events event.serviceId inst event.sessionId := by
    rw [hsession]
    refine ((sessionInv_of_reachable ha).taken _ _ pm _ hmem (by simp)).mono ?_
    exact fun _ _ _ _ hin => hR.processed_iff.mp hin
  refine ⟨pm₀, hpm₀, htype, hservice, ⟨pm, hR.processed_iff.mp hmem, hclose, hsession.symm⟩,
    hcarried, ?same, ?clients⟩
  case same =>
    intro hall
    obtain ⟨pm', ret, hmem', hret, hs, hsession'⟩ := hcarried
    exact hsession' ▸ hall pm' ret hmem' hret hs
  case clients =>
    intro hb pm ret hmem hs
    cases hsender : pm.sender with
    | client n => exact ⟨n, rfl⟩
    | fsm f i =>
        obtain ⟨hf, hi⟩ := ((isolated_of_reachable h hb).events f i).processed _ _ pm ret hmem
          hsender
        exact absurd (by rw [hsender, hf, hi]) hs

/-- A flow with session 7 that a client closes with session 8. -/
def closedByStranger : List SeqLabel :=
  [.env (.sendMsg 0 { serviceId := facRegFacId, sessionId := 7 }), .dispatch,
    .env (.sendMsg 1
      { type := .msgClose, serviceId := facRegFacId, fsmId := 1, sessionId := 8 }),
    .dispatch, .dispatch]

/-- Its completion has the session of the message that closed it. -/
theorem completed_session_of_stranger : ∃ s : DispatchState FsmKind, ∃ inst event pm₀,
    (dispatchSystem .boot).ReachableVia (serial fun _ => True) s ∧
      .completed inst event ∈ s.events ∧
      .created event.serviceId inst event.fsmId pm₀ ∈ s.events ∧
      pm₀.msg.sessionId = 7 ∧ event.sessionId = 8 := by
  obtain ⟨a, ha, hevents⟩ : ∃ a : SeqState FsmKind,
      (seqSystem .boot).exec (fun a l => decide (admits (fun _ => True) a l)) ⟨.boot, []⟩
        closedByStranger = some a ∧
        .completed 0 ⟨facRegFacId, 1, 8, .success, .msgClose⟩ ∈ a.events ∧
        .created facRegFacId 0 1 ⟨{ serviceId := facRegFacId, sessionId := 7 }, .client 0⟩ ∈
          a.events := ⟨_, rfl, by decide, by decide⟩
  exact ⟨.resting a.mgr a.events, 0, ⟨facRegFacId, 1, 8, .success, .msgClose⟩, _,
    resting_of_exec ha, hevents.1, hevents.2, rfl, rfl⟩

/-- A flow that runs to its end, its timer included. A client's `MSG_INIT` with another session
reaches the instance on its way, and is ignored. -/
def leftAlone : List SeqLabel :=
  [.env (.sendMsg 0 { serviceId := facAuthFacId, sessionId := 7 }), .dispatch,
    .env (.sendMsg 1 { serviceId := facAuthFacId, fsmId := 1, sessionId := 8 }), .dispatch,
    .dispatch, .dispatch, .dispatch, .env (.timerWake 0), .env (.timerPost 0), .dispatch]

/-- The event creates nothing out of another session than 7, and no instance takes somebody else's
message of another session in it. -/
def ofSessionSeven : Event → Bool
  | .created _ _ _ pm => pm.msg.sessionId = 7
  | .processed f i pm ret => ret = .invalidMsg ∨ pm.sender = .fsm f i ∨ pm.msg.sessionId = 7
  | _ => true

/-- Its completion has the session of the message that created it. -/
theorem completed_session_left_alone : ∃ s : DispatchState FsmKind, ∃ event pm₀ pm,
    .completed 0 event ∈ s.events ∧
      .created event.serviceId 0 event.fsmId pm₀ ∈ s.events ∧ pm₀.msg.sessionId = 7 ∧
      .processed event.serviceId 0 pm .invalidMsg ∈ s.events ∧ pm.msg.sessionId = 8 ∧
      event.sessionId = pm₀.msg.sessionId := by
  obtain ⟨a, ha, ⟨hc, hignored⟩, hseven⟩ : ∃ a : SeqState FsmKind,
      (seqSystem .boot).exec (fun a l => decide (admits (fun _ => True) a l)) ⟨.boot, []⟩
        leftAlone = some a ∧
      (.completed 0 ⟨facAuthFacId, 1, 7, .success, .msgClose⟩ ∈ a.events ∧
        .processed facAuthFacId 0 ⟨{ serviceId := facAuthFacId, fsmId := 1, sessionId := 8 },
          .client 1⟩ .invalidMsg ∈ a.events) ∧
      ∀ e ∈ a.events, ofSessionSeven e = true := ⟨_, rfl, by decide, by decide⟩
  obtain ⟨pm₀, hcreated, -, -, -, -, hsame, -⟩ := completed_session (resting_of_exec ha) hc
  have hpm₀ : pm₀.msg.sessionId = 7 := decide_eq_true_eq.mp (hseven _ hcreated)
  refine ⟨.resting a.mgr a.events, _, pm₀, _, hc, hcreated, hpm₀, hignored, rfl, hsame ?_⟩
  intro pm ret hmem hret hsender
  obtain hinvalid | hown | hsession := decide_eq_true_eq.mp (hseven _ hmem)
  · exact absurd hinvalid hret
  · exact absurd hown hsender
  · exact hsession.trans hpm₀.symm

end FsmFramework
