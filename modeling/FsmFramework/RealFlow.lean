import FsmFramework.WholeFlows

/-!
# The benchmark of real flows

`RunRealFlow` registers the two business factories, lets clients post `MSG_INIT` to both, at
most as many to each as a factory has room for, and then waits in a loop that has no other way
out until `g_processed` has reached eleven for each pair: six events of a registration and five
of an authentication.

The number is a balance. What the messages on their way are still going to cause, and what has
been processed, are together what was posted; and it is one only because no dispatch fails,
which in turn needs the room, the live instances of `FlowInv` and timer ids that are not zero.
-/

namespace FsmFramework

variable {m : CfactoryMgr FsmKind} {pm : PumpMsg} {r : DispatchResult FsmKind} {p p' : MsgPorts}
  {events : List Event} {s : DispatchState FsmKind} {a : SeqState FsmKind}

/-- `g_processed`: the dispatches that succeeded. -/
def gProcessed (events : List Event) : ℕ :=
  events.countP fun
    | .returned _ ret _ => ret = .success
    | _ => false

/-- `g_dispatchFailed`: those that did not. The factories count, and a message for a service without
a factory comes to none of them. -/
def gDispatchFailed (events : List Event) : ℕ :=
  events.countP fun
    | .returned pm ret _ => ret ≠ .success ∧ serviceKind pm.msg.serviceId ≠ none
    | _ => false

@[simp] theorem gProcessed_append (l l' : List Event) :
    gProcessed (l ++ l') = gProcessed l + gProcessed l' := List.countP_append

@[simp] theorem gDispatchFailed_append (l l' : List Event) :
    gDispatchFailed (l ++ l') = gDispatchFailed l + gDispatchFailed l' := List.countP_append

/-- What happens around the dispatcher until the benchmark stops the manager: `MSG_INIT` is posted
to the two services. -/
def realFlow : EnvLabel → Prop
  | .sendMsg n msg => onlyInit (.sendMsg n msg) ∧ serviceKind msg.serviceId ≠ none
  | l => undisturbed l

instance : DecidablePred realFlow
  | .sendMsg n msg =>
      inferInstanceAs (Decidable (onlyInit (.sendMsg n msg) ∧ serviceKind msg.serviceId ≠ none))
  | .start _ | .leaveRun | .timerWake _ | .timerPost _ => isTrue trivial
  | .stop | .stopTimer _ | .stopAllTimers => isFalse id

theorem realFlow.undisturbed {l : EnvLabel} (h : realFlow l) : undisturbed l := by
  cases l with
  | sendMsg n msg => exact h.1
  | _ => exact h

theorem alone.realFlow {l : EnvLabel} (h : alone l) : realFlow l := by
  cases l with
  | timerWake | timerPost => trivial
  | _ => exact h.elim

/-- The events that are to be processed when so much was posted. -/
def SeqState.expectedEvents (a : SeqState FsmKind) : ℕ :=
  6 * a.posted facRegFacId + 5 * a.posted facAuthFacId

/-! ## The events to come -/

/-- The dispatches that a message still causes, itself included. -/
def PumpMsg.toCome (pm : PumpMsg) : ℕ := dispatchesLeft (serviceKind pm.msg.serviceId) pm.msg.type

/-- The dispatches that the messages on their way still cause. -/
def toCome (p : MsgPorts) : ℕ := (Ranking.flow 0).ports p

theorem toCome_unpop : toCome (p.unpop pm) = pm.toCome + toCome p := by
  simp [toCome, Ranking.ports_unpop, Ranking.msg, Ranking.flow, PumpMsg.toCome]

theorem toCome_sendMsg (h : p.pump.stopped = false) (pm : PumpMsg) :
    toCome (p.sendMsg pm).2 = toCome p + pm.toCome := by
  rw [toCome, Ranking.ports_sendMsg, if_pos (by rw [MsgPorts.sendMsg_of_running h])]
  simp [toCome, Ranking.msg, Ranking.flow, PumpMsg.toCome]

theorem toCome_startTimer (p : MsgPorts) (ms : UInt32) (pm : PumpMsg) :
    toCome (p.startTimer ms pm).2 = toCome p + pm.toCome := by
  rw [toCome, Ranking.ports_startTimer]
  simp [toCome, Ranking.flow, PumpMsg.toCome]

/-- A timer's thread that wakes up still carries its message. -/
theorem toCome_wake {k : ℕ} {t : CTimer PumpMsg} (hk : p.timers.timerList[k]? = some t)
    (hp : t.phase = .sleeping) :
    toCome { p with timers := p.timers.setPhase k t .expired } = toCome p := by
  have hmove := Ranking.ports_setPhase (R := Ranking.flow 0) p .expired hk
  simp only [Ranking.ofTimer, Ranking.flow, hp] at hmove
  simp only [toCome, Ranking.flow]
  omega

/-- One that posts it hands it over. -/
theorem toCome_expire {k : ℕ} {t : CTimer PumpMsg} (hk : p.timers.timerList[k]? = some t)
    (hp : t.phase = .expired) :
    toCome { p with timers := p.timers.setPhase k t .finished } + t.timeoutMsg.toCome =
      toCome p := by
  have hmove := Ranking.ports_setPhase (R := Ranking.flow 0) p .finished hk
  simp only [Ranking.ofTimer, Ranking.flow, hp] at hmove
  simp only [toCome, Ranking.flow, PumpMsg.toCome]
  omega

/-- Each event of a flow leaves one dispatch less. -/
theorem FsmKind.dispatchesLeft_rule (k : FsmKind) {e : MsgType} {tr : FsmTransition FsmAction}
    (h : k.rule .working e = some tr) (hclose : e ≠ .msgClose) :
    dispatchesLeft k tr.nextEvent + 1 = dispatchesLeft k e := by
  have hall : ∀ t ∈ k.getTransitions, t.fromState = .working → t.event ≠ .msgClose →
      dispatchesLeft k t.nextEvent + 1 = dispatchesLeft k t.event := by cases k <;> decide
  obtain ⟨hmem, hfrom, hev⟩ := findFsmTransition_some h
  rw [← hev]
  exact hall tr hmem hfrom (hev ▸ hclose)

/-- The follow-up of a message in a manager that accepts it. -/
theorem toCome_postNextEvent (h : p.pump.stopped = false) (hid : p.timers.nextTimerId ≠ 0)
    (facId : UInt32) (tr : FsmTransition FsmAction) (msg : CMsg) (fsm : Cfsm) :
    (postNextEvent facId tr msg fsm p).1 = .success ∧
      toCome (postNextEvent facId tr msg fsm p).2 =
        toCome p + dispatchesLeft (serviceKind msg.serviceId) tr.nextEvent := by
  rw [postNextEvent]
  split
  · refine ⟨?_, toCome_sendMsg h _⟩
    rw [MsgPorts.sendMsg_of_running h]
  · exact ⟨if_neg hid, toCome_startTimer p _ _⟩

/-! ## No dispatch fails -/

/-- What a dispatch needs in order to succeed: the message is for a factory that exists, and the
factory has room for the instance that a `MSG_INIT` creates. -/
structure Welcome (m : CfactoryMgr FsmKind) (pm : PumpMsg) : Prop where
  service : ∃ fac, m.findFactory pm.msg.serviceId = some fac
  room : pm.msg.type = .msgInit → ∀ fac, m.findFactory pm.msg.serviceId = some fac →
    fac.fsmList.length < fsmNumInFac

/-- **No dispatch fails.** Instances and messages correspond, the pump accepts, timer ids are
left: then the dispatch of a welcome message succeeds and uses up one of the events to come. -/
theorem succeeds (hd : Dispatched m pm r) (hflow : FlowInv m.facList (pm :: m.traffic) events)
    (hopen : m.pump.stopped = false) (hid : m.timers.nextTimerId ≠ 0)
    (hreg : m.registry = CfactoryMgr.boot.registry) (hwelcome : Welcome m pm) :
    gProcessed r.events = 1 ∧ gDispatchFailed r.events = 0 ∧
      toCome r.mgr.toMsgPorts + 1 = toCome m.toMsgPorts + pm.toCome := by
  obtain ⟨f, hf⟩ := hwelcome.service
  obtain ⟨hmem, hfid⟩ := CfactoryMgr.findFactory_eq_some_iff.mp hf
  have hkind := serviceKind_of_mem hreg hmem
  rw [hfid] at hkind
  cases hd with
  | @rejected ret hret hwhy =>
      exfalso
      obtain ⟨hroute, hinit⟩ := hwhy f hf
      by_cases hz : pm.msg.fsmId = 0
      · -- a `MSG_INIT` is only rejected by a full factory
        have htype := hflow.initial pm List.mem_cons_self hz
        have hfull := Cfactory.addFsm_eq_none_iff.mp (hinit htype).2
        have hroom := hwelcome.room htype f hf
        omega
      · -- every other message names a live instance
        obtain ⟨g, hg, hgid, x, hx, hxid⟩ := hflow.named pm List.mem_cons_self hz
        obtain rfl := CfactoryMgr.eq_of_facId_eq hg hmem (hgid.trans hfid.symm)
        rw [Cfactory.route, if_pos hz] at hroute
        exact Cfactory.findFsm_eq_none_iff.mp hroute x hx hxid
  | @created fac fac' fsm ret q hfac hroute htype hadd hpost =>
      obtain rfl := Option.some.inj (hf.symm.trans hfac)
      have hsum := toCome_sendMsg hopen ⟨nextMsg fsm pm.msg .msgConnect, .fsm f.facId fsm.inst⟩
      have hret : ret = .success := by
        rw [MsgPorts.sendMsg_of_running hopen] at hpost
        exact (congrArg Prod.fst hpost).symm
      rw [hpost] at hsum
      subst hret
      refine ⟨by simp [gProcessed, handedEvents], by simp [gDispatchFailed, handedEvents], ?_⟩
      have hnext : dispatchesLeft (some f.kind) .msgConnect + 1 =
          dispatchesLeft (some f.kind) .msgInit := by cases f.kind <;> rfl
      simp only [PumpMsg.toCome, nextMsg, hkind] at hsum
      simp only [CfactoryMgr.withPorts_toMsgPorts, PumpMsg.toCome, htype, hkind]
      omega
  | @ignored fac fsm hfac hroute hrule =>
      exfalso
      obtain ⟨hfsm, hxid, -⟩ := Cfactory.mem_of_route hroute
      obtain rfl := Option.some.inj (hf.symm.trans hfac)
      obtain ⟨-, ⟨pre, rest, hpos, hpre, -⟩, -⟩ := hflow.target hmem hfsm
        (PumpMsg.isFor_iff.mpr ⟨hfid.symm, hxid.symm⟩)
      obtain ⟨tr, htr, -⟩ := f.kind.rule_of_flow hpos hpre
      simp [hrule] at htr
  | @wentOn fac fsm tr ret q hfac hroute hrule hclose hpost =>
      obtain rfl := Option.some.inj (hf.symm.trans hfac)
      obtain ⟨hret, hsum⟩ := toCome_postNextEvent hopen hid f.facId tr (handedTo fsm pm).msg fsm
      rw [hpost] at hret hsum
      obtain rfl : ret = .success := hret
      refine ⟨by simp [gProcessed, handedEvents], by simp [gDispatchFailed, handedEvents], ?_⟩
      have hnext := f.kind.dispatchesLeft_rule hrule hclose
      simp only [handedTo, hkind] at hsum
      simp only [CfactoryMgr.withPorts_toMsgPorts, PumpMsg.toCome, hkind]
      omega
  | @closed fac fsm hfac hroute htype =>
      refine ⟨by simp [gProcessed, handedEvents], by simp [gDispatchFailed, handedEvents], ?_⟩
      have hone : ∀ k : FsmKind, dispatchesLeft (some k) .msgClose = 1 := by
        intro k
        cases k <;> rfl
      simp only [CfactoryMgr.setFactory_toMsgPorts, PumpMsg.toCome, htype, hkind, hone]

/-! ## The balance -/

/-- A factory has not more instances than it has created. -/
theorem Cfactory.length_le_created {K : Type*} (f : Cfactory K) : f.fsmList.length ≤ f.created := by
  have hsub : f.fsmList.map Cfsm.inst ⊆ List.range f.created := by
    intro inst hinst
    obtain ⟨fsm, hfsm, rfl⟩ := List.mem_map.mp hinst
    exact List.mem_range.mpr (f.inst_lt fsm hfsm)
  have hle := (f.inst_nodup.subperm hsub).length_le
  rwa [List.length_map, List.length_range] at hle

/-- What a dispatch does to the timers: nothing, or it starts one. -/
theorem timers_dispatched (hd : Dispatched m pm r) : r.mgr.timers = m.timers ∨
    ∃ ms pm', r.mgr.timers = (m.timers.startTimer ms pm').2 := by
  cases hd with
  | rejected | ignored | closed => exact .inl rfl
  | @created fac fac' fsm ret q hfac hroute htype hadd hpost =>
      left
      exact (congrArg (fun x => x.2.timers) hpost).symm
  | @wentOn fac fsm tr ret q hfac hroute hrule hclose hpost =>
      have hq : q = (postNextEvent fac.facId tr (handedTo fsm pm).msg fsm m.toMsgPorts).2 :=
        (congrArg Prod.snd hpost).symm
      rw [postNextEvent] at hq
      split at hq
      · subst hq
        exact .inl rfl
      · subst hq
        exact .inr ⟨_, _, rfl⟩

/-- A dispatch adds to the traffic nothing but a message for the same service. -/
theorem traffic_dispatched (hd : Dispatched m pm r) {pm' : PumpMsg} (h : pm' ∈ r.mgr.traffic) :
    pm' ∈ m.traffic ∨ pm'.msg.serviceId = pm.msg.serviceId := by
  cases hd with
  | rejected | ignored | closed => exact .inl h
  | @created fac fac' fsm ret q hfac hroute htype hadd hpost =>
      have hperm := MsgPorts.traffic_sendMsg m.toMsgPorts
        ⟨nextMsg fsm pm.msg .msgConnect, .fsm fac.facId fsm.inst⟩
      rw [hpost] at hperm
      rcases List.mem_cons.mp (hperm.subset h) with rfl | hold
      · exact .inr rfl
      · exact .inl hold
  | @wentOn fac fsm tr ret q hfac hroute hrule hclose hpost =>
      have hperm := traffic_postNextEvent fac.facId tr (handedTo fsm pm).msg fsm m.toMsgPorts
      rw [hpost] at hperm
      rcases List.mem_cons.mp (hperm.subset h) with rfl | hold
      · exact .inr rfl
      · exact .inl hold

/-- Clients have posted at most as many `MSG_INIT` to each service as its factory has room for. -/
def SeqState.Room (a : SeqState FsmKind) : Prop :=
  a.posted facRegFacId ≤ fsmNumInFac ∧ a.posted facAuthFacId ≤ fsmNumInFac

/-- The books of the benchmark. -/
structure Tally (a : SeqState FsmKind) : Prop where
  failed : gDispatchFailed a.events = 0
  balance : toCome a.mgr.toMsgPorts + gProcessed a.events = a.expectedEvents
  timers : a.mgr.timers.timerList.length ≤ gProcessed a.events
  nextTimerId : a.mgr.timers.nextTimerId = UInt32.ofNat (a.mgr.timers.timerList.length + 1)
  services : ∀ pm ∈ a.mgr.traffic, serviceKind pm.msg.serviceId ≠ none

/-- Timer ids are left. -/
theorem Tally.nextTimerId_ne_zero (h : Tally a) (hroom : a.Room) :
    a.mgr.timers.nextTimerId ≠ 0 := by
  have hbalance := h.balance
  have htimers := h.timers
  have hlt : a.mgr.timers.timerList.length + 1 < 2 ^ 32 := by
    obtain ⟨hreg, hauth⟩ := hroom
    simp only [SeqState.expectedEvents, fsmNumInFac] at *
    omega
  rw [h.nextTimerId]
  intro hzero
  have hnat := congrArg UInt32.toNat hzero
  rw [UInt32.toNat_ofNat_of_lt' hlt] at hnat
  exact absurd hnat (Nat.succ_ne_zero _)

/-- A known service has a factory. -/
theorem exists_factory_of_serviceKind (hreg : m.registry = CfactoryMgr.boot.registry)
    {serviceId : UInt32} (h : serviceKind serviceId ≠ none) :
    (serviceId = facRegFacId ∨ serviceId = facAuthFacId) ∧
      ∃ fac, m.findFactory serviceId = some fac := by
  have hid : serviceId = facRegFacId ∨ serviceId = facAuthFacId := by
    by_contra hne
    simp_all [serviceKind]
  have hin : serviceId ∈ CfactoryMgr.boot.registry.map Prod.fst := by
    rcases hid with rfl | rfl <;> decide
  refine ⟨hid, ?_⟩
  rw [← hreg, CfactoryMgr.registry, List.map_map] at hin
  obtain ⟨fac, hfac, rfl⟩ := List.mem_map.mp hin
  exact ⟨fac, CfactoryMgr.findFactory_of_mem hfac⟩

/-- A pending message is welcome. -/
theorem Tally.welcome {E : EnvLabel → Prop} (h : Tally a) (hroom : a.Room)
    (hreach : (seqSystem .boot).ReachableVia (admits E) a)
    (hports : a.mgr.toMsgPorts = p.unpop pm) : Welcome (a.mgr.withPorts p) pm := by
  have hreg : a.mgr.registry = CfactoryMgr.boot.registry :=
    registry_of_serial (resting_reachable hreach)
  have htraffic : a.mgr.traffic = pm :: p.traffic := by rw [hports, MsgPorts.traffic_unpop]
  obtain ⟨hid, hex⟩ := exists_factory_of_serviceKind hreg
    (h.services pm (htraffic ▸ List.mem_cons_self))
  refine ⟨hex, ?_⟩
  intro htype fac hfac
  obtain ⟨hmem, hfid⟩ := CfactoryMgr.findFactory_eq_some_iff.mp hfac
  -- this `MSG_INIT` is posted on top of those that have created the instances
  have hcreated := createdCount_le_initsIn hreach fac.facId
  rw [CfactoryMgr.createdCount_of_mem (m := a.mgr) hmem] at hcreated
  have hinit : pm.isInit fac.facId = true := by simp [PumpMsg.isInit, htype, hfid]
  have hposted : fac.created + 1 ≤ a.posted fac.facId := by
    rw [SeqState.posted, htraffic, List.countP_cons_of_pos hinit]
    omega
  have hlength := fac.length_le_created
  obtain ⟨hroomReg, hroomAuth⟩ := hroom
  rw [hfid] at hposted
  rcases hid with hid | hid <;> rw [hid] at hposted <;> omega

/-- Below the room of the factories ids are left. -/
theorem idsLeft_of_room {E : EnvLabel → Prop} (hroom : a.Room)
    (hreach : (seqSystem .boot).ReachableVia (admits E) a) : a.mgr.IdsLeft := by
  intro fac hfac
  have hcreated := createdCount_le_initsIn hreach fac.facId
  rw [CfactoryMgr.createdCount_of_mem hfac] at hcreated
  have hposted : initsIn fac.facId a.events ≤ a.posted fac.facId := Nat.le_add_left _ _
  have hreg : a.mgr.registry = CfactoryMgr.boot.registry :=
    registry_of_serial (resting_reachable hreach)
  have hkind := serviceKind_of_mem hreg hfac
  obtain ⟨hid, -⟩ := exists_factory_of_serviceKind hreg (by rw [hkind]; simp)
  obtain ⟨hroomReg, hroomAuth⟩ := hroom
  simp only [fsmNumInFac] at hroomReg hroomAuth
  rcases hid with hid | hid <;> rw [hid] at hcreated hposted <;> omega

/-- What a client posts is six or five events to come. -/
theorem toCome_init {pm : PumpMsg} (htype : pm.msg.type = .msgInit)
    (hservice : serviceKind pm.msg.serviceId ≠ none) :
    pm.toCome = 6 * [pm].countP (PumpMsg.isInit facRegFacId) +
      5 * [pm].countP (PumpMsg.isInit facAuthFacId) := by
  have hne : facRegFacId ≠ facAuthFacId := by decide
  by_cases hreg : pm.msg.serviceId = facRegFacId
  · simp [PumpMsg.toCome, PumpMsg.isInit, serviceKind, htype, hreg, hne, dispatchesLeft]
  · by_cases hauth : pm.msg.serviceId = facAuthFacId
    · simp [PumpMsg.toCome, PumpMsg.isInit, serviceKind, htype, hauth, hne.symm, dispatchesLeft]
    · simp [serviceKind, hreg, hauth] at hservice

theorem Tally.sendMsg {n : ℕ} {msg : CMsg} (h : Tally a) (hopen : a.mgr.pump.stopped = false)
    (hl : realFlow (.sendMsg n msg)) :
    Tally ⟨a.mgr.withPorts (a.mgr.sendMsg ⟨msg, .client n⟩).2, a.events⟩ := by
  have hp : a.mgr.env (.sendMsg n msg) = some (a.mgr.sendMsg ⟨msg, .client n⟩).2 := rfl
  have hreg := posted_env hp facRegFacId
  have hauth := posted_env hp facAuthFacId
  have hbalance := h.balance
  have hsum := toCome_sendMsg hopen ⟨msg, .client n⟩
  have hinit : PumpMsg.toCome ⟨msg, .client n⟩ =
      6 * [⟨msg, .client n⟩].countP (PumpMsg.isInit facRegFacId) +
        5 * [⟨msg, .client n⟩].countP (PumpMsg.isInit facAuthFacId) := toCome_init hl.1.1 hl.2
  rw [hinit] at hsum
  refine ⟨h.failed, ?balance, h.timers, h.nextTimerId, ?services⟩
  case balance =>
    simp only [SeqState.expectedEvents, hreg, hauth, EnvLabel.posted,
      CfactoryMgr.withPorts_toMsgPorts] at hbalance hsum ⊢
    omega
  case services =>
    intro pm hpm
    have hperm := MsgPorts.traffic_sendMsg a.mgr.toMsgPorts ⟨msg, .client n⟩
    rcases List.mem_cons.mp (hperm.subset hpm) with rfl | hold
    · exact hl.2
    · exact h.services pm hold

/-- A step that posts nothing, keeps the timers and loses none of the events to come. -/
theorem Tally.silent {l : EnvLabel} {q : MsgPorts} (h : Tally a) (hp : a.mgr.env l = some q)
    (hl : l.posted = []) (hsum : toCome q = toCome a.mgr.toMsgPorts)
    (hlen : q.timers.timerList.length = a.mgr.timers.timerList.length)
    (hid : q.timers.nextTimerId = a.mgr.timers.nextTimerId) :
    Tally ⟨a.mgr.withPorts q, a.events⟩ := by
  have hreg := posted_env hp facRegFacId
  have hauth := posted_env hp facAuthFacId
  have hbalance := h.balance
  refine ⟨h.failed, ?balance, hlen ▸ h.timers, ?nextTimerId, ?services⟩
  case balance =>
    simp only [SeqState.expectedEvents, hreg, hauth, hl, List.countP_nil, Nat.add_zero,
      CfactoryMgr.withPorts_toMsgPorts, hsum] at hbalance ⊢
    exact hbalance
  case nextTimerId =>
    show q.timers.nextTimerId = _
    rw [hid, h.nextTimerId, ← hlen]
    rfl
  case services =>
    intro pm hpm
    have hperm := MsgPorts.traffic_env hp
    rw [hl, List.nil_append] at hperm
    exact h.services pm (hperm.subset hpm)

/-- The surroundings keep the books. -/
theorem Tally.env {l : EnvLabel} {q : MsgPorts} (h : Tally a) (hloss : a.mgr.toMsgPorts.Lossless)
    (hl : realFlow l) (hp : a.mgr.env l = some q) : Tally ⟨a.mgr.withPorts q, a.events⟩ := by
  cases l with
  | sendMsg n msg =>
      obtain rfl := Option.some.inj hp
      exact h.sendMsg hloss.accepting hl
  | start joinable =>
      obtain rfl := Option.some.inj hp
      refine h.silent (l := .start joinable) rfl rfl ?_ rfl rfl
      simp [toCome, Ranking.ports]
  | leaveRun =>
      obtain rfl := Option.some.inj hp
      exact h.silent (l := .leaveRun) rfl rfl rfl rfl rfl
  | stop | stopTimer | stopAllTimers => exact hl.elim
  | timerWake k =>
      obtain ⟨⟨dropped, tm⟩, hw, rfl⟩ := Option.map_eq_some_iff.mp hp
      obtain ⟨t, ht, hphase, ⟨-, -, htm⟩ | ⟨hcancelled, -⟩⟩ := TimerManager.wake_some hw
      · obtain rfl : tm = a.mgr.timers.setPhase k t .expired := htm
        refine h.silent hp rfl (toCome_wake ht hphase) ?_ rfl
        simp [TimerManager.setPhase]
      · have hactive := hloss.active t (List.mem_of_getElem? ht)
        simp [hcancelled] at hactive
  | timerPost k =>
      obtain ⟨⟨pm, tm⟩, he, rfl⟩ := Option.map_eq_some_iff.mp hp
      obtain ⟨t, ht, hphase, hpm, htm⟩ := TimerManager.expire_some he
      obtain rfl : tm = a.mgr.timers.setPhase k t .finished := htm
      obtain rfl : pm = t.timeoutMsg := hpm
      refine h.silent hp rfl ?_ ?_ rfl
      · have hopen : ({ a.mgr.toMsgPorts with
            timers := a.mgr.timers.setPhase k t .finished } : MsgPorts).pump.stopped = false :=
          hloss.accepting
        rw [toCome_sendMsg hopen, toCome_expire ht hphase]
      · simp [TimerManager.setPhase, MsgPorts.sendMsg]

/-- A dispatch keeps the books. -/
theorem Tally.dispatched (h : Tally a) (hports : a.mgr.toMsgPorts = p.unpop pm)
    (hd : Dispatched (a.mgr.withPorts p) pm r) (hone : gProcessed r.events = 1)
    (hzero : gDispatchFailed r.events = 0)
    (hsum : toCome r.mgr.toMsgPorts + 1 = toCome p + pm.toCome) :
    Tally ⟨r.mgr, a.events ++ r.events⟩ := by
  have hreg := posted_dispatch hports hd facRegFacId
  have hauth := posted_dispatch hports hd facAuthFacId
  have hbalance := h.balance
  have htimers := h.timers
  have hlist : a.mgr.timers = p.timers := by rw [hports]; rfl
  constructor
  case failed => simp [h.failed, hzero]
  case balance =>
    rw [hports, toCome_unpop] at hbalance
    simp only [SeqState.expectedEvents, hreg, hauth, gProcessed_append, hone] at hbalance ⊢
    omega
  case timers =>
    rw [gProcessed_append, hone]
    rcases timers_dispatched hd with hsame | ⟨ms, pm', hstart⟩
    · show r.mgr.timers.timerList.length ≤ _
      rw [hsame, CfactoryMgr.withPorts_toMsgPorts, ← hlist]
      omega
    · show r.mgr.timers.timerList.length ≤ _
      rw [hstart, CfactoryMgr.withPorts_toMsgPorts, ← hlist]
      simp only [TimerManager.startTimer, List.length_append, List.length_singleton]
      omega
  case nextTimerId =>
    have hid := h.nextTimerId
    rcases timers_dispatched hd with hsame | ⟨ms, pm', hstart⟩
    · show r.mgr.timers.nextTimerId = UInt32.ofNat (r.mgr.timers.timerList.length + 1)
      rw [hsame, CfactoryMgr.withPorts_toMsgPorts, ← hlist, hid]
    · show r.mgr.timers.nextTimerId = UInt32.ofNat (r.mgr.timers.timerList.length + 1)
      rw [hstart, CfactoryMgr.withPorts_toMsgPorts, ← hlist]
      simp only [TimerManager.startTimer, List.length_append, List.length_singleton, hid]
      exact (UInt32.ofNat_add _ 1).symm
  case services =>
    have htraffic : a.mgr.traffic = pm :: p.traffic := by rw [hports, MsgPorts.traffic_unpop]
    intro pm' hpm'
    rcases traffic_dispatched hd hpm' with hold | hsame
    · exact h.services pm' (htraffic ▸ List.mem_cons_of_mem _ hold)
    · rw [hsame]
      exact h.services pm (htraffic ▸ List.mem_cons_self)

/-- **The books are kept.** -/
theorem tally_of_reachable (h : (seqSystem .boot).ReachableVia (admits realFlow) a)
    (hroom : a.Room) : Tally a := by
  have hund : ∀ {b : SeqState FsmKind}, (seqSystem .boot).ReachableVia (admits realFlow) b →
      (seqSystem .boot).ReachableVia (admits undisturbed) b := by
    intro b hb
    refine hb.mono fun b l hl => ?_
    cases l with
    | env l => exact realFlow.undisturbed hl
    | dispatch => trivial
  refine h.invariant_reachable (I := fun a => a.Room → Tally a) ?init ?step hroom
  case init =>
    rintro b rfl _
    refine ⟨rfl, ?_, ?_, ?_, ?_⟩
    · simp [CfactoryMgr.boot_eq.2, toCome, Ranking.ports, gProcessed, SeqState.expectedEvents,
        SeqState.posted, MsgPorts.traffic, MsgPorts.pending, TimerManager.outstanding, initsIn]
    · simp [CfactoryMgr.boot_eq.2]
    · simp [CfactoryMgr.boot_eq.2]
    · simp [CfactoryMgr.boot_eq.2, MsgPorts.traffic, MsgPorts.pending, TimerManager.outstanding]
  case step =>
    intro b l b' hb hI hg hs hroom'
    cases l with
    | env l =>
        obtain ⟨q, hq, rfl⟩ := SeqState.step_env_iff.mp hs
        have hroom : b.Room := by
          have hreg := posted_env hq facRegFacId
          have hauth := posted_env hq facAuthFacId
          obtain ⟨hroomReg, hroomAuth⟩ := hroom'
          constructor
          · omega
          · omega
        exact (hI hroom).env (lossless_of_reachable (hund hb)) hg hq
    | dispatch =>
        obtain ⟨pm, p, hports, rfl⟩ := SeqState.step_dispatch_iff.mp hs
        have hd := dispatched_dispatchMsg (m := b.mgr.withPorts p) (allWorking_of_reachable hb) pm
        have hroom : b.Room := by
          obtain ⟨hroomReg, hroomAuth⟩ := hroom'
          rw [posted_dispatch hports hd] at hroomReg hroomAuth
          exact ⟨hroomReg, hroomAuth⟩
        have hids := idsLeft_of_room hroom hb
        have hflow := flowInv_of_reachable (fun _ hl => hl.onlyInit) (hund hb) hids
        rw [hports, MsgPorts.traffic_unpop] at hflow
        have hloss := lossless_of_reachable (hund hb)
        have hopen : p.pump.stopped = false := by
          have haccepting := hloss.accepting
          rwa [hports] at haccepting
        have hid : p.timers.nextTimerId ≠ 0 := by
          have hne := (hI hroom).nextTimerId_ne_zero hroom
          rwa [hports] at hne
        obtain ⟨hone, hzero, hsum⟩ := succeeds hd hflow hopen hid
          (registry_of_serial (resting_reachable hb)) ((hI hroom).welcome hroom hb hports)
        exact (hI hroom).dispatched hports hd hone hzero hsum

/-- Nothing is to come exactly when nothing is pending. -/
theorem toCome_eq_zero_iff : toCome p = 0 ↔ p.pending = [] := by
  have hpos : ∀ k e, dispatchesLeft k e ≠ 0 := by
    intro k e
    rcases k with _ | _ | _ <;> cases e <;> decide
  have htimer : ∀ t : CTimer PumpMsg, (Ranking.flow 0).ofTimer t = 0 ↔ t.phase = .finished := by
    intro t
    cases hphase : t.phase <;> simp [Ranking.ofTimer, Ranking.flow, hphase, hpos]
  have hmsg : ∀ msg : CMsg, (Ranking.flow 0).msg msg ≠ 0 := by
    intro msg
    simp [Ranking.msg, Ranking.flow, hpos]
  rw [toCome, Ranking.ports, Nat.add_eq_zero_iff, List.sum_eq_zero_iff, List.sum_eq_zero_iff,
    MsgPorts.pending, List.append_eq_nil_iff, List.forall_mem_map, List.forall_mem_map]
  refine and_congr ?queue ?timers
  case queue => simp [List.eq_nil_iff_forall_not_mem, hmsg]
  case timers => simp [TimerManager.outstanding, List.filterMap_eq_nil_iff, htimer]

/-- **The benchmark of real flows.** However clients, dispatcher and timer threads take turns, if no
more is posted to a service in the whole run than its factory has room for, no dispatch fails and
`g_processed` reaches six events for each registration and five for each authentication exactly
when nothing is pending any more. Once clients stop posting, that comes about whatever the order
of the remaining steps, and then all flows have ended. -/
theorem real_flow (h : (dispatchSystem .boot).ReachableVia (serial realFlow) s) (hq : s.Quiet)
    (hroom : (SeqState.mk s.mgr s.events).Room) :
    gDispatchFailed s.events = 0 ∧
      (gProcessed s.events = (SeqState.mk s.mgr s.events).expectedEvents ↔
        s.mgr.pending = []) ∧
      (dispatchSystem .boot).Inevitably (serial alone) (fun t => Ended t ∧
        gDispatchFailed t.events = 0 ∧
        gProcessed t.events = (SeqState.mk s.mgr s.events).expectedEvents) s := by
  have ha := seq_reachable_of_quiet h hq
  have htally := tally_of_reachable ha hroom
  have hund : (dispatchSystem .boot).ReachableVia (serial undisturbed) s :=
    h.mono fun s l hl => serial_mono (fun l hl => realFlow.undisturbed hl) hl
  refine ⟨htally.failed, ?_, ?_⟩
  · have hbalance : toCome s.mgr.toMsgPorts + gProcessed s.events = _ := htally.balance
    rw [← toCome_eq_zero_iff]
    omega
  · refine (terminates_alone hund).inevitably ?_
    intro t hrun hstuck
    obtain ⟨hqt, hpending⟩ := quiet_of_stuck hstuck
    have ht : (dispatchSystem .boot).ReachableVia (serial realFlow) t :=
      h.run (hrun.mono fun s l hl => serial_mono (fun l hl => hl.realFlow) hl)
    have hat := seq_reachable_of_quiet ht hqt
    have hposted := posted_alone (seq_reachable_of_quiet hund hq) (seq_run_of_quiet hq hqt hrun)
    have hroomt : (SeqState.mk t.mgr t.events).Room := by
      rw [SeqState.Room, hposted, hposted]
      exact hroom
    have htallyt := tally_of_reachable hat hroomt
    refine ⟨?ended, htallyt.failed, ?processed⟩
    case ended =>
      refine ended_of_pending ?_ hqt (idsLeft_of_room hroomt hat) hpending
      exact ht.mono fun s l hl => serial_mono (fun l hl => realFlow.undisturbed hl) hl
    case processed =>
      have hbalance : toCome t.mgr.toMsgPorts + gProcessed t.events = _ := htallyt.balance
      rw [toCome_eq_zero_iff.mpr hpending, Nat.zero_add] at hbalance
      rw [hbalance, SeqState.expectedEvents, hposted, hposted]
      rfl

/-- Two pairs, of which one registration has begun: twenty-two events are to be processed. -/
theorem real_flow_two_pairs : ∃ s : DispatchState FsmKind,
    (SeqState.mk s.mgr s.events).expectedEvents = 22 ∧ gProcessed s.events = 1 ∧
      (dispatchSystem .boot).Inevitably (serial alone) (fun t => Ended t ∧
        gDispatchFailed t.events = 0 ∧ gProcessed t.events = 22) s := by
  obtain ⟨a, ha, hroom, hexp, hone⟩ : ∃ a : SeqState FsmKind,
      (seqSystem .boot).exec (fun a l => decide (admits realFlow a l)) ⟨.boot, []⟩
        [.env (.sendMsg 0 { serviceId := 1 }), .env (.sendMsg 0 { serviceId := 3 }), .dispatch,
          .env (.sendMsg 0 { serviceId := 1 }), .env (.sendMsg 0 { serviceId := 3 })] = some a ∧
        (a.posted facRegFacId ≤ fsmNumInFac ∧ a.posted facAuthFacId ≤ fsmNumInFac) ∧
        a.expectedEvents = 22 ∧ gProcessed a.events = 1 :=
    ⟨_, rfl, by decide, by decide, by decide⟩
  have hflow := (real_flow (resting_of_exec ha) (fun _ => rfl) hroom).2.2
  refine ⟨.resting a.mgr a.events, hexp, hone, ?_⟩
  have hsame : (SeqState.mk (DispatchState.resting a.mgr a.events).mgr
      (DispatchState.resting a.mgr a.events).events).expectedEvents = 22 := hexp
  rwa [hsame] at hflow

end FsmFramework
