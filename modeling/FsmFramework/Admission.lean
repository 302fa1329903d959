import FsmFramework.HttpAnswers

/-!
# What becomes of an accepted request

`SendMsg` accepts the `MSG_INIT` of a request without a look at the factory. Whether there is
room for its instance is decided when the dispatcher comes to it: `AddFsm` refuses when the
factory holds `FSM_NUM_IN_FAC` instances, and then nobody is told.

## Main results

* `accepted_request` — where the message of an accepted request is, and how its dispatch ends.
* `dropped_silently` — an accepted request whose dispatch is refused.
-/

namespace FsmFramework

/-- Nobody stops the manager. -/
def unstopped (l : EnvLabel) : Prop := l ≠ .stop

variable {s s' : DispatchState FsmKind} {m m₀ m' : CfactoryMgr FsmKind} {fac : Cfactory FsmKind}
  {pm : PumpMsg} {t : ℕ} {ev₀ : List Event}

/-- A manager that is not stopped accepts messages. -/
theorem accepting_of_reachable (h : (dispatchSystem .boot).ReachableVia (serial unstopped) s) :
    s.mgr.pump.stopped = false := by
  refine h.invariant (I := fun s => s.mgr.pump.stopped = false) ?init ?step
  case init =>
    rintro _ rfl
    rfl
  case step =>
    intro s l s' ha hg hs
    cases l with
    | env l =>
        obtain ⟨p, hp, rfl⟩ := DispatchState.step_env_iff.mp hs
        exact MsgPorts.accepting_env hp ha hg
    | registerFactory factory => exact hg.elim
    | pop t =>
        obtain ⟨-, pm, p, hports, rfl⟩ := DispatchState.step_pop_iff.mp hs
        have hsame : s.mgr.toMsgPorts.pump.stopped = p.pump.stopped := by rw [hports]; rfl
        exact hsame.symm.trans ha
    | advance t =>
        obtain ⟨th, next, m', ev, -, hadv, rfl⟩ := DispatchState.step_advance_iff.mp hs
        rcases hadv.ports with hports | ⟨kind, facId, fsm, hports⟩
        · exact (congrArg (·.pump.stopped) hports).trans ha
        · have hstop : m'.pump.stopped = s.mgr.pump.stopped :=
            (congrArg (·.pump.stopped) hports).trans
              (FsmKind.stopped_processMsg kind facId fsm th.pm.msg s.mgr.toMsgPorts)
          exact hstop.trans ha

/-! ## One dispatch, step by step -/

/-- The message that a new instance posts to itself. -/
def connectMsg (fac : Cfactory FsmKind) (fsm : Cfsm) (pm : PumpMsg) : PumpMsg :=
  ⟨nextMsg fsm pm.msg .msgConnect, .fsm fac.facId fsm.inst⟩

/-- How far the dispatch of a `MSG_INIT` for `fac` has come, from manager `m₀` and events `ev₀`
on. -/
inductive Stage (m₀ : CfactoryMgr FsmKind) (ev₀ : List Event) (fac : Cfactory FsmKind)
    (pm : PumpMsg) (s : DispatchState FsmKind) : Option DispatchThread → Prop
  | routing {pc : DispatchPc} {p : MsgPorts}
      (hpc : pc = .dispatchMsg ∨ pc = .facMsgPrc fac.facId ∨ pc = .addFsm fac.facId)
      (hm : s.mgr = m₀.withPorts p) (hev : s.events = ev₀) : Stage m₀ ev₀ fac pm s (some ⟨pm, pc⟩)
  | refused {p : MsgPorts} (hadd : fac.addFsm = none) (hm : s.mgr = m₀.withPorts p)
      (hev : s.events = ev₀ ++ [.returned pm .error none]) : Stage m₀ ev₀ fac pm s none
  | created {fac' : Cfactory FsmKind} {fsm : Cfsm} {p : MsgPorts} {th : DispatchThread}
      (hadd : fac.addFsm = some (fsm, fac'))
      (hth : th = ⟨pm, .prePrcMsg fac.facId fsm.inst⟩ ∨
        th = ⟨handedTo fsm pm, .processMsg fac.facId fsm.inst⟩)
      (hm : s.mgr = (m₀.setFactory fac').withPorts p)
      (hev : .created fac.facId fsm.inst fsm.fsmId pm ∈ s.events) :
      Stage m₀ ev₀ fac pm s (some th)
  | started {fac' : Cfactory FsmKind} {fsm : Cfsm} {p : MsgPorts} {next : Option DispatchThread}
      (hadd : fac.addFsm = some (fsm, fac'))
      (hnext : ∀ th, next = some th → th.pc = .postPrcMsg fac.facId fsm.inst .success ∨
        th.pc = .getState fac.facId fsm.inst .success)
      (hm : s.mgr = (m₀.setFactory (fac'.setState fsm.inst .working)).withPorts p)
      (hqueue : connectMsg fac fsm pm ∈ p.pump.queue)
      (hev : .created fac.facId fsm.inst fsm.fsmId pm ∈ s.events) : Stage m₀ ev₀ fac pm s next

/-- A dispatch of a `MSG_INIT` for a registered factory. -/
structure InitMsg (m₀ : CfactoryMgr FsmKind) (fac : Cfactory FsmKind) (pm : PumpMsg) : Prop where
  type : pm.msg.type = .msgInit
  fsmId : pm.msg.fsmId = 0
  factory : m₀.findFactory pm.msg.serviceId = some fac

namespace Stage

/-- What surrounds the dispatch changes only the ports. -/
theorem env {l : EnvLabel} {p : MsgPorts} {next : Option DispatchThread}
    (hst : Stage m₀ ev₀ fac pm s next) (hp : s.mgr.env l = some p) :
    Stage m₀ ev₀ fac pm { s with mgr := s.mgr.withPorts p } next := by
  cases hst with
  | routing hpc hm hev => exact .routing hpc (by rw [hm]; rfl) hev
  | refused hadd hm hev => exact .refused hadd (by rw [hm]; rfl) hev
  | created hadd hth hm hev => exact .created hadd hth (by rw [hm]; rfl) hev
  | started hadd hnext hm hqueue hev =>
      refine .started hadd hnext (by rw [hm]; rfl) ?_ hev
      rw [hm] at hp
      exact (MsgPorts.queue_env hp).subset hqueue

variable {p : MsgPorts} {next : Option DispatchThread} {ev : List Event}
  {threads : ℕ → Option DispatchThread} {pc : DispatchPc} {th : DispatchThread}
  {fac' : Cfactory FsmKind} {fsm : Cfsm} {events : List Event}

/-- Before the creation. -/
theorem advance_routing (hinit : InitMsg m₀ fac pm)
    (hpc : pc = .dispatchMsg ∨ pc = .facMsgPrc fac.facId ∨ pc = .addFsm fac.facId)
    (hadv : Advance (m₀.withPorts p) pm pc next m' ev) :
    Stage m₀ ev₀ fac pm ⟨m', threads, ev₀ ++ ev⟩ next := by
  have hfac : (m₀.withPorts p).findFactory fac.facId = some fac :=
    CfactoryMgr.findFactory_of_mem (CfactoryMgr.mem_of_findFactory hinit.factory)
  have hroute : fac.route pm.msg.fsmId = none := by simp [Cfactory.route, hinit.fsmId]
  rcases hpc with rfl | rfl | rfl
  · cases hadv with
    | unknownService h => exact absurd (hinit.factory.symm.trans h) (Option.some_ne_none _)
    | service h =>
        obtain rfl := Option.some.inj (h.symm.trans hinit.factory)
        exact .routing (.inr (.inl rfl)) rfl (List.append_nil _)
    | noFactory hl => cases hl
    | dangling hc => cases hc
  · cases hadv with
    | found h hr =>
        obtain rfl := Option.some.inj (h.symm.trans hfac)
        exact absurd (hr.symm.trans hroute) (Option.some_ne_none _)
    | notFound _ _ hi => exact absurd hinit.type hi
    | missing => exact .routing (.inr (.inr rfl)) rfl (List.append_nil _)
    | noFactory hl h =>
        obtain rfl := Option.some.inj hl
        exact absurd (hfac.symm.trans h) (Option.some_ne_none _)
    | dangling hc => cases hc
  · cases hadv with
    | full h hadd =>
        obtain rfl := Option.some.inj (h.symm.trans hfac)
        exact .refused hadd rfl rfl
    | added h hadd =>
        obtain rfl := Option.some.inj (h.symm.trans hfac)
        refine .created hadd (.inl rfl) CfactoryMgr.setFactory_withPorts ?_
        exact List.mem_append_right _ (List.mem_singleton_self _)
    | noFactory hl h =>
        obtain rfl := Option.some.inj hl
        exact absurd (hfac.symm.trans h) (Option.some_ne_none _)
    | dangling hc => cases hc

/-- The new instance can be dereferenced. -/
theorem deref_created (hinit : InitMsg m₀ fac pm) (hadd : fac.addFsm = some (fsm, fac')) :
    ((m₀.setFactory fac').withPorts p).deref fac.facId fsm.inst = some (fac', fsm) := by
  obtain ⟨-, hid, -, -, -, hlist⟩ := Cfactory.addFsm_some hadd
  have hfac : m₀.findFactory fac.facId = some fac :=
    CfactoryMgr.findFactory_of_mem (CfactoryMgr.mem_of_findFactory hinit.factory)
  exact CfactoryMgr.deref_eq_some_iff.mpr ⟨CfactoryMgr.findFactory_setFactory hfac hid,
    Cfactory.deref_of_mem (by simp [hlist])⟩

/-- So it can be when it has entered `WORKING`. -/
theorem deref_started (hinit : InitMsg m₀ fac pm) (hadd : fac.addFsm = some (fsm, fac')) :
    ((m₀.setFactory (fac'.setState fsm.inst .working)).withPorts p).deref fac.facId fsm.inst =
      some (fac'.setState fsm.inst .working, { fsm with state := .working }) := by
  obtain ⟨-, hid, -, -, -, hlist⟩ := Cfactory.addFsm_some hadd
  have hfac : m₀.findFactory fac.facId = some fac :=
    CfactoryMgr.findFactory_of_mem (CfactoryMgr.mem_of_findFactory hinit.factory)
  refine CfactoryMgr.deref_eq_some_iff.mpr ⟨CfactoryMgr.findFactory_setFactory hfac hid, ?_⟩
  rw [Cfactory.deref_setState, Cfactory.deref_of_mem (by simp [hlist])]
  rfl

/-- Ports that have accepted a message. -/
def posting (p : MsgPorts) (x : PumpMsg) : MsgPorts :=
  { p with pump := { p.pump with queue := p.pump.queue ++ [x] } }

/-- `ProcessMsg` of the new instance. -/
theorem processMsg_created (hnew : fsm = { inst := fac.created, fsmId := fac.nextFsmId })
    (hid : fac'.facId = fac.facId) (htype : pm.msg.type = .msgInit)
    (ha : p.pump.stopped = false) :
    ((m₀.setFactory fac').withPorts p).processMsg fac' fsm (handedTo fsm pm).msg =
      (.success, (m₀.setFactory (fac'.setState fsm.inst .working)).withPorts
        (posting p (connectMsg fac fsm pm))) := by
  have hpm : BusinessFsm.processMsg fac'.kind fac'.facId fsm (handedTo fsm pm).msg p =
      (.success, fsm.setState .working, posting p (connectMsg fac fsm pm)) := by
    rw [processMsg_idle fac'.kind fac'.facId (handedTo fsm pm).msg p (by rw [hnew]) htype,
      MsgPorts.sendMsg_of_running ha, hid]
    rfl
  have hports : ((m₀.setFactory fac').withPorts p).toMsgPorts = p := rfl
  rw [CfactoryMgr.processMsg, hports, hpm]
  simp only [Cfsm.setState_state, CfactoryMgr.setFactory_withPorts,
    CfactoryMgr.withPorts_withPorts]
  rw [CfactoryMgr.setFactory_setFactory Cfactory.setState_facId]

/-- From the creation to `ProcessMsg`. -/
theorem advance_created (hinit : InitMsg m₀ fac pm) (hadd : fac.addFsm = some (fsm, fac'))
    (hth : th = ⟨pm, .prePrcMsg fac.facId fsm.inst⟩ ∨
      th = ⟨handedTo fsm pm, .processMsg fac.facId fsm.inst⟩)
    (hev : .created fac.facId fsm.inst fsm.fsmId pm ∈ events) (ha : p.pump.stopped = false)
    (hadv : Advance ((m₀.setFactory fac').withPorts p) th.pm th.pc next m' ev) :
    Stage m₀ ev₀ fac pm ⟨m', threads, events ++ ev⟩ next := by
  have hd := deref_created (p := p) hinit hadd
  have hev' : .created fac.facId fsm.inst fsm.fsmId pm ∈ events ++ ev :=
    List.mem_append_left _ hev
  obtain ⟨hnew, hid, -, -, -, -⟩ := Cfactory.addFsm_some hadd
  rcases hth with rfl | rfl
  · cases hadv with
    | prePrcMsg h =>
        obtain ⟨rfl, rfl⟩ := Prod.mk.inj (Option.some.inj (hd.symm.trans h))
        exact .created hadd (.inr rfl) rfl hev'
    | noFactory hl => cases hl
    | dangling hc h =>
        obtain ⟨rfl, rfl, rfl⟩ := by simpa [DispatchPc.call] using hc
        exact absurd (hd.symm.trans h) (Option.some_ne_none _)
  · cases hadv with
    | processMsg h =>
        obtain ⟨rfl, rfl⟩ := Prod.mk.inj (Option.some.inj (hd.symm.trans h))
        refine .started (p := posting p (connectMsg fac fsm pm)) hadd ?_ ?_ ?_
          (List.mem_append_left _ hev)
        · rintro _ ⟨⟩
          refine .inl ?_
          rw [processMsg_created hnew hid hinit.type ha]
        · exact congrArg Prod.snd (processMsg_created hnew hid hinit.type ha)
        · exact List.mem_append_right _ (List.mem_singleton_self _)
    | noFactory hl => cases hl
    | dangling hc h =>
        obtain ⟨rfl, rfl, rfl⟩ := by simpa [DispatchPc.call] using hc
        exact absurd (hd.symm.trans h) (Option.some_ne_none _)

/-- After `ProcessMsg`. -/
theorem advance_started (hinit : InitMsg m₀ fac pm) (hadd : fac.addFsm = some (fsm, fac'))
    (hpc : th.pc = .postPrcMsg fac.facId fsm.inst .success ∨
      th.pc = .getState fac.facId fsm.inst .success)
    (hqueue : connectMsg fac fsm pm ∈ p.pump.queue)
    (hev : .created fac.facId fsm.inst fsm.fsmId pm ∈ events)
    (hadv : Advance ((m₀.setFactory (fac'.setState fsm.inst .working)).withPorts p) th.pm th.pc
      next m' ev) :
    Stage m₀ ev₀ fac pm ⟨m', threads, events ++ ev⟩ next := by
  have hd := deref_started (p := p) hinit hadd
  have hev' : .created fac.facId fsm.inst fsm.fsmId pm ∈ events ++ ev :=
    List.mem_append_left _ hev
  obtain ⟨pm', pc⟩ := th
  rcases hpc with rfl | rfl
  · cases hadv with
    | postPrcMsg =>
        refine .started hadd ?_ rfl hqueue hev'
        rintro _ ⟨⟩
        exact .inr rfl
    | noFactory hl => cases hl
    | dangling hc h =>
        obtain ⟨rfl, rfl, rfl⟩ := by simpa [DispatchPc.call] using hc
        exact absurd (hd.symm.trans h) (Option.some_ne_none _)
  · cases hadv with
    | terminal h hk =>
        obtain ⟨rfl, rfl⟩ := Prod.mk.inj (Option.some.inj (hd.symm.trans h))
        cases hk
    | goesOn => exact .started hadd (by simp) rfl hqueue hev'
    | noFactory hl => cases hl
    | dangling hc h =>
        obtain ⟨rfl, rfl, rfl⟩ := by simpa [DispatchPc.call] using hc
        exact absurd (hd.symm.trans h) (Option.some_ne_none _)

/-- A step of the dispatching thread. -/
theorem advance (hinit : InitMsg m₀ fac pm) (hst : Stage m₀ ev₀ fac pm s (some th))
    (ha : s.mgr.pump.stopped = false) (hadv : Advance s.mgr th.pm th.pc next m' ev) :
    Stage m₀ ev₀ fac pm ⟨m', threads, s.events ++ ev⟩ next := by
  cases hst with
  | routing hpc hm hev =>
      rw [hm] at hadv
      exact hev ▸ advance_routing hinit hpc hadv
  | created hadd hth hm hev =>
      rw [hm] at hadv ha
      exact advance_created hinit hadd hth hev ha hadv
  | started hadd hnext hm hqueue hev =>
      rw [hm] at hadv
      exact advance_started hinit hadd (hnext th rfl) hqueue hev hadv

end Stage

/-! ## Whole dispatches -/

/-- The dispatch of `pm` has created an instance of factory `facId`, which is `WORKING` and has
posted its first follow-up. -/
def Started (s : DispatchState FsmKind) (facId : UInt32) (pm : PumpMsg) : Prop :=
  ∃ fac fsm, .created facId fsm.inst fsm.fsmId pm ∈ s.events ∧
    s.mgr.deref facId fsm.inst = some (fac, fsm) ∧ fsm.state = .working ∧
    ⟨nextMsg fsm pm.msg .msgConnect, .fsm facId fsm.inst⟩ ∈ s.mgr.pump.queue

/-- A dispatch goes through its stages, whatever surrounds it. -/
theorem stage_run (hs : (dispatchSystem .boot).ReachableVia (serial unstopped) s)
    (hinit : InitMsg s.mgr fac pm) (ht : s.threads t = some ⟨pm, .dispatchMsg⟩)
    (hrun : (dispatchSystem .boot).RunVia (fun s l => serial unstopped s l ∧ s.threads t ≠ none)
      s s') : Stage s.mgr s.events fac pm s' (s'.threads t) := by
  refine (hrun.invariant (I := fun s' =>
    (dispatchSystem .boot).ReachableVia (serial unstopped) s' ∧
      Stage s.mgr s.events fac pm s' (s'.threads t)) ?step ⟨hs, ?start⟩).2
  case start => exact ht ▸ .routing (.inl rfl) rfl rfl
  case step =>
    rintro a l b ⟨hreach, hst⟩ ⟨hg, hbusy⟩ hab
    refine ⟨hreach.step hg hab, ?_⟩
    cases l with
    | env l =>
        obtain ⟨p, hp, rfl⟩ := DispatchState.step_env_iff.mp hab
        exact hst.env hp
    | registerFactory factory => exact hg.elim
    | pop u => exact absurd (hg t) hbusy
    | advance u =>
        obtain ⟨th, next, m', ev, hu, hadv, rfl⟩ := DispatchState.step_advance_iff.mp hab
        obtain rfl : u = t := serial_unique hreach (by simp [hu]) hbusy
        rw [hu] at hst
        show Stage _ _ _ _ _ (Function.update a.threads u next u)
        rw [Function.update_self]
        exact hst.advance hinit (accepting_of_reachable hreach) hadv

/-- How the dispatch of a `MSG_INIT` has ended: with an instance that has entered `WORKING`, or
in a full factory with nothing. -/
theorem Stage.ended (hinit : InitMsg m₀ fac pm) (hst : Stage m₀ ev₀ fac pm s none) :
    (fac.fsmList.length < fsmNumInFac → Started s fac.facId pm) ∧
      (fsmNumInFac ≤ fac.fsmList.length → s.mgr.facList = m₀.facList ∧
        s.events = ev₀ ++ [.returned pm .error none]) := by
  cases hst with
  | refused hadd hm hev =>
      have hfull := Cfactory.addFsm_eq_none_iff.mp hadd
      exact ⟨fun hroom => absurd hroom (not_lt.mpr hfull), fun _ => ⟨by rw [hm]; rfl, hev⟩⟩
  | @started fac' fsm p _ hadd hnext hm hqueue hev =>
      refine ⟨fun _ => ⟨fac'.setState fsm.inst .working, { fsm with state := .working }, hev, ?_,
        rfl, ?_⟩, fun hfull => ?_⟩
      · rw [hm]
        exact deref_started (p := p) hinit hadd
      · rw [hm]
        exact hqueue
      · rw [Cfactory.addFsm_eq_none_iff.mpr hfull] at hadd
        contradiction

/-! ## Where an accepted message is -/

/-- Where a message is that was accepted: in the queue, with a thread that has created nothing
yet, or dispatched. -/
def Whereabouts (s : DispatchState FsmKind) (pm : PumpMsg) : Prop :=
  pm ∈ s.mgr.pump.queue ∨
    (∃ t pc, s.threads t = some ⟨pm, pc⟩ ∧ (pc = .dispatchMsg ∨ pc = .facMsgPrc pm.msg.serviceId ∨
      pc = .addFsm pm.msg.serviceId)) ∨
    (∃ inst fsmId, .created pm.msg.serviceId inst fsmId pm ∈ s.events) ∨
    .returned pm .error none ∈ s.events

variable {l : DispatchLabel FsmKind}

/-- A first message stays on its way until it has been dispatched. -/
theorem Whereabouts.step (hinit : InitMsg s.mgr fac pm) (hl : serial unstopped s l)
    (hs : s.step l = some s') (hw : Whereabouts s pm) : Whereabouts s' pm := by
  have hev := DispatchState.step_events hs
  rcases hw with hq | ⟨t, pc, ht, hpc⟩ | ⟨inst, fsmId, hcreated⟩ | hreturned
  case inr.inr.inl => exact .inr (.inr (.inl ⟨inst, fsmId, hev.subset hcreated⟩))
  case inr.inr.inr => exact .inr (.inr (.inr (hev.subset hreturned)))
  case inl =>
    cases l with
    | env l =>
        obtain ⟨p, hp, rfl⟩ := DispatchState.step_env_iff.mp hs
        exact .inl ((MsgPorts.queue_env hp).subset hq)
    | registerFactory factory => exact hl.elim
    | pop t =>
        obtain ⟨-, front, p, hports, rfl⟩ := DispatchState.step_pop_iff.mp hs
        have hqueue : s.mgr.pump.queue = front :: p.pump.queue := congrArg (·.pump.queue) hports
        rw [hqueue] at hq
        rcases List.mem_cons.mp hq with rfl | hq
        · exact .inr (.inl ⟨t, _, Function.update_self .., .inl rfl⟩)
        · exact .inl hq
    | advance t =>
        obtain ⟨th, next, m', ev, -, hadv, rfl⟩ := DispatchState.step_advance_iff.mp hs
        refine .inl ?_
        rcases hadv.ports with hports | ⟨kind, facId, fsm, hports⟩
        · exact (congrArg (·.pump.queue) hports).symm ▸ hq
        · have hpre := FsmKind.queue_processMsg kind facId fsm th.pm.msg s.mgr.toMsgPorts
          exact (congrArg (·.pump.queue) hports).symm ▸ hpre.subset hq
  case inr.inl =>
    by_cases hadv : l = .advance t
    case neg => exact .inr (.inl ⟨t, pc, DispatchState.step_threads hs hadv ht, hpc⟩)
    case pos =>
      subst hadv
      obtain ⟨th, next, m', ev, hth, hadv, rfl⟩ := DispatchState.step_advance_iff.mp hs
      obtain rfl := Option.some.inj (hth.symm.trans ht)
      have hid : fac.facId = pm.msg.serviceId := CfactoryMgr.findFactory_facId hinit.factory
      have hst : Stage s.mgr s.events fac pm ⟨m', Function.update s.threads t next, s.events ++ ev⟩
          next := Stage.advance_routing hinit (hid.symm ▸ hpc) hadv
      cases hst with
      | routing hpc' => exact .inr (.inl ⟨t, _, Function.update_self .., hid ▸ hpc'⟩)
      | refused _ _ hret =>
          refine .inr (.inr (.inr (hret ▸ ?_)))
          exact List.mem_append_right _ (List.mem_singleton_self _)
      | created _ _ _ hc | started _ _ _ _ hc => exact .inr (.inr (.inl ⟨_, _, hid ▸ hc⟩))

/-! ## Accepted requests -/

/-- The manager is not stopped and one thread dispatches. -/
def unstoppedServer (h : HttpState) : HttpLabel → Prop
  | .core l => serial unstopped h.core l
  | _ => True

/-- The message of a request that `SendMsg` has accepted. -/
def HttpPc.accepted : HttpPc → Option CMsg
  | .waitFor msg | .unregisterWaiter msg (.waited _ _) | .returning msg (.waited _ _) => some msg
  | .answered msg response => if response.status = .serviceUnavailable then none else some msg
  | _ => none

variable {h h' k : HttpState} {r : ℕ} {msg : CMsg} {x x' : HttpThread}

/-- The manager below a server that does not stop it. -/
theorem unstopped_core (hr : httpSystem.ReachableVia unstoppedServer h) :
    (dispatchSystem .boot).ReachableVia (serial unstopped) h.core :=
  HttpState.core_reachable (fun _ _ hg => hg) (fun _ _ _ _ _ _ => nofun) hr

/-- Both factories are there, so the message of a request finds the one it is for. -/
theorem initMsg_request (hs : (dispatchSystem .boot).ReachableVia (serial unstopped) s)
    (req : HttpRequest) (n : UInt32) (sender : Sender) :
    ∃ fac, InitMsg s.mgr fac ⟨req.msg n, sender⟩ := by
  have hmem : req.route.serviceId ∈ s.mgr.registry.map Prod.fst := by
    rw [registry_of_serial hs]
    cases req.route <;> decide
  obtain ⟨_, hmem, hid⟩ := List.mem_map.mp hmem
  obtain ⟨fac, hfac, rfl⟩ := List.mem_map.mp hmem
  exact ⟨fac, rfl, rfl, CfactoryMgr.findFactory_eq_some_iff.mpr ⟨hfac, hid⟩⟩

/-- A request becomes accepted when `SendMsg` succeeds, and stays so. -/
theorem Handled.accepted (hd : Handled h r x x' k) (hacc : x'.pc.accepted = some msg) :
    x.pc.accepted = some msg ∨ x.pc.msg = some msg ∧ (h.sendMsg r msg).1 = .success ∧
      k.core = (h.sendMsg r msg).2.core := by
  cases hd with
  | retried | registered | refused => exact .inl (by simp_all [HttpPc.accepted])
  | generated hpc hz hnext =>
      subst hnext
      by_cases hw : x.request.wait = true <;> simp [hw, HttpPc.accepted] at hacc
  | @sent msg' hpc =>
      by_cases hsend : (h.sendMsg r msg').1 = .success
      · have heq : msg' = msg := by simpa [HttpPc.accepted, asyncResponse, hsend] using hacc
        exact .inr ⟨by simp [hpc, HttpPc.msg, heq], heq ▸ hsend, by rw [heq]⟩
      · simp [HttpPc.accepted, asyncResponse, hsend] at hacc
  | syncSent hpc hsend =>
      obtain rfl := Option.some.inj hacc
      exact .inr ⟨by simp [hpc, HttpPc.msg], hsend, rfl⟩
  | waited hpc => exact .inl (by simpa [hpc, HttpPc.accepted] using hacc)
  | @unregistered _ outcome hpc =>
      cases outcome with
      | refused => simp [HttpPc.accepted] at hacc
      | waited => exact .inl (by simpa [hpc, HttpPc.accepted] using hacc)
  | @answered _ outcome hpc =>
      cases outcome with
      | refused => simp [HttpPc.accepted, syncResponse] at hacc
      | waited completed completion =>
          refine .inl ?_
          rw [hpc, ← hacc]
          simp only [HttpPc.accepted, syncResponse]
          split_ifs <;> first | rfl | simp_all

/-- A message that `SendMsg` has accepted is in the queue. -/
theorem HttpState.sendMsg_accepted (hsend : (h.sendMsg r msg).1 = .success) :
    ⟨msg, .client r⟩ ∈ (h.sendMsg r msg).2.core.mgr.pump.queue := by
  cases hstop : h.core.mgr.pump.stopped with
  | true =>
      rw [HttpState.sendMsg, MsgPorts.sendMsg_of_stopped hstop] at hsend
      cases hsend
  | false =>
      rw [HttpState.sendMsg, MsgPorts.sendMsg_of_running hstop]
      exact List.mem_append_right _ (List.mem_singleton_self _)

theorem HttpPc.msg_of_accepted {pc : HttpPc} (hacc : pc.accepted = some msg) :
    pc.msg = some msg := by
  unfold HttpPc.accepted at hacc
  split at hacc
  case h_4 =>
    split at hacc
    · contradiction
    · exact hacc
  case h_5 => contradiction
  all_goals exact hacc

/-- An accepted message is never lost. -/
theorem whereabouts_of_accepted (hr : httpSystem.ReachableVia unstoppedServer h)
    (hx : h.requests[r]? = some x) (hacc : x.pc.accepted = some msg) :
    Whereabouts h.core ⟨msg, .client r⟩ := by
  refine hr.invariant_reachable
    (I := fun h => ∀ (r : ℕ) (x : HttpThread) (msg : CMsg), h.requests[r]? = some x →
      x.pc.accepted = some msg → Whereabouts h.core ⟨msg, .client r⟩) ?init ?step r x msg hx hacc
  case init =>
    rintro _ ⟨n, rfl⟩
    simp
  case step =>
    intro h l h' hreach hI hg hs i x msg hx hacc
    -- a message that was accepted before was somewhere, and stays there or moves on
    have hkeep : ∀ y, h.requests[i]? = some y → y.pc.accepted = some msg →
        Whereabouts h'.core ⟨msg, .client i⟩ := by
      intro y hy hacc
      have hw := hI i y msg hy hacc
      obtain ⟨n, rfl⟩ := msgOk_of_reachable hreach i y msg hy (HttpPc.msg_of_accepted hacc)
      obtain ⟨fac, hinit⟩ := initMsg_request (unstopped_core hreach) y.request n (.client i)
      rcases HttpState.core_step hs with heq | ⟨l', hcs, rfl | ⟨r, -, msg', -, -, rfl⟩⟩
      · exact heq ▸ hw
      · exact hw.step hinit hg hcs
      · exact hw.step hinit (l := .env (.sendMsg r msg')) nofun hcs
    rcases HttpState.step_requests hs hx with hx | hnew | ⟨y, k, hy, hd, hcore⟩
    · exact hkeep x hx hacc
    · rw [hnew] at hacc
      cases hacc
    · rcases hd.accepted hacc with hacc | ⟨-, hsend, hk⟩
      · exact hkeep y hy hacc
      · rw [hcore, hk]
        exact .inl (HttpState.sendMsg_accepted hsend)

/-- **Accepted requests.** The message of an accepted request is in the queue, with the
dispatcher, or dispatched. Its dispatch, in whatever surroundings, ends with a new instance that
is `WORKING` and has posted its first follow-up, if the factory has room. If the factory is full,
it comes back with `ERROR` and does nothing else. -/
theorem accepted_request (hr : httpSystem.ReachableVia unstoppedServer h)
    (hx : h.requests[r]? = some x) (hacc : x.pc.accepted = some msg) :
    Whereabouts h.core ⟨msg, .client r⟩ ∧
      ∀ t h', h.core.threads t = some ⟨⟨msg, .client r⟩, .dispatchMsg⟩ →
        httpSystem.RunVia (fun k l => unstoppedServer k l ∧ k.core.threads t ≠ none) h h' →
        h'.core.threads t = none →
        ∃ fac, h.core.mgr.findFactory msg.serviceId = some fac ∧
          (fac.fsmList.length < fsmNumInFac →
            Started h'.core msg.serviceId ⟨msg, .client r⟩) ∧
          (fsmNumInFac ≤ fac.fsmList.length →
            h'.core.mgr.facList = h.core.mgr.facList ∧
              h'.core.events = h.core.events ++ [.returned ⟨msg, .client r⟩ .error none]) := by
  refine ⟨whereabouts_of_accepted hr hx hacc, fun t h' ht hrun hended => ?_⟩
  have hcore := unstopped_core hr
  have hok := msgOk_of_reachable hr
  obtain ⟨n, rfl⟩ := hok r x msg hx (HttpPc.msg_of_accepted hacc)
  obtain ⟨fac, hinit⟩ := initMsg_request hcore x.request n (.client r)
  have hrun' : (dispatchSystem .boot).RunVia (fun s l => serial unstopped s l ∧ s.threads t ≠ none)
      h.core h'.core :=
    HttpState.core_run (fun _ _ hg => hg) (fun _ _ _ _ _ hg => ⟨nofun, hg.2⟩) hok hrun
  have hst := stage_run hcore hinit ht hrun'
  rw [hended] at hst
  have hid : fac.facId = (x.request.msg n).serviceId := CfactoryMgr.findFactory_facId hinit.factory
  obtain ⟨hstarted, hfull⟩ := hst.ended hinit
  exact ⟨fac, hinit.factory, fun hroom => hid ▸ hstarted hroom, hfull⟩

/-- An asynchronous registration. -/
def asyncRegister : HttpRequest where
  route := .register
  wait := false

/-- The first `n` requests arrive, all of them alike, and are handled. -/
def manyRequests (n : ℕ) : List HttpLabel :=
  (List.range n).flatMap fun i => [.request asyncRegister, .handle i, .handle i]

/-- `n` dispatches of a first message. -/
def manyDispatches (n : ℕ) : List HttpLabel := (List.range n).flatMap fun _ => dispatchSteps 7

theorem unstoppedServer_of_serving {l : HttpLabel} (hg : serving h l) : unstoppedServer h l := by
  cases l with
  | core l =>
      cases l with
      | env l => cases l <;> first | exact hg.elim | exact nofun
      | _ => exact hg
  | _ => trivial

theorem unstopped_of_exec {n : UInt32} {labels : List HttpLabel}
    (h : httpSystem.exec (fun _ l => oneDispatcher l)
      { core := .resting .boot [], nextSessionId := n } labels = some h') :
    httpSystem.ReachableVia unstoppedServer h' :=
  (serving_of_exec h).mono fun _ _ => unstoppedServer_of_serving

/-- Thread 0 is inside a dispatch, and other things go on beside it. -/
def HttpState.dispatching (h : HttpState) (l : HttpLabel) : Bool :=
  (h.core.threads 0).isSome && !(l matches .core (.pop _)) && oneDispatcher l

theorem HttpState.dispatching_spec {l : HttpLabel} (hd : h.dispatching l = true) :
    unstoppedServer h l ∧ h.core.threads 0 ≠ none := by
  simp only [HttpState.dispatching, Bool.and_eq_true, Option.isSome_iff_ne_none] at hd
  obtain ⟨⟨hbusy, hpop⟩, hone⟩ := hd
  refine ⟨?_, hbusy⟩
  cases l with
  | core l =>
      cases l with
      | env l =>
          rintro rfl
          exact absurd hone (by decide)
      | registerFactory factory => exact absurd hone (by simp [oneDispatcher])
      | pop t => simp at hpop
      | advance t => trivial
  | _ => trivial

/-- While a request arrives and is accepted, the message of another one is dispatched. -/
theorem accepted_request_started : ∃ h : HttpState,
    Started h.core facRegFacId ⟨asyncRegister.msg 1, .client 0⟩ ∧
      (h.requests[1]?.map HttpThread.pc) =
        some (.answered (asyncRegister.msg 2) ⟨.accepted, .accepted 2 "register"⟩) := by
  obtain ⟨h, hh, h', hh', x, hx, hacc, ht, hended, hroom, hsecond⟩ : ∃ h : HttpState,
      httpSystem.exec (fun _ l => oneDispatcher l) { core := .resting .boot [], nextSessionId := 1 }
        (manyRequests 1 ++ dispatchSteps 0) = some h ∧
      ∃ h' : HttpState, httpSystem.exec HttpState.dispatching h
          ([.core (.advance 0), .request asyncRegister, .handle 1, .handle 1] ++
            List.replicate 6 (.core (.advance 0))) = some h' ∧
        ∃ x, h.requests[0]? = some x ∧ x.pc.accepted = some (asyncRegister.msg 1) ∧
          h.core.threads 0 = some ⟨⟨asyncRegister.msg 1, .client 0⟩, .dispatchMsg⟩ ∧
          h'.core.threads 0 = none ∧
          (∀ fac ∈ h.core.mgr.facList, fac.fsmList.length < fsmNumInFac) ∧
          (h'.requests[1]?.map HttpThread.pc) =
            some (.answered (asyncRegister.msg 2) ⟨.accepted, .accepted 2 "register"⟩) :=
    ⟨_, rfl, _, rfl, _, rfl, by decide, by decide, by decide, by decide, by decide⟩
  have hrun := Lts.runVia_of_exec (fun _ _ => HttpState.dispatching_spec) hh'
  obtain ⟨fac, hfac, hstarted, -⟩ :=
    (accepted_request (unstopped_of_exec hh) hx hacc).2 0 h' ht hrun hended
  exact ⟨h', hstarted (hroom fac (CfactoryMgr.mem_of_findFactory hfac)), hsecond⟩

/-- The completions that were reported. -/
def completions (events : List Event) : List FsmCompletionEvent :=
  events.filterMap fun
    | .completed _ event => some event
    | _ => none

theorem completed_notMem_of_completions {events : List Event} (h : completions events = [])
    (inst : ℕ) (event : FsmCompletionEvent) : .completed inst event ∉ events := by
  intro hmem
  simpa using List.filterMap_eq_nil_iff.mp h _ hmem

set_option maxRecDepth 100000 in
/-- **Dropped silently.** Of 33 requests to one factory each is answered with `202` before the
first is dispatched. The dispatch of the last comes back with `ERROR`: no instance is created for
it, and no completion is reported. -/
theorem dropped_silently : ∃ h : HttpState, httpSystem.ReachableVia unstoppedServer h ∧
    (h.requests[32]?.map HttpThread.pc) =
      some (.answered (asyncRegister.msg 33) ⟨.accepted, .accepted 33 "register"⟩) ∧
    .returned ⟨asyncRegister.msg 33, .client 32⟩ .error none ∈ h.core.events ∧
    createdBy 32 h.core.events = [] ∧ ∀ inst event, .completed inst event ∉ h.core.events := by
  obtain ⟨h, hh, hanswer, hreturned, hcreated, hnone⟩ : ∃ h : HttpState,
      httpSystem.exec (fun _ l => oneDispatcher l) { core := .resting .boot [], nextSessionId := 1 }
        (manyRequests 33 ++ manyDispatches 32 ++ dispatchSteps 3) = some h ∧
      (h.requests[32]?.map HttpThread.pc) =
        some (.answered (asyncRegister.msg 33) ⟨.accepted, .accepted 33 "register"⟩) ∧
      .returned ⟨asyncRegister.msg 33, .client 32⟩ .error none ∈ h.core.events ∧
      createdBy 32 h.core.events = [] ∧
      completions h.core.events = [] :=
    ⟨_, rfl, by decide, by decide, by decide, by decide⟩
  exact ⟨h, unstopped_of_exec hh, hanswer, hreturned, hcreated,
    completed_notMem_of_completions hnone⟩

end FsmFramework
