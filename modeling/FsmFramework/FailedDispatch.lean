import FsmFramework.SeqRuns

/-!
# Dispatches that fail

A dispatch can fail at five depths: unknown service, unknown instance, full factory, no
rule, follow-up refused by a stopped manager. In the first four nothing has happened yet.
In the last the state is entered already, which shows only where the instance was created
by the same dispatch.
-/

namespace FsmFramework

/-- The dispatch creates an instance whose first follow-up the stopped pump refuses. -/
def RefusedCreation (m : CfactoryMgr FsmKind) (pm : PumpMsg) : Prop :=
  m.pump.stopped = true ∧ pm.msg.type = .msgInit ∧
    ∃ fac, m.findFactory pm.msg.serviceId = some fac ∧ fac.route pm.msg.fsmId = none ∧
      fac.fsmList.length < fsmNumInFac

/-- The factory after a creation whose instance was not advanced any further. -/
structure Stranded (fac fac' : Cfactory FsmKind) : Prop where
  facId : fac'.facId = fac.facId
  kind : fac'.kind = fac.kind
  nextFsmId : fac'.nextFsmId = fac.nextFsmId + 1
  fsmList : fac'.fsmList = fac.fsmList ++ [⟨fac.created, fac.nextFsmId, .working⟩]

variable {m : CfactoryMgr FsmKind} {pm : PumpMsg} {r : DispatchResult FsmKind}
  {s : DispatchState FsmKind} {fac fac' : Cfactory FsmKind} {fsm : Cfsm}

/-- A creation whose instance goes no further than `WORKING`. -/
theorem stranded_of_addFsm (h : fac.addFsm = some (fsm, fac')) :
    Stranded fac (fac'.setState fsm.inst .working) := by
  obtain ⟨rfl, hid, hkind, hnext, -, hlist⟩ := Cfactory.addFsm_some h
  refine ⟨hid, hkind, hnext, ?_⟩
  have hold : ∀ x ∈ fac.fsmList, x.inst ≠ fac.created := fun x hx => (fac.inst_lt x hx).ne
  have hkeep : KeyedList.modify Cfsm.inst fac.created (fun x => { x with state := .working })
      fac.fsmList = fac.fsmList :=
    KeyedList.modify_eq_self fun x hx hk => absurd hk (hold x hx)
  show KeyedList.modify _ _ _ fac'.fsmList = _
  rw [hlist, KeyedList.modify, List.map_append]
  exact congrArg₂ _ hkeep (by simp)

/-- A post that fails without a timer changes neither pump nor timers. -/
theorem postNextEvent_failed {facId : UInt32} {tr : FsmTransition FsmAction} {msg : CMsg}
    {p p' : MsgPorts} {ret : EerrNo} (h : postNextEvent facId tr msg fsm p = (ret, p'))
    (hne : ret ≠ .success) (hne' : ret ≠ .timerError) :
    p'.pump = p.pump ∧ p'.timers = p.timers := by
  rw [postNextEvent] at h
  split at h
  · cases hs : p.pump.stopped with
    | true =>
        rw [MsgPorts.sendMsg_of_stopped hs] at h
        simp only [Prod.mk.injEq] at h
        obtain ⟨-, rfl⟩ := h
        exact ⟨rfl, rfl⟩
    | false =>
        rw [MsgPorts.sendMsg_of_running hs] at h
        simp only [Prod.mk.injEq] at h
        exact absurd h.1.symm hne
  · simp only [Prod.mk.injEq] at h
    obtain ⟨hret, -⟩ := h
    split at hret <;> simp_all

/-- A dispatch that fails reports no completion and leaves pump and timers as they are. The
instances stay as they are too, unless the dispatch is a refused creation. -/
theorem failed_dispatched (hd : Dispatched m pm r) (hne : r.ret ≠ .success)
    (hne' : r.ret ≠ .timerError) :
    r.mgr.pump = m.pump ∧ r.mgr.timers = m.timers ∧
      (∀ inst event, .completed inst event ∉ r.events) ∧
      (¬ RefusedCreation m pm → r.mgr.facList = m.facList) ∧
      (RefusedCreation m pm → r.ret = .invalidState ∧
        ∃ fac fac', m.findFactory pm.msg.serviceId = some fac ∧ Stranded fac fac' ∧
          r.mgr.facList = m.facList.map fun f => if f.facId = fac.facId then fac' else f) := by
  cases hd with
  | rejected hret hwhy =>
      refine ⟨rfl, rfl, by simp, fun _ => rfl, ?_⟩
      rintro ⟨-, htype, fac, hfac, -, hroom⟩
      obtain ⟨-, hadd⟩ := (hwhy fac hfac).2 htype
      have := Cfactory.addFsm_eq_none_iff.mp hadd
      omega
  | @created fac fac' fsm ret p hfac hroute htype hadd hpost =>
      cases hs : m.pump.stopped with
      | false =>
          rw [MsgPorts.sendMsg_of_running hs] at hpost
          simp only [Prod.mk.injEq] at hpost
          exact absurd hpost.1.symm hne
      | true =>
          rw [MsgPorts.sendMsg_of_stopped hs] at hpost
          simp only [Prod.mk.injEq] at hpost
          obtain ⟨rfl, rfl⟩ := hpost
          have hroom : fac.fsmList.length < fsmNumInFac := by
            by_contra hfull
            have := Cfactory.addFsm_eq_none_iff.mpr (Nat.le_of_not_lt hfull)
            simp [this] at hadd
          refine ⟨rfl, rfl, by simp [handedEvents], fun hno => ?_, fun _ => ⟨rfl, fac, _, hfac,
            stranded_of_addFsm hadd, ?_⟩⟩
          · exact absurd ⟨hs, htype, fac, hfac, hroute, hroom⟩ hno
          · obtain ⟨-, hid, -⟩ := Cfactory.addFsm_some hadd
            show KeyedList.modify _ _ _ _ = _
            rw [Cfactory.setState_facId, hid]
            rfl
  | ignored hfac hroute hrule =>
      refine ⟨rfl, rfl, by simp [handedEvents], fun _ => rfl, ?_⟩
      rintro ⟨-, -, fac', hfac', hroute', -⟩
      obtain rfl := Option.some.inj (hfac.symm.trans hfac')
      simp [hroute] at hroute'
  | wentOn hfac hroute hrule hclose hpost =>
      obtain ⟨hpump, htimers⟩ := postNextEvent_failed hpost hne hne'
      refine ⟨hpump, htimers, by simp [handedEvents], fun _ => rfl, ?_⟩
      rintro ⟨-, -, fac', hfac', hroute', -⟩
      obtain rfl := Option.some.inj (hfac.symm.trans hfac')
      simp [hroute] at hroute'
  | closed => exact absurd rfl hne

/-- **Failed dispatches.** In every state between dispatches, over any ports and for any
message: a dispatch that returns neither `SUCCESS` nor `TIMER_ERROR` reports no completion and
changes neither pump nor timers nor any factory, except that a refused creation leaves its
instance `WORKING` at the end of its factory's list. -/
theorem failed_dispatch
    (h : (dispatchSystem .boot).ReachableVia (serial fun _ => True) s) (hq : s.Quiet)
    (p : MsgPorts) (pm : PumpMsg)
    (hne : ((s.mgr.withPorts p).dispatchMsg pm).ret ≠ .success)
    (hne' : ((s.mgr.withPorts p).dispatchMsg pm).ret ≠ .timerError) :
    let m := s.mgr.withPorts p
    let r := m.dispatchMsg pm
    r.mgr.pump = p.pump ∧ r.mgr.timers = p.timers ∧
      (∀ inst event, .completed inst event ∉ r.events) ∧
      (¬ RefusedCreation m pm → r.mgr.facList = s.mgr.facList) ∧
      (RefusedCreation m pm → r.ret = .invalidState ∧
        ∃ fac fac', s.mgr.findFactory pm.msg.serviceId = some fac ∧ Stranded fac fac' ∧
          r.mgr.facList = s.mgr.facList.map fun f =>
            if f.facId = fac.facId then fac' else f) := by
  have hw := allWorking_of_reachable (seq_reachable_of_quiet h hq)
  exact failed_dispatched (dispatched_dispatchMsg (m := s.mgr.withPorts p) hw pm) hne hne'

/-- With a live instance in each factory: the first ignores a second `MSG_INIT`, and when the
manager is stopped another `MSG_INIT` leaves its instance behind the first. -/
theorem failed_dispatch_live :
    ∃ (s : DispatchState FsmKind) (r r' : DispatchResult FsmKind),
      (dispatchSystem .boot).ReachableVia (serial fun _ => True) s ∧ s.Quiet ∧
      s.mgr.facList.map (fun f => f.fsmList.map Cfsm.state) = [[.working], [.working]] ∧
      r = s.mgr.dispatchMsg ⟨{ serviceId := 1, fsmId := 1 }, .client 0⟩ ∧
      r.ret = .invalidMsg ∧ r.mgr.pump = s.mgr.pump ∧ r.mgr.facList = s.mgr.facList ∧
      r' = (s.mgr.withPorts { pump := { stopped := true } }).dispatchMsg
        ⟨{ serviceId := 1 }, .client 0⟩ ∧
      r'.ret = .invalidState ∧ r'.mgr.pump.queue = [] ∧
      ∃ fac fac', s.mgr.findFactory 1 = some fac ∧ Stranded fac fac' ∧
        fac'.fsmList.map Cfsm.inst = [0, 1] := by
  obtain ⟨a, fac, ha, hlive, hopen, hret, hret', hfac, hnone, hroom, hinst, hcreated⟩ :
      ∃ (a : SeqState FsmKind) (fac : Cfactory FsmKind),
        (seqSystem .boot).exec (fun a l => decide (admits (fun _ => True) a l)) ⟨.boot, []⟩
          [.env (.sendMsg 0 { serviceId := 1 }), .env (.sendMsg 1 { serviceId := 3 }), .dispatch,
            .dispatch] = some a ∧
        a.mgr.facList.map (fun f => f.fsmList.map Cfsm.state) = [[.working], [.working]] ∧
        a.mgr.pump.stopped = false ∧
        (a.mgr.dispatchMsg ⟨{ serviceId := 1, fsmId := 1 }, .client 0⟩).ret = .invalidMsg ∧
        ((a.mgr.withPorts { pump := { stopped := true } }).dispatchMsg
          ⟨{ serviceId := 1 }, .client 0⟩).ret = .invalidState ∧
        a.mgr.findFactory 1 = some fac ∧ fac.route 0 = none ∧
        fac.fsmList.length < fsmNumInFac ∧ fac.fsmList.map Cfsm.inst = [0] ∧ fac.created = 1 :=
    ⟨_, _, rfl, by decide, rfl, by decide, by decide, rfl, by decide, by decide, by decide,
      by decide⟩
  have hr := resting_of_exec ha
  obtain ⟨hpump, -, -, hsame, -⟩ := failed_dispatch hr (fun _ => rfl) a.mgr.toMsgPorts
    ⟨{ serviceId := 1, fsmId := 1 }, .client 0⟩ (ne_of_eq_of_ne hret (by decide))
    (ne_of_eq_of_ne hret (by decide))
  obtain ⟨hpump', -, -, -, hrefused⟩ := failed_dispatch hr (fun _ => rfl)
    { pump := { stopped := true } } ⟨{ serviceId := 1 }, .client 0⟩
    (ne_of_eq_of_ne hret' (by decide)) (ne_of_eq_of_ne hret' (by decide))
  obtain ⟨-, fac₀, fac', hfac₀, hstranded, -⟩ :=
    hrefused ⟨rfl, rfl, fac, hfac, hnone, hroom⟩
  obtain rfl : fac₀ = fac := Option.some.inj (hfac₀.symm.trans hfac)
  refine ⟨_, _, _, hr, fun _ => rfl, hlive, rfl, hret, hpump,
    hsame ?_, rfl, hret', by rw [hpump'], fac₀, fac', hfac, hstranded, ?_⟩
  · rintro ⟨hstopped, -⟩
    exact absurd (hopen.symm.trans hstopped) (by simp)
  · rw [hstranded.fsmList, List.map_append, hinst, hcreated]
    rfl

/-- The exception happens: a client posts `MSG_INIT`, the manager is stopped, and the worker
drains its queue. -/
theorem refused_creation_changes_factory :
    ∃ s : DispatchState FsmKind, (dispatchSystem .boot).ReachableVia (serial fun _ => True) s ∧
      s.Quiet ∧ ∃ pm p, s.mgr.toMsgPorts = p.unpop pm ∧
        ((s.mgr.withPorts p).dispatchMsg pm).ret = .invalidState ∧
        ((s.mgr.withPorts p).dispatchMsg pm).mgr.facList.map
          (fun f => (f.fsmList.map Cfsm.state, f.nextFsmId)) = [([.working], 2), ([], 1)] ∧
        s.mgr.facList.map (fun f => (f.fsmList.map Cfsm.state, f.nextFsmId)) =
          [([], 1), ([], 1)] := by
  obtain ⟨a, ha, hrest⟩ : ∃ a : SeqState FsmKind,
      (seqSystem .boot).exec (fun a l => decide (admits (fun _ => True) a l)) ⟨.boot, []⟩
        [.env (.sendMsg 0 { serviceId := 1 }), .env .stop] = some a ∧
      ∃ pm p, a.mgr.toMsgPorts = p.unpop pm ∧
        ((a.mgr.withPorts p).dispatchMsg pm).ret = .invalidState ∧
        ((a.mgr.withPorts p).dispatchMsg pm).mgr.facList.map
          (fun f => (f.fsmList.map Cfsm.state, f.nextFsmId)) = [([.working], 2), ([], 1)] ∧
        a.mgr.facList.map (fun f => (f.fsmList.map Cfsm.state, f.nextFsmId)) =
          [([], 1), ([], 1)] :=
    ⟨_, rfl, ⟨{ serviceId := 1 }, .client 0⟩, { pump := { stopped := true } }, by decide,
      by decide, by decide, by decide⟩
  exact ⟨.resting a.mgr a.events, resting_of_exec ha, fun _ => rfl, hrest⟩

end FsmFramework
