import FsmFramework.CfactoryMgr

/-!
# What one dispatch can do

Between dispatches every instance of `RegFactory` and `AuthFactory` is `WORKING`
(`AllWorking`), so a dispatch is one of five things, `Dispatched`: it is rejected without
being handed to anyone, it creates an instance, or the instance it is handed to ignores it,
goes on, or closes.
-/

namespace FsmFramework

/-- Every instance is `WORKING`. -/
def AllWorking (m : CfactoryMgr FsmKind) : Prop :=
  ∀ fac ∈ m.facList, ∀ fsm ∈ fac.fsmList, fsm.state = .working

/-- The message as the instance sees it. -/
def handedTo (fsm : Cfsm) (pm : PumpMsg) : PumpMsg :=
  { pm with msg := { pm.msg with fsmId := fsm.fsmId } }

/-- The events of `DispatchToFsm` up to its test of the state. -/
def handedEvents (fac : Cfactory FsmKind) (fsm : Cfsm) (pm : PumpMsg) (ret : EerrNo) :
    List Event :=
  [.called fac.facId fsm.inst .prePrcMsg, .called fac.facId fsm.inst .processMsg,
    .processed fac.facId fsm.inst (handedTo fsm pm) ret,
    .called fac.facId fsm.inst .postPrcMsg, .called fac.facId fsm.inst .getState]

/-- Every dispatch of `pm`, with what it comes back with. -/
inductive Dispatched (m : CfactoryMgr FsmKind) (pm : PumpMsg) : DispatchResult FsmKind → Prop
  | rejected {ret : EerrNo} (hret : ret = .invalidMsg ∨ ret = .error)
      (hwhy : ∀ fac, m.findFactory pm.msg.serviceId = some fac → fac.route pm.msg.fsmId = none ∧
        (pm.msg.type = .msgInit → ret = .error ∧ fac.addFsm = none)) :
      Dispatched m pm ⟨ret, m, [.returned pm ret none]⟩
  | created {fac fac' : Cfactory FsmKind} {fsm : Cfsm} {ret : EerrNo} {p : MsgPorts}
      (hfac : m.findFactory pm.msg.serviceId = some fac) (hroute : fac.route pm.msg.fsmId = none)
      (htype : pm.msg.type = .msgInit) (hadd : fac.addFsm = some (fsm, fac'))
      (hpost : m.toMsgPorts.sendMsg ⟨nextMsg fsm pm.msg .msgConnect, .fsm fac.facId fsm.inst⟩ =
        (ret, p)) :
      Dispatched m pm ⟨ret, (m.setFactory (fac'.setState fsm.inst .working)).withPorts p,
        .created fac.facId fsm.inst fsm.fsmId pm :: handedEvents fac fsm pm ret ++
          [.returned (handedTo fsm pm) ret (some (fac.facId, fsm.inst))]⟩
  | ignored {fac : Cfactory FsmKind} {fsm : Cfsm}
      (hfac : m.findFactory pm.msg.serviceId = some fac)
      (hroute : fac.route pm.msg.fsmId = some fsm)
      (hrule : fac.kind.rule .working pm.msg.type = none) :
      Dispatched m pm ⟨.invalidMsg, m, handedEvents fac fsm pm .invalidMsg ++
        [.returned (handedTo fsm pm) .invalidMsg (some (fac.facId, fsm.inst))]⟩
  | wentOn {fac : Cfactory FsmKind} {fsm : Cfsm} {tr : FsmTransition FsmAction} {ret : EerrNo}
      {p : MsgPorts} (hfac : m.findFactory pm.msg.serviceId = some fac)
      (hroute : fac.route pm.msg.fsmId = some fsm)
      (hrule : fac.kind.rule .working pm.msg.type = some tr) (hclose : pm.msg.type ≠ .msgClose)
      (hpost : postNextEvent fac.facId tr (handedTo fsm pm).msg fsm m.toMsgPorts = (ret, p)) :
      Dispatched m pm ⟨ret, m.withPorts p, handedEvents fac fsm pm ret ++
        [.returned (handedTo fsm pm) ret (some (fac.facId, fsm.inst))]⟩
  | closed {fac : Cfactory FsmKind} {fsm : Cfsm}
      (hfac : m.findFactory pm.msg.serviceId = some fac)
      (hroute : fac.route pm.msg.fsmId = some fsm) (htype : pm.msg.type = .msgClose) :
      Dispatched m pm ⟨.success, m.setFactory (fac.killFsm fsm.fsmId).2,
        handedEvents fac fsm pm .success ++
          [.completed fsm.inst (CfactoryMgr.completionEvent fac.facId fsm.fsmId pm.msg .success),
            .removed fac.facId fsm.inst,
            .returned (handedTo fsm pm) .success (some (fac.facId, fsm.inst))]⟩

variable {m : CfactoryMgr FsmKind} {fac fac' : Cfactory FsmKind} {fsm : Cfsm} {pm : PumpMsg}

/-- A machine that has just been created takes `MSG_INIT` and posts `MSG_CONNECT`. -/
theorem processMsg_idle (k : FsmKind) (facId : UInt32) (msg : CMsg) (p : MsgPorts)
    (hidle : fsm.state = .idle) (htype : msg.type = .msgInit) :
    BusinessFsm.processMsg k facId fsm msg p =
      ((p.sendMsg ⟨nextMsg fsm msg .msgConnect, .fsm facId fsm.inst⟩).1, fsm.setState .working,
        (p.sendMsg ⟨nextMsg fsm msg .msgConnect, .fsm facId fsm.inst⟩).2) := by
  obtain ⟨tr, htr⟩ := k.rule_idle_init
  obtain ⟨-, hto, hnext, hev, hdelay⟩ := k.rule_idle htr
  have hrule : findFsmTransition k.getTransitions fsm.state msg.type = some tr := by
    rw [hidle, htype]
    exact htr
  show k.processMsg facId fsm msg p = _
  rw [FsmKind.processMsg_eq, executeFsmTransition_next (by simp [hidle]) hrule hnext, hto]
  simp [postNextEvent, hdelay, hev, runAction, nextMsg]

/-- A `WORKING` machine whose table has no rule for the message ignores it. -/
theorem processMsg_ignored (k : FsmKind) (facId : UInt32) (msg : CMsg) (p : MsgPorts)
    (hw : fsm.state = .working) (hrule : k.rule .working msg.type = none) :
    BusinessFsm.processMsg k facId fsm msg p = (.invalidMsg, fsm, p) := by
  show k.processMsg facId fsm msg p = _
  rw [FsmKind.processMsg_eq]
  exact executeFsmTransition_none (by simp [hw]) (hw ▸ hrule)

/-- A `WORKING` machine that goes on stays `WORKING` and posts its follow-up. -/
theorem processMsg_wentOn (k : FsmKind) (facId : UInt32) (msg : CMsg) (p : MsgPorts)
    {tr : FsmTransition FsmAction} (hw : fsm.state = .working)
    (hrule : k.rule .working msg.type = some tr) (hclose : msg.type ≠ .msgClose) :
    BusinessFsm.processMsg k facId fsm msg p =
      ((postNextEvent facId tr msg fsm p).1, fsm, (postNextEvent facId tr msg fsm p).2) := by
  obtain ⟨-, hto, hnext, -⟩ | ⟨hc, -⟩ := k.rule_working hrule
  · show k.processMsg facId fsm msg p = _
    rw [FsmKind.processMsg_eq, executeFsmTransition_next (by simp [hw]) (hw ▸ hrule) hnext, hto,
      ← hw, fsm.setState_self]
    rfl
  · exact absurd hc hclose

/-- `MSG_CLOSE` ends a `WORKING` machine. -/
theorem processMsg_closed (k : FsmKind) (facId : UInt32) (msg : CMsg) (p : MsgPorts)
    (hw : fsm.state = .working) (htype : msg.type = .msgClose) :
    BusinessFsm.processMsg k facId fsm msg p = (.success, fsm.setState .killFsm, p) := by
  obtain ⟨tr, htr⟩ := k.rule_working_close
  obtain ⟨hc, -⟩ | ⟨-, hto, hnext⟩ := k.rule_working htr
  · exact absurd rfl hc
  · have hrule : findFsmTransition k.getTransitions fsm.state msg.type = some tr := by
      rw [hw, htype]
      exact htr
    show k.processMsg facId fsm msg p = _
    rw [FsmKind.processMsg_eq, executeFsmTransition_last (by simp [hw]) hrule hnext, hto]
    rfl

section DispatchToFsm

variable {fsm' : Cfsm} {ret : EerrNo} {p : MsgPorts}

theorem dispatchToFsm_of_alive
    (hpm : BusinessFsm.processMsg fac.kind fac.facId fsm (handedTo fsm pm).msg m.toMsgPorts =
      (ret, fsm', p)) (hk : fsm'.state ≠ .killFsm) :
    m.dispatchToFsm fac fsm pm =
      ⟨ret, (m.setFactory (fac.setState fsm.inst fsm'.state)).withPorts p,
        handedEvents fac fsm pm ret ++
          [.returned (handedTo fsm pm) ret (some (fac.facId, fsm.inst))]⟩ := by
  simp only [handedTo] at hpm
  simp only [CfactoryMgr.dispatchToFsm, hpm, if_neg hk]
  rfl

theorem dispatchToFsm_of_terminal (hfind : fac.findFsm fsm.fsmId = some fsm)
    (hpm : BusinessFsm.processMsg fac.kind fac.facId fsm (handedTo fsm pm).msg m.toMsgPorts =
      (ret, fsm', p)) (hk : fsm'.state = .killFsm) :
    m.dispatchToFsm fac fsm pm =
      ⟨ret, (m.setFactory (fac.killFsm fsm.fsmId).2).withPorts p,
        handedEvents fac fsm pm ret ++
          [.completed fsm.inst (CfactoryMgr.completionEvent fac.facId fsm.fsmId pm.msg ret),
            .removed fac.facId fsm.inst,
            .returned (handedTo fsm pm) ret (some (fac.facId, fsm.inst))]⟩ := by
  have hfind' : (fac.setState fsm.inst .killFsm).findFsm fsm.fsmId =
      some { fsm with state := .killFsm } := by simp [Cfactory.findFsm_setState, hfind]
  have hmgr : ((m.setFactory (fac.setState fsm.inst .killFsm)).withPorts p).setFactory
      ((fac.setState fsm.inst .killFsm).killFsm fsm.fsmId).2 =
        (m.setFactory (fac.killFsm fsm.fsmId).2).withPorts p := by
    rw [CfactoryMgr.setFactory_withPorts, CfactoryMgr.setFactory_setFactory Cfactory.killFsm_facId,
      Cfactory.killFsm_setState hfind]
  simp only [handedTo] at hpm
  simp only [CfactoryMgr.dispatchToFsm, hpm, hk, if_true, CfactoryMgr.killFsm, hfind', hmgr]
  rfl

end DispatchToFsm

/-- **The cases of a dispatch.** -/
theorem dispatched_dispatchMsg (hw : AllWorking m) (pm : PumpMsg) :
    Dispatched m pm (m.dispatchMsg pm) := by
  rw [CfactoryMgr.dispatchMsg]
  cases hf : m.findFactory pm.msg.serviceId with
  | none => exact .rejected (.inl rfl) (by simp [hf])
  | some fac =>
      obtain ⟨hmem, hid⟩ := CfactoryMgr.findFactory_eq_some_iff.mp hf
      simp only [CfactoryMgr.facMsgPrc]
      cases hr : fac.route pm.msg.fsmId with
      | some fsm =>
          obtain ⟨hfsm, -, -⟩ := Cfactory.mem_of_route hr
          have hwork := hw fac hmem fsm hfsm
          have hself : m.setFactory (fac.setState fsm.inst fsm.state) = m := by
            rw [Cfactory.setState_self (Cfactory.deref_of_mem hfsm),
              CfactoryMgr.setFactory_self hmem]
          have halive : fsm.state ≠ .killFsm := by simp [hwork]
          rcases hrule : fac.kind.rule .working pm.msg.type with _ | tr
          · simp only [dispatchToFsm_of_alive
              (processMsg_ignored fac.kind fac.facId _ m.toMsgPorts hwork hrule) halive, hself]
            exact .ignored hf hr hrule
          · by_cases hclose : pm.msg.type = .msgClose
            · simp only [dispatchToFsm_of_terminal (Cfactory.findFsm_self_of_route hr)
                (processMsg_closed fac.kind fac.facId _ m.toMsgPorts hwork hclose)
                (Cfsm.setState_state _ _)]
              exact .closed hf hr hclose
            · simp only [dispatchToFsm_of_alive
                (processMsg_wentOn fac.kind fac.facId _ m.toMsgPorts hwork hrule hclose) halive,
                hself]
              exact .wentOn hf hr hrule hclose rfl
      | none =>
          by_cases htype : pm.msg.type = .msgInit
          · rcases hadd : fac.addFsm with _ | ⟨fsm, fac'⟩
            · simp only [htype, ne_eq, not_true_eq_false, if_false]
              exact .rejected (.inr rfl) (by simp_all)
            · obtain ⟨hnew, hid', -, -, -, -⟩ := Cfactory.addFsm_some hadd
              have hpm := processMsg_idle fac'.kind fac'.facId (handedTo fsm pm).msg
                (m.setFactory fac').toMsgPorts (show fsm.state = .idle by rw [hnew]) htype
              have hset : (m.setFactory fac').setFactory (fac'.setState fsm.inst .working) =
                  m.setFactory (fac'.setState fsm.inst .working) :=
                CfactoryMgr.setFactory_setFactory Cfactory.setState_facId
              simp only [htype, ne_eq, not_true_eq_false, if_false]
              rw [dispatchToFsm_of_alive hpm (by simp), Cfsm.setState_state, hset]
              simp only [handedEvents, hid']
              exact .created hf hr htype hadd rfl
          · simp only [htype, ne_eq, not_false_eq_true, if_true]
            exact .rejected (.inl rfl) (by simp_all)

end FsmFramework
