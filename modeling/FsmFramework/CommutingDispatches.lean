import FsmFramework.FailedDispatch
import FsmFramework.Flow

/-!
# Dispatches that do not interfere

Between dispatches the factory that a message is for determines what its dispatch does, whatever
the other factories and the ports look like: what it writes to this factory, which follow-up it
posts, and what it reports. This is its `DispatchPlan`. Two dispatches whose targets differ leave
each other's plans alone, and carried out in either order they come to the same.

## Main results

* `planned_dispatchMsg` — a dispatch carries out its plan.
* `dispatch_comm` — two dispatches to different targets, in either order.
-/

namespace FsmFramework

/-! ## Plans -/

/-- What a dispatch does to its factory and to the ports, and what it reports. The follow-up is
posted after a delay, which may be zero; `ret` is returned where there is none. -/
structure DispatchPlan where
  write : Cfactory FsmKind → Cfactory FsmKind := id
  followUp : Option (UInt32 × PumpMsg) := none
  ret : EerrNo := .success
  completions : List FsmCompletionEvent := []

/-- Create an instance that enters `WORKING`. -/
def Cfactory.createWorking (fac : Cfactory FsmKind) : Cfactory FsmKind :=
  match fac.addFsm with
  | some (fsm, fac') => fac'.setState fsm.inst .working
  | none => fac

namespace DispatchPlan

/-- The plan for an instance that is found. -/
def handed (kind : FsmKind) (facId : UInt32) (fsm : Cfsm) (pm : PumpMsg) : DispatchPlan :=
  match kind.rule .working pm.msg.type with
  | none => { ret := .invalidMsg }
  | some tr =>
      if pm.msg.type = .msgClose then {
        write := fun fac => (fac.killFsm fsm.fsmId).2
        completions := [CfactoryMgr.completionEvent facId fsm.fsmId pm.msg .success] }
      else
        let m : PumpMsg := ⟨nextMsg fsm (handedTo fsm pm).msg tr.nextEvent, .fsm facId fsm.inst⟩
        { followUp := some (tr.delayMs, m) }

/-- The plan for a message, from the factory it is for. -/
def of (fac : Option (Cfactory FsmKind)) (pm : PumpMsg) : DispatchPlan :=
  match fac with
  | none => { ret := .invalidMsg }
  | some fac =>
      match fac.route pm.msg.fsmId with
      | some fsm => handed fac.kind fac.facId fsm pm
      | none =>
          if pm.msg.type ≠ .msgInit then { ret := .invalidMsg }
          else match fac.addFsm with
            | none => { ret := .error }
            | some (fsm, _) => {
                write := Cfactory.createWorking
                followUp := some (0, ⟨nextMsg fsm pm.msg .msgConnect, .fsm fac.facId fsm.inst⟩) }

/-- Post the follow-up. -/
def post (plan : DispatchPlan) (p : MsgPorts) : EerrNo × MsgPorts :=
  match plan.followUp with
  | none => (plan.ret, p)
  | some (delayMs, m) =>
      if delayMs = 0 then p.sendMsg m
      else
        let r := p.startTimer delayMs m
        (if r.1 = 0 then .timerError else .success, r.2)

end DispatchPlan

/-- The completions that are reported, in order. -/
def completionsOf (events : List Event) : List FsmCompletionEvent :=
  events.filterMap fun
    | .completed _ event => some event
    | _ => none

/-- The plan for a message in this state. -/
def CfactoryMgr.plan (m : CfactoryMgr FsmKind) (pm : PumpMsg) : DispatchPlan :=
  .of (m.findFactory pm.msg.serviceId) pm

/-- The dispatch does what the plan says. -/
structure Planned (m : CfactoryMgr FsmKind) (serviceId : UInt32) (plan : DispatchPlan)
    (r : DispatchResult FsmKind) : Prop where
  ret : r.ret = (plan.post m.toMsgPorts).1
  facList : r.mgr.facList = KeyedList.modify Cfactory.facId serviceId plan.write m.facList
  ports : r.mgr.toMsgPorts = (plan.post m.toMsgPorts).2
  completions : completionsOf r.events = plan.completions

variable {m : CfactoryMgr FsmKind} {pm : PumpMsg} {fac : Cfactory FsmKind} {fsm : Cfsm}

/-- Writing one factory is changing it where it stands. -/
theorem setFactory_facList {serviceId : UInt32} {g : Cfactory FsmKind → Cfactory FsmKind}
    (hfac : m.findFactory serviceId = some fac) (hid : (g fac).facId = serviceId) :
    (m.setFactory (g fac)).facList = KeyedList.modify Cfactory.facId serviceId g m.facList := by
  show KeyedList.modify _ _ _ _ = _
  rw [hid]
  refine KeyedList.modify_congr fun x hx hk => ?_
  rw [CfactoryMgr.eq_of_facId_eq hx (CfactoryMgr.mem_of_findFactory hfac)
    (hk.trans (CfactoryMgr.findFactory_facId hfac).symm)]

theorem modify_id {serviceId : UInt32} {l : List (Cfactory FsmKind)} :
    KeyedList.modify Cfactory.facId serviceId id l = l :=
  KeyedList.modify_eq_self fun _ _ _ => rfl

/-- **A dispatch carries out its plan.** -/
theorem planned_dispatchMsg (hw : AllWorking m) (pm : PumpMsg) :
    Planned m pm.msg.serviceId (m.plan pm) (m.dispatchMsg pm) := by
  have hd := dispatched_dispatchMsg hw pm
  generalize hr : m.dispatchMsg pm = r at hd
  rw [CfactoryMgr.plan]
  cases hd with
  | @rejected ret hret hwhy =>
      cases hf : m.findFactory pm.msg.serviceId with
      | none =>
          rw [CfactoryMgr.dispatchMsg, hf] at hr
          exact ⟨(congrArg DispatchResult.ret hr).symm, modify_id.symm, rfl, rfl⟩
      | some fac =>
          obtain ⟨hroute, hfull⟩ := hwhy fac hf
          by_cases htype : pm.msg.type = .msgInit
          · obtain ⟨rfl, hadd⟩ := hfull htype
            simp only [DispatchPlan.of, hroute, htype, ne_eq, not_true_eq_false, if_false, hadd]
            exact ⟨rfl, modify_id.symm, rfl, rfl⟩
          · simp only [CfactoryMgr.dispatchMsg, hf, CfactoryMgr.facMsgPrc, hroute, ne_eq, htype,
              not_false_eq_true, if_true] at hr
            simp only [DispatchPlan.of, hroute, ne_eq, htype, not_false_eq_true, if_true]
            exact ⟨(congrArg DispatchResult.ret hr).symm, modify_id.symm, rfl, rfl⟩
  | @created fac fac' fsm ret p hfac hroute htype hadd hpost =>
      have hcreate : fac.createWorking = fac'.setState fsm.inst .working := by
        rw [Cfactory.createWorking, hadd]
      simp only [hfac, DispatchPlan.of, hroute, htype, ne_eq, not_true_eq_false, if_false, hadd]
      refine ⟨(congrArg Prod.fst hpost).symm, ?_, (congrArg Prod.snd hpost).symm, rfl⟩
      rw [← hcreate]
      refine setFactory_facList (g := Cfactory.createWorking) hfac ?_
      rw [hcreate, Cfactory.setState_facId, (Cfactory.addFsm_some hadd).2.1]
      exact CfactoryMgr.findFactory_facId hfac
  | @ignored fac fsm hfac hroute hrule =>
      simp only [hfac, DispatchPlan.of, hroute, DispatchPlan.handed, hrule]
      exact ⟨rfl, modify_id.symm, rfl, rfl⟩
  | @wentOn fac fsm tr ret p hfac hroute hrule hclose hpost =>
      simp only [hfac, DispatchPlan.of, hroute, DispatchPlan.handed, hrule, if_neg hclose]
      rw [postNextEvent] at hpost
      refine ⟨(congrArg Prod.fst hpost).symm, modify_id.symm, (congrArg Prod.snd hpost).symm, rfl⟩
  | @closed fac fsm hfac hroute htype =>
      obtain ⟨tr, hrule⟩ := fac.kind.rule_working_close
      simp only [hfac, DispatchPlan.of, hroute, DispatchPlan.handed, htype, hrule, if_true]
      refine ⟨rfl, ?_, rfl, rfl⟩
      exact setFactory_facList (g := fun fac => (fac.killFsm fsm.fsmId).2) hfac
        (Cfactory.killFsm_facId.trans (CfactoryMgr.findFactory_facId hfac))

/-! ## Targets that differ -/

/-- The messages are for different factories, or for different instances of one factory. -/
def Apart (m : CfactoryMgr FsmKind) (pm₁ pm₂ : PumpMsg) : Prop :=
  pm₁.msg.serviceId ≠ pm₂.msg.serviceId ∨
    ∃ fac fsm₁ fsm₂, m.findFactory pm₁.msg.serviceId = some fac ∧
      m.findFactory pm₂.msg.serviceId = some fac ∧ fac.route pm₁.msg.fsmId = some fsm₁ ∧
      fac.route pm₂.msg.fsmId = some fsm₂ ∧ fsm₁ ≠ fsm₂

theorem Apart.symm {pm₁ pm₂ : PumpMsg} (h : Apart m pm₁ pm₂) : Apart m pm₂ pm₁ := by
  obtain h | ⟨fac, fsm₁, fsm₂, hfac₁, hfac₂, hroute₁, hroute₂, hne⟩ := h
  · exact .inl h.symm
  · exact .inr ⟨fac, fsm₂, fsm₁, hfac₂, hfac₁, hroute₂, hroute₁, hne.symm⟩

/-- What the two cases mean for the plans. -/
theorem Apart.cases {pm₁ pm₂ : PumpMsg} (h : Apart m pm₁ pm₂) :
    pm₁.msg.serviceId ≠ pm₂.msg.serviceId ∨
      ∃ fac fsm₁ fsm₂, pm₁.msg.serviceId = pm₂.msg.serviceId ∧
        m.findFactory pm₂.msg.serviceId = some fac ∧ fac.route pm₁.msg.fsmId = some fsm₁ ∧
        fac.route pm₂.msg.fsmId = some fsm₂ ∧ fsm₁.inst ≠ fsm₂.inst ∧
        m.plan pm₁ = .handed fac.kind fac.facId fsm₁ pm₁ ∧
        m.plan pm₂ = .handed fac.kind fac.facId fsm₂ pm₂ := by
  obtain h | ⟨fac, fsm₁, fsm₂, hfac₁, hfac₂, hroute₁, hroute₂, hne⟩ := h
  · exact .inl h
  · refine .inr ⟨fac, fsm₁, fsm₂, ?_, hfac₂, hroute₁, hroute₂, fun heq => hne ?_, ?_, ?_⟩
    · exact (CfactoryMgr.findFactory_facId hfac₁).symm.trans (CfactoryMgr.findFactory_facId hfac₂)
    · exact Cfactory.eq_of_inst_eq (Cfactory.mem_of_route hroute₁).1
        (Cfactory.mem_of_route hroute₂).1 heq
    · simp only [CfactoryMgr.plan, hfac₁, DispatchPlan.of, hroute₁]
    · simp only [CfactoryMgr.plan, hfac₂, DispatchPlan.of, hroute₂]

section Writes

variable {fsm₁ fsm₂ : Cfsm} {pm₁ pm₂ : PumpMsg} {id₁ id₂ : UInt32}

/-- An instance that is found closes or stays as it is. -/
theorem handed_write (kind : FsmKind) (facId : UInt32) (fsm : Cfsm) (pm : PumpMsg) :
    (DispatchPlan.handed kind facId fsm pm).write = id ∨
      (DispatchPlan.handed kind facId fsm pm).write = fun fac => (fac.killFsm fsm.fsmId).2 := by
  rw [DispatchPlan.handed]
  split
  · exact .inl rfl
  · split
    · exact .inr rfl
    · exact .inl rfl

theorem createWorking_facId : fac.createWorking.facId = fac.facId := by
  rw [Cfactory.createWorking]
  split
  · rename_i hadd
    exact (Cfactory.addFsm_some hadd).2.1
  · rfl

/-- A plan leaves the factory its id. -/
theorem write_facId {o : Option (Cfactory FsmKind)} :
    ((DispatchPlan.of o pm).write fac).facId = fac.facId := by
  cases o with
  | none => rfl
  | some fac' =>
      simp only [DispatchPlan.of]
      split
      · rename_i fsm hroute
        obtain h | h := handed_write fac'.kind fac'.facId fsm pm
        · rw [h]
          rfl
        · rw [h]
          exact Cfactory.killFsm_facId
      · split
        · rfl
        · split
          · rfl
          · exact createWorking_facId

/-- Removals of two instances commute. -/
theorem killFsm_comm (h₁ : fac.findFsm id₁ = some fsm₁) (h₂ : fac.findFsm id₂ = some fsm₂)
    (hne : fsm₁.inst ≠ fsm₂.inst) :
    ((fac.killFsm id₁).2.killFsm id₂).2 = ((fac.killFsm id₂).2.killFsm id₁).2 := by
  have h₁₂ : (fac.killFsm id₁).2.findFsm id₂ = some fsm₂ :=
    Cfactory.findFsm_killFsm (fun y hy => by
      obtain rfl := Option.some.inj (h₁.symm.trans hy)
      exact hne) h₂
  have h₂₁ : (fac.killFsm id₂).2.findFsm id₁ = some fsm₁ :=
    Cfactory.findFsm_killFsm (fun y hy => by
      obtain rfl := Option.some.inj (h₂.symm.trans hy)
      exact hne.symm) h₁
  obtain ⟨-, hid₁, hkind₁, hnext₁, hcre₁, hlist₁⟩ := Cfactory.killFsm_of_some h₁
  obtain ⟨-, hid₂, hkind₂, hnext₂, hcre₂, hlist₂⟩ := Cfactory.killFsm_of_some h₂
  obtain ⟨-, hid₁₂, hkind₁₂, hnext₁₂, hcre₁₂, hlist₁₂⟩ := Cfactory.killFsm_of_some h₁₂
  obtain ⟨-, hid₂₁, hkind₂₁, hnext₂₁, hcre₂₁, hlist₂₁⟩ := Cfactory.killFsm_of_some h₂₁
  refine Cfactory.ext ?_ ?_ ?_ ?_ ?_
  · rw [hid₁₂, hid₁, hid₂₁, hid₂]
  · rw [hkind₁₂, hkind₁, hkind₂₁, hkind₂]
  · rw [hnext₁₂, hnext₁, hnext₂₁, hnext₂]
  · rw [hlist₁₂, hlist₁, hlist₂₁, hlist₂, List.filter_comm]
  · rw [hcre₁₂, hcre₁, hcre₂₁, hcre₂]

/-- The other instance is still found, after the dispatch of the first one. -/
theorem handed_stable (h₁ : fac.route pm₁.msg.fsmId = some fsm₁)
    (h₂ : fac.route pm₂.msg.fsmId = some fsm₂) (hne : fsm₁.inst ≠ fsm₂.inst) {k : FsmKind}
    {facId : UInt32} :
    DispatchPlan.of (some ((DispatchPlan.handed k facId fsm₁ pm₁).write fac)) pm₂ =
      DispatchPlan.of (some fac) pm₂ := by
  obtain h | h := handed_write k facId fsm₁ pm₁
  · rw [h]
    rfl
  · rw [h]
    obtain ⟨hne₂, hfind₂⟩ := Cfactory.findFsm_of_route h₂
    have hroute : (fac.killFsm fsm₁.fsmId).2.route pm₂.msg.fsmId = some fsm₂ := by
      rw [Cfactory.route, if_pos hne₂]
      refine Cfactory.findFsm_killFsm (fun y hy => ?_) hfind₂
      obtain rfl := Option.some.inj ((Cfactory.findFsm_self_of_route h₁).symm.trans hy)
      exact hne
    simp only [DispatchPlan.of, hroute, h₂, Cfactory.killFsm_kind, Cfactory.killFsm_facId]

/-- The plan for the second message is the same after the first dispatch. -/
theorem plan_stable {r : DispatchResult FsmKind} (hapart : Apart m pm₁ pm₂)
    (hr : Planned m pm₁.msg.serviceId (m.plan pm₁) r) : r.mgr.plan pm₂ = m.plan pm₂ := by
  have hkey : ∀ x : Cfactory FsmKind, x.facId = pm₁.msg.serviceId →
      ((m.plan pm₁).write x).facId = pm₁.msg.serviceId := fun x hx => write_facId.trans hx
  rw [CfactoryMgr.plan, CfactoryMgr.plan, CfactoryMgr.findFactory, hr.facList]
  obtain hne | ⟨fac, fsm₁, fsm₂, hid, hfac, hroute₁, hroute₂, hinst, hplan, -⟩ := hapart.cases
  · rw [KeyedList.lookup_modify_of_ne hkey hne]
    rfl
  · have hlookup : KeyedList.lookup Cfactory.facId pm₂.msg.serviceId m.facList = some fac := hfac
    rw [hid] at hkey ⊢
    rw [KeyedList.lookup_modify_self hkey, hlookup, hfac, hplan]
    exact handed_stable hroute₁ hroute₂ hinst

/-- What two plans write commutes. -/
theorem write_comm (hapart : Apart m pm₁ pm₂) :
    KeyedList.modify Cfactory.facId pm₂.msg.serviceId (m.plan pm₂).write
        (KeyedList.modify Cfactory.facId pm₁.msg.serviceId (m.plan pm₁).write m.facList) =
      KeyedList.modify Cfactory.facId pm₁.msg.serviceId (m.plan pm₁).write
        (KeyedList.modify Cfactory.facId pm₂.msg.serviceId (m.plan pm₂).write m.facList) := by
  have hkey : ∀ pm : PumpMsg, ∀ x : Cfactory FsmKind, x.facId = pm.msg.serviceId →
      ((m.plan pm).write x).facId = pm.msg.serviceId := fun _ _ hx => write_facId.trans hx
  obtain hne | ⟨fac, fsm₁, fsm₂, hid, hfac, hroute₁, hroute₂, hinst, hplan₁, hplan₂⟩ :=
    hapart.cases
  · exact KeyedList.modify_comm (hkey pm₂) (hkey pm₁) hne.symm
  · rw [hid, hplan₁, hplan₂]
    obtain h₁ | h₁ := handed_write fac.kind fac.facId fsm₁ pm₁
    · rw [h₁, modify_id, modify_id]
    obtain h₂ | h₂ := handed_write fac.kind fac.facId fsm₂ pm₂
    · rw [h₂, modify_id, modify_id]
    rw [h₁, h₂, KeyedList.modify_modify fun x hx => Cfactory.killFsm_facId.trans hx,
      KeyedList.modify_modify fun x hx => Cfactory.killFsm_facId.trans hx]
    refine KeyedList.modify_congr fun x hx hk => ?_
    obtain rfl : x = fac := CfactoryMgr.eq_of_facId_eq hx (CfactoryMgr.mem_of_findFactory hfac)
      (hk.trans (CfactoryMgr.findFactory_facId hfac).symm)
    exact killFsm_comm (Cfactory.findFsm_self_of_route hroute₁)
      (Cfactory.findFsm_self_of_route hroute₂) hinst

end Writes

/-! ## The ports -/

namespace DispatchPlan

variable {plan plan' : DispatchPlan} {p : MsgPorts}

/-- The messages that the plan enqueues, if the pump takes them. -/
def sent (plan : DispatchPlan) (stopped : Bool) : List PumpMsg :=
  match plan.followUp with
  | none => []
  | some (delayMs, m) => if delayMs = 0 ∧ stopped = false then [m] else []

/-- The timers that the plan starts. -/
def started (plan : DispatchPlan) : List (UInt32 × PumpMsg) :=
  match plan.followUp with
  | none => []
  | some (delayMs, m) => if delayMs = 0 then [] else [(delayMs, m)]

end DispatchPlan

/-- The delay and the message of a timer. -/
def CTimer.request (t : CTimer PumpMsg) : UInt32 × PumpMsg := (t.timeoutMs, t.timeoutMsg)

/-- Two more timers can be started before the counter wraps. -/
def MsgPorts.TimerIdsLeft (p : MsgPorts) : Prop :=
  p.timers.nextTimerId ≠ 0 ∧ p.timers.nextTimerId + 1 ≠ 0

/-- What posting the follow-up adds to the ports. -/
structure Adds (plan : DispatchPlan) (p p' : MsgPorts) : Prop where
  queue : p'.pump.queue = p.pump.queue ++ plan.sent p.pump.stopped
  stopped : p'.pump.stopped = p.pump.stopped
  timers : ∃ ts, p'.timers.timerList = p.timers.timerList ++ ts ∧
    ts.map CTimer.request = plan.started
  nextTimerId : p'.timers.nextTimerId = p.timers.nextTimerId ∨
    p'.timers.nextTimerId = p.timers.nextTimerId + 1

theorem adds_post (plan : DispatchPlan) (p : MsgPorts) : Adds plan p (plan.post p).2 := by
  cases hfollow : plan.followUp with
  | none =>
      have hpost : plan.post p = (plan.ret, p) := by rw [DispatchPlan.post, hfollow]
      rw [hpost]
      refine ⟨?_, rfl, ⟨[], ?_, ?_⟩, .inl rfl⟩
      · rw [DispatchPlan.sent, hfollow, List.append_nil]
      · rw [List.append_nil]
      · rw [DispatchPlan.started, hfollow, List.map_nil]
  | some r =>
      obtain ⟨delayMs, m⟩ := r
      by_cases hdelay : delayMs = 0
      · have hpost : plan.post p = p.sendMsg m := by
          rw [DispatchPlan.post, hfollow]
          exact if_pos hdelay
        have hstarted : plan.started = [] := by
          rw [DispatchPlan.started, hfollow]
          exact if_pos hdelay
        rw [hpost]
        cases hs : p.pump.stopped with
        | false =>
            rw [MsgPorts.sendMsg_of_running hs]
            refine ⟨?_, rfl, ⟨[], (List.append_nil _).symm, hstarted.symm⟩, .inl rfl⟩
            simp [DispatchPlan.sent, hfollow, hdelay, hs]
        | true =>
            rw [MsgPorts.sendMsg_of_stopped hs]
            refine ⟨?_, rfl, ⟨[], (List.append_nil _).symm, hstarted.symm⟩, .inl rfl⟩
            simp [DispatchPlan.sent, hfollow, hs]
      · have hpost : (plan.post p).2 = (p.startTimer delayMs m).2 := by
          rw [DispatchPlan.post, hfollow]
          exact congrArg Prod.snd (if_neg hdelay)
        rw [hpost]
        refine ⟨?_, rfl, ⟨_, rfl, ?_⟩, .inr rfl⟩
        · simp [DispatchPlan.sent, hfollow, hdelay, MsgPorts.startTimer]
        · simp [DispatchPlan.started, hfollow, hdelay, CTimer.request]

/-- The return code depends on whether the pump is stopped, and on a counter that has wrapped. -/
theorem ret_post {plan : DispatchPlan} {p p' : MsgPorts}
    (hstopped : p'.pump.stopped = p.pump.stopped) (hid : p.timers.nextTimerId ≠ 0)
    (hid' : p'.timers.nextTimerId ≠ 0) : (plan.post p').1 = (plan.post p).1 := by
  cases hfollow : plan.followUp with
  | none => simp only [DispatchPlan.post, hfollow]
  | some r =>
      obtain ⟨delayMs, m⟩ := r
      by_cases hdelay : delayMs = 0
      · have hpost : ∀ q, plan.post q = q.sendMsg m := by
          intro q
          rw [DispatchPlan.post, hfollow]
          exact if_pos hdelay
        rw [hpost, hpost]
        simp only [MsgPorts.sendMsg, Pump.sendMsg, hstopped]
        split <;> rfl
      · have hsuccess : ∀ q : MsgPorts, q.timers.nextTimerId ≠ 0 →
            (plan.post q).1 = .success := by
          intro q hq
          rw [DispatchPlan.post, hfollow]
          exact (congrArg Prod.fst (if_neg hdelay)).trans (if_neg hq)
        rw [hsuccess p hid, hsuccess p' hid']

/-! ## Everything else -/

/-- The instances of a factory without the target. -/
def others (target : Option (UInt32 × ℕ)) (fac : Cfactory FsmKind) : UInt32 × List Cfsm :=
  (fac.facId, fac.fsmList.filter fun fsm => target ≠ some (fac.facId, fsm.inst))

/-- The dispatch changes no instance but the one that processes its message. -/
def ChangesTarget (m : CfactoryMgr FsmKind) (r : DispatchResult FsmKind) : Prop :=
  ∃ target, (∀ facId inst, processedIn facId inst r.events ≠ [] ↔ target = some (facId, inst)) ∧
    r.mgr.facList.map (others target) = m.facList.map (others target)

theorem processedIn_handed {facId : UInt32} {inst : ℕ} {ret : EerrNo} {rest : List Event}
    (hrest : processedIn facId inst rest = []) :
    processedIn facId inst (handedEvents fac fsm pm ret ++ rest) ≠ [] ↔
      some (fac.facId, fsm.inst) = some (facId, inst) := by
  have hhanded : processedIn facId inst (handedEvents fac fsm pm ret) =
      if fac.facId = facId ∧ fsm.inst = inst then [pm.msg.type] else [] := by
    simp only [processedIn, handedEvents, handedTo, List.filterMap_cons, List.filterMap_nil]
    split <;> simp_all
  rw [processedIn_append, hrest, List.append_nil, hhanded]
  simp

/-- A write to a factory that keeps the instances beside the target. -/
theorem others_setFactory {target : Option (UInt32 × ℕ)} {fac' : Cfactory FsmKind}
    (hfac : fac ∈ m.facList) (hothers : others target fac' = others target fac) :
    (m.setFactory fac').facList.map (others target) = m.facList.map (others target) := by
  refine KeyedList.map_modify fun x hx hk => ?_
  have hid : fac'.facId = fac.facId := congrArg Prod.fst hothers
  rw [CfactoryMgr.eq_of_facId_eq hx hfac (hk.trans hid)]
  exact hothers

theorem changesTarget_dispatched {r : DispatchResult FsmKind} (hd : Dispatched m pm r) :
    ChangesTarget m r := by
  cases hd with
  | rejected => exact ⟨none, by simp [processedIn], rfl⟩
  | @created fac fac' fsm ret p hfac hroute htype hadd hpost =>
      obtain ⟨hnew, hid, -, -, -, -⟩ := Cfactory.addFsm_some hadd
      have hlist := (stranded_of_addFsm hadd).fsmList
      refine ⟨some (fac.facId, fsm.inst), fun facId inst => ?_, ?_⟩
      · show processedIn facId inst (handedEvents fac fsm pm ret ++ _) ≠ [] ↔ _
        exact processedIn_handed rfl
      refine others_setFactory (CfactoryMgr.mem_of_findFactory hfac) ?_
      rw [others, hlist, List.filter_append, Cfactory.setState_facId, hid, hnew]
      simp [others]
  | @ignored fac fsm hfac hroute hrule =>
      exact ⟨some (fac.facId, fsm.inst), fun _ _ => processedIn_handed rfl, rfl⟩
  | @wentOn fac fsm tr ret p hfac hroute hrule hclose hpost =>
      exact ⟨some (fac.facId, fsm.inst), fun _ _ => processedIn_handed rfl, rfl⟩
  | @closed fac fsm hfac hroute htype =>
      obtain ⟨-, hid, -, -, -, hlist⟩ :=
        Cfactory.killFsm_of_some (Cfactory.findFsm_self_of_route hroute)
      refine ⟨some (fac.facId, fsm.inst), fun _ _ => processedIn_handed rfl, ?_⟩
      refine others_setFactory (CfactoryMgr.mem_of_findFactory hfac) ?_
      rw [others, hlist, hid, List.filter_filter]
      refine congrArg (Prod.mk fac.facId) (List.filter_congr fun x _ => ?_)
      simp [eq_comm]

/-! ## Two dispatches -/

/-- What the ports are after two dispatches, and what these have reported. -/
structure InOrder (p : MsgPorts) (plan₁ plan₂ : DispatchPlan) (r₁ r₁₂ : DispatchResult FsmKind) :
    Prop where
  ret : r₁₂.ret = (plan₂.post p).1
  queue : r₁₂.mgr.pump.queue =
    p.pump.queue ++ (plan₁.sent p.pump.stopped ++ plan₂.sent p.pump.stopped)
  timers : ∃ ts, r₁₂.mgr.timers.timerList = p.timers.timerList ++ ts ∧
    ts.map CTimer.request = plan₁.started ++ plan₂.started
  completions : completionsOf (r₁.events ++ r₁₂.events) = plan₁.completions ++ plan₂.completions

/-- The second dispatch carries out the plan that there was for it before the first one. -/
theorem planned_second {pm₁ pm₂ : PumpMsg} (hw : AllWorking m) (hapart : Apart m pm₁ pm₂) :
    Planned (m.dispatchMsg pm₁).mgr pm₂.msg.serviceId (m.plan pm₂)
      ((m.dispatchMsg pm₁).mgr.dispatchMsg pm₂) := by
  have hw₁ := allWorking_dispatched hw (dispatched_dispatchMsg hw pm₁)
  rw [← plan_stable hapart (planned_dispatchMsg hw pm₁)]
  exact planned_dispatchMsg hw₁ pm₂

theorem inOrder {pm₁ pm₂ : PumpMsg} (hw : AllWorking m) (hids : m.toMsgPorts.TimerIdsLeft)
    (hapart : Apart m pm₁ pm₂) : InOrder m.toMsgPorts (m.plan pm₁) (m.plan pm₂)
      (m.dispatchMsg pm₁) ((m.dispatchMsg pm₁).mgr.dispatchMsg pm₂) := by
  have h₁ := planned_dispatchMsg hw pm₁
  have h₂ := planned_second hw hapart
  have hadds₁ := adds_post (m.plan pm₁) m.toMsgPorts
  rw [← h₁.ports] at hadds₁
  have hadds₂ := adds_post (m.plan pm₂) (m.dispatchMsg pm₁).mgr.toMsgPorts
  rw [← h₂.ports] at hadds₂
  refine ⟨?ret, ?queue, ?timers, ?completions⟩
  case ret =>
    have hid : (m.dispatchMsg pm₁).mgr.timers.nextTimerId ≠ 0 := by
      obtain h | h := hadds₁.nextTimerId
      · exact h ▸ hids.1
      · exact h ▸ hids.2
    exact h₂.ret.trans (ret_post hadds₁.stopped hids.1 hid)
  case queue =>
    rw [hadds₂.queue, hadds₁.queue, hadds₁.stopped, List.append_assoc]
  case timers =>
    obtain ⟨ts₁, htimers₁, hstarted₁⟩ := hadds₁.timers
    obtain ⟨ts₂, htimers₂, hstarted₂⟩ := hadds₂.timers
    refine ⟨ts₁ ++ ts₂, ?_, ?_⟩
    · rw [htimers₂, htimers₁, List.append_assoc]
    · rw [List.map_append, hstarted₁, hstarted₂]
  case completions =>
    rw [completionsOf, List.filterMap_append]
    exact congrArg₂ _ h₁.completions h₂.completions

/-- **Dispatches that do not interfere.** Between dispatches, over any ports whose timer ids do not
wrap: two messages to different factories, or to different instances of one factory, come to the
same in either order. The factories are the same, with their instances in the same order, each
message has the same return code, and the messages enqueued, the timers started and the
completions reported are the same up to their order. A dispatch changes no instance but the one
that processes its message. -/
theorem dispatch_comm {s : DispatchState FsmKind}
    (h : (dispatchSystem .boot).ReachableVia (serial fun _ => True) s) (hq : s.Quiet)
    (p : MsgPorts) (hids : p.TimerIdsLeft) (pm₁ pm₂ : PumpMsg) (hapart : Apart s.mgr pm₁ pm₂) :
    let m := s.mgr.withPorts p
    let r₁ := m.dispatchMsg pm₁
    let r₂ := m.dispatchMsg pm₂
    let r₁₂ := r₁.mgr.dispatchMsg pm₂
    let r₂₁ := r₂.mgr.dispatchMsg pm₁
    r₁₂.mgr.facList = r₂₁.mgr.facList ∧ r₁.ret = r₂₁.ret ∧ r₁₂.ret = r₂.ret ∧
      (∃ sent₁₂ sent₂₁, r₁₂.mgr.pump.queue = p.pump.queue ++ sent₁₂ ∧
        r₂₁.mgr.pump.queue = p.pump.queue ++ sent₂₁ ∧ sent₁₂.Perm sent₂₁) ∧
      (∃ started₁₂ started₂₁, r₁₂.mgr.timers.timerList = p.timers.timerList ++ started₁₂ ∧
        r₂₁.mgr.timers.timerList = p.timers.timerList ++ started₂₁ ∧
        (started₁₂.map CTimer.request).Perm (started₂₁.map CTimer.request)) ∧
      (completionsOf (r₁.events ++ r₁₂.events)).Perm (completionsOf (r₂.events ++ r₂₁.events)) ∧
      ∀ pm, ChangesTarget m (m.dispatchMsg pm) := by
  intro m r₁ r₂ r₁₂ r₂₁
  have hw : AllWorking m := allWorking_of_reachable (seq_reachable_of_quiet h hq)
  have hapart' : Apart m pm₁ pm₂ := hapart
  have h₁ := planned_dispatchMsg hw pm₁
  have h₂ := planned_dispatchMsg hw pm₂
  have h₁₂ := inOrder hw hids hapart'
  have h₂₁ := inOrder hw hids hapart'.symm
  refine ⟨?_, h₁.ret.trans h₂₁.ret.symm, h₁₂.ret.trans h₂.ret.symm, ?_, ?_, ?_, fun pm =>
    changesTarget_dispatched (dispatched_dispatchMsg hw pm)⟩
  · rw [(planned_second hw hapart').facList, (planned_second hw hapart'.symm).facList,
      h₁.facList, h₂.facList]
    exact write_comm hapart'
  · exact ⟨_, _, h₁₂.queue, h₂₁.queue, List.perm_append_comm⟩
  · obtain ⟨ts₁₂, htimers₁₂, hstarted₁₂⟩ := h₁₂.timers
    obtain ⟨ts₂₁, htimers₂₁, hstarted₂₁⟩ := h₂₁.timers
    refine ⟨ts₁₂, ts₂₁, htimers₁₂, htimers₂₁, ?_⟩
    rw [hstarted₁₂, hstarted₂₁]
    exact List.perm_append_comm
  · rw [h₁₂.completions, h₂₁.completions]
    exact List.perm_append_comm

/-- Two registrations that are under way. -/
def twoRegistrations : List SeqLabel :=
  [.env (.sendMsg 0 { serviceId := facRegFacId }), .env (.sendMsg 1 { serviceId := facRegFacId }),
    .dispatch, .dispatch]

def closeFirst : PumpMsg := ⟨{ type := .msgClose, serviceId := facRegFacId, fsmId := 1 }, .client 2⟩

def connectSecond : PumpMsg :=
  ⟨{ type := .msgConnect, serviceId := facRegFacId, fsmId := 2 }, .client 3⟩

/-- One of them is closed while the other one goes on. -/
theorem dispatch_comm_two : ∃ a : SeqState FsmKind,
    (seqSystem .boot).exec (fun a l => decide (admits (fun _ => True) a l)) ⟨.boot, []⟩
        twoRegistrations = some a ∧
      let m := a.mgr.withPorts {}
      ((m.dispatchMsg closeFirst).mgr.dispatchMsg connectSecond).mgr.facList =
        ((m.dispatchMsg connectSecond).mgr.dispatchMsg closeFirst).mgr.facList := by
  obtain ⟨a, hexec, hapart⟩ : ∃ a : SeqState FsmKind,
      (seqSystem .boot).exec (fun a l => decide (admits (fun _ => True) a l)) ⟨.boot, []⟩
        twoRegistrations = some a ∧ Apart a.mgr closeFirst connectSecond :=
    ⟨_, rfl, .inr ⟨_, _, _, rfl, rfl, rfl, rfl, by decide⟩⟩
  obtain ⟨hsame, -⟩ := dispatch_comm (resting_of_exec hexec) (fun _ => rfl) {}
    ⟨by decide, by decide⟩ _ _ hapart
  exact ⟨a, hexec, hsame⟩

end FsmFramework
