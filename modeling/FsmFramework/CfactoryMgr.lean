import FsmFramework.Cfactory

/-!
# The manager and its dispatch

`Cfactory_mgr` owns the factories and the ports, and routes each message of the pump:
by `serviceId` to a factory, by `fsmId` to an instance, which is created when the message
is `MSG_INIT` and no instance is found. The functions here are the sequential code of one
dispatch, `DispatchMsg`, `FacMsgPrc` and `DispatchToFsm`; the concurrent reading of the
same code is `DispatchMachine`.

A dispatch comes back with its return code, the manager, and the events it went through.
-/

namespace FsmFramework

/-- The calls a dispatch makes on an instance. -/
inductive FsmCall
  | prePrcMsg | processMsg | postPrcMsg | getState
  deriving DecidableEq, Repr

/-- What happens in a dispatch, in order. Instances are named by factory and identity. -/
inductive Event
  | created (facId : UInt32) (inst : ℕ) (fsmId : UInt32) (pm : PumpMsg)
  | called (facId : UInt32) (inst : ℕ) (call : FsmCall)
  | processed (facId : UInt32) (inst : ℕ) (pm : PumpMsg) (ret : EerrNo)
  | completed (inst : ℕ) (event : FsmCompletionEvent)
  | removed (facId : UInt32) (inst : ℕ)
  | returned (pm : PumpMsg) (ret : EerrNo) (target : Option (UInt32 × ℕ))
  deriving DecidableEq, Repr

/-- The registered factories and the ports. That at most `facNumInMgrMax` factories are
registered and that no two share an id are fields. -/
@[ext] structure CfactoryMgr (K : Type*) extends MsgPorts where
  facList : List (Cfactory K)
  facCapacity : facList.length ≤ facNumInMgrMax
  facId_nodup : (facList.map Cfactory.facId).Nodup
  deriving DecidableEq

/-- What a dispatch comes back with. -/
structure DispatchResult (K : Type*) where
  ret : EerrNo
  mgr : CfactoryMgr K
  events : List Event
  deriving DecidableEq

namespace CfactoryMgr

variable {K : Type*}

/-- A manager as its constructor leaves it. -/
def new : CfactoryMgr K where
  facList := []
  facCapacity := Nat.zero_le _
  facId_nodup := List.nodup_nil

/-- The same factories over other ports. -/
def withPorts (m : CfactoryMgr K) (p : MsgPorts) : CfactoryMgr K := { m with toMsgPorts := p }

/-- The factory a service id routes to. -/
def findFactory (m : CfactoryMgr K) (serviceId : UInt32) : Option (Cfactory K) :=
  KeyedList.lookup Cfactory.facId serviceId m.facList

/-- Take over a factory, unless the pointer is null, the manager is full or the id is taken. -/
def registerFactory (m : CfactoryMgr K) : Option (Cfactory K) → EerrNo × CfactoryMgr K
  | none => (.error, m)
  | some factory =>
      if hfull : m.facList.length ≥ facNumInMgrMax then (.error, m)
      else if hdup : m.findFactory factory.facId ≠ none then (.error, m)
      else (.success, {
        m with
        facList := m.facList ++ [factory]
        facCapacity := by simp; omega
        facId_nodup := by
          have hfresh := KeyedList.lookup_eq_none_iff.mp (not_not.mp hdup)
          simpa [List.nodup_append, m.facId_nodup] using hfresh })

/-- Write to the factory that has `fac`'s id. -/
def setFactory (m : CfactoryMgr K) (fac : Cfactory K) : CfactoryMgr K :=
  { m with
    facList := KeyedList.modify Cfactory.facId fac.facId (fun _ => fac) m.facList
    facCapacity := by simpa using m.facCapacity
    facId_nodup := by
      rw [KeyedList.map_modify fun x _ hx => hx.symm]
      exact m.facId_nodup }

/-- What a pointer to an instance points to, as long as the instance is in the list of its
factory, and that factory. -/
def deref (m : CfactoryMgr K) (facId : UInt32) (inst : ℕ) : Option (Cfactory K × Cfsm) :=
  (m.findFactory facId).bind fun fac => (fac.deref inst).map fun fsm => (fac, fsm)

/-- The event `DispatchToFsm` builds for an instance that reached `KILL_FSM`. -/
def completionEvent (facId fsmId : UInt32) (msg : CMsg) (ret : EerrNo) : FsmCompletionEvent where
  serviceId := facId
  fsmId := fsmId
  sessionId := msg.sessionId
  result := ret
  finalEvent := msg.type

/-- `KillFsm`, with the event of the instance that it removes. -/
def killFsm (m : CfactoryMgr K) (fac : Cfactory K) (fsmId : UInt32) : CfactoryMgr K × List Event :=
  (m.setFactory (fac.killFsm fsmId).2,
    match fac.findFsm fsmId with
    | some fsm => [.removed fac.facId fsm.inst]
    | none => [])

@[simp] theorem mem_killFsm_events {m : CfactoryMgr K} {fac : Cfactory K} {fsmId : UInt32}
    {e : Event} : e ∈ (m.killFsm fac fsmId).2 ↔
      ∃ fsm, fac.findFsm fsmId = some fsm ∧ e = .removed fac.facId fsm.inst := by
  rw [killFsm]
  cases fac.findFsm fsmId <;> simp

section Dispatch

variable [BusinessFsm K]

/-- `ProcessMsg` of an instance: it acts on the ports, and on the instance's state. -/
def processMsg (m : CfactoryMgr K) (fac : Cfactory K) (fsm : Cfsm) (msg : CMsg) :
    EerrNo × CfactoryMgr K :=
  let r := BusinessFsm.processMsg fac.kind fac.facId fsm msg m.toMsgPorts
  (r.1, (m.setFactory (fac.setState fsm.inst r.2.1.state)).withPorts r.2.2)

/-- Hand a message to an instance and reclaim the instance if it is terminal. -/
def dispatchToFsm (m : CfactoryMgr K) (fac : Cfactory K) (fsm : Cfsm) (pm : PumpMsg) :
    DispatchResult K :=
  -- later self-posted messages are routed to the same instance
  let pm := { pm with msg := { pm.msg with fsmId := fsm.fsmId } }
  let r := BusinessFsm.processMsg fac.kind fac.facId fsm pm.msg m.toMsgPorts
  let fac' := fac.setState fsm.inst r.2.1.state
  let m' := (m.setFactory fac').withPorts r.2.2
  let calls := [.called fac.facId fsm.inst .prePrcMsg, .called fac.facId fsm.inst .processMsg,
    .processed fac.facId fsm.inst pm r.1, .called fac.facId fsm.inst .postPrcMsg,
    .called fac.facId fsm.inst .getState]
  let done := [.returned pm r.1 (some (fac.facId, fsm.inst))]
  if r.2.1.state = .killFsm then
    let kill := m'.killFsm fac' fsm.fsmId
    let event := completionEvent fac.facId fsm.fsmId pm.msg r.1
    ⟨r.1, kill.1, calls ++ .completed fsm.inst event :: kill.2 ++ done⟩
  else ⟨r.1, m', calls ++ done⟩

/-- Find or create the instance a message is for, and dispatch to it. -/
def facMsgPrc (m : CfactoryMgr K) (fac : Cfactory K) (pm : PumpMsg) : DispatchResult K :=
  match fac.route pm.msg.fsmId with
  | some fsm => m.dispatchToFsm fac fsm pm
  | none =>
      if pm.msg.type ≠ .msgInit then ⟨.invalidMsg, m, [.returned pm .invalidMsg none]⟩
      else match fac.addFsm with
        | none => ⟨.error, m, [.returned pm .error none]⟩
        | some (fsm, fac') =>
            let r := (m.setFactory fac').dispatchToFsm fac' fsm pm
            ⟨r.ret, r.mgr, .created fac.facId fsm.inst fsm.fsmId pm :: r.events⟩

/-- Route a message to its factory. -/
def dispatchMsg (m : CfactoryMgr K) (pm : PumpMsg) : DispatchResult K :=
  match m.findFactory pm.msg.serviceId with
  | none => ⟨.invalidMsg, m, [.returned pm .invalidMsg none]⟩
  | some fac => m.facMsgPrc fac pm

/-- Dispatch the front message of the pump, if there is one. -/
def pumpOnce (m : CfactoryMgr K) : DispatchResult K :=
  match m.pop with
  | none => ⟨.success, m, []⟩
  | some (pm, p) => (m.withPorts p).dispatchMsg pm

/-- Call `PumpOnce` until the pump is empty. The calls are counted; where `fuel` rounds are not
enough the result is `none`. -/
def runUntilEmpty : ℕ → CfactoryMgr K → Option (ℕ × CfactoryMgr K)
  | 0, _ => none
  | fuel + 1, m =>
      if m.pump.queue = [] then some (0, m)
      else (runUntilEmpty fuel m.pumpOnce.mgr).map fun r => (r.1 + 1, r.2)

end Dispatch

/-! ## The registry -/

variable {m : CfactoryMgr K} {fac fac' : Cfactory K} {serviceId : UInt32} {p : MsgPorts}

theorem findFactory_eq_some_iff :
    m.findFactory serviceId = some fac ↔ fac ∈ m.facList ∧ fac.facId = serviceId :=
  KeyedList.lookup_eq_some_iff m.facId_nodup

theorem mem_of_findFactory (h : m.findFactory serviceId = some fac) : fac ∈ m.facList :=
  (findFactory_eq_some_iff.mp h).1

theorem findFactory_facId (h : m.findFactory serviceId = some fac) : fac.facId = serviceId :=
  (findFactory_eq_some_iff.mp h).2

/-- A factory is told apart by its id. -/
theorem eq_of_facId_eq (h : fac ∈ m.facList) (h' : fac' ∈ m.facList)
    (hid : fac.facId = fac'.facId) : fac = fac' :=
  KeyedList.eq_of_key_eq m.facId_nodup h h' hid

theorem findFactory_of_mem (h : fac ∈ m.facList) : m.findFactory fac.facId = some fac :=
  findFactory_eq_some_iff.mpr ⟨h, rfl⟩

/-- A refused registration changes nothing. -/
theorem registerFactory_of_ne_success {factory : Option (Cfactory K)}
    (h : (m.registerFactory factory).1 ≠ .success) : (m.registerFactory factory).2 = m := by
  simp only [registerFactory] at h ⊢
  split
  · rfl
  · split
    · rfl
    · split
      · rfl
      · simp_all

/-- A successful registration appends the factory, whose id was free. -/
theorem registerFactory_success {factory : Option (Cfactory K)}
    (h : (m.registerFactory factory).1 = .success) :
    ∃ fac, factory = some fac ∧ m.findFactory fac.facId = none ∧
      (m.registerFactory factory).2.facList = m.facList ++ [fac] := by
  simp only [registerFactory] at h ⊢
  split
  · simp at h
  · rename_i factory
    split
    · simp_all
    · split
      · simp_all
      · rename_i hdup
        exact ⟨factory, rfl, not_not.mp hdup, rfl⟩

/-- A registration leaves the ports alone. -/
@[simp] theorem registerFactory_toMsgPorts {factory : Option (Cfactory K)} :
    (m.registerFactory factory).2.toMsgPorts = m.toMsgPorts := by
  simp only [registerFactory]
  split
  · rfl
  · split
    · rfl
    · split <;> rfl

@[simp] theorem withPorts_toMsgPorts : (m.withPorts p).toMsgPorts = p := rfl
@[simp] theorem withPorts_facList : (m.withPorts p).facList = m.facList := rfl
@[simp] theorem withPorts_findFactory : (m.withPorts p).findFactory = m.findFactory := rfl
@[simp] theorem withPorts_deref : (m.withPorts p).deref = m.deref := rfl
@[simp] theorem withPorts_self : m.withPorts m.toMsgPorts = m := rfl
@[simp] theorem withPorts_withPorts {q : MsgPorts} :
    (m.withPorts p).withPorts q = m.withPorts q := rfl
@[simp] theorem setFactory_toMsgPorts : (m.setFactory fac).toMsgPorts = m.toMsgPorts := rfl
theorem setFactory_withPorts :
    (m.withPorts p).setFactory fac = (m.setFactory fac).withPorts p := rfl

theorem mem_setFactory {x : Cfactory K} : x ∈ (m.setFactory fac).facList ↔
    (x ∈ m.facList ∧ x.facId ≠ fac.facId) ∨
      (x = fac ∧ ∃ z ∈ m.facList, z.facId = fac.facId) := by
  refine KeyedList.mem_modify.trans (or_congr_right ?_)
  constructor
  · rintro ⟨z, hz, hk, rfl⟩
    exact ⟨rfl, z, hz, hk⟩
  · rintro ⟨rfl, z, hz, hk⟩
    exact ⟨z, hz, hk, rfl⟩

theorem findFactory_setFactory (h : m.findFactory serviceId = some fac)
    (hid : fac'.facId = serviceId) : (m.setFactory fac').findFactory serviceId = some fac' := by
  subst hid
  rw [findFactory, setFactory, KeyedList.lookup_modify_self fun _ _ => rfl]
  exact congrArg (Option.map fun _ => fac') h

theorem findFactory_setFactory_none (h : m.findFactory serviceId = none) :
    (m.setFactory fac).findFactory serviceId = none := by
  apply KeyedList.lookup_eq_none_iff.mpr
  intro x hx
  have hno := KeyedList.lookup_eq_none_iff.mp h
  rcases mem_setFactory.mp hx with ⟨hx, -⟩ | ⟨rfl, z, hz, hk⟩
  · exact hno x hx
  · exact hk ▸ hno z hz

theorem findFactory_setFactory_of_ne (h : fac.facId ≠ serviceId) :
    (m.setFactory fac).findFactory serviceId = m.findFactory serviceId :=
  KeyedList.lookup_modify_of_ne (fun _ _ => rfl) h

theorem deref_eq_some_iff {facId : UInt32} {inst : ℕ} {fsm : Cfsm} :
    m.deref facId inst = some (fac, fsm) ↔
      m.findFactory facId = some fac ∧ fac.deref inst = some fsm := by
  simp only [deref, Option.bind_eq_some_iff, Option.map_eq_some_iff, Prod.mk.injEq]
  constructor
  · rintro ⟨_, h, _, h', rfl, rfl⟩
    exact ⟨h, h'⟩
  · rintro ⟨h, h'⟩
    exact ⟨fac, h, fsm, h', rfl, rfl⟩

/-- What is found after a registration: what was found before, or the new factory. -/
theorem findFactory_registerFactory {factory : Option (Cfactory K)} :
    (m.registerFactory factory).2.findFactory serviceId = m.findFactory serviceId ∨
      (m.findFactory serviceId = none ∧ ∃ fac, factory = some fac ∧ fac.facId = serviceId ∧
        (m.registerFactory factory).2.findFactory serviceId = some fac) := by
  by_cases hok : (m.registerFactory factory).1 = .success
  · obtain ⟨fac, rfl, hfree, hlist⟩ := registerFactory_success hok
    simp only [findFactory] at hfree ⊢
    rw [hlist, KeyedList.lookup_append_singleton]
    cases hold : KeyedList.lookup Cfactory.facId serviceId m.facList with
    | some old => exact .inl rfl
    | none =>
        by_cases hid : fac.facId = serviceId
        · exact .inr ⟨rfl, fac, rfl, hid, by simp [hid]⟩
        · exact .inl (by simp [hid])
  · exact .inl (by rw [registerFactory_of_ne_success hok])

/-- Writing back what stands there changes nothing. -/
theorem setFactory_self (h : fac ∈ m.facList) : m.setFactory fac = m := by
  refine CfactoryMgr.ext rfl rfl rfl (KeyedList.modify_eq_self fun x hx hk => ?_)
  exact (eq_of_facId_eq hx h hk).symm

/-- The later of two writes to one factory wins. -/
theorem setFactory_setFactory (h : fac'.facId = fac.facId) :
    (m.setFactory fac).setFactory fac' = m.setFactory fac' := by
  refine CfactoryMgr.ext rfl rfl rfl ?_
  show KeyedList.modify _ _ _ (KeyedList.modify _ _ _ _) = KeyedList.modify _ _ _ _
  rw [h, KeyedList.modify_modify fun _ _ => rfl]
  rfl

end CfactoryMgr

end FsmFramework
