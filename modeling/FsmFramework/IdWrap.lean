import FsmFramework.SeqRuns

/-!
# The id generator over unbounded runs

`_nextFsmId` wraps at `2 ^ 32` and is tested neither against zero nor against the ids in use.
An id that `AddFsm` hands out is good exactly when the count of creations has not come to a
multiple of `2 ^ 32` and no live instance was created a multiple of `2 ^ 32` creations before
(`goodId_iff`). A run of `2 ^ 32` flows comes to the first exception.
-/

namespace FsmFramework

section Ids

variable {K : Type*} {fac fac' : Cfactory K} {fsm : Cfsm}

/-- The id of a new instance is not zero and no other instance has it, so that `FacMsgPrc`
routes what carries it to the new instance. -/
def GoodId (fac fac' : Cfactory K) (fsm : Cfsm) : Prop :=
  fsm.fsmId ≠ 0 ∧ (∀ x ∈ fac.fsmList, x.fsmId ≠ fsm.fsmId) ∧ fac'.route fsm.fsmId = some fsm

/-- The generator stands at an id that it may hand out. -/
def Cfactory.IdFree (fac : Cfactory K) : Prop :=
  (fac.created + 1) % 2 ^ 32 ≠ 0 ∧ ∀ x ∈ fac.fsmList, (fac.created - x.inst) % 2 ^ 32 ≠ 0

instance : Decidable fac.IdFree :=
  inferInstanceAs (Decidable (_ ∧ ∀ x ∈ fac.fsmList, (fac.created - x.inst) % 2 ^ 32 ≠ 0))

/-- In a list of distinct ids other than zero every instance is routed to. -/
theorem route_eq_some_of_mem (hn : (fac.fsmList.map Cfsm.fsmId).Nodup) (hx : fsm ∈ fac.fsmList)
    (hz : fsm.fsmId ≠ 0) : fac.route fsm.fsmId = some fsm := by
  rw [Cfactory.route, if_pos hz]
  exact (KeyedList.lookup_eq_some_iff hn).mpr ⟨hx, rfl⟩

/-- **When an id is good.** -/
theorem goodId_iff (hadd : fac.addFsm = some (fsm, fac')) : GoodId fac fac' fsm ↔ fac.IdFree := by
  obtain ⟨hnew, -, -, -, -, hlist⟩ := Cfactory.addFsm_some hadd
  have hid : fsm.fsmId = fsmIdOf fac.created := by rw [hnew, fac.nextFsmId_eq]
  have hsame : ∀ x ∈ fac.fsmList, x.fsmId = fsm.fsmId ↔ (fac.created - x.inst) % 2 ^ 32 = 0 := by
    intro x hx
    have hlt := fac.inst_lt x hx
    rw [hid, fac.fsmId_eq x hx, fsmIdOf_eq_iff]
    omega
  have hroute : fsm.fsmId ≠ 0 → (∀ x ∈ fac.fsmList, x.fsmId ≠ fsm.fsmId) →
      fac'.route fsm.fsmId = some fsm := by
    intro hz hne
    rw [Cfactory.route, if_pos hz, Cfactory.findFsm, hlist, KeyedList.lookup_append_singleton,
      KeyedList.lookup_eq_none_iff.mpr hne]
    simp
  constructor
  · rintro ⟨hz, hne, -⟩
    refine ⟨fun hzero => hz ?_, fun x hx hzero => hne x hx ((hsame x hx).mpr hzero)⟩
    rw [hid, fsmIdOf_eq_zero_iff, hzero]
  · rintro ⟨hz, hne⟩
    have hz' : fsm.fsmId ≠ 0 := by rwa [hid, Ne, fsmIdOf_eq_zero_iff]
    have hne' : ∀ x ∈ fac.fsmList, x.fsmId ≠ fsm.fsmId :=
      fun x hx he => hne x hx ((hsame x hx).mp he)
    exact ⟨hz', hne', hroute hz' hne'⟩

end Ids

/-! ## Runs that meet the condition -/

variable {K : Type*}

/-- Whenever a thread is about to create an instance, the generator stands at a free id. -/
def freshIds (s : DispatchState K) : DispatchLabel K → Prop
  | .advance t => ∀ th ∈ s.threads t, ∀ facId ∈ th.pc.adding, ∀ fac ∈ s.mgr.findFactory facId,
      fac.IdFree
  | _ => True

instance (s : DispatchState K) : DecidablePred (freshIds s)
  | .advance t =>
      -- the ids are searched in `adding`, not among all of `UInt32`
      have (th : DispatchThread) : Decidable (∀ facId ∈ th.pc.adding,
          ∀ fac ∈ s.mgr.findFactory facId, fac.IdFree) := Option.decidableForallMem _
      inferInstanceAs (Decidable (∀ th ∈ s.threads t, ∀ facId ∈ th.pc.adding,
        ∀ fac ∈ s.mgr.findFactory facId, fac.IdFree))
  | .env _ | .registerFactory _ | .pop _ => isTrue trivial

/-- Every live instance has an id of its own, other than zero. -/
def DistinctIds (m : CfactoryMgr K) : Prop :=
  ∀ fac ∈ m.facList, (fac.fsmList.map Cfsm.fsmId).Nodup ∧ ∀ x ∈ fac.fsmList, x.fsmId ≠ 0

variable [BusinessFsm K] {s s' : DispatchState K}

/-- A creation is reported by a thread that stands at `AddFsm`. -/
theorem step_created {l : DispatchLabel K} {ev : List Event} {facId fsmId : UInt32} {inst : ℕ}
    {pm : PumpMsg} (h : s.step l = some s') (hev : s'.events = s.events ++ ev)
    (hmem : .created facId inst fsmId pm ∈ ev) :
    ∃ t, l = .advance t ∧ s.threads t = some ⟨pm, .addFsm facId⟩ := by
  have hnil : s'.events = s.events → False := by
    intro heq
    obtain rfl : ev = [] := by simpa [heq] using hev
    simp at hmem
  cases l with
  | env l =>
      obtain ⟨p, -, rfl⟩ := DispatchState.step_env_iff.mp h
      exact (hnil rfl).elim
  | registerFactory factory =>
      obtain rfl := DispatchState.step_registerFactory_iff.mp h
      exact (hnil rfl).elim
  | pop t =>
      obtain ⟨-, pm, p, -, rfl⟩ := DispatchState.step_pop_iff.mp h
      exact (hnil rfl).elim
  | advance t =>
      obtain ⟨⟨pm', pc⟩, next, m', ev', ht, hadv, rfl⟩ := DispatchState.step_advance_iff.mp h
      obtain rfl : ev' = ev := List.append_cancel_left hev
      cases hadv with
      | added hfac hadd =>
          obtain ⟨rfl, -, -, rfl⟩ := Event.created.inj (List.mem_singleton.mp hmem)
          exact ⟨t, rfl, ht⟩
      | _ => simp at hmem

/-- A step that meets the condition keeps the ids distinct. -/
theorem distinctIds_step {l : DispatchLabel K} (h : s.step l = some s') (hg : freshIds s l)
    (hinv : DistinctIds s.mgr) : DistinctIds s'.mgr := by
  intro fac' hfac'
  have hf' := CfactoryMgr.findFactory_of_mem hfac'
  generalize fac'.facId = facId at hf'
  cases hf : s.mgr.findFactory facId with
  | none =>
      obtain ⟨-, -, -, -, hnew⟩ := DispatchState.step_findFactory_none h hf
      rcases hnew with hnone | ⟨kind, hnew⟩
      · simp [hf'] at hnone
      · obtain rfl := Option.some.inj (hf'.symm.trans hnew)
        simp [Cfactory.new]
  | some fac =>
      obtain ⟨f', ev, hf₂, hev, hch⟩ := DispatchState.step_change h hf
      obtain rfl := Option.some.inj (hf'.symm.trans hf₂)
      obtain ⟨hmem, -⟩ := CfactoryMgr.findFactory_eq_some_iff.mp hf
      obtain ⟨hn, hz⟩ := hinv fac hmem
      cases hch with
      | same => exact ⟨hn, hz⟩
      | entered inst state =>
          have hids : (fac.setState inst state).fsmList.map Cfsm.fsmId =
              fac.fsmList.map Cfsm.fsmId := KeyedList.map_modify fun _ _ _ => rfl
          refine ⟨hids ▸ hn, ?_⟩
          intro x hx
          have hx' : x.fsmId ∈ fac.fsmList.map Cfsm.fsmId := hids ▸ List.mem_map_of_mem hx
          obtain ⟨y, hy, heq⟩ := List.mem_map.mp hx'
          exact heq ▸ hz y hy
      | @added _ fsm pm hadd =>
          obtain ⟨t, rfl, ht⟩ := step_created h hev (List.mem_singleton_self _)
          obtain ⟨hgood, hne, -⟩ := (goodId_iff hadd).mpr (hg _ ht facId rfl fac hf)
          obtain ⟨-, -, -, -, -, hlist⟩ := Cfactory.addFsm_some hadd
          rw [hlist, List.map_append, List.map_singleton]
          refine ⟨List.nodup_append.mpr ⟨hn, List.nodup_singleton _, ?_⟩, ?_⟩
          · intro id hid id' hid'
            obtain ⟨x, hx, rfl⟩ := List.mem_map.mp hid
            rw [List.mem_singleton.mp hid']
            exact hne x hx
          · intro x hx
            rcases List.mem_append.mp hx with hx | hx
            · exact hz x hx
            · rw [List.mem_singleton.mp hx]
              exact hgood
      | removed hfind =>
          obtain ⟨-, -, -, -, -, hlist⟩ := Cfactory.killFsm_of_some hfind
          rw [hlist]
          exact ⟨hn.sublist (List.filter_sublist.map _), fun x hx => hz x (List.mem_filter.mp hx).1⟩

/-- **Ids of new instances.** In every reachable state, whoever dispatches and whatever is
registered, `AddFsm` hands out a good id exactly when the generator stands at a free one. In
every run that meets this condition whenever an instance is created, each live instance has an
id of its own, other than zero, and is routed to by it. -/
theorem addFsm_goodId_iff :
    (∀ s : DispatchState K, (dispatchSystem .new).Reachable s → ∀ fac ∈ s.mgr.facList,
      ∀ fsm fac', fac.addFsm = some (fsm, fac') → (GoodId fac fac' fsm ↔ fac.IdFree)) ∧
    ∀ s : DispatchState K, (dispatchSystem .new).ReachableVia freshIds s →
      ∀ fac ∈ s.mgr.facList, (fac.fsmList.map Cfsm.fsmId).Nodup ∧
        ∀ fsm ∈ fac.fsmList, fsm.fsmId ≠ 0 ∧ fac.route fsm.fsmId = some fsm := by
  refine ⟨fun s _ fac _ fsm fac' hadd => goodId_iff hadd, ?_⟩
  intro s h fac hfac
  have hdistinct : DistinctIds s.mgr := by
    refine h.invariant (I := fun s => DistinctIds s.mgr) ?init ?step
    case init => rintro s rfl; simp [DistinctIds, DispatchState.resting, CfactoryMgr.new]
    case step => exact fun s l s' hinv hg hs => distinctIds_step hs hg hinv
  obtain ⟨hn, hz⟩ := hdistinct fac hfac
  exact ⟨hn, fun fsm hfsm => ⟨hz fsm hfsm, route_eq_some_of_mem hn hfsm (hz fsm hfsm)⟩⟩

/-- A manager registers both factories and creates two instances. -/
theorem addFsm_goodId_iff_two : ∃ s : DispatchState FsmKind,
    (dispatchSystem .new).ReachableVia freshIds s ∧
      (∀ fac ∈ s.mgr.facList, ∀ fsm fac', fac.addFsm = some (fsm, fac') →
        (GoodId fac fac' fsm ↔ fac.IdFree)) ∧
      ∀ fac ∈ s.mgr.facList, (fac.fsmList.map Cfsm.fsmId).Nodup ∧
        ∀ fsm ∈ fac.fsmList, fsm.fsmId ≠ 0 ∧ fac.route fsm.fsmId = some fsm := by
  obtain ⟨s, hs⟩ : ∃ s : DispatchState FsmKind,
      (dispatchSystem .new).exec (fun s l => decide (freshIds s l)) (.resting .new [])
        [.registerFactory (some (1, .reg)), .env (.sendMsg 0 { serviceId := 1 }),
          .env (.sendMsg 1 { serviceId := 1 }), .pop 0, .pop 1, .advance 0, .advance 1, .advance 0,
          .advance 1, .advance 1, .advance 0] = some s := ⟨_, rfl⟩
  have hr : (dispatchSystem .new).ReachableVia freshIds s :=
    ⟨_, rfl, Lts.runVia_of_exec (fun _ _ => of_decide_eq_true) hs⟩
  exact ⟨s, hr, addFsm_goodId_iff.1 s hr.reachable, addFsm_goodId_iff.2 s hr⟩

/-! ## The wrap -/

/-- A factory that has created `n` instances, all of which are gone. -/
def Cfactory.drained {K : Type*} (facId : UInt32) (kind : K) (n : ℕ) : Cfactory K :=
  { Cfactory.new facId kind with
    nextFsmId := fsmIdOf n
    created := n
    nextFsmId_eq := rfl
    inst_lt := fun _ hx => absurd hx List.not_mem_nil }

section Drained

variable {K : Type*} (facId : UInt32) (kind : K) (n : ℕ)

@[simp] theorem Cfactory.drained_fsmList : (Cfactory.drained facId kind n).fsmList = [] := rfl

@[simp] theorem Cfactory.drained_created : (Cfactory.drained facId kind n).created = n := rfl

@[simp] theorem Cfactory.drained_nextFsmId :
    (Cfactory.drained facId kind n).nextFsmId = fsmIdOf n := rfl

end Drained

/-- The booted manager after `n` registration flows. -/
def afterFlows (n : ℕ) : CfactoryMgr FsmKind :=
  CfactoryMgr.boot.setFactory (Cfactory.drained facRegFacId .reg n)

theorem afterFlows_facList (n : ℕ) : (afterFlows n).facList =
    [Cfactory.drained facRegFacId .reg n, Cfactory.new facAuthFacId .auth] := rfl

theorem allWorking_afterFlows (n : ℕ) : AllWorking (afterFlows n) := by
  simp [AllWorking, afterFlows_facList, Cfactory.new]

/-- The registration flow number `n`: a client posts `MSG_INIT`. -/
def flowInit : PumpMsg := ⟨{ serviceId := facRegFacId }, .client 0⟩

/-- It also posts the `MSG_CLOSE` of the instance that will be created. -/
def flowClose (n : ℕ) : PumpMsg :=
  ⟨{ type := .msgClose, serviceId := facRegFacId, fsmId := fsmIdOf n }, .client 0⟩

/-- The follow-up that comes too late. -/
def flowConnect (n : ℕ) : PumpMsg :=
  ⟨{ type := .msgConnect, serviceId := facRegFacId, fsmId := fsmIdOf n }, .fsm facRegFacId n⟩

section Cycle

variable {n : ℕ} {G : Cfactory FsmKind}

/-- The registration factory while instance `n` is live. -/
structure InFlow (n : ℕ) (G : Cfactory FsmKind) : Prop where
  facId : G.facId = facRegFacId
  kind : G.kind = .reg
  created : G.created = n + 1
  nextFsmId : G.nextFsmId = fsmIdOf (n + 1)
  fsmList : G.fsmList = [⟨n, fsmIdOf n, .working⟩]

theorem dispatch_flowInit (n : ℕ) (p : MsgPorts) :
    ∃ G, InFlow n G ∧ (((afterFlows n).withPorts p).dispatchMsg flowInit).mgr =
      ((afterFlows n).setFactory G).withPorts (p.sendMsg (flowConnect n)).2 := by
  have hd := dispatched_dispatchMsg (m := (afterFlows n).withPorts p) (allWorking_afterFlows n)
    flowInit
  generalize ((afterFlows n).withPorts p).dispatchMsg flowInit = r at hd
  have hfac : ((afterFlows n).withPorts p).findFactory flowInit.msg.serviceId =
      some (Cfactory.drained facRegFacId .reg n) := rfl
  have hroute : (Cfactory.drained facRegFacId FsmKind.reg n).route flowInit.msg.fsmId = none := rfl
  cases hd with
  | rejected hret hwhy =>
      simpa [Cfactory.addFsm, fsmNumInFac] using ((hwhy _ hfac).2 rfl).2
  | @created fac fac' fsm ret p' hfac' _ _ hadd hpost =>
      obtain rfl := Option.some.inj (hfac.symm.trans hfac')
      obtain ⟨rfl, hid, hkind, hnext, hcre, hlist⟩ := Cfactory.addFsm_some hadd
      refine ⟨fac'.setState n .working, ⟨hid, hkind, hcre, ?_, ?_⟩,
        congrArg (CfactoryMgr.withPorts _) (congrArg Prod.snd hpost).symm⟩
      · rw [Cfactory.setState_nextFsmId, hnext, fsmIdOf_succ]
        rfl
      · show KeyedList.modify _ _ _ fac'.fsmList = _
        rw [hlist]
        simp [KeyedList.modify]
  | ignored hfac' hroute' | wentOn hfac' hroute' | closed hfac' hroute' =>
      obtain rfl := Option.some.inj (hfac.symm.trans hfac')
      simp [hroute] at hroute'

theorem setFactory_afterFlows (h : InFlow n G) :
    ((afterFlows n).setFactory G).facList = [G, Cfactory.new facAuthFacId .auth] := by
  simp [CfactoryMgr.setFactory, KeyedList.modify, afterFlows_facList, h.facId, Cfactory.drained,
    Cfactory.new, facRegFacId, facAuthFacId]

theorem dispatch_flowClose (h : InFlow n G) (hz : fsmIdOf n ≠ 0) (p : MsgPorts) :
    ((((afterFlows n).setFactory G).withPorts p).dispatchMsg (flowClose n)).mgr =
      (afterFlows (n + 1)).withPorts p := by
  have hlist := setFactory_afterFlows h
  have hw : AllWorking (((afterFlows n).setFactory G).withPorts p) := by
    simp [AllWorking, hlist, h.fsmList, Cfactory.new]
  have hd := dispatched_dispatchMsg hw (flowClose n)
  generalize (((afterFlows n).setFactory G).withPorts p).dispatchMsg (flowClose n) = r at hd
  have hfac : (((afterFlows n).setFactory G).withPorts p).findFactory
      (flowClose n).msg.serviceId = some G := by
    simp [CfactoryMgr.findFactory, hlist, KeyedList.lookup, h.facId, flowClose]
  have hroute : G.route (flowClose n).msg.fsmId = some ⟨n, fsmIdOf n, .working⟩ := by
    simp [Cfactory.route, Cfactory.findFsm, KeyedList.lookup, h.fsmList, flowClose, hz]
  cases hd with
  | rejected _ hwhy =>
      have := (hwhy G hfac).1
      simp [hroute] at this
  | created hfac' hroute' =>
      obtain rfl := Option.some.inj (hfac.symm.trans hfac')
      simp [hroute] at hroute'
  | ignored hfac' hroute' hrule =>
      obtain ⟨tr, htr⟩ := FsmKind.rule_working_close .reg
      obtain rfl := Option.some.inj (hfac.symm.trans hfac')
      simp [h.kind, htr, flowClose] at hrule
  | wentOn _ _ _ hclose => exact absurd rfl hclose
  | @closed fac fsm hfac' hroute' =>
      obtain rfl := Option.some.inj (hfac.symm.trans hfac')
      obtain rfl := Option.some.inj (hroute.symm.trans hroute')
      have hfind : G.findFsm (fsmIdOf n) = some ⟨n, fsmIdOf n, .working⟩ := by
        simp [Cfactory.findFsm, KeyedList.lookup, h.fsmList]
      obtain ⟨-, hid, hkind, hnext, hcre, hkill⟩ := Cfactory.killFsm_of_some hfind
      have hdrained : (G.killFsm (fsmIdOf n)).2 = Cfactory.drained facRegFacId .reg (n + 1) :=
        Cfactory.ext (hid.trans h.facId) (hkind.trans h.kind) (hnext.trans h.nextFsmId)
          (by rw [hkill, h.fsmList]; simp) (hcre.trans h.created)
      have hlast : (afterFlows n).setFactory (Cfactory.drained facRegFacId .reg (n + 1)) =
          afterFlows (n + 1) := CfactoryMgr.setFactory_setFactory rfl
      rw [hdrained, CfactoryMgr.setFactory_withPorts,
        CfactoryMgr.setFactory_setFactory h.facId.symm, hlast]

theorem dispatch_flowConnect (n k : ℕ) (p : MsgPorts) :
    (((afterFlows n).withPorts p).dispatchMsg (flowConnect k)).mgr =
      (afterFlows n).withPorts p := by
  have hd := dispatched_dispatchMsg (m := (afterFlows n).withPorts p) (allWorking_afterFlows n)
    (flowConnect k)
  generalize ((afterFlows n).withPorts p).dispatchMsg (flowConnect k) = r at hd
  have hfac : ((afterFlows n).withPorts p).findFactory (flowConnect k).msg.serviceId =
      some (Cfactory.drained facRegFacId .reg n) := rfl
  have hroute : ∀ fsm, (Cfactory.drained facRegFacId FsmKind.reg n).route
      (flowConnect k).msg.fsmId ≠ some fsm := by
    intro fsm hr
    simpa using
      (Cfactory.mem_of_route hr).1
  cases hd with
  | rejected => rfl
  | created _ _ htype => simp [flowConnect] at htype
  | ignored hfac' hroute' | wentOn hfac' hroute' | closed hfac' hroute' =>
      obtain rfl := Option.some.inj (hfac.symm.trans hfac')
      exact absurd hroute' (hroute _)

/-- The front message is dispatched. -/
theorem step_dispatch_of {M M' : CfactoryMgr FsmKind} {p : MsgPorts} {pm : PumpMsg}
    (h : ((M.withPorts p).dispatchMsg pm).mgr = M') (ev : List Event) :
    ∃ ev', SeqState.step ⟨M.withPorts (p.unpop pm), ev⟩ .dispatch = some ⟨M', ev'⟩ :=
  ⟨_, SeqState.step_dispatch_iff.mpr ⟨pm, p, rfl, by rw [← h]; rfl⟩⟩

/-- **One flow**, from a drained manager to a drained manager. -/
theorem flow_cycle (n : ℕ) (hz : fsmIdOf n ≠ 0) (ev : List Event) :
    ∃ ev', (seqSystem .boot).RunVia (admits fun _ => True) ⟨afterFlows n, ev⟩
      ⟨afterFlows (n + 1), ev'⟩ := by
  have hstep : ∀ {a a' : SeqState FsmKind} {l : SeqLabel}, a.step l = some a' →
      (seqSystem .boot).RunVia (admits fun _ => True) a a' := fun {a a' l} h =>
    Lts.RunVia.single (a := l) (by cases l <;> trivial) h
  -- the client posts both messages
  have h₁ : SeqState.step ⟨afterFlows n, ev⟩ (.env (.sendMsg 0 flowInit.msg)) =
      some ⟨(afterFlows n).withPorts { pump := { queue := [flowInit] } }, ev⟩ := rfl
  have h₂ : SeqState.step ⟨(afterFlows n).withPorts { pump := { queue := [flowInit] } }, ev⟩
      (.env (.sendMsg 0 (flowClose n).msg)) =
      some ⟨(afterFlows n).withPorts { pump := { queue := [flowInit, flowClose n] } }, ev⟩ := rfl
  -- the instance is created, closed, and its follow-up comes too late
  obtain ⟨G, hG, hinit⟩ := dispatch_flowInit n { pump := { queue := [flowClose n] } }
  have hclose := dispatch_flowClose hG hz { pump := { queue := [flowConnect n] } }
  have hconnect := dispatch_flowConnect (n + 1) n {}
  obtain ⟨ev₃, h₃⟩ := step_dispatch_of hinit ev
  obtain ⟨ev₄, h₄⟩ := step_dispatch_of hclose ev₃
  obtain ⟨ev₅, h₅⟩ := step_dispatch_of hconnect ev₄
  exact ⟨ev₅, ((((hstep h₁).trans (hstep h₂)).trans (hstep h₃)).trans (hstep h₄)).trans (hstep h₅)⟩

/-- **Any number of flows** that the generator has ids for. -/
theorem afterFlows_reachable (hn : n < 2 ^ 32) :
    ∃ ev, (seqSystem .boot).ReachableVia (admits fun _ => True) ⟨afterFlows n, ev⟩ := by
  induction n with
  | zero => exact ⟨[], Lts.ReachableVia.of_init rfl⟩
  | succ n ih =>
      obtain ⟨ev, hreach⟩ := ih (by omega)
      have hz : fsmIdOf n ≠ 0 := by
        rw [Ne, fsmIdOf_eq_zero_iff, Nat.mod_eq_of_lt hn]
        omega
      obtain ⟨ev', hrun⟩ := flow_cycle n hz ev
      exact ⟨ev', hreach.run hrun⟩

end Cycle

/-- The next client posts, and a thread finds no instance. -/
theorem reaches_addFsm (n : ℕ) (ev : List Event) : ∃ s : DispatchState FsmKind,
    (dispatchSystem .new).RunVia Lts.anyStep (.resting (afterFlows n) ev) s ∧
      s.mgr = afterFlows n ∧ s.threads 0 = some ⟨flowInit, .addFsm facRegFacId⟩ := by
  obtain ⟨s, hs, hmgr, hthread⟩ : ∃ s : DispatchState FsmKind,
      (dispatchSystem .new).exec (fun _ _ => true) (.resting (afterFlows n) ev)
        [.env (.sendMsg 0 flowInit.msg), .pop 0, .advance 0, .advance 0] = some s ∧
        s.mgr = afterFlows n ∧ s.threads 0 = some ⟨flowInit, .addFsm facRegFacId⟩ :=
    ⟨_, rfl, rfl, rfl⟩
  exact ⟨s, Lts.runVia_of_exec (fun _ _ _ => trivial) hs, hmgr, hthread⟩

/-- **The generator comes to zero.** After `2 ^ 32 - 1` flows the next `AddFsm` hands out id 0,
by which no message is routed to the new instance. -/
theorem addFsm_zero_after_wrap : ∃ s s' : DispatchState FsmKind, ∃ fac fac' fsm,
    (dispatchSystem .new).Reachable s ∧
      s.threads 0 = some ⟨flowInit, .addFsm facRegFacId⟩ ∧ s.step (.advance 0) = some s' ∧
      s.mgr.findFactory facRegFacId = some fac ∧ fac.addFsm = some (fsm, fac') ∧
      s'.mgr.findFactory facRegFacId = some fac' ∧
      fsm.fsmId = 0 ∧ fac'.route fsm.fsmId = none ∧ ¬ GoodId fac fac' fsm := by
  -- registering both factories, then the flows, then one message more
  have hboot : (dispatchSystem .new).Reachable (.resting .boot []) :=
    ⟨_, rfl, (Lts.RunVia.single (a := .registerFactory (some (facRegFacId, .reg))) trivial rfl).tail
      (a := .registerFactory (some (facAuthFacId, .auth))) trivial rfl⟩
  obtain ⟨ev, hflows⟩ := afterFlows_reachable (n := 2 ^ 32 - 1) (by omega)
  obtain ⟨_, rfl, hrun⟩ := (resting_reachable hflows).reachable
  obtain ⟨s, hnext, hmgr, hthread⟩ := reaches_addFsm (2 ^ 32 - 1) ev
  have hfac : s.mgr.findFactory facRegFacId =
      some (Cfactory.drained facRegFacId .reg (2 ^ 32 - 1)) := by rw [hmgr]; rfl
  obtain ⟨fsm, fac', hadd⟩ : ∃ fsm fac',
      (Cfactory.drained facRegFacId FsmKind.reg (2 ^ 32 - 1)).addFsm = some (fsm, fac') :=
    ⟨_, _, rfl⟩
  obtain ⟨hnew, hid, -⟩ := Cfactory.addFsm_some hadd
  have hzero : fsm.fsmId = 0 := by
    rw [hnew]
    exact (fsmIdOf_eq_zero_iff _).mpr (by simp)
  refine ⟨s, _, _, fac', fsm, (hboot.run hrun).run hnext, hthread,
    DispatchState.step_advance_iff.mpr ⟨_, _, _, _, hthread, .added hfac hadd, rfl⟩, hfac, hadd,
    CfactoryMgr.findFactory_setFactory hfac hid, hzero, ?_, fun h => h.1 hzero⟩
  rw [hzero]
  rfl

end FsmFramework
