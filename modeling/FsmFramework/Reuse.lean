import FsmFramework.Flow

/-!
# Ids that are used again

Once the generator has wrapped, `AddFsm` hands out ids that it has handed out before. That does
no harm as long as no instance in the list has the id (`unusedIds`): a message that names an
instance then carries the session of the `MSG_INIT` that created it, and no other message on its
way names this instance (`NamingInv`). An instance with id zero is named by no message.

## Main results

* `noReuse_of_reachable` — what the condition on the steps of a run is for its events.
* `namingInv_of_reachable` — what messages name, in every such run.
-/

namespace FsmFramework

section Ids

variable {K : Type*}

/-- The generator stands at zero, which names no instance, or at an id that no instance in the
list has. -/
def Cfactory.IdUnused (fac : Cfactory K) : Prop :=
  fac.nextFsmId ≠ 0 → ∀ x ∈ fac.fsmList, x.fsmId ≠ fac.nextFsmId

instance (fac : Cfactory K) : Decidable fac.IdUnused :=
  inferInstanceAs (Decidable (_ → ∀ x ∈ fac.fsmList, x.fsmId ≠ fac.nextFsmId))

/-- Whenever a thread is about to create an instance, the generator stands at an unused id. -/
def unusedIds (s : DispatchState K) : DispatchLabel K → Prop
  | .advance t => ∀ th ∈ s.threads t, ∀ facId ∈ th.pc.adding, ∀ fac ∈ s.mgr.findFactory facId,
      fac.IdUnused
  | _ => True

instance (s : DispatchState K) : DecidablePred (unusedIds s)
  | .advance t =>
      have (th : DispatchThread) : Decidable (∀ facId ∈ th.pc.adding,
          ∀ fac ∈ s.mgr.findFactory facId, fac.IdUnused) := Option.decidableForallMem _
      inferInstanceAs (Decidable (∀ th ∈ s.threads t, ∀ facId ∈ th.pc.adding,
        ∀ fac ∈ s.mgr.findFactory facId, fac.IdUnused))
  | .env _ | .registerFactory _ | .pop _ => isTrue trivial

end Ids

/-! ## Creations -/

/-- No instance was created with an id of another one that was not removed. -/
def NoReuse (events : List Event) : Prop :=
  ∀ pre f i id pm, pre ++ [.created f i id pm] <+: events → id ≠ 0 →
    ∀ j pm', .created f j id pm' ∈ pre → j ∈ removedIn f pre

namespace NoReuse

variable {events ev : List Event} {f id : UInt32} {i : ℕ} {pm : PumpMsg}

theorem of_prefix (h : NoReuse events) (hpre : ev <+: events) : NoReuse ev :=
  fun pre f i id pm hp => h pre f i id pm (hp.trans hpre)

/-- One event more. -/
theorem concat {e : Event} (h : NoReuse events)
    (he : ∀ f i id pm, e = .created f i id pm → id ≠ 0 →
      ∀ j pm', .created f j id pm' ∈ events → j ∈ removedIn f events) :
    NoReuse (events ++ [e]) := by
  intro pre f i id pm hpre hz j pm' hmem
  rcases List.prefix_concat_iff.mp hpre with heq | hpre
  · obtain ⟨rfl, hlast⟩ := List.append_inj' heq rfl
    exact he f i id pm (List.cons.inj hlast).1.symm hz j pm' hmem
  · exact h pre f i id pm hpre hz j pm' hmem

/-- Events that report no creation. -/
theorem append (h : NoReuse events) (hev : ∀ f i id pm, .created f i id pm ∉ ev) :
    NoReuse (events ++ ev) := by
  induction ev using List.reverseRecOn with
  | nil => simpa using h
  | append_singleton ev e ih =>
      have hprev := ih fun f i id pm hmem => hev f i id pm (List.mem_append_left _ hmem)
      rw [← List.append_assoc]
      refine hprev.concat ?_
      rintro f i id pm rfl
      exact absurd (List.mem_append_right _ (List.mem_singleton_self _)) (hev f i id pm)

end NoReuse

section Runs

variable {K : Type*} {m : CfactoryMgr K} {s : DispatchState K}
  {G : DispatchState K → DispatchLabel K → Prop}

/-- A live instance was created with its id, and not removed. -/
theorem live_created (hinv : CreatedInv s) (hbal : Balanced s) {fac : Cfactory K} {x : Cfsm}
    (hfac : fac ∈ s.mgr.facList) (hx : x ∈ fac.fsmList) :
    (∃ pm, .created fac.facId x.inst x.fsmId pm ∈ s.events) ∧
      x.inst ∉ removedIn fac.facId s.events :=
  ⟨mem_createdIn.mp (hinv.mem_of_live hfac hx),
    not_removed_of_deref hbal (CfactoryMgr.deref_eq_some_iff.mpr
      ⟨CfactoryMgr.findFactory_of_mem hfac, Cfactory.deref_of_mem hx⟩)⟩

/-- An instance that was created is live, or was removed. -/
theorem created_live (hinv : CreatedInv s) (hbal : Balanced s) {facId fsmId : UInt32} {inst : ℕ}
    {fac : Cfactory K} (hfac : s.mgr.findFactory facId = some fac)
    (hc : (inst, fsmId) ∈ createdIn facId s.events) :
    inst ∈ removedIn facId s.events ∨ ∃ x ∈ fac.fsmList, x.inst = inst ∧ x.fsmId = fsmId := by
  rw [hinv facId] at hc
  obtain ⟨i, hi, heq⟩ := List.mem_map.mp hc
  obtain ⟨rfl, rfl⟩ := Prod.mk.inj heq
  rcases List.mem_append.mp ((hbal facId).mem_iff.mpr hi) with hlive | hrem
  · rw [CfactoryMgr.liveInsts, hfac] at hlive
    obtain ⟨x, hx, rfl⟩ := List.mem_map.mp hlive
    exact .inr ⟨x, hx, rfl, fac.fsmId_eq x hx⟩
  · exact .inl hrem

/-- An instance is created once. -/
theorem created_split (hinv : CreatedInv s) {pre rest : List Event} {facId fsmId : UInt32}
    {inst : ℕ} {pm : PumpMsg} (hsplit : s.events = pre ++ .created facId inst fsmId pm :: rest)
    (id : UInt32) : (inst, id) ∉ createdIn facId pre ∧ (inst, id) ∉ createdIn facId rest := by
  have hinsts : (createdIn facId s.events).map Prod.fst =
      List.range (s.mgr.createdCount facId) := by
    rw [hinv facId, List.map_map]
    exact List.map_id _
  have hcre : createdIn facId s.events =
      createdIn facId pre ++ (inst, fsmId) :: createdIn facId rest := by
    simp [hsplit, createdIn]
  have hnodup := hinsts ▸ List.nodup_range
  rw [hcre, List.map_append, List.map_cons] at hnodup
  obtain ⟨-, htail, hdisjoint⟩ := List.nodup_append.mp hnodup
  constructor
  · intro hmem
    have hinst : inst ∈ (createdIn facId pre).map Prod.fst := List.mem_map.mpr ⟨_, hmem, rfl⟩
    exact hdisjoint inst hinst inst List.mem_cons_self rfl
  · intro hmem
    exact (List.nodup_cons.mp htail).1 (List.mem_map.mpr ⟨_, hmem, rfl⟩)

/-- So one message created it. -/
theorem created_unique (hinv : CreatedInv s) {facId fsmId id : UInt32} {inst : ℕ}
    {pm pm' : PumpMsg} (h : .created facId inst fsmId pm ∈ s.events)
    (h' : .created facId inst id pm' ∈ s.events) : id = fsmId ∧ pm' = pm := by
  obtain ⟨pre, rest, hsplit⟩ := List.append_of_mem h
  obtain ⟨hpre, hrest⟩ := created_split hinv hsplit id
  rw [hsplit] at h'
  rcases List.mem_append.mp h' with hmem | hmem
  · exact absurd (mem_createdIn.mpr ⟨pm', hmem⟩) hpre
  · rcases List.mem_cons.mp hmem with heq | hmem
    · obtain ⟨-, -, rfl, rfl⟩ := Event.created.inj heq
      exact ⟨rfl, rfl⟩
    · exact absurd (mem_createdIn.mpr ⟨pm', hmem⟩) hrest

variable [BusinessFsm K]

/-- **The condition on the steps, seen from the events.** -/
theorem noReuse_of_reachable (hm : m.Fresh) (hG : ∀ s l, G s l → unusedIds s l)
    (h : (dispatchSystem m).ReachableVia G s) : NoReuse s.events := by
  refine h.invariant_reachable (I := fun s => NoReuse s.events) ?init ?step
  case init =>
    rintro _ rfl pre f i id pm hpre
    exact absurd (List.prefix_nil.mp hpre) (by simp)
  case step =>
    intro s l s' hvia hn hg hs
    have hreach := hvia.reachable
    cases l with
    | env l =>
        obtain ⟨p, -, rfl⟩ := DispatchState.step_env_iff.mp hs
        exact hn
    | registerFactory factory =>
        obtain rfl := DispatchState.step_registerFactory_iff.mp hs
        exact hn
    | pop t =>
        obtain ⟨-, pm, p, -, rfl⟩ := DispatchState.step_pop_iff.mp hs
        exact hn
    | advance t =>
        obtain ⟨⟨pm, pc⟩, next, m', ev, ht, hadv, rfl⟩ := DispatchState.step_advance_iff.mp hs
        cases hadv with
        | @added facId fac fac' fsm hfac hadd =>
            obtain ⟨hnew, -⟩ := Cfactory.addFsm_some hadd
            refine hn.concat ?_
            rintro f i id pm' heq hz j pm'' hmem
            obtain ⟨rfl, rfl, rfl, rfl⟩ := Event.created.inj heq
            have hid : fsm.fsmId = fac.nextFsmId := by rw [hnew]
            have hunused : fac.IdUnused := hG s _ hg _ ht facId rfl fac hfac
            rcases created_live (createdInv_of_reachable hm hreach)
              (balanced_of_reachable hm hreach) hfac (mem_createdIn.mpr ⟨pm'', hmem⟩) with
              hrem | ⟨x, hx, -, hxid⟩
            · exact hrem
            · exact absurd (hxid.trans hid) (hunused (hid ▸ hz) x hx)
        | _ => exact hn.append (by simp)

/-- While ids are left, none is used twice. -/
theorem noReuse_of_idsLeft (hm : m.Fresh) (h : (dispatchSystem m).Reachable s)
    (hb : s.mgr.IdsLeft) : NoReuse s.events := by
  intro pre f i id pm hpre hz j pm' hmem
  have hinv := createdInv_of_reachable hm h
  have hbound : s.mgr.createdCount f < 2 ^ 32 := by
    have := hb.createdCount_lt f
    omega
  obtain ⟨rest, hrest⟩ := hpre
  have hsplit : s.events = pre ++ .created f i id pm :: rest := by simp [← hrest]
  have hj : (j, id) ∈ createdIn f pre := mem_createdIn.mpr ⟨pm', hmem⟩
  have hold : (j, id) ∈ createdIn f s.events := by simp [hsplit, hj]
  have hnew : (i, id) ∈ createdIn f s.events := by simp [hsplit, createdIn]
  obtain rfl : j = i := hinv.inst_unique hbound hold hnew
  exact absurd hj (created_split hinv hsplit id).1

end Runs

/-! ## Sessions -/

/-- A `MSG_INIT` of this session created the instance. -/
def OpenedBy (events : List Event) (facId : UInt32) (fsm : Cfsm) (sessionId : UInt32) : Prop :=
  ∃ pm₀, .created facId fsm.inst fsm.fsmId pm₀ ∈ events ∧ pm₀.msg.type = .msgInit ∧
    pm₀.msg.sessionId = sessionId

/-- Ids tell instances apart. A message that names an instance is the only one that does, and
carries the session of its `MSG_INIT`. -/
structure NamingInv (facList : List (Cfactory FsmKind)) (traffic : List PumpMsg)
    (events : List Event) : Prop where
  distinct : ∀ fac ∈ facList, ∀ x ∈ fac.fsmList, ∀ y ∈ fac.fsmList, x.fsmId = y.fsmId →
    x.fsmId ≠ 0 → x.inst = y.inst
  single : ∀ facId fsmId, fsmId ≠ 0 → (traffic.filter (PumpMsg.isFor facId fsmId)).length ≤ 1
  owned : ∀ pm ∈ traffic, pm.msg.fsmId ≠ 0 → ∃ fac ∈ facList, fac.facId = pm.msg.serviceId ∧
    ∃ x ∈ fac.fsmList, x.fsmId = pm.msg.fsmId ∧ OpenedBy events fac.facId x pm.msg.sessionId

variable {facList : List (Cfactory FsmKind)} {traffic traffic' : List PumpMsg}
  {events ev : List Event} {pm pm' : PumpMsg} {m : CfactoryMgr FsmKind}
  {fac fac' : Cfactory FsmKind} {fsm : Cfsm}

theorem OpenedBy.later {facId sessionId : UInt32} (h : OpenedBy events facId fsm sessionId) :
    OpenedBy (events ++ ev) facId fsm sessionId := by
  obtain ⟨pm₀, hmem, hpm₀⟩ := h
  exact ⟨pm₀, List.mem_append_left _ hmem, hpm₀⟩

namespace NamingInv

/-- The order of the traffic does not matter. -/
theorem perm (h : NamingInv facList traffic events) (hp : traffic.Perm traffic') :
    NamingInv facList traffic' events where
  distinct := h.distinct
  single f id hz := (hp.filter _).length_eq ▸ h.single f id hz
  owned pm hpm := h.owned pm (hp.mem_iff.mpr hpm)

theorem later (h : NamingInv facList traffic events) :
    NamingInv facList traffic (events ++ ev) where
  distinct := h.distinct
  single := h.single
  owned pm hpm hz := by
    obtain ⟨fac, hfac, hid, x, hx, hxid, hopened⟩ := h.owned pm hpm hz
    exact ⟨fac, hfac, hid, x, hx, hxid, hopened.later⟩

/-- A message is taken. -/
theorem tail (h : NamingInv facList (pm :: traffic) events) :
    NamingInv facList traffic events where
  distinct := h.distinct
  single f id hz :=
    (((List.sublist_cons_self pm traffic).filter _).length_le).trans (h.single f id hz)
  owned pm' hpm' := h.owned pm' (List.mem_cons_of_mem _ hpm')

/-- A message is posted that names no instance. -/
theorem post (h : NamingInv facList traffic events) (hid : pm.msg.fsmId = 0) :
    NamingInv facList (pm :: traffic) events where
  distinct := h.distinct
  single f id hz := by
    rw [List.filter_cons_of_neg]
    · exact h.single f id hz
    · rw [PumpMsg.isFor_iff, hid]
      exact fun hfor => hz hfor.2.symm
  owned pm' hpm' hz := by
    rcases List.mem_cons.mp hpm' with rfl | hpm'
    · exact absurd hid hz
    · exact h.owned pm' hpm' hz

/-- A message is taken, and one of the same instance and session is posted. -/
theorem replace (h : NamingInv facList (pm :: traffic) events)
    (hservice : pm'.msg.serviceId = pm.msg.serviceId) (hid : pm'.msg.fsmId = pm.msg.fsmId)
    (hsession : pm'.msg.sessionId = pm.msg.sessionId) :
    NamingInv facList (pm' :: traffic) events where
  distinct := h.distinct
  single f id hz := by
    have hfor : pm'.isFor f id = pm.isFor f id := by simp [PumpMsg.isFor, hservice, hid]
    have hlen := h.single f id hz
    rw [List.filter_cons] at hlen ⊢
    rw [hfor]
    split at hlen
    · rw [if_pos ‹_›]
      exact hlen
    · rw [if_neg ‹_›]
      exact hlen
  owned x hx hz := by
    rcases List.mem_cons.mp hx with rfl | hx
    · rw [hservice, hid, hsession]
      exact h.owned pm List.mem_cons_self (hid ▸ hz)
    · exact h.owned x (List.mem_cons_of_mem _ hx) hz

/-- No message names an instance with an id that is not in use. -/
theorem filter_eq_nil (h : NamingInv m.facList traffic events) (hfac : fac ∈ m.facList)
    {fsmId : UInt32} (hz : fsmId ≠ 0) (hunused : ∀ x ∈ fac.fsmList, x.fsmId ≠ fsmId) :
    traffic.filter (PumpMsg.isFor fac.facId fsmId) = [] := by
  refine filter_isFor_eq_nil ?_ hfac hz hunused
  intro pm hpm hne
  obtain ⟨f, hf, hfid, x, hx, hxid, -⟩ := h.owned pm hpm hne
  exact ⟨f, hf, hfid, x, hx, hxid⟩

/-- An instance is created with an unused id, and posts its first follow-up. -/
theorem create (h : NamingInv m.facList traffic events) (hfac : fac ∈ m.facList)
    (hadd : fac.addFsm = some (fsm, fac'))
    (hunused : fsm.fsmId ≠ 0 → ∀ x ∈ fac.fsmList, x.fsmId ≠ fsm.fsmId)
    (hservice : pm.msg.serviceId = fac.facId) (htype : pm.msg.type = .msgInit)
    (hcreated : .created fac.facId fsm.inst fsm.fsmId pm ∈ ev) :
    NamingInv (m.setFactory (fac'.setState fsm.inst .working)).facList
      (⟨nextMsg fsm pm.msg .msgConnect, .fsm fac.facId fsm.inst⟩ :: traffic) (events ++ ev) := by
  constructor
  case distinct =>
    intro f hf x hx y hy hxy hz
    rcases CfactoryMgr.mem_setFactory.mp hf with ⟨hf, -⟩ | ⟨rfl, -⟩
    · exact h.distinct f hf x hx y hy hxy hz
    · rcases mem_created hadd hx with hx | rfl
      · rcases mem_created hadd hy with hy | rfl
        · exact h.distinct fac hfac x hx y hy hxy hz
        · exact absurd hxy (hunused (hxy ▸ hz) x hx)
      · rcases mem_created hadd hy with hy | rfl
        · exact absurd hxy.symm (hunused hz y hy)
        · rfl
  case single =>
    intro f id hz
    by_cases hfor : PumpMsg.isFor f id
      ⟨nextMsg fsm pm.msg .msgConnect, .fsm fac.facId fsm.inst⟩ = true
    · obtain ⟨hs, hi⟩ := PumpMsg.isFor_iff.mp hfor
      obtain rfl : fac.facId = f := hservice.symm.trans hs
      obtain rfl : fsm.fsmId = id := hi
      rw [List.filter_cons_of_pos hfor, h.filter_eq_nil hfac hz (hunused hz)]
      rfl
    · rw [List.filter_cons_of_neg hfor]
      exact h.single f id hz
  case owned =>
    intro pm' hpm' hz
    rcases List.mem_cons.mp hpm' with rfl | hpm'
    · obtain ⟨g, hg, hgid, hx⟩ := created_listed hfac hadd
      exact ⟨g, hg, hgid.trans hservice.symm, _, hx, rfl, pm,
        hgid ▸ List.mem_append_right _ hcreated, htype, rfl⟩
    · obtain ⟨f, hf, hfid, x, hx, hxid, hopened⟩ := h.owned pm' hpm' hz
      obtain ⟨g, hg, hgid, hx⟩ := listed_of_addFsm hfac hadd hf hx
      exact ⟨g, hg, hgid.trans hfid, x, hx, hxid, hgid ▸ hopened.later⟩

/-- The instance that a message is routed to is the one that it was posted for. -/
theorem target (h : NamingInv m.facList (pm :: traffic) events)
    (hfac : m.findFactory pm.msg.serviceId = some fac)
    (hroute : fac.route pm.msg.fsmId = some fsm) :
    traffic.filter (PumpMsg.isFor fac.facId fsm.fsmId) = [] ∧
      OpenedBy events fac.facId fsm pm.msg.sessionId := by
  obtain ⟨hfsm, hid, hz⟩ := Cfactory.mem_of_route hroute
  obtain ⟨hmem, hfacId⟩ := CfactoryMgr.findFactory_eq_some_iff.mp hfac
  have hfor : pm.isFor fac.facId fsm.fsmId = true :=
    PumpMsg.isFor_iff.mpr ⟨hfacId.symm, hid.symm⟩
  constructor
  · have hlen := h.single fac.facId fsm.fsmId (hid ▸ hz)
    rw [List.filter_cons_of_pos hfor, List.length_cons] at hlen
    exact List.length_eq_zero_iff.mp (by omega)
  · obtain ⟨f, hf, hfid, x, hx, hxid, hopened⟩ := h.owned pm List.mem_cons_self hz
    obtain rfl : f = fac := CfactoryMgr.eq_of_facId_eq hf hmem (hfid.trans hfacId.symm)
    have hinst := h.distinct f hf x hx fsm hfsm (hxid.trans hid.symm) (hxid ▸ hz)
    rwa [Cfactory.eq_of_inst_eq hx hfsm hinst] at hopened

/-- An instance takes its message and leaves. -/
theorem close (h : NamingInv m.facList (pm :: traffic) events)
    (hfac : m.findFactory pm.msg.serviceId = some fac)
    (hroute : fac.route pm.msg.fsmId = some fsm) :
    NamingInv (m.setFactory (fac.killFsm fsm.fsmId).2).facList traffic (events ++ ev) := by
  have hfind := Cfactory.findFsm_self_of_route hroute
  obtain ⟨hfsm, -⟩ := Cfactory.mem_of_findFsm hfind
  have hmem := CfactoryMgr.mem_of_findFactory hfac
  obtain ⟨hnil, -⟩ := h.target hfac hroute
  constructor
  case distinct =>
    intro f hf x hx y hy hxy hz
    rcases CfactoryMgr.mem_setFactory.mp hf with ⟨hf, -⟩ | ⟨rfl, -⟩
    · exact h.distinct f hf x hx y hy hxy hz
    · exact h.distinct fac hmem x ((mem_killFsm hfind).mp hx).1 y ((mem_killFsm hfind).mp hy).1
        hxy hz
  case single => exact h.tail.single
  case owned =>
    intro pm' hpm' hz
    obtain ⟨f, hf, hfid, x, hx, hxid, hopened⟩ := h.tail.owned pm' hpm' hz
    have hne := ne_of_unnamed hmem hfsm hnil hpm' hf hfid hx hxid
    obtain ⟨g, hg, hgid, hx⟩ := listed_of_killFsm hmem hfind hf hx hne
    exact ⟨g, hg, hgid.trans hfid, x, hx, hxid, hgid ▸ hopened.later⟩

/-- A dispatch keeps it. -/
theorem dispatched {r : DispatchResult FsmKind} (h : NamingInv m.facList (pm :: m.traffic) events)
    (hunused : ∀ (fac : Cfactory FsmKind) (fsm : Cfsm), fac ∈ m.facList →
      [.created fac.facId fsm.inst fsm.fsmId pm] <+: r.events → fsm.fsmId ≠ 0 →
        ∀ x ∈ fac.fsmList, x.fsmId ≠ fsm.fsmId)
    (hd : Dispatched m pm r) : NamingInv r.mgr.facList r.mgr.traffic (events ++ r.events) := by
  cases hd with
  | rejected | ignored => exact h.tail.later
  | @created fac fac' fsm ret p hfac hroute htype hadd hpost =>
      have hmem := CfactoryMgr.mem_of_findFactory hfac
      have htraffic := MsgPorts.traffic_sendMsg m.toMsgPorts
        ⟨nextMsg fsm pm.msg .msgConnect, .fsm fac.facId fsm.inst⟩
      rw [hpost] at htraffic
      exact (h.tail.create hmem hadd (hunused fac fsm hmem (List.prefix_append _ _))
        (CfactoryMgr.findFactory_facId hfac).symm htype List.mem_cons_self).perm htraffic.symm
  | @wentOn fac fsm tr ret p hfac hroute hrule hclose hpost =>
      have htraffic := traffic_postNextEvent fac.facId tr (handedTo fsm pm).msg fsm m.toMsgPorts
      rw [hpost] at htraffic
      have hnew : NamingInv m.facList
          (⟨nextMsg fsm (handedTo fsm pm).msg tr.nextEvent, .fsm fac.facId fsm.inst⟩ :: m.traffic)
          events := h.replace rfl (Cfactory.mem_of_route hroute).2.1 rfl
      exact hnew.later.perm htraffic.symm
  | closed hfac hroute => exact h.close hfac hroute

end NamingInv

/-- **Sessions.** Whatever is stopped, started or cancelled, as long as no id is used again while
its instance is live. -/
theorem namingInv_of_reachable {E : EnvLabel → Prop} {a : SeqState FsmKind}
    (hE : ∀ l, E l → onlyInit l) (h : (seqSystem .boot).ReachableVia (admits E) a)
    (hn : NoReuse a.events) : NamingInv a.mgr.facList a.mgr.traffic a.events := by
  refine seq_invariant
    (I := fun a => NoReuse a.events → NamingInv a.mgr.facList a.mgr.traffic a.events)
    (B := fun _ => True) ?init (fun _ _ _ _ _ => trivial) ?env ?dispatch h trivial hn
  case init =>
    intro _
    have hempty : ∀ pm, pm ∉ CfactoryMgr.boot.traffic := by
      simp [CfactoryMgr.boot_eq.2, MsgPorts.traffic, MsgPorts.pending, TimerManager.outstanding]
    exact
      { distinct := fun fac hfac x hx => by simp [(CfactoryMgr.fresh_boot fac hfac).1] at hx
        single := fun f id _ => by
          rw [List.filter_eq_nil_iff.mpr fun pm hpm => absurd hpm (hempty pm)]
          exact Nat.zero_le _
        owned := fun pm hpm => absurd hpm (hempty pm) }
  case env =>
    intro a l p _ hI hl hp hn
    refine NamingInv.perm ?_ (MsgPorts.traffic_env hp).symm
    have hinit := hE l hl
    cases l with
    | sendMsg n msg => exact (hI hn).post hinit.2
    | _ => exact hI hn
  case dispatch =>
    intro a pm p r hreach _ hI hports hd hn
    have htraffic : a.mgr.traffic = pm :: p.traffic := by rw [hports, MsgPorts.traffic_unpop]
    have hinv := hI (hn.of_prefix (List.prefix_append _ _))
    refine NamingInv.dispatched (m := a.mgr.withPorts p) (htraffic ▸ hinv) ?_ hd
    intro fac fsm hfac hcreated hz x hx hid
    -- a live instance with the id was created, and not removed
    have hlive := (resting_reachable hreach).reachable
    obtain ⟨⟨pm', hmem⟩, hrem⟩ := live_created (s := .resting a.mgr a.events)
      (createdInv_of_reachable CfactoryMgr.fresh_boot hlive)
      (balanced_of_reachable CfactoryMgr.fresh_boot hlive) hfac hx
    rw [hid] at hmem
    exact hrem (hn a.events _ _ _ _ ((List.prefix_append_right_inj _).mpr hcreated) hz _ pm' hmem)

end FsmFramework
