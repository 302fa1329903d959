import FsmFramework.SeqRuns

/-!
# Flows

An instance remembers only that it is `WORKING`; how far its flow has come stands in the one
message that is on its way to it. `FlowInv` ties the two together: every live instance has
exactly one message in the traffic, of the type that is next in the flow, and every
message that names an instance belongs to a live one.

The traffic contains the messages that were lost. As long as nothing is lost it is what is
pending, which gives the invariant of a manager that is never stopped; when nothing is
pending it is what was lost, which says what a stopped manager leaves behind.
-/

namespace FsmFramework

/-- The events of a flow, first to last. -/
def FsmKind.flow : FsmKind → List MsgType
  | .reg => [.msgInit, .msgConnect, .msgReq, .msgResp, .msgTimeout, .msgClose]
  | .auth => [.msgInit, .msgConnect, .msgReq, .msgResp, .msgClose]

/-- A row of events, each followed by the one that its rule posts, up to `MSG_CLOSE`. -/
def FsmKind.Chained (k : FsmKind) : List MsgType → Prop
  | [] => True
  | [e] => e = .msgClose
  | e :: e' :: l => (k.rule .working e).map FsmTransition.nextEvent = some e' ∧ Chained k (e' :: l)

theorem FsmKind.chained_of_append (k : FsmKind) {pre l : List MsgType}
    (h : k.Chained (pre ++ l)) : k.Chained l := by
  induction pre with
  | nil => exact h
  | cons e pre ih =>
      refine ih ?_
      rw [List.cons_append] at h
      generalize pre ++ l = tail at h ⊢
      cases tail with
      | nil => trivial
      | cons e' tail => exact h.2

/-- The tables follow the flows. -/
theorem FsmKind.chained_flow (k : FsmKind) : k.Chained k.flow.tail := by
  cases k
  · exact ⟨rfl, rfl, rfl, rfl, rfl⟩
  · exact ⟨rfl, rfl, rfl, rfl⟩

/-- After the first event of a flow there is a rule for each, and its follow-up is the next. -/
theorem FsmKind.rule_of_flow (k : FsmKind) {pre rest : List MsgType} {e : MsgType}
    (h : k.flow = pre ++ e :: rest) (hpre : pre ≠ []) :
    ∃ tr, k.rule .working e = some tr ∧
      (e = .msgClose ∨ ∃ rest', rest = tr.nextEvent :: rest') := by
  obtain ⟨a, pre, rfl⟩ := List.exists_cons_of_ne_nil hpre
  have hchain := k.chained_flow
  rw [h, List.cons_append, List.tail_cons] at hchain
  have hsuffix := k.chained_of_append hchain
  cases rest with
  | nil =>
      obtain rfl : e = .msgClose := hsuffix
      obtain ⟨tr, htr⟩ := k.rule_working_close
      exact ⟨tr, htr, .inl rfl⟩
  | cons e' rest =>
      obtain ⟨tr, htr, rfl⟩ := Option.map_eq_some_iff.mp hsuffix.1
      exact ⟨tr, htr, .inr ⟨rest, rfl⟩⟩

/-- The first follow-up of a flow is `MSG_CONNECT`. -/
theorem FsmKind.flow_eq (k : FsmKind) : ∃ rest, k.flow = [.msgInit] ++ .msgConnect :: rest := by
  cases k <;> exact ⟨_, rfl⟩

/-! ## The invariant -/

/-- The events an instance has processed. -/
def processedIn (facId : UInt32) (inst : ℕ) (events : List Event) : List MsgType :=
  events.filterMap fun
    | .processed f i pm _ => if f = facId ∧ i = inst then some pm.msg.type else none
    | _ => none

@[simp] theorem processedIn_append (facId : UInt32) (inst : ℕ) (l l' : List Event) :
    processedIn facId inst (l ++ l') = processedIn facId inst l ++ processedIn facId inst l' :=
  List.filterMap_append

/-- The message names this instance. -/
def PumpMsg.isFor (facId fsmId : UInt32) (pm : PumpMsg) : Bool :=
  pm.msg.serviceId = facId ∧ pm.msg.fsmId = fsmId

/-- `pm` is what comes next for an instance: what it has processed is a beginning of its flow,
neither empty nor whole, and `pm` is the following event, which the instance posted itself with
the session and the payload of the `MSG_INIT` that created it. -/
structure ComesNext (events : List Event) (facId : UInt32) (kind : FsmKind) (fsm : Cfsm)
    (pm : PumpMsg) : Prop where
  position : ∃ pre rest, kind.flow = pre ++ pm.msg.type :: rest ∧ pre ≠ [] ∧
    processedIn facId fsm.inst events = pre
  sender : pm.sender = .fsm facId fsm.inst
  origin : ∃ pm₀, Event.created facId fsm.inst fsm.fsmId pm₀ ∈ events ∧
    pm₀.msg.type = .msgInit ∧ pm.msg.sessionId = pm₀.msg.sessionId ∧ pm.msg.msg = pm₀.msg.msg

/-- Instances and messages correspond. -/
structure FlowInv (facList : List (Cfactory FsmKind)) (traffic : List PumpMsg)
    (events : List Event) : Prop where
  live : ∀ fac ∈ facList, ∀ fsm ∈ fac.fsmList,
    ∃ pm, traffic.filter (PumpMsg.isFor fac.facId fsm.fsmId) = [pm] ∧
      ComesNext events fac.facId fac.kind fsm pm
  named : ∀ pm ∈ traffic, pm.msg.fsmId ≠ 0 → ∃ fac ∈ facList, fac.facId = pm.msg.serviceId ∧
    ∃ fsm ∈ fac.fsmList, fsm.fsmId = pm.msg.fsmId
  initial : ∀ pm ∈ traffic, pm.msg.fsmId = 0 → pm.msg.type = .msgInit
  unborn : ∀ fac ∈ facList, ∀ inst, fac.created ≤ inst → processedIn fac.facId inst events = []

variable {facList : List (Cfactory FsmKind)} {traffic traffic' : List PumpMsg}
  {events ev : List Event} {pm : PumpMsg} {fac : Cfactory FsmKind} {fsm : Cfsm}
  {facId fsmId : UInt32}

theorem PumpMsg.isFor_iff : pm.isFor facId fsmId = true ↔
    pm.msg.serviceId = facId ∧ pm.msg.fsmId = fsmId := by simp [isFor]

/-- No message names an instance with an id that is not in use. -/
theorem filter_isFor_eq_nil {m : CfactoryMgr FsmKind}
    (hnamed : ∀ pm ∈ traffic, pm.msg.fsmId ≠ 0 →
      ∃ f ∈ m.facList, f.facId = pm.msg.serviceId ∧ ∃ x ∈ f.fsmList, x.fsmId = pm.msg.fsmId)
    (hfac : fac ∈ m.facList) (hz : fsmId ≠ 0) (hunused : ∀ x ∈ fac.fsmList, x.fsmId ≠ fsmId) :
    traffic.filter (PumpMsg.isFor fac.facId fsmId) = [] := by
  apply List.filter_eq_nil_iff.mpr
  intro pm hpm hfor
  obtain ⟨hs, hi⟩ := PumpMsg.isFor_iff.mp hfor
  obtain ⟨f, hf, hfid, x, hx, hxid⟩ := hnamed pm hpm (hi ▸ hz)
  obtain rfl : f = fac := CfactoryMgr.eq_of_facId_eq hf hfac (hfid.trans hs)
  exact hunused x hx (hxid.trans hi)

/-- What a message names is not an instance that no message is for. -/
theorem ne_of_unnamed {m : CfactoryMgr FsmKind} {f : Cfactory FsmKind} {x : Cfsm}
    (hfac : fac ∈ m.facList) (hfsm : fsm ∈ fac.fsmList)
    (hnil : traffic.filter (PumpMsg.isFor fac.facId fsm.fsmId) = []) (hpm : pm ∈ traffic)
    (hf : f ∈ m.facList) (hfid : f.facId = pm.msg.serviceId) (hx : x ∈ f.fsmList)
    (hxid : x.fsmId = pm.msg.fsmId) : ¬ (f.facId = fac.facId ∧ x.inst = fsm.inst) := by
  rintro ⟨hid, hinst⟩
  obtain rfl : f = fac := CfactoryMgr.eq_of_facId_eq hf hfac hid
  obtain rfl : x = fsm := Cfactory.eq_of_inst_eq hx hfsm hinst
  have hin : pm ∈ traffic.filter (PumpMsg.isFor f.facId x.fsmId) :=
    List.mem_filter.mpr ⟨hpm, PumpMsg.isFor_iff.mpr ⟨hfid.symm, hxid.symm⟩⟩
  simp [hnil] at hin

theorem ComesNext.later {kind : FsmKind} (h : ComesNext events facId kind fsm pm)
    (hev : processedIn facId fsm.inst ev = []) : ComesNext (events ++ ev) facId kind fsm pm := by
  obtain ⟨⟨pre, rest, hflow, hpre, hproc⟩, hsender, pm₀, hmem, horigin⟩ := h
  exact ⟨⟨pre, rest, hflow, hpre, by simp [hev, hproc]⟩, hsender, pm₀,
    List.mem_append_left _ hmem, horigin⟩

namespace FlowInv

/-- The order of the traffic does not matter. -/
theorem perm (h : FlowInv facList traffic events) (hp : traffic.Perm traffic') :
    FlowInv facList traffic' events where
  live fac hfac fsm hfsm := by
    obtain ⟨pm, hpm, hnext⟩ := h.live fac hfac fsm hfsm
    exact ⟨pm, List.perm_singleton.mp (hpm ▸ (hp.filter _).symm), hnext⟩
  named pm hpm := h.named pm (hp.mem_iff.mpr hpm)
  initial pm hpm := h.initial pm (hp.mem_iff.mpr hpm)
  unborn := h.unborn

/-- Events of which no instance processes anything. -/
theorem silent (h : FlowInv facList traffic events) (hev : ∀ f i, processedIn f i ev = []) :
    FlowInv facList traffic (events ++ ev) where
  live fac hfac fsm hfsm := by
    obtain ⟨pm, hpm, hnext⟩ := h.live fac hfac fsm hfsm
    exact ⟨pm, hpm, hnext.later (hev _ _)⟩
  named := h.named
  initial := h.initial
  unborn fac hfac inst hi := by simp [hev, h.unborn fac hfac inst hi]

/-- A client posts a `MSG_INIT` that names no instance. -/
theorem post (h : FlowInv facList traffic events) (hid : pm.msg.fsmId = 0)
    (htype : pm.msg.type = .msgInit)
    (hne : ∀ fac ∈ facList, ∀ fsm ∈ fac.fsmList, fsm.fsmId ≠ 0) :
    FlowInv facList (pm :: traffic) events where
  live fac hfac fsm hfsm := by
    obtain ⟨pm', hpm', hnext⟩ := h.live fac hfac fsm hfsm
    refine ⟨pm', ?_, hnext⟩
    rw [List.filter_cons_of_neg, hpm']
    rw [PumpMsg.isFor_iff, hid]
    exact fun ⟨_, h0⟩ => hne fac hfac fsm hfsm h0.symm
  named pm' hpm' hne' := by
    rcases List.mem_cons.mp hpm' with rfl | hpm'
    · exact absurd hid hne'
    · exact h.named pm' hpm' hne'
  initial pm' hpm' hid' := by
    rcases List.mem_cons.mp hpm' with rfl | hpm'
    · exact htype
    · exact h.initial pm' hpm' hid'
  unborn := h.unborn

/-- A message that names no instance is taken and has no effect. -/
theorem drop (h : FlowInv facList (pm :: traffic) events) (hid : pm.msg.fsmId = 0)
    (hne : ∀ fac ∈ facList, ∀ fsm ∈ fac.fsmList, fsm.fsmId ≠ 0) :
    FlowInv facList traffic events where
  live fac hfac fsm hfsm := by
    obtain ⟨pm', hpm', hnext⟩ := h.live fac hfac fsm hfsm
    refine ⟨pm', ?_, hnext⟩
    rwa [List.filter_cons_of_neg] at hpm'
    rw [PumpMsg.isFor_iff, hid]
    exact fun ⟨_, h0⟩ => hne fac hfac fsm hfsm h0.symm
  named pm' hpm' := h.named pm' (List.mem_cons_of_mem _ hpm')
  initial pm' hpm' := h.initial pm' (List.mem_cons_of_mem _ hpm')
  unborn := h.unborn

section Steps

variable {m : CfactoryMgr FsmKind} {fac' : Cfactory FsmKind}

/-- Two live instances that one message can name are one. -/
theorem eq_of_ids {f g : Cfactory FsmKind} {x y : Cfsm} (hf : f ∈ m.facList) (hg : g ∈ m.facList)
    (hb : g.created < 2 ^ 32) (hx : x ∈ f.fsmList) (hy : y ∈ g.fsmList)
    (hid : f.facId = g.facId) (hfsm : x.fsmId = y.fsmId) : f = g ∧ x = y := by
  obtain rfl := CfactoryMgr.eq_of_facId_eq hf hg hid
  exact ⟨rfl, Cfactory.fsmId_inj hb hx hy hfsm⟩

/-- An instance is created by `MSG_INIT` and posts `MSG_CONNECT`. -/
theorem create (h : FlowInv m.facList traffic events) (hfac : fac ∈ m.facList)
    (hadd : fac.addFsm = some (fsm, fac')) (hb : fac.created + 1 < 2 ^ 32)
    (hservice : pm.msg.serviceId = fac.facId) (htype : pm.msg.type = .msgInit)
    (hcreated : .created fac.facId fsm.inst fsm.fsmId pm ∈ ev)
    (hself : processedIn fac.facId fsm.inst ev = [.msgInit])
    (hother : ∀ f i, ¬ (f = fac.facId ∧ i = fsm.inst) → processedIn f i ev = []) :
    FlowInv (m.setFactory (fac'.setState fsm.inst .working)).facList
      (⟨nextMsg fsm pm.msg .msgConnect, .fsm fac.facId fsm.inst⟩ :: traffic) (events ++ ev) := by
  obtain ⟨hnew, hid, hkind, -, hcre, -⟩ := Cfactory.addFsm_some hadd
  have hinst : fsm.inst = fac.created := by rw [hnew]
  have hnext : fsm.fsmId = fac.nextFsmId := by rw [hnew]
  have hold : ∀ x ∈ fac.fsmList, x.inst ≠ fsm.inst := by
    intro x hx
    have := fac.inst_lt x hx
    omega
  have hfresh : ∀ x ∈ fac.fsmList, x.fsmId ≠ fsm.fsmId := by
    intro x hx
    rw [hnext]
    exact Cfactory.fsmId_ne_nextFsmId hb hx
  have hzero : fsm.fsmId ≠ 0 := by
    rw [hnext, fac.nextFsmId_eq, Ne, fsmIdOf_eq_zero_iff, Nat.mod_eq_of_lt hb]
    omega
  have hmem : ∀ f ∈ (m.setFactory (fac'.setState fsm.inst .working)).facList,
      (f ∈ m.facList ∧ f.facId ≠ fac.facId) ∨ f = fac'.setState fsm.inst .working := by
    intro f hf
    rcases CfactoryMgr.mem_setFactory.mp hf with ⟨hf, hne⟩ | ⟨rfl, -⟩
    · exact .inl ⟨hf, by rwa [Cfactory.setState_facId, hid] at hne⟩
    · exact .inr rfl
  constructor
  case live =>
    intro f hf x hx
    rcases hmem f hf with ⟨hf, hne⟩ | rfl
    · -- an instance of another factory
      obtain ⟨pm', hpm', hcn⟩ := h.live f hf x hx
      refine ⟨pm', ?_, hcn.later (hother _ _ fun hc => hne hc.1)⟩
      rw [List.filter_cons_of_neg, hpm']
      rw [PumpMsg.isFor_iff]
      exact fun hfor => hne (hfor.1.symm.trans hservice)
    · rw [Cfactory.setState_facId, Cfactory.setState_kind, hid, hkind]
      rcases mem_created hadd hx with hx | rfl
      · -- an older instance of this factory
        obtain ⟨pm', hpm', hcn⟩ := h.live fac hfac x hx
        refine ⟨pm', ?_, hcn.later (hother _ _ fun hc => hold x hx hc.2)⟩
        rw [List.filter_cons_of_neg, hpm']
        rw [PumpMsg.isFor_iff]
        exact fun hfor => hfresh x hx hfor.2.symm
      · -- the new instance
        have hnone : traffic.filter (PumpMsg.isFor fac.facId fsm.fsmId) = [] :=
          filter_isFor_eq_nil h.named hfac hzero hfresh
        have hfor : PumpMsg.isFor fac.facId fsm.fsmId
            ⟨nextMsg fsm pm.msg .msgConnect, .fsm fac.facId fsm.inst⟩ = true :=
          PumpMsg.isFor_iff.mpr ⟨hservice, rfl⟩
        obtain ⟨rest, hflow⟩ := fac.kind.flow_eq
        refine ⟨_, (List.filter_cons_of_pos hfor).trans (congrArg (List.cons _) hnone),
          ⟨[.msgInit], rest, hflow, by simp, ?_⟩, rfl, pm, List.mem_append_right _ hcreated,
          htype, rfl, rfl⟩
        rw [processedIn_append, h.unborn fac hfac _ hinst.ge, hself, List.nil_append]
  case named =>
    intro pm' hpm' hne'
    rcases List.mem_cons.mp hpm' with rfl | hpm'
    · obtain ⟨g, hg, hgid, hx⟩ := created_listed hfac hadd
      exact ⟨g, hg, hgid.trans hservice.symm, _, hx, rfl⟩
    · obtain ⟨f, hf, hfid, y, hy, hyid⟩ := h.named pm' hpm' hne'
      obtain ⟨g, hg, hgid, hx⟩ := listed_of_addFsm hfac hadd hf hy
      exact ⟨g, hg, hgid.trans hfid, y, hx, hyid⟩
  case initial =>
    intro pm' hpm' hid'
    rcases List.mem_cons.mp hpm' with rfl | hpm'
    · exact absurd hid' hzero
    · exact h.initial pm' hpm' hid'
  case unborn =>
    intro f hf inst hi
    rcases hmem f hf with ⟨hf, hne⟩ | rfl
    · simp [h.unborn f hf inst hi, hother f.facId inst fun hc => hne hc.1]
    · rw [Cfactory.setState_created, hcre] at hi
      rw [Cfactory.setState_facId, hid, processedIn_append, h.unborn fac hfac inst (by omega),
        hother _ _ (by omega), List.nil_append]

/-- The instance a message names has only this one, which is what comes next for it. -/
theorem target (h : FlowInv m.facList (pm :: traffic) events) (hfac : fac ∈ m.facList)
    (hfsm : fsm ∈ fac.fsmList) (hfor : pm.isFor fac.facId fsm.fsmId = true) :
    traffic.filter (PumpMsg.isFor fac.facId fsm.fsmId) = [] ∧
      ComesNext events fac.facId fac.kind fsm pm := by
  obtain ⟨pm', hpm', hcn⟩ := h.live fac hfac fsm hfsm
  rw [List.filter_cons_of_pos hfor] at hpm'
  obtain ⟨rfl, hnil⟩ := List.cons.inj hpm'
  exact ⟨hnil, hcn⟩

/-- The other instances keep their message. -/
theorem others (h : FlowInv m.facList (pm :: traffic) events) (hfac : fac ∈ m.facList)
    (hfsm : fsm ∈ fac.fsmList) (hfor : pm.isFor fac.facId fsm.fsmId = true)
    (hb : ∀ f ∈ m.facList, f.created < 2 ^ 32) {f : Cfactory FsmKind} {x : Cfsm}
    (hf : f ∈ m.facList) (hx : x ∈ f.fsmList)
    (hne : ¬ (f.facId = fac.facId ∧ x.inst = fsm.inst))
    (hother : ∀ f i, ¬ (f = fac.facId ∧ i = fsm.inst) → processedIn f i ev = []) :
    pm.isFor f.facId x.fsmId = false ∧
      ∃ pm', traffic.filter (PumpMsg.isFor f.facId x.fsmId) = [pm'] ∧
        ComesNext (events ++ ev) f.facId f.kind x pm' := by
  obtain ⟨hs, hi⟩ := PumpMsg.isFor_iff.mp hfor
  have hnot : ¬ pm.isFor f.facId x.fsmId = true := by
    intro hfor'
    obtain ⟨hs', hi'⟩ := PumpMsg.isFor_iff.mp hfor'
    obtain ⟨rfl, rfl⟩ := eq_of_ids hf hfac (hb _ hfac) hx hfsm (hs'.symm.trans hs)
      (hi'.symm.trans hi)
    exact hne ⟨rfl, rfl⟩
  obtain ⟨pm', hpm', hcn⟩ := h.live f hf x hx
  rw [List.filter_cons_of_neg hnot] at hpm'
  exact ⟨Bool.eq_false_iff.mpr hnot, pm', hpm', hcn.later (hother _ _ hne)⟩

/-- An instance goes on: it takes its message and posts the next. -/
theorem goOn (h : FlowInv m.facList (pm :: traffic) events) (hfac : fac ∈ m.facList)
    (hfsm : fsm ∈ fac.fsmList) (hfor : pm.isFor fac.facId fsm.fsmId = true)
    (hb : ∀ f ∈ m.facList, f.created < 2 ^ 32) {tr : FsmTransition FsmAction}
    (hrule : fac.kind.rule .working pm.msg.type = some tr) (hclose : pm.msg.type ≠ .msgClose)
    (hself : processedIn fac.facId fsm.inst ev = [pm.msg.type])
    (hother : ∀ f i, ¬ (f = fac.facId ∧ i = fsm.inst) → processedIn f i ev = []) :
    FlowInv m.facList (⟨nextMsg fsm pm.msg tr.nextEvent, .fsm fac.facId fsm.inst⟩ :: traffic)
      (events ++ ev) := by
  obtain ⟨hs, hi⟩ := PumpMsg.isFor_iff.mp hfor
  obtain ⟨hnil, ⟨pre, rest, hflow, hpre, hproc⟩, -, pm₀, hpm₀, htype₀, hsess, hpay⟩ :=
    h.target hfac hfsm hfor
  obtain ⟨tr', htr', hnext⟩ := fac.kind.rule_of_flow hflow hpre
  obtain rfl : tr' = tr := Option.some.inj (htr'.symm.trans hrule)
  obtain ⟨rest', rfl⟩ := hnext.resolve_left hclose
  constructor
  case live =>
    intro f hf x hx
    by_cases hxe : f.facId = fac.facId ∧ x.inst = fsm.inst
    · obtain rfl : f = fac := CfactoryMgr.eq_of_facId_eq hf hfac hxe.1
      obtain rfl : x = fsm := Cfactory.eq_of_inst_eq hx hfsm hxe.2
      have hfor' : PumpMsg.isFor f.facId x.fsmId
          ⟨nextMsg x pm.msg tr'.nextEvent, .fsm f.facId x.inst⟩ = true :=
        PumpMsg.isFor_iff.mpr ⟨hs, rfl⟩
      refine ⟨_, (List.filter_cons_of_pos hfor').trans (congrArg (List.cons _) hnil),
        ⟨pre ++ [pm.msg.type], rest', by simp [hflow, nextMsg], by simp, ?_⟩, rfl, pm₀,
        List.mem_append_left _ hpm₀, htype₀, hsess, hpay⟩
      rw [processedIn_append, hproc, hself]
    · obtain ⟨hnot, pm', hpm', hcn⟩ := h.others hfac hfsm hfor hb hf hx hxe hother
      refine ⟨pm', ?_, hcn⟩
      rw [List.filter_cons_of_neg, hpm']
      rw [Bool.not_eq_true, Bool.eq_false_iff]
      intro hfor'
      rw [Bool.eq_false_iff] at hnot
      obtain ⟨hs', hi'⟩ := PumpMsg.isFor_iff.mp hfor'
      exact hnot (PumpMsg.isFor_iff.mpr ⟨hs', hi.trans hi'⟩)
  case named =>
    intro pm' hpm' hne'
    rcases List.mem_cons.mp hpm' with rfl | hpm'
    · exact ⟨fac, hfac, hs.symm, fsm, hfsm, rfl⟩
    · exact h.named pm' (List.mem_cons_of_mem _ hpm') hne'
  case initial =>
    intro pm' hpm' hid'
    rcases List.mem_cons.mp hpm' with rfl | hpm'
    · exact absurd hid' (Cfactory.fsmId_ne_zero (hb fac hfac) hfsm)
    · exact h.initial pm' (List.mem_cons_of_mem _ hpm') hid'
  case unborn =>
    intro f hf inst hinst
    rw [processedIn_append, h.unborn f hf inst hinst, List.nil_append]
    refine hother _ _ ?_
    rintro ⟨hfe, rfl⟩
    obtain rfl : f = fac := CfactoryMgr.eq_of_facId_eq hf hfac hfe
    exact absurd (f.inst_lt fsm hfsm) (by omega)

/-- An instance closes: it takes its message and leaves. -/
theorem close (h : FlowInv m.facList (pm :: traffic) events) (hfac : fac ∈ m.facList)
    (hfind : fac.findFsm fsm.fsmId = some fsm) (hfor : pm.isFor fac.facId fsm.fsmId = true)
    (hb : ∀ f ∈ m.facList, f.created < 2 ^ 32)
    (hother : ∀ f i, ¬ (f = fac.facId ∧ i = fsm.inst) → processedIn f i ev = []) :
    FlowInv (m.setFactory (fac.killFsm fsm.fsmId).2).facList traffic (events ++ ev) := by
  obtain ⟨hfsm, -⟩ := Cfactory.mem_of_findFsm hfind
  obtain ⟨hnil, -⟩ := h.target hfac hfsm hfor
  -- what is live afterwards was live before and is another instance
  have hmem : ∀ f ∈ (m.setFactory (fac.killFsm fsm.fsmId).2).facList, ∀ x ∈ f.fsmList,
      ∃ g ∈ m.facList, g.facId = f.facId ∧ g.kind = f.kind ∧ x ∈ g.fsmList ∧
        ¬ (g.facId = fac.facId ∧ x.inst = fsm.inst) := by
    intro f hf x hx
    rcases CfactoryMgr.mem_setFactory.mp hf with ⟨hf, hne⟩ | ⟨rfl, -⟩
    · exact ⟨f, hf, rfl, rfl, hx, fun hc => hne (by rw [Cfactory.killFsm_facId, hc.1])⟩
    · obtain ⟨hx, hne⟩ := (mem_killFsm hfind).mp hx
      exact ⟨fac, hfac, Cfactory.killFsm_facId.symm, Cfactory.killFsm_kind.symm, hx,
        fun hc => hne hc.2⟩
  constructor
  case live =>
    intro f hf x hx
    obtain ⟨g, hg, hid, hkind, hxg, hne⟩ := hmem f hf x hx
    obtain ⟨-, pm', hpm', hcn⟩ := h.others hfac hfsm hfor hb hg hxg hne hother
    exact ⟨pm', by rwa [← hid], by rwa [← hid, ← hkind]⟩
  case named =>
    intro pm' hpm' hne'
    obtain ⟨f, hf, hfid, y, hy, hyid⟩ := h.named pm' (List.mem_cons_of_mem _ hpm') hne'
    have hne := ne_of_unnamed hfac hfsm hnil hpm' hf hfid hy hyid
    obtain ⟨g, hg, hgid, hx⟩ := listed_of_killFsm hfac hfind hf hy hne
    exact ⟨g, hg, hgid.trans hfid, y, hx, hyid⟩
  case initial => exact fun pm' hpm' => h.initial pm' (List.mem_cons_of_mem _ hpm')
  case unborn =>
    intro f hf inst hi
    rcases CfactoryMgr.mem_setFactory.mp hf with ⟨hf, hne⟩ | ⟨rfl, -⟩
    · rw [processedIn_append, h.unborn f hf inst hi, List.nil_append]
      exact hother _ _ fun hc => hne (by rw [Cfactory.killFsm_facId, hc.1])
    · rw [Cfactory.killFsm_created] at hi
      rw [Cfactory.killFsm_facId, processedIn_append, h.unborn fac hfac inst hi, List.nil_append]
      refine hother _ _ ?_
      intro hc
      have := fac.inst_lt fsm hfsm
      omega

end Steps

end FlowInv

/-! ## The invariant in runs -/

/-- Only the instance a message is handed to processes it. -/
theorem processedIn_handedEvents {ret : EerrNo} {f : UInt32} {i : ℕ}
    (hne : ¬ (f = fac.facId ∧ i = fsm.inst)) :
    processedIn f i (handedEvents fac fsm pm ret) = [] := by
  have hne' : ¬ (fac.facId = f ∧ fsm.inst = i) := fun hc => hne ⟨hc.1.symm, hc.2.symm⟩
  simp [processedIn, handedEvents, hne']

/-- A dispatch keeps the invariant. -/
theorem FlowInv.dispatched {m : CfactoryMgr FsmKind} {r : DispatchResult FsmKind}
    (h : FlowInv m.facList (pm :: m.traffic) events) (hb : m.IdsLeft) (hd : Dispatched m pm r) :
    FlowInv r.mgr.facList r.mgr.traffic (events ++ r.events) := by
  have hb' : ∀ f ∈ m.facList, f.created < 2 ^ 32 := fun f hf => by have := hb f hf; omega
  have hzero : ∀ f ∈ m.facList, ∀ x ∈ f.fsmList, x.fsmId ≠ 0 := fun f hf x hx =>
    Cfactory.fsmId_ne_zero (hb' f hf) hx
  -- a message that names an instance is routed to it
  have hroute_some : pm.msg.fsmId ≠ 0 → ∃ fac, m.findFactory pm.msg.serviceId = some fac ∧
      fac.route pm.msg.fsmId ≠ none := by
    intro hne
    obtain ⟨fac, hfac, hid, x, hx, hxid⟩ := h.named pm List.mem_cons_self hne
    refine ⟨fac, CfactoryMgr.findFactory_eq_some_iff.mpr ⟨hfac, hid⟩, ?_⟩
    intro hnone
    rw [Cfactory.route, if_pos hne] at hnone
    exact Cfactory.findFsm_eq_none_iff.mp hnone x hx hxid
  have hfor : ∀ {fac : Cfactory FsmKind} {fsm : Cfsm},
      m.findFactory pm.msg.serviceId = some fac → fac.route pm.msg.fsmId = some fsm →
      pm.isFor fac.facId fsm.fsmId = true := fun hfac hroute =>
    PumpMsg.isFor_iff.mpr
      ⟨(CfactoryMgr.findFactory_facId hfac).symm, (Cfactory.mem_of_route hroute).2.1.symm⟩
  cases hd with
  | rejected hret hwhy =>
      have hid : pm.msg.fsmId = 0 := by
        by_contra hne
        obtain ⟨fac, hfac, hroute⟩ := hroute_some hne
        exact hroute (hwhy fac hfac).1
      exact (h.drop hid hzero).silent fun f i => rfl
  | @created fac fac' fsm ret p hfac hroute htype hadd hpost =>
      have hid : pm.msg.fsmId = 0 := by
        by_contra hne
        obtain ⟨fac₂, hfac₂, hroute₂⟩ := hroute_some hne
        obtain rfl := Option.some.inj (hfac.symm.trans hfac₂)
        exact hroute₂ hroute
      obtain ⟨hmem, hfacId⟩ := CfactoryMgr.findFactory_eq_some_iff.mp hfac
      have htraffic := MsgPorts.traffic_sendMsg m.toMsgPorts
        ⟨nextMsg fsm pm.msg .msgConnect, .fsm fac.facId fsm.inst⟩
      rw [hpost] at htraffic
      refine ((h.drop hid hzero).create hmem hadd (by have := hb fac hmem; omega) hfacId.symm htype
        (by simp) ?_ ?_).perm htraffic.symm
      · simp [processedIn, handedEvents, handedTo, htype]
      · exact fun f i hne => by simpa [processedIn] using processedIn_handedEvents hne
  | @ignored fac fsm hfac hroute hrule =>
      obtain ⟨hfsm, -, -⟩ := Cfactory.mem_of_route hroute
      obtain ⟨-, ⟨pre, rest, hflow, hpre, -⟩, -⟩ :=
        h.target (CfactoryMgr.mem_of_findFactory hfac) hfsm (hfor hfac hroute)
      obtain ⟨tr, htr, -⟩ := fac.kind.rule_of_flow hflow hpre
      simp [hrule] at htr
  | @wentOn fac fsm tr ret p hfac hroute hrule hclose hpost =>
      obtain ⟨hfsm, -, -⟩ := Cfactory.mem_of_route hroute
      have htraffic := traffic_postNextEvent fac.facId tr (handedTo fsm pm).msg fsm m.toMsgPorts
      rw [hpost] at htraffic
      refine (h.goOn (CfactoryMgr.mem_of_findFactory hfac) hfsm (hfor hfac hroute) hb'
        hrule hclose ?_ ?_).perm htraffic.symm
      · simp [processedIn, handedEvents, handedTo]
      · exact fun f i hne => by simpa [processedIn] using processedIn_handedEvents hne
  | @closed fac fsm hfac hroute htype =>
      refine h.close (CfactoryMgr.mem_of_findFactory hfac)
        (Cfactory.findFsm_self_of_route hroute) (hfor hfac hroute) hb' ?_
      exact fun f i hne => by simpa [processedIn] using processedIn_handedEvents hne

/-- The only outside messages are `MSG_INIT` that name no instance. -/
def onlyInit : EnvLabel → Prop
  | .sendMsg _ msg => msg.type = .msgInit ∧ msg.fsmId = 0
  | _ => True

instance : DecidablePred onlyInit
  | .sendMsg _ msg => inferInstanceAs (Decidable (msg.type = .msgInit ∧ msg.fsmId = 0))
  | .start _ | .stop | .leaveRun | .timerWake _ | .timerPost _ | .stopTimer _
  | .stopAllTimers => isTrue trivial

/-- **Flows.** Whatever is stopped, started or cancelled, instances and messages correspond. -/
theorem flowInv_of_reachable {E : EnvLabel → Prop} {a : SeqState FsmKind}
    (hE : ∀ l, E l → onlyInit l) (h : (seqSystem .boot).ReachableVia (admits E) a)
    (hb : a.mgr.IdsLeft) : FlowInv a.mgr.facList a.mgr.traffic a.events := by
  refine seq_invariant (I := fun a => FlowInv a.mgr.facList a.mgr.traffic a.events)
    (B := fun a => a.mgr.IdsLeft) ?init (fun a l a' hs => idsLeft_back hs) ?env ?dispatch h hb
  case init =>
    have hfresh := CfactoryMgr.fresh_boot
    exact
      { live := fun fac hfac fsm hfsm => by simp [(hfresh fac hfac).1] at hfsm
        named := fun pm hpm => by simp [CfactoryMgr.boot_eq.2, MsgPorts.traffic,
          MsgPorts.pending, TimerManager.outstanding] at hpm
        initial := fun pm hpm => by simp [CfactoryMgr.boot_eq.2, MsgPorts.traffic,
          MsgPorts.pending, TimerManager.outstanding] at hpm
        unborn := fun _ _ _ _ => rfl }
  case env =>
    intro a l p hB hI hl hp
    refine FlowInv.perm ?_ (MsgPorts.traffic_env hp).symm
    have hinit := hE l hl
    cases l with
    | sendMsg n msg =>
        have hid : (PumpMsg.mk msg (.client n)).msg.fsmId = 0 := hinit.2
        refine hI.post hid hinit.1 ?_
        intro f hf x hx
        exact Cfactory.fsmId_ne_zero (by have := hB f hf; omega) hx
    | _ => exact hI
  case dispatch =>
    intro a pm p r _ hB hI hports hd
    refine FlowInv.dispatched (m := a.mgr.withPorts p) ?_ hB hd
    have htraffic : a.mgr.traffic = pm :: p.traffic := by rw [hports, MsgPorts.traffic_unpop]
    exact htraffic ▸ hI

/-! ## A manager that is never stopped -/

/-- Nothing was lost, and nothing can be: the pump accepts and every timer is active. -/
structure MsgPorts.Lossless (p : MsgPorts) : Prop where
  lost : p.lost = []
  accepting : p.pump.stopped = false
  active : ∀ t ∈ p.timers.timerList, t.active = true

/-- Nobody stops the manager or cancels a timer, and clients only post `MSG_INIT` that name no
instance. -/
def undisturbed : EnvLabel → Prop
  | .stop | .stopTimer _ | .stopAllTimers => False
  | l => onlyInit l

instance : DecidablePred undisturbed
  | .sendMsg n msg => inferInstanceAs (Decidable (onlyInit (.sendMsg n msg)))
  | .start _ | .leaveRun | .timerWake _ | .timerPost _ => isTrue trivial
  | .stop | .stopTimer _ | .stopAllTimers => isFalse id

theorem undisturbed.onlyInit {l : EnvLabel} (h : undisturbed l) : onlyInit l := by
  cases l with
  | stop | stopTimer | stopAllTimers => exact h.elim
  | _ => exact h

namespace MsgPorts.Lossless

variable {p p' : MsgPorts}

theorem sendMsg (h : p.Lossless) (pm : PumpMsg) : (p.sendMsg pm).2.Lossless := by
  rw [MsgPorts.sendMsg_of_running h.accepting]
  exact ⟨h.lost, h.accepting, h.active⟩

theorem startTimer (h : p.Lossless) (ms : UInt32) (pm : PumpMsg) :
    (p.startTimer ms pm).2.Lossless := by
  refine ⟨h.lost, h.accepting, ?_⟩
  intro t ht
  rcases List.mem_append.mp ht with ht | ht
  · exact h.active t ht
  · rw [List.mem_singleton.mp ht]

theorem setPhase (h : p.Lossless) {k : ℕ} {t : CTimer PumpMsg}
    (ht : p.timers.timerList[k]? = some t) (phase : TimerPhase) :
    { p with timers := p.timers.setPhase k t phase }.Lossless := by
  refine ⟨h.lost, h.accepting, ?_⟩
  intro t' ht'
  rcases List.mem_or_eq_of_mem_set ht' with ht' | rfl
  · exact h.active t' ht'
  · exact h.active t (List.mem_of_getElem? ht)

/-- The surroundings of an undisturbed manager lose nothing. -/
theorem env {l : EnvLabel} (h : p.Lossless) (hl : undisturbed l) (hp : p.env l = some p') :
    p'.Lossless := by
  cases l with
  | sendMsg n msg => exact Option.some.inj hp ▸ h.sendMsg _
  | start joinable =>
      have haccepting := accepting_env hp h.accepting (by simp)
      obtain rfl := Option.some.inj hp
      exact ⟨h.lost, haccepting, h.active⟩
  | leaveRun => exact Option.some.inj hp ▸ ⟨h.lost, h.accepting, h.active⟩
  | stop | stopTimer | stopAllTimers => exact hl.elim
  | timerWake k =>
      obtain ⟨⟨dropped, tm⟩, hw, rfl⟩ := Option.map_eq_some_iff.mp hp
      obtain ⟨t, ht, -, ⟨-, hdropped, htm⟩ | ⟨hcancelled, -⟩⟩ := TimerManager.wake_some hw
      · obtain rfl : dropped = [] := hdropped
        obtain rfl : tm = p.timers.setPhase k t .expired := htm
        simpa using h.setPhase ht .expired
      · have hactive := h.active t (List.mem_of_getElem? ht)
        simp [hcancelled] at hactive
  | timerPost k =>
      obtain ⟨⟨pm, tm⟩, he, rfl⟩ := Option.map_eq_some_iff.mp hp
      obtain ⟨t, ht, -, -, htm⟩ := TimerManager.expire_some he
      obtain rfl : tm = p.timers.setPhase k t .finished := htm
      exact (h.setPhase ht .finished).sendMsg _

theorem postNextEvent (h : p.Lossless) (facId : UInt32) (tr : FsmTransition FsmAction) (msg : CMsg)
    (fsm : Cfsm) : (postNextEvent facId tr msg fsm p).2.Lossless := by
  rw [FsmFramework.postNextEvent]
  split
  · exact h.sendMsg _
  · exact h.startTimer _ _

/-- Nor does a dispatch. -/
theorem dispatched {m : CfactoryMgr FsmKind} {r : DispatchResult FsmKind}
    (h : m.toMsgPorts.Lossless) (hd : Dispatched m pm r) : r.mgr.toMsgPorts.Lossless := by
  cases hd with
  | rejected | ignored | closed => exact h
  | @created fac fac' fsm ret p _ _ _ _ hpost =>
      have := h.sendMsg ⟨nextMsg fsm pm.msg .msgConnect, .fsm fac.facId fsm.inst⟩
      rwa [hpost] at this
  | @wentOn fac fsm tr ret p _ _ _ _ hpost =>
      have := h.postNextEvent fac.facId tr (handedTo fsm pm).msg fsm
      rwa [hpost] at this

end MsgPorts.Lossless

theorem lossless_of_reachable {a : SeqState FsmKind}
    (h : (seqSystem .boot).ReachableVia (admits undisturbed) a) : a.mgr.toMsgPorts.Lossless := by
  refine seq_invariant (I := fun a => a.mgr.toMsgPorts.Lossless) (B := fun _ => True)
    ⟨rfl, rfl, by simp [CfactoryMgr.boot_eq.2]⟩ (fun _ _ _ _ _ => trivial)
    (fun a l p _ hI hl hp => hI.env hl hp) ?_ h trivial
  intro a pm p r _ _ hI hports hd
  refine MsgPorts.Lossless.dispatched (m := a.mgr.withPorts p) ?_ hd
  rw [hports] at hI
  exact ⟨hI.lost, hI.accepting, hI.active⟩

variable {s : DispatchState FsmKind}

/-- **One message for each instance.** A manager that is never stopped, between two dispatches:
every live instance has exactly one pending message, in the pump or in a timer, which is what
comes next in its flow; every pending message that names an instance names a live one. -/
theorem one_pending_message
    (h : (dispatchSystem .boot).ReachableVia (serial undisturbed) s) (hq : s.Quiet)
    (hb : ∀ fac ∈ s.mgr.facList, fac.created < 2 ^ 32 - 1) :
    s.mgr.registry = [(facRegFacId, .reg), (facAuthFacId, .auth)] ∧
      (∀ fac ∈ s.mgr.facList, ∀ fsm ∈ fac.fsmList,
        ∃ pm, s.mgr.pending.filter (PumpMsg.isFor fac.facId fsm.fsmId) = [pm] ∧
          ComesNext s.events fac.facId fac.kind fsm pm) ∧
      ∀ pm ∈ s.mgr.pending, pm.msg.fsmId ≠ 0 → ∃ fac ∈ s.mgr.facList,
        fac.facId = pm.msg.serviceId ∧ ∃ fsm ∈ fac.fsmList, fsm.fsmId = pm.msg.fsmId := by
  have ha := seq_reachable_of_quiet h hq
  have hflow := flowInv_of_reachable (fun _ hl => hl.onlyInit) ha hb
  have htraffic : s.mgr.traffic = s.mgr.pending := by
    rw [MsgPorts.traffic, (lossless_of_reachable ha).lost, List.append_nil]
  refine ⟨registry_of_serial h, ?_, ?_⟩
  · exact htraffic ▸ hflow.live
  · exact htraffic ▸ hflow.named

/-- One flow waits in a timer, another has its message in the pump. -/
theorem one_pending_message_two_flows : ∃ s : DispatchState FsmKind,
    s.mgr.timers.outstanding.length = 1 ∧ s.mgr.pump.queue.length = 1 ∧
      ∀ fac ∈ s.mgr.facList, ∀ fsm ∈ fac.fsmList,
        ∃ pm, s.mgr.pending.filter (PumpMsg.isFor fac.facId fsm.fsmId) = [pm] ∧
          ComesNext s.events fac.facId fac.kind fsm pm := by
  obtain ⟨a, ha, hb, ht, hq⟩ : ∃ a : SeqState FsmKind,
      (seqSystem .boot).exec (fun a l => decide (admits undisturbed a l)) ⟨.boot, []⟩
        [.env (.sendMsg 0 { serviceId := 1, sessionId := 7 }),
          .env (.sendMsg 1 { serviceId := 3, sessionId := 8 }), .dispatch, .dispatch, .dispatch,
          .dispatch, .dispatch, .dispatch, .dispatch] = some a ∧
        (∀ fac ∈ a.mgr.facList, fac.created < 2 ^ 32 - 1) ∧
        a.mgr.timers.outstanding.length = 1 ∧ a.mgr.pump.queue.length = 1 :=
    ⟨_, rfl, by decide, by decide, by decide⟩
  exact ⟨.resting a.mgr a.events, ht, hq,
    (one_pending_message (resting_of_exec ha) (fun _ => rfl) hb).2.1⟩

/-! ## A manager that was stopped -/

/-- **What a stop leaves behind.** When nothing is pending, the instances that are left are those
whose next message was lost: each has exactly one, and every lost message that names an instance
names one of them. The lists are empty exactly when no such message was lost. -/
theorem left_behind_iff_lost
    (h : (dispatchSystem .boot).ReachableVia (serial onlyInit) s) (hq : s.Quiet)
    (hb : ∀ fac ∈ s.mgr.facList, fac.created < 2 ^ 32 - 1)
    (hqueue : s.mgr.pump.queue = []) (htimers : s.mgr.timers.outstanding = []) :
    (∀ fac ∈ s.mgr.facList, ∀ fsm ∈ fac.fsmList,
        ∃ pm, s.mgr.lost.filter (PumpMsg.isFor fac.facId fsm.fsmId) = [pm] ∧
          ComesNext s.events fac.facId fac.kind fsm pm) ∧
      (∀ pm ∈ s.mgr.lost, pm.msg.fsmId ≠ 0 → ∃ fac ∈ s.mgr.facList,
        fac.facId = pm.msg.serviceId ∧ ∃ fsm ∈ fac.fsmList, fsm.fsmId = pm.msg.fsmId) ∧
      ((∀ fac ∈ s.mgr.facList, fac.fsmList = []) ↔ ∀ pm ∈ s.mgr.lost, pm.msg.fsmId = 0) := by
  have hflow := flowInv_of_reachable (fun l hl => hl) (seq_reachable_of_quiet h hq) hb
  have htraffic : s.mgr.traffic = s.mgr.lost := by
    rw [MsgPorts.traffic, MsgPorts.pending, hqueue, htimers, List.nil_append, List.nil_append]
  simp only [htraffic] at hflow
  refine ⟨hflow.live, hflow.named, ?_, ?_⟩
  · intro hempty pm hpm
    by_contra hne
    obtain ⟨fac, hfac, -, fsm, hfsm, -⟩ := hflow.named pm hpm hne
    simp [hempty fac hfac] at hfsm
  · intro hlost fac hfac
    apply List.eq_nil_iff_forall_not_mem.mpr
    intro fsm hfsm
    obtain ⟨pm, hpm, -⟩ := hflow.live fac hfac fsm hfsm
    have hmem : pm ∈ s.mgr.lost.filter (PumpMsg.isFor fac.facId fsm.fsmId) := by simp [hpm]
    obtain ⟨hin, hfor⟩ := List.mem_filter.mp hmem
    have hid := (PumpMsg.isFor_iff.mp hfor).2
    rw [hlost pm hin] at hid
    exact Cfactory.fsmId_ne_zero (by have := hb fac hfac; omega) hfsm hid.symm

/-- A client posts `MSG_INIT` and the manager is stopped before the worker takes it: the worker
drains the pump and leaves an instance behind that nothing will ever advance. -/
theorem left_behind_after_stop : ∃ s : DispatchState FsmKind,
    (dispatchSystem .boot).ReachableVia (serial onlyInit) s ∧ s.Quiet ∧ s.mgr.pump.queue = [] ∧
      s.mgr.timers.outstanding = [] ∧
      s.mgr.facList.map (fun fac => fac.fsmList.map Cfsm.state) = [[.working], []] := by
  obtain ⟨a, ha, hrest⟩ : ∃ a : SeqState FsmKind,
      (seqSystem .boot).exec (fun a l => decide (admits onlyInit a l)) ⟨.boot, []⟩
        [.env (.sendMsg 0 { serviceId := 1 }), .env .stop, .dispatch] = some a ∧
        a.mgr.pump.queue = [] ∧ a.mgr.timers.outstanding = [] ∧
        a.mgr.facList.map (fun fac => fac.fsmList.map Cfsm.state) = [[.working], []] :=
    ⟨_, rfl, by decide, by decide, by decide⟩
  exact ⟨.resting a.mgr a.events, resting_of_exec ha, fun _ => rfl, hrest⟩

/-- A stop in the middle of one flow, after another has ended. -/
theorem left_behind_iff_lost_one_of_two : ∃ s : DispatchState FsmKind,
    (removedIn facAuthFacId s.events, s.mgr.liveInsts facRegFacId) = ([0], [0]) ∧
      (∀ fac ∈ s.mgr.facList, ∀ fsm ∈ fac.fsmList,
        ∃ pm, s.mgr.lost.filter (PumpMsg.isFor fac.facId fsm.fsmId) = [pm] ∧
          ComesNext s.events fac.facId fac.kind fsm pm) := by
  obtain ⟨a, ha, hb, hq, ht, hc⟩ : ∃ a : SeqState FsmKind,
      (seqSystem .boot).exec (fun a l => decide (admits onlyInit a l)) ⟨.boot, []⟩
        [.env (.sendMsg 0 { serviceId := 3 }), .dispatch, .dispatch, .dispatch, .dispatch,
          .env (.timerWake 0), .env (.timerPost 0), .dispatch,
          .env (.sendMsg 1 { serviceId := 1 }), .env .stop, .dispatch] = some a ∧
        (∀ fac ∈ a.mgr.facList, fac.created < 2 ^ 32 - 1) ∧ a.mgr.pump.queue = [] ∧
        a.mgr.timers.outstanding = [] ∧
        (removedIn facAuthFacId a.events, a.mgr.liveInsts facRegFacId) = ([0], [0]) :=
    ⟨_, rfl, by decide, by decide, by decide, by decide⟩
  exact ⟨.resting a.mgr a.events, hc,
    (left_behind_iff_lost (resting_of_exec ha) (fun _ => rfl) hb hq ht).1⟩

end FsmFramework
