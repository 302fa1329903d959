import Mathlib.Data.Prod.Lex
import FsmFramework.Amplification
import FsmFramework.Completion
import FsmFramework.Flow
import FsmFramework.Lib.Progress

/-!
# Whole flows

`FlowInv` says where the flow of a live instance stands. Here are the instances that are no
longer live: each of them has been through its whole flow, event by event, and was reported
once. Nothing else removes an instance.

With the rankings of messages this becomes a statement about what must happen. If clients
post nothing more, the dispatcher and the timer threads can only take so many steps, and when
none is left every instance there ever was has been through its flow.

## Main results

* `whole_flow` — an instance is live in the middle of its flow, or gone after all of it.
* `flows_end` — a manager that is left alone comes to an end of all flows.
-/

namespace FsmFramework

variable {m : CfactoryMgr FsmKind} {pm : PumpMsg} {r : DispatchResult FsmKind}
  {events : List Event} {s s' : DispatchState FsmKind} {a a' : SeqState FsmKind}

/-! ## Instances that are gone -/

/-- `MSG_CLOSE` ends a flow and occurs nowhere else in it. -/
theorem FsmKind.flow_msgClose (k : FsmKind) {pre rest : List MsgType}
    (h : k.flow = pre ++ .msgClose :: rest) : rest = [] := by
  have hlast : k.flow.getLast? = some .msgClose := by cases k <;> rfl
  have hnodup : k.flow.Nodup := by cases k <;> decide
  by_contra hne
  rw [h, List.getLast?_append_of_ne_nil _ (by simp)] at hlast
  rw [h] at hnodup
  have hclose : MsgType.msgClose ∉ rest := (List.nodup_cons.mp hnodup.of_append_right).1
  apply hclose
  rw [List.getLast?_cons, List.getLast?_eq_some_getLast hne] at hlast
  have hin := List.getLast_mem hne
  simp only [Option.getD_some, Option.some.injEq] at hlast
  rwa [hlast] at hin

/-- The instances that a factory has created and no longer lists have been through their flow. -/
def Finished (m : CfactoryMgr FsmKind) (events : List Event) : Prop :=
  ∀ fac ∈ m.facList, ∀ inst < fac.created, (∀ fsm ∈ fac.fsmList, fsm.inst ≠ inst) →
    processedIn fac.facId inst events = fac.kind.flow

/-- Events of which only a live instance processes anything. -/
theorem Finished.append {ev : List Event} (h : Finished m events)
    (hlive : ∀ fac ∈ m.facList, ∀ inst, (∀ fsm ∈ fac.fsmList, fsm.inst ≠ inst) →
      processedIn fac.facId inst ev = []) : Finished m (events ++ ev) := by
  intro fac hfac inst hinst hgone
  rw [processedIn_append, h fac hfac inst hinst hgone, hlive fac hfac inst hgone, List.append_nil]

/-- What is handed to a live instance is processed by no other. -/
theorem processedIn_handed_other {fac : Cfactory FsmKind} {fsm : Cfsm} {ret : EerrNo}
    (hfac : fac ∈ m.facList) (hfsm : fsm ∈ fac.fsmList) {f : Cfactory FsmKind} {inst : ℕ}
    (hf : f ∈ m.facList) (hgone : ∀ x ∈ f.fsmList, x.inst ≠ inst) :
    processedIn f.facId inst (handedEvents fac fsm pm ret) = [] := by
  apply processedIn_handedEvents
  rintro ⟨hid, rfl⟩
  obtain rfl := CfactoryMgr.eq_of_facId_eq hf hfac hid
  exact hgone fsm hfsm rfl

/-- A dispatch takes an instance out of the list only at the end of its flow. -/
theorem Finished.dispatched (h : Finished m events)
    (hflow : FlowInv m.facList (pm :: m.traffic) events) (hd : Dispatched m pm r) :
    Finished r.mgr (events ++ r.events) := by
  cases hd with
  | rejected => exact h.append fun fac hfac inst hgone => rfl
  | @created fac fac' fsm ret p hfac hroute htype hadd hpost =>
      obtain ⟨hnew, hid, hkind, -, hcre, hlist⟩ := Cfactory.addFsm_some hadd
      have hmem := CfactoryMgr.mem_of_findFactory hfac
      have hinst : fsm.inst = fac.created := by rw [hnew]
      have hother : ∀ f i, ¬ (f = fac.facId ∧ i = fsm.inst) → processedIn f i
          (.created fac.facId fsm.inst fsm.fsmId pm :: handedEvents fac fsm pm ret ++
            [.returned (handedTo fsm pm) ret (some (fac.facId, fsm.inst))]) = [] := by
        intro f i hne
        simpa [processedIn] using processedIn_handedEvents hne
      intro f hf inst hi hgone
      rcases CfactoryMgr.mem_setFactory.mp hf with ⟨hf, hne⟩ | ⟨rfl, -⟩
      · rw [Cfactory.setState_facId, hid] at hne
        rw [processedIn_append, h f hf inst hi hgone, hother _ _ fun hc => hne hc.1,
          List.append_nil]
      · -- the new instance is listed, so this one is older
        have hne : inst ≠ fsm.inst := by
          rintro rfl
          exact hgone { fsm with state := .working }
            (Cfactory.mem_setState.mpr (.inr ⟨fsm, by simp [hlist], rfl, rfl⟩)) rfl
        have hold : inst < fac.created := by
          rw [Cfactory.setState_created, hcre] at hi
          omega
        rw [Cfactory.setState_facId, Cfactory.setState_kind, hid, hkind, processedIn_append,
          h fac hmem inst hold, hother _ _ fun hc => hne hc.2, List.append_nil]
        intro x hx hxi
        have hxne : x.inst ≠ fsm.inst := hxi ▸ hne
        exact hgone x (Cfactory.mem_setState.mpr (.inl ⟨by simp [hlist, hx], hxne⟩)) hxi
  | @ignored fac fsm hfac hroute hrule =>
      obtain ⟨hfsm, -, -⟩ := Cfactory.mem_of_route hroute
      refine h.append fun f hf inst hgone => ?_
      simpa [processedIn] using
        processedIn_handed_other (CfactoryMgr.mem_of_findFactory hfac) hfsm hf hgone
  | @wentOn fac fsm tr ret p hfac hroute hrule hclose hpost =>
      obtain ⟨hfsm, -, -⟩ := Cfactory.mem_of_route hroute
      refine Finished.append (m := m.withPorts p) h fun f hf inst hgone => ?_
      simpa [processedIn] using
        processedIn_handed_other (m := m) (CfactoryMgr.mem_of_findFactory hfac) hfsm hf hgone
  | @closed fac fsm hfac hroute htype =>
      obtain ⟨hfsm, hfid, -⟩ := Cfactory.mem_of_route hroute
      have hmem := CfactoryMgr.mem_of_findFactory hfac
      have hfind := Cfactory.findFsm_self_of_route hroute
      have hself : processedIn fac.facId fsm.inst (handedEvents fac fsm pm .success) =
          [.msgClose] := by simp [processedIn, handedEvents, handedTo, htype]
      -- what has been dispatched was the last event of the flow
      obtain ⟨-, ⟨pre, rest, hpos, hpre, hproc⟩, -⟩ := hflow.target hmem hfsm
        (PumpMsg.isFor_iff.mpr ⟨(CfactoryMgr.findFactory_facId hfac).symm, hfid.symm⟩)
      rw [htype] at hpos
      obtain rfl := fac.kind.flow_msgClose hpos
      have hrest : ∀ f i, processedIn f i (handedEvents fac fsm pm .success ++
          [.completed fsm.inst (CfactoryMgr.completionEvent fac.facId fsm.fsmId pm.msg .success),
            .removed fac.facId fsm.inst,
            .returned (handedTo fsm pm) .success (some (fac.facId, fsm.inst))]) =
          processedIn f i (handedEvents fac fsm pm .success) := by
        intro f i
        simp [processedIn]
      intro f hf inst hi hgone
      rcases CfactoryMgr.mem_setFactory.mp hf with ⟨hf, hne⟩ | ⟨rfl, -⟩
      · rw [Cfactory.killFsm_facId] at hne
        rw [processedIn_append, h f hf inst hi hgone, hrest,
          processedIn_handedEvents fun hc => hne hc.1, List.append_nil]
      · rw [Cfactory.killFsm_created] at hi
        rw [Cfactory.killFsm_facId, Cfactory.killFsm_kind, processedIn_append, hrest]
        by_cases hinst : inst = fsm.inst
        · rw [hinst, hproc, hself, hpos]
        · rw [h fac hmem inst hi, processedIn_handedEvents fun hc => hinst hc.2, List.append_nil]
          intro x hx hxi
          exact hgone x ((mem_killFsm hfind).mpr ⟨hx, by rwa [hxi]⟩) hxi

theorem finished_of_reachable (h : (seqSystem .boot).ReachableVia (admits onlyInit) a)
    (hb : a.mgr.IdsLeft) : Finished a.mgr a.events := by
  refine seq_invariant (I := fun a => Finished a.mgr a.events) (B := fun a => a.mgr.IdsLeft)
    ?init (fun a l a' hs => idsLeft_back hs) (fun a l p _ hI _ _ => hI) ?dispatch h hb
  case init =>
    intro fac hfac inst hi
    simp [(CfactoryMgr.fresh_boot fac hfac).2] at hi
  case dispatch =>
    intro a pm p r hreach hB hI hports hd
    have hflow := flowInv_of_reachable (fun _ hl => hl) hreach hB
    rw [hports, MsgPorts.traffic_unpop] at hflow
    exact Finished.dispatched (m := a.mgr.withPorts p) hI hflow hd

/-- Where an instance stands. It is live and not reported, and of all messages that are on their way
or were lost exactly one is for it: the event of its flow that follows those it has processed. Or it
is gone, after its whole flow and reported once. -/
def WhereItStands (m : CfactoryMgr FsmKind) (fac : Cfactory FsmKind) (events : List Event)
    (inst : ℕ) : Prop :=
  ((∃ fsm ∈ fac.fsmList, fsm.inst = inst ∧
        ∃ pm, (m.pending ++ m.lost).filter (PumpMsg.isFor fac.facId fsm.fsmId) = [pm] ∧
          ComesNext events fac.facId fac.kind fsm pm) ∧
      (completedIn fac.facId events).count inst = 0) ∨
    ((∀ fsm ∈ fac.fsmList, fsm.inst ≠ inst) ∧
      processedIn fac.facId inst events = fac.kind.flow ∧
      (completedIn fac.facId events).count inst = 1)

theorem whereItStands_of_reachable (h : (seqSystem .boot).ReachableVia (admits onlyInit) a)
    (hb : a.mgr.IdsLeft) {fac : Cfactory FsmKind} (hfac : fac ∈ a.mgr.facList) {inst : ℕ}
    (hinst : inst < fac.created) : WhereItStands a.mgr fac a.events inst := by
  have hflow := flowInv_of_reachable (fun _ hl => hl) h hb
  have hfin := finished_of_reachable h hb
  have hinv := completionInv_of_reachable h
  have hbalance := balanced_of_reachable CfactoryMgr.fresh_boot (resting_reachable h).reachable
  -- live and reported instances are together those that were created
  have hcount : (fac.fsmList.map Cfsm.inst).count inst +
      (completedIn fac.facId a.events).count inst = 1 := by
    have hperm : (a.mgr.liveInsts fac.facId ++ removedIn fac.facId a.events).Perm
        (List.range (a.mgr.createdCount fac.facId)) := hbalance fac.facId
    have hlive : a.mgr.liveInsts fac.facId = fac.fsmList.map Cfsm.inst := by
      simp [CfactoryMgr.liveInsts, CfactoryMgr.findFactory_of_mem hfac]
    rw [CfactoryMgr.createdCount_of_mem hfac, hlive] at hperm
    rw [hinv.completed_eq_removed, ← List.count_append, hperm.count_eq]
    exact List.count_eq_one_of_mem List.nodup_range (List.mem_range.mpr hinst)
  by_cases hlive : ∃ fsm ∈ fac.fsmList, fsm.inst = inst
  · left
    obtain ⟨fsm, hfsm, rfl⟩ := hlive
    have hin : 0 < (fac.fsmList.map Cfsm.inst).count fsm.inst :=
      List.count_pos_iff.mpr (List.mem_map_of_mem hfsm)
    refine ⟨⟨fsm, hfsm, rfl, hflow.live fac hfac fsm hfsm⟩, ?_⟩
    omega
  · right
    have hgone : ∀ fsm ∈ fac.fsmList, fsm.inst ≠ inst := by
      intro fsm hfsm hfi
      exact hlive ⟨fsm, hfsm, hfi⟩
    have hout : (fac.fsmList.map Cfsm.inst).count inst = 0 := by
      apply List.count_eq_zero.mpr
      intro hin
      obtain ⟨fsm, hfsm, hfi⟩ := List.mem_map.mp hin
      exact hgone fsm hfsm hfi
    refine ⟨hgone, hfin fac hfac inst hinst hgone, ?_⟩
    omega

/-- **Whole flows.** Whatever is stopped, started or cancelled, between two dispatches every
instance that was ever created is live, in the middle of its flow and not reported, its next message
on its way or lost; or it is gone, has processed every event of its flow in order and was reported
once. -/
theorem whole_flow (h : (dispatchSystem .boot).ReachableVia (serial onlyInit) s) (hq : s.Quiet)
    (hb : ∀ fac ∈ s.mgr.facList, fac.created < 2 ^ 32 - 1) :
    ∀ fac ∈ s.mgr.facList, ∀ inst < fac.created, WhereItStands s.mgr fac s.events inst := by
  intro fac hfac inst hinst
  exact whereItStands_of_reachable (seq_reachable_of_quiet h hq) hb hfac hinst

/-- One flow has ended and another is in its first half when the manager is stopped. -/
theorem whole_flow_one_of_two : ∃ s : DispatchState FsmKind,
    s.mgr.pump.stopped = true ∧ s.mgr.liveInsts facRegFacId = [0] ∧
      ∀ fac ∈ s.mgr.facList, ∀ inst < fac.created, WhereItStands s.mgr fac s.events inst := by
  obtain ⟨a, ha, hb, hst, hl⟩ : ∃ a : SeqState FsmKind,
      (seqSystem .boot).exec (fun a l => decide (admits onlyInit a l)) ⟨.boot, []⟩
        [.env (.sendMsg 0 { serviceId := 3 }), .dispatch, .dispatch, .dispatch, .dispatch,
          .env (.timerWake 0), .env (.timerPost 0), .dispatch,
          .env (.sendMsg 1 { serviceId := 1 }), .dispatch, .env .stop] = some a ∧
        (∀ fac ∈ a.mgr.facList, fac.created < 2 ^ 32 - 1) ∧ a.mgr.pump.stopped = true ∧
        a.mgr.liveInsts facRegFacId = [0] := ⟨_, rfl, by decide, by decide, by decide⟩
  exact ⟨.resting a.mgr a.events, hst, hl, whole_flow (resting_of_exec ha) (fun _ => rfl) hb⟩

/-! ## What clients have posted -/

/-- The message is a `MSG_INIT` for this factory. -/
def PumpMsg.isInit (facId : UInt32) (pm : PumpMsg) : Bool :=
  pm.msg.serviceId = facId ∧ pm.msg.type = .msgInit

/-- The dispatches of `MSG_INIT` for this factory. -/
def initsIn (facId : UInt32) (events : List Event) : ℕ :=
  events.countP fun
    | .returned pm _ _ => pm.isInit facId
    | _ => false

@[simp] theorem initsIn_append (facId : UInt32) (l l' : List Event) :
    initsIn facId (l ++ l') = initsIn facId l + initsIn facId l' := List.countP_append

/-- Every `MSG_INIT` for this factory that was ever posted: dispatched, on its way, or lost. -/
def SeqState.posted (a : SeqState FsmKind) (facId : UInt32) : ℕ :=
  a.mgr.traffic.countP (PumpMsg.isInit facId) + initsIn facId a.events

/-- A follow-up is no `MSG_INIT`. -/
theorem isInit_nextMsg {fsm : Cfsm} {msg : CMsg} {event : MsgType} {sender : Sender}
    (h : event ≠ .msgInit) (facId : UInt32) :
    PumpMsg.isInit facId ⟨nextMsg fsm msg event, sender⟩ = false := by
  simp [PumpMsg.isInit, nextMsg, h]

/-- A dispatch takes one message, and posts no `MSG_INIT`. -/
theorem posted_dispatched (hd : Dispatched m pm r) (facId : UInt32) :
    (SeqState.mk r.mgr (events ++ r.events)).posted facId =
      (SeqState.mk m events).posted facId + if pm.isInit facId then 1 else 0 := by
  have hreturned : initsIn facId r.events = if pm.isInit facId then 1 else 0 := by
    cases hd <;> simp [initsIn, handedEvents, List.countP_cons] <;> rfl
  have htraffic : r.mgr.traffic.countP (PumpMsg.isInit facId) =
      m.traffic.countP (PumpMsg.isInit facId) := by
    cases hd with
    | rejected | ignored | closed => rfl
    | @created fac fac' fsm ret p hfac hroute htype hadd hpost =>
        have hperm := MsgPorts.traffic_sendMsg m.toMsgPorts
          ⟨nextMsg fsm pm.msg .msgConnect, .fsm fac.facId fsm.inst⟩
        rw [hpost] at hperm
        show p.traffic.countP _ = _
        rw [hperm.countP_eq, List.countP_cons_of_neg]
        simp [isInit_nextMsg]
    | @wentOn fac fsm tr ret p hfac hroute hrule hclose hpost =>
        have hperm := traffic_postNextEvent fac.facId tr (handedTo fsm pm).msg fsm m.toMsgPorts
        rw [hpost] at hperm
        show p.traffic.countP _ = _
        rw [hperm.countP_eq, List.countP_cons_of_neg]
        have hnext := fac.kind.nextEvent_ne_init (findFsmTransition_some hrule).1
        simp [isInit_nextMsg hnext]
  simp only [SeqState.posted, initsIn_append, htraffic, hreturned]
  omega

/-- The surroundings add what a client posts. -/
theorem posted_env {l : EnvLabel} {p : MsgPorts} (hp : a.mgr.env l = some p) (facId : UInt32) :
    (SeqState.mk (a.mgr.withPorts p) a.events).posted facId =
      a.posted facId + l.posted.countP (PumpMsg.isInit facId) := by
  simp only [SeqState.posted, CfactoryMgr.withPorts_toMsgPorts,
    (MsgPorts.traffic_env hp).countP_eq, List.countP_append]
  omega

/-- A dispatch adds nothing. -/
theorem posted_dispatch {p : MsgPorts} (hports : a.mgr.toMsgPorts = p.unpop pm)
    (hd : Dispatched (a.mgr.withPorts p) pm r) (facId : UInt32) :
    (SeqState.mk r.mgr (a.events ++ r.events)).posted facId = a.posted facId := by
  rw [posted_dispatched hd]
  simp only [SeqState.posted, hports, MsgPorts.traffic_unpop, List.countP_cons,
    CfactoryMgr.withPorts_toMsgPorts]
  omega

/-- Every instance was created by a `MSG_INIT` of its own. -/
theorem createdCount_le_initsIn {E : EnvLabel → Prop}
    (h : (seqSystem .boot).ReachableVia (admits E) a) (facId : UInt32) :
    a.mgr.createdCount facId ≤ initsIn facId a.events := by
  have hcreated : createdIn facId a.events =
      (List.range (a.mgr.createdCount facId)).map fun i => (i, fsmIdOf i) :=
    createdInv_of_reachable CfactoryMgr.fresh_boot (resting_reachable h).reachable facId
  have hlen : (createdIn facId a.events).length ≤ initsIn facId a.events := by
    refine seq_invariant
      (I := fun a => (createdIn facId a.events).length ≤ initsIn facId a.events)
      (B := fun _ => True) le_rfl (fun _ _ _ _ _ => trivial) (fun a l p _ hI _ _ => hI)
      ?dispatch h trivial
    intro a pm p r _ _ hI hports hd
    have hone : (createdIn facId r.events).length ≤ initsIn facId r.events := by
      cases hd with
      | @created fac fac' fsm ret p hfac hroute htype hadd hpost =>
          have hid := CfactoryMgr.findFactory_facId hfac
          by_cases hf : fac.facId = facId <;>
            simp [createdIn, initsIn, handedEvents, PumpMsg.isInit, handedTo, htype, ← hid, hf]
      | _ => simp [createdIn, handedEvents]
    simp only [createdIn_append, List.length_append, initsIn_append]
    omega
  rwa [hcreated, List.length_map, List.length_range] at hlen

/-! ## Flows that are left alone -/

/-- Nobody posts, stops or cancels anything: only the timer threads are at work around the
dispatcher. -/
def alone : EnvLabel → Prop
  | .timerWake _ | .timerPost _ => True
  | _ => False

theorem alone.undisturbed {l : EnvLabel} (h : alone l) : undisturbed l := by
  cases l with
  | timerWake | timerPost => trivial
  | _ => exact h.elim

/-- A step of the machine is answered by at most one of the sequential system. -/
theorem Refines.step {E : EnvLabel → Prop} {l : DispatchLabel FsmKind} (hR : Refines s a)
    (hg : serial E s l) (hs : s.step l = some s') :
    ∃ a', (seqSystem m).RunVia (admits E) a a' ∧ Refines s' a' := by
  cases l with
  | env l =>
      obtain ⟨a', ha, hR'⟩ := hR.env hs
      exact ⟨a', Lts.RunVia.single (a := .env l) hg ha, hR'⟩
  | registerFactory factory => exact hg.elim
  | pop t => exact ⟨a, Lts.RunVia.refl a, hR.pop hg hs⟩
  | advance t =>
      rcases hR.advance hs with hR' | ⟨a', ha, hR'⟩
      · exact ⟨a, Lts.RunVia.refl a, hR'⟩
      · exact ⟨a', Lts.RunVia.single (a := .dispatch) trivial ha, hR'⟩

/-- A run between two states without a dispatch in progress is a sequential run. -/
theorem seq_run_of_quiet {E : EnvLabel → Prop} (hq : s.Quiet) (hq' : s'.Quiet)
    (h : (dispatchSystem m).RunVia (serial E) s s') :
    (seqSystem m).RunVia (admits E) ⟨s.mgr, s.events⟩ ⟨s'.mgr, s'.events⟩ := by
  have hrefines : ∃ a, (seqSystem m).RunVia (admits E) ⟨s.mgr, s.events⟩ a ∧ Refines s' a := by
    refine h.invariant (I := fun t => ∃ a,
      (seqSystem m).RunVia (admits E) ⟨s.mgr, s.events⟩ a ∧ Refines t a) ?_
      ⟨_, Lts.RunVia.refl _, .quiet hq rfl rfl⟩
    rintro t l t' ⟨a, hrun, hR⟩ hg hs
    obtain ⟨a', hrun', hR'⟩ := hR.step (m := m) hg hs
    exact ⟨a', hrun.trans hrun', hR'⟩
  obtain ⟨⟨am, ae⟩, hrun, hR⟩ := hrefines
  cases hR with
  | quiet _ hm he =>
      obtain rfl : am = s'.mgr := hm
      obtain rfl : ae = s'.events := he
      exact hrun
  | before ht | after ht => simp [hq' _] at ht

/-- What the dispatcher and the timer threads still have to do: what the messages on their way
are worth, and then the steps of the dispatches in progress. -/
noncomputable def workLeft (s : DispatchState FsmKind) : ℕ ×ₗ ℕ :=
  toLex ((Ranking.flow 1).state s, finsum fun t => stepsLeft (s.threads t))

theorem workLeft_step {l : DispatchLabel FsmKind}
    (h : (dispatchSystem .boot).ReachableVia (serial undisturbed) s) (hg : serial alone s l)
    (hs : s.step l = some s') : workLeft s' < workLeft s := by
  have hbalance := Ranking.step (R := Ranking.flow 1) (E := alone) (ranked_of_reachable h) hg
    (.inl (Ranking.flow_posts 1)) hs
  have hper : (Ranking.flow 1).perTimer = 1 := rfl
  rw [hper, Nat.one_mul] at hbalance
  -- a message taken or a timer's step is paid for; a step of a dispatch is nearer to its end
  have hcases : (Ranking.flow 1).state s' < (Ranking.flow 1).state s ∨
      ((Ranking.flow 1).state s' ≤ (Ranking.flow 1).state s ∧
        (finsum fun t => stepsLeft (s'.threads t)) < finsum fun t => stepsLeft (s.threads t)) := by
    cases l with
    | env l =>
        left
        cases l with
        | timerWake k | timerPost k =>
            simp only [dispatches, timerSteps, EnvLabel.timerSteps, accepted,
              EnvLabel.accepted] at hbalance
            omega
        | _ => exact hg.elim
    | registerFactory factory => exact hg.elim
    | pop u =>
        left
        simp only [dispatches, timerSteps, accepted] at hbalance
        omega
    | advance u =>
        right
        obtain ⟨th, next, m', ev, hu, hadv, rfl⟩ := DispatchState.step_advance_iff.mp hs
        have hfin : Function.HasFiniteSupport fun t => stepsLeft (s.threads t) := by
          refine (ranked_of_reachable h).finite.subset fun t ht hnone => ?_
          simp [stepsLeft, hnone] at ht
        have hsum := finsum_update hfin u next
        have hless : stepsLeft next + 1 ≤ stepsLeft (some th) :=
          hadv.stepsLeft (serial_running h hu)
        simp only [dispatches, timerSteps, accepted] at hbalance ⊢
        rw [hu] at hsum
        constructor
        · omega
        · omega
  rcases hcases with hlt | ⟨hle, hlt⟩
  · exact Prod.Lex.toLex_lt_toLex.mpr (.inl hlt)
  · rcases Nat.lt_or_eq_of_le hle with hlt' | heq
    · exact Prod.Lex.toLex_lt_toLex.mpr (.inl hlt')
    · exact Prod.Lex.toLex_lt_toLex.mpr (.inr ⟨heq, hlt⟩)

/-- A manager that is left alone comes to rest. -/
theorem terminates_alone (h : (dispatchSystem .boot).ReachableVia (serial undisturbed) s) :
    (dispatchSystem .boot).Terminates (serial alone) s := by
  refine Lts.Terminates.of_measure (wellFounded_lt (α := ℕ ×ₗ ℕ))
    (I := (dispatchSystem .boot).ReachableVia (serial undisturbed)) workLeft ?_ h
  intro s l t hr hg hs
  exact ⟨hr.step (serial_mono (fun l hl => hl.undisturbed) hg) hs, workLeft_step hr hg hs⟩

/-- A timer that has not finished has a step to take. -/
theorem timer_step_of_outstanding {p : MsgPorts} (h : p.timers.outstanding ≠ []) :
    ∃ l, alone l ∧ (p.env l).isSome = true := by
  obtain ⟨pm, hpm⟩ := List.exists_mem_of_ne_nil _ h
  obtain ⟨t, ht, hphase⟩ := List.mem_filterMap.mp hpm
  obtain ⟨k, hk⟩ := List.getElem?_of_mem ht
  cases hp : t.phase with
  | sleeping =>
      refine ⟨.timerWake k, trivial, ?_⟩
      cases hactive : t.active <;> simp [MsgPorts.env, TimerManager.wake, hk, hp, hactive]
  | expired =>
      refine ⟨.timerPost k, trivial, ?_⟩
      simp [MsgPorts.env, TimerManager.expire, hk, hp]
  | finished => simp [hp] at hphase

/-- Where nothing can move any more, no dispatch is in progress and no message is pending. -/
theorem quiet_of_stuck (h : (dispatchSystem .boot).Stuck (serial alone) s) :
    s.Quiet ∧ s.mgr.pending = [] := by
  obtain ⟨hq, hqueue⟩ | ⟨l, s', -, hg, hs⟩ := dispatcher_step_or_done alone s
  · refine ⟨hq, ?_⟩
    have htimers : s.mgr.timers.outstanding = [] := by
      by_contra hne
      obtain ⟨l, hl, hsome⟩ := timer_step_of_outstanding hne
      obtain ⟨p, hp⟩ := Option.isSome_iff_exists.mp hsome
      exact h _ ⟨.env l, hl, DispatchState.step_env_iff.mpr ⟨p, hp, rfl⟩⟩
    rw [MsgPorts.pending, hqueue, htimers, List.append_nil]
  · exact absurd ⟨l, hg, hs⟩ (h s')

/-- All flows have ended: no message is pending, no instance is left, and each that there was has
been through its flow and was reported once. -/
structure Ended (s : DispatchState FsmKind) : Prop where
  quiet : s.Quiet
  pending : s.mgr.pending = []
  empty : ∀ fac ∈ s.mgr.facList, fac.fsmList = []
  whole : ∀ fac ∈ s.mgr.facList, ∀ inst < fac.created,
    processedIn fac.facId inst s.events = fac.kind.flow ∧
      (completedIn fac.facId s.events).count inst = 1

/-- A manager that was never stopped, has ids left and has nothing more to do has ended all
flows. -/
theorem ended_of_pending (h : (dispatchSystem .boot).ReachableVia (serial undisturbed) s)
    (hq : s.Quiet) (hb : s.mgr.IdsLeft) (hpending : s.mgr.pending = []) : Ended s := by
  have ha := seq_reachable_of_quiet h hq
  have hflow := flowInv_of_reachable (fun _ hl => hl.onlyInit) ha hb
  have htraffic : s.mgr.traffic = [] := by
    rw [MsgPorts.traffic, hpending, (lossless_of_reachable ha).lost, List.append_nil]
  have hempty : ∀ fac ∈ s.mgr.facList, fac.fsmList = [] := by
    intro fac hfac
    apply List.eq_nil_iff_forall_not_mem.mpr
    intro fsm hfsm
    obtain ⟨pm, hpm, -⟩ := hflow.live fac hfac fsm hfsm
    simp [htraffic] at hpm
  refine ⟨hq, hpending, hempty, fun fac hfac inst hinst => ?_⟩
  have hinit : (seqSystem .boot).ReachableVia (admits onlyInit) ⟨s.mgr, s.events⟩ := by
    refine ha.mono fun a l hl => ?_
    cases l with
    | env l => exact undisturbed.onlyInit hl
    | dispatch => trivial
  rcases whereItStands_of_reachable hinit hb hfac hinst with ⟨⟨fsm, hfsm, -⟩, -⟩ | ⟨-, hwhole⟩
  · simp [hempty fac hfac] at hfsm
  · exact hwhole

/-- What was posted does not change while nobody posts. -/
theorem posted_alone (ha : (seqSystem .boot).ReachableVia (admits undisturbed) a)
    (h : (seqSystem .boot).RunVia (admits alone) a a') (facId : UInt32) :
    a'.posted facId = a.posted facId := by
  have hrun := h.invariant (I := fun b => (seqSystem .boot).ReachableVia (admits undisturbed) b ∧
    b.posted facId = a.posted facId) ?step ⟨ha, rfl⟩
  case step =>
    rintro b l b' ⟨hb, heq⟩ hg hs
    cases l with
    | env l =>
        refine ⟨hb.step (a := .env l) (alone.undisturbed hg) hs, ?_⟩
        obtain ⟨p, hp, rfl⟩ := SeqState.step_env_iff.mp hs
        rw [posted_env hp, heq]
        cases l with
        | timerWake | timerPost => rfl
        | _ => exact hg.elim
    | dispatch =>
        refine ⟨hb.step (a := .dispatch) trivial hs, ?_⟩
        obtain ⟨pm, p, hports, rfl⟩ := SeqState.step_dispatch_iff.mp hs
        have hw := allWorking_of_reachable hb
        rw [posted_dispatch hports (dispatched_dispatchMsg (m := b.mgr.withPorts p) hw pm), heq]
  exact hrun.2

/-- Two managers with the same registry have factories of the same ids. -/
theorem exists_factory_of_registry {m m' : CfactoryMgr FsmKind} {fac : Cfactory FsmKind}
    (h : m.registry = m'.registry) (hfac : fac ∈ m'.facList) :
    ∃ f ∈ m.facList, f.facId = fac.facId := by
  have hin : (fac.facId, fac.kind) ∈ m.registry := h ▸ List.mem_map_of_mem hfac
  obtain ⟨f, hf, heq⟩ := List.mem_map.mp hin
  exact ⟨f, hf, congrArg Prod.fst heq⟩

/-- **All flows end.** In a manager that was never stopped and where no timer was cancelled, with
no more `MSG_INIT` posted than there are ids: once clients stop posting, between two dispatches,
every order of the dispatcher's and the timer threads' steps comes to the end of all flows. -/
theorem flows_end (h : (dispatchSystem .boot).ReachableVia (serial undisturbed) s)
    (hq : s.Quiet)
    (hb : ∀ fac ∈ s.mgr.facList, (SeqState.mk s.mgr s.events).posted fac.facId < 2 ^ 32 - 1) :
    (dispatchSystem .boot).Inevitably (serial alone) Ended s := by
  refine (terminates_alone h).inevitably ?_
  intro t hrun hstuck
  obtain ⟨hqt, hpending⟩ := quiet_of_stuck hstuck
  have ht : (dispatchSystem .boot).ReachableVia (serial undisturbed) t := by
    refine h.run (hrun.mono fun s l hl => ?_)
    exact serial_mono (fun l hl => hl.undisturbed) hl
  have hposted := posted_alone (seq_reachable_of_quiet h hq) (seq_run_of_quiet hq hqt hrun)
  have hids : t.mgr.IdsLeft := by
    intro fac hfac
    have hcreated := createdCount_le_initsIn (seq_reachable_of_quiet ht hqt) fac.facId
    rw [CfactoryMgr.createdCount_of_mem hfac] at hcreated
    have hsame := hposted fac.facId
    obtain ⟨f, hf, hid⟩ := exists_factory_of_registry
      ((registry_of_serial h).trans (registry_of_serial ht).symm) hfac
    have hleft := hb f hf
    rw [hid, ← hsame] at hleft
    exact hcreated.trans_lt ((Nat.le_add_left _ _).trans_lt hleft)
  exact ended_of_pending ht hqt hids hpending

/-- Two flows, one of which waits for its timer while the other has its first message in the
pump. -/
theorem flows_end_two_flows : ∃ s : DispatchState FsmKind,
    s.mgr.timers.outstanding.length = 1 ∧ s.mgr.pump.queue.length = 1 ∧
      (dispatchSystem .boot).Inevitably (serial alone) Ended s := by
  obtain ⟨a, ha, hb, ht, hq⟩ : ∃ a : SeqState FsmKind,
      (seqSystem .boot).exec (fun a l => decide (admits undisturbed a l)) ⟨.boot, []⟩
        [.env (.sendMsg 0 { serviceId := 1, sessionId := 7 }), .dispatch, .dispatch, .dispatch,
          .dispatch, .env (.sendMsg 1 { serviceId := 3, sessionId := 8 })] = some a ∧
        (∀ fac ∈ a.mgr.facList, a.posted fac.facId < 2 ^ 32 - 1) ∧
        a.mgr.timers.outstanding.length = 1 ∧ a.mgr.pump.queue.length = 1 :=
    ⟨_, rfl, by decide, by decide, by decide⟩
  exact ⟨.resting a.mgr a.events, ht, hq, flows_end (resting_of_exec ha) (fun _ => rfl) hb⟩

end FsmFramework
