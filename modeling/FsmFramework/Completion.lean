import FsmFramework.SeqRuns

/-!
# Completion accounting

With one dispatcher, whatever clients post: an instance is removed by the dispatch that
reports its completion, so the instances created are those still in the list together with
those reported, each once.
-/

namespace FsmFramework

/-- The instances of a factory whose completion was reported, in order. -/
def completedIn (facId : UInt32) (events : List Event) : List ℕ :=
  events.filterMap fun
    | .completed inst event => if event.serviceId = facId then some inst else none
    | _ => none

@[simp] theorem completedIn_append (facId : UInt32) (l l' : List Event) :
    completedIn facId (l ++ l') = completedIn facId l ++ completedIn facId l' :=
  List.filterMap_append

/-- What the dispatch of a `MSG_CLOSE` goes through that ends instance `inst`. -/
def closingEvents (facId : UInt32) (inst : ℕ) (pm : PumpMsg) (event : FsmCompletionEvent) :
    List Event :=
  [.called facId inst .prePrcMsg, .called facId inst .processMsg,
    .processed facId inst pm .success, .called facId inst .postPrcMsg,
    .called facId inst .getState, .completed inst event, .removed facId inst,
    .returned pm .success (some (facId, inst))]

/-- The completions reported so far: as many as removals, and each out of a dispatch of
`MSG_CLOSE`. -/
structure CompletionInv (a : SeqState FsmKind) : Prop where
  completed_eq_removed : ∀ facId, completedIn facId a.events = removedIn facId a.events
  closing : ∀ inst event, .completed inst event ∈ a.events →
    ∃ kind pm, (event.serviceId, kind) ∈ CfactoryMgr.boot.registry ∧ pm.msg.type = .msgClose ∧
      event = ⟨event.serviceId, fsmIdOf inst, pm.msg.sessionId, .success, .msgClose⟩ ∧
      closingEvents event.serviceId inst pm event <:+: a.events

variable {a : SeqState FsmKind} {m : CfactoryMgr FsmKind} {pm : PumpMsg}
  {r : DispatchResult FsmKind} {E : EnvLabel → Prop} {s : DispatchState FsmKind}

/-- A dispatch reports the completion of what it removes, and of nothing else. -/
theorem completedIn_dispatched (hd : Dispatched m pm r) (facId : UInt32) :
    completedIn facId r.events = removedIn facId r.events := by
  cases hd with
  | @closed fac fsm =>
      by_cases hid : fac.facId = facId <;>
        simp [completedIn, removedIn, handedEvents, CfactoryMgr.completionEvent, hid]
  | _ => simp [completedIn, removedIn, handedEvents]

/-- The completion a dispatch reports stands in its closing events. -/
theorem closing_of_dispatched (hd : Dispatched m pm r) {inst : ℕ} {event : FsmCompletionEvent}
    (hmem : .completed inst event ∈ r.events) :
    ∃ fac fsm, fac ∈ m.facList ∧ fsm ∈ fac.fsmList ∧ fsm.inst = inst ∧
      pm.msg.type = .msgClose ∧
      event = ⟨fac.facId, fsmIdOf inst, pm.msg.sessionId, .success, .msgClose⟩ ∧
      r.events = closingEvents fac.facId inst (handedTo fsm pm) event := by
  cases hd with
  | @closed fac fsm hfac hroute htype =>
      obtain ⟨hfsm, -, -⟩ := Cfactory.mem_of_route hroute
      have hmf := CfactoryMgr.mem_of_findFactory hfac
      simp only [handedEvents, List.cons_append, List.nil_append, List.mem_cons, reduceCtorEq,
        Event.completed.injEq, List.not_mem_nil, or_false, false_or] at hmem
      obtain ⟨rfl, rfl⟩ := hmem
      refine ⟨fac, fsm, hmf, hfsm, rfl, htype, ?_, rfl⟩
      rw [CfactoryMgr.completionEvent, fac.fsmId_eq fsm hfsm, htype]
  | _ => simp [handedEvents] at hmem

theorem completionInv_of_reachable (h : (seqSystem .boot).ReachableVia (admits E) a) :
    CompletionInv a := by
  refine seq_invariant (B := fun _ => True) ?init (fun _ _ _ _ _ => trivial) ?env ?dispatch h
    trivial
  case init => exact ⟨fun _ => rfl, by simp⟩
  case env => exact fun a l p _ hI _ _ => ⟨hI.completed_eq_removed, hI.closing⟩
  case dispatch =>
    intro a pm p r hreach _ hI hports hd
    constructor
    · intro facId
      rw [completedIn_append, removedIn_append, hI.completed_eq_removed,
        completedIn_dispatched hd]
    · intro inst event hmem
      rcases List.mem_append.mp hmem with hold | hnew
      · obtain ⟨kind, pm', hk, ht, he, hin⟩ := hI.closing inst event hold
        exact ⟨kind, pm', hk, ht, he, hin.trans (List.prefix_append _ _).isInfix⟩
      · obtain ⟨fac, fsm, hfac, hfsm, rfl, htype, he, hev⟩ := closing_of_dispatched hd hnew
        have hreg : (fac.facId, fac.kind) ∈ CfactoryMgr.boot.registry := by
          rw [← registry_of_serial (resting_reachable hreach)]
          exact List.mem_map_of_mem (f := fun f : Cfactory FsmKind => (f.facId, f.kind)) hfac
        refine ⟨fac.kind, handedTo fsm pm, by rwa [he], htype, by rw [he]; rfl, ?_⟩
        rw [hev, he]
        exact (List.suffix_append _ _).isInfix

/-- **Completion accounting.** Between dispatches every instance in a list is `WORKING`; the
instances created are those in the list together with those whose completion was reported,
without repetition; and every completion was reported by the dispatch of a `MSG_CLOSE` that
removed the instance, with the ids of factory and instance and the session of the message. -/
theorem completion_accounting
    (h : (dispatchSystem .boot).ReachableVia (serial fun _ => True) s) (hq : s.Quiet) :
    (∀ fac ∈ s.mgr.facList, ∀ fsm ∈ fac.fsmList, fsm.state = .working) ∧
      (∀ fac ∈ s.mgr.facList,
        (fac.fsmList.map Cfsm.inst ++ completedIn fac.facId s.events).Perm
            ((createdIn fac.facId s.events).map Prod.fst) ∧
          (fac.fsmList.map Cfsm.inst ++ completedIn fac.facId s.events).Nodup) ∧
      ∀ inst event, .completed inst event ∈ s.events →
        (∃ fac ∈ s.mgr.facList, fac.facId = event.serviceId) ∧
          (inst, event.fsmId) ∈ createdIn event.serviceId s.events ∧
          ∃ pm, pm.msg.type = .msgClose ∧
            event = ⟨event.serviceId, event.fsmId, pm.msg.sessionId, .success, .msgClose⟩ ∧
            closingEvents event.serviceId inst pm event <:+: s.events := by
  have ha := seq_reachable_of_quiet h hq
  have hinv := completionInv_of_reachable ha
  have hcreated := createdInv_of_reachable CfactoryMgr.fresh_boot h.reachable
  have hbalance := balanced_of_reachable CfactoryMgr.fresh_boot h.reachable
  have hreg := registry_of_serial h
  -- live and reported instances of any factory id
  have hperm : ∀ facId, (s.mgr.liveInsts facId ++ completedIn facId s.events).Perm
      ((createdIn facId s.events).map Prod.fst) := by
    intro facId
    rw [hinv.completed_eq_removed facId, hcreated facId, List.map_map]
    simpa [Function.comp_def] using hbalance facId
  have hnodup : ∀ facId, ((createdIn facId s.events).map Prod.fst).Nodup := by
    intro facId
    rw [hcreated facId, List.map_map]
    simpa [Function.comp_def] using List.nodup_range
  refine ⟨allWorking_of_reachable ha, ?_, ?_⟩
  · intro fac hfac
    have hlive : s.mgr.liveInsts fac.facId = fac.fsmList.map Cfsm.inst := by
      simp [CfactoryMgr.liveInsts, CfactoryMgr.findFactory_of_mem hfac]
    have := hperm fac.facId
    rw [hlive] at this
    exact ⟨this, this.nodup_iff.mpr (hnodup _)⟩
  · intro inst event hmem
    obtain ⟨kind, pm, hk, htype, he, hin⟩ := hinv.closing inst event hmem
    have hid : event.fsmId = fsmIdOf inst := by rw [he]
    rw [← hreg] at hk
    obtain ⟨fac, hfac, heq⟩ := List.mem_map.mp hk
    refine ⟨⟨fac, hfac, congrArg Prod.fst heq⟩, ?_, pm, htype, hid ▸ he, hin⟩
    have hcomp : inst ∈ completedIn event.serviceId s.events :=
      List.mem_filterMap.mpr ⟨_, hmem, by simp⟩
    have hc := (hperm event.serviceId).subset (List.mem_append_right _ hcomp)
    rw [hcreated event.serviceId] at hc ⊢
    rw [hid]
    simpa using hc

/-- Two flows, one of which a client closes. -/
theorem completion_accounting_closed_by_client : ∃ s : DispatchState FsmKind,
    s.Quiet ∧ completedIn facRegFacId s.events = [0] ∧
      ∀ inst event, .completed inst event ∈ s.events →
        (∃ fac ∈ s.mgr.facList, fac.facId = event.serviceId) ∧
          (inst, event.fsmId) ∈ createdIn event.serviceId s.events ∧
          ∃ pm, pm.msg.type = .msgClose ∧
            event = ⟨event.serviceId, event.fsmId, pm.msg.sessionId, .success, .msgClose⟩ ∧
            closingEvents event.serviceId inst pm event <:+: s.events := by
  obtain ⟨a, ha, hc⟩ : ∃ a : SeqState FsmKind,
      (seqSystem .boot).exec (fun a l => decide (admits (fun _ => True) a l)) ⟨.boot, []⟩
        [.env (.sendMsg 0 { serviceId := 1, sessionId := 7 }),
          .env (.sendMsg 1 { serviceId := 3 }), .dispatch, .dispatch,
          .env (.sendMsg 2 { type := .msgClose, serviceId := 1, fsmId := 1, sessionId := 8 }),
          .dispatch, .dispatch, .dispatch] = some a ∧
        completedIn facRegFacId a.events = [0] := ⟨_, rfl, by decide⟩
  exact ⟨.resting a.mgr a.events, fun _ => rfl, hc,
    (completion_accounting (resting_of_exec ha) fun _ => rfl).2.2⟩

end FsmFramework
