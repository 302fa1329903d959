import FsmFramework.OneService

/-!
# Several dispatchers

The worker thread is not the only one that may dispatch: `PumpOnce` and `RunUntilEmpty` can be
called by any thread, and each dispatch is many steps. Where no two threads dispatch for one service
at the same time, a service still goes through nothing but what it goes through alone, with one
dispatcher: the steps of the threads that dispatch for others are not seen, and those of the one
that dispatches for it are the steps of the dispatcher of the factory alone.

The projection is step by step, from the steps of `dispatchSystem` to those of the manager with one
factory, so it needs no argument about where in a dispatch its effect comes about.

## Main definitions

* `oneEach` — runs in which no two threads dispatch for one service.
* `DispatchState.Shows` — a state of the factory alone that shows what a state of all shows.

## Main results

* `dispatchers_simulation` — the manager with one factory and one dispatcher simulates them.
* `service_serialized` — every view that a service has among such dispatchers it has alone.
-/

namespace FsmFramework

/-- No dispatch for the service is in progress. -/
def DispatchState.IdleFor (s : DispatchState FsmKind) (serviceId : UInt32) : Prop :=
  ∀ t th, s.threads t = some th → th.pm.msg.serviceId ≠ serviceId

/-- A thread takes the front message when no other one dispatches for the same service. No timer is
cancelled by its id, and the factories that are registered are for other services. -/
def oneEach (serviceId : UInt32) (s : DispatchState FsmKind) : DispatchLabel FsmKind → Prop
  | .env l => NotById l
  | .registerFactory factory => ∀ f ∈ factory, f.1 ≠ serviceId
  | .pop _ => ∀ pm ∈ s.mgr.pump.queue.head?, s.IdleFor pm.msg.serviceId
  | .advance _ => True

/-- Two threads in one dispatch. The return codes that they carry may differ where the machine goes
on. -/
inductive SameThread (deref : UInt32 → ℕ → Option (Cfactory FsmKind × Cfsm)) :
    DispatchThread → DispatchThread → Prop
  | refl (th : DispatchThread) : SameThread deref th th
  | postPrcMsg {pm : PumpMsg} {facId : UInt32} {inst : ℕ} {ret ret' : EerrNo}
      {fac : Cfactory FsmKind} {fsm : Cfsm} (h : deref facId inst = some (fac, fsm))
      (hk : fsm.state ≠ .killFsm) :
      SameThread deref ⟨pm, .postPrcMsg facId inst ret⟩ ⟨pm, .postPrcMsg facId inst ret'⟩
  | getState {pm : PumpMsg} {facId : UInt32} {inst : ℕ} {ret ret' : EerrNo}
      {fac : Cfactory FsmKind} {fsm : Cfsm} (h : deref facId inst = some (fac, fsm))
      (hk : fsm.state ≠ .killFsm) :
      SameThread deref ⟨pm, .getState facId inst ret⟩ ⟨pm, .getState facId inst ret'⟩

/-! ## One step of a thread -/

section Advance

variable {serviceId : UInt32} {m a m' : CfactoryMgr FsmKind} {pm : PumpMsg} {pc : DispatchPc}
  {next : Option DispatchThread} {ev : List Event}

theorem DispatchPc.factory_of_lookup {facId : UInt32} (h : pc.lookup = some facId) :
    pc.factory = some facId := by
  cases pc <;> simp_all [DispatchPc.lookup, DispatchPc.factory]

theorem DispatchPc.factory_of_call {facId : UInt32} {inst : ℕ} {call : FsmCall}
    (h : pc.call = some (facId, inst, call)) : pc.factory = some facId := by
  cases pc <;> simp_all [DispatchPc.call, DispatchPc.factory]

/-- A dispatch stays with its service. -/
theorem Advance.sameService {th : DispatchThread} (h : Advance m pm pc (some th) m' ev) :
    th.pm.msg.serviceId = pm.msg.serviceId := by
  cases h <;> rfl

namespace CfactoryMgr

theorem Shows.deref (h : m.Shows serviceId a) (inst : ℕ) :
    a.deref serviceId inst = m.deref serviceId inst := by
  rw [CfactoryMgr.deref, CfactoryMgr.deref, h.factory]

/-- `ProcessMsg` of another factory's machine is not seen. -/
theorem Shows.processMsg_other {fac : Cfactory FsmKind} (h : m.Shows serviceId a) (fsm : Cfsm)
    {msg : CMsg} (hid : fac.facId ≠ serviceId) (hmsg : msg.serviceId ≠ serviceId) :
    (m.processMsg fac fsm msg).2.Shows serviceId a where
  factory := (h.setFactory_other (fac.setState fsm.inst _) hid).factory
  ports := h.ports.processMsg_other fac.facId fsm msg fac.kind hmsg

/-- `ProcessMsg` of this factory's machine does the same in both, and returns the same unless the
machine goes on. -/
theorem Shows.processMsg_own {inst : ℕ} {fac : Cfactory FsmKind} {fsm : Cfsm} {msg : CMsg}
    (h : m.Shows serviceId a) (hd : m.deref serviceId inst = some (fac, fsm))
    (hmsg : msg.serviceId = serviceId) :
    (m.processMsg fac fsm msg).2.Shows serviceId (a.processMsg fac fsm msg).2 ∧
      ((a.processMsg fac fsm msg).1 = (m.processMsg fac fsm msg).1 ∨
        ∃ fac' fsm', (a.processMsg fac fsm msg).2.deref serviceId inst = some (fac', fsm') ∧
          fsm'.state ≠ .killFsm) := by
  have hfac := (deref_eq_some_iff.mp hd).1
  obtain rfl := findFactory_facId hfac
  obtain ⟨hfsm, hports, hret⟩ := h.ports.processMsg_own fac.facId fsm msg fac.kind hmsg
  have hafter := deref_processMsg msg ((h.deref inst).trans hd)
  constructor
  case left =>
    simp only [processMsg, hfsm]
    exact ⟨(h.setFactory_own hfac (fac.setState fsm.inst _) rfl).factory, hports⟩
  case right =>
    by_cases hkill : (BusinessFsm.processMsg fac.kind fac.facId fsm msg m.toMsgPorts).2.1.state =
        .killFsm
    · exact .inl (hret hkill)
    · rw [hfsm] at hafter
      exact .inr ⟨_, _, hafter, hkill⟩

/-- A step of a thread that dispatches for another service is not seen. -/
theorem Shows.advance_other (h : m.Shows serviceId a) (hadv : Advance m pm pc next m' ev)
    (hmsg : pm.msg.serviceId ≠ serviceId)
    (hpc : ∀ facId, pc.factory = some facId → facId = pm.msg.serviceId) :
    m'.Shows serviceId a ∧ eventsOf serviceId ev = [] := by
  have hother : ∀ facId, pc.factory = some facId → facId ≠ serviceId :=
    fun facId hfac => (hpc facId hfac).trans_ne hmsg
  cases hadv with
  | unknownService | notFound | full =>
      exact ⟨h, eventsOf_eq_nil (by simpa [Event.serviceId] using hmsg)⟩
  | service | found | missing | noFactory | undefined => exact ⟨h, rfl⟩
  | added hfac hadd =>
      have hid := hother _ rfl
      refine ⟨h.setFactory_other _ ?_, eventsOf_eq_nil (by simpa [Event.serviceId] using hid)⟩
      exact ((Cfactory.addFsm_some hadd).2.1.trans (findFactory_facId hfac)).trans_ne hid
  | prePrcMsg | postPrcMsg | terminal | notify =>
      refine ⟨h, eventsOf_eq_nil ?_⟩
      simpa [Event.serviceId, completionEvent] using hother _ rfl
  | processMsg hd =>
      have hid := hother _ rfl
      have hfac := findFactory_facId (deref_eq_some_iff.mp hd).1
      exact ⟨h.processMsg_other _ (hfac.trans_ne hid) hmsg,
        eventsOf_eq_nil (by simpa [Event.serviceId] using hid)⟩
  | goesOn =>
      exact ⟨h, eventsOf_eq_nil (by simpa [Event.serviceId] using ⟨hother _ rfl, hmsg⟩)⟩
  | killFsm hfac =>
      have hid := (findFactory_facId hfac).trans_ne (hother _ rfl)
      refine ⟨h.killFsm_other hid, eventsOf_eq_nil ?_⟩
      intro e he
      simp only [List.mem_append, List.mem_singleton, mem_killFsm_events] at he
      rcases he with ⟨_, -, rfl⟩ | rfl
      · exact hid
      · exact hmsg
  | dangling hcall =>
      have hid := hother _ (DispatchPc.factory_of_call hcall)
      exact ⟨h, eventsOf_eq_nil (by simpa [Event.serviceId] using hid)⟩

/-- A step of a thread that dispatches for this service can be taken by the dispatcher of the
factory alone as well. -/
theorem Shows.advance_own {th' : DispatchThread} (h : m.Shows serviceId a)
    (hadv : Advance m pm pc next m' ev) (hmsg : pm.msg.serviceId = serviceId)
    (hpc : ∀ facId, pc.factory = some facId → facId = pm.msg.serviceId)
    (hsame : SameThread a.deref ⟨pm, pc⟩ th') :
    ∃ next' a' ev', Advance a th'.pm th'.pc next' a' ev' ∧ m'.Shows serviceId a' ∧
      Option.Rel (SameThread a'.deref) next next' ∧
      eventsOf serviceId ev' = eventsOf serviceId ev := by
  have hown : ∀ facId, pc.factory = some facId → facId = serviceId :=
    fun facId hfac => (hpc facId hfac).trans hmsg
  cases hsame with
  | postPrcMsg hd hk =>
      obtain rfl := hown _ rfl
      cases hadv with
      | noFactory hlookup => simp [DispatchPc.lookup] at hlookup
      | dangling hcall hnone =>
          simp only [DispatchPc.call, Option.some.injEq, Prod.mk.injEq] at hcall
          obtain ⟨rfl, rfl, -⟩ := hcall
          simp [h.deref, hnone] at hd
      | postPrcMsg => exact ⟨_, a, _, .postPrcMsg hd, h, .some (.getState hd hk), rfl⟩
  | getState hd hk =>
      obtain rfl := hown _ rfl
      cases hadv with
      | noFactory hlookup => simp [DispatchPc.lookup] at hlookup
      | dangling hcall hnone =>
          simp only [DispatchPc.call, Option.some.injEq, Prod.mk.injEq] at hcall
          obtain ⟨rfl, rfl, -⟩ := hcall
          simp [h.deref, hnone] at hd
      | terminal hd' hk' =>
          rw [h.deref, hd'] at hd
          cases hd
          exact absurd hk' hk
      | goesOn => exact ⟨_, a, _, .goesOn hd hk, h, .none, by simp [eventsOf, Event.withoutRet]⟩
  | refl =>
      cases hadv with
      | undefined => exact ⟨_, a, _, .undefined, h, .some (.refl _), rfl⟩
      | unknownService hnone =>
          obtain rfl := hmsg
          exact ⟨_, a, _, .unknownService (h.factory.trans hnone), h, .none, rfl⟩
      | service hfac =>
          obtain rfl := hmsg
          exact ⟨_, a, _, .service (h.factory.trans hfac), h, .some (.refl _), rfl⟩
      | found hfac hroute =>
          obtain rfl := hown _ rfl
          exact ⟨_, a, _, .found (h.factory.trans hfac) hroute, h, .some (.refl _), rfl⟩
      | notFound hfac hroute htype =>
          obtain rfl := hown _ rfl
          exact ⟨_, a, _, .notFound (h.factory.trans hfac) hroute htype, h, .none, rfl⟩
      | missing hfac hroute htype =>
          obtain rfl := hown _ rfl
          exact ⟨_, a, _, .missing (h.factory.trans hfac) hroute htype, h, .some (.refl _), rfl⟩
      | full hfac hadd =>
          obtain rfl := hown _ rfl
          exact ⟨_, a, _, .full (h.factory.trans hfac) hadd, h, .none, rfl⟩
      | added hfac hadd =>
          obtain rfl := hown _ rfl
          have hid := (Cfactory.addFsm_some hadd).2.1.trans (findFactory_facId hfac)
          exact ⟨_, _, _, .added (h.factory.trans hfac) hadd, h.setFactory_own hfac _ hid,
            .some (.refl _), rfl⟩
      | prePrcMsg hd =>
          obtain rfl := hown _ rfl
          exact ⟨_, a, _, .prePrcMsg ((h.deref _).trans hd), h, .some (.refl _), rfl⟩
      | processMsg hd =>
          obtain rfl := hown _ rfl
          obtain ⟨hshows, hret⟩ := h.processMsg_own hd hmsg
          refine ⟨_, _, _, .processMsg ((h.deref _).trans hd), hshows, .some ?_, rfl⟩
          obtain heq | ⟨fac', fsm', hd', hk⟩ := hret
          · rw [heq]
            exact .refl _
          · exact .postPrcMsg hd' hk
      | postPrcMsg hd =>
          obtain rfl := hown _ rfl
          exact ⟨_, a, _, .postPrcMsg ((h.deref _).trans hd), h, .some (.refl _), rfl⟩
      | terminal hd hk =>
          obtain rfl := hown _ rfl
          exact ⟨_, a, _, .terminal ((h.deref _).trans hd) hk, h, .some (.refl _), rfl⟩
      | goesOn hd hk =>
          obtain rfl := hown _ rfl
          exact ⟨_, a, _, .goesOn ((h.deref _).trans hd) hk, h, .none, rfl⟩
      | notify => exact ⟨_, a, _, .notify, h, .some (.refl _), rfl⟩
      | killFsm hfac =>
          obtain rfl := hown _ rfl
          exact ⟨_, _, _, .killFsm (h.factory.trans hfac),
            h.killFsm_own hfac (findFactory_facId hfac), .none, rfl⟩
      | noFactory hlookup hnone =>
          obtain rfl := hown _ (DispatchPc.factory_of_lookup hlookup)
          exact ⟨_, a, _, .noFactory hlookup (h.factory.trans hnone), h, .some (.refl _), rfl⟩
      | dangling hcall hnone =>
          obtain rfl := hown _ (DispatchPc.factory_of_call hcall)
          exact ⟨_, a, _, .dangling hcall ((h.deref _).trans hnone), h, .some (.refl _), rfl⟩

end CfactoryMgr

end Advance

/-! ## Runs -/

/-- `b` is a state of the manager with one factory that shows what `s` shows: the thread that
dispatches for the service, if there is one, is in the same dispatch in both. -/
structure DispatchState.Shows (serviceId : UInt32) (s b : DispatchState FsmKind) : Prop where
  mgr : s.mgr.Shows serviceId b.mgr
  events : eventsOf serviceId b.events = eventsOf serviceId s.events
  threads : ∀ t, Option.Rel (SameThread b.mgr.deref)
    ((s.threads t).filter fun th => th.pm.isOf serviceId) (b.threads t)
  factory : ∀ t th, s.threads t = some th → ∀ facId, th.pc.factory = some facId →
    facId = th.pm.msg.serviceId
  one : ∀ t u, b.threads t ≠ none → b.threads u ≠ none → t = u

namespace DispatchState

variable {serviceId : UInt32} {s s' b : DispatchState FsmKind}

/-- Where no dispatch for the service is in progress, the factory alone is at rest. -/
theorem Shows.quiet (h : s.Shows serviceId b) (hidle : s.IdleFor serviceId) : b.Quiet := by
  intro t
  have hrel := h.threads t
  rw [Option.filter_eq_none_iff.mpr fun th hth => by simpa [PumpMsg.isOf] using hidle t th hth]
    at hrel
  generalize b.threads t = o at hrel
  cases hrel
  rfl

/-- What surrounds the dispatches does the same to both, or is not seen. -/
theorem Shows.env {l : EnvLabel} (h : s.Shows serviceId b) (hl : NotById l)
    (hs : s.step (.env l) = some s') : s'.Shows serviceId b ∨
      ∃ l' b', OnlyFor serviceId l' ∧ b.step (.env l') = some b' ∧ s'.Shows serviceId b' := by
  obtain ⟨p, hp, rfl⟩ := step_env_iff.mp hs
  obtain hshows | ⟨l', hl', hrel⟩ := h.mgr.ports.env hl hp
  · exact .inl ⟨⟨h.mgr.factory, hshows⟩, h.events, h.threads, h.factory, h.one⟩
  · generalize hq : b.mgr.env l' = o at hrel
    cases hrel with
    | some hshows =>
        exact .inr ⟨l', _, hl', step_env_iff.mpr ⟨_, hq, rfl⟩,
          ⟨h.mgr.factory, hshows⟩, h.events, h.threads, h.factory, h.one⟩

/-- A factory for another service is not seen. -/
theorem Shows.registerFactory {factory : Option (UInt32 × FsmKind)} (h : s.Shows serviceId b)
    (hid : ∀ f ∈ factory, f.1 ≠ serviceId)
    (hs : s.step (.registerFactory factory) = some s') : s'.Shows serviceId b := by
  obtain rfl := step_registerFactory_iff.mp hs
  refine ⟨⟨h.mgr.factory.trans (Eq.symm ?_), ?_⟩, h.events, h.threads, h.factory, h.one⟩
  · apply CfactoryMgr.findFactory_registerFactory.resolve_right
    rintro ⟨-, fac, hfac, hfacId, -⟩
    obtain ⟨f, hf, rfl⟩ := Option.map_eq_some_iff.mp hfac
    exact hid f hf hfacId
  · rw [CfactoryMgr.registerFactory_toMsgPorts]
    exact h.mgr.ports

/-- At most one thread is there after one has moved and the others were not. -/
theorem one_update {threads : ℕ → Option DispatchThread} {t : ℕ} {next : Option DispatchThread}
    (hfree : ∀ u, u ≠ t → threads u = none) (u v : ℕ)
    (hu : Function.update threads t next u ≠ none) (hv : Function.update threads t next v ≠ none) :
    u = v := by
  have hother : ∀ w, Function.update threads t next w ≠ none → w = t := by
    intro w hw
    by_contra hne
    exact hw ((Function.update_of_ne hne _ _).trans (hfree w hne))
  exact (hother u hu).trans (hother v hv).symm

/-- A thread that moves in a dispatch for another service, or into one or out of one. -/
theorem Shows.threads_update {t : ℕ} {next : Option DispatchThread} (h : s.Shows serviceId b)
    (hbefore : ∀ th, s.threads t = some th → th.pm.msg.serviceId ≠ serviceId)
    (hafter : ∀ th, next = some th → th.pm.msg.serviceId ≠ serviceId) (u : ℕ) :
    Option.Rel (SameThread b.mgr.deref)
      ((Function.update s.threads t next u).filter fun th => th.pm.isOf serviceId)
      (b.threads u) := by
  have hrel := h.threads u
  by_cases hu : u = t
  · subst hu
    have hnone : next.filter (fun th => th.pm.isOf serviceId) = none :=
      Option.filter_eq_none_iff.mpr fun th hth => by simpa [PumpMsg.isOf] using hafter th hth
    rw [Option.filter_eq_none_iff.mpr fun th hth => by
      simpa [PumpMsg.isOf] using hbefore th hth] at hrel
    rwa [Function.update_self, hnone]
  · rwa [Function.update_of_ne hu]

/-- Each thread still works on the factory that its message names. -/
theorem Shows.factory_update {t : ℕ} {next : Option DispatchThread} (h : s.Shows serviceId b)
    (hnext : ∀ th, next = some th → ∀ facId, th.pc.factory = some facId →
      facId = th.pm.msg.serviceId) (u : ℕ) (th : DispatchThread)
    (hu : Function.update s.threads t next u = some th) :
    ∀ facId, th.pc.factory = some facId → facId = th.pm.msg.serviceId := by
  obtain ⟨-, hth⟩ | ⟨-, hold⟩ := DispatchState.threads_update hu
  · exact hnext th hth
  · exact h.factory u th hold

/-- A thread takes a message for another service. -/
theorem Shows.pop_other {t : ℕ} {pm : PumpMsg} {p : MsgPorts} (h : s.Shows serviceId b)
    (hfree : s.threads t = none) (hports : s.mgr.toMsgPorts = p.unpop pm)
    (hmsg : pm.msg.serviceId ≠ serviceId) :
    DispatchState.Shows serviceId { s with
      mgr := s.mgr.withPorts p
      threads := Function.update s.threads t (some ⟨pm, .dispatchMsg⟩) } b where
  mgr := by
    have hshows := h.mgr.ports
    rw [hports] at hshows
    exact ⟨h.mgr.factory, hshows.unpop_other (decide_eq_false hmsg)⟩
  events := h.events
  threads := h.threads_update (by simp [hfree]) (by simpa using hmsg)
  factory := h.factory_update (by simp [DispatchPc.factory])
  one := h.one

/-- A thread takes a message for this service: the dispatcher of the factory alone does so, too. -/
theorem Shows.pop_own {t : ℕ} {pm : PumpMsg} {p : MsgPorts} (h : s.Shows serviceId b)
    (hports : s.mgr.toMsgPorts = p.unpop pm) (hmsg : pm.msg.serviceId = serviceId)
    (hq : b.Quiet) : ∃ b', b.step (.pop t) = some b' ∧ DispatchState.Shows serviceId { s with
      mgr := s.mgr.withPorts p
      threads := Function.update s.threads t (some ⟨pm, .dispatchMsg⟩) } b' := by
  have hshows := h.mgr.ports
  rw [hports] at hshows
  obtain ⟨q, hq', hrest⟩ := hshows.unpop_own (decide_eq_true hmsg)
  refine ⟨_, step_pop_iff.mpr ⟨hq t, pm, q, hq', rfl⟩, ⟨h.mgr.factory, hrest⟩, h.events,
    ?threads, h.factory_update (by simp [DispatchPc.factory]), one_update fun u _ => hq u⟩
  case threads =>
    intro u
    by_cases hu : u = t
    · subst hu
      have hown : pm.isOf serviceId = true := decide_eq_true hmsg
      simp only [Function.update_self, Option.filter_some, hown, if_true]
      exact .some (.refl _)
    · simp only [Function.update_of_ne hu]
      exact h.threads u

/-- The dispatcher of the factory alone takes the step that its counterpart takes. -/
theorem Shows.advance_own {t : ℕ} {th : DispatchThread} {next : Option DispatchThread}
    {m' : CfactoryMgr FsmKind} {ev : List Event} (h : s.Shows serviceId b)
    (hth : s.threads t = some th) (hadv : Advance s.mgr th.pm th.pc next m' ev)
    (hmsg : th.pm.msg.serviceId = serviceId) :
    ∃ b', b.step (.advance t) = some b' ∧ DispatchState.Shows serviceId
      { mgr := m', threads := Function.update s.threads t next, events := s.events ++ ev } b' := by
  have hrel := h.threads t
  have hown : th.pm.isOf serviceId = true := decide_eq_true hmsg
  simp only [hth, Option.filter_some, hown, if_true] at hrel
  generalize hb : b.threads t = o at hrel
  cases hrel with
  | @some _ th' hsame =>
      obtain ⟨next', a', ev', hadv', hmgr, hnext, hev⟩ :=
        h.mgr.advance_own hadv hmsg (h.factory t th hth) hsame
      -- nobody else dispatches for the service
      have hfree : ∀ u, u ≠ t → b.threads u = none := by
        intro u hu
        by_contra hne
        exact hu (h.one u t hne (by simp [hb]))
      refine ⟨_, step_advance_iff.mpr ⟨th', next', a', ev', hb, hadv', rfl⟩, hmgr,
        by simp only [eventsOf_append, h.events, hev], ?threads,
        h.factory_update (fun th₁ hth₁ => ?factory), one_update hfree⟩
      case threads =>
        intro u
        by_cases hu : u = t
        · subst hu
          have hfilter : next.filter (fun th => th.pm.isOf serviceId) = next := by
            cases next with
            | none => rfl
            | some th₁ =>
                have hown₁ : th₁.pm.isOf serviceId = true :=
                  decide_eq_true (hadv.sameService.trans hmsg)
                simp [hown₁]
          simp only [Function.update_self, hfilter]
          exact hnext
        · have hrel := h.threads u
          rw [hfree u hu] at hrel
          simp only [Function.update_of_ne hu, hfree u hu]
          generalize (s.threads u).filter _ = o at hrel
          cases hrel
          exact .none
      case factory =>
        subst hth₁
        exact hadv.factory (h.factory t th hth)

/-- A step of a thread that dispatches for another service is not seen. -/
theorem Shows.advance_other {t : ℕ} {th : DispatchThread} {next : Option DispatchThread}
    {m' : CfactoryMgr FsmKind} {ev : List Event} (h : s.Shows serviceId b)
    (hth : s.threads t = some th) (hadv : Advance s.mgr th.pm th.pc next m' ev)
    (hmsg : th.pm.msg.serviceId ≠ serviceId) : DispatchState.Shows serviceId
      { mgr := m', threads := Function.update s.threads t next, events := s.events ++ ev } b := by
  obtain ⟨hmgr, hnone⟩ := h.mgr.advance_other hadv hmsg (h.factory t th hth)
  refine ⟨hmgr, by rw [eventsOf_append, hnone, List.append_nil, h.events],
    h.threads_update (fun th₁ hth₁ => ?before) (fun th₁ hth₁ => ?after),
    h.factory_update (fun th₁ hth₁ => ?factory), h.one⟩
  case before =>
    obtain rfl := Option.some.inj (hth.symm.trans hth₁)
    exact hmsg
  case after =>
    subst hth₁
    exact hadv.sameService.trans_ne hmsg
  case factory =>
    subst hth₁
    exact hadv.factory (h.factory t th hth)

end DispatchState

variable {m : CfactoryMgr FsmKind} {serviceId : UInt32}

/-- **The factory alone, with one dispatcher, can do what it does among others.** -/
theorem dispatchers_simulation : Lts.Simulation (dispatchSystem m) (oneEach serviceId)
    (dispatchSystem (m.only serviceId)) (serial (OnlyFor serviceId))
    (DispatchState.Shows serviceId) where
  init := by
    rintro s rfl
    exact ⟨_, rfl, m.shows_only serviceId, rfl, fun _ => .none, by simp [DispatchState.resting],
      by simp [DispatchState.resting]⟩
  step := by
    intro s l s' b _ _ h hg hs
    cases l with
    | env l =>
        obtain h' | ⟨l', b', hl', hb, h'⟩ := h.env hg hs
        · exact ⟨b, Lts.RunVia.refl b, h'⟩
        · exact ⟨b', Lts.RunVia.single (a := .env l') hl' hb, h'⟩
    | registerFactory factory => exact ⟨b, Lts.RunVia.refl b, h.registerFactory hg hs⟩
    | pop t =>
        obtain ⟨hfree, pm, p, hports, rfl⟩ := DispatchState.step_pop_iff.mp hs
        by_cases hmsg : pm.msg.serviceId = serviceId
        · have hidle : s.IdleFor serviceId := by
            rw [← hmsg]
            exact hg pm (by rw [hports]; rfl)
          have hq := h.quiet hidle
          obtain ⟨b', hb, h'⟩ := h.pop_own (t := t) hports hmsg hq
          exact ⟨b', Lts.RunVia.single (a := .pop t) hq hb, h'⟩
        · exact ⟨b, Lts.RunVia.refl b, h.pop_other hfree hports hmsg⟩
    | advance t =>
        obtain ⟨th, next, m', ev, hth, hadv, rfl⟩ := DispatchState.step_advance_iff.mp hs
        by_cases hmsg : th.pm.msg.serviceId = serviceId
        · obtain ⟨b', hb, h'⟩ := h.advance_own hth hadv hmsg
          exact ⟨b', Lts.RunVia.single (a := .advance t) trivial hb, h'⟩
        · exact ⟨b, Lts.RunVia.refl b, h.advance_other hth hadv hmsg⟩

/-- A single dispatcher is one of these. -/
theorem oneEach_of_serial {s : DispatchState FsmKind} {l : DispatchLabel FsmKind}
    (h : serial NotById s l) : oneEach serviceId s l := by
  cases l with
  | env l => exact h
  | registerFactory factory => exact h.elim
  | pop t =>
      intro pm _ u th hu
      simp [h u] at hu
  | advance t => trivial

/-- **Dispatches are serial for each service.** However many threads dispatch, and however their
steps interleave, as long as no two of them dispatch for one service at the same time (and no timer
is cancelled by its id): what a service can show while no dispatch for it is in progress is exactly
what it can show in the manager that has this factory only, with one dispatcher. -/
theorem service_serialized (m : CfactoryMgr FsmKind) (serviceId : UInt32) (v : ServiceView) :
    (∃ s, (dispatchSystem m).ReachableVia (oneEach serviceId) s ∧ s.IdleFor serviceId ∧
      s.view serviceId = v) ↔ HasView (m.only serviceId) (OnlyFor serviceId) serviceId v := by
  constructor
  case mp =>
    rintro ⟨s, hs, hidle, rfl⟩
    obtain ⟨b, hb, h⟩ := dispatchers_simulation.reachable hs
    have hshows : SeqState.Shows serviceId ⟨s.mgr, s.events⟩ ⟨b.mgr, b.events⟩ := ⟨h.mgr, h.events⟩
    exact ⟨b, hb, h.quiet hidle, hshows.view⟩
  case mpr =>
    rintro ⟨b, hb, hq, rfl⟩
    obtain ⟨a, ha, hshows⟩ := among_simulation.reachable (seq_reachable_of_quiet hb hq)
    have hs : (dispatchSystem m).ReachableVia (oneEach serviceId) (.resting a.mgr a.events) :=
      (resting_reachable ha).mono fun _ _ hl => oneEach_of_serial hl
    refine ⟨_, hs, ?_, hshows.view.symm⟩
    intro t th hth
    cases hth

end FsmFramework
