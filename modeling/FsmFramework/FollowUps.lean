import FsmFramework.SeqRuns

/-!
# Follow-ups and the instances that posted them

Messages and timers outlive the instance that posted them. With one dispatcher, as long as ids
are left, a follow-up is handed to the instance that posted it or to nobody: the traffic says
whose it is (`OwnMsg`), and a thread that dispatches it cannot lose track of that (`ThreadOk`).
-/

namespace FsmFramework

/-- If an instance posted the message, then to itself, and it is not `MSG_INIT`. -/
def OwnMsg (m : CfactoryMgr FsmKind) (pm : PumpMsg) : Prop :=
  ∀ facId inst, pm.sender = .fsm facId inst →
    pm.msg.serviceId = facId ∧ pm.msg.fsmId = fsmIdOf inst ∧ pm.msg.type ≠ .msgInit ∧
      inst < m.createdCount facId

/-- The return code a thread carries after `ProcessMsg`, with the instance it comes from. -/
def DispatchPc.result : DispatchPc → Option (UInt32 × ℕ × EerrNo)
  | .postPrcMsg facId inst ret | .getState facId inst ret | .notify facId inst _ ret
  | .killFsm facId inst _ ret => some (facId, inst, ret)
  | _ => none

/-- A thread inside a dispatch, with one dispatcher. -/
structure ThreadOk (m : CfactoryMgr FsmKind) (events : List Event) (th : DispatchThread) :
    Prop where
  running : th.pc ≠ .undefined
  own : OwnMsg m th.pm
  lookup : ∀ f, th.pc.lookup = some f → f = th.pm.msg.serviceId ∧ ∃ fac, m.findFactory f = some fac
  adding : ∀ f, th.pc = .addFsm f → th.pm.msg.type = .msgInit
  target : ∀ f i, th.pc.target = some (f, i) → f = th.pm.msg.serviceId ∧
    (∃ fac fsm, m.deref f i = some (fac, fsm)) ∧
      ∀ facId inst, th.pm.sender = .fsm facId inst → f = facId ∧ i = inst
  result : ∀ f i ret, th.pc.result = some (f, i, ret) → .processed f i th.pm ret ∈ events

/-- What the events say of a message that instance `inst` of factory `facId` posted. -/
structure HandedBack (events : List Event) (facId : UInt32) (inst : ℕ) : Prop where
  created : ∀ f i id pm, .created f i id pm ∈ events → pm.sender ≠ .fsm facId inst
  processed : ∀ f i pm ret, .processed f i pm ret ∈ events → pm.sender = .fsm facId inst →
    f = facId ∧ i = inst
  returned : ∀ pm ret target, .returned pm ret target ∈ events → pm.sender = .fsm facId inst →
    (target = some (facId, inst) ∧ .processed facId inst pm ret ∈ events) ∨
      (target = none ∧ ret = .invalidMsg ∧ .removed facId inst ∈ events)

/-- The invariant of a serial run. -/
structure Isolated (s : DispatchState FsmKind) : Prop where
  traffic : ∀ pm ∈ s.mgr.traffic, OwnMsg s.mgr pm
  threads : ∀ t th, s.threads t = some th → ThreadOk s.mgr s.events th
  events : ∀ facId inst, HandedBack s.events facId inst

variable {m m' : CfactoryMgr FsmKind} {pm : PumpMsg} {pc : DispatchPc}
  {next : Option DispatchThread} {events ev : List Event} {s s' : DispatchState FsmKind}
  {facId : UInt32} {inst : ℕ}

theorem OwnMsg.mono (h : OwnMsg m pm) (hle : ∀ f, m.createdCount f ≤ m'.createdCount f) :
    OwnMsg m' pm := by
  intro facId inst hs
  obtain ⟨hservice, hid, htype, hlt⟩ := h facId inst hs
  exact ⟨hservice, hid, htype, hlt.trans_le (hle facId)⟩

/-- Below the wrap the instance an own message is routed to is its sender. -/
theorem OwnMsg.route_eq (h : OwnMsg m pm) (hb : m.IdsLeft) (hs : pm.sender = .fsm facId inst)
    {fac : Cfactory FsmKind} {fsm : Cfsm} (hfac : fac ∈ m.facList) (hid : fac.facId = facId)
    (hroute : fac.route pm.msg.fsmId = some fsm) : fsm.inst = inst := by
  obtain ⟨-, hfsmId, -, hlt⟩ := h facId inst hs
  obtain ⟨hmem, hfound, -⟩ := Cfactory.mem_of_route hroute
  subst hid
  rw [CfactoryMgr.createdCount_of_mem hfac] at hlt
  have hi := fac.inst_lt fsm hmem
  have hleft := hb fac hfac
  have heq : fsmIdOf fsm.inst = fsmIdOf inst := by
    rw [← fac.fsmId_eq fsm hmem, hfound, hfsmId]
  rw [fsmIdOf_eq_iff, Nat.mod_eq_of_lt (by omega), Nat.mod_eq_of_lt (by omega)] at heq
  omega

/-- An own message that is not routed comes too late: its sender was removed. -/
theorem OwnMsg.removed (h : OwnMsg s.mgr pm) (hb : s.mgr.IdsLeft) (hbal : Balanced s)
    (hs : pm.sender = .fsm facId inst) {fac : Cfactory FsmKind}
    (hfac : fac ∈ s.mgr.facList) (hid : fac.facId = facId)
    (hroute : fac.route pm.msg.fsmId = none) : .removed facId inst ∈ s.events := by
  obtain ⟨-, hfsmId, -, hlt⟩ := h facId inst hs
  subst hid
  have hleft := hb fac hfac
  have hin : inst ∈ s.mgr.liveInsts fac.facId ++ removedIn fac.facId s.events :=
    (hbal fac.facId).mem_iff.mpr (List.mem_range.mpr hlt)
  rw [CfactoryMgr.createdCount_of_mem hfac] at hlt
  rcases List.mem_append.mp hin with hlive | hrem
  · simp only [CfactoryMgr.liveInsts, CfactoryMgr.findFactory_of_mem hfac, Option.map_some,
      Option.getD_some] at hlive
    obtain ⟨x, hx, rfl⟩ := List.mem_map.mp hlive
    have hne : pm.msg.fsmId ≠ 0 := by
      rw [hfsmId, ← fac.fsmId_eq x hx]
      exact Cfactory.fsmId_ne_zero (by omega) hx
    rw [Cfactory.route, if_pos hne] at hroute
    exact absurd ((fac.fsmId_eq x hx).trans hfsmId.symm)
      (Cfactory.findFsm_eq_none_iff.mp hroute x hx)
  · exact mem_removedIn.mp hrem

/-! ## A step of the dispatching thread -/

theorem DispatchPc.target_of_result {f : UInt32} {i : ℕ} {ret : EerrNo}
    (h : pc.result = some (f, i, ret)) : pc.target = some (f, i) := by
  cases pc <;> simp_all [DispatchPc.result, DispatchPc.target]

/-- A thread that points to an instance in its factory's list is in order. -/
theorem ThreadOk.of_target {f : UInt32} {i : ℕ} {fac : Cfactory FsmKind} {fsm : Cfsm}
    (hpc : pc.target = some (f, i)) (hown : OwnMsg m pm) (hservice : f = pm.msg.serviceId)
    (hd : m.deref f i = some (fac, fsm))
    (hs : ∀ facId inst, pm.sender = .fsm facId inst → f = facId ∧ i = inst)
    (hr : ∀ ret, pc.result = some (f, i, ret) → .processed f i pm ret ∈ events) :
    ThreadOk m events ⟨pm, pc⟩ where
  running := by rintro rfl; simp [DispatchPc.target] at hpc
  own := hown
  lookup g hg := by
    have hgf : g = f := by cases pc <;> simp_all [DispatchPc.lookup, DispatchPc.target]
    exact ⟨hgf.trans hservice, fac, hgf ▸ (CfactoryMgr.deref_eq_some_iff.mp hd).1⟩
  adding g hg := by
    obtain rfl : pc = .addFsm g := hg
    simp [DispatchPc.target] at hpc
  target g j hgj := by
    obtain ⟨rfl, rfl⟩ := Prod.mk.inj (Option.some.inj (hpc.symm.trans hgj))
    exact ⟨hservice, ⟨fac, fsm, hd⟩, hs⟩
  result g j ret hgj := by
    obtain ⟨rfl, rfl⟩ := Prod.mk.inj (Option.some.inj
      (hpc.symm.trans (DispatchPc.target_of_result hgj)))
    exact hr ret hgj

/-- A thread with one dispatcher around stays in order. -/
theorem ThreadOk.advance {th : DispatchThread} (hadv : Advance m pm pc (some th) m' ev)
    (hok : ThreadOk m events ⟨pm, pc⟩) (hb : m.IdsLeft) : ThreadOk m' (events ++ ev) th := by
  have hown := hok.own.mono hadv.createdCount_le
  cases hadv with
  | service h =>
      have hid := CfactoryMgr.findFactory_facId h
      exact
        { running := by simp
          own := hown
          lookup := by
            intro f hf
            obtain rfl : _ = f := Option.some.inj hf
            exact ⟨hid, _, hid ▸ h⟩
          adding := by simp
          target := by simp [DispatchPc.target]
          result := by simp [DispatchPc.result] }
  | missing h hr hi =>
      exact
        { running := by simp
          own := hown
          lookup := hok.lookup
          adding := fun _ _ => hi
          target := by simp [DispatchPc.target]
          result := by simp [DispatchPc.result] }
  | found h hr =>
      obtain ⟨hmem, hid⟩ := CfactoryMgr.findFactory_eq_some_iff.mp h
      obtain ⟨hfsm, -⟩ := Cfactory.mem_of_route hr
      obtain ⟨hservice, -⟩ := hok.lookup _ rfl
      refine .of_target rfl hown hservice
        (CfactoryMgr.deref_eq_some_iff.mpr ⟨h, Cfactory.deref_of_mem hfsm⟩)
        (fun facId inst hs => ?_) (by simp [DispatchPc.result])
      have hfac := hservice.trans (hok.own facId inst hs).1
      exact ⟨hfac, hok.own.route_eq hb hs hmem (hid.trans hfac) hr⟩
  | added h ha =>
      obtain ⟨-, hid, -, -, -, hlist⟩ := Cfactory.addFsm_some ha
      have hfound := CfactoryMgr.findFactory_setFactory h
        (hid.trans (CfactoryMgr.findFactory_facId h))
      refine .of_target rfl hown (hok.lookup _ rfl).1
        (CfactoryMgr.deref_eq_some_iff.mpr ⟨hfound, Cfactory.deref_of_mem (by simp [hlist])⟩)
        (fun facId inst hs => ?_) (by simp [DispatchPc.result])
      -- an own message is not `MSG_INIT`
      exact absurd (hok.adding _ rfl) (hok.own facId inst hs).2.2.1
  | prePrcMsg h =>
      obtain ⟨hservice, -, hs⟩ := hok.target _ _ rfl
      obtain ⟨-, hfsm⟩ := CfactoryMgr.deref_eq_some_iff.mp h
      obtain ⟨hmem, hinst⟩ := Cfactory.mem_of_deref hfsm
      refine .of_target rfl (fun facId inst hs' => ?_) hservice h hs (by simp [DispatchPc.result])
      obtain ⟨h₁, -, h₃, h₄⟩ := hok.own facId inst hs'
      refine ⟨h₁, ?_, h₃, h₄⟩
      rw [Cfactory.fsmId_eq _ _ hmem, hinst, (hs facId inst hs').2]
  | processMsg h =>
      obtain ⟨hservice, -, hs⟩ := hok.target _ _ rfl
      refine .of_target rfl hown hservice (deref_processMsg _ h) hs ?_
      intro ret hret
      obtain ⟨-, h'⟩ := Prod.mk.inj (Option.some.inj hret)
      obtain ⟨-, rfl⟩ := Prod.mk.inj h'
      simp
  | postPrcMsg h =>
      obtain ⟨hservice, -, hs⟩ := hok.target _ _ rfl
      exact .of_target rfl hown hservice h hs fun ret hret =>
        List.mem_append_left _ (hok.result _ _ ret hret)
  | terminal h hk =>
      obtain ⟨hservice, -, hs⟩ := hok.target _ _ rfl
      exact .of_target rfl hown hservice h hs fun ret hret =>
        List.mem_append_left _ (hok.result _ _ ret hret)
  | notify =>
      obtain ⟨hservice, ⟨fac, fsm, h⟩, hs⟩ := hok.target _ _ rfl
      exact .of_target rfl hown hservice h hs fun ret hret =>
        List.mem_append_left _ (hok.result _ _ ret hret)
  | noFactory hpc h =>
      obtain ⟨-, fac, hfac⟩ := hok.lookup _ hpc
      simp [h] at hfac
  | dangling hpc h =>
      obtain ⟨-, ⟨fac, fsm, hd⟩, -⟩ := hok.target _ _ (DispatchPc.target_of_call hpc)
      simp [h] at hd
  | undefined => exact absurd rfl hok.running

/-- What a step adds to the traffic is an instance's message to itself. -/
theorem traffic_advance (hadv : Advance m pm pc next m' ev) (hok : ThreadOk m events ⟨pm, pc⟩)
    (hin : ∀ x ∈ m.traffic, OwnMsg m x) : ∀ x ∈ m'.traffic, OwnMsg m' x := by
  have hle := hadv.createdCount_le
  have hold : ∀ x ∈ m.traffic, OwnMsg m' x := fun x hx => (hin x hx).mono hle
  cases hadv with
  | @processMsg f i fac fsm h =>
      obtain ⟨hservice, -, -⟩ := hok.target _ _ rfl
      obtain ⟨hfac, hfsm⟩ := CfactoryMgr.deref_eq_some_iff.mp h
      obtain ⟨hmem, rfl⟩ := Cfactory.mem_of_deref hfsm
      have hid := CfactoryMgr.findFactory_facId hfac
      rcases fac.kind.traffic_processMsg fac.facId fsm pm.msg m.toMsgPorts with
        heq | ⟨event, hne, hperm⟩
      · exact fun x hx => hold x (heq ▸ hx)
      · intro x hx
        rcases List.mem_cons.mp (hperm.mem_iff.mp hx) with rfl | hx
        · intro facId inst hs
          simp only [Sender.fsm.injEq] at hs
          obtain ⟨rfl, rfl⟩ := hs
          refine ⟨(hid.trans hservice).symm, fac.fsmId_eq fsm hmem, hne, ?_⟩
          have hcount :=
            CfactoryMgr.createdCount_of_mem (CfactoryMgr.mem_of_findFactory hfac)
          exact (hcount ▸ fac.inst_lt fsm hmem).trans_le (hle fac.facId)
        · exact hold x hx
  | _ => exact hold

/-- What a step reports of own messages. -/
theorem HandedBack.advance (hadv : Advance s.mgr pm pc next m' ev)
    (hok : ThreadOk s.mgr s.events ⟨pm, pc⟩) (hb : s.mgr.IdsLeft) (hbal : Balanced s)
    (h : HandedBack s.events facId inst) : HandedBack (s.events ++ ev) facId inst := by
  have hown : pm.sender = .fsm facId inst → _ := hok.own facId inst
  constructor
  case created =>
    intro f i id pm' he hs
    rcases List.mem_append.mp he with he | he
    · exact h.created f i id pm' he hs
    · cases hadv with
      | added _ ha =>
          obtain ⟨-, -, -, rfl⟩ := Event.created.inj (List.mem_singleton.mp he)
          exact (hown hs).2.2.1 (hok.adding _ rfl)
      | _ => simp at he
  case processed =>
    intro f i pm' ret he hs
    rcases List.mem_append.mp he with he | he
    · exact h.processed f i pm' ret he hs
    · cases hadv with
      | processMsg _ =>
          simp only [List.mem_cons, reduceCtorEq, Event.processed.injEq, List.not_mem_nil,
            or_false, false_or] at he
          obtain ⟨rfl, rfl, rfl, -⟩ := he
          exact (hok.target _ _ rfl).2.2 facId inst hs
      | _ => simp at he
  case returned =>
    intro pm' ret target he hs
    rcases List.mem_append.mp he with he | he
    · rcases h.returned pm' ret target he hs with ⟨htarget, hp⟩ | ⟨htarget, hret, hr⟩
      · exact .inl ⟨htarget, List.mem_append_left _ hp⟩
      · exact .inr ⟨htarget, hret, List.mem_append_left _ hr⟩
    · cases hadv with
      | unknownService hnone =>
          obtain ⟨rfl, -, -⟩ := Event.returned.inj (List.mem_singleton.mp he)
          obtain ⟨hservice, -, -, hlt⟩ := hown hs
          simp [CfactoryMgr.createdCount, ← hservice, hnone] at hlt
      | notFound hfac hr hi =>
          obtain ⟨rfl, rfl, rfl⟩ := Event.returned.inj (List.mem_singleton.mp he)
          obtain ⟨hmem, hid⟩ := CfactoryMgr.findFactory_eq_some_iff.mp hfac
          have hid' := hid.trans ((hok.lookup _ rfl).1.trans (hown hs).1)
          exact .inr ⟨rfl, rfl, List.mem_append_left _
            (hok.own.removed hb hbal hs hmem hid' hr)⟩
      | full _ _ =>
          obtain ⟨rfl, -, -⟩ := Event.returned.inj (List.mem_singleton.mp he)
          exact absurd (hok.adding _ rfl) (hown hs).2.2.1
      | goesOn hd hk =>
          simp only [List.mem_cons, reduceCtorEq, Event.returned.injEq, List.not_mem_nil,
            or_false, false_or] at he
          obtain ⟨rfl, rfl, rfl⟩ := he
          obtain ⟨rfl, rfl⟩ := (hok.target _ _ rfl).2.2 facId inst hs
          exact .inl ⟨rfl, List.mem_append_left _ (hok.result _ _ _ rfl)⟩
      | @killFsm f₂ id₂ i₂ ret₂ fac _ =>
          have he' : Event.returned pm' ret target = .returned pm ret₂ (some (f₂, i₂)) := by
            simpa using he
          obtain ⟨rfl, rfl, rfl⟩ := Event.returned.inj he'
          obtain ⟨rfl, rfl⟩ := (hok.target _ _ rfl).2.2 facId inst hs
          exact .inl ⟨rfl, List.mem_append_left _ (hok.result _ _ _ rfl)⟩
      | _ => simp at he

/-! ## Runs -/

/-- A thread stays in order while the surroundings act. -/
theorem ThreadOk.withPorts {th : DispatchThread} (h : ThreadOk m events th) (p : MsgPorts) :
    ThreadOk (m.withPorts p) events th :=
  ⟨h.running, h.own, h.lookup, h.adding, h.target, h.result⟩

/-- **Isolation is an invariant** of runs with one dispatcher, as long as ids are left. -/
theorem isolated_of_reachable {E : EnvLabel → Prop}
    (h : (dispatchSystem .boot).ReachableVia (serial E) s) (hb : s.mgr.IdsLeft) : Isolated s := by
  refine h.invariant_below (I := Isolated) (B := fun s => s.mgr.IdsLeft) ?init ?back ?step hb
  case init =>
    rintro s rfl
    exact
      { traffic := by
          simp [DispatchState.resting, CfactoryMgr.boot_eq.2, MsgPorts.traffic, MsgPorts.pending,
            TimerManager.outstanding]
        threads := by simp [DispatchState.resting]
        events := fun facId inst => ⟨by simp [DispatchState.resting],
          by simp [DispatchState.resting], by simp [DispatchState.resting]⟩ }
  case back =>
    intro s l t hs ht
    exact DispatchState.idsLeft_back hs ht
  case step =>
    intro s l t hreach hleft hI hg hs
    have hb := DispatchState.idsLeft_back hs hleft
    cases l with
    | env l =>
        obtain ⟨p, hp, rfl⟩ := DispatchState.step_env_iff.mp hs
        refine ⟨fun x hx => ?_, fun u th hu => (hI.threads u th hu).withPorts p, hI.events⟩
        rcases List.mem_append.mp ((MsgPorts.traffic_env hp).mem_iff.mp hx) with hx | hx
        · intro facId inst hsender
          cases l <;> simp [EnvLabel.posted] at hx
          simp [hx] at hsender
        · exact hI.traffic x hx
    | registerFactory factory => exact hg.elim
    | pop u =>
        obtain ⟨-, pm, p, hports, rfl⟩ := DispatchState.step_pop_iff.mp hs
        have htraffic : s.mgr.traffic = pm :: p.traffic := by rw [hports, MsgPorts.traffic_unpop]
        refine ⟨fun x hx => hI.traffic x (htraffic ▸ List.mem_cons_of_mem _ hx), fun v th hv => ?_,
          hI.events⟩
        rcases DispatchState.threads_update hv with ⟨-, hv⟩ | ⟨-, hv⟩
        · obtain rfl := Option.some.inj hv
          exact
            { running := by simp
              own := hI.traffic pm (htraffic ▸ List.mem_cons_self)
              lookup := by simp [DispatchPc.lookup]
              adding := by simp
              target := by simp [DispatchPc.target]
              result := by simp [DispatchPc.result] }
        · simp [hg v] at hv
    | advance u =>
        obtain ⟨th, next, m', ev, hu, hadv, rfl⟩ := DispatchState.step_advance_iff.mp hs
        have hok := hI.threads u th hu
        have hbal := balanced_of_reachable CfactoryMgr.fresh_boot hreach.reachable
        refine ⟨traffic_advance hadv hok hI.traffic, fun v th' hv => ?_,
          fun facId inst => (hI.events facId inst).advance hadv hok hb hbal⟩
        rcases DispatchState.threads_update hv with ⟨rfl, rfl⟩ | ⟨hne, hv⟩
        · exact ThreadOk.advance hadv hok hb
        · exact absurd (serial_unique hreach (by simp [hv]) (by simp [hu])) hne

/-- **Follow-ups stay with their instance.** With one dispatcher, any outside messages and any
timers: what the events say of a message posted by instance `inst` of factory `facId` is that it
was processed by that instance alone, never created one, and came back from that instance or,
after the instance had been removed, as `INVALID_MSG`. A thread that dispatches such a message
comes to no dangling pointer, and once the instance is removed it changes nothing any more. -/
theorem follow_ups_isolated
    (h : (dispatchSystem .boot).ReachableVia (serial fun _ => True) s)
    (hb : ∀ fac ∈ s.mgr.facList, fac.created < 2 ^ 32 - 1) (facId : UInt32) (inst : ℕ) :
    HandedBack s.events facId inst ∧
      ∀ t th, s.threads t = some th → th.pm.sender = .fsm facId inst →
        th.pc ≠ .undefined ∧
          (.removed facId inst ∈ s.events → ∀ s', s.step (.advance t) = some s' →
            s'.mgr = s.mgr ∧ (s'.events = s.events ∨
              s'.events = s.events ++ [.returned th.pm .invalidMsg none])) := by
  have hI := isolated_of_reachable h hb
  refine ⟨hI.events facId inst, fun t th ht hs => ⟨(hI.threads t th ht).running, ?_⟩⟩
  intro hrem s' hs'
  have hok := hI.threads t th ht
  -- a pointer would be to the sender, which is not in the list any more
  have htarget : th.pc.target = none := by
    apply Option.eq_none_iff_forall_ne_some.mpr
    rintro ⟨f, i⟩ hfi
    obtain ⟨-, ⟨fac, fsm, hd⟩, hsender⟩ := hok.target f i hfi
    obtain ⟨rfl, rfl⟩ := hsender facId inst hs
    exact not_removed_of_deref (balanced_of_reachable CfactoryMgr.fresh_boot h.reachable) hd
      (mem_removedIn.mpr hrem)
  obtain ⟨th₂, next, m', ev, ht₂, hadv, rfl⟩ := DispatchState.step_advance_iff.mp hs'
  obtain rfl : th = th₂ := Option.some.inj (ht.symm.trans ht₂)
  generalize hpc : th.pc = pc at hadv
  cases hadv with
  | unknownService | notFound => exact ⟨rfl, .inr rfl⟩
  | service | found | missing => exact ⟨rfl, .inl (List.append_nil _)⟩
  | full | added =>
      exact absurd (hok.adding _ hpc) (hok.own facId inst hs).2.2.1
  | noFactory hlook hnone =>
      obtain ⟨-, fac, hfac⟩ := hok.lookup _ (hpc ▸ hlook)
      simp [hnone] at hfac
  | dangling hcall => simp [hpc, DispatchPc.target_of_call hcall] at htarget
  | undefined => exact absurd hpc hok.running
  | _ => simp [hpc, DispatchPc.target] at htarget

/-- A client closes a flow whose timer is running; the message of the timer comes too late. -/
theorem follow_ups_isolated_late_timer : ∃ s : DispatchState FsmKind,
    .returned ⟨{ type := .msgTimeout, serviceId := 1, fsmId := 1 }, .fsm 1 0⟩ .invalidMsg none ∈
      s.events ∧ HandedBack s.events 1 0 := by
  obtain ⟨a, ha, hb, hlate⟩ : ∃ a : SeqState FsmKind,
      (seqSystem .boot).exec (fun a l => decide (admits (fun _ => True) a l)) ⟨.boot, []⟩
        [.env (.sendMsg 0 { serviceId := 1 }), .dispatch, .dispatch, .dispatch, .dispatch,
          .env (.sendMsg 1 { type := .msgClose, serviceId := 1, fsmId := 1 }), .dispatch,
          .env (.sendMsg 2 { serviceId := 1 }), .env (.timerWake 0), .env (.timerPost 0),
          .dispatch, .dispatch] = some a ∧
        (∀ fac ∈ a.mgr.facList, fac.created < 2 ^ 32 - 1) ∧
        .returned ⟨{ type := .msgTimeout, serviceId := 1, fsmId := 1 }, .fsm 1 0⟩ .invalidMsg
          none ∈ a.events := ⟨_, rfl, by decide, by decide⟩
  exact ⟨.resting a.mgr a.events, hlate,
    (follow_ups_isolated (resting_of_exec ha) hb 1 0).1⟩

end FsmFramework
