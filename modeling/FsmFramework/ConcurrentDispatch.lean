import FsmFramework.Completion

/-!
# Concurrent dispatchers

Between `FindFsm` and `KillFsm` a dispatching thread holds a pointer and no lock. Two threads
that hold one instance come to grief when one of them closes it: both read `KILL_FSM`, or one
calls an instance that the other has removed (`two_holders`).

This is the only way. In a run where an instance is closed by its sole holder, and no thread
looks up an instance that is being reclaimed, every pointer stays good until its thread lets go
of it (`Exclusive`), and each instance completes once (`no_use_after_removal`). Nothing is
assumed of ids: the closing thread found its instance by its id, so that it is the first with
it, and `KillFsm` takes this one.
-/

namespace FsmFramework

/-! ## The condition -/

section Condition

variable {K : Type*}

/-- No thread other than `t` holds a pointer to the instance. -/
def SoleHolder (s : DispatchState K) (t : ℕ) (facId : UInt32) (inst : ℕ) : Prop :=
  ∀ u th, s.threads u = some th → th.pc.target = some (facId, inst) → u = t

/-- A thread about to hand `MSG_CLOSE` to a `WORKING` instance is its only holder. A thread that
looks an instance up finds none in `KILL_FSM`. -/
def closesAlone (s : DispatchState K) : DispatchLabel K → Prop
  | .advance t => ∀ th, s.threads t = some th →
      match th.pc with
      | .processMsg facId inst => ∀ fac fsm, s.mgr.deref facId inst = some (fac, fsm) →
          fsm.state = .working → th.pm.msg.type = .msgClose → SoleHolder s t facId inst
      | .facMsgPrc facId => ∀ fac fsm, s.mgr.findFactory facId = some fac →
          fac.route th.pm.msg.fsmId = some fsm → fsm.state ≠ .killFsm
      | _ => True
  | _ => True

end Condition

/-! ## What a step leaves alone -/

section Frame

variable {K : Type*} [BusinessFsm K] {m m' : CfactoryMgr K} {pm : PumpMsg} {pc : DispatchPc}
  {next : Option DispatchThread} {ev : List Event} {facId : UInt32} {inst : ℕ}
  {fac : Cfactory K} {fsm : Cfsm}

/-- The instance a thread does not hold is left alone, and stays the first with its id. The
thread's own instance has to be the one that its `KillFsm` finds. -/
theorem Advance.keeps (h : Advance m pm pc next m' ev) (hd : m.deref facId inst = some (fac, fsm))
    (hne : pc.target ≠ some (facId, inst))
    (hkill : ∀ g i id ret fac y, pc = .killFsm g i id ret → m.findFactory g = some fac →
      fac.findFsm id = some y → y.inst = i) :
    ∃ fac', m'.deref facId inst = some (fac', fsm) ∧
      (fac.findFsm fsm.fsmId = some fsm → fac'.findFsm fsm.fsmId = some fsm) := by
  obtain ⟨hfac, hfsm⟩ := CfactoryMgr.deref_eq_some_iff.mp hd
  have hother : ∀ {g : UInt32} {fac₂ : Cfactory K}, fac₂.facId = g → g ≠ facId →
      ∃ fac', (m.setFactory fac₂).deref facId inst = some (fac', fsm) ∧
        (fac.findFsm fsm.fsmId = some fsm → fac'.findFsm fsm.fsmId = some fsm) := by
    rintro g fac₂ rfl hg
    refine ⟨fac, CfactoryMgr.deref_eq_some_iff.mpr ⟨?_, hfsm⟩, id⟩
    rwa [CfactoryMgr.findFactory_setFactory_of_ne hg]
  have hsame : ∀ {fac₂ : Cfactory K}, fac₂.facId = facId → fac₂.deref inst = some fsm →
      (m.setFactory fac₂).deref facId inst = some (fac₂, fsm) := fun hid hd₂ =>
    CfactoryMgr.deref_eq_some_iff.mpr ⟨CfactoryMgr.findFactory_setFactory hfac hid, hd₂⟩
  cases h with
  | @added g fac₁ fac₂ new h ha =>
      have hid := (Cfactory.addFsm_some ha).2.1.trans (CfactoryMgr.findFactory_facId h)
      by_cases hg : g = facId
      · subst hg
        obtain rfl : fac₁ = fac := Option.some.inj (h.symm.trans hfac)
        exact ⟨fac₂, hsame hid (Cfactory.deref_addFsm ha hfsm), Cfactory.findFsm_addFsm ha⟩
      · exact hother hid hg
  | @processMsg g i fac₁ fsm₁ h =>
      obtain ⟨hfac₁, hfsm₁⟩ := CfactoryMgr.deref_eq_some_iff.mp h
      have hid := CfactoryMgr.findFactory_facId hfac₁
      by_cases hg : g = facId
      · subst hg
        obtain rfl : fac₁ = fac := Option.some.inj (hfac₁.symm.trans hfac)
        have hi : fsm₁.inst ≠ inst := by
          rw [(Cfactory.mem_of_deref hfsm₁).2]
          rintro rfl
          exact hne rfl
        refine ⟨_, hsame hid (by rwa [Cfactory.deref_setState_of_ne hi]), fun hfind => ?_⟩
        rw [Cfactory.findFsm_setState, hfind, Option.map_some, if_neg]
        exact (Cfactory.mem_of_deref hfsm).2 ▸ hi.symm
      · exact hother hid hg
  | @killFsm g id i ret fac₁ h =>
      have hid : (fac₁.killFsm id).2.facId = g :=
        Cfactory.killFsm_facId.trans (CfactoryMgr.findFactory_facId h)
      by_cases hg : g = facId
      · subst hg
        obtain rfl : fac₁ = fac := Option.some.inj (h.symm.trans hfac)
        have hi : ∀ y, fac₁.findFsm id = some y → y.inst ≠ inst := by
          intro y hy heq
          exact hne (by rw [← heq, hkill g i id ret fac₁ y rfl h hy]; rfl)
        refine ⟨_, hsame hid (Cfactory.deref_killFsm hi hfsm), Cfactory.findFsm_killFsm ?_⟩
        exact (Cfactory.mem_of_deref hfsm).2 ▸ hi
      · exact hother hid hg
  | _ => exact ⟨fac, hd, id⟩

/-- A thread comes by a pointer by finding or creating the instance. -/
theorem Advance.acquires {th : DispatchThread} (h : Advance m pm pc (some th) m' ev)
    (ht : th.pc.target = some (facId, inst)) : pc.target = some (facId, inst) ∨
      (∃ fac fsm, pc = .facMsgPrc facId ∧ m.findFactory facId = some fac ∧
        fac.route pm.msg.fsmId = some fsm ∧ fsm.inst = inst) ∨
      ∃ fac, pc = .addFsm facId ∧ m.findFactory facId = some fac ∧ fac.created = inst := by
  cases h with
  | found h hr =>
      obtain ⟨rfl, rfl⟩ := Prod.mk.inj (Option.some.inj ht)
      exact .inr (.inl ⟨_, _, rfl, h, hr, rfl⟩)
  | added h ha =>
      obtain ⟨rfl, rfl⟩ := Prod.mk.inj (Option.some.inj ht)
      exact .inr (.inr ⟨_, rfl, h, by rw [(Cfactory.addFsm_some ha).1]⟩)
  | _ => first | exact .inl ht | simp [DispatchPc.target] at ht

end Frame

/-! ## Pointers stay good -/

/-- The id with which a thread is about to reclaim its instance. -/
def DispatchPc.closing : DispatchPc → Option UInt32
  | .notify _ _ fsmId _ | .killFsm _ _ fsmId _ => some fsmId
  | _ => none

/-- What thread `t` relies on about the instance it holds: it is in its factory's list; as long
as the message has not been handed over, it is not terminal, and `FindFsm` finds it unless the
message is `MSG_INIT`; once it is terminal, it is the thread's own to reclaim. -/
structure Holds (s : DispatchState FsmKind) (t : ℕ) (th : DispatchThread) (facId : UInt32)
    (inst : ℕ) (fac : Cfactory FsmKind) (fsm : Cfsm) : Prop where
  live : s.mgr.deref facId inst = some (fac, fsm)
  waiting : th.pc.handed = false → fsm.state ≠ .killFsm ∧
    (th.pm.msg.type = .msgInit ∨ fac.findFsm fsm.fsmId = some fsm)
  closing : ∀ id, th.pc.closing = some id → fsm.state = .killFsm ∧ id = fsm.fsmId
  closed : fsm.state = .killFsm →
    fac.findFsm fsm.fsmId = some fsm ∧ SoleHolder s t facId inst

/-- Every thread may rely on the instance it holds. -/
structure Exclusive (s : DispatchState FsmKind) : Prop where
  holds : ∀ t th facId inst, s.threads t = some th → th.pc.target = some (facId, inst) →
    ∃ fac fsm, Holds s t th facId inst fac fsm
  creating : ∀ t th facId, s.threads t = some th → th.pc.adding = some facId →
    th.pm.msg.type = .msgInit

section Step

variable {s s' : DispatchState FsmKind} {m' : CfactoryMgr FsmKind} {pm : PumpMsg} {pc : DispatchPc}
  {next : Option DispatchThread} {ev events : List Event} {facId : UInt32} {inst t u : ℕ}
  {th : DispatchThread} {fac : Cfactory FsmKind} {fsm : Cfsm}

/-- A thread that moves stays the sole holder of what it holds alone. -/
theorem SoleHolder.update (h : SoleHolder s t facId inst) :
    SoleHolder (K := FsmKind) ⟨m', Function.update s.threads t next, events⟩ t facId inst := by
  intro u th hu htarget
  rcases DispatchState.threads_update hu with ⟨rfl, -⟩ | ⟨-, hu⟩
  · rfl
  · exact h u th hu htarget

/-- The instance that a reclaiming thread's `KillFsm` finds is the one it holds. -/
theorem Exclusive.killFsm_found (hinv : Exclusive s) (ht : s.threads t = some ⟨pm, pc⟩)
    {id : UInt32} {ret : EerrNo} {y : Cfsm} (hpc : pc = .killFsm facId inst id ret)
    (hfac : s.mgr.findFactory facId = some fac) (hy : fac.findFsm id = some y) : y.inst = inst := by
  subst hpc
  obtain ⟨fac₁, fsm, hh⟩ := hinv.holds t _ facId inst ht rfl
  obtain ⟨hfac₁, hfsm⟩ := CfactoryMgr.deref_eq_some_iff.mp hh.live
  obtain rfl : fac₁ = fac := Option.some.inj (hfac₁.symm.trans hfac)
  obtain ⟨hkill, rfl⟩ := hh.closing id rfl
  obtain rfl : fsm = y := Option.some.inj ((hh.closed hkill).1.symm.trans hy)
  exact (Cfactory.mem_of_deref hfsm).2

/-- An instance that two threads hold is not terminal. -/
theorem Holds.shared (h : Holds s u th facId inst fac fsm) (ht : s.threads t = some ⟨pm, pc⟩)
    (htarget : pc.target = some (facId, inst)) (hu : u ≠ t) : fsm.state ≠ .killFsm := fun hkill =>
  hu ((h.closed hkill).2 t _ ht htarget).symm

/-- A thread does not come by an instance that is terminal. -/
theorem target_of_closed (hadv : Advance s.mgr pm pc (some th) m' ev)
    (ht : s.threads t = some ⟨pm, pc⟩) (hg : closesAlone s (.advance t))
    (hlive : s.mgr.deref facId inst = some (fac, fsm)) (hkill : fsm.state = .killFsm)
    (htarget : th.pc.target = some (facId, inst)) : pc.target = some (facId, inst) := by
  obtain ⟨hfac, hfsm⟩ := CfactoryMgr.deref_eq_some_iff.mp hlive
  rcases hadv.acquires htarget with
    h | ⟨fac₁, fsm₁, rfl, hfac₁, hr, hinst⟩ | ⟨fac₁, rfl, hfac₁, hinst⟩
  · exact h
  · obtain rfl : fac₁ = fac := Option.some.inj (hfac₁.symm.trans hfac)
    have hmem := (Cfactory.mem_of_route hr).1
    have hd := Cfactory.deref_of_mem hmem
    rw [hinst, hfsm] at hd
    exact absurd (Option.some.inj hd ▸ hkill) (hg _ ht fac₁ fsm₁ hfac₁ hr)
  · obtain rfl : fac₁ = fac := Option.some.inj (hfac₁.symm.trans hfac)
    obtain ⟨hmem, rfl⟩ := Cfactory.mem_of_deref hfsm
    exact absurd hinst (fac₁.inst_lt fsm hmem).ne'

/-- The other threads may still rely on the instances they hold. -/
theorem Exclusive.other (hinv : Exclusive s) (ht : s.threads t = some ⟨pm, pc⟩)
    (hadv : Advance s.mgr pm pc next m' ev) (hg : closesAlone s (.advance t)) (hu : u ≠ t)
    (hthu : s.threads u = some th) (htarget : th.pc.target = some (facId, inst)) :
    ∃ fac fsm, Holds ⟨m', Function.update s.threads t next, events⟩ u th facId inst fac fsm := by
  obtain ⟨fac, fsm, hh⟩ := hinv.holds u th facId inst hthu htarget
  by_cases hown : pc.target = some (facId, inst)
  · -- both hold it, so it is not terminal and does not become so
    have hs := hh.shared ht hown hu
    have hsame : m' = s.mgr → ∃ fac fsm,
        Holds ⟨m', Function.update s.threads t next, events⟩ u th facId inst fac fsm := by
      rintro rfl
      exact ⟨fac, fsm, hh.live, hh.waiting, hh.closing, fun hkill => absurd hkill hs⟩
    obtain ⟨fac₁, fsm₁, hh₁⟩ := hinv.holds t _ facId inst ht hown
    obtain ⟨rfl, rfl⟩ := Prod.mk.inj (Option.some.inj (hh.live.symm.trans hh₁.live))
    cases hadv with
    | @processMsg f i fac₁ fsm₁ h =>
        obtain ⟨rfl, rfl⟩ := Prod.mk.inj (Option.some.inj hown)
        obtain ⟨rfl, rfl⟩ := Prod.mk.inj (Option.some.inj (h.symm.trans hh.live))
        have hstate : (BusinessFsm.processMsg fac₁.kind f fsm₁ pm.msg s.mgr.toMsgPorts).2.1.state ≠
            .killFsm := by
          intro hkill
          obtain ⟨hw, hclose⟩ := FsmKind.processMsg_killFsm _ _ _ hs hkill
          exact hu (hg _ ht fac₁ fsm₁ h hw hclose u th hthu htarget)
        have hinst := (Cfactory.mem_of_deref (CfactoryMgr.deref_eq_some_iff.mp h).2).2
        refine ⟨_, _, deref_processMsg _ h, fun hw => ⟨hstate, (hh.waiting hw).2.imp_right ?_⟩,
          fun id hid => absurd (hh.closing id hid).1 hs, fun hkill => absurd hkill hstate⟩
        intro hfind
        rw [Cfactory.findFsm_setState, hfind, Option.map_some, if_pos hinst]
    | notify | killFsm => exact absurd (hh₁.closing _ rfl).1 hs
    | added => simp [DispatchPc.target] at hown
    | _ => exact hsame rfl
  · obtain ⟨fac', hlive, hfind⟩ := hadv.keeps hh.live hown
      fun g i id ret fac y hpc hfac hy => hinv.killFsm_found ht hpc hfac hy
    refine ⟨fac', fsm, hlive, fun hw => ⟨(hh.waiting hw).1, (hh.waiting hw).2.imp_right hfind⟩,
      hh.closing, fun hkill => ⟨hfind (hh.closed hkill).1, ?_⟩⟩
    intro w th' hw htarget'
    rcases DispatchState.threads_update hw with ⟨rfl, rfl⟩ | ⟨-, hw⟩
    · exact absurd (target_of_closed hadv ht hg hh.live hkill htarget') hown
    · exact (hh.closed hkill).2 w th' hw htarget'

/-- The thread that moves may rely on what it holds then. -/
theorem Exclusive.own (hinv : Exclusive s) (ht : s.threads t = some ⟨pm, pc⟩)
    (hadv : Advance s.mgr pm pc (some th) m' ev) (hg : closesAlone s (.advance t))
    (htarget : th.pc.target = some (facId, inst)) :
    ∃ fac fsm,
      Holds ⟨m', Function.update s.threads t (some th), events⟩ t th facId inst fac fsm := by
  cases hadv with
  | found h hr =>
      obtain ⟨rfl, rfl⟩ := Prod.mk.inj (Option.some.inj htarget)
      have hs := hg _ ht _ _ h hr
      obtain ⟨-, hfind⟩ := Cfactory.findFsm_of_route hr
      obtain ⟨hmem, hid⟩ := Cfactory.mem_of_findFsm hfind
      exact ⟨_, _, CfactoryMgr.deref_eq_some_iff.mpr ⟨h, Cfactory.deref_of_mem hmem⟩,
        fun _ => ⟨hs, .inr (hid ▸ hfind)⟩, by simp [DispatchPc.closing],
        fun hkill => absurd hkill hs⟩
  | @added f fac fac' fsm h ha =>
      obtain ⟨rfl, rfl⟩ := Prod.mk.inj (Option.some.inj htarget)
      obtain ⟨hnew, hid, -, -, -, hlist⟩ := Cfactory.addFsm_some ha
      have hinit := hinv.creating t _ _ ht rfl
      have hmem : fsm ∈ fac'.fsmList := by simp [hlist]
      have hlive := CfactoryMgr.deref_eq_some_iff.mpr ⟨CfactoryMgr.findFactory_setFactory h
        (hid.trans (CfactoryMgr.findFactory_facId h)), Cfactory.deref_of_mem hmem⟩
      exact ⟨_, _, hlive, fun _ => ⟨by simp [hnew], .inl hinit⟩, by simp [DispatchPc.closing],
        by simp [hnew]⟩
  | prePrcMsg =>
      obtain ⟨fac, fsm, hh⟩ := hinv.holds t _ facId inst ht htarget
      exact ⟨fac, fsm, hh.live, hh.waiting, by simp [DispatchPc.closing],
        fun hkill => absurd hkill (hh.waiting rfl).1⟩
  | @processMsg f i fac fsm h =>
      obtain ⟨rfl, rfl⟩ := Prod.mk.inj (Option.some.inj htarget)
      obtain ⟨fac₁, fsm₁, hh⟩ := hinv.holds t _ f i ht rfl
      obtain ⟨rfl, rfl⟩ := Prod.mk.inj (Option.some.inj (h.symm.trans hh.live))
      obtain ⟨hs, hfirst⟩ := hh.waiting rfl
      refine ⟨_, _, deref_processMsg _ h, by simp [DispatchPc.handed], by simp [DispatchPc.closing],
        fun hkill => ?_⟩
      -- it has become terminal, so the message is `MSG_CLOSE` and the guard applies
      obtain ⟨hw, hclose⟩ := FsmKind.processMsg_killFsm _ _ _ hs hkill
      have hinst := (Cfactory.mem_of_deref (CfactoryMgr.deref_eq_some_iff.mp h).2).2
      have hfind := hfirst.resolve_left (by simp [hclose])
      refine ⟨?_, (hg _ ht fac fsm h hw hclose).update⟩
      rw [Cfactory.findFsm_setState, hfind, Option.map_some, if_pos hinst]
  | postPrcMsg =>
      obtain ⟨fac, fsm, hh⟩ := hinv.holds t _ facId inst ht htarget
      exact ⟨fac, fsm, hh.live, by simp [DispatchPc.handed], by simp [DispatchPc.closing],
        fun hkill => ⟨(hh.closed hkill).1, (hh.closed hkill).2.update⟩⟩
  | @terminal f i ret fac fsm h hk =>
      obtain ⟨fac₁, fsm₁, hh⟩ := hinv.holds t _ facId inst ht htarget
      obtain ⟨rfl, rfl⟩ := Prod.mk.inj (Option.some.inj htarget)
      obtain ⟨rfl, rfl⟩ := Prod.mk.inj (Option.some.inj (h.symm.trans hh.live))
      exact ⟨fac, fsm, hh.live, by simp [DispatchPc.handed], by simp [DispatchPc.closing, hk],
        fun hkill => ⟨(hh.closed hkill).1, (hh.closed hkill).2.update⟩⟩
  | notify =>
      obtain ⟨fac, fsm, hh⟩ := hinv.holds t _ facId inst ht htarget
      exact ⟨fac, fsm, hh.live, by simp [DispatchPc.handed], hh.closing,
        fun hkill => ⟨(hh.closed hkill).1, (hh.closed hkill).2.update⟩⟩
  | _ => simp [DispatchPc.target] at htarget

/-- A step that meets the condition keeps the pointers good. -/
theorem Exclusive.step {l : DispatchLabel FsmKind} (hinv : Exclusive s) (hg : closesAlone s l)
    (hs : s.step l = some s') : Exclusive s' := by
  -- steps that move no thread keep what pointers point to
  have hkeep : ∀ {m' : CfactoryMgr FsmKind} {threads : ℕ → Option DispatchThread},
      (∀ f i r, s.mgr.deref f i = some r → m'.deref f i = some r) →
      (∀ u th, threads u = some th → s.threads u = some th ∨ th.pc = .dispatchMsg) →
      Exclusive ⟨m', threads, s.events⟩ := by
    intro m' threads hderef hthreads
    constructor
    · intro t th f i ht htarget
      rcases hthreads t th ht with ht | hpc
      · obtain ⟨fac, fsm, hh⟩ := hinv.holds t th f i ht htarget
        refine ⟨fac, fsm, hderef f i _ hh.live, hh.waiting, hh.closing, fun hkill =>
          ⟨(hh.closed hkill).1, fun u th' hu htarget' => ?_⟩⟩
        rcases hthreads u th' hu with hu | hpc
        · exact (hh.closed hkill).2 u th' hu htarget'
        · simp [hpc, DispatchPc.target] at htarget'
      · simp [hpc, DispatchPc.target] at htarget
    · intro t th f ht hadd
      rcases hthreads t th ht with ht | hpc
      · exact hinv.creating t th f ht hadd
      · simp [hpc, DispatchPc.adding] at hadd
  cases l with
  | env l =>
      obtain ⟨p, -, rfl⟩ := DispatchState.step_env_iff.mp hs
      exact hkeep (fun f i r h => h) fun u th h => .inl h
  | registerFactory factory =>
      obtain rfl := DispatchState.step_registerFactory_iff.mp hs
      refine hkeep (fun f i r h => ?_) fun u th h => .inl h
      obtain ⟨fac, fsm⟩ := r
      obtain ⟨hfac, hfsm⟩ := CfactoryMgr.deref_eq_some_iff.mp h
      refine CfactoryMgr.deref_eq_some_iff.mpr ⟨?_, hfsm⟩
      rcases CfactoryMgr.findFactory_registerFactory (m := s.mgr) with hsame | ⟨hnone, -⟩
      · exact hsame.trans hfac
      · simp [hfac] at hnone
  | pop t =>
      obtain ⟨ht, pm, p, -, rfl⟩ := DispatchState.step_pop_iff.mp hs
      refine hkeep (fun f i r h => h) ?_
      intro u th h
      rcases DispatchState.threads_update h with ⟨-, h⟩ | ⟨-, h⟩
      · exact .inr (Option.some.inj h ▸ rfl)
      · exact .inl h
  | advance t =>
      obtain ⟨⟨pm, pc⟩, next, m', ev, ht, hadv, rfl⟩ := DispatchState.step_advance_iff.mp hs
      constructor
      · intro u th f i hu htarget
        rcases DispatchState.threads_update hu with ⟨rfl, rfl⟩ | ⟨hut, hu⟩
        · exact hinv.own ht hadv hg htarget
        · exact hinv.other ht hadv hg hut hu htarget
      · intro u th f hu hadd
        rcases DispatchState.threads_update hu with ⟨rfl, rfl⟩ | ⟨-, hu⟩
        · cases hadv with
          | missing _ _ hi => exact hi
          | _ => simp [DispatchPc.adding] at hadd
        · exact hinv.creating u th f hu hadd

end Step

/-! ## What the events say -/

/-- No instance is called after it was removed. -/
def NoUseAfterRemoval (events : List Event) : Prop :=
  events.Pairwise fun e e' => ∀ facId inst call, e = .removed facId inst →
    e' ≠ .called facId inst call

/-- The history of a run that meets the condition. -/
structure Reclaimed (s : DispatchState FsmKind) : Prop where
  noUseAfterRemoval : NoUseAfterRemoval s.events
  once : ∀ facId, (completedIn facId s.events).Nodup
  gone : ∀ facId inst, inst ∈ completedIn facId s.events → inst ∈ removedIn facId s.events ∨
    ∃ t pm id ret, s.threads t = some ⟨pm, .killFsm facId inst id ret⟩

section History

variable {s s' : DispatchState FsmKind} {m m' : CfactoryMgr FsmKind} {pm : PumpMsg}
  {pc : DispatchPc} {next : Option DispatchThread} {ev : List Event} {facId : UInt32} {inst : ℕ}

/-- A step calls the instance that its thread holds. -/
theorem Advance.call_eq (h : Advance m pm pc next m' ev) {call : FsmCall}
    (hmem : .called facId inst call ∈ ev) : pc.call = some (facId, inst, call) := by
  cases h with
  | dangling hpc =>
      obtain ⟨rfl, rfl, rfl⟩ := Event.called.inj (List.mem_singleton.mp hmem)
      exact hpc
  | _ => simp_all [DispatchPc.call]

/-- Within a step nothing is called after a removal. -/
theorem Advance.noUseAfterRemoval (h : Advance m pm pc next m' ev) : NoUseAfterRemoval ev := by
  cases h with
  | @killFsm f id i ret fac h =>
      cases hf : fac.findFsm id <;> simp [CfactoryMgr.killFsm, hf, NoUseAfterRemoval]
  | _ => simp [NoUseAfterRemoval]

/-- Only `NotifyFsmCompleted` reports a completion, and `KillFsm` comes next. -/
theorem Advance.completed (h : Advance m pm pc next m' ev) (facId : UInt32) :
    completedIn facId ev = [] ∨ ∃ inst id ret, pc = .notify facId inst id ret ∧
      next = some ⟨pm, .killFsm facId inst id ret⟩ ∧ completedIn facId ev = [inst] := by
  cases h with
  | @notify f id i ret =>
      by_cases hf : f = facId
      · subst hf
        exact .inr ⟨i, id, ret, rfl, rfl, by simp [completedIn, CfactoryMgr.completionEvent]⟩
      · exact .inl (by simp [completedIn, CfactoryMgr.completionEvent, hf])
  | @killFsm f id i ret fac h =>
      cases hf : fac.findFsm id <;> simp [CfactoryMgr.killFsm, hf, completedIn]
  | _ => exact .inl rfl

/-- The completion of the instance a thread is about to report was not reported before. -/
theorem Reclaimed.not_completed (h : Reclaimed s) (hinv : Exclusive s) (hbal : Balanced s) {t : ℕ}
    {id : UInt32} {ret : EerrNo} (ht : s.threads t = some ⟨pm, .notify facId inst id ret⟩) :
    inst ∉ completedIn facId s.events := by
  intro hmem
  obtain ⟨fac, fsm, hh⟩ := hinv.holds t _ facId inst ht rfl
  rcases h.gone facId inst hmem with hrem | ⟨u, pm', id', ret', hu⟩
  · exact not_removed_of_deref hbal hh.live hrem
  · obtain rfl : u = t := (hh.closed (hh.closing id rfl).1).2 u _ hu rfl
    simp [ht] at hu

/-- A step of a thread keeps the history in order. -/
theorem Reclaimed.advance (h : Reclaimed s) (hinv : Exclusive s) (hbal : Balanced s) {t : ℕ}
    (ht : s.threads t = some ⟨pm, pc⟩) (hadv : Advance s.mgr pm pc next m' ev) :
    Reclaimed ⟨m', Function.update s.threads t next, s.events ++ ev⟩ where
  noUseAfterRemoval := by
    refine List.pairwise_append.mpr ⟨h.noUseAfterRemoval, hadv.noUseAfterRemoval, ?_⟩
    rintro e he e' he' f i call rfl rfl
    have htarget := DispatchPc.target_of_call (hadv.call_eq he')
    obtain ⟨fac, fsm, hh⟩ := hinv.holds t _ f i ht htarget
    exact not_removed_of_deref hbal hh.live (mem_removedIn.mpr he)
  once f := by
    rw [completedIn_append]
    obtain hnil | ⟨i, id, ret, rfl, -, hone⟩ := hadv.completed f
    · rw [hnil, List.append_nil]
      exact h.once f
    · rw [hone]
      have hnew := h.not_completed hinv hbal ht
      exact List.nodup_append.mpr ⟨h.once f, List.nodup_singleton i, fun x hx y hy heq =>
        hnew (List.mem_singleton.mp hy ▸ heq ▸ hx)⟩
  gone f i hmem := by
    rw [removedIn_append]
    rcases List.mem_append.mp (completedIn_append f _ _ ▸ hmem) with hold | hnew
    · rcases h.gone f i hold with hrem | ⟨u, pm', id, ret, hu⟩
      · exact .inl (List.mem_append_left _ hrem)
      · by_cases hut : u = t
        · -- the thread removes the instance it has reported
          subst hut
          obtain ⟨rfl, rfl⟩ := DispatchThread.mk.inj (Option.some.inj (ht.symm.trans hu))
          obtain ⟨fac, fsm, hh⟩ := hinv.holds u _ f i ht rfl
          obtain ⟨hfac, hfsm⟩ := CfactoryMgr.deref_eq_some_iff.mp hh.live
          obtain ⟨hkill, rfl⟩ := hh.closing id rfl
          have hfind := (hh.closed hkill).1
          cases hadv with
          | @killFsm _ _ _ _ fac₁ h₁ =>
              obtain rfl : fac₁ = fac := Option.some.inj (h₁.symm.trans hfac)
              refine .inl (List.mem_append_right _ (mem_removedIn.mpr ?_))
              simp [CfactoryMgr.killFsm, hfind, CfactoryMgr.findFactory_facId hfac,
                (Cfactory.mem_of_deref hfsm).2]
          | noFactory hpc hnone =>
              obtain rfl := Option.some.inj hpc
              simp [hfac] at hnone
          | dangling hpc => simp [DispatchPc.call] at hpc
        · exact .inr ⟨u, pm', id, ret, by simpa [Function.update_of_ne hut] using hu⟩
    · obtain hnil | ⟨i', id, ret, rfl, rfl, hone⟩ := hadv.completed f
      · simp [hnil] at hnew
      · rw [hone, List.mem_singleton] at hnew
        exact .inr ⟨t, pm, id, ret, by simp [hnew]⟩

/-- A step that meets the condition keeps the history in order. -/
theorem Reclaimed.step {l : DispatchLabel FsmKind} (h : Reclaimed s) (hinv : Exclusive s)
    (hbal : Balanced s) (hs : s.step l = some s') : Reclaimed s' := by
  cases l with
  | env l =>
      obtain ⟨p, -, rfl⟩ := DispatchState.step_env_iff.mp hs
      exact ⟨h.noUseAfterRemoval, h.once, h.gone⟩
  | registerFactory factory =>
      obtain rfl := DispatchState.step_registerFactory_iff.mp hs
      exact ⟨h.noUseAfterRemoval, h.once, h.gone⟩
  | pop t =>
      obtain ⟨ht, pm, p, -, rfl⟩ := DispatchState.step_pop_iff.mp hs
      refine ⟨h.noUseAfterRemoval, h.once, fun f i hmem => (h.gone f i hmem).imp_right ?_⟩
      rintro ⟨u, pm', id, ret, hu⟩
      have hut : u ≠ t := by
        rintro rfl
        simp [ht] at hu
      exact ⟨u, pm', id, ret, by simpa [Function.update_of_ne hut] using hu⟩
  | advance t =>
      obtain ⟨⟨pm, pc⟩, next, m', ev, ht, hadv, rfl⟩ := DispatchState.step_advance_iff.mp hs
      exact h.advance hinv hbal ht hadv

/-- **Concurrent dispatchers.** In every run whose steps all meet the condition, with any number
of dispatchers and any messages, no instance is called after it was removed, and each instance
completes at most once. -/
theorem no_use_after_removal (h : (dispatchSystem .new).ReachableVia closesAlone s) :
    (∀ before after, s.events = before ++ after → ∀ facId inst, .removed facId inst ∈ before →
      ∀ call, .called facId inst call ∉ after) ∧
    ∀ facId, (completedIn facId s.events).Nodup := by
  have hinv : (Exclusive s ∧ Balanced s) ∧ Reclaimed s := by
    refine h.invariant (I := fun s => (Exclusive s ∧ Balanced s) ∧ Reclaimed s) ?init ?step
    case init =>
      rintro s rfl
      have hbal := balanced_of_reachable CfactoryMgr.fresh_new
        (Lts.ReachableVia.of_init (M := dispatchSystem (K := FsmKind) .new) rfl)
      refine ⟨⟨⟨?_, ?_⟩, hbal⟩, ⟨List.Pairwise.nil, ?_, ?_⟩⟩ <;>
        simp [DispatchState.resting, completedIn]
    case step =>
      rintro s l s' ⟨⟨hex, hbal⟩, hrec⟩ hg hs
      exact ⟨⟨hex.step hg hs, balanced_step hs hbal⟩, hrec.step hex hbal hs⟩
  refine ⟨?_, hinv.2.once⟩
  intro before after heq f i hrem call hcall
  have hpair := hinv.2.noUseAfterRemoval
  rw [heq] at hpair
  exact (List.pairwise_append.mp hpair).2.2 _ hrem _ hcall f i call rfl rfl

end History

/-- A step that closes nothing, and looks nothing up while something is being reclaimed. -/
def closesNothing (s : DispatchState FsmKind) : DispatchLabel FsmKind → Bool
  | .advance t => (s.threads t).all fun th =>
      match th.pc with
      | .processMsg .. => th.pm.msg.type ≠ .msgClose
      | .facMsgPrc _ => s.mgr.facList.all fun fac => fac.fsmList.all fun fsm =>
          fsm.state ≠ .killFsm
      | _ => true
  | _ => true

theorem closesAlone_of_closesNothing {s : DispatchState FsmKind} {l : DispatchLabel FsmKind}
    (h : closesNothing s l = true) : closesAlone s l := by
  cases l with
  | advance t =>
      rintro ⟨pm, pc⟩ ht
      simp only [closesNothing, ht, Option.all_some] at h
      cases pc with
      | processMsg f i => exact fun _ _ _ _ hclose => absurd hclose (by simpa using h)
      | facMsgPrc f =>
          intro fac fsm hfac hr
          have hmem := (Cfactory.mem_of_route hr).1
          simp only [ne_eq, decide_not, List.all_eq_true, Bool.not_eq_eq_eq_not, Bool.not_true,
            decide_eq_false_iff_not] at h
          exact h fac (CfactoryMgr.mem_of_findFactory hfac) fsm hmem
      | _ => trivial
  | _ => trivial

/-- Two dispatchers, one of which closes the instance while the other waits with its next
message. -/
theorem no_use_after_removal_two_dispatchers : ∃ s : DispatchState FsmKind,
    (dispatchSystem .new).ReachableVia closesAlone s ∧
      completedIn facRegFacId s.events = [0] ∧
      (∀ before after, s.events = before ++ after → ∀ facId inst, .removed facId inst ∈ before →
        ∀ call, .called facId inst call ∉ after) ∧
      ∀ facId, (completedIn facId s.events).Nodup := by
  -- thread 1 comes to `ProcessMsg` with `MSG_CLOSE`, closes, and thread 0 goes on
  obtain ⟨s₁, s₂, s, hs₁, hzero, hone, hrest, hclose, hs, hc⟩ : ∃ s₁ s₂ s : DispatchState FsmKind,
      (dispatchSystem .new).exec closesNothing (.resting .new [])
        [.registerFactory (some (facRegFacId, .reg)),
          .env (.sendMsg 0 { serviceId := facRegFacId }), .pop 0, .advance 0, .advance 0,
          .advance 0, .advance 0, .advance 0, .advance 0, .advance 0,
          .env (.sendMsg 0 { type := .msgClose, serviceId := facRegFacId, fsmId := 1 }),
          .pop 0, .advance 0, .advance 0, .advance 0, .advance 0, .advance 0, .advance 0,
          .pop 1, .pop 0, .advance 1, .advance 1, .advance 1] = some s₁ ∧
        (s₁.threads 0).map DispatchThread.pc = some .dispatchMsg ∧
        (s₁.threads 1).map DispatchThread.pc = some (.processMsg facRegFacId 0) ∧
        (∀ u, s₁.threads (u + 2) = none) ∧ s₁.step (.advance 1) = some s₂ ∧
        (dispatchSystem .new).exec closesNothing s₂
          [.advance 1, .advance 1, .advance 1, .advance 1, .advance 0, .advance 0] = some s ∧
        completedIn facRegFacId s.events = [0] :=
    ⟨_, _, _, rfl, rfl, rfl, fun _ => rfl, rfl, rfl, by decide⟩
  have halone : ∀ facId inst, SoleHolder s₁ 1 facId inst := by
    intro facId inst u th hu htarget
    rcases u with _ | _ | u
    · have hpc : th.pc = .dispatchMsg := by simpa [hu] using hzero
      simp [hpc, DispatchPc.target] at htarget
    · rfl
    · simp [hrest u] at hu
  have hguard : closesAlone s₁ (.advance 1) := by
    rintro ⟨pm, pc⟩ ht
    obtain rfl : pc = .processMsg facRegFacId 0 := by simpa [ht] using hone
    exact fun _ _ _ _ _ => halone _ _
  have hr : (dispatchSystem .new).ReachableVia closesAlone s := by
    have hrun₁ := Lts.runVia_of_exec (fun _ _ => closesAlone_of_closesNothing) hs₁
    have hrun₂ := Lts.runVia_of_exec (fun _ _ => closesAlone_of_closesNothing) hs
    exact ⟨_, rfl, (hrun₁.tail hguard hclose).trans hrun₂⟩
  exact ⟨s, hr, hc, no_use_after_removal hr⟩

/-! ## Two holders -/

/-- A client closes an instance while its own `MSG_CONNECT` is dispatched: thread 0 holds the
instance for `MSG_CONNECT`, and thread 1, which has taken the `MSG_CLOSE`, is in `DispatchMsg`. -/
def twoHolders : List (DispatchLabel FsmKind) :=
  [.registerFactory (some (facRegFacId, .reg)), .env (.sendMsg 0 { serviceId := facRegFacId }),
    .pop 0, .advance 0, .advance 0, .advance 0, .advance 0, .advance 0, .advance 0, .advance 0,
    .env (.sendMsg 0 { type := .msgClose, serviceId := facRegFacId, fsmId := 1 }),
    .pop 0, .pop 1, .advance 0, .advance 0]

/-- **Two holders.** One schedule reports the completion of one instance twice. In another
thread 0 calls the instance that thread 1 has removed. -/
theorem two_holders :
    (∃ s : DispatchState FsmKind, (dispatchSystem .new).Reachable s ∧
      completedIn facRegFacId s.events = [0, 0]) ∧
    ∃ s : DispatchState FsmKind, (dispatchSystem .new).Reachable s ∧
      ∃ before after, s.events = before ++ after ∧ .removed facRegFacId 0 ∈ before ∧
        .called facRegFacId 0 .processMsg ∈ after := by
  constructor
  · obtain ⟨s, hs, hc⟩ : ∃ s : DispatchState FsmKind,
        (dispatchSystem .new).exec (fun _ _ => true) (.resting .new []) (twoHolders ++
          [.advance 1, .advance 1, .advance 1, .advance 1, .advance 0, .advance 0, .advance 0,
            .advance 0, .advance 0, .advance 1, .advance 1, .advance 1]) = some s ∧
          completedIn facRegFacId s.events = [0, 0] := ⟨_, rfl, by decide⟩
    exact ⟨s, ⟨_, rfl, Lts.runVia_of_exec (fun _ _ _ => trivial) hs⟩, hc⟩
  · obtain ⟨s, hs, hc⟩ : ∃ s : DispatchState FsmKind,
        (dispatchSystem .new).exec (fun _ _ => true) (.resting .new []) (twoHolders ++
          [.advance 0, .advance 1, .advance 1, .advance 1, .advance 1, .advance 1, .advance 1,
            .advance 1, .advance 1, .advance 0]) = some s ∧
          ∃ before after, s.events = before ++ after ∧ .removed facRegFacId 0 ∈ before ∧
            .called facRegFacId 0 .processMsg ∈ after := by
      refine ⟨_, rfl, _, _, (List.take_append_drop 16 _).symm, by decide, by decide⟩
    exact ⟨s, ⟨_, rfl, Lts.runVia_of_exec (fun _ _ _ => trivial) hs⟩, hc⟩

end FsmFramework
