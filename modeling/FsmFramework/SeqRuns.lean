import FsmFramework.FsmStore
import FsmFramework.SeqSystem
import FsmFramework.SeqDispatch

/-!
# Runs of the two business factories

The sequential system of `CfactoryMgr.boot`: between dispatches every instance is
`WORKING`, so the cases of `Dispatched` are all that happens, and an invariant is a
statement about them (`seq_invariant`).
-/

namespace FsmFramework

variable {E : EnvLabel → Prop} {a a' : SeqState FsmKind} {m : CfactoryMgr FsmKind}
  {pm : PumpMsg} {r : DispatchResult FsmKind}

/-- An instance after a creation is the new one, now `WORKING`, or was there before. -/
theorem mem_created {fac fac' : Cfactory FsmKind} {fsm x : Cfsm}
    (hadd : fac.addFsm = some (fsm, fac'))
    (hx : x ∈ (fac'.setState fsm.inst .working).fsmList) :
    x ∈ fac.fsmList ∨ x = { fsm with state := .working } := by
  obtain ⟨-, -, -, -, -, hlist⟩ := Cfactory.addFsm_some hadd
  rcases Cfactory.mem_setState.mp hx with ⟨hx, hne⟩ | ⟨z, hz, hinst, rfl⟩
  · rw [hlist] at hx
    rcases List.mem_append.mp hx with hx | hx
    · exact .inl hx
    · exact absurd (congrArg Cfsm.inst (List.mem_singleton.mp hx)) hne
  · refine .inr ?_
    have hfsm : fsm ∈ fac'.fsmList := by simp [hlist]
    rw [Cfactory.eq_of_inst_eq hz hfsm hinst]

/-- The instances after a removal were there before. -/
theorem mem_killFsm {fac : Cfactory FsmKind} {fsmId : UInt32} {fsm x : Cfsm}
    (hfind : fac.findFsm fsmId = some fsm) :
    x ∈ (fac.killFsm fsmId).2.fsmList ↔ x ∈ fac.fsmList ∧ x.inst ≠ fsm.inst := by
  obtain ⟨-, -, -, -, -, hlist⟩ := Cfactory.killFsm_of_some hfind
  simp [hlist]

section Listed

variable {fac fac' f : Cfactory FsmKind} {fsm x : Cfsm}

/-- A creation leaves every instance with the factory of its id. -/
theorem listed_of_addFsm (hfac : fac ∈ m.facList) (hadd : fac.addFsm = some (fsm, fac'))
    (hf : f ∈ m.facList) (hx : x ∈ f.fsmList) :
    ∃ g ∈ (m.setFactory (fac'.setState fsm.inst .working)).facList,
      g.facId = f.facId ∧ x ∈ g.fsmList := by
  obtain ⟨hnew, hid, -, -, -, hlist⟩ := Cfactory.addFsm_some hadd
  by_cases hfe : f.facId = fac.facId
  · obtain rfl : f = fac := CfactoryMgr.eq_of_facId_eq hf hfac hfe
    have hlt := f.inst_lt x hx
    have hne : x.inst ≠ fsm.inst := by
      simp only [hnew]
      omega
    exact ⟨_, CfactoryMgr.mem_setFactory.mpr (.inr ⟨rfl, f, hf, hid.symm⟩), hid,
      Cfactory.mem_setState.mpr (.inl ⟨by simp [hlist, hx], hne⟩)⟩
  · exact ⟨f, CfactoryMgr.mem_setFactory.mpr (.inl ⟨hf, by simpa [hid] using hfe⟩), rfl, hx⟩

/-- The new instance is with its factory. -/
theorem created_listed (hfac : fac ∈ m.facList) (hadd : fac.addFsm = some (fsm, fac')) :
    ∃ g ∈ (m.setFactory (fac'.setState fsm.inst .working)).facList,
      g.facId = fac.facId ∧ { fsm with state := .working } ∈ g.fsmList := by
  obtain ⟨-, hid, -, -, -, hlist⟩ := Cfactory.addFsm_some hadd
  exact ⟨_, CfactoryMgr.mem_setFactory.mpr (.inr ⟨rfl, fac, hfac, hid.symm⟩), hid,
    Cfactory.mem_setState.mpr (.inr ⟨fsm, by simp [hlist], rfl, rfl⟩)⟩

/-- A removal leaves every other instance with the factory of its id. -/
theorem listed_of_killFsm {fsmId : UInt32} (hfac : fac ∈ m.facList)
    (hfind : fac.findFsm fsmId = some fsm) (hf : f ∈ m.facList) (hx : x ∈ f.fsmList)
    (hne : ¬ (f.facId = fac.facId ∧ x.inst = fsm.inst)) :
    ∃ g ∈ (m.setFactory (fac.killFsm fsmId).2).facList, g.facId = f.facId ∧ x ∈ g.fsmList := by
  by_cases hfe : f.facId = fac.facId
  · obtain rfl : f = fac := CfactoryMgr.eq_of_facId_eq hf hfac hfe
    exact ⟨_, CfactoryMgr.mem_setFactory.mpr (.inr ⟨rfl, f, hf, Cfactory.killFsm_facId.symm⟩),
      Cfactory.killFsm_facId, (mem_killFsm hfind).mpr ⟨hx, fun hinst => hne ⟨rfl, hinst⟩⟩⟩
  · exact ⟨f, CfactoryMgr.mem_setFactory.mpr (.inl ⟨hf, by simpa using hfe⟩), rfl, hx⟩

end Listed

theorem allWorking_dispatched (hw : AllWorking m) (hd : Dispatched m pm r) :
    AllWorking r.mgr := by
  cases hd with
  | rejected | ignored | wentOn => exact hw
  | created hfac _ _ hadd =>
      intro f hf x hx
      rcases CfactoryMgr.mem_setFactory.mp hf with ⟨hf, -⟩ | ⟨rfl, -⟩
      · exact hw f hf x hx
      · rcases mem_created hadd hx with hx | rfl
        · exact hw _ (CfactoryMgr.mem_of_findFactory hfac) x hx
        · rfl
  | closed hfac hroute =>
      intro f hf x hx
      rcases CfactoryMgr.mem_setFactory.mp hf with ⟨hf, -⟩ | ⟨rfl, -⟩
      · exact hw f hf x hx
      · exact hw _ (CfactoryMgr.mem_of_findFactory hfac) x
          ((mem_killFsm (Cfactory.findFsm_self_of_route hroute)).mp hx).1

/-- Between dispatches every instance is `WORKING`. -/
theorem allWorking_of_reachable (h : (seqSystem .boot).ReachableVia (admits E) a) :
    AllWorking a.mgr := by
  refine h.invariant (I := fun a => AllWorking a.mgr) ?init ?step
  case init =>
    rintro a rfl fac hfac
    simp [(CfactoryMgr.fresh_boot fac hfac).1]
  case step =>
    intro a l a' hw _ hs
    cases l with
    | env l =>
        obtain ⟨p, -, rfl⟩ := SeqState.step_env_iff.mp hs
        exact hw
    | dispatch =>
        obtain ⟨pm, p, -, rfl⟩ := SeqState.step_dispatch_iff.mp hs
        exact allWorking_dispatched (m := a.mgr.withPorts p) hw
          (dispatched_dispatchMsg (m := a.mgr.withPorts p) hw pm)

/-- **The run rule.** An invariant that holds of the booted manager, that the surroundings
keep and that every case of a dispatch keeps. `B` is a bound on the run: it holds before a
step whenever it holds after it. -/
theorem seq_invariant {I B : SeqState FsmKind → Prop} (hinit : I ⟨.boot, []⟩)
    (hback : ∀ (a : SeqState FsmKind) l a', a.step l = some a' → B a' → B a)
    (henv : ∀ (a : SeqState FsmKind) l p, B a → I a → E l → a.mgr.env l = some p →
      I { a with mgr := a.mgr.withPorts p })
    (hdispatch : ∀ (a : SeqState FsmKind) pm p r, (seqSystem .boot).ReachableVia (admits E) a →
      B a → I a → a.mgr.toMsgPorts = p.unpop pm →
      Dispatched (a.mgr.withPorts p) pm r → I ⟨r.mgr, a.events ++ r.events⟩)
    (h : (seqSystem .boot).ReachableVia (admits E) a) (hB : B a) : I a := by
  refine h.invariant_below ?init hback ?step hB
  case init =>
    rintro a rfl
    exact hinit
  case step =>
    intro a l a' hreach hB' hI hg hs
    have hB := hback a l a' hs hB'
    cases l with
    | env l =>
        obtain ⟨p, hp, rfl⟩ := SeqState.step_env_iff.mp hs
        exact henv a l p hB hI hg hp
    | dispatch =>
        obtain ⟨pm, p, hports, rfl⟩ := SeqState.step_dispatch_iff.mp hs
        have hw := allWorking_of_reachable hreach
        exact hdispatch a pm p _ hreach hB hI hports
          (dispatched_dispatchMsg (m := a.mgr.withPorts p) hw pm)

/-- Ids that are left after a step were left before it. -/
theorem idsLeft_back {l : SeqLabel} (hs : a.step l = some a') (h : a'.mgr.IdsLeft) :
    a.mgr.IdsLeft :=
  idsLeft_of_run (resting_run (m := .boot) (E := fun _ => True) (by cases l <;> trivial) hs) h

/-- A concrete sequential schedule, as a serial run of the machine. -/
theorem resting_of_exec [DecidablePred E] {labels : List SeqLabel}
    (h : (seqSystem .boot).exec (fun a l => decide (admits E a l)) ⟨.boot, []⟩ labels = some a) :
    (dispatchSystem .boot).ReachableVia (serial E) (.resting a.mgr a.events) :=
  resting_reachable ⟨_, rfl, Lts.runVia_of_exec (fun _ _ => of_decide_eq_true) h⟩

end FsmFramework
