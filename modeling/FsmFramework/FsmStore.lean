import FsmFramework.DispatchSystem

/-!
# The registry and the instance stores over whole runs

What an atomic step does to one factory is one of four things, `Cfactory.Change`: nothing,
a creation, a state change, a removal. From it follows, for any number of threads and
registrations, that the creations of a factory are numbered without gaps, so that ids are
unique as long as the generator has not wrapped.
-/

namespace FsmFramework

/-! ## What the events say about one factory -/

/-- The instances a factory has created, in order, each with its id. -/
def createdIn (facId : UInt32) (events : List Event) : List (ℕ × UInt32) :=
  events.filterMap fun
    | .created f inst fsmId _ => if f = facId then some (inst, fsmId) else none
    | _ => none

/-- The instances a factory has removed, in order. -/
def removedIn (facId : UInt32) (events : List Event) : List ℕ :=
  events.filterMap fun
    | .removed f inst => if f = facId then some inst else none
    | _ => none

@[simp] theorem createdIn_nil (facId : UInt32) : createdIn facId [] = [] := rfl
@[simp] theorem removedIn_nil (facId : UInt32) : removedIn facId [] = [] := rfl

@[simp] theorem createdIn_append (facId : UInt32) (l l' : List Event) :
    createdIn facId (l ++ l') = createdIn facId l ++ createdIn facId l' :=
  List.filterMap_append

@[simp] theorem removedIn_append (facId : UInt32) (l l' : List Event) :
    removedIn facId (l ++ l') = removedIn facId l ++ removedIn facId l' :=
  List.filterMap_append

theorem mem_createdIn {facId fsmId : UInt32} {inst : ℕ} {events : List Event} :
    (inst, fsmId) ∈ createdIn facId events ↔
      ∃ pm, Event.created facId inst fsmId pm ∈ events := by
  simp only [createdIn, List.mem_filterMap]
  constructor
  · rintro ⟨e, he, h⟩
    cases e <;> simp only [Option.ite_none_right_eq_some, Option.some.injEq, Prod.mk.injEq,
      reduceCtorEq] at h
    obtain ⟨rfl, rfl, rfl⟩ := h
    exact ⟨_, he⟩
  · rintro ⟨pm, he⟩
    exact ⟨_, he, by simp⟩

theorem mem_removedIn {facId : UInt32} {inst : ℕ} {events : List Event} :
    inst ∈ removedIn facId events ↔ Event.removed facId inst ∈ events := by
  simp only [removedIn, List.mem_filterMap]
  constructor
  · rintro ⟨e, he, h⟩
    cases e <;> simp only [Option.ite_none_right_eq_some, Option.some.injEq, reduceCtorEq] at h
    obtain ⟨rfl, rfl⟩ := h
    exact he
  · intro he
    exact ⟨_, he, by simp⟩

/-! ## One step and one factory -/

variable {K : Type*}

/-- What a step does to the factory with id `facId`, with the events of the step. -/
inductive Cfactory.Change (facId : UInt32) (f : Cfactory K) : Cfactory K → List Event → Prop
  | same {ev : List Event} (hc : createdIn facId ev = []) (hr : removedIn facId ev = []) :
      Change facId f f ev
  | added {f' : Cfactory K} {fsm : Cfsm} {pm : PumpMsg} (ha : f.addFsm = some (fsm, f')) :
      Change facId f f' [.created facId fsm.inst fsm.fsmId pm]
  | entered {ev : List Event} (inst : ℕ) (state : Tstate) (hc : createdIn facId ev = [])
      (hr : removedIn facId ev = []) : Change facId f (f.setState inst state) ev
  | removed {ev : List Event} {fsmId : UInt32} {fsm : Cfsm} (hf : f.findFsm fsmId = some fsm)
      (hc : createdIn facId ev = []) (hr : removedIn facId ev = [fsm.inst]) :
      Change facId f (f.killFsm fsmId).2 ev

namespace Cfactory.Change

variable {facId : UInt32} {f f' : Cfactory K} {ev : List Event}

/-- The creations a step reports are those it counts. -/
theorem created (h : Change facId f f' ev) : f.created ≤ f'.created ∧
    createdIn facId ev =
      (List.range' f.created (f'.created - f.created)).map fun i => (i, fsmIdOf i) := by
  cases h with
  | same hc | entered _ _ hc => simp [hc]
  | removed _ hc => simp [hc]
  | added ha =>
      obtain ⟨rfl, -, -, -, hcre, -⟩ := addFsm_some ha
      simp [hcre, createdIn, f.nextFsmId_eq]

/-- The instances in the list and those that were removed are together those created. -/
theorem balance {removed : List ℕ} (h : Change facId f f' ev)
    (hb : (f.fsmList.map Cfsm.inst ++ removed).Perm (List.range f.created)) :
    (f'.fsmList.map Cfsm.inst ++ (removed ++ removedIn facId ev)).Perm
      (List.range f'.created) := by
  cases h with
  | same _ hr => simpa [hr] using hb
  | entered inst state _ hr => simpa [hr, setState_insts] using hb
  | added ha =>
      obtain ⟨rfl, -, -, -, hcre, hlist⟩ := addFsm_some ha
      have hperm := (hb.append_right [f.created])
      rw [hcre, List.range_succ, hlist, List.map_append, removedIn]
      simp only [List.map_cons, List.map_nil, List.filterMap_cons, List.filterMap_nil,
        List.append_nil, List.append_assoc] at hperm ⊢
      exact (List.Perm.append_left _ List.perm_append_comm).trans hperm
  | @removed _ fsmId fsm hf _ hr =>
      obtain ⟨-, -, -, -, hcre, hlist⟩ := killFsm_of_some hf
      have hmem := List.mem_map_of_mem (f := Cfsm.inst) (mem_of_findFsm hf).1
      have herase : ((f.fsmList.filter fun x => x.inst ≠ fsm.inst).map Cfsm.inst) =
          (f.fsmList.map Cfsm.inst).erase fsm.inst := by
        rw [f.inst_nodup.erase_eq_filter, List.filter_map]
        exact congrArg _ (List.filter_congr fun x _ => by simp [bne, beq_eq_decide])
      rw [hcre, hlist, hr, herase, ← List.append_assoc]
      refine List.perm_append_comm.trans ?_
      exact ((List.perm_cons_erase hmem).symm.append_right removed).trans hb

end Cfactory.Change

/-! ## One step of a thread and one factory -/

section Step

variable [BusinessFsm K] {m m' : CfactoryMgr K} {pm : PumpMsg} {pc : DispatchPc}
  {next : Option DispatchThread} {ev : List Event} {facId : UInt32}

/-- What a dispatching thread does to one factory. -/
theorem Advance.change {f : Cfactory K} (h : Advance m pm pc next m' ev)
    (hf : m.findFactory facId = some f) :
    ∃ f', m'.findFactory facId = some f' ∧ f.Change facId f' ev := by
  -- the step writes to the factory with id `g`, or to no factory at all
  have hother : ∀ {g : UInt32} {fac : Cfactory K}, fac.facId = g → g ≠ facId →
      (m.setFactory fac).findFactory facId = some f := by
    rintro g fac rfl hne
    rwa [CfactoryMgr.findFactory_setFactory_of_ne hne]
  cases h with
  | @added g fac fac' fsm h ha =>
      have hid := (Cfactory.addFsm_some ha).2.1.trans (CfactoryMgr.findFactory_facId h)
      by_cases hg : g = facId
      · subst hg
        obtain rfl : fac = f := Option.some.inj (h.symm.trans hf)
        exact ⟨fac', CfactoryMgr.findFactory_setFactory h hid, .added ha⟩
      · exact ⟨f, hother hid hg, .same (by simp [createdIn, hg]) rfl⟩
  | @processMsg g inst fac fsm h =>
      obtain ⟨hfac, -⟩ := CfactoryMgr.deref_eq_some_iff.mp h
      have hid := CfactoryMgr.findFactory_facId hfac
      by_cases hg : g = facId
      · subst hg
        obtain rfl : fac = f := Option.some.inj (hfac.symm.trans hf)
        exact ⟨_, CfactoryMgr.findFactory_setFactory hfac hid, .entered _ _ rfl rfl⟩
      · exact ⟨f, hother hid hg, .same rfl rfl⟩
  | @killFsm g fsmId inst ret fac h =>
      have hid := CfactoryMgr.findFactory_facId h
      cases hfsm : fac.findFsm fsmId with
      | none =>
          refine ⟨f, ?_, .same (by simp [CfactoryMgr.killFsm, hfsm, createdIn])
            (by simp [CfactoryMgr.killFsm, hfsm, removedIn])⟩
          rw [CfactoryMgr.killFsm, Cfactory.killFsm_of_none hfsm,
            CfactoryMgr.setFactory_self (CfactoryMgr.mem_of_findFactory h), hf]
      | some fsm =>
          by_cases hg : g = facId
          · subst hg
            obtain rfl : fac = f := Option.some.inj (h.symm.trans hf)
            exact ⟨_, CfactoryMgr.findFactory_setFactory h (Cfactory.killFsm_facId.trans hid),
              .removed hfsm (by simp [CfactoryMgr.killFsm, hfsm, createdIn])
                (by simp [CfactoryMgr.killFsm, hfsm, removedIn, hid])⟩
          · exact ⟨f, hother (Cfactory.killFsm_facId.trans hid) hg,
              .same (by simp [CfactoryMgr.killFsm, hfsm, createdIn])
                (by simp [CfactoryMgr.killFsm, hfsm, removedIn, hid, hg])⟩
  | _ => exact ⟨f, hf, .same rfl rfl⟩

/-- A dispatching thread registers no factory, and says nothing of one that is not registered. -/
theorem Advance.findFactory_none (h : Advance m pm pc next m' ev)
    (hf : m.findFactory facId = none) :
    m'.findFactory facId = none ∧ createdIn facId ev = [] ∧ removedIn facId ev = [] := by
  have hne : ∀ {g : UInt32} {fac : Cfactory K}, m.findFactory g = some fac → g ≠ facId := by
    rintro g fac h rfl
    simp [hf] at h
  cases h with
  | added h ha =>
      exact ⟨CfactoryMgr.findFactory_setFactory_none hf, by simp [createdIn, hne h], rfl⟩
  | processMsg h => exact ⟨CfactoryMgr.findFactory_setFactory_none hf, rfl, rfl⟩
  | @killFsm g fsmId inst ret fac h =>
      refine ⟨CfactoryMgr.findFactory_setFactory_none hf, ?_, ?_⟩ <;>
        cases hfsm : fac.findFsm fsmId <;>
        simp [CfactoryMgr.killFsm, hfsm, createdIn, removedIn,
          CfactoryMgr.findFactory_facId h, hne h]
  | _ => exact ⟨hf, rfl, rfl⟩

end Step

/-! ## Creations are numbered without gaps -/

/-- The instances a factory has created, zero for one that is not registered. -/
def CfactoryMgr.createdCount (m : CfactoryMgr K) (facId : UInt32) : ℕ :=
  ((m.findFactory facId).map Cfactory.created).getD 0

/-- Every factory has ids left. -/
def CfactoryMgr.IdsLeft (m : CfactoryMgr K) : Prop := ∀ fac ∈ m.facList, fac.created < 2 ^ 32 - 1

theorem CfactoryMgr.IdsLeft.createdCount_lt {m : CfactoryMgr K} (h : m.IdsLeft) (facId : UInt32) :
    m.createdCount facId < 2 ^ 32 - 1 := by
  cases hf : m.findFactory facId with
  | none => simp [CfactoryMgr.createdCount, hf]
  | some fac =>
      simpa [CfactoryMgr.createdCount, hf] using
        h fac (CfactoryMgr.mem_of_findFactory hf)

theorem CfactoryMgr.createdCount_of_mem {m : CfactoryMgr K} {fac : Cfactory K}
    (h : fac ∈ m.facList) : m.createdCount fac.facId = fac.created := by
  simp [createdCount, findFactory_of_mem h]

/-- The instances in a factory's list, none for one that is not registered. -/
def CfactoryMgr.liveInsts (m : CfactoryMgr K) (facId : UInt32) : List ℕ :=
  ((m.findFactory facId).map fun f => f.fsmList.map Cfsm.inst).getD []

/-- No factory has created an instance yet. -/
def CfactoryMgr.Fresh (m : CfactoryMgr K) : Prop :=
  ∀ fac ∈ m.facList, fac.fsmList = [] ∧ fac.created = 0

theorem CfactoryMgr.fresh_new : (CfactoryMgr.new : CfactoryMgr K).Fresh := by
  simp [Fresh, CfactoryMgr.new]

theorem CfactoryMgr.fresh_boot : CfactoryMgr.boot.Fresh := by
  simp [Fresh, CfactoryMgr.boot_eq.1, Cfactory.new]

/-- The creation events of each factory are those its counters say. -/
def CreatedInv (s : DispatchState K) : Prop :=
  ∀ facId, createdIn facId s.events =
    (List.range (s.mgr.createdCount facId)).map fun i => (i, fsmIdOf i)

/-- The instances of each factory that are in its list or were removed are those it created. -/
def Balanced (s : DispatchState K) : Prop :=
  ∀ facId, (s.mgr.liveInsts facId ++ removedIn facId s.events).Perm
    (List.range (s.mgr.createdCount facId))

variable {s : DispatchState K}

/-- An instance that a pointer reaches was not removed. -/
theorem not_removed_of_deref {facId : UInt32} {inst : ℕ} {fac : Cfactory K} {fsm : Cfsm}
    (hbal : Balanced s) (hd : s.mgr.deref facId inst = some (fac, fsm)) :
    inst ∉ removedIn facId s.events := by
  obtain ⟨hfac, hfsm⟩ := CfactoryMgr.deref_eq_some_iff.mp hd
  obtain ⟨hmem, rfl⟩ := Cfactory.mem_of_deref hfsm
  have hnodup := (hbal facId).nodup_iff.mpr List.nodup_range
  have hlive : fsm.inst ∈ s.mgr.liveInsts facId := by
    simpa [CfactoryMgr.liveInsts, hfac] using List.mem_map_of_mem (f := Cfsm.inst) hmem
  exact fun hrem => (List.nodup_append.mp hnodup).2.2 _ hlive _ hrem rfl

/-- An id that was handed out belongs to one instance, while the generator has not wrapped. -/
theorem CreatedInv.inst_unique {facId : UInt32} (hinv : CreatedInv s)
    (hb : s.mgr.createdCount facId < 2 ^ 32) {i j : ℕ} {fsmId : UInt32}
    (hi : (i, fsmId) ∈ createdIn facId s.events) (hj : (j, fsmId) ∈ createdIn facId s.events) :
    i = j := by
  rw [hinv facId] at hi hj
  simp only [List.mem_map, List.mem_range, Prod.mk.injEq] at hi hj
  obtain ⟨i, hi, rfl, rfl⟩ := hi
  obtain ⟨j, hj, rfl, heq⟩ := hj
  have := (fsmIdOf_eq_iff j i).mp heq
  rw [Nat.mod_eq_of_lt, Nat.mod_eq_of_lt] at this <;> omega

/-- A live instance was created with the id it has. -/
theorem CreatedInv.mem_of_live (hinv : CreatedInv s) {fac : Cfactory K}
    (hfac : fac ∈ s.mgr.facList) {fsm : Cfsm} (hfsm : fsm ∈ fac.fsmList) :
    (fsm.inst, fsm.fsmId) ∈ createdIn fac.facId s.events := by
  rw [hinv fac.facId, fac.fsmId_eq fsm hfsm]
  refine List.mem_map.mpr ⟨fsm.inst, List.mem_range.mpr ?_, rfl⟩
  rw [CfactoryMgr.createdCount, CfactoryMgr.findFactory_of_mem hfac]
  exact fac.inst_lt fsm hfsm

/-! ## The registry -/

/-- Which factory stands where. -/
def CfactoryMgr.registry (m : CfactoryMgr K) : List (UInt32 × K) :=
  m.facList.map fun f => (f.facId, f.kind)

theorem CfactoryMgr.registry_setFactory {m : CfactoryMgr K} {fac fac' : Cfactory K}
    (h : fac ∈ m.facList) (hid : fac'.facId = fac.facId) (hkind : fac'.kind = fac.kind) :
    (m.setFactory fac').registry = m.registry := by
  apply KeyedList.map_modify
  intro x hx hk
  obtain rfl : x = fac := CfactoryMgr.eq_of_facId_eq hx h (hk.trans hid)
  rw [hid, hkind]

theorem CfactoryMgr.registry_registerFactory (m : CfactoryMgr K) (factory : Option (Cfactory K)) :
    m.registry <+: (m.registerFactory factory).2.registry := by
  by_cases hok : (m.registerFactory factory).1 = .success
  · obtain ⟨fac, -, -, hlist⟩ := m.registerFactory_success hok
    exact ⟨[(fac.facId, fac.kind)], by simp [registry, hlist]⟩
  · rw [registerFactory_of_ne_success hok]

section Runs

variable [BusinessFsm K] {s' : DispatchState K} {l : DispatchLabel K} {facId : UInt32}

/-- A dispatching thread leaves the registry alone. -/
theorem Advance.registry {m m' : CfactoryMgr K} {pm : PumpMsg} {pc : DispatchPc}
    {next : Option DispatchThread} {ev : List Event} (h : Advance m pm pc next m' ev) :
    m'.registry = m.registry := by
  cases h with
  | added h ha =>
      obtain ⟨-, hid, hkind, -⟩ := Cfactory.addFsm_some ha
      exact CfactoryMgr.registry_setFactory (CfactoryMgr.mem_of_findFactory h) hid hkind
  | processMsg h =>
      obtain ⟨hfac, -⟩ := CfactoryMgr.deref_eq_some_iff.mp h
      exact CfactoryMgr.registry_setFactory (CfactoryMgr.mem_of_findFactory hfac) rfl rfl
  | killFsm h =>
      exact CfactoryMgr.registry_setFactory (CfactoryMgr.mem_of_findFactory h)
        Cfactory.killFsm_facId Cfactory.killFsm_kind
  | _ => rfl

/-- A dispatching thread only counts up. -/
theorem Advance.createdCount_le {m m' : CfactoryMgr K} {pm : PumpMsg} {pc : DispatchPc}
    {next : Option DispatchThread} {ev : List Event} (h : Advance m pm pc next m' ev)
    (facId : UInt32) : m.createdCount facId ≤ m'.createdCount facId := by
  cases hf : m.findFactory facId with
  | none => simp [CfactoryMgr.createdCount, hf]
  | some f =>
      obtain ⟨f', hf', hch⟩ := h.change hf
      simpa [CfactoryMgr.createdCount, hf, hf'] using hch.created.1

namespace DispatchState

/-- What an atomic step does to a registered factory. -/
theorem step_change {f : Cfactory K} (h : s.step l = some s')
    (hf : s.mgr.findFactory facId = some f) :
    ∃ f' ev, s'.mgr.findFactory facId = some f' ∧ s'.events = s.events ++ ev ∧
      f.Change facId f' ev := by
  cases l with
  | env l =>
      obtain ⟨p, -, rfl⟩ := step_env_iff.mp h
      exact ⟨f, [], hf, by simp, .same rfl rfl⟩
  | registerFactory factory =>
      obtain rfl := step_registerFactory_iff.mp h
      refine ⟨f, [], ?_, by simp, .same rfl rfl⟩
      rcases CfactoryMgr.findFactory_registerFactory with heq | ⟨hnone, -⟩
      · exact heq.trans hf
      · simp [hf] at hnone
  | pop t =>
      obtain ⟨-, pm, p, -, rfl⟩ := step_pop_iff.mp h
      exact ⟨f, [], hf, by simp, .same rfl rfl⟩
  | advance t =>
      obtain ⟨th, next, m', ev, -, hadv, rfl⟩ := step_advance_iff.mp h
      obtain ⟨f', hf', hch⟩ := hadv.change hf
      exact ⟨f', ev, hf', rfl, hch⟩

/-- A step can register a factory, which is then new. -/
theorem step_findFactory_none (h : s.step l = some s') (hf : s.mgr.findFactory facId = none) :
    ∃ ev, s'.events = s.events ++ ev ∧ createdIn facId ev = [] ∧ removedIn facId ev = [] ∧
      (s'.mgr.findFactory facId = none ∨
        ∃ kind, s'.mgr.findFactory facId = some (Cfactory.new facId kind)) := by
  cases l with
  | env l =>
      obtain ⟨p, -, rfl⟩ := step_env_iff.mp h
      exact ⟨[], by simp, rfl, rfl, .inl hf⟩
  | registerFactory factory =>
      obtain rfl := step_registerFactory_iff.mp h
      refine ⟨[], by simp, rfl, rfl, ?_⟩
      rcases CfactoryMgr.findFactory_registerFactory with heq | ⟨-, fac, hnew, hid, heq⟩
      · exact .inl (heq.trans hf)
      · obtain ⟨⟨g, kind⟩, -, rfl⟩ := Option.map_eq_some_iff.mp hnew
        obtain rfl : g = facId := hid
        exact .inr ⟨kind, heq⟩
  | pop t =>
      obtain ⟨-, pm, p, -, rfl⟩ := step_pop_iff.mp h
      exact ⟨[], by simp, rfl, rfl, .inl hf⟩
  | advance t =>
      obtain ⟨th, next, m', ev, -, hadv, rfl⟩ := step_advance_iff.mp h
      obtain ⟨hnone, hc, hr⟩ := hadv.findFactory_none hf
      exact ⟨ev, rfl, hc, hr, .inl hnone⟩

theorem step_registry (h : s.step l = some s') : s.mgr.registry <+: s'.mgr.registry := by
  cases l with
  | env l =>
      obtain ⟨p, -, rfl⟩ := step_env_iff.mp h
      exact List.prefix_rfl
  | registerFactory factory =>
      obtain rfl := step_registerFactory_iff.mp h
      exact CfactoryMgr.registry_registerFactory _ _
  | pop t =>
      obtain ⟨-, pm, p, -, rfl⟩ := step_pop_iff.mp h
      exact List.prefix_rfl
  | advance t =>
      obtain ⟨th, next, m', ev, -, hadv, rfl⟩ := step_advance_iff.mp h
      exact hadv.registry ▸ List.prefix_rfl

end DispatchState

theorem createdInv_step (h : s.step l = some s') (hinv : CreatedInv s) : CreatedInv s' := by
  intro facId
  have hold := hinv facId
  cases hf : s.mgr.findFactory facId with
  | some f =>
      obtain ⟨f', ev, hf', hev, hch⟩ := DispatchState.step_change h hf
      obtain ⟨hle, hc⟩ := hch.created
      simp only [CfactoryMgr.createdCount, hf, hf', Option.map_some, Option.getD_some] at hold ⊢
      have hsplit := List.range'_append_1 (s := 0) (m := f.created)
        (n := f'.created - f.created)
      rw [Nat.zero_add, Nat.add_sub_cancel' hle] at hsplit
      rw [hev, createdIn_append, hold, hc, ← List.map_append, List.range_eq_range',
        List.range_eq_range', hsplit]
  | none =>
      obtain ⟨ev, hev, hc, -, hf'⟩ := DispatchState.step_findFactory_none h hf
      rw [hev, createdIn_append, hc, hold]
      rcases hf' with hf' | ⟨kind, hf'⟩ <;> simp [CfactoryMgr.createdCount, hf, hf', Cfactory.new]

/-- The counters only grow. -/
theorem createdCount_mono {m : CfactoryMgr K} {G : DispatchState K → DispatchLabel K → Prop}
    {t : DispatchState K} (h : (dispatchSystem m).RunVia G s t) (facId : UInt32) :
    s.mgr.createdCount facId ≤ t.mgr.createdCount facId := by
  refine h.invariant (I := fun t => s.mgr.createdCount facId ≤ t.mgr.createdCount facId)
    (fun t l t' hle _ hs => hle.trans ?_) le_rfl
  cases hf : t.mgr.findFactory facId with
  | none => simp [CfactoryMgr.createdCount, hf]
  | some f =>
      obtain ⟨f', ev, hf', -, hch⟩ := DispatchState.step_change hs hf
      simpa [CfactoryMgr.createdCount, hf, hf'] using hch.created.1

/-- Ids that are left at the end of a run were left throughout. -/
theorem idsLeft_of_run {m : CfactoryMgr K} {G : DispatchState K → DispatchLabel K → Prop}
    {t : DispatchState K} (h : (dispatchSystem m).RunVia G s t) (hb : t.mgr.IdsLeft) :
    s.mgr.IdsLeft := by
  intro fac hfac
  have hle := createdCount_mono h fac.facId
  rw [CfactoryMgr.createdCount_of_mem hfac] at hle
  exact hle.trans_lt (hb.createdCount_lt fac.facId)

/-- Ids that are left after a step were left before it. -/
theorem DispatchState.idsLeft_back (h : s.step l = some s') (hb : s'.mgr.IdsLeft) :
    s.mgr.IdsLeft :=
  idsLeft_of_run (m := s.mgr) (G := Lts.anyStep) (Lts.RunVia.single trivial h) hb

theorem balanced_step (h : s.step l = some s') (hinv : Balanced s) : Balanced s' := by
  intro facId
  have hold := hinv facId
  cases hf : s.mgr.findFactory facId with
  | some f =>
      obtain ⟨f', ev, hf', hev, hch⟩ := DispatchState.step_change h hf
      simp only [CfactoryMgr.liveInsts, CfactoryMgr.createdCount, hf, hf', Option.map_some,
        Option.getD_some] at hold ⊢
      rw [hev, removedIn_append]
      exact hch.balance hold
  | none =>
      obtain ⟨ev, hev, -, hr, hf'⟩ := DispatchState.step_findFactory_none h hf
      have hnil : removedIn facId s.events = [] := by
        simpa [CfactoryMgr.liveInsts, CfactoryMgr.createdCount, hf] using hold
      rw [hev, removedIn_append, hr, hnil]
      rcases hf' with hf' | ⟨kind, hf'⟩ <;>
        simp [CfactoryMgr.liveInsts, CfactoryMgr.createdCount, hf', Cfactory.new]

/-- Reachable states have numbered creations. -/
theorem createdInv_of_reachable {m : CfactoryMgr K} (hm : m.Fresh)
    (h : (dispatchSystem m).Reachable s) : CreatedInv s := by
  refine h.invariant ?init ?step
  case init =>
    rintro s rfl facId
    cases hf : m.findFactory facId with
    | none => simp [DispatchState.resting, CfactoryMgr.createdCount, hf]
    | some fac =>
        obtain ⟨-, hcre⟩ := hm fac (CfactoryMgr.mem_of_findFactory hf)
        simp [DispatchState.resting, CfactoryMgr.createdCount, hf, hcre]
  case step => exact fun s l s' hinv _ hs => createdInv_step hs hinv

/-- Reachable states are balanced. -/
theorem balanced_of_reachable {m : CfactoryMgr K} (hm : m.Fresh)
    (h : (dispatchSystem m).Reachable s) : Balanced s := by
  refine h.invariant ?init ?step
  case init =>
    rintro s rfl facId
    cases hf : m.findFactory facId with
    | none => simp [DispatchState.resting, CfactoryMgr.liveInsts, CfactoryMgr.createdCount, hf]
    | some fac =>
        obtain ⟨hlist, hcre⟩ := hm fac (CfactoryMgr.mem_of_findFactory hf)
        simp [DispatchState.resting, CfactoryMgr.liveInsts, CfactoryMgr.createdCount, hf, hlist,
          hcre]
  case step => exact fun s l s' hinv _ hs => balanced_step hs hinv

end Runs

/-! ## The invariant -/

/-- The registry and the stores in a state of a run. -/
structure StoreInvariant [BusinessFsm K] (m : CfactoryMgr K) (s : DispatchState K) : Prop where
  registered_le : s.mgr.facList.length ≤ 8
  facId_nodup : (s.mgr.facList.map Cfactory.facId).Nodup
  /-- A failed registration changes nothing. -/
  register_failed : ∀ factory, (s.mgr.registerFactory factory).1 ≠ .success →
    (s.mgr.registerFactory factory).2 = s.mgr
  /-- What a service id routes to stays where it is, whatever comes. -/
  routing : ∀ t, (dispatchSystem m).RunVia Lts.anyStep s t →
    ∀ (i : ℕ) fac, s.mgr.facList[i]? = some fac → ∃ fac', t.mgr.facList[i]? = some fac' ∧
      fac'.facId = fac.facId ∧ fac'.kind = fac.kind ∧
      s.mgr.findFactory fac.facId = some fac ∧ t.mgr.findFactory fac.facId = some fac'
  fsm_le : ∀ fac ∈ s.mgr.facList, fac.fsmList.length ≤ 32
  fsmId_nodup : ∀ fac ∈ s.mgr.facList, (fac.fsmList.map Cfsm.fsmId).Nodup
  fsmId_ne_zero : ∀ fac ∈ s.mgr.facList, ∀ fsm ∈ fac.fsmList, fsm.fsmId ≠ 0
  fsmId_lt : ∀ fac ∈ s.mgr.facList, ∀ fsm ∈ fac.fsmList, fsm.fsmId < fac.nextFsmId
  /-- No id of a factory is given out twice, and no instance is created twice. -/
  created_nodup : ∀ facId, ((createdIn facId s.events).map Prod.snd).Nodup ∧
    ((createdIn facId s.events).map Prod.fst).Nodup
  /-- `FindFsm` finds the one instance that was created with the id. -/
  findFsm_created : ∀ fac ∈ s.mgr.facList, ∀ fsmId fsm, fac.findFsm fsmId = some fsm →
    (fsm.inst, fsmId) ∈ createdIn fac.facId s.events ∧
      ∀ inst, (inst, fsmId) ∈ createdIn fac.facId s.events → inst = fsm.inst
  /-- `KillFsm` removes that instance and no other. -/
  killFsm_found : ∀ fac ∈ s.mgr.facList, ∀ fsmId fsm, fac.findFsm fsmId = some fsm →
    (fac.killFsm fsmId).1 = .success ∧
      (fac.killFsm fsmId).2.fsmList = fac.fsmList.filter fun x => x.inst ≠ fsm.inst
  /-- `KillFsm` with the id of an instance that is gone changes nothing. -/
  killFsm_gone : ∀ fac ∈ s.mgr.facList, ∀ fsmId, fac.findFsm fsmId = none →
    fac.killFsm fsmId = (.error, fac)

variable [BusinessFsm K]

/-- The registry only grows at its end. -/
theorem registry_prefix_of_run {m : CfactoryMgr K} {t : DispatchState K}
    (h : (dispatchSystem m).RunVia Lts.anyStep s t) : s.mgr.registry <+: t.mgr.registry :=
  h.invariant (I := fun u => s.mgr.registry <+: u.mgr.registry)
    (fun _ _ _ hpre _ hs => hpre.trans (DispatchState.step_registry hs)) List.prefix_rfl

/-- Without registrations the registry stays as it was. -/
theorem registry_of_serial {m : CfactoryMgr K} {E : EnvLabel → Prop} {t : DispatchState K}
    (h : (dispatchSystem m).ReachableVia (serial E) t) : t.mgr.registry = m.registry := by
  refine h.invariant (I := fun s => s.mgr.registry = m.registry) ?init ?step
  case init => rintro s rfl; rfl
  case step =>
    intro s l s' hreg hg hs
    cases l with
    | env l => obtain ⟨p, -, rfl⟩ := DispatchState.step_env_iff.mp hs; exact hreg
    | registerFactory factory => exact hg.elim
    | pop t => obtain ⟨-, pm, p, -, rfl⟩ := DispatchState.step_pop_iff.mp hs; exact hreg
    | advance t =>
        obtain ⟨th, next, m', ev, -, hadv, rfl⟩ := DispatchState.step_advance_iff.mp hs
        exact hadv.registry.trans hreg

/-- Below the wrap an id is its instance's number, plus one. -/
theorem fsmIdOf_toNat_of_lt {i : ℕ} (h : i + 1 < 2 ^ 32) : (fsmIdOf i).toNat = i + 1 := by
  rw [fsmIdOf_toNat, Nat.mod_eq_of_lt h]

/-- **Registry and instance store.** For any registrations and any interleaving of any number
of dispatchers, as long as no factory has used up its ids. -/
theorem store_invariant (h : (dispatchSystem .new).Reachable s)
    (hb : ∀ fac ∈ s.mgr.facList, fac.created < 2 ^ 32 - 1) :
    StoreInvariant (.new : CfactoryMgr K) s := by
  have hcreated : CreatedInv s := createdInv_of_reachable CfactoryMgr.fresh_new h
  have hbound := CfactoryMgr.IdsLeft.createdCount_lt hb
  refine
    { registered_le := s.mgr.facCapacity
      facId_nodup := s.mgr.facId_nodup
      register_failed := fun _ hne => CfactoryMgr.registerFactory_of_ne_success hne
      fsm_le := fun fac _ => fac.capacity
      killFsm_gone := fun fac _ _ hnone => Cfactory.killFsm_of_none hnone
      routing := ?routing
      fsmId_nodup := ?fsmId_nodup
      fsmId_ne_zero := ?fsmId_ne_zero
      fsmId_lt := ?fsmId_lt
      created_nodup := ?created_nodup
      findFsm_created := ?findFsm_created
      killFsm_found := ?killFsm_found }
  case routing =>
    intro t hrun i fac hi
    have hreg : t.mgr.registry[i]? = some (fac.facId, fac.kind) := by
      obtain ⟨rest, hrest⟩ := registry_prefix_of_run hrun
      have hlen : i < s.mgr.registry.length := by
        simpa [CfactoryMgr.registry] using (List.getElem?_eq_some_iff.mp hi).1
      rw [← hrest, List.getElem?_append_left hlen]
      simp [CfactoryMgr.registry, hi]
    obtain ⟨fac', hi', heq⟩ := by simpa [CfactoryMgr.registry] using hreg
    refine ⟨fac', hi', heq.1, heq.2, CfactoryMgr.findFactory_of_mem (List.mem_of_getElem? hi), ?_⟩
    exact heq.1 ▸ CfactoryMgr.findFactory_of_mem (List.mem_of_getElem? hi')
  case fsmId_nodup =>
    intro fac hfac
    have hcount : fac.created < 2 ^ 32 := by have := hb fac hfac; omega
    exact List.Nodup.map_on (fun x hx y hy => Cfactory.fsmId_inj hcount hx hy)
      (List.Nodup.of_map _ fac.inst_nodup)
  case fsmId_ne_zero =>
    exact fun fac hfac fsm hfsm => Cfactory.fsmId_ne_zero (by have := hb fac hfac; omega) hfsm
  case fsmId_lt =>
    intro fac hfac fsm hfsm
    have hi := fac.inst_lt fsm hfsm
    have hc := hb fac hfac
    rw [UInt32.lt_iff_toNat_lt, fac.fsmId_eq fsm hfsm, fac.nextFsmId_eq,
      fsmIdOf_toNat_of_lt (by omega), fsmIdOf_toNat_of_lt (by omega)]
    omega
  case created_nodup =>
    intro facId
    have hn := hbound facId
    rw [hcreated facId, List.map_map, List.map_map]
    refine ⟨List.Nodup.map_on ?_ List.nodup_range, by
      simpa [Function.comp_def] using List.nodup_range⟩
    intro i hi j hj heq
    rw [List.mem_range] at hi hj
    have := (fsmIdOf_eq_iff i j).mp heq
    rw [Nat.mod_eq_of_lt, Nat.mod_eq_of_lt] at this <;> omega
  case findFsm_created =>
    intro fac hfac fsmId fsm hfind
    obtain ⟨hmem, rfl⟩ := Cfactory.mem_of_findFsm hfind
    have hthis := hcreated.mem_of_live hfac hmem
    refine ⟨hthis, fun inst hinst => hcreated.inst_unique ?_ hinst hthis⟩
    have := hbound fac.facId
    omega
  case killFsm_found =>
    intro fac _ fsmId fsm hfind
    obtain ⟨hret, -, -, -, -, hlist⟩ := Cfactory.killFsm_of_some hfind
    exact ⟨hret, hlist⟩

theorem store_invariant_two_dispatchers : ∃ s : DispatchState FsmKind,
    (dispatchSystem .new).Reachable s ∧ StoreInvariant .new s ∧
      createdIn 1 s.events = [(0, 1), (1, 2)] := by
  obtain ⟨s, hs, hb, hc⟩ : ∃ s : DispatchState FsmKind,
      (dispatchSystem .new).exec (fun _ _ => true) (.resting .new [])
        [.registerFactory (some (1, .reg)), .registerFactory (some (1, .auth)),
          .env (.sendMsg 0 { serviceId := 1 }), .env (.sendMsg 1 { serviceId := 1 }),
          .pop 0, .pop 1, .advance 0, .advance 1, .advance 0, .advance 1, .advance 1,
          .advance 0] = some s ∧
        (∀ fac ∈ s.mgr.facList, fac.created < 2 ^ 32 - 1) ∧
        createdIn 1 s.events = [(0, 1), (1, 2)] := ⟨_, rfl, by decide, by decide⟩
  have hr : (dispatchSystem .new).Reachable s :=
    ⟨_, rfl, Lts.runVia_of_exec (fun _ _ _ => trivial) hs⟩
  exact ⟨s, hr, store_invariant hr hb, hc⟩

end FsmFramework
