import FsmFramework.Lib.KeyedList
import FsmFramework.BusinessFsm

/-!
# Factories

`Cfactory` owns the instances of one class: their list, the id generator `_nextFsmId`
and the class to instantiate. The store invariants are fields, so every factory that the
operations build carries them: at most `fsmNumInFac` instances, one identity each, and
ids that are the generator's values, which wrap at `2 ^ 32`.

`created` counts the instances created so far and is history, as is an instance's
identity `inst`; the operations test neither.
-/

namespace FsmFramework

/-- The id the generator hands to the instance created after `inst` others. -/
def fsmIdOf (inst : ℕ) : UInt32 := UInt32.ofNat (inst + 1)

theorem fsmIdOf_succ (inst : ℕ) : fsmIdOf (inst + 1) = fsmIdOf inst + 1 := by
  simp [fsmIdOf, UInt32.ofNat_add]

theorem fsmIdOf_toNat (inst : ℕ) : (fsmIdOf inst).toNat = (inst + 1) % 2 ^ 32 := by
  simp [fsmIdOf]

/-- Two ids agree when as many instances were created between them as the counter has values. -/
theorem fsmIdOf_eq_iff (i j : ℕ) : fsmIdOf i = fsmIdOf j ↔ (i + 1) % 2 ^ 32 = (j + 1) % 2 ^ 32 := by
  rw [← UInt32.toNat_inj, fsmIdOf_toNat, fsmIdOf_toNat]

theorem fsmIdOf_eq_zero_iff (i : ℕ) : fsmIdOf i = 0 ↔ (i + 1) % 2 ^ 32 = 0 := by
  rw [← UInt32.toNat_inj, fsmIdOf_toNat]
  simp

/-- A factory. Its `kind` is the class that `CreateFsm` instantiates. -/
@[ext] structure Cfactory (K : Type*) where
  facId : UInt32
  kind : K
  nextFsmId : UInt32
  fsmList : List Cfsm
  created : ℕ
  capacity : fsmList.length ≤ fsmNumInFac
  nextFsmId_eq : nextFsmId = fsmIdOf created
  inst_nodup : (fsmList.map Cfsm.inst).Nodup
  inst_lt : ∀ fsm ∈ fsmList, fsm.inst < created
  fsmId_eq : ∀ fsm ∈ fsmList, fsm.fsmId = fsmIdOf fsm.inst
  deriving DecidableEq

namespace Cfactory

variable {K : Type*}

/-- A factory as its constructor leaves it. -/
def new (facId : UInt32) (kind : K) : Cfactory K where
  facId := facId
  kind := kind
  nextFsmId := 1
  fsmList := []
  created := 0
  capacity := Nat.zero_le _
  nextFsmId_eq := rfl
  inst_nodup := List.nodup_nil
  inst_lt := by simp
  fsmId_eq := by simp

/-- The first instance with this id. -/
def findFsm (f : Cfactory K) (fsmId : UInt32) : Option Cfsm :=
  KeyedList.lookup Cfsm.fsmId fsmId f.fsmList

/-- What a pointer to instance `inst` points to, as long as the instance is in the list. -/
def deref (f : Cfactory K) (inst : ℕ) : Option Cfsm := KeyedList.lookup Cfsm.inst inst f.fsmList

/-- Create an instance and append it, unless the factory is full. -/
def addFsm (f : Cfactory K) : Option (Cfsm × Cfactory K) :=
  if h : f.fsmList.length ≥ fsmNumInFac then none
  else
    let fsm : Cfsm := { inst := f.created, fsmId := f.nextFsmId }
    some (fsm, {
      f with
      nextFsmId := f.nextFsmId + 1
      fsmList := f.fsmList ++ [fsm]
      created := f.created + 1
      capacity := by simp; omega
      nextFsmId_eq := by rw [fsmIdOf_succ, f.nextFsmId_eq]
      inst_nodup := by
        have hfresh : ∀ x ∈ f.fsmList, x.inst ≠ f.created := fun x hx => (f.inst_lt x hx).ne
        simpa [List.nodup_append, f.inst_nodup, fsm] using hfresh
      inst_lt := by
        intro x hx
        rcases List.mem_append.mp hx with hx | hx
        · exact Nat.lt_succ_of_lt (f.inst_lt x hx)
        · simp [List.mem_singleton.mp hx, fsm]
      fsmId_eq := by
        intro x hx
        rcases List.mem_append.mp hx with hx | hx
        · exact f.fsmId_eq x hx
        · simp [List.mem_singleton.mp hx, fsm, f.nextFsmId_eq] })

private theorem map_inst_modify (l : List Cfsm) (inst : ℕ) (state : Tstate) :
    (KeyedList.modify Cfsm.inst inst (fun fsm => { fsm with state := state }) l).map Cfsm.inst =
      l.map Cfsm.inst :=
  KeyedList.map_modify fun _ _ _ => rfl

/-- Instance `inst` enters `state`: the write of `SetState` through its pointer. -/
def setState (f : Cfactory K) (inst : ℕ) (state : Tstate) : Cfactory K :=
  { f with
    fsmList := KeyedList.modify Cfsm.inst inst (fun fsm => { fsm with state := state }) f.fsmList
    capacity := by simpa using f.capacity
    inst_nodup := by rw [map_inst_modify]; exact f.inst_nodup
    inst_lt := by
      intro x hx
      rcases KeyedList.mem_modify.mp hx with ⟨hx, -⟩ | ⟨z, hz, -, rfl⟩
      · exact f.inst_lt x hx
      · exact f.inst_lt z hz
    fsmId_eq := by
      intro x hx
      rcases KeyedList.mem_modify.mp hx with ⟨hx, -⟩ | ⟨z, hz, -, rfl⟩
      · exact f.fsmId_eq x hx
      · exact f.fsmId_eq z hz }

/-- Remove the first instance with this id. -/
def killFsm (f : Cfactory K) (fsmId : UInt32) : EerrNo × Cfactory K :=
  match f.findFsm fsmId with
  | none => (.error, f)
  | some _ =>
      have hsub : (KeyedList.erase Cfsm.fsmId fsmId f.fsmList).Sublist f.fsmList :=
        KeyedList.erase_sublist
      (.success, {
        f with
        fsmList := KeyedList.erase Cfsm.fsmId fsmId f.fsmList
        capacity := hsub.length_le.trans f.capacity
        inst_nodup := f.inst_nodup.sublist (hsub.map _)
        inst_lt := fun x hx => f.inst_lt x (hsub.subset hx)
        fsmId_eq := fun x hx => f.fsmId_eq x (hsub.subset hx) })

/-- The instance `FacMsgPrc` looks up for a message: none for id zero. -/
def route (f : Cfactory K) (fsmId : UInt32) : Option Cfsm :=
  if fsmId ≠ 0 then f.findFsm fsmId else none

/-! ## What the operations do -/

variable {f f' : Cfactory K} {fsm x : Cfsm} {inst : ℕ} {fsmId : UInt32} {state : Tstate}

theorem mem_of_deref (h : f.deref inst = some fsm) : fsm ∈ f.fsmList ∧ fsm.inst = inst :=
  ⟨KeyedList.mem_of_lookup h, KeyedList.key_of_lookup h⟩

theorem deref_eq_some_iff : f.deref inst = some fsm ↔ fsm ∈ f.fsmList ∧ fsm.inst = inst :=
  KeyedList.lookup_eq_some_iff f.inst_nodup

/-- An instance is told apart by its identity. -/
theorem eq_of_inst_eq (hx : x ∈ f.fsmList) (h : fsm ∈ f.fsmList) (hinst : x.inst = fsm.inst) :
    x = fsm :=
  KeyedList.eq_of_key_eq f.inst_nodup hx h hinst

theorem deref_of_mem (h : fsm ∈ f.fsmList) : f.deref fsm.inst = some fsm :=
  deref_eq_some_iff.mpr ⟨h, rfl⟩

theorem mem_of_findFsm (h : f.findFsm fsmId = some fsm) : fsm ∈ f.fsmList ∧ fsm.fsmId = fsmId :=
  ⟨KeyedList.mem_of_lookup h, KeyedList.key_of_lookup h⟩

theorem findFsm_eq_none_iff : f.findFsm fsmId = none ↔ ∀ x ∈ f.fsmList, x.fsmId ≠ fsmId :=
  KeyedList.lookup_eq_none_iff

theorem findFsm_of_route (h : f.route fsmId = some fsm) :
    fsmId ≠ 0 ∧ f.findFsm fsmId = some fsm := by
  rw [route] at h
  split at h
  · exact ⟨‹_›, h⟩
  · contradiction

/-- An instance that `FacMsgPrc` finds is in the list. -/
theorem mem_of_route (h : f.route fsmId = some fsm) :
    fsm ∈ f.fsmList ∧ fsm.fsmId = fsmId ∧ fsmId ≠ 0 := by
  obtain ⟨hne, hfind⟩ := findFsm_of_route h
  obtain ⟨hmem, hid⟩ := mem_of_findFsm hfind
  exact ⟨hmem, hid, hne⟩

/-- It is also the one that `KillFsm` finds by its id. -/
theorem findFsm_self_of_route (h : f.route fsmId = some fsm) :
    f.findFsm fsm.fsmId = some fsm := by
  obtain ⟨-, hid, -⟩ := mem_of_route h
  exact hid ▸ (findFsm_of_route h).2

/-- Creation is refused exactly when the factory is full. -/
theorem addFsm_eq_none_iff : f.addFsm = none ↔ f.fsmList.length ≥ fsmNumInFac := by
  rw [addFsm]
  split <;> simp_all

/-- What a creation yields. -/
theorem addFsm_some (h : f.addFsm = some (fsm, f')) :
    fsm = { inst := f.created, fsmId := f.nextFsmId } ∧ f'.facId = f.facId ∧ f'.kind = f.kind ∧
      f'.nextFsmId = f.nextFsmId + 1 ∧ f'.created = f.created + 1 ∧
      f'.fsmList = f.fsmList ++ [fsm] := by
  rw [addFsm] at h
  split at h
  · contradiction
  · simp only [Option.some.injEq, Prod.mk.injEq] at h
    obtain ⟨rfl, rfl⟩ := h
    exact ⟨rfl, rfl, rfl, rfl, rfl, rfl⟩

@[simp] theorem setState_facId : (f.setState inst state).facId = f.facId := rfl
@[simp] theorem setState_kind : (f.setState inst state).kind = f.kind := rfl
@[simp] theorem setState_created : (f.setState inst state).created = f.created := rfl
@[simp] theorem setState_nextFsmId : (f.setState inst state).nextFsmId = f.nextFsmId := rfl

theorem mem_setState : x ∈ (f.setState inst state).fsmList ↔
    (x ∈ f.fsmList ∧ x.inst ≠ inst) ∨ ∃ z ∈ f.fsmList, z.inst = inst ∧
      x = { z with state := state } :=
  KeyedList.mem_modify

theorem setState_insts : (f.setState inst state).fsmList.map Cfsm.inst = f.fsmList.map Cfsm.inst :=
  map_inst_modify _ _ _

theorem deref_setState : (f.setState inst state).deref inst =
    (f.deref inst).map fun fsm => { fsm with state := state } :=
  KeyedList.lookup_modify_self fun _ h => h

theorem deref_setState_of_ne {i : ℕ} (h : inst ≠ i) :
    (f.setState inst state).deref i = f.deref i :=
  KeyedList.lookup_modify_of_ne (fun _ h => h) h

/-- Entering the state it is in changes nothing. -/
theorem setState_self (h : f.deref inst = some fsm) : f.setState inst fsm.state = f := by
  obtain ⟨hmem, rfl⟩ := mem_of_deref h
  refine Cfactory.ext rfl rfl rfl (KeyedList.modify_eq_self fun x hx hk => ?_) rfl
  obtain rfl : x = fsm := eq_of_inst_eq hx hmem hk
  rfl

theorem killFsm_of_none (h : f.findFsm fsmId = none) : f.killFsm fsmId = (.error, f) := by
  rw [killFsm]
  split <;> simp_all

/-- The instance that goes is the one `FindFsm` finds; the others keep their order. -/
theorem killFsm_of_some (h : f.findFsm fsmId = some fsm) :
    (f.killFsm fsmId).1 = .success ∧ (f.killFsm fsmId).2.facId = f.facId ∧
      (f.killFsm fsmId).2.kind = f.kind ∧ (f.killFsm fsmId).2.nextFsmId = f.nextFsmId ∧
      (f.killFsm fsmId).2.created = f.created ∧
      (f.killFsm fsmId).2.fsmList = f.fsmList.filter fun x => x.inst ≠ fsm.inst := by
  rw [killFsm]
  split
  · simp_all
  · exact ⟨rfl, rfl, rfl, rfl, rfl, KeyedList.erase_eq_filter_of_lookup f.inst_nodup h⟩

@[simp] theorem killFsm_facId : (f.killFsm fsmId).2.facId = f.facId := by
  rw [killFsm]; split <;> rfl

@[simp] theorem killFsm_kind : (f.killFsm fsmId).2.kind = f.kind := by
  rw [killFsm]; split <;> rfl

@[simp] theorem killFsm_created : (f.killFsm fsmId).2.created = f.created := by
  rw [killFsm]; split <;> rfl

/-- `FindFsm` looks at ids only. -/
theorem findFsm_setState : (f.setState inst state).findFsm fsmId =
    (f.findFsm fsmId).map fun x => if x.inst = inst then { x with state := state } else x :=
  KeyedList.lookup_modify_other fun _ _ => rfl

/-- The state of an instance that is removed does not matter. -/
theorem killFsm_setState (h : f.findFsm fsmId = some fsm) :
    ((f.setState fsm.inst state).killFsm fsmId).2 = (f.killFsm fsmId).2 := by
  have h' : (f.setState fsm.inst state).findFsm fsmId = some { fsm with state := state } := by
    simp [findFsm_setState, h]
  obtain ⟨-, hid, hkind, hnext, hcre, hlist⟩ := killFsm_of_some h
  obtain ⟨-, hid', hkind', hnext', hcre', hlist'⟩ := killFsm_of_some h'
  refine Cfactory.ext (hid'.trans hid.symm) (hkind'.trans hkind.symm) (hnext'.trans hnext.symm)
    ?_ (hcre'.trans hcre.symm)
  rw [hlist, hlist']
  exact KeyedList.filter_modify fun _ h => h

/-! ## What the operations leave alone -/

/-- A creation moves no instance that was there. -/
theorem deref_addFsm (h : f.addFsm = some (fsm, f')) (hx : f.deref inst = some x) :
    f'.deref inst = some x := by
  obtain ⟨-, -, -, -, -, hlist⟩ := addFsm_some h
  obtain ⟨hmem, hinst⟩ := mem_of_deref hx
  exact deref_eq_some_iff.mpr ⟨by simp [hlist, hmem], hinst⟩

theorem findFsm_addFsm (h : f.addFsm = some (fsm, f')) (hx : f.findFsm fsmId = some x) :
    f'.findFsm fsmId = some x := by
  obtain ⟨-, -, -, -, -, hlist⟩ := addFsm_some h
  rw [findFsm] at hx ⊢
  rw [hlist, KeyedList.lookup_append_singleton, hx, Option.some_or]

/-- A removal takes away the instance that `FindFsm` finds, and no other. -/
theorem deref_killFsm (h : ∀ y, f.findFsm fsmId = some y → y.inst ≠ inst)
    (hx : f.deref inst = some x) : (f.killFsm fsmId).2.deref inst = some x := by
  cases hf : f.findFsm fsmId with
  | none => rwa [killFsm_of_none hf]
  | some y =>
      obtain ⟨hmem, rfl⟩ := mem_of_deref hx
      obtain ⟨-, -, -, -, -, hlist⟩ := killFsm_of_some hf
      exact deref_of_mem (by simp [hlist, hmem, (h y hf).symm])

theorem findFsm_killFsm {id : UInt32} (h : ∀ y, f.findFsm fsmId = some y → y.inst ≠ x.inst)
    (hx : f.findFsm id = some x) : (f.killFsm fsmId).2.findFsm id = some x := by
  cases hf : f.findFsm fsmId with
  | none => rwa [killFsm_of_none hf]
  | some y =>
      obtain ⟨-, -, -, -, -, hlist⟩ := killFsm_of_some hf
      rw [findFsm, hlist]
      exact KeyedList.lookup_filter hx (by simpa using (h y hf).symm)

/-! ## Ids below the wrap -/

/-- While fewer than `2 ^ 32` instances were created, ids tell instances apart. -/
theorem fsmId_inj (hb : f.created < 2 ^ 32) {x y : Cfsm} (hx : x ∈ f.fsmList)
    (hy : y ∈ f.fsmList) (h : x.fsmId = y.fsmId) : x = y := by
  rw [f.fsmId_eq x hx, f.fsmId_eq y hy, fsmIdOf_eq_iff] at h
  have hix := f.inst_lt x hx
  have hiy := f.inst_lt y hy
  refine eq_of_inst_eq hx hy ?_
  rw [Nat.mod_eq_of_lt, Nat.mod_eq_of_lt] at h <;> omega

/-- While fewer than `2 ^ 32` instances were created, no id is zero. -/
theorem fsmId_ne_zero (hb : f.created < 2 ^ 32) (hx : x ∈ f.fsmList) : x.fsmId ≠ 0 := by
  have hix := f.inst_lt x hx
  rw [f.fsmId_eq x hx, Ne, fsmIdOf_eq_zero_iff, Nat.mod_eq_of_lt (by omega)]
  omega

/-- The next id is none of the ids in use, while the generator has not wrapped. -/
theorem fsmId_ne_nextFsmId (hb : f.created + 1 < 2 ^ 32) (hx : x ∈ f.fsmList) :
    x.fsmId ≠ f.nextFsmId := by
  have hix := f.inst_lt x hx
  rw [f.fsmId_eq x hx, f.nextFsmId_eq, Ne, fsmIdOf_eq_iff, Nat.mod_eq_of_lt (by omega),
    Nat.mod_eq_of_lt (by omega)]
  omega

end Cfactory

end FsmFramework
