import FsmFramework.CfactoryMgr

/-!
# One dispatch as a sequence of atomic steps

`Run`, `PumpOnce` and `RunUntilEmpty` all end in `DispatchMsg`, which releases every lock
before it runs business code. `dispatchStep` cuts it into the steps other threads can come
between: each block under `_fac_lock` or `_fsm_lock`, each of `PrePrcMsg`, `ProcessMsg` and
`PostPrcMsg`, the `GetState` test, `NotifyFsmCompleted` and `KillFsm`. Between the steps a
thread keeps a pointer, the pair of a factory id and an instance identity.

A pointer to an instance that has left its factory's list dangles. Using it is undefined
behaviour: the step records the call and the thread goes no further.

Run without interruption, the steps compute `CfactoryMgr.dispatchMsg`.
-/

namespace FsmFramework

/-- The next step of a thread inside `DispatchMsg`, with the locals it still needs. -/
inductive DispatchPc
  | dispatchMsg
  | facMsgPrc (facId : UInt32)
  | addFsm (facId : UInt32)
  | prePrcMsg (facId : UInt32) (inst : ℕ)
  | processMsg (facId : UInt32) (inst : ℕ)
  | postPrcMsg (facId : UInt32) (inst : ℕ) (ret : EerrNo)
  | getState (facId : UInt32) (inst : ℕ) (ret : EerrNo)
  | notify (facId : UInt32) (inst : ℕ) (fsmId : UInt32) (ret : EerrNo)
  | killFsm (facId : UInt32) (inst : ℕ) (fsmId : UInt32) (ret : EerrNo)
  | undefined
  deriving DecidableEq, Repr

/-- A thread inside `DispatchMsg`: its local message and its next step. -/
structure DispatchThread where
  pm : PumpMsg
  pc : DispatchPc
  deriving DecidableEq, Repr

/-- What a step leaves behind. A thread that has returned is `none`. -/
structure DispatchStep (K : Type*) where
  thread : Option DispatchThread
  mgr : CfactoryMgr K
  events : List Event
  deriving DecidableEq

variable {K : Type*}

namespace DispatchThread

/-- The thread returns `ret`; `target` is the instance the message was handed to. -/
def return_ (th : DispatchThread) (m : CfactoryMgr K) (ret : EerrNo)
    (target : Option (UInt32 × ℕ)) (events : List Event) : DispatchStep K :=
  ⟨none, m, events ++ [.returned th.pm ret target]⟩

/-- The thread goes on at `pc`. -/
def goto (th : DispatchThread) (m : CfactoryMgr K) (pc : DispatchPc) (events : List Event) :
    DispatchStep K :=
  ⟨some { th with pc := pc }, m, events⟩

end DispatchThread

variable [BusinessFsm K]

/-- One step of `DispatchMsg`. -/
def dispatchStep (m : CfactoryMgr K) (th : DispatchThread) : DispatchStep K :=
  match th.pc with
  | .dispatchMsg =>
      match m.findFactory th.pm.msg.serviceId with
      | none => th.return_ m .invalidMsg none []
      | some fac => th.goto m (.facMsgPrc fac.facId) []
  | .facMsgPrc facId =>
      match m.findFactory facId with
      | none => th.goto m .undefined []
      | some fac =>
          match fac.route th.pm.msg.fsmId with
          | some fsm => th.goto m (.prePrcMsg facId fsm.inst) []
          | none =>
              if th.pm.msg.type ≠ .msgInit then th.return_ m .invalidMsg none []
              else th.goto m (.addFsm facId) []
  | .addFsm facId =>
      match m.findFactory facId with
      | none => th.goto m .undefined []
      | some fac =>
          match fac.addFsm with
          | none => th.return_ m .error none []
          | some (fsm, fac') =>
              th.goto (m.setFactory fac') (.prePrcMsg facId fsm.inst)
                [.created facId fsm.inst fsm.fsmId th.pm]
  | .prePrcMsg facId inst =>
      match m.deref facId inst with
      | none => th.goto m .undefined [.called facId inst .prePrcMsg]
      | some (_, fsm) =>
          ⟨some ⟨{ th.pm with msg := { th.pm.msg with fsmId := fsm.fsmId } },
            .processMsg facId inst⟩, m, [.called facId inst .prePrcMsg]⟩
  | .processMsg facId inst =>
      match m.deref facId inst with
      | none => th.goto m .undefined [.called facId inst .processMsg]
      | some (fac, fsm) =>
          let r := m.processMsg fac fsm th.pm.msg
          th.goto r.2 (.postPrcMsg facId inst r.1)
            [.called facId inst .processMsg, .processed facId inst th.pm r.1]
  | .postPrcMsg facId inst ret =>
      match m.deref facId inst with
      | none => th.goto m .undefined [.called facId inst .postPrcMsg]
      | some _ => th.goto m (.getState facId inst ret) [.called facId inst .postPrcMsg]
  | .getState facId inst ret =>
      match m.deref facId inst with
      | none => th.goto m .undefined [.called facId inst .getState]
      | some (_, fsm) =>
          if fsm.state = .killFsm then
            th.goto m (.notify facId inst fsm.fsmId ret) [.called facId inst .getState]
          else th.return_ m ret (some (facId, inst)) [.called facId inst .getState]
  | .notify facId inst fsmId ret =>
      th.goto m (.killFsm facId inst fsmId ret)
        [.completed inst (CfactoryMgr.completionEvent facId fsmId th.pm.msg ret)]
  | .killFsm facId inst fsmId ret =>
      match m.findFactory facId with
      | none => th.goto m .undefined []
      | some fac =>
          th.return_ (m.killFsm fac fsmId).1 ret (some (facId, inst)) (m.killFsm fac fsmId).2
  | .undefined => th.goto m .undefined []

/-- Run a thread to its return with nothing coming between, in at most `fuel` steps. -/
def finishDispatch : ℕ → CfactoryMgr K → DispatchThread → Option (CfactoryMgr K × List Event)
  | 0, _, _ => none
  | fuel + 1, m, th =>
      let r := dispatchStep m th
      match r.thread with
      | none => some (r.mgr, r.events)
      | some th' => (finishDispatch fuel r.mgr th').map fun q => (q.1, r.events ++ q.2)

/-! ## What a step can do -/

namespace DispatchPc

/-- The factory the next step locks or looks into. -/
def lookup : DispatchPc → Option UInt32
  | .facMsgPrc facId | .addFsm facId | .killFsm facId _ _ _ => some facId
  | _ => none

/-- The factory in which the next step creates an instance. -/
def adding : DispatchPc → Option UInt32
  | .addFsm facId => some facId
  | _ => none

/-- The factory that the thread's next step is about, once it is known. -/
def factory : DispatchPc → Option UInt32
  | .facMsgPrc facId | .addFsm facId | .prePrcMsg facId _ | .processMsg facId _
  | .postPrcMsg facId _ _ | .getState facId _ _ | .notify facId _ _ _ | .killFsm facId _ _ _ =>
      some facId
  | .dispatchMsg | .undefined => none

/-- The call the next step makes through its pointer. -/
def call : DispatchPc → Option (UInt32 × ℕ × FsmCall)
  | .prePrcMsg facId inst => some (facId, inst, .prePrcMsg)
  | .processMsg facId inst => some (facId, inst, .processMsg)
  | .postPrcMsg facId inst _ => some (facId, inst, .postPrcMsg)
  | .getState facId inst _ => some (facId, inst, .getState)
  | _ => none

/-- The instance the thread holds a pointer to, or has just handed its message to. -/
def target : DispatchPc → Option (UInt32 × ℕ)
  | .prePrcMsg facId inst | .processMsg facId inst | .postPrcMsg facId inst _
  | .getState facId inst _ | .notify facId inst _ _ | .killFsm facId inst _ _ =>
      some (facId, inst)
  | _ => none

theorem target_of_call {pc : DispatchPc} {facId : UInt32} {inst : ℕ} {call : FsmCall}
    (h : pc.call = some (facId, inst, call)) : pc.target = some (facId, inst) := by
  cases pc <;> simp_all [DispatchPc.call, DispatchPc.target]

end DispatchPc

/-- Every step of a thread with message `pm`: from which `pc`, to which thread, manager and
events. -/
inductive Advance (m : CfactoryMgr K) (pm : PumpMsg) :
    DispatchPc → Option DispatchThread → CfactoryMgr K → List Event → Prop
  | unknownService (h : m.findFactory pm.msg.serviceId = none) :
      Advance m pm .dispatchMsg none m [.returned pm .invalidMsg none]
  | service {fac : Cfactory K} (h : m.findFactory pm.msg.serviceId = some fac) :
      Advance m pm .dispatchMsg (some ⟨pm, .facMsgPrc fac.facId⟩) m []
  | found {facId : UInt32} {fac : Cfactory K} {fsm : Cfsm} (h : m.findFactory facId = some fac)
      (hr : fac.route pm.msg.fsmId = some fsm) :
      Advance m pm (.facMsgPrc facId) (some ⟨pm, .prePrcMsg facId fsm.inst⟩) m []
  | notFound {facId : UInt32} {fac : Cfactory K} (h : m.findFactory facId = some fac)
      (hr : fac.route pm.msg.fsmId = none) (hi : pm.msg.type ≠ .msgInit) :
      Advance m pm (.facMsgPrc facId) none m [.returned pm .invalidMsg none]
  | missing {facId : UInt32} {fac : Cfactory K} (h : m.findFactory facId = some fac)
      (hr : fac.route pm.msg.fsmId = none) (hi : pm.msg.type = .msgInit) :
      Advance m pm (.facMsgPrc facId) (some ⟨pm, .addFsm facId⟩) m []
  | full {facId : UInt32} {fac : Cfactory K} (h : m.findFactory facId = some fac)
      (ha : fac.addFsm = none) :
      Advance m pm (.addFsm facId) none m [.returned pm .error none]
  | added {facId : UInt32} {fac fac' : Cfactory K} {fsm : Cfsm}
      (h : m.findFactory facId = some fac) (ha : fac.addFsm = some (fsm, fac')) :
      Advance m pm (.addFsm facId) (some ⟨pm, .prePrcMsg facId fsm.inst⟩) (m.setFactory fac')
        [.created facId fsm.inst fsm.fsmId pm]
  | prePrcMsg {facId : UInt32} {inst : ℕ} {fac : Cfactory K} {fsm : Cfsm}
      (h : m.deref facId inst = some (fac, fsm)) :
      Advance m pm (.prePrcMsg facId inst)
        (some ⟨{ pm with msg := { pm.msg with fsmId := fsm.fsmId } }, .processMsg facId inst⟩) m
        [.called facId inst .prePrcMsg]
  | processMsg {facId : UInt32} {inst : ℕ} {fac : Cfactory K} {fsm : Cfsm}
      (h : m.deref facId inst = some (fac, fsm)) :
      Advance m pm (.processMsg facId inst)
        (some ⟨pm, .postPrcMsg facId inst (m.processMsg fac fsm pm.msg).1⟩)
        (m.processMsg fac fsm pm.msg).2
        [.called facId inst .processMsg,
          .processed facId inst pm (m.processMsg fac fsm pm.msg).1]
  | postPrcMsg {facId : UInt32} {inst : ℕ} {ret : EerrNo} {fac : Cfactory K} {fsm : Cfsm}
      (h : m.deref facId inst = some (fac, fsm)) :
      Advance m pm (.postPrcMsg facId inst ret) (some ⟨pm, .getState facId inst ret⟩) m
        [.called facId inst .postPrcMsg]
  | terminal {facId : UInt32} {inst : ℕ} {ret : EerrNo} {fac : Cfactory K} {fsm : Cfsm}
      (h : m.deref facId inst = some (fac, fsm)) (hk : fsm.state = .killFsm) :
      Advance m pm (.getState facId inst ret) (some ⟨pm, .notify facId inst fsm.fsmId ret⟩) m
        [.called facId inst .getState]
  | goesOn {facId : UInt32} {inst : ℕ} {ret : EerrNo} {fac : Cfactory K} {fsm : Cfsm}
      (h : m.deref facId inst = some (fac, fsm)) (hk : fsm.state ≠ .killFsm) :
      Advance m pm (.getState facId inst ret) none m
        [.called facId inst .getState, .returned pm ret (some (facId, inst))]
  | notify {facId fsmId : UInt32} {inst : ℕ} {ret : EerrNo} :
      Advance m pm (.notify facId inst fsmId ret) (some ⟨pm, .killFsm facId inst fsmId ret⟩) m
        [.completed inst (CfactoryMgr.completionEvent facId fsmId pm.msg ret)]
  | killFsm {facId fsmId : UInt32} {inst : ℕ} {ret : EerrNo} {fac : Cfactory K}
      (h : m.findFactory facId = some fac) :
      Advance m pm (.killFsm facId inst fsmId ret) none (m.killFsm fac fsmId).1
        ((m.killFsm fac fsmId).2 ++ [.returned pm ret (some (facId, inst))])
  | noFactory {pc : DispatchPc} {facId : UInt32} (hpc : pc.lookup = some facId)
      (h : m.findFactory facId = none) : Advance m pm pc (some ⟨pm, .undefined⟩) m []
  | dangling {pc : DispatchPc} {facId : UInt32} {inst : ℕ} {call : FsmCall}
      (hpc : pc.call = some (facId, inst, call)) (h : m.deref facId inst = none) :
      Advance m pm pc (some ⟨pm, .undefined⟩) m [.called facId inst call]
  | undefined : Advance m pm .undefined (some ⟨pm, .undefined⟩) m []

/-- The cases are exhaustive. -/
theorem advance_dispatchStep (m : CfactoryMgr K) (th : DispatchThread) :
    Advance m th.pm th.pc (dispatchStep m th).thread (dispatchStep m th).mgr
      (dispatchStep m th).events := by
  obtain ⟨pm, pc⟩ := th
  cases pc with
  | dispatchMsg =>
      cases h : m.findFactory pm.msg.serviceId with
      | none => simpa [dispatchStep, h] using .unknownService h
      | some fac => simpa [dispatchStep, h] using .service h
  | facMsgPrc facId =>
      cases h : m.findFactory facId with
      | none => simpa [dispatchStep, h] using .noFactory rfl h
      | some fac =>
          cases hr : fac.route pm.msg.fsmId with
          | some fsm => simpa [dispatchStep, h, hr] using .found h hr
          | none =>
              by_cases hi : pm.msg.type = .msgInit
              · simpa [dispatchStep, h, hr, hi] using .missing h hr hi
              · simpa [dispatchStep, h, hr, hi] using .notFound h hr hi
  | addFsm facId =>
      cases h : m.findFactory facId with
      | none => simpa [dispatchStep, h] using .noFactory rfl h
      | some fac =>
          rcases ha : fac.addFsm with _ | ⟨fsm, fac'⟩
          · simpa [dispatchStep, h, ha] using .full h ha
          · simpa [dispatchStep, h, ha] using .added h ha
  | prePrcMsg facId inst =>
      rcases h : m.deref facId inst with _ | ⟨fac, fsm⟩
      · simpa [dispatchStep, h] using .dangling rfl h
      · simpa [dispatchStep, h] using .prePrcMsg h
  | processMsg facId inst =>
      rcases h : m.deref facId inst with _ | ⟨fac, fsm⟩
      · simpa [dispatchStep, h] using .dangling rfl h
      · simpa [dispatchStep, h] using .processMsg h
  | postPrcMsg facId inst ret =>
      rcases h : m.deref facId inst with _ | ⟨fac, fsm⟩
      · simpa [dispatchStep, h] using .dangling rfl h
      · simpa [dispatchStep, h] using .postPrcMsg h
  | getState facId inst ret =>
      rcases h : m.deref facId inst with _ | ⟨fac, fsm⟩
      · simpa [dispatchStep, h] using .dangling rfl h
      · by_cases hk : fsm.state = .killFsm
        · simpa [dispatchStep, h, hk] using .terminal h hk
        · simpa [dispatchStep, h, hk] using .goesOn h hk
  | notify facId inst fsmId ret => exact .notify
  | killFsm facId inst fsmId ret =>
      cases h : m.findFactory facId with
      | none => simpa [dispatchStep, h] using .noFactory rfl h
      | some fac => simpa [dispatchStep, h] using .killFsm h
  | undefined => exact .undefined

/-- A thread works on the factory that its message names. -/
theorem Advance.factory {m m' : CfactoryMgr K} {pm : PumpMsg} {pc : DispatchPc}
    {th : DispatchThread} {ev : List Event} (h : Advance m pm pc (some th) m' ev)
    (hpc : ∀ f, pc.factory = some f → f = pm.msg.serviceId) :
    ∀ f, th.pc.factory = some f → f = th.pm.msg.serviceId := by
  intro f hf
  cases h with
  | service h =>
      obtain rfl : _ = f := Option.some.inj hf
      exact CfactoryMgr.findFactory_facId h
  | noFactory | dangling | undefined => simp [DispatchPc.factory] at hf
  | _ => exact hpc f hf

/-! ## The steps compute the sequential dispatch -/

section Finish

variable {m m' : CfactoryMgr K} {th th' : DispatchThread} {fuel : ℕ}
  {res : CfactoryMgr K × List Event} {ev : List Event}

/-- The step of a thread in a case is the one the case gives. -/
theorem Advance.dispatchStep_eq {pm : PumpMsg} {pc : DispatchPc} {next : Option DispatchThread}
    (h : Advance m pm pc next m' ev) : dispatchStep m ⟨pm, pc⟩ = ⟨next, m', ev⟩ := by
  cases h with
  | undefined | notify => rfl
  | noFactory hpc h =>
      cases pc <;> simp only [DispatchPc.lookup, Option.some.injEq, reduceCtorEq] at hpc <;>
        subst hpc <;> simp [dispatchStep, h, DispatchThread.goto]
  | dangling hpc h =>
      cases pc <;> simp only [DispatchPc.call, Option.some.injEq, Prod.mk.injEq,
        reduceCtorEq] at hpc <;>
        obtain ⟨rfl, rfl, rfl⟩ := hpc <;> simp [dispatchStep, h, DispatchThread.goto]
  | _ => simp_all [dispatchStep, DispatchThread.goto, DispatchThread.return_]

theorem finishDispatch_some (h : dispatchStep m th = ⟨some th', m', ev⟩) :
    finishDispatch (fuel + 1) m th =
      (finishDispatch fuel m' th').map fun q => (q.1, ev ++ q.2) := by
  simp [finishDispatch, h]

theorem finishDispatch_none (h : dispatchStep m th = ⟨none, m', ev⟩) :
    finishDispatch (fuel + 1) m th = some (m', ev) := by
  simp [finishDispatch, h]

/-- The rest of a dispatch after a step that is known. -/
theorem finishDispatch_rest {m₁ : CfactoryMgr K} {ev₁ : List Event}
    (hadv : Advance m th.pm th.pc (some th') m₁ ev₁)
    (h : finishDispatch (fuel + 1) m th = some (m', ev)) :
    ∃ ev₂, finishDispatch fuel m₁ th' = some (m', ev₂) ∧ ev = ev₁ ++ ev₂ := by
  rw [finishDispatch_some hadv.dispatchStep_eq] at h
  obtain ⟨⟨m₂, ev₂⟩, hrest, heq⟩ := Option.map_eq_some_iff.mp h
  obtain ⟨rfl, rfl⟩ := Prod.mk.inj heq
  exact ⟨ev₂, hrest, rfl⟩

/-- A thread that runs to its return returns at once, or takes a step and runs on. -/
theorem finishDispatch_succ (h : finishDispatch (fuel + 1) m th = some (m', ev)) :
    Advance m th.pm th.pc none m' ev ∨
      ∃ th' m₁ ev₁ ev₂, Advance m th.pm th.pc (some th') m₁ ev₁ ∧
        finishDispatch fuel m₁ th' = some (m', ev₂) ∧ ev = ev₁ ++ ev₂ := by
  have hadv := advance_dispatchStep m th
  generalize hstep : dispatchStep m th = r at hadv
  obtain ⟨_ | th', m₁, ev₁⟩ := r
  · rw [finishDispatch_none hstep] at h
    obtain ⟨rfl, rfl⟩ := Prod.mk.inj (Option.some.inj h)
    exact .inl hadv
  · obtain ⟨ev₂, hrest, rfl⟩ := finishDispatch_rest hadv h
    exact .inr ⟨th', m₁, ev₁, ev₂, hadv, hrest, rfl⟩

/-- **The rule for a thread that runs to its return.** What holds of a last step, and passes from
the rest of the dispatch to a step before it, holds of the whole. -/
theorem finishDispatch_induction
    {P : ℕ → CfactoryMgr K → DispatchThread → CfactoryMgr K → List Event → Prop}
    (last : ∀ fuel m th m' ev, Advance m th.pm th.pc none m' ev → P (fuel + 1) m th m' ev)
    (more : ∀ fuel m th th' m₁ ev₁ m' ev₂, Advance m th.pm th.pc (some th') m₁ ev₁ →
      finishDispatch fuel m₁ th' = some (m', ev₂) → P fuel m₁ th' m' ev₂ →
        P (fuel + 1) m th m' (ev₁ ++ ev₂))
    (h : finishDispatch fuel m th = some (m', ev)) : P fuel m th m' ev := by
  induction fuel generalizing m th ev with
  | zero => simp [finishDispatch] at h
  | succ fuel ih =>
      obtain hlast | ⟨th', m₁, ev₁, ev₂, hadv, hrest, rfl⟩ := finishDispatch_succ h
      · exact last fuel m th m' ev hlast
      · exact more fuel m th th' m₁ ev₁ m' ev₂ hadv hrest (ih hrest)

/-- More fuel changes nothing. -/
theorem finishDispatch_mono (h : finishDispatch fuel m th = some (m', ev)) (k : ℕ) :
    finishDispatch (fuel + k) m th = some (m', ev) := by
  refine finishDispatch_induction
    (P := fun fuel m th m' ev => finishDispatch (fuel + k) m th = some (m', ev)) ?last ?more h
  case last =>
    intro fuel m th m' ev hadv
    rw [Nat.add_right_comm]
    exact finishDispatch_none hadv.dispatchStep_eq
  case more =>
    intro fuel m th th' m₁ ev₁ m' ev₂ hadv _ ih
    rw [Nat.add_right_comm, finishDispatch_some hadv.dispatchStep_eq, ih]
    rfl

/-- The instance a message is handed to can still be dereferenced after `ProcessMsg`. -/
theorem deref_processMsg {facId : UInt32} {inst : ℕ} {fac : Cfactory K} {fsm : Cfsm}
    (msg : CMsg) (h : m.deref facId inst = some (fac, fsm)) :
    (m.processMsg fac fsm msg).2.deref facId inst =
      some
        (fac.setState inst (BusinessFsm.processMsg fac.kind facId fsm msg m.toMsgPorts).2.1.state,
          { fsm with
            state := (BusinessFsm.processMsg fac.kind facId fsm msg m.toMsgPorts).2.1.state }) := by
  obtain ⟨hfac, hfsm⟩ := CfactoryMgr.deref_eq_some_iff.mp h
  obtain ⟨-, rfl⟩ := CfactoryMgr.findFactory_eq_some_iff.mp hfac
  obtain ⟨-, rfl⟩ := Cfactory.mem_of_deref hfsm
  refine CfactoryMgr.deref_eq_some_iff.mpr
    ⟨CfactoryMgr.findFactory_setFactory hfac Cfactory.setState_facId, ?_⟩
  rw [Cfactory.deref_setState, hfsm, Option.map_some]

/-- From `DispatchToFsm` on, the steps compute `CfactoryMgr.dispatchToFsm`. -/
theorem finishDispatch_prePrcMsg {facId : UInt32} {inst : ℕ} {fac : Cfactory K} {fsm : Cfsm}
    {pm : PumpMsg} (h : m.deref facId inst = some (fac, fsm)) :
    finishDispatch 6 m ⟨pm, .prePrcMsg facId inst⟩ =
      some ((m.dispatchToFsm fac fsm pm).mgr, (m.dispatchToFsm fac fsm pm).events) := by
  obtain ⟨hfac, hfsm⟩ := CfactoryMgr.deref_eq_some_iff.mp h
  obtain ⟨-, rfl⟩ := CfactoryMgr.findFactory_eq_some_iff.mp hfac
  obtain ⟨-, rfl⟩ := Cfactory.mem_of_deref hfsm
  have hafter := deref_processMsg { pm.msg with fsmId := fsm.fsmId } h
  have hfac' := (CfactoryMgr.deref_eq_some_iff.mp hafter).1
  rw [finishDispatch_some (Advance.prePrcMsg h).dispatchStep_eq,
    finishDispatch_some (Advance.processMsg h).dispatchStep_eq,
    finishDispatch_some (Advance.postPrcMsg hafter).dispatchStep_eq]
  by_cases hkill : (BusinessFsm.processMsg fac.kind fac.facId fsm { pm.msg with fsmId := fsm.fsmId }
      m.toMsgPorts).2.1.state = .killFsm
  · rw [finishDispatch_some (Advance.terminal hafter hkill).dispatchStep_eq,
      finishDispatch_some rfl, finishDispatch_none (Advance.killFsm hfac').dispatchStep_eq]
    simp only [CfactoryMgr.dispatchToFsm, if_pos hkill]
    rfl
  · rw [finishDispatch_none (Advance.goesOn hafter hkill).dispatchStep_eq]
    simp only [CfactoryMgr.dispatchToFsm, if_neg hkill]
    rfl

/-- A thread that takes no break computes `CfactoryMgr.dispatchMsg`. -/
theorem finishDispatch_dispatchMsg (m : CfactoryMgr K) (pm : PumpMsg) :
    finishDispatch 9 m ⟨pm, .dispatchMsg⟩ =
      some ((m.dispatchMsg pm).mgr, (m.dispatchMsg pm).events) := by
  cases hf : m.findFactory pm.msg.serviceId with
  | none =>
      rw [finishDispatch_none (Advance.unknownService hf).dispatchStep_eq]
      simp only [CfactoryMgr.dispatchMsg, hf]
  | some fac =>
      obtain ⟨hmem, -⟩ := CfactoryMgr.findFactory_eq_some_iff.mp hf
      have hfac := CfactoryMgr.findFactory_of_mem hmem
      rw [finishDispatch_some (Advance.service hf).dispatchStep_eq]
      simp only [CfactoryMgr.dispatchMsg, hf, CfactoryMgr.facMsgPrc]
      cases hr : fac.route pm.msg.fsmId with
      | some fsm =>
          have hd : m.deref fac.facId fsm.inst = some (fac, fsm) :=
            CfactoryMgr.deref_eq_some_iff.mpr ⟨hfac, Cfactory.deref_of_mem
              (Cfactory.mem_of_route hr).1⟩
          rw [finishDispatch_some (Advance.found hfac hr).dispatchStep_eq,
            finishDispatch_mono (finishDispatch_prePrcMsg hd) 1]
          rfl
      | none =>
          by_cases hi : pm.msg.type = .msgInit
          · rw [finishDispatch_some (Advance.missing hfac hr hi).dispatchStep_eq,
              if_neg (not_not.mpr hi)]
            rcases ha : fac.addFsm with _ | ⟨fsm, fac'⟩
            · rw [finishDispatch_none (Advance.full hfac ha).dispatchStep_eq]
              rfl
            · obtain ⟨-, hid, -, -, -, hlist⟩ := Cfactory.addFsm_some ha
              have hd : (m.setFactory fac').deref fac.facId fsm.inst = some (fac', fsm) :=
                CfactoryMgr.deref_eq_some_iff.mpr ⟨CfactoryMgr.findFactory_setFactory hfac hid,
                  Cfactory.deref_of_mem (by simp [hlist])⟩
              rw [finishDispatch_some (Advance.added hfac ha).dispatchStep_eq,
                finishDispatch_prePrcMsg hd]
              rfl
          · rw [finishDispatch_none (Advance.notFound hfac hr hi).dispatchStep_eq, if_pos hi]
            rfl

/-- A thread that used a dangling pointer does not return. -/
@[simp] theorem finishDispatch_undefined {pm : PumpMsg} :
    finishDispatch fuel m ⟨pm, .undefined⟩ = none := by
  induction fuel generalizing m with
  | zero => rfl
  | succ fuel ih => rw [finishDispatch_some (Advance.undefined).dispatchStep_eq, ih]; rfl

end Finish

/-! ## Steps before and after `ProcessMsg`

Only `ProcessMsg` looks at the ports, so what surrounds a dispatch can be moved past every
other step. -/

/-- The thread has handed its message to an instance and is not done with it. -/
def DispatchPc.handed : DispatchPc → Bool
  | .postPrcMsg .. | .getState .. | .notify .. | .killFsm .. => true
  | _ => false

/-- The step is a call of `ProcessMsg`. -/
def DispatchPc.isProcessMsg : DispatchPc → Bool
  | .processMsg .. => true
  | _ => false

section Ports

variable {m m' : CfactoryMgr K} {pm : PumpMsg} {pc : DispatchPc} {next : Option DispatchThread}
  {ev : List Event}

/-- A step other than `ProcessMsg` is the same over any ports, and leaves them alone. -/
theorem Advance.withPorts (h : Advance m pm pc next m' ev) (hpc : pc.isProcessMsg = false)
    (p : MsgPorts) :
    Advance (m.withPorts p) pm pc next (m'.withPorts p) ev ∧ m'.toMsgPorts = m.toMsgPorts := by
  cases h with
  | unknownService h => exact ⟨.unknownService h, rfl⟩
  | service h => exact ⟨.service h, rfl⟩
  | found h hr => exact ⟨.found h hr, rfl⟩
  | notFound h hr hi => exact ⟨.notFound h hr hi, rfl⟩
  | missing h hr hi => exact ⟨.missing h hr hi, rfl⟩
  | full h ha => exact ⟨.full h ha, rfl⟩
  | added h ha => exact ⟨.added h ha, rfl⟩
  | prePrcMsg h => exact ⟨.prePrcMsg h, rfl⟩
  | processMsg h => simp [DispatchPc.isProcessMsg] at hpc
  | postPrcMsg h => exact ⟨.postPrcMsg h, rfl⟩
  | terminal h hk => exact ⟨.terminal h hk, rfl⟩
  | goesOn h hk => exact ⟨.goesOn h hk, rfl⟩
  | notify => exact ⟨.notify, rfl⟩
  | killFsm h => exact ⟨.killFsm h, rfl⟩
  | noFactory hpc h => exact ⟨.noFactory hpc h, rfl⟩
  | dangling hpc h => exact ⟨.dangling hpc h, rfl⟩
  | undefined => exact ⟨.undefined, rfl⟩

/-- What a step does to the ports: nothing, or what the machine of an instance does to them. -/
theorem Advance.ports (h : Advance m pm pc next m' ev) : m'.toMsgPorts = m.toMsgPorts ∨
    ∃ (kind : K) (facId : UInt32) (fsm : Cfsm), m'.toMsgPorts =
      (BusinessFsm.processMsg kind facId fsm pm.msg m.toMsgPorts).2.2 := by
  cases hpc : pc.isProcessMsg with
  | false => exact .inl (h.withPorts hpc {}).2
  | true =>
      cases h with
      | processMsg => exact .inr ⟨_, _, _, rfl⟩
      | dangling | noFactory | undefined => exact .inl rfl
      | _ => simp [DispatchPc.isProcessMsg] at hpc

/-- Where a step leads: `ProcessMsg` and what follows it lead past `ProcessMsg`, the steps
before it do not. -/
theorem Advance.handed_next {th : DispatchThread} (h : Advance m pm pc (some th) m' ev)
    (hdef : th.pc ≠ .undefined) : th.pc.handed = (pc.handed || pc.isProcessMsg) := by
  cases h <;> first | rfl | simp at hdef

theorem DispatchPc.isProcessMsg_of_handed (h : pc.handed = true) : pc.isProcessMsg = false := by
  cases pc <;> simp_all [DispatchPc.handed, DispatchPc.isProcessMsg]

theorem finishDispatch_ne_undefined {fuel : ℕ} {th : DispatchThread}
    {res : CfactoryMgr K × List Event} (h : finishDispatch fuel m th = some res) :
    th.pc ≠ .undefined := by
  obtain ⟨pm, pc⟩ := th
  rintro rfl
  simp at h

/-- After `ProcessMsg` a thread finishes the same way over any ports. -/
theorem finishDispatch_withPorts {fuel : ℕ} {th : DispatchThread}
    (h : finishDispatch fuel m th = some (m', ev)) (hth : th.pc.handed = true) (p : MsgPorts) :
    finishDispatch fuel (m.withPorts p) th = some (m'.withPorts p, ev) ∧
      m'.toMsgPorts = m.toMsgPorts := by
  refine finishDispatch_induction
    (P := fun fuel m th m' ev => th.pc.handed = true →
      finishDispatch fuel (m.withPorts p) th = some (m'.withPorts p, ev) ∧
        m'.toMsgPorts = m.toMsgPorts) ?last ?more h hth
  case last =>
    intro fuel m th m' ev hadv hth
    obtain ⟨hadv', hports⟩ := hadv.withPorts (DispatchPc.isProcessMsg_of_handed hth) p
    exact ⟨finishDispatch_none hadv'.dispatchStep_eq, hports⟩
  case more =>
    intro fuel m th th' m₁ ev₁ m' ev₂ hadv hrest ih hth
    obtain ⟨hadv', hports⟩ := hadv.withPorts (DispatchPc.isProcessMsg_of_handed hth) p
    have hnext := hadv.handed_next (finishDispatch_ne_undefined hrest)
    obtain ⟨hfin, hports'⟩ := ih (by rw [hnext, hth]; rfl)
    refine ⟨?_, hports'.trans hports⟩
    rw [finishDispatch_some hadv'.dispatchStep_eq, hfin]
    rfl

end Ports

end FsmFramework
