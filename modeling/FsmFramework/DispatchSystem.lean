import Mathlib.Logic.Function.Basic
import FsmFramework.Lib.Lts
import FsmFramework.DispatchMachine

/-!
# Dispatchers, clients and timers side by side

The system a running manager is: any number of threads that dispatch, clients that post
and register factories, timer threads, and the lifecycle calls, in any order of their
atomic steps. A thread enters `DispatchMsg` by taking the front message of the pump and
leaves it by returning; in between it advances by `dispatchStep`.

The lifecycle of the worker thread is the subject of `PumpSystem`. Here `start` and
`leaveRun` may come at any time, which allows every order that they have there.

## Main definitions

* `dispatchSystem` — the system of a manager, from a given manager on.
* `serial` — the runs with one dispatcher and no registration.
* `CfactoryMgr.boot` — a manager with `RegFactory` and `AuthFactory` registered.
-/

namespace FsmFramework

/-- A manager, the threads inside `DispatchMsg`, and what happened so far. -/
structure DispatchState (K : Type*) where
  mgr : CfactoryMgr K
  threads : ℕ → Option DispatchThread
  events : List Event

/-- An atomic step. A factory is registered as its constructor leaves it. -/
inductive DispatchLabel (K : Type*)
  | env (l : EnvLabel)
  | registerFactory (factory : Option (UInt32 × K))
  | pop (t : ℕ)
  | advance (t : ℕ)

variable {K : Type*}

namespace DispatchState

/-- No dispatch is in progress. -/
def Quiet (s : DispatchState K) : Prop := ∀ t, s.threads t = none

/-- A manager between dispatches. -/
def resting (m : CfactoryMgr K) (events : List Event) : DispatchState K where
  mgr := m
  threads := fun _ => none
  events := events

/-- The factory that a registration is about, as its constructor leaves it. -/
def newFactory (factory : Option (UInt32 × K)) : Option (Cfactory K) :=
  factory.map fun f => Cfactory.new f.1 f.2

variable [BusinessFsm K]

/-- Take a step, if it is enabled. -/
def step (s : DispatchState K) : DispatchLabel K → Option (DispatchState K)
  | .env l => (s.mgr.env l).map fun p => { s with mgr := s.mgr.withPorts p }
  | .registerFactory factory =>
      some { s with mgr := (s.mgr.registerFactory (newFactory factory)).2 }
  | .pop t =>
      match s.threads t with
      | some _ => none
      | none =>
          s.mgr.pop.map fun r =>
            { s with
              mgr := s.mgr.withPorts r.2
              threads := Function.update s.threads t (some ⟨r.1, .dispatchMsg⟩) }
  | .advance t =>
      (s.threads t).map fun th =>
        let r := dispatchStep s.mgr th
        { mgr := r.mgr
          threads := Function.update s.threads t r.thread
          events := s.events ++ r.events }

variable {s s' : DispatchState K} {t : ℕ}

theorem step_env_iff {l : EnvLabel} : s.step (.env l) = some s' ↔
    ∃ p, s.mgr.env l = some p ∧ s' = { s with mgr := s.mgr.withPorts p } := by
  simp [step, eq_comm]

theorem step_registerFactory_iff {factory : Option (UInt32 × K)} :
    s.step (.registerFactory factory) = some s' ↔
      s' = { s with mgr := (s.mgr.registerFactory (newFactory factory)).2 } := by
  simp [step, eq_comm]

theorem step_pop_iff : s.step (.pop t) = some s' ↔
    s.threads t = none ∧ ∃ pm p, s.mgr.toMsgPorts = p.unpop pm ∧
      s' = { s with
        mgr := s.mgr.withPorts p
        threads := Function.update s.threads t (some ⟨pm, .dispatchMsg⟩) } := by
  cases ht : s.threads t with
  | some th => simp [step, ht]
  | none =>
      simp only [step, ht, Option.map_eq_some_iff, Prod.exists, MsgPorts.pop_eq_some_iff,
        true_and]
      simp only [eq_comm]

/-- What an advancing thread does, by the cases of `Advance`. -/
theorem step_advance_iff : s.step (.advance t) = some s' ↔
    ∃ th next m' ev, s.threads t = some th ∧ Advance s.mgr th.pm th.pc next m' ev ∧
      s' = { mgr := m'
             threads := Function.update s.threads t next
             events := s.events ++ ev } := by
  simp only [step, Option.map_eq_some_iff]
  constructor
  · rintro ⟨th, hth, rfl⟩
    exact ⟨th, _, _, _, hth, advance_dispatchStep s.mgr th, rfl⟩
  · rintro ⟨th, next, m', ev, hth, hadv, rfl⟩
    refine ⟨th, hth, ?_⟩
    rw [show dispatchStep s.mgr th = ⟨next, m', ev⟩ from hadv.dispatchStep_eq]

/-- Events are never taken back. -/
theorem step_events {l : DispatchLabel K} (hs : s.step l = some s') : s.events <+: s'.events := by
  cases l with
  | env l =>
      obtain ⟨p, -, rfl⟩ := step_env_iff.mp hs
      exact List.prefix_rfl
  | registerFactory factory =>
      obtain rfl := step_registerFactory_iff.mp hs
      exact List.prefix_rfl
  | pop t =>
      obtain ⟨-, pm, p, -, rfl⟩ := step_pop_iff.mp hs
      exact List.prefix_rfl
  | advance t =>
      obtain ⟨th, next, m', ev, -, -, rfl⟩ := step_advance_iff.mp hs
      exact List.prefix_append _ _

/-- The threads after one of them has moved. -/
theorem threads_update {threads : ℕ → Option DispatchThread} {t u : ℕ}
    {next : Option DispatchThread} {th : DispatchThread}
    (h : Function.update threads t next u = some th) :
    (u = t ∧ next = some th) ∨ (u ≠ t ∧ threads u = some th) := by
  by_cases hu : u = t
  · subst hu
    rw [Function.update_self] at h
    exact .inl ⟨rfl, h⟩
  · rw [Function.update_of_ne hu] at h
    exact .inr ⟨hu, h⟩

/-- A thread inside a dispatch moves only when it takes a step itself. -/
theorem step_threads {l : DispatchLabel K} {th : DispatchThread} (hs : s.step l = some s')
    (hl : l ≠ .advance t) (ht : s.threads t = some th) : s'.threads t = some th := by
  cases l with
  | env l =>
      obtain ⟨p, -, rfl⟩ := step_env_iff.mp hs
      exact ht
  | registerFactory factory =>
      obtain rfl := step_registerFactory_iff.mp hs
      exact ht
  | pop u =>
      obtain ⟨hu, pm, p, -, rfl⟩ := step_pop_iff.mp hs
      have hne : t ≠ u := by
        rintro rfl
        simp [hu] at ht
      exact (Function.update_of_ne hne _ _).trans ht
  | advance u =>
      obtain ⟨th', next, m', ev, -, -, rfl⟩ := step_advance_iff.mp hs
      have hne : t ≠ u := by
        rintro rfl
        exact hl rfl
      exact (Function.update_of_ne hne _ _).trans ht

end DispatchState

section System

variable [BusinessFsm K]

/-- All runs from a manager on. -/
def dispatchSystem (m : CfactoryMgr K) : Lts (DispatchState K) (DispatchLabel K) where
  init s := s = .resting m []
  step := DispatchState.step

/-- One dispatcher: the next message is taken when no dispatch is in progress. No factory is
registered any more, and the surroundings take the steps that `E` admits. -/
def serial (E : EnvLabel → Prop) (s : DispatchState K) : DispatchLabel K → Prop
  | .env l => E l
  | .registerFactory _ => False
  | .pop _ => s.Quiet
  | .advance _ => True

end System

/-- The manager of `main`: `RegFactory` and `AuthFactory` are registered. -/
def CfactoryMgr.boot : CfactoryMgr FsmKind :=
  let m := (CfactoryMgr.new.registerFactory (some (Cfactory.new facRegFacId .reg))).2
  (m.registerFactory (some (Cfactory.new facAuthFacId .auth))).2

/-- The two factories, fresh, over empty ports. -/
theorem CfactoryMgr.boot_eq :
    CfactoryMgr.boot.facList = [Cfactory.new facRegFacId .reg, Cfactory.new facAuthFacId .auth] ∧
      CfactoryMgr.boot.toMsgPorts = {} := ⟨rfl, rfl⟩

end FsmFramework
