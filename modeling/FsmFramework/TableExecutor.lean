import FsmFramework.Common

/-!
# The shared table executor

`FsmTableExecutor.h`: a business state machine is a table of transition rules, and one
executor runs them all. It is generic in the action type `A` of the rules, and in the
world `W` that the action and the follow-up act on, as the source's template is generic
in the machine it is instantiated with.
-/

namespace FsmFramework

/-- One transition rule. The source also keeps a log text in it that nothing reads. -/
structure FsmTransition (A : Type*) where
  fromState : Tstate
  event : MsgType
  toState : Tstate
  hasNext : Bool
  nextEvent : MsgType
  delayMs : UInt32
  action : Option A
  deriving DecidableEq, Repr

/-- One state machine instance. `inst` is its identity, the pointer of the source: the
number of instances its factory had created before it. -/
structure Cfsm where
  inst : ℕ
  fsmId : UInt32 := 0
  state : Tstate := .idle
  deriving DecidableEq, Repr

namespace Cfsm

/-- Change the state. The enter and exit hooks of the business machines are empty. -/
def setState (fsm : Cfsm) (state : Tstate) : Cfsm :=
  if fsm.state = state then fsm else { fsm with state := state }

/-- The common processing entry of the base class, which only writes to the log. -/
def processMsg (_fsm : Cfsm) (_msg : CMsg) : EerrNo := .success

@[simp] theorem setState_state (fsm : Cfsm) (s : Tstate) : (fsm.setState s).state = s := by
  rw [setState]; split <;> simp_all

@[simp] theorem setState_inst (fsm : Cfsm) (s : Tstate) : (fsm.setState s).inst = fsm.inst := by
  rw [setState]; split <;> rfl

@[simp] theorem setState_fsmId (fsm : Cfsm) (s : Tstate) :
    (fsm.setState s).fsmId = fsm.fsmId := by
  rw [setState]; split <;> rfl

theorem setState_self (fsm : Cfsm) : fsm.setState fsm.state = fsm := by simp [setState]

end Cfsm

variable {A W : Type*}

/-- The first rule for the current state and the event. -/
def findFsmTransition (transitions : List (FsmTransition A)) (state : Tstate)
    (event : MsgType) : Option (FsmTransition A) :=
  transitions.find? fun t => t.fromState = state ∧ t.event = event

/-- Look the rule up, run its action, enter its target state and post its follow-up.
A terminal machine takes no message; without a rule nothing happens. The instance and
the world after the step come back with the return code. -/
def executeFsmTransition (runAction : Option A → W → W)
    (postNextEvent : FsmTransition A → CMsg → Cfsm → W → EerrNo × W)
    (transitions : List (FsmTransition A)) (fsm : Cfsm) (msg : CMsg) (w : W) :
    EerrNo × Cfsm × W :=
  if fsm.state = .killFsm then (.invalidState, fsm, w)
  else if fsm.processMsg msg ≠ .success then (.invalidMsg, fsm, w)
  else match findFsmTransition transitions fsm.state msg.type with
    | none => (.invalidMsg, fsm, w)
    | some transition =>
        let w := runAction transition.action w
        let fsm := fsm.setState transition.toState
        if transition.hasNext then
          let (ret, w) := postNextEvent transition msg fsm w
          (ret, fsm, w)
        else (.success, fsm, w)

section Spec

variable {runAction : Option A → W → W}
  {postNextEvent : FsmTransition A → CMsg → Cfsm → W → EerrNo × W}
  {transitions : List (FsmTransition A)} {fsm : Cfsm} {msg : CMsg} {w : W}

/-- A rule that is found is in the table and matches. -/
theorem findFsmTransition_some {t : FsmTransition A} {state : Tstate} {event : MsgType}
    (h : findFsmTransition transitions state event = some t) :
    t ∈ transitions ∧ t.fromState = state ∧ t.event = event :=
  ⟨List.mem_of_find?_eq_some h, by simpa using List.find?_some h⟩

/-- A terminal machine refuses every message, whatever the table contains. -/
theorem executeFsmTransition_kill (h : fsm.state = .killFsm) :
    executeFsmTransition runAction postNextEvent transitions fsm msg w =
      (.invalidState, fsm, w) := by
  simp [executeFsmTransition, h]

/-- Without a matching rule nothing happens. -/
theorem executeFsmTransition_none (hk : fsm.state ≠ .killFsm)
    (h : findFsmTransition transitions fsm.state msg.type = none) :
    executeFsmTransition runAction postNextEvent transitions fsm msg w =
      (.invalidMsg, fsm, w) := by
  simp [executeFsmTransition, hk, h, Cfsm.processMsg]

/-- A rule without follow-up succeeds. -/
theorem executeFsmTransition_last {t : FsmTransition A} (hk : fsm.state ≠ .killFsm)
    (h : findFsmTransition transitions fsm.state msg.type = some t) (hn : t.hasNext = false) :
    executeFsmTransition runAction postNextEvent transitions fsm msg w =
      (.success, fsm.setState t.toState, runAction t.action w) := by
  simp [executeFsmTransition, hk, h, hn, Cfsm.processMsg]

/-- A rule with a follow-up returns what posting it returns, with the state already entered. -/
theorem executeFsmTransition_next {t : FsmTransition A} (hk : fsm.state ≠ .killFsm)
    (h : findFsmTransition transitions fsm.state msg.type = some t) (hn : t.hasNext = true) :
    executeFsmTransition runAction postNextEvent transitions fsm msg w =
      ((postNextEvent t msg (fsm.setState t.toState) (runAction t.action w)).1,
        fsm.setState t.toState,
        (postNextEvent t msg (fsm.setState t.toState) (runAction t.action w)).2) := by
  simp [executeFsmTransition, hk, h, hn, Cfsm.processMsg]

/-- A message is refused and does nothing, or a rule of the table is taken. -/
theorem executeFsmTransition_cases :
    (∃ ret, executeFsmTransition runAction postNextEvent transitions fsm msg w = (ret, fsm, w)) ∨
      ∃ t, fsm.state ≠ .killFsm ∧ findFsmTransition transitions fsm.state msg.type = some t ∧
        ((t.hasNext = false ∧
            executeFsmTransition runAction postNextEvent transitions fsm msg w =
              (.success, fsm.setState t.toState, runAction t.action w)) ∨
          (t.hasNext = true ∧
            executeFsmTransition runAction postNextEvent transitions fsm msg w =
              ((postNextEvent t msg (fsm.setState t.toState) (runAction t.action w)).1,
                fsm.setState t.toState,
                (postNextEvent t msg (fsm.setState t.toState) (runAction t.action w)).2))) := by
  by_cases hk : fsm.state = .killFsm
  · exact .inl ⟨_, executeFsmTransition_kill hk⟩
  cases h : findFsmTransition transitions fsm.state msg.type with
  | none => exact .inl ⟨_, executeFsmTransition_none hk h⟩
  | some t =>
      refine .inr ⟨t, hk, rfl, ?_⟩
      cases hn : t.hasNext with
      | false => exact .inl ⟨rfl, executeFsmTransition_last hk h hn⟩
      | true => exact .inr ⟨rfl, executeFsmTransition_next hk h hn⟩

/-- The executor changes neither the identity nor the id of an instance. -/
theorem executeFsmTransition_ids :
    (executeFsmTransition runAction postNextEvent transitions fsm msg w).2.1.inst = fsm.inst ∧
    (executeFsmTransition runAction postNextEvent transitions fsm msg w).2.1.fsmId =
      fsm.fsmId := by
  obtain ⟨ret, heq⟩ | ⟨t, -, -, ⟨-, heq⟩ | ⟨-, heq⟩⟩ :=
    @executeFsmTransition_cases A W runAction postNextEvent transitions fsm msg w
  all_goals simp [heq]

end Spec

end FsmFramework
