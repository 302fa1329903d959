import Mathlib.Data.UInt

/-!
# Messages, states and return codes

The vocabulary of the framework: the message object `CMsg` that every layer passes
along, the event types, the states of a state machine and the return codes. An
`unsigned int` of the source is a `UInt32`, so its arithmetic wraps as in the source.
-/

namespace FsmFramework

/-- Maximum number of FSM instances managed by one factory. -/
def fsmNumInFac : ℕ := 32

/-- The registration factory's id. -/
def facRegFacId : UInt32 := 1

/-- The authentication factory's id. -/
def facAuthFacId : UInt32 := 3

/-- Maximum number of factories in one manager. -/
def facNumInMgrMax : ℕ := 8

/-- Event types. -/
inductive MsgType
  | msgInit | msgConnect | msgReq | msgResp | msgTimeout | msgClose
  deriving DecidableEq, Repr

/-- States of a state machine. `killFsm` is terminal: the factory reclaims the instance. -/
inductive Tstate
  | idle | working | killFsm
  deriving DecidableEq, Repr

/-- Return codes. -/
inductive EerrNo
  | init | success | error | invalidState | invalidMsg | timerError
  deriving DecidableEq, Repr

/-- The message object. `serviceId` routes to a factory, `fsmId` to an instance in it;
an `fsmId` of zero addresses no instance. -/
structure CMsg where
  type : MsgType := .msgInit
  serviceId : UInt32 := 0
  fsmId : UInt32 := 0
  sessionId : UInt32 := 0
  msg : List UInt8 := []
  deriving DecidableEq, Repr

/-- What a factory reports when it reclaims an instance. -/
structure FsmCompletionEvent where
  serviceId : UInt32
  fsmId : UInt32
  sessionId : UInt32
  result : EerrNo
  finalEvent : MsgType
  deriving DecidableEq, Repr

/-- Who posted a message: a client of the manager, or an instance of a factory, named by
the order in which the factory created it. This is history: no step reads it. -/
inductive Sender
  | client (n : ℕ)
  | fsm (facId : UInt32) (inst : ℕ)
  deriving DecidableEq, Repr

/-- A message in the pump or in a timer, together with its sender. -/
structure PumpMsg where
  msg : CMsg
  sender : Sender
  deriving DecidableEq, Repr

end FsmFramework
