import FsmFramework.MsgPorts
import FsmFramework.TableExecutor

/-!
# The business state machines

`RegFsm` and `AuthFsm`: two transition tables over the shared executor. The two classes
post their follow-ups by the same code, written here once; each keeps its own table and
its own `processMsg`.
-/

namespace FsmFramework

/-- The business actions. Each handler only writes to the log. -/
inductive FsmAction
  | handleInit | handleConnect | handleReq | handleResp | handleTimeout | handleClose
  deriving DecidableEq, Repr

/-- What a factory can instantiate: classes derived from `Cfsm`, each with the virtual
`ProcessMsg` a dispatch calls. It sees the instance, the message and what the instance can
reach of its manager, and leaves the identity and the id of the instance alone. -/
class BusinessFsm (K : Type*) where
  processMsg : K → UInt32 → Cfsm → CMsg → MsgPorts → EerrNo × Cfsm × MsgPorts
  processMsg_ids : ∀ k facId fsm msg p, (processMsg k facId fsm msg p).2.1.inst = fsm.inst ∧
    (processMsg k facId fsm msg p).2.1.fsmId = fsm.fsmId

/-- The classes of the framework. -/
inductive FsmKind
  | reg | auth
  deriving DecidableEq, Repr

/-- The rule as the tables write it: source state, event, target state, follow-up, delay. -/
private def rule (fromState : Tstate) (event : MsgType) (toState : Tstate) (hasNext : Bool)
    (nextEvent : MsgType) (delayMs : UInt32) (action : FsmAction) : FsmTransition FsmAction :=
  ⟨fromState, event, toState, hasNext, nextEvent, delayMs, some action⟩

def RegFsm.getTransitions : List (FsmTransition FsmAction) :=
  [rule .idle .msgInit .working true .msgConnect 0 .handleInit,
   rule .working .msgConnect .working true .msgReq 0 .handleConnect,
   rule .working .msgReq .working true .msgResp 0 .handleReq,
   rule .working .msgResp .working true .msgTimeout 100 .handleResp,
   rule .working .msgTimeout .working true .msgClose 0 .handleTimeout,
   rule .working .msgClose .killFsm false .msgClose 0 .handleClose]

def AuthFsm.getTransitions : List (FsmTransition FsmAction) :=
  [rule .idle .msgInit .working true .msgConnect 0 .handleInit,
   rule .working .msgConnect .working true .msgReq 0 .handleConnect,
   rule .working .msgReq .working true .msgResp 0 .handleReq,
   rule .working .msgResp .working true .msgClose 100 .handleResp,
   rule .working .msgClose .killFsm false .msgClose 0 .handleClose]

/-- The action of a rule, if it has one, only writes to the log. -/
def runAction (_action : Option FsmAction) (p : MsgPorts) : MsgPorts := p

/-- The follow-up of a message: its routing fields, session and payload are kept, the
event and the instance id are replaced. -/
def nextMsg (fsm : Cfsm) (currentMsg : CMsg) (nextType : MsgType) : CMsg :=
  { currentMsg with type := nextType, fsmId := fsm.fsmId }

/-- Post the follow-up at once, or after the delay by a timer. A timer id of zero counts
as a failure. `facId` is the factory that owns the instance. -/
def postNextEvent (facId : UInt32) (transition : FsmTransition FsmAction) (currentMsg : CMsg)
    (fsm : Cfsm) (p : MsgPorts) : EerrNo × MsgPorts :=
  let m : PumpMsg := ⟨nextMsg fsm currentMsg transition.nextEvent, .fsm facId fsm.inst⟩
  if transition.delayMs = 0 then p.sendMsg m
  else
    let r := p.startTimer transition.delayMs m
    (if r.1 = 0 then .timerError else .success, r.2)

/-- Posting the follow-up, accepted, refused or delayed, adds it to the traffic. -/
theorem traffic_postNextEvent (facId : UInt32) (tr : FsmTransition FsmAction) (msg : CMsg)
    (fsm : Cfsm) (p : MsgPorts) : (postNextEvent facId tr msg fsm p).2.traffic.Perm
      (⟨nextMsg fsm msg tr.nextEvent, .fsm facId fsm.inst⟩ :: p.traffic) := by
  rw [postNextEvent]
  split
  · exact MsgPorts.traffic_sendMsg _ _
  · exact MsgPorts.traffic_startTimer _ _ _

/-- What goes wrong with the follow-up is not reported as an invalid message. -/
theorem postNextEvent_ne_invalidMsg (facId : UInt32) (tr : FsmTransition FsmAction) (msg : CMsg)
    (fsm : Cfsm) (p : MsgPorts) : (postNextEvent facId tr msg fsm p).1 ≠ .invalidMsg := by
  rw [postNextEvent]
  split
  · exact MsgPorts.sendMsg_ne_invalidMsg _ _
  · dsimp only
    split <;> simp

def RegFsm.processMsg (facId : UInt32) (fsm : Cfsm) (msg : CMsg) (p : MsgPorts) :
    EerrNo × Cfsm × MsgPorts :=
  executeFsmTransition runAction (postNextEvent facId) RegFsm.getTransitions fsm msg p

def AuthFsm.processMsg (facId : UInt32) (fsm : Cfsm) (msg : CMsg) (p : MsgPorts) :
    EerrNo × Cfsm × MsgPorts :=
  executeFsmTransition runAction (postNextEvent facId) AuthFsm.getTransitions fsm msg p

namespace FsmKind

/-- The table of a class. -/
def getTransitions : FsmKind → List (FsmTransition FsmAction)
  | .reg => RegFsm.getTransitions
  | .auth => AuthFsm.getTransitions

/-- The virtual call `fsm->ProcessMsg(msg)`. -/
def processMsg : FsmKind → UInt32 → Cfsm → CMsg → MsgPorts → EerrNo × Cfsm × MsgPorts
  | .reg => RegFsm.processMsg
  | .auth => AuthFsm.processMsg

theorem processMsg_eq (k : FsmKind) (facId : UInt32) (fsm : Cfsm) (msg : CMsg) (p : MsgPorts) :
    k.processMsg facId fsm msg p =
      executeFsmTransition runAction (postNextEvent facId) k.getTransitions fsm msg p := by
  cases k <;> rfl

instance : BusinessFsm FsmKind where
  processMsg := FsmKind.processMsg
  processMsg_ids k facId fsm msg p := by
    rw [processMsg_eq]
    exact executeFsmTransition_ids

/-! ## The shape of the two tables -/

/-- The rule of a class for a state and an event. -/
def rule (k : FsmKind) (state : Tstate) (event : MsgType) : Option (FsmTransition FsmAction) :=
  findFsmTransition k.getTransitions state event

/-- The first message of a flow is taken in `IDLE`, enters `WORKING` and is followed at
once by `MSG_CONNECT`. -/
theorem rule_idle (k : FsmKind) {event : MsgType} {t : FsmTransition FsmAction}
    (h : k.rule .idle event = some t) :
    event = .msgInit ∧ t.toState = .working ∧ t.hasNext = true ∧ t.nextEvent = .msgConnect ∧
      t.delayMs = 0 := by
  cases k <;> cases event <;>
    simp_all [rule, findFsmTransition, getTransitions, RegFsm.getTransitions,
      AuthFsm.getTransitions, FsmFramework.rule] <;> subst h <;> simp

/-- `IDLE` takes `MSG_INIT`. -/
theorem rule_idle_init (k : FsmKind) : ∃ t, k.rule .idle .msgInit = some t := by
  cases k <;> exact ⟨_, rfl⟩

/-- In `WORKING` a rule either goes on with a follow-up that is not `MSG_INIT`, or takes
`MSG_CLOSE`, which ends the flow without one. -/
theorem rule_working (k : FsmKind) {event : MsgType} {t : FsmTransition FsmAction}
    (h : k.rule .working event = some t) :
    (event ≠ .msgClose ∧ t.toState = .working ∧ t.hasNext = true ∧ t.nextEvent ≠ .msgInit) ∨
      (event = .msgClose ∧ t.toState = .killFsm ∧ t.hasNext = false) := by
  cases k <;> cases event <;>
    simp_all [rule, findFsmTransition, getTransitions, RegFsm.getTransitions,
      AuthFsm.getTransitions, FsmFramework.rule] <;> subst h <;> simp

/-- No rule is followed up by `MSG_INIT`. -/
theorem nextEvent_ne_init (k : FsmKind) {t : FsmTransition FsmAction}
    (h : t ∈ k.getTransitions) : t.nextEvent ≠ .msgInit := by
  have hall : ∀ t ∈ k.getTransitions, t.nextEvent ≠ .msgInit := by cases k <;> decide
  exact hall t h

/-- `WORKING` takes `MSG_CLOSE`. -/
theorem rule_working_close (k : FsmKind) : ∃ t, k.rule .working .msgClose = some t := by
  cases k <;> exact ⟨_, rfl⟩

/-- A machine ignores a message, or takes a rule of its table, whose action leaves the ports
alone. -/
theorem processMsg_cases (k : FsmKind) (facId : UInt32) (fsm : Cfsm) (msg : CMsg) (p : MsgPorts) :
    (∃ ret, k.processMsg facId fsm msg p = (ret, fsm, p)) ∨
      ∃ t, fsm.state ≠ .killFsm ∧ k.rule fsm.state msg.type = some t ∧
        ((t.hasNext = false ∧
            k.processMsg facId fsm msg p = (.success, fsm.setState t.toState, p)) ∨
          (t.hasNext = true ∧ k.processMsg facId fsm msg p =
            ((postNextEvent facId t msg (fsm.setState t.toState) p).1, fsm.setState t.toState,
              (postNextEvent facId t msg (fsm.setState t.toState) p).2))) := by
  rw [processMsg_eq]
  exact executeFsmTransition_cases

/-- A machine becomes terminal in `WORKING`, by `MSG_CLOSE`. -/
theorem processMsg_killFsm (k : FsmKind) (facId : UInt32) {fsm : Cfsm} {msg : CMsg} (p : MsgPorts)
    (hs : fsm.state ≠ .killFsm) (h : (k.processMsg facId fsm msg p).2.1.state = .killFsm) :
    fsm.state = .working ∧ msg.type = .msgClose := by
  rcases k.processMsg_cases facId fsm msg p with ⟨ret, heq⟩ | ⟨t, -, hrule, hstep⟩
  · rw [heq] at h
    exact absurd h hs
  · have hto : t.toState = .killFsm := by
      obtain ⟨-, heq⟩ | ⟨-, heq⟩ := hstep
      · simpa [heq] using h
      · simpa [heq] using h
    cases hstate : fsm.state with
    | idle =>
        obtain ⟨-, hw, -⟩ := k.rule_idle (hstate ▸ hrule)
        simp [hto] at hw
    | working =>
        obtain ⟨-, hw, -⟩ | ⟨hclose, -⟩ := k.rule_working (hstate ▸ hrule)
        · simp [hto] at hw
        · exact ⟨rfl, hclose⟩
    | killFsm => exact absurd hstate hs

/-- What a machine does to the ports: nothing, or it posts the follow-up of a rule. -/
theorem ports_processMsg (k : FsmKind) (facId : UInt32) (fsm : Cfsm) (msg : CMsg) (p : MsgPorts) :
    (k.processMsg facId fsm msg p).2.2 = p ∨ ∃ t ∈ k.getTransitions,
      (k.processMsg facId fsm msg p).2.2 =
        (postNextEvent facId t msg (fsm.setState t.toState) p).2 := by
  rcases k.processMsg_cases facId fsm msg p with
    ⟨ret, heq⟩ | ⟨t, -, hrule, ⟨-, heq⟩ | ⟨-, heq⟩⟩
  · exact .inl (by rw [heq])
  · exact .inl (by rw [heq])
  · exact .inr ⟨t, (findFsmTransition_some hrule).1, by rw [heq]⟩

/-- What a machine adds to the traffic is nothing, or one message to itself that is not
`MSG_INIT`. -/
theorem traffic_processMsg (k : FsmKind) (facId : UInt32) (fsm : Cfsm) (msg : CMsg)
    (p : MsgPorts) :
    (k.processMsg facId fsm msg p).2.2.traffic = p.traffic ∨
      ∃ event, event ≠ .msgInit ∧ (k.processMsg facId fsm msg p).2.2.traffic.Perm
        (⟨nextMsg fsm msg event, .fsm facId fsm.inst⟩ :: p.traffic) := by
  rcases k.ports_processMsg facId fsm msg p with heq | ⟨t, ht, heq⟩
  · exact .inl (by rw [heq])
  · refine .inr ⟨t.nextEvent, k.nextEvent_ne_init ht, ?_⟩
    rw [heq]
    simpa [nextMsg] using traffic_postNextEvent facId t msg (fsm.setState t.toState) p

/-- A machine neither stops nor restarts the pump. -/
theorem stopped_processMsg (k : FsmKind) (facId : UInt32) (fsm : Cfsm) (msg : CMsg)
    (p : MsgPorts) : (k.processMsg facId fsm msg p).2.2.pump.stopped = p.pump.stopped := by
  rcases k.ports_processMsg facId fsm msg p with heq | ⟨t, -, heq⟩
  · rw [heq]
  · rw [heq, postNextEvent]
    split
    · exact MsgPorts.sendMsg_stopped
    · rfl

/-- A machine only appends to the queue. -/
theorem queue_processMsg (k : FsmKind) (facId : UInt32) (fsm : Cfsm) (msg : CMsg)
    (p : MsgPorts) : p.pump.queue <+: (k.processMsg facId fsm msg p).2.2.pump.queue := by
  rcases k.ports_processMsg facId fsm msg p with heq | ⟨t, -, heq⟩
  · rw [heq]
  · rw [heq, postNextEvent]
    split
    · exact MsgPorts.sendMsg_queue
    · exact List.prefix_rfl

end FsmKind

end FsmFramework
