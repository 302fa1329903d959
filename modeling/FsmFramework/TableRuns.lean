import FsmFramework.TableExecutor

/-!
# Runs of the table executor

A machine that gets one message after the other, over any table, with any actions and any
follow-ups. Its run is a path in the table: each step takes the first row for the current state
and the event, runs the row's action, enters the row's target state and then requests the row's
follow-up. A message without a row does nothing, and `KILL_FSM` is the end of the path.

The actions run and the follow-ups requested are recorded beside the world that they act on.
-/

namespace FsmFramework

/-- What a step does to the world, as the executor asks for it. -/
inductive TableEffect (A : Type*)
  | action (action : Option A)
  | followUp (transition : FsmTransition A) (msg : CMsg)
  deriving DecidableEq, Repr

/-- What becomes of one message. -/
inductive TableOutcome (A : Type*)
  | invalidState
  | invalidMsg
  | taken (transition : FsmTransition A) (ret : EerrNo)
  deriving DecidableEq, Repr

section Runs

variable {A W : Type*} (runAction : Option A → W → W)
  (postNextEvent : FsmTransition A → CMsg → Cfsm → W → EerrNo × W)
  (transitions : List (FsmTransition A))

/-- One message after the other: the return codes, and the machine and the world at the end. -/
def executeRun (fsm : Cfsm) (w : W) : List CMsg → List EerrNo × Cfsm × W
  | [] => ([], fsm, w)
  | msg :: msgs =>
      let (ret, fsm, w) := executeFsmTransition runAction postNextEvent transitions fsm msg w
      let (rets, fsm, w) := executeRun fsm w msgs
      (ret :: rets, fsm, w)

/-! ## Paths in the table -/

/-- The first row for the state and the event. -/
def FirstRow (state : Tstate) (event : MsgType) (transition : FsmTransition A) : Prop :=
  transition.fromState = state ∧ transition.event = event ∧
    ∃ before after, transitions = before ++ transition :: after ∧
      ∀ t ∈ before, ¬ (t.fromState = state ∧ t.event = event)

/-- Requesting the follow-up of a row, if it has one. -/
def followUp (transition : FsmTransition A) (msg : CMsg) (fsm : Cfsm) (w : W) : EerrNo × W :=
  if transition.hasNext then postNextEvent transition msg fsm w else (.success, w)

/-- A path through the table along the messages. -/
inductive TablePath : Cfsm → W → List CMsg → List (TableOutcome A) → Cfsm → W → Prop
  | done (fsm : Cfsm) (w : W) : TablePath fsm w [] [] fsm w
  | killed {fsm fsm' : Cfsm} {w w' : W} {msg : CMsg} {msgs : List CMsg}
      {outcomes : List (TableOutcome A)} (hkill : fsm.state = .killFsm)
      (rest : TablePath fsm w msgs outcomes fsm' w') :
      TablePath fsm w (msg :: msgs) (.invalidState :: outcomes) fsm' w'
  | noRow {fsm fsm' : Cfsm} {w w' : W} {msg : CMsg} {msgs : List CMsg}
      {outcomes : List (TableOutcome A)} (hlive : fsm.state ≠ .killFsm)
      (hnone : ∀ t ∈ transitions, ¬ (t.fromState = fsm.state ∧ t.event = msg.type))
      (rest : TablePath fsm w msgs outcomes fsm' w') :
      TablePath fsm w (msg :: msgs) (.invalidMsg :: outcomes) fsm' w'
  | row {fsm fsm' : Cfsm} {w w₁ w' : W} {msg : CMsg} {msgs : List CMsg}
      {outcomes : List (TableOutcome A)} {t : FsmTransition A} {ret : EerrNo}
      (hlive : fsm.state ≠ .killFsm) (hrow : FirstRow transitions fsm.state msg.type t)
      (hnext : followUp postNextEvent t msg (fsm.setState t.toState) (runAction t.action w) =
        (ret, w₁))
      (rest : TablePath (fsm.setState t.toState) w₁ msgs outcomes fsm' w') :
      TablePath fsm w (msg :: msgs) (.taken t ret :: outcomes) fsm' w'

def TableOutcome.ret : TableOutcome A → EerrNo
  | .invalidState => .invalidState
  | .invalidMsg => .invalidMsg
  | .taken _ ret => ret

/-- The action of a row that is taken, and then its follow-up. -/
def TableOutcome.effects (msg : CMsg) : TableOutcome A → List (TableEffect A)
  | .invalidState | .invalidMsg => []
  | .taken t _ => .action t.action :: if t.hasNext then [.followUp t msg] else []

/-! ## The executor follows the path -/

variable {transitions} in
/-- The lookup finds the first row, or there is none. -/
theorem firstRow_of_find {state : Tstate} {event : MsgType} {t : FsmTransition A} :
    findFsmTransition transitions state event = some t → FirstRow transitions state event t := by
  intro h
  obtain ⟨-, hfrom, hevent⟩ := findFsmTransition_some h
  obtain ⟨-, before, after, rfl, hbefore⟩ := List.find?_eq_some_iff_append.mp h
  refine ⟨hfrom, hevent, before, after, rfl, ?_⟩
  rintro u hu ⟨hfrom', hevent'⟩
  simpa [hfrom', hevent'] using hbefore u hu

theorem noRow_of_find {state : Tstate} {event : MsgType}
    (h : findFsmTransition transitions state event = none) :
    ∀ t ∈ transitions, ¬ (t.fromState = state ∧ t.event = event) := by
  intro t ht
  simpa using List.find?_eq_none.mp h t ht

variable {runAction postNextEvent transitions} {fsm fsm₁ fsm' : Cfsm} {w w₁ w' : W} {msg : CMsg}
  {msgs : List CMsg} {ret : EerrNo} {rets : List EerrNo}

theorem executeRun_cons
    (h : executeFsmTransition runAction postNextEvent transitions fsm msg w = (ret, fsm₁, w₁))
    (hrun : executeRun runAction postNextEvent transitions fsm₁ w₁ msgs = (rets, fsm', w')) :
    executeRun runAction postNextEvent transitions fsm w (msg :: msgs) =
      (ret :: rets, fsm', w') := by
  simp only [executeRun, h, hrun]

/-- A row that is taken, with or without a follow-up. -/
theorem executeFsmTransition_row {t : FsmTransition A} (hlive : fsm.state ≠ .killFsm)
    (h : findFsmTransition transitions fsm.state msg.type = some t) :
    executeFsmTransition runAction postNextEvent transitions fsm msg w =
      ((followUp postNextEvent t msg (fsm.setState t.toState) (runAction t.action w)).1,
        fsm.setState t.toState,
        (followUp postNextEvent t msg (fsm.setState t.toState) (runAction t.action w)).2) := by
  cases hn : t.hasNext with
  | false => rw [executeFsmTransition_last hlive h hn, followUp, hn]; rfl
  | true => rw [executeFsmTransition_next hlive h hn, followUp, hn]; rfl

/-- The terminal state is left by no message. -/
theorem executeRun_killed (hkill : fsm.state = .killFsm) (w : W) (msgs : List CMsg) :
    executeRun runAction postNextEvent transitions fsm w msgs =
      (List.replicate msgs.length .invalidState, fsm, w) := by
  induction msgs with
  | nil => rfl
  | cons msg msgs ih => exact executeRun_cons (executeFsmTransition_kill hkill) ih

end Runs

/-! ## Recording the effects -/

section Record

variable {A W : Type*} (runAction : Option A → W → W)
  (postNextEvent : FsmTransition A → CMsg → Cfsm → W → EerrNo × W)

/-- The action, recorded. -/
def recordAction (action : Option A) (w : W × List (TableEffect A)) :
    W × List (TableEffect A) :=
  (runAction action w.1, w.2 ++ [.action action])

/-- The follow-up, recorded. -/
def recordNextEvent (t : FsmTransition A) (msg : CMsg) (fsm : Cfsm)
    (w : W × List (TableEffect A)) : EerrNo × W × List (TableEffect A) :=
  let (ret, w') := postNextEvent t msg fsm w.1
  (ret, w', w.2 ++ [.followUp t msg])

variable {runAction postNextEvent} {transitions : List (FsmTransition A)}

/-- The recorded effects of a row that is taken. -/
theorem followUp_record (t : FsmTransition A) (msg : CMsg) (fsm : Cfsm) (w : W)
    (effects : List (TableEffect A)) (ret : EerrNo) :
    followUp (recordNextEvent postNextEvent) t msg fsm
        (recordAction runAction t.action (w, effects)) =
      ((followUp postNextEvent t msg fsm (runAction t.action w)).1,
        (followUp postNextEvent t msg fsm (runAction t.action w)).2,
        effects ++ (TableOutcome.taken t ret).effects msg) := by
  cases hn : t.hasNext <;>
    simp [followUp, hn, recordAction, recordNextEvent, TableOutcome.effects]

/-- The executor follows a path, with the path's return codes and the path's effects. -/
theorem executeRun_path (msgs : List CMsg) (fsm : Cfsm) (w : W) (effects : List (TableEffect A)) :
    ∃ outcomes fsm' w', TablePath runAction postNextEvent transitions fsm w msgs outcomes fsm' w' ∧
      executeRun runAction postNextEvent transitions fsm w msgs =
        (outcomes.map TableOutcome.ret, fsm', w') ∧
      executeRun (recordAction runAction) (recordNextEvent postNextEvent) transitions fsm
          (w, effects) msgs =
        (outcomes.map TableOutcome.ret, fsm', w',
          effects ++ (List.zipWith TableOutcome.effects msgs outcomes).flatten) := by
  induction msgs generalizing fsm w effects with
  | nil => exact ⟨[], fsm, w, .done fsm w, rfl, by simp [executeRun]⟩
  | cons msg msgs ih =>
      by_cases hkill : fsm.state = .killFsm
      · obtain ⟨outcomes, fsm', w', hpath, hrun, hrecord⟩ := ih fsm w effects
        exact ⟨.invalidState :: outcomes, fsm', w', .killed hkill hpath,
          executeRun_cons (executeFsmTransition_kill hkill) hrun,
          executeRun_cons (executeFsmTransition_kill hkill) hrecord⟩
      cases hfind : findFsmTransition transitions fsm.state msg.type with
      | none =>
          obtain ⟨outcomes, fsm', w', hpath, hrun, hrecord⟩ := ih fsm w effects
          exact ⟨.invalidMsg :: outcomes, fsm', w', .noRow hkill (noRow_of_find _ hfind) hpath,
            executeRun_cons (executeFsmTransition_none hkill hfind) hrun,
            executeRun_cons (executeFsmTransition_none hkill hfind) hrecord⟩
      | some t =>
          cases hnext : followUp postNextEvent t msg (fsm.setState t.toState)
              (runAction t.action w) with
          | mk ret w₁ =>
              obtain ⟨outcomes, fsm', w', hpath, hrun, hrecord⟩ := ih (fsm.setState t.toState) w₁
                (effects ++ (TableOutcome.taken t ret).effects msg)
              refine ⟨.taken t ret :: outcomes, fsm', w',
                .row hkill (firstRow_of_find hfind) hnext hpath, ?_, ?_⟩
              · refine executeRun_cons ?_ hrun
                rw [executeFsmTransition_row hkill hfind, hnext]
                rfl
              · rw [List.append_assoc] at hrecord
                refine executeRun_cons ?_ hrecord
                rw [executeFsmTransition_row hkill hfind, followUp_record t msg _ w effects ret,
                  hnext]
                rfl

/-- **Runs of the table executor.** Over any table, from any state, with any actions and whatever
the follow-ups return: the run is a path in the table, step by step the first row for the state
and the event, a message without one being answered `INVALID_MSG` and changing nothing; the
actions and the follow-ups are those of the rows taken, in order; and once the machine is in
`KILL_FSM`, every later message is answered `INVALID_STATE` and changes nothing. -/
theorem table_runs (runAction : Option A → W → W)
    (postNextEvent : FsmTransition A → CMsg → Cfsm → W → EerrNo × W)
    (transitions : List (FsmTransition A)) (fsm : Cfsm) (w : W) (msgs : List CMsg) :
    ∃ outcomes fsm' w',
      TablePath runAction postNextEvent transitions fsm w msgs outcomes fsm' w' ∧
      executeRun runAction postNextEvent transitions fsm w msgs =
        (outcomes.map TableOutcome.ret, fsm', w') ∧
      executeRun (recordAction runAction) (recordNextEvent postNextEvent) transitions fsm
          (w, []) msgs =
        (outcomes.map TableOutcome.ret, fsm', w',
          (List.zipWith TableOutcome.effects msgs outcomes).flatten) ∧
      (fsm'.state = .killFsm → ∀ later effects,
        executeRun (recordAction runAction) (recordNextEvent postNextEvent) transitions fsm'
            (w', effects) later =
          (List.replicate later.length .invalidState, fsm', w', effects)) := by
  obtain ⟨outcomes, fsm', w', hpath, hrun, hrecord⟩ :=
    @executeRun_path A W runAction postNextEvent transitions msgs fsm w []
  refine ⟨outcomes, fsm', w', hpath, hrun, hrecord, fun hkill later effects => ?_⟩
  exact executeRun_killed hkill (w', effects) later

end Record

/-- A table with a row out of the terminal state. -/
def killTable : List (FsmTransition Unit) :=
  [⟨.idle, .msgInit, .killFsm, false, .msgInit, 0, none⟩,
    ⟨.killFsm, .msgInit, .idle, false, .msgInit, 0, none⟩]

theorem table_runs_killed : ∃ fsm',
    executeRun (fun _ w => w) (fun _ _ _ w => (.success, w)) killTable ⟨0, 1, .idle⟩ () [{}] =
        ([.success], fsm', ()) ∧
      executeRun (recordAction fun _ w => w) (recordNextEvent fun _ _ _ w => (.success, w))
        killTable fsm' ((), []) [{}] = ([.invalidState], fsm', (), []) := by
  obtain ⟨outcomes, fsm', w', -, hrun, -, hkilled⟩ :=
    table_runs (fun _ w => w) (fun _ _ _ w => (.success, w)) killTable ⟨0, 1, .idle⟩ () [{}]
  have hfsm : fsm' = ⟨0, 1, .killFsm⟩ := (congrArg (fun r => r.2.1) hrun).symm
  subst hfsm
  exact ⟨_, rfl, hkilled rfl [{}] []⟩

end FsmFramework
