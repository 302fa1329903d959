import FsmFramework.BusinessFsm
import FsmFramework.Lib.KeyedList
import FsmFramework.TableRuns

/-!
# The order of the rows

A table in which no two rows share a source state and an event means a partial function from
states and events to rows. The executor sees a table only through its lookup, so two tables with
the same lookup run alike, whatever the messages, the actions and the follow-ups are; the rows of
a deterministic table may stand in any order.

## Main results

* `findFsmTransition_perm_iff` — which tables are looked up alike in every order.
* `executeRun_congr` — tables with the same lookup run alike.
* `executeRun_perm` — the rows of a deterministic table may be reordered.
* `FsmKind.processMsg_perm` — the tables of the business machines are deterministic.
-/

namespace FsmFramework

variable {A W : Type*}

/-- What a row is looked up by. -/
def FsmTransition.key (transition : FsmTransition A) : Tstate × MsgType :=
  (transition.fromState, transition.event)

/-- No two rows share the source state and the event. -/
def Deterministic (transitions : List (FsmTransition A)) : Prop :=
  (transitions.map FsmTransition.key).Nodup

instance (transitions : List (FsmTransition A)) : Decidable (Deterministic transitions) :=
  inferInstanceAs (Decidable (transitions.map FsmTransition.key).Nodup)

/-! ## Lookup -/

section Lookup

variable {transitions transitions' : List (FsmTransition A)} {state : Tstate} {event : MsgType}

/-- The loop over the rows is the search for their key. -/
theorem findFsmTransition_eq_lookup : findFsmTransition transitions state event =
    KeyedList.lookup FsmTransition.key (state, event) transitions := by
  simp only [findFsmTransition, KeyedList.lookup, FsmTransition.key, Prod.mk.injEq]

/-- The order of the rows does not matter to the lookup exactly where rows with one key are
equal. -/
theorem findFsmTransition_perm_iff :
    (∀ transitions', transitions.Perm transitions' →
      findFsmTransition transitions = findFsmTransition transitions') ↔
    ∀ t ∈ transitions, ∀ u ∈ transitions, t.key = u.key → t = u := by
  rw [← KeyedList.lookup_perm_iff]
  constructor
  · rintro h transitions' hperm ⟨state, event⟩
    rw [← findFsmTransition_eq_lookup, h transitions' hperm, findFsmTransition_eq_lookup]
  · intro h transitions' hperm
    funext state event
    rw [findFsmTransition_eq_lookup, h transitions' hperm, findFsmTransition_eq_lookup]

theorem findFsmTransition_perm (hdet : Deterministic transitions)
    (hperm : transitions.Perm transitions') :
    findFsmTransition transitions = findFsmTransition transitions' := by
  funext state event
  rw [findFsmTransition_eq_lookup, findFsmTransition_eq_lookup]
  exact KeyedList.lookup_perm hdet hperm

end Lookup

/-! ## Runs -/

section Runs

/-- The machine at the start and after each message of a run. -/
def executeStates (runAction : Option A → W → W)
    (postNextEvent : FsmTransition A → CMsg → Cfsm → W → EerrNo × W)
    (transitions : List (FsmTransition A)) (fsm : Cfsm) (w : W) (msgs : List CMsg) : List Cfsm :=
  msgs.inits.map fun seen =>
    (executeRun runAction postNextEvent transitions fsm w seen).2.1

variable {runAction : Option A → W → W}
  {postNextEvent : FsmTransition A → CMsg → Cfsm → W → EerrNo × W}
  {transitions transitions' : List (FsmTransition A)}

/-- One message, as far as the executor sees the table. -/
theorem executeFsmTransition_congr
    (h : findFsmTransition transitions = findFsmTransition transitions') (fsm : Cfsm) (msg : CMsg)
    (w : W) : executeFsmTransition runAction postNextEvent transitions fsm msg w =
      executeFsmTransition runAction postNextEvent transitions' fsm msg w := by
  rw [executeFsmTransition, executeFsmTransition, h]

/-- Tables with the same lookup run alike. -/
theorem executeRun_congr (h : findFsmTransition transitions = findFsmTransition transitions')
    (fsm : Cfsm) (w : W) (msgs : List CMsg) :
    executeRun runAction postNextEvent transitions fsm w msgs =
      executeRun runAction postNextEvent transitions' fsm w msgs := by
  induction msgs generalizing fsm w with
  | nil => rfl
  | cons msg msgs ih =>
      rw [executeRun, executeRun, executeFsmTransition_congr h]
      simp only [ih]

theorem executeStates_congr (h : findFsmTransition transitions = findFsmTransition transitions')
    (fsm : Cfsm) (w : W) (msgs : List CMsg) :
    executeStates runAction postNextEvent transitions fsm w msgs =
      executeStates runAction postNextEvent transitions' fsm w msgs := by
  simp only [executeStates, executeRun_congr h]

end Runs

/-- **The order of the rows.** Two tables with the same rows, no two of them for one state and
event, run alike: from any machine, along any messages, with any actions and whatever the
follow-ups return, the return codes, the machines visited, the actions run and the follow-ups
requested are the same. -/
theorem executeRun_perm (runAction : Option A → W → W)
    (postNextEvent : FsmTransition A → CMsg → Cfsm → W → EerrNo × W)
    {transitions transitions' : List (FsmTransition A)} (hdet : Deterministic transitions)
    (hperm : transitions.Perm transitions') (fsm : Cfsm) (w : W) (msgs : List CMsg) :
    executeRun (recordAction runAction) (recordNextEvent postNextEvent) transitions fsm (w, [])
        msgs =
      executeRun (recordAction runAction) (recordNextEvent postNextEvent) transitions' fsm (w, [])
        msgs ∧
    executeRun runAction postNextEvent transitions fsm w msgs =
      executeRun runAction postNextEvent transitions' fsm w msgs ∧
    executeStates runAction postNextEvent transitions fsm w msgs =
      executeStates runAction postNextEvent transitions' fsm w msgs := by
  have hfind := findFsmTransition_perm hdet hperm
  exact ⟨executeRun_congr hfind fsm (w, []) msgs, executeRun_congr hfind fsm w msgs,
    executeStates_congr hfind fsm w msgs⟩

theorem executeRun_perm_reversed : ∃ effects,
    executeRun (recordAction fun _ w => w) (recordNextEvent fun _ _ _ w => (.success, w))
        RegFsm.getTransitions.reverse ⟨0, 1, .idle⟩ ((), []) [{}, { type := .msgClose }] =
      ([.success, .success], ⟨0, 1, .killFsm⟩, (), effects) ∧ effects.length = 3 ∧
    executeStates (fun _ w => w) (fun _ _ _ w => (.success, w)) RegFsm.getTransitions.reverse
        ⟨0, 1, .idle⟩ () [{}, { type := .msgClose }] =
      [⟨0, 1, .idle⟩, ⟨0, 1, .working⟩, ⟨0, 1, .killFsm⟩] := by
  obtain ⟨hrecord, -, hstates⟩ :=
    executeRun_perm (fun _ w => w) (fun _ _ _ w => (.success, w)) (by decide)
      RegFsm.getTransitions.reverse_perm.symm ⟨0, 1, .idle⟩ () [{}, { type := .msgClose }]
  rw [← hrecord, ← hstates]
  exact ⟨_, rfl, rfl, rfl⟩

namespace FsmKind

theorem deterministic_getTransitions (k : FsmKind) : Deterministic k.getTransitions := by
  cases k <;> decide

/-- A business machine behaves as over its table in any other order. -/
theorem processMsg_perm (k : FsmKind) {transitions : List (FsmTransition FsmAction)}
    (hperm : k.getTransitions.Perm transitions) (facId : UInt32) (fsm : Cfsm) (msg : CMsg)
    (p : MsgPorts) : k.processMsg facId fsm msg p =
      executeFsmTransition runAction (postNextEvent facId) transitions fsm msg p := by
  rw [processMsg_eq]
  exact executeFsmTransition_congr
    (findFsmTransition_perm k.deterministic_getTransitions hperm) fsm msg p

end FsmKind

end FsmFramework
