import FsmFramework.Lifecycle
import FsmFramework.ThreadFailure

/-!
# After a failed Start

`Start` sets `_running` before it creates the worker thread, and only the end of `Run` clears it. If
the constructor of the thread throws, there is no `Run` that could. This module follows such a
manager through the rest of any run in which clients leave it to the worker to dispatch, as `main`
and the tests do.

## Main results

* `failed_start_is_final` — no later `Start` succeeds, and no message is ever dispatched again.
-/

namespace FsmFramework

/-- The thread may take a message, or leave `Run`. -/
def CallPc.pumps : CallPc → Bool
  | .runLoop | .runDispatch | .runLeft | .drainTest | .pumpTop _ | .pumpDispatch _ => true
  | .idle | .joinTest | .joining | .joinFailed | .exited => false

namespace PumpSystem

variable {α : Type*} {s s' t : PumpSystem α} {l : PumpLabel α}

/-- Clients leave it to the worker to dispatch. -/
def leftToWorker (_s : PumpSystem α) : PumpLabel α → Prop
  | .call _ .run | .call _ .pumpOnce | .call _ .runUntilEmpty => False
  | _ => True

instance (s : PumpSystem α) : DecidablePred (leftToWorker s)
  | .call _ .run | .call _ .pumpOnce | .call _ .runUntilEmpty => isFalse id
  | .call _ .stop | .call _ .join | .sendMsg _ | .start | .advance _ => isTrue trivial

theorem leftToWorker.workerRuns (h : leftToWorker s l) : workerRuns s l := by
  cases l with
  | call n c => cases c <;> trivial
  | _ => trivial

/-- A `Start` that ends by the exception of the thread's constructor. -/
def startThrows (s : PumpSystem α) : Option (PumpSystem α) :=
  match s.pump.startWith false s.workerThread.isSome with
  | (none, p) => some { s with pump := p }
  | (some _, _) => none

/-- What it found, and what it leaves. -/
theorem startThrows_eq_some_iff : s.startThrows = some s' ↔
    s.pump.running = false ∧ s.workerThread = none ∧
      s' = { s with pump := { s.pump with stopped := false, running := true } } := by
  cases hr : s.pump.running <;> cases hw : s.workerThread <;>
    simp [startThrows, Pump.startWith, hr, hw, eq_comm]

/-! ## Nobody dispatches -/

/-- The manager counts as running, and there is nobody who could change that. -/
structure Dead (s : PumpSystem α) : Prop where
  running : s.pump.running = true
  workerThread : s.workerThread = none
  nobody : ∀ th, (s.pc th).pumps = false

theorem Moves.pumps {c pc : CallPc} (h : Moves c pc) (hc : c.pumps = false) :
    pc.pumps = false := by
  cases h with
  | dispatched | drained | drainTest | empty | pumped => cases hc
  | notJoinable | joinable | joinFailed => rfl

theorem Takes.pumps {c pc : CallPc} (h : Takes c pc) : c.pumps = true := by
  cases h <;> rfl

/-- What a thread does that cannot take a message: it moves, or it ends a `join`. -/
theorem advance_of_not_pumps {th : PumpThread} (h : s.advance th = some t)
    (hth : (s.pc th).pumps = false) : ∃ pc, pc.pumps = false ∧
      t.pump = s.pump ∧ t.popped = s.popped ∧ t.accepted = s.accepted ∧
      t.pc = Function.update s.pc th pc ∧ (s.workerThread = none → t.workerThread = none) := by
  cases advance_cases h with
  | moved hmoves => exact ⟨_, hmoves.pumps hth, rfl, rfl, rfl, rfl, id⟩
  | took htakes => simp [htakes.pumps] at hth
  | broke hpc | left hpc => simp [hpc, CallPc.pumps] at hth
  | joined hpc => exact ⟨.idle, rfl, rfl, rfl, rfl, rfl, fun _ => rfl⟩

/-- Clients that leave it to the worker never dispatch themselves. -/
theorem client_pumps_of_reachable (h : (lts α).ReachableVia leftToWorker s) (n : ℕ) :
    (s.pc (.client n)).pumps = false := by
  refine h.invariant (I := fun s => ∀ n, (s.pc (.client n)).pumps = false) ?init ?step n
  case init =>
    rintro s rfl n
    rfl
  case step =>
    intro s l t hI hl hs n
    cases l with
    | sendMsg m =>
        cases hs
        exact hI n
    | start =>
        cases hs
        by_cases hok : (s.pump.start s.workerThread.isSome).1 = .success
        · simpa [start_of_success hok] using hI n
        · rw [start_of_refused hok]
          exact hI n
    | call k c =>
        simp only [lts, step, Option.ite_none_right_eq_some, Option.some.injEq] at hs
        obtain ⟨-, rfl⟩ := hs
        by_cases hk : n = k
        · subst hk
          cases c with
          | run | pumpOnce | runUntilEmpty => exact hl.elim
          | stop | join => simp [enter, goto, CallPc.pumps]
        · have hne : PumpThread.client n ≠ .client k := by simpa using hk
          cases c <;> simpa [enter, goto, Function.update_of_ne hne] using hI n
    | advance th =>
        by_cases hth : th = .client n
        · obtain ⟨pc, hpc, -, -, -, hupd, -⟩ := advance_of_not_pumps hs (hth ▸ hI n)
          rw [hupd, hth, Function.update_self, hpc]
        · obtain ⟨-, ⟨pc, hupd, -⟩, -⟩ := advance_pc hs
          rw [hupd, Function.update_of_ne (Ne.symm hth)]
          exact hI n

/-- Where a `Start` throws, nobody is inside `Run`, and nobody gets there. -/
theorem dead_of_startThrows (h : (lts α).ReachableVia leftToWorker s)
    (hs : s.startThrows = some s') : Dead s' := by
  obtain ⟨hrun, hthread, rfl⟩ := startThrows_eq_some_iff.mp hs
  obtain ⟨hw, hI⟩ := reachable_lifecycleInv (h.mono fun _ _ hl => hl.workerRuns)
  refine ⟨rfl, hthread, fun th => ?_⟩
  cases th with
  | client n => exact client_pumps_of_reachable h n
  | worker w =>
      by_cases hlt : w < s.started
      · obtain hin | hexit := (reachable_startedInv h.reachable).begun w hlt
        · exact absurd (hI.running.mpr ⟨w, hin⟩) (by simp [hrun])
        · simp [hexit, CallPc.pumps]
      · simp [hw.fresh w (by omega), CallPc.pumps]

/-- The messages that a step adds are added at the end and stay there. -/
structure Piles (s t : PumpSystem α) : Prop where
  popped : t.popped = s.popped
  added : ∃ msgs, t.accepted = s.accepted ++ msgs ∧ t.pump.queue = s.pump.queue ++ msgs
  stopped : s.pump.stopped = true → t.pump.stopped = true ∧ t.accepted = s.accepted

theorem Piles.refl (s : PumpSystem α) : Piles s s := ⟨rfl, ⟨[], by simp⟩, fun h => ⟨h, rfl⟩⟩

theorem Piles.trans {u : PumpSystem α} (h : Piles s t) (h' : Piles t u) : Piles s u where
  popped := h'.popped.trans h.popped
  added := by
    obtain ⟨l, ha, hq⟩ := h.added
    obtain ⟨l', ha', hq'⟩ := h'.added
    exact ⟨l ++ l', by simp [ha', ha], by simp [hq', hq]⟩
  stopped hs := by
    obtain ⟨hs', ha⟩ := h.stopped hs
    obtain ⟨hs'', ha'⟩ := h'.stopped hs'
    exact ⟨hs'', ha'.trans ha⟩

/-- Where `_running` is set a `Start` changes nothing. -/
theorem Dead.start (h : Dead s) : s.start = s := by
  have hrun := h.running
  refine start_of_refused ?_
  simp [Pump.start, hrun]

/-- No step brings the manager back. -/
theorem Dead.step (h : Dead s) (hl : leftToWorker s l) (hs : s.step l = some t) :
    Dead t ∧ Piles s t := by
  have hmoved : ∀ th pc, pc.pumps = false → t.pc = Function.update s.pc th pc →
      ∀ u, (t.pc u).pumps = false := by
    intro th pc hpc hupd u
    rw [hupd]
    by_cases hu : u = th
    · rw [hu, Function.update_self, hpc]
    · rw [Function.update_of_ne hu]
      exact h.nobody u
  cases l with
  | sendMsg m =>
      cases hs
      cases hstopped : s.pump.stopped with
      | true =>
          simp only [PumpSystem.sendMsg, Pump.sendMsg_of_stopped hstopped]
          exact ⟨⟨h.running, h.workerThread, h.nobody⟩, rfl, ⟨[], by simp⟩, by simp [hstopped]⟩
      | false =>
          simp only [PumpSystem.sendMsg, Pump.sendMsg_of_running hstopped]
          exact ⟨⟨h.running, h.workerThread, h.nobody⟩, rfl, ⟨[m], by simp⟩, by simp [hstopped]⟩
  | start =>
      cases hs
      rw [h.start]
      exact ⟨h, Piles.refl s⟩
  | call n c =>
      simp only [PumpSystem.step, Option.ite_none_right_eq_some, Option.some.injEq] at hs
      obtain ⟨-, rfl⟩ := hs
      cases c with
      | run | pumpOnce | runUntilEmpty => exact hl.elim
      | stop =>
          exact ⟨⟨h.running, h.workerThread, hmoved (.client n) .joinTest rfl rfl⟩, rfl,
            ⟨[], by simp [enter, goto, Pump.stop]⟩, fun _ => ⟨rfl, rfl⟩⟩
      | join =>
          exact ⟨⟨h.running, h.workerThread, hmoved (.client n) .joinTest rfl rfl⟩, rfl,
            ⟨[], by simp [enter, goto]⟩, fun hstopped => ⟨hstopped, rfl⟩⟩
  | advance th =>
      obtain ⟨pc, hpc, hpump, hpopped, haccepted, hupd, hthread⟩ :=
        advance_of_not_pumps hs (h.nobody th)
      refine ⟨⟨hpump ▸ h.running, hthread h.workerThread, hmoved th pc hpc hupd⟩, hpopped,
        ⟨[], by simp [haccepted, hpump]⟩, fun hstopped => ⟨hpump ▸ hstopped, haccepted⟩⟩

/-- **A failed `Start` is final.** When the constructor of the worker thread throws in a `Start`,
and clients leave it to the worker to dispatch, then in the rest of any run every `Start` returns
`ERROR` and changes nothing; no message is ever taken from the queue, and those that are accepted
pile up in it; once a `Stop` has come none is accepted any more, and none ever will be; and a `Stop`
or `Join` that tests for a worker returns at once. -/
theorem failed_start_is_final (h : (lts α).ReachableVia leftToWorker s)
    (hs : s.startThrows = some s') (hrun : (lts α).RunVia leftToWorker s' t) :
    ((t.pump.start t.workerThread.isSome).1 = .error ∧ t.start = t) ∧ Piles s' t ∧
      (∀ u, (lts α).RunVia leftToWorker t u → Piles t u) ∧
      ∀ n, t.pc (.client n) = .joinTest →
        t.step (.advance (.client n)) = some (t.goto (.client n) .idle) := by
  have hpiles : ∀ {v u : PumpSystem α}, Dead v → (lts α).RunVia leftToWorker v u →
      Dead u ∧ Piles v u := by
    intro v u hv hvu
    refine hvu.invariant (I := fun u => Dead u ∧ Piles v u) ?_ ⟨hv, Piles.refl v⟩
    rintro w l w' ⟨hw, hpiles⟩ hl hstep
    obtain ⟨hw', hnext⟩ := hw.step hl hstep
    exact ⟨hw', hpiles.trans hnext⟩
  obtain ⟨ht, hst⟩ := hpiles (dead_of_startThrows h hs) hrun
  refine ⟨⟨?error, ht.start⟩, hst, fun u hu => (hpiles ht hu).2, fun n hn => ?returns⟩
  case error => simp [Pump.start, ht.running]
  case returns => simp [PumpSystem.step, PumpSystem.advance, hn, ht.workerThread]

/-- A message is posted, `Start` throws, another message is posted and `Start` is tried again. -/
theorem failed_start_is_final_new : ∃ s' t : PumpSystem ℕ,
    ({} : PumpSystem ℕ).startThrows = some s' ∧ t.pump.queue = [1, 2] ∧
      (t.pump.start t.workerThread.isSome).1 = .error ∧
      ∀ u, (lts ℕ).RunVia leftToWorker t u → u.popped = [] := by
  obtain ⟨t, ht, hqueue, hpopped⟩ : ∃ t : PumpSystem ℕ,
      (lts ℕ).exec (fun s l => decide (leftToWorker s l))
          { pump := { running := true } } [.sendMsg 1, .start, .sendMsg 2] = some t ∧
        t.pump.queue = [1, 2] ∧ t.popped = [] := ⟨_, rfl, rfl, rfl⟩
  have hrun := Lts.runVia_of_exec (M := lts ℕ) (fun _ _ => of_decide_eq_true) ht
  obtain ⟨hstart, -, hpiles, -⟩ := failed_start_is_final
    (Lts.ReachableVia.of_init (M := lts ℕ) (G := leftToWorker) rfl) rfl hrun
  exact ⟨_, t, rfl, hqueue, hstart.1, fun u hu => (hpiles u hu).popped.trans hpopped⟩

end PumpSystem

end FsmFramework
