import FsmFramework.Lib.Lts
import FsmFramework.Pump
import Mathlib.Logic.Function.Basic

/-!
# The pump under any interleaving of its callers

`Run`, `PumpOnce`, `RunUntilEmpty`, `Start`, `Stop` and `Join` as they interleave: a
thread is a program counter inside one of these calls, and one step is one block under
`_pump_lock`, one `joinable` test, one `join`, or the return of a `DispatchMsg`. What a
dispatch does to the pump is left open: any thread may call `SendMsg` at any time.

`accepted` and `popped` are history: the messages `SendMsg` took, in lock order, and the
messages handed to `DispatchMsg`, in lock order. No step reads them.
-/

namespace FsmFramework

/-- A client thread, or the `n`-th worker thread that `Start` created. -/
inductive PumpThread
  | client (n : ℕ)
  | worker (n : ℕ)
  deriving DecidableEq, Repr

/-- Where a thread stands. `drain` tells `PumpOnce` under `RunUntilEmpty` from a call of
its own. -/
inductive CallPc
  | idle                          -- a client in no call, a worker not started yet
  | runLoop                       -- `Run` at its wait
  | runDispatch                   -- `Run` inside `DispatchMsg`
  | runLeft                       -- `Run` after its loop
  | drainTest                     -- `RunUntilEmpty` at its test
  | pumpTop (drain : Bool)        -- `PumpOnce` at its block
  | pumpDispatch (drain : Bool)   -- `PumpOnce` inside `DispatchMsg`
  | joinTest                      -- `Join` at its `joinable` test
  | joining                       -- `Join` inside `join`
  | joinFailed                    -- `join` was called on a thread object not joinable
  | exited                        -- the worker thread has returned
  deriving DecidableEq, Repr

/-- The calls a client can make. -/
inductive PumpCall
  | run | pumpOnce | runUntilEmpty | stop | join
  deriving DecidableEq, Repr

inductive PumpLabel (α : Type*)
  | sendMsg (m : α)
  | start
  | call (n : ℕ) (c : PumpCall)
  | advance (t : PumpThread)
  deriving Repr

/-- The pump, the thread object `_worker_thread` and every thread's program counter. -/
structure PumpSystem (α : Type*) where
  pump : Pump α := {}
  workerThread : Option ℕ := none
  started : ℕ := 0
  pc : PumpThread → CallPc := fun _ => .idle
  accepted : List α := []
  popped : List α := []

namespace PumpSystem

variable {α : Type*}

/-- `SendMsg`, by any thread. -/
def sendMsg (s : PumpSystem α) (m : α) : PumpSystem α :=
  let r := s.pump.sendMsg m
  { s with pump := r.2, accepted := if r.1 = .success then s.accepted ++ [m] else s.accepted }

/-- `Start`, one block under the lock. A new worker begins at the top of `Run`. -/
def start (s : PumpSystem α) : PumpSystem α :=
  let r := s.pump.start s.workerThread.isSome
  if r.1 = .success then
    { s with
      pump := r.2, workerThread := some s.started, started := s.started + 1
      pc := Function.update s.pc (.worker s.started) .runLoop }
  else { s with pump := r.2 }

/-- Move one thread's program counter. -/
def goto (s : PumpSystem α) (t : PumpThread) (pc : CallPc) : PumpSystem α :=
  { s with pc := Function.update s.pc t pc }

/-- A client enters a call. `Stop` sets the flag and then calls `Join`. -/
def enter (s : PumpSystem α) (t : PumpThread) : PumpCall → PumpSystem α
  | .run => s.goto t .runLoop
  | .pumpOnce => s.goto t (.pumpTop false)
  | .runUntilEmpty => s.goto t .drainTest
  | .stop => { s.goto t .joinTest with pump := s.pump.stop }
  | .join => s.goto t .joinTest

/-- Take the front message and go on to `DispatchMsg`. -/
def popInto (s : PumpSystem α) (t : PumpThread) (pc : CallPc) : Option (PumpSystem α) :=
  s.pump.pop.map fun r => { s.goto t pc with pump := r.2, popped := s.popped ++ [r.1] }

/-- Where a thread goes when it returns from the function it runs. -/
def afterRun : PumpThread → CallPc
  | .client _ => .idle
  | .worker _ => .exited

/-- Where `PumpOnce` returns to. -/
def afterPumpOnce (drain : Bool) : CallPc := if drain then .drainTest else .idle

/-- The next step of thread `t` in the call it is in. -/
def advance (s : PumpSystem α) (t : PumpThread) : Option (PumpSystem α) :=
  match s.pc t with
  | .idle | .joinFailed | .exited => none
  | .runLoop =>
      if s.pump.stopped ∧ s.pump.queue = [] then some (s.goto t .runLeft)
      else s.popInto t .runDispatch
  | .runDispatch => some (s.goto t .runLoop)
  | .runLeft => some { s.goto t (afterRun t) with pump := s.pump.leaveRun }
  | .drainTest => some (s.goto t (if s.pump.queue = [] then .idle else .pumpTop true))
  | .pumpTop drain =>
      if s.pump.queue = [] then some (s.goto t (afterPumpOnce drain))
      else s.popInto t (.pumpDispatch drain)
  | .pumpDispatch drain => some (s.goto t (afterPumpOnce drain))
  | .joinTest => some (s.goto t (if s.workerThread.isSome then .joining else .idle))
  | .joining =>
      match s.workerThread with
      | none => some (s.goto t .joinFailed)
      | some w =>
          if s.pc (.worker w) = .exited then
            some { s.goto t .idle with workerThread := none }
          else none

/-- One step of the system. -/
def step (s : PumpSystem α) : PumpLabel α → Option (PumpSystem α)
  | .sendMsg m => some (s.sendMsg m)
  | .start => some s.start
  | .call n c => if s.pc (.client n) = .idle then some (s.enter (.client n) c) else none
  | .advance t => s.advance t

/-- The pump as `Cfactory_mgr`'s constructor leaves it, every thread outside. -/
def lts (α : Type*) : Lts (PumpSystem α) (PumpLabel α) where
  init s := s = {}
  step := step

/-! ## The steps of a thread -/

/-- Where a thread goes in a step that does nothing else. -/
inductive Moves : CallPc → CallPc → Prop
  | dispatched : Moves .runDispatch .runLoop
  | drained : Moves .drainTest .idle
  | drainTest : Moves .drainTest (.pumpTop true)
  | empty (drain : Bool) : Moves (.pumpTop drain) (afterPumpOnce drain)
  | pumped (drain : Bool) : Moves (.pumpDispatch drain) (afterPumpOnce drain)
  | notJoinable : Moves .joinTest .idle
  | joinable : Moves .joinTest .joining
  | joinFailed : Moves .joining .joinFailed

/-- Where a thread goes with the front message. -/
inductive Takes : CallPc → CallPc → Prop
  | run : Takes .runLoop .runDispatch
  | pumpOnce (drain : Bool) : Takes (.pumpTop drain) (.pumpDispatch drain)

/-- What a thread can do in the call it is in. -/
inductive ThreadStep (s : PumpSystem α) (th : PumpThread) : PumpSystem α → Prop
  | moved {pc : CallPc} (hpc : Moves (s.pc th) pc) : ThreadStep s th (s.goto th pc)
  | took {m : α} {p : Pump α} {pc : CallPc} (hpc : Takes (s.pc th) pc)
      (hpop : s.pump = p.unpop m) :
      ThreadStep s th { s.goto th pc with pump := p, popped := s.popped ++ [m] }
  | broke (hpc : s.pc th = .runLoop) (hexit : s.pump.stopped = true ∧ s.pump.queue = []) :
      ThreadStep s th (s.goto th .runLeft)
  | left (hpc : s.pc th = .runLeft) :
      ThreadStep s th { s.goto th (afterRun th) with pump := s.pump.leaveRun }
  | joined {w : ℕ} (hpc : s.pc th = .joining) (hw : s.workerThread = some w)
      (hexit : s.pc (.worker w) = .exited) :
      ThreadStep s th { s.goto th .idle with workerThread := none }

theorem Moves.ne {c pc : CallPc} (h : Moves c pc) :
    (c ≠ .idle ∧ c ≠ .exited) ∧ c ≠ .runLeft ∧ pc ≠ .runLeft := by
  cases h with
  | empty drain | pumped drain => cases drain <;> simp [afterPumpOnce]
  | _ => simp

theorem Takes.ne {c pc : CallPc} (h : Takes c pc) :
    (c ≠ .idle ∧ c ≠ .exited) ∧ c ≠ .runLeft ∧ pc ≠ .runLeft := by
  cases h <;> simp

theorem advance_cases {s t : PumpSystem α} {th : PumpThread} (h : s.advance th = some t) :
    ThreadStep s th t := by
  have htook : ∀ {pc}, Takes (s.pc th) pc → s.popInto th pc = some t → ThreadStep s th t := by
    intro pc hpc hp
    obtain ⟨⟨m, p⟩, hpop, rfl⟩ := Option.map_eq_some_iff.mp hp
    exact .took hpc (Pump.pop_eq_some_iff.mp hpop)
  rw [advance] at h
  split at h
  case h_1 | h_2 | h_3 => contradiction
  case h_4 hpc =>
    split at h
    · rename_i hexit
      exact Option.some.inj h ▸ .broke hpc hexit
    · exact htook (hpc ▸ .run) h
  case h_5 hpc => exact Option.some.inj h ▸ .moved (hpc ▸ .dispatched)
  case h_6 hpc => exact Option.some.inj h ▸ .left hpc
  case h_7 hpc =>
    obtain rfl := Option.some.inj h
    refine .moved ?_
    rw [hpc]
    split
    · exact .drained
    · exact .drainTest
  case h_8 drain hpc =>
    split at h
    · exact Option.some.inj h ▸ .moved (hpc ▸ .empty drain)
    · exact htook (hpc ▸ .pumpOnce drain) h
  case h_9 drain hpc => exact Option.some.inj h ▸ .moved (hpc ▸ .pumped drain)
  case h_10 hpc =>
    obtain rfl := Option.some.inj h
    refine .moved ?_
    rw [hpc]
    split
    · exact .joinable
    · exact .notJoinable
  case h_11 hpc =>
    split at h
    · exact Option.some.inj h ▸ .moved (hpc ▸ .joinFailed)
    · rename_i w hw
      split at h
      · rename_i hexit
        exact Option.some.inj h ▸ .joined hpc hw hexit
      · contradiction

/-! ## What one step does to the queue -/

/-- The effect of a step on the queue, the stop flag and the two histories. -/
inductive QueueEffect (s t : PumpSystem α) : Prop
  | unchanged (hq : t.pump.queue = s.pump.queue) (hs : t.pump.stopped = s.pump.stopped)
      (ha : t.accepted = s.accepted) (hp : t.popped = s.popped)
  | sent (m : α) (hopen : s.pump.stopped = false) (hq : t.pump.queue = s.pump.queue ++ [m])
      (hs : t.pump.stopped = s.pump.stopped) (ha : t.accepted = s.accepted ++ [m])
      (hp : t.popped = s.popped)
  | popped (m : α) (hq : s.pump.queue = m :: t.pump.queue)
      (hs : t.pump.stopped = s.pump.stopped) (ha : t.accepted = s.accepted)
      (hp : t.popped = s.popped ++ [m])
  | flagged (hq : t.pump.queue = s.pump.queue) (hs : t.pump.stopped = true)
      (ha : t.accepted = s.accepted) (hp : t.popped = s.popped)

/-- A successful `Start`: the one step that clears the stop flag. -/
def Starts (s : PumpSystem α) (l : PumpLabel α) : Prop :=
  l = .start ∧ (s.pump.start s.workerThread.isSome).1 = .success

variable {s t : PumpSystem α}

/-- What a successful `Start` does, and what it found. -/
theorem start_of_success (h : (s.pump.start s.workerThread.isSome).1 = .success) :
    s.start = { s with
      pump := { s.pump with stopped := false, running := true }
      workerThread := some s.started, started := s.started + 1
      pc := Function.update s.pc (.worker s.started) .runLoop } := by
  obtain ⟨hr, hj⟩ := (Pump.start_success_iff _ _).mp h
  simp [start, Pump.start, hr, hj]

/-- A refused `Start` changes nothing. -/
theorem start_of_refused (h : (s.pump.start s.workerThread.isSome).1 ≠ .success) :
    s.start = s := by
  simp [start, h, Pump.start_of_ne_success h]

private theorem advance_effect {th : PumpThread} (h : s.advance th = some t) :
    QueueEffect s t := by
  cases advance_cases h with
  | moved | broke | left | joined => exact .unchanged rfl rfl rfl rfl
  | took hpc hpop =>
      exact .popped _ (by simp [hpop, Pump.unpop]) (by simp [hpop, Pump.unpop]) rfl rfl

/-- Every step other than a successful `Start` has one of the four effects. -/
theorem step_effect {l : PumpLabel α} (hl : ¬ Starts s l) (h : s.step l = some t) :
    QueueEffect s t := by
  cases l with
  | sendMsg m =>
      obtain rfl := Option.some.inj h
      cases hs : s.pump.stopped with
      | true =>
          simp only [sendMsg, Pump.sendMsg_of_stopped hs]
          exact .unchanged rfl rfl (by simp) rfl
      | false =>
          simp only [sendMsg, Pump.sendMsg_of_running hs]
          exact .sent m hs rfl rfl (by simp) rfl
  | start =>
      obtain rfl := Option.some.inj h
      have hne : (s.pump.start s.workerThread.isSome).1 ≠ .success := fun he => hl ⟨rfl, he⟩
      rw [start_of_refused hne]
      exact .unchanged rfl rfl rfl rfl
  | call n c =>
      simp only [step] at h
      split at h
      · obtain rfl := Option.some.inj h
        cases c
        case stop => exact .flagged rfl rfl rfl rfl
        all_goals exact .unchanged rfl rfl rfl rfl
      · contradiction
  | advance th => exact advance_effect h

/-- `Start` leaves the queue and the histories alone. -/
theorem start_queue (s : PumpSystem α) :
    s.start.pump.queue = s.pump.queue ∧ s.start.accepted = s.accepted ∧
      s.start.popped = s.popped := by
  by_cases h : (s.pump.start s.workerThread.isSome).1 = .success
  · simp [start_of_success h]
  · simp [start_of_refused h]

/-! ## First in, first out -/

/-- What was accepted is what was popped, followed by what still waits. -/
def Fifo (s : PumpSystem α) : Prop := s.accepted = s.popped ++ s.pump.queue

theorem step_fifo {l : PumpLabel α} (hI : Fifo s) (h : s.step l = some t) : Fifo t := by
  rw [Fifo] at hI ⊢
  by_cases hl : Starts s l
  · obtain ⟨rfl, -⟩ := hl
    obtain rfl := Option.some.inj h
    obtain ⟨hq, ha, hp⟩ := start_queue s
    rw [hq, ha, hp, hI]
  · cases step_effect hl h with
    | unchanged hq _ ha hp | flagged hq _ ha hp => rw [hq, ha, hp, hI]
    | sent m _ hq _ ha hp => rw [hq, ha, hp, hI, List.append_assoc]
    | popped m hq _ ha hp => rw [ha, hp, hI, hq, List.append_assoc, List.singleton_append]

theorem reachable_fifo (h : (lts α).Reachable s) : Fifo s := by
  refine h.invariant (I := Fifo) ?init ?step
  case init => rintro s rfl; rfl
  case step => exact fun s l t hI _ h => step_fifo hI h

/-! ## Drained and closed -/

/-- Stopped with nothing left to dispatch. -/
def Drained (s : PumpSystem α) : Prop := s.pump.stopped = true ∧ s.pump.queue = []

/-- Only a successful `Start` ends the drained state. -/
theorem step_drained {l : PumpLabel α} (hl : ¬ Starts s l) (hI : Drained s)
    (h : s.step l = some t) : Drained t := by
  obtain ⟨hs, hq⟩ := hI
  cases step_effect hl h with
  | unchanged hq' hs' => exact ⟨hs' ▸ hs, hq' ▸ hq⟩
  | sent _ hopen => exact absurd hs (by simp [hopen])
  | popped _ hpop => exact absurd hq (by simp [hpop])
  | flagged hq' hs' => exact ⟨hs', hq' ▸ hq⟩

/-- A thread passes `Run`'s exit test only with the pump drained. -/
theorem drained_of_break {th : PumpThread} (hpc : s.pc th = .runLoop)
    (h : s.step (.advance th) = some t) (hleft : t.pc th = .runLeft) : Drained t := by
  cases advance_cases h with
  | broke _ hexit => exact hexit
  | moved hmoves => exact absurd (by simpa [goto] using hleft) hmoves.ne.2.2
  | took htakes => exact absurd (by simpa [goto] using hleft) htakes.ne.2.2
  | left hpc' | joined hpc' => simp [hpc] at hpc'

/-! ## Workers -/

/-- A worker inside `Run` is the one the thread object refers to, and behind its loop
the pump is drained. -/
structure WorkerInv (s : PumpSystem α) : Prop where
  fresh : ∀ w, s.started ≤ w → s.pc (.worker w) = .idle
  joinable : ∀ w, s.pc (.worker w) ≠ .idle → s.pc (.worker w) ≠ .exited →
    s.workerThread = some w
  drained : ∀ w, s.pc (.worker w) = .runLeft → Drained s

/-- What an advancing thread does to the program counters and to the thread object. -/
theorem advance_pc {th : PumpThread} (h : s.advance th = some t) :
    (s.pc th ≠ .idle ∧ s.pc th ≠ .exited) ∧
    (∃ c, t.pc = Function.update s.pc th c ∧ (c = .runLeft → s.pc th = .runLoop)) ∧
    t.started = s.started ∧
    (t.workerThread = s.workerThread ∨
      ∃ w, s.workerThread = some w ∧ s.pc (.worker w) = .exited) := by
  cases advance_cases h with
  | moved hmoves =>
      obtain ⟨hout, -, hne⟩ := hmoves.ne
      exact ⟨hout, ⟨_, rfl, fun he => absurd he hne⟩, rfl, .inl rfl⟩
  | took htakes =>
      obtain ⟨hout, -, hne⟩ := htakes.ne
      exact ⟨hout, ⟨_, rfl, fun he => absurd he hne⟩, rfl, .inl rfl⟩
  | broke hpc => exact ⟨by simp [hpc], ⟨.runLeft, rfl, fun _ => hpc⟩, rfl, .inl rfl⟩
  | left hpc =>
      exact ⟨by simp [hpc], ⟨afterRun th, rfl, by cases th <;> simp [afterRun]⟩, rfl, .inl rfl⟩
  | joined hpc hw hexit =>
      exact ⟨by simp [hpc], ⟨.idle, rfl, by simp⟩, rfl, .inr ⟨_, hw, hexit⟩⟩

private theorem WorkerInv.advance {th : PumpThread} (hI : WorkerInv s)
    (h : s.advance th = some t) : WorkerInv t := by
  obtain ⟨⟨hidle, hexit⟩, ⟨c, hpc, hleft⟩, hstarted, hthread⟩ := advance_pc h
  have hdrain : Drained s → Drained t :=
    fun hd => step_drained (l := .advance th) (by simp [Starts]) hd h
  -- only `th` moves, so another worker stands where it stood
  have hother : ∀ w, th ≠ .worker w → t.pc (.worker w) = s.pc (.worker w) := by
    intro w hw
    rw [hpc, Function.update_of_ne (Ne.symm hw)]
  refine ⟨?fresh, ?joinable, ?drained⟩
  case fresh =>
    intro w hw
    have hs : s.pc (.worker w) = .idle := hI.fresh w (hstarted ▸ hw)
    rw [hother w (by rintro rfl; exact hidle hs), hs]
  case joinable =>
    intro w hni hne
    have hw : s.workerThread = some w := by
      by_cases hth : th = .worker w
      · exact hI.joinable w (hth ▸ hidle) (hth ▸ hexit)
      · rw [hother w hth] at hni hne
        exact hI.joinable w hni hne
    rcases hthread with heq | ⟨v, hv, hvexit⟩
    · rw [heq, hw]
    · -- a `join` returned: its worker has exited, so it cannot be `w`
      obtain rfl : v = w := by simpa [hv] using hw
      by_cases hth : th = .worker v
      · exact absurd hvexit (hth ▸ hexit)
      · exact absurd (hother v hth ▸ hvexit) hne
  case drained =>
    intro w hw
    by_cases hth : th = .worker w
    · subst hth
      have hc : c = .runLeft := by simpa [hpc] using hw
      exact drained_of_break (hleft hc) h hw
    · exact hdrain (hI.drained w (hother w hth ▸ hw))

theorem WorkerInv.step {l : PumpLabel α} (hI : WorkerInv s) (h : s.step l = some t) :
    WorkerInv t := by
  cases l with
  | sendMsg m =>
      have hdrain : Drained s → Drained t := fun hd => step_drained (by simp [Starts]) hd h
      obtain rfl := Option.some.inj h
      exact ⟨hI.fresh, hI.joinable, fun w hw => hdrain (hI.drained w hw)⟩
  | start =>
      obtain rfl := Option.some.inj h
      by_cases hok : (s.pump.start s.workerThread.isSome).1 = .success
      · have hnone : s.workerThread = none := by
          simpa using ((Pump.start_success_iff _ _).mp hok).2
        -- no thread object, so no worker is inside `Run`
        have hout : ∀ w, s.pc (.worker w) = .idle ∨ s.pc (.worker w) = .exited := by
          intro w
          by_contra hcon
          rw [not_or] at hcon
          simpa [hnone] using hI.joinable w hcon.1 hcon.2
        rw [start_of_success hok]
        refine ⟨?fresh, ?joinable, ?drained⟩
        case fresh =>
          intro w hw
          have hws : w ≠ s.started := by
            rintro rfl
            exact absurd hw (Nat.not_succ_le_self _)
          simpa [hws] using hI.fresh w (by simp at hw; omega)
        case joinable =>
          intro w hni hne
          by_cases hws : w = s.started
          · simp [hws]
          · simp only [ne_eq, PumpThread.worker.injEq, hws, not_false_eq_true,
              Function.update_of_ne] at hni hne
            exact absurd (hout w) (by simp [hni, hne])
        case drained =>
          intro w hw
          by_cases hws : w = s.started
          · simp [hws] at hw
          · simp only [ne_eq, PumpThread.worker.injEq, hws, not_false_eq_true,
              Function.update_of_ne] at hw
            exact absurd (hout w) (by simp [hw])
      · rw [start_of_refused hok]
        exact hI
  | call n c =>
      have hdrain : Drained s → Drained t := fun hd => step_drained (by simp [Starts]) hd h
      simp only [PumpSystem.step] at h
      split at h
      · obtain rfl := Option.some.inj h
        have hpc : ∀ w, (s.enter (.client n) c).pc (.worker w) = s.pc (.worker w) := by
          intro w
          cases c <;> simp [enter, goto]
        have hst : (s.enter (.client n) c).started = s.started ∧
            (s.enter (.client n) c).workerThread = s.workerThread := by
          cases c <;> exact ⟨rfl, rfl⟩
        refine ⟨fun w hw => ?_, fun w hni hne => ?_, fun w hw => ?_⟩
        · rw [hpc, hI.fresh w (hst.1 ▸ hw)]
        · rw [hst.2]
          exact hI.joinable w (hpc w ▸ hni) (hpc w ▸ hne)
        · exact hdrain (hI.drained w (hpc w ▸ hw))
      · contradiction
  | advance th => exact hI.advance h

theorem reachable_workerInv (h : (lts α).Reachable s) : WorkerInv s := by
  refine h.invariant (I := WorkerInv) ?init ?step
  case init =>
    rintro s rfl
    exact ⟨fun _ _ => rfl, fun _ hni => absurd rfl hni, fun _ h => by cases h⟩
  case step => exact fun s l t hI _ h => hI.step h

/-! ## The pump's contract -/

/-- **No loss, no duplication, FIFO.** In every reachable state the popped messages are a
prefix of the accepted ones and the queue is the rest, and `SendMsg` answers
`INVALID_STATE`, changing nothing, exactly when the pump is stopped. A worker behind its
loop finds the pump empty, and from the moment any thread leaves the loop the pump stays
empty, all that was accepted having been popped, until a later `Start` succeeds. -/
theorem fifo_and_drained (h : (lts α).Reachable s) :
    s.accepted = s.popped ++ s.pump.queue ∧
    (∀ m, ((s.pump.sendMsg m).1 = .invalidState ↔ s.pump.stopped = true) ∧
      ((s.pump.sendMsg m).1 = .invalidState → (s.pump.sendMsg m).2 = s.pump) ∧
      ((s.pump.sendMsg m).1 ≠ .invalidState → (s.pump.sendMsg m).1 = .success)) ∧
    (∀ w, s.pc (.worker w) = .runLeft → s.pump.queue = []) ∧
    (∀ th t u, s.pc th = .runLoop → s.step (.advance th) = some t → t.pc th = .runLeft →
      (lts α).RunVia (fun s l => ¬ Starts s l) t u →
        u.pump.queue = [] ∧ u.popped = u.accepted) := by
  refine ⟨reachable_fifo h, ?send, ?worker, ?left⟩
  case send =>
    intro m
    refine ⟨Pump.sendMsg_invalidState_iff _ _, ?_, ?_⟩
    · intro hr
      rw [Pump.sendMsg_invalidState_iff] at hr
      rw [Pump.sendMsg_of_stopped hr]
    · intro hr
      rw [Ne, Pump.sendMsg_invalidState_iff, Bool.not_eq_true] at hr
      rw [Pump.sendMsg_of_running hr]
  case worker =>
    intro w hw
    exact ((reachable_workerInv h).drained w hw).2
  case left =>
    intro th t u hpc hstep hleft hrun
    have hu : Drained u :=
      hrun.invariant (I := Drained) (fun _ _ _ hI hg hs => step_drained hg hI hs)
        (drained_of_break hpc hstep hleft)
    have hstep' : (lts α).step s (.advance th) = some t := hstep
    have ht : (lts α).Reachable t := Lts.ReachableVia.step h trivial hstep'
    have hfifo : Fifo u :=
      reachable_fifo (Lts.ReachableVia.run ht (hrun.mono fun _ _ _ => trivial))
    refine ⟨hu.2, ?_⟩
    rw [hfifo, hu.2, List.append_nil]

/-- A worker that is told to stop with two messages queued dispatches both and leaves. -/
def drainSchedule : List (PumpLabel ℕ) :=
  [.start, .sendMsg 1, .sendMsg 2, .call 0 .stop, .sendMsg 3,
    .advance (.worker 0), .advance (.worker 0), .advance (.worker 0), .advance (.worker 0),
    .advance (.worker 0)]

/-- The state `drainSchedule` ends in, the worker behind its loop. -/
def drainedState : PumpSystem ℕ :=
  ((lts ℕ).exec (fun _ _ => true) {} drainSchedule).getD {}

theorem fifo_and_drained_drainedState :
    drainedState.accepted = [1, 2] ∧ drainedState.popped = [1, 2] ∧
    drainedState.pc (.worker 0) = .runLeft ∧ drainedState.pump.queue = [] := by
  have hrun : (lts ℕ).RunVia Lts.anyStep {} drainedState :=
    Lts.runVia_of_exec (g := fun _ _ => true) (fun _ _ _ => trivial)
      (show (lts ℕ).exec (fun _ _ => true) {} drainSchedule = some drainedState from rfl)
  have hpc : drainedState.pc (.worker 0) = .runLeft := rfl
  have h := fifo_and_drained (s := drainedState) ⟨{}, rfl, hrun⟩
  exact ⟨rfl, rfl, hpc, h.2.2.1 0 hpc⟩

end PumpSystem

end FsmFramework
