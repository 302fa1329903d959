import FsmFramework.Common

/-!
# The message pump

The data that `_pump_lock` protects, the queue and the two lifecycle flags, and the
blocks of `Cfactory_mgr.cpp` that run under that lock, each as one function. The pump
is generic in its messages: no block looks into one.
-/

namespace FsmFramework

/-- The queue `_pump` and the flags `_stopped` and `_running`. -/
structure Pump (α : Type*) where
  queue : List α := []
  stopped : Bool := false
  running : Bool := false
  deriving DecidableEq, Repr

namespace Pump

variable {α : Type*}

/-- Post a message at the end of the queue; a stopped pump rejects it. -/
def sendMsg (p : Pump α) (m : α) : EerrNo × Pump α :=
  if p.stopped then (.invalidState, p) else (.success, { p with queue := p.queue ++ [m] })

/-- Take the front message, if there is one. -/
def pop (p : Pump α) : Option (α × Pump α) :=
  match p.queue with
  | [] => none
  | m :: rest => some (m, { p with queue := rest })

/-- `Start`: refused while a worker runs or its thread object is still joinable. -/
def start (p : Pump α) (joinable : Bool) : EerrNo × Pump α :=
  if p.running then (.error, p)
  else if joinable then (.error, p)
  else (.success, { p with stopped := false, running := true })

/-- The critical section of `Stop`. -/
def stop (p : Pump α) : Pump α := { p with stopped := true }

/-- The last critical section of `Run`, after its loop. -/
def leaveRun (p : Pump α) : Pump α := { p with running := false }

/-- Put a message back in front: the pump before that message was popped. -/
def unpop (m : α) (p : Pump α) : Pump α := { p with queue := m :: p.queue }

/-! ## What the blocks do -/

/-- `SendMsg` answers `INVALID_STATE` exactly when the pump is stopped. -/
theorem sendMsg_invalidState_iff (p : Pump α) (m : α) :
    (p.sendMsg m).1 = .invalidState ↔ p.stopped = true := by
  cases h : p.stopped <;> simp [sendMsg, h]

/-- A refused `SendMsg` changes nothing. -/
theorem sendMsg_of_stopped {p : Pump α} (h : p.stopped = true) (m : α) :
    p.sendMsg m = (.invalidState, p) := by simp [sendMsg, h]

/-- An accepted message is appended to the queue. -/
theorem sendMsg_of_running {p : Pump α} (h : p.stopped = false) (m : α) :
    p.sendMsg m = (.success, { p with queue := p.queue ++ [m] }) := by simp [sendMsg, h]

@[simp] theorem sendMsg_stopped (p : Pump α) (m : α) : (p.sendMsg m).2.stopped = p.stopped := by
  rw [sendMsg]; split <;> rfl

theorem pop_eq_some_iff {p q : Pump α} {m : α} : p.pop = some (m, q) ↔ p = q.unpop m := by
  cases p with
  | mk queue stopped running =>
      cases q
      cases queue <;> simp [pop, unpop]
      tauto

@[simp] theorem pop_unpop (p : Pump α) (m : α) : (p.unpop m).pop = some (m, p) :=
  pop_eq_some_iff.mpr rfl

@[simp] theorem start_queue (p : Pump α) (joinable : Bool) :
    (p.start joinable).2.queue = p.queue := by
  rw [start]
  split
  · rfl
  · split <;> rfl

/-- `Start` succeeds only when no worker runs and none is left to be joined. -/
theorem start_success_iff (p : Pump α) (joinable : Bool) :
    (p.start joinable).1 = .success ↔ p.running = false ∧ joinable = false := by
  cases h : p.running <;> cases joinable <;> simp [start, h]

/-- A refused `Start` changes nothing. -/
theorem start_of_ne_success {p : Pump α} {joinable : Bool}
    (h : (p.start joinable).1 ≠ .success) : (p.start joinable).2 = p := by
  rw [start] at h ⊢
  split
  · rfl
  · split <;> simp_all

/-- Sending behind a message that was put back is putting it back after sending. -/
theorem sendMsg_unpop (p : Pump α) (m front : α) :
    (p.unpop front).sendMsg m = ((p.sendMsg m).1, (p.sendMsg m).2.unpop front) := by
  cases h : p.stopped <;> simp [sendMsg, unpop, h]

theorem start_unpop (p : Pump α) (front : α) (joinable : Bool) :
    (p.unpop front).start joinable = ((p.start joinable).1, (p.start joinable).2.unpop front) := by
  cases h : p.running <;> cases joinable <;> simp [start, unpop, h]

end Pump

end FsmFramework
