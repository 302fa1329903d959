import FsmFramework.Lib.Lts
import FsmFramework.TimerManager

/-!
# Timers, call by call and thread by thread

`TimerManager.cpp` once more, one step a critical section: `StartTimer` puts a control block
into `_timer_list`, creates the thread outside the lock, and puts the thread object into
`_timer_threads` in a second critical section; `StopAndJoin` cancels, takes the thread objects,
joins them one by one and clears the list. The control block outlives the list, for its thread
holds it too; it is named by its number of creation, and so are the call and the thread that
belong to it.

`posted` is history: the calls of the callback, with their messages. No step reads it.
-/

namespace FsmFramework

/-- Where the `StartTimer` call stands that created a control block. -/
inductive StartPc
  | listed     -- the control block is in `_timer_list`, the thread is not created yet
  | created    -- the thread runs, its object is still a local of the call
  | stored     -- the thread object is in `_timer_threads`
  | returned
  | threw      -- the constructor of `std::thread` has thrown, and the call with it
  deriving DecidableEq, Repr

/-- Where a timer's thread stands. -/
inductive ThreadPc
  | absent     -- not created
  | sleeping   -- before the test of `active`
  | expired    -- `active` was read as true, the callback is not called yet
  | calling    -- inside the callback, which has posted
  | finished
  deriving DecidableEq, Repr

/-- `CTimerCtrl`, with what `StartTimer` and the thread keep in their locals. -/
structure TimerCtrl (α : Type*) where
  id : UInt32
  active : Bool := true
  timeoutMs : UInt32
  timeoutMsg : α
  call : StartPc := .listed
  thread : ThreadPc := .absent
  deriving DecidableEq, Repr

/-- The steps of one timer's call and of its thread. -/
inductive TimerMove
  | createThread | createFails | storeThread | returnStart   -- `StartTimer`
  | wake | callback | finish                                 -- the thread
  deriving DecidableEq, Repr

/-- One step of the call or of the thread that belongs to a control block. -/
def TimerCtrl.advance {α : Type*} (c : TimerCtrl α) : TimerMove → Option (TimerCtrl α)
  | .createThread =>
      if c.call = .listed then some { c with call := .created, thread := .sleeping } else none
  | .createFails => if c.call = .listed then some { c with call := .threw } else none
  | .storeThread => if c.call = .created then some { c with call := .stored } else none
  | .returnStart => if c.call = .stored then some { c with call := .returned } else none
  | .wake =>
      if c.thread = .sleeping then
        some { c with thread := if c.active then .expired else .finished }
      else none
  | .callback => if c.thread = .expired then some { c with thread := .calling } else none
  | .finish => if c.thread = .calling then some { c with thread := .finished } else none

/-- Where `StopAndJoin` stands. -/
inductive JoinPc
  | idle
  | begun                          -- before its `StopAllTimers`
  | cancelled                      -- before the swap
  | joining (threads : List ℕ)     -- the thread objects it has still to join
  | returned
  deriving DecidableEq, Repr

inductive TimerLabel (α : Type*)
  | startTimer (timeoutMs : UInt32) (timeoutMsg : α)
  | timer (k : ℕ) (move : TimerMove)
  | stopTimer (timerId : UInt32)
  | stopAllTimers
  | stopAndJoin
  deriving DecidableEq, Repr

/-- A `TimerManager` with the calls and the threads at work in it. -/
structure TimerSystem (α : Type*) where
  ctrls : List (TimerCtrl α) := []
  timerList : List ℕ := []
  timerThreads : List ℕ := []
  nextTimerId : UInt32 := 1
  joiner : JoinPc := .idle
  posted : List (ℕ × α) := []
  deriving DecidableEq, Repr

namespace TimerSystem

variable {α : Type*}

/-- The first critical section of `StartTimer`. -/
def startTimer (s : TimerSystem α) (timeoutMs : UInt32) (timeoutMsg : α) : TimerSystem α :=
  { s with
    ctrls := s.ctrls ++ [{ id := s.nextTimerId, timeoutMs, timeoutMsg }]
    timerList := s.timerList ++ [s.ctrls.length]
    nextTimerId := s.nextTimerId + 1 }

/-- Clear the `active` flags of these control blocks. -/
def deactivate (s : TimerSystem α) (ks : List ℕ) : TimerSystem α :=
  { s with ctrls := s.ctrls.mapIdx fun k c => if k ∈ ks then { c with active := false } else c }

/-- The control block numbered `k` has this id. -/
def HasId (s : TimerSystem α) (timerId : UInt32) (k : ℕ) : Prop :=
  (s.ctrls[k]?.map TimerCtrl.id) = some timerId

instance (s : TimerSystem α) (timerId : UInt32) (k : ℕ) : Decidable (s.HasId timerId k) :=
  inferInstanceAs (Decidable (_ = _))

/-- Clear the flag of the first listed timer with this id. -/
def stopTimer (s : TimerSystem α) (timerId : UInt32) : EerrNo × TimerSystem α :=
  match s.timerList.find? fun k => s.HasId timerId k with
  | some k => (.success, s.deactivate [k])
  | none => (.timerError, s)

/-- Clear the flag of every listed timer. -/
def stopAllTimers (s : TimerSystem α) : TimerSystem α := s.deactivate s.timerList

/-- The next step of `StopAndJoin`. A `join` waits for its thread. -/
def stopAndJoin (s : TimerSystem α) : Option (TimerSystem α) :=
  match s.joiner with
  | .idle => some { s with joiner := .begun }
  | .begun => some { s.stopAllTimers with joiner := .cancelled }
  | .cancelled => some { s with joiner := .joining s.timerThreads, timerThreads := [] }
  | .joining (k :: threads) =>
      if (s.ctrls[k]?.map TimerCtrl.thread) = some .finished then
        some { s with joiner := .joining threads }
      else none
  | .joining [] => some { s with joiner := .returned, timerList := [] }
  | .returned => none

/-- One step of the timer numbered `k`. -/
def moveTimer (s : TimerSystem α) (k : ℕ) (move : TimerMove) : Option (TimerSystem α) :=
  s.ctrls[k]?.bind fun c => (c.advance move).map fun c' =>
    { s with
      ctrls := s.ctrls.set k c'
      timerThreads := if move = .storeThread then s.timerThreads ++ [k] else s.timerThreads
      posted := if move = .callback then s.posted ++ [(k, c.timeoutMsg)] else s.posted }

def step (s : TimerSystem α) : TimerLabel α → Option (TimerSystem α)
  | .startTimer timeoutMs timeoutMsg => some (s.startTimer timeoutMs timeoutMsg)
  | .timer k move => s.moveTimer k move
  | .stopTimer timerId => some (s.stopTimer timerId).2
  | .stopAllTimers => some s.stopAllTimers
  | .stopAndJoin => s.stopAndJoin

/-- The messages the timer numbered `k` has posted. -/
def posts (s : TimerSystem α) (k : ℕ) : List α := (s.posted.filter (·.1 = k)).map (·.2)

/-- The `StartTimer` call of the timer numbered `k` has returned. -/
def Returned (s : TimerSystem α) (k : ℕ) : Prop := ∃ c, s.ctrls[k]? = some c ∧ c.call = .returned

/-- The thread of the timer numbered `k` stands there. -/
def ThreadAt (s : TimerSystem α) (k : ℕ) (pc : ThreadPc) : Prop :=
  ∃ c, s.ctrls[k]? = some c ∧ c.thread = pc

end TimerSystem

/-- Any number of callers, any order of their critical sections and of the timer threads, and
one `StopAndJoin`. -/
def timerSystem (α : Type*) : Lts (TimerSystem α) (TimerLabel α) where
  init s := s = {}
  step := TimerSystem.step

namespace TimerSystem

variable {α : Type*} {s s' t : TimerSystem α} {a : TimerLabel α} {k : ℕ}

/-! ## What a step does to one timer -/

/-- One step, seen from one control block: the label, the block afterwards, and what its timer
has posted by then. -/
inductive CtrlStep (s : TimerSystem α) (k : ℕ) (c : TimerCtrl α) :
    TimerLabel α → TimerCtrl α → List α → Prop
  | stay (a : TimerLabel α) : CtrlStep s k c a c (s.posts k)
  | cancel (a : TimerLabel α) : CtrlStep s k c a { c with active := false } (s.posts k)
  | createThread (h : c.call = .listed) : CtrlStep s k c (.timer k .createThread)
      { c with call := .created, thread := .sleeping } (s.posts k)
  | createFails (h : c.call = .listed) :
      CtrlStep s k c (.timer k .createFails) { c with call := .threw } (s.posts k)
  | storeThread (h : c.call = .created) :
      CtrlStep s k c (.timer k .storeThread) { c with call := .stored } (s.posts k)
  | returnStart (h : c.call = .stored) :
      CtrlStep s k c (.timer k .returnStart) { c with call := .returned } (s.posts k)
  | wakeActive (h : c.thread = .sleeping) (hactive : c.active = true) :
      CtrlStep s k c (.timer k .wake) { c with thread := .expired } (s.posts k)
  | wakeCancelled (h : c.thread = .sleeping) (hactive : c.active = false) :
      CtrlStep s k c (.timer k .wake) { c with thread := .finished } (s.posts k)
  | callback (h : c.thread = .expired) : CtrlStep s k c (.timer k .callback)
      { c with thread := .calling } (s.posts k ++ [c.timeoutMsg])
  | finish (h : c.thread = .calling) :
      CtrlStep s k c (.timer k .finish) { c with thread := .finished } (s.posts k)

theorem ctrlStep_of_advance {c c' : TimerCtrl α} {move : TimerMove}
    (h : c.advance move = some c') : CtrlStep s k c (.timer k move) c'
      (if move = .callback then s.posts k ++ [c.timeoutMsg] else s.posts k) := by
  cases move <;> simp only [TimerCtrl.advance, Option.ite_none_right_eq_some,
    Option.some.injEq] at h <;> obtain ⟨hat, rfl⟩ := h
  case createThread => exact .createThread hat
  case createFails => exact .createFails hat
  case storeThread => exact .storeThread hat
  case returnStart => exact .returnStart hat
  case callback => exact .callback hat
  case finish => exact .finish hat
  case wake =>
    cases hactive : c.active with
    | true => simpa [hactive] using CtrlStep.wakeActive hat hactive
    | false => simpa [hactive] using CtrlStep.wakeCancelled hat hactive

/-- The steps of `StopAndJoin`. -/
inductive JoinStep (s : TimerSystem α) : TimerSystem α → Prop
  | start (h : s.joiner = .idle) : JoinStep s { s with joiner := .begun }
  | cancel (h : s.joiner = .begun) : JoinStep s { s.stopAllTimers with joiner := .cancelled }
  | swap (h : s.joiner = .cancelled) :
      JoinStep s { s with joiner := .joining s.timerThreads, timerThreads := [] }
  | join {k : ℕ} {threads : List ℕ} (h : s.joiner = .joining (k :: threads))
      (hk : s.ThreadAt k .finished) : JoinStep s { s with joiner := .joining threads }
  | clear (h : s.joiner = .joining []) :
      JoinStep s { s with joiner := .returned, timerList := [] }

theorem joinStep_of_stopAndJoin (h : s.stopAndJoin = some s') : JoinStep s s' := by
  rw [stopAndJoin] at h
  split at h
  case h_1 hj =>
    cases h
    exact .start hj
  case h_2 hj =>
    cases h
    exact .cancel hj
  case h_3 hj =>
    cases h
    exact .swap hj
  case h_4 hj =>
    split at h
    · rename_i hk
      cases h
      exact .join hj (Option.map_eq_some_iff.mp hk)
    · cases h
  case h_5 hj =>
    cases h
    exact .clear hj
  case h_6 => cases h

@[simp] theorem posts_deactivate (s : TimerSystem α) (ks : List ℕ) (k : ℕ) :
    (s.deactivate ks).posts k = s.posts k := rfl

theorem getElem?_deactivate (s : TimerSystem α) (ks : List ℕ) (k : ℕ) :
    (s.deactivate ks).ctrls[k]? =
      s.ctrls[k]?.map fun c => if k ∈ ks then { c with active := false } else c := by
  simp [deactivate]

/-- `StopTimer` clears the flag of one listed timer with the id, or of none. -/
theorem stopTimer_cases (s : TimerSystem α) (timerId : UInt32) :
    (∃ k ∈ s.timerList, s.HasId timerId k ∧ s.stopTimer timerId = (.success, s.deactivate [k])) ∨
      (∀ k ∈ s.timerList, ¬ s.HasId timerId k) ∧ s.stopTimer timerId = (.timerError, s) := by
  rw [stopTimer]
  split
  · rename_i k hk
    refine .inl ⟨k, List.mem_of_find?_eq_some hk, ?_, rfl⟩
    simpa using List.find?_some hk
  · rename_i hk
    exact .inr ⟨fun k hmem => by simpa using List.find?_eq_none.mp hk k hmem, rfl⟩

/-- A timer's step, taken apart. -/
theorem moveTimer_eq_some {move : TimerMove} (h : s.moveTimer k move = some s') :
    ∃ c c', s.ctrls[k]? = some c ∧ c.advance move = some c' ∧
      s' = { s with
        ctrls := s.ctrls.set k c'
        timerThreads := if move = .storeThread then s.timerThreads ++ [k] else s.timerThreads
        posted := if move = .callback then s.posted ++ [(k, c.timeoutMsg)] else s.posted } := by
  obtain ⟨c, hc, h⟩ := Option.bind_eq_some_iff.mp h
  obtain ⟨c', hc', rfl⟩ := Option.map_eq_some_iff.mp h
  exact ⟨c, c', hc, hc', rfl⟩

/-- `StopAndJoin` touches control blocks only when it cancels them. -/
theorem JoinStep.ctrls (h : JoinStep s s') :
    s'.posted = s.posted ∧ (s'.ctrls = s.ctrls ∨ s'.ctrls = s.stopAllTimers.ctrls) := by
  cases h with
  | start | swap | join | clear => exact ⟨rfl, .inl rfl⟩
  | cancel => exact ⟨rfl, .inr rfl⟩

private theorem ctrlStep_of_deactivate {ks : List ℕ} {c : TimerCtrl α} (a : TimerLabel α)
    (hc : s.ctrls[k]? = some c) (hctrls : s'.ctrls = (s.deactivate ks).ctrls)
    (hposted : s'.posted = s.posted) :
    ∃ c', s'.ctrls[k]? = some c' ∧ CtrlStep s k c a c' (s'.posts k) := by
  have hposts : s'.posts k = s.posts k := by rw [posts, hposted, posts]
  rw [hctrls, getElem?_deactivate, hc, hposts]
  by_cases hk : k ∈ ks
  · exact ⟨_, by simp [hk], .cancel a⟩
  · exact ⟨_, by simp [hk], .stay a⟩

private theorem ctrlStep_of_eq {c : TimerCtrl α} (a : TimerLabel α) (hc : s.ctrls[k]? = some c)
    (hctrls : s'.ctrls = s.ctrls) (hposted : s'.posted = s.posted) :
    ∃ c', s'.ctrls[k]? = some c' ∧ CtrlStep s k c a c' (s'.posts k) := by
  have hposts : s'.posts k = s.posts k := by rw [posts, hposted, posts]
  rw [hctrls, hposts]
  exact ⟨c, hc, .stay a⟩

/-- Only the callback posts, and only for its own timer. -/
theorem posts_moveTimer {move : TimerMove} {j : ℕ} {c : TimerCtrl α} (hc : s.ctrls[j]? = some c)
    (h : s.moveTimer j move = some s') (k : ℕ) :
    s'.posts k =
      if move = .callback ∧ j = k then s.posts k ++ [c.timeoutMsg] else s.posts k := by
  obtain ⟨c₁, c', hc₁, -, rfl⟩ := moveTimer_eq_some h
  cases hc.symm.trans hc₁
  by_cases hmove : move = .callback
  · by_cases hj : j = k <;> simp [posts, hmove, hj]
  · simp [posts, hmove]

/-- Every step leaves a control block alone, cancels it, or is a step of its own timer. -/
theorem step_ctrl (h : s.step a = some s') {c : TimerCtrl α} (hc : s.ctrls[k]? = some c) :
    ∃ c', s'.ctrls[k]? = some c' ∧ CtrlStep s k c a c' (s'.posts k) := by
  have hlt : k < s.ctrls.length := (List.getElem?_eq_some_iff.mp hc).1
  cases a with
  | startTimer timeoutMs timeoutMsg =>
      cases h
      exact ⟨c, by simp [startTimer, List.getElem?_append_left hlt, hc], .stay _⟩
  | stopTimer timerId =>
      cases h
      obtain ⟨j, -, -, heq⟩ | ⟨-, heq⟩ := s.stopTimer_cases timerId
      · exact ctrlStep_of_deactivate _ hc (by rw [heq]) (by rw [heq]; rfl)
      · exact ctrlStep_of_eq _ hc (by rw [heq]) (by rw [heq])
  | stopAllTimers =>
      cases h
      exact ctrlStep_of_deactivate _ hc rfl rfl
  | stopAndJoin =>
      obtain ⟨hposted, hctrls | hctrls⟩ := (joinStep_of_stopAndJoin h).ctrls
      · exact ctrlStep_of_eq _ hc hctrls hposted
      · exact ctrlStep_of_deactivate _ hc hctrls hposted
  | timer j move =>
      obtain ⟨d, d', hd, hadv, hs'⟩ := moveTimer_eq_some h
      have hposts := posts_moveTimer hd h k
      by_cases hj : j = k
      · subst hj
        cases hd.symm.trans hc
        refine ⟨d', by simp [hs', List.getElem?_set_self hlt], ?_⟩
        simpa [hposts] using ctrlStep_of_advance hadv
      · refine ⟨c, by simp [hs', List.getElem?_set_ne hj, hc], ?_⟩
        simpa [hposts, hj] using CtrlStep.stay (TimerLabel.timer j move)

/-- A control block that was not there before is one that `StartTimer` has just made. -/
theorem step_fresh (h : s.step a = some s') (hk : s.ctrls[k]? = none) :
    s'.posts k = s.posts k ∧
      (s'.ctrls[k]? = none ∨ k = s.ctrls.length ∧ ∃ timeoutMs timeoutMsg,
        s'.ctrls[k]? = some { id := s.nextTimerId, timeoutMs, timeoutMsg }) := by
  have hlen : s.ctrls.length ≤ k := List.getElem?_eq_none_iff.mp hk
  cases a with
  | startTimer timeoutMs timeoutMsg =>
      cases h
      refine ⟨rfl, ?_⟩
      by_cases hkl : k = s.ctrls.length
      · exact .inr ⟨hkl, timeoutMs, timeoutMsg, by simp [startTimer, hkl]⟩
      · exact .inl (by simp [startTimer]; omega)
  | stopTimer timerId =>
      cases h
      obtain ⟨j, -, -, heq⟩ | ⟨-, heq⟩ := s.stopTimer_cases timerId
      · simp [heq, getElem?_deactivate, hk]
      · simp [heq, hk]
  | stopAllTimers =>
      cases h
      simp [stopAllTimers, getElem?_deactivate, hk]
  | stopAndJoin =>
      obtain ⟨hposted, hctrls | hctrls⟩ := (joinStep_of_stopAndJoin h).ctrls
      · simp [posts, hposted, hctrls, hk]
      · simp [posts, hposted, hctrls, stopAllTimers, getElem?_deactivate, hk]
  | timer j move =>
      obtain ⟨c, c', hc, -, hs'⟩ := moveTimer_eq_some h
      have hj : j ≠ k := by
        rintro rfl
        exact Option.some_ne_none c (hc.symm.trans hk)
      have hposts := posts_moveTimer hc h k
      simp only [hj, and_false, if_false] at hposts
      exact ⟨hposts, .inl (by simp [hs', hlen])⟩

/-! ## One timer over a whole run -/

/-- How far a timer's call, its thread and its posts may be apart. -/
structure CtrlOk (c : TimerCtrl α) (posts : List α) : Prop where
  absent : c.thread = .absent ↔ c.call = .listed ∨ c.call = .threw
  early : c.thread = .absent ∨ c.thread = .sleeping ∨ c.thread = .expired → posts = []
  calling : c.thread = .calling → posts = [c.timeoutMsg]
  finished : c.thread = .finished → posts = [] ∨ posts = [c.timeoutMsg]

/-- A timer posts its own message, and at most once. -/
theorem CtrlOk.posts_eq {c : TimerCtrl α} {posts : List α} (h : CtrlOk c posts) :
    posts = [] ∨ posts = [c.timeoutMsg] := by
  cases hc : c.thread with
  | absent => exact .inl (h.early (.inl hc))
  | sleeping => exact .inl (h.early (.inr (.inl hc)))
  | expired => exact .inl (h.early (.inr (.inr hc)))
  | calling => exact .inr (h.calling hc)
  | finished => exact h.finished hc

theorem CtrlOk.step {c c' : TimerCtrl α} {posts' : List α} (h : CtrlOk c (s.posts k))
    (hs : CtrlStep s k c a c' posts') : CtrlOk c' posts' := by
  cases hs with
  | stay | cancel => exact ⟨h.absent, h.early, h.calling, h.finished⟩
  | createThread hat | createFails hat =>
      have hnone : c.thread = .absent := h.absent.mpr (.inl hat)
      constructor <;> simp [h.early, hnone]
  | storeThread hat | returnStart hat =>
      have hsome := h.absent
      simp only [hat, reduceCtorEq, or_self, iff_false] at hsome
      exact ⟨by simpa using hsome, h.early, h.calling, h.finished⟩
  | wakeActive hat | wakeCancelled hat =>
      have hempty : s.posts k = [] := h.early (.inr (.inl hat))
      have hsome := h.absent
      simp only [hat, reduceCtorEq, false_iff] at hsome
      constructor <;> simp [hempty, hsome]
  | callback hat =>
      have hempty : s.posts k = [] := h.early (.inr (.inr hat))
      have hsome := h.absent
      simp only [hat, reduceCtorEq, false_iff] at hsome
      constructor <;> simp [hempty, hsome]
  | finish hat =>
      have hone : s.posts k = [c.timeoutMsg] := h.calling hat
      have hsome := h.absent
      simp only [hat, reduceCtorEq, false_iff] at hsome
      constructor <;> simp [hone, hsome]

/-- What holds between a timer's number, its control block and its posts. -/
def TimerOk (s : TimerSystem α) (k : ℕ) : Prop :=
  (s.ctrls[k]? = none → s.posts k = []) ∧ ∀ c, s.ctrls[k]? = some c → CtrlOk c (s.posts k)

theorem TimerOk.step (h : s.TimerOk k) (hs : s.step a = some s') : s'.TimerOk k := by
  cases hk : s.ctrls[k]? with
  | none =>
      have hempty : s'.posts k = [] := (step_fresh hs hk).1.trans (h.1 hk)
      refine ⟨fun _ => hempty, fun c hc => ?_⟩
      obtain hnone | ⟨-, ms, m, hnew⟩ := (step_fresh hs hk).2
      · exact absurd (hc.symm.trans hnone) (Option.some_ne_none c)
      · cases hc.symm.trans hnew
        constructor <;> simp [hempty]
  | some c =>
      obtain ⟨c', hc', hstep⟩ := step_ctrl hs hk
      refine ⟨fun hnone => absurd (hc'.symm.trans hnone) (Option.some_ne_none c'), ?_⟩
      intro d hd
      cases hd.symm.trans hc'
      exact (h.2 c hk).step hstep

theorem timerOk_of_reachable (hs : (timerSystem α).Reachable s) (k : ℕ) : s.TimerOk k := by
  refine hs.invariant (I := fun s => s.TimerOk k) ?init ?step
  case init =>
    rintro _ rfl
    simp [TimerOk, posts]
  case step => exact fun _ _ _ h _ hs => h.step hs

/-- A returned call stays returned. -/
theorem Returned.step (h : s.Returned k) (hs : s.step a = some s') : s'.Returned k := by
  obtain ⟨c, hc, hret⟩ := h
  obtain ⟨c', hc', hstep⟩ := step_ctrl hs hc
  refine ⟨c', hc', ?_⟩
  generalize s'.posts k = posts' at hstep
  cases hstep with
  | stay | cancel | wakeActive | wakeCancelled | callback | finish => exact hret
  | createThread hat | createFails hat | storeThread hat | returnStart hat =>
      exact absurd (hat.symm.trans hret) (by decide)

/-! ## Numbers and ids -/

/-- The list of timers and the id generator under one step. -/
theorem step_list (h : s.step a = some s') :
    (∃ timeoutMs timeoutMsg, a = .startTimer timeoutMs timeoutMsg ∧
      s' = s.startTimer timeoutMs timeoutMsg) ∨
    s'.ctrls.length = s.ctrls.length ∧ s'.nextTimerId = s.nextTimerId ∧
      (s'.timerList = s.timerList ∧ (s'.joiner = .returned ↔ s.joiner = .returned) ∨
        a = .stopAndJoin ∧ s.joiner = .joining [] ∧ s'.joiner = .returned) := by
  cases a with
  | startTimer timeoutMs timeoutMsg =>
      cases h
      exact .inl ⟨timeoutMs, timeoutMsg, rfl, rfl⟩
  | stopTimer timerId =>
      cases h
      refine .inr ?_
      obtain ⟨j, -, -, heq⟩ | ⟨-, heq⟩ := s.stopTimer_cases timerId <;> simp [heq, deactivate]
  | stopAllTimers =>
      cases h
      exact .inr (by simp [stopAllTimers, deactivate])
  | stopAndJoin =>
      refine .inr ?_
      cases joinStep_of_stopAndJoin h with
      | start hj | swap hj | join hj | clear hj => simp [hj]
      | cancel hj => simp [hj, stopAllTimers, deactivate]
  | timer j move =>
      obtain ⟨c, c', -, -, rfl⟩ := moveTimer_eq_some h
      exact .inr (by simp)

/-- Until `StopAndJoin` clears the list it holds every timer, in the order of their numbers,
and the id generator has counted them. -/
structure ListOk (s : TimerSystem α) : Prop where
  timerList : s.joiner ≠ .returned → s.timerList = List.range s.ctrls.length
  nextTimerId : s.nextTimerId = UInt32.ofNat (s.ctrls.length + 1)
  id : ∀ k c, s.ctrls[k]? = some c → c.id = UInt32.ofNat (k + 1)

/-- A control block keeps its id. -/
theorem CtrlStep.id {c c' : TimerCtrl α} {posts : List α} (h : CtrlStep s k c a c' posts) :
    c'.id = c.id := by
  cases h <;> rfl

theorem ListOk.step (h : s.ListOk) (hs : s.step a = some s') : s'.ListOk := by
  refine ⟨?timerList, ?nextTimerId, ?id⟩
  case timerList =>
    intro hj
    obtain ⟨ms, m, -, rfl⟩ | ⟨hlen, -, ⟨hlist, hstays⟩ | ⟨-, -, hret⟩⟩ := step_list hs
    · simp [startTimer, h.timerList hj, List.range_succ]
    · rw [hlen, hlist]
      exact h.timerList fun hret => hj (hstays.mpr hret)
    · exact absurd hret hj
  case nextTimerId =>
    obtain ⟨ms, m, -, rfl⟩ | ⟨hlen, hnext, -⟩ := step_list hs
    · simp only [startTimer, h.nextTimerId, List.length_append, List.length_cons,
        List.length_nil, zero_add]
      exact (UInt32.ofNat_add _ 1).symm
    · rw [hlen, hnext, h.nextTimerId]
  case id =>
    intro k c' hc'
    cases hc : s.ctrls[k]? with
    | none =>
        obtain hnone | ⟨hk, ms, m, hnew⟩ := (step_fresh hs hc).2
        · exact absurd (hc'.symm.trans hnone) (Option.some_ne_none c')
        · cases hc'.symm.trans hnew
          rw [h.nextTimerId, hk]
    | some c =>
        obtain ⟨d, hd, hstep⟩ := step_ctrl hs hc
        cases hc'.symm.trans hd
        rw [hstep.id, h.id k c hc]

theorem listOk_of_reachable (hs : (timerSystem α).Reachable s) : s.ListOk := by
  refine hs.invariant (I := ListOk) ?init ?step
  case init =>
    rintro _ rfl
    constructor <;> simp
  case step => exact fun _ _ _ h _ hs => h.step hs

/-- While fewer than 2^32 timers have been started, an id names one timer. -/
theorem ListOk.eq_of_hasId (h : s.ListOk) (hlt : s.ctrls.length < 2 ^ 32) {timerId : UInt32}
    {j : ℕ} (hj : s.HasId timerId j) (hk : s.HasId timerId k) : j = k := by
  obtain ⟨c, hc, hcid⟩ := Option.map_eq_some_iff.mp hj
  obtain ⟨d, hd, hdid⟩ := Option.map_eq_some_iff.mp hk
  have hjlt : j < s.ctrls.length := (List.getElem?_eq_some_iff.mp hc).1
  have hklt : k < s.ctrls.length := (List.getElem?_eq_some_iff.mp hd).1
  have heq : UInt32.ofNat (j + 1) = UInt32.ofNat (k + 1) := by
    rw [← h.id j c hc, ← h.id k d hd, hcid, hdid]
  have hnat := congrArg UInt32.toNat heq
  rw [UInt32.toNat_ofNat_of_lt' (by simp [UInt32.size]; omega),
    UInt32.toNat_ofNat_of_lt' (by simp [UInt32.size]; omega)] at hnat
  omega

end TimerSystem

end FsmFramework
