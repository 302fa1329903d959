import FsmFramework.Lifecycle

/-!
# The condition variable of the pump

`PumpSystem` lets a thread pass the wait of `Run` as soon as the predicate holds. In the source
the thread blocks in `_pump_cv.wait` and goes on after it was woken: by the `notify_one` of a
`SendMsg` or by the `notify_all` of a `Stop`, both called after `_pump_lock` was released, or for
no reason at all. `PumpCv` adds the blocked threads and the notifications that are still to come.

Which thread calls a pending `notify_one` is left open; a `Stop` calls its `notify_all` before it
goes on to `Join`.

`no_lost_wakeup` says that a thread which is blocked although it has something to do is going to be
notified, unless another one does it. What this means for whole runs is the subject of
`PumpSettling`.
-/

namespace FsmFramework

/-- The pump and its callers, the threads blocked in `_pump_cv.wait`, the number of `SendMsg` calls
that are still to call `notify_one`, and the clients in `Stop` that are still to call
`notify_all`. -/
structure PumpCv (α : Type*) where
  sys : PumpSystem α := {}
  blocked : List PumpThread := []
  toNotifyOne : ℕ := 0
  toNotifyAll : List ℕ := []

/-- A step of the callers, or one that concerns the condition variable. `notifyOne` names the
thread that is woken, if there is one. -/
inductive PumpCvLabel (α : Type*)
  | sys (l : PumpLabel α)
  | block (t : PumpThread)
  | notifyOne (t : Option PumpThread)
  | notifyAll (n : ℕ)
  | spurious (t : PumpThread)
  deriving Repr

/-- The thread is on its way to the wait of `Run`, or stands there. -/
def CallPc.toWait : CallPc → Bool
  | .runLoop | .runDispatch => true
  | _ => false

namespace PumpCv

open PumpSystem

variable {α : Type*}

/-- The thread is blocked, or has to notify the others before it goes on. -/
def Held (c : PumpCv α) (t : PumpThread) : Prop :=
  t ∈ c.blocked ∨ ∃ n ∈ c.toNotifyAll, t = .client n

instance (c : PumpCv α) : DecidablePred c.Held := fun t =>
  inferInstanceAs (Decidable (t ∈ c.blocked ∨ ∃ n ∈ c.toNotifyAll, t = .client n))

/-- A step of the callers. -/
def stepSys (c : PumpCv α) : PumpLabel α → Option (PumpCv α)
  | .sendMsg m =>
      let toNotifyOne := if (c.sys.pump.sendMsg m).1 = .success then c.toNotifyOne + 1
        else c.toNotifyOne
      some { c with sys := c.sys.sendMsg m, toNotifyOne := toNotifyOne }
  | .start => some { c with sys := c.sys.start }
  | .call n call =>
      (c.sys.step (.call n call)).map fun s =>
        { c with
          sys := s
          toNotifyAll := if call = .stop then n :: c.toNotifyAll else c.toNotifyAll }
  | .advance t => if c.Held t then none else (c.sys.advance t).map fun s => { c with sys := s }

/-- One step. -/
def step (c : PumpCv α) : PumpCvLabel α → Option (PumpCv α)
  | .sys l => c.stepSys l
  | .block t =>
      -- `wait` tests its predicate under the lock, and releases the lock as it blocks
      if c.sys.pc t = .runLoop ∧ t ∉ c.blocked ∧ c.sys.pump.stopped = false ∧
          c.sys.pump.queue = [] then
        some { c with blocked := t :: c.blocked }
      else none
  | .notifyOne (some t) =>
      if 0 < c.toNotifyOne ∧ t ∈ c.blocked then
        some { c with blocked := c.blocked.erase t, toNotifyOne := c.toNotifyOne - 1 }
      else none
  | .notifyOne none =>
      if 0 < c.toNotifyOne ∧ c.blocked = [] then
        some { c with toNotifyOne := c.toNotifyOne - 1 }
      else none
  | .notifyAll n =>
      if n ∈ c.toNotifyAll then
        some { c with blocked := [], toNotifyAll := c.toNotifyAll.erase n }
      else none
  | .spurious t =>
      if t ∈ c.blocked then some { c with blocked := c.blocked.erase t } else none

/-- The pump as the constructor leaves it. -/
def lts (α : Type*) : Lts (PumpCv α) (PumpCvLabel α) where
  init c := c = {}
  step := step

/-- A guard on the steps of the callers. -/
def via (G : PumpSystem α → PumpLabel α → Prop) (c : PumpCv α) : PumpCvLabel α → Prop
  | .sys l => G c.sys l
  | _ => True

variable {c d : PumpCv α} {l : PumpCvLabel α} {G : PumpSystem α → PumpLabel α → Prop}

/-! ## What a step can do -/

/-- Every step: under which label, and to which state. -/
inductive CvStep (c : PumpCv α) : PumpCvLabel α → PumpCv α → Prop
  | sent {m : α} (hopen : c.sys.pump.stopped = false) :
      CvStep c (.sys (.sendMsg m))
        { c with sys := c.sys.sendMsg m, toNotifyOne := c.toNotifyOne + 1 }
  | refused {m : α} (hstopped : c.sys.pump.stopped = true) : CvStep c (.sys (.sendMsg m)) c
  | started : CvStep c (.sys .start) { c with sys := c.sys.start }
  | stopping {n : ℕ} (hpc : c.sys.pc (.client n) = .idle) :
      CvStep c (.sys (.call n .stop))
        { c with sys := c.sys.enter (.client n) .stop, toNotifyAll := n :: c.toNotifyAll }
  | called {n : ℕ} {call : PumpCall} (hpc : c.sys.pc (.client n) = .idle) (hcall : call ≠ .stop) :
      CvStep c (.sys (.call n call)) { c with sys := c.sys.enter (.client n) call }
  | advanced {t : PumpThread} {s : PumpSystem α} (hheld : ¬ c.Held t)
      (hs : c.sys.advance t = some s) : CvStep c (.sys (.advance t)) { c with sys := s }
  | blocked {t : PumpThread} (hpc : c.sys.pc t = .runLoop) (hawake : t ∉ c.blocked)
      (hopen : c.sys.pump.stopped = false) (hempty : c.sys.pump.queue = []) :
      CvStep c (.block t) { c with blocked := t :: c.blocked }
  | notified {t : PumpThread} (hpos : 0 < c.toNotifyOne) (hmem : t ∈ c.blocked) :
      CvStep c (.notifyOne (some t))
        { c with blocked := c.blocked.erase t, toNotifyOne := c.toNotifyOne - 1 }
  | nobody (hpos : 0 < c.toNotifyOne) (hnil : c.blocked = []) :
      CvStep c (.notifyOne none) { c with toNotifyOne := c.toNotifyOne - 1 }
  | notifiedAll {n : ℕ} (hmem : n ∈ c.toNotifyAll) :
      CvStep c (.notifyAll n) { c with blocked := [], toNotifyAll := c.toNotifyAll.erase n }
  | woken {t : PumpThread} (hmem : t ∈ c.blocked) :
      CvStep c (.spurious t) { c with blocked := c.blocked.erase t }

/-- The cases are exhaustive. -/
theorem step_cases (h : c.step l = some d) : CvStep c l d := by
  cases l with
  | sys l =>
      simp only [step] at h
      cases l with
      | sendMsg m =>
          obtain rfl := Option.some.inj h
          cases hs : c.sys.pump.stopped with
          | true =>
              have hsys : c.sys.sendMsg m = c.sys := by
                simp [PumpSystem.sendMsg, Pump.sendMsg_of_stopped hs]
              simp only [hsys, Pump.sendMsg_of_stopped hs]
              exact .refused hs
          | false =>
              simp only [Pump.sendMsg_of_running hs, if_true]
              exact .sent hs
      | start => exact Option.some.inj h ▸ .started
      | call n call =>
          simp only [stepSys, PumpSystem.step, Option.map_eq_some_iff] at h
          obtain ⟨s, hs, rfl⟩ := h
          split at hs
          · rename_i hpc
            obtain rfl := Option.some.inj hs
            by_cases hcall : call = .stop
            · subst hcall
              exact .stopping hpc
            · simp only [if_neg hcall]
              exact .called hpc hcall
          · contradiction
      | advance t =>
          simp only [stepSys] at h
          split at h
          · contradiction
          · rename_i hheld
            obtain ⟨s, hs, rfl⟩ := Option.map_eq_some_iff.mp h
            exact .advanced hheld hs
  | block t =>
      simp only [step] at h
      split at h
      · rename_i hpc
        obtain ⟨hpc, hawake, hopen, hempty⟩ := hpc
        exact Option.some.inj h ▸ .blocked hpc hawake hopen hempty
      · contradiction
  | notifyOne t =>
      cases t with
      | none =>
          simp only [step] at h
          split at h
          · rename_i hnobody
            exact Option.some.inj h ▸ .nobody hnobody.1 hnobody.2
          · contradiction
      | some t =>
          simp only [step] at h
          split at h
          · rename_i hnotified
            exact Option.some.inj h ▸ .notified hnotified.1 hnotified.2
          · contradiction
  | notifyAll n =>
      simp only [step] at h
      split at h
      · rename_i hmem
        exact Option.some.inj h ▸ .notifiedAll hmem
      · contradiction
  | spurious t =>
      simp only [step] at h
      split at h
      · rename_i hmem
        exact Option.some.inj h ▸ .woken hmem
      · contradiction

/-- The condition variable only holds threads back. -/
theorem simulation : Lts.Simulation (lts α) (via G) (PumpSystem.lts α) G fun c s => c.sys = s where
  init := by
    rintro c rfl
    exact ⟨{}, rfl, rfl⟩
  step := by
    rintro c l d _ _ _ rfl hg hs
    have hsys : ∀ {l'}, l = .sys l' → c.sys.step l' = some d.sys →
        ∃ t, (PumpSystem.lts α).RunVia G c.sys t ∧ d.sys = t := by
      rintro l' rfl hl'
      exact ⟨_, Lts.RunVia.single (M := PumpSystem.lts α) hg hl', rfl⟩
    cases step_cases hs with
    | sent => exact hsys rfl rfl
    | refused => exact ⟨_, Lts.RunVia.refl _, rfl⟩
    | started => exact hsys rfl rfl
    | stopping hpc => exact hsys rfl (by simp [PumpSystem.step, hpc])
    | called hpc => exact hsys rfl (by simp [PumpSystem.step, hpc])
    | advanced _ hadv => exact hsys rfl hadv
    | blocked | notified | nobody | notifiedAll | woken => exact ⟨_, Lts.RunVia.refl _, rfl⟩

theorem sys_reachable (h : (lts α).ReachableVia (via G) c) :
    (PumpSystem.lts α).ReachableVia G c.sys := by
  obtain ⟨s, hs, rfl⟩ := simulation.reachable h
  exact hs

/-! ## No wake-up is lost -/

/-- A thread that has blocked stands at the wait, and one that is still to notify the others has not
come to `Join`. Whoever is blocked although the predicate holds will be notified: if the manager is
stopped a `Stop` is about to do so, and if there are messages a `SendMsg` is, unless some other
thread is on its way to the wait and will take the next message. -/
structure Heard (c : PumpCv α) : Prop where
  atWait : ∀ t ∈ c.blocked, c.sys.pc t = .runLoop
  nodup : c.blocked.Nodup
  atJoin : ∀ n ∈ c.toNotifyAll, c.sys.pc (.client n) = .joinTest
  stopHeard : c.blocked ≠ [] → c.sys.pump.stopped = true → c.toNotifyAll ≠ []
  msgHeard : c.blocked ≠ [] → c.sys.pump.queue ≠ [] →
    0 < c.toNotifyOne ∨ ∃ t, t ∉ c.blocked ∧ (c.sys.pc t).toWait = true

/-- Inside a call a thread takes messages out of the queue, and leaves the flag alone. -/
theorem advance_pump {s s' : PumpSystem α} {t : PumpThread} (hs : s.advance t = some s') :
    s'.pump.stopped = s.pump.stopped ∧ s'.pump.queue <:+ s.pump.queue := by
  cases advance_cases hs with
  | moved | broke | left | joined => exact ⟨rfl, List.suffix_rfl⟩
  | took _ hpop =>
      rw [hpop]
      exact ⟨rfl, List.suffix_cons _ _⟩

theorem toWait_of_moves {pc pc' : CallPc} (h : Moves pc pc') (hpc : pc.toWait = true) :
    pc'.toWait = true := by
  cases h <;> simp_all [CallPc.toWait]

theorem toWait_of_takes {pc pc' : CallPc} (h : Takes pc pc') (hpc : pc.toWait = true) :
    pc'.toWait = true := by
  cases h <;> simp_all [CallPc.toWait]

/-- A thread on its way to the wait stays on it as long as there are messages. -/
theorem toWait_advance {s s' : PumpSystem α} {t : PumpThread} (hs : s.advance t = some s')
    (ht : (s.pc t).toWait = true) (hq : s.pump.queue ≠ []) : (s'.pc t).toWait = true := by
  cases advance_cases hs with
  | moved hpc => simpa [goto] using toWait_of_moves hpc ht
  | took hpc => simpa [goto] using toWait_of_takes hpc ht
  | broke _ hexit => exact absurd hexit.2 hq
  | left hpc | joined hpc => simp [hpc, CallPc.toWait] at ht

namespace Heard

/-- A caller moves that is neither blocked nor about to notify. The queue and the flag are what they
were, or less. -/
theorem sys {s : PumpSystem α} {t : PumpThread} {pc : CallPc} (hI : c.Heard)
    (hpc : s.pc = Function.update c.sys.pc t pc) (hheld : ¬ c.Held t)
    (hstopped : s.pump.stopped = true → c.sys.pump.stopped = true)
    (hqueue : s.pump.queue ≠ [] → c.sys.pump.queue ≠ [])
    (hgoes : c.sys.pump.queue ≠ [] → (c.sys.pc t).toWait = true → pc.toWait = true) :
    Heard { c with sys := s } := by
  have hother : ∀ u, u ≠ t → s.pc u = c.sys.pc u := by
    intro u hu
    rw [hpc, Function.update_of_ne hu]
  refine ⟨?atWait, hI.nodup, ?atJoin, ?stopHeard, ?msgHeard⟩
  case atWait =>
    intro u hu
    have hne : u ≠ t := by
      rintro rfl
      exact hheld (.inl hu)
    exact (hother u hne).trans (hI.atWait u hu)
  case atJoin =>
    intro n hn
    have hne : PumpThread.client n ≠ t := by
      rintro rfl
      exact hheld (.inr ⟨n, hn, rfl⟩)
    exact (hother _ hne).trans (hI.atJoin n hn)
  case stopHeard =>
    intro hblocked hs
    exact hI.stopHeard hblocked (hstopped hs)
  case msgHeard =>
    intro hblocked hq
    obtain hpos | ⟨u, hawake, hu⟩ := hI.msgHeard hblocked (hqueue hq)
    · exact .inl hpos
    · refine .inr ⟨u, hawake, ?_⟩
      by_cases hut : u = t
      · subst hut
        show (s.pc u).toWait = true
        rw [hpc, Function.update_self]
        exact hgoes (hqueue hq) hu
      · show (s.pc u).toWait = true
        rw [hother u hut]
        exact hu

/-- A blocked thread is woken. -/
theorem erase (hI : c.Heard) {t : PumpThread} (hmem : t ∈ c.blocked) (k : ℕ) :
    Heard { c with blocked := c.blocked.erase t, toNotifyOne := k } := by
  have hne : c.blocked ≠ [] := List.ne_nil_of_mem hmem
  refine ⟨?atWait, hI.nodup.erase t, hI.atJoin, ?stopHeard, ?msgHeard⟩
  case atWait =>
    intro u hu
    exact hI.atWait u (List.mem_of_mem_erase hu)
  case stopHeard =>
    intro _ hs
    exact hI.stopHeard hne hs
  case msgHeard =>
    intro _ _
    refine .inr ⟨t, ?_, ?_⟩
    · exact hI.nodup.not_mem_erase
    · rw [hI.atWait t hmem]
      rfl

/-- A client outside every call is not held. -/
theorem not_held (hI : c.Heard) {n : ℕ} (hpc : c.sys.pc (.client n) = .idle) :
    ¬ c.Held (.client n) := by
  rintro (hmem | ⟨k, hk, hkn⟩)
  · have hwait := hI.atWait _ hmem
    simp [hpc] at hwait
  · obtain rfl : n = k := by simpa using hkn
    have hjoin := hI.atJoin n hk
    simp [hpc] at hjoin

/-- Every step keeps it. -/
theorem step (hI : c.Heard) (h : c.step l = some d) : d.Heard := by
  cases step_cases h with
  | @sent m hopen =>
      have hsys : (c.sys.sendMsg m).pump.stopped = false := by
        simp only [PumpSystem.sendMsg, Pump.sendMsg_stopped]
        exact hopen
      refine ⟨hI.atWait, hI.nodup, hI.atJoin, ?_, ?_⟩
      · intro _ hs
        simp [hsys] at hs
      · intro _ _
        exact .inl (Nat.succ_pos _)
  | refused => exact hI
  | started =>
      by_cases hok : (c.sys.pump.start c.sys.workerThread.isSome).1 = .success
      · rw [start_of_success hok]
        refine ⟨?atWait, hI.nodup, ?atJoin, ?stopHeard, ?msgHeard⟩
        case atWait =>
          intro t ht
          by_cases hw : t = .worker c.sys.started
          · simp [hw]
          · simpa [hw] using hI.atWait t ht
        case atJoin =>
          intro n hn
          simpa using hI.atJoin n hn
        case stopHeard =>
          intro _ hs
          simp at hs
        case msgHeard =>
          intro hblocked hq
          refine (hI.msgHeard hblocked hq).imp_right ?_
          rintro ⟨t, hawake, ht⟩
          refine ⟨t, hawake, ?_⟩
          by_cases hw : t = .worker c.sys.started
          · simp [hw, CallPc.toWait]
          · simpa [hw] using ht
      · rw [start_of_refused hok]
        exact hI
  | @stopping n hpc =>
      have hmoved : Heard { c with sys := c.sys.goto (.client n) .joinTest } :=
        hI.sys rfl (hI.not_held hpc) id id (by simp [hpc, CallPc.toWait])
      refine ⟨hmoved.atWait, hmoved.nodup, ?_, ?_, hmoved.msgHeard⟩
      · intro k hk
        obtain rfl | hk := List.mem_cons.mp hk
        · simp [enter, goto]
        · exact hmoved.atJoin k hk
      · intro _ _
        exact List.cons_ne_nil _ _
  | @called n call hpc hcall =>
      have hgoes : ∀ pc : CallPc, c.sys.pump.queue ≠ [] →
          (c.sys.pc (.client n)).toWait = true → pc.toWait = true := by
        simp [hpc, CallPc.toWait]
      cases call with
      | stop => contradiction
      | run | pumpOnce | runUntilEmpty | join =>
          exact hI.sys rfl (hI.not_held hpc) id id (hgoes _)
  | @advanced t s hheld hs =>
      obtain ⟨-, ⟨pc, hpc, -⟩, -, -⟩ := advance_pc hs
      obtain ⟨hstopped, hqueue⟩ := advance_pump hs
      refine hI.sys hpc hheld ?stopped ?queue ?goes
      case stopped => exact fun h => hstopped ▸ h
      case queue =>
        intro hq hnil
        rw [hnil, List.suffix_nil] at hqueue
        exact hq hqueue
      case goes =>
        intro hq ht
        have hwait := toWait_advance hs ht hq
        rwa [hpc, Function.update_self] at hwait
  | @blocked t hpc hawake hopen hempty =>
      refine ⟨?atWait, hI.nodup.cons hawake, hI.atJoin, ?stopHeard, ?msgHeard⟩
      case atWait =>
        intro u hu
        obtain rfl | hu := List.mem_cons.mp hu
        · exact hpc
        · exact hI.atWait u hu
      case stopHeard =>
        intro _ hs
        simp [hopen] at hs
      case msgHeard =>
        intro _ hq
        exact absurd hempty hq
  | notified hpos hmem => exact hI.erase hmem _
  | nobody hpos hnil =>
      refine ⟨hI.atWait, hI.nodup, hI.atJoin, hI.stopHeard, ?_⟩
      intro hblocked
      exact absurd hnil hblocked
  | @notifiedAll n hmem =>
      refine ⟨?_, List.nodup_nil, ?_, ?_, ?_⟩
      · intro t ht
        contradiction
      · intro k hk
        exact hI.atJoin k (List.mem_of_mem_erase hk)
      · intro hblocked
        exact absurd rfl hblocked
      · intro hblocked
        exact absurd rfl hblocked
  | woken hmem => exact hI.erase hmem _

end Heard

theorem heard_of_reachable (h : (lts α).ReachableVia (via G) c) : c.Heard := by
  refine h.invariant (I := Heard) ?init ?step
  case init =>
    rintro c rfl
    refine ⟨?_, List.nodup_nil, ?_, ?_, ?_⟩ <;> simp
  case step => exact fun c l d hI _ hs => hI.step hs

/-- **No wake-up is lost.** For any number of threads in `Run` and any order of the blocks under
`_pump_lock`, the notifications after them and spurious wake-ups: what the threads do is a run of
`PumpSystem`; a thread that is blocked although the manager is stopped is about to be woken by a
`Stop`; and when threads are blocked although there are messages, a `SendMsg` is about to notify
one of them, or another thread is on its way to the wait and finds the messages there. -/
theorem no_lost_wakeup (h : (lts α).Reachable c) :
    (PumpSystem.lts α).Reachable c.sys ∧
      (∀ t ∈ c.blocked, c.sys.pc t = .runLoop ∧
        (c.sys.pump.stopped = true → ∃ n, n ∈ c.toNotifyAll ∧
          c.sys.pc (.client n) = .joinTest ∧ ∃ d, c.step (.notifyAll n) = some d ∧ d.blocked = []) ∧
        (c.sys.pump.queue ≠ [] →
          (∃ d, c.step (.notifyOne (some t)) = some d ∧ t ∉ d.blocked) ∨
            ∃ u, u ∉ c.blocked ∧ (c.sys.pc u).toWait = true)) := by
  have hvia : (lts α).ReachableVia (via Lts.anyStep) c := by
    refine h.mono ?_
    intro c l _
    cases l <;> trivial
  have hI := heard_of_reachable hvia
  refine ⟨sys_reachable hvia, ?_⟩
  intro t ht
  have hne : c.blocked ≠ [] := List.ne_nil_of_mem ht
  refine ⟨hI.atWait t ht, ?stopped, ?queue⟩
  case stopped =>
    intro hs
    obtain ⟨n, hn⟩ := List.exists_mem_of_ne_nil _ (hI.stopHeard hne hs)
    refine ⟨n, hn, hI.atJoin n hn, ?_⟩
    exact ⟨_, if_pos hn, rfl⟩
  case queue =>
    intro hq
    refine (hI.msgHeard hne hq).imp_left ?_
    intro hpos
    exact ⟨_, if_pos ⟨hpos, ht⟩, hI.nodup.not_mem_erase⟩

/-- A message comes while the worker is blocked. -/
def blockedSchedule : List (PumpCvLabel ℕ) :=
  [.sys .start, .block (.worker 0), .sys (.sendMsg 1)]

theorem no_lost_wakeup_blocked : ∃ c : PumpCv ℕ, c.blocked = [.worker 0] ∧
    c.sys.pump.queue = [1] ∧ ((∃ d, c.step (.notifyOne (some (.worker 0))) = some d ∧
      .worker 0 ∉ d.blocked) ∨ ∃ u, u ∉ c.blocked ∧ (c.sys.pc u).toWait = true) := by
  obtain ⟨c, hexec, hblocked, hqueue⟩ : ∃ c : PumpCv ℕ,
      (lts ℕ).exec (fun _ _ => true) {} blockedSchedule = some c ∧ c.blocked = [.worker 0] ∧
        c.sys.pump.queue = [1] := ⟨_, rfl, rfl, rfl⟩
  have hr : (lts ℕ).Reachable c :=
    ⟨_, rfl, Lts.runVia_of_exec (fun _ _ _ => trivial) hexec⟩
  have hheard := (no_lost_wakeup hr).2 (.worker 0) (by simp [hblocked])
  exact ⟨c, hblocked, hqueue, hheard.2.2 (by simp [hqueue])⟩

end PumpCv

end FsmFramework
