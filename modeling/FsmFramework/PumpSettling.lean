import Mathlib.Data.Prod.Lex
import FsmFramework.Lib.Progress
import FsmFramework.Lib.Trace
import FsmFramework.PumpWaiting

/-!
# The pump comes to rest

What the threads of `PumpCv` come to when nobody makes a new call and nobody wakes up for no reason.
Every step inside a call uses up a message, a notification, or a part of the call, so the threads
come to a point where none can go on; since no wake-up is lost, a thread that is blocked there has
nothing to do.

## Main results

* `pump_settles` — what is in `Run` waits for messages, and the other calls return, but for those of
  `Join`: one of them may wait for a worker, or throw.
* `every_stop_returns` — no `Stop` waits in vain, what it leaves is drained, and none throws where
  they are called one at a time.
-/

namespace FsmFramework

namespace PumpCv

open PumpSystem

variable {α : Type*} {c d : PumpCv α} {l : PumpCvLabel α}
  {G : PumpSystem α → PumpLabel α → Prop}

/-- The steps that threads take inside the calls they are in. Nobody makes a new call, and nobody
wakes up for no reason. -/
def inner (_c : PumpCv α) : PumpCvLabel α → Prop
  | .sys (.advance _) | .block _ | .notifyOne _ | .notifyAll _ => True
  | .sys (.sendMsg _) | .sys .start | .sys (.call _ _) | .spurious _ => False

theorem inner_via (hG : ∀ s t, G s (.advance t)) (hl : inner c l) : via G c l := by
  cases l with
  | sys l =>
      cases l with
      | advance t => exact hG c.sys t
      | sendMsg | start | call => exact hl.elim
  | block | notifyOne | notifyAll | spurious => trivial

/-! ## The threads come to rest -/

/-- The steps a thread can still take before it comes to rest or takes a message out of the queue,
which is empty or not. -/
def stepsLeft (empty : Bool) : CallPc → ℕ
  | .idle | .exited | .joinFailed => 0
  | .joining | .runLeft | .pumpDispatch false | .pumpTop false => 1
  | .joinTest | .pumpTop true => 2
  | .drainTest => if empty then 1 else 3
  | .runLoop => 3
  | .runDispatch | .pumpDispatch true => 4

/-- The same for a thread that may be blocked. -/
def weight (c : PumpCv α) (t : PumpThread) : ℕ :=
  if t ∈ c.blocked then 0 else stepsLeft c.sys.pump.queue.isEmpty (c.sys.pc t)

/-- What the steps inside the calls use up: messages and notifications first. -/
noncomputable def work (c : PumpCv α) : ℕ ×ₗ ℕ :=
  toLex (c.sys.pump.queue.length + c.toNotifyOne + c.toNotifyAll.length,
    finsum fun t => c.weight t)

/-- Only finitely many threads are in a call. -/
theorem finite_calls {s : PumpSystem α} (h : (PumpSystem.lts α).ReachableVia G s) :
    {t | s.pc t ≠ .idle}.Finite := by
  have hmove : ∀ {s s' : PumpSystem α} {t : PumpThread} {pc : CallPc},
      s'.pc = Function.update s.pc t pc → {t | s.pc t ≠ .idle}.Finite →
        {t | s'.pc t ≠ .idle}.Finite := by
    intro s s' t pc hpc hfin
    refine (hfin.insert t).subset ?_
    intro u hu
    by_cases hut : u = t
    · exact .inl hut
    · right
      rwa [Set.mem_ofPred_eq, hpc, Function.update_of_ne hut] at hu
  refine h.invariant (I := fun s => {t | s.pc t ≠ .idle}.Finite) ?init ?step
  case init =>
    rintro s rfl
    simp
  case step =>
    intro s l s' hfin _ hs
    cases l with
    | sendMsg m =>
        obtain rfl := Option.some.inj hs
        exact hfin
    | start =>
        obtain rfl := Option.some.inj hs
        by_cases hok : (s.pump.start s.workerThread.isSome).1 = .success
        · rw [start_of_success hok]
          exact hmove rfl hfin
        · rw [start_of_refused hok]
          exact hfin
    | call n call =>
        simp only [PumpSystem.lts, PumpSystem.step] at hs
        split at hs
        · obtain rfl := Option.some.inj hs
          cases call <;> exact hmove rfl hfin
        · contradiction
    | advance t =>
        obtain ⟨-, ⟨pc, hpc, -⟩, -⟩ := advance_pc hs
        exact hmove hpc hfin

theorem finite_weight (h : (lts α).ReachableVia (via G) c) :
    Function.HasFiniteSupport fun t => c.weight t := by
  refine (finite_calls (sys_reachable h)).subset ?_
  intro t ht hidle
  rw [Function.mem_support, weight, hidle] at ht
  split at ht <;> exact ht rfl

/-- One step inside a call: a message is taken, or the thread has less to do. -/
theorem stepsLeft_advance {s s' : PumpSystem α} {t : PumpThread} (hs : s.advance t = some s') :
    s'.pump.queue.length < s.pump.queue.length ∨
      (s'.pump.queue = s.pump.queue ∧ ∃ pc, s'.pc = Function.update s.pc t pc ∧
        stepsLeft s.pump.queue.isEmpty pc < stepsLeft s.pump.queue.isEmpty (s.pc t)) := by
  have htook : ∀ {pc}, s.popInto t pc = some s' →
      s'.pump.queue.length < s.pump.queue.length := by
    intro pc hp
    obtain ⟨⟨m, p⟩, hpop, rfl⟩ := Option.map_eq_some_iff.mp hp
    rw [Pump.pop_eq_some_iff.mp hpop]
    exact Nat.lt_succ_self _
  rw [PumpSystem.advance] at hs
  split at hs
  case h_1 | h_2 | h_3 => contradiction
  case h_4 hpc =>
    split at hs
    · refine .inr ?_
      obtain rfl := Option.some.inj hs
      refine ⟨rfl, _, rfl, ?_⟩
      simp [hpc, stepsLeft]
    · exact .inl (htook hs)
  case h_5 hpc =>
    refine .inr ?_
    obtain rfl := Option.some.inj hs
    refine ⟨rfl, _, rfl, ?_⟩
    simp [hpc, stepsLeft]
  case h_6 hpc =>
    refine .inr ?_
    obtain rfl := Option.some.inj hs
    refine ⟨rfl, _, rfl, ?_⟩
    cases t <;> simp [hpc, stepsLeft, afterRun]
  case h_7 hpc =>
    refine .inr ?_
    obtain rfl := Option.some.inj hs
    refine ⟨rfl, _, rfl, ?_⟩
    by_cases hq : s.pump.queue = []
    · simp [hpc, hq, stepsLeft]
    · simp [hpc, hq, stepsLeft]
  case h_8 drain hpc =>
    split at hs
    · rename_i hq
      refine .inr ?_
      obtain rfl := Option.some.inj hs
      refine ⟨rfl, _, rfl, ?_⟩
      cases drain <;> simp [hpc, hq, stepsLeft, afterPumpOnce]
    · exact .inl (htook hs)
  case h_9 drain hpc =>
    refine .inr ?_
    obtain rfl := Option.some.inj hs
    refine ⟨rfl, _, rfl, ?_⟩
    cases drain
    · simp [hpc, stepsLeft, afterPumpOnce]
    · simp only [hpc, stepsLeft, afterPumpOnce, if_true]
      split <;> omega
  case h_10 hpc =>
    refine .inr ?_
    obtain rfl := Option.some.inj hs
    refine ⟨rfl, _, rfl, ?_⟩
    rw [hpc]
    split <;> simp [stepsLeft]
  case h_11 hpc =>
    refine .inr ?_
    split at hs
    · obtain rfl := Option.some.inj hs
      refine ⟨rfl, _, rfl, ?_⟩
      simp [hpc, stepsLeft]
    · split at hs
      · obtain rfl := Option.some.inj hs
        refine ⟨rfl, _, rfl, ?_⟩
        simp [hpc, stepsLeft]
      · contradiction

/-- Every step inside a call uses up work. -/
theorem work_step (h : (lts α).ReachableVia (via G) c) (hl : inner c l) (hs : c.step l = some d) :
    d.work < c.work := by
  have hfin := finite_weight h
  have hfewer : d.sys.pump.queue.length + d.toNotifyOne + d.toNotifyAll.length <
      c.sys.pump.queue.length + c.toNotifyOne + c.toNotifyAll.length → d.work < c.work := by
    intro hlt
    exact Prod.Lex.toLex_lt_toLex.mpr (.inl hlt)
  have hless : ∀ t w, w < c.weight t →
      (fun u => d.weight u) = Function.update (fun u => c.weight u) t w →
      d.sys.pump.queue.length + d.toNotifyOne + d.toNotifyAll.length =
        c.sys.pump.queue.length + c.toNotifyOne + c.toNotifyAll.length → d.work < c.work := by
    intro t w hw hweight heq
    refine Prod.Lex.toLex_lt_toLex.mpr (.inr ⟨heq, ?_⟩)
    have hsum := finsum_update (f := id) (g := fun u => c.weight u) hfin t w
    have hnew : (finsum fun u => d.weight u) =
        finsum fun u => Function.update (fun u => c.weight u) t w u := congrArg finsum hweight
    simp only [id] at hsum
    omega
  cases step_cases hs with
  | sent | refused | started | stopping | called | woken => exact hl.elim
  | @advanced t s hheld hadv =>
      obtain hpop | ⟨hq, pc, hpc, hlt⟩ := stepsLeft_advance hadv
      · exact hfewer (by simpa using hpop)
      · have hawake : t ∉ c.blocked := fun ht => hheld (.inl ht)
        refine hless t (stepsLeft c.sys.pump.queue.isEmpty pc) ?_ ?_ (by simp [hq])
        · rwa [weight, if_neg hawake]
        · funext u
          by_cases hut : u = t
          · subst hut
            simp [weight, hawake, hpc, hq]
          · simp [weight, hut, hpc, hq]
  | @blocked t hpc hawake hopen hempty =>
      refine hless t 0 ?_ ?_ rfl
      · rw [weight, if_neg hawake, hpc]
        exact Nat.succ_pos _
      · funext u
        by_cases hut : u = t
        · simp [weight, hut]
        · simp [weight, hut]
  | notified hpos => exact hfewer (by simp only; omega)
  | nobody hpos => exact hfewer (by simp only; omega)
  | notifiedAll hmem =>
      have hlt := List.length_pos_of_mem hmem
      refine hfewer ?_
      simp only [List.length_erase_of_mem hmem]
      omega

/-- Left alone, the threads come to the end of their calls, or to a point where they wait. -/
theorem terminates (h : (lts α).ReachableVia (via G) c)
    (hG : ∀ s t, G s (.advance t)) : (lts α).Terminates inner c := by
  refine Lts.Terminates.of_measure (wellFounded_lt (α := ℕ ×ₗ ℕ))
    (I := fun c => (lts α).ReachableVia (via G) c) work ?_ h
  intro c l d hr hl hs
  exact ⟨hr.step (inner_via hG hl) hs, work_step hr hl hs⟩

/-- Where a client stands when no thread can go on: its call has returned, it is blocked in `Run`,
its `join` waits for a worker that is blocked there, or its `join` threw, since another one had
joined the worker after this client's test. -/
inductive ClientSettled (c : PumpCv α) (n : ℕ) : Prop
  | returned (h : c.sys.pc (.client n) = .idle)
  | waits (h : (c.sys.pc (.client n)).inRun = true) (hb : .client n ∈ c.blocked)
  | joins (h : c.sys.pc (.client n) = .joining) {w : ℕ} (hw : c.sys.workerThread = some w)
      (hb : .worker w ∈ c.blocked)
  | threw (h : c.sys.pc (.client n) = .joinFailed)

/-- What the threads have come to when none can go on: those in `Run` are blocked, with nothing to
do, the other workers have exited, each client is where `ClientSettled` says, and no notification
is to come. -/
structure Settled (c : PumpCv α) : Prop where
  run : ∀ t, (c.sys.pc t).inRun = true →
    t ∈ c.blocked ∧ c.sys.pump.stopped = false ∧ c.sys.pump.queue = []
  worker : ∀ w < c.sys.started, .worker w ∈ c.blocked ∨ c.sys.pc (.worker w) = .exited
  client : ∀ n, c.ClientSettled n
  notified : c.toNotifyOne = 0 ∧ c.toNotifyAll = []

/-- Where no thread can go on, no notification is to come. -/
theorem notified_of_stuck (hstuck : (lts α).Stuck inner c) :
    c.toNotifyOne = 0 ∧ c.toNotifyAll = [] := by
  refine ⟨?one, ?all⟩
  case one =>
    by_contra hne
    have hpos : 0 < c.toNotifyOne := Nat.pos_of_ne_zero hne
    cases hb : c.blocked with
    | nil => exact hstuck _ ⟨.notifyOne none, trivial, if_pos ⟨hpos, hb⟩⟩
    | cons t l =>
        have hmem : t ∈ c.blocked := by simp [hb]
        exact hstuck _ ⟨.notifyOne (some t), trivial, if_pos ⟨hpos, hmem⟩⟩
  case all =>
    by_contra hne
    obtain ⟨n, hn⟩ := List.exists_mem_of_ne_nil _ hne
    exact hstuck _ ⟨.notifyAll n, trivial, if_pos hn⟩

/-- A thread that is not blocked has nothing to do in its call. -/
theorem advance_of_stuck (hstuck : (lts α).Stuck inner c) {t : PumpThread}
    (hawake : t ∉ c.blocked) : c.sys.advance t = none := by
  have hheld : ¬ c.Held t := by
    rintro (hmem | ⟨n, hn, -⟩)
    · exact hawake hmem
    · simp [(notified_of_stuck hstuck).2] at hn
  cases hadv : c.sys.advance t with
  | none => rfl
  | some s =>
      refine absurd ?_ (hstuck { c with sys := s })
      refine ⟨.sys (.advance t), trivial, ?_⟩
      simp [lts, step, stepSys, hheld, hadv]

/-- Who is inside `Run` is blocked. -/
theorem blocked_of_stuck (hstuck : (lts α).Stuck inner c) {t : PumpThread}
    (hin : (c.sys.pc t).inRun = true) : t ∈ c.blocked := by
  by_contra hawake
  have hadv := advance_of_stuck hstuck hawake
  cases hpc : c.sys.pc t with
  | runLoop =>
      have hwait : c.sys.pump.stopped = false ∧ c.sys.pump.queue = [] := by
        cases hs : c.sys.pump.stopped <;> cases hq : c.sys.pump.queue <;>
          simp [PumpSystem.advance, hpc, hs, hq, popInto, Pump.pop] at hadv ⊢
      exact hstuck _ ⟨.block t, trivial, if_pos ⟨hpc, hawake, hwait.1, hwait.2⟩⟩
  | runDispatch | runLeft => simp [PumpSystem.advance, hpc] at hadv
  | _ => simp [hpc, CallPc.inRun] at hin

/-- A client is in no call any more, or in one that cannot go on. -/
theorem clientSettled_of_stuck (hI : c.Heard) (hst : StartedInv c.sys)
    (hstuck : (lts α).Stuck inner c) (n : ℕ) : c.ClientSettled n := by
  by_cases hmem : PumpThread.client n ∈ c.blocked
  · exact .waits (by simp [hI.atWait _ hmem, CallPc.inRun]) hmem
  have hadv := advance_of_stuck hstuck hmem
  cases hpc : c.sys.pc (.client n) with
  | idle => exact .returned hpc
  | joinFailed => exact .threw hpc
  | exited => exact absurd hpc (hst.client n)
  | runLoop | runDispatch | runLeft =>
      exact absurd (blocked_of_stuck hstuck (by simp [hpc, CallPc.inRun])) hmem
  | drainTest | pumpDispatch | joinTest => simp [PumpSystem.advance, hpc] at hadv
  | pumpTop drain =>
      cases hq : c.sys.pump.queue <;>
        simp [PumpSystem.advance, hpc, hq, popInto, Pump.pop] at hadv
  | joining =>
      cases hw : c.sys.workerThread with
      | none => simp [PumpSystem.advance, hpc, hw] at hadv
      | some w =>
          refine .joins hpc hw ?_
          obtain hin | hexit := hst.begun w (hst.known w hw)
          · exact blocked_of_stuck hstuck hin
          · simp [PumpSystem.advance, hpc, hw, hexit] at hadv

theorem settled_of_stuck (hI : c.Heard) (hst : StartedInv c.sys)
    (hstuck : (lts α).Stuck inner c) : Settled c := by
  obtain ⟨hone, hall⟩ := notified_of_stuck hstuck
  refine ⟨?run, ?worker, clientSettled_of_stuck hI hst hstuck, hone, hall⟩
  case run =>
    intro t hin
    have hmem := blocked_of_stuck hstuck hin
    have hne : c.blocked ≠ [] := List.ne_nil_of_mem hmem
    refine ⟨hmem, ?_, ?_⟩
    · by_contra hs
      exact hI.stopHeard hne (by simpa using hs) hall
    · by_contra hq
      obtain hpos | ⟨u, hawake, hu⟩ := hI.msgHeard hne hq
      · omega
      · refine hawake (blocked_of_stuck hstuck ?_)
        cases hpc : c.sys.pc u <;> simp_all [CallPc.toWait, CallPc.inRun]
  case worker =>
    intro w hw
    obtain hin | hexit := hst.begun w hw
    · exact .inl (blocked_of_stuck hstuck hin)
    · exact .inr hexit

/-- **The pump comes to rest.** From every reachable state, with any number of threads in `Run`,
`PumpOnce`, `RunUntilEmpty`, `Stop` and `Join`: if nobody makes a new call, then in whatever order
the threads go on, and without spurious wake-ups, they come to a state in which every thread in
`Run` is blocked, the manager not stopped and its queue empty, no notification is to come, and
every other call has returned, but for a `join` that waits for a blocked worker or that threw. -/
theorem pump_settles (h : (lts α).Reachable c) : (lts α).Inevitably inner Settled c := by
  have hvia : (lts α).ReachableVia (via Lts.anyStep) c := by
    refine h.mono ?_
    intro c l _
    cases l <;> trivial
  refine (terminates hvia fun _ _ => trivial).inevitably ?_
  intro d hrun hstuck
  have hd := hvia.run (hrun.mono fun c l hl => inner_via (fun _ _ => trivial) hl)
  exact settled_of_stuck (heard_of_reachable hd) (reachable_startedInv (sys_reachable hd).reachable)
    hstuck

theorem pump_settles_blocked : ∃ c : PumpCv ℕ, c.blocked = [.worker 0] ∧
    c.sys.pump.queue = [1] ∧ (lts ℕ).Inevitably inner Settled c := by
  obtain ⟨c, hexec, hblocked, hqueue⟩ : ∃ c : PumpCv ℕ,
      (lts ℕ).exec (fun _ _ => true) {} blockedSchedule = some c ∧ c.blocked = [.worker 0] ∧
        c.sys.pump.queue = [1] := ⟨_, rfl, rfl, rfl⟩
  exact ⟨c, hblocked, hqueue,
    pump_settles ⟨_, rfl, Lts.runVia_of_exec (fun _ _ _ => trivial) hexec⟩⟩

/-! ## No stop is waited for in vain -/

/-- Once a worker was started there is one inside `Run`, or the pump is stopped and drained. -/
def Served (s : PumpSystem α) : Prop :=
  0 < s.started → (∃ w, (s.pc (.worker w)).inRun = true) ∨ Drained s

theorem Served.step {s s' : PumpSystem α} {l : PumpLabel α} (hw : WorkerInv s) (hI : Served s)
    (hs : s.step l = some s') : Served s' := by
  intro hstarted
  by_cases hl : Starts s l
  · obtain ⟨rfl, hok⟩ := hl
    obtain rfl := Option.some.inj hs
    rw [start_of_success hok]
    exact .inl ⟨s.started, by simp [CallPc.inRun]⟩
  have hkept : s.started = s'.started → (∀ w, (s.pc (.worker w)).inRun = true →
      (s'.pc (.worker w)).inRun = true ∨ Drained s) → (∃ w, (s'.pc (.worker w)).inRun = true) ∨
        Drained s' := by
    intro hst hrun
    obtain ⟨w, hin⟩ | hd := hI (hst ▸ hstarted)
    · obtain hin | hd := hrun w hin
      · exact .inl ⟨w, hin⟩
      · exact .inr (step_drained hl hd hs)
    · exact .inr (step_drained hl hd hs)
  cases l with
  | sendMsg m =>
      obtain rfl := Option.some.inj hs
      exact hkept rfl fun w hin => .inl hin
  | start =>
      obtain rfl := Option.some.inj hs
      have hne : (s.pump.start s.workerThread.isSome).1 ≠ .success := fun he => hl ⟨rfl, he⟩
      rw [start_of_refused hne] at hstarted ⊢
      exact hI hstarted
  | call n call =>
      simp only [PumpSystem.step] at hs
      split at hs
      · obtain rfl := Option.some.inj hs
        cases call <;> exact hkept rfl fun w hin => .inl (by simpa [enter, goto] using hin)
      · contradiction
  | advance t =>
      obtain ⟨-, -, hst, -⟩ := advance_pc hs
      refine hkept hst.symm ?_
      intro w hin
      by_cases hleft : s.pc (.worker w) = .runLeft
      · exact .inr (hw.drained w hleft)
      · left
        obtain ⟨hpc, -, hupd⟩ | ⟨-, -, pc, hupd, hpc, -⟩ := advance_running hs
        · have hne : PumpThread.worker w ≠ t := by
            rintro rfl
            exact hleft hpc
          rwa [hupd, Function.update_of_ne hne]
        · by_cases hwt : PumpThread.worker w = t
          · subst hwt
            rwa [hupd, Function.update_self, hpc]
          · rwa [hupd, Function.update_of_ne hwt]

theorem served_of_reachable {s : PumpSystem α} (h : (PumpSystem.lts α).Reachable s) :
    Served s := by
  refine h.invariant_reachable (I := Served) ?init ?step
  case init =>
    rintro s rfl
    intro hstarted
    contradiction
  case step => exact fun s l s' hr hI _ hs => hI.step (reachable_workerInv hr) hs

/-- `Run` is left to the worker, and `Join` is called on a stopped manager only. -/
def joinsStopped (s : PumpSystem α) : PumpLabel α → Prop
  | .call _ .run => False
  | .call _ .join => s.pump.stopped = true
  | _ => True

/-- `Stop` and `Join` are called while nobody is in `Join`. -/
def joinsApart (s : PumpSystem α) : PumpLabel α → Prop
  | .call _ .stop | .call _ .join => ∀ t, (s.pc t).inJoin = false
  | _ => True

theorem client_inRun_of_reachable {s : PumpSystem α}
    (h : (PumpSystem.lts α).ReachableVia (fun s l => joinsStopped s l ∧ startsApart s l) s)
    (n : ℕ) :
    (s.pc (.client n)).inRun = false := by
  refine (reachable_lifecycleInv (h.mono ?_)).2.client n
  intro s l hg
  cases l with
  | call n call =>
      cases call with
      | run => exact hg.1.elim
      | _ => trivial
  | _ => trivial

theorem stopHeard_of_reachable {s : PumpSystem α}
    (h : (PumpSystem.lts α).ReachableVia (fun s l => joinsStopped s l ∧ startsApart s l) s) :
    StopHeard s := by
  refine h.invariant (I := StopHeard) ?init ?step
  case init =>
    rintro s rfl n hin
    simp [CallPc.inJoin] at hin
  case step =>
    intro s l t hI hg hs
    refine hI.step ?_ hg.2 hs
    rintro n rfl
    exact hg.1

/-- One client is in `Join` at most, the worker it has tested for is still to be joined, and
nobody's `join` threw. -/
structure JoinInv (s : PumpSystem α) : Prop where
  alone : ∀ t u, (s.pc t).inJoin = true → (s.pc u).inJoin = true → t = u
  joinable : ∀ t, s.pc t = .joining → s.workerThread ≠ none
  calm : ∀ t, s.pc t ≠ .joinFailed

theorem JoinInv.calm_update {s s' : PumpSystem α} (hI : JoinInv s) {t : PumpThread} {pc : CallPc}
    (hpc : s'.pc = Function.update s.pc t pc) (hne : pc ≠ .joinFailed) (u : PumpThread) :
    s'.pc u ≠ .joinFailed := by
  rw [hpc]
  by_cases hut : u = t
  · simpa [hut] using hne
  · simpa [hut] using hI.calm u

/-- A thread that comes to a point outside `Join` and did not throw. -/
theorem JoinInv.update {s s' : PumpSystem α} (hI : JoinInv s) {t : PumpThread} {pc : CallPc}
    (hpc : s'.pc = Function.update s.pc t pc) (hout : pc.inJoin = false) (hne : pc ≠ .joinFailed)
    (hthread : ∀ u, u ≠ t → s.pc u = .joining → s'.workerThread ≠ none) : JoinInv s' := by
  have hother : ∀ u, (s'.pc u).inJoin = true → u ≠ t ∧ s'.pc u = s.pc u := by
    intro u hu
    have hut : u ≠ t := by
      rintro rfl
      simp [hpc, hout] at hu
    exact ⟨hut, by rw [hpc, Function.update_of_ne hut]⟩
  refine ⟨?alone, ?joinable, hI.calm_update hpc hne⟩
  case alone =>
    intro u v hu hv
    exact hI.alone u v ((hother u hu).2 ▸ hu) ((hother v hv).2 ▸ hv)
  case joinable =>
    intro u hu
    obtain ⟨hut, hsame⟩ := hother u (by simp [hu, CallPc.inJoin])
    exact hthread u hut (hsame ▸ hu)
/-- The one thread that is in `Join`, or comes to it. -/
theorem JoinInv.enter {s s' : PumpSystem α} (hI : JoinInv s) {t : PumpThread} {pc : CallPc}
    (hpc : s'.pc = Function.update s.pc t pc) (hne : pc ≠ .joinFailed)
    (halone : ∀ u, (s.pc u).inJoin = true → u = t)
    (hthread : pc = .joining → s'.workerThread ≠ none) : JoinInv s' := by
  have hself : ∀ u, (s'.pc u).inJoin = true → u = t := by
    intro u hu
    by_contra hut
    rw [hpc, Function.update_of_ne hut] at hu
    exact hut (halone u hu)
  refine ⟨?alone, ?joinable, hI.calm_update hpc hne⟩
  case alone => exact fun u v hu hv => (hself u hu).trans (hself v hv).symm
  case joinable =>
    intro u hu
    obtain rfl := hself u (by simp [hu, CallPc.inJoin])
    rw [hpc, Function.update_self] at hu
    exact hthread hu
theorem JoinInv.advance {s s' : PumpSystem α} {t : PumpThread} (hI : JoinInv s)
    (hs : s.advance t = some s') : JoinInv s' := by
  have halone : (s.pc t).inJoin = true → ∀ u, (s.pc u).inJoin = true → u = t :=
    fun ht u hu => hI.alone u t hu ht
  cases hpc : s.pc t with
  | joinTest =>
      obtain rfl : s.goto t (if s.workerThread.isSome then .joining else .idle) = s' := by
        simpa [PumpSystem.advance, hpc] using hs
      refine hI.enter rfl (by split <;> simp) (halone (by simp [hpc, CallPc.inJoin])) ?_
      intro hjoining
      cases hw : s.workerThread with
      | none => simp [hw] at hjoining
      | some w => simp [goto, hw]
  | joining =>
      obtain ⟨w, hw⟩ := Option.ne_none_iff_exists'.mp (hI.joinable t hpc)
      obtain ⟨-, rfl⟩ : s.pc (.worker w) = .exited ∧
          { s.goto t .idle with workerThread := none } = s' := by
        simpa [PumpSystem.advance, hpc, hw] using hs
      refine hI.update rfl rfl (by simp) ?_
      intro u hut hu
      exact absurd (halone (by simp [hpc, CallPc.inJoin]) u (by simp [hu, CallPc.inJoin])) hut
  | _ =>
      obtain ⟨pc, hupd, hout, hne, hthread⟩ := advance_outside_join (by rw [hpc]; rfl) hs
      exact hI.update hupd hout hne fun u _ hu => hthread ▸ hI.joinable u hu

theorem JoinInv.step {s s' : PumpSystem α} {l : PumpLabel α} (hI : JoinInv s)
    (hl : joinsApart s l) (hs : s.step l = some s') : JoinInv s' := by
  cases l with
  | sendMsg m =>
      obtain rfl := Option.some.inj hs
      exact ⟨hI.alone, hI.joinable, hI.calm⟩
  | start =>
      obtain rfl := Option.some.inj hs
      by_cases hok : (s.pump.start s.workerThread.isSome).1 = .success
      · rw [start_of_success hok]
        exact hI.update rfl rfl (by simp) fun _ _ _ => by simp
      · rw [start_of_refused hok]
        exact hI
  | call n call =>
      simp only [PumpSystem.step, Option.ite_none_right_eq_some, Option.some.injEq] at hs
      obtain ⟨-, rfl⟩ := hs
      cases call with
      | stop | join =>
          have hpc : (s.goto (.client n) .joinTest).pc =
              Function.update s.pc (.client n) .joinTest := rfl
          exact hI.enter hpc (by simp) (fun u hu => by simp [hl u] at hu) (by simp)
      | run | pumpOnce | runUntilEmpty =>
          exact hI.update (t := .client n) rfl rfl (by simp) fun u _ hu => hI.joinable u hu
  | advance t => exact hI.advance hs

theorem joinInv_of_reachable {s : PumpSystem α}
    (h : (PumpSystem.lts α).ReachableVia joinsApart s) : JoinInv s := by
  refine h.invariant (I := JoinInv) ?init ?step
  case init =>
    rintro s rfl
    exact ⟨by simp [CallPc.inJoin], by simp, by simp⟩
  case step => exact fun s l t hI hg hs => hI.step hg hs

/-- The calls of `Stop` and `Join` have returned, but for those whose `join` threw, and what a
stopped manager leaves is drained: no worker is inside `Run`, and every message that was accepted
was popped, provided there was a worker at all. -/
structure Returned (c : PumpCv α) : Prop where
  client : ∀ n, c.sys.pc (.client n) = .idle ∨ c.sys.pc (.client n) = .joinFailed
  notified : c.toNotifyOne = 0 ∧ c.toNotifyAll = []
  drained : c.sys.pump.stopped = true → 0 < c.sys.started →
    (∀ w, (c.sys.pc (.worker w)).inRun = false) ∧ c.sys.popped = c.sys.accepted

/-- Nobody is at rest inside `Run` of a stopped manager. -/
theorem Settled.inRun_of_stopped (h : Settled c) (hs : c.sys.pump.stopped = true)
    (t : PumpThread) : (c.sys.pc t).inRun = false := by
  by_contra hin
  obtain ⟨-, hopen, -⟩ := h.run t (by simpa using hin)
  simp [hs] at hopen

/-- Whoever is in `Join` has been heard, so the worker it waits for cannot be blocked. -/
theorem Settled.returned
    (h : (lts α).ReachableVia (via fun s l => joinsStopped s l ∧ startsApart s l) c)
    (hsettled : Settled c) : c.Returned := by
  have hsys := sys_reachable h
  refine ⟨?client, hsettled.notified, ?drained⟩
  case client =>
    intro n
    cases hsettled.client n with
    | returned hpc => exact .inl hpc
    | threw hpc => exact .inr hpc
    | waits hin => simp [client_inRun_of_reachable hsys n] at hin
    | @joins hpc w _ hb =>
        have hs : c.sys.pump.stopped = true :=
          stopHeard_of_reachable hsys n (by simp [hpc, CallPc.inJoin])
        have hwait := (heard_of_reachable h).atWait _ hb
        have hnot := hsettled.inRun_of_stopped hs (.worker w)
        simp [hwait, CallPc.inRun] at hnot
  case drained =>
    intro hs hstarted
    refine ⟨fun w => hsettled.inRun_of_stopped hs (.worker w), ?_⟩
    obtain ⟨w, hin⟩ | hdrained := served_of_reachable hsys.reachable hstarted
    · simp [hsettled.inRun_of_stopped hs (.worker w)] at hin
    · have hfifo := reachable_fifo hsys.reachable
      rw [hfifo, hdrained.2, List.append_nil]

/-- A stopped manager stays stopped while nobody makes a new call. -/
theorem stopped_of_inner (hrun : (lts α).RunVia inner c d) (hs : c.sys.pump.stopped = true) :
    d.sys.pump.stopped = true := by
  refine hrun.invariant (I := fun c => c.sys.pump.stopped = true) ?step hs
  case step =>
    intro c l d hs hl hstep
    cases step_cases hstep with
    | sent | refused | started | stopping | called | woken => exact hl.elim
    | @advanced t s _ hadv =>
        have hadv' : c.sys.step (.advance t) = some s := hadv
        cases step_effect (by simp [Starts]) hadv' with
        | unchanged _ hs' | popped _ _ hs' => exact hs'.trans hs
        | sent _ _ _ hs' => exact hs'.trans hs
        | flagged _ hs' => exact hs'
    | blocked | notified | nobody | notifiedAll => exact hs

/-- **Every `Stop` and `Join` comes to an end**, as long as no `Start` succeeds while one of them is
on its way and `Join` is called on a stopped manager only. From every reachable state: if nobody
makes a new call, then in whatever order the threads go on, without spurious wake-ups, nobody is
left in a call; and if the manager was stopped, it still is, and is drained. A `join` can throw,
where two clients have tested for the same worker; where `Stop` and `Join` are called one at a time,
none does, and every call returns. -/
theorem every_stop_returns
    (h : (lts α).ReachableVia (via fun s l => joinsStopped s l ∧ startsApart s l) c) :
    (lts α).Inevitably inner (fun d => d.Returned ∧
      (c.sys.pump.stopped = true → d.sys.pump.stopped = true) ∧
      ((lts α).ReachableVia (via joinsApart) c → ∀ n, d.sys.pc (.client n) = .idle)) c := by
  have hG : ∀ (s : PumpSystem α) t, joinsStopped s (.advance t) ∧ startsApart s (.advance t) :=
    fun s t => ⟨trivial, by simp [startsApart, Starts]⟩
  refine (terminates h hG).inevitably ?_
  intro d hrun hstuck
  have hd := h.run (hrun.mono fun c l hl => inner_via hG hl)
  have hst := reachable_startedInv (sys_reachable hd).reachable
  have hreturned := (settled_of_stuck (heard_of_reachable hd) hst hstuck).returned hd
  refine ⟨hreturned, stopped_of_inner hrun, ?_⟩
  intro hapart n
  have hd' := hapart.run (hrun.mono fun c l hl => inner_via (fun _ _ => trivial) hl)
  exact (hreturned.client n).resolve_right ((joinInv_of_reachable (sys_reachable hd')).calm _)

/-- A message is sent, or a thread blocks. -/
def sendsOrBlocks (_c : PumpCv ℕ) : PumpCvLabel ℕ → Bool
  | .sys (.sendMsg _) | .block _ => true
  | _ => false

/-- The worker is blocked, a message waits for it, and a client calls `Stop`. -/
theorem every_stop_returns_blocked : ∃ c : PumpCv ℕ,
    c.blocked = [.worker 0] ∧ c.sys.pc (.client 0) = .joinTest ∧ c.toNotifyAll = [0] ∧
      c.sys.pump.stopped = true ∧
      (lts ℕ).ReachableVia (via joinsApart) c ∧
      (lts ℕ).Inevitably inner (fun d => d.Returned ∧
        (c.sys.pump.stopped = true → d.sys.pump.stopped = true) ∧
        ((lts ℕ).ReachableVia (via joinsApart) c → ∀ n, d.sys.pc (.client n) = .idle)) c := by
  obtain ⟨b, hexec, hblocked, hnone, hpc⟩ : ∃ b : PumpCv ℕ,
      (lts ℕ).exec sendsOrBlocks { sys := start {} } [.block (.worker 0), .sys (.sendMsg 1)] =
        some b ∧
        b.blocked = [.worker 0] ∧ b.toNotifyAll = [] ∧
          b.sys.pc = Function.update (fun _ => .idle) (.worker 0) .runLoop :=
    ⟨_, rfl, rfl, rfl, rfl⟩
  have hidle : ∀ t, (b.sys.pc t).inJoin = false := by
    intro t
    rw [hpc]
    by_cases ht : t = .worker 0
    · simp [ht, CallPc.inJoin]
    · simp [ht, CallPc.inJoin]
  have hcall : b.sys.pc (.client 0) = .idle := by
    rw [hpc]
    rfl
  obtain ⟨c, hstop, hsys, hall, hblocked'⟩ : ∃ c, (lts ℕ).step b (.sys (.call 0 .stop)) = some c ∧
      c.sys = b.sys.enter (.client 0) .stop ∧ c.toNotifyAll = [0] ∧ c.blocked = [.worker 0] := by
    simp [lts, step, stepSys, PumpSystem.step, hcall, hnone, hblocked]
  have hr : ∀ G : PumpSystem ℕ → PumpLabel ℕ → Prop, G {} .start → (∀ s m, G s (.sendMsg m)) →
      G b.sys (.call 0 .stop) → (lts ℕ).ReachableVia (via G) c := by
    intro G hstart hsend hg
    have hrun : (lts ℕ).RunVia (via G) { sys := start {} } b := by
      refine Lts.runVia_of_exec ?_ hexec
      intro c l hl
      cases l with
      | sys l =>
          cases l with
          | sendMsg m => exact hsend c.sys m
          | start | call | advance => cases hl
      | block | notifyOne | notifyAll | spurious => trivial
    have hfirst : (lts ℕ).RunVia (via G) {} { sys := start {} } :=
      Lts.RunVia.single (a := .sys .start) hstart rfl
    exact Lts.ReachableVia.step (a := .sys (.call 0 .stop)) ⟨_, rfl, hfirst.trans hrun⟩ hg hstop
  have hapart : ∀ (s : PumpSystem ℕ) l, l ≠ .start → startsApart s l :=
    fun s l hl hs => absurd hs.1 hl
  exact ⟨c, hblocked', by simp [hsys, enter, goto], hall, by rw [hsys]; rfl,
    hr joinsApart trivial (fun _ _ => trivial) hidle,
    every_stop_returns (hr _ ⟨trivial, fun _ _ => rfl⟩
      (fun s m => ⟨trivial, hapart s _ (by simp)⟩) ⟨trivial, hapart _ _ (by simp)⟩)⟩

end PumpCv

end FsmFramework
