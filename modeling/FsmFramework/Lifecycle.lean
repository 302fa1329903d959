import FsmFramework.PumpSystem

/-!
# The worker thread's lifecycle

`Start`, `Stop` and `Join` are spread over two flags and a thread object that is tested and
joined outside the lock. Two questions about them, for any number of callers: that there is
never more than one worker inside `Run` (`worker_lifecycle`), and whether a `Stop` that waits
for a worker has told that worker to stop (`stop_not_lost`). The second needs that no `Start`
comes between; with three callers one can (`stop_lost`).
-/

namespace FsmFramework

/-- The thread is inside `Run`. -/
def CallPc.inRun : CallPc → Bool
  | .runLoop | .runDispatch | .runLeft => true
  | _ => false

/-- The thread is inside `Join`: before its test, or before the `join` itself. -/
def CallPc.inJoin : CallPc → Bool
  | .joinTest | .joining => true
  | _ => false

/-- A call of `Start`. -/
def PumpLabel.isStart {α : Type*} : PumpLabel α → Bool
  | .start => true
  | _ => false

namespace PumpSystem

variable {α : Type*} {s t : PumpSystem α} {th : PumpThread}

theorem Moves.inRun {c pc : CallPc} (h : Moves c pc) : pc.inRun = c.inRun := by
  cases h with
  | empty drain | pumped drain => cases drain <;> rfl
  | _ => rfl

theorem Moves.inJoin {c pc : CallPc} (h : Moves c pc) (hpc : pc.inJoin = true) :
    c.inJoin = true := by
  cases h with
  | empty drain | pumped drain => cases drain <;> cases hpc
  | joinable => rfl
  | _ => cases hpc

theorem Moves.ne_exited {c pc : CallPc} (h : Moves c pc) : pc ≠ .exited := by
  cases h with
  | empty drain | pumped drain => cases drain <;> simp [afterPumpOnce]
  | _ => simp

theorem Moves.of_joinFailed {c : CallPc} (h : Moves c .joinFailed) : c = .joining := by
  generalize hpc : CallPc.joinFailed = pc at h
  cases h with
  | empty drain | pumped drain => cases drain <;> cases hpc
  | joinFailed => rfl
  | _ => cases hpc

theorem Takes.inRun {c pc : CallPc} (h : Takes c pc) :
    pc.inRun = c.inRun ∧ pc.inJoin = false ∧ pc ≠ .exited ∧ pc ≠ .joinFailed := by
  cases h <;> exact ⟨rfl, rfl, by simp, by simp⟩

/-- What an advancing thread does to `_running`: only the last critical section of `Run`
clears it, and only that one leads out of `Run`. No step but the call leads into `Join`. -/
theorem advance_running (h : s.advance th = some t) :
    (s.pc th = .runLeft ∧ t.pump.running = false ∧
        t.pc = Function.update s.pc th (afterRun th)) ∨
      (s.pc th ≠ .runLeft ∧ t.pump.running = s.pump.running ∧
        ∃ c, t.pc = Function.update s.pc th c ∧ c.inRun = (s.pc th).inRun ∧
          (c.inJoin = true → (s.pc th).inJoin = true) ∧ c ≠ .exited) := by
  cases advance_cases h with
  | @moved pc hmoves =>
      exact .inr ⟨hmoves.ne.2.1, rfl, pc, rfl, hmoves.inRun, hmoves.inJoin, hmoves.ne_exited⟩
  | @took m p pc htakes hpop =>
      obtain ⟨hin, hout, hne, -⟩ := htakes.inRun
      exact .inr ⟨htakes.ne.2.1, by simp [hpop, Pump.unpop], pc, rfl, hin, by simp [hout], hne⟩
  | broke hpc =>
      exact .inr ⟨by simp [hpc], rfl, .runLeft, rfl, by simp [hpc, CallPc.inRun],
        by simp [CallPc.inJoin], by simp⟩
  | left hpc => exact .inl ⟨hpc, rfl, rfl⟩
  | joined hpc =>
      exact .inr ⟨by simp [hpc], rfl, .idle, rfl, by simp [hpc, CallPc.inRun],
        by simp [CallPc.inJoin], by simp⟩

/-- An advancing thread keeps the thread object or, at the end of a `join`, empties it. -/
theorem advance_workerThread (h : s.advance th = some t) :
    t.workerThread = s.workerThread ∨ t.workerThread = none := by
  cases advance_cases h with
  | joined => exact .inr rfl
  | moved | took | broke | left => exact .inl rfl

/-- A step outside `Join` leads neither into it nor to a `join` that throws, and it keeps the thread
object. -/
theorem advance_outside_join (hpc : (s.pc th).inJoin = false) (h : s.advance th = some t) :
    ∃ pc, t.pc = Function.update s.pc th pc ∧ pc.inJoin = false ∧ pc ≠ .joinFailed ∧
      t.workerThread = s.workerThread := by
  have hout : ∀ pc : CallPc, (pc.inJoin = true → (s.pc th).inJoin = true) → pc.inJoin = false := by
    intro pc hin
    by_contra hpc'
    have hwas := hin (by simpa using hpc')
    simp [hpc] at hwas
  cases advance_cases h with
  | @moved pc hmoves =>
      refine ⟨pc, rfl, hout pc hmoves.inJoin, ?_, rfl⟩
      rintro rfl
      simp [hmoves.of_joinFailed, CallPc.inJoin] at hpc
  | @took m p pc htakes =>
      exact ⟨pc, rfl, htakes.inRun.2.1, htakes.inRun.2.2.2, rfl⟩
  | broke => exact ⟨.runLeft, rfl, rfl, by simp, rfl⟩
  | left => cases th <;> exact ⟨_, rfl, rfl, by simp [afterRun], rfl⟩
  | joined hjoining => simp [hjoining, CallPc.inJoin] at hpc

/-! ## Workers that were started -/

/-- A worker that was started is inside `Run` or has exited, the thread object refers to such a
worker, and only workers exit. -/
structure StartedInv (s : PumpSystem α) : Prop where
  begun : ∀ w < s.started, (s.pc (.worker w)).inRun = true ∨ s.pc (.worker w) = .exited
  known : ∀ w, s.workerThread = some w → w < s.started
  client : ∀ n, s.pc (.client n) ≠ .exited

private theorem StartedInv.advance (hI : StartedInv s) (h : s.advance th = some t) :
    StartedInv t := by
  obtain ⟨⟨-, hrunning⟩, -, hstarted, -⟩ := advance_pc h
  have hknown : ∀ w, t.workerThread = some w → w < t.started := by
    intro w htw
    rcases advance_workerThread h with heq | hnone
    · exact hstarted ▸ hI.known w (heq ▸ htw)
    · simp [hnone] at htw
  obtain ⟨pc, hupd, hworker, hclient⟩ : ∃ pc, t.pc = Function.update s.pc th pc ∧
      ((s.pc th).inRun = true → pc.inRun = true ∨ pc = .exited ∨ ∃ n, th = .client n) ∧
        (pc = .exited → ∃ w, th = .worker w) := by
    rcases advance_running h with ⟨-, -, hupd⟩ | ⟨-, -, pc, hupd, hin, -, hne⟩
    · cases th with
      | client n => exact ⟨_, hupd, fun _ => .inr (.inr ⟨n, rfl⟩), by simp [afterRun]⟩
      | worker w => exact ⟨_, hupd, fun _ => .inr (.inl rfl), fun _ => ⟨w, rfl⟩⟩
    · exact ⟨pc, hupd, fun hrun => .inl (hin.trans hrun), fun he => absurd he hne⟩
  refine ⟨?begun, hknown, ?client⟩
  case begun =>
    intro w hw
    rw [hupd]
    by_cases hth : PumpThread.worker w = th
    · subst hth
      rw [Function.update_self]
      obtain hin | hexit := hI.begun w (hstarted ▸ hw)
      · obtain hin | hexit | ⟨n, hn⟩ := hworker hin
        · exact .inl hin
        · exact .inr hexit
        · cases hn
      · exact absurd hexit hrunning
    · rw [Function.update_of_ne hth]
      exact hI.begun w (hstarted ▸ hw)
  case client =>
    intro n
    rw [hupd]
    by_cases hth : PumpThread.client n = th
    · subst hth
      rw [Function.update_self]
      intro he
      obtain ⟨w, hw⟩ := hclient he
      cases hw
    · rw [Function.update_of_ne hth]
      exact hI.client n

theorem StartedInv.step {l : PumpLabel α} (hI : StartedInv s) (h : s.step l = some t) :
    StartedInv t := by
  cases l with
  | sendMsg m =>
      obtain rfl := Option.some.inj h
      exact ⟨hI.begun, hI.known, hI.client⟩
  | start =>
      obtain rfl := Option.some.inj h
      by_cases hok : (s.pump.start s.workerThread.isSome).1 = .success
      · rw [start_of_success hok]
        refine ⟨?begun, ?known, ?client⟩
        case begun =>
          intro w hlt
          by_cases hws : w = s.started
          · exact .inl (by simp [hws, CallPc.inRun])
          · have hlt' : w < s.started := by simp only at hlt; omega
            simpa [hws] using hI.begun w hlt'
        case known =>
          intro w hw
          obtain rfl := Option.some.inj hw
          exact Nat.lt_succ_self _
        case client =>
          intro n
          simpa using hI.client n
      · rw [start_of_refused hok]
        exact hI
  | call n c =>
      simp only [PumpSystem.step] at h
      split at h
      · obtain rfl := Option.some.inj h
        refine ⟨?begun, ?known, ?client⟩
        case begun =>
          intro w hlt
          have hpc : (s.enter (.client n) c).pc (.worker w) = s.pc (.worker w) := by
            cases c <;> simp [enter, goto]
          rw [hpc]
          exact hI.begun w (by cases c <;> exact hlt)
        case known =>
          intro w hw
          cases c <;> exact hI.known w hw
        case client =>
          intro k
          by_cases hk : k = n
          · subst hk
            cases c <;> simp [enter, goto]
          · have hpc : (s.enter (.client n) c).pc (.client k) = s.pc (.client k) := by
              cases c <;> simp [enter, goto, hk]
            rw [hpc]
            exact hI.client k
      · contradiction
  | advance th => exact hI.advance h

theorem reachable_startedInv (h : (lts α).Reachable s) : StartedInv s := by
  refine h.invariant (I := StartedInv) ?init ?step
  case init =>
    rintro s rfl
    exact ⟨by simp, by simp, by simp⟩
  case step => exact fun s l t hI _ hs => hI.step hs

/-! ## One worker at a time -/

/-- Clients leave `Run` to the worker. -/
def workerRuns (_s : PumpSystem α) : PumpLabel α → Prop
  | .call _ .run => False
  | _ => True

/-- Who is inside `Run`, and what `_running` says about it. -/
structure LifecycleInv (s : PumpSystem α) : Prop where
  client : ∀ n, (s.pc (.client n)).inRun = false
  running : s.pump.running = true ↔ ∃ w, (s.pc (.worker w)).inRun = true

/-- A worker inside `Run` is the one that the thread object refers to. -/
theorem WorkerInv.of_inRun (hI : WorkerInv s) {w : ℕ} (h : (s.pc (.worker w)).inRun = true) :
    s.workerThread = some w := by
  apply hI.joinable w <;> intro he <;> simp [he, CallPc.inRun] at h

private theorem LifecycleInv.advance (hw : WorkerInv s) (hI : LifecycleInv s)
    (h : s.advance th = some t) : LifecycleInv t := by
  rcases advance_running h with ⟨hpc, hrun, hupd⟩ | ⟨-, hrun, c, hupd, hc, -⟩
  · -- a worker runs its last critical section; there is no other inside `Run`
    obtain ⟨w, rfl⟩ : ∃ w, th = .worker w := by
      cases th with
      | client n =>
          have hout := hI.client n
          simp [hpc, CallPc.inRun] at hout
      | worker w => exact ⟨w, rfl⟩
    have hin : (s.pc (.worker w)).inRun = true := by simp [hpc, CallPc.inRun]
    have hthread := hw.of_inRun hin
    refine ⟨?clients, ?running⟩
    case clients =>
      intro n
      rw [hupd, Function.update_of_ne (by simp)]
      exact hI.client n
    case running =>
      simp only [hrun, Bool.false_eq_true, false_iff, not_exists]
      intro v hv
      by_cases hvw : v = w
      · simp [hupd, hvw, afterRun, CallPc.inRun] at hv
      · rw [hupd, Function.update_of_ne (by simpa using hvw)] at hv
        have := hw.of_inRun hv
        rw [hthread] at this
        exact hvw (Option.some.inj this).symm
  · have hin : ∀ u, (t.pc u).inRun = (s.pc u).inRun := by
      intro u
      by_cases hu : u = th
      · rw [hupd, hu, Function.update_self, hc]
      · rw [hupd, Function.update_of_ne hu]
    refine ⟨fun n => (hin _).trans (hI.client n), ?_⟩
    rw [hrun, hI.running]
    simp only [hin]

theorem LifecycleInv.step {l : PumpLabel α} (hw : WorkerInv s) (hI : LifecycleInv s)
    (hl : workerRuns s l) (h : s.step l = some t) : LifecycleInv t := by
  cases l with
  | sendMsg m =>
      obtain rfl := Option.some.inj h
      have hrun : (s.pump.sendMsg m).2.running = s.pump.running := by
        rw [Pump.sendMsg]
        split <;> rfl
      exact ⟨hI.client, (Bool.eq_iff_iff.mp hrun).trans hI.running⟩
  | start =>
      obtain rfl := Option.some.inj h
      by_cases hok : (s.pump.start s.workerThread.isSome).1 = .success
      · rw [start_of_success hok]
        exact ⟨hI.client, ⟨fun _ => ⟨s.started, by simp [CallPc.inRun]⟩, fun _ => rfl⟩⟩
      · rw [start_of_refused hok]
        exact hI
  | call n c =>
      simp only [PumpSystem.step] at h
      split at h
      · obtain rfl := Option.some.inj h
        have hother : ∀ u, u ≠ .client n → (s.enter (.client n) c).pc u = s.pc u := by
          intro u hu
          cases c <;> exact Function.update_of_ne hu _ _
        have hself : ((s.enter (.client n) c).pc (.client n)).inRun = false := by
          cases c with
          | run => exact hl.elim
          | _ => simp [enter, goto, CallPc.inRun]
        have hrun : (s.enter (.client n) c).pump.running = s.pump.running := by cases c <;> rfl
        refine ⟨?clients, ?running⟩
        case clients =>
          intro k
          by_cases hk : k = n
          · exact hk ▸ hself
          · rw [hother _ (by simpa using hk)]
            exact hI.client k
        case running =>
          rw [hrun, hI.running]
          simp only [hother (.worker _) (by simp)]
      · contradiction
  | advance th => exact LifecycleInv.advance hw hI h

theorem reachable_lifecycleInv (h : (lts α).ReachableVia workerRuns s) :
    WorkerInv s ∧ LifecycleInv s := by
  refine h.invariant (I := fun s => WorkerInv s ∧ LifecycleInv s) ?init ?step
  case init =>
    rintro s rfl
    exact ⟨reachable_workerInv (Lts.ReachableVia.of_init rfl),
      ⟨fun _ => rfl, by simp [CallPc.inRun]⟩⟩
  case step => exact fun s l t ⟨hw, hI⟩ hg hs => ⟨hw.step hs, hI.step hw hg hs⟩

/-- **The worker's lifecycle.** As long as clients do not call `Run` themselves: at most one
thread is inside `Run`, and `_running` says that a worker that `Start` created has not come
through `Run`'s last critical section. `Start` succeeds only where every earlier worker has
returned and has been joined; where it does not succeed it returns `ERROR` and changes
nothing. -/
theorem worker_lifecycle (h : (lts α).ReachableVia workerRuns s) :
    (∀ t u, (s.pc t).inRun = true → (s.pc u).inRun = true → t = u) ∧
      (s.pump.running = true ↔
        ∃ w < s.started, (s.pc (.worker w)).inRun = true) ∧
      ((s.pump.start s.workerThread.isSome).1 = .success →
        s.workerThread = none ∧ ∀ w < s.started, s.pc (.worker w) = .exited) ∧
      ((s.pump.start s.workerThread.isSome).1 ≠ .success →
        (s.pump.start s.workerThread.isSome).1 = .error ∧ s.start = s) := by
  obtain ⟨hw, hI⟩ := reachable_lifecycleInv h
  have hbegun := (reachable_startedInv h.reachable).begun
  refine ⟨?unique, ?running, ?success, ?refused⟩
  case unique =>
    have hworker : ∀ t, (s.pc t).inRun = true → ∃ w, t = .worker w ∧ s.workerThread = some w := by
      intro t ht
      cases t with
      | client n => simp [hI.client n] at ht
      | worker w => exact ⟨w, rfl, hw.of_inRun ht⟩
    intro t u ht hu
    obtain ⟨v, rfl, hv⟩ := hworker t ht
    obtain ⟨w, rfl, hw⟩ := hworker u hu
    rw [Option.some.inj (hv.symm.trans hw)]
  case running =>
    rw [hI.running]
    constructor
    · rintro ⟨w, hin⟩
      refine ⟨w, ?_, hin⟩
      by_contra hlt
      simp [hw.fresh w (by omega), CallPc.inRun] at hin
    · rintro ⟨w, -, hin⟩
      exact ⟨w, hin⟩
  case success =>
    intro hok
    obtain ⟨hstopped, hjoined⟩ := (Pump.start_success_iff _ _).mp hok
    refine ⟨by simpa using hjoined, fun w hlt => (hbegun w hlt).resolve_left fun hin => ?_⟩
    simp [hI.running.mpr ⟨w, hin⟩] at hstopped
  case refused =>
    intro hne
    refine ⟨?_, start_of_refused hne⟩
    rw [Pump.start] at hne ⊢
    split
    · rfl
    · split <;> simp_all

instance (s : PumpSystem α) : DecidablePred (workerRuns s)
  | .call _ .run => isFalse id
  | .call _ .pumpOnce | .call _ .runUntilEmpty | .call _ .stop | .call _ .join
  | .sendMsg _ | .start | .advance _ => isTrue trivial

/-- A client stops the manager, joins its worker and starts another one. -/
def restartSchedule : List (PumpLabel ℕ) :=
  [.start, .sendMsg 1, .call 0 .stop, .advance (.worker 0), .advance (.worker 0),
    .advance (.worker 0), .advance (.worker 0), .start, .advance (.client 0),
    .advance (.client 0), .start, .start]

theorem worker_lifecycle_restarted : ∃ s : PumpSystem ℕ,
    s.pc (.worker 0) = .exited ∧ s.pc (.worker 1) = .runLoop ∧ s.started = 2 ∧
      ∀ t u, (s.pc t).inRun = true → (s.pc u).inRun = true → t = u := by
  obtain ⟨s, hs, hfirst, hsecond, hstarted⟩ : ∃ s : PumpSystem ℕ,
      (lts ℕ).exec (fun s l => decide (workerRuns s l)) {} restartSchedule = some s ∧
        s.pc (.worker 0) = .exited ∧ s.pc (.worker 1) = .runLoop ∧ s.started = 2 :=
    ⟨_, rfl, by decide, by decide, by decide⟩
  have hr : (lts ℕ).ReachableVia workerRuns s :=
    ⟨_, rfl, Lts.runVia_of_exec (fun _ _ => of_decide_eq_true) hs⟩
  exact ⟨s, hfirst, hsecond, hstarted, (worker_lifecycle hr).1⟩

/-! ## Whether a stop can be lost -/

/-- `Join` is called as a part of `Stop` only, and `Run` by the worker only. -/
def stopsAndStarts (_s : PumpSystem α) : PumpLabel α → Prop
  | .call _ .run | .call _ .join => False
  | _ => True

instance (s : PumpSystem α) : DecidablePred (stopsAndStarts s)
  | .call _ .run | .call _ .join => isFalse id
  | .call _ .pumpOnce | .call _ .runUntilEmpty | .call _ .stop
  | .sendMsg _ | .start | .advance _ => isTrue trivial

/-- No `Start` succeeds between the critical section of a `Stop` and the end of its `Join`. -/
def startsApart (s : PumpSystem α) (l : PumpLabel α) : Prop :=
  Starts s l → ∀ n, (s.pc (.client n)).inJoin = false

/-- Whoever is in `Join`, the manager is stopped. -/
def StopHeard (s : PumpSystem α) : Prop :=
  ∀ n, (s.pc (.client n)).inJoin = true → s.pump.stopped = true

theorem StopHeard.step {l : PumpLabel α} (hI : StopHeard s)
    (hjoin : ∀ n, l = .call n .join → s.pump.stopped = true) (hstart : startsApart s l)
    (h : s.step l = some t) : StopHeard t := by
  intro n hin
  by_cases hs : Starts s l
  · obtain ⟨rfl, hok⟩ := hs
    obtain rfl := Option.some.inj h
    rw [start_of_success hok] at hin
    simp only [ne_eq, reduceCtorEq, not_false_eq_true, Function.update_of_ne] at hin
    simp [hstart ⟨rfl, hok⟩ n] at hin
  · -- the flag stays set, so it is enough that the client was in `Join` before
    have hkept : s.pump.stopped = true → t.pump.stopped = true := by
      intro hstopped
      cases step_effect hs h with
      | unchanged _ hs' | sent _ _ _ hs' | popped _ _ hs' => exact hs'.trans hstopped
      | flagged _ hs' => exact hs'
    cases l with
    | sendMsg m =>
        obtain rfl := Option.some.inj h
        exact hkept (hI n hin)
    | start =>
        obtain rfl := Option.some.inj h
        have hne : (s.pump.start s.workerThread.isSome).1 ≠ .success := fun he => hs ⟨rfl, he⟩
        rw [start_of_refused hne] at hin ⊢
        exact hI n hin
    | call k c =>
        simp only [PumpSystem.step] at h
        split at h
        · obtain rfl := Option.some.inj h
          cases c with
          | stop => rfl
          | join => exact hjoin k rfl
          | run | pumpOnce | runUntilEmpty =>
              by_cases hk : n = k
              · simp [hk, enter, goto, CallPc.inJoin] at hin
              · simp only [enter, goto, ne_eq, PumpThread.client.injEq, hk, not_false_eq_true,
                  Function.update_of_ne] at hin
                exact hkept (hI n hin)
        · contradiction
    | advance th =>
        apply hkept
        have hbefore : ∀ c, t.pc = Function.update s.pc th c →
            (c.inJoin = true → (s.pc th).inJoin = true) → s.pump.stopped = true := by
          intro c hupd hc
          by_cases hu : PumpThread.client n = th
          · rw [hupd, hu, Function.update_self] at hin
            exact hI n (hu ▸ hc hin)
          · rw [hupd, Function.update_of_ne hu] at hin
            exact hI n hin
        rcases advance_running h with ⟨-, -, hupd⟩ | ⟨-, -, c, hupd, -, hc, -⟩
        · exact hbefore _ hupd fun hc => by cases th <;> simp [afterRun, CallPc.inJoin] at hc
        · exact hbefore c hupd hc

/-- The steps that threads take inside their calls. -/
def advances (_s : PumpSystem α) (l : PumpLabel α) : Prop := ∃ th, l = .advance th

/-- Once its worker has returned, a waiting `Stop` returns. -/
private theorem join_returns {n w : ℕ} (hpc : s.pc (.client n) = .joining)
    (hw : s.workerThread = some w) (hexit : s.pc (.worker w) = .exited) :
    ∃ t, (lts α).RunVia advances s t ∧ t.pc (.client n) = .idle := by
  refine ⟨{ s.goto (.client n) .idle with workerThread := none },
    Lts.RunVia.single (a := .advance (.client n)) ⟨_, rfl⟩ ?_, ?_⟩
  · simp [lts, step, advance, hpc, hw, hexit]
  · simp [goto]

/-- A stopped worker with an empty queue returns by itself, and the `Stop` that waits for it. -/
theorem stop_returns {n w : ℕ} (hpc : s.pc (.client n) = .joining)
    (hw : s.workerThread = some w)
    (hin : (s.pc (.worker w)).inRun = true ∨ s.pc (.worker w) = .exited)
    (hstopped : s.pump.stopped = true) (hqueue : s.pump.queue = []) :
    ∃ t, (lts α).RunVia advances s t ∧ t.pc (.client n) = .idle := by
  -- the worker's steps back to front, each leaving the client and the thread object alone
  have hleft : ∀ u : PumpSystem α, u.pc (.client n) = .joining → u.workerThread = some w →
      u.pc (.worker w) = .runLeft →
      ∃ t, (lts α).RunVia advances u t ∧ t.pc (.client n) = .idle := by
    intro u hpc hw hleft
    obtain ⟨t, hrun, ht⟩ := join_returns (n := n) (w := w)
      (s := { u.goto (.worker w) .exited with pump := u.pump.leaveRun })
      (by simp [goto, hpc]) hw (by simp [goto])
    refine ⟨t, (Lts.RunVia.single (a := .advance (.worker w)) ⟨_, rfl⟩ ?_).trans hrun, ht⟩
    simp [lts, step, advance, hleft, afterRun]
  have hloop : ∀ u : PumpSystem α, u.pc (.client n) = .joining → u.workerThread = some w →
      u.pc (.worker w) = .runLoop → u.pump.stopped = true → u.pump.queue = [] →
      ∃ t, (lts α).RunVia advances u t ∧ t.pc (.client n) = .idle := by
    intro u hpc hw hloop hstopped hqueue
    obtain ⟨t, hrun, ht⟩ := hleft (u.goto (.worker w) .runLeft) (by simp [goto, hpc]) hw
      (by simp [goto])
    refine ⟨t, (Lts.RunVia.single (a := .advance (.worker w)) ⟨_, rfl⟩ ?_).trans hrun, ht⟩
    simp [lts, step, advance, hloop, hstopped, hqueue]
  rcases hin with hin | hexit
  · cases hwpc : s.pc (.worker w) with
    | runLoop => exact hloop s hpc hw hwpc hstopped hqueue
    | runLeft => exact hleft s hpc hw hwpc
    | runDispatch =>
        obtain ⟨t, hrun, ht⟩ := hloop (s.goto (.worker w) .runLoop) (by simp [goto, hpc]) hw
          (by simp [goto]) hstopped hqueue
        refine ⟨t, (Lts.RunVia.single (a := .advance (.worker w)) ⟨_, rfl⟩ ?_).trans hrun, ht⟩
        simp [lts, step, advance, hwpc]
    | _ => simp [hwpc, CallPc.inRun] at hin
  · exact join_returns hpc hw hexit

/-- **A stop is not lost** as long as no `Start` succeeds while a `Stop` is on its way: whoever
waits in `Join` has told the manager to stop, the worker that is waited for leaves `Run` as soon
as the queue is empty, and then the waiting `Stop` returns. -/
theorem stop_not_lost
    (h : (lts α).ReachableVia (fun s l => stopsAndStarts s l ∧ startsApart s l) s) {n w : ℕ}
    (hpc : s.pc (.client n) = .joining) (hw : s.workerThread = some w) :
    s.pump.stopped = true ∧
      (s.pc (.worker w) = .runLoop → s.pump.queue = [] →
        s.step (.advance (.worker w)) = some (s.goto (.worker w) .runLeft)) ∧
      (s.pump.queue = [] → ∃ t, (lts α).RunVia advances s t ∧ t.pc (.client n) = .idle) := by
  have hheard : StopHeard s := by
    refine h.invariant (I := StopHeard) ?init ?step
    case init =>
      rintro s rfl n hin
      simp [CallPc.inJoin] at hin
    case step =>
      intro s l t hI hg hs
      refine hI.step ?_ hg.2 hs
      rintro n rfl
      exact hg.1.elim
  have hstopped : s.pump.stopped = true := hheard n (by simp [hpc, CallPc.inJoin])
  have hinv := reachable_startedInv h.reachable
  refine ⟨hstopped, ?leaves, ?returns⟩
  case leaves =>
    intro hloop hqueue
    simp [step, advance, hloop, hstopped, hqueue]
  case returns =>
    intro hqueue
    exact stop_returns hpc hw (hinv.begun w (hinv.known w hw)) hstopped hqueue

/-- From where a `Start` succeeds during a `Stop`, the stop is lost: the caller of `Stop` comes
to wait for a worker that nobody has told to stop. -/
theorem stop_lost_of_start {n : ℕ} (hs : Starts s .start)
    (hin : (s.pc (.client n)).inJoin = true) :
    ∃ t, (lts α).RunVia advances s.start t ∧ t.pc (.client n) = .joining ∧
      t.workerThread = some s.started ∧ t.pump.stopped = false := by
  have hstart := start_of_success hs.2
  have hthread : s.start.workerThread = some s.started := by rw [hstart]
  have hstopped : s.start.pump.stopped = false := by rw [hstart]
  have hclient : s.start.pc (.client n) = s.pc (.client n) := by simp [hstart]
  cases hpc : s.pc (.client n) with
  | joining => exact ⟨s.start, Lts.RunVia.refl _, hclient.trans hpc, hthread, hstopped⟩
  | joinTest =>
      refine ⟨s.start.goto (.client n) .joining,
        Lts.RunVia.single (a := .advance (.client n)) ⟨_, rfl⟩ ?_, ?_, hthread, hstopped⟩
      · simp [lts, step, advance, hclient, hpc, hthread]
      · simp [goto]
  | _ => simp [hpc, CallPc.inJoin] at hin

/-- A `Stop` that has come to its `join` while the worker dispatches. -/
def stopSchedule : List (PumpLabel ℕ) :=
  [.sendMsg 1, .call 0 .stop, .advance (.client 0), .advance (.worker 0), .advance (.worker 0)]

theorem stop_not_lost_waiting : ∃ s : PumpSystem ℕ,
    s.pc (.client 0) = .joining ∧ s.pc (.worker 0) = .runLoop ∧ s.pump.stopped = true ∧
      ∃ t, (lts ℕ).RunVia advances s t ∧ t.pc (.client 0) = .idle := by
  have hstart : (lts ℕ).RunVia (fun s l => stopsAndStarts s l ∧ startsApart s l) {}
      (start {}) :=
    Lts.RunVia.single (a := .start) ⟨trivial, fun _ _ => rfl⟩ rfl
  obtain ⟨s, hs, hjoin, hloop, hworker, hqueue⟩ : ∃ s : PumpSystem ℕ,
      (lts ℕ).exec (fun s l => decide (stopsAndStarts s l) && !l.isStart) (start {})
          stopSchedule = some s ∧ s.pc (.client 0) = .joining ∧ s.pc (.worker 0) = .runLoop ∧
            s.workerThread = some 0 ∧ s.pump.queue = [] :=
    ⟨_, rfl, by decide, by decide, by decide, by decide⟩
  have hrest : (lts ℕ).RunVia (fun s l => stopsAndStarts s l ∧ startsApart s l) (start {}) s := by
    refine Lts.runVia_of_exec (fun s l hg => ?_) hs
    simp only [Bool.and_eq_true, decide_eq_true_eq, Bool.not_eq_true'] at hg
    refine ⟨hg.1, ?_⟩
    rintro ⟨rfl, -⟩
    cases hg.2
  obtain ⟨hstopped, -, hreturns⟩ := stop_not_lost ⟨_, rfl, hstart.trans hrest⟩ hjoin hworker
  exact ⟨s, hjoin, hloop, hstopped, hreturns hqueue⟩

/-- Two clients stop the manager; the first one's `Stop` returns, and a third caller starts a
new worker before the second one tests `joinable`. -/
def lostStopSchedule : List (PumpLabel ℕ) :=
  [.start, .call 0 .stop, .call 1 .stop, .advance (.worker 0), .advance (.worker 0),
    .advance (.client 0), .advance (.client 0), .start, .advance (.client 1)]

/-- The second `Stop` waits for a worker that was never told to stop and that only waits for
messages. -/
theorem stop_lost : ∃ s : PumpSystem ℕ, (lts ℕ).ReachableVia stopsAndStarts s ∧
    s.pc (.client 1) = .joining ∧ s.workerThread = some 1 ∧ s.pump.stopped = false ∧
      s.pump.queue = [] ∧ s.pc (.worker 1) = .runLoop ∧
      s.step (.advance (.worker 1)) = none ∧ s.step (.advance (.client 1)) = none := by
  obtain ⟨s, hs, hlost⟩ : ∃ s : PumpSystem ℕ,
      (lts ℕ).exec (fun s l => decide (stopsAndStarts s l)) {} lostStopSchedule = some s ∧
        s.pc (.client 1) = .joining ∧ s.workerThread = some 1 ∧ s.pump.stopped = false ∧
          s.pump.queue = [] ∧ s.pc (.worker 1) = .runLoop ∧
          s.step (.advance (.worker 1)) = none ∧ s.step (.advance (.client 1)) = none :=
    ⟨_, rfl, by decide, by decide, by decide, by decide, by decide, rfl, rfl⟩
  exact ⟨s, ⟨_, rfl, Lts.runVia_of_exec (fun _ _ => of_decide_eq_true) hs⟩, hlost⟩

end PumpSystem

end FsmFramework
