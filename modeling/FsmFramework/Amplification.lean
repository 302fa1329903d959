import FsmFramework.Lib.Trace
import FsmFramework.FsmStore
import FsmFramework.SeqSystem

/-!
# How many dispatches a message can cause

Every rule of the two tables leads from its event to a follow-up that is nearer to the end of
the flow. `Ranking` says so with numbers, for messages in the pump and for messages that timers
carry; what a state is worth under a ranking (`Ranking.state`) pays for the dispatches and the
timer steps of every run from it. No bound on the ids is needed: a message that reaches another
instance than its sender's is ranked by its service and its event like any other.
-/

namespace FsmFramework

/-- The class behind a service id, in the manager of `main`. -/
def serviceKind (serviceId : UInt32) : Option FsmKind :=
  if serviceId = facRegFacId then some .reg
  else if serviceId = facAuthFacId then some .auth
  else none

/-- The step is one of a timer's thread. -/
def EnvLabel.timerSteps : EnvLabel → ℕ
  | .timerWake _ | .timerPost _ => 1
  | _ => 0

/-- The step is a client's `SendMsg` that succeeds. -/
def EnvLabel.accepted (p : MsgPorts) : EnvLabel → ℕ
  | .sendMsg n msg => if (p.sendMsg ⟨msg, .client n⟩).1 = .success then 1 else 0
  | _ => 0

/-- Weights of messages in the pump and in timers that every step of a flow decreases. A
message of an unknown service has weights too. -/
structure Ranking where
  queued : Option FsmKind → MsgType → ℕ
  timer : TimerPhase → Option FsmKind → MsgType → ℕ
  perTimer : ℕ
  top : ℕ
  pos : ∀ k e, 1 ≤ queued k e
  le_top : ∀ k e, queued k e ≤ top
  follows : ∀ k : FsmKind, ∀ t ∈ k.getTransitions, t.hasNext = true →
    (if t.delayMs = 0 then queued k t.nextEvent else timer .sleeping k t.nextEvent) + 1 ≤
      queued k t.event
  wakes : ∀ k e, perTimer + timer .expired k e ≤ timer .sleeping k e
  finished : ∀ k e, timer .finished k e = 0

/-- The dispatches that a message and its follow-ups can cause, timers included. -/
def dispatchesLeft : Option FsmKind → MsgType → ℕ
  | none, _ => 1
  | some .reg, .msgInit => 6
  | some .reg, .msgConnect => 5
  | some .reg, .msgReq => 4
  | some .reg, .msgResp => 3
  | some .reg, .msgTimeout => 2
  | some .auth, .msgInit => 5
  | some .auth, .msgConnect => 4
  | some .auth, .msgReq => 3
  | some .auth, .msgResp => 2
  | some .auth, .msgTimeout => 1
  | some _, .msgClose => 1

/-- The timer steps they can cause: a timer that wakes up and one that posts. -/
def timerStepsLeft : Option FsmKind → MsgType → ℕ
  | none, _ => 0
  | some _, .msgInit | some _, .msgConnect | some _, .msgReq | some _, .msgResp => 2
  | some _, .msgTimeout | some _, .msgClose => 0

/-- The dispatches that a message and its follow-ups can cause before a timer takes over. -/
def drainRank : Option FsmKind → MsgType → ℕ
  | none, _ => 1
  | some _, .msgInit => 4
  | some _, .msgConnect => 3
  | some _, .msgReq => 2
  | some _, .msgResp => 1
  | some .reg, .msgTimeout => 2
  | some .auth, .msgTimeout => 1
  | some _, .msgClose => 1

/-- Each rule of a table uses up a dispatch and, if it starts a timer, the timer's steps. -/
theorem FsmKind.left_follows (k : FsmKind) : ∀ t ∈ k.getTransitions, t.hasNext = true →
    dispatchesLeft k t.nextEvent + 1 ≤ dispatchesLeft k t.event ∧
      timerStepsLeft k t.nextEvent + (if t.delayMs = 0 then 0 else 2) ≤
        timerStepsLeft k t.event := by
  cases k <;> decide

namespace Ranking

/-- Whole flows, a timer step counting `perTimer`. -/
def flow (perTimer : ℕ) : Ranking where
  queued k e := dispatchesLeft k e + perTimer * timerStepsLeft k e
  timer
    | .sleeping, k, e => dispatchesLeft k e + perTimer * timerStepsLeft k e + perTimer * 2
    | .expired, k, e => dispatchesLeft k e + perTimer * timerStepsLeft k e + perTimer
    | .finished, _, _ => 0
  perTimer := perTimer
  top := 6 + perTimer * 2
  pos k e := by
    have hpos : 1 ≤ dispatchesLeft k e := by rcases k with _ | _ | _ <;> cases e <;> decide
    omega
  le_top k e := by
    have hdisp : dispatchesLeft k e ≤ 6 := by rcases k with _ | _ | _ <;> cases e <;> decide
    have htimer : timerStepsLeft k e ≤ 2 := by rcases k with _ | _ | _ <;> cases e <;> decide
    have := Nat.mul_le_mul_left perTimer htimer
    omega
  follows k t ht hnext := by
    obtain ⟨hdisp, htimer⟩ := k.left_follows t ht hnext
    by_cases hd : t.delayMs = 0
    · rw [if_pos hd, Nat.add_zero] at htimer
      rw [if_pos hd]
      have := Nat.mul_le_mul_left perTimer htimer
      omega
    · rw [if_neg hd] at htimer ⊢
      have := Nat.mul_le_mul_left perTimer htimer
      simp only [Nat.mul_add] at this ⊢
      omega
  wakes k e := by
    simp only
    omega
  finished _ _ := rfl

/-- What a drain of the queue sees of a flow. -/
def drain : Ranking where
  queued := drainRank
  timer _ _ _ := 0
  perTimer := 0
  top := 4
  pos k e := by
    rcases k with _ | _ | _ <;> cases e <;> decide
  le_top k e := by
    rcases k with _ | _ | _ <;> cases e <;> decide
  follows k := by cases k <;> decide
  wakes _ _ := Nat.le_refl _
  finished _ _ := rfl

variable (R : Ranking)

/-- The posting of a timer's message is paid for. -/
def Posts : Prop := ∀ k e, R.perTimer + R.queued k e ≤ R.timer .expired k e

theorem flow_posts (perTimer : ℕ) : (flow perTimer).Posts := by
  intro k e
  simp only [flow]
  omega

/-! ## What the ports are worth -/

/-- The weight of a message in the pump. -/
def msg (m : CMsg) : ℕ := R.queued (serviceKind m.serviceId) m.type

/-- The weight of a timer. -/
def ofTimer (t : CTimer PumpMsg) : ℕ :=
  R.timer t.phase (serviceKind t.timeoutMsg.msg.serviceId) t.timeoutMsg.msg.type

/-- The weight of all messages on their way. -/
def ports (p : MsgPorts) : ℕ :=
  (p.pump.queue.map fun pm => R.msg pm.msg).sum + (p.timers.timerList.map R.ofTimer).sum

variable {R} {p p' : MsgPorts} {pm : PumpMsg}

theorem ports_unpop : R.ports (p.unpop pm) = R.msg pm.msg + R.ports p := by
  simp [ports, MsgPorts.unpop, Pump.unpop, Nat.add_assoc]

/-- An accepted message brings its weight. -/
theorem ports_sendMsg (p : MsgPorts) (pm : PumpMsg) : R.ports (p.sendMsg pm).2 =
    R.ports p + if (p.sendMsg pm).1 = .success then R.msg pm.msg else 0 := by
  cases h : p.pump.stopped with
  | true => simp [MsgPorts.sendMsg_of_stopped h, ports]
  | false =>
      simp only [MsgPorts.sendMsg_of_running h, ports, List.map_append, List.sum_append,
        List.map_cons, List.map_nil, List.sum_singleton, if_pos]
      omega

theorem ports_startTimer (p : MsgPorts) (ms : UInt32) (pm : PumpMsg) :
    R.ports (p.startTimer ms pm).2 =
      R.ports p + R.timer .sleeping (serviceKind pm.msg.serviceId) pm.msg.type := by
  simp [MsgPorts.startTimer, TimerManager.startTimer, ports, ofTimer, Nat.add_assoc]

/-- A timer's thread moves on: its weight goes, the weight of its new phase comes. -/
theorem ports_setPhase (p : MsgPorts) {k : ℕ} {t : CTimer PumpMsg} (phase : TimerPhase)
    (hk : p.timers.timerList[k]? = some t) :
    R.ports { p with timers := p.timers.setPhase k t phase } + R.ofTimer t =
      R.ports p + R.ofTimer { t with phase := phase } := by
  have hsum : ∀ (l : List (CTimer PumpMsg)) (k : ℕ), l[k]? = some t →
      ((l.set k { t with phase := phase }).map R.ofTimer).sum + R.ofTimer t =
        (l.map R.ofTimer).sum + R.ofTimer { t with phase := phase } := by
    intro l
    induction l with
    | nil => simp
    | cons x xs ih =>
        intro k hk
        cases k with
        | zero =>
            obtain rfl : x = t := by simpa using hk
            simp only [List.set_cons_zero, List.map_cons, List.sum_cons]
            omega
        | succ k =>
            have := ih k (by simpa using hk)
            simp only [List.set_cons_succ, List.map_cons, List.sum_cons]
            omega
  have := hsum _ _ hk
  simp only [ports, TimerManager.setPhase]
  omega

@[simp] theorem ofTimer_active (t : CTimer PumpMsg) (active : Bool) :
    R.ofTimer { t with active := active } = R.ofTimer t := rfl

/-- Cancelling changes no weight. -/
theorem ports_stopTimer (p : MsgPorts) (timerId : UInt32) :
    R.ports { p with timers := (p.timers.stopTimer timerId).2 } = R.ports p := by
  have hlist : (p.timers.stopTimer timerId).2.timerList.map R.ofTimer =
      p.timers.timerList.map R.ofTimer := by
    rw [TimerManager.stopTimer]
    split
    · rename_i k hk
      refine List.ext_getElem? fun i => ?_
      by_cases hi : k = i <;> simp [hi, Function.comp_def]
    · rfl
  rw [ports, ports, hlist]

theorem ports_stopAllTimers (p : MsgPorts) :
    R.ports { p with timers := p.timers.stopAllTimers } = R.ports p := by
  simp [ports, TimerManager.stopAllTimers, Function.comp_def]

/-- A step of the surroundings: a timer's steps are paid for by its weight, and only an accepted
message brings weight in. -/
theorem ports_env {l : EnvLabel} (h : p.env l = some p')
    (hpost : R.Posts ∨ ∀ k, l ≠ .timerPost k) :
    R.perTimer * l.timerSteps + R.ports p' ≤ R.ports p + R.top * l.accepted p := by
  cases l with
  | sendMsg n msg =>
      obtain rfl := Option.some.inj h
      have htop := R.le_top (serviceKind msg.serviceId) msg.type
      rw [ports_sendMsg]
      simp only [EnvLabel.timerSteps, EnvLabel.accepted, Ranking.msg]
      split <;> omega
  | start joinable =>
      obtain rfl := Option.some.inj h
      simp [ports, EnvLabel.timerSteps]
  | stop | leaveRun =>
      obtain rfl := Option.some.inj h
      simp [ports, Pump.stop, Pump.leaveRun, EnvLabel.timerSteps]
  | stopTimer timerId =>
      obtain rfl := Option.some.inj h
      simp [ports_stopTimer, EnvLabel.timerSteps]
  | stopAllTimers =>
      obtain rfl := Option.some.inj h
      simp [ports_stopAllTimers, EnvLabel.timerSteps]
  | timerWake k =>
      obtain ⟨⟨dropped, tm⟩, hw, rfl⟩ := Option.map_eq_some_iff.mp h
      obtain ⟨t, hk, hsleep, hwoken⟩ := TimerManager.wake_some hw
      obtain ⟨phase, htm, hnext⟩ : ∃ phase, tm = p.timers.setPhase k t phase ∧
          (phase = .expired ∨ phase = .finished) := by
        obtain ⟨-, -, htm⟩ | ⟨-, -, htm⟩ := hwoken
        · exact ⟨.expired, htm, .inl rfl⟩
        · exact ⟨.finished, htm, .inr rfl⟩
      have hmove := ports_setPhase (R := R) p phase hk
      have hwakes := R.wakes (serviceKind t.timeoutMsg.msg.serviceId) t.timeoutMsg.msg.type
      have hfin := R.finished (serviceKind t.timeoutMsg.msg.serviceId) t.timeoutMsg.msg.type
      have hpay : R.perTimer + R.ofTimer { t with phase := phase } ≤ R.ofTimer t := by
        rcases hnext with rfl | rfl <;> simp only [ofTimer, hsleep] <;> omega
      obtain rfl : tm = p.timers.setPhase k t phase := htm
      have hlost : ∀ q : MsgPorts, R.ports { q with lost := p.lost ++ dropped } = R.ports q :=
        fun _ => rfl
      simp only [hlost { p with timers := p.timers.setPhase k t phase }, EnvLabel.timerSteps,
        EnvLabel.accepted]
      omega
  | timerPost k =>
      have hposts := hpost.resolve_right fun hne => hne k rfl
      obtain ⟨⟨pm, tm⟩, he, rfl⟩ := Option.map_eq_some_iff.mp h
      obtain ⟨t, hk, hexp, hpm, htm⟩ := TimerManager.expire_some he
      have hmove := ports_setPhase (R := R) p .finished hk
      have hpay := hposts (serviceKind t.timeoutMsg.msg.serviceId) t.timeoutMsg.msg.type
      have hfin := R.finished (serviceKind t.timeoutMsg.msg.serviceId) t.timeoutMsg.msg.type
      obtain rfl : tm = p.timers.setPhase k t .finished := htm
      obtain rfl : pm = t.timeoutMsg := hpm
      simp only [ofTimer, hexp, hfin] at hmove
      rw [ports_sendMsg]
      simp only [EnvLabel.timerSteps, EnvLabel.accepted, Ranking.msg]
      split <;> omega

/-- What a machine posts weighs less than the message it was handed. -/
theorem ports_processMsg {k : FsmKind} (facId : UInt32) (fsm : Cfsm) {msg : CMsg}
    (hk : serviceKind msg.serviceId = some k) :
    R.ports (k.processMsg facId fsm msg p).2.2 + 1 ≤ R.ports p + R.msg msg := by
  have hpos : 1 ≤ R.msg msg := R.pos _ _
  rcases k.processMsg_cases facId fsm msg p with
    ⟨ret, heq⟩ | ⟨t, -, hrule, ⟨-, heq⟩ | ⟨hnext, heq⟩⟩
  · rw [heq]
    exact Nat.add_le_add_left hpos _
  · rw [heq]
    exact Nat.add_le_add_left hpos _
  · obtain ⟨hmem, -, hevent⟩ := findFsmTransition_some hrule
    have hfollows := R.follows k t hmem hnext
    rw [hevent, ← hk] at hfollows
    rw [heq]
    simp only [postNextEvent, nextMsg]
    by_cases hd : t.delayMs = 0
    · rw [if_pos hd] at hfollows ⊢
      rw [ports_sendMsg]
      simp only [Ranking.msg]
      split <;> omega
    · rw [if_neg hd] at hfollows ⊢
      rw [ports_startTimer]
      simp only [Ranking.msg]
      omega

end Ranking

/-! ## Whole states -/

/-- What the weights need to know about a state: the registered classes, that threads work on
the factory of their message, and that only finitely many threads are inside a dispatch. -/
structure Ranked (s : DispatchState FsmKind) : Prop where
  registry : s.mgr.registry = CfactoryMgr.boot.registry
  factory : ∀ t th, s.threads t = some th → ∀ f, th.pc.factory = some f →
    f = th.pm.msg.serviceId
  finite : {t | s.threads t ≠ none}.Finite

/-- A factory of the registry of `main` has the class that its id says. -/
theorem serviceKind_of_mem {m : CfactoryMgr FsmKind} {fac : Cfactory FsmKind}
    (h : m.registry = CfactoryMgr.boot.registry) (hfac : fac ∈ m.facList) :
    serviceKind fac.facId = some fac.kind := by
  have hall : ∀ x ∈ CfactoryMgr.boot.registry, serviceKind x.1 = some x.2 := by decide
  exact hall (fac.facId, fac.kind) (h ▸ List.mem_map_of_mem hfac)

variable {E : EnvLabel → Prop} {s s' : DispatchState FsmKind}

private theorem finite_update {threads : ℕ → Option DispatchThread}
    (h : {t | threads t ≠ none}.Finite) (t : ℕ) (next : Option DispatchThread) :
    {u | Function.update threads t next u ≠ none}.Finite := by
  refine (h.insert t).subset fun u hu => ?_
  by_cases hut : u = t
  · exact .inl hut
  · exact .inr (by simpa [Function.update_of_ne hut] using hu)

theorem ranked_of_reachable (h : (dispatchSystem .boot).ReachableVia (serial E) s) :
    Ranked s := by
  have hreg := registry_of_serial h
  suffices hinv : (∀ t th, s.threads t = some th → ∀ f, th.pc.factory = some f →
      f = th.pm.msg.serviceId) ∧ {t | s.threads t ≠ none}.Finite from ⟨hreg, hinv.1, hinv.2⟩
  refine h.invariant (I := fun s => (∀ t th, s.threads t = some th → ∀ f, th.pc.factory = some f →
      f = th.pm.msg.serviceId) ∧ {t | s.threads t ≠ none}.Finite) ?init ?step
  case init =>
    rintro s rfl
    exact ⟨by simp [DispatchState.resting], by simp [DispatchState.resting]⟩
  case step =>
    rintro s l s' ⟨hfac, hfin⟩ hg hs
    cases l with
    | env l =>
        obtain ⟨p, -, rfl⟩ := DispatchState.step_env_iff.mp hs
        exact ⟨hfac, hfin⟩
    | registerFactory factory => exact hg.elim
    | pop t =>
        obtain ⟨-, pm, p, -, rfl⟩ := DispatchState.step_pop_iff.mp hs
        refine ⟨fun u th hu => ?_, finite_update hfin t _⟩
        rcases DispatchState.threads_update hu with ⟨rfl, heq⟩ | ⟨-, hold⟩
        · obtain rfl := Option.some.inj heq
          simp [DispatchPc.factory]
        · exact hfac u th hold
    | advance t =>
        obtain ⟨th', next, m', ev, ht, hadv, rfl⟩ := DispatchState.step_advance_iff.mp hs
        refine ⟨fun u th hu => ?_, finite_update hfin t _⟩
        rcases DispatchState.threads_update hu with ⟨rfl, rfl⟩ | ⟨-, hold⟩
        · exact hadv.factory (hfac u th' ht)
        · exact hfac u th hold

/-- More surroundings, more runs. -/
theorem serial_mono {F : EnvLabel → Prop} (hE : ∀ l, E l → F l) {l : DispatchLabel FsmKind}
    (h : serial E s l) : serial F s l := by
  cases l with
  | env l => exact hE l h
  | _ => exact h

/-- Dispatches that begin. -/
def dispatches (_s : DispatchState FsmKind) : DispatchLabel FsmKind → ℕ
  | .pop _ => 1
  | _ => 0

/-- Steps of timers. -/
def timerSteps (_s : DispatchState FsmKind) : DispatchLabel FsmKind → ℕ
  | .env l => l.timerSteps
  | _ => 0

/-- Messages accepted from outside. -/
def accepted (s : DispatchState FsmKind) : DispatchLabel FsmKind → ℕ
  | .env l => l.accepted s.mgr.toMsgPorts
  | _ => 0

namespace Ranking

variable {R : Ranking}

/-- What is left to pay for a message that a thread has taken: nothing once it is handed over. -/
def thread (R : Ranking) : Option DispatchThread → ℕ
  | none => 0
  | some th => if th.pc.handed ∨ th.pc = .undefined then 0 else R.msg th.pm.msg - 1

/-- The weight of a state: the messages on their way and those in dispatch. -/
noncomputable def state (R : Ranking) (s : DispatchState FsmKind) : ℕ :=
  R.ports s.mgr.toMsgPorts + finsum fun t => R.thread (s.threads t)

theorem finite_thread (h : {t | s.threads t ≠ none}.Finite) :
    Function.HasFiniteSupport fun t => R.thread (s.threads t) := by
  refine h.subset fun t ht hnone => ?_
  simp [thread, hnone] at ht

/-- A step of a dispatch: `ProcessMsg` spends the weight of the message on its follow-up. -/
theorem advance {m m' : CfactoryMgr FsmKind} {pm : PumpMsg} {pc : DispatchPc}
    {next : Option DispatchThread} {ev : List Event} (h : Advance m pm pc next m' ev)
    (hreg : m.registry = CfactoryMgr.boot.registry)
    (hpc : ∀ f, pc.factory = some f → f = pm.msg.serviceId) :
    R.ports m'.toMsgPorts + R.thread next ≤ R.ports m.toMsgPorts + R.thread (some ⟨pm, pc⟩) := by
  cases h with
  | @processMsg facId inst fac fsm h =>
      obtain ⟨hfac, -⟩ := CfactoryMgr.deref_eq_some_iff.mp h
      obtain ⟨hmem, rfl⟩ := CfactoryMgr.findFactory_eq_some_iff.mp hfac
      have hkind := serviceKind_of_mem hreg hmem
      rw [hpc fac.facId rfl] at hkind
      have hless := ports_processMsg (R := R) (p := m.toMsgPorts) fac.facId fsm hkind
      have hports : (m.processMsg fac fsm pm.msg).2.toMsgPorts =
          (fac.kind.processMsg fac.facId fsm pm.msg m.toMsgPorts).2.2 := rfl
      simp only [hports, thread, DispatchPc.handed, Bool.false_eq_true, reduceCtorEq, or_false,
        if_false, if_true]
      omega
  | noFactory | dangling | undefined => simp [thread]
  | killFsm => exact Nat.le_refl _
  | _ => simp [thread, DispatchPc.handed, Ranking.msg]

/-- **The balance of one step.** -/
theorem step {l : DispatchLabel FsmKind} (hinv : Ranked s) (hl : serial E s l)
    (hpost : R.Posts ∨ ∀ k, ¬ E (.timerPost k)) (h : s.step l = some s') :
    (dispatches s l + R.perTimer * timerSteps s l) + R.state s' ≤
      R.state s + R.top * accepted s l := by
  have hfin := finite_thread (R := R) hinv.finite
  cases l with
  | env l =>
      obtain ⟨p, hp, rfl⟩ := DispatchState.step_env_iff.mp h
      have henv := ports_env hp (hpost.imp_right fun hno k hk => hno k (hk ▸ hl))
      simp only [state, dispatches, timerSteps, accepted, CfactoryMgr.withPorts_toMsgPorts]
      omega
  | registerFactory factory => exact hl.elim
  | pop t =>
      obtain ⟨ht, pm, p, hports, rfl⟩ := DispatchState.step_pop_iff.mp h
      have hsum := finsum_update hfin t (some ⟨pm, .dispatchMsg⟩)
      have hpos : 1 ≤ R.msg pm.msg := R.pos _ _
      simp only [state, dispatches, timerSteps, accepted, CfactoryMgr.withPorts_toMsgPorts, hports,
        ports_unpop]
      simp only [ht, thread, DispatchPc.handed, Bool.false_eq_true, reduceCtorEq, or_false,
        if_false] at hsum ⊢
      omega
  | advance t =>
      obtain ⟨⟨pm, pc⟩, next, m', ev, ht, hadv, rfl⟩ := DispatchState.step_advance_iff.mp h
      have hsum := finsum_update hfin t next
      have hless : R.ports m'.toMsgPorts + R.thread next ≤
          R.ports s.mgr.toMsgPorts + R.thread (some ⟨pm, pc⟩) :=
        advance hadv hinv.registry (hinv.factory t _ ht)
      simp only [state, dispatches, timerSteps, accepted]
      rw [ht] at hsum
      omega

/-- **The balance of a run.** -/
theorem trace {F : EnvLabel → Prop} (hE : ∀ l, E l → F l)
    {l : List (DispatchState FsmKind × DispatchLabel FsmKind)}
    (hs : (dispatchSystem .boot).ReachableVia (serial F) s)
    (hpost : R.Posts ∨ ∀ k, ¬ E (.timerPost k))
    (h : (dispatchSystem .boot).TraceVia (serial E) s l s') :
    Lts.cost dispatches l + R.perTimer * Lts.cost timerSteps l + R.state s' ≤
      R.state s + R.top * Lts.cost accepted l := by
  have hbalance := h.potential (I := (dispatchSystem .boot).ReachableVia (serial F))
    (V := R.state) (c := fun s l => dispatches s l + R.perTimer * timerSteps s l)
    (d := fun s l => R.top * accepted s l)
    (fun s a t hreach hg hst => ⟨hreach.step (serial_mono hE hg) hst,
      step (ranked_of_reachable hreach) hg hpost hst⟩) hs
  rwa [Lts.cost_add, Lts.cost_mul, Lts.cost_mul] at hbalance

end Ranking

/-! ## The dispatcher's own steps -/

/-- The dispatcher's steps inside a dispatch. -/
def advances (_s : DispatchState FsmKind) : DispatchLabel FsmKind → ℕ
  | .advance _ => 1
  | _ => 0

/-- How many steps a thread still takes, at most. -/
def stepsLeft : Option DispatchThread → ℕ
  | none => 0
  | some th =>
      match th.pc with
      | .dispatchMsg => 9
      | .facMsgPrc _ => 8
      | .addFsm _ => 7
      | .prePrcMsg .. => 6
      | .processMsg .. => 5
      | .postPrcMsg .. => 4
      | .getState .. => 3
      | .notify .. => 2
      | .killFsm .. => 1
      | .undefined => 0

theorem Advance.stepsLeft {m m' : CfactoryMgr FsmKind} {pm : PumpMsg} {pc : DispatchPc}
    {next : Option DispatchThread} {ev : List Event} (h : Advance m pm pc next m' ev)
    (hpc : pc ≠ .undefined) :
    FsmFramework.stepsLeft next + 1 ≤ FsmFramework.stepsLeft (some ⟨pm, pc⟩) := by
  cases h with
  | noFactory | dangling => cases pc <;> simp_all [FsmFramework.stepsLeft]
  | undefined => exact absurd rfl hpc
  | _ => simp [FsmFramework.stepsLeft]

/-- A dispatch takes at most nine steps. -/
theorem advances_le {F : EnvLabel → Prop} (hE : ∀ l, E l → F l)
    {l : List (DispatchState FsmKind × DispatchLabel FsmKind)}
    (hs : (dispatchSystem .boot).ReachableVia (serial F) s) (hq : s.Quiet)
    (h : (dispatchSystem .boot).TraceVia (serial E) s l s') :
    Lts.cost advances l ≤ 9 * Lts.cost dispatches l := by
  have hbalance := h.potential (I := (dispatchSystem .boot).ReachableVia (serial F))
    (V := fun s => finsum fun t => stepsLeft (s.threads t)) (c := advances)
    (d := fun s l => 9 * dispatches s l) ?step hs
  case step =>
    intro s a t hreach hg hst
    refine ⟨hreach.step (serial_mono hE hg) hst, ?_⟩
    have hfin : Function.HasFiniteSupport fun t => stepsLeft (s.threads t) := by
      refine (ranked_of_reachable hreach).finite.subset fun t ht hnone => ?_
      simp [stepsLeft, hnone] at ht
    cases a with
    | env l =>
        obtain ⟨p, -, rfl⟩ := DispatchState.step_env_iff.mp hst
        simp [advances]
    | registerFactory factory => exact hg.elim
    | pop u =>
        obtain ⟨hu, pm, p, -, rfl⟩ := DispatchState.step_pop_iff.mp hst
        have hsum := finsum_update hfin u (some ⟨pm, .dispatchMsg⟩)
        simp only [hu, stepsLeft, advances, dispatches] at hsum ⊢
        omega
    | advance u =>
        obtain ⟨th, next, m', ev, hu, hadv, rfl⟩ := DispatchState.step_advance_iff.mp hst
        have hsum := finsum_update hfin u next
        have hless : stepsLeft next + 1 ≤ stepsLeft (some th) :=
          hadv.stepsLeft (serial_running hreach hu)
        simp only [hu, advances, dispatches] at hsum ⊢
        omega
  have hzero : (finsum fun t => stepsLeft (s.threads t)) = 0 := by
    simp [hq _, stepsLeft]
  rw [Lts.cost_mul, hzero] at hbalance
  omega

/-- A dispatcher that finds no step to take is done: the pump is empty. -/
theorem dispatcher_step_or_done (E : EnvLabel → Prop) (s : DispatchState FsmKind) :
    (s.Quiet ∧ s.mgr.pump.queue = []) ∨
      ∃ l s', advances s l + dispatches s l = 1 ∧ serial E s l ∧ s.step l = some s' := by
  by_cases hq : s.Quiet
  · cases hqueue : s.mgr.pump.queue with
    | nil => exact .inl ⟨hq, rfl⟩
    | cons pm rest =>
        refine .inr ⟨.pop 0, _, rfl, hq, DispatchState.step_pop_iff.mpr ⟨hq 0, pm,
          { s.mgr.toMsgPorts with pump := { s.mgr.pump with queue := rest } }, ?_, rfl⟩⟩
        simp [MsgPorts.unpop, Pump.unpop, ← hqueue]
  · obtain ⟨t, ht⟩ : ∃ t, s.threads t ≠ none := by simpa [DispatchState.Quiet] using hq
    obtain ⟨th, hth⟩ := Option.ne_none_iff_exists'.mp ht
    exact .inr ⟨.advance t, _, rfl, trivial,
      DispatchState.step_advance_iff.mpr ⟨th, _, _, _, hth, advance_dispatchStep _ _, rfl⟩⟩

/-! ## Draining the pump -/

/-- No other thread and no timer posts a message. -/
def enqueuesNothing : EnvLabel → Prop
  | .sendMsg _ _ | .timerPost _ => False
  | _ => True

/-- A dispatch leaves the registry as it was. -/
theorem registry_dispatchMsg (m : CfactoryMgr FsmKind) (pm : PumpMsg) :
    (m.dispatchMsg pm).mgr.registry = m.registry := by
  refine finishDispatch_induction (P := fun _ m _ m' _ => m'.registry = m.registry) ?last ?more
    (finishDispatch_dispatchMsg m pm)
  case last => exact fun _ m th m' ev hadv => hadv.registry
  case more => exact fun _ m th th' m₁ ev₁ m' ev₂ hadv _ ih => ih.trans hadv.registry

/-- The ports after a dispatch are those that `ProcessMsg` of an instance left, or were not
touched. -/
theorem ports_dispatchMsg (m : CfactoryMgr FsmKind) (pm : PumpMsg) :
    (m.dispatchMsg pm).mgr.toMsgPorts = m.toMsgPorts ∨
      ∃ fac fsm, fac ∈ m.facList ∧ fac.facId = pm.msg.serviceId ∧
        (m.dispatchMsg pm).mgr.toMsgPorts = (fac.kind.processMsg fac.facId fsm
          { pm.msg with fsmId := fsm.fsmId } m.toMsgPorts).2.2 := by
  have hto : ∀ (m : CfactoryMgr FsmKind) (fac : Cfactory FsmKind) (fsm : Cfsm),
      (m.dispatchToFsm fac fsm pm).mgr.toMsgPorts = (fac.kind.processMsg fac.facId fsm
        { pm.msg with fsmId := fsm.fsmId } m.toMsgPorts).2.2 := by
    intro m fac fsm
    rw [CfactoryMgr.dispatchToFsm]
    split <;> rfl
  rw [CfactoryMgr.dispatchMsg]
  cases hf : m.findFactory pm.msg.serviceId with
  | none => exact .inl rfl
  | some fac =>
      obtain ⟨hmem, hid⟩ := CfactoryMgr.findFactory_eq_some_iff.mp hf
      simp only [CfactoryMgr.facMsgPrc]
      cases hr : fac.route pm.msg.fsmId with
      | some fsm => exact .inr ⟨fac, fsm, hmem, hid, hto m fac fsm⟩
      | none =>
          by_cases hi : pm.msg.type = .msgInit
          · rw [if_neg (not_not.mpr hi)]
            rcases ha : fac.addFsm with _ | ⟨fsm, fac'⟩
            · exact .inl rfl
            · obtain ⟨-, hid', hkind, -⟩ := Cfactory.addFsm_some ha
              refine .inr ⟨fac, fsm, hmem, hid, ?_⟩
              rw [← hkind, ← hid']
              exact hto (m.setFactory fac') fac' fsm
          · rw [if_pos hi]
            exact .inl rfl

/-- A dispatch spends the weight of its message. -/
theorem Ranking.ports_dispatchMsg {R : Ranking} {m : CfactoryMgr FsmKind}
    (hreg : m.registry = CfactoryMgr.boot.registry) (pm : PumpMsg) :
    R.ports (m.dispatchMsg pm).mgr.toMsgPorts + 1 ≤ R.ports m.toMsgPorts + R.msg pm.msg := by
  rcases FsmFramework.ports_dispatchMsg m pm with heq | ⟨fac, fsm, hmem, hid, heq⟩
  · have hpos : 1 ≤ R.msg pm.msg := R.pos _ _
    rw [heq]
    omega
  · have hkind := serviceKind_of_mem hreg hmem
    rw [hid] at hkind
    have hkind' : serviceKind ({ pm.msg with fsmId := fsm.fsmId } : CMsg).serviceId =
        some fac.kind := hkind
    rw [heq]
    exact ports_processMsg (R := R) fac.facId fsm hkind'

/-- In a drain only the pump counts. -/
theorem Ranking.drain_ports_le (p : MsgPorts) : drain.ports p ≤ 4 * p.pump.queue.length := by
  have hqueue : (p.pump.queue.map fun pm => drain.msg pm.msg).sum ≤ 4 * p.pump.queue.length := by
    have := List.sum_le_card_nsmul (p.pump.queue.map fun pm => drain.msg pm.msg) 4 (by
      intro n hn
      obtain ⟨pm, -, rfl⟩ := List.mem_map.mp hn
      exact drain.le_top _ _)
    simpa [Nat.mul_comm] using this
  have htimers : (p.timers.timerList.map drain.ofTimer).sum = 0 :=
    List.sum_eq_zero fun n hn => by
      obtain ⟨t, -, rfl⟩ := List.mem_map.mp hn
      rfl
  rw [Ranking.ports, htimers]
  exact hqueue

/-- `RunUntilEmpty` on its own: from any queue it comes to the empty one, in as many rounds as
the queue weighs. -/
theorem runUntilEmpty_drains {m : CfactoryMgr FsmKind}
    (hreg : m.registry = CfactoryMgr.boot.registry) : ∃ n m',
      n ≤ Ranking.drain.ports m.toMsgPorts ∧ m'.pump.queue = [] ∧
        ∀ fuel, Ranking.drain.ports m.toMsgPorts < fuel →
          m.runUntilEmpty fuel = some (n, m') := by
  induction hk : Ranking.drain.ports m.toMsgPorts using Nat.strong_induction_on generalizing m with
  | _ k ih =>
      cases hqueue : m.pump.queue with
      | nil =>
          refine ⟨0, m, Nat.zero_le _, hqueue, fun fuel hfuel => ?_⟩
          obtain ⟨fuel, rfl⟩ := Nat.exists_eq_succ_of_ne_zero (Nat.ne_zero_of_lt hfuel)
          rw [CfactoryMgr.runUntilEmpty, if_pos hqueue]
      | cons pm rest =>
          have hpop : m.toMsgPorts.pop = some (pm, { m.toMsgPorts with
              pump := { m.pump with queue := rest } }) := by
            simp [MsgPorts.pop, Pump.pop, hqueue]
          have honce := MsgPorts.pop_eq_some_iff.mp hpop
          generalize { m.toMsgPorts with pump := { m.pump with queue := rest } } = p at hpop honce
          have hround : m.pumpOnce = (m.withPorts p).dispatchMsg pm := by
            simp [CfactoryMgr.pumpOnce, hpop]
          have hreg' : m.pumpOnce.mgr.registry = CfactoryMgr.boot.registry := by
            rw [hround, registry_dispatchMsg]
            exact hreg
          have hless : Ranking.drain.ports m.pumpOnce.mgr.toMsgPorts + 1 ≤ k := by
            have := Ranking.ports_dispatchMsg (R := .drain) (m := m.withPorts p) hreg pm
            rw [CfactoryMgr.withPorts_toMsgPorts] at this
            rw [← hk, honce, Ranking.ports_unpop, hround]
            omega
          obtain ⟨n, m', hn, hm', hrun⟩ := ih _ (by omega) hreg' rfl
          refine ⟨n + 1, m', by omega, hm', fun fuel hfuel => ?_⟩
          obtain ⟨fuel, rfl⟩ := Nat.exists_eq_succ_of_ne_zero (Nat.ne_zero_of_lt hfuel)
          rw [CfactoryMgr.runUntilEmpty, if_neg (by simp [hqueue]), hrun fuel (by omega)]
          rfl

/-- **Bounded amplification and termination.** With one dispatcher, a run has at most six
dispatches for each message that it accepted from outside, and from any reachable state on,
runs that accept no more such messages have a bounded number of dispatches and timer steps.
`RunUntilEmpty`, from any reachable state and with anything in the pump, ends with the pump
empty after at most four dispatches for each message it found; the bound also holds, with at
most nine steps a dispatch, when other threads and timers step in between without posting, and
the dispatcher is never stuck before the pump is empty. -/
theorem bounded_amplification :
    (∀ l s, (dispatchSystem .boot).TraceVia (serial E) (.resting .boot []) l s →
      Lts.cost dispatches l ≤ 6 * Lts.cost accepted l) ∧
    ∀ s, (dispatchSystem .boot).ReachableVia (serial E) s →
      (∃ bound, ∀ l s', (dispatchSystem .boot).TraceVia (serial E) s l s' →
        Lts.cost accepted l = 0 → Lts.cost dispatches l + Lts.cost timerSteps l ≤ bound) ∧
      (∀ p : MsgPorts, ∃ n m', n ≤ 4 * p.pump.queue.length ∧ m'.pump.queue = [] ∧
        ∀ fuel, 4 * p.pump.queue.length < fuel →
          (s.mgr.withPorts p).runUntilEmpty fuel = some (n, m')) ∧
      (s.Quiet → ∀ l s', (dispatchSystem .boot).TraceVia (serial enqueuesNothing) s l s' →
        Lts.cost dispatches l ≤ 4 * s.mgr.pump.queue.length ∧
          Lts.cost advances l ≤ 9 * Lts.cost dispatches l ∧
          ((s'.Quiet ∧ s'.mgr.pump.queue = []) ∨
            ∃ a s'', advances s' a + dispatches s' a = 1 ∧ serial enqueuesNothing s' a ∧
              s'.step a = some s'')) := by
  refine ⟨fun l s h => ?outside, fun s hs => ⟨?finite, ?alone, ?among⟩⟩
  case outside =>
    have hbalance := Ranking.trace (R := .flow 0) (fun _ h => h)
      (Lts.ReachableVia.of_init rfl) (.inl (Ranking.flow_posts 0)) h
    have hzero : (Ranking.flow 0).state (.resting .boot []) = 0 := by
      simp [Ranking.state, DispatchState.resting, Ranking.thread, Ranking.ports,
        CfactoryMgr.boot_eq]
    have htop : (Ranking.flow 0).top = 6 := rfl
    rw [hzero, htop] at hbalance
    omega
  case finite =>
    refine ⟨(Ranking.flow 1).state s, fun l s' h hno => ?_⟩
    have hbalance := Ranking.trace (R := .flow 1) (fun _ h => h) hs
      (.inl (Ranking.flow_posts 1)) h
    have hone : (Ranking.flow 1).perTimer = 1 := rfl
    rw [hno, hone] at hbalance
    omega
  case alone =>
    intro p
    have hreg : (s.mgr.withPorts p).registry = CfactoryMgr.boot.registry := registry_of_serial hs
    obtain ⟨n, m', hn, hm', hrun⟩ := runUntilEmpty_drains hreg
    have hle := Ranking.drain_ports_le p
    rw [CfactoryMgr.withPorts_toMsgPorts] at hn hrun
    exact ⟨n, m', hn.trans hle, hm', fun fuel hfuel => hrun fuel (hle.trans_lt hfuel)⟩
  case among =>
    intro hq l s' h
    have hs' : (dispatchSystem .boot).ReachableVia (serial fun _ => True) s :=
      hs.mono fun _ _ hg => serial_mono (fun _ _ => trivial) hg
    have hbalance := Ranking.trace (R := .drain) (fun _ _ => trivial) hs'
      (.inr fun k hk => hk) h
    refine ⟨?_, advances_le (fun _ _ => trivial) hs' hq h, dispatcher_step_or_done _ _⟩
    have hthreads : (finsum fun t => Ranking.drain.thread (s.threads t)) = 0 := by
      simp [hq _, Ranking.thread]
    have hnone : Lts.cost accepted l = 0 := by
      refine h.cost_eq_zero fun s a hg => ?_
      cases a with
      | env l => cases l <;> first | rfl | exact hg.elim
      | _ => rfl
    have hle := Ranking.drain_ports_le s.mgr.toMsgPorts
    have hstate : Ranking.drain.state s = Ranking.drain.ports s.mgr.toMsgPorts := by
      rw [Ranking.state, hthreads, Nat.add_zero]
    rw [hnone, hstate] at hbalance
    omega

/-- A registration message, alone in the pump. -/
def oneInit : MsgPorts := { pump := { queue := [⟨{ serviceId := facRegFacId }, .client 0⟩] } }

theorem bounded_amplification_one_message :
    (∃ l s, (dispatchSystem .boot).TraceVia (serial fun _ => True) (.resting .boot []) l s ∧
      Lts.cost dispatches l = 1 ∧ Lts.cost accepted l = 1 ∧
        Lts.cost dispatches l ≤ 6 * Lts.cost accepted l) ∧
    ∃ n m', n ≤ 4 ∧ m'.pump.queue = [] ∧
      (CfactoryMgr.boot.withPorts oneInit).runUntilEmpty 5 = some (n, m') := by
  have hbound := bounded_amplification (E := fun _ => True)
  refine ⟨?taken, ?drained⟩
  case taken =>
    have htrace : (dispatchSystem .boot).TraceVia (serial fun _ => True) (.resting .boot [])
        [(_, .env (.sendMsg 0 { serviceId := facRegFacId })), (_, .pop 0)] _ :=
      .cons trivial rfl (.cons (fun _ => rfl) rfl (.nil _))
    exact ⟨_, _, htrace, rfl, rfl, hbound.1 _ _ htrace⟩
  case drained =>
    obtain ⟨n, m', hn, hm', hrun⟩ :=
      (hbound.2 (.resting .boot []) (Lts.ReachableVia.of_init rfl)).2.1 oneInit
    exact ⟨n, m', hn, hm', hrun 5 (by decide)⟩

end FsmFramework
