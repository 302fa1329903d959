import FsmFramework.FollowUps
import FsmFramework.Reuse

/-!
# Where completions and instances come from

With one dispatcher and clients that only post `MSG_INIT`: a completion carries the session of
the `MSG_INIT` that created the instance (`completed_origin`), at every moment of the run and not
only between dispatches. What created an instance was posted by a client (`Posted`).
-/

namespace FsmFramework

variable {E : EnvLabel → Prop} {s s' : DispatchState FsmKind} {a : SeqState FsmKind}
  {m m' : CfactoryMgr FsmKind} {pm : PumpMsg} {pc : DispatchPc} {next : Option DispatchThread}
  {events ev : List Event}

/-! ## Sequential runs -/

/-- The completion comes from an instance that a `MSG_INIT` of the same session created, and
that took its `MSG_CLOSE`. -/
def OriginOf (events : List Event) (inst : ℕ) (event : FsmCompletionEvent) : Prop :=
  event.result = .success ∧ event.finalEvent = .msgClose ∧
    ∃ pm₀, .created event.serviceId inst event.fsmId pm₀ ∈ events ∧ pm₀.msg.type = .msgInit ∧
      pm₀.msg.sessionId = event.sessionId

theorem OriginOf.mono {inst : ℕ} {event : FsmCompletionEvent} (h : OriginOf events inst event)
    (hsub : ∀ f i id pm, .created f i id pm ∈ events → .created f i id pm ∈ ev) :
    OriginOf ev inst event := by
  obtain ⟨hres, hfin, pm₀, hmem, horigin⟩ := h
  exact ⟨hres, hfin, pm₀, hsub _ _ _ _ hmem, horigin⟩

/-- Every completion of a sequential run has an origin. -/
theorem seq_completed_origin (hE : ∀ l, E l → onlyInit l)
    (h : (seqSystem .boot).ReachableVia (admits E) a) (hn : NoReuse a.events) :
    ∀ inst event, .completed inst event ∈ a.events → OriginOf a.events inst event := by
  refine seq_invariant
    (I := fun a => NoReuse a.events →
      ∀ inst event, .completed inst event ∈ a.events → OriginOf a.events inst event)
    (B := fun _ => True) (by simp) (fun _ _ _ _ _ => trivial) (fun _ _ _ _ hI _ _ => hI) ?_ h
    trivial hn
  intro a pm p r hreach _ hI hports hd hn inst event hmem
  have hn' := hn.of_prefix (List.prefix_append _ _)
  rcases List.mem_append.mp hmem with hold | hnew
  · exact (hI hn' inst event hold).mono fun _ _ _ _ h => List.mem_append_left _ h
  · cases hd with
    | @closed fac fsm hfac hroute htype =>
        simp only [handedEvents, List.cons_append, List.nil_append, List.mem_cons, reduceCtorEq,
          Event.completed.injEq, List.not_mem_nil, or_false, false_or] at hnew
        obtain ⟨rfl, rfl⟩ := hnew
        have hinv := namingInv_of_reachable hE hreach hn'
        rw [hports, MsgPorts.traffic_unpop] at hinv
        obtain ⟨-, pm₀, hcre, hinit, hsession⟩ :=
          NamingInv.target (m := a.mgr.withPorts p) hinv hfac hroute
        exact ⟨rfl, htype, pm₀, List.mem_append_left _ hcre, hinit, hsession⟩
    | _ => simp [handedEvents] at hnew

/-! ## Between the steps of a dispatch -/

/-- An instance was created or has processed a message. -/
def Event.isTaken : Event → Bool
  | .created .. | .processed .. => true
  | _ => false

/-- After `ProcessMsg` a dispatch creates and processes nothing any more. -/
theorem not_taken_finishDispatch {n : ℕ} {th : DispatchThread}
    (h : finishDispatch n m th = some (m', ev)) (hth : th.pc.handed = true) :
    ∀ e ∈ ev, e.isTaken = false := by
  have hstep : ∀ {m m₁ : CfactoryMgr FsmKind} {th : DispatchThread} {next : Option DispatchThread}
      {ev : List Event}, Advance m th.pm th.pc next m₁ ev → th.pc.handed = true →
        ∀ e ∈ ev, e.isTaken = false := by
    intro m m₁ th next ev hadv hth
    generalize hpc : th.pc = pc at hadv
    cases hadv with
    | added | processMsg => simp [hpc, DispatchPc.handed] at hth
    | @killFsm f id i ret fac hfac =>
        cases hfsm : fac.findFsm id <;> simp [CfactoryMgr.killFsm, hfsm, Event.isTaken]
    | _ => simp [Event.isTaken]
  refine finishDispatch_induction
    (P := fun _ _ th _ ev => th.pc.handed = true → ∀ e ∈ ev, e.isTaken = false) ?last ?more h hth
  case last => exact fun _ m th m' ev hadv hth => hstep hadv hth
  case more =>
    intro _ m th th' m₁ ev₁ m' ev₂ hadv hrest ih hth e hmem
    have hnext := hadv.handed_next (finishDispatch_ne_undefined hrest)
    rcases List.mem_append.mp hmem with hmem | hmem
    · exact hstep hadv hth e hmem
    · exact ih (by rw [hnext, hth]; rfl) e hmem

/-- What corresponds to a state of the machine has processed the same. -/
theorem Refines.processed_iff (hR : Refines s a) {f : UInt32} {i : ℕ} {pm : PumpMsg}
    {ret : EerrNo} : .processed f i pm ret ∈ a.events ↔ .processed f i pm ret ∈ s.events := by
  cases hR with
  | quiet hq hm he => rw [he]
  | before ht honly hpc hports hev hsetup hfin =>
      rw [hev, List.mem_append, or_iff_left fun h => ?_]
      simpa [Event.isSetup] using hsetup _ h
  | after ht honly hpc hfin hev =>
      rw [hev, List.mem_append, or_iff_left fun h => ?_]
      simpa [Event.isTaken] using not_taken_finishDispatch hfin hpc _ h

/-- What corresponds to a state of the machine has seen its completions, if perhaps more. -/
theorem Refines.completed (hR : Refines s a) {inst : ℕ} {event : FsmCompletionEvent}
    (h : .completed inst event ∈ s.events) : .completed inst event ∈ a.events := by
  cases hR with
  | quiet hq hm he => exact he ▸ h
  | before ht honly hpc hports hev hsetup hfin =>
      rcases List.mem_append.mp (hev ▸ h) with h | h
      · exact h
      · simpa [Event.isSetup] using hsetup _ h
  | after ht honly hpc hfin hev => exact hev ▸ List.mem_append_left _ h

/-- It has seen no creation that the machine has not. -/
theorem Refines.created (hR : Refines s a) : ∃ rest, a.events ++ rest = s.events ∨
    (a.events = s.events ++ rest ∧ ∀ f i id pm, .created f i id pm ∉ rest) := by
  cases hR with
  | quiet hq hm he => exact ⟨[], .inl (by simp [he])⟩
  | before ht honly hpc hports hev => exact ⟨_, .inl hev.symm⟩
  | after ht honly hpc hfin hev =>
      refine ⟨_, .inr ⟨hev, fun f i id pm h => ?_⟩⟩
      simpa [Event.isTaken] using not_taken_finishDispatch hfin hpc _ h

/-- An id that the machine has not used twice is not used twice by what corresponds to it. -/
theorem Refines.noReuse (hR : Refines s a) (hn : NoReuse s.events) : NoReuse a.events := by
  obtain ⟨rest, heq | ⟨heq, hnone⟩⟩ := hR.created
  · exact hn.of_prefix ⟨rest, heq⟩
  · exact heq ▸ hn.append hnone

/-- **Completions have an origin**, at every moment of a run with one dispatcher. -/
theorem completed_origin (hE : ∀ l, E l → onlyInit l)
    (h : (dispatchSystem .boot).ReachableVia (serial E) s) (hn : NoReuse s.events) {inst : ℕ}
    {event : FsmCompletionEvent} (hc : .completed inst event ∈ s.events) :
    OriginOf s.events inst event := by
  obtain ⟨a, ha, hR⟩ := seq_simulation.reachable h
  refine (seq_completed_origin hE ha (hR.noReuse hn) inst event (hR.completed hc)).mono ?_
  intro f i id pm hmem
  obtain ⟨rest, heq | ⟨heq, hnone⟩⟩ := hR.created
  · exact heq ▸ List.mem_append_left _ hmem
  · exact (List.mem_append.mp (heq ▸ hmem)).resolve_right (hnone f i id pm)

/-! ## Who posted what -/

/-- A client's message is one that `P` knows of, and no instance posts a `MSG_INIT`. -/
def PostedBy (P : ℕ → CMsg → Prop) (pm : PumpMsg) : Prop :=
  match pm.sender with
  | .client n => P n pm.msg
  | .fsm _ _ => pm.msg.type ≠ .msgInit

/-- The thread has not found or created an instance yet: its message is as it was posted. -/
def DispatchPc.routing : DispatchPc → Bool
  | .dispatchMsg | .facMsgPrc _ | .addFsm _ => true
  | _ => false

/-- Wherever a message is, in the traffic, in a thread or in the event of a creation, `P` knows
of it. -/
structure Posted (P : ℕ → CMsg → Prop) (s : DispatchState FsmKind) : Prop where
  traffic : ∀ pm ∈ s.mgr.traffic, PostedBy P pm
  threads : ∀ t th, s.threads t = some th → th.pc.routing = true → PostedBy P th.pm
  created : ∀ f i id pm, .created f i id pm ∈ s.events → PostedBy P pm ∧ pm.msg.serviceId = f

section Posted

variable {P Q : ℕ → CMsg → Prop}

theorem PostedBy.mono (h : PostedBy P pm) (hPQ : ∀ n msg, P n msg → Q n msg) : PostedBy Q pm := by
  rw [PostedBy] at h ⊢
  split <;> simp_all

theorem Posted.mono (h : Posted P s) (hPQ : ∀ n msg, P n msg → Q n msg) : Posted Q s where
  traffic pm hpm := (h.traffic pm hpm).mono hPQ
  threads t th ht hpc := (h.threads t th ht hpc).mono hPQ
  created f i id pm hmem := ⟨(h.created f i id pm hmem).1.mono hPQ, (h.created f i id pm hmem).2⟩

/-- A `MSG_INIT` was posted by a client. -/
theorem PostedBy.client (h : PostedBy P pm) (htype : pm.msg.type = .msgInit) :
    ∃ n, pm = ⟨pm.msg, .client n⟩ ∧ P n pm.msg := by
  obtain ⟨msg, sender⟩ := pm
  cases sender with
  | client n => exact ⟨n, rfl, h⟩
  | fsm f i => exact absurd htype h

/-- The surroundings post what `P` knows of. -/
theorem Posted.env {l : EnvLabel} {p : MsgPorts} (h : Posted P s) (hp : s.mgr.env l = some p)
    (hl : ∀ pm ∈ l.posted, PostedBy P pm) : Posted P { s with mgr := s.mgr.withPorts p } where
  traffic pm hpm := by
    rcases List.mem_append.mp ((MsgPorts.traffic_env hp).mem_iff.mp hpm) with h' | h'
    · exact hl pm h'
    · exact h.traffic pm h'
  threads := h.threads
  created := h.created

/-- A thread takes a message that `P` knows of. -/
theorem Posted.pop {t : ℕ} {p : MsgPorts} (h : Posted P s)
    (hports : s.mgr.toMsgPorts = p.unpop pm) :
    Posted P { s with
      mgr := s.mgr.withPorts p
      threads := Function.update s.threads t (some ⟨pm, .dispatchMsg⟩) } := by
  have htraffic : s.mgr.traffic = pm :: p.traffic := by rw [hports, MsgPorts.traffic_unpop]
  refine ⟨fun x hx => h.traffic x (htraffic ▸ List.mem_cons_of_mem _ hx), fun u th hu hpc => ?_,
    h.created⟩
  rcases DispatchState.threads_update hu with ⟨-, hu⟩ | ⟨-, hu⟩
  · obtain rfl := Option.some.inj hu
    exact h.traffic pm (htraffic ▸ List.mem_cons_self)
  · exact h.threads u th hu hpc

/-- A thread posts no `MSG_INIT`, and creates an instance for the message it took. -/
theorem Posted.advance {t : ℕ} (h : Posted P s) (ht : s.threads t = some ⟨pm, pc⟩)
    (hfac : ∀ f, pc.factory = some f → f = pm.msg.serviceId)
    (hadv : Advance s.mgr pm pc next m' ev) :
    Posted P ⟨m', Function.update s.threads t next, s.events ++ ev⟩ where
  traffic x hx := by
    cases hadv with
    | @processMsg f i fac fsm hd =>
        rcases fac.kind.traffic_processMsg fac.facId fsm pm.msg s.mgr.toMsgPorts with
          heq | ⟨event, hne, hperm⟩
        · exact h.traffic x (heq ▸ hx)
        · rcases List.mem_cons.mp (hperm.mem_iff.mp hx) with rfl | hx
          · exact hne
          · exact h.traffic x hx
    | _ => exact h.traffic x hx
  threads u th hu hpc := by
    rcases DispatchState.threads_update hu with ⟨rfl, rfl⟩ | ⟨-, hu⟩
    · have hpm := h.threads u _ ht
      cases hadv with
      | service | missing => exact hpm rfl
      | _ => simp [DispatchPc.routing] at hpc
    · exact h.threads u th hu hpc
  created f i id x hx := by
    rcases List.mem_append.mp hx with hold | hnew
    · exact h.created f i id x hold
    · cases hadv with
      | @added g fac fac' fsm _ hadd =>
          obtain ⟨rfl, -, -, rfl⟩ := Event.created.inj (List.mem_singleton.mp hnew)
          exact ⟨h.threads t _ ht rfl, (hfac f rfl).symm⟩
      | _ => simp at hnew

/-- Where every thread works on the factory that its message names, `P` knows of what the
surroundings post, and so of every message. -/
theorem Posted.step {l : DispatchLabel FsmKind} (h : Posted P s) (hs : s.step l = some s')
    (hfac : ∀ t th, s.threads t = some th → ∀ f, th.pc.factory = some f → f = th.pm.msg.serviceId)
    (hl : ∀ n msg, l = .env (.sendMsg n msg) → P n msg) : Posted P s' := by
  cases l with
  | env l =>
      obtain ⟨p, hp, rfl⟩ := DispatchState.step_env_iff.mp hs
      refine h.env hp fun pm hpm => ?_
      cases l with
      | sendMsg n msg =>
          obtain rfl := List.mem_singleton.mp hpm
          exact hl n msg rfl
      | _ => cases hpm
  | registerFactory factory =>
      obtain rfl := DispatchState.step_registerFactory_iff.mp hs
      exact ⟨by simpa using h.traffic, h.threads, h.created⟩
  | pop t =>
      obtain ⟨-, pm, p, hports, rfl⟩ := DispatchState.step_pop_iff.mp hs
      exact h.pop hports
  | advance t =>
      obtain ⟨th, next, m', ev, ht, hadv, rfl⟩ := DispatchState.step_advance_iff.mp hs
      exact h.advance ht (hfac t th ht) hadv

end Posted

end FsmFramework
