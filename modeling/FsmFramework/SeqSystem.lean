import FsmFramework.DispatchSystem

/-!
# Dispatches as single steps

With one dispatcher a dispatch can be thought of as one step, taken when `ProcessMsg` runs:
the steps before it do not look at the ports, the steps after it leave them alone, and
what surrounds the dispatch touches nothing else. `seqSystem` is the system with such
dispatches. `seq_simulation` shows that it has every serial run of `dispatchSystem`,
`resting_reachable` that it has no others.
-/

namespace FsmFramework

/-- A manager between dispatches, and what happened so far. -/
structure SeqState (K : Type*) where
  mgr : CfactoryMgr K
  events : List Event

/-- A step of the surroundings, or a whole dispatch of the front message. -/
inductive SeqLabel
  | env (l : EnvLabel)
  | dispatch
  deriving DecidableEq, Repr

/-- The event belongs to the part of a dispatch before `ProcessMsg`. -/
def Event.isSetup : Event → Bool
  | .created .. | .called .. => true
  | _ => false

variable {K : Type*} [BusinessFsm K]

/-- Take a step, if it is enabled. -/
def SeqState.step (a : SeqState K) : SeqLabel → Option (SeqState K)
  | .env l => (a.mgr.env l).map fun p => { a with mgr := a.mgr.withPorts p }
  | .dispatch =>
      a.mgr.pop.map fun r =>
        let d := (a.mgr.withPorts r.2).dispatchMsg r.1
        { mgr := d.mgr, events := a.events ++ d.events }

/-- All sequential runs from a manager on. -/
def seqSystem (m : CfactoryMgr K) : Lts (SeqState K) SeqLabel where
  init a := a = ⟨m, []⟩
  step := SeqState.step

/-- The surroundings take the steps that `E` admits. -/
def admits (E : EnvLabel → Prop) (_a : SeqState K) : SeqLabel → Prop
  | .env l => E l
  | .dispatch => True

instance (E : EnvLabel → Prop) [DecidablePred E] (a : SeqState K) :
    DecidablePred (admits E a)
  | .env l => inferInstanceAs (Decidable (E l))
  | .dispatch => isTrue trivial

variable {m : CfactoryMgr K} {E : EnvLabel → Prop} {s s' : DispatchState K} {a a' : SeqState K}

theorem SeqState.step_env_iff {l : EnvLabel} : a.step (.env l) = some a' ↔
    ∃ p, a.mgr.env l = some p ∧ a' = { a with mgr := a.mgr.withPorts p } := by
  simp [SeqState.step, eq_comm]

theorem SeqState.step_dispatch_iff : a.step .dispatch = some a' ↔
    ∃ pm p, a.mgr.toMsgPorts = p.unpop pm ∧
      a' = { mgr := ((a.mgr.withPorts p).dispatchMsg pm).mgr
             events := a.events ++ ((a.mgr.withPorts p).dispatchMsg pm).events } := by
  simp only [SeqState.step, Option.map_eq_some_iff, Prod.exists, MsgPorts.pop_eq_some_iff]
  simp only [eq_comm]

/-! ## The simulation -/

/-- How a state of the machine and a sequential state correspond. While a dispatch is in
progress the sequential system has not taken it until `ProcessMsg` runs; from then on it is
where the dispatch is going to end. -/
inductive Refines (s : DispatchState K) (a : SeqState K) : Prop
  | quiet (hq : s.Quiet) (hm : a.mgr = s.mgr) (he : a.events = s.events)
  | before {t n : ℕ} {th : DispatchThread} {pm : PumpMsg} {l : List Event}
      (ht : s.threads t = some th) (honly : ∀ u, u ≠ t → s.threads u = none)
      (hpc : th.pc.handed = false) (hports : a.mgr.toMsgPorts = s.mgr.toMsgPorts.unpop pm)
      (hev : s.events = a.events ++ l) (hsetup : ∀ e ∈ l, e.isSetup = true)
      (hfin : ∀ p, ∃ l', finishDispatch n (s.mgr.withPorts p) th =
          some (((a.mgr.withPorts p).dispatchMsg pm).mgr, l') ∧
        ((a.mgr.withPorts p).dispatchMsg pm).events = l ++ l')
  | after {t n : ℕ} {th : DispatchThread} {l : List Event}
      (ht : s.threads t = some th) (honly : ∀ u, u ≠ t → s.threads u = none)
      (hpc : th.pc.handed = true) (hfin : finishDispatch n s.mgr th = some (a.mgr, l))
      (hev : a.events = s.events ++ l)

theorem Advance.isSetup {m' : CfactoryMgr K} {pm : PumpMsg} {pc : DispatchPc}
    {th : DispatchThread} {ev : List Event} (h : Advance m pm pc (some th) m' ev)
    (hpc : pc.handed = false) (hp : pc.isProcessMsg = false) : ∀ e ∈ ev, e.isSetup = true := by
  cases h with
  | processMsg | postPrcMsg | terminal | notify =>
      simp [DispatchPc.handed, DispatchPc.isProcessMsg] at hpc hp
  | _ => simp [Event.isSetup]

/-- The surroundings do the same to both. -/
theorem Refines.env {l : EnvLabel} (hR : Refines s a) (hs : s.step (.env l) = some s') :
    ∃ a', a.step (.env l) = some a' ∧ Refines s' a' := by
  obtain ⟨p, hp, rfl⟩ := DispatchState.step_env_iff.mp hs
  cases hR with
  | quiet hq hm he =>
      exact ⟨_, SeqState.step_env_iff.mpr ⟨p, hm ▸ hp, rfl⟩, .quiet hq (by rw [hm]) he⟩
  | @before t n th pm ev ht honly hpc hports hev hsetup hfin =>
      refine ⟨_, SeqState.step_env_iff.mpr ⟨p.unpop pm, ?_, rfl⟩,
        .before ht honly hpc rfl hev hsetup hfin⟩
      rw [hports, MsgPorts.env_unpop, hp, Option.map_some]
  | after ht honly hpc hfin hev =>
      obtain ⟨hfin', hports⟩ := finishDispatch_withPorts hfin hpc p
      exact ⟨_, SeqState.step_env_iff.mpr ⟨p, hports ▸ hp, rfl⟩, .after ht honly hpc hfin' hev⟩

/-- A thread that takes a message has the whole dispatch before it. -/
theorem Refines.pop {t : ℕ} (hR : Refines s a) (hq : s.Quiet) (hs : s.step (.pop t) = some s') :
    Refines s' a := by
  obtain ⟨-, pm, p, hports, rfl⟩ := DispatchState.step_pop_iff.mp hs
  cases hR with
  | quiet _ hm he =>
      refine .before (t := t) (n := 9) (l := []) (Function.update_self ..) (fun u hu => ?_) rfl
        (by rw [hm, hports]; rfl) (by simp [he]) (by simp) (fun q => ?_)
      · exact (Function.update_of_ne hu _ _).trans (hq u)
      · exact ⟨_, hm ▸ finishDispatch_dispatchMsg _ _, rfl⟩
  | before ht | after ht => simp [hq _] at ht

/-- The sequential system takes the dispatch that a machine state has before it. -/
private theorem step_of_before {pm : PumpMsg}
    (hports : a.mgr.toMsgPorts = s.mgr.toMsgPorts.unpop pm) :
    a.step .dispatch = some
      { mgr := ((a.mgr.withPorts s.mgr.toMsgPorts).dispatchMsg pm).mgr
        events := a.events ++ ((a.mgr.withPorts s.mgr.toMsgPorts).dispatchMsg pm).events } :=
  SeqState.step_dispatch_iff.mpr ⟨pm, _, hports, rfl⟩

section Advance

variable {t n : ℕ} {th th' : DispatchThread} {next : Option DispatchThread} {m' : CfactoryMgr K}
  {ev : List Event}

omit [BusinessFsm K] in
/-- The thread that steps is the only one there is. -/
private theorem eq_of_only {u : ℕ} (ht : s.threads t = some th) (hu : s.threads u = some th')
    (honly : ∀ v, v ≠ u → s.threads v = none) : t = u ∧ th = th' := by
  obtain rfl : t = u := by
    by_contra hne
    simp [honly t hne] at ht
  exact ⟨rfl, Option.some.inj (ht.symm.trans hu)⟩

omit [BusinessFsm K] in
/-- When that thread has returned, none is left. -/
private theorem quiet_of_only (honly : ∀ u, u ≠ t → s.threads u = none) :
    ∀ u, Function.update s.threads t none u = none := by
  intro u
  rcases eq_or_ne u t with rfl | hu
  · exact Function.update_self ..
  · exact (Function.update_of_ne hu _ _).trans (honly u hu)

omit [BusinessFsm K] in
private theorem only_update (honly : ∀ u, u ≠ t → s.threads u = none) :
    ∀ u, u ≠ t → Function.update s.threads t next u = none :=
  fun u hu => (Function.update_of_ne hu _ _).trans (honly u hu)

/-- A step before `ProcessMsg`, or `ProcessMsg` itself, where the dispatch takes effect. -/
private theorem advance_of_before {pm : PumpMsg} {l : List Event}
    (hadv : Advance s.mgr th.pm th.pc next m' ev)
    (honly : ∀ u, u ≠ t → s.threads u = none) (hpc : th.pc.handed = false)
    (hports : a.mgr.toMsgPorts = s.mgr.toMsgPorts.unpop pm) (hev : s.events = a.events ++ l)
    (hsetup : ∀ e ∈ l, e.isSetup = true)
    (hfin : ∀ p, ∃ l', finishDispatch n (s.mgr.withPorts p) th =
        some (((a.mgr.withPorts p).dispatchMsg pm).mgr, l') ∧
      ((a.mgr.withPorts p).dispatchMsg pm).events = l ++ l') :
    Refines ⟨m', Function.update s.threads t next, s.events ++ ev⟩ a ∨
      ∃ a', a.step .dispatch = some a' ∧
        Refines ⟨m', Function.update s.threads t next, s.events ++ ev⟩ a' := by
  cases n with
  | zero =>
      obtain ⟨l', h, -⟩ := hfin {}
      simp [finishDispatch] at h
  | succ n =>
      obtain ⟨l', hfin', hevs⟩ := hfin s.mgr.toMsgPorts
      rw [CfactoryMgr.withPorts_self] at hfin'
      cases next with
      | none =>
          -- the thread returns without having reached `ProcessMsg`
          rw [finishDispatch_none hadv.dispatchStep_eq] at hfin'
          obtain ⟨hm, rfl⟩ := Prod.mk.inj (Option.some.inj hfin')
          refine .inr ⟨_, step_of_before hports, .quiet (quiet_of_only honly) hm.symm ?_⟩
          simp only [hev, hevs, List.append_assoc]
      | some th₂ =>
          obtain ⟨l₂, hrest, rfl⟩ := finishDispatch_rest hadv hfin'
          have hnext := hadv.handed_next (finishDispatch_ne_undefined hrest)
          cases hp : th.pc.isProcessMsg with
          | true =>
              -- the dispatch takes effect here
              refine .inr ⟨_, step_of_before hports, .after (n := n) (l := l₂)
                (Function.update_self ..) (only_update honly) (by simp [hnext, hp]) hrest ?_⟩
              simp only [hev, hevs, List.append_assoc]
          | false =>
              have hports' : a.mgr.toMsgPorts = m'.toMsgPorts.unpop pm := by
                rw [hports, (hadv.withPorts hp {}).2]
              refine .inl (.before (n := n) (l := l ++ ev) (Function.update_self ..)
                (only_update honly) (by simp [hnext, hpc, hp]) hports' (by simp [hev]) ?_
                fun p => ?_)
              · intro e he
                rcases List.mem_append.mp he with he | he
                · exact hsetup e he
                · exact hadv.isSetup hpc hp e he
              · obtain ⟨lp, hfinp, hevp⟩ := hfin p
                obtain ⟨lr, hr, rfl⟩ := finishDispatch_rest (hadv.withPorts hp p).1 hfinp
                exact ⟨lr, hr, by rw [hevp, List.append_assoc]⟩

/-- A step after `ProcessMsg`. -/
private theorem advance_of_after (hadv : Advance s.mgr th.pm th.pc next m' ev)
    (honly : ∀ u, u ≠ t → s.threads u = none) (hpc : th.pc.handed = true) {l : List Event}
    (hfin : finishDispatch n s.mgr th = some (a.mgr, l)) (hev : a.events = s.events ++ l) :
    Refines ⟨m', Function.update s.threads t next, s.events ++ ev⟩ a := by
  cases n with
  | zero => simp [finishDispatch] at hfin
  | succ n =>
      cases next with
      | none =>
          rw [finishDispatch_none hadv.dispatchStep_eq] at hfin
          obtain ⟨hm, rfl⟩ := Prod.mk.inj (Option.some.inj hfin)
          exact .quiet (quiet_of_only honly) hm.symm hev
      | some th₂ =>
          obtain ⟨l₂, hrest, rfl⟩ := finishDispatch_rest hadv hfin
          have hnext := hadv.handed_next (finishDispatch_ne_undefined hrest)
          exact .after (n := n) (l := l₂) (Function.update_self ..) (only_update honly)
            (by simp [hnext, hpc]) hrest (by simp [hev])

/-- A step of the dispatch is none of the sequential system, or is the dispatch. -/
theorem Refines.advance (hR : Refines s a) (hs : s.step (.advance t) = some s') :
    Refines s' a ∨ ∃ a', a.step .dispatch = some a' ∧ Refines s' a' := by
  obtain ⟨th, next, m', ev, ht, hadv, rfl⟩ := DispatchState.step_advance_iff.mp hs
  cases hR with
  | quiet hq => simp [hq t] at ht
  | before hu honly hpc hports hev hsetup hfin =>
      obtain ⟨rfl, rfl⟩ := eq_of_only ht hu honly
      exact advance_of_before hadv honly hpc hports hev hsetup hfin
  | after hu honly hpc hfin hev =>
      obtain ⟨rfl, rfl⟩ := eq_of_only ht hu honly
      exact .inl (advance_of_after hadv honly hpc hfin hev)

end Advance

/-- **Dispatches can be taken as single steps.** -/
theorem seq_simulation :
    Lts.Simulation (dispatchSystem m) (serial E) (seqSystem m) (admits E) Refines where
  init := by
    rintro s rfl
    exact ⟨⟨m, []⟩, rfl, .quiet (fun _ => rfl) rfl rfl⟩
  step := by
    intro s l s' a _ _ hR hg hs
    cases l with
    | env l =>
        obtain ⟨a', ha, hR'⟩ := hR.env hs
        exact ⟨a', Lts.RunVia.single (a := .env l) hg ha, hR'⟩
    | registerFactory factory => exact hg.elim
    | pop t => exact ⟨a, Lts.RunVia.refl a, hR.pop hg hs⟩
    | advance t =>
        rcases hR.advance hs with hR' | ⟨a', ha, hR'⟩
        · exact ⟨a, Lts.RunVia.refl a, hR'⟩
        · exact ⟨a', Lts.RunVia.single (a := .dispatch) trivial ha, hR'⟩

/-- Between dispatches, the machine is where the sequential system is. -/
theorem seq_reachable_of_quiet (h : (dispatchSystem m).ReachableVia (serial E) s)
    (hq : s.Quiet) : (seqSystem m).ReachableVia (admits E) ⟨s.mgr, s.events⟩ := by
  obtain ⟨a, ha, hR⟩ := seq_simulation.reachable h
  cases hR with
  | quiet _ hm he =>
      obtain ⟨am, ae⟩ := a
      obtain rfl : am = s.mgr := hm
      obtain rfl : ae = s.events := he
      exact ha
  | before ht | after ht => simp [hq _] at ht

/-- With one dispatcher at most one thread is inside a dispatch. -/
theorem serial_unique (h : (dispatchSystem m).ReachableVia (serial E) s) {t u : ℕ}
    (ht : s.threads t ≠ none) (hu : s.threads u ≠ none) : t = u := by
  obtain ⟨a, -, hR⟩ := seq_simulation.reachable h
  cases hR with
  | quiet hq => exact absurd (hq t) ht
  | before _ honly | after _ honly =>
      have : ∀ v, s.threads v ≠ none → v = _ := fun v hv => by
        by_contra hne
        exact hv (honly v hne)
      exact (this t ht).trans (this u hu).symm

/-- With one dispatcher no thread uses a pointer that dangles. -/
theorem serial_running (h : (dispatchSystem m).ReachableVia (serial E) s) {t : ℕ}
    {th : DispatchThread} (ht : s.threads t = some th) : th.pc ≠ .undefined := by
  obtain ⟨a, -, hR⟩ := seq_simulation.reachable h
  have hone : ∀ {u : ℕ} {th' : DispatchThread}, s.threads u = some th' →
      (∀ v, v ≠ u → s.threads v = none) → th' = th := by
    intro u th' hu honly
    obtain rfl : t = u := by
      by_contra hne
      simp [honly t hne] at ht
    exact Option.some.inj (hu.symm.trans ht)
  cases hR with
  | quiet hq => simp [hq t] at ht
  | before hu honly _ _ _ _ hfin =>
      obtain ⟨ev, hrun, -⟩ := hfin {}
      exact hone hu honly ▸ finishDispatch_ne_undefined hrun
  | after hu honly _ hfin => exact hone hu honly ▸ finishDispatch_ne_undefined hfin

/-! ## The other direction -/

/-- A thread that is left alone runs to its return. -/
theorem runVia_of_finishDispatch {n t : ℕ} {mgr mgr' : CfactoryMgr K} {th : DispatchThread}
    {ev ev' : List Event} (h : finishDispatch n mgr th = some (mgr', ev')) :
    (dispatchSystem m).RunVia (serial E) ⟨mgr, Function.update (fun _ => none) t (some th), ev⟩
      (.resting mgr' (ev ++ ev')) := by
  have hstep : ∀ (ev : List Event) {mgr m₁ : CfactoryMgr K} {th : DispatchThread}
      {next : Option DispatchThread} {ev₁ : List Event}, Advance mgr th.pm th.pc next m₁ ev₁ →
        (dispatchSystem m).RunVia (serial E)
          ⟨mgr, Function.update (fun _ => none) t (some th), ev⟩
          ⟨m₁, Function.update (fun _ => none) t next, ev ++ ev₁⟩ := by
    intro ev mgr m₁ th next ev₁ hadv
    exact Lts.RunVia.single (a := .advance t) trivial
      (DispatchState.step_advance_iff.mpr ⟨th, _, _, _, by simp, hadv, by simp⟩)
  refine finishDispatch_induction (P := fun _ mgr th mgr' ev' => ∀ ev,
    (dispatchSystem m).RunVia (serial E) ⟨mgr, Function.update (fun _ => none) t (some th), ev⟩
      (.resting mgr' (ev ++ ev'))) ?last ?more h ev
  case last =>
    intro _ mgr th mgr' ev' hadv ev
    simpa [DispatchState.resting, Function.update_eq_self_iff] using hstep ev hadv
  case more =>
    intro _ mgr th th' m₁ ev₁ mgr' ev₂ hadv _ ih ev
    have hrest := ih (ev ++ ev₁)
    rw [List.append_assoc] at hrest
    exact (hstep ev hadv).trans hrest

/-- A sequential step is a serial run of the machine. -/
theorem resting_run {l : SeqLabel} (hg : admits E a l) (hs : a.step l = some a') :
    (dispatchSystem m).RunVia (serial E) (.resting a.mgr a.events)
      (.resting a'.mgr a'.events) := by
  cases l with
  | env l =>
      obtain ⟨p, hp, rfl⟩ := SeqState.step_env_iff.mp hs
      exact Lts.RunVia.single (a := .env l) hg (DispatchState.step_env_iff.mpr ⟨p, hp, rfl⟩)
  | dispatch =>
      obtain ⟨pm, p, hports, rfl⟩ := SeqState.step_dispatch_iff.mp hs
      have hpop : (DispatchState.resting a.mgr a.events).step (.pop 0) = some
          ⟨a.mgr.withPorts p, Function.update (fun _ => none) 0 (some ⟨pm, .dispatchMsg⟩),
            a.events⟩ :=
        DispatchState.step_pop_iff.mpr ⟨rfl, pm, p, hports, rfl⟩
      have hquiet : serial E (.resting a.mgr a.events) (.pop 0) := fun _ => rfl
      exact (Lts.RunVia.single (M := dispatchSystem m) hquiet hpop).trans
        (runVia_of_finishDispatch (finishDispatch_dispatchMsg _ _))

/-- Every sequential run is a serial run of the machine. -/
theorem resting_reachable (h : (seqSystem m).ReachableVia (admits E) a) :
    (dispatchSystem m).ReachableVia (serial E) (.resting a.mgr a.events) := by
  refine h.invariant (I := fun a => (dispatchSystem m).ReachableVia (serial E)
    (.resting a.mgr a.events)) ?init ?step
  case init =>
    rintro a rfl
    exact Lts.ReachableVia.of_init rfl
  case step => exact fun a l a' hreach hg hs => hreach.run (resting_run hg hs)

end FsmFramework
