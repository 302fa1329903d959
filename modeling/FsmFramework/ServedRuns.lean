import FsmFramework.HttpAnswers

/-!
# Sequential runs below the server

A manager below a server goes through its dispatches as it does alone, as long as nobody waits
for what completes: the callback is called, and notifies nobody.
-/

namespace FsmFramework

/-- Timer threads and dispatches, and what completes has this key. -/
def quietly (key : WaitKey) (a : SeqState FsmKind) (l : SeqLabel) : Prop :=
  (∀ e, l = .env e → ∃ k, e = .timerWake k ∨ e = .timerPost k) ∧
    ∀ a' ev, a.step l = some a' → a'.events = a.events ++ ev →
      ∀ inst event, .completed inst event ∈ ev → event.waitKey = key

/-- The same server over another state of the manager. -/
def HttpState.withCore (h : HttpState) (core : DispatchState FsmKind) : HttpState :=
  { h with core := core }

/-- The server has a callback, which nobody has copied. -/
structure HttpState.Idle (h : HttpState) : Prop where
  callbackSet : h.callbackSet = true
  callbacks : h.callbacks = fun _ => none

variable {h h' : HttpState} {key : WaitKey} {a a' : SeqState FsmKind}
  {s s' : DispatchState FsmKind} {t : ℕ}

theorem WaitEntries.hold_nil (es : WaitEntries) : es.hold [] = es := rfl

theorem WaitEntries.release_nil (es : WaitEntries) : es.release [] = es := rfl

/-- A step of a dispatching thread, below the server. -/
theorem HttpState.Idle.advance (hidle : h.Idle) (hs : s.step (.advance t) = some s') :
    (h.withCore s).step (.core (.advance t)) = some { h.withCore s' with
      callbacks := Function.update (fun _ => none) t ((h.withCore s).notifying t) } := by
  simp [HttpState.step, HttpState.stepCore, HttpState.withCore, hidle.callbacks, hs]

/-- A thread that copies the callback, calls it, and notifies nobody. -/
theorem HttpState.Idle.notify {pm : PumpMsg} {facId fsmId : UInt32} {inst : ℕ} {ret : EerrNo}
    (hidle : h.Idle) (ht : s.threads t = some ⟨pm, .notify facId inst fsmId ret⟩)
    (hs : s.step (.advance t) = some s')
    (hnobody : h.waiters.find
      (CfactoryMgr.completionEvent facId fsmId pm.msg ret).waitKey = []) :
    httpSystem.RunVia serving (h.withCore s) (h.withCore s') := by
  let event := CfactoryMgr.completionEvent facId fsmId pm.msg ret
  let inside (call : CallbackPc) : HttpState :=
    { h.withCore s' with callbacks := Function.update (fun _ => none) t (some call) }
  have hnotifying : (h.withCore s).notifying t = some (.collect inst event) := by
    simp [HttpState.notifying, HttpState.withCore, ht, hidle.callbackSet, event]
  have hcopy : (h.withCore s).step (.core (.advance t)) = some (inside (.collect inst event)) := by
    rw [hidle.advance hs, hnotifying]
  have hcollect : (inside (.collect inst event)).step (.onCompletion t) =
      some (inside (.notify inst event [] 0)) := by
    have hnone : h.waiters.toNotify h.entries.alive event.waitKey = [] := by
      rw [Waiters.toNotify, hnobody]
      rfl
    simp [HttpState.step, HttpState.stepOnCompletion, inside, HttpState.withCore, hnone,
      WaitEntries.hold_nil]
  have hreturn : (inside (.notify inst event [] 0)).step (.onCompletion t) =
      some (h.withCore s') := by
    simp [HttpState.step, HttpState.stepOnCompletion, inside, HttpState.withCore,
      WaitEntries.release_nil, hidle.callbacks]
  have hcall : ∀ {k k' : HttpState}, k.step (.onCompletion t) = some k' →
      httpSystem.RunVia serving k k' :=
    fun hs => Lts.RunVia.single (a := .onCompletion t) trivial hs
  exact ((Lts.RunVia.single (M := httpSystem) (a := .core (.advance t)) trivial hcopy).trans
    (hcall hcollect)).trans (hcall hreturn)

/-- A step of a dispatching thread, while nobody waits for what it completes. -/
theorem HttpState.Idle.serve {th : DispatchThread} (hidle : h.Idle)
    (ht : s.threads t = some th) (hs : s.step (.advance t) = some s')
    (hnobody : ∀ inst event, .completed inst event ∈ (dispatchStep s.mgr th).events →
      h.waiters.find event.waitKey = []) :
    httpSystem.RunVia serving (h.withCore s) (h.withCore s') := by
  obtain ⟨pm, pc⟩ := th
  cases pc with
  | notify facId inst fsmId ret =>
      exact hidle.notify ht hs (hnobody inst _ (List.mem_singleton_self _))
  | _ =>
      have hnotifying : (h.withCore s).notifying t = none := by
        simp [HttpState.notifying, HttpState.withCore, ht]
      have hnone : Function.update (fun _ => none) t none = h.callbacks := by
        rw [hidle.callbacks]
        exact Function.update_eq_self t _
      have hcore := hidle.advance hs
      rw [hnotifying, hnone] at hcore
      exact Lts.RunVia.single (M := httpSystem) (a := .core (.advance t)) trivial hcore

/-- A thread that is left alone runs to its return, while nobody waits for what it completes. -/
theorem HttpState.Idle.finishDispatch {n : ℕ} {mgr mgr' : CfactoryMgr FsmKind}
    {th : DispatchThread} {ev ev' : List Event} (hidle : h.Idle)
    (hf : finishDispatch n mgr th = some (mgr', ev'))
    (hnobody : ∀ inst event, .completed inst event ∈ ev' → h.waiters.find event.waitKey = []) :
    httpSystem.RunVia serving
      (h.withCore ⟨mgr, Function.update (fun _ => none) t (some th), ev⟩)
      (h.withCore (.resting mgr' (ev ++ ev'))) := by
  have hstep : ∀ (ev : List Event) {mgr m₁ : CfactoryMgr FsmKind} {th : DispatchThread}
      {next : Option DispatchThread} {ev₁ : List Event}, Advance mgr th.pm th.pc next m₁ ev₁ →
        (∀ inst event, .completed inst event ∈ ev₁ → h.waiters.find event.waitKey = []) →
          httpSystem.RunVia serving
            (h.withCore ⟨mgr, Function.update (fun _ => none) t (some th), ev⟩)
            (h.withCore ⟨m₁, Function.update (fun _ => none) t next, ev ++ ev₁⟩) := by
    intro ev mgr m₁ th next ev₁ hadv hnobody
    have ht : Function.update (fun _ => none) t (some th) t = some th := Function.update_self ..
    refine hidle.serve ht
      (DispatchState.step_advance_iff.mpr ⟨th, _, _, _, ht, hadv, by simp⟩) ?_
    intro inst event he
    rw [show dispatchStep mgr th = ⟨next, m₁, ev₁⟩ from hadv.dispatchStep_eq] at he
    exact hnobody inst event he
  refine finishDispatch_induction (P := fun _ mgr th mgr' ev' => ∀ ev,
    (∀ inst event, .completed inst event ∈ ev' → h.waiters.find event.waitKey = []) →
      httpSystem.RunVia serving
        (h.withCore ⟨mgr, Function.update (fun _ => none) t (some th), ev⟩)
        (h.withCore (.resting mgr' (ev ++ ev')))) ?last ?more hf ev hnobody
  case last =>
    intro _ mgr th mgr' ev' hadv ev hnobody
    simpa [DispatchState.resting, Function.update_eq_self_iff] using hstep ev hadv hnobody
  case more =>
    intro _ mgr th th' m₁ ev₁ mgr' ev₂ hadv _ ih ev hnobody
    have hfirst := hstep ev hadv fun i e he => hnobody i e (List.mem_append_left _ he)
    have hrest := ih (ev ++ ev₁) fun i e he => hnobody i e (List.mem_append_right _ he)
    rw [List.append_assoc] at hrest
    exact hfirst.trans hrest

/-- **What the manager does alone, it does below the server**, while nobody waits for what
completes. -/
theorem HttpState.Idle.run (hidle : h.Idle) (hkey : h.waiters.find key = [])
    (hrun : (seqSystem .boot).RunVia (quietly key) a a') :
    httpSystem.RunVia serving (h.withCore (.resting a.mgr a.events))
      (h.withCore (.resting a'.mgr a'.events)) := by
  refine hrun.invariant (I := fun b => httpSystem.RunVia serving
    (h.withCore (.resting a.mgr a.events)) (h.withCore (.resting b.mgr b.events))) ?step
    (Lts.RunVia.refl _)
  case step =>
    intro b l b' ih hg hs
    refine ih.trans ?_
    obtain ⟨htimer, hkeyed⟩ := hg
    cases l with
    | env l =>
        obtain ⟨p, hp, rfl⟩ := SeqState.step_env_iff.mp hs
        have hcore : (h.withCore (.resting b.mgr b.events)).step (.core (.env l)) =
            some (h.withCore (.resting (b.mgr.withPorts p) b.events)) := by
          simp [HttpState.step, HttpState.stepCore, HttpState.withCore, DispatchState.step,
            DispatchState.resting, hp]
        refine Lts.RunVia.single (M := httpSystem) (a := .core (.env l)) ?_ hcore
        obtain ⟨k, rfl | rfl⟩ := htimer l rfl <;> exact trivial
    | dispatch =>
        obtain ⟨pm, p, hports, rfl⟩ := SeqState.step_dispatch_iff.mp hs
        have hpop : (h.withCore (.resting b.mgr b.events)).step (.core (.pop 0)) =
            some (h.withCore ⟨b.mgr.withPorts p,
              Function.update (fun _ => none) 0 (some ⟨pm, .dispatchMsg⟩), b.events⟩) := by
          have hcore : (DispatchState.resting b.mgr b.events).step (.pop 0) = some
              ⟨b.mgr.withPorts p, Function.update (fun _ => none) 0 (some ⟨pm, .dispatchMsg⟩),
                b.events⟩ := DispatchState.step_pop_iff.mpr ⟨rfl, pm, p, hports, rfl⟩
          simp [HttpState.step, HttpState.stepCore, HttpState.withCore, hcore]
        have hquiet : serving (h.withCore (.resting b.mgr b.events)) (.core (.pop 0)) :=
          fun _ => rfl
        refine (Lts.RunVia.single (M := httpSystem) hquiet hpop).trans
          (hidle.finishDispatch (finishDispatch_dispatchMsg _ _) fun inst event he => ?_)
        rw [hkeyed _ _ hs rfl inst event he, hkey]

/-! ## Requests -/

/-- Where a request stands once it has its message. -/
def HttpRequest.firstPc (req : HttpRequest) (n : UInt32) : HttpPc :=
  if req.wait then .registerWaiter (req.msg n) else .sendMsg (req.msg n)

variable {r : ℕ} {req : HttpRequest}

/-- A new request gets its message, whatever the counter says. -/
theorem generated_run (hr : h.requests[r]? = some { request := req }) : ∃ n next,
    httpSystem.RunVia serving h { h with
      requests := h.requests.set r { request := req, pc := req.firstPc n }
      nextSessionId := next } := by
  have hgenerate : ∀ k : HttpState, k.requests[r]? = some { request := req } →
      k.nextSessionId ≠ 0 → k.step (.handle r) = some { k with
        requests := k.requests.set r { request := req, pc := req.firstPc k.nextSessionId }
        nextSessionId := k.nextSessionId + 1 } := by
    intro k hk hz
    simp [HttpState.step, HttpState.stepHandle, HttpState.goto, hk, hz, HttpRequest.firstPc]
  by_cases hz : h.nextSessionId = 0
  · -- the counter has wrapped, and zero is skipped
    have hskip : h.step (.handle r) = some { h with nextSessionId := 1 } := by
      simp [HttpState.step, HttpState.stepHandle, hr, hz]
    have hnext := hgenerate { h with nextSessionId := 1 } hr (show (1 : UInt32) ≠ 0 by decide)
    exact ⟨1, 2, (Lts.RunVia.single (M := httpSystem) (a := .handle r) trivial hskip).trans
      (Lts.RunVia.single (M := httpSystem) (a := .handle r) trivial hnext)⟩
  · exact ⟨_, _, Lts.RunVia.single (M := httpSystem) (a := .handle r) trivial (hgenerate h hr hz)⟩

/-- What goes on beside the requests that wait. -/
structure Beside (h h' : HttpState) : Prop where
  idle : h'.Idle
  stop : h'.stop = h.stop
  waiters : h'.waiters = h.waiters
  entries : h'.entries = h.entries
  requests : ∀ (i : ℕ) (x : HttpThread), h.requests[i]? = some x → h'.requests[i]? = some x
  events : h.core.events <+: h'.core.events

theorem Beside.refl (hidle : h.Idle) : Beside h h :=
  ⟨hidle, rfl, rfl, rfl, fun _ _ hx => hx, List.prefix_rfl⟩

theorem Beside.trans {k : HttpState} (hhk : Beside h h') (hk : Beside h' k) : Beside h k where
  idle := hk.idle
  stop := hk.stop.trans hhk.stop
  waiters := hk.waiters.trans hhk.waiters
  entries := hk.entries.trans hhk.entries
  requests i x hx := hk.requests i x (hhk.requests i x hx)
  events := hhk.events.trans hk.events

/-- An asynchronous request arrives, posts its message and is answered. -/
theorem served_request (hidle : h.Idle) (haccept : h.stop.accepting = true)
    (hasync : req.wait = false) {m : CfactoryMgr FsmKind} {ev : List Event}
    (hcore : h.core = .resting m ev) : ∃ n h', httpSystem.RunVia serving h h' ∧ Beside h h' ∧
      h'.core = .resting (m.withPorts
        (m.toMsgPorts.sendMsg ⟨req.msg n, .client h.requests.length⟩).2) ev := by
  let r := h.requests.length
  have harrive : h.step (.request req) =
      some { h with requests := h.requests ++ [{ request := req }] } := by
    simp [HttpState.step, haccept]
  have hnew : (h.requests ++ [{ request := req }])[r]? = some { request := req } := by simp [r]
  obtain ⟨n, next, hgenerate⟩ := generated_run
    (h := { h with requests := h.requests ++ [{ request := req }] }) hnew
  have hpc : req.firstPc n = .sendMsg (req.msg n) := by simp [HttpRequest.firstPc, hasync]
  rw [hpc] at hgenerate
  let th : HttpThread := { request := req, pc := .sendMsg (req.msg n) }
  let k : HttpState := { h with
    requests := List.set (h.requests ++ [{ request := req }]) r th
    nextSessionId := next }
  have hsend : k.step (.handle r) = some ((k.sendMsg r (req.msg n)).2.goto r th
      (.answered (req.msg n) (asyncResponse req (req.msg n) (k.sendMsg r (req.msg n)).1))) := by
    have hr : k.requests[r]? = some th := by simp [k, r]
    simp [HttpState.step, HttpState.stepHandle, hr, th]
  have hpost : (k.sendMsg r (req.msg n)).2.core = .resting (m.withPorts
      (m.toMsgPorts.sendMsg ⟨req.msg n, .client r⟩).2) ev := by
    simp [HttpState.sendMsg, k, hcore, DispatchState.resting]
  refine ⟨n, _, ((Lts.RunVia.single (M := httpSystem) (a := .request req) trivial harrive).trans
    hgenerate).trans (Lts.RunVia.single (M := httpSystem) (a := .handle r) trivial hsend),
    ⟨⟨hidle.callbackSet, hidle.callbacks⟩, rfl, rfl, rfl, fun i x hx => ?_, ?_⟩, hpost⟩
  · have hi : i < r := (List.getElem?_eq_some_iff.mp hx).1
    refine (List.getElem?_set_ne hi.ne').trans ((List.getElem?_set_ne hi.ne').trans ?_)
    exact (List.getElem?_append_left hi).trans hx
  · show h.core.events <+: (k.sendMsg r (req.msg n)).2.core.events
    rw [hpost, hcore]
    exact List.prefix_rfl

end FsmFramework
