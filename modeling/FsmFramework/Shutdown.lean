import FsmFramework.HttpWaits

/-!
# Stopping the server

`HttpServer::Stop` takes the callback back, notifies the waiters that there are, stops the I/O
context and joins its threads. Neither of the first two steps looks at who is on the way: a
dispatching thread may have copied the callback before, and a request may register its waiter
afterwards. Where nobody is on the way, both do what they are for.

## Main results

* `no_callback_after_stop` — what is left of the callback once `Stop` has returned.
* `stop_completes_waiters` — what `Stop` leaves of the waiters while it joins.
-/

namespace FsmFramework

variable {h h' : HttpState} {l : HttpLabel} {r t : ℕ}

/-! ## The callback -/

/-- `SetCompletionCallback` has taken the callback back. -/
def StopPc.unset : StopPc → Bool
  | .running | .setCompletionCallback => false
  | .collect | .notify .. | .stopIoc | .join | .stopped => true

/-- The callback is taken back while no dispatching thread holds a copy of it. -/
def clearsAlone (h : HttpState) : HttpLabel → Prop
  | .stop => h.stop = .setCompletionCallback → ∀ t, h.callbacks t = none
  | _ => True

/-- Nobody has a copy of the callback, and nobody can make one. -/
structure CallbackGone (h : HttpState) : Prop where
  unset : h.callbackSet = false
  idle : ∀ t, h.callbacks t = none

/-- Only `Stop` moves on in `Stop`, and only it takes the callback back. -/
theorem beside_stop (hne : l ≠ .stop) (hs : h.step l = some h') :
    h'.stop = h.stop ∧ h'.callbackSet = h.callbackSet := by
  cases l with
  | core l =>
      obtain ⟨core, callbacks, -, rfl, -⟩ := HttpState.step_core hs
      exact ⟨rfl, rfl⟩
  | request req =>
      obtain rfl := HttpState.step_request hs
      exact ⟨rfl, rfl⟩
  | handle r =>
      obtain ⟨th, th', k, -, hd, rfl⟩ := HttpState.step_handle hs
      cases hd <;> exact ⟨rfl, rfl⟩
  | onCompletion t =>
      obtain ⟨call, -, rfl⟩ := HttpState.step_onCompletion hs
      cases call with
      | collect => exact ⟨rfl, rfl⟩
      | notify inst event entriesToNotify next =>
          simp only [HttpState.stepOnCompletion]
          split <;> exact ⟨rfl, rfl⟩
  | stop => contradiction

/-- A step of `Stop`: the callbacks under way go on, and the callback is taken back, or it is as
it was. -/
theorem stop_callback (hs : h.step .stop = some h') : h'.callbacks = h.callbacks ∧
    ((h.stop = .setCompletionCallback ∧ h'.callbackSet = false) ∨
      (h'.stop.unset = h.stop.unset ∧ h'.callbackSet = h.callbackSet)) := by
  change h.stepStop = some h' at hs
  rw [HttpState.stepStop] at hs
  cases hpc : h.stop with
  | setCompletionCallback =>
      rw [hpc] at hs
      obtain rfl := Option.some.inj hs
      exact ⟨rfl, .inl ⟨rfl, rfl⟩⟩
  | running | collect | stopIoc =>
      rw [hpc] at hs
      obtain rfl := Option.some.inj hs
      exact ⟨rfl, .inr ⟨rfl, rfl⟩⟩
  | notify entriesToNotify next =>
      rw [hpc] at hs
      dsimp only at hs
      split at hs <;> obtain rfl := Option.some.inj hs <;> exact ⟨rfl, .inr ⟨rfl, rfl⟩⟩
  | join =>
      rw [hpc] at hs
      dsimp only at hs
      split at hs
      · obtain rfl := Option.some.inj hs
        exact ⟨rfl, .inr ⟨rfl, rfl⟩⟩
      · contradiction
  | stopped => simp [hpc] at hs

/-- The call that a dispatching thread is in: as it was, just begun with a copy of the callback,
or one step further. -/
theorem callbacks_step (hs : h.step l = some h') (t : ℕ) : h'.callbacks t = h.callbacks t ∨
    (l = .core (.advance t) ∧ h.callbacks t = none ∧ h'.callbacks t = h.notifying t) ∨
      ∃ call, l = .onCompletion t ∧ h.callbacks t = some call ∧
        h' = h.stepOnCompletion t call := by
  cases l with
  | core l =>
      obtain ⟨core, callbacks, -, rfl, hcb⟩ := HttpState.step_core hs
      rcases hcb with ⟨u, rfl, hnone, rfl⟩ | ⟨-, rfl⟩
      · rcases eq_or_ne t u with rfl | hne
        · exact .inr (.inl ⟨rfl, hnone, Function.update_self t _ h.callbacks⟩)
        · exact .inl (Function.update_of_ne hne ..)
      · exact .inl rfl
  | request req =>
      obtain rfl := HttpState.step_request hs
      exact .inl rfl
  | handle r =>
      obtain ⟨th, th', k, -, hd, rfl⟩ := HttpState.step_handle hs
      cases hd <;> exact .inl rfl
  | onCompletion u =>
      obtain ⟨call, hcall, rfl⟩ := HttpState.step_onCompletion hs
      rcases eq_or_ne t u with rfl | hne
      · exact .inr (.inr ⟨call, rfl, hcall, rfl⟩)
      · refine .inl ?_
        cases call with
        | collect => exact Function.update_of_ne hne ..
        | notify inst event entriesToNotify next =>
            simp only [HttpState.stepOnCompletion]
            split <;> exact Function.update_of_ne hne ..
  | stop => exact .inl (congrFun (stop_callback hs).1 t)

/-- Once the callback is taken back, it stays so. -/
theorem unset_step (hset : h.stop.unset = true → h.callbackSet = false)
    (hs : h.step l = some h') : h'.stop.unset = true → h'.callbackSet = false := by
  intro hunset
  cases l with
  | stop =>
      obtain ⟨-, ⟨-, hcleared⟩ | ⟨hsame, hcallback⟩⟩ := stop_callback hs
      · exact hcleared
      · exact hcallback.trans (hset (hsame.symm.trans hunset))
  | core _ | request _ | handle _ | onCompletion _ =>
      obtain ⟨hsame, hcallback⟩ := beside_stop (by simp) hs
      exact hcallback.trans (hset (hsame ▸ hunset))

theorem CallbackGone.step (hgone : CallbackGone h) (hs : h.step l = some h') :
    CallbackGone h' := by
  have hunset : h'.callbackSet = false := by
    cases l with
    | stop =>
        obtain ⟨-, ⟨-, hcleared⟩ | ⟨-, hcallback⟩⟩ := stop_callback hs
        · exact hcleared
        · exact hcallback.trans hgone.unset
    | core _ | request _ | handle _ | onCompletion _ =>
        exact (beside_stop (by simp) hs).2.trans hgone.unset
  refine ⟨hunset, fun t => ?_⟩
  rcases callbacks_step hs t with hsame | ⟨-, -, hcopy⟩ | ⟨call, -, hcall, -⟩
  · exact hsame.trans (hgone.idle t)
  · rw [hcopy, HttpState.notifying]
    split <;> simp [hgone.unset]
  · simp [hgone.idle t] at hcall

/-- Taken back while nobody holds a copy, the callback is gone from then on. -/
theorem callbackGone_of_reachable (hh : httpSystem.ReachableVia clearsAlone h)
    (hunset : h.stop.unset = true) : CallbackGone h := by
  refine hh.invariant (I := fun h => h.stop.unset = true → CallbackGone h) ?init ?step hunset
  case init =>
    rintro _ ⟨n, rfl⟩ hunset
    cases hunset
  case step =>
    intro h l h' hgone hg hs hunset
    change h.step l = some h' at hs
    cases l with
    | stop =>
        obtain ⟨hcallbacks, ⟨hpc, hcleared⟩ | ⟨hsame, -⟩⟩ := stop_callback hs
        · exact ⟨hcleared, fun t => hcallbacks ▸ hg hpc t⟩
        · exact (hgone (hsame.symm.trans hunset)).step hs
    | core _ | request _ | handle _ | onCompletion _ =>
        exact (hgone ((beside_stop (by simp) hs).1 ▸ hunset)).step hs

/-- **After the stop.** `Stop` has returned. If no dispatching thread held a copy of the callback
when `Stop` took it back, no `OnCompletion` runs or begins any more. In any other run it depends
on those threads alone: none runs or begins if and only if each of them has come back by now. -/
theorem no_callback_after_stop (hstop : h.stop = .stopped) :
    (httpSystem.ReachableVia clearsAlone h →
      ∀ h' t, httpSystem.RunVia Lts.anyStep h h' → h'.step (.onCompletion t) = none) ∧
      (httpSystem.Reachable h →
        ((∀ h' t, httpSystem.RunVia Lts.anyStep h h' → h'.step (.onCompletion t) = none) ↔
          ∀ t, h.callbacks t = none)) := by
  have hnever : CallbackGone h → ∀ h' t, httpSystem.RunVia Lts.anyStep h h' →
      h'.step (.onCompletion t) = none := by
    intro hgone h' t hrun
    have hgone' := hrun.invariant (fun _ _ _ hgone _ hs => hgone.step hs) hgone
    simp [HttpState.step, hgone'.idle t]
  refine ⟨fun hh => hnever (callbackGone_of_reachable hh (by rw [hstop]; rfl)), ?_⟩
  intro hh
  refine ⟨fun hnone t => ?_, fun hidle => hnever ⟨?_, hidle⟩⟩
  · simpa [HttpState.step] using hnone h t (Lts.RunVia.refl h)
  · refine hh.invariant (I := fun h => h.stop.unset = true → h.callbackSet = false) ?init ?step
      (by rw [hstop]; rfl)
    case init =>
      rintro _ ⟨n, rfl⟩ hunset
      cases hunset
    case step => exact fun _ _ _ hset _ hs => unset_step hset hs

/-- An asynchronous authentication. -/
def asyncRequest : HttpRequest := { authRequest with wait := false }

/-- A flow whose completion is about to be reported. -/
def aboutToComplete : List HttpLabel :=
  [.request asyncRequest, .handle 0, .handle 0] ++ dispatchSteps 7 ++ dispatchSteps 6 ++
    dispatchSteps 6 ++ dispatchSteps 6 ++
    [.core (.env (.timerWake 0)), .core (.env (.timerPost 0))] ++ dispatchSteps 6

/-- Only thread 0 dispatches, and `Stop` goes on while it is outside the callback. -/
def stopsBetween (h : HttpState) : HttpLabel → Bool
  | .stop => h.callbacks 0 = none
  | .core (.advance t) | .onCompletion t => t = 0
  | .core _ | .request _ | .handle _ => true

/-- The worker is about to copy the callback when `Stop` runs from its beginning to its end; then
it copies an empty function. -/
theorem no_callback_after_stop_late : ∃ h h' : HttpState,
    httpSystem.exec stopsBetween { core := .resting .boot [], nextSessionId := 1 }
        (aboutToComplete ++ List.replicate 6 .stop) = some h ∧ h.stop = .stopped ∧
      (h.core.threads 0).map DispatchThread.pc = some (.notify 3 0 1 .success) ∧
      h.step (.core (.advance 0)) = some h' ∧
      (∀ h' t, httpSystem.RunVia Lts.anyStep h h' → h'.step (.onCompletion t) = none) ∧
      ∀ t, h.callbacks t = none := by
  obtain ⟨h, h', hh, hstop, hthread, hs⟩ : ∃ h h' : HttpState,
      httpSystem.exec stopsBetween { core := .resting .boot [], nextSessionId := 1 }
          (aboutToComplete ++ List.replicate 6 .stop) = some h ∧
        h.stop = .stopped ∧
        (h.core.threads 0).map DispatchThread.pc = some (.notify 3 0 1 .success) ∧
        h.step (.core (.advance 0)) = some h' := ⟨_, _, rfl, rfl, rfl, rfl⟩
  have hothers : ∀ h l h', (∀ t, t ≠ 0 → h.callbacks t = none) → stopsBetween h l = true →
      httpSystem.step h l = some h' →
        (∀ t, t ≠ 0 → h'.callbacks t = none) ∧ clearsAlone h l := by
    intro h l h' hothers hl hs
    constructor
    · intro t ht
      rcases callbacks_step hs t with hsame | ⟨rfl, -⟩ | ⟨-, rfl, -⟩
      · exact hsame.trans (hothers t ht)
      · exact absurd (of_decide_eq_true hl) ht
      · exact absurd (of_decide_eq_true hl) ht
    · cases l with
      | stop =>
          intro _ t
          by_cases ht : t = 0
          · exact ht ▸ of_decide_eq_true hl
          · exact hothers t ht
      | core | request | handle | onCompletion => trivial
  have hr : httpSystem.ReachableVia clearsAlone h :=
    ⟨_, ⟨1, rfl⟩, Lts.runVia_of_exec_of_invariant (I := fun h => ∀ t, t ≠ 0 → h.callbacks t = none)
      hothers (fun _ _ => rfl) hh⟩
  obtain ⟨halone, hexact⟩ := no_callback_after_stop hstop
  exact ⟨h, h', hh, hstop, hthread, hs, halone hr, (hexact hr.reachable).mp (halone hr)⟩

/-- **A callback into a stopped server.** A dispatching thread has copied the callback. `Stop`
runs from its beginning to its end, and the thread calls `OnCompletion`. -/
theorem callback_after_stop : ∃ h h' : HttpState, httpSystem.Reachable h ∧ h.stop = .stopped ∧
    h.callbackSet = false ∧ h.step (.onCompletion 0) = some h' := by
  obtain ⟨h, h', hh, hstop, hunset, hs⟩ : ∃ h h' : HttpState,
      httpSystem.exec (fun _ _ => true) { core := .resting .boot [], nextSessionId := 1 }
          (aboutToComplete ++ .core (.advance 0) :: List.replicate 6 .stop) = some h ∧
        h.stop = .stopped ∧ h.callbackSet = false ∧ h.step (.onCompletion 0) = some h' :=
    ⟨_, _, rfl, rfl, rfl, rfl⟩
  exact ⟨h, h', ⟨_, ⟨1, rfl⟩, Lts.runVia_of_exec (fun _ _ _ => trivial) hh⟩, hstop, hunset, hs⟩

/-! ## The waiters -/

/-- No request registers a waiter once `NotifyAllWaitersAsStopped` has cleared the map. -/
def registersInTime (h : HttpState) : HttpLabel → Prop
  | .handle r => h.stop.cleared = true →
      ∀ msg, h.requests[r]?.map HttpThread.pc ≠ some (.registerWaiter msg)
  | _ => True

/-- As the waiter system sees it, all registrations come before the only clear. -/
theorem since_eq_zero {w : WaitState (Option ℕ)} {q : WaitThread}
    (hw : (waitSystem (Option ℕ)).ReachableVia
      (fun w l => ∀ r key, l = .registerWaiter r key → w.clears = 0) w)
    (hq : w.requests r = some q) : q.since = 0 := by
  refine hw.invariant (I := fun w => ∀ r q, w.requests r = some q → q.since = 0) ?init ?step r q hq
  case init =>
    rintro _ rfl r q hq
    cases hq
  case step =>
    intro w l w' hzero hg hs r q hq
    change w.step l = some w' at hs
    cases hold : w.requests r with
    | some q₀ =>
        obtain ⟨pc, hq', -⟩ := request_step hold hs
        obtain rfl := Option.some.inj (hq'.symm.trans hq)
        exact hzero r q₀ hold
    | none =>
        cases WaitState.step_cases hs with
        | @registered x key hnone =>
            by_cases hx : r = x
            · subst hx
              obtain rfl : (⟨key, .syncSendMsg, w.clears⟩ : WaitThread) = q := by
                simpa [WaitState.registerWaiter] using hq
              exact hg r key rfl
            · simp [WaitState.registerWaiter, Function.update_of_ne hx, hold] at hq
        | @request x q₀ _ _ hq₀ hstep =>
            obtain ⟨-, -, pc, hreq, -⟩ := hstep.frame
            have hx : r ≠ x := by
              rintro rfl
              simp [hold] at hq₀
            simp [hreq, Function.update_of_ne hx, hold] at hq
        | collected | cleared | delivered | ended => exact absurd (hold.symm.trans hq) nofun

/-- Such a registration comes before the clear. -/
theorem clears_of_registersInTime {w : WaitState (Option ℕ)} {wl : WaitLabel (Option ℕ)}
    (hwatches : Watches h w) (hg : registersInTime h l) (hl : h.waitLabel l = some wl) (x : ℕ)
    (key : WaitKey) (hwl : wl = .registerWaiter x key) : w.clears = 0 := by
  subst hwl
  cases l with
  | core | request => cases hl
  | handle r =>
      have hnone : h.stop.cleared = false := by
        by_contra hcleared
        have hlate := hg (by simpa using hcleared)
        simp only [HttpState.waitLabel] at hl
        split at hl
        case h_1 msg hpc => exact hlate msg hpc
        all_goals cases hl
      rw [hwatches.clears, hnone]
      rfl
  | onCompletion t =>
      simp only [HttpState.waitLabel] at hl
      split at hl <;> cases hl
  | stop =>
      simp only [HttpState.waitLabel] at hl
      split at hl <;> cases hl

/-- **No waiter is left behind.** If every request that is to wait registers before
`NotifyAllWaitersAsStopped` clears the map, then once it has returned every request that waits,
or is about to, finds its entry completed. -/
theorem stop_completes_waiters (hh : httpSystem.ReachableVia registersInTime h)
    (hstop : h.stop = .stopIoc ∨ h.stop = .join ∨ h.stop = .stopped) {th : HttpThread} {msg : CMsg}
    (hth : h.requests[r]? = some th) (hwait : th.pc = .syncSendMsg msg ∨ th.pc = .waitFor msg) :
    (h.entries r).completed = true := by
  obtain ⟨w, hw, hwatches⟩ := (watches_simulation fun _ _ _ _ hwatches hg hl =>
    clears_of_registersInTime hwatches hg hl).reachable hh
  obtain ⟨pc, hmsg, hpc, hreg⟩ : ∃ pc, th.pc.msg = some msg ∧ th.pc.wait = some pc ∧
      pc.registered = true := by
    rcases hwait with hwait | hwait
    · exact ⟨.syncSendMsg, by rw [hwait]; rfl, by rw [hwait]; rfl, rfl⟩
    · exact ⟨.waitFor, by rw [hwait]; rfl, by rw [hwait]; rfl, rfl⟩
  obtain ⟨since, hq⟩ := (hth ▸ hwatches.requests r).of_wait msg pc hmsg hpc
  have hclears : w.clears = 1 := by
    rw [hwatches.clears]
    rcases hstop with hstop | hstop | hstop <;> rw [hstop] <;> rfl
  have hsince : since < w.clears := by
    have hzero : since = 0 := since_eq_zero hw hq
    omega
  rw [← hwatches.entries]
  refine ((deliveryInv_of_reachable hw).cleared r _ hq hreg hsince).resolve_right ?_
  rintro ⟨t, c, hc, hevent, hp⟩
  cases t with
  | none =>
      rw [hwatches.stop] at hc
      rcases hstop with hstop | hstop | hstop <;> rw [hstop] at hc <;> cases hc
  | some t =>
      rw [hwatches.callbacks] at hc
      obtain ⟨call, -, hcall⟩ := Option.bind_eq_some_iff.mp hc
      cases call with
      | collect => cases hcall
      | notify =>
          obtain rfl := Option.some.inj hcall
          cases hevent

/-- No request takes a step once the map is cleared. -/
def HttpState.handlesBefore (h : HttpState) : HttpLabel → Bool
  | .handle _ => !h.stop.cleared
  | _ => true

theorem stop_completes_waiters_one : ∃ h : HttpState,
    httpSystem.exec HttpState.handlesBefore { core := .resting .boot [], nextSessionId := 1 }
        ([.request authRequest] ++ List.replicate 3 (.handle 0) ++ List.replicate 5 .stop) =
      some h ∧ h.stop = .stopIoc ∧ (h.entries 0).completed = true := by
  obtain ⟨h, hh, hstop, th, hth, hpc⟩ : ∃ h : HttpState,
      httpSystem.exec HttpState.handlesBefore { core := .resting .boot [], nextSessionId := 1 }
          ([.request authRequest] ++ List.replicate 3 (.handle 0) ++ List.replicate 5 .stop) =
        some h ∧ h.stop = .stopIoc ∧
        ∃ th, h.requests[0]? = some th ∧ th.pc = .waitFor (authRequest.msg 1) :=
    ⟨_, rfl, rfl, _, rfl, rfl⟩
  have hrun : httpSystem.RunVia registersInTime
      { core := .resting .boot [], nextSessionId := 1 } h := by
    refine Lts.runVia_of_exec (fun h l hg => ?_) hh
    cases l with
    | handle r => exact fun hcleared => by simp [HttpState.handlesBefore, hcleared] at hg
    | core | request | onCompletion | stop => trivial
  exact ⟨h, hh, hstop, stop_completes_waiters ⟨_, ⟨1, rfl⟩, hrun⟩ (.inl hstop) hth (.inr hpc)⟩

/-- **A waiter left behind.** A request registers its waiter after `Stop` has cleared the map.
`Stop` waits for its thread, which waits for a completion; the callback is taken back, and no
dispatching thread holds a copy of it. -/
theorem waiter_left_behind : ∃ h : HttpState, httpSystem.Reachable h ∧ h.stop = .join ∧
    h.step .stop = none ∧ (h.requests[0]?.map HttpThread.pc) = some (.waitFor (authRequest.msg 1)) ∧
    (h.entries 0).completed = false ∧ CallbackGone h := by
  obtain ⟨h, hh, hstop, hjoin, hpc, hentry, hunset, hidle⟩ : ∃ h : HttpState,
      httpSystem.exec (fun _ _ => true) { core := .resting .boot [], nextSessionId := 1 }
          ([.request authRequest, .handle 0] ++ List.replicate 5 .stop ++
            [.handle 0, .handle 0]) = some h ∧
        h.stop = .join ∧ h.step .stop = none ∧
        (h.requests[0]?.map HttpThread.pc) = some (.waitFor (authRequest.msg 1)) ∧
        (h.entries 0).completed = false ∧ h.callbackSet = false ∧ ∀ t, h.callbacks t = none :=
    ⟨_, rfl, rfl, rfl, rfl, rfl, rfl, fun _ => rfl⟩
  exact ⟨h, ⟨_, ⟨1, rfl⟩, Lts.runVia_of_exec (fun _ _ _ => trivial) hh⟩, hstop, hjoin, hpc, hentry,
    hunset, hidle⟩

end FsmFramework
