import FsmFramework.WaitOutcomes

/-!
# The server's waiters are a waiter system

The threads that handle requests, the callback of the dispatching threads and
`HttpServer::Stop` take the steps of `waitSystem`, with one caller for each dispatching thread
and one for `Stop`; whatever else they do, and the manager does, waiters do not see. So what
holds of waiters among any users holds of them here.

## Main results

* `HttpState.watches_step` — the simulation, step by step.
* `watched` — what the server reaches, seen as a state of `waitSystem`.
-/

namespace FsmFramework

/-! ## The relation -/

/-- Where a request stands, if it has registered and is not answered. -/
def HttpPc.wait : HttpPc → Option WaitPc
  | .syncSendMsg _ => some .syncSendMsg
  | .waitFor _ => some .waitFor
  | .unregisterWaiter _ outcome => some (.unregisterWaiter outcome)
  | .returning _ outcome => some (.returning outcome)
  | .generateSessionId | .sendMsg _ | .registerWaiter _ | .answered .. => none

/-- A dispatching thread that notifies waiters. -/
def CallbackPc.call : CallbackPc → Option NotifyCall
  | .collect .. => none
  | .notify _ event entriesToNotify next => some ⟨some event, entriesToNotify, next⟩

/-- `Stop` while it notifies waiters. -/
def StopPc.call : StopPc → Option NotifyCall
  | .notify entriesToNotify next => some ⟨none, entriesToNotify, next⟩
  | _ => none

/-- `NotifyAllWaitersAsStopped` has cleared the map. -/
def StopPc.cleared : StopPc → Bool
  | .running | .setCompletionCallback | .collect => false
  | .notify .. | .stopIoc | .join | .stopped => true

/-- A request as the server and as the waiter system see it. -/
inductive RequestSeen : Option HttpThread → Option WaitThread → Prop
  | absent : RequestSeen none none
  | unregistered {th : HttpThread} (hpc : th.pc.early = true ∨ ∃ msg response,
      th.pc = .answered msg response) : RequestSeen (some th) none
  | waiting {th : HttpThread} {msg : CMsg} {pc : WaitPc} {since : ℕ} (hmsg : th.pc.msg = some msg)
      (hpc : th.pc.wait = some pc) : RequestSeen (some th) (some ⟨msg.waitKey, pc, since⟩)
  | answered {th : HttpThread} {msg : CMsg} {outcome : WaitOutcome} {since : ℕ}
      (hpc : th.pc = .answered msg (syncResponse th.request outcome)) :
      RequestSeen (some th) (some ⟨msg.waitKey, .answered outcome, since⟩)

/-- The server as a waiter system; thread `none` is the one that runs `Stop`. -/
structure Watches (h : HttpState) (w : WaitState (Option ℕ)) : Prop where
  waiters : w.waiters = h.waiters
  entries : w.entries = h.entries
  requests : ∀ r, RequestSeen h.requests[r]? (w.requests r)
  callbacks : ∀ t, w.calls (some t) = (h.callbacks t).bind CallbackPc.call
  stop : w.calls none = h.stop.call
  clears : w.clears = if h.stop.cleared then 1 else 0

/-- What a step of the server is to its waiters. -/
def HttpState.waitLabel (h : HttpState) : HttpLabel → Option (WaitLabel (Option ℕ))
  | .core _ | .request _ => none
  | .handle r =>
      match h.requests[r]?.map HttpThread.pc with
      | some (.registerWaiter msg) => some (.registerWaiter r msg.waitKey)
      | some (.syncSendMsg msg) => some (.sendMsg r (h.sendMsg r msg).1)
      | some (.waitFor _) => some (.wake r)
      | some (.unregisterWaiter ..) => some (.unregisterWaiter r)
      | some (.returning ..) => some (.drop r)
      | _ => none
  | .onCompletion t =>
      match h.callbacks t with
      | some (.collect _ event) => some (.onCompletion (some t) event)
      | some (.notify ..) => some (.deliver (some t))
      | none => none
  | .stop =>
      match h.stop with
      | .collect => some (.notifyAll none)
      | .notify .. => some (.deliver none)
      | _ => none

/-- Take the step that the server's step is, if it is one. -/
def WaitState.StepsTo (w : WaitState (Option ℕ)) :
    Option (WaitLabel (Option ℕ)) → WaitState (Option ℕ) → Prop
  | none, w' => w' = w
  | some l, w' => w.step l = some w'

/-! ## The steps of a request -/

variable {h h' k : HttpState} {w w' : WaitState (Option ℕ)} {r : ℕ} {th th' : HttpThread}

/-- One request moves on both sides. -/
theorem requestSeen_update {requests : List HttpThread} {seen : ℕ → Option WaitThread}
    {q : Option WaitThread} (hall : ∀ x, RequestSeen requests[x]? (seen x))
    (hth : requests[r]? = some th) (hnew : RequestSeen (some th') q) (x : ℕ) :
    RequestSeen (requests.set r th')[x]? (Function.update seen r q x) := by
  by_cases hx : x = r
  · subst hx
    have hlt : x < requests.length := (List.getElem?_eq_some_iff.mp hth).1
    rw [List.getElem?_set_self hlt, Function.update_self]
    exact hnew
  · rw [List.getElem?_set_ne (Ne.symm hx), Function.update_of_ne hx]
    exact hall x

/-- A request that waits, as the waiter system sees it. -/
theorem RequestSeen.of_wait {q : Option WaitThread} (hseen : RequestSeen (some th) q)
    (msg : CMsg) (pc : WaitPc) (hmsg : th.pc.msg = some msg) (hpc : th.pc.wait = some pc) :
    ∃ since, q = some ⟨msg.waitKey, pc, since⟩ := by
  cases hseen with
  | unregistered hother =>
      rcases hother with hearly | ⟨msg, response, hanswered⟩
      · cases hth : th.pc <;> simp_all [HttpPc.early, HttpPc.wait]
      · simp [hanswered, HttpPc.wait] at hpc
  | waiting hmsg' hpc' =>
      obtain rfl := Option.some.inj (hmsg.symm.trans hmsg')
      obtain rfl := Option.some.inj (hpc.symm.trans hpc')
      exact ⟨_, rfl⟩
  | answered hanswered => simp [hanswered, HttpPc.wait] at hpc

/-- A request that has not registered is not seen. -/
theorem RequestSeen.of_early {q : Option WaitThread} (hseen : RequestSeen (some th) q)
    (hearly : th.pc.early = true) : q = none := by
  cases hseen with
  | unregistered => rfl
  | waiting hmsg hpc => cases hth : th.pc <;> simp_all [HttpPc.early, HttpPc.wait]
  | answered hpc => simp [hpc, HttpPc.early] at hearly

namespace HttpState

/-- A step before `RegisterWaiter`, or of an asynchronous request. -/
theorem watches_unseen (hw : Watches h w) (hth : h.requests[r]? = some th)
    (hearly : th.pc.early = true)
    (hnew : th'.pc.early = true ∨ ∃ msg response, th'.pc = .answered msg response)
    (hframe : k.waiters = h.waiters ∧ k.entries = h.entries ∧ k.callbacks = h.callbacks ∧
      k.stop = h.stop) :
    Watches { k with requests := h.requests.set r th' } w := by
  obtain ⟨hwaiters, hentries, hcallbacks, hstop⟩ := hframe
  have hnone : w.requests r = none := (hth ▸ hw.requests r).of_early hearly
  refine ⟨hw.waiters.trans hwaiters.symm, hw.entries.trans hentries.symm, ?_,
    fun t => (hw.callbacks t).trans (by rw [hcallbacks]), hw.stop.trans (by rw [hstop]),
    hw.clears.trans (by rw [hstop])⟩
  have hseen : RequestSeen (some th') (w.requests r) := hnone ▸ .unregistered hnew
  have hall := requestSeen_update hw.requests hth hseen
  rwa [Function.update_eq_self] at hall

/-- A step of a registered request. -/
theorem watches_moved {pc : WaitPc} {key : WaitKey} {since : ℕ} {waiters : Waiters}
    {entries : WaitEntries} (hw : Watches h w) (hth : h.requests[r]? = some th)
    (hnew : RequestSeen (some th') (some ⟨key, pc, since⟩))
    (hframe : k.callbacks = h.callbacks ∧ k.stop = h.stop) (hwaiters : waiters = k.waiters)
    (hentries : entries = k.entries) :
    Watches { k with requests := h.requests.set r th' }
      { w with
        requests := Function.update w.requests r (some ⟨key, pc, since⟩),
        waiters := waiters, entries := entries } := by
  obtain ⟨hcallbacks, hstop⟩ := hframe
  exact ⟨hwaiters, hentries, requestSeen_update hw.requests hth hnew,
    fun t => (hw.callbacks t).trans (by rw [hcallbacks]), hw.stop.trans (by rw [hstop]),
    hw.clears.trans (by rw [hstop])⟩

theorem watches_handle (hw : Watches h w) (hth : h.requests[r]? = some th)
    (hd : Handled h r th th' k) : ∃ w', w.StepsTo (h.waitLabel (.handle r)) w' ∧
      Watches { k with requests := h.requests.set r th' } w' := by
  cases hd with
  | retried hpc =>
      refine ⟨w, by simp [waitLabel, hth, hpc, WaitState.StepsTo], ?_⟩
      have hearly : th.pc.early = true := by rw [hpc]; rfl
      exact watches_unseen hw hth hearly (.inl hearly) ⟨rfl, rfl, rfl, rfl⟩
  | @generated pc hpc hz hnext =>
      refine ⟨w, by simp [waitLabel, hth, hpc, WaitState.StepsTo], ?_⟩
      have hearly : th.pc.early = true := by rw [hpc]; rfl
      refine watches_unseen hw hth hearly (.inl ?_) ⟨rfl, rfl, rfl, rfl⟩
      show pc.early = true
      rw [hnext]
      split <;> rfl
  | sent hpc =>
      refine ⟨w, by simp [waitLabel, hth, hpc, WaitState.StepsTo], ?_⟩
      have hearly : th.pc.early = true := by rw [hpc]; rfl
      exact watches_unseen hw hth hearly (.inr ⟨_, _, rfl⟩) ⟨rfl, rfl, rfl, rfl⟩
  | @registered msg hpc =>
      have hnone : w.requests r = none := (hth ▸ hw.requests r).of_early (by rw [hpc]; rfl)
      refine ⟨w.registerWaiter r msg.waitKey, ?_, ?_⟩
      · simp [waitLabel, hth, hpc, WaitState.StepsTo, WaitState.step, hnone]
      · refine watches_moved hw hth (.waiting rfl rfl) ⟨rfl, rfl⟩ ?_ ?_
        · rw [hw.waiters]
        · rw [hw.entries]
  | @refused msg hpc hsend =>
      obtain ⟨since, hq⟩ := (hth ▸ hw.requests r).of_wait msg .syncSendMsg
        (by rw [hpc]; rfl) (by rw [hpc]; rfl)
      refine ⟨w.goto r ⟨msg.waitKey, .syncSendMsg, since⟩
        (.unregisterWaiter (.refused (h.sendMsg r msg).1)), ?_, ?_⟩
      · simp [waitLabel, hth, hpc, WaitState.StepsTo, WaitState.step, hq, hsend]
      · exact watches_moved hw hth (.waiting rfl rfl) ⟨rfl, rfl⟩ hw.waiters hw.entries
  | @syncSent msg hpc hsend =>
      obtain ⟨since, hq⟩ := (hth ▸ hw.requests r).of_wait msg .syncSendMsg
        (by rw [hpc]; rfl) (by rw [hpc]; rfl)
      refine ⟨w.goto r ⟨msg.waitKey, .syncSendMsg, since⟩ .waitFor, ?_, ?_⟩
      · simp [waitLabel, hth, hpc, WaitState.StepsTo, WaitState.step, hq, hsend]
      · exact watches_moved hw hth (.waiting rfl rfl) ⟨rfl, rfl⟩ hw.waiters hw.entries
  | @waited msg hpc =>
      obtain ⟨since, hq⟩ := (hth ▸ hw.requests r).of_wait msg .waitFor
        (by rw [hpc]; rfl) (by rw [hpc]; rfl)
      refine ⟨w.goto r ⟨msg.waitKey, .waitFor, since⟩
        (.unregisterWaiter (.waited (h.entries r).completed (h.entries r).event)), ?_, ?_⟩
      · simp [waitLabel, hth, hpc, WaitState.StepsTo, WaitState.step, hq, hw.entries]
      · exact watches_moved hw hth (.waiting rfl rfl) ⟨rfl, rfl⟩ hw.waiters hw.entries
  | @unregistered msg outcome hpc =>
      obtain ⟨since, hq⟩ := (hth ▸ hw.requests r).of_wait msg
        (.unregisterWaiter outcome) (by rw [hpc]; rfl) (by rw [hpc]; rfl)
      refine ⟨w.unregisterWaiter r ⟨msg.waitKey, .unregisterWaiter outcome, since⟩ outcome, ?_, ?_⟩
      · simp [waitLabel, hth, hpc, WaitState.StepsTo, WaitState.step, hq]
      · refine watches_moved hw hth (.waiting rfl rfl) ⟨rfl, rfl⟩ ?_ hw.entries
        rw [hw.waiters, hw.entries]
  | @answered msg outcome hpc =>
      obtain ⟨since, hq⟩ := (hth ▸ hw.requests r).of_wait msg (.returning outcome)
        (by rw [hpc]; rfl) (by rw [hpc]; rfl)
      refine ⟨w.drop r ⟨msg.waitKey, .returning outcome, since⟩ outcome, ?_, ?_⟩
      · simp [waitLabel, hth, hpc, WaitState.StepsTo, WaitState.step, hq]
      · refine watches_moved hw hth (.answered rfl) ⟨rfl, rfl⟩ hw.waiters ?_
        rw [hw.entries]

/-- A dispatching thread goes on with its call. -/
theorem watches_callback {t : ℕ} {o : Option CallbackPc} {c : Option NotifyCall}
    (hw : Watches h w) (hwaiters : w'.waiters = h'.waiters) (hentries : w'.entries = h'.entries)
    (hcalls : w'.calls = Function.update w.calls (some t) c)
    (hcallbacks : h'.callbacks = Function.update h.callbacks t o)
    (hc : c = o.bind CallbackPc.call)
    (hframe : w'.requests = w.requests ∧ h'.requests = h.requests ∧ w'.clears = w.clears ∧
      h'.stop = h.stop) : Watches h' w' := by
  obtain ⟨hrw, hrh, hclears, hstop⟩ := hframe
  refine ⟨hwaiters, hentries, fun r => by rw [hrw, hrh]; exact hw.requests r, fun i => ?_, ?_,
    by rw [hclears, hstop, hw.clears]⟩
  · rw [hcalls, hcallbacks]
    by_cases hi : i = t
    · subst hi
      rw [Function.update_self, Function.update_self, hc]
    · rw [Function.update_of_ne hi, Function.update_of_ne (by simpa using hi)]
      exact hw.callbacks i
  · rw [hcalls, hstop, Function.update_of_ne (by simp)]
    exact hw.stop

/-- `Stop` goes on. -/
theorem watches_stopPc {c : Option NotifyCall} (hw : Watches h w)
    (hwaiters : w'.waiters = h'.waiters) (hentries : w'.entries = h'.entries)
    (hcalls : w'.calls = Function.update w.calls none c) (hc : c = h'.stop.call)
    (hclears : w'.clears = if h'.stop.cleared then 1 else 0)
    (hframe : w'.requests = w.requests ∧ h'.requests = h.requests ∧
      h'.callbacks = h.callbacks) : Watches h' w' := by
  obtain ⟨hrw, hrh, hcallbacks⟩ := hframe
  refine ⟨hwaiters, hentries, fun r => by rw [hrw, hrh]; exact hw.requests r, fun i => ?_, ?_,
    hclears⟩
  · rw [hcalls, hcallbacks, Function.update_of_ne (by simp)]
    exact hw.callbacks i
  · rw [hcalls, Function.update_self, hc]

theorem watches_onCompletion {t : ℕ} {call : CallbackPc} (hw : Watches h w)
    (hcall : h.callbacks t = some call) :
    ∃ w', w.StepsTo (h.waitLabel (.onCompletion t)) w' ∧
      Watches (h.stepOnCompletion t call) w' := by
  have hc := hw.callbacks t
  rw [hcall] at hc
  cases call with
  | collect inst event =>
      refine ⟨w.onCompletion (some t) event, ?_, ?_⟩
      · simp [waitLabel, hcall, WaitState.StepsTo, WaitState.step, hc, CallbackPc.call]
      · have hsame : w.waiters.toNotify w.entries.alive event.waitKey =
            h.waiters.toNotify h.entries.alive event.waitKey := by rw [hw.waiters, hw.entries]
        refine watches_callback hw hw.waiters ?_ rfl rfl ?_ ⟨rfl, rfl, rfl, rfl⟩
        · exact congrArg₂ WaitEntries.hold hw.entries hsame
        · rw [hsame]
          rfl
  | notify inst event entriesToNotify next =>
      have hc : w.calls (some t) = some ⟨some event, entriesToNotify, next⟩ := hc
      cases hx : entriesToNotify[next]? with
      | some x =>
          refine ⟨w.deliver (some t) ⟨some event, entriesToNotify, next⟩ x, ?_, ?_⟩
          · simp [waitLabel, hcall, WaitState.StepsTo, WaitState.step, hc, hx]
          · rw [stepOnCompletion, hx]
            exact watches_callback hw hw.waiters
              (congrArg (WaitEntries.complete · x event) hw.entries) rfl rfl rfl
              ⟨rfl, rfl, rfl, rfl⟩
      | none =>
          refine ⟨w.finish (some t) ⟨some event, entriesToNotify, next⟩, ?_, ?_⟩
          · simp [waitLabel, hcall, WaitState.StepsTo, WaitState.step, hc, hx]
          · rw [stepOnCompletion, hx]
            exact watches_callback hw hw.waiters
              (congrArg (WaitEntries.release · entriesToNotify) hw.entries) rfl rfl rfl
              ⟨rfl, rfl, rfl, rfl⟩

theorem watches_stop (hw : Watches h w) (hs : h.stepStop = some h') :
    ∃ w', w.StepsTo (h.waitLabel .stop) w' ∧ Watches h' w' := by
  have hstop := hw.stop
  have hclears := hw.clears
  rw [stepStop] at hs
  cases hpc : h.stop with
  | collect =>
      rw [hpc] at hs hstop hclears
      obtain rfl := Option.some.inj hs
      refine ⟨w.notifyAll none, ?_, ?_⟩
      · simp [waitLabel, hpc, WaitState.StepsTo, WaitState.step, hstop, StopPc.call]
      · have hsame : w.waiters.allToNotify w.entries.alive =
            h.waiters.allToNotify h.entries.alive := by rw [hw.waiters, hw.entries]
        refine watches_stopPc hw rfl ?_ rfl ?_ (congrArg (· + 1) hclears) ⟨rfl, rfl, rfl⟩
        · exact congrArg₂ WaitEntries.hold hw.entries hsame
        · rw [hsame]
          rfl
  | notify entriesToNotify next =>
      rw [hpc] at hs hstop hclears
      dsimp only at hs
      have hc : w.calls none = some ⟨none, entriesToNotify, next⟩ := hstop
      cases hx : entriesToNotify[next]? with
      | some x =>
          rw [hx] at hs
          obtain rfl := Option.some.inj hs
          refine ⟨w.deliver none ⟨none, entriesToNotify, next⟩ x, ?_, ?_⟩
          · simp [waitLabel, hpc, WaitState.StepsTo, WaitState.step, hc, hx]
          · refine watches_stopPc hw hw.waiters ?_ rfl rfl hclears ⟨rfl, rfl, rfl⟩
            show w.entries.complete x { (w.entries x).event with result := .invalidState } = _
            rw [hw.entries]
      | none =>
          rw [hx] at hs
          obtain rfl := Option.some.inj hs
          refine ⟨w.finish none ⟨none, entriesToNotify, next⟩, ?_, ?_⟩
          · simp [waitLabel, hpc, WaitState.StepsTo, WaitState.step, hc, hx]
          · exact watches_stopPc hw hw.waiters
              (congrArg (WaitEntries.release · entriesToNotify) hw.entries) rfl rfl hclears
              ⟨rfl, rfl, rfl⟩
  | running | setCompletionCallback | stopIoc =>
      rw [hpc] at hs hstop hclears
      obtain rfl := Option.some.inj hs
      exact ⟨w, by simp [waitLabel, hpc, WaitState.StepsTo],
        ⟨hw.waiters, hw.entries, hw.requests, hw.callbacks, hstop, hclears⟩⟩
  | join =>
      rw [hpc] at hs hstop hclears
      dsimp only at hs
      split at hs
      · obtain rfl := Option.some.inj hs
        exact ⟨w, by simp [waitLabel, hpc, WaitState.StepsTo],
          ⟨hw.waiters, hw.entries, hw.requests, hw.callbacks, hstop, hclears⟩⟩
      · contradiction
  | stopped => simp [hpc] at hs

/-- A thread that is about to copy the callback notifies nobody yet. -/
theorem notifying_call {t : ℕ} : (h.notifying t).bind CallbackPc.call = none := by
  cases hn : h.notifying t with
  | none => rfl
  | some call =>
      obtain ⟨pm, facId, inst, fsmId, ret, -, rfl⟩ := notifying_eq_some hn
      rfl

/-- Every step of the server is a step of its waiters, or they do not see it. -/
theorem watches_step {l : HttpLabel} (hw : Watches h w) (hs : h.step l = some h') :
    ∃ w', w.StepsTo (h.waitLabel l) w' ∧ Watches h' w' := by
  cases l with
  | core l =>
      obtain ⟨core, callbacks, -, rfl, hcallbacks⟩ := step_core hs
      refine ⟨w, rfl, hw.waiters, hw.entries, hw.requests, fun i => ?_, hw.stop, hw.clears⟩
      rcases hcallbacks with ⟨t, -, hnone, rfl⟩ | ⟨-, rfl⟩
      · refine (hw.callbacks i).trans ?_
        by_cases hi : i = t
        · subst hi
          show (h.callbacks i).bind _ = (Function.update h.callbacks i (h.notifying i) i).bind _
          rw [Function.update_self, hnone]
          exact h.notifying_call.symm
        · exact congrArg (Option.bind · _) (Function.update_of_ne hi ..).symm
      · exact hw.callbacks i
  | request req =>
      obtain rfl := step_request hs
      refine ⟨w, rfl, hw.waiters, hw.entries, fun r => ?_, hw.callbacks, hw.stop, hw.clears⟩
      have hseen := hw.requests r
      rw [List.getElem?_append]
      split
      · exact hseen
      · rename_i hlt
        rw [List.getElem?_eq_none (not_lt.mp hlt)] at hseen
        cases hq : w.requests r with
        | some q => simp [hq] at hseen; cases hseen
        | none =>
            rw [List.getElem?_singleton]
            split
            · exact .unregistered (.inl rfl)
            · exact .absent
  | handle r =>
      obtain ⟨th, th', k, hth, hd, rfl⟩ := step_handle hs
      exact watches_handle hw hth hd
  | onCompletion t =>
      obtain ⟨call, hcall, rfl⟩ := step_onCompletion hs
      exact watches_onCompletion hw hcall
  | stop => exact watches_stop hw hs

end HttpState

/-! ## The simulation -/

/-- A started server has no waiters. -/
theorem watches_init (hinit : httpSystem.init h) : Watches h {} := by
  obtain ⟨n, rfl⟩ := hinit
  exact ⟨rfl, rfl, fun r => .absent, fun t => rfl, rfl, rfl⟩

/-- The server simulates a waiter system whose steps meet what the guard says of them. -/
theorem watches_simulation {G : HttpState → HttpLabel → Prop}
    {H : WaitState (Option ℕ) → WaitLabel (Option ℕ) → Prop}
    (hGH : ∀ h w l wl, Watches h w → G h l → h.waitLabel l = some wl → H w wl) :
    Lts.Simulation httpSystem G (waitSystem (Option ℕ)) H Watches where
  init h hinit := ⟨{}, rfl, watches_init hinit⟩
  step h l h' w _ _ hw hg hs := by
    obtain ⟨w', hto, hw'⟩ := HttpState.watches_step hw hs
    refine ⟨w', ?_, hw'⟩
    cases hl : h.waitLabel l with
    | none =>
        rw [hl] at hto
        obtain rfl : w' = w := hto
        exact Lts.RunVia.refl w'
    | some wl =>
        rw [hl] at hto
        exact Lts.RunVia.single (hGH h w l wl hw hg hl) hto

/-- What the server reaches, seen as a state of `waitSystem`. -/
theorem watched {G : HttpState → HttpLabel → Prop} (hh : httpSystem.ReachableVia G h) :
    ∃ w, (waitSystem (Option ℕ)).Reachable w ∧ Watches h w :=
  (watches_simulation fun _ _ _ _ _ _ _ => trivial).reachable hh

end FsmFramework
