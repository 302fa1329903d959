import FsmFramework.AuthFlows
import FsmFramework.Reuse
import FsmFramework.Shutdown

/-!
# The completion of a request's own flow

A synchronous request registers its waiter before it posts its message, so the completion of the
instance that this message creates finds the waiter there, if the completion has the key of the
request. It has, as long as no id is used again while its instance is live. Then the wake-up is
not lost: `OnCompletion` completes the entry, unless the request gave up before.

## Main results

* `no_lost_completion` — the completion of a synchronous request's own flow.
-/

namespace FsmFramework

/-- The server and its callback stay, one thread dispatches, and what is posted from outside is
posted by the server. -/
def listening (h : HttpState) : HttpLabel → Prop
  | .core (.env (.sendMsg _ _)) | .stop => False
  | .core l => serial onlyInit h.core l
  | _ => True

/-- Whenever an instance is about to be created, the generator stands at an unused id. -/
def HttpState.unusedIds (h : HttpState) : HttpLabel → Prop
  | .core l => FsmFramework.unusedIds h.core l
  | _ => True

instance (h : HttpState) : DecidablePred h.unusedIds
  | .core l => inferInstanceAs (Decidable (FsmFramework.unusedIds h.core l))
  | .request _ | .handle _ | .onCompletion _ | .stop => isTrue trivial

/-- A listening server, while no id is used again as long as its instance is live. -/
def attentive (h : HttpState) (l : HttpLabel) : Prop := listening h l ∧ h.unusedIds l

variable {h h' k : HttpState} {r t : ℕ} {th th' : HttpThread} {msg : CMsg} {l : HttpLabel}
  {inst : ℕ} {event : FsmCompletionEvent}

/-- A running server and manager are a listening server. -/
theorem listening_of_serving (hg : serving h l) : listening h l := by
  cases l with
  | core l =>
      cases l with
      | env l => cases l <;> first | exact hg.elim | exact trivial
      | _ => exact hg
  | stop => exact hg
  | _ => trivial

theorem listening_core (hr : httpSystem.ReachableVia listening h) :
    (dispatchSystem .boot).ReachableVia (serial onlyInit) h.core := by
  refine HttpState.core_reachable (fun h l hg => ?_) (fun _ _ _ _ _ _ => ⟨rfl, rfl⟩) hr
  cases l with
  | env l => cases l <;> first | exact hg | exact hg.elim
  | _ => exact hg

theorem noReuse_of_attentive (hr : httpSystem.ReachableVia attentive h) :
    NoReuse h.core.events := by
  refine noReuse_of_reachable CfactoryMgr.fresh_boot (fun _ _ hg => hg)
    (HttpState.core_reachable (fun h l hg => ?_) (fun _ _ _ _ _ _ => trivial) hr)
  exact hg.2

/-! ## Sent messages -/

/-- The thread has called `SendMsg`. -/
def HttpPc.sent : HttpPc → Bool
  | .generateSessionId | .sendMsg _ | .registerWaiter _ | .syncSendMsg _ => false
  | _ => true

/-- Request `n` has posted this message. -/
def HttpState.Sent (h : HttpState) (n : ℕ) (msg : CMsg) : Prop :=
  ∃ th, h.requests[n]? = some th ∧ th.pc.msg = some msg ∧ th.pc.sent = true

/-- A thread that has called `SendMsg` has its message for good. -/
theorem Handled.sent_mono (hd : Handled h r th th' k) (hmsg : th.pc.msg = some msg)
    (hsent : th.pc.sent = true) : th'.pc.msg = some msg ∧ th'.pc.sent = true := by
  refine ⟨hd.thread.2.1 msg hmsg, ?_⟩
  cases hd with
  | retried => exact hsent
  | generated hpc | registered hpc => simp [hpc, HttpPc.sent] at hsent
  | _ => rfl

theorem HttpState.Sent.step {n : ℕ} (hsent : h.Sent n msg) (hs : h.step l = some h') :
    h'.Sent n msg := by
  obtain ⟨th, hth, hmsg, hpc⟩ := hsent
  rcases HttpState.step_request_at hs hth with hth' | ⟨x', k, -, hth', hd, -⟩
  · exact ⟨th, hth', hmsg, hpc⟩
  · exact ⟨x', hth', hd.sent_mono hmsg hpc⟩

/-- What a step of a request's thread posts is the message that it has then sent. -/
theorem Handled.posts (hd : Handled h r th th' k) : k.core = h.core ∨
    ∃ msg, th'.pc.msg = some msg ∧ th'.pc.sent = true ∧ k.core = (h.sendMsg r msg).2.core := by
  cases hd with
  | sent | refused | syncSent => exact .inr ⟨_, rfl, rfl, rfl⟩
  | _ => exact .inl rfl

/-- What is posted, a request has sent. -/
theorem posted_step (hr : httpSystem.ReachableVia listening h) (hp : Posted h.Sent h.core)
    (hg : listening h l) (hs : h.step l = some h') : Posted h'.Sent h'.core := by
  have hp' : Posted h'.Sent h.core := hp.mono fun n msg hsent => hsent.step hs
  cases l with
  | core l =>
      obtain ⟨core, callbacks, hcs, rfl, -⟩ := HttpState.step_core hs
      have hrouted := routedInv_of_reachable (listening_core hr)
      refine hp'.step hcs (fun t th ht => (hrouted.threads t th ht).factory) ?_
      rintro n msg rfl
      exact hg.elim
  | request req =>
      obtain rfl := HttpState.step_request hs
      exact hp'
  | handle r =>
      obtain ⟨th, th', k, hth, hd, rfl⟩ := HttpState.step_handle hs
      change Posted _ k.core
      rcases hd.posts with heq | ⟨msg, hmsg, hsent, heq⟩
      · exact heq ▸ hp'
      · rw [heq]
        refine hp'.env (l := .sendMsg r msg) rfl fun pm hpm => ?_
        obtain rfl := List.mem_singleton.mp hpm
        exact ⟨th', List.getElem?_set_self (List.getElem?_eq_some_iff.mp hth).1, hmsg, hsent⟩
  | onCompletion t =>
      obtain ⟨call, -, rfl⟩ := HttpState.step_onCompletion hs
      exact (h.stepOnCompletion_frame t call).1.symm ▸ hp'
  | stop => exact hg.elim

/-! ## Registration comes first -/

/-- A synchronous request does not post before it has registered. -/
def HttpThread.RegistersFirst (th : HttpThread) : Prop :=
  th.request.wait = true →
    (∀ msg, th.pc ≠ .sendMsg msg) ∧ (th.pc.early = false → th.registered ≠ none)

/-- When request `r` registered, nothing was created by its message yet, and what had completed
had been created. -/
structure Before (h : HttpState) (r : ℕ) (since : List Event) : Prop where
  events : since <+: h.core.events
  created : ∀ f i id msg, .created f i id ⟨msg, .client r⟩ ∉ since
  completed : ∀ inst event, .completed inst event ∈ since →
    (inst, event.fsmId) ∈ createdIn event.serviceId since

/-- How the requests of a listening server stand. -/
structure Registrations (h : HttpState) : Prop where
  posted : Posted h.Sent h.core
  first : ∀ (r : ℕ) (th : HttpThread), h.requests[r]? = some th → th.RegistersFirst
  before : ∀ (r : ℕ) (th : HttpThread) (since : List Event), h.requests[r]? = some th →
    th.registered = some since → Before h r since

theorem Handled.registersFirst (hd : Handled h r th th' k) (hfirst : th.RegistersFirst) :
    th'.RegistersFirst := by
  intro hwait
  have hsame : th'.request = th.request := hd.thread.1
  obtain ⟨hne, hreg⟩ := hfirst (hsame ▸ hwait)
  cases hd with
  | retried => exact ⟨hne, hreg⟩
  | generated hpc hz hnext =>
      subst hnext
      have hw : th.request.wait = true := hwait
      simp [hw, HttpPc.early]
  | @sent msg hpc => exact absurd hpc (hne msg)
  | registered => exact ⟨by simp, by simp⟩
  | refused hpc | syncSent hpc | waited hpc | unregistered hpc | answered hpc =>
      exact ⟨by simp, fun _ => hreg (by simp [hpc, HttpPc.early])⟩

/-- The events at the time of a registration. -/
theorem Handled.registered_eq (hd : Handled h r th th' k) {since : List Event}
    (hreg : th'.registered = some since) : th.registered = some since ∨
      (th.pc.sent = false ∧ since = h.core.events) := by
  cases hd with
  | registered hpc => exact .inr ⟨by simp [hpc, HttpPc.sent], (Option.some.inj hreg).symm⟩
  | _ => exact .inl hreg

theorem HttpState.step_events (hs : h.step l = some h') : h.core.events <+: h'.core.events := by
  rcases HttpState.core_step hs with heq | ⟨l', hcs, -⟩
  · exact heq ▸ List.prefix_rfl
  · exact DispatchState.step_events hcs

/-- What the message of a request has created, it was sent for. -/
theorem Posted.sent {f id : UInt32} {i : ℕ} (hp : Posted h.Sent h.core)
    (hc : .created f i id ⟨msg, .client r⟩ ∈ h.core.events) : h.Sent r msg :=
  (hp.created f i id _ hc).1

theorem Registrations.step (hr : httpSystem.ReachableVia listening h) (hinv : Registrations h)
    (hg : listening h l) (hs : h.step l = some h') : Registrations h' where
  posted := posted_step hr hinv.posted hg hs
  first i x hx := by
    rcases HttpState.step_requests hs hx with hx | hnew | ⟨y, k, hy, hd, -⟩
    · exact hinv.first i x hx
    · rw [hnew]
      exact fun _ => ⟨by simp, by simp [HttpPc.early]⟩
    · exact hd.registersFirst (hinv.first i y hy)
  before i x since hx hreg := by
    have hkeep : ∀ y, h.requests[i]? = some y → y.registered = some since →
        Before h' i since := fun y hy hreg =>
      { hinv.before i y since hy hreg with
        events := (hinv.before i y since hy hreg).events.trans (HttpState.step_events hs) }
    rcases HttpState.step_requests hs hx with hx | hnew | ⟨y, k, hy, hd, -⟩
    · exact hkeep x hx hreg
    · rw [hnew] at hreg
      cases hreg
    · rcases hd.registered_eq hreg with hreg | ⟨hsent, rfl⟩
      · exact hkeep y hy hreg
      · refine ⟨HttpState.step_events hs, fun f j id msg hc => ?_, fun inst event hc => ?_⟩
        · obtain ⟨z, hz, -, hzsent⟩ := hinv.posted.sent hc
          obtain rfl := Option.some.inj (hy.symm.trans hz)
          simp [hsent] at hzsent
        · exact (routedInv_of_reachable (listening_core hr)).completed inst event hc

theorem registrations_of_reachable (hr : httpSystem.ReachableVia listening h) :
    Registrations h := by
  refine hr.invariant_reachable (I := Registrations) ?init ?step
  case init =>
    rintro _ ⟨n, rfl⟩
    refine ⟨⟨?_, ?_, ?_⟩, by simp, by simp⟩ <;>
      simp [DispatchState.resting, CfactoryMgr.boot_eq.2, MsgPorts.traffic, MsgPorts.pending,
        TimerManager.outstanding]
  case step => exact fun h l h' hreach hinv hg hs => hinv.step hreach hg hs

/-! ## The completion of a request's own instance -/

/-- The message of request `r` created the instance. -/
def HttpState.CreatedFor (h : HttpState) (r inst : ℕ) (facId : UInt32) : Prop :=
  ∃ msg id, .created facId inst id ⟨msg, .client r⟩ ∈ h.core.events

/-- The event is the completion of an instance that the message of request `r` created. -/
def HttpState.Own (h : HttpState) (r inst : ℕ) (event : FsmCompletionEvent) : Prop :=
  .completed inst event ∈ h.core.events ∧ h.CreatedFor r inst event.serviceId

theorem listening_of_attentive (hr : httpSystem.ReachableVia attentive h) :
    httpSystem.ReachableVia listening h := hr.mono fun _ _ hg => hg.1

/-- It has the key of the request. -/
theorem HttpState.Own.waitKey (hr : httpSystem.ReachableVia attentive h)
    (hth : h.requests[r]? = some th) (hmsg : th.pc.msg = some msg) (hown : h.Own r inst event) :
    event.waitKey = msg.waitKey := by
  obtain ⟨hc, msg', id, hcreated⟩ := hown
  have hlisten := listening_of_attentive hr
  have hcore := listening_core hlisten
  obtain ⟨-, -, pm₀, hpm₀, -, hsession⟩ :=
    completed_origin (fun _ hl => hl) hcore (noReuse_of_attentive hr) hc
  have hinv := createdInv_of_reachable CfactoryMgr.fresh_boot hcore.reachable
  obtain ⟨-, rfl⟩ := created_unique hinv hcreated hpm₀
  obtain ⟨th', hth', hmsg', -⟩ := (registrations_of_reachable hlisten).posted.sent hcreated
  obtain rfl := Option.some.inj (hth.symm.trans hth')
  obtain rfl := Option.some.inj (hmsg.symm.trans hmsg')
  have hservice := ((routedInv_of_reachable hcore).created _ _ _ _ hcreated).2
  exact congrArg₂ WaitKey.mk hservice.symm hsession.symm

/-- The callback stays, and nobody stops the server. -/
theorem listening_callback (hr : httpSystem.ReachableVia listening h) :
    h.callbackSet = true ∧ h.stop = .running := by
  refine hr.invariant (I := fun h => h.callbackSet = true ∧ h.stop = .running) ?init ?step
  case init =>
    rintro _ ⟨n, rfl⟩
    exact ⟨rfl, rfl⟩
  case step =>
    rintro h l h' ⟨hset, hstop⟩ hg hs
    have hl : l ≠ .stop := by
      rintro rfl
      exact hg
    obtain ⟨hstop', hset'⟩ := beside_stop hl hs
    exact ⟨hset'.trans hset, hstop'.trans hstop⟩

/-- A thread that reports a completion copies the callback. -/
theorem reported_step {u : ℕ} (hset : h.callbackSet = true)
    (hs : h.step (.core (.advance u)) = some h')
    (hc : .completed inst event ∈ h'.core.events) :
    .completed inst event ∈ h.core.events ∨ h'.callbacks u = some (.collect inst event) := by
  obtain ⟨core, callbacks, hcs, rfl, hcb⟩ := HttpState.step_core hs
  obtain ⟨⟨pm, pc⟩, next, m', ev, hu, hadv, rfl⟩ := DispatchState.step_advance_iff.mp hcs
  rcases List.mem_append.mp hc with hold | hnew
  · exact .inl hold
  · refine .inr ?_
    have hcallbacks : callbacks u = h.notifying u := by
      obtain ⟨v, hv, -, rfl⟩ | ⟨hne, -⟩ := hcb
      · obtain rfl := DispatchLabel.advance.inj hv
        exact Function.update_self ..
      · exact absurd rfl (hne u)
    refine hcallbacks.trans ?_
    cases hadv with
    | notify =>
        obtain ⟨rfl, rfl⟩ := Event.completed.inj (List.mem_singleton.mp hnew)
        simp only [HttpState.notifying, hu, hset, if_true]
    | _ => simp at hnew

/-- The manager reports nothing but in a dispatch. -/
theorem events_step (hs : h.step l = some h') :
    h'.core.events = h.core.events ∨ ∃ u, l = .core (.advance u) := by
  rcases HttpState.core_step hs with heq | ⟨l', hcs, hl⟩
  · exact .inl (congrArg _ heq)
  · cases l' with
    | env l' =>
        obtain ⟨p, -, hcore⟩ := DispatchState.step_env_iff.mp hcs
        exact .inl (by rw [hcore])
    | registerFactory factory =>
        exact .inl (by rw [DispatchState.step_registerFactory_iff.mp hcs])
    | pop u =>
        obtain ⟨-, pm, p, -, hcore⟩ := DispatchState.step_pop_iff.mp hcs
        exact .inl (by rw [hcore])
    | advance u =>
        obtain rfl | ⟨r, th, msg, -, -, hne⟩ := hl
        · exact .inr ⟨u, rfl⟩
        · cases hne

/-- A completion that is new in this step is in a callback. -/
theorem own_step (hr : httpSystem.ReachableVia listening h) (hg : listening h l)
    (hs : h.step l = some h') (hown : h'.Own r inst event) :
    h.Own r inst event ∨ ∃ t, h'.callbacks t = some (.collect inst event) := by
  obtain ⟨hc, msg, id, hcreated⟩ := hown
  have hold : .completed inst event ∈ h.core.events → h.Own r inst event := by
    intro hcold
    refine ⟨hcold, msg, id, ?_⟩
    -- what has completed was created before, and nothing is created twice
    have hinv := createdInv_of_reachable CfactoryMgr.fresh_boot
      (listening_core (hr.step hg hs)).reachable
    obtain ⟨ev, hev⟩ := HttpState.step_events hs
    rw [← hev] at hcreated
    refine (List.mem_append.mp hcreated).resolve_right fun hnew => ?_
    obtain ⟨pre, rest, rfl⟩ := List.append_of_mem hnew
    have hsplit : h'.core.events = (h.core.events ++ pre) ++
        .created event.serviceId inst id ⟨msg, .client r⟩ :: rest := by
      rw [← hev, List.append_assoc]
    have hmem := (routedInv_of_reachable (listening_core hr)).completed inst event hcold
    refine (created_split hinv hsplit event.fsmId).1 ?_
    rw [createdIn_append]
    exact List.mem_append_left _ hmem
  rcases events_step hs with heq | ⟨u, rfl⟩
  · exact .inl (hold (heq ▸ hc))
  · exact (reported_step (listening_callback hr).1 hs hc).imp hold fun hcall => ⟨u, hcall⟩

/-! ## Listed waiters -/

/-- The request has registered its waiter, and not unregistered it. -/
def HttpPc.registered : HttpPc → Bool
  | .syncSendMsg _ | .waitFor _ | .unregisterWaiter .. => true
  | _ => false

/-- `_waiters` lists the requests that are registered, and no weak pointer in it has expired. -/
theorem listed_of_registered (hr : httpSystem.ReachableVia listening h)
    (hth : h.requests[r]? = some th) (hmsg : th.pc.msg = some msg)
    (hreg : th.pc.registered = true) : r ∈ h.waiters.toNotify h.entries.alive msg.waitKey := by
  obtain ⟨w, hw, hwatches⟩ := watched hr
  have hinv := registryInv_of_reachable hw
  obtain ⟨pc, hpc, hpcreg⟩ : ∃ pc, th.pc.wait = some pc ∧ pc.registered = true := by
    cases hth : th.pc <;> simp_all [HttpPc.registered, HttpPc.wait, WaitPc.registered]
  obtain ⟨since, hq⟩ := (hth ▸ hwatches.requests r).of_wait msg pc hmsg hpc
  have hclears : w.clears = 0 := by
    rw [hwatches.clears, (listening_callback hr).2]
    rfl
  have hsince : since = w.clears := by
    have hle : since ≤ w.clears := hinv.since_le r _ hq
    omega
  rw [← hwatches.waiters, ← hwatches.entries, hinv.toNotify_eq]
  exact (hinv.listed msg.waitKey r).mpr ⟨_, hq, rfl, hpcreg, hsince⟩

/-- Who is listed is registered under the key. -/
theorem registered_of_listed {key : WaitKey} (hr : httpSystem.ReachableVia listening h)
    (hlisted : r ∈ h.waiters.find key) : ∃ th msg, h.requests[r]? = some th ∧
      th.pc.msg = some msg ∧ msg.waitKey = key ∧ th.pc.registered = true := by
  obtain ⟨w, hw, hwatches⟩ := watched hr
  rw [← hwatches.waiters] at hlisted
  obtain ⟨q, hq, rfl, hreg, -⟩ := (registryInv_of_reachable hw).listed key r |>.mp hlisted
  have hseen := hwatches.requests r
  rw [hq] at hseen
  generalize hx : h.requests[r]? = x at hseen
  cases hseen with
  | @waiting th msg pc since hmsg hpc =>
      refine ⟨th, msg, rfl, hmsg, rfl, ?_⟩
      cases hth : th.pc <;> simp_all [HttpPc.registered, HttpPc.wait, WaitPc.registered]
      all_goals subst hpc; cases hreg
  | answered => cases hreg

/-- A completed entry stays so once its request has registered. -/
theorem HttpState.completed_step (hl : l ≠ .stop) (hs : h.step l = some h')
    (hth : h.requests[r]? = some th) (hearly : th.pc.early = false)
    (hc : (h.entries r).completed = true) : (h'.entries r).completed = true := by
  cases l with
  | core l =>
      obtain ⟨core, callbacks, -, rfl, -⟩ := HttpState.step_core hs
      exact hc
  | request req =>
      obtain rfl := HttpState.step_request hs
      exact hc
  | handle i =>
      obtain ⟨y, y', k, hy, hd, rfl⟩ := HttpState.step_handle hs
      cases hd with
      | registered hpc =>
          have hne : r ≠ i := by
            rintro rfl
            obtain rfl := Option.some.inj (hth.symm.trans hy)
            simp [hpc, HttpPc.early] at hearly
          exact (congrArg WaitEntry.completed (WaitEntries.create_of_ne hne)).trans hc
      | _ => exact hc
  | onCompletion t =>
      obtain ⟨call, -, rfl⟩ := HttpState.step_onCompletion hs
      cases call with
      | collect => exact hc
      | notify inst event entriesToNotify next =>
          simp only [HttpState.stepOnCompletion]
          split
          · rename_i x _
            rcases eq_or_ne r x with rfl | hne
            · simp [WaitEntries.complete]
            · exact (congrArg WaitEntry.completed (WaitEntries.complete_of_ne hne)).trans hc
          · exact hc
  | stop => contradiction

/-! ## The wake-up is not lost -/

/-- The completion that a call of `OnCompletion` is about. -/
def CallbackPc.about : CallbackPc → ℕ × FsmCompletionEvent
  | .collect inst event | .notify inst event _ _ => (inst, event)

/-- A call goes on only in its own steps. -/
theorem callback_step {call : CallbackPc} (hs : h.step l = some h')
    (hcall : h.callbacks t = some call) :
    h'.callbacks t = some call ∨ h' = h.stepOnCompletion t call := by
  rcases callbacks_step hs t with hsame | ⟨-, hnone, -⟩ | ⟨other, -, hother, rfl⟩
  · exact .inl (hsame.trans hcall)
  · simp [hcall] at hnone
  · obtain rfl := Option.some.inj (hcall.symm.trans hother)
    exact .inr rfl

/-- A call in its loop comes to every request that it has collected. -/
theorem notify_step {entriesToNotify : List ℕ} {next : ℕ} (hs : h.step l = some h')
    (hcall : h.callbacks t = some (.notify inst event entriesToNotify next))
    (hmem : r ∈ entriesToNotify.drop next) : (h'.entries r).completed = true ∨
      ∃ next', h'.callbacks t = some (.notify inst event entriesToNotify next') ∧
        r ∈ entriesToNotify.drop next' := by
  rcases callback_step hs hcall with hsame | rfl
  · exact .inr ⟨next, hsame, hmem⟩
  · cases hnext : entriesToNotify[next]? with
    | none =>
        rw [List.drop_eq_nil_of_le (List.getElem?_eq_none_iff.mp hnext)] at hmem
        contradiction
    | some x =>
        obtain ⟨hlt, hx⟩ := List.getElem?_eq_some_iff.mp hnext
        rw [List.drop_eq_getElem_cons hlt, hx] at hmem
        rcases List.mem_cons.mp hmem with rfl | hrest
        · exact .inl (by simp [HttpState.stepOnCompletion, hnext, WaitEntries.complete])
        · exact .inr ⟨next + 1, by simp [HttpState.stepOnCompletion, hnext], hrest⟩

/-- A call is about this completion, and the waiter of request `r` is still to be notified. -/
def CallbackPc.Reaches (r inst : ℕ) (event : FsmCompletionEvent) : CallbackPc → Prop
  | .collect i e => (i, e) = (inst, event)
  | .notify i e entriesToNotify next => (i, e) = (inst, event) ∧ r ∈ entriesToNotify.drop next

/-- Request `r` has been notified, or is still to be. -/
def HttpState.Reached (h : HttpState) (r inst : ℕ) (event : FsmCompletionEvent) : Prop :=
  (h.entries r).completed = true ∨
    ∃ t call, h.callbacks t = some call ∧ call.Reaches r inst event

theorem HttpState.Reached.step (hreached : h.Reached r inst event) (hl : l ≠ .stop)
    (hs : h.step l = some h') (hth : h.requests[r]? = some th) (hearly : th.pc.early = false)
    (hlisted : r ∈ h.waiters.toNotify h.entries.alive event.waitKey) :
    h'.Reached r inst event := by
  rcases hreached with hc | ⟨t, call, hcall, hreaches⟩
  · exact .inl (HttpState.completed_step hl hs hth hearly hc)
  · cases call with
    | collect i e =>
        obtain ⟨rfl, rfl⟩ := Prod.mk.inj hreaches
        rcases callback_step hs hcall with hsame | rfl
        · exact .inr ⟨t, _, hsame, rfl⟩
        · exact .inr ⟨t, _, Function.update_self .., rfl, hlisted⟩
    | notify i e entriesToNotify next =>
        obtain ⟨habout, hmem⟩ := hreaches
        refine (notify_step hs hcall hmem).imp_right ?_
        rintro ⟨next', hcall', hmem'⟩
        exact ⟨t, _, hcall', habout, hmem'⟩

theorem attentive_ne_stop (hg : attentive h l) : l ≠ .stop := by
  rintro rfl
  exact hg.1

/-- A registered request is notified of its own completion, or still to be notified. -/
theorem reached_of_registered (hr : httpSystem.ReachableVia attentive h)
    (hth : h.requests[r]? = some th) (hreg : th.pc.registered = true)
    (hown : h.Own r inst event) : h.Reached r inst event := by
  refine hr.invariant_reachable
    (I := fun h => ∀ (r : ℕ) (th : HttpThread) (inst : ℕ) (event : FsmCompletionEvent),
      h.requests[r]? = some th → th.pc.registered = true → h.Own r inst event →
        h.Reached r inst event) ?init ?step r th inst event hth hreg hown
  case init =>
    rintro _ ⟨n, rfl⟩
    simp
  case step =>
    intro h l h' hreach hall hg hs r th inst event hth hreg hown
    have hlisten := listening_of_attentive hreach
    rcases own_step hlisten hg.1 hs hown with hold | ⟨t, hcall⟩
    · -- the request stood here before, and had registered, for its message had been sent
      obtain ⟨msg, id, hcreated⟩ := hold.2
      obtain ⟨y, hy, hmsg, hsent⟩ := (registrations_of_reachable hlisten).posted.sent hcreated
      have hyreg : y.pc.registered = true := by
        rcases HttpState.step_request_at hs hy with hsame | ⟨y', k, -, hy', hd, -⟩
        · obtain rfl := Option.some.inj (hth.symm.trans hsame)
          exact hreg
        · obtain rfl := Option.some.inj (hth.symm.trans hy')
          cases hd <;> simp_all [HttpPc.registered, HttpPc.sent]
      have hearly : y.pc.early = false := by
        cases hpc : y.pc <;> simp_all [HttpPc.registered, HttpPc.early]
      refine (hall r y inst event hy hyreg hold).step (attentive_ne_stop hg) hs hy hearly ?_
      rw [hold.waitKey hreach hy hmsg]
      exact listed_of_registered hlisten hy hmsg hyreg
    · exact .inr ⟨t, _, hcall, rfl⟩

/-- Where a call comes from: it was there, about the same completion, or this step has copied
the callback. -/
theorem callback_origin {call : CallbackPc} (hs : h.step l = some h')
    (hcall : h'.callbacks t = some call) :
    (∃ old, h.callbacks t = some old ∧ old.about = call.about) ∨
      (l = .core (.advance t) ∧ h.notifying t = some call) := by
  rcases callbacks_step hs t with hsame | ⟨rfl, -, hcopy⟩ | ⟨old, -, hold, rfl⟩
  · exact .inl ⟨call, hsame.symm.trans hcall, rfl⟩
  · exact .inr ⟨rfl, hcopy.symm.trans hcall⟩
  · refine .inl ⟨old, hold, ?_⟩
    cases old with
    | collect inst event =>
        simp [HttpState.stepOnCompletion] at hcall
        exact hcall ▸ rfl
    | notify inst event entriesToNotify next =>
        cases hnext : entriesToNotify[next]? <;>
          simp [HttpState.stepOnCompletion, hnext] at hcall
        exact hcall ▸ rfl

/-- What a call of `OnCompletion` is about has been reported. -/
theorem callback_reported {call : CallbackPc} (hr : httpSystem.ReachableVia listening h)
    (hcall : h.callbacks t = some call) :
    .completed call.about.1 call.about.2 ∈ h.core.events := by
  refine hr.invariant (I := fun h => ∀ t call, h.callbacks t = some call →
    .completed call.about.1 call.about.2 ∈ h.core.events) ?init ?step t call hcall
  case init =>
    rintro _ ⟨n, rfl⟩
    simp
  case step =>
    intro h l h' hall hg hs t call hcall
    change h.step l = some h' at hs
    rcases callback_origin hs hcall with ⟨old, hold, heq⟩ | ⟨rfl, hn⟩
    · exact (HttpState.step_events hs).subset (heq ▸ hall t old hold)
    · obtain ⟨pm, facId, i, fsmId, ret, ht, rfl⟩ := HttpState.notifying_eq_some hn
      obtain ⟨core, callbacks, hcs, rfl, -⟩ := HttpState.step_core hs
      obtain ⟨th, next, m', ev, ht', hadv, rfl⟩ := DispatchState.step_advance_iff.mp hcs
      obtain rfl := Option.some.inj (ht.symm.trans ht')
      cases hadv with
      | noFactory hpc | dangling hpc => cases hpc
      | notify => exact List.mem_append_right _ (List.mem_singleton_self _)

/-- **The wake-up is not lost.** -/
theorem notified (hth : h.requests[r]? = some th) (hearly : th.pc.early = false)
    {entriesToNotify : List ℕ} (hmem : r ∈ entriesToNotify)
    (hcall : h.callbacks t = some (.notify inst event entriesToNotify 0))
    (hrun : httpSystem.RunVia attentive h h') : (h'.entries r).completed = true ∨
      ∃ next, h'.callbacks t = some (.notify inst event entriesToNotify next) := by
  suffices hinv : (∃ th, h'.requests[r]? = some th ∧ th.pc.early = false) ∧
      ((h'.entries r).completed = true ∨
        ∃ next, h'.callbacks t = some (.notify inst event entriesToNotify next) ∧
          r ∈ entriesToNotify.drop next) from
    hinv.2.imp_right fun ⟨next, hcall, _⟩ => ⟨next, hcall⟩
  refine hrun.invariant (I := fun h => (∃ th, h.requests[r]? = some th ∧ th.pc.early = false) ∧
      ((h.entries r).completed = true ∨
        ∃ next, h.callbacks t = some (.notify inst event entriesToNotify next) ∧
          r ∈ entriesToNotify.drop next)) ?step
    ⟨⟨th, hth, hearly⟩, .inr ⟨0, hcall, hmem⟩⟩
  case step =>
    rintro h l h' ⟨⟨th, hth, hearly⟩, hnotified⟩ hg hs
    have hl := attentive_ne_stop hg
    constructor
    · rcases HttpState.step_request_at hs hth with hsame | ⟨th', k, -, hth', hd, -⟩
      · exact ⟨th, hsame, hearly⟩
      · refine ⟨th', hth', Bool.eq_false_iff.mpr fun hlate => ?_⟩
        simp [hd.thread.2.2.2.2 hlate] at hearly
    · rcases hnotified with hc | ⟨next, hcall, hmem⟩
      · exact .inl (HttpState.completed_step hl hs hth hearly hc)
      · exact notify_step hs hcall hmem

/-! ## Requests that gave up -/

/-- The wait of the request ended before a completion had come. -/
def HttpPc.timedOut : HttpPc → Bool
  | .unregisterWaiter _ (.waited completed _) | .returning _ (.waited completed _) => !completed
  | .answered _ response => response.status = .gatewayTimeout
  | _ => false

theorem Handled.timedOut (hd : Handled h r th th' k) (hout : th'.pc.timedOut = true) :
    th.pc.timedOut = true ∨ ∃ msg, th.pc = .waitFor msg ∧ (h.entries r).completed = false := by
  cases hd with
  | retried => exact .inl hout
  | generated hpc hz hnext =>
      subst hnext
      by_cases hw : th.request.wait = true <;> simp [hw, HttpPc.timedOut] at hout
  | sent =>
      simp only [HttpPc.timedOut, asyncResponse] at hout
      split at hout <;> simp at hout
  | registered | refused | syncSent => simp [HttpPc.timedOut] at hout
  | waited hpc => exact .inr ⟨_, hpc, by simpa [HttpPc.timedOut] using hout⟩
  | @unregistered msg outcome hpc =>
      refine .inl ?_
      cases outcome with
      | refused sendResult => simp [HttpPc.timedOut] at hout
      | waited completed completion => simpa [hpc, HttpPc.timedOut] using hout
  | @answered msg outcome hpc =>
      refine .inl ?_
      cases outcome with
      | refused sendResult => simp [HttpPc.timedOut, syncResponse] at hout
      | waited completed completion =>
          cases completed with
          | false => simp [hpc, HttpPc.timedOut]
          | true =>
              by_cases hres : completion.result = .success <;>
                simp [HttpPc.timedOut, syncResponse, hres] at hout

/-- The wait of request `r` ended in state `k`, before a completion had come. -/
structure GaveUp (k : HttpState) (r : ℕ) (h : HttpState) : Prop where
  reachable : httpSystem.ReachableVia attentive k
  waiting : ∃ th msg, k.requests[r]? = some th ∧ th.pc = .waitFor msg
  completed : (k.entries r).completed = false
  later : ∃ k', k.step (.handle r) = some k' ∧ httpSystem.RunVia attentive k' h

theorem gaveUp_of_timedOut (hr : httpSystem.ReachableVia attentive h)
    (hth : h.requests[r]? = some th) (hout : th.pc.timedOut = true) : ∃ k, GaveUp k r h := by
  refine hr.invariant_reachable
    (I := fun h => ∀ (r : ℕ) (th : HttpThread), h.requests[r]? = some th →
      th.pc.timedOut = true → ∃ k, GaveUp k r h) ?init ?step r th hth hout
  case init =>
    rintro _ ⟨n, rfl⟩
    simp
  case step =>
    intro h l h' hreach hall hg hs r th hth hout
    have hkeep : ∀ y, h.requests[r]? = some y → y.pc.timedOut = true → ∃ k, GaveUp k r h' := by
      intro y hy hout
      obtain ⟨k, hk⟩ := hall r y hy hout
      obtain ⟨k', hk', hrun⟩ := hk.later
      exact ⟨k, { hk with later := ⟨k', hk', hrun.tail hg hs⟩ }⟩
    rcases HttpState.step_requests hs hth with hth | hnew | ⟨y, k, hy, hd, -⟩
    · exact hkeep th hth hout
    · rw [hnew] at hout
      cases hout
    · rcases HttpState.step_request_at hs hy with hsame | ⟨y', k', rfl, hy', hd', -⟩
      · obtain rfl := Option.some.inj (hth.symm.trans hsame)
        exact hkeep th hy hout
      · obtain rfl := Option.some.inj (hth.symm.trans hy')
        rcases hd'.timedOut hout with hout | ⟨msg, hpc, hc⟩
        · exact hkeep y hy hout
        · exact ⟨h, hreach, ⟨y, msg, hy, hpc⟩, hc, h', hs, Lts.RunVia.refl _⟩

/-! ## No lost completion -/

/-- **No lost completion.** The server and its callback stay, one thread dispatches, and no id is
used again while its instance is live. The completion of the instance that a synchronous
request's message created is reported after the request has registered its waiter, and under its
key. If the waiter is still listed when `OnCompletion` takes `_waitersLock`, then once the call
has returned, and ever after, it has completed. So a request is answered with a 504 only if, when
its wait ended, the completion of its own instance had not been reported, or the call of
`OnCompletion` with it was under way. -/
theorem no_lost_completion (hr : httpSystem.ReachableVia attentive h)
    (hth : h.requests[r]? = some th) (hwait : th.request.wait = true) :
    (∀ inst event, h.Own r inst event →
      (∃ since, th.registered = some since ∧ .completed inst event ∉ since) ∧
        (th.pc.registered = true → r ∈ h.waiters.find event.waitKey)) ∧
      (∀ t inst event msg h₁, h.callbacks t = some (.collect inst event) →
        h.CreatedFor r inst event.serviceId → th.pc.msg = some msg →
        r ∈ h.waiters.find msg.waitKey → h.step (.onCompletion t) = some h₁ →
        ∃ entriesToNotify, h₁.callbacks t = some (.notify inst event entriesToNotify 0) ∧
          ∀ h', httpSystem.RunVia attentive h₁ h' → (h'.entries r).completed = true ∨
            ∃ next, h'.callbacks t = some (.notify inst event entriesToNotify next)) ∧
      (∀ msg response, th.pc = .answered msg response → response.status = .gatewayTimeout →
        ∃ k, GaveUp k r h ∧ ∀ inst event, k.Own r inst event →
          ∃ t call, k.callbacks t = some call ∧ call.about = (inst, event)) := by
  have hlisten := listening_of_attentive hr
  have hreg := registrations_of_reachable hlisten
  refine ⟨fun inst event hown => ⟨?since, fun hpc => ?listed⟩, ?notified, ?timeout⟩
  case since =>
    obtain ⟨msg, id, hcreated⟩ := hown.2
    obtain ⟨th', hth', -, hsent⟩ := hreg.posted.sent hcreated
    obtain rfl := Option.some.inj (hth.symm.trans hth')
    have hearly : th.pc.early = false := by
      have hne := (hreg.first r th hth hwait).1
      cases hpc : th.pc <;> simp_all [HttpPc.sent, HttpPc.early]
    obtain ⟨since, hsince⟩ := Option.ne_none_iff_exists'.mp ((hreg.first r th hth hwait).2 hearly)
    refine ⟨since, hsince, fun hmem => ?_⟩
    -- what had completed by then had been created, but not by this request
    have hbefore := hreg.before r th since hth hsince
    obtain ⟨pm, hpm⟩ := mem_createdIn.mp (hbefore.completed inst event hmem)
    obtain ⟨-, rfl⟩ := created_unique
      (createdInv_of_reachable CfactoryMgr.fresh_boot (listening_core hlisten).reachable)
      hcreated (hbefore.events.subset hpm)
    exact hbefore.created _ _ _ _ hpm
  case listed =>
    obtain ⟨msg, hmsg⟩ : ∃ msg, th.pc.msg = some msg := by
      cases hth : th.pc <;> simp_all [HttpPc.registered, HttpPc.msg]
    rw [hown.waitKey hr hth hmsg]
    exact (List.mem_filter.mp (listed_of_registered hlisten hth hmsg hpc)).1
  case notified =>
    intro t inst event msg h₁ hcall hcreated hmsg hlisted hs
    obtain ⟨call, hcall', rfl⟩ := HttpState.step_onCompletion hs
    obtain rfl := Option.some.inj (hcall.symm.trans hcall')
    have hown : h.Own r inst event := ⟨callback_reported hlisten hcall, hcreated⟩
    obtain ⟨th', msg', hth', hmsg', -, hpc⟩ := registered_of_listed hlisten hlisted
    obtain rfl := Option.some.inj (hth.symm.trans hth')
    have hmem := listed_of_registered hlisten hth hmsg hpc
    rw [← hown.waitKey hr hth hmsg] at hmem
    refine ⟨_, Function.update_self .., fun h' hrun => ?_⟩
    have hearly : th.pc.early = false := by
      cases hpc : th.pc <;> simp_all [HttpPc.registered, HttpPc.early]
    have hth₁ : (h.stepOnCompletion t (.collect inst event)).requests[r]? = some th := hth
    exact notified hth₁ hearly hmem (Function.update_self ..) hrun
  case timeout =>
    intro msg response hpc hstatus
    obtain ⟨k, hk⟩ := gaveUp_of_timedOut hr hth (by simp [hpc, HttpPc.timedOut, hstatus])
    refine ⟨k, hk, fun inst event hown => ?_⟩
    obtain ⟨th', msg', hth', hpc'⟩ := hk.waiting
    have hreached := reached_of_registered hk.reachable hth' (by rw [hpc']; rfl) hown
    obtain ⟨t, call, hcall, hreaches⟩ := hreached.resolve_left (by simp [hk.completed])
    refine ⟨t, call, hcall, ?_⟩
    cases call with
    | collect => exact hreaches
    | notify => exact hreaches.1

/-- The first request is notified of its own completion: the call of `OnCompletion` is about to
take `_waitersLock`. -/
theorem no_lost_completion_first_flow : ∃ (h h₁ : HttpState) (event : FsmCompletionEvent),
    httpSystem.ReachableVia attentive h ∧ h.callbacks 0 = some (.collect 0 event) ∧
      h.step (.onCompletion 0) = some h₁ ∧ ∃ entriesToNotify,
        h₁.callbacks 0 = some (.notify 0 event entriesToNotify 0) ∧
          ∀ h', httpSystem.RunVia attentive h₁ h' → (h'.entries 0).completed = true ∨
            ∃ next, h'.callbacks 0 = some (.notify 0 event entriesToNotify next) := by
  obtain ⟨h, h₁, event, th, hh, hth, hwait, hmsg, hcall, hcreated, hlisted, hs⟩ :
      ∃ (h h₁ : HttpState) (event : FsmCompletionEvent) (th : HttpThread),
        httpSystem.exec (fun h l => oneDispatcher l && decide (h.unusedIds l))
            { core := .resting .boot [], nextSessionId := 1 } (firstFlow ++ dispatchSteps 7) =
          some h ∧ h.requests[0]? = some th ∧ th.request.wait = true ∧
          th.pc.msg = some (authRequest.msg 1) ∧ h.callbacks 0 = some (.collect 0 event) ∧
          .created event.serviceId 0 1 ⟨authRequest.msg 1, .client 0⟩ ∈ h.core.events ∧
          0 ∈ h.waiters.find (authRequest.msg 1).waitKey ∧ h.step (.onCompletion 0) = some h₁ :=
    ⟨_, _, _, _, rfl, rfl, rfl, rfl, rfl, by decide, by decide, rfl⟩
  have hr : httpSystem.ReachableVia attentive h :=
    ⟨_, ⟨1, rfl⟩, Lts.runVia_of_exec_of_invariant
      (I := fun h => ∀ u, u ≠ 0 → h.core.threads u = none) (fun h l h' hidle hg hs => by
        obtain ⟨hone, hunused⟩ := Bool.and_eq_true_iff.mp hg
        obtain ⟨hidle', hserving⟩ := serving_of_oneDispatcher hidle hone hs
        exact ⟨hidle', listening_of_serving hserving, of_decide_eq_true hunused⟩)
      (fun _ _ => rfl) hh⟩
  exact ⟨h, h₁, event, hr, hcall, hs,
    (no_lost_completion hr hth hwait).2.1 0 0 event _ h₁ hcall ⟨_, _, hcreated⟩ hmsg hlisted hs⟩

/-! ## An id that is used again -/

/-- Another client's session. -/
def otherSession : { n : UInt32 // n ≠ 0 } := ⟨9, by decide⟩

/-- A synchronous request waits, and its instance has come to its timer. -/
theorem first_waits : ∃ h, httpSystem.ReachableVia serving h ∧ ServerAt h [startedFsm 0] 1 ∧
    h.requests[0]? = some ⟨authRequest, .waitFor (authRequest.msg 1), some []⟩ ∧
    0 ∈ h.waiters.find (authRequest.msg 1).waitKey ∧ (h.entries 0).completed = false ∧
    h.waiters.find ⟨facAuthFacId, otherSession⟩ = [] ∧
    .created facAuthFacId 0 (fsmIdOf 0) ⟨authRequest.msg 1, .client 0⟩ ∈ h.core.events := by
  obtain ⟨h, hh, hset, hcallbacks, hstop, hcore, hth, hlisted, hentry, hnobody⟩ : ∃ h : HttpState,
      httpSystem.exec (fun _ l => oneDispatcher l) { core := .resting .boot [], nextSessionId := 1 }
          [.request authRequest, .handle 0, .handle 0, .handle 0] = some h ∧
        h.callbackSet = true ∧ (h.callbacks = fun _ => none) ∧ h.stop = .running ∧
        h.core = .resting (CfactoryMgr.boot.withPorts
          { pump := { queue := [⟨authRequest.msg 1, .client 0⟩] } }) [] ∧
        h.requests[0]? = some ⟨authRequest, .waitFor (authRequest.msg 1), some []⟩ ∧
        0 ∈ h.waiters.find (authRequest.msg 1).waitKey ∧ (h.entries 0).completed = false ∧
        h.waiters.find ⟨facAuthFacId, otherSession⟩ = [] :=
    ⟨_, rfl, rfl, rfl, rfl, rfl, rfl, by decide, rfl, by decide⟩
  have hidle : h.Idle := ⟨hset, hcallbacks⟩
  have hat : AuthAt ⟨CfactoryMgr.boot.withPorts
      { pump := { queue := [⟨authRequest.msg 1, .client 0⟩] } }, []⟩
      [⟨authMsg 7 0 .msgInit, .client 0⟩] [] 0 :=
    ⟨fun fac hfac => by simp [(CfactoryMgr.fresh_boot fac hfac).1], rfl, rfl, _, rfl, rfl, rfl, rfl⟩
  have hx : RoutesTo ([] ++ [startedFsm 0]) (fsmIdOf 0) (startedFsm 0) := ⟨by decide, rfl⟩
  obtain ⟨a, sender, hstart, hat', -, hcreated⟩ :=
    hat.start ⟨facAuthFacId, otherSession⟩ (by decide) hx
  obtain ⟨h', hrun, hbeside, hcore'⟩ := ServerAt.serves hidle hcore hnobody hstart
  refine ⟨h', (serving_of_exec hh).run hrun, ⟨hbeside.idle, hbeside.stop.trans hstop, a, hcore',
    hat'⟩, hbeside.requests 0 _ hth, ?_, ?_, ?_, ?_⟩
  · rw [hbeside.waiters]
    exact hlisted
  · rw [hbeside.entries]
    exact hentry
  · rw [hbeside.waiters]
    exact hnobody
  · rw [hcore']
    exact hcreated

/-- A request whose wait ends now is answered with a 504. -/
theorem gives_up {msg : CMsg} (hth : h.requests[r]? = some th) (hpc : th.pc = .waitFor msg)
    (hc : (h.entries r).completed = false) : ∃ h', httpSystem.RunVia serving h h' ∧
      (h'.requests[r]?.map HttpThread.pc) = some (.answered msg
        ⟨.gatewayTimeout, .error "timeout" "FSM flow did not complete before timeout"⟩) := by
  obtain ⟨req, pc, reg⟩ := th
  obtain rfl : pc = .waitFor msg := hpc
  obtain ⟨hlt, -⟩ := List.getElem?_eq_some_iff.mp hth
  let outcome : WaitOutcome := .waited false (h.entries r).event
  let h₁ : HttpState :=
    { h with requests := h.requests.set r ⟨req, .unregisterWaiter msg outcome, reg⟩ }
  let h₂ : HttpState := { h with
    requests := h₁.requests.set r ⟨req, .returning msg outcome, reg⟩
    waiters := h.waiters.unregister h.entries.alive msg.waitKey r }
  let h₃ : HttpState := { h₂ with
    requests := h₂.requests.set r ⟨req, .answered msg (syncResponse req outcome), reg⟩
    entries := h.entries.release [r] }
  have hwake : h.step (.handle r) = some h₁ := by
    simp [HttpState.step, HttpState.stepHandle, HttpState.goto, hth, hc, h₁, outcome]
  have hunregister : h₁.step (.handle r) = some h₂ := by
    simp [HttpState.step, HttpState.stepHandle, HttpState.goto, h₁, h₂, hlt]
  have hreturn : h₂.step (.handle r) = some h₃ := by
    simp [HttpState.step, HttpState.stepHandle, HttpState.goto, h₁, h₂, h₃, hlt]
  have hstep : ∀ {k k' : HttpState}, k.step (.handle r) = some k' →
      httpSystem.RunVia serving k k' := fun hs => Lts.RunVia.single (a := .handle r) trivial hs
  exact ⟨h₃, ((hstep hwake).trans (hstep hunregister)).trans (hstep hreturn),
    by simp [h₁, h₂, h₃, hlt, syncResponse, outcome]⟩

/-- **A completion that is lost.** The id generator wraps while a synchronous request waits and
its instance stands at its timer. The next instance but one gets the same id, the first one takes
its messages, and ends with its session: `OnCompletion` comes and goes, the request still waits
under its own key, and is answered with a 504. -/
theorem own_completion_lost : ∃ (h h' : HttpState) (event : FsmCompletionEvent),
    httpSystem.ReachableVia listening h ∧ h.Own 0 0 event ∧ (∀ t, h.callbacks t = none) ∧
      h.requests[0]? = some ⟨authRequest, .waitFor (authRequest.msg 1), some []⟩ ∧
      0 ∈ h.waiters.find (authRequest.msg 1).waitKey ∧ (h.entries 0).completed = false ∧
      httpSystem.RunVia listening h h' ∧
      (h'.requests[0]?.map HttpThread.pc) = some (.answered (authRequest.msg 1)
        ⟨.gatewayTimeout, .error "timeout" "FSM flow did not complete before timeout"⟩) := by
  obtain ⟨h₁, hreach, h₁at, hth, hlisted, hentry, hnobody, hcreated⟩ := first_waits
  -- the generator comes to zero, and then to the first id again
  obtain ⟨h₂, hrun₂, hbeside₂, h₂at⟩ := h₁at.flows (n := 2 ^ 32 - 2) hnobody (by omega)
  have hzero : fsmIdOf (2 ^ 32 - 2 + 1) = 0 := (fsmIdOf_eq_zero_iff _).mpr (by norm_num)
  obtain ⟨h₃, hrun₃, hbeside₃, h₃at⟩ := h₂at.stuck (s := otherSession)
    (by rw [hbeside₂.waiters, hnobody]) (by decide) hzero
  have hsame : fsmIdOf (2 ^ 32 - 2 + 1 + 1) = fsmIdOf 0 := (fsmIdOf_eq_iff _ _).mpr (by norm_num)
  have hx : RoutesTo ([startedFsm 0] ++ [startedFsm (2 ^ 32 - 2 + 1)] ++
      [startedFsm (2 ^ 32 - 2 + 1 + 1)]) (fsmIdOf (2 ^ 32 - 2 + 1 + 1)) (startedFsm 0) := by
    rw [hsame]
    exact ⟨by decide, by simp [KeyedList.lookup, startedFsm]⟩
  obtain ⟨h₄, hrun₄, hbeside₄, h₄at, hcompleted⟩ := h₃at.flow (s := otherSession)
    (by rw [hbeside₃.waiters, hbeside₂.waiters, hnobody]) (by simp [fsmNumInFac]) hx
  have hbeside := (hbeside₂.trans hbeside₃).trans hbeside₄
  have hentry₄ : (h₄.entries 0).completed = false := by rw [hbeside.entries, hentry]
  have hth₄ := hbeside.requests 0 _ hth
  obtain ⟨h₅, hrun₅, hanswer⟩ := gives_up hth₄ rfl hentry₄
  have hreach₄ := hreach.run ((hrun₂.trans hrun₃).trans hrun₄)
  refine ⟨h₄, h₅, _, hreach₄.mono fun _ _ => listening_of_serving,
    ⟨hcompleted, _, _, hbeside.events.subset hcreated⟩, fun t => congrFun h₄at.idle.callbacks t,
    hth₄, ?_, hentry₄, hrun₅.mono fun _ _ => listening_of_serving, hanswer⟩
  rw [hbeside.waiters]
  exact hlisted

end FsmFramework
