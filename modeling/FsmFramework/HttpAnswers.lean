import FsmFramework.HttpServer
import FsmFramework.Provenance
import FsmFramework.Sessions

/-!
# What a synchronous answer is about

While the server and the manager keep running: the completion that a synchronous request is
answered with comes from an instance that some request of the same service and session created,
and that was not reclaimed yet when the answered request registered its waiter (`Delivered`).
Which of these requests it was the server cannot tell: one completion goes to every waiter of
the key.
-/

namespace FsmFramework

/-! ## The manager below a server -/

/-- The server and the manager keep running, one thread dispatches, and what is posted from
outside is posted by the server. -/
def serving (h : HttpState) : HttpLabel → Prop
  | .core (.env (.sendMsg _ _)) | .stop => False
  | .core l => serial undisturbed h.core l
  | _ => True

variable {h h' k : HttpState} {r t : ℕ} {th th' : HttpThread} {msg : CMsg} {key : WaitKey}
  {since : List Event} {event : FsmCompletionEvent}

/-- The message of every request is the one `HandleRequest` makes. -/
def HttpState.MsgOk (h : HttpState) : Prop :=
  ∀ (r : ℕ) (th : HttpThread) (msg : CMsg), h.requests[r]? = some th → th.pc.msg = some msg →
    ∃ n, msg = th.request.msg n

/-- What a step of its thread does to a request. -/
theorem Handled.thread (hd : Handled h r th th' k) : th'.request = th.request ∧
    (∀ msg, th.pc.msg = some msg → th'.pc.msg = some msg) ∧
    (∀ msg, th'.pc.msg = some msg → th.pc.msg = some msg ∨ ∃ n, msg = th.request.msg n) ∧
    (th.pc.early = false ∨ th'.pc.early = true → th'.registered = th.registered) ∧
    (th'.pc.early = true → th.pc.early = true) := by
  cases hd with
  | generated hpc hz hnext =>
      subst hnext
      refine ⟨rfl, by simp [hpc, HttpPc.msg], fun msg hmsg => .inr ⟨h.nextSessionId, ?_⟩,
        fun _ => rfl, by simp [hpc, HttpPc.early]⟩
      by_cases hw : th.request.wait = true <;> simpa [hw, HttpPc.msg, eq_comm] using hmsg
  | retried hpc => exact ⟨rfl, fun _ h => h, fun _ h => .inl h, fun _ => rfl, id⟩
  | _ => simp_all [HttpPc.msg, HttpPc.early]

/-- What a step of a request's thread does to the manager: it may post the message. -/
theorem Handled.core (hd : Handled h r th th' k) : k.core = h.core ∨ ∃ msg, th.pc.msg = some msg ∧
    k.core = (h.sendMsg r msg).2.core := by
  cases hd with
  | sent hpc | refused hpc | syncSent hpc => exact .inr ⟨_, by simp [hpc, HttpPc.msg], rfl⟩
  | _ => exact .inl rfl

/-- The threads after one of them has moved. -/
theorem requests_set {rs : List HttpThread} (hr : rs[r]? = some th) {i : ℕ} {x : HttpThread}
    (hx : (rs.set r th')[i]? = some x) : (i = r ∧ x = th') ∨ (i ≠ r ∧ rs[i]? = some x) := by
  rcases eq_or_ne i r with rfl | hne
  · obtain ⟨hlt, -⟩ := List.getElem?_eq_some_iff.mp hr
    rw [List.getElem?_set_self hlt] at hx
    exact .inl ⟨rfl, (Option.some.inj hx).symm⟩
  · rw [List.getElem?_set_ne hne.symm] at hx
    exact .inr ⟨hne, hx⟩

/-- The threads after a request has arrived. -/
theorem requests_append {rs : List HttpThread} {i : ℕ} {x : HttpThread}
    (hx : (rs ++ [th])[i]? = some x) : rs[i]? = some x ∨ x = th := by
  rw [List.getElem?_append] at hx
  split at hx
  · exact .inl hx
  · exact .inr (List.mem_singleton.mp (List.mem_of_getElem? hx))

/-- Where the thread of a request comes from: it was there, it has just arrived, or it has
taken a step. -/
theorem HttpState.step_requests {l : HttpLabel} {i : ℕ} {x : HttpThread}
    (hs : h.step l = some h') (hx : h'.requests[i]? = some x) :
    h.requests[i]? = some x ∨ x = { request := x.request } ∨
      ∃ y k, h.requests[i]? = some y ∧ Handled h i y x k ∧ h'.core = k.core := by
  cases l with
  | core l =>
      obtain ⟨core, callbacks, -, rfl, -⟩ := HttpState.step_core hs
      exact .inl hx
  | request req =>
      obtain rfl := HttpState.step_request hs
      rcases requests_append hx with hx | rfl
      · exact .inl hx
      · exact .inr (.inl rfl)
  | handle r =>
      obtain ⟨th, th', k, hr, hd, rfl⟩ := HttpState.step_handle hs
      rcases requests_set hr hx with ⟨rfl, rfl⟩ | ⟨-, hx⟩
      · exact .inr (.inr ⟨th, k, hr, hd, rfl⟩)
      · exact .inl hx
  | onCompletion t =>
      obtain ⟨call, -, rfl⟩ := HttpState.step_onCompletion hs
      obtain ⟨-, hreq, -⟩ := h.stepOnCompletion_frame t call
      exact .inl (hreq ▸ hx)
  | stop =>
      obtain ⟨-, hreq⟩ := HttpState.stepStop_frame hs
      exact .inl (hreq ▸ hx)

/-- A request stays, and its thread moves only when it takes a step itself. -/
theorem HttpState.step_request_at {l : HttpLabel} {i : ℕ} {x : HttpThread}
    (hs : h.step l = some h') (hx : h.requests[i]? = some x) :
    h'.requests[i]? = some x ∨ ∃ x' k, l = .handle i ∧ h'.requests[i]? = some x' ∧
      Handled h i x x' k ∧ h' = { k with requests := h.requests.set i x' } := by
  cases l with
  | core l =>
      obtain ⟨core, callbacks, -, rfl, -⟩ := HttpState.step_core hs
      exact .inl hx
  | request req =>
      obtain rfl := HttpState.step_request hs
      exact .inl ((List.getElem?_append_left (List.getElem?_eq_some_iff.mp hx).1).trans hx)
  | handle r =>
      obtain ⟨th, th', k, hr, hd, rfl⟩ := HttpState.step_handle hs
      rcases eq_or_ne i r with rfl | hne
      · obtain rfl := Option.some.inj (hx.symm.trans hr)
        exact .inr ⟨th', k, rfl, List.getElem?_set_self (List.getElem?_eq_some_iff.mp hr).1, hd,
          rfl⟩
      · exact .inl ((List.getElem?_set_ne hne.symm).trans hx)
  | onCompletion t =>
      obtain ⟨call, -, rfl⟩ := HttpState.step_onCompletion hs
      obtain ⟨-, hreq, -⟩ := h.stepOnCompletion_frame t call
      exact .inl (hreq ▸ hx)
  | stop =>
      obtain ⟨-, hreq⟩ := HttpState.stepStop_frame hs
      exact .inl (hreq ▸ hx)

theorem HttpState.MsgOk.step {l : HttpLabel} (hok : h.MsgOk) (hs : h.step l = some h') :
    h'.MsgOk := by
  intro i x msg hx hmsg
  rcases HttpState.step_requests hs hx with hx | hnew | ⟨y, k, hy, hd, -⟩
  · exact hok i x msg hx hmsg
  · rw [hnew] at hmsg
    simp [HttpPc.msg] at hmsg
  · obtain ⟨hreq, -, hback, -, -⟩ := hd.thread
    rcases hback msg hmsg with hmsg | ⟨n, rfl⟩
    · exact hreq ▸ hok i y msg hy hmsg
    · exact ⟨n, by rw [hreq]⟩

/-- What a step of the server is to the manager below it: nothing, the same step, or a message
that a request's thread posts. -/
theorem HttpState.core_step {l : HttpLabel} (hs : h.step l = some h') :
    h'.core = h.core ∨ ∃ l', h.core.step l' = some h'.core ∧
      (l = .core l' ∨ ∃ r th msg, h.requests[r]? = some th ∧ th.pc.msg = some msg ∧
        l' = .env (.sendMsg r msg)) := by
  cases l with
  | core l =>
      obtain ⟨core, callbacks, hcs, rfl, -⟩ := HttpState.step_core hs
      exact .inr ⟨l, hcs, .inl rfl⟩
  | request req =>
      obtain rfl := HttpState.step_request hs
      exact .inl rfl
  | handle r =>
      obtain ⟨th, th', k, hth, hd, rfl⟩ := HttpState.step_handle hs
      rcases hd.core with heq | ⟨msg, hmsg, heq⟩
      · exact .inl heq
      · refine .inr ⟨_, ?_, .inr ⟨r, th, msg, hth, hmsg, rfl⟩⟩
        exact (HttpState.step_core_sendMsg r msg).trans (congrArg some heq.symm)
  | onCompletion t =>
      obtain ⟨call, -, rfl⟩ := HttpState.step_onCompletion hs
      exact .inl (h.stepOnCompletion_frame t call).1
  | stop => exact .inl (HttpState.stepStop_frame hs).1

theorem msgOk_of_reachable {G : HttpState → HttpLabel → Prop} (hr : httpSystem.ReachableVia G h) :
    h.MsgOk := by
  refine hr.invariant (I := HttpState.MsgOk) ?init fun _ _ _ hok _ hs => hok.step hs
  case init =>
    rintro _ ⟨n, rfl⟩
    simp [HttpState.MsgOk]

section Core

variable {G : HttpState → HttpLabel → Prop}
  {H : DispatchState FsmKind → DispatchLabel FsmKind → Prop}

/-- A run of the server is a run of the manager below it. -/
theorem HttpState.core_run (hcore : ∀ h l, G h (.core l) → H h.core l)
    (hsend : ∀ h l r (req : HttpRequest) n, G h l → H h.core (.env (.sendMsg r (req.msg n))))
    (hok : h.MsgOk) (hrun : httpSystem.RunVia G h h') :
    (dispatchSystem .boot).RunVia H h.core h'.core := by
  suffices hinv : h'.MsgOk ∧ (dispatchSystem .boot).RunVia H h.core h'.core from hinv.2
  refine hrun.invariant
    (I := fun k => k.MsgOk ∧ (dispatchSystem .boot).RunVia H h.core k.core) ?step
    ⟨hok, Lts.RunVia.refl _⟩
  case step =>
    rintro k l k' ⟨hok, ih⟩ hg hs
    refine ⟨hok.step hs, ?_⟩
    rcases HttpState.core_step hs with heq | ⟨l', hcs, rfl | ⟨r, th, msg, hth, hmsg, rfl⟩⟩
    · exact heq ▸ ih
    · exact ih.tail (hcore k l' hg) hcs
    · obtain ⟨n, rfl⟩ := hok r th msg hth hmsg
      exact ih.tail (hsend k l r th.request n hg) hcs

/-- What the server reaches, the manager below it reaches. -/
theorem HttpState.core_reachable (hcore : ∀ h l, G h (.core l) → H h.core l)
    (hsend : ∀ h l r (req : HttpRequest) n, G h l → H h.core (.env (.sendMsg r (req.msg n))))
    (hr : httpSystem.ReachableVia G h) : (dispatchSystem .boot).ReachableVia H h.core := by
  obtain ⟨h₀, ⟨n, rfl⟩, hrun⟩ := hr
  exact ⟨_, rfl, HttpState.core_run hcore hsend (by simp [HttpState.MsgOk]) hrun⟩

end Core

/-- **The manager runs below the server** as `dispatchSystem` has it, with the server for its
surroundings. -/
theorem http_core (hr : httpSystem.ReachableVia serving h) :
    (dispatchSystem .boot).ReachableVia (serial undisturbed) h.core ∧ h.MsgOk := by
  refine ⟨HttpState.core_reachable (fun h l hg => ?_) (fun _ _ _ _ _ _ => ⟨rfl, rfl⟩) hr,
    msgOk_of_reachable hr⟩
  cases l with
  | env l => cases l <;> first | exact hg | exact hg.elim
  | _ => exact hg

/-! ## Waiting and delivery -/

/-- Request `r` has registered a waiter under `key`, when the events were `since`. -/
def HttpState.Waits (h : HttpState) (r : ℕ) (key : WaitKey) (since : List Event) : Prop :=
  ∃ th msg, h.requests[r]? = some th ∧ th.pc.msg = some msg ∧ msg.waitKey = key ∧
    th.registered = some since

/-- The event may be delivered to request `r`: it is the completion of an instance that was not
reclaimed when `r` registered under the key of the event. -/
def HttpState.Delivered (h : HttpState) (r : ℕ) (event : FsmCompletionEvent) : Prop :=
  ∃ inst since, h.Waits r event.waitKey since ∧ .completed inst event ∈ h.core.events ∧
    .removed event.serviceId inst ∉ since

/-- The message of request `n`. -/
def HttpState.MsgOf (h : HttpState) (n : ℕ) (msg : CMsg) : Prop :=
  ∃ th, h.requests[n]? = some th ∧ th.pc.msg = some msg

/-- What thread `t` has in hand inside the callback. -/
def CallbackPc.Ok (h : HttpState) (t : ℕ) : CallbackPc → Prop
  | .collect inst event => .completed inst event ∈ h.core.events ∧
      ∃ pm id ret, h.core.threads t = some ⟨pm, .killFsm event.serviceId inst id ret⟩
  | .notify _ event entriesToNotify _ => ∀ r ∈ entriesToNotify, h.Delivered r event

/-- The invariant of a running server. -/
structure HttpInv (h : HttpState) : Prop where
  posted : Posted h.MsgOf h.core
  early : ∀ (r : ℕ) (th : HttpThread), h.requests[r]? = some th → th.pc.early = true →
    th.registered = none
  waiters : ∀ key r, h.waiters.Lists key r → ∃ since, h.Waits r key since ∧ since <+: h.core.events
  callbacks : ∀ t call, h.callbacks t = some call → call.Ok h t
  entries : ∀ r, (h.entries r).completed = true → h.Delivered r (h.entries r).event
  completions : ∀ (r : ℕ) (th : HttpThread) (event : FsmCompletionEvent),
    h.requests[r]? = some th → th.pc.completion = some event → h.Delivered r event
  answers : ∀ (r : ℕ) (th : HttpThread) (msg : CMsg) (body : HttpBody), h.requests[r]? = some th →
    th.pc = .answered msg ⟨.ok, body⟩ → ∃ event, h.Delivered r event ∧
      event.result = .success ∧ ⟨.ok, body⟩ = syncResponse th.request (.waited true event)

/-- Nothing that was registered, posted or reported is lost. -/
structure Grows (h h' : HttpState) : Prop where
  waits : ∀ r key since, h.Waits r key since → h'.Waits r key since
  msgOf : ∀ n msg, h.MsgOf n msg → h'.MsgOf n msg
  events : h.core.events <+: h'.core.events

theorem HttpState.Delivered.mono (hd : h.Delivered r event) (hg : Grows h h') :
    h'.Delivered r event := by
  obtain ⟨inst, since, hw, hc, hrem⟩ := hd
  exact ⟨inst, since, hg.waits _ _ _ hw, hg.events.subset hc, hrem⟩

/-- A step that moves no request. -/
theorem Grows.of_requests (hreq : h'.requests = h.requests)
    (hev : h.core.events <+: h'.core.events) : Grows h h' where
  waits r key since := by simp only [HttpState.Waits]; rw [hreq]; exact id
  msgOf n msg := by simp only [HttpState.MsgOf]; rw [hreq]; exact id
  events := hev

theorem Grows.core {l : DispatchLabel FsmKind} {core : DispatchState FsmKind}
    {callbacks : ℕ → Option CallbackPc} (hs : h.core.step l = some core) :
    Grows h { h with core := core, callbacks := callbacks } :=
  .of_requests rfl (DispatchState.step_events hs)

/-- A step of a request's thread loses nothing. -/
theorem Grows.handled (hearly : ∀ (r : ℕ) (th : HttpThread), h.requests[r]? = some th →
      th.pc.early = true → th.registered = none)
    (hr : h.requests[r]? = some th) (hd : Handled h r th th' k) :
    Grows h { k with requests := h.requests.set r th' } := by
  obtain ⟨-, hmsg, -, hreg, -⟩ := hd.thread
  obtain ⟨hlt, -⟩ := List.getElem?_eq_some_iff.mp hr
  have hself : (h.requests.set r th')[r]? = some th' := List.getElem?_set_self hlt
  refine ⟨?_, ?_, ?_⟩
  · intro i key since hw
    obtain ⟨x, msg, hx, hxm, hkey, hsince⟩ := hw
    rcases eq_or_ne i r with rfl | hne
    · obtain rfl := Option.some.inj (hr.symm.trans hx)
      refine ⟨th', msg, hself, hmsg msg hxm, hkey, (hreg (.inl ?_)).trans hsince⟩
      apply Bool.eq_false_iff.mpr
      intro he
      simp [hearly i th hr he] at hsince
    · exact ⟨x, msg, (List.getElem?_set_ne hne.symm).trans hx, hxm, hkey, hsince⟩
  · intro n msg hm
    obtain ⟨x, hx, hxm⟩ := hm
    rcases eq_or_ne n r with rfl | hne
    · obtain rfl := Option.some.inj (hr.symm.trans hx)
      exact ⟨th', hself, hmsg msg hxm⟩
    · exact ⟨x, (List.getElem?_set_ne hne.symm).trans hx, hxm⟩
  · rcases hd.core with heq | ⟨msg, -, heq⟩ <;> exact heq ▸ List.prefix_rfl

/-- A new request loses nothing. -/
theorem Grows.request {x : HttpThread} : Grows h { h with requests := h.requests ++ [x] } := by
  have hold : ∀ {i : ℕ} {y : HttpThread}, h.requests[i]? = some y →
      (h.requests ++ [x])[i]? = some y := by
    intro i y hy
    obtain ⟨hlt, -⟩ := List.getElem?_eq_some_iff.mp hy
    rwa [List.getElem?_append_left hlt]
  refine ⟨?_, ?_, List.prefix_rfl⟩
  · rintro i key since ⟨y, msg, hy, hrest⟩
    exact ⟨y, msg, hold hy, hrest⟩
  · rintro n msg ⟨y, hy, hmsg⟩
    exact ⟨y, hold hy, hmsg⟩

/-- What a thread has in hand stays in order while others act. -/
theorem CallbackPc.Ok.mono {call : CallbackPc} (hok : call.Ok h t) (hg : Grows h h')
    (ht : ∀ th, h.core.threads t = some th → h'.core.threads t = some th) : call.Ok h' t := by
  cases call with
  | collect inst event =>
      obtain ⟨hc, pm, id, ret, hth⟩ := hok
      exact ⟨hg.events.subset hc, pm, id, ret, ht _ hth⟩
  | notify inst event entriesToNotify next => exact fun r hr => (hok r hr).mono hg

/-! ## The steps keep the invariant -/

/-- What the entries of an unchanged server say, and its threads. -/
theorem HttpInv.of_frame (hinv : HttpInv h) (hg : Grows h h') (hposted : Posted h'.MsgOf h'.core)
    (hreq : h'.requests = h.requests) (hwaiters : h'.waiters = h.waiters)
    (hcallbacks : ∀ t call, h'.callbacks t = some call → call.Ok h' t)
    (hentries : ∀ r, (h'.entries r).completed = true → h'.Delivered r (h'.entries r).event) :
    HttpInv h' where
  posted := hposted
  early := hreq ▸ hinv.early
  waiters key r hl := by
    obtain ⟨since, hw, hpre⟩ := hinv.waiters key r (hwaiters ▸ hl)
    exact ⟨since, hg.waits _ _ _ hw, hpre.trans hg.events⟩
  callbacks := hcallbacks
  entries := hentries
  completions r th event hr hc := (hinv.completions r th event (hreq ▸ hr) hc).mono hg
  answers r th msg body hr hpc := by
    obtain ⟨event, hd, hrest⟩ := hinv.answers r th msg body (hreq ▸ hr) hpc
    exact ⟨event, hd.mono hg, hrest⟩

/-- An instance that is about to be removed was not removed. -/
theorem not_removed_of_killFsm {s : DispatchState FsmKind} {pm : PumpMsg} {facId id : UInt32}
    {inst : ℕ} {ret : EerrNo} (hs : (dispatchSystem .boot).ReachableVia (serial undisturbed) s)
    (hb : s.mgr.IdsLeft) (ht : s.threads t = some ⟨pm, .killFsm facId inst id ret⟩) :
    .removed facId inst ∉ s.events := by
  obtain ⟨-, ⟨fac, fsm, hd⟩, -⟩ := ((isolated_of_reachable hs hb).threads t _ ht).target _ _ rfl
  exact fun hrem => not_removed_of_deref
    (balanced_of_reachable CfactoryMgr.fresh_boot hs.reachable) hd (mem_removedIn.mpr hrem)

/-- A step of the manager. -/
theorem HttpInv.core {l : DispatchLabel FsmKind} (hinv : HttpInv h)
    (hreach : (dispatchSystem .boot).ReachableVia (serial undisturbed) h.core)
    (hg : serving h (.core l)) (hs : h.step (.core l) = some h') : HttpInv h' := by
  obtain ⟨core, callbacks, hcs, rfl, hcb⟩ := HttpState.step_core hs
  have hgrows : Grows h { h with core := core, callbacks := callbacks } := .core hcs
  have hposted : Posted h.MsgOf core := by
    refine hinv.posted.step hcs
      (fun t th ht => ((routedInv_of_reachable hreach).threads t th ht).factory) ?_
    rintro n msg rfl
    exact hg.elim
  refine hinv.of_frame hgrows (hposted.mono hgrows.msgOf) rfl rfl ?callbacks
    fun r hr => (hinv.entries r hr).mono hgrows
  case callbacks =>
    intro t call hcall
    rcases hcb with ⟨u, rfl, hnone, rfl⟩ | ⟨hl, rfl⟩
    · rcases eq_or_ne t u with rfl | hne
      · -- the thread has reported the completion and copied the callback
        simp only [Function.update_self] at hcall
        obtain ⟨pm, f, i, id, ret, ht, rfl⟩ := HttpState.notifying_eq_some hcall
        obtain ⟨th, next, m', ev, ht', hadv, rfl⟩ := DispatchState.step_advance_iff.mp hcs
        obtain rfl := Option.some.inj (ht.symm.trans ht')
        cases hadv with
        | notify =>
            exact ⟨List.mem_append_right _ (List.mem_singleton_self _), pm, id, ret,
              by simp [CfactoryMgr.completionEvent]⟩
        | noFactory hpc => simp [DispatchPc.lookup] at hpc
        | dangling hpc => simp [DispatchPc.call] at hpc
      · simp only [Function.update_of_ne hne] at hcall
        exact (hinv.callbacks t call hcall).mono hgrows fun th ht =>
          DispatchState.step_threads hcs (by simpa using hne.symm) ht
    · exact (hinv.callbacks t call hcall).mono hgrows fun th ht =>
        DispatchState.step_threads hcs (hl t) ht

/-- A request arrives. -/
theorem HttpInv.request {x : HttpRequest} (hinv : HttpInv h)
    (hs : h.step (.request x) = some h') : HttpInv h' := by
  obtain rfl := HttpState.step_request hs
  have hg : Grows h { h with requests := h.requests ++ [{ request := x }] } := .request
  refine
    { posted := hinv.posted.mono hg.msgOf
      early := ?early
      waiters := ?waiters
      callbacks := fun t call hcall => (hinv.callbacks t call hcall).mono hg fun _ ht => ht
      entries := fun r hr => (hinv.entries r hr).mono hg
      completions := ?completions
      answers := ?answers }
  case early =>
    intro r th hr he
    rcases requests_append hr with hr | rfl
    · exact hinv.early r th hr he
    · rfl
  case waiters =>
    intro key r hl
    obtain ⟨since, hw, hpre⟩ := hinv.waiters key r hl
    exact ⟨since, hg.waits _ _ _ hw, hpre⟩
  case completions =>
    intro r th event hr hc
    rcases requests_append hr with hr | rfl
    · exact (hinv.completions r th event hr hc).mono hg
    · simp [HttpPc.completion] at hc
  case answers =>
    intro r th msg body hr hpc
    rcases requests_append hr with hr | rfl
    · obtain ⟨event, hd, hrest⟩ := hinv.answers r th msg body hr hpc
      exact ⟨event, hd.mono hg, hrest⟩
    · simp at hpc

/-- Who is listed after a step of a request's thread. -/
theorem Handled.waiters (hd : Handled h r th th' k) {x : ℕ} (hl : k.waiters.Lists key x) :
    h.waiters.Lists key x ∨ (x = r ∧ th'.pc.msg.map CMsg.waitKey = some key ∧
      th'.registered = some h.core.events) := by
  cases hd with
  | registered hpc =>
      rcases Waiters.lists_register hl with hl | ⟨rfl, rfl⟩
      · exact .inl hl
      · exact .inr ⟨rfl, rfl, rfl⟩
  | unregistered hpc => exact .inl (Waiters.lists_unregister hl)
  | _ => exact .inl hl

/-- A step of a request's thread completes no entry. -/
theorem Handled.entries (hd : Handled h r th th' k) {x : ℕ} (hx : (k.entries x).completed = true) :
    (h.entries x).completed = true ∧ (k.entries x).event = (h.entries x).event := by
  cases hd with
  | registered hpc =>
      by_cases hxr : x = r
      · simp [WaitEntries.create, hxr] at hx
      · simpa [WaitEntries.create, hxr] using hx
  | _ => exact ⟨hx, rfl⟩

/-- The completion a request's thread has in hand comes from its entry. -/
theorem Handled.completion (hd : Handled h r th th' k) (hc : th'.pc.completion = some event) :
    th.pc.completion = some event ∨
      ((h.entries r).completed = true ∧ (h.entries r).event = event) := by
  cases hd with
  | retried => exact .inl hc
  | generated hpc hz hnext =>
      subst hnext
      by_cases hw : th.request.wait = true <;> simp [hw, HttpPc.completion] at hc
  | waited hpc =>
      cases hcompleted : (h.entries r).completed with
      | false => simp [hcompleted, HttpPc.completion] at hc
      | true => exact .inr ⟨rfl, by simpa [hcompleted, HttpPc.completion] using hc⟩
  | @unregistered msg outcome hpc =>
      refine .inl ?_
      rw [hpc]
      obtain _ | ⟨_ | _, _⟩ := outcome <;> exact hc
  | _ => simp [HttpPc.completion] at hc

/-- A request is answered 200 for the completion that its thread has in hand. -/
theorem Handled.answer (hd : Handled h r th th' k) {body : HttpBody}
    (hpc' : th'.pc = .answered msg ⟨.ok, body⟩) : th.pc = th'.pc ∨
      ∃ event, th.pc.completion = some event ∧ event.result = .success ∧
        ⟨.ok, body⟩ = syncResponse th.request (.waited true event) := by
  cases hd with
  | retried => exact .inl rfl
  | generated hpc hz hnext =>
      subst hnext
      by_cases hw : th.request.wait = true <;> simp [hw] at hpc'
  | sent hpc =>
      simp only [HttpPc.answered.injEq, asyncResponse] at hpc'
      split at hpc' <;> simp at hpc'
  | @answered msg outcome hpc =>
      obtain ⟨-, hresp⟩ := HttpPc.answered.inj hpc'
      cases outcome with
      | refused => simp [syncResponse] at hresp
      | waited completed event =>
          cases completed with
          | false => simp [syncResponse] at hresp
          | true =>
              refine .inr ⟨event, by rw [hpc]; rfl, ?_, hresp.symm⟩
              by_contra hne
              simp [syncResponse, hne] at hresp
  | _ => simp at hpc'

/-- A step of a request's thread. -/
theorem HttpInv.handle (hinv : HttpInv h) (hs : h.step (.handle r) = some h') : HttpInv h' := by
  obtain ⟨th, th', k, hr, hd, rfl⟩ := HttpState.step_handle hs
  have hg : Grows h { k with requests := h.requests.set r th' } := .handled hinv.early hr hd
  obtain ⟨hreq, hmsg, -, hreg, hearly⟩ := hd.thread
  obtain ⟨hlt, -⟩ := List.getElem?_eq_some_iff.mp hr
  have hself : (h.requests.set r th')[r]? = some th' := List.getElem?_set_self hlt
  refine
    { posted := ?posted
      early := ?early
      waiters := ?waiters
      callbacks := ?callbacks
      entries := ?entries
      completions := ?completions
      answers := ?answers }
  case posted =>
    refine Posted.mono ?_ hg.msgOf
    show Posted h.MsgOf k.core
    rcases hd.core with heq | ⟨msg, hm, heq⟩
    · exact heq ▸ hinv.posted
    · rw [heq]
      refine hinv.posted.env (l := .sendMsg r msg) rfl ?_
      intro pm hpm
      obtain rfl := List.mem_singleton.mp hpm
      exact ⟨th, hr, hm⟩
  case early =>
    intro i x hx he
    rcases requests_set hr hx with ⟨rfl, rfl⟩ | ⟨-, hx⟩
    · exact (hreg (.inr he)).trans (hinv.early i th hr (hearly he))
    · exact hinv.early i x hx he
  case waiters =>
    intro key i hl
    rcases hd.waiters hl with hl | ⟨rfl, hkey, hsince⟩
    · obtain ⟨since, hw, hpre⟩ := hinv.waiters key i hl
      exact ⟨since, hg.waits _ _ _ hw, hpre.trans hg.events⟩
    · obtain ⟨msg, hm, hkey⟩ := Option.map_eq_some_iff.mp hkey
      exact ⟨_, ⟨th', msg, hself, hm, hkey, hsince⟩, hg.events⟩
  case callbacks =>
    intro t call hcall
    have hcall' : h.callbacks t = some call := by cases hd <;> exact hcall
    refine (hinv.callbacks t call hcall').mono hg ?_
    intro _ ht
    rcases hd.core with heq | ⟨msg, -, heq⟩ <;> exact heq ▸ ht
  case entries =>
    intro i hi
    obtain ⟨hcompleted, hevent⟩ := hd.entries hi
    exact hevent ▸ (hinv.entries i hcompleted).mono hg
  case completions =>
    intro i x event hx hc
    rcases requests_set hr hx with ⟨rfl, rfl⟩ | ⟨-, hx⟩
    · rcases hd.completion hc with hc | ⟨hcompleted, rfl⟩
      · exact (hinv.completions i th event hr hc).mono hg
      · exact (hinv.entries i hcompleted).mono hg
    · exact (hinv.completions i x event hx hc).mono hg
  case answers =>
    intro i x msg body hx hpc
    rcases requests_set hr hx with ⟨rfl, rfl⟩ | ⟨-, hx⟩
    · rcases hd.answer hpc with hpc' | ⟨event, hc, hres, hbody⟩
      · obtain ⟨event, hdel, hrest⟩ := hinv.answers i th msg body hr (hpc'.trans hpc)
        exact ⟨event, hdel.mono hg, hreq ▸ hrest⟩
      · exact ⟨event, (hinv.completions i th event hr hc).mono hg, hres, hreq ▸ hbody⟩
    · obtain ⟨event, hdel, hrest⟩ := hinv.answers i x msg body hx hpc
      exact ⟨event, hdel.mono hg, hrest⟩

/-- A step inside the callback. -/
theorem HttpInv.onCompletion (hinv : HttpInv h)
    (hreach : (dispatchSystem .boot).ReachableVia (serial undisturbed) h.core)
    (hb : h.core.mgr.IdsLeft) (hs : h.step (.onCompletion t) = some h') : HttpInv h' := by
  obtain ⟨call, hcall, rfl⟩ := HttpState.step_onCompletion hs
  obtain ⟨hcore, hreq, hwaiters⟩ := h.stepOnCompletion_frame t call
  have hg : Grows h (h.stepOnCompletion t call) := .of_requests hreq (hcore ▸ List.prefix_rfl)
  have hposted : Posted (h.stepOnCompletion t call).MsgOf (h.stepOnCompletion t call).core :=
    hcore ▸ hinv.posted.mono hg.msgOf
  have hok := hinv.callbacks t call hcall
  have hothers : ∀ u call', h.callbacks u = some call' → call'.Ok (h.stepOnCompletion t call) u :=
    fun u call' hu => (hinv.callbacks u call' hu).mono hg fun _ ht => hcore ▸ ht
  cases call with
  | collect inst event =>
      obtain ⟨hc, pm, id, ret, ht⟩ := hok
      refine hinv.of_frame hg hposted hreq hwaiters (fun u call' hu => ?_)
        fun r hr => (hinv.entries r hr).mono hg
      rcases eq_or_ne u t with rfl | hne
      · obtain rfl : _ = call' := by simpa [HttpState.stepOnCompletion] using hu
        intro r hr
        obtain ⟨since, hw, hpre⟩ := hinv.waiters _ r (Waiters.lists_toNotify hr)
        have hrem := not_removed_of_killFsm hreach hb ht
        exact ⟨inst, since, hg.waits _ _ _ hw, hg.events.subset hc,
          fun hmem => hrem (hpre.subset hmem)⟩
      · exact hothers u call' (by simpa [HttpState.stepOnCompletion, hne] using hu)
  | notify inst event entriesToNotify next =>
      cases hnext : entriesToNotify[next]? with
      | some r =>
          have hdel : h.Delivered r event := hok r (List.mem_of_getElem? hnext)
          refine hinv.of_frame hg hposted hreq hwaiters (fun u call' hu => ?_) fun i hi => ?_
          · rcases eq_or_ne u t with rfl | hne
            · obtain rfl : _ = call' := by simpa [HttpState.stepOnCompletion, hnext] using hu
              exact fun x hx => (hok x hx).mono hg
            · exact hothers u call' (by simpa [HttpState.stepOnCompletion, hnext, hne] using hu)
          · have hentries :
                (h.stepOnCompletion t (.notify inst event entriesToNotify next)).entries =
                  h.entries.complete r event := by simp [HttpState.stepOnCompletion, hnext]
            rw [hentries] at hi ⊢
            rcases eq_or_ne i r with rfl | hne
            · simpa [WaitEntries.complete] using hdel.mono hg
            · simp only [WaitEntries.complete, Function.update_of_ne hne] at hi ⊢
              exact (hinv.entries i hi).mono hg
      | none =>
          refine hinv.of_frame hg hposted hreq hwaiters (fun u call' hu => ?_) fun i hi => ?_
          · rcases eq_or_ne u t with rfl | hne
            · simp [HttpState.stepOnCompletion, hnext] at hu
            · exact hothers u call' (by simpa [HttpState.stepOnCompletion, hnext, hne] using hu)
          · have hentries :
                (h.stepOnCompletion t (.notify inst event entriesToNotify next)).entries =
                  h.entries.release entriesToNotify := by simp [HttpState.stepOnCompletion, hnext]
            rw [hentries] at hi ⊢
            exact (hinv.entries i hi).mono hg

/-- Ids that are left after a step were left before it. -/
theorem HttpState.idsLeft_back {l : HttpLabel} (hs : h.step l = some h')
    (hb : h'.core.mgr.IdsLeft) : h.core.mgr.IdsLeft := by
  rcases HttpState.core_step hs with heq | ⟨l', hcs, -⟩
  · exact heq ▸ hb
  · exact DispatchState.idsLeft_back hcs hb

/-- **The invariant of a running server** holds throughout, as long as ids are left. -/
theorem httpInv_of_reachable (hr : httpSystem.ReachableVia serving h) (hb : h.core.mgr.IdsLeft) :
    HttpInv h := by
  refine hr.invariant_below (I := HttpInv) (B := fun h => h.core.mgr.IdsLeft) ?init
    (fun _ _ _ hs => HttpState.idsLeft_back hs) ?step hb
  case init =>
    rintro h ⟨n, rfl⟩
    refine ⟨⟨?_, ?_, ?_⟩, ?_, ?_, ?_, ?_, ?_, ?_⟩ <;>
      simp [DispatchState.resting, CfactoryMgr.boot_eq.2, MsgPorts.traffic, MsgPorts.pending,
        TimerManager.outstanding, Waiters.Lists]
  case step =>
    intro h l h' hreach hleft hinv hg hs
    have hb := HttpState.idsLeft_back hs hleft
    have hcore := (http_core hreach).1
    cases l with
    | core l => exact hinv.core hcore hg hs
    | request req => exact hinv.request hs
    | handle r => exact hinv.handle hs
    | onCompletion t => exact hinv.onCompletion hcore hb hs
    | stop => exact hg.elim

/-! ## Answers -/

/-- The instance `inst` with id `fsmId` was created by the `MSG_INIT` of request `r`, which has
the service and the session of `msg`, and has completed. -/
structure FlowOf (h : HttpState) (r : ℕ) (msg : CMsg) (inst : ℕ) (fsmId : UInt32) : Prop where
  created : ∃ msg', h.MsgOf r msg' ∧ msg'.waitKey = msg.waitKey ∧
    .created msg.serviceId inst fsmId ⟨msg', .client r⟩ ∈ h.core.events
  completed : .completed inst ⟨msg.serviceId, fsmId, msg.sessionId, .success, .msgClose⟩ ∈
    h.core.events

/-- **Synchronous answers.** While the server and the manager keep running, and ids are left: a
200 answer names the session of the request and the id of an instance that the `MSG_INIT` of a
request with the same service and session created, which had completed, and which had not been
reclaimed when the answered request registered its waiter. It is the request's own instance if
the instances that other requests with the same service and session created had all been
reclaimed by then. -/
theorem sync_answer (hr : httpSystem.ReachableVia serving h)
    (hb : ∀ fac ∈ h.core.mgr.facList, fac.created < 2 ^ 32 - 1) {body : HttpBody}
    (hth : h.requests[r]? = some th) (hpc : th.pc = .answered msg ⟨.ok, body⟩) :
    ∃ since fsmId inst r', th.registered = some since ∧
      body = .completed msg.sessionId th.request.route.serviceName fsmId "SUCCESS" ∧
      FlowOf h r' msg inst fsmId ∧ .removed msg.serviceId inst ∉ since ∧
      ((∀ i id n msg', .created msg.serviceId i id ⟨msg', .client n⟩ ∈ h.core.events → n ≠ r →
        msg'.sessionId = msg.sessionId → .removed msg.serviceId i ∈ since) → r' = r) := by
  have hinv := httpInv_of_reachable hr hb
  obtain ⟨hcore, hok⟩ := http_core hr
  obtain ⟨event, ⟨inst, since, ⟨th₀, msg₀, hth₀, hmsg₀, hkey, hsince⟩, hc, hrem⟩, hres, hbody⟩ :=
    hinv.answers r th msg body hth hpc
  obtain rfl := Option.some.inj (hth.symm.trans hth₀)
  obtain rfl : msg₀ = msg := by simpa [hpc, HttpPc.msg, eq_comm] using hmsg₀
  obtain ⟨hservice, hsession⟩ : msg₀.serviceId = event.serviceId ∧
      msg₀.sessionId = event.sessionId := by
    simpa [CMsg.waitKey, FsmCompletionEvent.waitKey] using hkey
  -- the completion leads to the creation, and the creation to a request
  obtain ⟨-, hfinal, pm₀, hcreated, htype, hpm₀⟩ :=
    completed_origin (fun _ hl => hl.onlyInit) hcore
      (noReuse_of_idsLeft CfactoryMgr.fresh_boot hcore.reachable hb) hc
  obtain ⟨hposted, hpmservice⟩ := hinv.posted.created _ _ _ _ hcreated
  obtain ⟨r', hsender, hmsgOf⟩ := hposted.client htype
  have hcreated' : .created msg₀.serviceId inst event.fsmId ⟨pm₀.msg, .client r'⟩ ∈
      h.core.events := by rw [hservice, ← hsender]; exact hcreated
  have hevent : event = ⟨msg₀.serviceId, event.fsmId, msg₀.sessionId, .success, .msgClose⟩ := by
    rw [hservice, hsession, ← hres, ← hfinal]
  refine ⟨since, event.fsmId, inst, r', hsince, ?_, ⟨⟨pm₀.msg, hmsgOf, ?_, hcreated'⟩, ?_⟩,
    hservice ▸ hrem, fun hothers => ?_⟩
  · simpa [syncResponse, hres, errNoToString, hsession] using hbody
  · rw [CMsg.waitKey, CMsg.waitKey, hpmservice, hpm₀, hservice, hsession]
  · exact hevent ▸ hc
  · by_contra hne
    exact (hservice ▸ hrem) (hothers inst _ r' _ hcreated' hne (hpm₀.trans hsession.symm))

/-! ## Concrete runs -/

/-- A label of a running server with dispatching thread 0. -/
def oneDispatcher : HttpLabel → Bool
  | .core (.env (.sendMsg _ _)) | .core (.registerFactory _) | .stop => false
  | .core (.env l) => undisturbed l
  | .core (.pop t) | .core (.advance t) => t = 0
  | _ => true

/-- While only thread 0 dispatches, a running server goes on as one. -/
theorem serving_of_oneDispatcher {l : HttpLabel} (hidle : ∀ u, u ≠ 0 → h.core.threads u = none)
    (hg : oneDispatcher l = true) (hs : h.step l = some h') :
    (∀ u, u ≠ 0 → h'.core.threads u = none) ∧ serving h l := by
  cases l with
  | core l =>
      obtain ⟨core, callbacks, hcs, rfl, -⟩ := HttpState.step_core hs
      cases l with
      | env l =>
          obtain ⟨p, -, rfl⟩ := DispatchState.step_env_iff.mp hcs
          refine ⟨hidle, ?_⟩
          cases l <;> simp_all [oneDispatcher, serving, serial]
      | registerFactory factory => simp [oneDispatcher] at hg
      | pop t =>
          obtain rfl : t = 0 := by simpa [oneDispatcher] using hg
          obtain ⟨hnone, pm, p, -, rfl⟩ := DispatchState.step_pop_iff.mp hcs
          refine ⟨fun u hu => (Function.update_of_ne hu _ _).trans (hidle u hu), ?_⟩
          intro u
          rcases eq_or_ne u 0 with rfl | hu
          · exact hnone
          · exact hidle u hu
      | advance t =>
          obtain rfl : t = 0 := by simpa [oneDispatcher] using hg
          obtain ⟨th, next, m', ev, -, -, rfl⟩ := DispatchState.step_advance_iff.mp hcs
          exact ⟨fun u hu => (Function.update_of_ne hu _ _).trans (hidle u hu), trivial⟩
  | request req =>
      obtain rfl := HttpState.step_request hs
      exact ⟨hidle, trivial⟩
  | handle r =>
      obtain ⟨th, th', k, -, hd, rfl⟩ := HttpState.step_handle hs
      refine ⟨?_, trivial⟩
      intro u hu
      rcases hd.core with heq | ⟨msg, -, heq⟩ <;> exact heq ▸ hidle u hu
  | onCompletion t =>
      obtain ⟨call, -, rfl⟩ := HttpState.step_onCompletion hs
      exact ⟨(h.stepOnCompletion_frame t call).1 ▸ hidle, trivial⟩
  | stop => simp [oneDispatcher] at hg

/-- A schedule with dispatching thread 0 is a run of a running server. -/
theorem serving_of_exec {n : UInt32} {labels : List HttpLabel}
    (h : httpSystem.exec (fun _ l => oneDispatcher l)
      { core := .resting .boot [], nextSessionId := n } labels = some h') :
    httpSystem.ReachableVia serving h' :=
  ⟨_, ⟨n, rfl⟩, Lts.runVia_of_exec_of_invariant
    (I := fun h => ∀ u, u ≠ 0 → h.core.threads u = none)
    (fun _ _ _ hidle hg hs => serving_of_oneDispatcher hidle hg hs) (fun _ _ => rfl) h⟩

/-- Thread 0 takes a message and goes through `n` steps of its dispatch. -/
def dispatchSteps (n : ℕ) : List HttpLabel :=
  .core (.pop 0) :: List.replicate n (.core (.advance 0))

/-- A synchronous authentication that the client gives session 7. -/
def authRequest : HttpRequest where
  route := .auth
  wait := true
  sessionId := some ⟨7, by decide⟩

/-- The first request starts its flow, which comes to its `MSG_CLOSE`. -/
def firstFlow : List HttpLabel :=
  [.request authRequest, .handle 0, .handle 0, .handle 0] ++ dispatchSteps 7 ++ dispatchSteps 6 ++
    dispatchSteps 6 ++ dispatchSteps 6 ++ [.core (.env (.timerWake 0)), .core (.env (.timerPost 0))]

/-- The message that an event reports as the creator of an instance. -/
def Event.creator : Event → Option PumpMsg
  | .created _ _ _ pm => some pm
  | _ => none

/-- The ids of the instances that the message of request `r` created. -/
def createdBy (r : ℕ) (events : List Event) : List UInt32 :=
  events.filterMap fun
    | .created _ _ fsmId pm => if pm.sender = .client r then some fsmId else none
    | _ => none

/-- The first request is answered with its own instance, while an asynchronous one is accepted. -/
theorem sync_answer_own_flow : ∃ (h : HttpState) (since : List Event) (inst : ℕ),
    httpSystem.ReachableVia serving h ∧
      (h.requests[0]?.map HttpThread.pc) = some (.answered (authRequest.msg 1)
        ⟨.ok, .completed 7 "auth" 1 "SUCCESS"⟩) ∧
      FlowOf h 0 (authRequest.msg 1) inst 1 ∧ .removed facAuthFacId inst ∉ since := by
  obtain ⟨h, hh, th, hth, hpc, hreq, hb, hcreated⟩ : ∃ h : HttpState,
      httpSystem.exec (fun _ l => oneDispatcher l) { core := .resting .boot [], nextSessionId := 1 }
        (firstFlow ++ dispatchSteps 7 ++ List.replicate 3 (.onCompletion 0) ++
          [.core (.advance 0), .handle 0, .request { route := .register, wait := false },
            .handle 0, .handle 1, .handle 1, .handle 0]) = some h ∧
        ∃ th, h.requests[0]? = some th ∧
          th.pc = .answered (authRequest.msg 1) ⟨.ok, .completed 7 "auth" 1 "SUCCESS"⟩ ∧
          th.request = authRequest ∧
          (∀ fac ∈ h.core.mgr.facList, fac.created < 2 ^ 32 - 1) ∧
          ∀ e ∈ h.core.events, ∀ pm ∈ e.creator, pm.sender = .client 0 :=
    ⟨_, rfl, _, rfl, by decide, by decide, by decide, by decide⟩
  have hr := serving_of_exec hh
  obtain ⟨since, fsmId, inst, r', -, hbody, hflow, hrem, hown⟩ := sync_answer hr hb hth hpc
  obtain rfl : r' = 0 := by
    apply hown
    intro i id n msg' hmem hne
    have hsender := hcreated _ hmem _ rfl
    simp_all
  have hid : 1 = fsmId := (HttpBody.completed.inj hbody).2.2.1
  subst hid
  exact ⟨h, since, inst, hr, by simp [hth, hpc], hflow, hrem⟩

/-- **One completion for two requests.** A second request with the same session registers while
the first flow is at its end. It is answered with the instance of the first request, although
its own instance has been created meanwhile. -/
theorem answered_by_another_flow : ∃ h : HttpState, httpSystem.ReachableVia serving h ∧
    (h.requests[1]?.map HttpThread.pc) = some (.answered (authRequest.msg 2)
      ⟨.ok, .completed 7 "auth" 1 "SUCCESS"⟩) ∧
    createdBy 0 h.core.events = [1] ∧ createdBy 1 h.core.events = [2] := by
  obtain ⟨h, hh, hanswer, hfirst, hsecond⟩ : ∃ h : HttpState,
      httpSystem.exec (fun _ l => oneDispatcher l) { core := .resting .boot [], nextSessionId := 1 }
        (firstFlow ++ [.request authRequest, .handle 1, .handle 1, .handle 1] ++ dispatchSteps 7 ++
          List.replicate 4 (.onCompletion 0) ++ [.core (.advance 0)] ++ dispatchSteps 7 ++
          [.handle 1, .handle 1, .handle 1]) = some h ∧
        (h.requests[1]?.map HttpThread.pc) = some (.answered (authRequest.msg 2)
          ⟨.ok, .completed 7 "auth" 1 "SUCCESS"⟩) ∧
        createdBy 0 h.core.events = [1] ∧ createdBy 1 h.core.events = [2] :=
    ⟨_, rfl, by decide, by decide, by decide⟩
  exact ⟨h, serving_of_exec hh, hanswer, hfirst, hsecond⟩

end FsmFramework
