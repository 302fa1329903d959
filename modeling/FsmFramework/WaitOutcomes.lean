import FsmFramework.HttpAnswers
import FsmFramework.WaitSystem

/-!
# The outcome of a wait

What a request reads from its entry is what was written there last. `OnCompletion` and
`NotifyAllWaitersAsStopped` write to every entry that they have collected, whether or not it is
completed, until the request has woken up and taken the lock of its entry; so an outcome is
final once nobody who has collected the entry is still on the way to it and nobody collects it
any more.

## Main results

* `outcome_final` — how the entry of a waiting request can change.
* `outcome_overwritten` — a delivered success that is answered as a failure.
-/

namespace FsmFramework

/-- The call will still write to the entry of request `r`. -/
def NotifyCall.Pending (c : NotifyCall) (r : ℕ) : Prop := r ∈ c.entriesToNotify.drop c.next

/-- What the request has in hand once its wait is over. -/
def WaitPc.outcome : WaitPc → Option WaitOutcome
  | .unregisterWaiter outcome | .returning outcome | .answered outcome => some outcome
  | .syncSendMsg | .waitFor => none

variable {τ : Type*} [DecidableEq τ] {w w' : WaitState τ} {l : WaitLabel τ} {r : ℕ}

/-! ## How an entry changes -/

theorem WaitState.deliver_self {t : τ} {c : NotifyCall} : (w.deliver t c r).entries r =
    { w.entries r with event := c.written (w.entries r), completed := true } :=
  Function.update_self ..

/-- The step writes the event of a call to the entry of request `r`. -/
def Writes (w : WaitState τ) (l : WaitLabel τ) (r : ℕ) (event : FsmCompletionEvent) : Prop :=
  ∃ t c, l = .deliver t ∧ w.calls t = some c ∧ c.entriesToNotify[c.next]? = some r ∧
    event = c.written (w.entries r)

/-- A step that writes nothing to the entry of a registered request leaves it as it is. -/
theorem entry_step (hr : w.requests r ≠ none) (hs : w.step l = some w') :
    ((w'.entries r).completed = (w.entries r).completed ∧
        (w'.entries r).event = (w.entries r).event) ∨
      ((w'.entries r).completed = true ∧ Writes w l r (w'.entries r).event) := by
  cases WaitState.step_cases hs with
  | @registered x key hnone =>
      have hx : r ≠ x := by
        rintro rfl
        exact hr hnone
      have hentry : (w.registerWaiter x key).entries r = w.entries r :=
        WaitEntries.create_of_ne hx
      exact .inl ⟨congrArg _ hentry, congrArg _ hentry⟩
  | request _ hstep => cases hstep <;> exact .inl ⟨rfl, rfl⟩
  | collected | cleared | ended => exact .inl ⟨rfl, rfl⟩
  | @delivered t c x hc hx =>
      by_cases hxr : r = x
      · subst hxr
        exact .inr ⟨by rw [WaitState.deliver_self], t, c, rfl, hc, hx,
          by rw [WaitState.deliver_self]⟩
      · have hentry : (w.deliver t c x).entries r = w.entries r := WaitEntries.complete_of_ne hxr
        exact .inl ⟨congrArg _ hentry, congrArg _ hentry⟩

/-- A request stays, under its key. What it has in hand is the refusal of its message or what it
has read in its entry. -/
theorem request_step {q : WaitThread} (hq : w.requests r = some q) (hs : w.step l = some w') :
    ∃ pc, w'.requests r = some { q with pc := pc } ∧
      (pc.outcome = q.pc.outcome ∨ (∃ sendResult, pc.outcome = some (.refused sendResult)) ∨
        (w'.entries = w.entries ∧
          pc.outcome = some (.waited (w.entries r).completed (w.entries r).event))) := by
  cases WaitState.step_cases hs with
  | @registered x key hnone =>
      have hx : r ≠ x := by
        rintro rfl
        simp [hq] at hnone
      exact ⟨q.pc, (Function.update_of_ne hx ..).trans hq, .inl rfl⟩
  | @request x q' _ _ hq' hstep =>
      by_cases hx : r = x
      · subst hx
        obtain rfl := Option.some.inj (hq.symm.trans hq')
        cases hstep with
        | @sent sendResult pc hpc hnext =>
            refine ⟨pc, Function.update_self .., ?_⟩
            split at hnext
            · exact .inr (.inl ⟨sendResult, by simp [hnext, WaitPc.outcome]⟩)
            · exact .inl (by simp [hnext, hpc, WaitPc.outcome])
        | woken hpc => exact ⟨_, Function.update_self .., .inr (.inr ⟨rfl, rfl⟩)⟩
        | unregistered hpc | dropped hpc =>
            exact ⟨_, Function.update_self .., .inl (by simp [hpc, WaitPc.outcome])⟩
      · obtain ⟨-, -, pc, hreq, -⟩ := hstep.frame
        exact ⟨q.pc, by simp [hreq, Function.update_of_ne hx, hq], .inl rfl⟩
  | collected | cleared | delivered | ended => exact ⟨q.pc, hq, .inl rfl⟩

/-- Nothing takes back that an entry is completed. -/
theorem completed_step (hr : w.requests r ≠ none) (hdone : (w.entries r).completed = true)
    (hs : w.step l = some w') : (w'.entries r).completed = true := by
  rcases entry_step hr hs with ⟨hsame, -⟩ | ⟨hdone', -⟩
  · exact hsame.trans hdone
  · exact hdone'

/-! ## How a call changes -/

/-- Where a call comes from: it began with this step, or it has delivered one more event. -/
theorem call_step {t : τ} {c' : NotifyCall} (hc' : w'.calls t = some c')
    (hs : w.step l = some w') :
    w.calls t = some c' ∨
      (∃ event, l = .onCompletion t event ∧
        c' = ⟨some event, w.waiters.toNotify w.entries.alive event.waitKey, 0⟩) ∨
      (l = .notifyAll t ∧ c' = ⟨none, w.waiters.allToNotify w.entries.alive, 0⟩) ∨
      (∃ c r, w.calls t = some c ∧ c.entriesToNotify[c.next]? = some r ∧
        (w'.entries r).completed = true ∧ c' = { c with next := c.next + 1 }) := by
  have hupdate : ∀ {i : τ} {o : Option NotifyCall}, w'.calls = Function.update w.calls i o →
      (i = t ∧ o = some c') ∨ w.calls t = some c' := by
    intro i o heq
    by_cases hi : t = i
    · subst hi
      exact .inl ⟨rfl, by simpa [heq] using hc'⟩
    · exact .inr (by simpa [heq, Function.update_of_ne hi] using hc')
  cases WaitState.step_cases hs with
  | registered hnone => exact .inl hc'
  | request _ hstep => exact .inl (hstep.frame.1 ▸ hc')
  | @collected i event hnone =>
      rcases hupdate (i := i) rfl with ⟨rfl, heq⟩ | hold
      · exact .inr (.inl ⟨event, rfl, (Option.some.inj heq).symm⟩)
      · exact .inl hold
  | @cleared i hnone =>
      rcases hupdate (i := i) rfl with ⟨rfl, heq⟩ | hold
      · exact .inr (.inr (.inl ⟨rfl, (Option.some.inj heq).symm⟩))
      · exact .inl hold
  | @delivered i c r hc hr =>
      rcases hupdate (i := i) rfl with ⟨rfl, heq⟩ | hold
      · exact .inr (.inr (.inr ⟨c, r, hc, hr, by rw [WaitState.deliver_self],
          (Option.some.inj heq).symm⟩))
      · exact .inl hold
  | @ended i c hc hr =>
      rcases hupdate (i := i) rfl with ⟨rfl, heq⟩ | hold
      · contradiction
      · exact .inl hold

/-- A call that is still to write to an entry has done so after the step, or is still to. -/
theorem pending_step {t : τ} {c : NotifyCall} (hc : w.calls t = some c) (hp : c.Pending r)
    (hs : w.step l = some w') :
    (w'.entries r).completed = true ∨
      ∃ c', w'.calls t = some c' ∧ c'.event = c.event ∧ c'.Pending r := by
  have hkeep : ∀ {i : τ} {o : Option NotifyCall}, w.calls i = none →
      Function.update w.calls i o t = some c := by
    intro i o hnone
    refine (Function.update_of_ne ?_ ..).trans hc
    rintro rfl
    simp [hc] at hnone
  cases WaitState.step_cases hs with
  | registered => exact .inr ⟨c, hc, rfl, hp⟩
  | request _ hstep => exact .inr ⟨c, hstep.frame.1 ▸ hc, rfl, hp⟩
  | collected hnone | cleared hnone => exact .inr ⟨c, hkeep hnone, rfl, hp⟩
  | @delivered i d x hd hx =>
      by_cases hi : t = i
      · subst hi
        obtain rfl := Option.some.inj (hc.symm.trans hd)
        obtain ⟨hlt, hget⟩ := List.getElem?_eq_some_iff.mp hx
        rw [NotifyCall.Pending, List.drop_eq_getElem_cons hlt, hget, List.mem_cons] at hp
        rcases hp with rfl | hp
        · exact .inl (by rw [WaitState.deliver_self])
        · exact .inr ⟨_, Function.update_self .., rfl, hp⟩
      · exact .inr ⟨c, (Function.update_of_ne hi ..).trans hc, rfl, hp⟩
  | @ended i d hd hx =>
      by_cases hi : t = i
      · subst hi
        obtain rfl := Option.some.inj (hc.symm.trans hd)
        rw [NotifyCall.Pending, List.drop_eq_nil_of_le (List.getElem?_eq_none_iff.mp hx)] at hp
        exact absurd hp List.not_mem_nil
      · exact .inr ⟨c, (Function.update_of_ne hi ..).trans hc, rfl, hp⟩

/-! ## What the calls have done -/

/-- What has become of the entries that calls have collected. -/
structure DeliveryInv (w : WaitState τ) : Prop where
  keyed : ∀ t c event, w.calls t = some c → c.event = some event → ∀ r ∈ c.entriesToNotify,
    ∃ q, w.requests r = some q ∧ q.key = event.waitKey
  delivered : ∀ t c, w.calls t = some c → ∀ r ∈ c.entriesToNotify.take c.next,
    (w.entries r).completed = true
  cleared : ∀ r q, w.requests r = some q → q.pc.registered = true → q.since < w.clears →
    (w.entries r).completed = true ∨
      ∃ t c, w.calls t = some c ∧ c.event = none ∧ c.Pending r

namespace DeliveryInv

omit [DecidableEq τ] in
theorem init : DeliveryInv ({} : WaitState τ) where
  keyed t c event hc := by simp at hc
  delivered t c hc := by simp at hc
  cleared r q hq := by simp at hq

theorem keyed_step (hinv : DeliveryInv w) (hreg : RegistryInv w) (hs : w.step l = some w') (t : τ)
    (c : NotifyCall) (event : FsmCompletionEvent) (hc : w'.calls t = some c)
    (he : c.event = some event) (r : ℕ) (hr : r ∈ c.entriesToNotify) :
    ∃ q, w'.requests r = some q ∧ q.key = event.waitKey := by
  have hstay : (∃ q, w.requests r = some q ∧ q.key = event.waitKey) →
      ∃ q, w'.requests r = some q ∧ q.key = event.waitKey := by
    rintro ⟨q, hq, hkey⟩
    obtain ⟨pc, hq', -⟩ := request_step hq hs
    exact ⟨_, hq', hkey⟩
  refine hstay ?_
  rcases call_step hc hs with hold | ⟨event', -, rfl⟩ | ⟨-, rfl⟩ | ⟨d, x, hd, hx, -, rfl⟩
  · exact hinv.keyed t c event hold he r hr
  · obtain rfl := Option.some.inj he
    obtain ⟨q, hq, hkey, -⟩ := (hreg.listed _ r).mp (List.mem_filter.mp hr).1
    exact ⟨q, hq, hkey⟩
  · cases he
  · exact hinv.keyed t d event hd he r hr

theorem delivered_step (hinv : DeliveryInv w) (hreg : RegistryInv w) (hs : w.step l = some w')
    (t : τ) (c : NotifyCall) (hc : w'.calls t = some c) (r : ℕ)
    (hr : r ∈ c.entriesToNotify.take c.next) : (w'.entries r).completed = true := by
  have hstay : ∀ d, w.calls t = some d → r ∈ d.entriesToNotify.take d.next →
      (w'.entries r).completed = true := by
    intro d hd hr
    refine completed_step (hreg.held t r ?_) (hinv.delivered t d hd r hr) hs
    rw [hd]
    exact List.mem_of_mem_take hr
  rcases call_step hc hs with hold | ⟨event', -, rfl⟩ | ⟨-, rfl⟩ | ⟨d, x, hd, hx, hdone, rfl⟩
  · exact hstay c hold hr
  · simp at hr
  · simp at hr
  · obtain ⟨hlt, hget⟩ := List.getElem?_eq_some_iff.mp hx
    rw [← List.take_append_getElem hlt, List.mem_append, List.mem_singleton, hget] at hr
    rcases hr with hr | rfl
    · exact hstay d hd hr
    · exact hdone

theorem cleared_step (hinv : DeliveryInv w) (hreg : RegistryInv w) (hs : w.step l = some w')
    (r : ℕ) (q : WaitThread) (hq : w'.requests r = some q) (hpc : q.pc.registered = true)
    (hsince : q.since < w'.clears) :
    (w'.entries r).completed = true ∨
      ∃ t c, w'.calls t = some c ∧ c.event = none ∧ c.Pending r := by
  -- a request that was notified of a stop before this step
  have hstay : ∀ q, w.requests r = some q → q.pc.registered = true → q.since < w.clears →
      (w'.entries r).completed = true ∨
        ∃ t c, w'.calls t = some c ∧ c.event = none ∧ c.Pending r := by
    intro q hq hpc hsince
    rcases hinv.cleared r q hq hpc hsince with hdone | ⟨t, c, hc, hevent, hp⟩
    · exact .inl (completed_step (by simp [hq]) hdone hs)
    · refine (pending_step hc hp hs).imp_right fun ⟨c', hc', hevent', hp'⟩ => ?_
      exact ⟨t, c', hc', hevent'.trans hevent, hp'⟩
  cases WaitState.step_cases hs with
  | @registered x key hnone =>
      by_cases hx : r = x
      · subst hx
        have hnew : (w.registerWaiter r key).requests r = some ⟨key, .syncSendMsg, w.clears⟩ :=
          Function.update_self ..
        obtain rfl := Option.some.inj (hnew.symm.trans hq)
        exact absurd hsince (lt_irrefl _)
      · exact hstay q ((Function.update_of_ne hx ..).symm.trans hq) hpc hsince
  | @request x q₀ _ _ hq₀ hstep =>
      obtain ⟨-, hclears, pc, hreq, hmono⟩ := hstep.frame
      rw [hclears] at hsince
      by_cases hx : r = x
      · subst hx
        obtain rfl : { q₀ with pc := pc } = q := by simpa [hreq] using hq
        exact hstay q₀ hq₀ (hmono hpc) hsince
      · exact hstay q (by simpa [hreq, Function.update_of_ne hx] using hq) hpc hsince
  | collected | delivered | ended => exact hstay q hq hpc hsince
  | @cleared t hnone =>
      rcases Nat.lt_succ_iff_lt_or_eq.mp hsince with hlt | heq
      · exact hstay q hq hpc hlt
      · have hmem := (hreg.listed q.key r).mpr ⟨q, hq, rfl, hpc, heq⟩
        refine .inr ⟨t, _, Function.update_self .., rfl, ?_⟩
        exact Waiters.mem_allToNotify.mpr ⟨hreg.alive_of_listed hmem, q.key, hmem⟩

/-- Every step keeps it. -/
theorem step (hinv : DeliveryInv w) (hreg : RegistryInv w) (hs : w.step l = some w') :
    DeliveryInv w' where
  keyed := hinv.keyed_step hreg hs
  delivered := hinv.delivered_step hreg hs
  cleared := hinv.cleared_step hreg hs

end DeliveryInv

/-- It holds in every reachable state. -/
theorem deliveryInv_of_reachable {G : WaitState τ → WaitLabel τ → Prop}
    (hw : (waitSystem τ).ReachableVia G w) : DeliveryInv w := by
  have hboth : RegistryInv w ∧ DeliveryInv w := by
    refine hw.invariant (I := fun w => RegistryInv w ∧ DeliveryInv w) ?init ?step
    case init =>
      rintro _ rfl
      exact ⟨.init, .init⟩
    case step =>
      rintro w l w' ⟨hreg, hinv⟩ - hs
      exact ⟨hreg.step hs, hinv.step hreg hs⟩
  exact hboth.2

/-! ## Until the request reads it -/

/-- The step is a call that collects the entry of request `r`. -/
def Collects (r : ℕ) (w : WaitState τ) : WaitLabel τ → Prop
  | .onCompletion _ event => r ∈ w.waiters.toNotify w.entries.alive event.waitKey
  | .notifyAll _ => r ∈ w.waiters.allToNotify w.entries.alive
  | _ => False

/-- Request `r`, whose entry is completed, waits, or it has read that the entry is. -/
structure Completed (w : WaitState τ) (r : ℕ) (key : WaitKey) : Prop where
  request : ∃ q, w.requests r = some q ∧ q.key = key ∧ ∀ completed completion,
    q.pc.outcome = some (.waited completed completion) → completed = true
  completed : (w.entries r).completed = true

theorem Completed.step {key : WaitKey} (h : Completed w r key) (hs : w.step l = some w') :
    Completed w' r key := by
  obtain ⟨⟨q, hq, hkey, hread⟩, hdone⟩ := h
  obtain ⟨pc, hq', houtcome⟩ := request_step hq hs
  refine ⟨⟨_, hq', hkey, fun completed completion ho => ?_⟩,
    completed_step (by simp [hq]) hdone hs⟩
  rcases houtcome with hsame | ⟨sendResult, hrefused⟩ | ⟨-, hwoken⟩
  · exact hread completed completion (hsame.symm.trans ho)
  · simp [hrefused] at ho
  · obtain ⟨rfl, -⟩ : (w.entries r).completed = completed ∧ _ := by simpa [hwoken] using ho
    exact hdone

/-- Nobody is still to write to the entry, and what the request has read is what stands
there. -/
structure Settled (w : WaitState τ) (r : ℕ) (event : FsmCompletionEvent) : Prop where
  quiet : ∀ t c, w.calls t = some c → ¬ c.Pending r
  event_eq : (w.entries r).event = event
  request : ∃ q, w.requests r = some q ∧ ∀ completed completion,
    q.pc.outcome = some (.waited completed completion) → completion = event

theorem Settled.step {event : FsmCompletionEvent} (h : Settled w r event)
    (hcollect : ¬ Collects r w l) (hs : w.step l = some w') : Settled w' r event := by
  obtain ⟨q, hq, hread⟩ := h.request
  have hsame : (w'.entries r).event = event := by
    rcases entry_step (r := r) (by simp [hq]) hs with ⟨-, hsame⟩ | ⟨-, t, c, -, hc, hr, -⟩
    · exact hsame.trans h.event_eq
    · obtain ⟨hlt, rfl⟩ := List.getElem?_eq_some_iff.mp hr
      refine absurd ?_ (h.quiet t c hc)
      rw [NotifyCall.Pending, List.drop_eq_getElem_cons hlt]
      exact List.mem_cons_self
  refine ⟨?quiet, hsame, ?request⟩
  case quiet =>
    intro t c hc hp
    rcases call_step hc hs with hold | ⟨event', rfl, rfl⟩ | ⟨rfl, rfl⟩ | ⟨d, x, hd, -, -, rfl⟩
    · exact h.quiet t c hold hp
    · exact hcollect hp
    · exact hcollect hp
    · refine h.quiet t d hd (List.mem_of_mem_drop (i := 1) ?_)
      rw [List.drop_drop]
      exact hp
  case request =>
    obtain ⟨pc, hq', houtcome⟩ := request_step hq hs
    refine ⟨_, hq', fun completed completion ho => ?_⟩
    rcases houtcome with hpc | ⟨sendResult, hrefused⟩ | ⟨-, hwoken⟩
    · exact hread completed completion (hpc.symm.trans ho)
    · simp [hrefused] at ho
    · obtain ⟨-, rfl⟩ : _ ∧ (w.entries r).event = completion := by simpa [hwoken] using ho
      exact h.event_eq

/-- **The outcome of a wait.** The entry of a request that has not read it yet is completed.
It stays so, and the request does not time out. Its event changes in just those steps in which
a call that has collected the entry writes to it: `NotifyAllWaitersAsStopped`, or an
`OnCompletion` with the request's key. When no call is on its way to the entry and no call
collects it any more, the event is final, and a success is answered with it. -/
theorem outcome_final (hw : (waitSystem τ).Reachable w) {q : WaitThread}
    (hq : w.requests r = some q) (hwait : q.pc.outcome = none)
    (hdone : (w.entries r).completed = true) :
    (∀ w', (waitSystem τ).RunVia Lts.anyStep w w' → Completed w' r q.key) ∧
      (∀ w' l w'', (waitSystem τ).RunVia Lts.anyStep w w' → w'.step l = some w'' →
        (w''.entries r).event ≠ (w'.entries r).event →
          ∃ t c, l = .deliver t ∧ w'.calls t = some c ∧ r ∈ c.entriesToNotify ∧
            (w''.entries r).event = c.written (w'.entries r) ∧
            ∀ event, c.event = some event → event.waitKey = q.key) ∧
      ((∀ t c, w.calls t = some c → ¬ c.Pending r) →
        ∀ w', (waitSystem τ).RunVia (fun w l => ¬ Collects r w l) w w' →
          (w'.entries r).event = (w.entries r).event ∧
            ∀ q' completed completion, w'.requests r = some q' →
              q'.pc.outcome = some (.waited completed completion) →
                completed = true ∧ completion = (w.entries r).event ∧
                  ((w.entries r).event.result = .success → ∀ req : HttpRequest,
                    syncResponse req (.waited completed completion) =
                      ⟨.ok, .completed (w.entries r).event.sessionId req.route.serviceName
                        (w.entries r).event.fsmId (errNoToString .success)⟩)) := by
  have hstart : Completed w r q.key := ⟨⟨q, hq, rfl, by simp [hwait]⟩, hdone⟩
  have hcompleted : ∀ w', (waitSystem τ).RunVia Lts.anyStep w w' → Completed w' r q.key :=
    fun w' hrun => hrun.invariant (I := fun w => Completed w r q.key)
      (fun _ _ _ h _ hs => h.step hs) hstart
  refine ⟨hcompleted, ?overwritten, ?final⟩
  case overwritten =>
    intro w' l w'' hrun hs hne
    obtain ⟨q', hq', hkey, -⟩ := (hcompleted w' hrun).request
    rcases entry_step (r := r) (by simp [hq']) hs with ⟨-, hsame⟩ | ⟨-, t, c, rfl, hc, hr, hevent⟩
    · exact absurd hsame hne
    · have hmem := List.mem_of_getElem? hr
      refine ⟨t, c, rfl, hc, hmem, hevent, fun event he => ?_⟩
      obtain ⟨q₀, hq₀, hkey₀⟩ :=
        (deliveryInv_of_reachable (hw.run hrun)).keyed t c event hc he r hmem
      obtain rfl := Option.some.inj (hq'.symm.trans hq₀)
      exact hkey₀.symm.trans hkey
  case final =>
    intro hquiet w' hrun
    have hsettled : Settled w' r (w.entries r).event :=
      hrun.invariant (I := fun w' => Settled w' r (w.entries r).event)
        (fun _ _ _ h hg hs => h.step hg hs) ⟨hquiet, rfl, ⟨q, hq, by simp [hwait]⟩⟩
    refine ⟨hsettled.event_eq, fun q' completed completion hq' ho => ?_⟩
    obtain ⟨q₁, hq₁, -, hread⟩ := (hcompleted w' (hrun.mono fun _ _ _ => trivial)).request
    obtain rfl := Option.some.inj (hq₁.symm.trans hq')
    obtain ⟨q₂, hq₂, hevent⟩ := hsettled.request
    obtain rfl := Option.some.inj (hq₂.symm.trans hq')
    obtain rfl := hread completed completion ho
    obtain rfl := hevent true completion ho
    exact ⟨rfl, rfl, fun hsuccess req => by simp [syncResponse, hsuccess]⟩

/-- A success has been delivered to a request that waits. -/
def deliveredSchedule : List (WaitLabel Unit) :=
  [.registerWaiter 0 ⟨1, 7⟩, .sendMsg 0 .success, .onCompletion () ⟨1, 1, 7, .success, .msgClose⟩,
    .deliver ()]

/-- The call returns, and the request wakes up, unregisters and returns. -/
def readSchedule : List (WaitLabel Unit) := [.deliver (), .wake 0, .unregisterWaiter 0, .drop 0]

/-- The step does not begin a call. -/
def WaitLabel.uncollecting : WaitLabel τ → Bool
  | .onCompletion .. | .notifyAll _ => false
  | _ => true

theorem outcome_final_read : ∃ (w w' : WaitState Unit) (q : WaitThread)
    (completion : FsmCompletionEvent),
    (waitSystem Unit).exec (fun _ _ => true) {} deliveredSchedule = some w ∧
      (waitSystem Unit).exec (fun _ l => l.uncollecting) w readSchedule = some w' ∧
      w'.requests 0 = some q ∧ q.pc = .answered (.waited true completion) ∧
      syncResponse { route := .auth, wait := true } (.waited true completion) =
        ⟨.ok, .completed 7 "auth" 1 "SUCCESS"⟩ := by
  obtain ⟨w, w', hw, hw', ⟨q, hq, hwait, hdone, hevent⟩, ⟨c, hc, hquiet⟩, q', completion, hq',
      hanswer⟩ : ∃ w w' : WaitState Unit,
      (waitSystem Unit).exec (fun _ _ => true) {} deliveredSchedule = some w ∧
        (waitSystem Unit).exec (fun _ l => l.uncollecting) w readSchedule = some w' ∧
        (∃ q, w.requests 0 = some q ∧ q.pc.outcome = none ∧ (w.entries 0).completed = true ∧
          (w.entries 0).event = ⟨1, 1, 7, .success, .msgClose⟩) ∧
        (∃ c, w.calls () = some c ∧ c.entriesToNotify.drop c.next = []) ∧
        ∃ q' completion, w'.requests 0 = some q' ∧
          q'.pc = .answered (.waited true completion) :=
    ⟨_, _, rfl, rfl, ⟨_, rfl, rfl, by decide, by decide⟩, ⟨_, rfl, rfl⟩, _, _, rfl, rfl⟩
  obtain ⟨-, -, hfinal⟩ :=
    outcome_final ⟨_, rfl, Lts.runVia_of_exec (fun _ _ _ => trivial) hw⟩ hq hwait hdone
  have hidle : ∀ t c, w.calls t = some c → ¬ c.Pending 0 := by
    rintro ⟨⟩ d hd hp
    obtain rfl := Option.some.inj (hc.symm.trans hd)
    simp [NotifyCall.Pending, hquiet] at hp
  have hrun : (waitSystem Unit).RunVia (fun w l => ¬ Collects 0 w l) w w' :=
    Lts.runVia_of_exec (fun _ l hl => by cases l <;> simp_all [Collects, WaitLabel.uncollecting])
      hw'
  obtain ⟨-, hread⟩ := hfinal hidle w' hrun
  obtain ⟨-, -, hresponse⟩ := hread q' true completion hq' (by rw [hanswer]; rfl)
  refine ⟨w, w', q', completion, hw, hw', hq', hanswer, ?_⟩
  rw [hresponse (by rw [hevent]) _, hevent]
  rfl

/-- **A success that is not answered.** The completion of a flow has been delivered to the
request that waits for it. Before this request wakes up, the server is stopped, and the request
is answered that its flow has failed. -/
theorem outcome_overwritten : ∃ h h' : HttpState, httpSystem.Reachable h ∧
    httpSystem.RunVia Lts.anyStep h h' ∧
    (h.requests[0]?.map HttpThread.pc) = some (.waitFor (authRequest.msg 1)) ∧
    h.entries 0 = ⟨true, ⟨facAuthFacId, 1, 7, .success, .msgClose⟩, 1⟩ ∧
    (h'.requests[0]?.map HttpThread.pc) = some (.answered (authRequest.msg 1)
      ⟨.internalServerError, .error "fsm_failed" "INVALID_STATE"⟩) := by
  obtain ⟨h, h', hh, hh', hwait, hentry, hanswer⟩ : ∃ h h' : HttpState,
      httpSystem.exec (fun _ _ => true) { core := .resting .boot [], nextSessionId := 1 }
        (firstFlow ++ dispatchSteps 7 ++ List.replicate 3 (.onCompletion 0)) = some h ∧
        httpSystem.exec (fun _ _ => true) h
          (List.replicate 4 .stop ++ List.replicate 3 (.handle 0)) = some h' ∧
        (h.requests[0]?.map HttpThread.pc) = some (.waitFor (authRequest.msg 1)) ∧
        h.entries 0 = ⟨true, ⟨facAuthFacId, 1, 7, .success, .msgClose⟩, 1⟩ ∧
        (h'.requests[0]?.map HttpThread.pc) = some (.answered (authRequest.msg 1)
          ⟨.internalServerError, .error "fsm_failed" "INVALID_STATE"⟩) :=
    ⟨_, _, rfl, rfl, by decide, by decide, by decide⟩
  exact ⟨h, h', ⟨_, ⟨1, rfl⟩, Lts.runVia_of_exec (fun _ _ _ => trivial) hh⟩,
    Lts.runVia_of_exec (fun _ _ _ => trivial) hh', hwait, hentry, hanswer⟩

end FsmFramework
