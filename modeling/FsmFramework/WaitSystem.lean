import FsmFramework.HttpServer
import FsmFramework.Lib.Trace

/-!
# The waiters among their users

`HandleSyncRequest` from `RegisterWaiter` on, `OnCompletion` and `NotifyAllWaitersAsStopped`, as
they interleave whoever calls them: any number of requests on any keys, any answers of
`SendMsg`, any number of calls with any events, a wait that ends at any moment. A step is a
block under `_waitersLock` or under the lock of one entry, or the end of a call, where what it
holds is dropped.

`clears` counts the calls of `NotifyAllWaitersAsStopped` so far, and `since` is that count at
the time of a registration; both are history.

## Main results

* `waiter_registry` — what `_waiters` lists, in every reachable state.
-/

namespace FsmFramework

/-- Where a synchronous request stands, from its `RegisterWaiter` on. -/
inductive WaitPc
  | syncSendMsg
  | waitFor
  | unregisterWaiter (outcome : WaitOutcome)
  | returning (outcome : WaitOutcome)
  | answered (outcome : WaitOutcome)
  deriving DecidableEq, Repr

/-- The request has not run `UnregisterWaiter` yet. -/
def WaitPc.registered : WaitPc → Bool
  | .syncSendMsg | .waitFor | .unregisterWaiter _ => true
  | .returning _ | .answered _ => false

/-- The request still holds its entry. -/
def WaitPc.holds : WaitPc → Bool
  | .answered _ => false
  | _ => true

/-- A request that has registered a waiter. -/
structure WaitThread where
  key : WaitKey
  pc : WaitPc
  since : ℕ
  deriving DecidableEq, Repr

/-- A call past its block under `_waitersLock`: of `OnCompletion` with its event, or of
`NotifyAllWaitersAsStopped`. -/
structure NotifyCall where
  event : Option FsmCompletionEvent
  entriesToNotify : List ℕ
  next : ℕ
  deriving DecidableEq, Repr

/-- What the call writes to an entry. -/
def NotifyCall.written (c : NotifyCall) (entry : WaitEntry) : FsmCompletionEvent :=
  c.event.getD { entry.event with result := .invalidState }

/-- The waiters, their entries, the requests, and the calls that threads of type `τ` make. -/
structure WaitState (τ : Type*) where
  waiters : Waiters := {}
  entries : WaitEntries := fun _ => {}
  requests : ℕ → Option WaitThread := fun _ => none
  calls : τ → Option NotifyCall := fun _ => none
  clears : ℕ := 0

inductive WaitLabel (τ : Type*)
  | registerWaiter (r : ℕ) (key : WaitKey)
  | sendMsg (r : ℕ) (sendResult : EerrNo)
  | wake (r : ℕ)
  | unregisterWaiter (r : ℕ)
  | drop (r : ℕ)
  | onCompletion (t : τ) (event : FsmCompletionEvent)
  | notifyAll (t : τ)
  | deliver (t : τ)

namespace WaitState

variable {τ : Type*}

/-- Request `r` goes on at `pc`. -/
def goto (w : WaitState τ) (r : ℕ) (q : WaitThread) (pc : WaitPc) : WaitState τ :=
  { w with requests := Function.update w.requests r (some { q with pc := pc }) }

/-- `RegisterWaiter` of request `r`. -/
def registerWaiter (w : WaitState τ) (r : ℕ) (key : WaitKey) : WaitState τ :=
  { w with
    waiters := w.waiters.register key r
    entries := w.entries.create r
    requests := Function.update w.requests r (some ⟨key, .syncSendMsg, w.clears⟩) }

/-- `UnregisterWaiter` of request `r`. -/
def unregisterWaiter (w : WaitState τ) (r : ℕ) (q : WaitThread) (outcome : WaitOutcome) :
    WaitState τ :=
  { w.goto r q (.returning outcome) with
    waiters := w.waiters.unregister w.entries.alive q.key r }

/-- Request `r` drops its entry. -/
def drop (w : WaitState τ) (r : ℕ) (q : WaitThread) (outcome : WaitOutcome) : WaitState τ :=
  { w.goto r q (.answered outcome) with entries := w.entries.release [r] }

variable [DecidableEq τ]

/-- Thread `t` has collected the entries that it is going to notify. -/
def collect (w : WaitState τ) (t : τ) (event : Option FsmCompletionEvent)
    (entriesToNotify : List ℕ) : WaitState τ :=
  { w with
    entries := w.entries.hold entriesToNotify
    calls := Function.update w.calls t (some ⟨event, entriesToNotify, 0⟩) }

/-- The block of `OnCompletion` under `_waitersLock`. -/
def onCompletion (w : WaitState τ) (t : τ) (event : FsmCompletionEvent) : WaitState τ :=
  w.collect t (some event) (w.waiters.toNotify w.entries.alive event.waitKey)

/-- The block of `NotifyAllWaitersAsStopped` under `_waitersLock`. -/
def notifyAll (w : WaitState τ) (t : τ) : WaitState τ :=
  { w.collect t none (w.waiters.allToNotify w.entries.alive) with
    waiters := {}
    clears := w.clears + 1 }

/-- Thread `t` writes to the entry of request `r`. -/
def deliver (w : WaitState τ) (t : τ) (c : NotifyCall) (r : ℕ) : WaitState τ :=
  { w with
    entries := w.entries.complete r (c.written (w.entries r))
    calls := Function.update w.calls t (some { c with next := c.next + 1 }) }

/-- The call of thread `t` returns. -/
def finish (w : WaitState τ) (t : τ) (c : NotifyCall) : WaitState τ :=
  { w with
    entries := w.entries.release c.entriesToNotify
    calls := Function.update w.calls t none }

/-- Take a step, if it is enabled. -/
def step (w : WaitState τ) : WaitLabel τ → Option (WaitState τ)
  | .registerWaiter r key =>
      match w.requests r with
      | some _ => none
      | none => some (w.registerWaiter r key)
  | .sendMsg r sendResult =>
      match w.requests r with
      | some ⟨key, .syncSendMsg, since⟩ =>
          some (w.goto r ⟨key, .syncSendMsg, since⟩
            (if sendResult ≠ .success then .unregisterWaiter (.refused sendResult) else .waitFor))
      | _ => none
  | .wake r =>
      match w.requests r with
      | some ⟨key, .waitFor, since⟩ =>
          some (w.goto r ⟨key, .waitFor, since⟩
            (.unregisterWaiter (.waited (w.entries r).completed (w.entries r).event)))
      | _ => none
  | .unregisterWaiter r =>
      match w.requests r with
      | some ⟨key, .unregisterWaiter outcome, since⟩ =>
          some (w.unregisterWaiter r ⟨key, .unregisterWaiter outcome, since⟩ outcome)
      | _ => none
  | .drop r =>
      match w.requests r with
      | some ⟨key, .returning outcome, since⟩ =>
          some (w.drop r ⟨key, .returning outcome, since⟩ outcome)
      | _ => none
  | .onCompletion t event =>
      match w.calls t with
      | some _ => none
      | none => some (w.onCompletion t event)
  | .notifyAll t =>
      match w.calls t with
      | some _ => none
      | none => some (w.notifyAll t)
  | .deliver t =>
      match w.calls t with
      | none => none
      | some c =>
          match c.entriesToNotify[c.next]? with
          | some r => some (w.deliver t c r)
          | none => some (w.finish t c)

end WaitState

/-- No request, no call. -/
def waitSystem (τ : Type*) [DecidableEq τ] : Lts (WaitState τ) (WaitLabel τ) where
  init w := w = {}
  step := WaitState.step

/-! ## What a step can do -/

/-- A step of the thread of request `r`, which stands at `q`. -/
inductive RequestStep {τ : Type*} (w : WaitState τ) (r : ℕ) (q : WaitThread) :
    WaitLabel τ → WaitState τ → Prop
  | sent {sendResult : EerrNo} {pc : WaitPc} (hpc : q.pc = .syncSendMsg)
      (hnext : pc = if sendResult ≠ .success then .unregisterWaiter (.refused sendResult)
        else .waitFor) : RequestStep w r q (.sendMsg r sendResult) (w.goto r q pc)
  | woken (hpc : q.pc = .waitFor) : RequestStep w r q (.wake r)
      (w.goto r q (.unregisterWaiter (.waited (w.entries r).completed (w.entries r).event)))
  | unregistered {outcome : WaitOutcome} (hpc : q.pc = .unregisterWaiter outcome) :
      RequestStep w r q (.unregisterWaiter r) (w.unregisterWaiter r q outcome)
  | dropped {outcome : WaitOutcome} (hpc : q.pc = .returning outcome) :
      RequestStep w r q (.drop r) (w.drop r q outcome)

/-- Every step: a registration, a step of a request, the beginning of a call, a delivery, or the
end of a call. -/
inductive WaitStep {τ : Type*} [DecidableEq τ] (w : WaitState τ) :
    WaitLabel τ → WaitState τ → Prop
  | registered {r : ℕ} {key : WaitKey} (hnone : w.requests r = none) :
      WaitStep w (.registerWaiter r key) (w.registerWaiter r key)
  | request {r : ℕ} {q : WaitThread} {l : WaitLabel τ} {w' : WaitState τ}
      (hq : w.requests r = some q) (hstep : RequestStep w r q l w') : WaitStep w l w'
  | collected {t : τ} {event : FsmCompletionEvent} (hnone : w.calls t = none) :
      WaitStep w (.onCompletion t event) (w.onCompletion t event)
  | cleared {t : τ} (hnone : w.calls t = none) : WaitStep w (.notifyAll t) (w.notifyAll t)
  | delivered {t : τ} {c : NotifyCall} {r : ℕ} (hc : w.calls t = some c)
      (hr : c.entriesToNotify[c.next]? = some r) : WaitStep w (.deliver t) (w.deliver t c r)
  | ended {t : τ} {c : NotifyCall} (hc : w.calls t = some c)
      (hr : c.entriesToNotify[c.next]? = none) : WaitStep w (.deliver t) (w.finish t c)

variable {τ : Type*} {w w' : WaitState τ} {l : WaitLabel τ} {r : ℕ}

/-- The cases are exhaustive. -/
theorem WaitState.step_cases [DecidableEq τ] (hs : w.step l = some w') : WaitStep w l w' := by
  cases l with
  | registerWaiter r key =>
      simp only [step] at hs
      split at hs
      · contradiction
      · exact Option.some.inj hs ▸ .registered ‹_›
  | sendMsg r sendResult =>
      simp only [step] at hs
      split at hs
      · exact Option.some.inj hs ▸ .request ‹_› (.sent rfl rfl)
      · contradiction
  | wake r =>
      simp only [step] at hs
      split at hs
      · exact Option.some.inj hs ▸ .request ‹_› (.woken rfl)
      · contradiction
  | unregisterWaiter r =>
      simp only [step] at hs
      split at hs
      · exact Option.some.inj hs ▸ .request ‹_› (.unregistered rfl)
      · contradiction
  | drop r =>
      simp only [step] at hs
      split at hs
      · exact Option.some.inj hs ▸ .request ‹_› (.dropped rfl)
      · contradiction
  | onCompletion t event =>
      simp only [step] at hs
      split at hs
      · contradiction
      · exact Option.some.inj hs ▸ .collected ‹_›
  | notifyAll t =>
      simp only [step] at hs
      split at hs
      · contradiction
      · exact Option.some.inj hs ▸ .cleared ‹_›
  | deliver t =>
      simp only [step] at hs
      split at hs
      · contradiction
      · split at hs
        · exact Option.some.inj hs ▸ .delivered ‹_› ‹_›
        · exact Option.some.inj hs ▸ .ended ‹_› ‹_›

/-! ## Reference counts -/

namespace WaitEntries

variable {es : WaitEntries} {rs : List ℕ} {event : FsmCompletionEvent} {x : ℕ}

theorem create_self : es.create r r = { useCount := 1 } := Function.update_self ..

theorem create_of_ne (h : x ≠ r) : es.create r x = es x := Function.update_of_ne h ..

@[simp] theorem complete_useCount : (es.complete r event x).useCount = (es x).useCount := by
  by_cases h : x = r
  · simp [complete, h]
  · simp [complete, h]

theorem complete_of_ne (h : x ≠ r) : es.complete r event x = es x := Function.update_of_ne h ..

end WaitEntries

/-- The entries that a call holds. -/
def NotifyCall.held : Option NotifyCall → List ℕ
  | none => []
  | some c => c.entriesToNotify

namespace WaitState

/-- How often request `r` itself holds its entry. -/
def own (w : WaitState τ) (r : ℕ) : ℕ :=
  match w.requests r with
  | some q => if q.pc.holds then 1 else 0
  | none => 0

theorem own_of_some {q : WaitThread} (h : w.requests r = some q) :
    w.own r = if q.pc.holds then 1 else 0 := by simp [own, h]

/-- How often the calls hold it. -/
noncomputable def heldByCalls (w : WaitState τ) (r : ℕ) : ℕ :=
  finsum fun t => (NotifyCall.held (w.calls t)).count r

/-- The request has registered under the key, has not unregistered, and no
`NotifyAllWaitersAsStopped` has come since. -/
def Waiting (w : WaitState τ) (key : WaitKey) (r : ℕ) : Prop :=
  ∃ q, w.requests r = some q ∧ q.key = key ∧ q.pc.registered = true ∧ q.since = w.clears

end WaitState

/-- The registry in order. -/
structure RegistryInv (w : WaitState τ) : Prop where
  listed : ∀ key r, r ∈ w.waiters.find key ↔ w.Waiting key r
  nodup : ∀ key, (w.waiters.find key).Nodup
  noneEmpty : w.waiters.NoneEmpty
  counts : ∀ r, (w.entries r).useCount = w.own r + w.heldByCalls r
  held : ∀ t, ∀ r ∈ NotifyCall.held (w.calls t), w.requests r ≠ none
  since_le : ∀ r q, w.requests r = some q → q.since ≤ w.clears
  finite : {t | w.calls t ≠ none}.Finite

namespace RegistryInv

theorem hasFiniteSupport (hinv : RegistryInv w) (r : ℕ) :
    Function.HasFiniteSupport fun t => (NotifyCall.held (w.calls t)).count r := by
  refine hinv.finite.subset fun t ht hnone => ?_
  simp [NotifyCall.held, hnone] at ht

/-- The entry of a request that still holds it can be locked. -/
theorem alive_of_holds (hinv : RegistryInv w) {q : WaitThread} (hq : w.requests r = some q)
    (hh : q.pc.holds = true) : w.entries.alive r = true := by
  have hcount := hinv.counts r
  rw [WaitState.own_of_some hq, if_pos hh] at hcount
  simp only [WaitEntries.alive, ne_eq, decide_eq_true_eq]
  omega

theorem holds_of_registered {pc : WaitPc} (h : pc.registered = true) : pc.holds = true := by
  cases pc <;> simp_all [WaitPc.registered, WaitPc.holds]

/-- No listed entry has expired. -/
theorem alive_of_listed (hinv : RegistryInv w) {key : WaitKey} (h : r ∈ w.waiters.find key) :
    w.entries.alive r = true := by
  obtain ⟨q, hq, -, hreg, -⟩ := (hinv.listed key r).mp h
  exact hinv.alive_of_holds hq (holds_of_registered hreg)

/-- So a completion collects all that are listed under its key. -/
theorem toNotify_eq (hinv : RegistryInv w) (key : WaitKey) :
    w.waiters.toNotify w.entries.alive key = w.waiters.find key :=
  List.filter_eq_self.mpr fun _ hr => hinv.alive_of_listed hr

/-- A request that has not registered is held by nobody. -/
theorem heldByCalls_of_none (hinv : RegistryInv w) (h : w.requests r = none) :
    w.heldByCalls r = 0 := by
  have hzero : ∀ t, (NotifyCall.held (w.calls t)).count r = 0 := fun t =>
    List.count_eq_zero.mpr fun hr => hinv.held t r hr h
  simp [WaitState.heldByCalls, hzero]

end RegistryInv

/-! ## The steps keep the registry in order -/

/-- A step of a request leaves the calls and the count of clears alone, and moves the request
on. -/
theorem RequestStep.frame {q : WaitThread} (h : RequestStep w r q l w') :
    w'.calls = w.calls ∧ w'.clears = w.clears ∧
      ∃ pc, w'.requests = Function.update w.requests r (some { q with pc := pc }) ∧
        (pc.registered = true → q.pc.registered = true) := by
  refine ⟨?_, ?_, ?_⟩
  · cases h <;> rfl
  · cases h <;> rfl
  · cases h with
    | sent hpc | woken hpc => exact ⟨_, rfl, fun _ => by simp [hpc, WaitPc.registered]⟩
    | unregistered | dropped => exact ⟨_, rfl, nofun⟩

/-- Requests are never forgotten. -/
theorem requests_update_ne_none {requests : ℕ → Option WaitThread} {q : WaitThread} {x : ℕ}
    (h : requests x ≠ none) : Function.update requests r (some q) x ≠ none := by
  by_cases hx : x = r
  · simp [hx]
  · rwa [Function.update_of_ne hx]

namespace RegistryInv

/-- One request moves: what is left to show is about its own waiter and its own entry. -/
theorem moved (hinv : RegistryInv w) {q : WaitThread} {waiters : Waiters} {entries : WaitEntries}
    (hsince : q.since ≤ w.clears) (hnodup : ∀ k, (waiters.find k).Nodup)
    (hempty : waiters.NoneEmpty)
    (hself : ∀ k, r ∈ waiters.find k ↔
      q.key = k ∧ q.pc.registered = true ∧ q.since = w.clears)
    (hothers : ∀ k x, x ≠ r → (x ∈ waiters.find k ↔ x ∈ w.waiters.find k))
    (hcount : (entries r).useCount = (if q.pc.holds then 1 else 0) + w.heldByCalls r)
    (hcounts : ∀ x, x ≠ r → (entries x).useCount = (w.entries x).useCount) :
    RegistryInv { w with
      requests := Function.update w.requests r (some q), waiters := waiters,
      entries := entries } := by
  refine ⟨?listed, hnodup, hempty, ?counts, ?held, ?since, hinv.finite⟩
  case listed =>
    intro k x
    by_cases hx : x = r
    · subst hx
      simpa [WaitState.Waiting] using hself k
    · refine (hothers k x hx).trans ((hinv.listed k x).trans ?_)
      simp [WaitState.Waiting, Function.update_of_ne hx]
  case counts =>
    intro x
    by_cases hx : x = r
    · subst hx
      simpa [WaitState.own, WaitState.heldByCalls] using hcount
    · refine (hcounts x hx).trans ((hinv.counts x).trans ?_)
      simp [WaitState.own, WaitState.heldByCalls, Function.update_of_ne hx]
  case held => exact fun t x hx => requests_update_ne_none (hinv.held t x hx)
  case since =>
    intro x q' hq'
    by_cases hx : x = r
    · subst hx
      obtain rfl : q = q' := by simpa using hq'
      exact hsince
    · exact hinv.since_le x q' (by simpa [Function.update_of_ne hx] using hq')

theorem registerWaiter (hinv : RegistryInv w) (key : WaitKey) (hnone : w.requests r = none) :
    RegistryInv (w.registerWaiter r key) := by
  have hfresh : ∀ k, r ∉ w.waiters.find k := by
    intro k hr
    obtain ⟨q, hq, -⟩ := (hinv.listed k r).mp hr
    simp [hnone] at hq
  refine hinv.moved le_rfl ?nodup hinv.noneEmpty.register ?self ?others ?count ?counts
  case nodup =>
    intro k
    rw [Waiters.find_register]
    split
    · refine List.nodup_append.mpr ⟨hinv.nodup k, List.nodup_singleton r, fun a ha b hb => ?_⟩
      rintro rfl
      exact hfresh k (List.mem_singleton.mp hb ▸ ha)
    · exact hinv.nodup k
  case self =>
    intro k
    rw [Waiters.find_register]
    split
    · rename_i hk
      simp [hk, WaitPc.registered]
    · rename_i hk
      simp [hfresh k, Ne.symm hk]
  case others =>
    intro k x hx
    rw [Waiters.find_register]
    split <;> simp [hx]
  case count =>
    rw [WaitEntries.create_self, hinv.heldByCalls_of_none hnone]
    rfl
  case counts =>
    intro x hx
    rw [WaitEntries.create_of_ne hx]

/-- A request moves without having run `UnregisterWaiter` or having dropped its entry. -/
theorem goto (hinv : RegistryInv w) {q : WaitThread} {pc : WaitPc}
    (hq : w.requests r = some q) (hreg : pc.registered = q.pc.registered)
    (hholds : pc.holds = q.pc.holds) : RegistryInv (w.goto r q pc) := by
  refine hinv.moved (hinv.since_le r q hq) hinv.nodup hinv.noneEmpty ?self (fun _ _ _ => Iff.rfl)
    ?count fun _ _ => rfl
  case self =>
    intro k
    rw [hinv.listed k r]
    simp [WaitState.Waiting, hq, hreg]
  case count =>
    rw [hinv.counts r, WaitState.own_of_some hq, hholds]

theorem unregisterWaiter (hinv : RegistryInv w) {q : WaitThread} {outcome : WaitOutcome}
    (hq : w.requests r = some q) (hpc : q.pc = .unregisterWaiter outcome) :
    RegistryInv (w.unregisterWaiter r q outcome) := by
  have hfind : ∀ k x, x ∈ (w.waiters.unregister w.entries.alive q.key r).find k ↔
      x ∈ w.waiters.find k ∧ (k = q.key → x ≠ r) := by
    intro k x
    rw [Waiters.find_unregister]
    split
    · rename_i hk
      refine ⟨fun hx => ?_, fun ⟨hx, hne⟩ => ?_⟩
      · obtain ⟨hmem, hcond⟩ := List.mem_filter.mp hx
        exact ⟨hmem, fun _ => by simpa using (Bool.and_eq_true_iff.mp hcond).2⟩
      · refine List.mem_filter.mpr ⟨hx, ?_⟩
        simpa [hne hk] using hinv.alive_of_listed hx
    · rename_i hk
      simp [hk]
  refine hinv.moved (hinv.since_le r q hq) ?nodup hinv.noneEmpty.unregister ?self ?others ?count
    fun _ _ => rfl
  case nodup =>
    intro k
    rw [Waiters.find_unregister]
    split
    · exact (hinv.nodup k).filter _
    · exact hinv.nodup k
  case self =>
    intro k
    rw [hfind, hinv.listed k r]
    refine ⟨fun ⟨⟨q', hq', hkey, _⟩, hne⟩ => ?_, fun ⟨_, hreg, _⟩ => ?_⟩
    · obtain rfl := Option.some.inj (hq.symm.trans hq')
      exact absurd rfl (hne hkey.symm)
    · simp [WaitPc.registered] at hreg
  case others => exact fun k x hx => (hfind k x).trans (and_iff_left fun _ => hx)
  case count =>
    refine (hinv.counts r).trans ?_
    rw [WaitState.own_of_some hq, hpc]
    rfl

theorem drop (hinv : RegistryInv w) {q : WaitThread} {outcome : WaitOutcome}
    (hq : w.requests r = some q) (hpc : q.pc = .returning outcome) :
    RegistryInv (w.drop r q outcome) := by
  refine hinv.moved (hinv.since_le r q hq) hinv.nodup hinv.noneEmpty ?self (fun _ _ _ => Iff.rfl)
    ?count ?counts
  case self =>
    intro k
    refine (hinv.listed k r).trans ?_
    simp [WaitState.Waiting, hq, hpc, WaitPc.registered]
  case count =>
    have hcount := hinv.counts r
    rw [WaitState.own_of_some hq, hpc] at hcount
    simp [WaitEntries.release, hcount, WaitPc.holds]
  case counts =>
    intro x hx
    simp [WaitEntries.release, Ne.symm hx]

theorem requestStep (hinv : RegistryInv w) {q : WaitThread} (hq : w.requests r = some q)
    (hs : RequestStep w r q l w') : RegistryInv w' := by
  cases hs with
  | sent hpc hnext =>
      subst hnext
      refine hinv.goto hq ?_ ?_ <;> split <;> simp [hpc, WaitPc.registered, WaitPc.holds]
  | woken hpc =>
      exact hinv.goto hq (by simp [hpc, WaitPc.registered]) (by simp [hpc, WaitPc.holds])
  | unregistered hpc => exact hinv.unregisterWaiter hq hpc
  | dropped hpc => exact hinv.drop hq hpc

/-- The map is cleared, and nobody who has registered before is waiting any more. -/
theorem cleared (hinv : RegistryInv w) :
    RegistryInv { w with waiters := {}, clears := w.clears + 1 } := by
  refine ⟨?listed, fun _ => List.nodup_nil, fun _ he => absurd he (List.not_mem_nil),
    hinv.counts, hinv.held, ?since, hinv.finite⟩
  case listed =>
    intro k x
    refine ⟨fun hx => absurd hx (List.not_mem_nil), ?_⟩
    rintro ⟨q, hq, -, -, hsince⟩
    have hle := hinv.since_le x q hq
    exact absurd hsince (by simp; omega)
  case since => exact fun x q hq => Nat.le_succ_of_le (hinv.since_le x q hq)

section

variable [DecidableEq τ] {t : τ}

/-- What the calls hold when one of them moves. -/
theorem heldByCalls_update (hinv : RegistryInv w) (o : Option NotifyCall) (x : ℕ) :
    (finsum fun i => (NotifyCall.held (Function.update w.calls t o i)).count x) +
        (NotifyCall.held (w.calls t)).count x =
      w.heldByCalls x + (NotifyCall.held o).count x :=
  finsum_update (f := fun o => (NotifyCall.held o).count x) (hinv.hasFiniteSupport x) t o

/-- One call moves: what is left to show is that it counts what it holds. -/
theorem called (hinv : RegistryInv w) {o : Option NotifyCall} {entries : WaitEntries}
    (hheld : ∀ x ∈ NotifyCall.held o, w.requests x ≠ none)
    (hcounts : ∀ x, (entries x).useCount + (NotifyCall.held (w.calls t)).count x =
      (w.entries x).useCount + (NotifyCall.held o).count x) :
    RegistryInv { w with entries := entries, calls := Function.update w.calls t o } := by
  refine ⟨hinv.listed, hinv.nodup, hinv.noneEmpty, ?counts, ?held, hinv.since_le, ?finite⟩
  case counts =>
    intro x
    have hsum := hinv.heldByCalls_update (t := t) o x
    have hcount := hcounts x
    rw [hinv.counts x] at hcount
    show (entries x).useCount = w.own x +
      finsum fun i => (NotifyCall.held (Function.update w.calls t o i)).count x
    omega
  case held =>
    intro i x hx
    by_cases hi : i = t
    · subst hi
      exact hheld x (by simpa using hx)
    · exact hinv.held i x (by simpa [Function.update_of_ne hi] using hx)
  case finite =>
    refine (hinv.finite.insert t).subset fun i hi => ?_
    by_cases hit : i = t
    · exact .inl hit
    · exact .inr (by simpa [Function.update_of_ne hit] using hi)

/-- A call begins with entries that requests have registered. -/
theorem collect (hinv : RegistryInv w) {event : Option FsmCompletionEvent} {rs : List ℕ}
    (hnone : w.calls t = none) (hrs : ∀ x ∈ rs, ∃ key, x ∈ w.waiters.find key) :
    RegistryInv (w.collect t event rs) := by
  refine hinv.called (fun x hx => ?_) fun x => ?_
  · obtain ⟨key, hx⟩ := hrs x hx
    obtain ⟨q, hq, -⟩ := (hinv.listed key x).mp hx
    simp [hq]
  · simp [hnone, NotifyCall.held, WaitEntries.hold]

theorem onCompletion (hinv : RegistryInv w) (event : FsmCompletionEvent)
    (hnone : w.calls t = none) : RegistryInv (w.onCompletion t event) :=
  hinv.collect hnone fun _ hx => ⟨_, (List.mem_filter.mp hx).1⟩

theorem notifyAll (hinv : RegistryInv w) (hnone : w.calls t = none) :
    RegistryInv (w.notifyAll t) :=
  (hinv.collect hnone fun _ hx => (Waiters.mem_allToNotify.mp hx).2).cleared

theorem deliver (hinv : RegistryInv w) {c : NotifyCall} (hc : w.calls t = some c) :
    RegistryInv (w.deliver t c r) := by
  refine hinv.called (fun x hx => hinv.held t x (by rw [hc]; exact hx)) fun x => ?_
  simp [hc, NotifyCall.held]

theorem finish (hinv : RegistryInv w) {c : NotifyCall} (hc : w.calls t = some c) :
    RegistryInv (w.finish t c) := by
  refine hinv.called (by simp [NotifyCall.held]) fun x => ?_
  -- the call is one of those that hold the entry
  have hle : c.entriesToNotify.count x ≤ w.heldByCalls x := by
    have hsum := hinv.heldByCalls_update (t := t) none x
    simp only [hc, NotifyCall.held, List.count_nil] at hsum
    omega
  have hcount := hinv.counts x
  simp only [hc, NotifyCall.held, WaitEntries.release, List.count_nil]
  omega

/-- Every step keeps the registry in order. -/
theorem step (hinv : RegistryInv w) (hs : w.step l = some w') : RegistryInv w' := by
  cases WaitState.step_cases hs with
  | registered hnone => exact hinv.registerWaiter _ hnone
  | request hq hstep => exact hinv.requestStep hq hstep
  | collected hnone => exact hinv.onCompletion _ hnone
  | cleared hnone => exact hinv.notifyAll hnone
  | delivered hc _ => exact hinv.deliver hc
  | ended hc _ => exact hinv.finish hc

end

theorem init : RegistryInv ({} : WaitState τ) where
  listed key r := by simp [Waiters.find, WaitState.Waiting, KeyedList.lookup]
  nodup _ := List.nodup_nil
  noneEmpty _ he := absurd he List.not_mem_nil
  counts r := by simp [WaitState.own, WaitState.heldByCalls, NotifyCall.held]
  held t r hr := absurd hr List.not_mem_nil
  since_le r q hq := by simp at hq
  finite := by simp

end RegistryInv

/-- The registry is in order in every reachable state. -/
theorem registryInv_of_reachable [DecidableEq τ] {G : WaitState τ → WaitLabel τ → Prop}
    (hw : (waitSystem τ).ReachableVia G w) : RegistryInv w :=
  hw.invariant (by rintro _ rfl; exact .init) fun _ _ _ hinv _ hs => hinv.step hs

/-- **The registry of waiters.** No key stands with an empty vector or an expired entry. Under
each key stand, each once, the waiters of just those requests that have registered under it,
have not unregistered, and have not been notified of a stop since. So a request that
unregisters takes no other waiter with it, and when no request is registered the map is empty. -/
theorem waiter_registry [DecidableEq τ] (hw : (waitSystem τ).Reachable w) :
    (∀ e ∈ w.waiters.entries, e.2 ≠ [] ∧ ∀ r ∈ e.2, w.entries.alive r = true) ∧
      (∀ key, (w.waiters.find key).Nodup) ∧
      (∀ key r, r ∈ w.waiters.find key ↔ w.Waiting key r) ∧
      (∀ r w', w.step (.unregisterWaiter r) = some w' →
        ∀ key x, x ≠ r → (x ∈ w'.waiters.find key ↔ x ∈ w.waiters.find key)) ∧
      ((∀ r q, w.requests r = some q → q.pc.registered = false) → w.waiters.entries = []) := by
  have hinv := registryInv_of_reachable hw
  refine ⟨?entries, hinv.nodup, hinv.listed, ?neighbours, ?empty⟩
  case entries =>
    refine fun e he => ⟨hinv.noneEmpty e he, fun r hr => ?_⟩
    have hmem : r ∈ w.waiters.find e.1 := Waiters.find_eq_of_mem he ▸ hr
    exact hinv.alive_of_listed hmem
  case neighbours =>
    intro r w' hs key x hx
    have hwaiting : w'.Waiting key x ↔ w.Waiting key x := by
      cases WaitState.step_cases hs with
      | request hq hstep =>
          cases hstep
          simp [WaitState.Waiting, WaitState.unregisterWaiter, WaitState.goto,
            Function.update_of_ne hx]
    exact ((hinv.step hs).listed key x).trans (hwaiting.trans (hinv.listed key x).symm)
  case empty =>
    intro hnone
    refine hinv.noneEmpty.entries_eq_nil fun key => List.eq_nil_iff_forall_not_mem.mpr ?_
    intro r hr
    obtain ⟨q, hq, -, hreg, -⟩ := (hinv.listed key r).mp hr
    exact absurd (hnone r q hq) (by simp [hreg])

/-- Two requests share a key; the first one gives up while a completion that has collected both
of them is under way. -/
def sharedKey : List (WaitLabel ℕ) :=
  [.registerWaiter 0 ⟨1, 7⟩, .registerWaiter 1 ⟨1, 7⟩, .sendMsg 0 .success,
    .onCompletion 0 ⟨1, 1, 7, .success, .msgClose⟩, .wake 0, .unregisterWaiter 0, .drop 0]

theorem waiter_registry_sharedKey : ∃ w : WaitState ℕ,
    (waitSystem ℕ).exec (fun _ _ => true) {} sharedKey = some w ∧
      w.waiters.find ⟨1, 7⟩ = [1] ∧ w.Waiting ⟨1, 7⟩ 1 ∧ ¬ w.Waiting ⟨1, 7⟩ 0 := by
  obtain ⟨w, hw, hfind⟩ : ∃ w : WaitState ℕ,
      (waitSystem ℕ).exec (fun _ _ => true) {} sharedKey = some w ∧
        w.waiters.find ⟨1, 7⟩ = [1] := ⟨_, rfl, by decide⟩
  have hr : (waitSystem ℕ).Reachable w :=
    ⟨_, rfl, Lts.runVia_of_exec (fun _ _ _ => trivial) hw⟩
  obtain ⟨-, -, hlisted, -⟩ := waiter_registry hr
  exact ⟨w, hw, hfind, (hlisted _ 1).mp (by simp [hfind]),
    fun h0 => by simpa [hfind] using (hlisted _ 0).mpr h0⟩

end FsmFramework
