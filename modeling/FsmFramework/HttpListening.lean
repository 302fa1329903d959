import FsmFramework.HttpSessions
import FsmFramework.Lib.Progress

/-!
# Two threads, and the accept that is outstanding

What it means for the server that two threads run all its handlers: a request keeps its thread until
it is answered, so that two requests are in progress at most, and while they are no other handler
begins. One of the handlers keeps the server listening.

## Main results

* `two_at_a_time` — requests in progress, and the waiters they register.
* `listens` — one accept is outstanding until the server is stopped.
-/

namespace FsmFramework

open IoServer

variable {json : BoostJson} {c c' : IoServer} {l : IoLabel} {t u : Fin threadCount} {k r : ℕ}

/-! ## The server behind the connections -/

/-- What a step is to the server behind the connections: a step of it, or nothing, up to a session
id that was generated for a request with none. -/
theorem IoServer.http_step (hs : c.step json l = some c') :
    (∃ hl, c.http.step hl = some c'.http) ∨
      ∃ next, c'.http = { c.http with nextSessionId := next } := by
  cases step_cases hs with
  | core hhttp => exact .inl ⟨_, hhttp⟩
  | onCompletion hhttp => exact .inl ⟨_, hhttp⟩
  | stop _ _ hhttp => exact .inl ⟨_, hhttp⟩
  | handled ht hhttp => exact .inl ⟨_, hhttp⟩
  | @arrived t k message req hready hk hcheck =>
      have haccepting := (decide_eq_true_eq.mp hready).2
      exact .inl ⟨.request req, by simp [HttpState.step, haccepting, goto, setSession]⟩
  | rejected => exact .inr ⟨_, rfl⟩
  | acceptorClosed | accepted | hungUp | written | passed | connected | acceptFailed | acceptOver
  | tested | armed | answered | left => exact .inr ⟨c.http.nextSessionId, rfl⟩

/-- Its waiters, seen as a state of `waitSystem`. -/
theorem watched_connections {G : IoServer → IoLabel → Prop}
    (hc : (ioSystem json).ReachableVia G c) :
    ∃ w, (waitSystem (Option ℕ)).Reachable w ∧ Watches c.http w := by
  refine hc.invariant (I := fun c => ∃ w, (waitSystem (Option ℕ)).Reachable w ∧
    Watches c.http w) ?init ?step
  case init =>
    rintro _ ⟨n, rfl⟩
    exact ⟨{}, .of_init rfl, watches_init ⟨n, rfl⟩⟩
  case step =>
    rintro c l c' ⟨w, hw, hwatches⟩ - hs
    rcases IoServer.http_step hs with ⟨hl, hhttp⟩ | ⟨next, heq⟩
    · obtain ⟨w', hto, hwatches'⟩ := HttpState.watches_step hwatches hhttp
      refine ⟨w', ?_, hwatches'⟩
      cases hwl : c.http.waitLabel hl with
      | none =>
          rw [hwl] at hto
          obtain rfl : w' = w := hto
          exact hw
      | some wl =>
          rw [hwl] at hto
          exact hw.step trivial hto
    · rw [heq]
      exact ⟨w, hw, hwatches.waiters, hwatches.entries, hwatches.requests, hwatches.callbacks,
        hwatches.stop, hwatches.clears⟩

/-! ## Requests in progress -/

def HttpPc.isAnswered : HttpPc → Bool
  | .answered .. => true
  | _ => false

/-- The request is there, and not answered yet. -/
def HttpState.inProgress (h : HttpState) (r : ℕ) : Bool :=
  match h.requests[r]? with
  | some th => !th.pc.isAnswered
  | none => false

/-- The requests that are there and not answered yet. -/
def HttpState.allInProgress (h : HttpState) : Finset ℕ :=
  (Finset.range h.requests.length).filter fun r => h.inProgress r

namespace HttpState

variable {h : HttpState}

theorem inProgress_iff :
    h.inProgress r = true ↔ ∃ th, h.requests[r]? = some th ∧ th.pc.isAnswered = false := by
  rw [inProgress]
  split
  · rename_i th hth
    simp [hth]
  · rename_i hnone
    simp [hnone]

theorem mem_allInProgress : r ∈ h.allInProgress ↔ h.inProgress r = true := by
  rw [allInProgress, Finset.mem_filter, Finset.mem_range]
  constructor
  · exact fun hr => hr.2
  · intro hr
    obtain ⟨th, hth, -⟩ := inProgress_iff.mp hr
    exact ⟨(List.getElem?_eq_some_iff.mp hth).1, hr⟩

theorem Answered.not_inProgress {response : HttpResponse} (ha : h.Answered r response) :
    h.inProgress r = false := by
  obtain ⟨th, msg, hth, hpc⟩ := ha
  simp [inProgress, hth, hpc, HttpPc.isAnswered]

end HttpState

namespace IoInv

/-- A request in progress keeps a thread. -/
theorem exists_thread (hinv : IoInv json c) (hr : c.http.inProgress r = true) :
    ∃ t k, c.io t = .onRead k r := by
  obtain ⟨th, hth, -⟩ := HttpState.inProgress_iff.mp hr
  obtain ⟨k, s, hk, hreq⟩ := hinv.total r (List.getElem?_eq_some_iff.mp hth).1
  suffices hpc : s.pc = .onRead by
    obtain ⟨t, ht⟩ := hinv.handlers k r ⟨s, hk, hreq, hpc⟩
    exact ⟨t, k, ht⟩
  cases hinv.ok k s hk with
  | onRead => rfl
  | doRead | hungUp | rejected => cases hreq
  | answered _ ha hpc =>
      obtain rfl := Option.some.inj hreq
      rw [ha.not_inProgress] at hr
      cases hr

/-- Requests in progress keep different threads. -/
theorem exists_threads (hinv : IoInv json c) : ∃ f : ℕ → Fin threadCount,
    Set.InjOn f c.http.allInProgress ∧
      ∀ r ∈ c.http.allInProgress, ∃ k, c.io (f r) = .onRead k r := by
  have hthread : ∀ r, ∃ t, r ∈ c.http.allInProgress → ∃ k, c.io t = .onRead k r := by
    intro r
    by_cases hr : r ∈ c.http.allInProgress
    · obtain ⟨t, k, ht⟩ := hinv.exists_thread (HttpState.mem_allInProgress.mp hr)
      exact ⟨t, fun _ => ⟨k, ht⟩⟩
    · exact ⟨0, fun h => absurd h hr⟩
  choose f hf using hthread
  refine ⟨f, ?_, hf⟩
  intro r hr r' hr' heq
  obtain ⟨k, hk⟩ := hf r hr
  obtain ⟨k', hk'⟩ := hf r' hr'
  rw [heq, hk'] at hk
  cases hk
  rfl

theorem card_le (hinv : IoInv json c) : c.http.allInProgress.card ≤ threadCount := by
  obtain ⟨f, hinj, -⟩ := hinv.exists_threads
  have hcard := Finset.card_le_card_of_injOn f (t := Finset.univ) (by simp) hinj
  simpa using hcard

/-- When the requests in progress are as many as the threads, no thread is between two handlers. -/
theorem busy (hinv : IoInv json c) (hcard : c.http.allInProgress.card = threadCount)
    (t : Fin threadCount) : ∃ k r, c.io t = .onRead k r := by
  obtain ⟨f, hinj, hf⟩ := hinv.exists_threads
  have himage : (c.http.allInProgress.image f) = Finset.univ := by
    apply Finset.eq_univ_of_card
    rw [Finset.card_image_of_injOn hinj, hcard, Fintype.card_fin]
  have ht : t ∈ c.http.allInProgress.image f := himage ▸ Finset.mem_univ t
  obtain ⟨r, hr, rfl⟩ := Finset.mem_image.mp ht
  obtain ⟨k, hk⟩ := hf r hr
  exact ⟨k, r, hk⟩

end IoInv

/-- A listed request is in progress. -/
theorem inProgress_of_listed {h : HttpState} {w : WaitState (Option ℕ)}
    (hw : (waitSystem (Option ℕ)).Reachable w) (hwatches : Watches h w) {key : WaitKey}
    (hr : r ∈ h.waiters.find key) : h.inProgress r = true := by
  rw [← hwatches.waiters] at hr
  obtain ⟨q, hq, -, hreg, -⟩ := ((registryInv_of_reachable hw).listed key r).mp hr
  have hseen := hwatches.requests r
  rw [hq] at hseen
  generalize hth : h.requests[r]? = o at hseen
  cases hseen with
  | @waiting th msg pc since hmsg hpc =>
      refine HttpState.inProgress_iff.mpr ⟨th, hth, ?_⟩
      cases hthread : th.pc with
      | answered => simp [hthread, HttpPc.wait] at hpc
      | _ => rfl
  | answered hpc => cases hreg

/-- Every request is listed once, under one key. -/
theorem nodup_allToNotify {w : WaitState (Option ℕ)}
    (hw : (waitSystem (Option ℕ)).Reachable w) (alive : ℕ → Bool) :
    (w.waiters.allToNotify alive).Nodup := by
  have hinv := registryInv_of_reachable hw
  rw [Waiters.allToNotify, List.nodup_flatMap]
  constructor
  · intro e he
    have hnodup := hinv.nodup e.1
    rw [Waiters.find_eq_of_mem he] at hnodup
    exact hnodup.filter _
  · have hkeys : w.waiters.entries.Pairwise fun e e' => e.1 ≠ e'.1 :=
      List.pairwise_map.mp w.waiters.keys_nodup
    refine List.Pairwise.imp_of_mem ?_ hkeys
    intro e e' he he' hne
    simp only [Function.onFun, List.disjoint_left, List.mem_filter]
    rintro r ⟨hr, -⟩ ⟨hr', -⟩
    rw [← Waiters.find_eq_of_mem he] at hr
    rw [← Waiters.find_eq_of_mem he'] at hr'
    obtain ⟨q, hq, hkey, -⟩ := (hinv.listed e.1 r).mp hr
    obtain ⟨q', hq', hkey', -⟩ := (hinv.listed e'.1 r).mp hr'
    obtain rfl := Option.some.inj (hq.symm.trans hq')
    exact hne (hkey.symm.trans hkey')

theorem length_allToNotify_le {G : IoServer → IoLabel → Prop}
    (hc : (ioSystem json).ReachableVia G c) (alive : ℕ → Bool) :
    (c.http.waiters.allToNotify alive).length ≤ threadCount := by
  obtain ⟨w, hw, hwatches⟩ := watched_connections hc
  have hnodup := nodup_allToNotify hw alive
  rw [hwatches.waiters] at hnodup
  rw [← List.toFinset_card_of_nodup hnodup]
  refine le_trans (Finset.card_le_card ?_) (ioInv_of_reachable hc).card_le
  intro r hr
  obtain ⟨-, key, hr⟩ := Waiters.mem_allToNotify.mp (List.mem_toFinset.mp hr)
  exact HttpState.mem_allInProgress.mpr (inProgress_of_listed hw hwatches hr)

/-- **Two at a time.** No more than two requests are in progress, and whoever has registered a
waiter is one of them. While there are two, no handler begins: no connection is accepted, read from
or closed, however many are there. -/
theorem two_at_a_time (hc : (ioSystem json).Reachable c) :
    c.http.allInProgress.card ≤ threadCount ∧
      (∀ key, ∀ r ∈ c.http.waiters.find key, r ∈ c.http.allInProgress) ∧
      (c.http.waiters.allToNotify c.http.entries.alive).length ≤ threadCount ∧
      (c.http.allInProgress.card = threadCount → ∀ t k ok result,
        c.step json (.accept t ok) = none ∧ c.step json (.read t k result) = none ∧
          c.step json (.write t k) = none) := by
  have hinv := ioInv_of_reachable hc
  obtain ⟨w, hw, hwatches⟩ := watched_connections hc
  refine ⟨hinv.card_le, ?_, length_allToNotify_le hc _, ?_⟩
  · intro key r hr
    exact HttpState.mem_allInProgress.mpr (inProgress_of_listed hw hwatches hr)
  · intro hcard t k ok result
    obtain ⟨k', r', ht⟩ := hinv.busy hcard t
    have hready : c.ready t = false := by simp [ready, ht]
    refine ⟨by simp [step, hready], by simp [step, hready], ?_⟩
    simp only [step]
    split
    · simp [hready]
    · rfl

/-- Three connections, and two synchronous requests that wait. -/
def twoWaiting : List IoLabel :=
  acceptSteps 0 ++ acceptSteps 1 ++ acceptSteps 0 ++
    [.read 0 0 (.request registerMessage), .read 1 1 (.request registerMessage)] ++
    List.replicate 3 (.advance 0) ++ List.replicate 3 (.advance 1)

theorem two_at_a_time_waiting : ∃ c : IoServer,
    (ioSystem oneObjectJson).exec (fun _ _ => true)
        { http := { core := .resting .boot [], nextSessionId := 1 } } twoWaiting = some c ∧
      c.sessions[2]? = some { pc := .doRead } ∧ c.http.waiters.find ⟨1, 123⟩ = [0, 1] ∧
      ∀ t, c.step oneObjectJson (.read t 2 .endOfStream) = none := by
  obtain ⟨c, hrun, hthird, hfind, hcard⟩ : ∃ c : IoServer,
      (ioSystem oneObjectJson).exec (fun _ _ => true)
          { http := { core := .resting .boot [], nextSessionId := 1 } } twoWaiting = some c ∧
        c.sessions[2]? = some { pc := .doRead } ∧ c.http.waiters.find ⟨1, 123⟩ = [0, 1] ∧
        c.http.allInProgress.card = threadCount := ⟨_, rfl, rfl, rfl, rfl⟩
  have hc : (ioSystem oneObjectJson).Reachable c :=
    ⟨_, ⟨1, rfl⟩, Lts.runVia_of_exec (fun _ _ _ => trivial) hrun⟩
  obtain ⟨-, -, -, hbusy⟩ := two_at_a_time hc
  exact ⟨c, hrun, hthird, hfind, fun t => (hbusy hcard t 2 true .endOfStream).2.1⟩

/-! ## The accept that is outstanding -/

/-- The thread is to start the next accept. -/
def IoPc.accepts : IoPc → Bool
  | .onAccept _ | .accepted _ | .doAccept | .asyncAccept => true
  | .run | .onRead .. | .exited => false

/-- The thread is to make a connection: it has found the server running. -/
def IoPc.connects : IoPc → Bool
  | .accepted true => true
  | _ => false

/-- How many connections are about to be made. -/
def IoServer.connecting (c : IoServer) : ℕ := ∑ t, (c.io t).connects.toNat

/-- How many accepts are outstanding or about to be started. -/
def IoServer.accepts (c : IoServer) : ℕ :=
  c.acceptPending.toNat + ∑ t, (c.io t).accepts.toNat

/-- `Stop` has not closed the acceptor yet, and is not about to. -/
def StopPc.open : StopPc → Bool
  | .running | .setCompletionCallback => true
  | _ => false

/-- One thread moves: what a sum over the threads loses and gains. -/
theorem sum_threads {f g : Fin threadCount → ℕ} (h : ∀ u, u ≠ t → g u = f u) :
    ∑ u, g u + f t = ∑ u, f u + g t := by
  have hrest : ∑ u ∈ Finset.univ.erase t, g u = ∑ u ∈ Finset.univ.erase t, f u := by
    apply Finset.sum_congr rfl
    intro u hu
    exact h u (Finset.ne_of_mem_erase hu)
  have hnew := Finset.add_sum_erase Finset.univ g (Finset.mem_univ t)
  have hold := Finset.add_sum_erase Finset.univ f (Finset.mem_univ t)
  omega

/-- The same for what counts for a thread where it stands. -/
theorem sum_io (f : IoPc → ℕ) {pc : IoPc} (hio : c'.io = Function.update c.io t pc) :
    ∑ u, f (c'.io u) + f (c.io t) = ∑ u, f (c.io u) + f pc := by
  have hself : c'.io t = pc := by rw [hio, Function.update_self]
  rw [← hself]
  refine sum_threads (f := fun u => f (c.io u)) (g := fun u => f (c'.io u)) ?_
  intro u hu
  simp only [hio, Function.update_of_ne hu]

/-- The accept is passed on between the system and the threads. -/
structure AcceptInv (c : IoServer) : Prop where
  atMostOne : c.accepts ≤ 1
  one : c.running = true → c.accepts = 1
  alive : c.running = true → ∀ t, c.io t ≠ .exited
  opened : c.http.stop.open = true → c.acceptorOpen = true
  closed : c.http.stop.open = false → c.http.stop ≠ .collect → c.acceptorOpen = false
  joined : c.http.stop = .stopped → ∀ t, c.io t = .exited

/-- A server that is running is open. -/
theorem open_of_running (hrun : c.running = true) : c.http.stop.open = true := by
  have hstop : c.http.stop = .running := decide_eq_true_eq.mp hrun
  rw [hstop]
  rfl

/-- Every step of `Stop`. -/
inductive StopStep (h : HttpState) : HttpState → Prop
  | exchanged (hpc : h.stop = .running) : StopStep h { h with stop := .setCompletionCallback }
  | unset (hpc : h.stop = .setCompletionCallback) :
      StopStep h { h with callbackSet := false, stop := .collect }
  | collected (hpc : h.stop = .collect) : StopStep h { h with
      entries := h.entries.hold (h.waiters.allToNotify h.entries.alive), waiters := {},
      stop := .notify (h.waiters.allToNotify h.entries.alive) 0 }
  | notified {entriesToNotify : List ℕ} {next r : ℕ} (hpc : h.stop = .notify entriesToNotify next)
      (hr : entriesToNotify[next]? = some r) : StopStep h { h with
        entries := h.entries.complete r { (h.entries r).event with result := .invalidState },
        stop := .notify entriesToNotify (next + 1) }
  | released {entriesToNotify : List ℕ} {next : ℕ} (hpc : h.stop = .notify entriesToNotify next) :
      StopStep h { h with entries := h.entries.release entriesToNotify, stop := .stopIoc }
  | iocStopped (hpc : h.stop = .stopIoc) : StopStep h { h with stop := .join }
  | joined (hpc : h.stop = .join) : StopStep h { h with stop := .stopped }

theorem HttpState.stepStop_cases {h h' : HttpState} (hs : h.step .stop = some h') :
    StopStep h h' := by
  change h.stepStop = some h' at hs
  rw [stepStop] at hs
  cases hpc : h.stop with
  | notify entriesToNotify next =>
      rw [hpc] at hs
      dsimp only at hs
      split at hs
      · obtain rfl := Option.some.inj hs
        exact .notified hpc ‹_›
      · obtain rfl := Option.some.inj hs
        exact .released hpc
  | join =>
      rw [hpc] at hs
      obtain ⟨-, hs⟩ := Option.ite_none_right_eq_some.mp hs
      obtain rfl := Option.some.inj hs
      exact .joined hpc
  | stopped => simp [hpc] at hs
  | running =>
      rw [hpc] at hs
      obtain rfl := Option.some.inj hs
      exact .exchanged hpc
  | setCompletionCallback =>
      rw [hpc] at hs
      obtain rfl := Option.some.inj hs
      exact .unset hpc
  | collect =>
      rw [hpc] at hs
      obtain rfl := Option.some.inj hs
      exact .collected hpc
  | stopIoc =>
      rw [hpc] at hs
      obtain rfl := Option.some.inj hs
      exact .iocStopped hpc

/-- It closes the acceptor on its way, and joins the threads in the end. -/
theorem StopStep.open {h h' : HttpState} (hs : StopStep h h') :
    h'.stop ≠ .running ∧ (h'.stop.open = true → h.stop.open = true) ∧
      (h.stop.open = true → h'.stop.open = true ∨ h'.stop = .collect) ∧
        (h'.stop = .stopped → h.stop = .join) := by
  cases hs with
  | exchanged hpc | unset hpc | collected hpc | notified hpc | released hpc | iocStopped hpc
  | joined hpc => simp [hpc, StopPc.open]

namespace AcceptInv

/-- Steps in which no thread leaves and nothing is accepted, unless the server is stopped. -/
theorem frame (hinv : AcceptInv c) (hle : c'.accepts ≤ c.accepts)
    (hsame : c.running = true → c'.accepts = c.accepts) (hopen : c'.acceptorOpen = c.acceptorOpen)
    (hstop : c'.http.stop = c.http.stop) (hexited : ∀ t, c'.io t = .exited ↔ c.io t = .exited) :
    AcceptInv c' := by
  have hrunning : c'.running = c.running := by simp [IoServer.running, hstop]
  constructor
  case atMostOne => exact hle.trans hinv.atMostOne
  case one =>
    intro hrun
    rw [hrunning] at hrun
    exact (hsame hrun).trans (hinv.one hrun)
  case alive => exact fun hrun t ht => hinv.alive (hrunning ▸ hrun) t ((hexited t).mp ht)
  case opened => exact fun ho => hopen ▸ hinv.opened (hstop ▸ ho)
  case closed => exact fun ho hne => hopen ▸ hinv.closed (hstop ▸ ho) (hstop ▸ hne)
  case joined => exact fun hs t => (hexited t).mpr (hinv.joined (hstop ▸ hs) t)

/-- The number of accepts when thread `t` goes on. -/
theorem accepts_update {pc : IoPc} (hio : c'.io = Function.update c.io t pc) :
    c'.accepts + (c.acceptPending.toNat + (c.io t).accepts.toNat) =
      c.accepts + (c'.acceptPending.toNat + pc.accepts.toNat) := by
  have hsum := sum_io (fun pc => pc.accepts.toNat) hio
  simp only [IoServer.accepts]
  omega

/-- Thread `t` goes on. It passes the accept on, if it has it, or the server is stopped. -/
theorem moved {pc : IoPc} (hinv : AcceptInv c) (hio : c'.io = Function.update c.io t pc)
    (ht : c.io t ≠ .exited) (hpc : pc ≠ .exited) (hopen : c'.acceptorOpen = c.acceptorOpen)
    (hstop : c'.http.stop = c.http.stop)
    (hle : c'.acceptPending.toNat + pc.accepts.toNat ≤
      c.acceptPending.toNat + (c.io t).accepts.toNat)
    (hsame : c.running = true → c'.acceptPending.toNat + pc.accepts.toNat =
      c.acceptPending.toNat + (c.io t).accepts.toNat) : AcceptInv c' := by
  have hcount := accepts_update hio
  refine hinv.frame (by omega) ?_ hopen hstop ?_
  · intro hrun
    have := hsame hrun
    omega
  · intro u
    rw [hio]
    by_cases hu : u = t
    · subst hu
      simp [ht, hpc]
    · rw [Function.update_of_ne hu]

/-- A thread that has the accept leaves none outstanding. -/
theorem pending_of_accepts (hinv : AcceptInv c) (ht : (c.io t).accepts = true) :
    c.acceptPending = false := by
  have hle : (c.io t).accepts.toNat ≤ ∑ u, (c.io u).accepts.toNat :=
    Finset.single_le_sum (f := fun u => (c.io u).accepts.toNat) (by simp) (Finset.mem_univ t)
  have hone := hinv.atMostOne
  rw [IoServer.accepts] at hone
  cases hp : c.acceptPending with
  | false => rfl
  | true =>
      simp only [hp, ht, Bool.toNat_true] at hone hle
      omega

/-- Every step keeps it so. -/
theorem step (hinv : AcceptInv c) (hs : c.step json l = some c') : AcceptInv c' := by
  have hframe : ∀ {http : HttpState}, http.stop = c.http.stop →
      AcceptInv { c with http := http } :=
    fun hstop => hinv.frame le_rfl (fun _ => rfl) rfl hstop fun _ => Iff.rfl
  cases step_cases hs with
  | core hhttp => exact hframe (beside_stop (by simp) hhttp).1
  | onCompletion hhttp => exact hframe (beside_stop (by simp) hhttp).1
  | handled ht hhttp => exact hframe (beside_stop (by simp) hhttp).1
  | rejected | hungUp | written =>
      exact hinv.frame le_rfl (fun _ => rfl) rfl rfl fun _ => Iff.rfl
  | acceptorClosed hstop hopen =>
      refine ⟨hinv.atMostOne, hinv.one, hinv.alive, ?_, fun _ _ => rfl, hinv.joined⟩
      intro ho
      have hopen' : c.http.stop.open = true := ho
      rw [hstop] at hopen'
      cases hopen'
  | @stop http hclosed hjoin hhttp =>
      obtain ⟨hne, hopen, hcollect, hstopped⟩ := (HttpState.stepStop_cases hhttp).open
      have hnot : IoServer.running { c with http := http } = false := by
        simp [IoServer.running, hne]
      refine ⟨hinv.atMostOne, ?_, ?_, fun ho => hinv.opened (hopen ho), ?_,
        fun hs => hjoin (hstopped hs)⟩
      · intro hrun
        rw [hnot] at hrun
        cases hrun
      · intro hrun
        rw [hnot] at hrun
        cases hrun
      · intro ho hncollect
        by_cases hcol : c.http.stop = .collect
        · exact hclosed hcol
        · apply hinv.closed _ hcol
          by_contra hopen'
          rcases hcollect (by simpa using hopen') with h | h
          · exact absurd (h.symm.trans ho) (by simp)
          · exact hncollect h
  | accepted hready hpending =>
      have ht := (decide_eq_true_eq.mp hready).1
      exact hinv.moved rfl (by simp [ht]) (by simp) rfl rfl
        (by simp [ht, hpending, IoServer.goto, IoPc.accepts])
        (by simp [ht, hpending, IoServer.goto, IoPc.accepts])
  | arrived hready hk hcheck =>
      have ht := (decide_eq_true_eq.mp hready).1
      exact hinv.moved rfl (by simp [ht]) (by simp) rfl rfl
        (by simp [ht, IoServer.goto, IoServer.setSession, IoPc.accepts])
        (by simp [ht, IoServer.goto, IoServer.setSession, IoPc.accepts])
  | passed ht | connected ht | acceptFailed ht | tested ht =>
      exact hinv.moved rfl (by simp [ht]) (by simp) rfl rfl
        (by simp [ht, IoServer.goto, IoPc.accepts]) (by simp [ht, IoServer.goto, IoPc.accepts])
  | @acceptOver t ht hstop =>
      have hne : c.io t ≠ .exited := by
        rcases ht with ⟨ok, ht⟩ | ht <;> simp [ht]
      exact hinv.moved rfl hne (by simp) rfl rfl (by simp [IoServer.goto, IoPc.accepts])
        (by simp [hstop])
  | armed ht =>
      have hpending := hinv.pending_of_accepts (t := _) (by rw [ht]; rfl)
      exact hinv.moved rfl (by simp [ht]) (by simp) rfl rfl
        (by simp [ht, hpending, IoServer.goto, IoPc.accepts])
        (by simp [ht, hpending, IoServer.goto, IoPc.accepts])
  | answered ht hk hth hpc =>
      exact hinv.moved rfl (by simp [ht]) (by simp) rfl rfl
        (by simp [ht, IoServer.goto, IoServer.setSession, IoPc.accepts])
        (by simp [ht, IoServer.goto, IoServer.setSession, IoPc.accepts])
  | @left t ht hwhy =>
      -- a server that is running has an accept, and so it has work
      have hnot : c.running = false := by
        by_contra hrun
        rw [Bool.not_eq_false] at hrun
        have hone := hinv.one hrun
        rcases hwhy with hwhy | hwhy
        · have hstop : c.http.stop = .running := decide_eq_true_eq.mp hrun
          rw [hstop] at hwhy
          cases hwhy
        · obtain ⟨hpending, -, hidle⟩ := decide_eq_true_eq.mp hwhy
          have hzero : ∑ u, (c.io u).accepts.toNat = 0 := by
            apply Finset.sum_eq_zero
            intro u _
            rcases hidle u with hu | hu <;> rw [hu] <;> rfl
          rw [IoServer.accepts, hpending, hzero] at hone
          cases hone
      have hcount := accepts_update (show (c.goto t .exited).io = Function.update c.io t .exited
        from rfl)
      have hsame : (c.goto t .exited).accepts = c.accepts := by
        simp only [ht, IoPc.accepts, IoServer.goto] at hcount ⊢
        omega
      refine ⟨hsame ▸ hinv.atMostOne, ?_, ?_, hinv.opened, hinv.closed, ?_⟩
      · intro hrun
        exact absurd (hnot.symm.trans hrun) (by simp)
      · intro hrun
        exact absurd (hnot.symm.trans hrun) (by simp)
      · intro hstop
        exact absurd (hinv.joined hstop t) (by simp [ht])

end AcceptInv

theorem acceptInv_of_reachable {G : IoServer → IoLabel → Prop}
    (hc : (ioSystem json).ReachableVia G c) : AcceptInv c := by
  refine hc.invariant ?init fun _ _ _ hinv _ hs => hinv.step hs
  case init =>
    rintro _ ⟨n, rfl⟩
    constructor
    case atMostOne => simp [IoServer.accepts, IoPc.accepts]
    case one => simp [IoServer.accepts, IoPc.accepts]
    case alive => exact fun _ _ => by simp
    case opened => exact fun _ => rfl
    case closed => exact fun ho => absurd ho (by simp [StopPc.open])
    case joined => exact fun hs => absurd hs (by simp)

/-- Who is about to make a connection has the accept. -/
theorem connecting_le (c : IoServer) : c.connecting ≤ c.accepts := by
  have hle : c.connecting ≤ ∑ t, (c.io t).accepts.toNat := by
    apply Finset.sum_le_sum
    intro t _
    cases c.io t with
    | accepted ok => cases ok <;> simp [IoPc.connects, IoPc.accepts]
    | run | onAccept | doAccept | asyncAccept | onRead | exited => simp [IoPc.connects]
  exact hle.trans (Nat.le_add_left _ _)

/-- The number of connections about to be made when thread `t` goes on. -/
theorem connecting_update {pc : IoPc} (hio : c'.io = Function.update c.io t pc) :
    c'.connecting + (c.io t).connects.toNat = c.connecting + pc.connects.toNat :=
  sum_io (fun pc => pc.connects.toNat) hio

theorem connecting_of_io {pc : IoPc} (hio : c'.io = Function.update c.io t pc)
    (ht : (c.io t).connects = false) (hpc : pc.connects = false) :
    c'.connecting = c.connecting := by
  simpa [ht, hpc] using connecting_update hio

/-- After the exchange at the beginning of `Stop` the server stays stopped, and a connection is made
only by a thread that had found it running before. -/
theorem stopped_step (hs : c.step json l = some c') (hstop : c.running = false) :
    c'.running = false ∧
      c'.sessions.length + c'.connecting = c.sessions.length + c.connecting := by
  have hframe : ∀ {http : HttpState}, http.stop = c.http.stop →
      IoServer.running { c with http := http } = false :=
    fun heq => by simpa [running, heq] using hstop
  cases step_cases hs with
  | core hhttp => exact ⟨hframe (beside_stop (by simp) hhttp).1, rfl⟩
  | onCompletion hhttp => exact ⟨hframe (beside_stop (by simp) hhttp).1, rfl⟩
  | handled ht hhttp => exact ⟨hframe (beside_stop (by simp) hhttp).1, rfl⟩
  | stop _ _ hhttp =>
      obtain ⟨hne, -⟩ := (HttpState.stepStop_cases hhttp).open
      exact ⟨by simp [running, hne], rfl⟩
  | acceptorClosed => exact ⟨hstop, rfl⟩
  | passed ht hrun => exact absurd (hstop.symm.trans hrun) (by simp)
  | tested ht hrun => exact absurd (hstop.symm.trans hrun) (by simp)
  | @connected t ht =>
      refine ⟨hstop, ?_⟩
      have hio : (IoServer.goto { c with sessions := c.sessions ++ [{ pc := .doRead }] } t
          .doAccept).io = Function.update c.io t .doAccept := rfl
      have hone := connecting_update hio
      rw [ht] at hone
      change _ + 1 = _ + 0 at hone
      simp only [goto, List.length_append, List.length_singleton] at hone ⊢
      omega
  | accepted hready =>
      have ht := (decide_eq_true_eq.mp hready).1
      exact ⟨hstop, congrArg (c.sessions.length + ·)
        (connecting_of_io rfl (by rw [ht]; rfl) rfl)⟩
  | acceptFailed ht | armed ht | left ht =>
      exact ⟨hstop, congrArg (c.sessions.length + ·)
        (connecting_of_io rfl (by rw [ht]; rfl) rfl)⟩
  | acceptOver ht =>
      refine ⟨hstop, congrArg (c.sessions.length + ·) (connecting_of_io rfl ?_ rfl)⟩
      rcases ht with ⟨ok, ht⟩ | ht <;> rw [ht] <;> rfl
  | hungUp | rejected | written =>
      exact ⟨hstop, congrArg (· + c.connecting) (by simp [setSession])⟩
  | arrived hready =>
      have ht := (decide_eq_true_eq.mp hready).1
      refine ⟨hstop, congrArg₂ (· + ·) (by simp [setSession, goto])
        (connecting_of_io rfl (by rw [ht]; rfl) rfl)⟩
  | answered ht =>
      exact ⟨hstop, congrArg₂ (· + ·) (by simp [setSession, goto])
        (connecting_of_io rfl (by rw [ht]; rfl) rfl)⟩

/-- The steps that are left to a thread before the next accept is outstanding. -/
def IoPc.acceptRank : IoPc → ℕ
  | .onAccept _ => 4
  | .accepted _ => 3
  | .doAccept => 2
  | .asyncAccept => 1
  | .run | .onRead .. | .exited => 0

def IoLabel.isAdvance (t : Fin threadCount) : IoLabel → Bool
  | .advance u => u = t
  | _ => false

/-- Only its own steps move a thread that has the accept. -/
theorem io_of_accepts (ht : (c.io t).accepts = true) (hs : c.step json l = some c')
    (hl : l.isAdvance t = false) : c'.io t = c.io t := by
  have hother : ∀ {u : Fin threadCount}, (c.io u).accepts = false ∨ t ≠ u → ∀ pc,
      Function.update c.io u pc t = c.io t := by
    intro u hu pc
    rcases hu with hu | hu
    · apply Function.update_of_ne
      rintro rfl
      exact absurd (hu.symm.trans ht) (by simp)
    · exact Function.update_of_ne hu ..
  cases step_cases hs with
  | core | onCompletion | stop | acceptorClosed | handled | rejected | hungUp | written => rfl
  | accepted hready hpending =>
      have hu := (decide_eq_true_eq.mp hready).1
      exact hother (.inl (by rw [hu]; rfl)) _
  | arrived hready hk hcheck =>
      have hu := (decide_eq_true_eq.mp hready).1
      exact hother (.inl (by rw [hu]; rfl)) _
  | passed | connected | acceptFailed | acceptOver | tested | armed | answered =>
      exact hother (.inr (Ne.symm (by simpa [IoLabel.isAdvance] using hl))) _
  | left hu hwhy => exact hother (.inl (by rw [hu]; rfl)) _

/-- Its own steps bring it closer to the next accept. -/
theorem acceptRank_advance (hs : c.step json (.advance t) = some c')
    (ht : (c.io t).accepts = true) (hrun : c.running = true) :
    (c'.acceptPending = true ∨ (c'.io t).accepts = true) ∧
      (c'.io t).acceptRank < (c.io t).acceptRank := by
  cases step_cases hs with
  | passed ht => simp [goto, ht, IoPc.accepts, IoPc.acceptRank]
  | connected ht => simp [goto, ht, IoPc.accepts, IoPc.acceptRank]
  | acceptFailed ht => simp [goto, ht, IoPc.accepts, IoPc.acceptRank]
  | acceptOver ht hstop => exact absurd (hstop.symm.trans hrun) (by simp)
  | tested ht hrun => simp [goto, ht, IoPc.accepts, IoPc.acceptRank]
  | armed ht => simp [goto, ht, IoPc.accepts, IoPc.acceptRank]
  | answered ht' | handled ht' => exact absurd ht (by simp [ht', IoPc.accepts])

/-- It starts the next accept after so many steps of its own. -/
theorem accept_within (ht : (c.io t).accepts = true) :
    (ioSystem json).Within (IoLabel.isAdvance t)
      (fun c => c.acceptPending = true ∨ c.running = false) (c.io t).acceptRank c := by
  refine Lts.Within.of_measure (V := fun c : IoServer => (c.io t).acceptRank)
    (I := fun c : IoServer => (c.io t).accepts = true ∨ c.acceptPending = true ∨
      c.running = false) ?step ?next (.inl ht)
  case step =>
    intro c l c' hI hP hs
    change c.step json l = some c' at hs
    have ht := hI.resolve_right hP
    cases hl : l.isAdvance t with
    | false =>
        have hio := io_of_accepts ht hs hl
        simp [hio, ht]
    | true =>
        obtain ⟨u, rfl, rfl⟩ : ∃ u, l = .advance u ∧ u = t := by
          cases l <;> simp_all [IoLabel.isAdvance]
        obtain ⟨-, hrun⟩ := not_or.mp hP
        obtain ⟨hnext, hlt⟩ := acceptRank_advance hs ht (by simpa using hrun)
        refine ⟨hnext.symm.imp_right .inl, ?_⟩
        simp only [if_true]
        omega
  case next =>
    intro c hI hP
    have ht := hI.resolve_right hP
    obtain ⟨-, hrun⟩ := not_or.mp hP
    rw [Bool.not_eq_false] at hrun
    suffices hnext : ∃ c', c.step json (.advance t) = some c' by
      obtain ⟨c', hc'⟩ := hnext
      exact ⟨.advance t, c', by simp [IoLabel.isAdvance], hc'⟩
    simp only [step, stepIo]
    cases hpc : c.io t with
    | run | onRead | exited =>
        rw [hpc] at ht
        cases ht
    | onAccept | accepted | doAccept | asyncAccept => exact ⟨_, rfl⟩

/-- **The server listens.** At no time is more than one accept outstanding or about to be started.
Until the server is stopped there is one, the acceptor is open and no thread has left; a thread that
is to start the next accept does so in at most four steps, whatever happens in between. From then
on no connection is made, but for one at most, by a thread that had found the server running. -/
theorem listens (hc : (ioSystem json).Reachable c) :
    c.accepts ≤ 1 ∧
      (c.running = true → c.accepts = 1 ∧ c.acceptorOpen = true ∧ ∀ t, c.io t ≠ .exited) ∧
      (∀ t, (c.io t).accepts = true → (ioSystem json).Within (IoLabel.isAdvance t)
        (fun c => c.acceptPending = true ∨ c.running = false) 4 c) ∧
      (c.running = false → c.connecting ≤ 1 ∧
        ∀ c', (ioSystem json).RunVia Lts.anyStep c c' → c'.running = false ∧
          c'.sessions.length + c'.connecting = c.sessions.length + c.connecting) := by
  have hinv := acceptInv_of_reachable hc
  refine ⟨hinv.atMostOne, ?_, ?_, ?_⟩
  · intro hrun
    exact ⟨hinv.one hrun, hinv.opened (open_of_running hrun), hinv.alive hrun⟩
  · intro t ht
    exact (accept_within ht).mono (by cases c.io t <;> simp [IoPc.acceptRank])
  · intro hstop
    refine ⟨(connecting_le c).trans hinv.atMostOne, fun c' hrun => ?_⟩
    refine hrun.invariant (I := fun c' : IoServer => c'.running = false ∧
      c'.sessions.length + c'.connecting = c.sessions.length + c.connecting) ?step ⟨hstop, rfl⟩
    case step =>
      rintro c₁ l c₂ ⟨hstop₁, hlen⟩ - hs
      obtain ⟨hstop₂, hlen'⟩ := stopped_step hs hstop₁
      exact ⟨hstop₂, hlen'.trans hlen⟩

/-- While a thread is in the handler of an accept and has found the server running, `Stop` begins;
then the thread makes its connection. -/
theorem listens_accepting : ∃ c d c' : IoServer,
    (ioSystem oneObjectJson).exec (fun _ _ => true)
        { http := { core := .resting .boot [], nextSessionId := 1 } }
        [.accept 0 true, .advance 0] = some c ∧
      c.acceptPending = false ∧ c.accepts = 1 ∧
      (ioSystem oneObjectJson).Within (IoLabel.isAdvance 0)
        (fun c => c.acceptPending = true ∨ c.running = false) 4 c ∧
      c.step oneObjectJson .stop = some d ∧ d.running = false ∧ d.sessions = [] ∧
      d.step oneObjectJson (.advance 0) = some c' ∧
      c'.sessions.length + c'.connecting = 1 := by
  obtain ⟨c, d, c', hrun, hpending, hrunning, ht, hstep, hstop, hnone, hstep', hone⟩ :
      ∃ c d c' : IoServer,
        (ioSystem oneObjectJson).exec (fun _ _ => true)
            { http := { core := .resting .boot [], nextSessionId := 1 } }
            [.accept 0 true, .advance 0] = some c ∧
          c.acceptPending = false ∧ c.running = true ∧ (c.io 0).accepts = true ∧
          c.step oneObjectJson .stop = some d ∧ d.running = false ∧ d.sessions = [] ∧
          d.step oneObjectJson (.advance 0) = some c' ∧ d.connecting = 1 :=
    ⟨_, _, _, rfl, rfl, rfl, rfl, rfl, rfl, rfl, rfl, rfl⟩
  have hc : (ioSystem oneObjectJson).Reachable c :=
    ⟨_, ⟨1, rfl⟩, Lts.runVia_of_exec (fun _ _ _ => trivial) hrun⟩
  have hd : (ioSystem oneObjectJson).Reachable d := hc.step (a := .stop) trivial hstep
  obtain ⟨-, haccepts, hwithin, -⟩ := listens hc
  have hlen := ((listens hd).2.2.2 hstop).2 c'
    (Lts.RunVia.single (M := ioSystem oneObjectJson) (a := .advance 0) trivial hstep')
  refine ⟨c, d, c', hrun, hpending, (haccepts hrunning).1, hwithin 0 ht, hstep, hstop, hnone,
    hstep', ?_⟩
  simpa [hnone, hone] using hlen.2

end FsmFramework
