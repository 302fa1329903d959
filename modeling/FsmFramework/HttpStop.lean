import FsmFramework.HttpListening

/-!
# `HttpServer::Stop` comes to its end

`Stop` is a step among those of dispatching threads and of handlers that keep beginning. Until it
has stopped the I/O context it waits for nobody, and notifies no more entries than there are
threads; afterwards no handler begins, and the threads it joins have few steps left, the one that a
waiting request takes when its wait ends among them.

## Main results

* `server_stop_returns` — the bounds, and what is left when `Stop` has returned.
-/

namespace FsmFramework

open IoServer

variable {json : BoostJson} {c c' : IoServer} {l : IoLabel} {t : Fin threadCount} {k r : ℕ}

/-! ## What is left to do -/

/-- The steps that are left to `Stop` before it joins the threads. -/
def IoServer.stopRank (c : IoServer) : ℕ :=
  match c.http.stop with
  | .running => threadCount + 6
  | .setCompletionCallback => threadCount + 5
  | .collect => threadCount + 3 + c.acceptorOpen.toNat
  | .notify entriesToNotify next => 2 + (entriesToNotify.length - next)
  | .stopIoc => 1
  | .join | .stopped => 0

/-- `Stop` has stopped the I/O context. -/
def IoServer.joining (c : IoServer) : Prop := c.http.stop = .join ∨ c.http.stop = .stopped

def IoLabel.isStop : IoLabel → Bool
  | .stop => true
  | _ => false

/-- A step of `Stop`, or of a thread that goes on in its handler or leaves. -/
def IoLabel.isOwn : IoLabel → Bool
  | .stop | .advance _ | .leave _ => true
  | _ => false

/-- The steps that are left to the thread of a request. -/
def HttpPc.rank : HttpPc → ℕ
  | .generateSessionId => 7
  | .registerWaiter _ => 5
  | .syncSendMsg _ => 4
  | .waitFor _ => 3
  | .unregisterWaiter .. => 2
  | .returning .. | .sendMsg _ => 1
  | .answered .. => 0

theorem HttpPc.rank_le (pc : HttpPc) : pc.rank ≤ 7 := by
  cases pc <;> simp [rank]

/-- The steps that are left to a thread before it leaves. -/
def HttpState.ioRank (h : HttpState) : IoPc → ℕ
  | .exited => 0
  | .run => 1
  | .asyncAccept => 2
  | .doAccept => 3
  | .accepted _ => 4
  | .onAccept _ => 5
  | .onRead _ r => 2 + (h.requests[r]?.map fun th => th.pc.rank).getD 0

/-- The next session id is generated at the second try. -/
def HttpState.retries (h : HttpState) : ℕ := if h.nextSessionId = 0 then 1 else 0

theorem HttpState.retries_le (h : HttpState) : h.retries ≤ 1 := by
  rw [retries]
  split <;> omega

/-- The steps that are left once the I/O context is stopped. -/
def IoServer.joinRank (c : IoServer) : ℕ :=
  (if c.http.stop = .join then 1 else 0) + c.http.retries + ∑ t, c.http.ioRank (c.io t)

/-- The entries that `Stop` notifies are no more than the threads. -/
theorem length_notify_le (hc : (ioSystem json).Reachable c) {entriesToNotify : List ℕ} {next : ℕ}
    (hstop : c.http.stop = .notify entriesToNotify next) :
    entriesToNotify.length ≤ threadCount := by
  refine hc.invariant_reachable (I := fun c => ∀ es n, c.http.stop = .notify es n →
    es.length ≤ threadCount) ?init ?step _ _ hstop
  case init =>
    rintro _ ⟨n, rfl⟩ es n' hstop
    cases hstop
  case step =>
    intro c l c' hr hle _ hs es n hstop
    have hframe : c'.http.stop = c.http.stop → es.length ≤ threadCount :=
      fun heq => hle es n (heq.symm.trans hstop)
    cases step_cases hs with
    | core hhttp => exact hframe (beside_stop (by simp) hhttp).1
    | onCompletion hhttp => exact hframe (beside_stop (by simp) hhttp).1
    | handled ht hhttp => exact hframe (beside_stop (by simp) hhttp).1
    | acceptorClosed | accepted | hungUp | rejected | arrived | written | passed | connected
    | acceptFailed | acceptOver | tested | armed | answered | left => exact hframe rfl
    | stop _ _ hhttp =>
        cases HttpState.stepStop_cases hhttp with
        | exchanged | unset | released | iocStopped | joined => cases hstop
        | collected hpc =>
            cases hstop
            exact length_allToNotify_le hr _
        | notified hpc =>
            cases hstop
            exact hle _ _ hpc

theorem stopRank_le (hc : (ioSystem json).Reachable c) : c.stopRank ≤ threadCount + 6 := by
  rw [IoServer.stopRank]
  cases hpc : c.http.stop with
  | notify entriesToNotify next =>
      have hle := length_notify_le hc hpc
      simp only
      omega
  | collect =>
      have hle := c.acceptorOpen.toNat_le
      simp only
      omega
  | running | setCompletionCallback | stopIoc | join | stopped =>
      simp only
      omega

theorem joinRank_le : c.joinRank ≤ 2 + 9 * threadCount := by
  have hrank : ∀ pc, c.http.ioRank pc ≤ 9 := by
    intro pc
    cases pc with
    | onRead k r =>
        simp only [HttpState.ioRank]
        cases c.http.requests[r]? with
        | none => simp
        | some th =>
            have hle := th.pc.rank_le
            simp only [Option.map_some, Option.getD_some]
            omega
    | run | onAccept | accepted | doAccept | asyncAccept | exited => simp [HttpState.ioRank]
  have hsum : ∑ t, c.http.ioRank (c.io t) ≤ ∑ _t : Fin threadCount, 9 :=
    Finset.sum_le_sum fun t _ => hrank (c.io t)
  have hretries := c.http.retries_le
  rw [Finset.sum_const, Finset.card_univ, Fintype.card_fin, smul_eq_mul] at hsum
  rw [IoServer.joinRank]
  split <;> omega

/-- `Stop` alone moves what is left to it. -/
theorem stopRank_step (hc : (ioSystem json).Reachable c) (hs : c.step json l = some c')
    (hjoin : ¬ c.joining) : (if l.isStop then 1 else 0) + c'.stopRank ≤ c.stopRank := by
  have hframe : ∀ {c' : IoServer}, c'.http.stop = c.http.stop →
      c'.acceptorOpen = c.acceptorOpen → 0 + c'.stopRank ≤ c.stopRank := by
    intro c' hstop hopen
    simp [IoServer.stopRank, hstop, hopen]
  cases step_cases hs with
  | core hhttp => exact hframe (beside_stop (by simp) hhttp).1 rfl
  | onCompletion hhttp => exact hframe (beside_stop (by simp) hhttp).1 rfl
  | handled ht hhttp => exact hframe (beside_stop (by simp) hhttp).1 rfl
  | accepted | hungUp | rejected | arrived | written | passed | connected | acceptFailed
  | acceptOver | tested | armed | answered | left => exact hframe rfl rfl
  | acceptorClosed hstop hopen => simp [IoLabel.isStop, IoServer.stopRank, hstop, hopen]; omega
  | stop _ _ hhttp =>
      have hlen := length_allToNotify_le hc c.http.entries.alive
      have hle := c.acceptorOpen.toNat_le
      cases HttpState.stepStop_cases hhttp with
      | joined hpc => exact absurd (.inl hpc) hjoin
      | notified hpc hr =>
          have hlt := (List.getElem?_eq_some_iff.mp hr).1
          simp only [IoLabel.isStop, IoServer.stopRank, hpc, if_true]
          omega
      | exchanged hpc | unset hpc | collected hpc | released hpc | iocStopped hpc =>
          simp only [IoLabel.isStop, IoServer.stopRank, hpc, if_true]
          omega

/-- Until it joins, nothing holds `Stop` up. -/
theorem stop_enabled (hjoin : ¬ c.joining) : ∃ c', c.step json .stop = some c' := by
  simp only [step, stepStop]
  split
  · exact ⟨_, rfl⟩
  · rename_i hclosed
    have hnot : ¬ (c.http.stop = .join ∧ ∃ t, c.io t ≠ .exited) :=
      fun h => hjoin (.inl h.1)
    rw [if_neg hnot, stepHttp]
    suffices hsome : ∃ http, c.http.step .stop = some http by
      obtain ⟨http, hhttp⟩ := hsome
      exact ⟨_, congrArg (Option.map _) hhttp⟩
    simp only [HttpState.step, HttpState.stepStop]
    cases hpc : c.http.stop with
    | join => exact absurd (.inl hpc) hjoin
    | stopped => exact absurd (.inr hpc) hjoin
    | notify entriesToNotify next =>
        dsimp only
        split <;> exact ⟨_, rfl⟩
    | running | setCompletionCallback | collect | stopIoc => exact ⟨_, rfl⟩

/-- A step of a request's thread. The counter of the session ids may be left at 0. -/
theorem rank_handled {h h' : HttpState} {th th' : HttpThread} (hd : Handled h r th th' h') :
    1 + (h'.retries + th'.pc.rank) ≤ h.retries + th.pc.rank := by
  cases hd with
  | retried hpc hz => simp [HttpState.retries, hz]
  | @generated pc hpc hz hnext =>
      have hrank : pc.rank ≤ 5 := by
        rw [hnext]
        split <;> simp [HttpPc.rank]
      have hretries := HttpState.retries_le { h with nextSessionId := h.nextSessionId + 1 }
      change 1 + (_ + pc.rank) ≤ _
      rw [hpc, HttpPc.rank]
      omega
  | @sent msg hpc | @refused msg hpc | @syncSent msg hpc =>
      have hsame : (h.sendMsg r msg).2.retries = h.retries := rfl
      rw [hsame, hpc]
      simp only [HttpPc.rank]
      omega
  | registered hpc | waited hpc | unregistered hpc | answered hpc =>
      simp only [hpc, HttpPc.rank, HttpState.retries]
      omega

theorem ioRank_of_requests {h h' : HttpState} (hreq : h'.requests = h.requests) :
    h'.ioRank = h.ioRank := by
  funext pc
  cases pc <;> simp [HttpState.ioRank, hreq]

theorem stepOnCompletion_nextSessionId {h : HttpState} (t : ℕ) (call : CallbackPc) :
    (h.stepOnCompletion t call).nextSessionId = h.nextSessionId := by
  cases call with
  | collect => rfl
  | notify inst event entriesToNotify next =>
      simp only [HttpState.stepOnCompletion]
      split <;> rfl

/-- A thread that goes on without a step of its request. -/
theorem joinRank_update {pc : IoPc} (hio : c'.io = Function.update c.io t pc)
    (hstop : c'.http.stop = c.http.stop) (hnext : c'.http.nextSessionId = c.http.nextSessionId)
    (hreq : c'.http.requests = c.http.requests) (hlt : c.http.ioRank pc < c.http.ioRank (c.io t)) :
    1 + c'.joinRank ≤ c.joinRank := by
  have hrank : c'.http.ioRank = c.http.ioRank := ioRank_of_requests hreq
  have hretries : c'.http.retries = c.http.retries := by rw [HttpState.retries, hnext]; rfl
  have hsum := sum_io c.http.ioRank hio
  simp only [IoServer.joinRank, hrank, hstop, hretries]
  omega

/-- The thread of a request takes a step. -/
theorem joinRank_handled {h : HttpState} (hinv : IoInv json c) (ht : c.io t = .onRead k r)
    (hs : c.http.step (.handle r) = some h) : 1 + IoServer.joinRank { c with http := h } ≤
      c.joinRank := by
  have hstop : h.stop = c.http.stop := (beside_stop (by simp) hs).1
  obtain ⟨th, th', h', hth, hd, heq⟩ := HttpState.step_handle hs
  have hlt := (List.getElem?_eq_some_iff.mp hth).1
  have hrank := rank_handled hd
  have hretries : h.retries = h'.retries := by
    rw [heq]
    rfl
  have hreq : h.requests = c.http.requests.set r th' := by rw [heq]
  have hsum : ∑ u, h.ioRank (c.io u) + c.http.ioRank (c.io t) =
      ∑ u, c.http.ioRank (c.io u) + h.ioRank (c.io t) := by
    refine sum_threads (f := fun u => c.http.ioRank (c.io u)) (g := fun u => h.ioRank (c.io u)) ?_
    intro u hu
    cases hpc : c.io u with
    | onRead k' r' =>
        -- no other thread has this request
        have hne : r ≠ r' := by
          rintro rfl
          obtain ⟨s, hk, hr, -⟩ := hinv.threads u k' r hpc
          obtain ⟨s', hk', hr', -⟩ := hinv.threads t k r ht
          obtain rfl := hinv.unique r k' k ⟨s, hk, hr⟩ ⟨s', hk', hr'⟩
          exact hu (hinv.alone u t k' r hpc ht)
        simp [HttpState.ioRank, hreq, List.getElem?_set_ne hne]
    | run | onAccept | accepted | doAccept | asyncAccept | exited => rfl
  have hself : c.http.ioRank (c.io t) = 2 + th.pc.rank := by simp [ht, HttpState.ioRank, hth]
  have hself' : h.ioRank (c.io t) = 2 + th'.pc.rank := by
    simp [ht, HttpState.ioRank, hreq, hlt]
  rw [hself, hself'] at hsum
  simp only [IoServer.joinRank, hstop]
  omega

/-- Once the I/O context is stopped no handler begins, and every step of `Stop` and of the threads
brings them closer to the end. -/
theorem joinRank_step (hinv : IoInv json c) (hs : c.step json l = some c') (hjoin : c.joining) :
    c'.joining ∧ (if l.isOwn then 1 else 0) + c'.joinRank ≤ c.joinRank := by
  have haccepting : c.http.stop.accepting = false := by
    rcases hjoin with h | h <;> rw [h] <;> rfl
  have hready : ∀ t, c.ready t = true → False := by
    intro t h
    rw [(decide_eq_true_eq.mp h).2] at haccepting
    cases haccepting
  have hjoining : ∀ {c' : IoServer}, c'.http.stop = c.http.stop → c'.joining := by
    intro c' hstop
    rwa [joining, hstop]
  have hother : ∀ {http : HttpState}, http.stop = c.http.stop → http.requests = c.http.requests →
      http.nextSessionId = c.http.nextSessionId →
      0 + IoServer.joinRank { c with http := http } ≤ c.joinRank := by
    intro http hstop hreq hnext
    simp [IoServer.joinRank, HttpState.retries, hstop, hnext, ioRank_of_requests hreq]
  cases step_cases hs with
  | core hhttp =>
      have hstop := (beside_stop (by simp) hhttp).1
      obtain ⟨core, callbacks, -, rfl, -⟩ := HttpState.step_core hhttp
      exact ⟨hjoining hstop, hother hstop rfl rfl⟩
  | @onCompletion x http hhttp =>
      have hstop := (beside_stop (by simp) hhttp).1
      obtain ⟨call, -, rfl⟩ := HttpState.step_onCompletion hhttp
      exact ⟨hjoining hstop, hother hstop (c.http.stepOnCompletion_frame x call).2.1
        (stepOnCompletion_nextSessionId x call)⟩
  | acceptorClosed hstop hopen =>
      rcases hjoin with h | h <;> exact absurd (hstop.symm.trans h) (by simp)
  | stop _ _ hhttp =>
      cases HttpState.stepStop_cases hhttp with
      | joined hpc =>
          refine ⟨.inr rfl, ?_⟩
          have hrank : HttpState.ioRank { c.http with stop := .stopped } = c.http.ioRank :=
            ioRank_of_requests rfl
          simp only [IoLabel.isOwn, IoServer.joinRank, hpc, HttpState.retries, hrank, if_true,
            reduceCtorEq, if_false]
          omega
      | exchanged hpc | unset hpc | collected hpc | notified hpc | released hpc
      | iocStopped hpc => rcases hjoin with h | h <;> exact absurd (hpc.symm.trans h) (by simp)
  | accepted hready' => exact (hready _ hready').elim
  | hungUp hready' => exact (hready _ hready').elim
  | rejected hready' => exact (hready _ hready').elim
  | arrived hready' => exact (hready _ hready').elim
  | written hready' => exact (hready _ hready').elim
  | passed ht | connected ht | acceptFailed ht | tested ht =>
      exact ⟨hjoining rfl, joinRank_update rfl rfl rfl rfl (by simp [ht, HttpState.ioRank])⟩
  | acceptOver ht hstop =>
      refine ⟨hjoining rfl, joinRank_update rfl rfl rfl rfl ?_⟩
      rcases ht with ⟨ok, ht⟩ | ht <;> simp [ht, HttpState.ioRank]
  | armed ht =>
      exact ⟨hjoining rfl, joinRank_update rfl rfl rfl rfl (by simp [ht, HttpState.ioRank])⟩
  | answered ht hk hth hpc =>
      refine ⟨hjoining rfl, joinRank_update rfl rfl rfl rfl ?_⟩
      simp only [ht, HttpState.ioRank]
      omega
  | handled ht hhttp =>
      exact ⟨hjoining (beside_stop (by simp) hhttp).1, joinRank_handled hinv ht hhttp⟩
  | left ht hwhy =>
      exact ⟨hjoining rfl, joinRank_update rfl rfl rfl rfl (by simp [ht, HttpState.ioRank])⟩

/-- The thread of a request in progress can go on. -/
theorem handle_enabled {h : HttpState} (hr : h.inProgress r = true) :
    ∃ h', h.step (.handle r) = some h' := by
  obtain ⟨th, hth, hpc⟩ := HttpState.inProgress_iff.mp hr
  simp only [HttpState.step, hth, Option.bind_some, HttpState.stepHandle]
  cases hthread : th.pc with
  | answered => simp [hthread, HttpPc.isAnswered] at hpc
  | generateSessionId =>
      dsimp only
      split <;> exact ⟨_, rfl⟩
  | sendMsg | registerWaiter | syncSendMsg | waitFor | unregisterWaiter | returning =>
      exact ⟨_, rfl⟩

/-- A thread in a handler can go on. -/
theorem advance_enabled (hinv : IoInv json c) (ht : c.io t ≠ .run) (ht' : c.io t ≠ .exited) :
    ∃ c', c.step json (.advance t) = some c' := by
  simp only [step, stepIo]
  cases hpc : c.io t with
  | run => exact absurd hpc ht
  | exited => exact absurd hpc ht'
  | onAccept | accepted | doAccept | asyncAccept => exact ⟨_, rfl⟩
  | onRead k r =>
      obtain ⟨s, hk, hreq, -⟩ := hinv.threads t k r hpc
      have hlt := hinv.bound r k ⟨s, hk, hreq⟩
      dsimp only
      split
      · exact ⟨_, rfl⟩
      · rename_i hnot
        have hr : c.http.inProgress r = true := by
          refine HttpState.inProgress_iff.mpr ⟨_, List.getElem?_eq_getElem hlt, ?_⟩
          cases hth : c.http.requests[r].pc with
          | answered msg response =>
              exact absurd (by simp [List.getElem?_eq_getElem hlt, hth]) (hnot s msg response hk)
          | _ => rfl
        obtain ⟨h', hs⟩ := handle_enabled hr
        exact ⟨{ c with http := h' }, by simp [stepHttp, hs]⟩

/-- When all threads have left, `Stop` has nothing more to wait for. -/
theorem join_enabled (hinv : IoInv json c) (hstop : c.http.stop = .join)
    (hexited : ∀ t, c.io t = .exited) : ∃ c', c.step json .stop = some c' := by
  have hs : c.http.step .stop = some { c.http with stop := .stopped } := by
    simp only [HttpState.step, HttpState.stepStop, hstop]
    apply if_pos
    rw [List.all_eq_true]
    intro th hth
    obtain ⟨r, hr, rfl⟩ := List.getElem_of_mem hth
    cases hpc : c.http.requests[r].pc with
    | answered => rfl
    | _ =>
        obtain ⟨t, k, ht⟩ := hinv.exists_thread (r := r) (HttpState.inProgress_iff.mpr
          ⟨_, List.getElem?_eq_getElem hr, by rw [hpc]; rfl⟩)
        rw [hexited t] at ht
        cases ht
  exact ⟨{ c with http := { c.http with stop := .stopped } },
    by simp [step, stepStop, hstop, hexited, stepHttp, hs]⟩

/-- Once the I/O context is stopped, somebody can go on until `Stop` has returned. -/
theorem own_enabled (hinv : IoInv json c) (hjoin : c.joining) (hstop : c.http.stop ≠ .stopped) :
    ∃ l c', l.isOwn = true ∧ c.step json l = some c' := by
  have hj : c.http.stop = .join := hjoin.resolve_right hstop
  by_cases hexited : ∀ t, c.io t = .exited
  · obtain ⟨c', hs⟩ := join_enabled hinv hj hexited
    exact ⟨.stop, c', rfl, hs⟩
  · simp only [not_forall] at hexited
    obtain ⟨t, ht⟩ := hexited
    by_cases hrun : c.io t = .run
    · exact ⟨.leave t, c.goto t .exited, rfl, by simp [step, hrun, hj, StopPc.accepting]⟩
    · obtain ⟨c', hs⟩ := advance_enabled hinv hrun ht
      exact ⟨.advance t, c', rfl, hs⟩

/-- When `Stop` has returned, only dispatching threads go on, and they see no connection. -/
theorem after_stop (hexited : ∀ t, c.io t = .exited) (hstop : c.http.stop = .stopped)
    (hs : c.step json l = some c') :
    c'.http.stop = .stopped ∧ c'.io = c.io ∧ c'.sessions = c.sessions ∧
      c'.http.requests = c.http.requests := by
  have hready : ∀ t, c.ready t = true → False := by
    intro t h
    have ht := (decide_eq_true_eq.mp h).1
    rw [hexited t] at ht
    cases ht
  cases step_cases hs with
  | core hhttp =>
      have hsame := (beside_stop (by simp) hhttp).1
      obtain ⟨core, callbacks, -, rfl, -⟩ := HttpState.step_core hhttp
      exact ⟨hstop, rfl, rfl, rfl⟩
  | @onCompletion x http hhttp =>
      have hsame := (beside_stop (by simp) hhttp).1
      obtain ⟨call, -, rfl⟩ := HttpState.step_onCompletion hhttp
      exact ⟨hsame.trans hstop, rfl, rfl, (c.http.stepOnCompletion_frame x call).2.1⟩
  | acceptorClosed hcollect => exact absurd (hstop.symm.trans hcollect) (by simp)
  | stop _ _ hhttp => simp [HttpState.step, HttpState.stepStop, hstop] at hhttp
  | accepted hready' => exact (hready _ hready').elim
  | hungUp hready' => exact (hready _ hready').elim
  | rejected hready' => exact (hready _ hready').elim
  | arrived hready' => exact (hready _ hready').elim
  | written hready' => exact (hready _ hready').elim
  | passed ht | connected ht | acceptFailed ht | tested ht | armed ht | answered ht | handled ht
  | left ht =>
      exact absurd ((hexited _).symm.trans ht) (by simp)
  | @acceptOver t ht =>
      rcases ht with ⟨ok, ht⟩ | ht <;> exact absurd ((hexited t).symm.trans ht) (by simp)

/-- **`Stop` returns.** Whatever else happens, nothing holds it up until it has stopped the I/O
context, after so many steps; and then it and the threads have only so many steps left, with one of
them always possible, until it has returned. Then every request is answered, no thread is left, and
nothing happens to a connection any more. -/
theorem server_stop_returns (hc : (ioSystem json).Reachable c) :
    (ioSystem json).Within IoLabel.isStop IoServer.joining (threadCount + 6) c ∧
      (c.joining → (ioSystem json).Within IoLabel.isOwn (fun c => c.http.stop = .stopped)
        (2 + 9 * threadCount) c) ∧
      (c.http.stop = .stopped → c.http.allInProgress = ∅ ∧ (∀ t, c.io t = .exited) ∧
        ∀ c', (ioSystem json).RunVia Lts.anyStep c c' →
          c'.sessions = c.sessions ∧ c'.http.requests = c.http.requests) := by
  have hinv := ioInv_of_reachable hc
  refine ⟨?_, ?_, ?_⟩
  · have hwithin : (ioSystem json).Within IoLabel.isStop IoServer.joining c.stopRank c := by
      refine Lts.Within.of_measure (I := (ioSystem json).Reachable) (V := IoServer.stopRank) ?step
        ?next hc
      case step => exact fun s a t hr hjoin hs => ⟨hr.step trivial hs, stopRank_step hr hs hjoin⟩
      case next =>
        intro s _ hjoin
        obtain ⟨s', hs⟩ : ∃ s', s.step json .stop = some s' := stop_enabled hjoin
        exact ⟨.stop, s', rfl, hs⟩
    exact hwithin.mono (stopRank_le hc)
  · intro hjoin
    have hwithin : (ioSystem json).Within IoLabel.isOwn (fun c => c.http.stop = .stopped)
        c.joinRank c := by
      refine Lts.Within.of_measure (I := fun c => IoInv json c ∧ c.joining)
        (V := IoServer.joinRank) ?step ?next ⟨hinv, hjoin⟩
      case step =>
        rintro s a t ⟨hI, hj⟩ - hs
        obtain ⟨hj', hle⟩ := joinRank_step hI hs hj
        exact ⟨⟨hI.step hs, hj'⟩, hle⟩
      case next =>
        rintro s ⟨hI, hj⟩ hstop
        obtain ⟨l, s', hl, hs⟩ := own_enabled hI hj hstop
        exact ⟨l, s', hl, hs⟩
    exact hwithin.mono joinRank_le
  · intro hstop
    have hexited := (acceptInv_of_reachable hc).joined hstop
    refine ⟨?_, hexited, ?_⟩
    · rw [Finset.eq_empty_iff_forall_notMem]
      intro r hr
      obtain ⟨t, k, ht⟩ := hinv.exists_thread (HttpState.mem_allInProgress.mp hr)
      rw [hexited t] at ht
      cases ht
    · intro c' hrun
      suffices hgoal : c'.http.stop = .stopped ∧ c'.io = c.io ∧ c'.sessions = c.sessions ∧
          c'.http.requests = c.http.requests from ⟨hgoal.2.2.1, hgoal.2.2.2⟩
      refine hrun.invariant (I := fun c' : IoServer => c'.http.stop = .stopped ∧ c'.io = c.io ∧
        c'.sessions = c.sessions ∧ c'.http.requests = c.http.requests) ?step ⟨hstop, rfl, rfl, rfl⟩
      case step =>
        rintro c₁ l c₂ ⟨hstop₁, hio, hsessions, hreq⟩ - hs
        obtain ⟨hstop₂, hio', hsessions', hreq'⟩ :=
          after_stop (fun t => by rw [hio]; exact hexited t) hstop₁ hs
        exact ⟨hstop₂, hio'.trans hio, hsessions'.trans hsessions, hreq'.trans hreq⟩

/-- `Stop` is called while both threads wait. -/
theorem server_stop_returns_waiting : ∃ c c' : IoServer,
    (ioSystem oneObjectJson).exec (fun _ _ => true)
        { http := { core := .resting .boot [], nextSessionId := 1 } } twoWaiting = some c ∧
      (ioSystem oneObjectJson).Within IoLabel.isStop IoServer.joining 8 c ∧
      (ioSystem oneObjectJson).exec (fun _ _ => true) c (List.replicate 8 .stop) = some c' ∧
      (ioSystem oneObjectJson).Within IoLabel.isOwn (fun c => c.http.stop = .stopped) 20 c' := by
  obtain ⟨c, c', hrun, hrun', hjoin⟩ : ∃ c c' : IoServer,
      (ioSystem oneObjectJson).exec (fun _ _ => true)
          { http := { core := .resting .boot [], nextSessionId := 1 } } twoWaiting = some c ∧
        (ioSystem oneObjectJson).exec (fun _ _ => true) c (List.replicate 8 .stop) = some c' ∧
        c'.http.stop = .join := ⟨_, _, rfl, rfl, rfl⟩
  have hc : (ioSystem oneObjectJson).Reachable c :=
    ⟨_, ⟨1, rfl⟩, Lts.runVia_of_exec (fun _ _ _ => trivial) hrun⟩
  have hc' : (ioSystem oneObjectJson).Reachable c' :=
    hc.run (Lts.runVia_of_exec (fun _ _ _ => trivial) hrun')
  exact ⟨c, c', hrun, (server_stop_returns hc).1, hrun', (server_stop_returns hc').2.1 (.inl hjoin)⟩

end FsmFramework
