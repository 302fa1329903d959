import FsmFramework.Admission
import FsmFramework.ServiceTeardown
import FsmFramework.WholeFlows

/-!
# What an answer says

All layers together. A connection is given a 200 by the request that was read from it, the request
was answered out of the entry that a completion was written to, the completion was reported by an
instance, the instance was created by the `MSG_INIT` of a request, and has been through its whole
flow. And while `main` has not begun to stop the server nothing is refused and nothing fails; what
`Stop` makes of the waiters is the subject of `Shutdown`.

## Main results

* `completed_flow` — an instance that was reported has been through its flow, at every moment.
* `completed_answer` — what has happened when a connection is given a 200.
* `every_answer` — what a connection can be given, and where the message of its request is.
-/

namespace FsmFramework

open IoServer

/-! ## Reported instances, in the middle of a dispatch -/

section Flows

variable {m m' : CfactoryMgr FsmKind} {s : DispatchState FsmKind} {a : SeqState FsmKind}
  {ev : List Event} {facId : UInt32} {inst : ℕ} {event : FsmCompletionEvent}

/-- Before `ProcessMsg` a dispatch processes and reports nothing. -/
theorem setup_events (h : ∀ e ∈ ev, e.isSetup = true) :
    (∀ inst, processedIn facId inst ev = []) ∧ completedIn facId ev = [] := by
  constructor
  · intro inst
    apply List.filterMap_eq_nil_iff.mpr
    intro e he
    have hsetup := h e he
    cases e <;> simp_all [Event.isSetup]
  · apply List.filterMap_eq_nil_iff.mpr
    intro e he
    have hsetup := h e he
    cases e <;> simp_all [Event.isSetup]

theorem mem_completedIn (hc : .completed inst event ∈ ev) :
    inst ∈ completedIn event.serviceId ev :=
  List.mem_filterMap.mpr ⟨_, hc, if_pos rfl⟩

/-- After `ProcessMsg` a dispatch processes nothing any more. -/
theorem processedIn_finishDispatch {n : ℕ} {th : DispatchThread}
    (h : finishDispatch n m th = some (m', ev)) (hth : th.pc.handed = true) :
    processedIn facId inst ev = [] := by
  apply List.filterMap_eq_nil_iff.mpr
  intro e he
  have htaken := not_taken_finishDispatch h hth e he
  cases e <;> simp_all [Event.isTaken]

/-- What corresponds to a state of the machine has processed the same. -/
theorem Refines.processedIn_eq (hR : Refines s a) :
    processedIn facId inst a.events = processedIn facId inst s.events := by
  cases hR with
  | quiet hq hm he => rw [he]
  | before ht honly hpc hports hev hsetup hfin =>
      rw [hev, processedIn_append, (setup_events hsetup).1 inst, List.append_nil]
  | after ht honly hpc hfin hev =>
      rw [hev, processedIn_append, processedIn_finishDispatch hfin hpc, List.append_nil]

/-- It has reported the same, if perhaps more. -/
theorem Refines.completedIn_prefix (hR : Refines s a) :
    completedIn facId s.events <+: completedIn facId a.events := by
  cases hR with
  | quiet hq hm he => rw [he]
  | before ht honly hpc hports hev hsetup hfin =>
      rw [hev, completedIn_append, (setup_events hsetup).2, List.append_nil]
  | after ht honly hpc hfin hev =>
      rw [hev, completedIn_append]
      exact List.prefix_append _ _

/-- It has created no more. -/
theorem Refines.createdCount_le (hR : Refines s a)
    (hs : (dispatchSystem .boot).Reachable s) {E : EnvLabel → Prop}
    (ha : (seqSystem .boot).ReachableVia (admits E) a) (facId : UInt32) :
    a.mgr.createdCount facId ≤ s.mgr.createdCount facId := by
  have hlength : (createdIn facId s.events).length = s.mgr.createdCount facId := by
    rw [createdInv_of_reachable CfactoryMgr.fresh_boot hs facId, List.length_map,
      List.length_range]
  have hlength' : (createdIn facId a.events).length = a.mgr.createdCount facId := by
    have hcreated : createdIn facId a.events = _ :=
      createdInv_of_reachable CfactoryMgr.fresh_boot (resting_reachable ha).reachable facId
    rw [hcreated, List.length_map, List.length_range]
    rfl
  rw [← hlength, ← hlength']
  obtain ⟨rest, heq | ⟨heq, hnone⟩⟩ := hR.created
  · rw [← heq, createdIn_append, List.length_append]
    omega
  · have hrest : createdIn facId rest = [] := by
      apply List.eq_nil_iff_forall_not_mem.mpr
      rintro ⟨i, id⟩ hmem
      obtain ⟨pm, hpm⟩ := mem_createdIn.mp hmem
      exact hnone _ _ _ _ hpm
    rw [heq, createdIn_append, hrest, List.append_nil]

/-- **Reported flows are whole**, at every moment of a run with one dispatcher: an instance that
was reported has processed every event of its flow in order, and was reported once. -/
theorem completed_flow (h : (dispatchSystem .boot).ReachableVia (serial onlyInit) s)
    (hb : s.mgr.IdsLeft) (hc : .completed inst event ∈ s.events) :
    ∃ kind, serviceKind event.serviceId = some kind ∧
      processedIn event.serviceId inst s.events = kind.flow ∧
      (completedIn event.serviceId s.events).count inst = 1 := by
  obtain ⟨a, ha, hR⟩ := seq_simulation.reachable h
  have hids : a.mgr.IdsLeft := by
    intro fac hfac
    have hle := hR.createdCount_le h.reachable ha fac.facId
    rw [CfactoryMgr.createdCount_of_mem hfac] at hle
    exact hle.trans_lt (hb.createdCount_lt fac.facId)
  have hnone := noReuse_of_idsLeft CfactoryMgr.fresh_boot h.reachable hb
  -- the instance was created, so its factory is there
  obtain ⟨-, -, pm₀, hcreated, -, -⟩ :=
    seq_completed_origin (fun _ hl => hl) ha (hR.noReuse hnone) inst event (hR.completed hc)
  have hcreatedIn : createdIn event.serviceId a.events = _ :=
    createdInv_of_reachable CfactoryMgr.fresh_boot (resting_reachable ha).reachable event.serviceId
  have hmem := mem_createdIn.mpr ⟨pm₀, hcreated⟩
  rw [hcreatedIn] at hmem
  obtain ⟨i, hi, heq⟩ := List.mem_map.mp hmem
  obtain rfl : i = inst := congrArg Prod.fst heq
  have hlt : i < a.mgr.createdCount event.serviceId := List.mem_range.mp hi
  cases hfind : a.mgr.findFactory event.serviceId with
  | none => simp [CfactoryMgr.createdCount, hfind] at hlt
  | some fac =>
      obtain ⟨hfac, hid⟩ := CfactoryMgr.findFactory_eq_some_iff.mp hfind
      have hkind := serviceKind_of_mem (registry_of_serial (resting_reachable ha)) hfac
      rw [← hid, CfactoryMgr.createdCount_of_mem hfac] at hlt
      have hin : i ∈ completedIn event.serviceId s.events := mem_completedIn hc
      have hpos := List.count_pos_iff.mpr hin
      have hprefix :
          completedIn event.serviceId s.events <+: completedIn event.serviceId a.events :=
        hR.completedIn_prefix
      have hle := hprefix.sublist.count_le i
      rcases whereItStands_of_reachable ha hids hfac hlt with ⟨-, hzero⟩ | ⟨-, hflow, hone⟩
      · rw [hid] at hzero
        omega
      · rw [hid] at hkind hflow hone
        exact ⟨fac.kind, hkind, hR.processedIn_eq.symm.trans hflow, by omega⟩

end Flows

/-! ## The server below the connections -/

/-- Nobody stops the server or the manager, one thread dispatches, and what is posted from outside
is posted by the server. -/
def attending (c : IoServer) : IoLabel → Prop
  | .core l => serving c.http (.core l)
  | .stop => False
  | _ => True

/-- What is known of a server that nobody stops. -/
structure HttpState.Served (h : HttpState) : Prop where
  core : (dispatchSystem .boot).ReachableVia (serial undisturbed) h.core
  msgOk : h.MsgOk
  running : h.stop = .running
  inv : h.core.mgr.IdsLeft → HttpInv h

namespace HttpState.Served

variable {h h' : HttpState} {l : HttpLabel}

theorem init (n : UInt32) :
    HttpState.Served { core := .resting .boot [], nextSessionId := n } := by
  have hinit : httpSystem.ReachableVia serving
      { core := .resting .boot [], nextSessionId := n } := .of_init ⟨n, rfl⟩
  exact ⟨(http_core hinit).1, (http_core hinit).2, rfl, httpInv_of_reachable hinit⟩

theorem step (hserved : h.Served) (hg : serving h l) (hs : h.step l = some h') : h'.Served := by
  obtain ⟨hcore, hok, hrun, hinv⟩ := hserved
  refine ⟨?_, hok.step hs, ?_, fun hb => ?_⟩
  · rcases HttpState.core_step hs with heq | ⟨b, hbs, rfl | ⟨r, th, msg, hth, hmsg, rfl⟩⟩
    · exact heq ▸ hcore
    · refine hcore.step ?_ hbs
      cases b with
      | env e => cases e <;> first | exact hg | exact hg.elim
      | _ => exact hg
    · obtain ⟨n, rfl⟩ := hok r th msg hth hmsg
      exact hcore.step (a := .env (.sendMsg r (th.request.msg n))) ⟨rfl, rfl⟩ hbs
  · refine (beside_stop ?_ hs).1.trans hrun
    rintro rfl
    exact hg
  · have hb' := HttpState.idsLeft_back hs hb
    cases l with
    | core l => exact (hinv hb').core hcore hg hs
    | request req => exact (hinv hb').request hs
    | handle r => exact (hinv hb').handle hs
    | onCompletion t => exact (hinv hb').onCompletion hcore hb' hs
    | stop => exact hg.elim

/-- A rejected request may have taken a session id. -/
theorem skip (hserved : h.Served) (next : UInt32) :
    HttpState.Served { h with nextSessionId := next } := by
  obtain ⟨hcore, hok, hrun, hinv⟩ := hserved
  have hg : Grows h { h with nextSessionId := next } := .of_requests rfl List.prefix_rfl
  refine ⟨hcore, hok, hrun, fun hb => ?_⟩
  refine (hinv hb).of_frame hg ((hinv hb).posted.mono hg.msgOf) rfl rfl ?_ ?_
  · exact fun t call hcall => ((hinv hb).callbacks t call hcall).mono hg fun _ ht => ht
  · exact fun r hr => ((hinv hb).entries r hr).mono hg

/-- A completion that may be delivered is a success. -/
theorem success (hserved : h.Served) (hb : h.core.mgr.IdsLeft) {r : ℕ} {event : FsmCompletionEvent}
    (hd : h.Delivered r event) : event.result = .success := by
  obtain ⟨inst, since, -, hc, -⟩ := hd
  have hreuse := noReuse_of_idsLeft CfactoryMgr.fresh_boot hserved.core.reachable hb
  exact (completed_origin (fun _ hl => hl.onlyInit) hserved.core hreuse hc).1

/-- The manager is not stopped. -/
theorem core_unstopped (hserved : h.Served) :
    (dispatchSystem .boot).ReachableVia (serial unstopped) h.core := by
  refine hserved.core.mono fun s l => serial_mono fun l hl => ?_
  rintro rfl
  exact hl

end HttpState.Served

/-! ## Nothing is refused -/

/-- No refusal is on its way to the client, and a request that waits is answered as one. -/
def HttpThread.Unrefused (th : HttpThread) : Prop :=
  match th.pc with
  | .generateSessionId => True
  | .sendMsg _ => th.request.wait = false
  | .registerWaiter _ | .syncSendMsg _ | .waitFor _ => th.request.wait = true
  | .unregisterWaiter _ outcome | .returning _ outcome =>
      th.request.wait = true ∧ ∀ sendResult, outcome ≠ .refused sendResult
  | .answered _ response =>
      th.request.wait = false ∧ response.status = .accepted ∨
        th.request.wait = true ∧ (response.status = .ok ∨ response.status = .gatewayTimeout)

/-- A step of a request's thread refuses nothing while the manager accepts messages and all that
is reported is a success. -/
theorem Handled.unrefused {h k : HttpState} {r : ℕ} {th th' : HttpThread}
    (hd : Handled h r th th' k) (hopen : h.core.mgr.pump.stopped = false)
    (hsuccess : ∀ event, th.pc.completion = some event → event.result = .success)
    (hu : th.Unrefused) : th'.Unrefused := by
  have hsend : ∀ msg, (h.sendMsg r msg).1 = .success := by
    intro msg
    rw [HttpState.sendMsg, MsgPorts.sendMsg_of_running hopen]
  cases hd with
  | retried => exact hu
  | generated hpc hz hnext =>
      subst hnext
      cases hw : th.request.wait <;> simp [HttpThread.Unrefused, hw]
  | sent hpc =>
      rw [HttpThread.Unrefused, hpc] at hu
      exact .inl ⟨hu, by simp [asyncResponse, hsend]⟩
  | registered hpc | syncSent hpc =>
      rw [HttpThread.Unrefused, hpc] at hu
      exact hu
  | refused hpc hrefused => exact absurd (hsend _) hrefused
  | waited hpc =>
      rw [HttpThread.Unrefused, hpc] at hu
      exact ⟨hu, by simp⟩
  | unregistered hpc =>
      rw [HttpThread.Unrefused, hpc] at hu
      exact hu
  | @answered msg outcome hpc =>
      rw [HttpThread.Unrefused, hpc] at hu
      obtain ⟨hwait, hnone⟩ := hu
      refine .inr ⟨hwait, ?_⟩
      cases outcome with
      | refused sendResult => exact absurd rfl (hnone sendResult)
      | waited completed event =>
          cases completed with
          | false => exact .inr (by simp [syncResponse])
          | true =>
              have hresult := hsuccess event (by rw [hpc]; rfl)
              exact .inl (by simp [syncResponse, hresult])

/-- No request is refused, and no message that was accepted is lost. -/
structure HttpState.Accepts (h : HttpState) : Prop where
  unrefused : ∀ (r : ℕ) (th : HttpThread), h.requests[r]? = some th → th.Unrefused
  somewhere : ∀ (r : ℕ) (th : HttpThread) (msg : CMsg), h.requests[r]? = some th →
    th.pc.accepted = some msg → Whereabouts h.core ⟨msg, .client r⟩

theorem HttpState.Accepts.step {h h' : HttpState} {l : HttpLabel} (hacc : h.Accepts)
    (hserved : h.Served) (hb : h.core.mgr.IdsLeft) (hg : serving h l) (hs : h.step l = some h') :
    h'.Accepts := by
  have hunstopped := hserved.core_unstopped
  constructor
  case unrefused =>
    intro i x hx
    rcases HttpState.step_requests hs hx with hx | hnew | ⟨y, k, hy, hd, -⟩
    · exact hacc.unrefused i x hx
    · rw [hnew]
      trivial
    · refine hd.unrefused (accepting_of_reachable hunstopped) ?_ (hacc.unrefused i y hy)
      exact fun event hc => hserved.success hb ((hserved.inv hb).completions i y event hy hc)
  case somewhere =>
    intro i x msg hx hmsg
    -- a message that was accepted before was somewhere, and stays there or moves on
    have hkeep : ∀ y, h.requests[i]? = some y → y.pc.accepted = some msg →
        Whereabouts h'.core ⟨msg, .client i⟩ := by
      intro y hy hmsg
      have hw := hacc.somewhere i y msg hy hmsg
      obtain ⟨n, rfl⟩ := hserved.msgOk i y msg hy (HttpPc.msg_of_accepted hmsg)
      obtain ⟨fac, hinit⟩ := initMsg_request hunstopped y.request n (.client i)
      rcases HttpState.core_step hs with heq | ⟨b, hbs, rfl | ⟨r, -, msg', -, -, rfl⟩⟩
      · exact heq ▸ hw
      · exact hw.step hinit (unstoppedServer_of_serving hg) hbs
      · exact hw.step hinit (l := .env (.sendMsg r msg')) (by simp [serial, unstopped]) hbs
    rcases HttpState.step_requests hs hx with hx | hnew | ⟨y, k, hy, hd, hcore⟩
    · exact hkeep x hx hmsg
    · rw [hnew] at hmsg
      cases hmsg
    · rcases hd.accepted hmsg with hmsg | ⟨-, hsend, hk⟩
      · exact hkeep y hy hmsg
      · rw [hcore, hk]
        exact .inl (HttpState.sendMsg_accepted hsend)

section Server

variable {json : BoostJson} {c : IoServer}

/-- What the steps of a running server keep, and the taking of session ids, holds below the
connections. -/
theorem attended_invariant {I : HttpState → Prop}
    (hinit : ∀ n, I { core := .resting .boot [], nextSessionId := n })
    (hstep : ∀ h l h', I h → serving h l → h.step l = some h' → I h')
    (hskip : ∀ h next, I h → I { h with nextSessionId := next })
    (hc : (ioSystem json).ReachableVia attending c) : I c.http := by
  refine hc.invariant (I := fun c => I c.http) ?init ?step
  case init =>
    rintro _ ⟨n, rfl⟩
    exact hinit n
  case step =>
    intro c a c' hI hg hs
    cases IoServer.step_cases hs with
    | core hhttp => exact hstep _ _ _ hI hg hhttp
    | @onCompletion t http hhttp => exact hstep _ (.onCompletion t) _ hI trivial hhttp
    | @handled t k r http ht hhttp => exact hstep _ (.handle r) _ hI trivial hhttp
    | acceptorClosed | stop => exact hg.elim
    | accepted | hungUp | written | passed | connected | acceptFailed | acceptOver | tested
    | armed | answered | left => exact hI
    | rejected => exact hskip _ _ hI
    | @arrived t k request req hready =>
        refine hstep _ (.request req) _ hI trivial ?_
        exact if_pos (decide_eq_true_eq.mp hready).2

theorem served_of_reachable (hc : (ioSystem json).ReachableVia attending c) : c.http.Served :=
  attended_invariant .init (fun _ _ _ hserved hg hs => hserved.step hg hs)
    (fun _ next hserved => hserved.skip next) hc

theorem accepts_of_reachable (hc : (ioSystem json).ReachableVia attending c)
    (hb : c.http.core.mgr.IdsLeft) : c.http.Accepts := by
  have hinv : c.http.Served ∧ (c.http.core.mgr.IdsLeft → c.http.Accepts) := by
    refine attended_invariant
      (I := fun h => h.Served ∧ (h.core.mgr.IdsLeft → h.Accepts)) ?init ?step ?skip hc
    case init =>
      refine fun n => ⟨.init n, fun _ => ?_⟩
      constructor <;> simp
    case step =>
      rintro h l h' ⟨hserved, hacc⟩ hg hs
      refine ⟨hserved.step hg hs, fun hb => ?_⟩
      have hb' := HttpState.idsLeft_back hs hb
      exact (hacc hb').step hserved hb' hg hs
    case skip =>
      rintro h next ⟨hserved, hacc⟩
      exact ⟨hserved.skip next, fun hb => ⟨(hacc hb).unrefused, (hacc hb).somewhere⟩⟩
  exact hinv.2 hb

end Server

/-! ## The process -/

variable {json : BoostJson} {s s' : ServiceState} {l : ServiceLabel}

/-- While `main` sleeps, nobody has stopped anything. -/
theorem attended_of_sleeping (hs : (serviceSystem json).Reachable s) (hm : s.main = .sleeping) :
    (ioSystem json).ReachableVia attending s.io := by
  refine hs.invariant_reachable (I := fun s => s.main = .sleeping →
    (ioSystem json).ReachableVia attending s.io) ?init ?step hm
  case init =>
    rintro _ ⟨boost, rfl⟩ hm
    cases hm
  case step =>
    intro s l s' hr hI _ hs hm
    cases ServiceState.step_cases hs with
    | signal | broke | dispatched => exact hI hm
    | @timer l e io hl hio =>
        refine (hI hm).step (a := .core (.env e)) ?_ hio
        cases hl <;> trivial
    | @handler a io hl hio =>
        refine (hI hm).step (a := a) ?_ hio
        cases a with
        | core | stop => cases hl
        | _ => trivial
    | popped hw hio =>
        refine (hI hm).step (a := .core (.pop 0)) ?_ hio
        exact fun t => ((workInv_of_reachable hr).only t (.inr (by simp [hw]))).1
    | called hw hcall hio => exact (hI hm).step (a := .onCompletion 0) trivial hio
    | advanced hw hcall hio => exact (hI hm).step (a := .core (.advance 0)) trivial hio
    | left hw hio => exact (hI hm).step (a := .core (.env .leaveRun)) trivial hio
    | httpStarted hpc =>
        rw [((booting_of_reachable hr).httpStart hpc).1]
        exact Lts.ReachableVia.step (M := ioSystem json)
          (s := { http := { core := .resting .boot [], nextSessionId := 1 } })
          (a := .core (.env (.start false))) (.of_init ⟨1, rfl⟩) trivial rfl
    | stopping hpc => rcases hpc with hpc | hpc <;> simp [hpc] at hm
    | pumpStopped hpc | joined hpc => rcases hpc with ⟨-, rfl⟩ | ⟨-, rfl⟩ <;> cases hm
    | startRefused | managerStarted | httpFailed | awoken | httpStopped | httpDestroyed | cancelled
    | timersJoined | cleared => cases hm

/-- No rejection has the form of an answer to a request. -/
theorem checkRequest_rejected {request : HttpMessage} {generated : Bool} {answer : HttpAnswer}
    (h : checkRequest json request = .ok (.rejected generated answer)) :
    ∃ status error message, answer = .rejected status error message := by
  obtain ⟨path, query, wait, hpath, hquery, hwait⟩ := extract_ok request.target
  rw [checkRequest, hpath, hquery] at h
  simp only [bind, Except.bind] at h
  cases hroute : resolveRoute path with
  | none =>
      simp only [hroute] at h
      cases h
      exact ⟨_, _, _, rfl⟩
  | some route =>
      by_cases hmethod : request.method ≠ .post
      · simp only [hroute, if_pos hmethod] at h
        cases h
        exact ⟨_, _, _, rfl⟩
      · simp only [hroute, if_neg hmethod] at h
        cases hbody : payloadValue json request.body with
        | none =>
            simp only [hbody] at h
            cases h
            exact ⟨_, _, _, rfl⟩
        | some members =>
            simp only [hbody] at h
            cases hid : readSessionId members with
            | error error =>
                simp only [hid] at h
                cases h
                exact ⟨_, _, _, rfl⟩
            | ok sessionId =>
                simp only [hid, hwait] at h
                cases h

/-- What connection `k` brought is request `r`, which is `req`. -/
def IoServer.Brought (json : BoostJson) (c : IoServer) (k r : ℕ) (req : HttpRequest) : Prop :=
  ∃ x message, c.sessions[k]? = some x ∧ x.message = some message ∧ x.request = some r ∧
    checkRequest json message = .ok (.request req)

/-- A request that was read came in on some connection. -/
theorem IoInv.brought {c : IoServer} {r : ℕ} {th : HttpThread} (hinv : IoInv json c)
    (hth : c.http.requests[r]? = some th) : ∃ k, c.Brought json k r th.request := by
  obtain ⟨k, x, hk, hreq⟩ := hinv.total r (List.getElem?_eq_some_iff.mp hth).1
  have hread : ∀ {message : HttpMessage}, c.http.Reads json message r →
      checkRequest json message = .ok (.request th.request) := by
    intro message hreads
    obtain ⟨y, hy, hcheck⟩ := hreads
    obtain rfl := Option.some.inj (hth.symm.trans hy)
    exact hcheck
  refine ⟨k, x, ?_⟩
  cases hinv.ok k x hk with
  | doRead | hungUp | rejected => cases hreq
  | @onRead message _ hreads =>
      obtain rfl := Option.some.inj hreq
      exact ⟨message, hk, rfl, rfl, hread hreads⟩
  | @answered message _ _ _ hreads =>
      obtain rfl := Option.some.inj hreq
      exact ⟨message, hk, rfl, rfl, hread hreads⟩

/-- An answer to a request is what its thread has made of the message that was read. -/
theorem IoInv.answered_request {c : IoServer} {k : ℕ} {x : Session} {response : HttpResponse}
    (hinv : IoInv json c) (hok : c.http.MsgOk) (hk : c.sessions[k]? = some x)
    (ha : x.pc.answer = some (.response response)) :
    ∃ (r : ℕ) (th : HttpThread) (n : UInt32), c.Brought json k r th.request ∧
      c.http.requests[r]? = some th ∧ th.pc = .answered (th.request.msg n) response := by
  cases hinv.ok k x hk with
  | doRead | onRead | hungUp => cases ha
  | rejected hcheck hpc =>
      obtain ⟨status, error, message, rfl⟩ := checkRequest_rejected hcheck
      simp [hpc] at ha
  | @answered message pc r response' hreads hans hpc =>
      obtain rfl : response' = response := by simpa [hpc] using ha
      obtain ⟨th, hth, hcheck⟩ := hreads
      obtain ⟨th', msg, hth', hthpc⟩ := hans
      obtain rfl := Option.some.inj (hth.symm.trans hth')
      obtain ⟨n, rfl⟩ := hok r th msg hth (by rw [hthpc]; rfl)
      exact ⟨r, th, n, ⟨_, message, hk, rfl, rfl, hcheck⟩, hth, hthpc⟩

/-- Instance `inst` with id `fsmId` has done what a request with message `msg` asked for: the
`MSG_INIT` of a request with the same service and session, which came in on a connection, created
it, it has processed every event of the flow of the service, in order, and was reported once. -/
structure DoneFor (json : BoostJson) (c : IoServer) (msg : CMsg) (inst : ℕ) (fsmId : UInt32) :
    Prop where
  created : ∃ (k r : ℕ) (req : HttpRequest) (n : UInt32), c.Brought json k r req ∧
    (req.msg n).waitKey = msg.waitKey ∧
    .created msg.serviceId inst fsmId ⟨req.msg n, .client r⟩ ∈ c.http.core.events
  whole : ∃ kind, serviceKind msg.serviceId = some kind ∧
    processedIn msg.serviceId inst c.http.core.events = kind.flow
  once : (completedIn msg.serviceId c.http.core.events).count inst = 1

/-- **What a 200 says.** While `main` sleeps and ids are left: when a connection is given a 200,
what was read from it is a request, the answer is the one of the request's thread, and it names the
session of the message that this thread made, and the id of an instance that has done what it asked
for. -/
theorem completed_answer (hs : (serviceSystem json).Reachable s) (hm : s.main = .sleeping)
    (hb : ∀ fac ∈ s.mgr.facList, fac.created < 2 ^ 32 - 1) {k : ℕ} {x : Session} {body : HttpBody}
    (hk : s.io.sessions[k]? = some x) (ha : x.pc.answer = some (.response ⟨.ok, body⟩)) :
    ∃ (r : ℕ) (req : HttpRequest) (n fsmId : UInt32) (inst : ℕ), s.io.Brought json k r req ∧
      (∃ th, s.io.http.requests[r]? = some th ∧ th.request = req ∧
        th.pc = .answered (req.msg n) ⟨.ok, body⟩) ∧
      body = .completed (req.msg n).sessionId req.route.serviceName fsmId "SUCCESS" ∧
      DoneFor json s.io (req.msg n) inst fsmId := by
  have hrun := attended_of_sleeping hs hm
  have hio : IoInv json s.io := ioInv_of_reachable hrun
  obtain ⟨hcore, hok, -, hids⟩ := served_of_reachable hrun
  have hinv := hids hb
  obtain ⟨r, th, n, hread, hth, hthpc⟩ := hio.answered_request hok hk ha
  obtain ⟨event, ⟨inst, since, hwaits, hc, -⟩, hres, hbody⟩ := hinv.answers r th _ body hth hthpc
  -- the completion has the service and the session of the request
  obtain ⟨hservice, hsession⟩ : (th.request.msg n).serviceId = event.serviceId ∧
      (th.request.msg n).sessionId = event.sessionId := by
    obtain ⟨y, msg, hy, hmsg, hkey, -⟩ := hwaits
    obtain rfl := Option.some.inj (hth.symm.trans hy)
    rw [hthpc] at hmsg
    obtain rfl := Option.some.inj hmsg
    simpa [CMsg.waitKey, FsmCompletionEvent.waitKey] using hkey
  -- and leads to the creation, which leads to a request and its connection
  obtain ⟨-, -, pm₀, hcreated, htype, hpm₀⟩ :=
    completed_origin (fun _ hl => hl.onlyInit) hcore
      (noReuse_of_idsLeft CfactoryMgr.fresh_boot hcore.reachable hb) hc
  obtain ⟨hposted, hpmservice⟩ := hinv.posted.created _ _ _ _ hcreated
  obtain ⟨r', hsender, y, hy, hymsg⟩ := hposted.client htype
  obtain ⟨n', hn'⟩ := hok r' y pm₀.msg hy hymsg
  obtain ⟨k', hbrought⟩ := hio.brought hy
  obtain ⟨kind, hkind, hflow, hcount⟩ :=
    completed_flow (hcore.mono fun s l => serial_mono fun _ hl => hl.onlyInit) hb hc
  refine ⟨r, th.request, n, event.fsmId, inst, hread, ⟨th, hth, rfl, hthpc⟩, ?_,
    ⟨⟨k', r', y.request, n', hbrought, ?_, ?_⟩, ⟨kind, ?_, ?_⟩, ?_⟩⟩
  · simpa [syncResponse, hres, errNoToString, hsession] using hbody
  · rw [← hn', CMsg.waitKey, CMsg.waitKey, hpmservice, hpm₀, hservice, hsession]
  · rw [hservice, ← hn', ← hsender]
    exact hcreated
  · rw [hservice, hkind]
  · rw [hservice, hflow]
  · rw [hservice, hcount]

/-- A registration that waits is dispatched to its end, and its answer is written. -/
def registered : List ServiceLabel :=
  [.main, .main] ++ waitingIo.map .io ++ List.replicate 33 .worker ++
    [.timerWake 0, .timerPost 0] ++ List.replicate 21 .worker ++
    List.replicate 4 (.io (.advance 0)) ++ [.io (.write 0 0)]

theorem completed_answer_registered : ∃ (s : ServiceState) (r : ℕ) (req : HttpRequest) (n : UInt32)
    (inst : ℕ),
    (serviceSystem oneObjectJson).exec (fun _ _ => true) { io := .unstarted, boost := {} }
        registered = some s ∧
      s.io.Brought oneObjectJson 0 r req ∧ (req.msg n).sessionId = 123 ∧
      (∃ th, s.io.http.requests[r]? = some th ∧ th.pc.msg = some (req.msg n)) ∧
      DoneFor oneObjectJson s.io (req.msg n) inst 1 := by
  obtain ⟨s, x, hrun, hm, hb, hk, ha⟩ : ∃ (s : ServiceState) (x : Session),
      (serviceSystem oneObjectJson).exec (fun _ _ => true) { io := .unstarted, boost := {} }
          registered = some s ∧ s.main = .sleeping ∧
        (∀ fac ∈ s.mgr.facList, fac.created < 2 ^ 32 - 1) ∧ s.io.sessions[0]? = some x ∧
        x.pc.answer = some (.response ⟨.ok, .completed 123 "register" 1 "SUCCESS"⟩) :=
    ⟨_, _, rfl, rfl, by decide, rfl, rfl⟩
  have hs : (serviceSystem oneObjectJson).Reachable s :=
    ⟨_, ⟨{}, rfl⟩, Lts.runVia_of_exec (fun _ _ _ => trivial) hrun⟩
  obtain ⟨r, req, n, fsmId, inst, hbrought, ⟨th, hth, -, hpc⟩, hbody, hdone⟩ :=
    completed_answer hs hm hb hk ha
  obtain ⟨hsession, -, hid, -⟩ := HttpBody.completed.inj hbody
  subst hid
  exact ⟨s, r, req, n, inst, hrun, hbrought, hsession.symm, ⟨th, hth, by rw [hpc]; rfl⟩, hdone⟩

/-- A connection that was given a rejection brought no request. -/
theorem IoInv.rejected_code {c : IoServer} {k : ℕ} {x : Session} {status : RejectionStatus}
    {error message : String} (hinv : IoInv json c) (hk : c.sessions[k]? = some x)
    (ha : x.pc.answer = some (.rejected status error message)) : x.request = none := by
  cases hinv.ok k x hk with
  | doRead | onRead | hungUp => cases ha
  | rejected => rfl
  | answered hreads hans hpc => simp [hpc] at ha

/-- **Every answer of a running service.** While `main` sleeps and ids are left, what a connection
is given is a rejection of what was read from it, which was then no request; or the answer to its
request: 202 if the request does not wait, and 200 or 504 if it does. Nobody is given a 500 or a
503. The message of every request that has its answer is in the queue, with the dispatcher, or
dispatched. -/
theorem every_answer (hs : (serviceSystem json).Reachable s) (hm : s.main = .sleeping)
    (hb : ∀ fac ∈ s.mgr.facList, fac.created < 2 ^ 32 - 1) {k : ℕ} {x : Session}
    {answer : HttpAnswer} (hk : s.io.sessions[k]? = some x) (ha : x.pc.answer = some answer) :
    (x.request = none ∧ (answer.code = 400 ∨ answer.code = 404 ∨ answer.code = 405)) ∨
      ∃ (r : ℕ) (req : HttpRequest) (n : UInt32), s.io.Brought json k r req ∧
        Whereabouts s.io.http.core ⟨req.msg n, .client r⟩ ∧
        if req.wait then answer.code = 200 ∨ answer.code = 504 else answer.code = 202 := by
  have hrun := attended_of_sleeping hs hm
  have hio : IoInv json s.io := ioInv_of_reachable hrun
  have hserved := served_of_reachable hrun
  have hacc := accepts_of_reachable hrun hb
  cases answer with
  | rejected status error message =>
      refine .inl ⟨hio.rejected_code hk ha, ?_⟩
      cases status <;> simp [HttpAnswer.code]
  | response response =>
      obtain ⟨r, th, n, hread, hth, hthpc⟩ := hio.answered_request hserved.msgOk hk ha
      have hunrefused := hacc.unrefused r th hth
      rw [HttpThread.Unrefused, hthpc] at hunrefused
      refine .inr ⟨r, th.request, n, hread, ?_, ?_⟩
      · apply hacc.somewhere r th _ hth
        rcases hunrefused with ⟨-, hstatus⟩ | ⟨-, hstatus | hstatus⟩ <;>
          simp [HttpPc.accepted, hthpc, hstatus]
      · rcases hunrefused with ⟨hwait, hstatus⟩ | ⟨hwait, hstatus⟩
        · simp [hwait, HttpAnswer.code, HttpStatus.code, hstatus]
        · rcases hstatus with hstatus | hstatus <;>
            simp [hwait, HttpAnswer.code, HttpStatus.code, hstatus]

/-- What came in on the first connection was no request, and the registration on the second is in
the queue when its 202 has been written. -/
theorem every_answer_two : ∃ (s : ServiceState) (r : ℕ) (req : HttpRequest) (n : UInt32),
    (serviceSystem oneObjectJson).exec (fun _ _ => true) { io := .unstarted, boost := {} }
        ([.main, .main] ++ twoConnections.map .io) = some s ∧
      s.io.Brought oneObjectJson 1 r req ∧ Whereabouts s.io.http.core ⟨req.msg n, .client r⟩ ∧
      s.io.http.core.mgr.pump.queue.length = 1 := by
  obtain ⟨s, x, hrun, hm, hb, hk, ha, hreq, hqueue⟩ : ∃ (s : ServiceState) (x : Session),
      (serviceSystem oneObjectJson).exec (fun _ _ => true) { io := .unstarted, boost := {} }
          ([.main, .main] ++ twoConnections.map .io) = some s ∧ s.main = .sleeping ∧
        (∀ fac ∈ s.mgr.facList, fac.created < 2 ^ 32 - 1) ∧ s.io.sessions[1]? = some x ∧
        x.pc.answer = some (.response ⟨.accepted, .accepted 123 "register"⟩) ∧
        x.request = some 0 ∧ s.io.http.core.mgr.pump.queue.length = 1 :=
    ⟨_, _, rfl, rfl, by decide, rfl, rfl, rfl, rfl⟩
  have hs : (serviceSystem oneObjectJson).Reachable s :=
    ⟨_, ⟨{}, rfl⟩, Lts.runVia_of_exec (fun _ _ _ => trivial) hrun⟩
  rcases every_answer hs hm hb hk ha with ⟨hnone, -⟩ | ⟨r, req, n, hbrought, hwhere, -⟩
  · simp [hreq] at hnone
  · exact ⟨s, r, req, n, hrun, hbrought, hwhere, hqueue⟩

end FsmFramework
