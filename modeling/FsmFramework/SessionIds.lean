import FsmFramework.Lib.Lts
import FsmFramework.HttpServer
import Mathlib.Data.List.Nodup
import Mathlib.Data.Nat.ModEq

/-!
# Generated session ids

`GenerateSessionId` under any number of concurrent callers. The counter is 32 bits wide and
wraps; one `fetch_add` is one atomic step, and a caller that got zero tries again, before or
after others. Whoever takes a step, the counter walks round the numbers below 2^32, so the ids
walk round those without zero.

`generated` is history: the ids in the order of the successful `fetch_add` steps.
-/

namespace FsmFramework

/-- The counter, and each call by its number: in its loop, or back with an id. -/
structure SessionIds where
  nextSessionId : UInt32
  calls : List (Option UInt32) := []
  generated : List UInt32 := []
  deriving DecidableEq, Repr

inductive SessionIdLabel
  | call
  | fetchAdd (n : ℕ)
  deriving DecidableEq, Repr

namespace SessionIds

/-- One `fetch_add` of call `n`, and the test of its loop. -/
def fetchAdd (s : SessionIds) (n : ℕ) : Option SessionIds :=
  match s.calls[n]? with
  | some none =>
      let sessionId := s.nextSessionId
      let s := { s with nextSessionId := sessionId + 1 }
      if sessionId = 0 then some s
      else some { s with
        calls := s.calls.set n (some sessionId), generated := s.generated ++ [sessionId] }
  | some (some _) | none => none

def step (s : SessionIds) : SessionIdLabel → Option SessionIds
  | .call => some { s with calls := s.calls ++ [none] }
  | .fetchAdd n => s.fetchAdd n

end SessionIds

/-- Any starting value, any number of callers. -/
def sessionIdSystem : Lts SessionIds SessionIdLabel where
  init s := ∃ start, s = { nextSessionId := start }
  step := SessionIds.step

namespace SessionIds

variable {s s' : SessionIds} {a : SessionIdLabel} {n : ℕ}

/-- The two outcomes of a `fetch_add`. -/
theorem fetchAdd_cases (h : s.fetchAdd n = some s') :
    s.calls[n]? = some none ∧
      (s.nextSessionId = 0 ∧ s' = { s with nextSessionId := 1 } ∨
        s.nextSessionId ≠ 0 ∧ s' = {
          nextSessionId := s.nextSessionId + 1
          calls := s.calls.set n (some s.nextSessionId)
          generated := s.generated ++ [s.nextSessionId] }) := by
  rw [fetchAdd] at h
  split at h
  · rename_i hcall
    refine ⟨hcall, ?_⟩
    dsimp only at h
    split at h
    · rename_i hz
      cases h
      exact .inl ⟨hz, by rw [hz]; rfl⟩
    · rename_i hz
      cases h
      exact .inr ⟨hz, rfl⟩
  · cases h
  · cases h

/-! ## Round the non-zero numbers -/

/-- The number of ids there are. -/
def period : ℕ := 2 ^ 32 - 1

/-- The `i`-th of the ids, counted round and round. -/
def idAt (i : ℕ) : UInt32 := UInt32.ofNat (i % period + 1)

theorem idAt_toNat (i : ℕ) : (idAt i).toNat = i % period + 1 := by
  have hlt : i % period < period := Nat.mod_lt _ (by decide)
  exact UInt32.toNat_ofNat_of_lt' (by simp only [period] at hlt; simp [UInt32.size, period]; omega)

theorem idAt_ne_zero (i : ℕ) : idAt i ≠ 0 := by
  intro h
  have hnat := congrArg UInt32.toNat h
  rw [idAt_toNat] at hnat
  simp at hnat

/-- The id that comes out of the loop when the counter stands at `c` and nobody else moves it. -/
def passZero (c : UInt32) : UInt32 := if c = 0 then 1 else c

theorem passZero_of_ne_zero {c : UInt32} (h : c ≠ 0) : passZero c = c := if_neg h

/-- Every non-zero number is one of the ids. -/
theorem exists_idAt {c : UInt32} (h : c ≠ 0) : ∃ i, c = idAt i := by
  have hpos : c.toNat ≠ 0 := fun hz => h (UInt32.toNat_inj.mp hz)
  have hlt : c.toNat < 2 ^ 32 := c.toNat_lt
  refine ⟨c.toNat - 1, UInt32.toNat_inj.mp ?_⟩
  rw [idAt_toNat, Nat.mod_eq_of_lt (by simp only [period]; omega)]
  omega

/-- Behind the `i`-th id the counter leads to the next one. -/
theorem passZero_succ (i : ℕ) : passZero (idAt i + 1) = idAt (i + 1) := by
  have hsucc : (idAt i + 1).toNat = (i % period + 2) % 2 ^ 32 := by
    rw [UInt32.toNat_add, idAt_toNat]
    rfl
  apply UInt32.toNat_inj.mp
  rw [idAt_toNat]
  by_cases hz : idAt i + 1 = 0
  · rw [hz] at hsucc
    rw [passZero, if_pos hz]
    change 1 = _
    simp only [UInt32.toNat_zero, period] at hsucc ⊢
    omega
  · rw [passZero_of_ne_zero hz, hsucc]
    have hne : (idAt i + 1).toNat ≠ 0 := fun h => hz (UInt32.toNat_inj.mp h)
    rw [hsucc] at hne
    simp only [period] at hne ⊢
    omega

/-- Two ids less than a period apart differ. -/
theorem idAt_ne {i j : ℕ} (hij : i < j) (hj : j < i + period) : idAt i ≠ idAt j := by
  intro h
  have hnat := congrArg UInt32.toNat h
  rw [idAt_toNat, idAt_toNat, Nat.add_right_cancel_iff] at hnat
  have hdvd : period ∣ j - i := (Nat.modEq_iff_dvd' hij.le).mp hnat
  exact absurd (Nat.le_of_dvd (by omega) hdvd) (by omega)

/-- A window of consecutive ids, no longer than a period. -/
theorem nodup_window (b len i : ℕ) :
    ((((List.range len).map fun j => idAt (b + j)).drop i).take period).Nodup := by
  refine List.pairwise_iff_getElem.mpr fun j k hj hk hjk => ?_
  have hlt : k < period := by
    rw [List.length_take] at hk
    omega
  simp only [List.getElem_take, List.getElem_drop, List.getElem_map, List.getElem_range]
  exact idAt_ne (by omega) (by omega)

/-! ## The callers -/

/-- The ids generated so far are consecutive, the counter stands behind the last of them, and
whoever has an id got it from a `fetch_add`. -/
structure Walks (s : SessionIds) (b : ℕ) : Prop where
  generated : s.generated = (List.range s.generated.length).map fun i => idAt (b + i)
  next : passZero s.nextSessionId = idAt (b + s.generated.length)
  calls : ∀ (n : ℕ) (id : UInt32), s.calls[n]? = some (some id) → id ∈ s.generated

theorem Walks.step {b : ℕ} (h : s.Walks b) (hs : s.step a = some s') : s'.Walks b := by
  cases a with
  | call =>
      cases hs
      refine ⟨h.generated, h.next, fun n id hn => ?_⟩
      obtain hlt | hlen := Nat.lt_or_ge n s.calls.length
      · exact h.calls n id (by rwa [List.getElem?_append_left hlt] at hn)
      · rw [List.getElem?_append_right hlen] at hn
        simp [List.getElem?_singleton] at hn
  | fetchAdd k =>
      obtain ⟨hcall, ⟨hz, rfl⟩ | ⟨hz, rfl⟩⟩ := fetchAdd_cases hs
      · refine ⟨h.generated, ?_, h.calls⟩
        rw [← h.next, hz]
        rfl
      · have hid : s.nextSessionId = idAt (b + s.generated.length) := by
          rw [← h.next, passZero_of_ne_zero hz]
        refine ⟨?_, ?_, fun n id hn => ?_⟩
        · rw [List.length_append, List.length_singleton, List.range_succ, List.map_append,
            ← h.generated, hid]
          rfl
        · rw [List.length_append, List.length_singleton, ← Nat.add_assoc, hid]
          exact passZero_succ _
        · by_cases hk : k = n
          · subst hk
            have hlt : k < s.calls.length := (List.getElem?_eq_some_iff.mp hcall).1
            rw [List.getElem?_set_self hlt] at hn
            cases hn
            exact List.mem_append_right _ (List.mem_singleton.mpr rfl)
          · rw [List.getElem?_set_ne hk] at hn
            exact List.mem_append_left _ (h.calls n id hn)

theorem walks_of_reachable (hs : sessionIdSystem.Reachable s) : ∃ b, s.Walks b := by
  refine hs.invariant (I := fun s => ∃ b, s.Walks b) ?init ?step
  case init =>
    rintro _ ⟨start, rfl⟩
    obtain ⟨b, hb⟩ : ∃ b, passZero start = idAt b := by
      by_cases hz : start = 0
      · exact ⟨0, by rw [passZero, if_pos hz]; rfl⟩
      · rw [passZero_of_ne_zero hz]
        exact exists_idAt hz
    exact ⟨b, rfl, hb, by simp⟩
  case step =>
    rintro s a t ⟨b, hb⟩ - hstep
    exact ⟨b, hb.step hstep⟩

/-- **Session ids.** Whatever the counter starts from, and in whatever order the callers take
their steps: every id returned is non-zero, and it is one of those generated; and of the ids
generated, any 2^32 - 1 consecutive ones are pairwise different. -/
theorem session_ids (hs : sessionIdSystem.Reachable s) :
    (∀ (n : ℕ) (id : UInt32), s.calls[n]? = some (some id) → id ≠ 0 ∧ id ∈ s.generated) ∧
      ∀ i, ((s.generated.drop i).take (2 ^ 32 - 1)).Nodup := by
  obtain ⟨b, hwalks⟩ := walks_of_reachable hs
  constructor
  · intro n id hn
    have hmem := hwalks.calls n id hn
    refine ⟨?_, hmem⟩
    rw [hwalks.generated] at hmem
    obtain ⟨i, -, rfl⟩ := List.mem_map.mp hmem
    exact idAt_ne_zero _
  · intro i
    rw [hwalks.generated]
    exact nodup_window b _ i

/-- Two callers on a counter that is about to wrap: the first gets zero, the second overtakes
it. -/
def wrapSchedule : List SessionIdLabel := [.call, .call, .fetchAdd 0, .fetchAdd 1, .fetchAdd 0]

theorem session_ids_wrap : ∃ s : SessionIds,
    sessionIdSystem.exec (fun _ _ => true) { nextSessionId := 0 } wrapSchedule = some s ∧
      s.generated = [1, 2] ∧ s.calls = [some 2, some 1] ∧
      ((s.generated.drop 0).take (2 ^ 32 - 1)).Nodup := by
  obtain ⟨s, hs, hgenerated, hcalls⟩ : ∃ s : SessionIds,
      sessionIdSystem.exec (fun _ _ => true) { nextSessionId := 0 } wrapSchedule = some s ∧
        s.generated = [1, 2] ∧ s.calls = [some 2, some 1] := ⟨_, rfl, rfl, rfl⟩
  have hr : sessionIdSystem.Reachable s :=
    ⟨_, ⟨0, rfl⟩, Lts.runVia_of_exec (fun _ _ _ => trivial) hs⟩
  exact ⟨s, hs, hgenerated, hcalls, (session_ids hr).2 0⟩

/-! ## The server's requests are such callers -/

/-- The calls of `GenerateSessionId` in a run of the server: one by each request. -/
structure CallsOf (h : HttpState) (s : SessionIds) : Prop where
  nextSessionId : s.nextSessionId = h.nextSessionId
  length : s.calls.length = h.requests.length
  looping : ∀ (r : ℕ) (th : HttpThread), h.requests[r]? = some th →
    th.pc = .generateSessionId → s.calls[r]? = some none
  msg : ∀ (r : ℕ) (th : HttpThread) (msg : CMsg), h.requests[r]? = some th →
    th.pc.msg = some msg → ∃ id, s.calls[r]? = some (some id) ∧ msg = th.request.msg id

variable {h h' : HttpState} {l : HttpLabel}

theorem CallsOf.congr (hc : CallsOf h s) (hreq : h'.requests = h.requests)
    (hnext : h'.nextSessionId = h.nextSessionId) : CallsOf h' s := by
  obtain ⟨h₁, h₂, h₃, h₄⟩ := hc
  rw [← hreq] at h₂ h₃ h₄
  exact ⟨h₁.trans hnext.symm, h₂, h₃, h₄⟩

/-- Only the threads that handle requests use the counter. -/
theorem nextSessionId_of_step (hs : h.step l = some h') (hl : ∀ r, l ≠ .handle r) :
    h'.nextSessionId = h.nextSessionId := by
  cases l with
  | core l =>
      obtain ⟨core, callbacks, -, rfl, -⟩ := HttpState.step_core hs
      rfl
  | request req =>
      rw [HttpState.step_request hs]
  | handle r => exact absurd rfl (hl r)
  | onCompletion t =>
      obtain ⟨call, -, rfl⟩ := HttpState.step_onCompletion hs
      cases call with
      | collect => rfl
      | notify inst event entriesToNotify next =>
          simp only [HttpState.stepOnCompletion]
          split <;> rfl
  | stop =>
      change h.stepStop = some h' at hs
      rw [HttpState.stepStop] at hs
      split at hs
      case h_4 => split at hs <;> cases hs <;> rfl
      case h_6 =>
        split at hs
        · cases hs
          rfl
        · cases hs
      case h_7 => cases hs
      all_goals cases hs; rfl

/-- A new request enters `GenerateSessionId`. -/
theorem CallsOf.call (hc : CallsOf h s) (req : HttpRequest) :
    CallsOf { h with requests := h.requests ++ [{ request := req }] }
      { s with calls := s.calls ++ [none] } := by
  refine ⟨hc.nextSessionId, by simp [hc.length], ?_, ?_⟩
  · intro r th hr hpc
    obtain hlt | hge := Nat.lt_or_ge r h.requests.length
    · rw [List.getElem?_append_left hlt] at hr
      rw [List.getElem?_append_left (hc.length ▸ hlt)]
      exact hc.looping r th hr hpc
    · rw [List.getElem?_append_right hge] at hr
      rw [List.getElem?_append_right (hc.length ▸ hge), hc.length]
      simp only [List.getElem?_singleton] at hr ⊢
      split at hr
      · rename_i hz
        simp [hz]
      · cases hr
  · intro r th msg hr hmsg
    obtain hlt | hge := Nat.lt_or_ge r h.requests.length
    · rw [List.getElem?_append_left hlt] at hr
      rw [List.getElem?_append_left (hc.length ▸ hlt)]
      exact hc.msg r th msg hr hmsg
    · rw [List.getElem?_append_right hge, List.getElem?_singleton] at hr
      split at hr
      · cases hr
        cases hmsg
      · cases hr

/-- A request's thread that goes on without the counter, keeping its message. -/
theorem CallsOf.move {r : ℕ} {th th' : HttpThread} (hc : CallsOf h s)
    (hth : h.requests[r]? = some th) (hreq : th'.request = th.request)
    (hpc : th'.pc ≠ .generateSessionId) (hmsg : th'.pc.msg = th.pc.msg)
    (hh' : h'.requests = h.requests.set r th') (hnext : h'.nextSessionId = h.nextSessionId) :
    CallsOf h' s := by
  have hlt : r < h.requests.length := (List.getElem?_eq_some_iff.mp hth).1
  refine ⟨hc.nextSessionId.trans hnext.symm, by rw [hc.length, hh', List.length_set], ?_, ?_⟩
  · intro q u hq hu
    by_cases hqr : r = q
    · subst hqr
      rw [hh', List.getElem?_set_self hlt] at hq
      cases hq
      exact absurd hu hpc
    · rw [hh', List.getElem?_set_ne hqr] at hq
      exact hc.looping q u hq hu
  · intro q u msg hq hu
    by_cases hqr : r = q
    · subst hqr
      rw [hh', List.getElem?_set_self hlt] at hq
      cases hq
      rw [hreq]
      exact hc.msg r th msg hth (hmsg ▸ hu)
    · rw [hh', List.getElem?_set_ne hqr] at hq
      exact hc.msg q u msg hq hu

/-- A request's thread that leaves the loop with an id. -/
theorem CallsOf.generate {r : ℕ} {th : HttpThread} {pc : HttpPc} (hc : CallsOf h s)
    (hth : h.requests[r]? = some th) (hpc : th.pc = .generateSessionId)
    (hmsg : pc.msg = some (th.request.msg h.nextSessionId))
    (hz : h.nextSessionId ≠ 0) :
    ∃ s', s.step (.fetchAdd r) = some s' ∧
      CallsOf { h with
        nextSessionId := h.nextSessionId + 1
        requests := h.requests.set r { th with pc := pc } } s' := by
  have hcall := hc.looping r th hth hpc
  have hlt : r < h.requests.length := (List.getElem?_eq_some_iff.mp hth).1
  have hslt : r < s.calls.length := hc.length ▸ hlt
  refine ⟨{ nextSessionId := s.nextSessionId + 1
            calls := s.calls.set r (some s.nextSessionId)
            generated := s.generated ++ [s.nextSessionId] }, ?_, ?_, ?_, ?_, ?_⟩
  · simp [step, fetchAdd, hcall, hc.nextSessionId, hz]
  · rw [hc.nextSessionId]
  · simp [hc.length]
  · intro q u hq hu
    by_cases hqr : r = q
    · subst hqr
      rw [List.getElem?_set_self hlt] at hq
      cases hq
      have hnone : (HttpPc.generateSessionId).msg = some (th.request.msg h.nextSessionId) :=
        hu ▸ hmsg
      exact absurd hnone.symm (Option.some_ne_none _)
    · rw [List.getElem?_set_ne hqr] at hq ⊢
      exact hc.looping q u hq hu
  · intro q u msg hq hu
    by_cases hqr : r = q
    · subst hqr
      rw [List.getElem?_set_self hlt] at hq
      cases hq
      refine ⟨s.nextSessionId, List.getElem?_set_self hslt, ?_⟩
      rw [hc.nextSessionId]
      exact Option.some.inj (hu.symm.trans hmsg)
    · rw [List.getElem?_set_ne hqr] at hq ⊢
      exact hc.msg q u msg hq hu

/-- **The server's ids.** The threads that handle requests are callers of `GenerateSessionId`. -/
theorem server_generates : Lts.Simulation httpSystem Lts.anyStep sessionIdSystem Lts.anyStep
    CallsOf where
  init := by
    rintro _ ⟨n, rfl⟩
    exact ⟨_, ⟨n, rfl⟩, rfl, rfl, by simp, by simp⟩
  step := by
    rintro h l h' s - - hc - hs
    change h.step l = some h' at hs
    cases l with
    | core l =>
        obtain ⟨core, callbacks, -, rfl, -⟩ := HttpState.step_core hs
        exact ⟨s, Lts.RunVia.refl s, hc.congr rfl rfl⟩
    | request req =>
        rw [HttpState.step_request hs]
        exact ⟨_, Lts.RunVia.single (a := .call) trivial rfl, hc.call req⟩
    | handle r =>
        obtain ⟨th, th', k, hth, hd, rfl⟩ := HttpState.step_handle hs
        cases hd with
        | retried hpc hz =>
            have hcall := hc.looping r th hth hpc
            refine ⟨{ s with nextSessionId := 1 },
              Lts.RunVia.single (a := .fetchAdd r) trivial ?_, ?_⟩
            · change s.fetchAdd r = _
              simp [fetchAdd, hcall, hc.nextSessionId, hz]
            · obtain ⟨hlt, heq⟩ := List.getElem?_eq_some_iff.mp hth
              rw [← heq, List.set_getElem_self]
              exact ⟨rfl, hc.length, hc.looping, hc.msg⟩
        | @generated pc hpc hz hnext =>
            have hmsg : pc.msg = some (th.request.msg h.nextSessionId) := by
              rw [hnext]
              split <;> rfl
            obtain ⟨s', hs', hc'⟩ := hc.generate hth hpc hmsg hz
            exact ⟨s', Lts.RunVia.single (a := .fetchAdd r) trivial hs', hc'⟩
        | sent hpc | registered hpc | refused hpc | syncSent hpc | waited hpc | unregistered hpc
        | answered hpc =>
            refine ⟨s, Lts.RunVia.refl s, hc.move hth ?_ ?_ ?_ rfl ?_⟩
            · rfl
            · exact HttpPc.noConfusion
            · simp [hpc, HttpPc.msg]
            · rfl
    | onCompletion t =>
        have hnext := nextSessionId_of_step hs (by simp)
        obtain ⟨call, -, rfl⟩ := HttpState.step_onCompletion hs
        exact ⟨s, Lts.RunVia.refl s, hc.congr (HttpState.stepOnCompletion_frame t call).2.1 hnext⟩
    | stop =>
        exact ⟨s, Lts.RunVia.refl s, hc.congr (HttpState.stepStop_frame hs).2
          (nextSessionId_of_step hs (by simp))⟩

end SessionIds

end FsmFramework
