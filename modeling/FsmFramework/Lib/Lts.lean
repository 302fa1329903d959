import Mathlib.Logic.Relation

/-!
# Labelled transition systems with partial steps

A system is a predicate on initial states and a partial step function: a label that
is not enabled in a state steps to `none`. Schedulers, environments and side
conditions on a run are one thing here, a guard `G : σ → α → Prop` on the state a
step is taken in and its label, so that one system carries the run rules for every
class of runs a theorem speaks about.

## Main definitions

* `Lts.RunVia G s t` — a finite run from `s` to `t` whose steps all meet `G`.
* `Lts.ReachableVia G s` — the states such runs reach from an initial state.
* `Lts.Simulation` — forward simulation, one concrete step against an abstract run.
* `Lts.exec` — the executable counterpart, for concrete schedules.
-/

universe u v w

/-- Initial states and a partial step function. -/
structure Lts (σ : Type u) (α : Type v) where
  init : σ → Prop
  step : σ → α → Option σ

namespace Lts

variable {σ : Type u} {α : Type v} (M : Lts σ α) (G : σ → α → Prop)

/-- One step whose label the guard admits in the state it is taken in. -/
def StepVia (s t : σ) : Prop := ∃ a, G s a ∧ M.step s a = some t

/-- A finite run, every step of which meets the guard. -/
def RunVia : σ → σ → Prop := Relation.ReflTransGen (M.StepVia G)

/-- Reachable from an initial state by a run that meets the guard throughout. -/
def ReachableVia (s : σ) : Prop := ∃ s₀, M.init s₀ ∧ M.RunVia G s₀ s

/-- The guard that admits every step. -/
def anyStep : σ → α → Prop := fun _ _ => True

/-- Reachable by a run without side conditions. -/
def Reachable (s : σ) : Prop := M.ReachableVia anyStep s

variable {M G} {s t : σ}

theorem RunVia.refl (s : σ) : M.RunVia G s s := Relation.ReflTransGen.refl

theorem RunVia.tail {a : α} {u : σ} (h : M.RunVia G s t) (hg : G t a)
    (hs : M.step t a = some u) : M.RunVia G s u :=
  Relation.ReflTransGen.tail h ⟨a, hg, hs⟩

theorem RunVia.single {a : α} (hg : G s a) (hs : M.step s a = some t) : M.RunVia G s t :=
  (RunVia.refl s).tail hg hs

theorem RunVia.trans {u : σ} (h : M.RunVia G s t) (h' : M.RunVia G t u) : M.RunVia G s u :=
  Relation.ReflTransGen.trans h h'

/-- A run stays a run under a weaker guard. -/
theorem RunVia.mono {H : σ → α → Prop} (hGH : ∀ s a, G s a → H s a)
    (h : M.RunVia G s t) : M.RunVia H s t :=
  Relation.ReflTransGen.mono (fun _ _ ⟨a, hg, hs⟩ => ⟨a, hGH _ _ hg, hs⟩) _ _ h

theorem ReachableVia.of_init (h : M.init s) : M.ReachableVia G s := ⟨s, h, RunVia.refl s⟩

theorem ReachableVia.step {a : α} (h : M.ReachableVia G s) (hg : G s a)
    (hs : M.step s a = some t) : M.ReachableVia G t := by
  obtain ⟨s₀, h₀, hrun⟩ := h
  exact ⟨s₀, h₀, hrun.tail hg hs⟩

theorem ReachableVia.run (h : M.ReachableVia G s) (hrun : M.RunVia G s t) :
    M.ReachableVia G t := by
  obtain ⟨s₀, h₀, hpre⟩ := h
  exact ⟨s₀, h₀, hpre.trans hrun⟩

theorem ReachableVia.mono {H : σ → α → Prop} (hGH : ∀ s a, G s a → H s a)
    (h : M.ReachableVia G s) : M.ReachableVia H s := by
  obtain ⟨s₀, h₀, hrun⟩ := h
  exact ⟨s₀, h₀, hrun.mono hGH⟩

theorem ReachableVia.reachable (h : M.ReachableVia G s) : M.Reachable s :=
  h.mono fun _ _ _ => trivial

/-! ## Invariants -/

/-- **The run rule.** What every admitted step preserves, every admitted run preserves. -/
theorem RunVia.invariant {I : σ → Prop}
    (hstep : ∀ s a t, I s → G s a → M.step s a = some t → I t)
    (hrun : M.RunVia G s t) (hs : I s) : I t := by
  induction hrun with
  | refl => exact hs
  | tail _ hlast ih =>
      obtain ⟨a, hg, ha⟩ := hlast
      exact hstep _ a _ ih hg ha

/-- **The invariant rule.** It holds initially and every admitted step preserves it. -/
theorem ReachableVia.invariant {I : σ → Prop} (hinit : ∀ s, M.init s → I s)
    (hstep : ∀ s a t, I s → G s a → M.step s a = some t → I t)
    (h : M.ReachableVia G s) : I s := by
  obtain ⟨s₀, h₀, hrun⟩ := h
  exact hrun.invariant hstep (hinit s₀ h₀)

/-- The invariant rule for steps that need to know their state reachable. -/
theorem ReachableVia.invariant_reachable {I : σ → Prop} (hinit : ∀ s, M.init s → I s)
    (hstep : ∀ s a t, M.ReachableVia G s → I s → G s a → M.step s a = some t → I t)
    (h : M.ReachableVia G s) : I s := by
  have key : M.ReachableVia G s ∧ I s := by
    refine h.invariant (I := fun s => M.ReachableVia G s ∧ I s) ?init ?step
    case init => exact fun s h₀ => ⟨ReachableVia.of_init h₀, hinit s h₀⟩
    case step =>
      rintro s a t ⟨hr, hI⟩ hg ha
      exact ⟨hr.step hg ha, hstep s a t hr hI hg ha⟩
  exact key.2

/-- The invariant rule below a bound. `B` is a resource bound: it holds before a step
whenever it holds after it, so a run that ends within the bound never left it. -/
theorem ReachableVia.invariant_below {I B : σ → Prop} (hinit : ∀ s, M.init s → I s)
    (hback : ∀ s a t, M.step s a = some t → B t → B s)
    (hstep : ∀ s a t, M.ReachableVia G s → B t → I s → G s a → M.step s a = some t → I t)
    (h : M.ReachableVia G s) (hB : B s) : I s := by
  refine h.invariant_reachable (I := fun s => B s → I s) ?init ?step hB
  case init => exact fun s h₀ _ => hinit s h₀
  case step =>
    intro s a t hr hI hg ha hBt
    exact hstep s a t hr hBt (hI (hback s a t ha hBt)) hg ha

/-! ## Forward simulation -/

variable {τ : Type w} {β : Type*} {N : Lts τ β} {H : τ → β → Prop}

/-- Every concrete step is answered by a run of the abstract system that restores the
relation. An abstract run of length zero is a stuttering step. -/
structure Simulation (M : Lts σ α) (G : σ → α → Prop) (N : Lts τ β) (H : τ → β → Prop)
    (R : σ → τ → Prop) : Prop where
  init : ∀ s, M.init s → ∃ t, N.init t ∧ R s t
  step : ∀ s a s' t, M.ReachableVia G s → N.ReachableVia H t → R s t → G s a →
    M.step s a = some s' → ∃ t', N.RunVia H t t' ∧ R s' t'

/-- Whatever the concrete system reaches is related to something the abstract one reaches. -/
theorem Simulation.reachable {R : σ → τ → Prop} (sim : Simulation M G N H R)
    (h : M.ReachableVia G s) : ∃ t, N.ReachableVia H t ∧ R s t := by
  refine h.invariant_reachable (I := fun s => ∃ t, N.ReachableVia H t ∧ R s t) ?init ?step
  case init =>
    intro s h₀
    obtain ⟨t, ht, hR⟩ := sim.init s h₀
    exact ⟨t, ReachableVia.of_init ht, hR⟩
  case step =>
    rintro s a s' hr ⟨t, ht, hR⟩ hg ha
    obtain ⟨t', hrun, hR'⟩ := sim.step s a s' t hr ht hR hg ha
    exact ⟨t', ht.run hrun, hR'⟩

/-! ## Concrete schedules -/

/-- Run a schedule, giving up at the first label that is not enabled or not admitted. -/
def exec (M : Lts σ α) (g : σ → α → Bool) (s : σ) : List α → Option σ
  | [] => some s
  | a :: as => if g s a then (M.step s a).bind fun t => exec M g t as else none

/-- A schedule that executes is a run. -/
theorem runVia_of_exec {g : σ → α → Bool} (hg : ∀ s a, g s a = true → G s a)
    {as : List α} (h : M.exec g s as = some t) : M.RunVia G s t := by
  induction as generalizing s with
  | nil =>
      simp only [exec, Option.some.injEq] at h
      exact h ▸ RunVia.refl s
  | cons a as ih =>
      simp only [exec] at h
      split at h
      · rename_i hga
        obtain ⟨u, hu, hrest⟩ := Option.bind_eq_some_iff.mp h
        exact (RunVia.single (hg s a hga) hu).trans (ih hrest)
      · contradiction

/-- A schedule that executes is a run, where the guard is known of every step that is enabled
in a state with property `I`. -/
theorem runVia_of_exec_of_invariant {g : σ → α → Bool} {I : σ → Prop}
    (hI : ∀ s a t, I s → g s a = true → M.step s a = some t → I t ∧ G s a) (hs : I s)
    {as : List α} (h : M.exec g s as = some t) : M.RunVia G s t := by
  induction as generalizing s with
  | nil =>
      simp only [exec, Option.some.injEq] at h
      exact h ▸ RunVia.refl s
  | cons a as ih =>
      simp only [exec] at h
      split at h
      · rename_i hga
        obtain ⟨u, hu, hrest⟩ := Option.bind_eq_some_iff.mp h
        obtain ⟨hIu, hG⟩ := hI s a u hs hga hu
        exact (RunVia.single hG hu).trans (ih hIu hrest)
      · contradiction

end Lts
