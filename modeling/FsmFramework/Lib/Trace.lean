import Mathlib.Algebra.BigOperators.Finprod
import Mathlib.Algebra.BigOperators.Ring.List
import FsmFramework.Lib.Lts

/-!
# Traces and what they cost

A run as the list of its steps, each with the state it was taken in, so that steps can be
counted. `TraceVia.potential` is the rule for bounding such a count: a potential that pays for
every step out of itself or out of what that step brings in pays for the whole trace.

## Main definitions

* `Lts.TraceVia G s l t` — a run from `s` to `t` whose steps are `l`, all admitted by `G`.
* `Lts.cost c l` — what the steps of `l` cost together.
-/

universe u v

namespace Lts

variable {σ : Type u} {α : Type v} (M : Lts σ α) (G : σ → α → Prop)

/-- A run together with the steps it takes. -/
inductive TraceVia : σ → List (σ × α) → σ → Prop
  | nil (s : σ) : TraceVia s [] s
  | cons {s t u : σ} {a : α} {l : List (σ × α)} (hg : G s a) (hs : M.step s a = some t)
      (h : TraceVia t l u) : TraceVia s ((s, a) :: l) u

variable {M G} {s t : σ} {l : List (σ × α)}

/-! ## Costs -/

/-- What the steps of a trace cost together. -/
def cost (c : σ → α → ℕ) (l : List (σ × α)) : ℕ := (l.map fun p => c p.1 p.2).sum

variable {c d : σ → α → ℕ}

@[simp] theorem cost_nil : cost c ([] : List (σ × α)) = 0 := rfl

@[simp] theorem cost_cons {a : α} : cost c ((s, a) :: l) = c s a + cost c l := rfl

/-- Costs add up. -/
theorem cost_add : cost (fun s a => c s a + d s a) l = cost c l + cost d l :=
  List.sum_map_add

theorem cost_mul (k : ℕ) : cost (fun s a => k * c s a) l = k * cost c l :=
  List.sum_map_mul_left _ _ _

/-- Steps that cost nothing one by one cost nothing together. -/
theorem TraceVia.cost_eq_zero (h : M.TraceVia G s l t) (hc : ∀ s a, G s a → c s a = 0) :
    cost c l = 0 := by
  induction h with
  | nil s => rfl
  | cons hg _ _ ih => rw [cost_cons, hc _ _ hg, ih]

/-- **The potential rule.** `I` is an invariant; a step costs at most what the potential loses
and what the step brings in. -/
theorem TraceVia.potential {I : σ → Prop} {V : σ → ℕ}
    (hstep : ∀ s a t, I s → G s a → M.step s a = some t → I t ∧ c s a + V t ≤ V s + d s a)
    (h : M.TraceVia G s l t) (hs : I s) : cost c l + V t ≤ V s + cost d l := by
  induction h with
  | nil s => simp
  | cons hg ha _ ih =>
      obtain ⟨ht, hle⟩ := hstep _ _ _ hs hg ha
      have hrest := ih ht
      simp only [cost_cons]
      omega

end Lts

/-! ## Potentials of a family of threads -/

section Family

variable {ι : Type u} {β : Type v} [DecidableEq ι] {f : β → ℕ} {g : ι → β}

/-- One member of a family moves: its support stays finite. -/
theorem hasFiniteSupport_update (hfin : Function.HasFiniteSupport fun j => f (g j)) (i : ι)
    (b : β) :
    Function.HasFiniteSupport fun j => f (Function.update g i b j) := by
  refine (hfin.insert i).subset fun j hj => ?_
  by_cases hji : j = i
  · exact .inl hji
  · refine .inr ?_
    simpa [Function.update_of_ne hji] using hj

/-- One member of a family moves: what the sum loses and gains. -/
theorem finsum_update (hfin : Function.HasFiniteSupport fun j => f (g j)) (i : ι) (b : β) :
    (finsum fun j => f (Function.update g i b j)) + f (g i) = (finsum fun j => f (g j)) + f b := by
  have hold := add_finsum_cond_ne i hfin
  have hnew := add_finsum_cond_ne i (hasFiniteSupport_update hfin i b)
  have hrest : (finsum fun j => finsum fun _ : j ≠ i => f (Function.update g i b j)) =
      finsum fun j => finsum fun _ : j ≠ i => f (g j) :=
    finsum_congr fun j => finsum_congr fun hj => by rw [Function.update_of_ne hj]
  rw [Function.update_self, hrest] at hnew
  omega

end Family
