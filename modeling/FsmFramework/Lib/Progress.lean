import Mathlib.Order.WellFounded
import FsmFramework.Lib.Trace

/-!
# Runs that end, and what they end in

An invariant says what never happens; this module is about what must happen. The steps that a
system takes by itself are singled out by a guard, as everywhere. If every run of such steps
ends, and a state from which none is possible has a property, then the property comes about
whatever order the steps are taken in.

## Main definitions

* `Lts.Terminates G s` — no run from `s` of steps that meet `G` goes on for ever.
* `Lts.Inevitably G P s` — every such run from `s`, carried on as long as it can be, meets `P`.
* `Lts.Within O P n s` — the same where others may come in between, with a bound on the steps of
  one's own.
-/

universe u v

namespace Lts

variable {σ : Type u} {α : Type v} (M : Lts σ α) (G : σ → α → Prop)

/-- Every run from `s` whose steps meet the guard ends. -/
def Terminates (s : σ) : Prop := Acc (fun t s => M.StepVia G s t) s

/-- No admitted step is enabled. -/
def Stuck (s : σ) : Prop := ∀ t, ¬ M.StepVia G s t

/-- Whichever admitted steps are taken, a state with `P` is met, and no run gets stuck before. -/
inductive Inevitably (P : σ → Prop) : σ → Prop
  | now {s : σ} (h : P s) : Inevitably P s
  | later {s : σ} (hne : ¬ M.Stuck G s) (h : ∀ t, M.StepVia G s t → Inevitably P t) :
      Inevitably P s

variable {M G} {P : σ → Prop} {s t : σ}

/-- **The measure rule.** `I` is an invariant; every step makes the measure smaller. -/
theorem Terminates.of_measure {β : Type*} {r : β → β → Prop} (hr : WellFounded r) {I : σ → Prop}
    (μ : σ → β) (hstep : ∀ s a t, I s → G s a → M.step s a = some t → I t ∧ r (μ t) (μ s))
    (hs : I s) : M.Terminates G s := by
  have key : ∀ b s, μ s = b → I s → M.Terminates G s := by
    intro b
    induction b using hr.induction with
    | _ b ih =>
        intro s hb hI
        apply Acc.intro s
        intro t ht
        obtain ⟨a, hg, ha⟩ := ht
        obtain ⟨hIt, hlt⟩ := hstep s a t hI hg ha
        exact ih (μ t) (hb ▸ hlt) t rfl hIt
  exact key (μ s) s rfl hs

/-- A measure that adds up the parts of a list, where one part changes. -/
theorem sum_map_set {β : Type*} {f : β → ℕ} {l : List β} {k : ℕ} {x : β} (y : β)
    (h : l[k]? = some x) : ((l.set k y).map f).sum + f x = (l.map f).sum + f y := by
  induction l generalizing k with
  | nil => simp at h
  | cons z zs ih =>
      cases k with
      | zero =>
          obtain rfl : z = x := by simpa using h
          simp only [List.set_cons_zero, List.map_cons, List.sum_cons]
          omega
      | succ k =>
          have hrest := ih (k := k) (by simpa using h)
          simp only [List.set_cons_succ, List.map_cons, List.sum_cons]
          omega

/-- **The progress rule.** Where every run ends, and ends in `P`, there is no way around `P`. -/
theorem Terminates.inevitably (h : M.Terminates G s)
    (hend : ∀ t, M.RunVia G s t → M.Stuck G t → P t) : M.Inevitably G P s := by
  induction h with
  | intro s _ ih =>
      by_cases hstuck : M.Stuck G s
      · exact .now (hend s (RunVia.refl s) hstuck)
      · refine .later hstuck ?_
        intro t ht
        apply ih t ht
        intro u hu hstuck'
        exact hend u (Relation.ReflTransGen.head ht hu) hstuck'

/-! ## Among others -/

variable (M) in
/-- Whatever others do in between: as long as `P` is not met a step of `O` is possible, and at most
`n` of them are taken. So under a fair scheduler `P` is met. -/
def Within (O : α → Bool) (P : σ → Prop) (n : ℕ) (s : σ) : Prop :=
  ∀ l t, M.TraceVia (fun s _ => ¬ P s) s l t →
    cost (fun _ a => if O a then 1 else 0) l ≤ n ∧ (P t ∨ ∃ a u, O a = true ∧ M.step t a = some u)

theorem TraceVia.runVia {l : List (σ × α)} (h : M.TraceVia G s l t) : M.RunVia G s t := by
  induction h with
  | nil s => exact RunVia.refl s
  | cons hg hs _ ih => exact (RunVia.single hg hs).trans ih

/-- **The measure rule among others.** A step of `O` makes the measure smaller, and no other step
makes it larger. -/
theorem Within.of_measure {O : α → Bool} {I : σ → Prop} {V : σ → ℕ}
    (hstep : ∀ s a t, I s → ¬ P s → M.step s a = some t →
      I t ∧ (if O a then 1 else 0) + V t ≤ V s)
    (hnext : ∀ s, I s → ¬ P s → ∃ a t, O a = true ∧ M.step s a = some t) (hs : I s) :
    M.Within O P (V s) s := by
  intro l t h
  constructor
  case left =>
    have hcost := h.potential (c := fun _ a => if O a then 1 else 0) (d := fun _ _ => 0) (I := I)
      (V := V) (fun s a t hI hP ha => by simpa using hstep s a t hI hP ha) hs
    have hzero : cost (fun _ _ => 0) l = 0 := h.cost_eq_zero fun _ _ _ => rfl
    omega
  case right =>
    have ht : I t := h.runVia.invariant (fun s a t hI hP ha => (hstep s a t hI hP ha).1) hs
    by_cases hP : P t
    · exact .inl hP
    · exact .inr (hnext t ht hP)

theorem Within.mono {O : α → Bool} {m n : ℕ} (hmn : m ≤ n) (h : M.Within O P m s) :
    M.Within O P n s := by
  intro l t ht
  obtain ⟨hcost, hnext⟩ := h l t ht
  exact ⟨hcost.trans hmn, hnext⟩

end Lts
