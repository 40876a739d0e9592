import Mathlib.Data.List.Basic
import Mathlib.Tactic.TypeStar

/-!
# Labelled Machines and Their Runs

A `Machine` is a deterministic labelled transition system: from a state, a label either
is refused or leads to exactly one state. All nondeterminism of a modelled system —
scheduling, the answers of its environment, the values it is given — is in the choice of
the labels, so the step function stays executable and a concrete run is a list of labels.

Runs are taken under a **step condition** `G : σ → ℓ → Prop`: `M.RunWhere G s t` holds
when `t` is reached from `s` by steps each of which meets `G` in the state it is taken
from. `M.Reachable` is the case of no condition and no restriction on the run.

## Main results

* `Machine.RunWhere.invariant`: what one step preserves, a whole run preserves.
* `Machine.RunWhere.simulate`: a view that maps every step to a run of a second machine
  maps every run to a run of it, under the step condition the second machine asks for.
* `Machine.RunWhere.forget`, `Machine.RunWhere.remember`: the runs with a history variable are
  the runs without it.
* `Machine.execWhere_foldl`: what one step keeps between the state and a fold over the
  labels, an executed list of labels keeps.
* `Machine.exists_runWhere`: an executed list of labels is a run; this is what concrete
  runs are evaluated through.
-/

/-- A deterministic labelled transition system with a start state. -/
structure Machine (σ ℓ : Type*) where
  /-- The state the machine starts in. -/
  init : σ
  /-- One step: the state a label leads to, or `none` when the label is refused. -/
  step : σ → ℓ → Option σ

namespace Machine

/-- A state reached from `s` by steps all of which meet the step condition `G`. -/
inductive RunWhere {σ ℓ : Type*} (M : Machine σ ℓ) (G : σ → ℓ → Prop) (s : σ) : σ → Prop
  | refl : RunWhere M G s s
  | tail {t u : σ} {l : ℓ} :
      RunWhere M G s t → G t l → M.step t l = some u → RunWhere M G s u

/-- The states reached from the start state by any run. -/
def Reachable {σ ℓ : Type*} (M : Machine σ ℓ) (s : σ) : Prop :=
  M.RunWhere (fun _ _ => True) M.init s

/-- One step is a run. -/
theorem RunWhere.single {σ ℓ : Type*} {M : Machine σ ℓ} {G : σ → ℓ → Prop} {s t : σ} {l : ℓ}
    (hG : G s l) (h : M.step s l = some t) : M.RunWhere G s t :=
  RunWhere.tail RunWhere.refl hG h

/-- Two runs, the second from where the first one ends, compose. -/
theorem RunWhere.trans {σ ℓ : Type*} {M : Machine σ ℓ} {G : σ → ℓ → Prop} {s t u : σ}
    (h₁ : M.RunWhere G s t) (h₂ : M.RunWhere G t u) : M.RunWhere G s u := by
  induction h₂ with
  | refl => exact h₁
  | tail _ hG hstep ih => exact RunWhere.tail ih hG hstep

/-- A weaker step condition admits every run of a stronger one. -/
theorem RunWhere.mono {σ ℓ : Type*} {M : Machine σ ℓ} {G H : σ → ℓ → Prop} {s t : σ}
    (hGH : ∀ t l, G t l → H t l) (h : M.RunWhere G s t) : M.RunWhere H s t := by
  induction h with
  | refl => exact RunWhere.refl
  | tail _ hG hstep ih => exact RunWhere.tail ih (hGH _ _ hG) hstep

/-- A reachable state stays reachable along a further run. -/
theorem Reachable.trans {σ ℓ : Type*} {M : Machine σ ℓ} {G : σ → ℓ → Prop} {s t : σ}
    (hs : M.Reachable s) (h : M.RunWhere G s t) : M.Reachable t :=
  RunWhere.trans hs (h.mono fun _ _ _ => trivial)

/-- **The invariant rule.** A predicate that holds at the start of a run and that every
admitted step preserves holds at its end. -/
theorem RunWhere.invariant {σ ℓ : Type*} {M : Machine σ ℓ} {G : σ → ℓ → Prop} {I : σ → Prop}
    {s t : σ} (h : M.RunWhere G s t) (hinit : I s)
    (hstep : ∀ t l u, I t → G t l → M.step t l = some u → I u) : I t := by
  induction h with
  | refl => exact hinit
  | tail _ hG hs ih => exact hstep _ _ _ ih hG hs

/-- **The invariant rule for reachable states**: what holds at the start and is preserved by every
step holds in every reachable state. -/
theorem Reachable.invariant {σ ℓ : Type*} {M : Machine σ ℓ} {I : σ → Prop} {s : σ}
    (h : M.Reachable s) (hinit : I M.init)
    (hstep : ∀ t l u, I t → M.step t l = some u → I u) : I s :=
  RunWhere.invariant h hinit fun t l u hI _ hs => hstep t l u hI hs

/-- **The simulation rule.** If a view maps every admitted step, taken where the
invariant `I` holds, to a run of a second machine, it maps every run to one. -/
theorem RunWhere.simulate {σ ℓ τ κ : Type*} {M : Machine σ ℓ} {N : Machine τ κ}
    {G : σ → ℓ → Prop} {H : τ → κ → Prop} {s t : σ} (I : σ → Prop) (view : σ → τ)
    (h : M.RunWhere G s t) (hinit : I s)
    (hI : ∀ t l u, I t → M.step t l = some u → I u)
    (hview : ∀ t l u, I t → G t l → M.step t l = some u →
      N.RunWhere H (view t) (view u)) :
    N.RunWhere H (view s) (view t) := by
  have hboth : I t ∧ N.RunWhere H (view s) (view t) := by
    refine h.invariant (I := fun t => I t ∧ N.RunWhere H (view s) (view t))
      ⟨hinit, RunWhere.refl⟩ ?_
    rintro t l u ⟨hIt, hrun⟩ hG hstep
    exact ⟨hI t l u hIt hstep, hrun.trans (hview t l u hIt hG hstep)⟩
  exact hboth.2

/-! ### History variables -/

/-- The machine with a **history variable**: `f` computes its value after a step from the
value before and from the step. No step reads it. -/
def withHistory {σ ℓ τ : Type*} (M : Machine σ ℓ) (x₀ : τ) (f : τ → σ → ℓ → σ → τ) :
    Machine (σ × τ) ℓ where
  init := (M.init, x₀)
  step := fun p l => (M.step p.1 l).map fun t => (t, f p.2 p.1 l t)

/-- A step with a history variable is a step, and computes the history. -/
theorem step_withHistory {σ ℓ τ : Type*} {M : Machine σ ℓ} {x₀ : τ} {f : τ → σ → ℓ → σ → τ}
    {p q : σ × τ} {l : ℓ} (h : (M.withHistory x₀ f).step p l = some q) :
    M.step p.1 l = some q.1 ∧ q.2 = f p.2 p.1 l q.1 := by
  obtain ⟨t, ht, rfl⟩ := Option.map_eq_some_iff.mp h
  exact ⟨ht, rfl⟩

/-- A run with a history variable is a run. -/
theorem RunWhere.forget {σ ℓ τ : Type*} {M : Machine σ ℓ} {x₀ : τ} {f : τ → σ → ℓ → σ → τ}
    {G : σ × τ → ℓ → Prop} {H : σ → ℓ → Prop} {p q : σ × τ} (hGH : ∀ p l, G p l → H p.1 l)
    (h : (M.withHistory x₀ f).RunWhere G p q) : M.RunWhere H p.1 q.1 := by
  induction h with
  | refl => exact RunWhere.refl
  | tail _ hG hstep ih => exact RunWhere.tail ih (hGH _ _ hG) (step_withHistory hstep).1

/-- Every run has its history: nothing is lost by recording it. -/
theorem RunWhere.remember {σ ℓ τ : Type*} {M : Machine σ ℓ} {G : σ → ℓ → Prop} {s t : σ}
    (h : M.RunWhere G s t) (x₀ : τ) (f : τ → σ → ℓ → σ → τ) (x : τ) :
    ∃ y, (M.withHistory x₀ f).RunWhere (fun p l => G p.1 l) (s, x) (t, y) := by
  induction h with
  | refl => exact ⟨x, RunWhere.refl⟩
  | @tail t u l _ hG hstep ih =>
      obtain ⟨y, hrun⟩ := ih
      refine ⟨f y t l u, RunWhere.tail hrun hG ?_⟩
      rw [withHistory]
      simp only [hstep, Option.map_some]

/-! ### Executing a list of labels -/

/-- Execute a list of labels, refusing a step that does not meet the condition. -/
def execWhere {σ ℓ : Type*} (M : Machine σ ℓ) (G : σ → ℓ → Prop)
    [∀ s l, Decidable (G s l)] : σ → List ℓ → Option σ
  | s, [] => some s
  | s, l :: ls => if G s l then (M.step s l).bind fun t => execWhere M G t ls else none

/-- An executed list of labels is a run. -/
theorem runWhere_of_execWhere {σ ℓ : Type*} {M : Machine σ ℓ} {G : σ → ℓ → Prop}
    [∀ s l, Decidable (G s l)] {s t : σ} {ls : List ℓ}
    (h : M.execWhere G s ls = some t) : M.RunWhere G s t := by
  induction ls generalizing s with
  | nil =>
      obtain rfl : s = t := by simpa [execWhere] using h
      exact RunWhere.refl
  | cons l ls ih =>
      rw [execWhere] at h
      split at h
      · rename_i hG
        obtain ⟨u, hu, hrest⟩ := Option.bind_eq_some_iff.mp h
        exact (RunWhere.single hG hu).trans (ih hrest)
      · cases h

/-- **The history rule.** What every admitted step keeps between the state and a fold over
the labels, an execution keeps. -/
theorem execWhere_foldl {σ ℓ τ : Type*} {M : Machine σ ℓ} {G : σ → ℓ → Prop}
    [∀ s l, Decidable (G s l)] {R : σ → τ → Prop} {f : τ → ℓ → τ} {s t : σ} {x : τ}
    {ls : List ℓ} (hstep : ∀ s x l t, R s x → G s l → M.step s l = some t → R t (f x l))
    (hinit : R s x) (h : M.execWhere G s ls = some t) : R t (ls.foldl f x) := by
  induction ls generalizing s x with
  | nil =>
      obtain rfl : s = t := by simpa [execWhere] using h
      exact hinit
  | cons l ls ih =>
      rw [execWhere] at h
      split at h
      · rename_i hG
        obtain ⟨u, hu, hrest⟩ := Option.bind_eq_some_iff.mp h
        exact ih (hstep s x l u hinit hG hu) hrest
      · cases h

/-- An execution that ends in a state with a property is a run to such a state: the form
in which concrete runs are used. -/
theorem exists_runWhere {σ ℓ : Type*} {M : Machine σ ℓ} {G : σ → ℓ → Prop}
    [∀ s l, Decidable (G s l)] {P : σ → Prop} {s : σ} (ls : List ℓ)
    (h : ∃ t ∈ M.execWhere G s ls, P t) : ∃ t, M.RunWhere G s t ∧ P t := by
  obtain ⟨t, ht, hP⟩ := h
  exact ⟨t, runWhere_of_execWhere ht, hP⟩

end Machine
