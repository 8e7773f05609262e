import Mathlib.Logic.Function.Basic
import Mathlib.Logic.Basic
import Mathlib.Algebra.BigOperators.Group.Finset.Piecewise
import Mathlib.Data.Fintype.Basic

/-!
# `Lib.Machine` — executable labelled machines and what holds along their runs

A concurrent program is modelled as a `Machine`: one start state and a partial step per action. The
nondeterminism (which thread moves, what the outside world delivers) is in the choice of the action; what
the outside world promises is an *environment*, a predicate `E s a` on the actions it may take.

## Contents
- **Runs.** `Steps E s t` (a run inside the environment `E`), `Reachable E s`, and `exec`, which plays an
  explicit schedule so that concrete runs can be evaluated.
- **Invariants.** `Reachable.invariant`: an inductive predicate holds in every reachable state.
- **Termination.** A measure that drops at each step bounds every run (`StepsN.measure`) and leads from
  every state to a stuck one (`exists_stuck`).
- **Refinement.** `Refines abs`: each step is matched by a run of the abstract machine, so abstract
  invariants come down to the concrete one (`Refines.invariant`).
- **Families.** `family M`: independent machines side by side, with any interleaving.
-/

namespace AsyncCpp

universe u v w

/-- An executable machine: a start state and, for each action, a step (`none`: the action is not enabled). -/
structure Machine (σ : Type u) (α : Type v) where
  start : σ
  step  : σ → α → Option σ

namespace Machine

variable {σ : Type u} {α : Type v} {τ : Type u} {β : Type v}
variable {M : Machine σ α} {E F : σ → α → Prop}

/-- A run of `M` from one state to another, every action of which the environment `E` allows. -/
inductive Steps (M : Machine σ α) (E : σ → α → Prop) : σ → σ → Prop
  | refl {s : σ} : Steps M E s s
  | tail {s t u : σ} {a : α} : Steps M E s t → E t a → M.step t a = some u → Steps M E s u

/-- The states that runs from the start state lead to. -/
def Reachable (M : Machine σ α) (E : σ → α → Prop) (s : σ) : Prop := M.Steps E M.start s

theorem Steps.single {s t : σ} {a : α} (hE : E s a) (h : M.step s a = some t) : M.Steps E s t :=
  .tail .refl hE h

theorem Steps.of_eq {s t : σ} (h : s = t) : M.Steps E s t := h ▸ .refl

theorem Steps.trans {s t u : σ} (h₁ : M.Steps E s t) (h₂ : M.Steps E t u) : M.Steps E s u := by
  induction h₂ with
  | refl => exact h₁
  | tail _ hE hstep ih => exact .tail ih hE hstep

/-- A run inside a smaller environment is a run inside a larger one. -/
theorem Steps.mono (hEF : ∀ s a, E s a → F s a) {s t : σ} (h : M.Steps E s t) : M.Steps F s t := by
  induction h with
  | refl => exact .refl
  | tail _ hE hstep ih => exact .tail ih (hEF _ _ hE) hstep

/-! ## Invariants -/

/-- What every step of a run preserves holds at its end when it holds at its beginning. -/
theorem Steps.invariant {I : σ → Prop} {s t : σ} (h : M.Steps E s t) (h0 : I s)
    (hstep : ∀ {s a t}, I s → E s a → M.step s a = some t → I t) : I t := by
  induction h with
  | refl => exact h0
  | tail _ hE hs ih => exact hstep ih hE hs

/-- **The invariant rule.** A predicate that holds at the start and is preserved by every step from a
    reachable state holds in every reachable state. -/
theorem Reachable.invariant {I : σ → Prop} {s : σ} (h : M.Reachable E s) (h0 : I M.start)
    (hstep : ∀ {s a t}, M.Reachable E s → I s → E s a → M.step s a = some t → I t) : I s := by
  induction h with
  | refl => exact h0
  | tail hr hE hs ih => exact hstep hr ih hE hs

/-- The environment that allows everything. -/
def Anything (_ : σ) (_ : α) : Prop := True

instance (s : σ) (a : α) : Decidable (Anything s a) := .isTrue trivial

theorem Reachable.start : M.Reachable E M.start := Steps.refl

/-! ## Playing a schedule -/

/-- Play the actions of a schedule in order; `none` once one is not enabled or not allowed by `E`. -/
def exec (M : Machine σ α) (E : σ → α → Prop) [∀ s a, Decidable (E s a)] : σ → List α → Option σ
  | s, []      => some s
  | s, a :: as => if E s a then (M.step s a).bind fun t => exec M E t as else none

/-- A schedule that plays through is a run. -/
theorem exec_steps [∀ s a, Decidable (E s a)] {s t : σ} {l : List α}
    (h : M.exec E s l = some t) : M.Steps E s t := by
  induction l generalizing s with
  | nil => cases h; exact .refl
  | cons a as ih =>
      simp only [exec] at h
      split at h
      · next hE =>
        obtain ⟨u, hu, hrest⟩ := Option.bind_eq_some_iff.mp h
        exact (Steps.single hE hu).trans (ih hrest)
      · exact absurd h (by simp)

/-- The state that a schedule played from the start leads to is reachable. -/
theorem reachable_get [∀ s a, Decidable (E s a)] {l : List α} (h : (M.exec E M.start l).isSome) :
    M.Reachable E ((M.exec E M.start l).get h) := exec_steps (Option.some_get h).symm

/-! ## Termination -/

/-- A run with its number of steps. -/
inductive StepsN (M : Machine σ α) (E : σ → α → Prop) : Nat → σ → σ → Prop
  | refl {s : σ} : StepsN M E 0 s s
  | tail {k : Nat} {s t u : σ} {a : α} :
      StepsN M E k s t → E t a → M.step t a = some u → StepsN M E (k + 1) s u

theorem StepsN.steps {k : Nat} {s t : σ} (h : M.StepsN E k s t) : M.Steps E s t := by
  induction h with
  | refl => exact .refl
  | tail _ hE hstep ih => exact .tail ih hE hstep

/-- No action that the environment allows is enabled. -/
def Stuck (M : Machine σ α) (E : σ → α → Prop) (s : σ) : Prop := ∀ a, E s a → M.step s a = none

/-- A measure that drops at each step bounds the length of every run by its initial value. -/
theorem StepsN.measure {I : σ → Prop} {μ : σ → Nat}
    (hI : ∀ {s a t}, I s → E s a → M.step s a = some t → I t)
    (hμ : ∀ {s a t}, I s → E s a → M.step s a = some t → μ t < μ s)
    {k : Nat} {s t : σ} (h : M.StepsN E k s t) (h0 : I s) : k + μ t ≤ μ s := by
  induction h with
  | refl => omega
  | tail hr hE hs ih =>
      have hd := hμ (hr.steps.invariant h0 hI) hE hs
      have := ih h0
      omega

/-- **Every run can be driven to the end.** Under a dropping measure a stuck state is reached from every
    state. Strong induction on the measure. -/
theorem exists_stuck {I : σ → Prop} {μ : σ → Nat}
    (hI : ∀ {s a t}, I s → E s a → M.step s a = some t → I t)
    (hμ : ∀ {s a t}, I s → E s a → M.step s a = some t → μ t < μ s)
    {s : σ} (h0 : I s) : ∃ t, M.Steps E s t ∧ M.Stuck E t := by
  induction hm : μ s using Nat.strongRecOn generalizing s with
  | _ m ih =>
      by_cases hs : M.Stuck E s
      · exact ⟨s, .refl, hs⟩
      · obtain ⟨a, ha⟩ := not_forall.mp hs
        obtain ⟨hE, hne⟩ := Classical.not_imp.mp ha
        obtain ⟨t, ht⟩ := Option.ne_none_iff_exists'.mp hne
        obtain ⟨u, hu, hstuck⟩ := ih (μ t) (hm ▸ hμ h0 hE ht) (hI h0 hE ht) rfl
        exact ⟨u, (Steps.single hE ht).trans hu, hstuck⟩

/-! ## Refinement -/

/-- **Refinement** along `abs`: the start states correspond and every step from a reachable state is
    matched by a run (of any length, zero included) of the abstract machine. -/
structure Refines (M : Machine σ α) (E : σ → α → Prop) (N : Machine τ β) (F : τ → β → Prop)
    (abs : σ → τ) : Prop where
  start : abs M.start = N.start
  step  : ∀ {s a t}, M.Reachable E s → E s a → M.step s a = some t → N.Steps F (abs s) (abs t)

theorem Refines.reachable {N : Machine τ β} {F : τ → β → Prop} {abs : σ → τ}
    (hR : Refines M E N F abs) {s : σ} (h : M.Reachable E s) : N.Reachable F (abs s) := by
  induction h with
  | refl =>
      unfold Reachable
      rw [hR.start]
      exact .refl
  | tail hr hE hs ih => exact ih.trans (hR.step hr hE hs)

/-- Invariants of the abstract machine hold of the concrete one. -/
theorem Refines.invariant {N : Machine τ β} {F : τ → β → Prop} {abs : σ → τ}
    (hR : Refines M E N F abs) {P : τ → Prop} (hP : ∀ t, N.Reachable F t → P t)
    {s : σ} (h : M.Reachable E s) : P (abs s) := hP _ (hR.reachable h)

/-! ## Families of independent machines -/

section Family

variable {ι : Type w} [DecidableEq ι] {ς : ι → Type u} {M : (i : ι) → Machine (ς i) α}
variable {G : (i : ι) → ς i → α → Prop}

/-- Independent machines side by side: an action names the machine that moves. -/
def family (M : (i : ι) → Machine (ς i) α) : Machine ((i : ι) → ς i) (ι × α) where
  start := fun i => (M i).start
  step s ia := ((M ia.1).step (s ia.1) ia.2).map (Function.update s ia.1)

/-- The environment of a family: each member's own. -/
def familyEnv (G : (i : ι) → ς i → α → Prop) (s : (i : ι) → ς i) (ia : ι × α) : Prop := G ia.1 (s ia.1) ia.2

instance [∀ i s a, Decidable (G i s a)] (s : (i : ι) → ς i) (ia : ι × α) : Decidable (familyEnv G s ia) :=
  inferInstanceAs (Decidable (G ia.1 (s ia.1) ia.2))

/-- The step of one member, and nothing else changes. -/
theorem family_step {s t : (i : ι) → ς i} {i : ι} {a : α} (h : (family M).step s (i, a) = some t) :
    ∃ u, (M i).step (s i) a = some u ∧ t = Function.update s i u := by
  obtain ⟨u, hu, ht⟩ := Option.map_eq_some_iff.mp h
  exact ⟨u, hu, ht.symm⟩

/-- One member's run, played in the family while the others stand still. -/
theorem family_steps_update {s : (i : ι) → ς i} {i : ι} {x y : ς i} (h : (M i).Steps (G i) x y)
    (hx : s i = x) : (family M).Steps (familyEnv G) s (Function.update s i y) := by
  induction h with
  | refl =>
      subst hx
      rw [Function.update_eq_self]
      exact .refl
  | @tail t u a _ hE hstep ih =>
      refine .tail (a := (i, a)) ih ?_ ?_
      · simpa [familyEnv] using hE
      · simp [family, hstep]

/-- **Projection.** Every member of a reachable family state is reachable on its own, whatever the
    interleaving was. -/
theorem family_reachable {s : (i : ι) → ς i} (h : (family M).Reachable (familyEnv G) s) (i : ι) :
    (M i).Reachable (G i) (s i) := by
  induction h with
  | refl => exact Reachable.start
  | @tail s' _ ia _ hE hs ih =>
      obtain ⟨j, a⟩ := ia
      obtain ⟨u, hu, rfl⟩ := family_step hs
      by_cases hij : i = j
      · subst hij
        rw [Function.update_self]
        exact .tail ih hE hu
      · rw [Function.update_of_ne hij]
        exact ih

/-- When one member moves, a sum over all members changes by what that member's share does. -/
theorem sum_update [Fintype ι] (μ : (i : ι) → ς i → Nat) (s : (i : ι) → ς i) (i : ι) (x : ς i) :
    ∑ j, μ j (Function.update s i x j) + μ i (s i) = ∑ j, μ j (s j) + μ i x := by
  have hupd : (fun j => μ j (Function.update s i x j)) = Function.update (fun j => μ j (s j)) i (μ i x) :=
    funext fun j => Function.apply_update μ s i x j
  rw [hupd, Finset.sum_update_of_mem (Finset.mem_univ i),
    Finset.sum_eq_add_sum_sdiff_singleton_of_mem (Finset.mem_univ i)]
  omega

end Family

end Machine

end AsyncCpp
