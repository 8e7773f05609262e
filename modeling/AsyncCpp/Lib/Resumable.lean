import Mathlib.Order.Basic

/-!
# `Lib.Resumable` — computations that wait for answers

A `Resumable` is a computation as whoever drives it sees it: it has a value, or it was left, or it has something to
note, or it asks for something and goes on with the answer. A driver may take any time over an answer, and do other
things in between.

`run` is the sequential meaning, for answers that are there from the beginning: what is recorded, and how the
computation ends. A driver that answers accordingly is, wherever it stops, at a place from which `run` leads to the
same end (`run_note`, `run_ask`); what it has recorded by then is a part of what `run` records (`le_run`), and
`cost` says how far it has still to go.
-/

namespace AsyncCpp

universe u v w x y z

/-- A computation that asks for `κ` and gets `A`, notes `ω`, can be left with `ε` and else gives an `α`. -/
inductive Resumable {κ : Type u} (A : κ → Type v) (ω : Type w) (ε : Type x) (α : Type y) where
  | done (a : α)
  | leave (e : ε)
  | note (n : ω) (rest : Resumable A ω ε α)
  | ask (q : κ) (next : A q → Resumable A ω ε α)

namespace Resumable

variable {κ : Type u} {A : κ → Type v} {ω : Type w} {ε : Type x} {α β : Type y} {σ : Type z}

def bind : Resumable A ω ε α → (α → Resumable A ω ε β) → Resumable A ω ε β
  | done a, f      => f a
  | leave e, _     => leave e
  | note n rest, f => note n (rest.bind f)
  | ask q next, f  => ask q fun a => (next a).bind f

instance : Monad (Resumable A ω ε) where
  pure := done
  bind := bind

/-- What is kept of a computation while it runs. -/
structure Record (κ : Type u) (ω : Type w) (σ : Type z) where
  asked : κ → σ → σ
  noted : ω → σ → σ

variable (R : Record κ ω σ) (answer : (q : κ) → A q)

/-- **The sequential meaning**: how the computation ends, and what is recorded by then. -/
def run : Resumable A ω ε α → σ → Except ε α × σ
  | done a, t      => (.ok a, t)
  | leave e, t     => (.error e, t)
  | note n rest, t => rest.run (R.noted n t)
  | ask q next, t  => (next (answer q)).run (R.asked q t)

/-- How many notes and answers are still to come. -/
def cost : Resumable A ω ε α → Nat
  | done _ | leave _ => 0
  | note _ rest      => rest.cost + 1
  | ask q next       => (next (answer q)).cost + 1

section simps

variable (t : σ) (a : α) (e : ε) (n : ω) (q : κ) (rest : Resumable A ω ε α) (next : A q → Resumable A ω ε α)
variable (f : α → Resumable A ω ε β)

@[simp] theorem run_pure : (pure a : Resumable A ω ε α).run R answer t = (.ok a, t) := rfl
@[simp] theorem run_done : (done a : Resumable A ω ε α).run R answer t = (.ok a, t) := rfl
@[simp] theorem run_leave : (leave e : Resumable A ω ε α).run R answer t = (.error e, t) := rfl
@[simp] theorem run_note : (note n rest).run R answer t = rest.run R answer (R.noted n t) := rfl
@[simp] theorem run_ask : (ask q next).run R answer t = (next (answer q)).run R answer (R.asked q t) := rfl

@[simp] theorem done_bind : (done a : Resumable A ω ε α) >>= f = f a := rfl
@[simp] theorem leave_bind : (leave e : Resumable A ω ε α) >>= f = leave e := rfl
@[simp] theorem note_bind : note n rest >>= f = note n (rest >>= f) := rfl
@[simp] theorem ask_bind : ask q next >>= f = ask q fun a => next a >>= f := rfl

end simps

/-- The second part goes on from where the first has ended. -/
theorem run_bind (c : Resumable A ω ε α) (f : α → Resumable A ω ε β) (t : σ) :
    (c >>= f).run R answer t = match c.run R answer t with
      | (.ok a, t')    => (f a).run R answer t'
      | (.error e, t') => (.error e, t') := by
  induction c generalizing t with
  | done a | leave e => rfl
  | note n rest ih => exact ih (R.noted n t)
  | ask q next ih => exact ih (answer q) (R.asked q t)

/-- **The record only grows**, where every entry makes it grow. -/
theorem le_run [Preorder σ] (hasked : ∀ q t, t ≤ R.asked q t) (hnoted : ∀ n t, t ≤ R.noted n t)
    (c : Resumable A ω ε α) (t : σ) : t ≤ (c.run R answer t).2 := by
  induction c generalizing t with
  | done a | leave e => exact le_refl t
  | note n rest ih => exact (hnoted n t).trans (ih (R.noted n t))
  | ask q next ih => exact (hasked q t).trans (ih (answer q) (R.asked q t))

/-! ## Answers that may never come -/

section await

variable (answers : (q : κ) → Option (A q))

/-- **The sequential meaning** where an answer may be missing; `none`: the computation waits for one for ever. -/
def await : Resumable A ω ε α → σ → Option (Except ε α) × σ
  | done a, t      => (some (.ok a), t)
  | leave e, t     => (some (.error e), t)
  | note n rest, t => rest.await (R.noted n t)
  | ask q next, t  =>
      match answers q with
      | some a => (next a).await (R.asked q t)
      | none   => (none, R.asked q t)

/-- How many notes and questions are still to come. -/
def left : Resumable A ω ε α → Nat
  | done _ | leave _ => 0
  | note _ rest      => rest.left + 1
  | ask q next       =>
      match answers q with
      | some a => (next a).left + 1
      | none   => 1

section ask

variable {q : κ} (next : A q → Resumable A ω ε α)

theorem await_ask_some {a : A q} (h : answers q = some a) (t : σ) :
    (ask q next).await R answers t = (next a).await R answers (R.asked q t) := by
  rw [await, h]

theorem await_ask_none (h : answers q = none) (t : σ) : (ask q next).await R answers t = (none, R.asked q t) := by
  rw [await, h]

theorem left_ask_some {a : A q} (h : answers q = some a) : (ask q next).left answers = (next a).left answers + 1 := by
  rw [left, h]

theorem left_ask_none (h : answers q = none) : (ask q next).left answers = 1 := by
  rw [left, h]

end ask

/-- As `le_run`. -/
theorem le_await [Preorder σ] (hasked : ∀ q t, t ≤ R.asked q t) (hnoted : ∀ n t, t ≤ R.noted n t)
    (c : Resumable A ω ε α) (t : σ) : t ≤ (c.await R answers t).2 := by
  induction c generalizing t with
  | done a | leave e => exact le_refl t
  | note n rest ih => exact (hnoted n t).trans (ih (R.noted n t))
  | ask q next ih =>
    cases hanswer : answers q with
    | none =>
      rw [await_ask_none R answers next hanswer]
      exact hasked q t
    | some a =>
      rw [await_ask_some R answers next hanswer]
      exact (hasked q t).trans (ih a (R.asked q t))

end await

end Resumable

end AsyncCpp
