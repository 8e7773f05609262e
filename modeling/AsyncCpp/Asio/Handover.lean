import Mathlib.Data.List.OfFn
import AsyncCpp.Lib.Machine
import AsyncCpp.Asio.Awaiters

/-!
# `Asio.Handover` — one coroutine, a sequence of awaiters, and threads in any order

A coroutine awaits `count` operations in turn. For each of them two activations run on threads of their own:
`await_suspend` on the suspending thread, and, once the operation was initiated, the completion handler on a
thread of the `io_context`. Every interleaving of their statements with the coroutine's own is a run, also the
one in which the handler is over, and the awaiter destroyed, before `await_suspend` has returned.

Touching a member of an awaiter that is gone, and resuming a coroutine that is not suspended there, sets `fault`.

## Assumptions about asio
A handler is invoked once, after the operation was initiated, and never from inside the initiating call.

## Contents
- `System count`, `step`.
- `Life`: the slot of an operation at each stage. `Inv`, `Inv.step`.
- `HandedOver`, `handover` for awaiters that follow the discipline, `asio_handover` for those of the source.
-/

namespace AsyncCpp.Asio

open Machine

/-- An operation, and the completion that asio delivers for it. -/
structure Operation where
  awaiter : Awaiter
  ec      : Nat
  size    : Nat

/-- What `await_resume` gives: the error code, and the byte count if there is one. -/
abbrev Result := Nat × Option Nat

def Operation.delivered (o : Operation) : Result := (o.ec, if o.awaiter.sized then some o.size else none)

/-- A function that one thread is inside of. -/
inductive Activation (α : Type)
  | idle
  | running (rest : List α)
  | returned

/-- The members that handlers write. -/
structure Members where
  m_ec  : Nat := 0
  size_ : Nat := 0

def Members.result (m : Members) (A : Awaiter) : Result := (m.m_ec, if A.sized then some m.size_ else none)

/-- All there is of one operation. -/
structure Slot where
  suspend : Activation SuspendStatement := .idle
  handler : Activation HandlerStatement := .idle
  /-- Initiated, and the handler not invoked yet. -/
  pending : Bool := false
  /-- The awaiter, while it exists. -/
  members : Option Members := none
  /-- How often the handler has resumed the coroutine. -/
  resumed : Nat := 0

variable {count : Nat}

inductive CoroPc (count : Nat)
  /-- About to construct awaiter `c` and to suspend. -/
  | await (c : Nat)
  | suspended (k : Fin count)
  /-- About to run `await_resume`. -/
  | resumed (k : Fin count)
  /-- About to destroy the awaiter. -/
  | destroy (k : Fin count)
  | finished
deriving DecidableEq

structure System (count : Nat) where
  coro    : CoroPc count := .await 0
  slots   : Fin count → Slot := fun _ => {}
  results : List Result := []
  fault   : Bool := false

/-- Replace the slot of an operation; `none`: a member of an awaiter that is gone was touched. -/
def System.put (s : System count) (k : Fin count) : Option Slot → System count
  | some slot => { s with slots := Function.update s.slots k slot }
  | none      => { s with fault := true }

/-- The next statement of `await_suspend`. -/
def Slot.suspendStep (slot : Slot) : Option (Option Slot) :=
  match slot.suspend with
  | .idle | .returned => none
  | .running [] => some (some { slot with suspend := .returned })
  | .running (st :: rest) =>
      if st.reads ≠ [] ∧ slot.members.isNone then some none
      else some (some { slot with suspend := .running rest, pending := slot.pending || st.initiates })

/-- A handler writes a member. -/
def Slot.store (slot : Slot) (rest : List HandlerStatement) (write : Members → Members) : Option Slot :=
  slot.members.map fun m => { slot with handler := .running rest, members := some (write m) }

variable (op : Fin count → Operation)

/-- The next statement of the handler of operation `k`. -/
def handlerStep (s : System count) (k : Fin count) : Option (System count) :=
  let slot := s.slots k
  match slot.handler with
  | .idle | .returned => none
  | .running [] => some (s.put k (some { slot with handler := .returned }))
  | .running (.storeEc :: rest) => some (s.put k (slot.store rest fun m => { m with m_ec := (op k).ec }))
  | .running (.storeSize :: rest) => some (s.put k (slot.store rest fun m => { m with size_ := (op k).size }))
  | .running (.resume :: rest) =>
      if s.coro = .suspended k then
        some { s.put k (some { slot with handler := .running rest, resumed := slot.resumed + 1 }) with
                 coro := .resumed k }
      else some { s with fault := true }

/-- The next statement of the coroutine. -/
def coroStep (s : System count) : Option (System count) :=
  match s.coro with
  | .await c =>
      if h : c < count then
        some { s.put ⟨c, h⟩ (some { s.slots ⟨c, h⟩ with
                 suspend := .running (op ⟨c, h⟩).awaiter.await_suspend, members := some {} }) with
                 coro := .suspended ⟨c, h⟩ }
      else some { s with coro := .finished }
  | .resumed k =>
      match (s.slots k).members with
      | some m => some { s with results := s.results ++ [m.result (op k).awaiter], coro := .destroy k }
      | none   => some { s with fault := true }
  | .destroy k => some { s.put k (some { s.slots k with members := none }) with coro := .await (k + 1) }
  | .suspended _ | .finished => none

inductive Action (count : Nat)
  | coro
  | suspend (k : Fin count)
  /-- The `io_context` invokes the handler of operation `k`. -/
  | invoke (k : Fin count)
  | handler (k : Fin count)

def step (s : System count) : Action count → Option (System count)
  | .coro => coroStep op s
  | .suspend k => (s.slots k).suspendStep.map (s.put k)
  | .invoke k =>
      if (s.slots k).pending then
        some (s.put k (some { s.slots k with handler := .running (op k).awaiter.handler, pending := false }))
      else none
  | .handler k => handlerStep op s k

/-- A coroutine that awaits the operations `op` in turn. -/
def coroutine : Machine (System count) (Action count) where
  start := {}
  step := step op

/-! ## The life of an operation -/

inductive Stage
  | fresh
  | suspended
  | resumed
  | gone

/-- Nothing but statements with `p` is left. -/
def Activation.After {α : Type} (p : α → Bool) : Activation α → Prop
  | .idle => False
  | .running rest => rest.all p = true
  | .returned => True

/-- **The slot of an operation at each stage.** -/
inductive Life (o : Operation) : Stage → Slot → Prop
  | fresh : Life o .fresh {}
  | initiating {rest} (h : Initiating rest = true) :
      Life o .suspended { suspend := .running rest, members := some {} }
  | pending {susp} (h : susp.After SuspendStatement.isLocal) :
      Life o .suspended { suspend := susp, pending := true, members := some {} }
  /-- The handler is running: a member it has not stored yet it will still store, then it resumes. -/
  | handling {susp rest m} (h : susp.After SuspendStatement.isLocal) (hr : Resuming rest = true)
      (hec : m.m_ec = o.ec ∨ .storeEc ∈ rest)
      (hsize : o.awaiter.sized = true → m.size_ = o.size ∨ .storeSize ∈ rest) :
      Life o .suspended { suspend := susp, handler := .running rest, members := some m }
  | resumed {susp hand m} (h : susp.After SuspendStatement.isLocal) (hh : hand.After fun _ => false)
      (hm : m.result o.awaiter = o.delivered) :
      Life o .resumed { suspend := susp, handler := hand, members := some m, resumed := 1 }
  | gone {susp hand} (h : susp.After SuspendStatement.isLocal) (hh : hand.After fun _ => false) :
      Life o .gone { suspend := susp, handler := hand, resumed := 1 }

variable {o : Operation} {slot : Slot} {g : Stage}

/-- After the operation was initiated `await_suspend` touches no member. -/
theorem Activation.After.suspendStep {susp : Activation SuspendStatement} (h : susp.After SuspendStatement.isLocal)
    {hand : Activation HandlerStatement} {pend : Bool} {mem : Option Members} {n : Nat} {r : Option Slot}
    (hs : Slot.suspendStep ⟨susp, hand, pend, mem, n⟩ = some r) :
    ∃ susp', susp'.After SuspendStatement.isLocal ∧ r = some ⟨susp', hand, pend, mem, n⟩ := by
  cases susp with
  | idle => exact h.elim
  | returned => cases hs
  | running rest =>
      cases rest with
      | nil =>
          cases hs
          exact ⟨.returned, trivial, rfl⟩
      | cons st rest =>
          simp only [Activation.After, List.all_cons, SuspendStatement.isLocal, Bool.and_eq_true, List.isEmpty_iff,
            Bool.not_eq_true'] at h
          obtain ⟨⟨hreads, hinit⟩, hrest⟩ := h
          simp only [Slot.suspendStep, hreads, hinit, ne_eq, not_true_eq_false, false_and, if_false, Bool.or_false,
            Option.some.injEq] at hs
          exact ⟨.running rest, hrest, hs.symm⟩

/-- **A statement of `await_suspend`** finds what it needs and keeps the stage. -/
theorem Life.suspendStep (h : Life o g slot) {r : Option Slot} (hs : slot.suspendStep = some r) :
    ∃ slot', r = some slot' ∧ Life o g slot' := by
  cases h with
  | fresh => cases hs
  | @initiating rest hi =>
      cases rest with
      | nil => cases hi
      | cons st rest =>
          simp only [Slot.suspendStep, Option.isNone_some, Bool.false_eq_true, and_false, if_false, Bool.false_or,
            Option.some.injEq] at hs
          subst hs
          refine ⟨_, rfl, ?_⟩
          simp only [Initiating] at hi
          cases hinit : st.initiates with
          | true =>
              rw [hinit, if_pos rfl] at hi
              exact .pending hi
          | false =>
              rw [hinit, if_neg nofun] at hi
              exact .initiating hi
  | pending hl =>
      obtain ⟨susp', hl', rfl⟩ := hl.suspendStep hs
      exact ⟨_, rfl, .pending hl'⟩
  | handling hl hr hec hsize =>
      obtain ⟨susp', hl', rfl⟩ := hl.suspendStep hs
      exact ⟨_, rfl, .handling hl' hr hec hsize⟩
  | resumed hl hh hm =>
      obtain ⟨susp', hl', rfl⟩ := hl.suspendStep hs
      exact ⟨_, rfl, .resumed hl' hh hm⟩
  | gone hl hh =>
      obtain ⟨susp', hl', rfl⟩ := hl.suspendStep hs
      exact ⟨_, rfl, .gone hl' hh⟩

/-- The invocation of a handler. -/
theorem Life.invoke (h : Life o g slot) (hA : o.awaiter.HandsOver) (hp : slot.pending = true) :
    Life o g { slot with handler := .running o.awaiter.handler, pending := false } := by
  cases h with
  | pending hl => exact .handling hl hA.resumes (.inr hA.storesEc) fun hsized => .inr (hA.storesSize hsized)
  | _ => cases hp

theorem Life.eq_fresh (h : Life o .fresh slot) : slot = {} := by
  cases h
  rfl

theorem Life.handler_idle (h : Life o g slot) (hp : slot.pending = true) : slot.handler = .idle := by
  cases h with
  | pending => rfl
  | _ => cases hp

/-- A handler that has resumed the coroutine has nothing left to do but to return. -/
theorem Activation.After.eq_nil {α : Type} {rest : List α}
    (h : (Activation.running rest).After fun _ => false) : rest = [] := by
  cases rest with
  | nil => rfl
  | cons x rest => cases h

/-- A handler returns. -/
theorem Life.handlerReturn (h : Life o g slot) (hh : slot.handler = .running []) :
    Life o g { slot with handler := .returned } := by
  cases h with
  | handling _ hr =>
      cases hh
      cases hr
  | resumed hl _ hm => exact .resumed hl trivial hm
  | gone hl _ => exact .gone hl trivial
  | _ => cases hh

/-- **A handler stores a member**: the awaiter is still there. `st` is the statement and `write` its effect. -/
theorem Life.store (h : Life o g slot) {st : HandlerStatement} {rest : List HandlerStatement}
    (hh : slot.handler = .running (st :: rest)) {write : Members → Members}
    (hst : st = .storeEc ∧ write = (fun m => { m with m_ec := o.ec }) ∨
      st = .storeSize ∧ write = fun m => { m with size_ := o.size }) :
    ∃ slot', slot.store rest write = some slot' ∧ Life o g slot' := by
  cases h with
  | @handling susp rest' m hl hr hec hsize =>
      cases hh
      refine ⟨_, rfl, ?_⟩
      rcases hst with ⟨rfl, rfl⟩ | ⟨rfl, rfl⟩
      · refine .handling hl hr (.inl rfl) ?_
        intro hsized
        rcases hsize hsized with hdone | hmem
        · exact .inl hdone
        · exact .inr ((List.mem_cons.mp hmem).resolve_left nofun)
      · refine .handling hl hr ?_ fun _ => .inl rfl
        rcases hec with hdone | hmem
        · exact .inl hdone
        · exact .inr ((List.mem_cons.mp hmem).resolve_left nofun)
  | resumed _ hdone | gone _ hdone =>
      cases hh
      cases hdone.eq_nil
  | _ => cases hh

/-- **A handler resumes**: everything is stored, and it was the first time. -/
theorem Life.resume (h : Life o g slot) {rest : List HandlerStatement}
    (hh : slot.handler = .running (.resume :: rest)) :
    g = .suspended ∧ Life o .resumed { slot with handler := .running rest, resumed := slot.resumed + 1 } := by
  cases h with
  | @handling susp rest' m hl hr hec hsize =>
      cases hh
      cases List.isEmpty_iff.mp (show rest.isEmpty = true from hr)
      refine ⟨rfl, .resumed hl rfl ?_⟩
      have hec' : m.m_ec = o.ec := hec.resolve_right (by simp)
      unfold Members.result Operation.delivered
      rw [hec']
      cases hsized : o.awaiter.sized with
      | false => rfl
      | true => rw [(hsize hsized).resolve_right (by simp)]
  | resumed _ hdone | gone _ hdone =>
      cases hh
      cases hdone.eq_nil
  | _ => cases hh

/-! ## The system -/

/-- The stage of every operation, by where the coroutine is. -/
def CoroPc.stage : CoroPc count → Fin count → Stage
  | .await c, k => if k < c then .gone else .fresh
  | .suspended c, k => if k < c then .gone else if k = c then .suspended else .fresh
  | .resumed c, k | .destroy c, k => if k < c then .gone else if k = c then .resumed else .fresh
  | .finished, _ => .gone

@[simp] theorem CoroPc.stage_suspended (k : Fin count) : (CoroPc.suspended k).stage k = .suspended := by
  simp [CoroPc.stage]

@[simp] theorem CoroPc.stage_resumed (k : Fin count) : (CoroPc.resumed k).stage k = .resumed := by
  simp [CoroPc.stage]

@[simp] theorem CoroPc.stage_destroy (k : Fin count) : (CoroPc.destroy k).stage k = .resumed := by
  simp [CoroPc.stage]

/-- How many results the coroutine has. -/
def CoroPc.done : CoroPc count → Nat
  | .await c => c
  | .suspended k | .resumed k => k
  | .destroy k => k + 1
  | .finished => count

/-- **The invariant**: every operation is at the stage that the coroutine's position says, and the results so
    far are the completions delivered, in order. -/
structure Inv (s : System count) : Prop where
  fault   : s.fault = false
  slots   : ∀ k, Life (op k) (s.coro.stage k) (s.slots k)
  results : s.results = (List.ofFn fun k => (op k).delivered).take s.coro.done
  bound   : s.coro.done ≤ count

variable {op} {s s' : System count}

theorem start_inv : Inv op (coroutine op).start :=
  ⟨rfl, fun k => by simpa [coroutine, CoroPc.stage] using Life.fresh, rfl, Nat.zero_le _⟩

/-- One operation moves within its stage. -/
theorem Inv.put (h : Inv op s) {k : Fin count} {slot : Slot} (hl : Life (op k) (s.coro.stage k) slot) :
    Inv op (s.put k (some slot)) := by
  refine ⟨h.fault, ?_, h.results, h.bound⟩
  intro j
  by_cases hj : j = k
  · subst hj
    simpa [System.put] using hl
  · simpa [System.put, hj] using h.slots j

/-- One operation moves with the coroutine. -/
theorem Inv.move (h : Inv op s) {k : Fin count} {slot : Slot} {coro : CoroPc count}
    (hl : Life (op k) (coro.stage k) slot) (hstage : ∀ j, j ≠ k → coro.stage j = s.coro.stage j)
    (hdone : coro.done = s.coro.done) : Inv op { s.put k (some slot) with coro := coro } := by
  refine ⟨h.fault, ?_, ?_, ?_⟩
  · intro j
    by_cases hj : j = k
    · subst hj
      simpa [System.put] using hl
    · simpa [System.put, hj, hstage j hj] using h.slots j
  · exact h.results.trans (congrArg (List.take · _) hdone.symm)
  · exact (Nat.le_of_eq hdone).trans h.bound

/-- The coroutine is suspended at the operation that is at this stage. -/
theorem CoroPc.eq_suspended {pc : CoroPc count} {k : Fin count} (h : pc.stage k = .suspended) :
    pc = .suspended k := by
  cases pc with
  | suspended c =>
      simp only [CoroPc.stage] at h
      split at h
      · exact absurd h (by simp)
      · split at h
        · next hk => rw [hk]
        · exact absurd h (by simp)
  | await c | resumed c | destroy c =>
      simp only [CoroPc.stage] at h
      split at h
      · exact absurd h (by simp)
      · first | cases h | (split at h <;> cases h)
  | finished => cases h

/-! ## The rank of a run -/

/-- The statements that an activation has ahead; `full` is the length of its function. -/
def Activation.rank {α : Type} (full : Nat) : Activation α → Nat
  | .idle         => full + 2
  | .running rest => rest.length + 1
  | .returned     => 0

def Slot.rank (o : Operation) (slot : Slot) : Nat :=
  slot.suspend.rank o.awaiter.await_suspend.length + slot.handler.rank o.awaiter.handler.length

def CoroPc.rank : CoroPc count → Nat
  | .await c     => 4 * (count - c) + 1
  | .suspended k => 4 * (count - k)
  | .resumed k   => 4 * (count - k) - 1
  | .destroy k   => 4 * (count - k) - 2
  | .finished    => 0

variable (op) in
def System.rank (s : System count) : Nat := s.coro.rank + ∑ k, (s.slots k).rank (op k)

/-- One operation moves, and perhaps the coroutine. -/
theorem System.rank_put {k : Fin count} {slot : Slot} {coro : CoroPc count}
    (hlt : coro.rank + slot.rank (op k) < s.coro.rank + (s.slots k).rank (op k)) :
    System.rank op { s.put k (some slot) with coro := coro } < s.rank op := by
  have hsum := sum_update (fun k => Slot.rank (op k)) s.slots k slot
  unfold System.rank
  show coro.rank + ∑ j, (Function.update s.slots k slot j).rank (op j) < _
  omega

theorem Slot.suspendStep_rank {slot slot' : Slot} (o : Operation) (hs : slot.suspendStep = some (some slot')) :
    slot'.rank o < slot.rank o := by
  unfold Slot.suspendStep at hs
  split at hs
  · exact absurd hs (by simp)
  · exact absurd hs (by simp)
  · next hsusp =>
    cases hs
    simp only [Slot.rank, hsusp, Activation.rank, List.length_nil]
    omega
  · next st rest hsusp =>
    split at hs
    · exact absurd hs (by simp)
    · cases hs
      simp only [Slot.rank, hsusp, Activation.rank, List.length_cons]
      omega

theorem Slot.store_rank {slot slot' : Slot} (o : Operation) {st : HandlerStatement} {rest : List HandlerStatement}
    (hh : slot.handler = .running (st :: rest)) {write : Members → Members} (hs : slot.store rest write = some slot') :
    slot'.rank o < slot.rank o := by
  obtain ⟨m, _, rfl⟩ := Option.map_eq_some_iff.mp hs
  simp only [Slot.rank, hh, Activation.rank, List.length_cons]
  omega

/-! ## Every statement, every action, every run -/

/-- **A statement of the coroutine.** -/
theorem Inv.coroStep (h : Inv op s) (hA : ∀ k, (op k).awaiter.HandsOver) (hs : Asio.coroStep op s = some s') :
    Inv op s' ∧ s'.rank op < s.rank op := by
  unfold Asio.coroStep at hs
  cases hpc : s.coro with
  | suspended k => simp [hpc] at hs
  | finished => simp [hpc] at hs
  | await c =>
      simp only [hpc] at hs
      split at hs
      · next hc =>
        cases hs
        have hfresh : s.slots ⟨c, hc⟩ = {} := by
          have hlife := h.slots ⟨c, hc⟩
          rw [hpc] at hlife
          simp only [CoroPc.stage, Nat.lt_irrefl, if_false] at hlife
          exact hlife.eq_fresh
        rw [hfresh]
        refine ⟨h.move ?_ ?_ (by rw [hpc]; rfl), System.rank_put ?_⟩
        · simpa [CoroPc.stage] using Life.initiating (hA ⟨c, hc⟩).initiates
        · intro j hj
          rw [hpc]
          simp [CoroPc.stage, hj, Fin.lt_def]
        · rw [hpc, hfresh]
          simp only [CoroPc.rank, Slot.rank, Activation.rank]
          omega
      · next hc =>
        cases hs
        have hbound := h.bound
        rw [hpc] at hbound
        have hcount : c = count := Nat.le_antisymm hbound (Nat.le_of_not_lt hc)
        refine ⟨⟨h.fault, ?_, ?_, Nat.le_refl _⟩, ?_⟩
        · intro j
          have hlife := h.slots j
          rw [hpc] at hlife
          simpa [CoroPc.stage, hcount] using hlife
        · rw [show s.results = _ from h.results, hpc]
          simp [CoroPc.done, hcount]
        · show 0 + _ < s.coro.rank + _
          rw [hpc]
          simp only [CoroPc.rank]
          omega
  | resumed k =>
      have hlife := h.slots k
      rw [hpc, CoroPc.stage_resumed] at hlife
      simp only [hpc] at hs
      generalize s.slots k = slot at hlife hs
      cases hlife with
      | resumed hl hh hm =>
          simp only [Option.some.injEq] at hs
          subst hs
          refine ⟨⟨h.fault, ?_, ?_, k.isLt⟩, ?_⟩
          · intro j
            have hlife := h.slots j
            rw [hpc] at hlife
            exact hlife
          · have hresults := h.results
            rw [hpc] at hresults
            simp only [hm, hresults, CoroPc.done]
            rw [List.take_add_one]
            simp
          · have := k.isLt
            simp only [System.rank, hpc, CoroPc.rank]
            omega
  | destroy k =>
      have hlife := h.slots k
      rw [hpc, CoroPc.stage_destroy] at hlife
      simp only [hpc, Option.some.injEq] at hs
      subst hs
      refine ⟨h.move ?_ ?_ (by rw [hpc]; rfl), System.rank_put ?_⟩
      · generalize s.slots k = slot at hlife
        cases hlife with
        | resumed hl hh _ => simpa [CoroPc.stage] using Life.gone hl hh
      · intro j hj
        have hlt : (j : Nat) < k + 1 ↔ j < k := by
          have hne : (j : Nat) ≠ k := fun he => hj (Fin.ext he)
          rw [Fin.lt_def]
          omega
        rw [hpc]
        simp [CoroPc.stage, hj, hlt]
      · have := k.isLt
        rw [hpc]
        simp only [CoroPc.rank, Slot.rank]
        omega

/-- **A statement of a handler.** -/
theorem Inv.handlerStep (h : Inv op s) {k : Fin count} (hs : Asio.handlerStep op s k = some s') :
    Inv op s' ∧ s'.rank op < s.rank op := by
  have hlife := h.slots k
  unfold Asio.handlerStep at hs
  cases hh : (s.slots k).handler with
  | idle | returned => simp [hh] at hs
  | running rest =>
      cases rest with
      | nil =>
          simp only [hh, Option.some.injEq] at hs
          subst hs
          refine ⟨h.put (hlife.handlerReturn hh), System.rank_put ?_⟩
          simp only [Slot.rank, hh, Activation.rank, List.length_nil]
          omega
      | cons st rest =>
          cases st with
          | storeEc =>
              obtain ⟨slot', hslot, hlife'⟩ := hlife.store hh (.inl ⟨rfl, rfl⟩)
              simp only [hh, hslot, Option.some.injEq] at hs
              subst hs
              exact ⟨h.put hlife', System.rank_put (Nat.add_lt_add_left (Slot.store_rank _ hh hslot) _)⟩
          | storeSize =>
              obtain ⟨slot', hslot, hlife'⟩ := hlife.store hh (.inr ⟨rfl, rfl⟩)
              simp only [hh, hslot, Option.some.injEq] at hs
              subst hs
              exact ⟨h.put hlife', System.rank_put (Nat.add_lt_add_left (Slot.store_rank _ hh hslot) _)⟩
          | resume =>
              obtain ⟨hstage, hlife'⟩ := hlife.resume hh
              have hpc := CoroPc.eq_suspended hstage
              simp only [hh, hpc, if_true, Option.some.injEq] at hs
              subst hs
              refine ⟨h.move ?_ ?_ (by rw [hpc]; rfl), System.rank_put ?_⟩
              · simpa [CoroPc.stage] using hlife'
              · intro j hj
                rw [hpc]
                simp [CoroPc.stage, hj]
              · have := k.isLt
                rw [hpc]
                simp only [CoroPc.rank, Slot.rank, hh, Activation.rank, List.length_cons]
                omega

/-- **The step lemma.** -/
theorem Inv.step (h : Inv op s) (hA : ∀ k, (op k).awaiter.HandsOver) {a : Action count}
    (hs : Asio.step op s a = some s') : Inv op s' ∧ s'.rank op < s.rank op := by
  cases a with
  | coro => exact h.coroStep hA hs
  | handler k => exact h.handlerStep hs
  | suspend k =>
      obtain ⟨r, hr, rfl⟩ := Option.map_eq_some_iff.mp hs
      obtain ⟨slot', rfl, hlife⟩ := (h.slots k).suspendStep hr
      exact ⟨h.put hlife, System.rank_put (Nat.add_lt_add_left (Slot.suspendStep_rank _ hr) _)⟩
  | invoke k =>
      simp only [Asio.step] at hs
      split at hs
      · next hp =>
        cases hs
        refine ⟨h.put ((h.slots k).invoke (hA k) hp), System.rank_put (Nat.add_lt_add_left ?_ _)⟩
        simp only [Slot.rank, (h.slots k).handler_idle hp, Activation.rank]
        omega
      · exact absurd hs (by simp)

/-- **The run lemma.** -/
theorem reachable_inv (hA : ∀ k, (op k).awaiter.HandsOver) (h : (coroutine op).Reachable Anything s) :
    Inv op s := by
  apply h.invariant start_inv
  intro s a s' _ hi _ hs
  exact (hi.step hA hs).1

/-! ## The handover -/

/-- While the coroutine is suspended, `await_suspend`, the `io_context` or the handler can go on. -/
theorem Life.enabled (h : Life o .suspended slot) : slot.suspendStep.isSome ∨ slot.pending = true ∨
    ∃ rest, slot.handler = .running rest := by
  cases h with
  | @initiating rest hi =>
      left
      cases rest with
      | nil => rfl
      | cons st rest => simp [Slot.suspendStep]
  | pending => exact .inr (.inl rfl)
  | handling => exact .inr (.inr ⟨_, rfl⟩)

/-- **Nothing blocks the coroutine before its end.** -/
theorem Inv.stuck (h : Inv op s) (hstuck : (coroutine op).Stuck Anything s) : s.coro = .finished := by
  have hcoro := hstuck .coro trivial
  simp only [coroutine, Asio.step, Asio.coroStep] at hcoro
  cases hpc : s.coro with
  | finished => rfl
  | await c =>
      simp only [hpc] at hcoro
      split at hcoro <;> cases hcoro
  | resumed k =>
      simp only [hpc] at hcoro
      split at hcoro <;> cases hcoro
  | destroy k => simp [hpc] at hcoro
  | suspended k =>
      have hlife := h.slots k
      rw [hpc, CoroPc.stage_suspended] at hlife
      -- whoever has the operation now can go on
      rcases hlife.enabled with hsusp | hpend | ⟨rest, hrun⟩
      · have hnone := hstuck (.suspend k) trivial
        simp only [coroutine, Asio.step, Option.map_eq_none_iff] at hnone
        rw [hnone] at hsusp
        cases hsusp
      · have hnone := hstuck (.invoke k) trivial
        simp [coroutine, Asio.step, hpend] at hnone
      · have hnone := hstuck (.handler k) trivial
        simp only [coroutine, Asio.step, Asio.handlerStep, hrun] at hnone
        cases rest with
        | nil => cases hnone
        | cons st rest =>
            cases st with
            | storeEc | storeSize => cases hnone
            | resume => simp only [hpc, if_true] at hnone; cases hnone

/-- **Every completion is handed over exactly once.** -/
structure HandedOver (op : Fin count → Operation) (s : System count) : Prop where
  /-- No member of an awaiter was touched after its end, and nobody resumed a coroutine that was not suspended. -/
  no_fault : s.fault = false
  /-- What `await_resume` gave so far is what was delivered for these operations, in order. -/
  results  : s.results <+: List.ofFn fun k => (op k).delivered
  /-- Each operation resumes the coroutine once at most, and once when it has its result. -/
  once     : ∀ k, (s.slots k).resumed ≤ 1 ∧ ((k : Nat) < s.results.length → (s.slots k).resumed = 1)
  /-- Every run is finite, -/
  drains   : ∀ n t, (coroutine op).StepsN Anything n s t → n ≤ s.rank op
  /-- and at its end all operations have resumed the coroutine and delivered their results. -/
  finishes : ∀ t, (coroutine op).Steps Anything s t → (coroutine op).Stuck Anything t →
    t.coro = .finished ∧ t.results = (List.ofFn fun k => (op k).delivered) ∧ ∀ k, (t.slots k).resumed = 1

theorem Life.resumed_le (h : Life o g slot) : slot.resumed ≤ 1 := by
  cases h <;> first | exact Nat.zero_le 1 | exact Nat.le_refl 1

theorem Life.resumed_eq (h : Life o g slot) (hg : g = .gone ∨ g = .resumed) : slot.resumed = 1 := by
  cases h with
  | resumed | gone => rfl
  | _ => rcases hg with hg | hg <;> cases hg

/-- An operation whose result is there has resumed the coroutine. -/
theorem Inv.resumed_eq (h : Inv op s) {k : Fin count} (hk : (k : Nat) < s.coro.done) : (s.slots k).resumed = 1 := by
  apply (h.slots k).resumed_eq
  cases hpc : s.coro with
  | await c | suspended c | resumed c =>
      rw [hpc] at hk
      have hlt : (k : Nat) < c := hk
      simp [CoroPc.stage, Fin.lt_def, hlt]
  | destroy c =>
      rw [hpc] at hk
      have hle : (k : Nat) < c + 1 := hk
      by_cases hkc : k = c
      · simp [CoroPc.stage, hkc]
      · have hlt : k < c := by
          have hne : (k : Nat) ≠ c := fun he => hkc (Fin.ext he)
          rw [Fin.lt_def]
          omega
        simp [CoroPc.stage, hlt]
  | finished => simp [CoroPc.stage]

/-- **Handover.** For any sequence of operations through awaiters that follow the discipline. -/
theorem handover (hA : ∀ k, (op k).awaiter.HandsOver) (h : (coroutine op).Reachable Anything s) :
    HandedOver op s where
  no_fault := (reachable_inv hA h).fault
  results := by
    rw [(reachable_inv hA h).results]
    exact List.take_prefix _ _
  once := by
    intro k
    have hi := reachable_inv hA h
    refine ⟨(hi.slots k).resumed_le, ?_⟩
    intro hk
    rw [hi.results, List.length_take] at hk
    apply hi.resumed_eq
    omega
  drains := by
    intro n t hn
    have hi := reachable_inv hA h
    have := hn.measure (I := Inv op) (fun hi _ hs => (hi.step hA hs).1) (fun hi _ hs => (hi.step hA hs).2) hi
    omega
  finishes := by
    intro t ht hstuck
    have hi := reachable_inv hA (h.trans ht)
    have hpc := hi.stuck hstuck
    have hresults := hi.results
    rw [hpc] at hresults
    refine ⟨hpc, ?_, ?_⟩
    · rw [hresults]
      exact List.take_of_length_le (by simp [CoroPc.done])
    · intro k
      apply hi.resumed_eq
      rw [hpc]
      exact k.isLt

/-- **The awaiters of `asio_util.hpp` hand over each completion exactly once**: for every sequence of operations
    through them, whatever is delivered, and every interleaving of all threads. -/
theorem asio_handover (count : Nat) (kind : Fin count → Kind) (ec size : Fin count → Nat) (s : System count)
    (h : (coroutine fun k => ⟨(kind k).awaiter, ec k, size k⟩).Reachable Anything s) :
    HandedOver (fun k => ⟨(kind k).awaiter, ec k, size k⟩) s :=
  handover (fun k => (kind k).handsOver) h

/-- The handler of the first operation is over, and its awaiter destroyed, before `await_suspend` returns. -/
def overtaking : List (Action 3) :=
  [.coro, .suspend 0, .invoke 0, .handler 0, .handler 0, .handler 0, .coro, .coro, .coro, .handler 0, .suspend 1,
    .suspend 0]

theorem asio_handover_overtaking :
    ∃ h : ((coroutine fun k : Fin 3 => ⟨Kind.awaiter (if k = 0 then .readSome else .connect), 0, 512⟩).exec Anything
        {} overtaking).isSome,
      (Option.get _ h).results = [(0, some 512)] ∧
      HandedOver (fun k : Fin 3 => ⟨Kind.awaiter (if k = 0 then .readSome else .connect), 0, 512⟩) (Option.get _ h) :=
  ⟨rfl, rfl, asio_handover 3 (fun k => if k = 0 then .readSome else .connect) (fun _ => 0) (fun _ => 512) _
    (reachable_get rfl)⟩

end AsyncCpp.Asio
