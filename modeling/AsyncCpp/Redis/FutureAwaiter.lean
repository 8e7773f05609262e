import Mathlib.Data.List.Basic

/-!
# `Redis.FutureAwaiter` — awaiting redis futures in a coroutine

`FutureAwaiter<T>` and its specialisation for `void`, and a coroutine that awaits any sequence of futures of
any types. The law a caller expects is `Law`: like running the commands in sequence, with exceptions. It holds
exactly when no future of the sequence failed (`law_iff`).

## Assumptions about boost
- The continuation given to `then` runs once, with the completed future; what leaves it as an exception stays
  in the future that `then` returned, which nobody reads.
- `get` throws the stored exception, `wait` throws nothing, `rethrow_exception` throws the stored exception
  under its own type.

## Contents
- `FutureAwaiter`, `FutureAwaiterVoid`: fields, constructors, `await_suspend`, `await_resume`.
- `Command`, `run`: the coroutine. `sequential`: what it should do.
- `coAwait_succeeded`, `coAwait_failed`: what one `co_await` does. `Law`, `law_iff`.
-/

namespace AsyncCpp.Redis

variable {ε π α σ : Type}

/-! ## Exceptions and futures -/

/-- A thrown object, by the handlers that its type matches. -/
inductive Thrown (ε : Type)
  /-- An object `e` of an ordinary exception type. -/
  | ordinary (e : ε)
  /-- An object of type `std::exception_ptr`. -/
  | exception_ptr (ep : Option ε)
deriving DecidableEq

/-- C++ statements that may throw, over the objects they change. -/
abbrev Statements (ε σ : Type) := ExceptT (Thrown ε) (StateM σ)

/-- A completed `boost::future<T>`: a value or a stored exception. -/
abbrev Future (ε α : Type) := Except ε α

def Future.get : Future ε α → Statements ε σ α
  | .ok v    => pure v
  | .error e => throw (.ordinary e)

def Future.wait (_ : Future ε α) : Statements ε σ Unit := pure ()

def Future.get_exception_ptr : Future ε α → Option ε
  | .ok _    => none
  | .error e => some e

/-- `boost::rethrow_exception`; its argument is not null. -/
def rethrow_exception : Option ε → Statements ε σ Unit
  | some e => throw (.ordinary e)
  | none   => pure ()

/-- `future.then(func)`: the continuation changes what it captured by reference. -/
def Future.then (fut : Future ε α) (func : Future ε α → Statements ε σ Unit) (captured : σ) : σ :=
  ((func fut).run.run captured).2

/-- `future.then(pool, func)`: the same on a thread of the pool. -/
def Future.thenOn (_pool : π) (fut : Future ε α) (func : Future ε α → Statements ε σ Unit) (captured : σ) : σ :=
  fut.then func captured

/-! ## The awaiters -/

/-- `FutureAwaiter<T>`. The field `resumed` is ghost and counts the calls of `handle.resume()`. -/
structure FutureAwaiter (ε π α : Type) where
  _future    : Future ε α
  _pool_ptr  : Option π := none
  _result    : α
  _exception : Option ε := none
  resumed    : Nat := 0

namespace FutureAwaiter

/-- `FutureAwaiter(future)` and `FutureAwaiter(future, pool_ptr)`. -/
def construct [Inhabited α] (future : Future ε α) : Option π → FutureAwaiter ε π α
  | none      => { _future := future, _result := default }
  | some pool => { _future := future, _pool_ptr := some pool, _result := default }

/-- The lambda `func` of `await_suspend`. -/
def func (fut : Future ε α) : Statements ε (FutureAwaiter ε π α) Unit := do
  try
    let result ← fut.get
    modify fun a => { a with _result := result }
  catch _ =>
    try
      rethrow_exception fut.get_exception_ptr
    catch
      -- catch (const std::exception_ptr& ep)
      | .exception_ptr ep => modify fun a => { a with _exception := ep }
      | other => throw other
  -- handle.resume();
  modify fun a => { a with resumed := a.resumed + 1 }

def await_suspend (a : FutureAwaiter ε π α) : FutureAwaiter ε π α :=
  match a._pool_ptr with
  | some pool => a._future.thenOn pool func a
  | none      => a._future.then func a

def await_resume (a : FutureAwaiter ε π α) : Except (Thrown ε) α :=
  match a._exception with
  | some e => .error (.ordinary e)
  | none   => .ok a._result

end FutureAwaiter

/-- `FutureAwaiter<void>`. -/
structure FutureAwaiterVoid (ε π : Type) where
  _future    : Future ε Unit
  _pool_ptr  : Option π := none
  _exception : Option ε := none
  resumed    : Nat := 0

namespace FutureAwaiterVoid

def construct (future : Future ε Unit) : Option π → FutureAwaiterVoid ε π
  | none      => { _future := future }
  | some pool => { _future := future, _pool_ptr := some pool }

/-- The lambda of the specialisation: `wait` in place of `get`. -/
def func (fut : Future ε Unit) : Statements ε (FutureAwaiterVoid ε π) Unit := do
  try
    fut.wait
  catch _ =>
    try
      rethrow_exception fut.get_exception_ptr
    catch
      | .exception_ptr ep => modify fun a => { a with _exception := ep }
      | other => throw other
  modify fun a => { a with resumed := a.resumed + 1 }

def await_suspend (a : FutureAwaiterVoid ε π) : FutureAwaiterVoid ε π :=
  match a._pool_ptr with
  | some pool => a._future.thenOn pool func a
  | none      => a._future.then func a

def await_resume (a : FutureAwaiterVoid ε π) : Except (Thrown ε) Unit :=
  match a._exception with
  | some e => .error (.ordinary e)
  | none   => .ok ()

end FutureAwaiterVoid

/-! ## The coroutine -/

variable {T : Type} {V : T → Type}

/-- The value of one `co_await`: of one of the result types, or nothing. -/
inductive Value (V : T → Type)
  | of (t : T) (v : V t)
  | void

/-- One `co_await FutureAwaiter{future, pool}`, the pool being optional. -/
inductive Command (ε π : Type) (V : T → Type)
  | value (t : T) (future : Future ε (V t)) (pool : Option π)
  | void (future : Future ε Unit) (pool : Option π)

namespace Command

/-- How the future completed. -/
def result : Command ε π V → Except ε (Value V)
  | .value t future _ => future.map (Value.of t)
  | .void future _    => future.map fun _ => Value.void

/-- The same command with another choice of pool. -/
def withPool (pool : Option π) : Command ε π V → Command ε π V
  | .value t future _ => .value t future pool
  | .void future _    => .void future pool

def succeeded (c : Command ε π V) : Prop := c.result.isOk

variable [∀ t, Inhabited (V t)]

/-- One `co_await`: how often it resumed the coroutine, and what `await_resume` gives then. -/
def coAwait : Command ε π V → Nat × Except (Thrown ε) (Value V)
  | .value t future pool =>
      let a := (FutureAwaiter.construct future pool).await_suspend
      (a.resumed, a.await_resume.map (Value.of t))
  | .void future pool =>
      let a := (FutureAwaiterVoid.construct future pool).await_suspend
      (a.resumed, a.await_resume.map fun _ => Value.void)

end Command

/-- What becomes of a coroutine. -/
structure Report (ε : Type) (V : T → Type) where
  /-- How often each `co_await` that was reached resumed it. -/
  resumes : List Nat
  /-- Its values, or the exception it ended with; `none`: it stays suspended for ever. -/
  outcome : Option (Except (Thrown ε) (List (Value V)))

section Run

variable [∀ t, Inhabited (V t)]

/-- The coroutine: it awaits the commands in turn and collects their values; an exception of `await_resume`
    ends it. -/
def run : List (Command ε π V) → Report ε V
  | [] => { resumes := [], outcome := some (.ok []) }
  | c :: cs =>
      match c.coAwait with
      | (0, _) => { resumes := [0], outcome := none }
      | (k, .error e) => { resumes := [k], outcome := some (.error e) }
      | (k, .ok v) =>
          { resumes := k :: (run cs).resumes, outcome := (run cs).outcome.map (·.map (v :: ·)) }

/-- **What it should do**: run the commands in sequence, with exceptions. -/
def sequential (cs : List (Command ε π V)) : Except ε (List (Value V)) := cs.mapM Command.result

/-- The commands that are awaited: all up to the first that fails. -/
def awaited : List (Command ε π V) → Nat
  | [] => 0
  | c :: cs => if c.result.isOk then awaited cs + 1 else 1

/-! ## One `co_await` -/

/-- **Success.** The coroutine is resumed once, with the value. -/
theorem coAwait_succeeded {c : Command ε π V} {v : Value V} (h : c.result = .ok v) :
    c.coAwait = (1, .ok v) := by
  cases c with
  | value t future pool =>
      cases future with
      | ok x => cases h; cases pool <;> rfl
      | error e => cases h
  | void future pool =>
      cases future with
      | ok x => cases h; cases pool <;> rfl
      | error e => cases h

/-- **Failure, primary template.** The exception that `rethrow_exception` throws is no `std::exception_ptr`: it
    leaves the continuation before `handle.resume()`. -/
theorem coAwait_failed_value (t : T) (e : ε) (pool : Option π) :
    (Command.value (V := V) t (.error e) pool).coAwait = (0, .ok (.of t default)) := by
  cases pool <;> rfl

/-- **Failure, specialisation.** `wait` does not throw, so the failure is not noticed. -/
theorem coAwait_failed_void (e : ε) (pool : Option π) :
    (Command.void (V := V) (.error e) pool).coAwait = (1, .ok .void) := by
  cases pool <;> rfl

/-- `await_resume` never throws: nothing ever sets `_exception`. -/
theorem coAwait_ne_error (c : Command ε π V) (e : Thrown ε) : c.coAwait.2 ≠ .error e := by
  cases hres : c.result with
  | ok v => rw [coAwait_succeeded hres]; nofun
  | error d =>
      cases c with
      | value t future pool =>
          cases future with
          | ok x => cases hres
          | error d => rw [coAwait_failed_value]; nofun
      | void future pool =>
          cases future with
          | ok x => cases hres
          | error d => rw [coAwait_failed_void]; nofun

/-- Where the continuation runs makes no difference. -/
theorem coAwait_withPool (c : Command ε π V) (pool : Option π) : (c.withPool pool).coAwait = c.coAwait := by
  cases c with
  | value t future p => cases future <;> cases p <;> cases pool <;> rfl
  | void future p => cases future <;> cases p <;> cases pool <;> rfl

/-! ## The whole coroutine -/

theorem run_withPool (cs : List (Command ε π V)) (pool : Option π) : run (cs.map (·.withPool pool)) = run cs := by
  induction cs with
  | nil => rfl
  | cons c cs ih => simp only [List.map_cons, run, coAwait_withPool, ih]

/-- A coroutine over these awaiters never ends with an exception. -/
theorem run_ne_error (cs : List (Command ε π V)) (e : Thrown ε) : (run cs).outcome ≠ some (.error e) := by
  induction cs with
  | nil => nofun
  | cons c cs ih =>
      have hne := coAwait_ne_error c
      simp only [run]
      split
      · nofun
      · next d _ heq => exact absurd (congrArg Prod.snd heq) (hne d)
      · intro hout
        obtain ⟨r, hr, hmap⟩ := Option.map_eq_some_iff.mp hout
        cases r with
        | ok vs => cases hmap
        | error d => cases hmap; exact ih hr

omit [∀ t, Inhabited (V t)] in
theorem sequential_cons (c : Command ε π V) (cs : List (Command ε π V)) :
    sequential (c :: cs) = c.result.bind fun v => (sequential cs).map (v :: ·) := by
  simp only [sequential, List.mapM_cons]
  cases c.result with
  | error e => rfl
  | ok v => cases List.mapM Command.result cs <;> rfl

/-- While nothing fails the coroutine does what it should. -/
theorem run_succeeded (cs : List (Command ε π V)) (h : ∀ c ∈ cs, c.succeeded) :
    (run cs).resumes = List.replicate (awaited cs) 1 ∧
    (run cs).outcome = some ((sequential cs).mapError .ordinary) := by
  induction cs with
  | nil => exact ⟨rfl, rfl⟩
  | cons c cs ih =>
      obtain ⟨hresumes, hout⟩ := ih fun d hd => h d (List.mem_cons_of_mem _ hd)
      have hc := h c List.mem_cons_self
      unfold Command.succeeded at hc
      cases hres : c.result with
      | ok v =>
          have hawaited : awaited (c :: cs) = awaited cs + 1 := by simp [awaited, hc]
          constructor
          · simp only [run, coAwait_succeeded hres, hresumes, hawaited, List.replicate_succ]
          · simp only [run, coAwait_succeeded hres, hout, sequential_cons, hres, Option.map_some]
            cases sequential cs <;> rfl
      | error e =>
          rw [hres] at hc
          cases hc

omit [∀ t, Inhabited (V t)] in
/-- The sequence ends with the exception of its first failed future. -/
theorem sequential_failed (cs : List (Command ε π V)) (h : ∃ c ∈ cs, ¬ c.succeeded) :
    ∃ e, sequential cs = .error e := by
  induction cs with
  | nil => simp at h
  | cons c cs ih =>
      rw [sequential_cons]
      cases hres : c.result with
      | error e => exact ⟨e, rfl⟩
      | ok v =>
          have hc : c.succeeded := by rw [Command.succeeded, hres]; rfl
          obtain ⟨d, hd, hfail⟩ := h
          rcases List.mem_cons.mp hd with rfl | hd
          · exact absurd hc hfail
          · obtain ⟨e, he⟩ := ih ⟨d, hd, hfail⟩
            exact ⟨e, by rw [he]; rfl⟩

/-- **The law**: each `co_await` that is reached resumes the coroutine exactly once, the coroutine ends as the
    sequence of its commands does, and the choice between pool and no pool makes no difference. -/
structure Law (cs : List (Command ε π V)) : Prop where
  resumed  : (run cs).resumes = List.replicate (awaited cs) 1
  outcome  : (run cs).outcome = some ((sequential cs).mapError .ordinary)
  pool_ptr : ∀ pool, run (cs.map (·.withPool pool)) = run cs

/-- **The law holds exactly when no future fails.** For every sequence of commands of any result types, with or
    without a pool. -/
theorem law_iff (cs : List (Command ε π V)) : Law cs ↔ ∀ c ∈ cs, c.succeeded := by
  refine ⟨?_, ?_⟩
  · intro hlaw
    by_contra hfail
    obtain ⟨e, he⟩ := sequential_failed cs (by simpa using hfail)
    have hout := hlaw.outcome
    rw [he] at hout
    exact run_ne_error cs _ hout
  · intro h
    obtain ⟨hresumes, hout⟩ := run_succeeded cs h
    exact ⟨hresumes, hout, run_withPool cs⟩

end Run

/-- A `get` that fails hangs the coroutine, and an `hmset` that fails goes unnoticed. -/
theorem law_fails :
    ¬ Law [Command.value (π := Unit) (V := fun _ : Unit => String) () (.error "WRONGTYPE") none] ∧
    ¬ Law [Command.void (π := Unit) (V := fun _ : Unit => String) (.error "WRONGTYPE") none] :=
  ⟨fun hlaw => Option.some_ne_none _ hlaw.outcome.symm, fun hlaw => nomatch Option.some.inj hlaw.outcome⟩

end AsyncCpp.Redis
