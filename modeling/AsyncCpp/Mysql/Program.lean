import AsyncCpp.Asio.PoolLanes
import AsyncCpp.Mysql.Coroutine

/-!
# `Mysql.Program` — `test_boost_mysql.cpp` as it runs: `main`, the pool's threads, and MySQL

`main` makes a pool of eight contexts, starts it, drives the coroutine in `blockingWait`, and stops the pool. Each
`co_await` constructs an awaiter and initiates an operation on the first context; what the operation delivers is written
by its handler, which the thread of that context runs, and which puts the coroutine back into `main`'s queue. Every
order of the steps of `main`, of the threads and of the server is a run.

A handler that finds the coroutine elsewhere than at its own `co_await` sets `fault`.

## Assumptions
- asio and `boost::mysql`: an operation writes its `error_info` into the object it was given, and posts its handler to the
  context of the connection or of the resolver, once.
- folly: a coroutine is resumed by the executor of its task, here the one that `blockingWait` drives on the thread of `main`.

## Contents
- `Frame`, `CoroPc`, `Program`.
- `mainStep`, `run`, `step`; `program o`, the machine for what the steps deliver.
- `Moved`, `step_moved`: what a step can do.
-/

namespace AsyncCpp.MysqlProgram

open Mysql Pool

/-! ## The program -/

/-- A coroutine of a step that has constructed its awaiter, and what the task does with the result. -/
structure Frame where
  step    : Step
  members : Members (Result step)
  next    : Answer step → Task Unit

inductive CoroPc
  /-- Between two awaits, with what is left of the task. -/
  | running (rest : Task Unit)
  /-- In `await_suspend`, before the operation is initiated. -/
  | suspending (f : Frame)
  /-- Suspended; the operation is outstanding. -/
  | pending (f : Frame)
  /-- Suspended; the operation has completed, and its handler is function `n`. -/
  | completed (n : Nat) (f : Frame)
  /-- In the queue that `blockingWait` takes from. -/
  | resumed (f : Frame)
  | finished (end_ : Except Exit Unit)

/-- The function that acts for the coroutine. -/
def CoroPc.held : CoroPc → Option Nat
  | .completed n _ => some n
  | .running _ | .suspending _ | .pending _ | .resumed _ | .finished _ => none

/-- The next statements of a completion handler. -/
inductive HandlerPc
  /-- `m_ec = std::move(ec); m_resultset = std::move(result);` -/
  | stores
  /-- `handle.resume();` -/
  | resumes

inductive MainPc
  /-- `IoContextPool ctx_pool{8}` -/
  | pool
  /-- In `ctx_pool.start()`. -/
  | start
  /-- `auto& ctx = ctx_pool.getIoContext()` -/
  | context
  /-- In `blockingWait`. -/
  | blockingWait
  /-- In `ctx_pool.stop()`. -/
  | stop
  /-- At `return 0`. -/
  | returned
  /-- `exit(status)` was called. -/
  | exited (status : Nat)
  /-- `std::terminate` -/
  | terminated
deriving DecidableEq

/-- The process is over. -/
def MainPc.ended : MainPc → Bool
  | .returned | .exited _ | .terminated => true
  | .pool | .start | .context | .blockingWait | .stop => false

structure Program where
  main    : MainPc := .pool
  system  : System := { pool := {} }
  /-- `ctx` -/
  context : Option Address := none
  coro    : CoroPc
  /-- Every completion handler that was posted, by its number. -/
  jobs    : List (Job HandlerPc) := []
  trace   : Trace := {}
  fault   : Bool := false

variable (o : Outcomes)

/-- The next statement of the coroutine; `none` while it is suspended. -/
def coroStep (s : Program) : Option Program :=
  match s.coro with
  | .running (.done a) => some { s with coro := .finished (.ok a) }
  | .running (.leave e) => some { s with coro := .finished (.error e) }
  | .running (.note n rest) => some { s with coro := .running rest, trace := record.noted n s.trace }
  | .running (.ask q next) =>
      some { s with coro := .suspending ⟨q, { m_result := default }, next⟩, trace := record.asked q s.trace }
  | .suspending f => some { s with coro := .pending f }
  | .pending _ | .completed _ _ => none
  | .resumed f => some { s with coro := .running (f.next ((awaiter f.step).await_resume f.members)) }
  | .finished (.error (.exit status)) => some { s with main := .exited status }
  | .finished (.error .co_return) | .finished (.ok _) => some { s with main := .stop }

/-- The next statement of `main`; `none` while it waits. -/
def mainStep (s : Program) : Option Program :=
  match s.main with
  | .pool =>
      match IoContextPool.make 8 with
      | .ok pool => some { s with system := { pool }, main := .start }
      | .error _ => some { s with main := .terminated }
  | .start =>
      if s.system.caller = .started then some { s with main := .context }
      else (callerStep s.system).map fun system => { s with system := system }
  | .context =>
      match s.system.pool.getIoContext with
      | some (context, pool) =>
          some { s with system := { s.system with pool }, context := context, main := .blockingWait }
      | none => some { s with fault := true, main := .terminated }
  | .blockingWait => coroStep s
  | .stop =>
      if s.system.caller = .stopped then some { s with main := .returned }
      else (callerStep s.system).map fun system => { s with system := system }
  | .returned | .exited _ | .terminated => none

/-- The handler that thread `i` is in. -/
def Program.current (s : Program) (i : Nat) : Option (Nat × Job HandlerPc) :=
  s.system.pool.m_threads[i]?.bind fun th =>
    match th.pc with
    | .running h => s.jobs[h.func]?.map fun job => (h.func, job)
    | _ => none

/-- What is left of a handler to be stored in the members of its awaiter. -/
def HandlerPc.fill (pc : HandlerPc) (step : Step) (m : Members (Result step)) : Members (Result step) :=
  match pc with
  | .stores  => (awaiter step).handler (delivered o step).ec (delivered o step).result m
  | .resumes => m

/-- The next statements of handler `n`. -/
def run (s : Program) (n : Nat) (pc : HandlerPc) : Program :=
  match s.coro, pc with
  | .completed m f, .stores =>
      if m = n then
        { s with coro := .completed n { f with members := HandlerPc.stores.fill o f.step f.members },
                 jobs := s.jobs.modify n fun job => { job with func := .resumes } }
      else { s with fault := true, jobs := s.jobs.modify n fun job => { job with ended := true } }
  | .completed m f, .resumes =>
      if m = n then { s with coro := .resumed f, jobs := s.jobs.modify n fun job => { job with ended := true } }
      else { s with fault := true, jobs := s.jobs.modify n fun job => { job with ended := true } }
  | _, _ => { s with fault := true, jobs := s.jobs.modify n fun job => { job with ended := true } }

inductive Action
  | main
  /-- Thread `i` of the pool calls `run()`, -/
  | enter (i : Nat)
  /-- takes the `n`-th function from the queue, -/
  | dispatch (i n : Nat)
  /-- takes the next step in it, -/
  | run (i : Nat)
  /-- is done with it, -/
  | finish (i : Nat)
  /-- and returns from `run()`. -/
  | leave (i : Nat)
  /-- The operation that is outstanding completes. -/
  | completes

/-- A step of a thread of the pool that is asio's own. -/
def poolStep (s : Program) (a : Pool.Action) : Option Program :=
  (Pool.step s.system a).map fun system => { s with system := system }

def step (s : Program) (a : Action) : Option Program :=
  if s.main.ended then none else
  match a with
  | .main => mainStep s
  | .enter i => poolStep s (.enter i)
  | .dispatch i n => poolStep s (.dispatch i n)
  | .run i => (s.current i).bind fun (n, job) => if job.ended then none else some (run o s n job.func)
  | .finish i => (s.current i).bind fun (_, job) => if job.ended then poolStep s (.finish i) else none
  | .leave i => poolStep s (.leave i)
  | .completes =>
      match s.coro, s.context with
      | .pending f, some context =>
          let members := { f.members with m_additional_info := (delivered o f.step).info }
          some { s with coro := .completed s.jobs.length { f with members }, jobs := s.jobs ++ [⟨.stores, false⟩],
                        system := Executor.add ⟨context⟩ s.jobs.length s.system }
      | _, _ => none

/-- The program, for what the steps deliver. -/
def program : Machine Program Action where
  start := { coro := .running (task o.complete) }
  step := step o

/-! ## What a step can do -/

/-- The coroutine takes a statement. -/
inductive CoroMoved (s : Program) : Program → Prop
  | done {a} (hat : s.coro = .running (.done a)) : CoroMoved s { s with coro := .finished (.ok a) }
  | leave {e} (hat : s.coro = .running (.leave e)) : CoroMoved s { s with coro := .finished (.error e) }
  | note {n rest} (hat : s.coro = .running (.note n rest)) :
      CoroMoved s { s with coro := .running rest, trace := record.noted n s.trace }
  | ask {q next} (hat : s.coro = .running (.ask q next)) :
      CoroMoved s { s with coro := .suspending ⟨q, { m_result := default }, next⟩, trace := record.asked q s.trace }
  | initiate {f} (hat : s.coro = .suspending f) : CoroMoved s { s with coro := .pending f }
  | resume {f} (hat : s.coro = .resumed f) :
      CoroMoved s { s with coro := .running (f.next ((awaiter f.step).await_resume f.members)) }
  | exit {status} (hat : s.coro = .finished (.error (.exit status))) : CoroMoved s { s with main := .exited status }
  | returns {end_} (hat : s.coro = .finished end_) (hend : ∀ status, end_ ≠ .error (.exit status)) :
      CoroMoved s { s with main := .stop }

/-- **The steps of the program**, by who takes them. -/
inductive Moved (s : Program) : Action → Program → Prop
  | pool {pool} (hpc : s.main = .pool) (hpool : IoContextPool.make 8 = .ok pool) :
      Moved s .main { s with system := { pool }, main := .start }
  | start {system} (hpc : s.main = .start) (hc : s.system.caller ≠ .started)
      (hs : Pool.step s.system .caller = some system) : Moved s .main { s with system := system }
  | started (hpc : s.main = .start) (hc : s.system.caller = .started) : Moved s .main { s with main := .context }
  | context {context pool} (hpc : s.main = .context) (hget : s.system.pool.getIoContext = some (context, pool)) :
      Moved s .main { s with system := { s.system with pool }, context := some context, main := .blockingWait }
  | outside (hpc : s.main = .context) (hget : s.system.pool.getIoContext = none) :
      Moved s .main { s with fault := true, main := .terminated }
  | coro {t} (hpc : s.main = .blockingWait) (hm : CoroMoved s t) : Moved s .main t
  | stop {system} (hpc : s.main = .stop) (hc : s.system.caller ≠ .stopped)
      (hs : Pool.step s.system .caller = some system) : Moved s .main { s with system := system }
  | stopped (hpc : s.main = .stop) (hc : s.system.caller = .stopped) : Moved s .main { s with main := .returned }
  | enter {i system} (hs : Pool.step s.system (.enter i) = some system) : Moved s (.enter i) { s with system := system }
  | dispatch {i n system} (hs : Pool.step s.system (.dispatch i n) = some system) :
      Moved s (.dispatch i n) { s with system := system }
  | run {i n pc} (hcur : s.current i = some (n, ⟨pc, false⟩)) : Moved s (.run i) (run o s n pc)
  | finish {i n pc system} (hcur : s.current i = some (n, ⟨pc, true⟩))
      (hs : Pool.step s.system (.finish i) = some system) : Moved s (.finish i) { s with system := system }
  | leave {i system} (hs : Pool.step s.system (.leave i) = some system) : Moved s (.leave i) { s with system := system }
  | completes {f context} (hat : s.coro = .pending f) (hcontext : s.context = some context) :
      Moved s .completes { s with
        coro := .completed s.jobs.length
          { f with members := { f.members with m_additional_info := (delivered o f.step).info } },
        jobs := s.jobs ++ [⟨.stores, false⟩], system := Executor.add ⟨context⟩ s.jobs.length s.system }

variable {o : Outcomes} {s s' : Program}

theorem coroStep_moved (hs : coroStep s = some s') : CoroMoved s s' := by
  unfold coroStep at hs
  split at hs
  · next hat => cases hs; exact .done hat
  · next hat => cases hs; exact .leave hat
  · next hat => cases hs; exact .note hat
  · next hat => cases hs; exact .ask hat
  · next hat => cases hs; exact .initiate hat
  · cases hs
  · cases hs
  · next hat => cases hs; exact .resume hat
  · next hat => cases hs; exact .exit hat
  · next hat => cases hs; exact .returns hat (by simp)
  · next hat => cases hs; exact .returns hat (by simp)

theorem mainStep_moved (hs : mainStep s = some s') : Moved o s .main s' := by
  unfold mainStep at hs
  split at hs
  · next hpc =>
    rw [IoContextPool.make_of_pos (by decide)] at hs
    cases hs
    exact .pool hpc (IoContextPool.make_of_pos (by decide))
  · next hpc =>
    split at hs
    · next hc => cases hs; exact .started hpc hc
    · next hc =>
      obtain ⟨system, hsystem, rfl⟩ := Option.map_eq_some_iff.mp hs
      exact .start hpc hc hsystem
  · next hpc =>
    split at hs
    · next hget => cases hs; exact .context hpc hget
    · next hget => cases hs; exact .outside hpc hget
  · next hpc => exact .coro hpc (coroStep_moved hs)
  · next hpc =>
    split at hs
    · next hc => cases hs; exact .stopped hpc hc
    · next hc =>
      obtain ⟨system, hsystem, rfl⟩ := Option.map_eq_some_iff.mp hs
      exact .stop hpc hc hsystem
  · cases hs
  · cases hs
  · cases hs

/-- A process that is over takes no step. -/
theorem step_over {a : Action} (hs : step o s a = some s') : s.main.ended = false := by
  unfold step at hs
  split at hs
  · cases hs
  · next hover => simpa using hover

theorem step_moved {a : Action} (hs : step o s a = some s') : Moved o s a s' := by
  have hover := step_over hs
  unfold step at hs
  rw [hover] at hs
  simp only [Bool.false_eq_true, if_false] at hs
  cases a with
  | main => exact mainStep_moved hs
  | enter i =>
      obtain ⟨system, hsystem, rfl⟩ := Option.map_eq_some_iff.mp hs
      exact .enter hsystem
  | dispatch i n =>
      obtain ⟨system, hsystem, rfl⟩ := Option.map_eq_some_iff.mp hs
      exact .dispatch hsystem
  | leave i =>
      obtain ⟨system, hsystem, rfl⟩ := Option.map_eq_some_iff.mp hs
      exact .leave hsystem
  | run i =>
      obtain ⟨⟨n, pc, ended⟩, hcur, hrun⟩ := Option.bind_eq_some_iff.mp hs
      cases ended with
      | true => cases hrun
      | false => cases hrun; exact .run hcur
  | finish i =>
      obtain ⟨⟨n, pc, ended⟩, hcur, hfinish⟩ := Option.bind_eq_some_iff.mp hs
      cases ended with
      | false => cases hfinish
      | true =>
          obtain ⟨system, hsystem, rfl⟩ := Option.map_eq_some_iff.mp hfinish
          exact .finish hcur hsystem
  | completes =>
      dsimp only at hs
      split at hs
      · next hat hcontext => cases hs; exact .completes hat hcontext
      · cases hs

end AsyncCpp.MysqlProgram
