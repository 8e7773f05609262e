import AsyncCpp.Lib.Machine
import AsyncCpp.Lib.Resumable
import AsyncCpp.Redis.FutureAwaiter
import Mathlib.Data.List.Infix

/-!
# `Redis.Program` — `test_redis++.cpp` as it runs: `main`, the redis client and the continuations

`main` makes a pool of three threads and the client, and drives the coroutine in `blockingWait`. A `co_await` has a
future whose reply the client delivers at any time; the continuation that `await_suspend` gives to `then` is run by a
thread of the pool, or for `hgetall`, which is awaited without the pool, by a thread of its own. Every order of the
steps of `main`, of the client and of these threads is a run.

A continuation that finds the coroutine elsewhere than at its own `co_await` sets `fault`.

## Assumptions
- boost: the continuation is posted once, when the reply is there and `then` has been called; the threads of the pool
  take the continuations in order; the destructor of the pool waits until they have returned.
- folly: a coroutine is resumed by the executor of its task, here the one that `blockingWait` drives on the thread of `main`.

## Contents
- The calls, their awaiters, the coroutine.
- `Program`, `step`; `program r`, the machine for the replies `r`.
- `Moved`, `step_moved`: what a step can do.
-/

namespace AsyncCpp.RedisProgram

open Redis
open Resumable (Record)

/-! ## The calls -/

/-- The member functions of the client that are called. -/
inductive Call
  | hmset
  | set
  | get
  | hgetall
deriving DecidableEq

abbrev Answer : Call → Type
  | .hmset   => Unit
  | .set     => Bool
  | .get     => Option String
  | .hgetall => List String

instance (c : Call) : Inhabited (Answer c) :=
  match c with
  | .hmset   => inferInstanceAs (Inhabited Unit)
  | .set     => inferInstanceAs (Inhabited Bool)
  | .get     => inferInstanceAs (Inhabited (Option String))
  | .hgetall => inferInstanceAs (Inhabited (List String))

/-- How the futures complete. -/
structure Replies (ε : Type) where
  hmset   : Future ε Unit
  set     : Future ε Bool
  get     : Future ε (Option String)
  hgetall : Future ε (List String)

variable {ε : Type}

/-- The awaiter of a call. There is one pool. -/
abbrev Awaiter (ε : Type) : Call → Type
  | .hmset   => FutureAwaiterVoid ε Unit
  | .set     => FutureAwaiter ε Unit Bool
  | .get     => FutureAwaiter ε Unit (Option String)
  | .hgetall => FutureAwaiter ε Unit (List String)

namespace Awaiter

/-- `FutureAwaiter{std::move(res), &pool}`, and the last one without the pool. -/
def construct (r : Replies ε) : (c : Call) → Awaiter ε c
  | .hmset   => FutureAwaiterVoid.construct r.hmset (some ())
  | .set     => FutureAwaiter.construct r.set (some ())
  | .get     => FutureAwaiter.construct r.get (some ())
  | .hgetall => FutureAwaiter.construct r.hgetall none

/-- `_pool_ptr != nullptr` -/
def pooled : {c : Call} → Awaiter ε c → Bool
  | .hmset, a   => a._pool_ptr.isSome
  | .set, a     => a._pool_ptr.isSome
  | .get, a     => a._pool_ptr.isSome
  | .hgetall, a => a._pool_ptr.isSome

/-- What the continuation makes of the awaiter. -/
def continued : {c : Call} → Awaiter ε c → Awaiter ε c
  | .hmset, a   => FutureAwaiterVoid.await_suspend a
  | .set, a     => FutureAwaiter.await_suspend a
  | .get, a     => FutureAwaiter.await_suspend a
  | .hgetall, a => FutureAwaiter.await_suspend a

/-- How often `handle.resume()` was called. -/
def resumed : {c : Call} → Awaiter ε c → Nat
  | .hmset, a   => FutureAwaiterVoid.resumed a
  | .set, a     => FutureAwaiter.resumed a
  | .get, a     => FutureAwaiter.resumed a
  | .hgetall, a => FutureAwaiter.resumed a

def await_resume : {c : Call} → Awaiter ε c → Except (Thrown ε) (Answer c)
  | .hmset, a   => FutureAwaiterVoid.await_resume a
  | .set, a     => FutureAwaiter.await_resume a
  | .get, a     => FutureAwaiter.await_resume a
  | .hgetall, a => FutureAwaiter.await_resume a

end Awaiter

/-! ## The coroutine -/

/-- `folly::coro::Task`; a note is a line on `std::cout`. -/
abbrev Task (ε : Type) := Resumable Answer String (Thrown ε)

def await (c : Call) : Task ε (Answer c) := .ask c .done

def cout (line : String) : Task ε Unit := .note line (.done ())

def cout_each : List String → Task ε Unit
  | []       => pure ()
  | d :: ds => do
      cout d
      cout_each ds

/-- The lambda in `main`. -/
def lambda : Task ε Unit := do
  let _ ← await .hmset
  let flag ← await .set
  if flag then
    cout "set key success!!!"
  let data ← await .get
  match data with
  | some value => cout ("name:" ++ value)
  | none       => pure ()
  let hgetall_data ← await .hgetall
  cout_each hgetall_data

/-- The calls that were made and the lines that were written. -/
structure Trace where
  called : List Call := []
  cout   : List String := []
deriving DecidableEq

def record : Record Call String Trace where
  asked c t := { t with called := t.called ++ [c] }
  noted line t := { t with cout := t.cout ++ [line] }

/-! ## The program -/

/-- A `co_await`: the awaiter that was constructed, and what the coroutine does with the result. -/
structure Frame (ε : Type) where
  call    : Call
  awaiter : Awaiter ε call
  next    : Answer call → Task ε Unit

inductive CoroPc (ε : Type)
  /-- Between two awaits, with what is left of the task. -/
  | running (rest : Task ε Unit)
  /-- The call is made and `then` not yet called; the reply may be there already. -/
  | suspending (f : Frame ε) (replied : Bool)
  /-- Suspended; the reply is outstanding. -/
  | pending (f : Frame ε)
  /-- Suspended; the continuation is the `n`-th. -/
  | attached (n : Nat) (f : Frame ε)
  /-- Suspended; the continuation has ended without `handle.resume()`. -/
  | abandoned (f : Frame ε)
  /-- In the queue that `blockingWait` takes from. -/
  | resumed (f : Frame ε)
  | finished (end_ : Except (Thrown ε) Unit)

inductive JobPc
  | posted
  /-- A thread has called the continuation. -/
  | called
  /-- At the end of it. -/
  | returns
  | ended
deriving DecidableEq

/-- A continuation. -/
structure Job where
  pooled : Bool
  /-- The thread of the pool that has taken it. -/
  thread : Option Nat := none
  pc     : JobPc := .posted

inductive MainPc
  /-- In `blockingWait`. -/
  | blockingWait
  /-- At the destructors behind `return 0`. -/
  | destructors
  | returned
  /-- An exception has left `main`. -/
  | terminated
deriving DecidableEq

structure Program (ε : Type) where
  main  : MainPc := .blockingWait
  coro  : CoroPc ε
  /-- Every continuation that was posted. -/
  jobs  : List Job := []
  trace : Trace := {}
  fault : Bool := false

/-- `pool(3)` -/
def pool_size : Nat := 3

/-- Thread `i` of the pool is in a continuation. -/
def Program.busy (s : Program ε) (i : Nat) : Bool :=
  s.jobs.any fun job => job.thread = some i && (job.pc = .called || job.pc = .returns)

/-- The continuation that the pool runs next. -/
def Program.next (s : Program ε) : Option Nat := s.jobs.findIdx? fun job => job.pooled && job.pc = .posted

/-- No thread of the pool has anything left to do. -/
def Program.joined (s : Program ε) : Bool := s.jobs.all fun job => !job.pooled || job.pc = .ended

/-- The reply is there, and `then` was called. -/
def Program.post (s : Program ε) (f : Frame ε) : Program ε :=
  { s with coro := .attached s.jobs.length f, jobs := s.jobs ++ [{ pooled := f.awaiter.pooled }] }

variable (r : Replies ε)

/-- The next statement of the coroutine; `none` while it is suspended. -/
def coroStep (s : Program ε) : Option (Program ε) :=
  match s.coro with
  | .running (.done a) => some { s with coro := .finished (.ok a) }
  | .running (.leave e) => some { s with coro := .finished (.error e) }
  | .running (.note line rest) => some { s with coro := .running rest, trace := record.noted line s.trace }
  | .running (.ask c next) =>
      some { s with coro := .suspending ⟨c, Awaiter.construct r c, next⟩ false, trace := record.asked c s.trace }
  | .suspending f true => some (s.post f)
  | .suspending f false => some { s with coro := .pending f }
  | .pending _ | .attached _ _ | .abandoned _ => none
  | .resumed f =>
      match f.awaiter.await_resume with
      | .ok a    => some { s with coro := .running (f.next a) }
      | .error e => some { s with coro := .running (.leave e) }
  | .finished (.ok _) => some { s with main := .destructors }
  -- nothing catches it
  | .finished (.error _) => some { s with main := .terminated }

/-- The next statement of `main`; `none` while it waits. -/
def mainStep (s : Program ε) : Option (Program ε) :=
  match s.main with
  | .blockingWait => coroStep r s
  | .destructors => if s.joined then some { s with main := .returned } else none
  | .returned | .terminated => none

/-- The thread of continuation `n` goes on. -/
def goes (s : Program ε) (n : Nat) (job : Job) : Program ε := { s with jobs := s.jobs.set n job }

/-- The continuation as it has run to its end, or to the exception that leaves it. -/
def Frame.continued (f : Frame ε) : Frame ε := { f with awaiter := f.awaiter.continued }

/-- Continuation `n` runs. -/
def run (s : Program ε) (n : Nat) (job : Job) : Program ε :=
  let s := goes s n { job with pc := .returns }
  match s.coro with
  | .attached m f =>
      if m ≠ n then { s with fault := true }
      else if f.continued.awaiter.resumed = 0 then { s with coro := .abandoned f.continued }
      else { s with coro := .resumed f.continued }
  | _ => { s with fault := true }

inductive Action
  | main
  /-- The client has the reply that is outstanding. -/
  | replies
  /-- Thread `i` of the pool takes the next continuation. -/
  | take (i : Nat)
  /-- A thread is made for continuation `n`. -/
  | launch (n : Nat)
  /-- Continuation `n` runs, -/
  | run (n : Nat)
  /-- and returns. -/
  | finish (n : Nat)

def step (s : Program ε) (a : Action) : Option (Program ε) :=
  if s.main = .returned ∨ s.main = .terminated then none else
  match a with
  | .main => mainStep r s
  | .replies =>
      match s.coro with
      | .suspending f false => some { s with coro := .suspending f true }
      | .pending f => some (s.post f)
      | _ => none
  | .take i =>
      if i < pool_size ∧ s.busy i = false then
        s.next.bind fun n => s.jobs[n]?.map fun job => goes s n { job with thread := i, pc := .called }
      else none
  | .launch n =>
      s.jobs[n]?.bind fun job =>
        if job.pooled = false ∧ job.pc = .posted then some (goes s n { job with pc := .called }) else none
  | .run n => s.jobs[n]?.bind fun job => if job.pc = .called then some (run s n job) else none
  | .finish n => s.jobs[n]?.bind fun job => if job.pc = .returns then some (goes s n { job with pc := .ended }) else none

/-- The program, for the replies that come. -/
def program : Machine (Program ε) Action where
  start := { coro := .running lambda }
  step := step r

/-! ## What a step can do -/

/-- The coroutine takes a statement. -/
inductive CoroMoved (s : Program ε) : Program ε → Prop
  | done {a} (hat : s.coro = .running (.done a)) : CoroMoved s { s with coro := .finished (.ok a) }
  | leave {e} (hat : s.coro = .running (.leave e)) : CoroMoved s { s with coro := .finished (.error e) }
  | note {line rest} (hat : s.coro = .running (.note line rest)) :
      CoroMoved s { s with coro := .running rest, trace := record.noted line s.trace }
  | ask {c next} (hat : s.coro = .running (.ask c next)) :
      CoroMoved s { s with coro := .suspending ⟨c, Awaiter.construct r c, next⟩ false, trace := record.asked c s.trace }
  | suspend {f} (hat : s.coro = .suspending f false) : CoroMoved s { s with coro := .pending f }
  | post {f} (hat : s.coro = .suspending f true) : CoroMoved s (s.post f)
  | resume {f a} (hat : s.coro = .resumed f) (ha : f.awaiter.await_resume = .ok a) :
      CoroMoved s { s with coro := .running (f.next a) }
  | rethrow {f e} (hat : s.coro = .resumed f) (he : f.awaiter.await_resume = .error e) :
      CoroMoved s { s with coro := .running (.leave e) }
  | returns {a} (hat : s.coro = .finished (.ok a)) : CoroMoved s { s with main := .destructors }
  | terminates {e} (hat : s.coro = .finished (.error e)) : CoroMoved s { s with main := .terminated }

/-- **The steps of the program**, by who takes them. -/
inductive Moved (s : Program ε) : Action → Program ε → Prop
  | coro {t} (hpc : s.main = .blockingWait) (hm : CoroMoved r s t) : Moved s .main t
  | joined (hpc : s.main = .destructors) (hj : s.joined = true) : Moved s .main { s with main := .returned }
  | replied {f} (hat : s.coro = .suspending f false) : Moved s .replies { s with coro := .suspending f true }
  | post {f} (hat : s.coro = .pending f) : Moved s .replies (s.post f)
  | take {i n job} (hi : i < pool_size) (hbusy : s.busy i = false) (hjob : s.jobs[n]? = some job)
      (hpooled : job.pooled = true) (hposted : job.pc = .posted) :
      Moved s (.take i) (goes s n { job with thread := some i, pc := .called })
  | launch {n job} (hjob : s.jobs[n]? = some job) (hpooled : job.pooled = false) (hposted : job.pc = .posted) :
      Moved s (.launch n) (goes s n { job with pc := .called })
  | run {n job} (hjob : s.jobs[n]? = some job) (hcalled : job.pc = .called) : Moved s (.run n) (run s n job)
  | finish {n job} (hjob : s.jobs[n]? = some job) (hreturns : job.pc = .returns) :
      Moved s (.finish n) (goes s n { job with pc := .ended })

variable {r : Replies ε} {s s' : Program ε}

theorem coroStep_moved (hs : coroStep r s = some s') : CoroMoved r s s' := by
  unfold coroStep at hs
  split at hs
  · next hat => cases hs; exact .done hat
  · next hat => cases hs; exact .leave hat
  · next hat => cases hs; exact .note hat
  · next hat => cases hs; exact .ask hat
  · next hat => cases hs; exact .post hat
  · next hat => cases hs; exact .suspend hat
  · cases hs
  · cases hs
  · cases hs
  · next hat =>
    split at hs
    · next ha => cases hs; exact .resume hat ha
    · next he => cases hs; exact .rethrow hat he
  · next hat => cases hs; exact .returns hat
  · next hat => cases hs; exact .terminates hat

theorem mainStep_moved (hs : mainStep r s = some s') : Moved r s .main s' := by
  unfold mainStep at hs
  split at hs
  · next hpc => exact .coro hpc (coroStep_moved hs)
  · next hpc =>
    split at hs
    · next hj => cases hs; exact .joined hpc hj
    · cases hs
  · cases hs
  · cases hs

/-- The pool runs a continuation that was given to it and that no thread has taken. -/
theorem next_posted {n : Nat} (h : s.next = some n) :
    ∃ job, s.jobs[n]? = some job ∧ job.pooled = true ∧ job.pc = .posted := by
  obtain ⟨hlt, hjob, -⟩ := List.findIdx?_eq_some_iff_getElem.mp h
  simp only [Bool.and_eq_true, decide_eq_true_eq] at hjob
  exact ⟨s.jobs[n], List.getElem?_eq_getElem hlt, hjob⟩

theorem step_moved {a : Action} (hs : step r s a = some s') : Moved r s a s' := by
  unfold step at hs
  split at hs
  · cases hs
  cases a with
  | main => exact mainStep_moved hs
  | replies =>
      dsimp only at hs
      split at hs
      · next hat => cases hs; exact .replied hat
      · next hat => cases hs; exact .post hat
      · cases hs
  | take i =>
      dsimp only at hs
      split at hs
      · next hidle =>
        obtain ⟨n, hnext, hmap⟩ := Option.bind_eq_some_iff.mp hs
        obtain ⟨job, hjob, rfl⟩ := Option.map_eq_some_iff.mp hmap
        obtain ⟨job', hjob', hpooled, hposted⟩ := next_posted hnext
        obtain rfl : job' = job := Option.some.inj (hjob'.symm.trans hjob)
        exact .take hidle.1 hidle.2 hjob hpooled hposted
      · cases hs
  | launch n =>
      obtain ⟨job, hjob, hif⟩ := Option.bind_eq_some_iff.mp hs
      split at hif
      · next hready => cases hif; exact .launch hjob hready.1 hready.2
      · cases hif
  | run n =>
      obtain ⟨job, hjob, hif⟩ := Option.bind_eq_some_iff.mp hs
      split at hif
      · next hcalled => cases hif; exact .run hjob hcalled
      · cases hif
  | finish n =>
      obtain ⟨job, hjob, hif⟩ := Option.bind_eq_some_iff.mp hs
      split at hif
      · next hreturns => cases hif; exact .finish hjob hreturns
      · cases hif

end AsyncCpp.RedisProgram
