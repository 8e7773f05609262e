import AsyncCpp.Asio.PoolLanes
import AsyncCpp.Asio.AcceptLoop
import AsyncCpp.Echo.Session

/-!
# `Asio.ServerProgram` — the TCP server: `main`, its pool, its accept loop and its sessions

The whole process, put together from its parts: the pool with its threads, `TcpServer::start` on the thread of
`main`, and one `TcpServer::session` for each connection, its steps carried out by functions that are posted to
the context of its socket. Each such function is a `Job`; its number is what the queue of the context holds.

## Assumptions
* of asio: as for the pool. An operation completes once; its completion handler is then posted to the context of
  the acceptor, the socket or the timer that it was started on.
* of folly: `scheduleOn(&executor).start()` adds the first part of a task to the executor. When a completion handler
  calls `handle.resume()`, the rest of the task is added to the executor of that task. `blockingWait` has an executor
  of its own, whose functions the waiting thread runs, and rethrows what the task has thrown.

## Contents
- `Func`, `Program`, its `step`; `program pool_size scripts`, the machine.
- `Moved`, the steps.
-/

namespace AsyncCpp.TcpServerProgram

open Machine Pool

/-! ## Functions, and what they are for -/

/-- A function in the queue of a context. -/
inductive Func
  /-- The completion handler of `async_accept`. -/
  | accepted (error : Option Accept.ErrorCode)
  /-- Session `j` from its beginning to its first await. -/
  | begin_ (j : Nat)
  /-- The completion handler of an operation of session `j`. -/
  | completed (j : Nat)
  /-- Session `j` from the await that is over to the next one. -/
  | resume (j : Nat)
deriving DecidableEq

/-- For which coroutine it acts: for session `j`, or for `TcpServer::start` (`none`). -/
def Func.owner : Func → Option Nat
  | .accepted _ => none
  | .begin_ j | .completed j | .resume j => some j

/-- Where `co_await async_accept(..)` is. -/
inductive AcceptAwait
  /-- Nowhere. -/
  | idle
  /-- The operation is outstanding. -/
  | pending
  /-- It is over, and its completion handler is function `n`. -/
  | held (n : Nat)
  /-- The rest of `start` is in the queue of `blockingWait`. -/
  | resumed (error : Option Accept.ErrorCode)
deriving DecidableEq

/-- Where a session is. -/
inductive TaskAwait
  /-- In an operation that is outstanding. -/
  | pending
  /-- Function `n` acts for it. -/
  | held (n : Nat)
  /-- It has returned. -/
  | returned
deriving DecidableEq

/-- The coroutine of a session. -/
structure Task where
  await_  : TaskAwait
  session : TcpSession.Session

def AcceptAwait.held? : AcceptAwait → Option Nat
  | .held n => some n
  | .idle | .pending | .resumed _ => none

def Task.held? (t : Task) : Option Nat :=
  match t.await_ with
  | .held n => some n
  | .pending | .returned => none

/-! ## The program -/

inductive MainPc
  /-- `IoContextPool pool(pool_size)` -/
  | pool
  /-- `std::thread thd(..)` -/
  | spawn
  /-- `TcpServer server(pool)` -/
  | server
  /-- In `blockingWait(server.start())`. -/
  | blockingWait
  /-- An exception leaves the block in which `thd` lives. -/
  | unwind
  /-- In the `catch` block; `none`: with a `system_error`, whose text is that of its code. -/
  | caught (what : Option String)
  /-- At `return 0`. -/
  | returned
  /-- `std::terminate` -/
  | terminated
deriving DecidableEq

/-- The process is over. -/
def MainPc.ended : MainPc → Bool
  | .returned | .terminated => true
  | _ => false

/-- The thread `thd`. -/
inductive ThdPc
  | notStarted
  /-- In `pool.start()`. -/
  | start
  /-- Out of its function. -/
  | exited
deriving DecidableEq

def ThdPc.joinable : ThdPc → Bool
  | .start | .exited => true
  | .notStarted      => false

structure Program where
  main   : MainPc := .pool
  thd    : ThdPc := .notStarted
  system : System := { pool := {} }
  server : Accept.TcpServer := { m_pool := {} }
  accept : AcceptAwait := .idle
  /-- Every function that was made, by its number. -/
  jobs   : List (Job Func) := []
  /-- The coroutines of the sessions, in the order in which they were started. -/
  tasks  : List Task := []
  /-- What `main` has logged after `"Exception: "`. -/
  log    : List (Option String) := []
  /-- An executor was used that is not in the map. -/
  fault  : Bool := false

variable (scripts : Nat → TcpSession.Script)

namespace Program

/-- The context on which a coroutine is at home: that of the acceptor, or of the session's socket. -/
def home (s : Program) : Option Nat → Option Address
  | none   => s.server.acceptor
  | some j => s.server.sessions[j]?.map Accept.Session.socket

/-- The function that acts for a coroutine. -/
def held (s : Program) : Option Nat → Option Nat
  | none   => s.accept.held?
  | some j => s.tasks[j]?.bind Task.held?

/-- The executor that session `j` was scheduled on. -/
def executor (s : Program) (j : Nat) : Option Executor :=
  s.server.sessions[j]?.bind fun x =>
    (s.server.m_executor_map.find? fun e => e.node == x.executor).map Accept.Entry.executor

/-- A new function is added to an executor. -/
def post (s : Program) (e : Executor) (f : Func) : Program :=
  { s with system := e.add s.jobs.length s.system, jobs := s.jobs ++ [⟨f, false⟩] }

def setTask (s : Program) (j : Nat) (t : Task) : Program := { s with tasks := s.tasks.set j t }

/-- The code of function `n` is over. -/
def endCode (s : Program) (n : Nat) : Program :=
  { s with jobs := s.jobs.modify n fun job => { job with ended := true } }

/-- The function that thread `i` is in. -/
def current (s : Program) (i : Nat) : Option (Nat × Job Func) :=
  s.system.pool.m_threads[i]?.bind fun th =>
    match th.pc with
    | .running h => s.jobs[h.func]?.map fun job => (h.func, job)
    | _ => none

/-- A statement of `TcpServer::start`, whose `m_pool` is the pool. -/
def start (s : Program) (a : Accept.Action) : Option Program :=
  (Accept.step { s.server with m_pool := s.system.pool } a).map fun t =>
    { s with server := t, system := { s.system with pool := t.m_pool } }

/-- `session(..).scheduleOn(..).start()`, after the session was made. -/
def schedule (s : Program) : Program :=
  match s.executor s.tasks.length with
  | some e =>
      let t : Task := ⟨.held s.jobs.length, (TcpSession.session (scripts s.tasks.length)).start⟩
      { s with tasks := s.tasks ++ [t] }.post e (.begin_ s.tasks.length)
  | none => { s with fault := true }

end Program

/-! ## A session between two awaits -/

/-- At an await. -/
def suspends : TcpSession.Pc → Bool
  | .timer | .reading | .writing _ _ => true
  | .shutdown | .close | .returned   => false

/-- The operation that the session waits for can complete. -/
def completable (script : TcpSession.Script) (x : TcpSession.Session) : Bool :=
  match x.pc with
  | .timer          => true
  | .reading        => !x.coming.isEmpty || script.last.isSome
  | .writing rest _ => rest.isEmpty
  | .shutdown | .close | .returned => false

/-- What the session does next. -/
def resumption (x : TcpSession.Session) : TcpSession.Action :=
  match x.pc with
  | .timer       => .timeout
  | .reading     => if x.coming.isEmpty then .readError else .readSome
  | .writing _ _ => .written
  | .shutdown    => .shutdown
  | .close | .returned => .close

/-- The next statement of function `n`. -/
def run (s : Program) (n : Nat) : Func → Option Program
  -- `m_ec = ec; handle.resume();`
  | .accepted error => some { s.endCode n with accept := .resumed error }
  | .begin_ j => s.tasks[j]?.map fun t => (s.endCode n).setTask j { t with await_ := .pending }
  | .completed j => s.tasks[j]?.map fun t =>
      match s.executor j with
      | some e => ((s.endCode n).setTask j { t with await_ := .held s.jobs.length }).post e (.resume j)
      | none   => { s with fault := true }
  | .resume j => s.tasks[j]?.bind fun t => (TcpSession.step (scripts j) t.session (resumption t.session)).map fun x =>
      if suspends x.pc then (s.endCode n).setTask j ⟨.pending, x⟩
      else if x.pc = .returned then (s.endCode n).setTask j ⟨.returned, x⟩
      else s.setTask j { t with session := x }

/-! ## The steps -/

inductive Action
  | main
  /-- What `open`, `set_option`, `bind` or `listen` reports. -/
  | setup (error : Option Accept.ErrorCode)
  | thd
  /-- Thread `i` of the pool calls `run()`, -/
  | enter (i : Nat)
  /-- takes the `n`-th function from the queue, -/
  | dispatch (i n : Nat)
  /-- takes the next step in it, -/
  | run (i : Nat)
  /-- is done with it, -/
  | finish (i : Nat)
  /-- and returns from `run()`. -/
  | leave (i : Nat)
  /-- `async_accept` completes. -/
  | accepts (error : Option Accept.ErrorCode)
  /-- `async_write` hands over bytes for session `j`. -/
  | handOver (j bytes : Nat)
  /-- The operation of session `j` completes. -/
  | completes (j : Nat)

variable (pool_size : Nat)

/-- The next statement of `main`; `none` while it waits in `blockingWait`. -/
def mainStep (s : Program) : Option Program :=
  match s.main with
  | .pool =>
      match IoContextPool.make pool_size with
      | .ok pool    => some { s with system := { pool }, main := .spawn }
      | .error what => some { s with main := .caught (some what) }
  | .spawn => some { s with thd := .start, main := .server }
  | .server => some { s with main := .blockingWait }
  | .blockingWait =>
      match s.server.pc with
      | .threw => some { s with main := .unwind }
      | .accept _ _ =>
          match s.accept with
          | .resumed error => (s.start (.accept error)).map fun t => { t with accept := .idle }
          | _ => none
      | .socket _ => (s.start .next).map fun t => { t with accept := .pending }
      | .session _ _ _ => (s.start .next).map fun t => if t.server.pc = .threw then t else t.schedule scripts
      | _ => s.start .next
  -- the destructor of `thd`
  | .unwind => some { s with main := if s.thd.joinable then .terminated else .caught none }
  | .caught what => some { s with log := s.log ++ [what], main := .returned }
  | .returned | .terminated => none

/-- `thd` calls `pool.start()`, and nothing else. -/
def thdStep (s : Program) : Option Program :=
  match s.thd, s.system.caller with
  | .start, .started => some { s with thd := .exited }
  | .start, _ => (callerStep s.system).map fun system => { s with system := system }
  | _, _ => none

/-- A step of a thread of the pool that is asio's own. -/
def poolStep (s : Program) (a : Pool.Action) : Option Program :=
  (Pool.step s.system a).map fun system => { s with system := system }

def step (s : Program) (a : Action) : Option Program :=
  if s.main.ended then none else
  match a with
  | .main => mainStep scripts pool_size s
  | .setup error => if s.main = .blockingWait then s.start (.setup error) else none
  | .thd => thdStep s
  | .enter i => poolStep s (.enter i)
  | .dispatch i n => poolStep s (.dispatch i n)
  | .run i => (s.current i).bind fun (n, job) => if job.ended then none else run scripts s n job.func
  | .finish i => (s.current i).bind fun (_, job) => if job.ended then poolStep s (.finish i) else none
  | .leave i => poolStep s (.leave i)
  | .accepts error =>
      if s.accept = .pending then
        s.server.acceptor.map fun context => { s with accept := .held s.jobs.length }.post ⟨context⟩ (.accepted error)
      else none
  | .handOver j bytes =>
      s.tasks[j]?.bind fun t =>
        if t.await_ = .pending then
          (TcpSession.step (scripts j) t.session (.handOver bytes)).map fun x => s.setTask j { t with session := x }
        else none
  | .completes j =>
      s.tasks[j]?.bind fun t => s.server.sessions[j]?.bind fun x =>
        if t.await_ = .pending ∧ completable (scripts j) t.session then
          some ((s.setTask j { t with await_ := .held s.jobs.length }).post
            ⟨if t.session.pc = .timer then x.timer else x.socket⟩ (.completed j))
        else none

def program : Machine Program Action where
  start := {}
  step := step scripts pool_size

/-! ## What a step can do -/

/-- **The steps of the program**, by who takes them. -/
inductive Moved (s : Program) : Action → Program → Prop
  | pool {pool} (hpc : s.main = .pool) (hpool : IoContextPool.make pool_size = .ok pool) :
      Moved s .main { s with system := { pool }, main := .spawn }
  | poolThrows {what} (hpc : s.main = .pool) (hpool : IoContextPool.make pool_size = .error what) :
      Moved s .main { s with main := .caught (some what) }
  | spawn (hpc : s.main = .spawn) : Moved s .main { s with thd := .start, main := .server }
  | server (hpc : s.main = .server) : Moved s .main { s with main := .blockingWait }
  | rethrow (hpc : s.main = .blockingWait) (hat : s.server.pc = .threw) : Moved s .main { s with main := .unwind }
  | resumed {context socket error t} (hpc : s.main = .blockingWait) (hat : s.server.pc = .accept context socket)
      (hacc : s.accept = .resumed error) (ht : s.start (.accept error) = some t) :
      Moved s .main { t with accept := .idle }
  | accept {context t} (hpc : s.main = .blockingWait) (hat : s.server.pc = .socket context)
      (ht : s.start .next = some t) : Moved s .main { t with accept := .pending }
  | schedule {context socket timer t} (hpc : s.main = .blockingWait) (hat : s.server.pc = .session context socket timer)
      (ht : s.start .next = some t) : Moved s .main (if t.server.pc = .threw then t else t.schedule scripts)
  | next {t} (hpc : s.main = .blockingWait) (hacc : ∀ c x, s.server.pc ≠ .accept c x) (hsock : ∀ c, s.server.pc ≠ .socket c)
      (hsess : ∀ c x y, s.server.pc ≠ .session c x y) (ht : s.start .next = some t) : Moved s .main t
  | unwind (hpc : s.main = .unwind) :
      Moved s .main { s with main := if s.thd.joinable then .terminated else .caught none }
  | caught {what} (hpc : s.main = .caught what) : Moved s .main { s with log := s.log ++ [what], main := .returned }
  | setup {error t} (hpc : s.main = .blockingWait) (ht : s.start (.setup error) = some t) : Moved s (.setup error) t
  | started (hthd : s.thd = .start) (hcaller : s.system.caller = .started) : Moved s .thd { s with thd := .exited }
  | thd {system} (hthd : s.thd = .start) (hcaller : s.system.caller ≠ .started)
      (hs : Pool.step s.system .caller = some system) : Moved s .thd { s with system := system }
  | enter {i system} (hs : Pool.step s.system (.enter i) = some system) : Moved s (.enter i) { s with system := system }
  | dispatch {i n system} (hs : Pool.step s.system (.dispatch i n) = some system) :
      Moved s (.dispatch i n) { s with system := system }
  | run {i n f t} (hcur : s.current i = some (n, ⟨f, false⟩)) (hrun : run scripts s n f = some t) : Moved s (.run i) t
  | finish {i n f system} (hcur : s.current i = some (n, ⟨f, true⟩)) (hs : Pool.step s.system (.finish i) = some system) :
      Moved s (.finish i) { s with system := system }
  | leave {i system} (hs : Pool.step s.system (.leave i) = some system) : Moved s (.leave i) { s with system := system }
  | accepts {error context} (hacc : s.accept = .pending) (hcontext : s.server.acceptor = some context) :
      Moved s (.accepts error) ({ s with accept := .held s.jobs.length }.post ⟨context⟩ (.accepted error))
  | handOver {j bytes t x} (ht : s.tasks[j]? = some t) (hpend : t.await_ = .pending)
      (hx : TcpSession.step (scripts j) t.session (.handOver bytes) = some x) :
      Moved s (.handOver j bytes) (s.setTask j { t with session := x })
  | completes {j t x} (ht : s.tasks[j]? = some t) (hx : s.server.sessions[j]? = some x) (hpend : t.await_ = .pending)
      (hcomp : completable (scripts j) t.session = true) :
      Moved s (.completes j) ((s.setTask j { t with await_ := .held s.jobs.length }).post
        ⟨if t.session.pc = .timer then x.timer else x.socket⟩ (.completed j))

variable {scripts : Nat → TcpSession.Script} {pool_size : Nat} {s s' : Program}

theorem mainStep_moved (hs : mainStep scripts pool_size s = some s') : Moved scripts pool_size s .main s' := by
  unfold mainStep at hs
  split at hs
  · next hpc =>
    split at hs
    · next hpool => cases hs; exact .pool hpc hpool
    · next hpool => cases hs; exact .poolThrows hpc hpool
  · next hpc => cases hs; exact .spawn hpc
  · next hpc => cases hs; exact .server hpc
  · next hpc =>
    split at hs
    · next hat => cases hs; exact .rethrow hpc hat
    · next hat =>
      split at hs
      · next hacc =>
        obtain ⟨t, ht, rfl⟩ := Option.map_eq_some_iff.mp hs
        exact .resumed hpc hat hacc ht
      · exact absurd hs (by simp)
    · next hat =>
      obtain ⟨t, ht, rfl⟩ := Option.map_eq_some_iff.mp hs
      exact .accept hpc hat ht
    · next hat =>
      obtain ⟨t, ht, rfl⟩ := Option.map_eq_some_iff.mp hs
      exact .schedule hpc hat ht
    · next hacc hsock hsess => exact .next hpc hacc hsock hsess hs
  · next hpc => cases hs; exact .unwind hpc
  · next hpc => cases hs; exact .caught hpc
  · cases hs
  · cases hs

theorem thdStep_moved (hs : thdStep s = some s') : Moved scripts pool_size s .thd s' := by
  unfold thdStep at hs
  split at hs
  · next hthd hcaller => cases hs; exact .started hthd hcaller
  · next hthd hcaller =>
    obtain ⟨system, hsystem, rfl⟩ := Option.map_eq_some_iff.mp hs
    exact .thd hthd hcaller hsystem
  · exact absurd hs (by simp)

/-- A process that is over takes no step. -/
theorem step_over {a : Action} (hs : step scripts pool_size s a = some s') : s.main.ended = false := by
  unfold step at hs
  split at hs
  · cases hs
  · next hover => simpa using hover

theorem step_moved {a : Action} (hs : step scripts pool_size s a = some s') : Moved scripts pool_size s a s' := by
  have hover := step_over hs
  unfold step at hs
  rw [hover] at hs
  simp only [Bool.false_eq_true, if_false] at hs
  cases a with
  | main => exact mainStep_moved hs
  | thd => exact thdStep_moved hs
  | setup error =>
      dsimp only at hs
      split at hs
      · next hpc => exact .setup hpc hs
      · cases hs
  | enter i =>
      obtain ⟨system, hsystem, rfl⟩ := Option.map_eq_some_iff.mp hs
      exact .enter hsystem
  | dispatch i n =>
      obtain ⟨system, hsystem, rfl⟩ := Option.map_eq_some_iff.mp hs
      exact .dispatch hsystem
  | run i =>
      obtain ⟨⟨n, f, ended⟩, hcur, hrun⟩ := Option.bind_eq_some_iff.mp hs
      cases ended with
      | true => cases hrun
      | false => exact .run hcur hrun
  | finish i =>
      obtain ⟨⟨n, f, ended⟩, hcur, hfinish⟩ := Option.bind_eq_some_iff.mp hs
      cases ended with
      | false => cases hfinish
      | true =>
          obtain ⟨system, hsystem, rfl⟩ := Option.map_eq_some_iff.mp hfinish
          exact .finish hcur hsystem
  | leave i =>
      obtain ⟨system, hsystem, rfl⟩ := Option.map_eq_some_iff.mp hs
      exact .leave hsystem
  | accepts error =>
      dsimp only at hs
      split at hs
      · next hacc =>
        obtain ⟨context, hcontext, rfl⟩ := Option.map_eq_some_iff.mp hs
        exact .accepts hacc hcontext
      · cases hs
  | handOver j bytes =>
      obtain ⟨t, ht, hs⟩ := Option.bind_eq_some_iff.mp hs
      split at hs
      · next hpend =>
        obtain ⟨x, hx, rfl⟩ := Option.map_eq_some_iff.mp hs
        exact .handOver ht hpend hx
      · cases hs
  | completes j =>
      obtain ⟨t, ht, hs⟩ := Option.bind_eq_some_iff.mp hs
      obtain ⟨x, hx, hs⟩ := Option.bind_eq_some_iff.mp hs
      split at hs
      · next hgo =>
        cases hs
        exact .completes ht hx hgo.1 hgo.2
      · cases hs

end AsyncCpp.TcpServerProgram
