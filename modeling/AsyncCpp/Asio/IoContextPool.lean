import Mathlib.Data.List.Basic
import AsyncCpp.Lib.Machine
import AsyncCpp.Lib.RoundRobin

/-!
# `Asio.IoContextPool` — the pool, its contexts, its threads, and who calls it

The class statement by statement: the constructor's loop, the loop of `start()`, the two loops of `stop()`,
`getIoContext()`, and `Executor::add`, by which handlers get to a context. Around it the `System`: one caller
of `start()` and then of `stop()`, the threads that the pool has created, and everyone who posts. Each
statement of each of them is an action of its own.

## Assumptions about asio
`run()` takes the handlers of its own context, in any order, one after the other, until the context is stopped
or its outstanding work is zero; then, and only then, it returns. A tracked executor counts as work. A handler
does not throw, and it can always go on to its end.

## Contents
- `IoContext`, `Thread`, `IoContextPool.make`, `getIoContext`; `after`, the pool after some calls of it.
- `System`, its `outstandingWork`, `step`; `system pool`, the machine.
-/

namespace AsyncCpp.Pool

/-- Which `io_context`; the constructor's loop gives them their numbers. -/
abbrev Address := Nat

/-- A function in the queue of an `io_context`. -/
structure Handler where
  func    : Nat
  /-- The context it was posted to. -/
  context : Address
deriving DecidableEq

structure IoContext where
  stopped : Bool := false
  queue   : List Handler := []

inductive ThreadPc
  /-- Before `context->run()`. -/
  | created
  /-- Inside `run()`, between two handlers. -/
  | inRun
  /-- Inside `run()`, in a handler. -/
  | running (h : Handler)
  /-- `run()` has returned, and with it the thread's function. -/
  | exited
deriving DecidableEq

/-- A `std::thread` of the pool. -/
structure Thread where
  /-- The context whose `run()` it calls. -/
  context  : Address
  pc       : ThreadPc := .created
  joinable : Bool := true
deriving DecidableEq

structure IoContextPool where
  m_io_contexts     : List Address := []
  /-- Executors with `outstanding_work.tracked`, by the context that each tracks. -/
  m_work            : List Address := []
  m_next_io_context : Nat := 0
  m_threads         : List Thread := []

/-! ## The constructor and `getIoContext()` -/

namespace IoContextPool

/-- `make_shared<io_context>()`, and its entries in `m_io_contexts` and `m_work`. -/
def emplace (p : IoContextPool) : IoContextPool :=
  { p with m_io_contexts := p.m_io_contexts ++ [p.m_io_contexts.length],
           m_work := p.m_work ++ [p.m_io_contexts.length] }

/-- `for (std::size_t i = 0; i < pool_size; ++i)` -/
def fill : Nat → IoContextPool
  | 0     => {}
  | i + 1 => (fill i).emplace

/-- The constructor. -/
def make (pool_size : Nat) : Except String IoContextPool :=
  if pool_size = 0 then .error "IoContextPool size is 0" else .ok (fill pool_size)

/-- The next context in turn; `none` where the index is outside of `m_io_contexts`. -/
def getIoContext (p : IoContextPool) : Option (Address × IoContextPool) :=
  p.m_io_contexts[p.m_next_io_context]?.map fun context =>
    (context, { p with m_next_io_context :=
      if p.m_next_io_context + 1 = p.m_io_contexts.length then 0 else p.m_next_io_context + 1 })

theorem fill_eq (k : Nat) : fill k = { m_io_contexts := List.range k, m_work := List.range k } := by
  induction k with
  | zero => rfl
  | succ i ih => simp [fill, ih, emplace, List.range_succ]

/-- The constructor gives `k` contexts, each with one tracked executor. -/
theorem make_eq {k : Nat} {pool : IoContextPool} (h : make k = .ok pool) :
    0 < k ∧ pool = { m_io_contexts := List.range k, m_work := List.range k } := by
  simp only [make] at h
  split at h
  · exact absurd h (by simp)
  · next hk =>
    cases h
    exact ⟨Nat.pos_of_ne_zero hk, fill_eq k⟩

theorem make_of_pos {k : Nat} (hk : 0 < k) : make k = .ok (fill k) := if_neg (by omega)

/-- **`getIoContext()` never leaves the vector**: it gives a context of the pool, and the next index is again
    one of the vector. -/
theorem getIoContext_spec {p : IoContextPool} (h : p.m_next_io_context < p.m_io_contexts.length) :
    ∃ context p', p.getIoContext = some (context, p') ∧ context ∈ p.m_io_contexts ∧
      p'.m_io_contexts = p.m_io_contexts ∧ p'.m_next_io_context < p.m_io_contexts.length := by
  unfold getIoContext
  rw [List.getElem?_eq_getElem h]
  refine ⟨_, _, rfl, List.getElem_mem h, rfl, ?_⟩
  dsimp only
  split <;> omega

/-- The pool of `k` contexts after `n` calls of `getIoContext()`. -/
def after (k n : Nat) : IoContextPool :=
  { m_io_contexts := List.range k, m_work := List.range k, m_next_io_context := n % k }

theorem make_after {k : Nat} (hk : 0 < k) : make k = .ok (after k 0) := by
  rw [make_of_pos hk, fill_eq, after, Nat.zero_mod]

/-- **The `n`-th call takes the context whose turn it is.** -/
theorem getIoContext_after {k : Nat} (hk : 0 < k) (n : Nat) :
    (after k n).getIoContext = some (n % k, after k (n + 1)) := by
  have hlt : n % k < (List.range k).length := by
    rw [List.length_range]
    exact Nat.mod_lt n hk
  unfold getIoContext after
  rw [List.getElem?_eq_getElem hlt, Option.map_some, List.getElem_range, List.length_range,
    RoundRobin.wrap hk]

/-- `n` calls of `getIoContext()`, and the contexts that they gave. -/
def getIoContexts (p : IoContextPool) : Nat → Option (List Address × IoContextPool)
  | 0     => some ([], p)
  | n + 1 => (p.getIoContexts n).bind fun (cs, q) => q.getIoContext.map fun (c, q') => (cs ++ [c], q')

theorem getIoContexts_after {k : Nat} (hk : 0 < k) (n : Nat) :
    (after k 0).getIoContexts n = some (RoundRobin.turns k 0 n, after k n) := by
  induction n with
  | zero => rfl
  | succ n ih =>
      rw [getIoContexts, ih]
      show ((after k n).getIoContext.map fun (c, q') => (RoundRobin.turns k 0 n ++ [c], q')) = _
      rw [getIoContext_after hk, Option.map_some, RoundRobin.turns_succ, Nat.zero_add]

end IoContextPool

/-! ## The system -/

/-- The thread that calls `start()` and then `stop()`. -/
inductive Caller
  | constructed
  /-- In the loop of `start()`, with the contexts that have no thread yet. -/
  | start (rest : List Address)
  /-- `start()` has returned. -/
  | started
  /-- In the first loop of `stop()`. -/
  | stop (rest : List Address)
  /-- In the second loop of `stop()`, at this entry of `m_threads`. -/
  | join (j : Nat)
  /-- `stop()` has returned. -/
  | stopped
deriving DecidableEq

structure System where
  pool     : IoContextPool
  contexts : Address → IoContext := fun _ => {}
  caller   : Caller := .constructed

/-- Is this thread in a handler of the context? -/
def Thread.runs (context : Address) (th : Thread) : Bool :=
  match th.pc with
  | .running _ => th.context == context
  | _ => false

/-- Queued and running handlers, and tracked executors. -/
def System.outstandingWork (s : System) (context : Address) : Nat :=
  (s.contexts context).queue.length + s.pool.m_threads.countP (·.runs context) + s.pool.m_work.count context

def System.addThread (s : System) (th : Thread) : System :=
  { s with pool := { s.pool with m_threads := s.pool.m_threads ++ [th] } }

def System.setThread (s : System) (i : Nat) (f : Thread → Thread) : System :=
  { s with pool := { s.pool with m_threads := s.pool.m_threads.modify i f } }

def System.setContext (s : System) (context : Address) (x : IoContext) : System :=
  { s with contexts := Function.update s.contexts context x }

/-- Thread `i` takes the `n`-th handler `h` from the queue of a context. -/
def System.take (s : System) (i : Nat) (context : Address) (n : Nat) (h : Handler) : System :=
  (s.setContext context { s.contexts context with queue := (s.contexts context).queue.eraseIdx n }).setThread i
    fun th => { th with pc := .running h }

/-- `boost::asio::post` -/
def System.post (s : System) (context : Address) (func : Nat) : System :=
  s.setContext context { s.contexts context with queue := (s.contexts context).queue ++ [⟨func, context⟩] }

structure Executor where
  m_io_context : Address

/-- `Executor::add` -/
def Executor.add (e : Executor) (func : Nat) (s : System) : System := s.post e.m_io_context func

/-- The next statement of `start()` and `stop()`; `none` while the caller waits in `join`. -/
def callerStep (s : System) : Option System :=
  match s.caller with
  | .constructed => some { s with caller := .start s.pool.m_io_contexts }
  | .start (context :: rest) =>
      some { s.addThread { context } with caller := .start rest }
  | .start [] => some { s with caller := .started }
  | .started => some { s with caller := .stop s.pool.m_io_contexts }
  | .stop (context :: rest) =>
      some { s.setContext context { s.contexts context with stopped := true } with caller := .stop rest }
  | .stop [] => some { s with caller := .join 0 }
  | .join j =>
      match s.pool.m_threads[j]? with
      | none => some { s with caller := .stopped }
      -- `if (th.joinable()) th.join();`
      | some th =>
          if th.joinable = false then some { s with caller := .join (j + 1) }
          else if th.pc = .exited then
            some { s.setThread j fun th => { th with joinable := false } with caller := .join (j + 1) }
          else none
  | .stopped => none

/-- Who posts. -/
inductive Poster
  | outside
  /-- The handler that this thread of the pool is in. -/
  | handler (i : Nat)

/-- May it post now? -/
def System.posts (s : System) : Poster → Bool
  | .outside => true
  | .handler i => (s.pool.m_threads[i]?).any fun th => th.runs th.context

inductive Action
  | caller
  /-- Thread `i` calls `run()`, -/
  | enter (i : Nat)
  /-- takes the `n`-th handler from the queue, -/
  | dispatch (i n : Nat)
  /-- is done with it, -/
  | finish (i : Nat)
  /-- and returns from `run()`. -/
  | leave (i : Nat)
  /-- A function is added to an `Executor`. -/
  | add (by_ : Poster) (e : Executor) (func : Nat)

/-- One step of the system. -/
def step (s : System) : Action → Option System
  | .caller => callerStep s
  | .enter i =>
      (s.pool.m_threads[i]?).bind fun th =>
        if th.pc = .created then some (s.setThread i fun th => { th with pc := .inRun }) else none
  | .dispatch i n =>
      (s.pool.m_threads[i]?).bind fun th =>
        if th.pc = .inRun ∧ (s.contexts th.context).stopped = false then
          (s.contexts th.context).queue[n]?.map fun h => s.take i th.context n h
        else none
  | .finish i =>
      (s.pool.m_threads[i]?).bind fun th =>
        if th.runs th.context then some (s.setThread i fun th => { th with pc := .inRun }) else none
  | .leave i =>
      (s.pool.m_threads[i]?).bind fun th =>
        if th.pc = .inRun ∧ ((s.contexts th.context).stopped ∨ s.outstandingWork th.context = 0) then
          some (s.setThread i fun th => { th with pc := .exited })
        else none
  | .add by_ e func => if s.posts by_ ∧ e.m_io_context ∈ s.pool.m_io_contexts then some (e.add func s) else none

def system (pool : IoContextPool) : Machine System Action where
  start := { pool }
  step := step

/-! ## What a step can do -/

/-- **The steps of the system**, one constructor per action and outcome, with everything the action checks. -/
inductive Moved (s : System) : Action → System → Prop
  | callStart (hpc : s.caller = .constructed) : Moved s .caller { s with caller := .start s.pool.m_io_contexts }
  | create {context rest} (hpc : s.caller = .start (context :: rest)) :
      Moved s .caller { s.addThread { context } with caller := .start rest }
  | started (hpc : s.caller = .start []) : Moved s .caller { s with caller := .started }
  | callStop (hpc : s.caller = .started) : Moved s .caller { s with caller := .stop s.pool.m_io_contexts }
  | stopContext {context rest} (hpc : s.caller = .stop (context :: rest)) :
      Moved s .caller { s.setContext context { s.contexts context with stopped := true } with caller := .stop rest }
  | allStopped (hpc : s.caller = .stop []) : Moved s .caller { s with caller := .join 0 }
  | stopped {j} (hpc : s.caller = .join j) (hth : s.pool.m_threads[j]? = none) :
      Moved s .caller { s with caller := .stopped }
  | skip {j th} (hpc : s.caller = .join j) (hth : s.pool.m_threads[j]? = some th) (hj : th.joinable = false) :
      Moved s .caller { s with caller := .join (j + 1) }
  | join {j th} (hpc : s.caller = .join j) (hth : s.pool.m_threads[j]? = some th) (hx : th.pc = .exited) :
      Moved s .caller { s.setThread j fun th => { th with joinable := false } with caller := .join (j + 1) }
  | enter {i th} (hth : s.pool.m_threads[i]? = some th) (hpc : th.pc = .created) :
      Moved s (.enter i) (s.setThread i fun th => { th with pc := .inRun })
  | dispatch {i n th h} (hth : s.pool.m_threads[i]? = some th) (hpc : th.pc = .inRun)
      (hgo : (s.contexts th.context).stopped = false) (hh : (s.contexts th.context).queue[n]? = some h) :
      Moved s (.dispatch i n) (s.take i th.context n h)
  | finish {i th} (hth : s.pool.m_threads[i]? = some th) (hpc : th.runs th.context = true) :
      Moved s (.finish i) (s.setThread i fun th => { th with pc := .inRun })
  | leave {i th} (hth : s.pool.m_threads[i]? = some th) (hpc : th.pc = .inRun)
      (hout : (s.contexts th.context).stopped = true ∨ s.outstandingWork th.context = 0) :
      Moved s (.leave i) (s.setThread i fun th => { th with pc := .exited })
  | add {by_ e func} (hp : s.posts by_ = true) (hmem : e.m_io_context ∈ s.pool.m_io_contexts) :
      Moved s (.add by_ e func) (e.add func s)

theorem callerStep_moved {s s' : System} (hs : callerStep s = some s') : Moved s .caller s' := by
  unfold callerStep at hs
  split at hs
  · next hpc => cases hs; exact .callStart hpc
  · next hpc => cases hs; exact .create hpc
  · next hpc => cases hs; exact .started hpc
  · next hpc => cases hs; exact .callStop hpc
  · next hpc => cases hs; exact .stopContext hpc
  · next hpc => cases hs; exact .allStopped hpc
  · next hpc =>
    split at hs
    · next hth => cases hs; exact .stopped hpc hth
    · next th hth =>
      split at hs
      · next hj => cases hs; exact .skip hpc hth hj
      · split at hs
        · next hx => cases hs; exact .join hpc hth hx
        · exact absurd hs (by simp)
  · exact absurd hs (by simp)

theorem step_moved {s s' : System} {a : Action} (hs : step s a = some s') : Moved s a s' := by
  cases a with
  | caller => exact callerStep_moved hs
  | enter i =>
      obtain ⟨th, hth, hif⟩ := Option.bind_eq_some_iff.mp hs
      split at hif
      · next hpc => cases hif; exact .enter hth hpc
      · exact absurd hif (by simp)
  | dispatch i n =>
      obtain ⟨th, hth, hif⟩ := Option.bind_eq_some_iff.mp hs
      split at hif
      · next hpc =>
        obtain ⟨h, hh, rfl⟩ := Option.map_eq_some_iff.mp hif
        exact .dispatch hth hpc.1 hpc.2 hh
      · exact absurd hif (by simp)
  | finish i =>
      obtain ⟨th, hth, hif⟩ := Option.bind_eq_some_iff.mp hs
      split at hif
      · next hpc => cases hif; exact .finish hth hpc
      · exact absurd hif (by simp)
  | leave i =>
      obtain ⟨th, hth, hif⟩ := Option.bind_eq_some_iff.mp hs
      split at hif
      · next hpc => cases hif; exact .leave hth hpc.1 hpc.2
      · exact absurd hif (by simp)
  | add by_ e func =>
      simp only [step] at hs
      split at hs
      · next hg => cases hs; exact .add hg.1 hg.2
      · exact absurd hs (by simp)

end AsyncCpp.Pool
