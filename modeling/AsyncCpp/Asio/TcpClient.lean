import AsyncCpp.Lib.Machine

/-!
# `Asio.TcpClient` — `main`, `start` and the thread that runs the `io_context`

Three actors of the TCP client program: `main`, which waits for the coroutine and joins `thd`; the coroutine
`start`; and `thd`, which runs the `io_context` under a work object. What the network does is a script of
`Outcomes`. The program ends in order exactly when the name is resolved and the connection comes about
(`orderly_iff`).

## Assumptions
- `run()` returns once `stop()` was called, and not before while the work object exists. Handlers run inside
  `run()`.
- Destroying a joinable `std::thread` terminates the process.
- An exception thrown in `await_suspend` is rethrown at the `co_await` and reaches `blockingWait`.
-/

namespace AsyncCpp.TcpClient

/-- `boost::system::error_code`, when it reports an error. -/
inductive ErrorCode
  | eof
  | other (code : Nat)
deriving DecidableEq

/-- What the operations of one run report. -/
structure Outcomes where
  /-- The `system_error` that `resolver.resolve` throws, if it does. -/
  resolve : Option ErrorCode
  /-- The error of `async_connect`, if it has one. -/
  connect : Option ErrorCode
  /-- The result of `async_write` in each round, -/
  write   : Nat → Except ErrorCode Nat
  /-- and of `async_read_some`. -/
  read    : Nat → Except ErrorCode Nat

/-- The coroutine `start`. -/
inductive CoroPc
  /-- `co_await async_connect(..)`, which resolves first. -/
  | connect
  /-- Suspended in it. -/
  | connecting
  /-- `if (ec)` -/
  | connected (ec : Option ErrorCode)
  /-- `i < count` -/
  | loop (i : Nat)
  /-- Suspended in `async_write`. -/
  | writing (i : Nat)
  /-- Resumed; what `async_write` reported is not looked at. -/
  | written (i : Nat)
  /-- Suspended in `async_read_some`. -/
  | reading (i : Nat)
  /-- `if (error == eof) .. else if (error) ..` -/
  | gotReply (i : Nat) (reply : Except ErrorCode Nat)
  /-- `socket.shutdown(..)`, `io_context.stop()` -/
  | stop
  | returned
  | threw

/-- The thread `thd`. -/
inductive ThdPc
  | notStarted
  /-- `io_context::work work(io_context)` -/
  | work
  /-- Inside `io_context.run()`, with the work object. -/
  | run
  /-- Out of its function. -/
  | exited
  | joined
deriving DecidableEq

/-- `thd.joinable()` -/
def ThdPc.joinable : ThdPc → Bool
  | .work | .run | .exited => true
  | .notStarted | .joined  => false

inductive MainPc
  /-- `std::thread thd(..)` -/
  | spawn
  /-- In `blockingWait(start(..))`. -/
  | blockingWait
  /-- In `thd.join()`. -/
  | join
  /-- An exception leaves the block in which `thd` lives. -/
  | unwind
  /-- At `return 0`. -/
  | returned
  /-- `std::terminate` -/
  | terminated
deriving DecidableEq

structure Program where
  main    : MainPc := .spawn
  coro    : CoroPc := .connect
  thd     : ThdPc := .notStarted
  /-- `io_context.stop()` was called. -/
  stopped : Bool := false

inductive Actor
  | main
  | coro
  | thd
  /-- A completion handler, inside `run()`. -/
  | handler
deriving DecidableEq

variable {o : Outcomes} {count : Nat}

/-- The next statement of the coroutine; `none` when it is suspended or over. -/
def coroStep (o : Outcomes) (count : Nat) (s : Program) : Option Program :=
  match s.coro with
  | .connect =>
      match o.resolve with
      | some _ => some { s with coro := .threw }
      | none   => some { s with coro := .connecting }
  -- `co_return`, and nobody stops the `io_context`
  | .connected (some _) => some { s with coro := .returned }
  | .connected none     => some { s with coro := .loop 0 }
  | .loop i => if i < count then some { s with coro := .writing i } else some { s with coro := .stop }
  | .written i => some { s with coro := .reading i }
  | .gotReply i (.ok _)    => some { s with coro := .loop (i + 1) }
  -- `break`, for `eof` and for any other error
  | .gotReply _ (.error _) => some { s with coro := .stop }
  | .stop => some { s with coro := .returned, stopped := true }
  | .connecting | .writing _ | .reading _ | .returned | .threw => none

/-- The completion handler that the coroutine waits for. -/
def handlerStep (o : Outcomes) (s : Program) : Option Program :=
  match s.coro with
  | .connecting => some { s with coro := .connected o.connect }
  | .writing i  => some { s with coro := .written i }
  | .reading i  => some { s with coro := .gotReply i (o.read i) }
  | _ => none

def mainStep (s : Program) : Option Program :=
  match s.main with
  | .spawn => some { s with main := .blockingWait, thd := .work }
  | .blockingWait =>
      match s.coro with
      | .returned => some { s with main := .join }
      | .threw    => some { s with main := .unwind }
      | _ => none
  | .join => if s.thd = .exited then some { s with main := .returned, thd := .joined } else none
  -- the destructor of `thd`
  | .unwind => some { s with main := if s.thd.joinable then .terminated else .returned }
  | .returned | .terminated => none

def thdStep (s : Program) : Option Program :=
  match s.thd with
  | .work => some { s with thd := .run }
  | .run  => if s.stopped then some { s with thd := .exited } else none
  | .notStarted | .exited | .joined => none

/-- One step of the program. The coroutine runs while `main` waits for it. -/
def step (o : Outcomes) (count : Nat) (s : Program) : Actor → Option Program
  | .main    => mainStep s
  | .coro    => if s.main = .blockingWait then coroStep o count s else none
  | .thd     => if s.main = .terminated then none else thdStep s
  | .handler => if s.thd = .run ∧ s.stopped = false ∧ s.main ≠ .terminated then handlerStep o s else none

def program (o : Outcomes) (count : Nat) : Machine Program Actor where
  start := {}
  step := step o count

/-! ## What is expected of it -/

/-- `main` waits for a thread that nothing will ever stop. -/
def Blocked (s : Program) : Prop := s.main = .join ∧ s.thd = .run ∧ s.stopped = false

open Machine

/-- **An orderly program**: it never blocks in `thd.join()` and no exception meets the joinable `thd`; it takes
    finitely many steps, and where it takes no further one `main` has reached its return with `thd` joined. -/
structure Orderly (o : Outcomes) (count : Nat) : Prop where
  safe     : ∀ s, (program o count).Reachable Anything s → ¬ Blocked s ∧ s.main ≠ .terminated
  finite   : ∃ bound, ∀ k s, (program o count).StepsN Anything k (program o count).start s → k ≤ bound
  returned : ∀ s, (program o count).Reachable Anything s → (program o count).Stuck Anything s →
               s.main = .returned ∧ s.thd = .joined

/-! ## The rank of a run -/

def MainPc.rank : MainPc → Nat
  | .spawn => 4
  | .blockingWait => 3
  | .join => 1
  | .unwind => 1
  | .returned | .terminated => 0

def ThdPc.rank : ThdPc → Nat
  | .notStarted => 3
  | .work => 2
  | .run => 1
  | .exited | .joined => 0

def CoroPc.rank (count : Nat) : CoroPc → Nat
  | .connect => 5 * count + 8
  | .connecting => 5 * count + 7
  | .connected _ => 5 * count + 6
  | .loop i => 5 * (count - i) + 5
  | .writing i => 5 * (count - i) + 4
  | .written i => 5 * (count - i) + 3
  | .reading i => 5 * (count - i) + 2
  | .gotReply i _ => 5 * (count - i) + 1
  | .stop => 1
  | .returned | .threw => 0

def Program.rank (count : Nat) (s : Program) : Nat := s.main.rank + s.thd.rank + s.coro.rank count

/-! ## Orderly runs -/

/-- The coroutine is on its way, with a connection: inside a round its counter is below `count`. -/
def CoroPc.Active (count : Nat) : CoroPc → Prop
  | .connect | .connecting | .connected none | .loop _ | .stop => True
  | .writing i | .written i | .reading i | .gotReply i _ => i < count
  | .connected (some _) | .returned | .threw => False

/-- **The states of an orderly run**, in their order. -/
inductive Ordered (count : Nat) : Program → Prop
  | start : Ordered count {}
  | running {coro thd} (hc : coro.Active count) (ht : thd = .work ∨ thd = .run) :
      Ordered count ⟨.blockingWait, coro, thd, false⟩
  | ended {main thd} (hm : main = .blockingWait ∨ main = .join) (ht : thd.joinable = true) :
      Ordered count ⟨main, .returned, thd, true⟩
  | returned : Ordered count ⟨.returned, .returned, .joined, true⟩

variable {s s' : Program}

/-- A statement of the coroutine takes it on, or stops the `io_context` and ends it. -/
theorem coroStep_active (hres : o.resolve = none) {coro : CoroPc} {thd : ThdPc} (hc : coro.Active count)
    (ht : thd = .work ∨ thd = .run) (hs : coroStep o count ⟨.blockingWait, coro, thd, false⟩ = some s') :
    Ordered count s' ∧ s'.rank count < Program.rank count ⟨.blockingWait, coro, thd, false⟩ := by
  cases coro with
  | connect =>
      simp only [coroStep, hres, Option.some.injEq] at hs
      subst hs
      exact ⟨.running trivial ht, by simp only [Program.rank, CoroPc.rank]; omega⟩
  | connected ec =>
      cases ec with
      | none => cases hs; exact ⟨.running trivial ht, by simp only [Program.rank, CoroPc.rank]; omega⟩
      | some e => exact hc.elim
  | loop i =>
      simp only [coroStep] at hs
      split at hs
      · next hlt => cases hs; exact ⟨.running hlt ht, by simp only [Program.rank, CoroPc.rank]; omega⟩
      · cases hs; exact ⟨.running trivial ht, by simp only [Program.rank, CoroPc.rank]; omega⟩
  | written i => cases hs; exact ⟨.running hc ht, by simp only [Program.rank, CoroPc.rank]; omega⟩
  | gotReply i reply =>
      have hi : i < count := hc
      cases reply with
      | ok n => cases hs; exact ⟨.running trivial ht, by simp only [Program.rank, CoroPc.rank]; omega⟩
      | error e => cases hs; exact ⟨.running trivial ht, by simp only [Program.rank, CoroPc.rank]; omega⟩
  | stop =>
      cases hs
      refine ⟨.ended (.inl rfl) ?_, by simp only [Program.rank, CoroPc.rank]; omega⟩
      rcases ht with rfl | rfl <;> rfl
  | connecting | writing i | reading i | returned | threw => cases hs

/-- A completion handler takes the coroutine on. -/
theorem handlerStep_active (hcon : o.connect = none) {coro : CoroPc} {thd : ThdPc} (hc : coro.Active count)
    (ht : thd = .work ∨ thd = .run) (hs : handlerStep o ⟨.blockingWait, coro, thd, false⟩ = some s') :
    Ordered count s' ∧ s'.rank count < Program.rank count ⟨.blockingWait, coro, thd, false⟩ := by
  cases coro with
  | connecting =>
      cases hs
      rw [hcon]
      exact ⟨.running trivial ht, by simp only [Program.rank, CoroPc.rank]; omega⟩
  | writing i => cases hs; exact ⟨.running hc ht, by simp only [Program.rank, CoroPc.rank]; omega⟩
  | reading i => cases hs; exact ⟨.running hc ht, by simp only [Program.rank, CoroPc.rank]; omega⟩
  | _ => cases hs

/-- **The step lemma.** -/
theorem Ordered.step (h : Ordered count s) (hres : o.resolve = none) (hcon : o.connect = none) {a : Actor}
    (hs : TcpClient.step o count s a = some s') : Ordered count s' ∧ s'.rank count < s.rank count := by
  cases h with
  | start =>
      cases a with
      | main => cases hs; exact ⟨.running trivial (.inl rfl), by simp only [Program.rank, MainPc.rank, ThdPc.rank]; omega⟩
      | coro | thd | handler => cases hs
  | @running coro thd hc ht =>
      cases a with
      | main =>
          cases coro with
          | returned | threw => exact hc.elim
          | _ => cases hs
      | coro => exact coroStep_active hres hc ht hs
      | handler =>
          simp only [TcpClient.step] at hs
          split at hs
          · exact handlerStep_active hcon hc ht hs
          · exact absurd hs (by simp)
      | thd =>
          rcases ht with rfl | rfl
          · cases hs; exact ⟨.running hc (.inr rfl), by simp only [Program.rank, ThdPc.rank]; omega⟩
          · cases hs
  | @ended main thd hm ht =>
      cases a with
      | main =>
          rcases hm with rfl | rfl
          · cases hs; exact ⟨.ended (.inr rfl) ht, by simp only [Program.rank, MainPc.rank]; omega⟩
          · simp only [TcpClient.step, mainStep] at hs
            split at hs
            · cases hs; exact ⟨.returned, by simp only [Program.rank, MainPc.rank, ThdPc.rank]; omega⟩
            · exact absurd hs (by simp)
      | coro => rcases hm with rfl | rfl <;> cases hs
      | handler =>
          simp only [TcpClient.step] at hs
          split at hs
          · next hg => cases hg.2.1
          · exact absurd hs (by simp)
      | thd =>
          have hmain : main ≠ .terminated := by rcases hm with rfl | rfl <;> nofun
          simp only [TcpClient.step, hmain, if_false] at hs
          cases thd with
          | work => cases hs; exact ⟨.ended hm rfl, by simp only [Program.rank, ThdPc.rank]; omega⟩
          | run => cases hs; exact ⟨.ended hm rfl, by simp only [Program.rank, ThdPc.rank]; omega⟩
          | exited | notStarted | joined => cases hs
  | returned => cases a <;> cases hs

/-- **Nothing blocks an orderly run before its end.** -/
theorem Ordered.stuck (h : Ordered count s) (hres : o.resolve = none)
    (hstuck : (program o count).Stuck Anything s) : s.main = .returned ∧ s.thd = .joined := by
  cases h with
  | start => cases hstuck .main trivial
  | @running coro thd hc ht =>
      rcases ht with rfl | rfl
      · cases hstuck .thd trivial
      · have hcoro := hstuck .coro trivial
        have hhandler := hstuck .handler trivial
        cases coro with
        | connect => simp [program, TcpClient.step, coroStep, hres] at hcoro
        | loop i =>
            simp only [program, TcpClient.step, coroStep, if_true] at hcoro
            split at hcoro <;> cases hcoro
        | connected ec => cases ec <;> cases hcoro
        | gotReply i reply => cases reply <;> cases hcoro
        | written i | stop => cases hcoro
        | connecting | writing i | reading i => cases hhandler
        | returned | threw => exact hc.elim
  | @ended main thd hm ht =>
      rcases hm with rfl | rfl
      · cases hstuck .main trivial
      · have hmain := hstuck .main trivial
        have hthd := hstuck .thd trivial
        cases thd with
        | work | run => cases hthd
        | exited => cases hmain
        | notStarted | joined => cases ht
  | returned => exact ⟨rfl, rfl⟩

theorem Ordered.safe (h : Ordered count s) : ¬ Blocked s ∧ s.main ≠ .terminated := by
  cases h with
  | start | running | returned =>
      constructor
      · rintro ⟨hmain, _⟩
        exact absurd hmain (by simp)
      · nofun
  | ended hm =>
      constructor
      · rintro ⟨_, _, hstopped⟩
        exact absurd hstopped (by simp)
      · rcases hm with rfl | rfl <;> nofun

/-- **The run lemma.** -/
theorem reachable_ordered (hres : o.resolve = none) (hcon : o.connect = none)
    (h : (program o count).Reachable Anything s) : Ordered count s := by
  apply h.invariant .start
  intro s a s' _ hi _ hs
  exact (hi.step hres hcon hs).1

/-- When the connection comes about, the program ends in order. -/
theorem orderly_of_connected (hres : o.resolve = none) (hcon : o.connect = none) : Orderly o count where
  safe := by
    intro s h
    exact (reachable_ordered hres hcon h).safe
  finite := by
    refine ⟨(program o count).start.rank count, ?_⟩
    intro k s hk
    have := hk.measure (I := Ordered count) (fun hi _ hs => (hi.step hres hcon hs).1)
      (fun hi _ hs => (hi.step hres hcon hs).2) .start
    omega
  returned := by
    intro s h hstuck
    exact (reachable_ordered hres hcon h).stuck hres hstuck

/-! ## The ways out that are not in order -/

/-- A name that does not resolve: the exception meets the joinable `thd`. -/
theorem terminates_of_resolve (count : Nat) {e : ErrorCode} (hres : o.resolve = some e) :
    ∃ s, (program o count).Reachable Anything s ∧ s.main = .terminated := by
  have hcoro : (program o count).step ⟨.blockingWait, .connect, .work, false⟩ .coro
      = some ⟨.blockingWait, .threw, .work, false⟩ := by
    simp [program, step, coroStep, hres]
  refine ⟨⟨.terminated, .threw, .work, false⟩, ?_, rfl⟩
  exact (((Steps.single (a := .main) trivial rfl).tail trivial hcoro).tail (a := .main) trivial rfl).tail
    (a := .main) trivial rfl

/-- A connection that does not come about: `start` returns without `io_context.stop()`. -/
theorem blocks_of_connect (count : Nat) {e : ErrorCode} (hres : o.resolve = none) (hcon : o.connect = some e) :
    ∃ s, (program o count).Reachable Anything s ∧ Blocked s := by
  have hcoro : (program o count).step ⟨.blockingWait, .connect, .run, false⟩ .coro
      = some ⟨.blockingWait, .connecting, .run, false⟩ := by
    simp [program, step, coroStep, hres]
  have hhandler : (program o count).step ⟨.blockingWait, .connecting, .run, false⟩ .handler
      = some ⟨.blockingWait, .connected (some e), .run, false⟩ := by
    simp [program, step, handlerStep, hcon]
  refine ⟨⟨.join, .returned, .run, false⟩, ?_, rfl, rfl, rfl⟩
  exact (((((Steps.single (a := .main) trivial rfl).tail (a := .thd) trivial rfl).tail trivial hcoro).tail trivial
    hhandler).tail (a := .coro) trivial rfl).tail (a := .main) trivial rfl

/-- **The program ends in order exactly when the name is resolved and the connection comes about.** For every
    number of rounds and all results of reads and writes. -/
theorem orderly_iff (o : Outcomes) (count : Nat) : Orderly o count ↔ o.resolve = none ∧ o.connect = none := by
  constructor
  · intro h
    cases hres : o.resolve with
    | some e =>
        obtain ⟨s, hs, hterm⟩ := terminates_of_resolve count hres
        exact absurd hterm (h.safe s hs).2
    | none =>
        cases hcon : o.connect with
        | some e =>
            obtain ⟨s, hs, hblocked⟩ := blocks_of_connect count hres hcon
            exact absurd hblocked (h.safe s hs).1
        | none => exact ⟨rfl, rfl⟩
  · rintro ⟨hres, hcon⟩
    exact orderly_of_connected hres hcon

/-- Nobody listens on the port: `connection_refused`. -/
def refused : Outcomes where
  resolve := none
  connect := some (.other 111)
  write   := fun _ => .ok 1024
  read    := fun _ => .ok 1024

/-- With a refused connection the 100-round program blocks in `thd.join()` for ever. -/
theorem not_orderly_refused : ¬ Orderly refused 100 ∧
    ∃ s, (program refused 100).Reachable Anything s ∧ Blocked s ∧ (program refused 100).Stuck Anything s := by
  have hsteps : (program refused 100).Reachable Anything ⟨.join, .returned, .run, false⟩ :=
    exec_steps (l := [.main, .thd, .coro, .handler, .coro, .main]) rfl
  exact ⟨fun h => (h.safe _ hsteps).1 ⟨rfl, rfl, rfl⟩, _, hsteps, ⟨rfl, rfl, rfl⟩, fun a _ => by cases a <;> rfl⟩

end AsyncCpp.TcpClient
