import AsyncCpp.Mysql.Program

/-!
# `Mysql.AsWritten` — every run of the program does what the coroutine says when it is read line by line

`Mysql.main` reads the program as if each `co_await` had its result at once. Here this is justified: whatever the
threads and the server do in between, the program is always on the way that this reading takes (`Inv`), every step but
the last brings it nearer to the end of it (`Inv.rank_lt`), and nothing blocks it there (`Inv.stuck`).

## Contents
- `OnWay`, `Block`, `Inv`; what the steps of the coroutine, of a handler and of the pool keep; `Inv.step`.
- `Program.rank`, `Inv.rank_lt`; `Inv.stuck`.
- `AsWritten`, `as_written`.
-/

namespace AsyncCpp.MysqlProgram

open Mysql Pool
open Machine (Anything StepsN reachable_get)

variable {o : Outcomes} {s s' : Program}

/-! ## The invariant -/

/-- How the coroutine ends, read line by line, and its trace. -/
def whole (o : Outcomes) : Except Exit Unit × Trace := (Mysql.task o).from {}

/-- From here the task comes to that end, when `await_resume` gives what the step delivers. -/
def Frame.OnWay (o : Outcomes) (t : Trace) (f : Frame) : Prop :=
  (f.next (answer o f.step)).run record (answer o) t = whole o

/-- **The coroutine is on its way.** -/
def OnWay (o : Outcomes) (t : Trace) : CoroPc → Prop
  | .running rest => rest.run record (answer o) t = whole o
  | .suspending f | .pending f => f.members = { m_result := default } ∧ f.OnWay o t
  | .completed _ f => f.OnWay o t
  | .resumed f => (awaiter f.step).await_resume f.members = answer o f.step ∧ f.OnWay o t
  | .finished end_ => (end_, t) = whole o

/-- What `await_resume` will find, once a handler has stored what is left. -/
def Stores (o : Outcomes) (pc : HandlerPc) (f : Frame) : Prop :=
  (awaiter f.step).await_resume (pc.fill o f.step f.members) = answer o f.step

/-- `main` has called `start()`, and is not further than that. -/
def Starting (caller : Caller) : Prop := caller = .constructed ∨ (∃ rest, caller = .start rest) ∨ caller = .started

/-- The coroutine is at its end, and did not call `exit`. -/
def Ended (coro : CoroPc) : Prop := ∃ end_, coro = .finished end_ ∧ ∀ status, end_ ≠ .error (.exit status)

/-- Where `main` is in `start()` and `stop()`, `ctx`, and the coroutine. -/
def Block (caller : Caller) (context : Option Address) (coro : CoroPc) : MainPc → Prop
  | .start         => Starting caller ∧ context = none
  | .context       => caller = .started ∧ context = none
  | .blockingWait  => caller = .started ∧ context = some 0
  | .stop          => (caller = .started ∨ caller.StopCalled) ∧ context = some 0 ∧ Ended coro
  | .returned      => caller = .stopped ∧ context = some 0 ∧ Ended coro
  | .exited status => caller = .started ∧ context = some 0 ∧ coro = .finished (.error (.exit status))
  | .pool | .terminated => False

/-- What holds once the pool is there. -/
structure Inv (o : Outcomes) (s : Program) : Prop where
  pool  : Pool.Inv 8 s.system
  block : Block s.system.caller s.context s.coro s.main
  /-- Nobody has taken a context. -/
  turn  : s.context = none → s.system.pool.m_next_io_context = 0
  /-- The handlers are on the lane of `ctx`, and one that has not ended acts for the coroutine. -/
  lanes : Lanes (fun _ => ()) (fun _ => s.context) s.system.posted s.jobs fun _ => s.coro.held
  ready : ∀ n f, s.coro = .completed n f → ∀ pc, s.jobs[n]? = some ⟨pc, false⟩ → Stores o pc f
  way   : OnWay o s.trace s.coro
  fault : s.fault = false

/-! ## The steps of the pool -/

theorem Inv.poolStep (h : Inv o s) {a : Pool.Action} {system : System} (hs : Pool.step s.system a = some system)
    (hblock : Block system.caller s.context s.coro s.main)
    (hlanes : Lanes (fun _ => ()) (fun _ => s.context) system.posted s.jobs fun _ => s.coro.held) :
    Inv o { s with system := system } where
  pool := h.pool.step hs
  block := hblock
  turn := by
    intro hc
    have hnext := congrArg IoContextPool.m_next_io_context (pool_view hs)
    exact hnext.trans (h.turn hc)
  lanes := hlanes
  ready := h.ready
  way := h.way
  fault := h.fault

/-- A step that at most permutes the lanes. -/
theorem Inv.poolStep_perm (h : Inv o s) {a : Pool.Action} {system : System} (hs : Pool.step s.system a = some system)
    (hblock : Block system.caller s.context s.coro s.main) (hperm : ∀ c, (system.lane c).Perm (s.system.lane c)) :
    Inv o { s with system := system } :=
  h.poolStep hs hblock (h.lanes.perm fun c => (hperm c).map Handler.func)

theorem Inv.thread_block (h : Inv o s) {a : Pool.Action} {system : System} (hs : Pool.step s.system a = some system)
    (ha : a ≠ .caller) : Block system.caller s.context s.coro s.main := by
  rw [caller_eq hs ha]
  exact h.block

/-- The thread of a handler, and its number. -/
theorem current_runs {i n : Nat} {job : Job HandlerPc} (h : s.current i = some (n, job)) :
    ∃ hd, s.system.Runs i hd ∧ hd.func = n ∧ s.jobs[n]? = some job := by
  obtain ⟨th, hth, hcur⟩ := Option.bind_eq_some_iff.mp h
  split at hcur
  · next hd hpc =>
    obtain ⟨job', hjob, heq⟩ := Option.map_eq_some_iff.mp hcur
    obtain ⟨rfl, rfl⟩ := Prod.mk.inj heq
    exact ⟨hd, ⟨th, hth, hpc⟩, rfl, hjob⟩
  · cases hcur

/-- **A thread is done with a handler** that has ended. -/
theorem Inv.finish (h : Inv o s) {i n : Nat} {pc : HandlerPc} {system : System} (hcur : s.current i = some (n, ⟨pc, true⟩))
    (hs : Pool.step s.system (.finish i) = some system) : Inv o { s with system := system } := by
  apply h.poolStep hs (h.thread_block hs (by simp))
  obtain ⟨hd, hrun, rfl, hjob⟩ := current_runs hcur
  obtain ⟨hlane, hposted⟩ := finish_posted hrun (Pool.step_moved hs)
  rw [hposted]
  exact h.lanes.remove hlane hjob

/-- A statement of `start()`, -/
theorem Inv.start (h : Inv o s) (hpc : s.main = .start) (hc : s.system.caller ≠ .started) {system : System}
    (hs : Pool.step s.system .caller = some system) : Inv o { s with system := system } := by
  have hm := Pool.step_moved hs
  refine h.poolStep_perm hs ?_ fun c => .of_eq (caller_lane hm c)
  have hblock := h.block
  rw [hpc] at hblock ⊢
  obtain ⟨hstarting, hcontext⟩ := hblock
  refine ⟨?_, hcontext⟩
  cases hm with
  | callStart | create => exact .inr (.inl ⟨_, rfl⟩)
  | started => exact .inr (.inr rfl)
  | callStop hat => exact absurd hat hc
  | stopContext hat | allStopped hat | stopped hat | skip hat | join hat =>
      rw [Starting, hat] at hstarting
      simp at hstarting

/-- and of `stop()`. -/
theorem Inv.stop (h : Inv o s) (hpc : s.main = .stop) {system : System} (hs : Pool.step s.system .caller = some system) :
    Inv o { s with system := system } := by
  have hm := Pool.step_moved hs
  refine h.poolStep_perm hs ?_ fun c => .of_eq (caller_lane hm c)
  have hblock := h.block
  rw [hpc] at hblock ⊢
  obtain ⟨hcalled, hrest⟩ := hblock
  refine ⟨.inr ?_, hrest⟩
  cases hm with
  | callStop | stopContext | allStopped | stopped | skip | join => trivial
  | callStart hat | create hat | started hat =>
      rw [hat] at hcalled
      simp [Caller.StopCalled] at hcalled

/-! ## The steps of the coroutine -/

/-- The coroutine goes on in `main`, and no handler comes or goes. -/
theorem Inv.goOn (h : Inv o s) (hpc : s.main = .blockingWait) {coro : CoroPc} {t : Trace} (hheld : s.coro.held = none)
    (hheld' : coro.held = none) (hway : OnWay o t coro) : Inv o { s with coro := coro, trace := t } := by
  refine ⟨h.pool, ?_, h.turn, ?_, ?_, hway, h.fault⟩
  · have hblock := h.block
    rw [hpc] at hblock
    show Block s.system.caller s.context coro s.main
    rw [hpc]
    exact hblock
  · have hlanes := h.lanes
    rw [hheld] at hlanes
    show Lanes _ _ _ _ fun _ => coro.held
    rw [hheld']
    exact hlanes
  · intro n f hat
    change coro = .completed n f at hat
    rw [hat] at hheld'
    cases hheld'

/-- **A statement of the coroutine.** -/
theorem Inv.coro (h : Inv o s) (hpc : s.main = .blockingWait) (hm : CoroMoved s s') : Inv o s' := by
  have hway := h.way
  cases hm with
  | done hat | leave hat | note hat =>
      rw [hat] at hway
      exact h.goOn hpc (by rw [hat]; rfl) rfl hway
  | ask hat =>
      rw [hat] at hway
      exact h.goOn hpc (by rw [hat]; rfl) rfl ⟨rfl, hway⟩
  | initiate hat =>
      rw [hat] at hway
      exact h.goOn hpc (by rw [hat]; rfl) rfl hway
  | resume hat =>
      rw [hat] at hway
      refine h.goOn hpc (by rw [hat]; rfl) rfl ?_
      -- `await_resume` finds what the step has delivered
      rw [hway.1]
      exact hway.2
  | exit hat =>
      have hblock := h.block
      rw [hpc] at hblock
      exact ⟨h.pool, ⟨hblock.1, hblock.2, hat⟩, h.turn, h.lanes, h.ready, h.way, h.fault⟩
  | returns hat hend =>
      have hblock := h.block
      rw [hpc] at hblock
      exact ⟨h.pool, ⟨.inl hblock.1, hblock.2, _, hat, hend⟩, h.turn, h.lanes, h.ready, h.way, h.fault⟩

/-! ## An operation and its handler -/

/-- The coroutine is held by nobody else. -/
theorem update_held (n m : Option Nat) : Function.update (fun _ : Unit => n) () m = fun _ => m := by
  funext x
  exact Function.update_self _ _ _

/-- A coroutine that is not at its end may be anywhere. -/
theorem Inv.block_of (h : Inv o s) {coro : CoroPc} (hend : ∀ end_, s.coro ≠ .finished end_) :
    Block s.system.caller s.context coro s.main := by
  have hblock := h.block
  cases hpc : s.main with
  | start | context | blockingWait | pool | terminated =>
      rw [hpc] at hblock
      exact hblock
  | stop | returned =>
      rw [hpc] at hblock
      obtain ⟨_, _, end_, hat, _⟩ := hblock
      exact absurd hat (hend end_)
  | exited status =>
      rw [hpc] at hblock
      exact absurd hblock.2.2 (hend _)

/-- **The operation completes**, and its handler is posted. -/
theorem Inv.completes (h : Inv o s) {f : Frame} {context : Address} (hat : s.coro = .pending f)
    (hcontext : s.context = some context) :
    Inv o { s with
      coro := .completed s.jobs.length { f with members := { f.members with m_additional_info := (delivered o f.step).info } },
      jobs := s.jobs ++ [⟨.stores, false⟩], system := Executor.add ⟨context⟩ s.jobs.length s.system } := by
  have hway := h.way
  have hlanes := h.lanes
  rw [hat] at hway hlanes
  refine ⟨add_inv h.pool _ _, h.block_of (by simp [hat]), h.turn, ?_, ?_, hway.2, h.fault⟩
  · have hposted := hlanes.post (f := HandlerPc.stores) (c := context) rfl hcontext
    rw [update_held] at hposted
    show Lanes _ _ (Executor.add ⟨context⟩ s.jobs.length s.system).posted _ _
    rw [add_posted]
    exact hposted
  · intro n f' hat' pc hjob
    cases hat'
    rw [List.getElem?_concat_length] at hjob
    cases hjob
    show (awaiter f.step).await_resume (HandlerPc.stores.fill o f.step { f.members with m_additional_info := _ }) = _
    rw [hway.1]
    rfl

/-- A handler that has not ended is the one of the await at which the coroutine is. -/
theorem Inv.held_current (h : Inv o s) {i n : Nat} {pc : HandlerPc} (hcur : s.current i = some (n, ⟨pc, false⟩)) :
    ∃ f, s.coro = .completed n f ∧ s.jobs[n]? = some ⟨pc, false⟩ := by
  obtain ⟨_, _, _, hjob⟩ := current_runs hcur
  have hheld := h.lanes.live n pc hjob
  cases hat : s.coro with
  | completed m f =>
      rw [hat] at hheld
      cases hheld
      exact ⟨f, rfl, hjob⟩
  | running | suspending | pending | resumed | finished =>
      rw [hat] at hheld
      cases hheld

/-- **A statement of a handler**: it stores what was delivered, -/
theorem Inv.stores (h : Inv o s) {n : Nat} {f : Frame} (hat : s.coro = .completed n f)
    (hjob : s.jobs[n]? = some ⟨.stores, false⟩) :
    Inv o { s with coro := .completed n { f with members := HandlerPc.stores.fill o f.step f.members },
                   jobs := s.jobs.modify n fun job => { job with func := .resumes } } := by
  have hway := h.way
  have hlanes := h.lanes.go hjob (g := .resumes) rfl
  rw [hat] at hway hlanes
  refine ⟨h.pool, h.block_of (by simp [hat]), h.turn, hlanes, ?_, hway, h.fault⟩
  intro m f' hat' pc hget
  cases hat'
  rw [List.getElem?_modify_eq, hjob] at hget
  cases hget
  exact h.ready n f hat .stores hjob

/-- or resumes the coroutine. -/
theorem Inv.resumes (h : Inv o s) {n : Nat} {f : Frame} (hat : s.coro = .completed n f)
    (hjob : s.jobs[n]? = some ⟨.resumes, false⟩) :
    Inv o { s with coro := .resumed f, jobs := s.jobs.modify n fun job => { job with ended := true } } := by
  have hway := h.way
  have hlanes := h.lanes
  rw [hat] at hway hlanes
  refine ⟨h.pool, h.block_of (by simp [hat]), h.turn, ?_, ?_, ⟨h.ready n f hat .resumes hjob, hway⟩, h.fault⟩
  · have hended := hlanes.ended (o := ()) (n := n) rfl
    rw [update_held] at hended
    exact hended
  · intro m f' hat'
    cases hat'

theorem run_stores {n : Nat} {f : Frame} (hat : s.coro = .completed n f) :
    run o s n .stores = { s with coro := .completed n { f with members := HandlerPc.stores.fill o f.step f.members },
                                 jobs := s.jobs.modify n fun job => { job with func := .resumes } } := by
  simp [run, hat]

theorem run_resumes {n : Nat} {f : Frame} (hat : s.coro = .completed n f) :
    run o s n .resumes =
      { s with coro := .resumed f, jobs := s.jobs.modify n fun job => { job with ended := true } } := by
  simp [run, hat]

theorem Inv.run (h : Inv o s) {i n : Nat} {pc : HandlerPc} (hcur : s.current i = some (n, ⟨pc, false⟩)) :
    Inv o (run o s n pc) := by
  obtain ⟨f, hat, hjob⟩ := h.held_current hcur
  cases pc with
  | stores => exact run_stores hat ▸ h.stores hat hjob
  | resumes => exact run_resumes hat ▸ h.resumes hat hjob

/-! ## The step lemma -/

/-- `ctx` is the first context, -/
theorem Inv.context_eq (h : Inv o s) {c : Address} (hc : s.context = some c) : c = 0 := by
  have hblock := h.block
  cases hpc : s.main with
  | start | context =>
      rw [hpc] at hblock
      rw [hblock.2] at hc
      cases hc
  | blockingWait =>
      rw [hpc] at hblock
      exact Option.some.inj (hc.symm.trans hblock.2)
  | stop | returned | exited =>
      rw [hpc] at hblock
      exact Option.some.inj (hc.symm.trans hblock.2.1)
  | pool | terminated =>
      rw [hpc] at hblock
      exact hblock.elim

/-- and that is the one that `getIoContext()` gives. -/
theorem Inv.getIoContext (h : Inv o s) (hc : s.context = none) :
    s.system.pool.getIoContext = some (0, { s.system.pool with m_next_io_context := 1 }) := by
  have hnext := h.turn hc
  have hall := h.pool.contexts
  simp [IoContextPool.getIoContext, hnext, hall]

/-- **The step lemma.** -/
theorem Inv.step (h : Inv o s) {a : Action} (hs : MysqlProgram.step o s a = some s') : Inv o s' := by
  have hm := step_moved hs
  have hblock := h.block
  cases hm with
  | pool hpc =>
      rw [hpc] at hblock
      exact hblock.elim
  | start hpc hc hcaller => exact h.start hpc hc hcaller
  | started hpc hc =>
      rw [hpc] at hblock
      exact ⟨h.pool, ⟨hc, hblock.2⟩, h.turn, h.lanes, h.ready, h.way, h.fault⟩
  | @context context pool hpc hget =>
      rw [hpc] at hblock
      obtain ⟨hc, hcontext⟩ := hblock
      rw [h.getIoContext hcontext] at hget
      cases hget
      refine ⟨?_, ⟨hc, rfl⟩, nofun, h.lanes.rehome (by simp [hcontext]), h.ready, h.way, h.fault⟩
      exact ⟨h.pool.contexts, h.pool.work, h.pool.created, h.pool.threads, h.pool.queued, h.pool.called,
        h.pool.unstopped, h.pool.joined⟩
  | outside hpc hget =>
      rw [hpc] at hblock
      rw [h.getIoContext hblock.2] at hget
      cases hget
  | coro hpc hm => exact h.coro hpc hm
  | stop hpc _ hcaller => exact h.stop hpc hcaller
  | stopped hpc hc =>
      rw [hpc] at hblock
      exact ⟨h.pool, ⟨hc, hblock.2⟩, h.turn, h.lanes, h.ready, h.way, h.fault⟩
  | enter hp => exact h.poolStep_perm hp (h.thread_block hp (by simp)) fun c => .of_eq (enter_lane (Pool.step_moved hp) c)
  | dispatch hp => exact h.poolStep_perm hp (h.thread_block hp (by simp)) fun c => dispatch_lane h.pool (Pool.step_moved hp) c
  | leave hp => exact h.poolStep_perm hp (h.thread_block hp (by simp)) fun c => .of_eq (leave_lane (Pool.step_moved hp) c)
  | run hcur => exact h.run hcur
  | finish hcur hp => exact h.finish hcur hp
  | completes hat hcontext => exact h.completes hat hcontext

/-! ## The rank of a state -/

def MainPc.rank : MainPc → Nat
  | .pool => 6
  | .start => 5
  | .context => 4
  | .blockingWait => 3
  | .stop => 2
  | .returned | .exited _ | .terminated => 1

/-- The statements of a handler. -/
def handlerRank (jobs : List (Job HandlerPc)) (n : Nat) : Nat :=
  match jobs[n]? with
  | some ⟨.stores, false⟩ => 2
  | some ⟨.resumes, false⟩ => 1
  | _ => 0

/-- The task after the await. -/
def Frame.cost (o : Outcomes) (f : Frame) : Nat := (f.next (answer o f.step)).cost (answer o)

/-- What the coroutine, its operations and their handlers have before them. -/
def coroRank (o : Outcomes) (jobs : List (Job HandlerPc)) : CoroPc → Nat
  | .running rest  => 8 * rest.cost (answer o) + 1
  | .suspending f  => 8 * f.cost o + 8
  | .pending f     => 8 * f.cost o + 7
  | .completed n f => 8 * f.cost o + 2 + handlerRank jobs n
  | .resumed f     => 8 * f.cost o + 2
  | .finished _    => 0

def Program.rank (o : Outcomes) (s : Program) : Nat := s.main.rank + coroRank o s.jobs s.coro + s.system.rank 8

/-- The pool takes a step. -/
theorem Inv.rank_pool (h : Inv o s) {a : Pool.Action} {system : System} (hpost : NoPost s.system a)
    (hs : Pool.step s.system a = some system) : Program.rank o { s with system := system } < s.rank o :=
  Nat.add_lt_add_left (h.pool.rank_lt hpost hs) _

/-- A post adds the rank of a handler to its context. -/
theorem add_rank {system : System} {k c : Nat} (hc : c < k) (n : Nat) :
    (Executor.add ⟨c⟩ n system).rank k = system.rank k + 2 := by
  have hself : (Executor.add ⟨c⟩ n system).share c = system.share c + 2 := by
    simp [System.share, Executor.add, System.post, System.setContext]
    omega
  have hothers : ∀ i ∈ (Finset.range k).erase c, (Executor.add ⟨c⟩ n system).share i = system.share i := by
    intro i hi
    exact setContext_share_ne (Ne.symm (Finset.ne_of_mem_erase hi)) _
  have hmem := Finset.mem_range.mpr hc
  unfold System.rank
  rw [← Finset.add_sum_erase _ _ hmem, ← Finset.add_sum_erase _ _ hmem, Finset.sum_congr rfl hothers, hself]
  show system.caller.rank k + (system.share c + 2 + ∑ i ∈ (Finset.range k).erase c, system.share i) =
    system.caller.rank k + (system.share c + ∑ i ∈ (Finset.range k).erase c, system.share i) + 2
  omega

/-- **A statement of the coroutine** lowers the rank. -/
theorem Inv.rank_coro (h : Inv o s) (hpc : s.main = .blockingWait) (hm : CoroMoved s s') : s'.rank o < s.rank o := by
  have hway := h.way
  cases hm with
  | done hat | leave hat | note hat | ask hat | initiate hat =>
      simp only [Program.rank, hat, coroRank, Resumable.cost, Frame.cost]
      omega
  | resume hat =>
      rw [hat] at hway
      simp only [Program.rank, hat, coroRank, Frame.cost, hway.1]
      omega
  | exit hat | returns hat =>
      simp only [Program.rank, hpc, MainPc.rank]
      omega

/-- **A statement of a handler** lowers it, too. -/
theorem Inv.rank_run (h : Inv o s) {i n : Nat} {pc : HandlerPc} (hcur : s.current i = some (n, ⟨pc, false⟩)) :
    Program.rank o (MysqlProgram.run o s n pc) < s.rank o := by
  obtain ⟨f, hat, hjob⟩ := h.held_current hcur
  cases pc with
  | stores =>
      rw [run_stores hat]
      simp only [Program.rank, hat, coroRank, Frame.cost, handlerRank, List.getElem?_modify_eq, hjob, Option.map_eq_map,
        Option.map_some]
      omega
  | resumes =>
      rw [run_resumes hat]
      simp only [Program.rank, hat, coroRank, handlerRank, hjob]
      omega

/-- **Every step lowers the rank.** -/
theorem Inv.rank_lt (h : Inv o s) {a : Action} (hs : MysqlProgram.step o s a = some s') : s'.rank o < s.rank o := by
  have hblock := h.block
  cases step_moved hs with
  | pool hpc =>
      rw [hpc] at hblock
      exact hblock.elim
  | outside hpc hget =>
      rw [hpc] at hblock
      rw [h.getIoContext hblock.2] at hget
      cases hget
  | started hpc hc | stopped hpc hc =>
      simp only [Program.rank, hpc, MainPc.rank]
      omega
  | @context context pool hpc hget =>
      rw [hpc] at hblock
      rw [h.getIoContext hblock.2] at hget
      cases hget
      have hsame : System.rank 8 { s.system with pool := { s.system.pool with m_next_io_context := 1 } } =
          s.system.rank 8 := rfl
      simp only [Program.rank, hpc, MainPc.rank, hsame]
      omega
  | coro hpc hm => exact h.rank_coro hpc hm
  | start _ _ hp | stop _ _ hp => exact h.rank_pool (a := .caller) trivial hp
  | @enter i _ hp => exact h.rank_pool (a := .enter i) trivial hp
  | @dispatch i n _ hp => exact h.rank_pool (a := .dispatch i n) trivial hp
  | @leave i _ hp => exact h.rank_pool (a := .leave i) trivial hp
  | @finish i _ _ _ _ hp => exact h.rank_pool (a := .finish i) trivial hp
  | run hcur => exact h.rank_run hcur
  | @completes f context hat hcontext =>
      -- the operation is worth its handler and the post
      obtain rfl := h.context_eq hcontext
      simp only [Program.rank, hat, coroRank, Frame.cost, handlerRank, List.getElem?_concat_length,
        add_rank (show 0 < 8 by decide)]
      omega

/-! ## Nothing blocks before the end -/

/-- Where no step is left the pool has none: a handler could go on. -/
theorem Inv.stuck_pool (h : Inv o s) (hmain : s.main.ended = false) (hstuck : (program o).Stuck Anything s)
    {a : Pool.Action} (hpost : NoPost s.system a) (ha : a ≠ .caller) : Pool.step s.system a = none := by
  have hstep : ∀ a, MysqlProgram.step o s a = none := fun a => hstuck a trivial
  cases a with
  | caller => exact absurd rfl ha
  | add => exact hpost.elim
  | enter i =>
      have := hstep (.enter i)
      simpa [MysqlProgram.step, hmain, MysqlProgram.poolStep] using this
  | dispatch i n =>
      have := hstep (.dispatch i n)
      simpa [MysqlProgram.step, hmain, MysqlProgram.poolStep] using this
  | leave i =>
      have := hstep (.leave i)
      simpa [MysqlProgram.step, hmain, MysqlProgram.poolStep] using this
  | finish i =>
      by_contra hne
      obtain ⟨system, hsystem⟩ := Option.ne_none_iff_exists'.mp hne
      have hm := Pool.step_moved hsystem
      cases hm with
      | @finish _ th hth hpc =>
        obtain ⟨hd, hpc⟩ := runs_self.mp hpc
        obtain ⟨job, hjob, _⟩ := h.lanes.placed i hd.func (System.Runs.mem ⟨th, hth, hpc⟩)
        have hcur : s.current i = some (hd.func, job) := by
          simp [Program.current, hth, hpc, hjob]
        obtain ⟨pc, ended⟩ := job
        cases ended with
        | true =>
            have := hstep (.finish i)
            simp [MysqlProgram.step, hmain, hcur, MysqlProgram.poolStep, hsystem] at this
        | false =>
            have := hstep (.run i)
            simp [MysqlProgram.step, hmain, hcur] at this

/-- A handler that is posted while the pool runs does not stay there. -/
theorem Inv.not_held (h : Inv o s) (hpc : s.main = .blockingWait) (hstuck : (program o).Stuck Anything s) {n : Nat}
    {f : Frame} (hat : s.coro = .completed n f) : False := by
  have hblock := h.block
  rw [hpc] at hblock
  obtain ⟨hc, hcontext⟩ := hblock
  have hheld := h.lanes.held () n (by rw [hat]; rfl)
  obtain ⟨_, c, _, _, hhome, hmem⟩ := hheld
  rw [hcontext] at hhome
  cases hhome
  obtain ⟨th, hth, _⟩ := h.pool.thread_of_created (by rw [hc]; rfl) (show 0 < 8 by decide)
  have hgo : (s.system.contexts 0).stopped = false := by
    by_contra hne
    have hcalled := h.pool.called 0 (by simpa using hne)
    rw [hc] at hcalled
    exact hcalled
  obtain ⟨hrun, hqueue⟩ := h.pool.idle hth hgo fun a => h.stuck_pool (by rw [hpc]; rfl) hstuck
  rw [System.posted, lane_of_thread hth, Thread.current_of_inRun hrun, hqueue] at hmem
  cases hmem

/-- **Nothing blocks before the process is over.** -/
theorem Inv.stuck (h : Inv o s) (hstuck : (program o).Stuck Anything s) : s.main.ended = true := by
  cases hended : s.main.ended with
  | true => rfl
  | false =>
    have hblock := h.block
    have hstep : mainStep s = none := by
      have := hstuck .main trivial
      simpa [program, MysqlProgram.step, hended] using this
    have hpool : ∀ a, NoPost s.system a → a ≠ .caller → Pool.step s.system a = none :=
      fun a => h.stuck_pool hended hstuck
    cases hpc : s.main with
    | returned | exited | terminated =>
        rw [hpc] at hended
        cases hended
    | pool =>
        rw [hpc] at hblock
        exact hblock.elim
    | start =>
        rw [hpc] at hblock
        obtain ⟨hc | ⟨rest, hc⟩ | hc, _⟩ := hblock
        · simp [mainStep, hpc, hc, callerStep] at hstep
        · cases rest <;> simp [mainStep, hpc, hc, callerStep] at hstep
        · simp [mainStep, hpc, hc] at hstep
    | context =>
        rw [hpc] at hblock
        simp [mainStep, hpc, h.getIoContext hblock.2] at hstep
    | stop =>
        -- `stop()` returns
        have hcaller : s.system.caller = .stopped := by
          by_contra hne
          refine hne (h.pool.stuck fun a hpost => ?_)
          cases a with
          | caller => simpa [mainStep, hpc, hne, Pool.step] using hstep
          | enter | dispatch | finish | leave | add => exact hpool _ hpost (by simp)
        simp [mainStep, hpc, hcaller] at hstep
    | blockingWait =>
        rw [hpc] at hblock
        simp only [mainStep, hpc, coroStep] at hstep
        cases hat : s.coro with
        | completed n f => exact (h.not_held hpc hstuck hat).elim
        | pending f =>
            have := hstuck .completes trivial
            simp [program, MysqlProgram.step, hended, hat, hblock.2] at this
        | running rest => cases rest <;> simp [hat] at hstep
        | suspending | resumed => simp [hat] at hstep
        | finished end_ =>
            cases end_ with
            | ok => simp [hat] at hstep
            | error e => cases e <;> simp [hat] at hstep

/-! ## The guarantee -/

/-- **The program does what it says line by line**, in a state of it: -/
structure AsWritten (o : Outcomes) (s : Program) : Prop where
  /-- what was issued and logged is a beginning of what that reading gives; -/
  trace    : s.trace ≤ (Mysql.main o).trace
  /-- when `main` returns it is all of it, and each of the eight threads has left `run()` and was joined; -/
  returned : s.main = .returned → Mysql.main o = { trace := s.trace, stopped := true, status := 0 } ∧
    s.system.pool.m_threads.length = 8 ∧ ∀ th ∈ s.system.pool.m_threads, th.pc = .exited ∧ th.joinable = false
  /-- when the process exits elsewhere, that reading says so; -/
  exited   : ∀ status, s.main = .exited status → Mysql.main o = { trace := s.trace, stopped := false, status }
  /-- a handler that has not ended is on the first context, and the coroutine is suspended for it; -/
  alone    : ∀ n pc, s.jobs[n]? = some ⟨pc, false⟩ → n ∈ s.system.posted 0 ∧ ∃ f, s.coro = .completed n f
  /-- no handler finds the coroutine elsewhere, and nothing is thrown; -/
  sound    : s.fault = false ∧ s.main ≠ .terminated
  /-- there are only so many steps to take, -/
  bounded  : ∃ bound, ∀ n t, (program o).StepsN Anything n s t → n ≤ bound
  /-- and none is missing: where every operation completes, every run gets to one of the two ends. -/
  ends     : ∀ t, (program o).Steps Anything s t → (program o).Stuck Anything t →
    t.main = .returned ∨ ∃ status, t.main = .exited status

/-- Before the pool is there, and after. -/
inductive Stage (o : Outcomes) : Program → Prop
  | start : Stage o (program o).start
  | running {s : Program} (h : Inv o s) : Stage o s

theorem Stage.step (h : Stage o s) {a : Action} (hs : MysqlProgram.step o s a = some s') : Stage o s' := by
  cases h with
  | running h => exact .running (h.step hs)
  | start =>
      cases step_moved hs with
      | @pool pool _ hpool =>
          obtain ⟨_, rfl⟩ := IoContextPool.make_eq hpool
          refine .running ⟨reachable_inv hpool .start, ⟨.inl rfl, rfl⟩, fun _ => rfl, .empty, nofun, ?_, rfl⟩
          exact task_run {}
      | start hpc | started hpc | context hpc | outside hpc | coro hpc | stop hpc | stopped hpc => cases hpc
      | enter hp | dispatch hp | leave hp => cases hp
      | run hcur | finish hcur => cases hcur
      | completes hat => cases hat

theorem reachable_stage (h : (program o).Reachable Anything s) : Stage o s :=
  h.invariant .start fun _ hi _ hs => hi.step hs

theorem Stage.rank_lt (h : Stage o s) {a : Action} (hs : MysqlProgram.step o s a = some s') : s'.rank o < s.rank o := by
  cases h with
  | running h => exact h.rank_lt hs
  | start =>
      cases step_moved hs with
      | @pool pool _ hpool =>
          obtain ⟨_, rfl⟩ := IoContextPool.make_eq hpool
          exact Nat.add_lt_add_right (Nat.add_lt_add_right (by decide : 5 < 6) _) _
      | start hpc | started hpc | context hpc | outside hpc | coro hpc | stop hpc | stopped hpc => cases hpc
      | enter hp | dispatch hp | leave hp => cases hp
      | run hcur | finish hcur => cases hcur
      | completes hat => cases hat

theorem Stage.stuck (h : Stage o s) (hstuck : (program o).Stuck Anything s) :
    s.main = .returned ∨ ∃ status, s.main = .exited status := by
  cases h with
  | start =>
      have := hstuck .main trivial
      simp [program, MysqlProgram.step, MainPc.ended, mainStep, IoContextPool.make_of_pos] at this
  | running h =>
      have hended := h.stuck hstuck
      have hblock := h.block
      cases hpc : s.main with
      | returned => exact .inl rfl
      | exited status => exact .inr ⟨status, rfl⟩
      | terminated =>
          rw [hpc] at hblock
          exact hblock.elim
      | pool | start | context | blockingWait | stop =>
          rw [hpc] at hended
          cases hended

/-- How `main` ends, by how the coroutine does. -/
def runOf (t : Trace) : Except Exit Unit → Run
  | .error (.exit status)         => { trace := t, stopped := false, status }
  | .error .co_return | .ok _     => { trace := t, stopped := true, status := 0 }

theorem main_of_whole {end_ : Except Exit Unit} {t : Trace} (h : (end_, t) = whole o) : Mysql.main o = runOf t end_ := by
  unfold Mysql.main
  rw [show (Mysql.task o).from {} = (end_, t) from h.symm]
  cases end_ with
  | ok => rfl
  | error e => cases e <;> rfl

/-- On the way no more is done than at the end. -/
theorem OnWay.trace_le {t : Trace} {coro : CoroPc} (h : OnWay o t coro) : t ≤ (Mysql.main o).trace := by
  rw [main_trace]
  have hframe : ∀ f : Frame, f.OnWay o t → t ≤ (whole o).2 := by
    intro f hf
    rw [← show _ = whole o from hf]
    exact record_grows o _ t
  cases coro with
  | running rest =>
      have hrest : rest.run record (answer o) t = whole o := h
      show t ≤ (whole o).2
      rw [← hrest]
      exact record_grows o rest t
  | suspending f | pending f | resumed f => exact hframe f h.2
  | completed n f => exact hframe f h
  | finished end_ =>
      have hend : (end_, t) = whole o := h
      show t ≤ (whole o).2
      rw [← hend]

theorem Inv.asWritten_returned (h : Inv o s) (hpc : s.main = .returned) :
    Mysql.main o = { trace := s.trace, stopped := true, status := 0 } := by
  have hblock := h.block
  have hway := h.way
  rw [hpc] at hblock
  obtain ⟨_, _, end_, hat, hend⟩ := hblock
  rw [hat] at hway
  rw [main_of_whole hway]
  cases end_ with
  | ok => rfl
  | error e =>
      cases e with
      | co_return => rfl
      | exit status => exact absurd rfl (hend status)

/-- **Every run of the program is as written**, whatever the steps deliver, and in whatever order the threads go. -/
theorem as_written (o : Outcomes) : ∀ s, (program o).Reachable Anything s → AsWritten o s := by
  intro s hs
  have hstage := reachable_stage hs
  have hkeep : ∀ {t a u}, Stage o t → Anything t a → (program o).step t a = some u → Stage o u :=
    fun ht _ hstep => ht.step hstep
  have hbounded : ∃ bound, ∀ n t, (program o).StepsN Anything n s t → n ≤ bound := by
    refine ⟨s.rank o, fun n t hn => ?_⟩
    have := hn.measure hkeep (fun ht _ hstep => ht.rank_lt hstep) hstage
    omega
  have hends : ∀ t, (program o).Steps Anything s t → (program o).Stuck Anything t →
      t.main = .returned ∨ ∃ status, t.main = .exited status :=
    fun t hsteps hstuck => (hsteps.invariant hstage hkeep).stuck hstuck
  cases hstage with
  | start =>
      refine ⟨?_, nofun, nofun, nofun, ⟨rfl, nofun⟩, hbounded, hends⟩
      exact ⟨List.nil_prefix, List.nil_prefix, List.nil_prefix⟩
  | running h =>
      have hblock := h.block
      refine ⟨h.way.trace_le, ?_, ?_, ?_, ⟨h.fault, ?_⟩, hbounded, hends⟩
      · intro hpc
        rw [hpc] at hblock
        exact ⟨h.asWritten_returned hpc, (h.pool.oneThreadPerContext {}).ended hblock.1⟩
      · intro status hpc
        rw [hpc] at hblock
        have hway := h.way
        rw [hblock.2.2] at hway
        exact main_of_whole hway
      · intro n pc hjob
        have hheld := h.lanes.live n pc hjob
        obtain ⟨_, c, _, _, hhome, hmem⟩ := h.lanes.held () n hheld
        cases hat : s.coro with
        | completed m f =>
            rw [hat] at hheld
            cases hheld
            exact ⟨h.context_eq hhome ▸ hmem, f, rfl⟩
        | running | suspending | pending | resumed | finished =>
            rw [hat] at hheld
            cases hheld
      · intro hpc
        rw [hpc] at hblock
        exact hblock

/-- The name of the server cannot be resolved. -/
def unresolved : Outcomes := { denied with resolve := ⟨⟨1⟩, {}, ⟨0⟩⟩ }

/-- Seven threads are started only when `stop()` has been called, and the first is still in the handler then. -/
def lateThreads : List Action := List.flatten
  [List.replicate 15 .main, [.completes, .enter 0, .dispatch 0 0, .run 0, .run 0], List.replicate 14 .main,
    [.finish 0], (List.range 7).map fun i => .enter (i + 1), (List.range 8).map .leave, List.replicate 10 .main]

theorem as_written_unresolved :
    ∃ h : ((program unresolved).exec Anything (program unresolved).start lateThreads).isSome,
      (Option.get _ h).main = .returned ∧ AsWritten unresolved (Option.get _ h) := by
  have hplays : ((program unresolved).exec Anything (program unresolved).start lateThreads).isSome := rfl
  exact ⟨hplays, rfl, as_written unresolved _ (reachable_get hplays)⟩

end AsyncCpp.MysqlProgram
