import Mathlib.Algebra.Order.BigOperators.Group.Finset
import AsyncCpp.Asio.IoContextPool

/-!
# `Asio.PoolThreads` — one thread per context, from `start()` to the end of `stop()`

## Contents
- `Inv k`, what holds in every reachable state of a pool of `k` contexts; `Inv.step`, `reachable_inv`.
- `Inv.outstandingWork_pos`: the tracked executor keeps an idle context at work.
- `System.rank`, `Inv.rank_lt`, `Inv.stuck`: without further posts every run ends, with `stop()` returned.
- `OneThreadPerContext`, `one_thread_per_context`.
-/

namespace AsyncCpp.Pool

open Machine

variable {k : Nat} {s s' : System}

/-! ## The phases of the caller -/

namespace Caller

/-- The contexts that have no thread yet. -/
def unstarted (all : List Address) : Caller → List Address
  | .constructed => all
  | .start rest  => rest
  | .started | .stop _ | .join _ | .stopped => []

/-- The contexts whose `stop()` was not called yet. -/
def unstopped (all : List Address) : Caller → List Address
  | .constructed | .start _ | .started => all
  | .stop rest => rest
  | .join _ | .stopped => []

/-- `IoContextPool::stop()` was called. -/
def StopCalled : Caller → Prop
  | .stop _ | .join _ | .stopped => True
  | .constructed | .start _ | .started => False

/-- The second loop of `stop()` has passed this entry of `m_threads`. -/
def Passed (j : Nat) : Caller → Prop
  | .join i  => j < i
  | .stopped => True
  | .constructed | .start _ | .started | .stop _ => False

end Caller

/-! ## The invariant -/

/-- What holds of one thread: its handler is of its own context, it left `run()` because that was stopped,
    and it was joined after it had left. -/
structure ThreadOk (contexts : Address → IoContext) (th : Thread) : Prop where
  own    : ∀ h, th.pc = .running h → h.context = th.context
  left   : th.pc = .exited → (contexts th.context).stopped = true
  joined : th.joinable = false → th.pc = .exited

theorem ThreadOk.mono {x y : Address → IoContext} {th : Thread} (h : ThreadOk x th)
    (hxy : ∀ c, (x c).stopped = true → (y c).stopped = true) : ThreadOk y th :=
  ⟨h.own, fun hx => hxy _ (h.left hx), h.joined⟩

/-- A thread that has not left moves on. -/
theorem ThreadOk.move {x : Address → IoContext} {th : Thread} (h : ThreadOk x th) (hpc : th.pc ≠ .exited)
    {pc : ThreadPc} (hown : ∀ h, pc = .running h → h.context = th.context)
    (hleft : pc = .exited → (x th.context).stopped = true) : ThreadOk x { th with pc } :=
  ⟨hown, hleft, fun hj => absurd (h.joined hj) hpc⟩

structure Inv (k : Nat) (s : System) : Prop where
  contexts  : s.pool.m_io_contexts = List.range k
  work      : s.pool.m_work = List.range k
  /-- One thread for each context, in their order. -/
  created   : s.pool.m_threads.map (·.context) ++ s.caller.unstarted (List.range k) = List.range k
  threads   : ∀ (i : Nat) (th : Thread), s.pool.m_threads[i]? = some th → ThreadOk s.contexts th
  queued    : ∀ c, ∀ h ∈ (s.contexts c).queue, h.context = c
  called    : ∀ c, (s.contexts c).stopped = true → s.caller.StopCalled
  unstopped : ∀ c, c < k → c ∉ s.caller.unstopped (List.range k) → (s.contexts c).stopped = true
  joined    : ∀ (j : Nat) (th : Thread), s.pool.m_threads[j]? = some th → s.caller.Passed j → th.joinable = false

/-- The context of a thread is one of the pool's. -/
theorem Inv.context_lt (hi : Inv k s) {i : Nat} {th : Thread} (hth : s.pool.m_threads[i]? = some th) :
    th.context < k := by
  have hmem : th.context ∈ s.pool.m_threads.map (·.context) ++ s.caller.unstarted (List.range k) :=
    List.mem_append_left _ (List.mem_map_of_mem (List.mem_of_getElem? hth))
  rwa [hi.created, List.mem_range] at hmem

/-- The thread at index `i` is the one of context `i`. -/
theorem Inv.context_eq (hi : Inv k s) {i : Nat} {th : Thread} (hth : s.pool.m_threads[i]? = some th) :
    th.context = i := by
  obtain ⟨hlt, _⟩ := List.getElem?_eq_some_iff.mp hth
  have hmap : (s.pool.m_threads.map (·.context) ++ s.caller.unstarted (List.range k))[i]? = some th.context := by
    rw [List.getElem?_append_left (by simpa using hlt), List.getElem?_map, hth, Option.map_some]
  rw [hi.created, List.getElem?_eq_some_iff] at hmap
  obtain ⟨_, heq⟩ := hmap
  rw [List.getElem_range] at heq
  exact heq.symm

/-- **The work guard**: the outstanding work of a context is never zero, idle or not. -/
theorem Inv.outstandingWork_pos (hi : Inv k s) {c : Address} (hc : c < k) : 0 < s.outstandingWork c := by
  -- one of the tracked executors is that of this context
  have hcount : 0 < s.pool.m_work.count c := by
    rw [hi.work]
    exact List.count_pos_iff.mpr (List.mem_range.mpr hc)
  unfold System.outstandingWork
  omega

/-! ## What the updates keep -/

theorem setThread_getElem? {i j : Nat} {f : Thread → Thread} {th' : Thread}
    (h : (s.setThread i f).pool.m_threads[j]? = some th') :
    ∃ th, s.pool.m_threads[j]? = some th ∧ (i ≠ j ∧ th' = th ∨ i = j ∧ th' = f th) := by
  simp only [System.setThread, List.getElem?_modify] at h
  obtain ⟨th, hth, heq⟩ := Option.map_eq_some_iff.mp h
  refine ⟨th, hth, ?_⟩
  by_cases hij : i = j
  · rw [if_pos hij] at heq
    exact .inr ⟨hij, heq.symm⟩
  · rw [if_neg hij] at heq
    exact .inl ⟨hij, heq.symm⟩

/-- A thread moves, and neither its context nor what was joined changes. -/
theorem Inv.setThread (hi : Inv k s) {i : Nat} {f : Thread → Thread}
    (hctx : ∀ th, (f th).context = th.context) (hj : ∀ th, th.joinable = false → (f th).joinable = false)
    (hok : ∀ th, s.pool.m_threads[i]? = some th → ThreadOk s.contexts (f th)) : Inv k (s.setThread i f) where
  contexts := hi.contexts
  work := hi.work
  created := by
    have hmap : (s.setThread i f).pool.m_threads.map (·.context) = s.pool.m_threads.map (·.context) := by
      apply List.ext_getElem?
      intro j
      simp only [System.setThread, List.getElem?_map, List.getElem?_modify]
      cases s.pool.m_threads[j]? with
      | none => rfl
      | some th =>
          by_cases hij : i = j
          · simp [hij, hctx]
          · simp [hij]
    rw [hmap]
    exact hi.created
  threads := by
    intro j th' hth'
    obtain ⟨th, hth, ⟨_, rfl⟩ | ⟨rfl, rfl⟩⟩ := setThread_getElem? hth'
    · exact hi.threads j th' hth
    · exact hok th hth
  queued := hi.queued
  called := hi.called
  unstopped := hi.unstopped
  joined := by
    intro j th' hth' hp
    obtain ⟨th, hth, ⟨_, rfl⟩ | ⟨rfl, rfl⟩⟩ := setThread_getElem? hth'
    · exact hi.joined j th' hth hp
    · exact hj th (hi.joined i th hth hp)

/-- The queue of a context changes. -/
theorem Inv.setQueue (hi : Inv k s) {c : Address} {queue : List Handler} (hq : ∀ h ∈ queue, h.context = c) :
    Inv k (s.setContext c { s.contexts c with queue }) := by
  have hstopped : ∀ c', ((s.setContext c { s.contexts c with queue }).contexts c').stopped
      = (s.contexts c').stopped := by
    intro c'
    by_cases hcc : c' = c
    · subst hcc
      simp [System.setContext]
    · simp [System.setContext, hcc]
  refine ⟨hi.contexts, hi.work, hi.created, fun i th hth => (hi.threads i th hth).mono ?_,
    ?_, fun c' hc' => hi.called c' ?_, ?_, hi.joined⟩
  · intro c' hc'
    rw [hstopped, hc']
  · intro c' h hh
    by_cases hcc : c' = c
    · subst hcc
      simp only [System.setContext, Function.update_self] at hh
      exact hq h hh
    · simp only [System.setContext, Function.update_of_ne hcc] at hh
      exact hi.queued c' h hh
  · rw [← hstopped, hc']
  · intro c' hlt hc'
    rw [hstopped]
    exact hi.unstopped c' hlt hc'

/-- The second loop of `stop()` goes on from an entry that is joined. -/
theorem Inv.pass (hi : Inv k s) {j : Nat} (hpc : s.caller = .join j)
    (hj : ∀ th, s.pool.m_threads[j]? = some th → th.joinable = false) :
    Inv k { s with caller := .join (j + 1) } := by
  obtain ⟨hctx, hwork, hcreated, hthreads, hqueued, hcalled, hunstopped, hjoined⟩ := hi
  rw [hpc] at hcreated hunstopped hjoined
  refine ⟨hctx, hwork, hcreated, hthreads, hqueued, fun _ _ => trivial, hunstopped, ?_⟩
  intro i th hth hp
  rcases Nat.lt_succ_iff_lt_or_eq.mp hp with hlt | rfl
  · exact hjoined i th hth hlt
  · exact hj th hth

/-! ## The step lemma -/

/-- A statement of `start()` or `stop()`. -/
theorem Inv.caller (hi : Inv k s) (hm : Moved s .caller s') : Inv k s' := by
  have ⟨hctx, hwork, hcreated, hthreads, hqueued, hcalled, hunstopped, hjoined⟩ := hi
  cases hm with
  | callStart hpc =>
      rw [hpc] at hcreated hunstopped hcalled
      exact ⟨hctx, hwork, hctx ▸ hcreated, hthreads, hqueued, hcalled, hunstopped, nofun⟩
  | @create c rest hpc =>
      rw [hpc] at hcreated hunstopped hcalled
      refine ⟨hctx, hwork, ?_, ?_, hqueued, hcalled, hunstopped, nofun⟩
      · simpa [System.addThread, Caller.unstarted] using hcreated
      · intro i th hth
        rcases List.mem_append.mp (List.mem_of_getElem? hth) with hold | hnew
        · obtain ⟨j, hj⟩ := List.getElem?_of_mem hold
          exact hthreads j th hj
        · obtain rfl := List.mem_singleton.mp hnew
          exact ⟨nofun, nofun, nofun⟩
  | started hpc =>
      rw [hpc] at hcreated hunstopped hcalled
      exact ⟨hctx, hwork, hcreated, hthreads, hqueued, hcalled, hunstopped, nofun⟩
  | callStop hpc =>
      rw [hpc] at hcreated hunstopped hcalled
      exact ⟨hctx, hwork, hcreated, hthreads, hqueued, fun _ _ => trivial, hctx ▸ hunstopped, nofun⟩
  | @stopContext c rest hpc =>
      rw [hpc] at hcreated hunstopped
      have hmono : ∀ c', (s.contexts c').stopped = true →
          ((s.setContext c { s.contexts c with stopped := true }).contexts c').stopped = true := by
        intro c' hc'
        by_cases hcc : c' = c
        · simp [System.setContext, hcc]
        · simpa [System.setContext, hcc] using hc'
      refine ⟨hctx, hwork, hcreated, fun i th hth => (hthreads i th hth).mono hmono, ?_,
        fun _ _ => trivial, ?_, nofun⟩
      · intro c' h hh
        by_cases hcc : c' = c
        · subst hcc
          simp only [System.setContext, Function.update_self] at hh
          exact hqueued c' h hh
        · simp only [System.setContext, Function.update_of_ne hcc] at hh
          exact hqueued c' h hh
      · intro c' hlt hc'
        by_cases hcc : c' = c
        · simp [System.setContext, hcc]
        · exact hmono c' (hunstopped c' hlt (by simpa [Caller.unstopped, hcc] using hc'))
  | allStopped hpc =>
      rw [hpc] at hcreated hunstopped
      exact ⟨hctx, hwork, hcreated, hthreads, hqueued, fun _ _ => trivial, hunstopped, nofun⟩
  | @stopped j hpc hth =>
      rw [hpc] at hcreated hunstopped hjoined
      refine ⟨hctx, hwork, hcreated, hthreads, hqueued, fun _ _ => trivial, hunstopped, ?_⟩
      intro i th hi _
      have hlen := (List.getElem?_eq_some_iff.mp hi).1
      exact hjoined i th hi (Nat.lt_of_lt_of_le hlen (List.getElem?_eq_none_iff.mp hth))
  | @skip j th hpc hth hj =>
      apply Inv.pass hi hpc
      intro th' hth'
      rw [hth] at hth'
      cases hth'
      exact hj
  | @join j th hpc hth hx =>
      have hset : Inv k (s.setThread j fun th => { th with joinable := false }) := by
        refine hi.setThread (fun _ => rfl) (fun _ _ => rfl) ?_
        intro th' hth'
        rw [hth] at hth'
        cases hth'
        have hok := hi.threads j th hth
        exact ⟨hok.own, hok.left, fun _ => hx⟩
      apply hset.pass hpc
      intro th' hth'
      obtain ⟨_, _, ⟨hne, _⟩ | ⟨_, rfl⟩⟩ := setThread_getElem? hth'
      · exact absurd rfl hne
      · rfl

/-- A thread of the pool that has not left moves on. -/
theorem Inv.moveThread (hi : Inv k s) {i : Nat} {th : Thread} (hth : s.pool.m_threads[i]? = some th)
    (hne : th.pc ≠ .exited) {pc : ThreadPc} (hown : ∀ h, pc = .running h → h.context = th.context)
    (hleft : pc = .exited → (s.contexts th.context).stopped = true) :
    Inv k (s.setThread i fun th => { th with pc }) := by
  refine hi.setThread (fun _ => rfl) (fun _ hj => hj) ?_
  intro th' hth'
  rw [hth] at hth'
  cases hth'
  exact (hi.threads i th hth).move hne hown hleft

theorem runs_self {th : Thread} : th.runs th.context = true ↔ ∃ h, th.pc = .running h := by
  unfold Thread.runs
  split
  · next h hpc => simp [hpc]
  · next hne =>
    constructor
    · nofun
    · rintro ⟨h, hpc⟩
      exact absurd hpc (hne h)

/-- **The step lemma.** Every step of the caller, of a thread and of those who post keeps the invariant. -/
theorem Inv.step (hi : Inv k s) {a : Action} (hs : Pool.step s a = some s') : Inv k s' := by
  have hm := step_moved hs
  cases hm with
  | callStart | create | started | callStop | stopContext | allStopped | stopped | skip | join =>
      exact hi.caller (step_moved hs)
  | enter hth hpc => exact hi.moveThread hth (hpc ▸ nofun) nofun nofun
  | @dispatch i n th h hth hpc _ hh =>
      have hmem := List.mem_of_getElem? hh
      have hqueue : ∀ h' ∈ (s.contexts th.context).queue.eraseIdx n, h'.context = th.context := fun h' hh' =>
        hi.queued _ h' (List.mem_of_mem_eraseIdx hh')
      refine (hi.setQueue hqueue).moveThread hth (hpc ▸ nofun) ?_ nofun
      rintro h' ⟨rfl⟩
      exact hi.queued _ h hmem
  | finish hth hpc =>
      obtain ⟨h, hpc⟩ := runs_self.mp hpc
      exact hi.moveThread hth (hpc ▸ nofun) nofun nofun
  | leave hth hpc hout =>
      -- the tracked executor leaves `stop()` as the only way out
      refine hi.moveThread hth (hpc ▸ nofun) nofun fun _ => hout.resolve_right ?_
      intro hzero
      have := hi.outstandingWork_pos (hi.context_lt hth)
      omega
  | @add by_ e func _ _ =>
      apply hi.setQueue
      intro h hh
      rcases List.mem_append.mp hh with hold | hnew
      · exact hi.queued _ h hold
      · rw [List.mem_singleton.mp hnew]

theorem reachable_inv {pool : IoContextPool} (hpool : IoContextPool.make k = .ok pool)
    (h : (system pool).Reachable Anything s) : Inv k s := by
  obtain ⟨_, rfl⟩ := IoContextPool.make_eq hpool
  refine h.invariant ?_ fun _ hi _ hs => hi.step hs
  exact ⟨rfl, rfl, rfl, nofun, nofun, nofun, fun c hlt hc => absurd (List.mem_range.mpr hlt) hc, nofun⟩

/-! ## `stop()` returns -/

/-- Nobody posts. -/
def NoPost (_ : System) : Action → Prop
  | .add .. => False
  | .caller | .enter _ | .dispatch .. | .finish _ | .leave _ => True

def Caller.rank (k : Nat) : Caller → Nat
  | .constructed => 3 * k + 5
  | .start rest => rest.length + 2 * k + 4
  | .started => 2 * k + 3
  | .stop rest => rest.length + k + 2
  | .join j => k - j + 1
  | .stopped => 0

def ThreadPc.rank : ThreadPc → Nat
  | .created => 2
  | .inRun => 1
  | .running _ => 2
  | .exited => 0

/-- The steps that the thread of context `i` and the handlers in its queue have before them. -/
def System.share (s : System) (i : Nat) : Nat :=
  (s.pool.m_threads[i]?.elim 3 fun th => th.pc.rank) + 2 * (s.contexts i).queue.length

def System.rank (k : Nat) (s : System) : Nat := s.caller.rank k + ∑ i ∈ Finset.range k, s.share i

/-- The caller takes a step, and no share grows. -/
theorem rank_lt_of_caller (hc : s'.caller.rank k < s.caller.rank k) (hshare : ∀ i, s'.share i ≤ s.share i) :
    s'.rank k < s.rank k := by
  have := Finset.sum_le_sum fun i (_ : i ∈ Finset.range k) => hshare i
  unfold System.rank
  omega

/-- A thread takes a step, and no other share grows. -/
theorem rank_lt_of_thread (hc : s'.caller = s.caller) {i : Nat} (hi : i < k) (hlt : s'.share i < s.share i)
    (hshare : ∀ j, i ≠ j → s'.share j ≤ s.share j) : s'.rank k < s.rank k := by
  unfold System.rank
  rw [hc]
  refine Nat.add_lt_add_left (Finset.sum_lt_sum ?_ ⟨i, Finset.mem_range.mpr hi, hlt⟩) _
  intro j _
  by_cases hij : i = j
  · exact hij ▸ hlt.le
  · exact hshare j hij

/-- The share of a thread that moves. -/
theorem setThread_share {i : Nat} {th : Thread} (hth : s.pool.m_threads[i]? = some th) (f : Thread → Thread) :
    (s.setThread i f).share i = (f th).pc.rank + 2 * (s.contexts i).queue.length := by
  simp [System.share, System.setThread, hth]

/-- The share of one that does not. -/
theorem setThread_share_ne {i j : Nat} (hij : i ≠ j) (f : Thread → Thread) :
    (s.setThread i f).share j = s.share j := by
  simp [System.share, System.setThread, hij]

theorem share_some {i : Nat} {th : Thread} (hth : s.pool.m_threads[i]? = some th) :
    s.share i = th.pc.rank + 2 * (s.contexts i).queue.length := by
  simp [System.share, hth]

/-- A new thread takes the place that was kept for it. -/
theorem addThread_share {c : Address} (i : Nat) : (s.addThread { context := c }).share i ≤ s.share i := by
  simp only [System.share, System.addThread, List.getElem?_append]
  split
  · exact le_rfl
  · next hge =>
    rw [List.getElem?_eq_none (Nat.le_of_not_lt hge)]
    cases i - s.pool.m_threads.length with
    | zero => simp [ThreadPc.rank]
    | succ j => simp

theorem setContext_share_ne {i c : Nat} (hic : c ≠ i) (x : IoContext) : (s.setContext c x).share i = s.share i := by
  simp [System.share, System.setContext, hic.symm]

/-- Nothing but the length of its queue counts of a context. -/
theorem setContext_share {c : Address} {x : IoContext} (hx : x.queue = (s.contexts c).queue) (i : Nat) :
    (s.setContext c x).share i = s.share i := by
  by_cases hic : c = i
  · subst hic
    simp [System.share, System.setContext, hx]
  · exact setContext_share_ne hic x

/-- A thread moves to a later point. -/
theorem Inv.moveThread_rank (hi : Inv k s) {i : Nat} {th : Thread} (hth : s.pool.m_threads[i]? = some th)
    {pc : ThreadPc} (hlt : pc.rank < th.pc.rank) :
    (s.setThread i fun th => { th with pc }).rank k < s.rank k := by
  have hik : i < k := hi.context_eq hth ▸ hi.context_lt hth
  refine rank_lt_of_thread rfl hik ?_ fun j hij => (setThread_share_ne hij _).le
  rw [setThread_share hth, share_some hth]
  exact Nat.add_lt_add_right hlt _

/-- **Every step but a post lowers the rank.** -/
theorem Inv.rank_lt (hi : Inv k s) {a : Action} (hE : NoPost s a) (hs : Pool.step s a = some s') :
    s'.rank k < s.rank k := by
  have hm := step_moved hs
  have hlen : s.pool.m_io_contexts.length = k := by rw [hi.contexts, List.length_range]
  cases hm with
  | callStart hpc =>
      exact rank_lt_of_caller (by simp only [hpc, Caller.rank]; omega) fun _ => le_rfl
  | @create c rest hpc =>
      apply rank_lt_of_caller (by simp only [hpc, Caller.rank, List.length_cons]; omega)
      intro i
      exact addThread_share i
  | started hpc | allStopped hpc | stopped hpc =>
      exact rank_lt_of_caller (by simp only [hpc, Caller.rank, List.length_nil]; omega) fun _ => le_rfl
  | callStop hpc =>
      exact rank_lt_of_caller (by simp only [hpc, Caller.rank]; omega) fun _ => le_rfl
  | @stopContext c rest hpc =>
      apply rank_lt_of_caller (by simp only [hpc, Caller.rank, List.length_cons]; omega)
      intro i
      exact (setContext_share (x := { s.contexts c with stopped := true }) rfl i).le
  | @skip j th hpc hth _ =>
      have hj : j < k := hi.context_eq hth ▸ hi.context_lt hth
      exact rank_lt_of_caller (by simp only [hpc, Caller.rank]; omega) fun _ => le_rfl
  | @join j th hpc hth _ =>
      have hj : j < k := hi.context_eq hth ▸ hi.context_lt hth
      apply rank_lt_of_caller (by simp only [hpc, Caller.rank]; omega)
      intro i
      by_cases hij : j = i
      · subst hij
        exact (setThread_share hth _).trans (share_some hth).symm |>.le
      · exact (setThread_share_ne hij _).le
  | enter hth hpc => exact hi.moveThread_rank hth (by rw [hpc]; decide)
  | @dispatch i n th h hth hpc _ hh =>
      have hik : i < k := hi.context_eq hth ▸ hi.context_lt hth
      have hqueue := List.length_eraseIdx_of_lt (List.getElem?_eq_some_iff.mp hh).1
      have hpos := (List.getElem?_eq_some_iff.mp hh).1
      rw [hi.context_eq hth] at hqueue hpos ⊢
      refine rank_lt_of_thread rfl hik ?_ ?_
      · rw [share_some hth, hpc]
        simp only [System.share, System.take, System.setThread, System.setContext, List.getElem?_modify_eq, hth,
          Option.map_eq_map, Option.map_some, Option.elim_some, Function.update_self, hqueue, ThreadPc.rank]
        omega
      · intro j hij
        unfold System.take
        rw [setThread_share_ne hij, setContext_share_ne hij]
  | finish hth hpc =>
      obtain ⟨h, hpc⟩ := runs_self.mp hpc
      exact hi.moveThread_rank hth (by rw [hpc]; exact Nat.one_lt_two)
  | leave hth hpc _ => exact hi.moveThread_rank hth (by rw [hpc]; decide)
  | add => exact hE.elim

/-- **Nothing blocks before `stop()` has returned.** A thread that `join` waits for has been stopped, and a
    stopped one can always go on to its end. -/
theorem Inv.stuck (hi : Inv k s) (hstuck : ∀ a, NoPost s a → Pool.step s a = none) : s.caller = .stopped := by
  have hcaller : callerStep s = none := hstuck .caller trivial
  unfold callerStep at hcaller
  split at hcaller
  case h_7 j hpc =>
    split at hcaller
    · exact absurd hcaller (by simp)
    · next th hth =>
      have hcontext : (s.contexts th.context).stopped = true :=
        hi.unstopped _ (hi.context_lt hth) (by simp [hpc, Caller.unstopped])
      have henter := hstuck (.enter j) trivial
      have hfinish := hstuck (.finish j) trivial
      have hleave := hstuck (.leave j) trivial
      cases hth_pc : th.pc with
      | created => simp [Pool.step, hth, hth_pc] at henter
      | inRun => simp [Pool.step, hth, hth_pc, hcontext] at hleave
      | running h => simp [Pool.step, hth, runs_self.mpr ⟨h, hth_pc⟩] at hfinish
      | exited =>
          rw [hth_pc, if_pos rfl] at hcaller
          split at hcaller <;> cases hcaller
  case h_8 hpc => exact hpc
  all_goals cases hcaller

/-! ## The guarantee -/

/-- **What a pool of `k` contexts promises** in a state of its system: -/
structure OneThreadPerContext (pool : IoContextPool) (k : Nat) (s : System) : Prop where
  /-- until `stop()` is called, no thread has left `run()`; -/
  alive : ¬ s.caller.StopCalled → ∀ th ∈ s.pool.m_threads, th.pc ≠ .exited
  /-- a handler is run by the one thread of the context it was posted to; -/
  own : ∀ (i : Nat) (th : Thread) (h : Handler), s.pool.m_threads[i]? = some th → th.pc = .running h →
    th.context = h.context ∧
      ∀ (j : Nat) (th' : Thread), s.pool.m_threads[j]? = some th' → th'.context = h.context → j = i
  /-- no two handlers of one context run at the same time; -/
  exclusive : ∀ (i j : Nat) (th th' : Thread) (h h' : Handler), s.pool.m_threads[i]? = some th →
    s.pool.m_threads[j]? = some th' → th.pc = .running h → th'.pc = .running h' → h.context = h'.context → i = j
  /-- when `stop()` has returned, each of the `k` threads has left `run()` and was joined, -/
  ended : s.caller = .stopped → s.pool.m_threads.length = k ∧
    ∀ th ∈ s.pool.m_threads, th.pc = .exited ∧ th.joinable = false
  /-- and no handler is running, then or ever after; -/
  silent : s.caller = .stopped → ∀ t, (system pool).Steps Anything s t →
    ∀ th ∈ t.pool.m_threads, ∀ h, th.pc ≠ .running h
  /-- and if nobody posts any more, that is where every run ends. -/
  returns : (∃ bound, ∀ n t, (system pool).StepsN NoPost n s t → n ≤ bound) ∧
    ∀ t, (system pool).Steps NoPost s t → (system pool).Stuck NoPost t → t.caller = .stopped

/-- When `stop()` has returned, it has passed every thread. -/
theorem Inv.exited (hi : Inv k s) (hpc : s.caller = .stopped) {th : Thread} (hth : th ∈ s.pool.m_threads) :
    th.pc = .exited ∧ th.joinable = false := by
  obtain ⟨i, hget⟩ := List.getElem?_of_mem hth
  have hj := hi.joined i th hget (by rw [hpc]; trivial)
  exact ⟨(hi.threads i th hget).joined hj, hj⟩

/-- The caller is over for good. -/
theorem stopped_step (hpc : s.caller = .stopped) {a : Action} (hs : Pool.step s a = some s') :
    s'.caller = .stopped := by
  have hm := step_moved hs
  cases hm with
  | callStart h | create h | started h | callStop h | stopContext h | allStopped h | stopped h | skip h | join h =>
      exact absurd (hpc.symm.trans h) nofun
  | enter | dispatch | finish | leave | add =>
      show s.caller = .stopped
      exact hpc

theorem Inv.oneThreadPerContext (hi : Inv k s) (pool : IoContextPool) : OneThreadPerContext pool k s where
  alive := by
    intro hcalled th hth hpc
    obtain ⟨i, hget⟩ := List.getElem?_of_mem hth
    exact hcalled (hi.called _ ((hi.threads i th hget).left hpc))
  own := by
    intro i th h hth hpc
    have hown := (hi.threads i th hth).own h hpc
    refine ⟨hown.symm, ?_⟩
    intro j th' hth' hctx
    rw [← hi.context_eq hth', hctx, hown, hi.context_eq hth]
  exclusive := by
    intro i j th th' h h' hth hth' hpc hpc' hctx
    rw [← hi.context_eq hth, ← hi.context_eq hth', ← (hi.threads i th hth).own h hpc,
      ← (hi.threads j th' hth').own h' hpc', hctx]
  ended := by
    intro hpc
    refine ⟨?_, fun th hth => hi.exited hpc hth⟩
    have hlen := congrArg List.length hi.created
    rwa [hpc, Caller.unstarted, List.append_nil, List.length_map, List.length_range] at hlen
  silent := by
    intro hpc t hsteps th hth h hrun
    have ht : Inv k t ∧ t.caller = .stopped := by
      apply hsteps.invariant (I := fun u => Inv k u ∧ u.caller = .stopped) ⟨hi, hpc⟩
      rintro u a v ⟨hi, hpc⟩ _ hs
      exact ⟨hi.step hs, stopped_step hpc hs⟩
    rw [(ht.1.exited ht.2 hth).1] at hrun
    cases hrun
  returns := by
    refine ⟨⟨s.rank k, ?_⟩, ?_⟩
    · intro n t hn
      have := hn.measure (I := Inv k) (fun hi _ hs => hi.step hs) (fun hi hE hs => hi.rank_lt hE hs) hi
      omega
    · intro t hsteps hstuck
      exact (hsteps.invariant hi fun hi _ hs => hi.step hs).stuck hstuck

/-- **One thread per context, alive until `stop()`.** The constructor succeeds for every `k ≥ 1`, and what it
    promises holds in every state that any interleaving of posts, handlers, `start()` and `stop()` leads to. -/
theorem one_thread_per_context (hk : 1 ≤ k) :
    ∃ pool, IoContextPool.make k = .ok pool ∧
      ∀ s, (system pool).Reachable Anything s → OneThreadPerContext pool k s :=
  ⟨_, IoContextPool.make_of_pos hk, fun _ h =>
    (reachable_inv (IoContextPool.make_of_pos hk) h).oneThreadPerContext _⟩

/-- Two contexts: both threads are in a handler when `stop()` is called, a third handler is left behind, and
    the first context was idle until then. -/
def twoContexts : List Action :=
  [.caller, .caller, .enter 0, .caller, .caller, .add .outside ⟨1⟩ 7, .enter 1, .dispatch 1 0,
   .add (.handler 1) ⟨0⟩ 8, .add .outside ⟨1⟩ 9, .dispatch 0 0, .caller, .caller, .caller, .caller,
   .finish 0, .leave 0, .finish 1, .leave 1, .caller, .caller, .caller]

theorem one_thread_per_context_two : ∃ pool, IoContextPool.make 2 = .ok pool ∧
    ∃ h : ((system pool).exec Anything (system pool).start twoContexts).isSome,
      (Option.get _ h).caller = .stopped ∧ OneThreadPerContext pool 2 (Option.get _ h) := by
  obtain ⟨pool, hpool, hall⟩ := one_thread_per_context (k := 2) (by decide)
  refine ⟨pool, hpool, ?_⟩
  cases hpool
  exact ⟨rfl, rfl, hall _ (reachable_get rfl)⟩

end AsyncCpp.Pool
