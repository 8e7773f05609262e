import AsyncCpp.Lib.Lanes
import AsyncCpp.Asio.PoolThreads

/-!
# `Asio.PoolLanes` — the handlers of a pool, context by context

The lane of a context is the handler that its thread is in, and its queue. Only a post and the end of a handler
change a lane; when a thread takes a handler, that goes from the queue to the thread.
-/

namespace AsyncCpp.Pool

variable {k : Nat} {s s' : System}

/-- The handler that a thread is in. -/
def Thread.current (th : Thread) : List Handler :=
  match th.pc with
  | .running h => [h]
  | _ => []

/-- **The lane of a context.** -/
def System.lane (s : System) (c : Address) : List Handler :=
  s.pool.m_threads[c]?.elim [] Thread.current ++ (s.contexts c).queue

/-- The numbers of the functions on it. -/
def System.posted (s : System) (c : Address) : List Nat := (s.lane c).map Handler.func

/-- Thread `i` is in this handler. -/
def System.Runs (s : System) (i : Nat) (h : Handler) : Prop :=
  ∃ th, s.pool.m_threads[i]? = some th ∧ th.pc = .running h

theorem Thread.current_running {th : Thread} {h : Handler} (hpc : th.pc = .running h) : th.current = [h] := by
  simp [current, hpc]

@[simp] theorem Thread.current_created (c : Address) (j : Bool) : Thread.current ⟨c, .created, j⟩ = [] := rfl
@[simp] theorem Thread.current_inRun (c : Address) (j : Bool) : Thread.current ⟨c, .inRun, j⟩ = [] := rfl
@[simp] theorem Thread.current_exited (c : Address) (j : Bool) : Thread.current ⟨c, .exited, j⟩ = [] := rfl

theorem Thread.current_of_created {th : Thread} (hpc : th.pc = .created) : th.current = [] := by
  simp [current, hpc]

theorem Thread.current_of_inRun {th : Thread} (hpc : th.pc = .inRun) : th.current = [] := by
  simp [current, hpc]

/-- The lane of a thread that is in a handler. -/
theorem lane_of_running {c : Address} {h : Handler} (hrun : s.Runs c h) : s.lane c = h :: (s.contexts c).queue := by
  obtain ⟨th, hth, hpc⟩ := hrun
  rw [System.lane, hth, Option.elim_some, Thread.current_running hpc, List.singleton_append]

theorem lane_of_thread {c : Address} {th : Thread} (hth : s.pool.m_threads[c]? = some th) :
    s.lane c = th.current ++ (s.contexts c).queue := by
  rw [System.lane, hth, Option.elim_some]

/-- A handler that runs is on the lane of its thread. -/
theorem System.Runs.mem {c : Address} {h : Handler} (hrun : s.Runs c h) : h.func ∈ s.posted c := by
  rw [System.posted, lane_of_running hrun]
  exact List.mem_cons_self

/-! ## What the steps do to the lanes -/

theorem setThread_lane {i : Nat} {f : Thread → Thread}
    (hf : ∀ th, s.pool.m_threads[i]? = some th → (f th).current = th.current) (c : Address) :
    (s.setThread i f).lane c = s.lane c := by
  simp only [System.lane, System.setThread, List.getElem?_modify]
  cases hth : s.pool.m_threads[c]? with
  | none => simp
  | some th =>
      by_cases hic : i = c
      · subst hic
        simp [hf th hth]
      · simp [hic]

theorem setThread_lane_ne {i : Nat} {f : Thread → Thread} {c : Address} (hic : i ≠ c) :
    (s.setThread i f).lane c = s.lane c := by
  simp only [System.lane, System.setThread, List.getElem?_modify_ne _ _ hic]

theorem setContext_lane {c : Address} {x : IoContext} (hx : x.queue = (s.contexts c).queue) (d : Address) :
    (s.setContext c x).lane d = s.lane d := by
  by_cases hd : d = c
  · subst hd
    simp [System.lane, System.setContext, hx]
  · simp [System.lane, System.setContext, hd]

theorem setContext_lane_ne {c d : Address} (hd : d ≠ c) (x : IoContext) : (s.setContext c x).lane d = s.lane d := by
  simp [System.lane, System.setContext, hd]

/-- A thread that `start()` creates is in no handler. -/
theorem addThread_lane (c d : Address) : (s.addThread { context := c }).lane d = s.lane d := by
  simp only [System.lane, System.addThread, List.getElem?_append]
  split
  · rfl
  · next hge =>
    rw [List.getElem?_eq_none (Nat.le_of_not_lt hge)]
    cases d - s.pool.m_threads.length <;> simp [Thread.current]

/-- **`start()` and `stop()`** leave every lane as it is. -/
theorem caller_lane (hm : Moved s .caller s') (c : Address) : s'.lane c = s.lane c := by
  cases hm with
  | callStart | started | callStop | allStopped | stopped | skip => rfl
  | create => exact addThread_lane _ c
  | @stopContext context rest _ =>
      exact setContext_lane (x := { s.contexts context with stopped := true }) rfl c
  | join => exact setThread_lane (f := fun th => { th with joinable := false }) (fun _ _ => rfl) c

/-- So do a thread that **enters** `run()` and one that **leaves** it. -/
theorem enter_lane {i : Nat} (hm : Moved s (.enter i) s') (c : Address) : s'.lane c = s.lane c := by
  cases hm with
  | @enter _ th hth hpc =>
      apply setThread_lane
      intro th' hth'
      rw [hth] at hth'
      cases hth'
      rw [Thread.current_inRun, Thread.current_of_created hpc]

theorem leave_lane {i : Nat} (hm : Moved s (.leave i) s') (c : Address) : s'.lane c = s.lane c := by
  cases hm with
  | @leave _ th hth hpc _ =>
      apply setThread_lane
      intro th' hth'
      rw [hth] at hth'
      cases hth'
      rw [Thread.current_exited, Thread.current_of_inRun hpc]

/-- A thread that **takes** a handler permutes its lane. -/
theorem dispatch_lane (hi : Inv k s) {i n : Nat} (hm : Moved s (.dispatch i n) s') (c : Address) :
    (s'.lane c).Perm (s.lane c) := by
  cases hm with
  | @dispatch _ _ th h hth hpc _ hh =>
      rw [hi.context_eq hth] at hh ⊢
      by_cases hc : i = c
      · subst hc
        obtain ⟨hlt, hget⟩ := List.getElem?_eq_some_iff.mp hh
        have hqueue : (s.take i i n h).lane i = h :: (s.contexts i).queue.eraseIdx n := by
          have hth' : (s.take i i n h).pool.m_threads[i]? = some { th with pc := .running h } := by
            simp [System.take, System.setThread, System.setContext, hth]
          rw [lane_of_thread hth', Thread.current_running rfl]
          simp [System.take, System.setThread, System.setContext]
        rw [hqueue, lane_of_thread hth, Thread.current_of_inRun hpc, List.nil_append, ← hget]
        exact List.getElem_cons_eraseIdx_perm hlt
      · rw [System.take, setThread_lane_ne hc, setContext_lane_ne (Ne.symm hc)]

/-- Which handler it takes. -/
theorem dispatch_runs {i n : Nat} (hm : Moved s (.dispatch i n) s') : ∃ h, s'.Runs i h := by
  cases hm with
  | @dispatch _ _ th h hth _ _ _ =>
      refine ⟨h, { th with pc := .running h }, ?_, rfl⟩
      simp [System.take, System.setThread, System.setContext, hth]

/-- A thread that is **done** with a handler takes it off its lane. -/
theorem finish_lane {i : Nat} (hm : Moved s (.finish i) s') (c : Address) :
    s'.lane c = if i = c then (s.contexts c).queue else s.lane c := by
  cases hm with
  | @finish _ th hth _ =>
      split
      · next hc =>
        subst hc
        have hth' : (s.setThread i fun th => { th with pc := .inRun }).pool.m_threads[i]? =
            some { th with pc := .inRun } := by
          simp [System.setThread, hth]
        rw [lane_of_thread hth', Thread.current_inRun, List.nil_append]
        rfl
      · next hc => exact setThread_lane_ne hc

/-- A **post** puts the function at the end of its lane. -/
theorem post_lane (c : Address) (func : Nat) (d : Address) :
    (s.post c func).lane d = if d = c then s.lane d ++ [⟨func, c⟩] else s.lane d := by
  split
  · next hd =>
    subst hd
    simp [System.lane, System.post, System.setContext]
  · next hd => exact setContext_lane_ne hd _

/-! ## The same, by the numbers of the functions -/

theorem add_posted (e : Executor) (func : Nat) : (e.add func s).posted =
    Function.update s.posted e.m_io_context (s.posted e.m_io_context ++ [func]) := by
  funext d
  rw [System.posted, Executor.add, post_lane]
  by_cases hd : d = e.m_io_context
  · subst hd
    rw [if_pos rfl, Function.update_self, List.map_append]
    rfl
  · rw [if_neg hd, Function.update_of_ne hd, System.posted]

/-- What a thread is done with was at the head of its lane. -/
theorem finish_posted {c : Address} {h : Handler} (hrun : s.Runs c h) (hm : Moved s (.finish c) s') :
    s.posted c = h.func :: (s.contexts c).queue.map Handler.func ∧
      s'.posted = Function.update s.posted c ((s.contexts c).queue.map Handler.func) := by
  refine ⟨by rw [System.posted, lane_of_running hrun, List.map_cons], ?_⟩
  funext d
  rw [System.posted, finish_lane hm]
  by_cases hd : c = d
  · subst hd
    rw [if_pos rfl, Function.update_self]
  · rw [if_neg hd, Function.update_of_ne (Ne.symm hd), System.posted]

/-! ## What the steps leave as it is -/

/-- A post to one of the pool's contexts keeps the pool as it is. -/
theorem add_inv (h : Inv k s) (e : Executor) (func : Nat) : Inv k (e.add func s) := by
  apply h.setQueue
  intro hd hmem
  rcases List.mem_append.mp hmem with hold | hnew
  · exact h.queued _ hd hold
  · rw [List.mem_singleton.mp hnew]

/-- The threads, `start()` and `stop()` leave the rest of the pool as it is. -/
theorem pool_view {a : Action} (hs : Pool.step s a = some s') :
    { s'.pool with m_threads := [] } = { s.pool with m_threads := [] } := by
  cases Pool.step_moved hs <;> rfl

/-- Nobody but the caller of `start()` and `stop()` moves it. -/
theorem caller_eq {a : Action} (hs : Pool.step s a = some s') (ha : a ≠ .caller) : s'.caller = s.caller := by
  cases Pool.step_moved hs with
  | enter | dispatch | finish | leave | add => rfl
  | _ => exact absurd rfl ha

/-- Where every thread was created, each context has its own. -/
theorem Inv.thread_of_created (h : Inv k s) (hc : s.caller.unstarted (List.range k) = []) {c : Address} (hlt : c < k) :
    ∃ th, s.pool.m_threads[c]? = some th ∧ th.context = c := by
  have hcreated := h.created
  rw [hc, List.append_nil] at hcreated
  have hget : (s.pool.m_threads.map (·.context))[c]? = some c := by
    rw [hcreated, List.getElem?_range hlt]
  rw [List.getElem?_map] at hget
  exact Option.map_eq_some_iff.mp hget

/-- **A thread that cannot go on** while its context is not stopped is inside `run()`, with nothing on its lane. -/
theorem Inv.idle (h : Inv k s) {c : Address} {th : Thread} (hth : s.pool.m_threads[c]? = some th)
    (hgo : (s.contexts c).stopped = false)
    (hstuck : ∀ a, NoPost s a → a ≠ .caller → Pool.step s a = none) :
    th.pc = .inRun ∧ (s.contexts c).queue = [] := by
  have hctx := h.context_eq hth
  cases hpc : th.pc with
  | created =>
      have := hstuck (.enter c) trivial (by simp)
      simp [Pool.step, hth, hpc] at this
  | running hd =>
      have := hstuck (.finish c) trivial (by simp)
      simp [Pool.step, hth, runs_self.mpr ⟨hd, hpc⟩] at this
  | exited =>
      have hleft := (h.threads c th hth).left hpc
      rw [hctx, hgo] at hleft
      cases hleft
  | inRun =>
      refine ⟨rfl, ?_⟩
      by_contra hne
      have hpos : 0 < (s.contexts c).queue.length := List.length_pos_iff.mpr hne
      have := hstuck (.dispatch c 0) trivial (by simp)
      simp [Pool.step, hth, hpc, hctx, hgo, List.getElem?_eq_getElem hpos] at this

end AsyncCpp.Pool
