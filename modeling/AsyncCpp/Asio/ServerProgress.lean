import AsyncCpp.Asio.SessionThreads

/-!
# `Asio.ServerProgress` — the server comes to rest after whatever the outside world has delivered

As long as no operation completes, the program takes a bounded number of steps (`Inv.rank_lt`), and where it takes no
further one every function that was ever posted has run: the accept loop and the sessions are suspended in operations
that are outstanding, or over (`Inv.stuck`).

## Contents
- `Program.rank`; `Work.share_post`, `Work.share_endCode`, `Inv.rank_lt`.
- `Settled`, `Inv.stuck`.
- `ServerSettles`, `server_settles`.
-/

namespace AsyncCpp.TcpServerProgram

open Machine Pool

variable {scripts : Nat → TcpSession.Script} {k : Nat} {s s' : Program}

/-- The outside world completes nothing. -/
def Inside (_ : Program) : Action → Prop
  | .accepts _ | .handOver _ _ | .completes _ => False
  | .main | .setup _ | .thd | .enter _ | .dispatch _ _ | .run _ | .finish _ | .leave _ => True

/-! ## The rank of a state -/

/-- The statements of `start` up to its next await. -/
def startRank (acc : AcceptAwait) : Accept.Pc → Nat
  | .acceptor => 9
  | .open_ => 8
  | .set_option_ => 7
  | .bind => 6
  | .listen => 5
  | .loop => 4
  | .contains _ => 3
  | .emplace _ => 2
  | .socket _ => 1
  | .accept _ _ =>
      match acc with
      | .resumed _ => 11
      | .idle | .pending | .held _ => 0
  | .accepted _ _ _ => 10
  | .timer _ _ => 9
  | .session _ _ _ => 8
  | .threw | .undefined => 0

/-- The steps of a thread up to `run()`. -/
def threadRank (th : Option Thread) : Nat := th.elim 2 fun th => if th.pc = .created then 1 else 0

/-- The statements of a session up to its next await. -/
def resumeRank : TcpSession.Pc → Nat
  | .timer | .reading | .writing _ _ => 4
  | .shutdown => 3
  | .close | .returned => 2

namespace Program

def mainRank (s : Program) : Nat :=
  match s.main with
  | .pool => 14
  | .spawn => 13
  | .server => 12
  | .blockingWait => startRank s.accept s.server.pc + 2
  | .unwind | .caught _ => 1
  | .returned | .terminated => 0

def thdRank (k : Nat) (s : Program) : Nat :=
  match s.thd, s.system.caller with
  | .notStarted, _ => k + 4
  | .start, .constructed => k + 3
  | .start, .start rest => rest.length + 2
  | .start, _ => 1
  | .exited, _ => 0

/-- The statements that a function has before it, and those of the functions that it will post. -/
def funcRank (s : Program) : Func → Nat
  | .accepted _ => 13
  | .begin_ _ => 2
  | .completed _ => 7
  | .resume j => s.tasks[j]?.elim 4 fun t => resumeRank t.session.pc

def jobRank (s : Program) (n : Nat) : Nat :=
  match s.jobs[n]? with
  | none => 0
  | some job => if job.ended then 1 else s.funcRank job.func

/-- What is left to do on context `c`. -/
def share (s : Program) (c : Address) : Nat :=
  weight s.jobRank (s.system.posted c) + (s.system.contexts c).queue.length + threadRank s.system.pool.m_threads[c]?

def rank (k : Nat) (s : Program) : Nat := s.mainRank + s.thdRank k + weight s.share (List.range k)

end Program

theorem resumeRank_bounds (pc : TcpSession.Pc) : 2 ≤ resumeRank pc ∧ resumeRank pc ≤ 4 := by
  cases pc <;> simp [resumeRank]

theorem funcRank_resume {j : Nat} {t : Task} (ht : s.tasks[j]? = some t) :
    s.funcRank (.resume j) = resumeRank t.session.pc := by
  rw [Program.funcRank, ht, Option.elim_some]

theorem two_le_funcRank (s : Program) (f : Func) : 2 ≤ s.funcRank f := by
  cases f with
  | accepted | begin_ | completed => simp [Program.funcRank]
  | resume j =>
      cases ht : s.tasks[j]? with
      | none =>
          rw [Program.funcRank, ht, Option.elim_none]
          omega
      | some t =>
          rw [funcRank_resume ht]
          exact (resumeRank_bounds _).1

theorem jobRank_live {n : Nat} {f : Func} (h : s.jobs[n]? = some ⟨f, false⟩) : s.jobRank n = s.funcRank f := by
  simp [Program.jobRank, h]

theorem jobRank_over {n : Nat} {f : Func} (h : s.jobs[n]? = some ⟨f, true⟩) : s.jobRank n = 1 := by
  simp [Program.jobRank, h]

/-- `main` or `thd` goes on, and nothing is added to a context. -/
theorem rank_lt_of_main (hmain : s'.mainRank + s'.thdRank k < s.mainRank + s.thdRank k)
    (hshare : ∀ c, s'.share c ≤ s.share c) : s'.rank k < s.rank k :=
  Nat.add_lt_add_of_lt_of_le hmain (weight_le fun c _ => hshare c)

/-- Something happens on one context. -/
theorem rank_lt_of_share {i : Nat} (hi : i < k)
    (hlt : s'.mainRank + s'.thdRank k + s'.share i < s.mainRank + s.thdRank k + s.share i)
    (hshare : ∀ c, c ≠ i → s'.share c = s.share c) : s'.rank k < s.rank k := by
  have hmove := weight_move (List.nodup_range (n := k)) (List.mem_range.mpr hi) fun c _ hc => hshare c hc
  unfold Program.rank
  omega

/-! ## What posts and ends of functions do to it -/

/-- A function that acts for another coroutine weighs what it weighed. -/
theorem Others.jobRank_eq {o : Option Nat} (h : Others s s' o) {n : Nat} (hjob : s'.jobs[n]? = s.jobs[n]?)
    (hne : ∀ f : Func, s.jobs[n]? = some ⟨f, false⟩ → f.owner ≠ o) : s'.jobRank n = s.jobRank n := by
  unfold Program.jobRank
  rw [hjob]
  cases hget : s.jobs[n]? with
  | none => rfl
  | some job =>
      obtain ⟨f, ended⟩ := job
      cases ended with
      | true => rfl
      | false =>
          have howner := hne f hget
          cases f with
          | accepted | begin_ | completed => rfl
          | resume j =>
              show s'.funcRank (.resume j) = s.funcRank (.resume j)
              rw [Program.funcRank, Program.funcRank, h.tasks j howner]

/-- **A post** adds the weight of its function to its context, and one to its queue. -/
theorem Work.share_post (h : Work scripts s) {f : Func} {c : Address} (hfree : s.held f.owner = none)
    (hsystem : s'.system = (s.post ⟨c⟩ f).system) (hjobs : s'.jobs = (s.post ⟨c⟩ f).jobs)
    (hoth : Others s s' f.owner) (d : Address) :
    s'.share d = s.share d + if d = c then s'.funcRank f + 1 else 0 := by
  have hposted : s'.system.posted = _ := (congrArg System.posted hsystem).trans (post_posted ⟨c⟩ f)
  have hold : weight s'.jobRank (s.system.posted d) = weight s.jobRank (s.system.posted d) := by
    apply weight_congr
    intro n hn
    apply hoth.jobRank_eq
    · rw [hjobs]
      exact List.getElem?_append_left (h.lanes.lt_length hn)
    · intro g hg heq
      rw [← heq, h.lanes.live n g hg] at hfree
      cases hfree
  have hthreads : s'.system.pool.m_threads = s.system.pool.m_threads := by
    rw [hsystem]
    rfl
  unfold Program.share
  rw [hposted, hthreads]
  by_cases hd : d = c
  · subst hd
    have hnew : s'.jobs[s.jobs.length]? = some ⟨f, false⟩ := by
      rw [hjobs]
      exact List.getElem?_concat_length
    have hqueue : (s'.system.contexts d).queue.length = (s.system.contexts d).queue.length + 1 := by
      rw [hsystem]
      simp [Program.post, Executor.add, System.post, System.setContext]
    rw [Function.update_self, if_pos rfl, weight_append, hold, weight, weight, jobRank_live hnew, hqueue]
    omega
  · have hqueue : s'.system.contexts d = s.system.contexts d := by
      rw [hsystem]
      simp [Program.post, Executor.add, System.post, System.setContext, hd]
    rw [Function.update_of_ne hd, if_neg hd, hold, hqueue, Nat.add_zero]

/-- **The end of a function's code** leaves it one step. -/
theorem Work.share_endCode (h : Work scripts s) {f : Func} {n i : Nat} (hn : n ∈ s.system.posted i)
    (hjob : s.jobs[n]? = some ⟨f, false⟩) (hsystem : s'.system = s.system) (hjobs : s'.jobs = (s.endCode n).jobs)
    (hoth : Others s s' f.owner) :
    s'.share i + s.funcRank f = s.share i + 1 ∧ ∀ c, c ≠ i → s'.share c = s.share c := by
  have hother : ∀ m, m ≠ n → s'.jobRank m = s.jobRank m := by
    intro m hm
    apply hoth.jobRank_eq
    · rw [hjobs, Program.endCode, List.getElem?_modify_ne _ _ (Ne.symm hm)]
    · intro g hg heq
      exact hm (h.lanes.holder_unique hg hjob heq)
  have hover : s'.jobs[n]? = some ⟨f, true⟩ := by
    rw [hjobs, Program.endCode, List.getElem?_modify_eq, hjob]
    rfl
  unfold Program.share
  rw [hsystem]
  refine ⟨?_, ?_⟩
  · have hmove := weight_move (h.lanes.nodup i) hn fun m _ hm => hother m hm
    rw [jobRank_over hover, jobRank_live hjob] at hmove
    omega
  · intro c hc
    have hweight : weight s'.jobRank (s.system.posted c) = weight s.jobRank (s.system.posted c) := by
      apply weight_congr
      intro m hm
      apply hother
      -- it is on one lane only
      rintro rfl
      have hhome := h.lanes.home_eq hm hjob
      rw [h.lanes.home_eq hn hjob, Option.some.injEq] at hhome
      exact hc hhome.symm
    rw [hweight]

/-! ## Every step inside lowers the rank -/

/-- A thread of the pool takes a step that is asio's own, and nothing happens on the other contexts. -/
theorem Inv.rank_thread (h : Inv k scripts s) {a : Pool.Action} {system : System} {i : Nat} {th : Thread}
    (hth : s.system.pool.m_threads[i]? = some th) (hs : Pool.step s.system a = some system) (ha : a ≠ .caller)
    (hlt : weight s.jobRank (system.posted i) + (system.contexts i).queue.length + threadRank system.pool.m_threads[i]? <
      s.share i)
    (hothers : ∀ c, c ≠ i → system.lane c = s.system.lane c ∧ system.contexts c = s.system.contexts c ∧
      system.pool.m_threads[c]? = s.system.pool.m_threads[c]?) :
    Program.rank k { s with system := system } < s.rank k := by
  have hi : i < k := h.pool.context_eq hth ▸ h.pool.context_lt hth
  refine rank_lt_of_share hi ?_ ?_
  · have hthd : Program.thdRank k { s with system := system } = s.thdRank k := by
      simp only [Program.thdRank, caller_eq hs ha]
    rw [hthd]
    exact Nat.add_lt_add_left hlt _
  · intro c hc
    obtain ⟨hlane, hcontext, hthread⟩ := hothers c hc
    show weight s.jobRank (system.posted c) + _ + _ = s.share c
    rw [Program.share, System.posted, System.posted, hlane, hcontext, hthread]

theorem Inv.rank_enter (h : Inv k scripts s) {i : Nat} {system : System} (hs : Pool.step s.system (.enter i) = some system) :
    Program.rank k { s with system := system } < s.rank k := by
  have hlane := enter_lane (Pool.step_moved hs)
  have hm := Pool.step_moved hs
  cases hm with
  | @enter _ th hth hpc =>
      apply h.rank_thread hth hs (by simp)
      · rw [Program.share, System.posted, hlane, System.posted]
        simp [System.setThread, hth, threadRank, hpc]
      · intro c hc
        refine ⟨hlane c, rfl, ?_⟩
        simp [System.setThread, Ne.symm hc]

theorem Inv.rank_dispatch (h : Inv k scripts s) {i n : Nat} {system : System}
    (hs : Pool.step s.system (.dispatch i n) = some system) : Program.rank k { s with system := system } < s.rank k := by
  have hlane := dispatch_lane h.pool (Pool.step_moved hs)
  have hm := Pool.step_moved hs
  cases hm with
  | @dispatch _ _ th hd hth hpc hgo hget =>
      have hi := h.pool.context_eq hth
      rw [hi] at hget hlane hs ⊢
      have hlt := (List.getElem?_eq_some_iff.mp hget).1
      have hlength := List.length_eraseIdx_of_lt hlt
      apply h.rank_thread hth hs (by simp)
      · rw [Program.share, System.posted, weight_perm ((hlane i).map Handler.func), System.posted]
        simp only [System.take, System.setThread, System.setContext, Function.update_self, List.getElem?_modify_eq, hth,
          Option.map_eq_map, Option.map_some, threadRank, Option.elim_some, hpc, hlength]
        simp
        omega
      · intro c hc
        refine ⟨?_, ?_, ?_⟩
        · rw [System.take, setThread_lane_ne (Ne.symm hc), setContext_lane_ne hc]
        · simp [System.take, System.setThread, System.setContext, hc]
        · simp [System.take, System.setThread, System.setContext, Ne.symm hc]

theorem Inv.rank_finish (h : Inv k scripts s) {i n : Nat} {f : Func} {system : System}
    (hcur : s.current i = some (n, ⟨f, true⟩)) (hs : Pool.step s.system (.finish i) = some system) :
    Program.rank k { s with system := system } < s.rank k := by
  obtain ⟨hd, hrun, rfl, hjob⟩ := current_runs hcur
  have hlane := finish_lane (Pool.step_moved hs)
  have hposted : s.system.posted i = hd.func :: (s.system.contexts i).queue.map Handler.func := by
    rw [System.posted, lane_of_running hrun, List.map_cons]
  have hm := Pool.step_moved hs
  cases hm with
  | @finish _ th hth hpc =>
      apply h.rank_thread hth hs (by simp)
      · rw [Program.share, hposted, weight, jobRank_over hjob, System.posted, hlane, if_pos rfl]
        have hcreated : th.pc ≠ .created := by
          intro heq
          simp [Thread.runs, heq] at hpc
        simp [System.setThread, hth, threadRank, hcreated]
      · intro c hc
        refine ⟨?_, rfl, ?_⟩
        · rw [hlane, if_neg (Ne.symm hc)]
        · simp [System.setThread, Ne.symm hc]

/-- No thread leaves `run()`. -/
theorem Inv.not_leave (h : Inv k scripts s) {i : Nat} {system : System}
    (hs : Pool.step s.system (.leave i) = some system) : False := by
  have hm := Pool.step_moved hs
  cases hm with
  | @leave _ th hth _ hout =>
      have hpos := h.pool.outstandingWork_pos (h.pool.context_lt hth)
      rcases hout with hstopped | hzero
      · exact h.block.not_stopCalled (h.pool.called _ hstopped)
      · omega

/-! ## A statement of a function -/

theorem Inv.current_lt (h : Inv k scripts s) {i n : Nat} {job : Job Func} (hcur : s.current i = some (n, job)) : i < k := by
  obtain ⟨_, ⟨th, hth, _⟩, _, _⟩ := current_runs hcur
  exact h.pool.context_eq hth ▸ h.pool.context_lt hth

/-- **The code of a function ends**, and `main` gets less than the function was worth. -/
theorem Inv.rank_endCode (h : Inv k scripts s) {i n : Nat} {f : Func} (hcur : s.current i = some (n, ⟨f, false⟩))
    (hsystem : s'.system = s.system) (hjobs : s'.jobs = (s.endCode n).jobs) (hthd : s'.thd = s.thd)
    (hoth : Others s s' f.owner) (hmain : s'.mainRank + 1 < s.mainRank + s.funcRank f) : s'.rank k < s.rank k := by
  obtain ⟨hd, hrun, rfl, hjob⟩ := current_runs hcur
  obtain ⟨hself, hothers⟩ := h.work.share_endCode hrun.mem hjob hsystem hjobs hoth
  have hthdRank : s'.thdRank k = s.thdRank k := by
    simp only [Program.thdRank, hthd, hsystem]
  refine rank_lt_of_share (h.current_lt hcur) ?_ hothers
  omega

/-- What a completion handler posts is less than what it was worth. -/
theorem Inv.rank_completed (h : Inv k scripts s) {i n j : Nat} {t : Task} {e : Executor}
    (hcur : s.current i = some (n, ⟨.completed j, false⟩)) (ht : s.tasks[j]? = some t) (he : s.executor j = some e) :
    Program.rank k (((s.endCode n).setTask j { t with await_ := .held s.jobs.length }).post e (.resume j)) <
      s.rank k := by
  obtain rfl := h.executor_current hcur rfl he
  obtain ⟨_, hover⟩ := h.work_completed hcur ht
  obtain ⟨hd, hrun, rfl, hjob⟩ := current_runs hcur
  generalize hu : (s.endCode hd.func).setTask j { t with await_ := .pending } = u at hover
  generalize hv : ((s.endCode hd.func).setTask j { t with await_ := .held s.jobs.length }).post ⟨i⟩ (.resume j) = v
  have hfree : u.held (some j) = none := by
    subst hu
    exact held_setTask (s := s.endCode hd.func) ht
  have hfirst : Others s u (some j) := by
    subst hu
    exact others_set rfl rfl
  have hsecond : Others u v (some j) := by
    subst hu hv
    exact others_set rfl (List.set_set ..).symm
  obtain ⟨hself, hothers⟩ := h.work.share_endCode hrun.mem hjob (by subst hu; rfl) (by subst hu; rfl) hfirst
  have hpost := hover.share_post (f := .resume j) (c := i) hfree (by subst hu hv; simp [Program.post, Program.setTask])
    (by subst hu hv; rfl) hsecond
  have hweight : v.funcRank (.resume j) ≤ 4 := by
    have hget : v.tasks[j]? = some { t with await_ := .held s.jobs.length } := by
      subst hv
      exact setTask_get (s := s.endCode hd.func) ht
    rw [funcRank_resume hget]
    exact (resumeRank_bounds _).2
  have hmain : v.mainRank = s.mainRank := by subst hv; rfl
  have hthd : v.thdRank k = s.thdRank k := by subst hv; rfl
  have hbefore : s.funcRank (.completed j) = 7 := rfl
  apply rank_lt_of_share (h.current_lt hcur)
  · have hat := hpost i
    rw [if_pos rfl] at hat
    omega
  · intro c hc
    rw [hpost c, if_neg hc, hothers c hc, Nat.add_zero]

/-- A session that goes on without an await has less before it. -/
theorem resumeRank_lt {script : TcpSession.Script} {x y : TcpSession.Session}
    (hs : TcpSession.step script x (resumption x) = some y) (hsusp : ¬ suspends y.pc = true) (hret : y.pc ≠ .returned) :
    resumeRank y.pc < resumeRank x.pc := by
  generalize resumption x = a at hs
  cases TcpSession.step_moved hs with
  | timeout | readSome | handOver | written => exact absurd rfl hsusp
  | readError hpc | shutdown hpc =>
      rw [hpc]
      simp [resumeRank]
  | close => exact absurd rfl hret

theorem Inv.rank_stay (h : Inv k scripts s) {i n j : Nat} {t : Task} {x : TcpSession.Session}
    (hcur : s.current i = some (n, ⟨.resume j, false⟩)) (ht : s.tasks[j]? = some t)
    (hlt : resumeRank x.pc < resumeRank t.session.pc) :
    Program.rank k (s.setTask j { t with session := x }) < s.rank k := by
  obtain ⟨hd, hrun, rfl, hjob⟩ := current_runs hcur
  generalize hs' : s.setTask j { t with session := x } = s'
  have hoth : Others s s' (some j) := by
    subst hs'
    exact others_set rfl rfl
  have hjobs : s'.jobs = s.jobs := by subst hs'; rfl
  have hsystem : s'.system = s.system := by subst hs'; rfl
  have hget : s'.tasks[j]? = some { t with session := x } := by
    subst hs'
    exact setTask_get ht
  have hother : ∀ m, m ≠ hd.func → s'.jobRank m = s.jobRank m := by
    intro m hm
    apply hoth.jobRank_eq (congrArg (·[m]?) hjobs)
    intro g hg heq
    exact hm (h.work.lanes.holder_unique hg hjob heq)
  have hmain : s'.mainRank = s.mainRank := by subst hs'; rfl
  have hthd : s'.thdRank k = s.thdRank k := by subst hs'; rfl
  apply rank_lt_of_share (h.current_lt hcur)
  · have hmove := weight_move (h.work.lanes.nodup i) hrun.mem fun m _ hm => hother m hm
    have hbefore := jobRank_live hjob
    have hafter := jobRank_live (hjobs ▸ hjob : s'.jobs[hd.func]? = _)
    rw [funcRank_resume ht] at hbefore
    rw [funcRank_resume hget] at hafter
    dsimp only at hafter
    unfold Program.share
    rw [hsystem]
    omega
  · intro c hc
    unfold Program.share
    rw [hsystem, weight_congr fun m hm => hother m ?_]
    rintro rfl
    have hhome := h.work.lanes.home_eq hm hjob
    rw [h.work.lanes.home_eq hrun.mem hjob, Option.some.injEq] at hhome
    exact hc hhome.symm

/-- `start` gets from one await to the next with what the completion handler is worth. -/
theorem mainRank_accepted (n : Nat) (error : Option Accept.ErrorCode) :
    Program.mainRank { s.endCode n with accept := .resumed error } + 1 < s.mainRank + s.funcRank (.accepted error) := by
  have hstart : startRank (.resumed error) s.server.pc ≤ startRank s.accept s.server.pc + 11 := by
    cases s.server.pc <;> simp [startRank]
  have hworth : s.funcRank (.accepted error) = 13 := rfl
  rw [hworth]
  simp only [Program.mainRank, Program.endCode]
  cases s.main <;> dsimp only <;> omega

/-- **A statement of a function** lowers the rank. -/
theorem Inv.rank_run (h : Inv k scripts s) {i n : Nat} {f : Func} {t : Program}
    (hcur : s.current i = some (n, ⟨f, false⟩)) (hrun : TcpServerProgram.run scripts s n f = some t) : t.rank k < s.rank k := by
  cases f with
  | accepted error =>
      cases hrun
      exact h.rank_endCode hcur rfl rfl rfl ⟨fun hno => absurd rfl hno, fun _ _ => rfl⟩ (mainRank_accepted n error)
  | begin_ j =>
      obtain ⟨u, hu, rfl⟩ := Option.map_eq_some_iff.mp hrun
      exact h.rank_endCode hcur rfl rfl rfl (others_set rfl rfl) (Nat.add_lt_add_left (two_le_funcRank s _) _)
  | completed j =>
      obtain ⟨u, hu, rfl⟩ := Option.map_eq_some_iff.mp hrun
      split
      · next he => exact h.rank_completed hcur hu he
      · next he =>
        obtain ⟨x, hx⟩ := h.session_of_task hu
        rw [executor_eq h.server hx] at he
        cases he
  | resume j =>
      obtain ⟨u, hu, hstep⟩ := Option.bind_eq_some_iff.mp hrun
      obtain ⟨x, hx, rfl⟩ := Option.map_eq_some_iff.mp hstep
      have hmain : s.mainRank + 1 < s.mainRank + s.funcRank (.resume j) :=
        Nat.add_lt_add_left (two_le_funcRank s _) _
      split
      · exact h.rank_endCode hcur rfl rfl rfl (others_set rfl rfl) hmain
      · next hsusp =>
        split
        · exact h.rank_endCode hcur rfl rfl rfl (others_set rfl rfl) hmain
        · next hret => exact h.rank_stay hcur hu (resumeRank_lt hx hsusp hret)

/-! ## A statement of `main` or `thd` -/

/-- A statement of `start` that is not at the await brings it nearer to the next one. -/
theorem startRank_lt {x y : Accept.TcpServer} {a : Accept.Action} (hm : Accept.Moved x a y)
    (hx : ∀ c d, x.pc ≠ .accept c d) : startRank .idle y.pc < startRank .idle x.pc := by
  cases hm with
  | accept hpc => exact absurd hpc (hx _ _)
  | outside hpc =>
      rcases hpc with hpc | hpc <;> rw [hpc] <;> simp [startRank]
  | acceptor hpc | loop hpc | found hpc | missing hpc | emplace hpc | socket hpc | failed hpc | accepted hpc | timer hpc
  | session hpc | out_of_range hpc =>
      rw [hpc]
      simp [startRank]
  | @setup pc error hpc =>
      generalize x.pc = p at hpc
      cases p <;> cases hpc <;> cases error <;> simp [startRank]

/-- A statement of `start` adds nothing to the contexts. -/
theorem start_share {a : Accept.Action} {t : Program} (hs : s.start a = some t) :
    t.main = s.main ∧ t.accept = s.accept ∧ t.thdRank k = s.thdRank k ∧ ∀ c, t.share c = s.share c := by
  obtain ⟨_, server, n, rfl⟩ := start_view hs
  exact ⟨rfl, rfl, rfl, fun _ => rfl⟩

/-- A statement of `start` that is not at the await. -/
theorem Inv.rank_start (h : Inv k scripts s) {a : Accept.Action} {t : Program} (hpc : s.main = .blockingWait)
    (hacc : ∀ c x, s.server.pc ≠ .accept c x) (hs : s.start a = some t) : t.rank k < s.rank k := by
  have hidle := h.idle (not_atAccept hacc)
  obtain ⟨hmain, hacc', hthd, hshare⟩ := start_share (k := k) hs
  refine rank_lt_of_main (Nat.add_lt_add_of_lt_of_le ?_ hthd.le) fun c => (hshare c).le
  have hlt := startRank_lt (Accept.step_moved (start_view hs).1) hacc
  change startRank .idle t.server.pc < startRank .idle s.server.pc at hlt
  simp only [Program.mainRank, hmain, hpc, hacc', hidle]
  omega

/-- A coroutine is at home on a context of the pool. -/
theorem Inv.home_lt (hk : 0 < k) (h : Inv k scripts s) {o : Option Nat} {c : Address} (hc : s.home o = some c) : c < k := by
  cases o with
  | none =>
      have hacc := h.acceptor
      rw [show s.server.acceptor = some c from hc] at hacc
      split at hacc
      · cases hacc
      · exact Option.some.inj hacc ▸ hk
  | some j =>
      obtain ⟨x, hx, rfl⟩ := Option.map_eq_some_iff.mp hc
      obtain ⟨_, e, he, _, hkey⟩ := h.server.placed x (List.mem_of_getElem? hx)
      have hfilled := (h.server.filled x.socket).mp (hkey ▸ List.mem_map_of_mem he)
      have hused : x.socket ∈ s.view.used := by
        unfold Accept.TcpServer.filled at hfilled
        split at hfilled
        · exact List.mem_of_mem_dropLast hfilled
        · exact hfilled
      rw [h.server.used] at hused
      exact RoundRobin.turns_lt hk hused

/-- A session is worth the statement that starts it. -/
theorem Inv.rank_schedule (hk : 0 < k) (h : Inv k scripts s) {context socket timer : Address} {t : Program}
    (hpc : s.main = .blockingWait) (hat : s.server.pc = .session context socket timer) (hs : s.start .next = some t) :
    Program.rank k (if t.server.pc = .threw then t else t.schedule scripts) < s.rank k := by
  have hidle := h.idle (by rw [hat]; exact id)
  obtain ⟨hmain, hacc, hthd, hshare⟩ := start_share (k := k) hs
  obtain ⟨x, hx, hexec, hwork⟩ := h.session_made hk hat hs
  obtain ⟨server, n, _, hteq, hloop, _⟩ := start_session h hat hs
  have hpct : t.server.pc = .loop := by rw [hteq, hloop]
  have hinv := h.schedule hk hpc hat hs
  have hhome : (t.schedule scripts).home (some t.tasks.length) = some x.socket := by
    simp [Program.schedule, hexec, Program.post, Program.home, hx]
  have hpost := hwork.share_post (f := .begin_ t.tasks.length) (c := x.socket) (held_new t)
    (by simp [Program.schedule, hexec, Program.post]) (by simp [Program.schedule, hexec, Program.post])
    (@schedule_others scripts t _ hexec)
  rw [if_neg (by simp [hpct])] at hinv ⊢
  apply rank_lt_of_share (hinv.home_lt hk hhome)
  · have hmain' : (t.schedule scripts).mainRank = 6 := by
      simp [Program.schedule, hexec, Program.post, Program.mainRank, hmain, hpc, hpct, startRank]
    have hthd' : (t.schedule scripts).thdRank k = t.thdRank k := by
      simp [Program.schedule, hexec, Program.post, Program.thdRank, Executor.add, System.post, System.setContext]
    have hbefore : s.mainRank = 10 := by
      simp [Program.mainRank, hpc, hat, startRank]
    have hself := hpost x.socket
    rw [if_pos rfl, hshare, show Program.funcRank _ (.begin_ _) = 2 from rfl] at hself
    omega
  · intro c hc
    rw [hpost c, if_neg hc, Nat.add_zero, hshare]

/-- **A statement of `main`** lowers the rank. -/
theorem Inv.rank_main (hk : 0 < k) (h : Inv k scripts s) (hm : Moved scripts k s .main s') : s'.rank k < s.rank k := by
  have hblock := h.block
  cases hm with
  | pool hpc | poolThrows hpc | caught hpc =>
      rw [hpc] at hblock
      cases hblock
  | spawn hpc =>
      rw [hpc] at hblock
      obtain ⟨hthd, hcaller⟩ := hblock.at_spawn
      refine rank_lt_of_main ?_ fun _ => le_rfl
      simp [Program.mainRank, Program.thdRank, hpc, hthd, hcaller]
      omega
  | server hpc =>
      rw [hpc] at hblock
      refine rank_lt_of_main (Nat.add_lt_add_right ?_ _) fun _ => le_rfl
      simp [Program.mainRank, hpc, hblock.at_server, startRank]
  | rethrow hpc hat =>
      refine rank_lt_of_main (Nat.add_lt_add_right ?_ _) fun _ => le_rfl
      simp [Program.mainRank, hpc, hat, startRank]
  | unwind hpc =>
      rw [hpc] at hblock
      refine rank_lt_of_main (Nat.add_lt_add_right ?_ _) fun _ => le_rfl
      simp [Program.mainRank, hpc, hblock.unwound.1]
  | @resumed context socket error t hpc hat hacc ht =>
      obtain ⟨hmain, _, hthd, hshare⟩ := start_share (k := k) ht
      refine rank_lt_of_main (Nat.add_lt_add_of_lt_of_le ?_ hthd.le) fun c => (hshare c).le
      simp [Program.mainRank, hpc, hat, hacc, hmain, start_accept hat ht, startRank]
  | @accept context t hpc hat ht =>
      obtain ⟨hmain, _, hthd, hshare⟩ := start_share (k := k) ht
      refine rank_lt_of_main (Nat.add_lt_add_of_lt_of_le ?_ hthd.le) fun c => (hshare c).le
      simp [Program.mainRank, hpc, hat, hmain, start_socket hat ht, startRank]
  | schedule hpc hat ht => exact h.rank_schedule hk hpc hat ht
  | next hpc hacc hsock hsess ht => exact h.rank_start hpc hacc ht

/-- A statement of `pool.start()`, -/
theorem Inv.rank_thd (h : Inv k scripts s) {system : System} (hthd : s.thd = .start)
    (hcaller : s.system.caller ≠ .started) (hs : Pool.step s.system .caller = some system) :
    Program.rank k { s with system := system } < s.rank k := by
  have hnot := h.block.not_stopCalled
  have hlane := caller_lane (Pool.step_moved hs)
  have hshare : ∀ c, system.contexts c = s.system.contexts c →
      threadRank system.pool.m_threads[c]? ≤ threadRank s.system.pool.m_threads[c]? →
      Program.share { s with system := system } c ≤ s.share c := by
    intro c hcontext hthread
    show weight s.jobRank (system.posted c) + _ + _ ≤ _
    rw [Program.share, System.posted, System.posted, hlane, hcontext]
    exact Nat.add_le_add_left hthread _
  have hm := Pool.step_moved hs
  cases hm with
  | callStart hpc =>
      refine rank_lt_of_main ?_ fun c => hshare c rfl le_rfl
      simp [Program.mainRank, Program.thdRank, hthd, hpc, h.pool.contexts]
  | @create context rest hpc =>
      refine rank_lt_of_main ?_ fun c => hshare c rfl ?_
      · simp [Program.mainRank, Program.thdRank, hthd, hpc]
      · show threadRank (s.system.pool.m_threads ++ [_])[c]? ≤ _
        rcases Nat.lt_or_ge c s.system.pool.m_threads.length with hlt | hge
        · rw [List.getElem?_append_left hlt]
        · -- the place of the new thread was empty
          rw [List.getElem?_eq_none hge, List.getElem?_append_right hge]
          cases c - s.system.pool.m_threads.length <;> simp [threadRank]
  | started hpc =>
      refine rank_lt_of_main ?_ fun c => hshare c rfl le_rfl
      simp [Program.mainRank, Program.thdRank, hthd, hpc]
  | callStop hpc => exact absurd hpc hcaller
  | stopContext hpc | allStopped hpc | stopped hpc | skip hpc | join hpc =>
      rw [hpc] at hnot
      exact absurd trivial hnot

/-- **Every step inside lowers the rank.** -/
theorem Inv.rank_lt (hk : 0 < k) (h : Inv k scripts s) {a : Action} (hE : Inside s a)
    (hs : TcpServerProgram.step scripts k s a = some s') : s'.rank k < s.rank k := by
  have hm := step_moved hs
  cases hm with
  | pool | poolThrows | caught | spawn | server | rethrow | unwind | resumed | accept | schedule | next =>
      exact h.rank_main hk (step_moved hs)
  | setup hpc ht => exact h.rank_start hpc (start_setup ht).1 ht
  | started hthd hcaller =>
      refine rank_lt_of_main (Nat.add_lt_add_left ?_ _) fun _ => le_rfl
      simp [Program.thdRank, hthd, hcaller]
  | thd hthd hcaller hp => exact h.rank_thd hthd hcaller hp
  | enter hp => exact h.rank_enter hp
  | dispatch hp => exact h.rank_dispatch hp
  | leave hp => exact (h.not_leave hp).elim
  | run hcur hrun => exact h.rank_run hcur hrun
  | finish hcur hp => exact h.rank_finish hcur hp
  | accepts | handOver | completes => exact hE.elim

theorem Stage.rank_lt (h : Stage k scripts s) {a : Action} (hE : Inside s a)
    (hs : TcpServerProgram.step scripts k s a = some s') : s'.rank k < s.rank k := by
  have hm := step_moved hs
  cases h with
  | start =>
      obtain rfl : a = .main := moved_noPool (show MainPc.pool ≠ .blockingWait by simp) hm
      cases hm with
      | pool _ hpool =>
          obtain ⟨_, rfl⟩ := IoContextPool.make_eq hpool
          refine rank_lt_of_main ?_ fun _ => le_rfl
          simp [Program.mainRank, Program.thdRank]
      | poolThrows =>
          refine rank_lt_of_main ?_ fun _ => le_rfl
          simp [Program.mainRank, Program.thdRank]
      | _ => contradiction
  | caught hk =>
      obtain rfl : a = .main := moved_noPool (show MainPc.caught _ ≠ .blockingWait by simp) hm
      cases hs
      refine rank_lt_of_main ?_ fun _ => le_rfl
      simp [Program.mainRank, Program.thdRank]
  | returned hk => cases step_over hs
  | running hk h => exact h.rank_lt hk hE hs

/-! ## Where no step inside is left -/

/-- **The server at rest.** -/
structure Settled (k : Nat) (s : Program) : Prop where
  /-- `start` waits for a connection, with its operation outstanding. -/
  main    : s.main = .blockingWait ∧ AtAccept s.server.pc ∧ s.accept = .pending
  /-- `pool.start()` has returned. -/
  thd     : s.thd = .exited
  /-- Each context has its thread inside `run()`, and nothing in its queue. -/
  threads : ∀ c < k, ∃ th, s.system.pool.m_threads[c]? = some th ∧ th.context = c ∧ th.pc = .inRun ∧
    (s.system.contexts c).queue = []
  /-- Every function that was ever posted has run. -/
  ran     : ∀ job ∈ s.jobs, job.ended = true
  /-- A session waits in an operation that is outstanding, or has returned. -/
  tasks   : ∀ (j : Nat) (t : Task), s.tasks[j]? = some t →
    t.await_ = .pending ∧ suspends t.session.pc = true ∨ t.await_ = .returned ∧ t.session.pc = .returned

/-- A step of `start` is taken wherever it does not wait, is not set up, and has not thrown. -/
theorem start_isSome {pc : Accept.Pc} (hpc : s.server.pc = pc) (hacc : ∀ c x, pc ≠ .accept c x)
    (hsetup : pc.afterSetup = none) (hthrew : pc ≠ .threw) (hundef : pc ≠ .undefined) : (s.start .next).isSome := by
  subst hpc
  unfold Program.start
  rw [Option.isSome_map]
  simp only [Accept.step, Accept.next]
  cases hat : s.server.pc with
  | accept c x => exact absurd hat (hacc c x)
  | threw => exact absurd hat hthrew
  | undefined => exact absurd hat hundef
  | open_ | set_option_ | bind | listen =>
      rw [hat] at hsetup
      cases hsetup
  | acceptor | loop => dsimp only; split <;> rfl
  | session => dsimp only; split <;> rfl
  | accepted c x error => cases error <;> rfl
  | contains | emplace | socket | timer => rfl

/-- Where no step is left `main` waits for a connection. -/
theorem Inv.stuck_main (h : Inv k scripts s) (hmain : s.main = .blockingWait)
    (hstuck : (program scripts k).Stuck Inside s) (hheld : s.held none = none) :
    AtAccept s.server.pc ∧ s.accept = .pending := by
  have hstep : mainStep scripts k s = none := by
    have := hstuck .main trivial
    simpa [program, TcpServerProgram.step, hmain, MainPc.ended] using this
  have hsetup : ∀ error, s.start (.setup error) = none := by
    intro error
    have := hstuck (.setup error) trivial
    simpa [program, TcpServerProgram.step, hmain, MainPc.ended] using this
  simp only [mainStep, hmain] at hstep
  cases hat : s.server.pc with
  | accept c x =>
      refine ⟨trivial, ?_⟩
      cases hacc : s.accept with
      | idle => exact absurd hacc (h.awaits.mpr (by rw [hat]; trivial))
      | pending => rfl
      | held n =>
          change s.accept.held? = none at hheld
          rw [hacc] at hheld
          cases hheld
      | resumed error => simp [hat, hacc, Program.start, Accept.step] at hstep
  | threw => simp [hat] at hstep
  | undefined =>
      have hok := h.server.ok
      rw [show s.view.pc = .undefined from hat] at hok
      exact hok.elim
  | open_ | set_option_ | bind | listen =>
      -- the setup reports something
      have := hsetup none
      simp [Program.start, Accept.step, hat, Accept.Pc.afterSetup] at this
  | acceptor | loop | contains | emplace | socket | accepted | timer | session =>
      have hsome := start_isSome hat (by simp) rfl (by simp) (by simp)
      rw [hat] at hstep
      obtain ⟨t, ht⟩ := Option.isSome_iff_exists.mp hsome
      simp [ht] at hstep

/-- A session whose operation could complete goes on. -/
theorem resumption_isSome {script : TcpSession.Script} {x : TcpSession.Session} (h : completable script x = true) :
    (TcpSession.step script x (resumption x)).isSome := by
  cases hpc : x.pc with
  | timer => simp [resumption, TcpSession.step, hpc]
  | writing rest error =>
      have hrest : rest = [] := by simpa [completable, hpc] using h
      simp [resumption, TcpSession.step, hpc, hrest]
  | reading =>
      cases hcoming : x.coming with
      | cons r coming => simp [resumption, TcpSession.step, hpc, hcoming]
      | nil =>
          have hlast : script.last.isSome := by simpa [completable, hpc, hcoming] using h
          obtain ⟨error, herror⟩ := Option.isSome_iff_exists.mp hlast
          simp [resumption, TcpSession.step, hpc, hcoming, herror]
  | shutdown | close | returned => simp [completable, hpc] at h

/-- A function whose code is not over can go on. -/
theorem Inv.run_isSome (h : Inv k scripts s) {i n : Nat} {f : Func} (hcur : s.current i = some (n, ⟨f, false⟩)) :
    (TcpServerProgram.run scripts s n f).isSome := by
  have hready := h.work.ready_current hcur
  cases f with
  | accepted error => rfl
  | begin_ j | completed j =>
      obtain ⟨t, ht, _⟩ := hready
      simp [TcpServerProgram.run, ht]
  | resume j =>
      obtain ⟨t, ht, hgo⟩ := hready
      simp only [TcpServerProgram.run, ht, Option.bind_some, Option.isSome_map]
      rcases hgo with hcomp | hpc | hpc
      · exact resumption_isSome hcomp
      · simp [resumption, TcpSession.step, hpc]
      · simp [resumption, TcpSession.step, hpc]

/-- Where no step is left `pool.start()` has returned, and with it a thread is there for each context. -/
theorem Inv.stuck_thd (h : Inv k scripts s) (hmain : s.main = .blockingWait)
    (hstuck : (program scripts k).Stuck Inside s) :
    s.thd = .exited ∧ ∀ c < k, ∃ th, s.system.pool.m_threads[c]? = some th ∧ th.context = c := by
  have hstep : thdStep s = none := by
    have := hstuck .thd trivial
    simpa [program, TcpServerProgram.step, hmain, MainPc.ended] using this
  have hblock := h.block
  rw [hmain] at hblock
  have hthreads : s.system.caller = .started → ∀ c < k, ∃ th, s.system.pool.m_threads[c]? = some th ∧ th.context = c :=
    fun hc c hlt => h.pool.thread_of_created (by rw [hc]; rfl) hlt
  unfold thdStep at hstep
  generalize hthd : s.thd = thd at hblock hstep
  generalize hcaller : s.system.caller = caller at hblock hstep hthreads
  have hspawned : Spawned thd caller := by
    cases hblock with
    | blockingWait ht => exact ht
  cases hspawned with
  | start hc =>
      exfalso
      rcases hc with rfl | ⟨rest, rfl⟩ | rfl
      · simp [callerStep, hcaller] at hstep
      · cases rest <;> simp [callerStep, hcaller] at hstep
      · simp at hstep
  | exited => exact ⟨rfl, hthreads rfl⟩

/-- Where no step is left the pool has none: a thread in a function could go on with it. -/
theorem Inv.stuck_pool (h : Inv k scripts s) (hmain : s.main = .blockingWait)
    (hstuck : (program scripts k).Stuck Inside s) {a : Pool.Action} (hpost : NoPost s.system a) (ha : a ≠ .caller) :
    Pool.step s.system a = none := by
  have hstep : ∀ a, Inside s a → TcpServerProgram.step scripts k s a = none := fun a ha => hstuck a ha
  cases a with
  | caller => exact absurd rfl ha
  | add => exact hpost.elim
  | enter i =>
      have := hstep (.enter i) trivial
      simpa [TcpServerProgram.step, hmain, MainPc.ended, TcpServerProgram.poolStep] using this
  | dispatch i n =>
      have := hstep (.dispatch i n) trivial
      simpa [TcpServerProgram.step, hmain, MainPc.ended, TcpServerProgram.poolStep] using this
  | leave i =>
      have := hstep (.leave i) trivial
      simpa [TcpServerProgram.step, hmain, MainPc.ended, TcpServerProgram.poolStep] using this
  | finish i =>
      by_contra hne
      obtain ⟨system, hsystem⟩ := Option.ne_none_iff_exists'.mp hne
      have hm := Pool.step_moved hsystem
      cases hm with
      | @finish _ th hth hpc =>
        obtain ⟨hd, hpc⟩ := runs_self.mp hpc
        obtain ⟨job, hjob, _⟩ := h.work.lanes.placed i hd.func (System.Runs.mem ⟨th, hth, hpc⟩)
        have hcur : s.current i = some (hd.func, job) := by
          simp [Program.current, hth, hpc, hjob]
        obtain ⟨f, ended⟩ := job
        cases ended with
        | true =>
            have := hstep (.finish i) trivial
            simp [TcpServerProgram.step, hmain, MainPc.ended, hcur, TcpServerProgram.poolStep, hsystem] at this
        | false =>
            have := hstep (.run i) trivial
            obtain ⟨t, ht⟩ := Option.isSome_iff_exists.mp (h.run_isSome hcur)
            simp [TcpServerProgram.step, hmain, MainPc.ended, hcur, ht] at this

/-- **Nothing blocks the server** before it is at rest. -/
theorem Inv.settled (hk : 0 < k) (h : Inv k scripts s) (hmain : s.main = .blockingWait)
    (hstuck : (program scripts k).Stuck Inside s) : Settled k s := by
  obtain ⟨hthd, hthreads⟩ := h.stuck_thd hmain hstuck
  have hidle : ∀ c < k, ∃ th, s.system.pool.m_threads[c]? = some th ∧ th.context = c ∧ th.pc = .inRun ∧
      (s.system.contexts c).queue = [] := by
    intro c hc
    obtain ⟨th, hth, hctx⟩ := hthreads c hc
    have hgo : (s.system.contexts c).stopped = false := by
      by_contra hne
      exact h.block.not_stopCalled (h.pool.called c (by simpa using hne))
    exact ⟨th, hth, hctx, h.pool.idle hth hgo fun a => h.stuck_pool hmain hstuck⟩
  -- the lanes are empty, so no coroutine is held
  have hheld : ∀ o, s.held o = none := by
    apply h.work.lanes.held_none
    intro o c hc
    obtain ⟨th, hth, _, hpc, hqueue⟩ := hidle c (h.home_lt hk hc)
    rw [System.posted, lane_of_thread hth, Thread.current_of_inRun hpc, hqueue]
    rfl
  obtain ⟨hat, hacc⟩ := h.stuck_main hmain hstuck (hheld none)
  refine ⟨⟨hmain, hat, hacc⟩, hthd, hidle, ?_, ?_⟩
  · intro job hjob
    obtain ⟨n, hn⟩ := List.getElem?_of_mem hjob
    obtain ⟨f, ended⟩ := job
    cases ended with
    | true => rfl
    | false =>
        have hlive := h.work.lanes.live n f hn
        rw [hheld] at hlive
        cases hlive
  · intro j t ht
    have hfree := hheld (some j)
    have hok := h.work.tasks j t ht
    change s.tasks[j]?.bind Task.held? = none at hfree
    rw [ht, Option.bind_some, Task.held?] at hfree
    cases haw : t.await_ with
    | pending => exact .inl ⟨rfl, hok.pending haw⟩
    | returned => exact .inr ⟨rfl, hok.returned haw⟩
    | held n =>
        rw [haw] at hfree
        cases hfree

/-! ## The guarantee -/

/-- **The server comes to rest**, from a state of the program: as long as the outside world completes nothing, there are
    only so many steps to take, and where no further one can be taken, the program is over, or the server is at rest. -/
structure ServerSettles (k : Nat) (scripts : Nat → TcpSession.Script) (s : Program) : Prop where
  bounded : ∃ bound, ∀ n t, (program scripts k).StepsN Inside n s t → n ≤ bound
  /-- A pool of size `0` throws: `main` logs the exception and returns. -/
  empty   : k = 0 → ∀ t, (program scripts k).Steps Inside s t → (program scripts k).Stuck Inside t →
    t.main = .returned ∧ t.log = [some "IoContextPool size is 0"]
  /-- Any other ends with the process, after a failed setup, or leaves nothing undone. -/
  settles : 0 < k → ∀ t, (program scripts k).Steps Inside s t → (program scripts k).Stuck Inside t →
    t.main = .terminated ∧ t.server.pc = .threw ∨ Settled k t

/-- `main` is where it waits, or over. -/
theorem Inv.stuck (hk : 0 < k) (h : Inv k scripts s) (hstuck : (program scripts k).Stuck Inside s) :
    s.main = .terminated ∧ s.server.pc = .threw ∨ Settled k s := by
  have hblock := h.block
  have hstep : s.main.ended = false → mainStep scripts k s = none := by
    intro hover
    have := hstuck .main trivial
    simpa [program, TcpServerProgram.step, hover] using this
  cases hmain : s.main with
  | blockingWait => exact .inr (h.settled hk hmain hstuck)
  | terminated =>
      rw [hmain] at hblock
      generalize s.server.pc = pc at hblock
      cases hblock
      exact .inl ⟨rfl, rfl⟩
  | spawn | server | unwind =>
      have := hstep (by rw [hmain]; rfl)
      simp [mainStep, hmain] at this
  | pool | caught | returned =>
      rw [hmain] at hblock
      cases hblock

/-- **The server settles**, from every state that any run of the program leads to. -/
theorem server_settles (k : Nat) (scripts : Nat → TcpSession.Script) :
    ∀ s, (program scripts k).Reachable Anything s → ServerSettles k scripts s := by
  intro s hs
  have hstage := reachable_stage hs
  have hkeep : ∀ {t a u}, Stage k scripts t → Inside t a → (program scripts k).step t a = some u → Stage k scripts u :=
    fun ht _ hstep => ht.step hstep
  refine ⟨⟨s.rank k, ?_⟩, ?_, ?_⟩
  · intro n t hn
    have := hn.measure hkeep (fun ht hE hstep => ht.rank_lt hE hstep) hstage
    omega
  · intro hk t hsteps hstuck
    have hstep := hstuck .main trivial
    cases hsteps.invariant hstage hkeep with
    | start =>
        have hmain : mainStep scripts k {} = none := hstep
        simp [mainStep, IoContextPool.make, hk] at hmain
    | caught => cases hstep
    | returned => exact ⟨rfl, rfl⟩
    | running hpos => omega
  · intro hk t hsteps hstuck
    have hstep := hstuck .main trivial
    cases hsteps.invariant hstage hkeep with
    | start =>
        have hmain : mainStep scripts k {} = none := hstep
        simp [mainStep, IoContextPool.make_of_pos hk] at hmain
    | caught hzero | returned hzero => omega
    | running _ h => exact h.stuck hk hstuck

/-- Two functions are under way when the outside world falls silent. -/
theorem server_settles_two :
    ∃ h : ((program (fun _ => closed) 2).exec Anything (program (fun _ => closed) 2).start twoSessions).isSome,
      (Option.get _ h).jobs.map Job.ended = [true, true, false, true, false] ∧
      ServerSettles 2 (fun _ => closed) (Option.get _ h) := by
  have hplays : ((program (fun _ => closed) 2).exec Anything (program (fun _ => closed) 2).start twoSessions).isSome :=
    rfl
  exact ⟨hplays, rfl, server_settles 2 _ _ (reachable_get hplays)⟩

end AsyncCpp.TcpServerProgram
