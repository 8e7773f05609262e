import AsyncCpp.Asio.ServerProgram

/-!
# `Asio.ServerWork` — the functions of the server's program, and the coroutines that they act for

## Contents
- `start_view`: a statement of `TcpServer::start` is one of the accept loop alone.
- `Work`: each function on the lane of its coroutine, and ready to go on. `Work.frame`, `Work.post`, `Work.endCode`
  for any coroutine; `Work.schedule`, `Work.postTask`, `Work.endTask`, `Work.setSession` for a session.
-/

namespace AsyncCpp.TcpServerProgram

open Machine Pool

variable {scripts : Nat → TcpSession.Script} {k : Nat} {s s' : Program}

/-! ## `TcpServer::start` inside of the program -/

/-- The server as the accept loop alone has it: a pool without threads. -/
def Program.view (s : Program) : Accept.TcpServer :=
  { s.server with m_pool := { s.system.pool with m_threads := [] } }

/-- Somebody has taken a context in turn. -/
def turn (s : System) (n : Nat) : System := { s with pool := { s.pool with m_next_io_context := n } }

/-- `getIoContext()` moves the index, and does not look at the threads. -/
theorem getIoContext_threads {p q : IoContextPool} {context : Address} (h : p.getIoContext = some (context, q)) :
    (∃ n, q = { p with m_next_io_context := n }) ∧
      IoContextPool.getIoContext { p with m_threads := [] } = some (context, { q with m_threads := [] }) := by
  obtain ⟨c, hc, heq⟩ := Option.map_eq_some_iff.mp h
  obtain ⟨rfl, rfl⟩ := Prod.mk.inj heq
  refine ⟨⟨_, rfl⟩, ?_⟩
  simp only [IoContextPool.getIoContext, hc, Option.map_some]

theorem getIoContext_none {p : IoContextPool} (h : p.getIoContext = none) :
    IoContextPool.getIoContext { p with m_threads := [] } = none := by
  rw [IoContextPool.getIoContext, Option.map_eq_none_iff] at h ⊢
  exact h

/-- **A statement of `start`** moves the pool's index at most, and is one of the accept loop alone. -/
theorem start_view {a : Accept.Action} (hs : s.start a = some s') :
    Accept.step s.view a = some s'.view ∧
      ∃ t n, s' = { s with server := t, system := turn s.system n } := by
  obtain ⟨t, ht, rfl⟩ := Option.map_eq_some_iff.mp hs
  unfold Program.view
  dsimp only
  cases Accept.step_moved ht with
  | acceptor hpc hget | loop hpc hget =>
      obtain ⟨⟨n, rfl⟩, hget'⟩ := getIoContext_threads hget
      change s.server.pc = _ at hpc
      exact ⟨by simp [Accept.step, Accept.next, hpc, hget'], _, n, rfl⟩
  | outside hpc hget =>
      have hget' := getIoContext_none hget
      rcases hpc with hpc | hpc <;> change s.server.pc = _ at hpc <;>
        exact ⟨by simp [Accept.step, Accept.next, hpc, hget'], _, _, rfl⟩
  | found hpc h | missing hpc h | session hpc h | out_of_range hpc h =>
      change s.server.pc = _ at hpc
      dsimp only at h
      exact ⟨by simp [Accept.step, Accept.next, hpc, h], _, _, rfl⟩
  | emplace hpc | socket hpc | failed hpc | accepted hpc | timer hpc | accept hpc =>
      change s.server.pc = _ at hpc
      exact ⟨by simp [Accept.step, Accept.next, hpc], _, _, rfl⟩
  | setup hpc =>
      dsimp only at hpc
      exact ⟨by simp [Accept.step, hpc], _, _, rfl⟩

/-! ## The functions, and the coroutines that they act for -/

/-- What a function finds whose code is not over. -/
def Program.Ready (scripts : Nat → TcpSession.Script) (s : Program) : Func → Prop
  | .accepted _  => True
  | .begin_ j    => ∃ t, s.tasks[j]? = some t ∧ t.session.pc = .timer
  | .completed j => ∃ t, s.tasks[j]? = some t ∧ completable (scripts j) t.session = true
  | .resume j    => ∃ t, s.tasks[j]? = some t ∧
      (completable (scripts j) t.session = true ∨ t.session.pc = .shutdown ∨ t.session.pc = .close)

/-- The coroutine of a session is one that it can have on its own. -/
structure TaskOk (script : TcpSession.Script) (t : Task) : Prop where
  reachable : (TcpSession.session script).Reachable Anything t.session
  pending   : t.await_ = .pending → suspends t.session.pc = true
  returned  : t.await_ = .returned → t.session.pc = .returned

/-- **The functions of the program**: each on the lane of its coroutine, which it alone acts for, and ready to go on. -/
structure Work (scripts : Nat → TcpSession.Script) (s : Program) : Prop where
  lanes : Lanes Func.owner s.home s.system.posted s.jobs s.held
  ready : ∀ (n : Nat) (f : Func), s.jobs[n]? = some ⟨f, false⟩ → s.Ready scripts f
  tasks : ∀ j t, s.tasks[j]? = some t → TaskOk (scripts j) t

/-- Only coroutine `o` has changed. -/
structure Others (s s' : Program) (o : Option Nat) : Prop where
  accept : none ≠ o → s'.accept.held? = s.accept.held?
  tasks  : ∀ j, some j ≠ o → s'.tasks[j]? = s.tasks[j]?

theorem Others.held_eq {o : Option Nat} (h : Others s s' o) {p : Option Nat} (hp : p ≠ o) : s'.held p = s.held p := by
  cases p with
  | none => exact h.accept hp
  | some j => simp only [Program.held, h.tasks j hp]

theorem Others.held_update {o : Option Nat} (h : Others s s' o) : s'.held = Function.update s.held o (s'.held o) := by
  funext p
  by_cases hp : p = o
  · rw [hp, Function.update_self]
  · rw [Function.update_of_ne hp, h.held_eq hp]

/-- It looks at no other coroutine. -/
theorem ready_congr {f : Func} (htasks : ∀ j, f.owner = some j → s'.tasks[j]? = s.tasks[j]?) (hr : s.Ready scripts f) :
    s'.Ready scripts f := by
  cases f with
  | accepted error => trivial
  | begin_ j | completed j | resume j =>
      have ht := htasks j rfl
      simp only [Program.Ready] at hr ⊢
      rwa [ht]

theorem Others.ready {o : Option Nat} (h : Others s s' o) {f : Func} (hf : f.owner ≠ o) (hr : s.Ready scripts f) :
    s'.Ready scripts f := by
  apply ready_congr _ hr
  intro j hj
  exact h.tasks j (hj ▸ hf)

/-- Nothing happens to the coroutines, and no function comes or goes. -/
theorem Work.frame (h : Work scripts s) (hposted : ∀ c, (s'.system.posted c).Perm (s.system.posted c))
    (hjobs : s'.jobs = s.jobs) (hhome : ∀ o c, s.home o = some c → s'.home o = some c) (htasks : s'.tasks = s.tasks)
    (hacc : s'.accept.held? = s.accept.held?) : Work scripts s' := by
  have hheld : s'.held = s.held := by
    funext p
    cases p with
    | none => exact hacc
    | some j => simp only [Program.held, htasks]
  refine ⟨?_, ?_, ?_⟩
  · rw [hjobs, hheld]
    exact (h.lanes.perm hposted).rehome hhome
  · intro n f hjob
    rw [hjobs] at hjob
    exact ready_congr (fun j _ => congrArg (·[j]?) htasks) (h.ready n f hjob)
  · rw [htasks]
    exact h.tasks

/-- **A function is posted** for a coroutine that nothing acts for. -/
theorem Work.post (h : Work scripts s) {f : Func} {c : Address} (hfree : s.held f.owner = none)
    (hhome : s.home f.owner = some c)
    (hposted : s'.system.posted = Function.update s.system.posted c (s.system.posted c ++ [s.jobs.length]))
    (hjobs : s'.jobs = s.jobs ++ [⟨f, false⟩]) (hhome' : s'.home = s.home) (hoth : Others s s' f.owner)
    (hheld : s'.held f.owner = some s.jobs.length) (hready : s'.Ready scripts f)
    (htask : ∀ j t, f.owner = some j → s'.tasks[j]? = some t → TaskOk (scripts j) t) : Work scripts s' where
  lanes := by
    rw [hposted, hjobs, hhome', hoth.held_update, hheld]
    exact h.lanes.post hfree hhome
  ready := by
    intro n g hjob
    rw [hjobs] at hjob
    rcases Nat.lt_or_ge n s.jobs.length with hlt | hge
    · rw [List.getElem?_append_left hlt] at hjob
      have hg : g.owner ≠ f.owner := by
        -- the old function holds its coroutine
        intro heq
        rw [← heq, h.lanes.live n g hjob] at hfree
        cases hfree
      exact hoth.ready hg (h.ready n g hjob)
    · have hlt := (List.getElem?_eq_some_iff.mp hjob).1
      rw [List.length_append, List.length_singleton] at hlt
      obtain rfl : n = s.jobs.length := by omega
      rw [List.getElem?_concat_length] at hjob
      cases hjob
      exact hready
  tasks := by
    intro j t ht
    by_cases hj : some j = f.owner
    · exact htask j t hj.symm ht
    · rw [hoth.tasks j hj] at ht
      exact h.tasks j t ht

/-- **The code of a function ends**, and nothing acts for its coroutine any more. -/
theorem Work.endCode (h : Work scripts s) {f : Func} {n : Nat} (hn : s.held f.owner = some n)
    (hsystem : s'.system = s.system) (hjobs : s'.jobs = (s.endCode n).jobs) (hhome : s'.home = s.home)
    (hoth : Others s s' f.owner) (hheld : s'.held f.owner = none)
    (htask : ∀ j t, f.owner = some j → s'.tasks[j]? = some t → TaskOk (scripts j) t) : Work scripts s' where
  lanes := by
    rw [hsystem, hjobs, hhome, hoth.held_update, hheld]
    exact h.lanes.ended hn
  ready := by
    intro m g hjob
    rw [hjobs, Program.endCode] at hjob
    have hmn : n ≠ m := by
      rintro rfl
      rw [List.getElem?_modify_eq] at hjob
      obtain ⟨job, _, heq⟩ := Option.map_eq_some_iff.mp hjob
      cases heq
    rw [List.getElem?_modify_ne _ _ hmn] at hjob
    have hg : g.owner ≠ f.owner := by
      intro heq
      rw [← heq, h.lanes.live m g hjob] at hn
      exact hmn (Option.some.inj hn).symm
    exact hoth.ready hg (h.ready m g hjob)
  tasks := by
    intro j t ht
    by_cases hj : some j = f.owner
    · exact htask j t hj.symm ht
    · rw [hoth.tasks j hj] at ht
      exact h.tasks j t ht

/-- The thread of a function, and its number. -/
theorem current_runs {i n : Nat} {job : Job Func} (h : s.current i = some (n, job)) :
    ∃ hd, s.system.Runs i hd ∧ hd.func = n ∧ s.jobs[n]? = some job := by
  obtain ⟨th, hth, hcur⟩ := Option.bind_eq_some_iff.mp h
  split at hcur
  · next hd hpc =>
    obtain ⟨job', hjob, heq⟩ := Option.map_eq_some_iff.mp hcur
    obtain ⟨rfl, rfl⟩ := Prod.mk.inj heq
    exact ⟨hd, ⟨th, hth, hpc⟩, rfl, hjob⟩
  · cases hcur

/-- A thread is in functions of the coroutines only that are at home on its context, -/
theorem Work.home_current (h : Work scripts s) {i n : Nat} {job : Job Func} (hcur : s.current i = some (n, job)) :
    s.home job.func.owner = some i := by
  obtain ⟨hd, hrun, rfl, hjob⟩ := current_runs hcur
  exact h.lanes.home_eq hrun.mem hjob

/-- and which its function holds. -/
theorem Work.held_current (h : Work scripts s) {i n : Nat} {f : Func} (hcur : s.current i = some (n, ⟨f, false⟩)) :
    s.held f.owner = some n := by
  obtain ⟨_, _, _, hjob⟩ := current_runs hcur
  exact h.lanes.live n f hjob

theorem Work.ready_current (h : Work scripts s) {i n : Nat} {f : Func} (hcur : s.current i = some (n, ⟨f, false⟩)) :
    s.Ready scripts f := by
  obtain ⟨_, _, _, hjob⟩ := current_runs hcur
  exact h.ready n f hjob

/-! ## Small steps on the program -/

theorem post_posted (e : Executor) (f : Func) : (s.post e f).system.posted =
    Function.update s.system.posted e.m_io_context (s.system.posted e.m_io_context ++ [s.jobs.length]) :=
  add_posted e s.jobs.length

theorem setTask_get {j : Nat} {t u : Task} (hu : s.tasks[j]? = some u) : (s.setTask j t).tasks[j]? = some t := by
  have hlt := (List.getElem?_eq_some_iff.mp hu).1
  simp [Program.setTask, hlt]

theorem setTask_get_ne {i j : Nat} {t : Task} (hij : i ≠ j) : (s.setTask j t).tasks[i]? = s.tasks[i]? := by
  simp [Program.setTask, Ne.symm hij]

theorem setTask_length {j : Nat} {t : Task} : (s.setTask j t).tasks.length = s.tasks.length := by
  simp [Program.setTask]

/-! ## The functions of a session -/

/-- Where an operation can complete, the session is suspended. -/
theorem suspends_of_completable {script : TcpSession.Script} {x : TcpSession.Session}
    (h : completable script x = true) : suspends x.pc = true := by
  unfold completable at h
  split at h
  · next hpc => rw [hpc]; rfl
  · next hpc => rw [hpc]; rfl
  · next hpc => rw [hpc]; rfl
  all_goals cases h

/-- Only session `j` has changed. -/
theorem others_set {t : Program} {j : Nat} {u : Task} (hacc : t.accept = s.accept) (htasks : t.tasks = s.tasks.set j u) :
    Others s t (some j) := by
  refine ⟨fun _ => congrArg AcceptAwait.held? hacc, ?_⟩
  intro i hi
  rw [htasks]
  exact setTask_get_ne fun heq => hi (congrArg some heq)

theorem held_setTask {j : Nat} {t u : Task} (hu : s.tasks[j]? = some u) : (s.setTask j t).held (some j) = t.held? := by
  show (s.setTask j t).tasks[j]?.bind Task.held? = _
  rw [setTask_get hu, Option.bind_some]

/-- A function of session `j` ends, and leaves the session where nothing acts for it. -/
theorem Work.endTask (h : Work scripts s) {f : Func} {n j : Nat} (hf : f.owner = some j) (hn : s.held f.owner = some n)
    {t u : Task} (hu : s.tasks[j]? = some u) (ht : TaskOk (scripts j) t) (hheld : t.held? = none) :
    Work scripts ((s.endCode n).setTask j t) := by
  refine h.endCode (f := f) hn rfl rfl rfl (hf ▸ others_set rfl rfl) ?_ ?_
  · rw [hf]
    exact (held_setTask (s := s.endCode n) hu).trans hheld
  · intro i v hi hv
    obtain rfl : j = i := Option.some.inj (hf.symm.trans hi)
    rw [setTask_get (s := s.endCode n) hu, Option.some.injEq] at hv
    exact hv ▸ ht

/-- **A function is posted for session `j`**, which it holds from then on. -/
theorem Work.postTask (h : Work scripts s) {f : Func} {j : Nat} (hf : f.owner = some j) (hfree : s.held f.owner = none)
    {c : Address} (hhome : s.home f.owner = some c) {u : Task} (hu : s.tasks[j]? = some u)
    (hready : ((s.setTask j { u with await_ := .held s.jobs.length }).post ⟨c⟩ f).Ready scripts f) :
    Work scripts ((s.setTask j { u with await_ := .held s.jobs.length }).post ⟨c⟩ f) := by
  refine h.post hfree hhome (post_posted _ _) rfl rfl (hf ▸ others_set rfl rfl) ?_ hready ?_
  · rw [hf]
    exact held_setTask hu
  · intro i v hi hv
    obtain rfl : j = i := Option.some.inj (hf.symm.trans hi)
    change (s.setTask j _).tasks[j]? = some v at hv
    rw [setTask_get hu, Option.some.injEq] at hv
    subst hv
    exact ⟨(h.tasks j u hu).reachable, nofun, nofun⟩

/-- A session goes on, and what acts for it stays. -/
theorem Work.setSession (h : Work scripts s) {j : Nat} {t : Task} (ht : s.tasks[j]? = some t) {x : TcpSession.Session}
    (hok : TaskOk (scripts j) { t with session := x })
    (hready : ∀ (n : Nat) (f : Func), f.owner = some j → s.jobs[n]? = some ⟨f, false⟩ →
      (s.setTask j { t with session := x }).Ready scripts f) : Work scripts (s.setTask j { t with session := x }) := by
  have hoth : Others s (s.setTask j { t with session := x }) (some j) := others_set rfl rfl
  have hheld : (s.setTask j { t with session := x }).held = s.held := by
    rw [hoth.held_update, held_setTask ht, Function.update_eq_self_iff]
    show t.held? = s.tasks[j]?.bind Task.held?
    rw [ht, Option.bind_some]
  refine ⟨?_, ?_, ?_⟩
  · rw [hheld]
    exact h.lanes
  · intro n f hjob
    by_cases hf : f.owner = some j
    · exact hready n f hf hjob
    · exact hoth.ready hf (h.ready n f hjob)
  · intro i u hu
    by_cases hij : i = j
    · subst hij
      rw [setTask_get ht, Option.some.injEq] at hu
      exact hu ▸ hok
    · rw [setTask_get_ne hij] at hu
      exact h.tasks i u hu

/-- A new coroutine is added to the others. -/
theorem schedule_others {t : Program} {e : Executor} (hexec : t.executor t.tasks.length = some e) :
    Others t (t.schedule scripts) (some t.tasks.length) := by
  simp only [Program.schedule, hexec]
  refine ⟨fun _ => rfl, ?_⟩
  intro j hj
  have hne : j ≠ t.tasks.length := fun heq => hj (congrArg some heq)
  show (t.tasks ++ [_])[j]? = t.tasks[j]?
  rcases Nat.lt_or_gt_of_ne hne with hlt | hgt
  · exact List.getElem?_append_left hlt
  · rw [List.getElem?_eq_none (by simp; omega), List.getElem?_eq_none hgt.le]

/-- Nothing acts for a coroutine that is not there yet. -/
theorem held_new (t : Program) : t.held (some t.tasks.length) = none := by
  show t.tasks[t.tasks.length]?.bind Task.held? = none
  rw [List.getElem?_eq_none le_rfl, Option.bind_none]

/-- **The first part of a session is posted** to the context of its socket. -/
theorem Work.schedule {t : Program} (h : Work scripts t) {x : Accept.Session}
    (hx : t.server.sessions[t.tasks.length]? = some x) (hexec : t.executor t.tasks.length = some ⟨x.socket⟩) :
    Work scripts (t.schedule scripts) := by
  have hget : ∀ u : Task, (t.tasks ++ [u])[t.tasks.length]? = some u := fun _ => List.getElem?_concat_length
  have hoth := @schedule_others scripts t _ hexec
  simp only [Program.schedule, hexec] at hoth ⊢
  refine h.post (f := .begin_ t.tasks.length) (c := x.socket) (held_new t) ?_ (post_posted _ _) rfl rfl hoth ?_ ?_ ?_
  · show t.server.sessions[t.tasks.length]?.map _ = _
    rw [hx, Option.map_some]
  · show (t.tasks ++ [_])[t.tasks.length]?.bind Task.held? = _
    rw [hget, Option.bind_some, Task.held?]
  · exact ⟨_, hget _, rfl⟩
  · intro j u hj hu
    cases hj
    change (t.tasks ++ [_])[t.tasks.length]? = some u at hu
    rw [hget, Option.some.injEq] at hu
    subst hu
    exact ⟨Reachable.start, nofun, nofun⟩

end AsyncCpp.TcpServerProgram
