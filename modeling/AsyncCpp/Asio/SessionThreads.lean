import AsyncCpp.Asio.ServerWork

/-!
# `Asio.SessionThreads` — each session on the one thread of its context, in every run of the server

## Contents
- `Inv`, what holds once the pool exists; `Stage`, what holds in every state (`reachable_stage`).
- `SessionThreads`, `session_threads`.
-/

namespace AsyncCpp.TcpServerProgram

open Machine Pool

variable {scripts : Nat → TcpSession.Script} {k : Nat} {s s' : Program}

/-! ## What holds once the pool exists -/

/-- `thd` is in `pool.start()`, or past it. -/
inductive Spawned : ThdPc → Caller → Prop
  | start {c} (hc : c = .constructed ∨ (∃ rest, c = .start rest) ∨ c = .started) : Spawned .start c
  | exited : Spawned .exited .started

/-- Where `main` is in its block, and how far the others can be. -/
inductive Block : MainPc → ThdPc → Caller → Accept.Pc → Prop
  | spawn : Block .spawn .notStarted .constructed .acceptor
  | server {thd c} (ht : Spawned thd c) : Block .server thd c .acceptor
  | blockingWait {thd c pc} (ht : Spawned thd c) : Block .blockingWait thd c pc
  | unwind {thd c} (ht : Spawned thd c) : Block .unwind thd c .threw
  | terminated {thd c} (ht : Spawned thd c) : Block .terminated thd c .threw

/-- Suspended in `async_accept`. -/
def AtAccept : Accept.Pc → Prop
  | .accept _ _ => True
  | _ => False

structure Inv (k : Nat) (scripts : Nat → TcpSession.Script) (s : Program) : Prop where
  pool     : Pool.Inv k s.system
  server   : Accept.Inv k s.view
  acceptor : s.server.acceptor = if s.server.pc = .acceptor then none else some 0
  block    : Block s.main s.thd s.system.caller s.server.pc
  awaits   : s.accept ≠ .idle ↔ AtAccept s.server.pc
  length   : s.tasks.length = s.server.sessions.length
  work     : Work scripts s
  log      : s.log = []
  fault    : s.fault = false

namespace Block

variable {m : MainPc} {thd : ThdPc} {c c' : Caller} {pc pc' : Accept.Pc}

theorem spawned (h : Block .spawn thd c pc) : Block .server .start c pc := by
  cases h
  exact .server (.start (.inl rfl))

theorem at_spawn (h : Block .spawn thd c pc) : thd = .notStarted ∧ c = .constructed := by
  cases h
  exact ⟨rfl, rfl⟩

theorem at_server (h : Block .server thd c pc) : pc = .acceptor := by
  cases h
  rfl

theorem waits (h : Block .server thd c pc) : Block .blockingWait thd c pc := by
  cases h with
  | server ht => exact .blockingWait ht

theorem started (h : Block .blockingWait thd c pc) : Block .blockingWait thd c pc' := by
  cases h with
  | blockingWait ht => exact .blockingWait ht

theorem rethrown (h : Block .blockingWait thd c .threw) : Block .unwind thd c .threw := by
  cases h with
  | blockingWait ht => exact .unwind ht

/-- The exception meets the joinable `thd`. -/
theorem unwound (h : Block .unwind thd c pc) : thd.joinable = true ∧ Block .terminated thd c pc := by
  cases h with
  | unwind ht =>
      refine ⟨?_, .terminated ht⟩
      cases ht <;> rfl

/-- A statement of `pool.start()`, -/
theorem statement (h : Block m .start c pc) (hc : Spawned .start c') : Block m .start c' pc := by
  cases h with
  | server => exact .server hc
  | blockingWait => exact .blockingWait hc
  | unwind => exact .unwind hc
  | terminated => exact .terminated hc

/-- and its end. -/
theorem exited (h : Block m .start .started pc) : Block m .exited .started pc := by
  cases h with
  | server => exact .server .exited
  | blockingWait => exact .blockingWait .exited
  | unwind => exact .unwind .exited
  | terminated => exact .terminated .exited

theorem not_stopCalled (h : Block m thd c pc) : ¬ c.StopCalled := by
  have hspawned : ∀ {thd c}, Spawned thd c → ¬ c.StopCalled := by
    intro thd c ht
    cases ht with
    | start hc => rcases hc with rfl | ⟨_, rfl⟩ | rfl <;> exact id
    | exited => exact id
  cases h with
  | spawn => exact id
  | server ht | blockingWait ht | unwind ht | terminated ht => exact hspawned ht

end Block

/-- Only `main` and `thd` go on. -/
theorem Inv.goto (h : Inv k scripts s) {main : MainPc} {thd : ThdPc}
    (hblock : Block main thd s.system.caller s.server.pc) : Inv k scripts { s with main := main, thd := thd } :=
  ⟨h.pool, h.server, h.acceptor, hblock, h.awaits, h.length,
    h.work.frame (fun _ => List.Perm.refl _) rfl (fun _ _ hc => hc) rfl rfl, h.log, h.fault⟩

/-- **The executor of a session** posts to the context of its socket. -/
theorem executor_eq (h : Accept.Inv k s.view) {j : Nat} {x : Accept.Session} (hx : s.server.sessions[j]? = some x) :
    s.executor j = some ⟨x.socket⟩ := by
  obtain ⟨_, e, he, hnode, hkey⟩ := h.placed x (List.mem_of_getElem? hx)
  have hnodup : (s.server.m_executor_map.map Accept.Entry.node).Nodup := by
    have hnodes : s.server.m_executor_map.map Accept.Entry.node = _ := h.nodes
    rw [hnodes]
    exact List.nodup_range
  cases hfind : s.server.m_executor_map.find? fun e => e.node == x.executor with
  | none => exact absurd hnode (by simpa using List.find?_eq_none.mp hfind e he)
  | some e' =>
      have hnode' : e'.node = x.executor := by simpa using List.find?_some hfind
      have heq : e' = e :=
        List.inj_on_of_nodup_map hnodup (List.mem_of_find?_eq_some hfind) he (hnode'.trans hnode.symm)
      have hcontext : e.executor = ⟨x.socket⟩ := by
        cases hexec : e.executor with
        | mk c =>
            have hposts := h.posts e he
            rw [hexec, hkey] at hposts
            exact congrArg Executor.mk hposts
      rw [Program.executor, hx, Option.bind_some, hfind, Option.map_some, heq, hcontext]

theorem Inv.timer_eq (h : Inv k scripts s) {j : Nat} {x : Accept.Session} (hx : s.server.sessions[j]? = some x) :
    x.timer = x.socket := (h.server.placed x (List.mem_of_getElem? hx)).1

/-- Every coroutine is that of a session that was started. -/
theorem Inv.session_of_task (h : Inv k scripts s) {j : Nat} {t : Task} (ht : s.tasks[j]? = some t) :
    ∃ x, s.server.sessions[j]? = some x := by
  have hlt := (List.getElem?_eq_some_iff.mp ht).1
  rw [h.length] at hlt
  exact ⟨_, List.getElem?_eq_getElem hlt⟩

/-! ## The pool's own steps -/

theorem Inv.poolStep (h : Inv k scripts s) {a : Pool.Action} {system : System} (hs : Pool.step s.system a = some system)
    (hblock : Block s.main s.thd system.caller s.server.pc) (hwork : Work scripts { s with system := system }) :
    Inv k scripts { s with system := system } where
  pool := h.pool.step hs
  server := by
    unfold Program.view
    rw [show ({ system.pool with m_threads := [] } : IoContextPool) = _ from pool_view hs]
    exact h.server
  acceptor := h.acceptor
  block := hblock
  awaits := h.awaits
  length := h.length
  work := hwork
  log := h.log
  fault := h.fault

/-- A step that at most permutes the lanes. -/
theorem Inv.poolStep_perm (h : Inv k scripts s) {a : Pool.Action} {system : System}
    (hs : Pool.step s.system a = some system) (hblock : Block s.main s.thd system.caller s.server.pc)
    (hperm : ∀ c, (system.lane c).Perm (s.system.lane c)) : Inv k scripts { s with system := system } :=
  h.poolStep hs hblock
    (h.work.frame (fun c => (hperm c).map Handler.func) rfl (fun _ _ hc => hc) rfl rfl)

theorem Inv.thread_block (h : Inv k scripts s) {a : Pool.Action} {system : System}
    (hs : Pool.step s.system a = some system) (ha : a ≠ .caller) : Block s.main s.thd system.caller s.server.pc := by
  rw [caller_eq hs ha]
  exact h.block

/-- **A thread is done with a function** whose code is over. -/
theorem Inv.finish (h : Inv k scripts s) {i n : Nat} {f : Func} {system : System}
    (hcur : s.current i = some (n, ⟨f, true⟩)) (hs : Pool.step s.system (.finish i) = some system) :
    Inv k scripts { s with system := system } := by
  apply h.poolStep hs (h.thread_block hs nofun)
  obtain ⟨hd, hrun, rfl, hjob⟩ := current_runs hcur
  obtain ⟨hlane, hposted⟩ := finish_posted hrun (Pool.step_moved hs)
  refine ⟨?_, h.work.ready, h.work.tasks⟩
  show Lanes Func.owner s.home system.posted s.jobs s.held
  rw [hposted]
  exact h.work.lanes.remove hlane hjob

/-- A statement of `pool.start()`. -/
theorem Inv.thd (h : Inv k scripts s) {system : System} (hthd : s.thd = .start) (hcaller : s.system.caller ≠ .started)
    (hs : Pool.step s.system .caller = some system) : Inv k scripts { s with system := system } := by
  have hm := Pool.step_moved hs
  refine h.poolStep_perm hs ?_ fun c => List.Perm.of_eq (caller_lane hm c)
  have hspawned : Spawned .start system.caller := by
    have hnot := h.block.not_stopCalled
    cases hm with
    | callStart | create => exact .start (.inr (.inl ⟨_, rfl⟩))
    | started => exact .start (.inr (.inr rfl))
    | callStop hpc => exact absurd hpc hcaller
    | stopContext hpc | allStopped hpc | stopped hpc | skip hpc | join hpc =>
        rw [hpc] at hnot
        exact absurd trivial hnot
  have hblock := h.block
  rw [hthd] at hblock ⊢
  exact hblock.statement hspawned

/-! ## The accept loop's steps -/

theorem sessions_eq {x y : Accept.TcpServer} {a : Accept.Action} (hm : Accept.Moved x a y)
    (hx : ∀ c d e, x.pc ≠ .session c d e) : y.sessions = x.sessions := by
  cases hm with
  | session hpc | out_of_range hpc => exact absurd hpc (hx _ _ _)
  | _ => rfl

theorem afterSetup_ne {p pc : Accept.Pc} (h : p.afterSetup = some pc) :
    p ≠ .acceptor ∧ pc ≠ .acceptor ∧ ¬ AtAccept pc := by
  cases p <;> cases h <;> exact ⟨nofun, nofun, id⟩

/-- After its first statement the acceptor is on the first context. -/
theorem acceptor_eq (hk : 0 < k) {x y : Accept.TcpServer} (hi : Accept.Inv k x) {a : Accept.Action}
    (hm : Accept.Moved x a y) (hx : x.acceptor = if x.pc = .acceptor then none else some 0) :
    y.pc ≠ .acceptor ∧ y.acceptor = some 0 := by
  cases hm with
  | acceptor hpc hget =>
      rw [hi.getIoContext hk, Accept.TcpServer.taken, if_pos hpc, Nat.zero_mod] at hget
      cases hget
      exact ⟨by simp, rfl⟩
  | outside hpc hget =>
      rw [hi.getIoContext hk] at hget
      cases hget
  | missing hpc | found hpc | loop hpc | emplace hpc | socket hpc | failed hpc | accepted hpc | timer hpc
  | session hpc | out_of_range hpc | accept hpc =>
      rw [hpc] at hx
      exact ⟨by simp, hx⟩
  | @setup pc error hpc =>
      obtain ⟨hne, hne', _⟩ := afterSetup_ne hpc
      rw [if_neg hne] at hx
      refine ⟨?_, hx⟩
      cases error with
      | some e => simp
      | none => exact hne'

/-- `start` gets to its await from `socket(context)` only. -/
theorem socket_of_atAccept {x y : Accept.TcpServer} {a : Accept.Action} (hm : Accept.Moved x a y)
    (hy : AtAccept y.pc) : ∃ c, x.pc = .socket c := by
  cases hm with
  | socket hpc => exact ⟨_, hpc⟩
  | @setup pc error hpc =>
      exfalso
      cases error with
      | some e => exact hy
      | none => exact (afterSetup_ne hpc).2.2 hy
  | _ => exact hy.elim

theorem not_atAccept {pc : Accept.Pc} (h : ∀ c x, pc ≠ .accept c x) : ¬ AtAccept pc := by
  intro hat
  cases pc with
  | accept c x => exact h c x rfl
  | _ => exact hat

/-- **A statement of `start`** that starts no session. -/
theorem Inv.start (hk : 0 < k) (h : Inv k scripts s) {a : Accept.Action} {t : Program} (hpc : s.main = .blockingWait)
    (hs : s.start a = some t) (hsess : ∀ c d e, s.server.pc ≠ .session c d e) (acc : AcceptAwait)
    (hacc : acc.held? = s.accept.held?) (hawaits : acc ≠ .idle ↔ AtAccept t.server.pc) :
    Inv k scripts { t with accept := acc } := by
  obtain ⟨hview, server, n, rfl⟩ := start_view hs
  have hm := Accept.step_moved hview
  have hsessions := sessions_eq hm hsess
  change server.sessions = s.server.sessions at hsessions
  have hacceptor := acceptor_eq hk h.server hm h.acceptor
  refine ⟨?_, h.server.step hk hview, hacceptor.2.trans (if_neg hacceptor.1).symm, ?_, hawaits, ?_, ?_, h.log, h.fault⟩
  · exact ⟨h.pool.contexts, h.pool.work, h.pool.created, h.pool.threads, h.pool.queued, h.pool.called,
      h.pool.unstopped, h.pool.joined⟩
  · have hblock := h.block
    show Block s.main s.thd s.system.caller server.pc
    rw [hpc] at hblock ⊢
    exact hblock.started
  · exact h.length.trans (congrArg List.length hsessions).symm
  · refine h.work.frame (fun _ => List.Perm.refl _) rfl ?_ rfl hacc
    intro o c hc
    cases o with
    | none =>
        -- the acceptor stays where it is
        have hold : s.server.acceptor = some c := hc
        rw [h.acceptor] at hold
        split at hold
        · cases hold
        · exact hacceptor.2.trans hold
    | some j =>
        show server.sessions[j]?.map _ = _
        rw [hsessions]
        exact hc

/-- What `start` is at the statement that makes a session. -/
theorem start_session (h : Inv k scripts s) {context socket timer : Address} {t : Program}
    (hat : s.server.pc = .session context socket timer) (hs : s.start .next = some t) :
    ∃ server n x, t = { s with server := server, system := turn s.system n } ∧ server.pc = .loop ∧
      server.sessions = s.server.sessions ++ [x] := by
  obtain ⟨hview, server, n, rfl⟩ := start_view hs
  have hpc : s.view.pc = .session context socket timer := hat
  -- the entry of the context is there
  obtain ⟨e, _, _, hnode⟩ := Accept.ExecutorMap.at_of_mem (h.server.atPc hpc).ok.2.2
  simp only [Accept.step, Accept.next, hpc, hnode, Option.some.injEq] at hview
  have hsessions := congrArg Accept.TcpServer.sessions hview
  have hloop := congrArg Accept.TcpServer.pc hview
  exact ⟨server, n, ⟨socket, timer, e.node⟩, rfl, hloop.symm, hsessions.symm⟩

/-- **The session that was made**, before its first part is posted. -/
theorem Inv.session_made (hk : 0 < k) (h : Inv k scripts s) {context socket timer : Address} {t : Program}
    (hat : s.server.pc = .session context socket timer) (hs : s.start .next = some t) :
    ∃ x, t.server.sessions[t.tasks.length]? = some x ∧ t.executor t.tasks.length = some ⟨x.socket⟩ ∧ Work scripts t := by
  have hserver := h.server.step hk (start_view hs).1
  have hacceptor := acceptor_eq hk h.server (Accept.step_moved (start_view hs).1) h.acceptor
  obtain ⟨server, n, x, rfl, _, hsessions⟩ := start_session h hat hs
  have hx : server.sessions[s.tasks.length]? = some x := by
    rw [hsessions, h.length, List.getElem?_concat_length]
  refine ⟨x, hx, executor_eq hserver hx, h.work.frame (fun _ => List.Perm.refl _) rfl ?_ rfl rfl⟩
  intro o c hc
  cases o with
  | none =>
      have hold : s.server.acceptor = some c := hc
      rw [h.acceptor, if_neg (by rw [hat]; nofun)] at hold
      exact hacceptor.2.trans hold
  | some j =>
      obtain ⟨y, hy, hcy⟩ := Option.map_eq_some_iff.mp hc
      show server.sessions[j]?.map _ = _
      rw [hsessions, List.getElem?_append_left (List.getElem?_eq_some_iff.mp hy).1, hy, Option.map_some, hcy]

/-- A session is started. -/
theorem Inv.schedule (hk : 0 < k) (h : Inv k scripts s) {context socket timer : Address} {t : Program}
    (hpc : s.main = .blockingWait) (hat : s.server.pc = .session context socket timer) (hs : s.start .next = some t) :
    Inv k scripts (if t.server.pc = .threw then t else t.schedule scripts) := by
  have hserver := h.server.step hk (start_view hs).1
  have hacceptor := acceptor_eq hk h.server (Accept.step_moved (start_view hs).1) h.acceptor
  obtain ⟨x, hx, hexec, hwork⟩ := h.session_made hk hat hs
  obtain ⟨server, n, _, rfl, hloop, hsessions⟩ := start_session h hat hs
  rw [if_neg (show ¬ server.pc = .threw by rw [hloop]; nofun)]
  have hwork' := hwork.schedule hx hexec
  simp only [Program.schedule, hexec] at hwork' ⊢
  refine ⟨add_inv ?_ _ _, hserver, hacceptor.2.trans (if_neg hacceptor.1).symm, ?_, ?_, ?_, hwork', h.log, h.fault⟩
  · exact ⟨h.pool.contexts, h.pool.work, h.pool.created, h.pool.threads, h.pool.queued, h.pool.called,
      h.pool.unstopped, h.pool.joined⟩
  · have hblock := h.block
    show Block s.main s.thd s.system.caller server.pc
    rw [hpc] at hblock ⊢
    exact hblock.started
  · show s.accept ≠ .idle ↔ AtAccept server.pc
    rw [h.awaits, hat, hloop]
    exact Iff.rfl
  · show (s.tasks ++ [_]).length = server.sessions.length
    rw [hsessions, List.length_append, List.length_append, h.length, List.length_singleton, List.length_singleton]

/-! ## The functions' steps -/

/-- What the functions and the outside world change: queues, functions and coroutines. -/
theorem Inv.update (h : Inv k scripts s) {system : System} {jobs : List (Job Func)} {tasks : List Task}
    {acc : AcceptAwait} (hpool : Pool.Inv k system) (hkeep : system.pool = s.system.pool)
    (hcaller : system.caller = s.system.caller) (hlen : tasks.length = s.tasks.length)
    (hacc : acc ≠ .idle ↔ s.accept ≠ .idle)
    (hw : Work scripts { s with system := system, jobs := jobs, tasks := tasks, accept := acc }) :
    Inv k scripts { s with system := system, jobs := jobs, tasks := tasks, accept := acc } where
  pool := hpool
  server := by
    unfold Program.view
    rw [hkeep]
    exact h.server
  acceptor := h.acceptor
  block := by
    show Block s.main s.thd system.caller s.server.pc
    rw [hcaller]
    exact h.block
  awaits := hacc.trans h.awaits
  length := hlen.trans h.length
  work := hw
  log := h.log
  fault := h.fault

/-- **The completion handler of `async_accept`** hands the error to the executor of `blockingWait`. -/
theorem Inv.run_accepted (h : Inv k scripts s) {i n : Nat} {error : Option Accept.ErrorCode}
    (hcur : s.current i = some (n, ⟨.accepted error, false⟩)) :
    Inv k scripts { s.endCode n with accept := .resumed error } := by
  have hn := h.work.held_current hcur
  have hne : s.accept ≠ .idle := by
    intro heq
    change s.accept.held? = some n at hn
    rw [heq] at hn
    cases hn
  refine h.update h.pool rfl rfl rfl (iff_of_true nofun hne) ?_
  exact h.work.endCode (f := .accepted error) hn rfl rfl rfl ⟨fun hno => absurd rfl hno, fun _ _ => rfl⟩ rfl nofun

theorem Inv.run_begin (h : Inv k scripts s) {i n j : Nat} {t : Task} (hcur : s.current i = some (n, ⟨.begin_ j, false⟩))
    (ht : s.tasks[j]? = some t) : Inv k scripts ((s.endCode n).setTask j { t with await_ := .pending }) := by
  refine h.update h.pool rfl rfl (setTask_length (s := s.endCode n)) Iff.rfl ?_
  apply h.work.endTask (f := .begin_ j) rfl (h.work.held_current hcur) ht _ rfl
  obtain ⟨u, hu, hpc⟩ : ∃ u, s.tasks[j]? = some u ∧ u.session.pc = .timer := h.work.ready_current hcur
  rw [ht, Option.some.injEq] at hu
  subst hu
  exact ⟨(h.work.tasks j t ht).reachable, fun _ => congrArg suspends hpc, nofun⟩

/-- A session's function uses the executor of the context that it runs on. -/
theorem Inv.executor_current (h : Inv k scripts s) {i n j : Nat} {job : Job Func} (hcur : s.current i = some (n, job))
    (hj : job.func.owner = some j) {e : Executor} (he : s.executor j = some e) : e = ⟨i⟩ := by
  have hhome := h.work.home_current hcur
  rw [hj] at hhome
  obtain ⟨x, hx, rfl⟩ := Option.map_eq_some_iff.mp hhome
  rw [executor_eq h.server hx] at he
  exact (Option.some.inj he).symm

/-- A completion handler whose code is over, before its function is posted. -/
theorem Inv.work_completed (h : Inv k scripts s) {i n j : Nat} {t : Task}
    (hcur : s.current i = some (n, ⟨.completed j, false⟩)) (ht : s.tasks[j]? = some t) :
    completable (scripts j) t.session = true ∧ Work scripts ((s.endCode n).setTask j { t with await_ := .pending }) := by
  obtain ⟨u, hu, hcomp⟩ : ∃ u, s.tasks[j]? = some u ∧ completable (scripts j) u.session = true :=
    h.work.ready_current hcur
  rw [ht, Option.some.injEq] at hu
  subst hu
  refine ⟨hcomp, h.work.endTask (f := .completed j) rfl (h.work.held_current hcur) ht ?_ rfl⟩
  exact ⟨(h.work.tasks j t ht).reachable, fun _ => suspends_of_completable hcomp, nofun⟩

/-- **The completion handler of a session's operation** posts the rest of the session to its context. -/
theorem Inv.run_completed (h : Inv k scripts s) {i n j : Nat} {t : Task} {e : Executor}
    (hcur : s.current i = some (n, ⟨.completed j, false⟩)) (ht : s.tasks[j]? = some t) (he : s.executor j = some e) :
    Inv k scripts (((s.endCode n).setTask j { t with await_ := .held s.jobs.length }).post e (.resume j)) := by
  obtain rfl := h.executor_current hcur rfl he
  obtain ⟨hcomp, hover⟩ := h.work_completed hcur ht
  have hget : ∀ t', ((s.endCode n).setTask j t').tasks[j]? = some t' := fun _ => setTask_get (s := s.endCode n) ht
  have hwork := hover.postTask (f := .resume j) (c := i) rfl ((held_setTask (s := s.endCode n) ht).trans rfl)
    (h.work.home_current hcur) (hget _) ⟨_, setTask_get (hget _), .inl hcomp⟩
  -- the coroutine is written twice, and one function is made
  have htwice : ∀ t', ((s.endCode n).setTask j { t with await_ := .pending }).setTask j t' = (s.endCode n).setTask j t' := by
    intro t'
    simp only [Program.setTask, List.set_set]
  have hlen : (s.endCode n).jobs.length = s.jobs.length := List.length_modify _ _ _
  rw [htwice] at hwork
  refine h.update (add_inv h.pool _ _) rfl rfl (setTask_length (s := s.endCode n)) Iff.rfl ?_
  rw [← hlen]
  exact hwork

/-- **A session goes on** by one statement. -/
theorem Inv.run_resume (h : Inv k scripts s) {i n j : Nat} {t : Task} {x : TcpSession.Session}
    (hcur : s.current i = some (n, ⟨.resume j, false⟩)) (ht : s.tasks[j]? = some t)
    (hx : TcpSession.step (scripts j) t.session (resumption t.session) = some x) :
    Inv k scripts (if suspends x.pc then (s.endCode n).setTask j ⟨.pending, x⟩
      else if x.pc = .returned then (s.endCode n).setTask j ⟨.returned, x⟩
      else s.setTask j { t with session := x }) := by
  have hreach : (TcpSession.session (scripts j)).Reachable Anything x :=
    (h.work.tasks j t ht).reachable.tail trivial hx
  have hn := h.work.held_current hcur
  split
  · next hsusp =>
    exact h.update h.pool rfl rfl (setTask_length (s := s.endCode n)) Iff.rfl
      (h.work.endTask (f := .resume j) rfl hn ht ⟨hreach, fun _ => hsusp, nofun⟩ rfl)
  · next hsusp =>
    split
    · next hret =>
      exact h.update h.pool rfl rfl (setTask_length (s := s.endCode n)) Iff.rfl
        (h.work.endTask (f := .resume j) rfl hn ht ⟨hreach, nofun, fun _ => hret⟩ rfl)
    · next hret =>
      refine h.update h.pool rfl rfl setTask_length Iff.rfl (h.work.setSession ht ⟨hreach, ?_, ?_⟩ ?_)
      · intro hpend
        -- the function that runs holds the session
        change s.tasks[j]?.bind Task.held? = some n at hn
        rw [ht, Option.bind_some, Task.held?, show t.await_ = .pending from hpend] at hn
        cases hn
      · intro hret'
        change s.tasks[j]?.bind Task.held? = some n at hn
        rw [ht, Option.bind_some, Task.held?, show t.await_ = .returned from hret'] at hn
        cases hn
      · intro m f hf hjob
        obtain ⟨_, _, _, hjob'⟩ := current_runs hcur
        obtain rfl := h.work.lanes.holder_unique hjob hjob' hf
        rw [hjob'] at hjob
        cases hjob
        refine ⟨_, setTask_get ht, .inr ?_⟩
        show x.pc = .shutdown ∨ x.pc = .close
        cases hxpc : x.pc with
        | timer | reading | writing => exact absurd (by rw [hxpc]; rfl) hsusp
        | shutdown => exact .inl rfl
        | close => exact .inr rfl
        | returned => exact absurd hxpc hret

/-- **A statement of a function.** -/
theorem Inv.run (h : Inv k scripts s) {i n : Nat} {f : Func} {t : Program} (hcur : s.current i = some (n, ⟨f, false⟩))
    (hrun : run scripts s n f = some t) : Inv k scripts t := by
  cases f with
  | accepted error =>
      cases hrun
      exact h.run_accepted hcur
  | begin_ j =>
      obtain ⟨u, hu, rfl⟩ := Option.map_eq_some_iff.mp hrun
      exact h.run_begin hcur hu
  | completed j =>
      obtain ⟨u, hu, rfl⟩ := Option.map_eq_some_iff.mp hrun
      split
      · next he => exact h.run_completed hcur hu he
      · next he =>
        obtain ⟨x, hx⟩ := h.session_of_task hu
        rw [executor_eq h.server hx] at he
        cases he
  | resume j =>
      obtain ⟨u, hu, hstep⟩ := Option.bind_eq_some_iff.mp hrun
      obtain ⟨x, hx, rfl⟩ := Option.map_eq_some_iff.mp hstep
      exact h.run_resume hcur hu hx

/-! ## What the outside world does -/

theorem Inv.accepts (h : Inv k scripts s) {error : Option Accept.ErrorCode} {context : Address}
    (hacc : s.accept = .pending) (hcontext : s.server.acceptor = some context) :
    Inv k scripts ({ s with accept := .held s.jobs.length }.post ⟨context⟩ (.accepted error)) := by
  refine h.update (add_inv h.pool _ _) rfl rfl rfl (iff_of_true nofun (by rw [hacc]; nofun)) ?_
  refine h.work.post (f := .accepted error) ?_ hcontext (post_posted _ _) rfl rfl ⟨fun hno => absurd rfl hno, fun _ _ => rfl⟩
    rfl trivial nofun
  show s.accept.held? = none
  rw [hacc, AcceptAwait.held?]

theorem Inv.handOver (h : Inv k scripts s) {j bytes : Nat} {t : Task} {x : TcpSession.Session}
    (ht : s.tasks[j]? = some t) (hpend : t.await_ = .pending)
    (hx : TcpSession.step (scripts j) t.session (.handOver bytes) = some x) :
    Inv k scripts (s.setTask j { t with session := x }) := by
  have hreach : (TcpSession.session (scripts j)).Reachable Anything x :=
    (h.work.tasks j t ht).reachable.tail (a := .handOver bytes) trivial hx
  refine h.update h.pool rfl rfl setTask_length Iff.rfl (h.work.setSession ht ⟨hreach, fun _ => ?_, ?_⟩ ?_)
  · cases TcpSession.step_moved hx
    rfl
  · intro hret
    rw [show t.await_ = .returned from hret] at hpend
    cases hpend
  · intro n f hf hjob
    have hn := h.work.lanes.live n f hjob
    rw [hf] at hn
    change s.tasks[j]?.bind Task.held? = some n at hn
    rw [ht, Option.bind_some, Task.held?, hpend] at hn
    cases hn

theorem Inv.completes (h : Inv k scripts s) {j : Nat} {t : Task} {x : Accept.Session} (ht : s.tasks[j]? = some t)
    (hx : s.server.sessions[j]? = some x) (hpend : t.await_ = .pending) (hcomp : completable (scripts j) t.session = true) :
    Inv k scripts ((s.setTask j { t with await_ := .held s.jobs.length }).post
      ⟨if t.session.pc = .timer then x.timer else x.socket⟩ (.completed j)) := by
  -- the timer of a session is on the context of its socket
  rw [h.timer_eq hx, ite_self]
  refine h.update (add_inv h.pool _ _) rfl rfl setTask_length Iff.rfl ?_
  refine h.work.postTask (f := .completed j) (c := x.socket) rfl ?_ ?_ ht ⟨_, setTask_get ht, hcomp⟩
  · show s.tasks[j]?.bind Task.held? = none
    rw [ht, Option.bind_some, Task.held?, hpend]
  · show s.server.sessions[j]?.map _ = _
    rw [hx, Option.map_some]

/-! ## Every state of the program -/

/-- **The states of the program**: before the pool, after a constructor that throws, and with a pool. -/
inductive Stage (k : Nat) (scripts : Nat → TcpSession.Script) : Program → Prop
  | start : Stage k scripts {}
  | caught (hk : k = 0) : Stage k scripts { main := .caught (some "IoContextPool size is 0") }
  | returned (hk : k = 0) : Stage k scripts { main := .returned, log := [some "IoContextPool size is 0"] }
  | running {t : Program} (hk : 0 < k) (h : Inv k scripts t) : Stage k scripts t

/-- The constructor has returned. -/
theorem Inv.of_pool {pool : IoContextPool} (hpool : IoContextPool.make k = .ok pool) :
    Inv k scripts { system := { pool }, main := .spawn } := by
  have hwork : Work scripts { system := { pool }, main := .spawn } := by
    obtain ⟨_, rfl⟩ := IoContextPool.make_eq hpool
    refine ⟨?_, fun _ _ hjob => absurd hjob (by simp), fun _ _ ht => absurd ht (by simp)⟩
    have hposted : System.posted { pool := { m_io_contexts := List.range k, m_work := List.range k } } = fun _ => [] := by
      funext c
      simp [System.posted, System.lane]
    have hheld : Program.held { system := { pool := { m_io_contexts := List.range k, m_work := List.range k } },
                                main := .spawn } = fun _ => none := by
      funext o
      cases o <;> simp [Program.held, AcceptAwait.held?]
    rw [hheld]
    dsimp only
    rw [hposted]
    exact Lanes.empty
  refine ⟨Pool.reachable_inv hpool Reachable.start, ?_, rfl, .spawn, ?_, rfl, hwork, rfl, rfl⟩
  · rw [IoContextPool.make_after (IoContextPool.make_eq hpool).1] at hpool
    cases hpool
    exact Accept.start_inv
  · exact iff_of_false (fun hne => hne rfl) id

/-- The statement after the await is `if (error)`. -/
theorem start_accept {c x : Address} {error : Option Accept.ErrorCode} {t : Program} (hat : s.server.pc = .accept c x)
    (hs : s.start (.accept error) = some t) : t.server.pc = .accepted c x error := by
  obtain ⟨hview, server, n, rfl⟩ := start_view hs
  have hpc : s.view.pc = .accept c x := hat
  simp only [Accept.step, hpc, Option.some.injEq] at hview
  exact (congrArg Accept.TcpServer.pc hview).symm

/-- The statement after `socket(context)` is the await. -/
theorem start_socket {c : Address} {t : Program} (hat : s.server.pc = .socket c) (hs : s.start .next = some t) :
    t.server.pc = .accept c c := by
  obtain ⟨hview, server, n, rfl⟩ := start_view hs
  have hpc : s.view.pc = .socket c := hat
  simp only [Accept.step, Accept.next, hpc, Option.some.injEq] at hview
  exact (congrArg Accept.TcpServer.pc hview).symm

/-- Outside of its await `start` waits for nothing. -/
theorem Inv.idle (h : Inv k scripts s) (hat : ¬ AtAccept s.server.pc) : s.accept = .idle := by
  by_contra hne
  exact hat (h.awaits.mp hne)

/-- The setup of the acceptor comes before the loop. -/
theorem start_setup {error : Option Accept.ErrorCode} {t : Program} (hs : s.start (.setup error) = some t) :
    (∀ c x, s.server.pc ≠ .accept c x) ∧ (∀ c, s.server.pc ≠ .socket c) ∧ ∀ c x y, s.server.pc ≠ .session c x y := by
  obtain ⟨pc, hafter, _⟩ := Option.map_eq_some_iff.mp (start_view hs).1
  change s.server.pc.afterSetup = some pc at hafter
  generalize s.server.pc = p at hafter
  cases p <;> cases hafter <;> exact ⟨nofun, nofun, nofun⟩

/-- **A statement of `start`** before the loop, or between two awaits. -/
theorem Inv.between (hk : 0 < k) (h : Inv k scripts s) {a : Accept.Action} {t : Program} (hpc : s.main = .blockingWait)
    (hs : s.start a = some t) (hacc : ∀ c x, s.server.pc ≠ .accept c x) (hsock : ∀ c, s.server.pc ≠ .socket c)
    (hsess : ∀ c x y, s.server.pc ≠ .session c x y) : Inv k scripts t := by
  have hidle := h.idle (not_atAccept hacc)
  have hstart := h.start hk hpc hs hsess .idle (by rw [hidle])
    (iff_of_false (fun hne => hne rfl) fun hat' => by
      obtain ⟨c, hc⟩ := socket_of_atAccept (Accept.step_moved (start_view hs).1) hat'
      exact hsock c hc)
  obtain ⟨_, server, n, rfl⟩ := start_view hs
  rw [← hidle] at hstart
  exact hstart

/-- **A statement of `main`**, and of what it waits for in `blockingWait`. -/
theorem Inv.main (hk : 0 < k) (h : Inv k scripts s) (hm : Moved scripts k s .main s') : Inv k scripts s' := by
  have hblock := h.block
  cases hm with
  | pool hpc | poolThrows hpc | caught hpc =>
      rw [hpc] at hblock
      cases hblock
  | spawn hpc =>
      rw [hpc] at hblock
      exact h.goto hblock.spawned
  | server hpc =>
      rw [hpc] at hblock
      exact h.goto hblock.waits
  | rethrow hpc hat =>
      rw [hpc, hat] at hblock
      exact h.goto (hat ▸ hblock.rethrown)
  | unwind hpc =>
      rw [hpc] at hblock
      rw [if_pos hblock.unwound.1]
      exact h.goto hblock.unwound.2
  | @resumed context socket error t hpc hat hacc ht =>
      apply h.start hk hpc ht (by simp [hat]) _ (by rw [hacc, AcceptAwait.held?, AcceptAwait.held?])
      rw [start_accept hat ht]
      exact iff_of_false (fun hne => hne rfl) id
  | @accept context t hpc hat ht =>
      have hidle := h.idle (by rw [hat]; exact id)
      apply h.start hk hpc ht (by simp [hat]) _ (by rw [hidle, AcceptAwait.held?, AcceptAwait.held?])
      rw [start_socket hat ht]
      exact iff_of_true (by simp) trivial
  | schedule hpc hat ht => exact h.schedule hk hpc hat ht
  | next hpc hacc hsock hsess ht => exact h.between hk hpc ht hacc hsock hsess

/-- **The step lemma** of the program. -/
theorem Inv.step (hk : 0 < k) (h : Inv k scripts s) {a : Action} (hs : step scripts k s a = some s') :
    Inv k scripts s' := by
  have hm := step_moved hs
  cases hm with
  | pool | poolThrows | caught | spawn | server | rethrow | unwind | resumed | accept | schedule | next =>
      exact h.main hk (step_moved hs)
  | setup hpc ht =>
      obtain ⟨hacc, hsock, hsess⟩ := start_setup ht
      exact h.between hk hpc ht hacc hsock hsess
  | started hthd hcaller =>
      have hblock := h.block
      rw [hthd, hcaller] at hblock
      exact h.goto (hcaller ▸ hblock.exited)
  | thd hthd hcaller hp => exact h.thd hthd hcaller hp
  | enter hp =>
      exact h.poolStep_perm hp (h.thread_block hp (by simp)) fun c => .of_eq (enter_lane (Pool.step_moved hp) c)
  | dispatch hp =>
      exact h.poolStep_perm hp (h.thread_block hp (by simp)) fun c => dispatch_lane h.pool (Pool.step_moved hp) c
  | leave hp =>
      exact h.poolStep_perm hp (h.thread_block hp (by simp)) fun c => .of_eq (leave_lane (Pool.step_moved hp) c)
  | run hcur hrun => exact h.run hcur hrun
  | finish hcur hp => exact h.finish hcur hp
  | accepts hacc hcontext => exact h.accepts hacc hcontext
  | handOver ht hpend hx => exact h.handOver ht hpend hx
  | completes ht hx hpend hcomp => exact h.completes ht hx hpend hcomp

/-- Without a pool there is nobody but `main`. -/
theorem moved_noPool {main : MainPc} {log : List (Option String)} {a : Action} (hmain : main ≠ .blockingWait)
    (hm : Moved scripts k { main := main, log := log } a s') : a = .main := by
  cases hm with
  | setup hpc => exact absurd hpc hmain
  | started hthd | thd hthd => cases hthd
  | enter hp | dispatch hp | leave hp => simp [Pool.step] at hp
  | run hcur | finish hcur => simp [Program.current] at hcur
  | accepts hacc => cases hacc
  | handOver ht | completes ht => simp at ht
  | _ => rfl

theorem Stage.step (h : Stage k scripts s) {a : Action} (hs : step scripts k s a = some s') : Stage k scripts s' := by
  have hm := step_moved hs
  cases h with
  | start =>
      obtain rfl : a = .main := moved_noPool (show MainPc.pool ≠ .blockingWait by simp) hm
      have hmain : mainStep scripts k {} = some s' := hs
      simp only [mainStep] at hmain
      by_cases hk : k = 0
      · rw [IoContextPool.make, if_pos hk, Option.some.injEq] at hmain
        exact hmain ▸ .caught hk
      · have hpos := Nat.pos_of_ne_zero hk
        rw [IoContextPool.make_of_pos hpos, Option.some.injEq] at hmain
        exact hmain ▸ .running hpos (.of_pool (IoContextPool.make_of_pos hpos))
  | caught hk =>
      obtain rfl : a = .main := moved_noPool (show MainPc.caught _ ≠ .blockingWait by simp) hm
      cases hs
      exact .returned hk
  | returned hk => cases step_over hs
  | running hk h => exact .running hk (h.step hk hs)

/-- **The run lemma.** -/
theorem reachable_stage (h : (program scripts k).Reachable Anything s) : Stage k scripts s :=
  h.invariant .start fun _ hi _ hs => hi.step hs

/-! ## The guarantee -/

/-- **What the server promises about its threads**, in a state of the program. -/
structure SessionThreads (k : Nat) (scripts : Nat → TcpSession.Script) (s : Program) : Prop where
  /-- A thread of the pool is only ever in functions of coroutines that are at home on its context, -/
  own : ∀ (i n : Nat) (job : Job Func), s.current i = some (n, job) → s.home job.func.owner = some i
  /-- so no two threads are in functions of one session. -/
  exclusive : ∀ (i j n m : Nat) (job job' : Job Func), s.current i = some (n, job) → s.current j = some (m, job') →
    job.func.owner = job'.func.owner → i = j
  /-- The home of a session is the context of its socket, of its timer and of its executor. -/
  home : ∀ (j : Nat) (x : Accept.Session), s.server.sessions[j]? = some x →
    s.home (some j) = some x.socket ∧ x.timer = x.socket ∧ s.executor j = some ⟨x.socket⟩
  /-- Of all functions that were ever posted one at most is still to act for a coroutine, while that waits for
      nothing else, -/
  once : ∀ (n m : Nat) (f g : Func), s.jobs[n]? = some ⟨f, false⟩ → s.jobs[m]? = some ⟨g, false⟩ →
    f.owner = g.owner → n = m ∧ s.held f.owner = some n
  /-- and it is queued, or runs, where the coroutine is at home, once. -/
  kept : ∀ (o : Option Nat) (n : Nat), s.held o = some n →
    ∃ f c, s.jobs[n]? = some ⟨f, false⟩ ∧ f.owner = o ∧ s.home o = some c ∧ (s.system.posted c).count n = 1
  /-- There is one coroutine for each session that was started, and it is where it could be on its own; -/
  sessions : s.tasks.length = s.server.sessions.length ∧
    ∀ j t, s.tasks[j]? = some t → (TcpSession.session (scripts j)).Reachable Anything t.session
  /-- what it echoes has no hole, if its failed writes are harmless. -/
  echo : ∀ j t, s.tasks[j]? = some t → TcpSession.Harmless (scripts j).rounds → t.session.written <+: t.session.read
  /-- The sessions are spread over the contexts in turn. -/
  placement : Accept.Placement k (.after k 0) s.view
  /-- Nobody stops the pool, and no thread of it leaves `run()`. -/
  alive : ¬ s.system.caller.StopCalled ∧ ∀ th ∈ s.system.pool.m_threads, th.pc ≠ .exited
  /-- `main` logs nothing and never returns; it is terminated after a failed setup only. -/
  main : s.log = [] ∧ s.main ≠ .returned ∧ (s.main = .terminated → s.server.pc = .threw) ∧ s.fault = false

theorem Inv.sessionThreads (hk : 0 < k) (h : Inv k scripts s) : SessionThreads k scripts s where
  own := fun _ _ _ hcur => h.work.home_current hcur
  exclusive := by
    intro i j n m job job' hcur hcur' howner
    have hi := h.work.home_current hcur
    rw [howner, h.work.home_current hcur', Option.some.injEq] at hi
    exact hi.symm
  home := by
    intro j x hx
    refine ⟨?_, h.timer_eq hx, executor_eq h.server hx⟩
    rw [Program.home, hx, Option.map_some]
  once := fun n _ f _ hn hm howner => ⟨h.work.lanes.holder_unique hn hm howner, h.work.lanes.live n f hn⟩
  kept := by
    intro o n hn
    obtain ⟨f, c, hjob, howner, hhome, hmem⟩ := h.work.lanes.held o n hn
    exact ⟨f, c, hjob, howner, hhome, List.count_eq_one_of_mem (h.work.lanes.nodup c) hmem⟩
  sessions := ⟨h.length, fun j t ht => (h.work.tasks j t ht).reachable⟩
  echo := by
    intro j t ht hharm
    exact ((TcpSession.noHole_iff_harmless _).mpr hharm).fifo _ (h.work.tasks j t ht).reachable
  placement := h.server.placement hk _
  alive := by
    refine ⟨h.block.not_stopCalled, ?_⟩
    intro th hth hpc
    obtain ⟨i, hget⟩ := List.getElem?_of_mem hth
    exact h.block.not_stopCalled (h.pool.called _ ((h.pool.threads i th hget).left hpc))
  main := by
    have hblock := h.block
    refine ⟨h.log, ?_, ?_, h.fault⟩
    · intro hmain
      rw [hmain] at hblock
      cases hblock
    · intro hmain
      rw [hmain] at hblock
      generalize s.server.pc = pc at hblock
      cases hblock
      rfl

/-- **Each session on the one thread of its context.** For every size of the pool, all connections, and every
    interleaving of `main`, `thd`, the threads of the pool and the outside world, as soon as the pool exists. -/
theorem session_threads (hk : 1 ≤ k) (scripts : Nat → TcpSession.Script) :
    ∀ s, (program scripts k).Reachable Anything s → s.main ≠ .pool → SessionThreads k scripts s := by
  intro s hs hmain
  cases reachable_stage hs with
  | start => exact absurd rfl hmain
  | caught hzero | returned hzero => omega
  | running _ h => exact h.sessionThreads hk

/-- A connection that is closed at once. -/
def closed : TcpSession.Script where
  timeout := none
  rounds := []
  last := some ⟨2⟩

/-- Two contexts and two connections. In the end the second session begins on its thread, while the other thread is in
    the completion handler of the first session's timer, which was posted before that session had left its thread. -/
def twoSessions : List Action :=
  [.main, .main, .main, .thd, .thd, .thd, .thd, .thd, .enter 0, .enter 1,
   .main, .setup none, .setup none, .setup none, .setup none, .main, .main, .main, .main,
   .accepts none, .dispatch 0 0, .run 0, .finish 0, .main, .main, .main, .main, .main, .main, .main, .main,
   .dispatch 1 0, .run 1, .completes 0, .accepts none, .dispatch 0 0, .run 0, .finish 0, .finish 1,
   .main, .main, .main, .main, .dispatch 0 0, .dispatch 1 0]

theorem session_threads_two :
    ∃ h : ((program (fun _ => closed) 2).exec Anything (program (fun _ => closed) 2).start twoSessions).isSome,
      (Option.get _ h).current 0 = some (4, ⟨.begin_ 1, false⟩) ∧
      (Option.get _ h).current 1 = some (2, ⟨.completed 0, false⟩) ∧
      SessionThreads 2 (fun _ => closed) (Option.get _ h) := by
  have hplays : ((program (fun _ => closed) 2).exec Anything (program (fun _ => closed) 2).start twoSessions).isSome :=
    rfl
  refine ⟨hplays, rfl, rfl, ?_⟩
  exact session_threads (by decide) _ _ (reachable_get hplays) (show MainPc.blockingWait ≠ .pool by nofun)

end AsyncCpp.TcpServerProgram
