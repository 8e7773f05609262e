import AsyncCpp.Asio.IoContextPool

/-!
# `Asio.AcceptLoop` — `TcpServer::start`: contexts in turn, and the map of their executors

The accept loop statement by statement, over a pool that nobody else takes contexts from. What the acceptor's
setup and each `async_accept` report are actions of the environment. A node of an `unordered_map` keeps its place
until it is erased, and nothing is erased here: an `Entry` carries the address of its node, and a session the
address that it was scheduled on.

## Contents
- `Entry`, `contains`, `emplace`, `at_`: the map. `TcpServer`, `step`; `server pool`, the machine.
- `Moved`, the steps; `Inv`, what holds in every state (`reachable_inv`).
- `Placement`, `accept_placement`.
-/

namespace AsyncCpp.Accept

open Machine Pool RoundRobin

/-- `boost::system::error_code`, when it reports an error. -/
structure ErrorCode where
  value : Nat
deriving DecidableEq

/-! ## `m_executor_map` -/

/-- A node of the map. -/
structure Entry where
  key      : Address
  executor : Executor
  /-- Where the node lives; the nodes are numbered as they are allocated. -/
  node     : Nat

abbrev ExecutorMap := List Entry

namespace ExecutorMap

def keys (m : ExecutorMap) : List Address := m.map Entry.key

def contains (m : ExecutorMap) (context : Address) : Bool := m.any fun e => e.key == context

/-- A key that is there keeps its entry. -/
def emplace (m : ExecutorMap) (context : Address) (executor : Executor) : ExecutorMap :=
  if m.contains context then m else m ++ [⟨context, executor, m.length⟩]

/-- `&m_executor_map.at(context)`; `none`: `at` throws `std::out_of_range`. -/
def at_ (m : ExecutorMap) (context : Address) : Option Nat := (m.find? fun e => e.key == context).map Entry.node

theorem contains_iff {m : ExecutorMap} {context : Address} : m.contains context = true ↔ context ∈ m.keys := by
  simp [contains, keys]

theorem emplace_prefix (m : ExecutorMap) (context : Address) (executor : Executor) :
    m <+: m.emplace context executor := by
  unfold emplace
  split
  · exact List.prefix_refl m
  · exact List.prefix_append m _

/-- `at` finds what is there. -/
theorem at_of_mem {m : ExecutorMap} {context : Address} (h : context ∈ m.keys) :
    ∃ e ∈ m, e.key = context ∧ m.at_ context = some e.node := by
  obtain ⟨e, he, hkey⟩ := List.mem_map.mp h
  cases hfind : m.find? fun e => e.key == context with
  | none =>
      have := List.find?_eq_none.mp hfind e he
      exact absurd hkey (by simpa using this)
  | some f =>
      refine ⟨f, List.mem_of_find?_eq_some hfind, ?_, ?_⟩
      · simpa using List.find?_some hfind
      · rw [at_, hfind, Option.map_some]

end ExecutorMap

/-! ## `TcpServer` -/

/-- A session that was started. -/
structure Session where
  /-- The context of its socket, -/
  socket   : Address
  /-- of its timer, -/
  timer    : Address
  /-- and the node of its executor. -/
  executor : Nat

inductive Pc
  /-- `acceptor(m_pool.getIoContext())` -/
  | acceptor
  | open_
  | set_option_
  | bind
  | listen
  /-- `auto& context = m_pool.getIoContext();` -/
  | loop
  /-- `if (!m_executor_map.contains(&context))` -/
  | contains (context : Address)
  | emplace (context : Address)
  /-- `socket(context)` -/
  | socket (context : Address)
  /-- Suspended in `async_accept`. -/
  | accept (context socket : Address)
  /-- `if (error)` -/
  | accepted (context socket : Address) (error : Option ErrorCode)
  /-- `steady_timer_{context}` -/
  | timer (context socket : Address)
  /-- `session(..).scheduleOn(&m_executor_map.at(&context)).start()` -/
  | session (context socket timer : Address)
  /-- An exception has left `start`. -/
  | threw
  /-- `m_io_contexts` was indexed outside. -/
  | undefined
deriving DecidableEq

structure TcpServer where
  m_pool         : IoContextPool
  m_executor_map : ExecutorMap := []
  pc             : Pc := .acceptor
  /-- The context of the acceptor. -/
  acceptor       : Option Address := none
  /-- The sessions in the order in which they were started; ghost. -/
  sessions       : List Session := []
  /-- The errors that were logged as `"Accept failed, error: {}"`. -/
  failed         : List ErrorCode := []
  /-- The context of each iteration of the loop; ghost. -/
  used           : List Address := []
  /-- What each `async_accept` reported; ghost. -/
  outcomes       : List (Option ErrorCode) := []

inductive Action
  /-- The next statement of `start` that reports nothing. -/
  | next
  /-- `open`, `set_option`, `bind` or `listen` returns, or throws its error. -/
  | setup (error : Option ErrorCode)
  /-- `async_accept` completes. -/
  | accept (error : Option ErrorCode)

/-- The statements that report nothing. -/
def next (s : TcpServer) : Option TcpServer :=
  match s.pc with
  | .acceptor =>
      match s.m_pool.getIoContext with
      | some (context, pool) => some { s with m_pool := pool, acceptor := some context, pc := .open_ }
      | none => some { s with pc := .undefined }
  | .loop =>
      match s.m_pool.getIoContext with
      | some (context, pool) => some { s with m_pool := pool, used := s.used ++ [context], pc := .contains context }
      | none => some { s with pc := .undefined }
  | .contains context =>
      some { s with pc := if s.m_executor_map.contains context then .socket context else .emplace context }
  | .emplace context =>
      some { s with m_executor_map := s.m_executor_map.emplace context ⟨context⟩, pc := .socket context }
  | .socket context => some { s with pc := .accept context context }
  | .accepted _ _ (some error) => some { s with failed := s.failed ++ [error], pc := .loop }
  | .accepted context socket none => some { s with pc := .timer context socket }
  | .timer context socket => some { s with pc := .session context socket context }
  | .session context socket timer =>
      match s.m_executor_map.at_ context with
      | some node => some { s with sessions := s.sessions ++ [⟨socket, timer, node⟩], pc := .loop }
      | none => some { s with pc := .threw }
  | _ => none

/-- Where the setup of the acceptor goes on. -/
def Pc.afterSetup : Pc → Option Pc
  | .open_       => some .set_option_
  | .set_option_ => some .bind
  | .bind        => some .listen
  | .listen      => some .loop
  | _            => none

def step (s : TcpServer) : Action → Option TcpServer
  | .next => next s
  | .setup error => s.pc.afterSetup.map fun pc => { s with pc := if error.isSome then .threw else pc }
  | .accept error =>
      match s.pc with
      | .accept context socket =>
          some { s with outcomes := s.outcomes ++ [error], pc := .accepted context socket error }
      | _ => none

def server (pool : IoContextPool) : Machine TcpServer Action where
  start := { m_pool := pool }
  step := step

/-! ## What a step can do -/

/-- **The steps of `start`**, one constructor per statement and outcome, with everything the statement checks. -/
inductive Moved (s : TcpServer) : Action → TcpServer → Prop
  | acceptor {context pool} (hpc : s.pc = .acceptor) (hget : s.m_pool.getIoContext = some (context, pool)) :
      Moved s .next { s with m_pool := pool, acceptor := some context, pc := .open_ }
  | loop {context pool} (hpc : s.pc = .loop) (hget : s.m_pool.getIoContext = some (context, pool)) :
      Moved s .next { s with m_pool := pool, used := s.used ++ [context], pc := .contains context }
  | outside (hpc : s.pc = .acceptor ∨ s.pc = .loop) (hget : s.m_pool.getIoContext = none) :
      Moved s .next { s with pc := .undefined }
  | found {context} (hpc : s.pc = .contains context) (hin : s.m_executor_map.contains context = true) :
      Moved s .next { s with pc := .socket context }
  | missing {context} (hpc : s.pc = .contains context) (hout : ¬ s.m_executor_map.contains context = true) :
      Moved s .next { s with pc := .emplace context }
  | emplace {context} (hpc : s.pc = .emplace context) :
      Moved s .next
        { s with m_executor_map := s.m_executor_map.emplace context ⟨context⟩, pc := .socket context }
  | socket {context} (hpc : s.pc = .socket context) : Moved s .next { s with pc := .accept context context }
  | failed {context socket error} (hpc : s.pc = .accepted context socket (some error)) :
      Moved s .next { s with failed := s.failed ++ [error], pc := .loop }
  | accepted {context socket} (hpc : s.pc = .accepted context socket none) :
      Moved s .next { s with pc := .timer context socket }
  | timer {context socket} (hpc : s.pc = .timer context socket) :
      Moved s .next { s with pc := .session context socket context }
  | session {context socket timer node} (hpc : s.pc = .session context socket timer)
      (hat : s.m_executor_map.at_ context = some node) :
      Moved s .next { s with sessions := s.sessions ++ [⟨socket, timer, node⟩], pc := .loop }
  | out_of_range {context socket timer} (hpc : s.pc = .session context socket timer)
      (hat : s.m_executor_map.at_ context = none) : Moved s .next { s with pc := .threw }
  | setup {pc error} (hpc : s.pc.afterSetup = some pc) :
      Moved s (.setup error) { s with pc := if error.isSome then .threw else pc }
  | accept {context socket error} (hpc : s.pc = .accept context socket) :
      Moved s (.accept error) { s with outcomes := s.outcomes ++ [error], pc := .accepted context socket error }

variable {k : Nat} {s s' : TcpServer}

theorem next_moved (hs : next s = some s') : Moved s .next s' := by
  unfold next at hs
  split at hs
  · next hpc =>
    split at hs
    · next hget => cases hs; exact .acceptor hpc hget
    · next hget => cases hs; exact .outside (.inl hpc) hget
  · next hpc =>
    split at hs
    · next hget => cases hs; exact .loop hpc hget
    · next hget => cases hs; exact .outside (.inr hpc) hget
  · next hpc =>
    split at hs
    · next hin => cases hs; exact .found hpc hin
    · next hout => cases hs; exact .missing hpc hout
  · next hpc => cases hs; exact .emplace hpc
  · next hpc => cases hs; exact .socket hpc
  · next hpc => cases hs; exact .failed hpc
  · next hpc => cases hs; exact .accepted hpc
  · next hpc => cases hs; exact .timer hpc
  · next hpc =>
    split at hs
    · next hat => cases hs; exact .session hpc hat
    · next hat => cases hs; exact .out_of_range hpc hat
  · exact absurd hs (by simp)

theorem step_moved {a : Action} (hs : step s a = some s') : Moved s a s' := by
  cases a with
  | next => exact next_moved hs
  | setup error =>
      obtain ⟨pc, hpc, rfl⟩ := Option.map_eq_some_iff.mp hs
      exact .setup hpc
  | accept error =>
      simp only [step] at hs
      split at hs
      · next hpc => cases hs; exact .accept hpc
      · exact absurd hs (by simp)

/-! ## What holds in every state -/

/-- The context of the iteration that is in progress. -/
def Pc.context : Pc → Option Address
  | .contains c | .emplace c | .socket c | .accept c _ | .accepted c _ _ | .timer c _ | .session c _ _ => some c
  | _ => none

/-- In an iteration that has not looked its entry up, or has not filled it. -/
def Pc.filling : Pc → Bool
  | .contains _ | .emplace _ => true
  | _ => false

/-- In an iteration whose `async_accept` has not completed. -/
def Pc.waiting : Pc → Bool
  | .contains _ | .emplace _ | .socket _ | .accept _ _ => true
  | _ => false

/-- The session that the iteration in progress still has to start. -/
def Pc.starting : Pc → List Address
  | .accepted c _ none | .timer c _ | .session c _ _ => [c]
  | _ => []

/-- The error that it still has to log. -/
def Pc.failing : Pc → List ErrorCode
  | .accepted _ _ (some error) => [error]
  | _ => []

/-- Before the loop, or out of `start`. -/
def Pc.outside : Pc → Bool
  | .acceptor | .open_ | .set_option_ | .bind | .listen | .threw => true
  | _ => false

/-- The contexts of the iterations whose `async_accept` succeeded. -/
def succeeded (used : List Address) (outcomes : List (Option ErrorCode)) : List Address :=
  (used.zip outcomes).filterMap fun (context, error) => if error.isNone then some context else none

theorem succeeded_append {used : List Address} {outcomes : List (Option ErrorCode)} (cs : List Address)
    (es : List (Option ErrorCode)) (h : used.length = outcomes.length) :
    succeeded (used ++ cs) (outcomes ++ es) = succeeded used outcomes ++ succeeded cs es := by
  rw [succeeded, List.zip_append h, List.filterMap_append]
  rfl

/-- What the place says about the map and about the objects of the iteration. -/
def Pc.Ok (m : ExecutorMap) : Pc → Prop
  | .emplace c => c ∉ m.keys
  | .socket c => c ∈ m.keys
  | .accept c sock | .accepted c sock _ | .timer c sock => sock = c ∧ c ∈ m.keys
  | .session c sock tim => sock = c ∧ tim = c ∧ c ∈ m.keys
  | .undefined => False
  | _ => True

/-- The calls of `getIoContext()` so far. -/
def TcpServer.taken (s : TcpServer) : Nat := if s.pc = .acceptor then 0 else s.used.length + 1

/-- The contexts whose entries are filled. -/
def TcpServer.filled (s : TcpServer) : List Address := if s.pc.filling then s.used.dropLast else s.used

structure Inv (k : Nat) (s : TcpServer) : Prop where
  pool     : s.m_pool = .after k s.taken
  used     : s.used = turns k 1 s.used.length
  outside  : s.pc.outside = true → s.used = []
  current  : ∀ c, s.pc.context = some c → s.used = s.used.dropLast ++ [c]
  filled   : ∀ c, c ∈ s.m_executor_map.keys ↔ c ∈ s.filled
  keys     : s.m_executor_map.keys.Nodup
  nodes    : s.m_executor_map.map Entry.node = List.range s.m_executor_map.length
  posts    : ∀ e ∈ s.m_executor_map, e.executor.m_io_context = e.key
  ok       : s.pc.Ok s.m_executor_map
  outcomes : s.outcomes.length + s.pc.waiting.toNat = s.used.length
  sessions : s.sessions.map Session.socket ++ s.pc.starting = succeeded s.used s.outcomes
  failed   : s.failed ++ s.pc.failing = s.outcomes.filterMap id
  placed   : ∀ x ∈ s.sessions, x.timer = x.socket ∧ ∃ e ∈ s.m_executor_map, e.node = x.executor ∧ e.key = x.socket

theorem start_inv : Inv k (server (.after k 0)).start where
  pool := rfl
  used := rfl
  outside := fun _ => rfl
  current := by
    intro c hc
    cases hc
  filled := by
    intro c
    exact iff_of_false List.not_mem_nil List.not_mem_nil
  keys := List.nodup_nil
  nodes := rfl
  posts := by
    intro e he
    cases he
  ok := trivial
  outcomes := rfl
  sessions := rfl
  failed := rfl
  placed := by
    intro x hx
    cases hx

/-- What the invariant says at place `pc`. -/
structure AtPc (k : Nat) (s : TcpServer) (pc : Pc) : Prop where
  pool     : s.m_pool = .after k (TcpServer.taken { s with pc := pc })
  filled   : ∀ c, c ∈ s.m_executor_map.keys ↔ c ∈ TcpServer.filled { s with pc := pc }
  ok       : pc.Ok s.m_executor_map
  outcomes : s.outcomes.length + pc.waiting.toNat = s.used.length
  sessions : s.sessions.map Session.socket ++ pc.starting = succeeded s.used s.outcomes
  failed   : s.failed ++ pc.failing = s.outcomes.filterMap id

theorem Inv.atPc (h : Inv k s) {pc : Pc} (hpc : s.pc = pc) : AtPc k s pc := by
  subst hpc
  exact ⟨h.pool, h.filled, h.ok, h.outcomes, h.sessions, h.failed⟩

/-- **A statement that only goes on** to another place of the same iteration. -/
theorem Inv.goto (h : Inv k s) {pc : Pc} (hacc : s.pc ≠ .acceptor ∧ pc ≠ .acceptor)
    (hout : pc.outside = true → s.pc.outside = true) (hctx : ∀ c, pc.context = some c → s.pc.context = some c)
    (hfilled : ∀ c, c ∈ s.m_executor_map.keys ↔ c ∈ TcpServer.filled { s with pc := pc })
    (hok : pc.Ok s.m_executor_map) (hwait : pc.waiting = s.pc.waiting) (hstart : pc.starting = s.pc.starting)
    (hfail : pc.failing = s.pc.failing) : Inv k { s with pc := pc } where
  pool := by
    have hpool := h.pool
    unfold TcpServer.taken at hpool ⊢
    rw [if_neg hacc.1] at hpool
    rw [if_neg hacc.2]
    exact hpool
  used := h.used
  outside := fun ho => h.outside (hout ho)
  current := fun c hc => h.current c (hctx c hc)
  filled := hfilled
  keys := h.keys
  nodes := h.nodes
  posts := h.posts
  ok := hok
  outcomes := by
    show s.outcomes.length + pc.waiting.toNat = _
    rw [hwait]
    exact h.outcomes
  sessions := by
    show s.sessions.map Session.socket ++ pc.starting = _
    rw [hstart]
    exact h.sessions
  failed := by
    show s.failed ++ pc.failing = _
    rw [hfail]
    exact h.failed
  placed := h.placed

/-- Before the setup the pool has given nothing, afterwards one context and those of the loop. -/
theorem Inv.getIoContext (h : Inv k s) (hk : 0 < k) :
    s.m_pool.getIoContext = some (s.taken % k, .after k (s.taken + 1)) := by
  rw [h.pool]
  exact IoContextPool.getIoContext_after hk _

theorem Inv.step_acceptor (h : Inv k s) (hk : 0 < k) {context : Address} {pool : IoContextPool} (hpc : s.pc = .acceptor)
    (hget : s.m_pool.getIoContext = some (context, pool)) :
    Inv k { s with m_pool := pool, acceptor := some context, pc := .open_ } := by
  rw [h.getIoContext hk] at hget
  cases hget
  have hused : s.used = [] := h.outside (by rw [hpc]; rfl)
  have hat := h.atPc hpc
  refine ⟨?_, h.used, fun _ => hused, fun c hc => absurd hc (by simp [Pc.context]), hat.filled, h.keys, h.nodes, h.posts,
    trivial, hat.outcomes, hat.sessions, hat.failed, h.placed⟩
  simp [TcpServer.taken, hpc, hused]

theorem Inv.step_loop (h : Inv k s) (hk : 0 < k) {context : Address} {pool : IoContextPool} (hpc : s.pc = .loop)
    (hget : s.m_pool.getIoContext = some (context, pool)) :
    Inv k { s with m_pool := pool, used := s.used ++ [context], pc := .contains context } := by
  rw [h.getIoContext hk] at hget
  cases hget
  have htaken : s.taken = s.used.length + 1 := if_neg (by simp [hpc])
  have hat := h.atPc hpc
  have hlen : s.used.length = s.outcomes.length := hat.outcomes.symm
  refine ⟨?_, ?_, fun hout => absurd hout (by simp [Pc.outside]), ?_, ?_, h.keys, h.nodes, h.posts, trivial, ?_, ?_,
    hat.failed, h.placed⟩
  · rw [htaken]
    simp [TcpServer.taken]
  · show s.used ++ [s.taken % k] = turns k 1 (s.used ++ [s.taken % k]).length
    rw [List.length_append, List.length_singleton, turns_succ, ← h.used, htaken, Nat.add_comm 1]
  · intro c hc
    cases hc
    show s.used ++ [s.taken % k] = (s.used ++ [s.taken % k]).dropLast ++ [s.taken % k]
    rw [List.dropLast_concat]
  · intro c
    show c ∈ s.m_executor_map.keys ↔ c ∈ (s.used ++ [s.taken % k]).dropLast
    rw [List.dropLast_concat]
    exact hat.filled c
  · show s.outcomes.length + 1 = (s.used ++ [s.taken % k]).length
    rw [List.length_append, hlen]
    rfl
  · show s.sessions.map Session.socket ++ [] = succeeded (s.used ++ [s.taken % k]) s.outcomes
    have happend := succeeded_append [s.taken % k] [] hlen
    rw [List.append_nil] at happend
    rw [happend]
    exact hat.sessions.trans (List.append_nil _).symm

/-- The iteration's context is the last that was taken. -/
theorem Inv.mem_used (h : Inv k s) {c : Address} (hc : s.pc.context = some c) (a : Address) :
    a ∈ s.used ↔ a ∈ s.used.dropLast ∨ a = c := by
  conv => lhs; rw [h.current c hc]
  simp

theorem Inv.step_found (h : Inv k s) {context : Address} (hpc : s.pc = .contains context)
    (hin : s.m_executor_map.contains context = true) : Inv k { s with pc := .socket context } := by
  have hmem := ExecutorMap.contains_iff.mp hin
  refine h.goto (by simp [hpc]) (by simp [Pc.outside]) ?_ ?_ hmem (by rw [hpc]; rfl) (by rw [hpc]; rfl) (by rw [hpc]; rfl)
  · intro c hc
    rw [hpc]
    exact hc
  · intro c
    have hfilled : ∀ c, c ∈ s.m_executor_map.keys ↔ c ∈ s.used.dropLast := (h.atPc hpc).filled
    show c ∈ s.m_executor_map.keys ↔ c ∈ s.used
    rw [h.mem_used (c := context) (by rw [hpc]; rfl), ← hfilled]
    constructor
    · exact .inl
    · rintro (hc | rfl)
      · exact hc
      · exact hmem

theorem Inv.step_missing (h : Inv k s) {context : Address} (hpc : s.pc = .contains context)
    (hout : ¬ s.m_executor_map.contains context = true) : Inv k { s with pc := .emplace context } := by
  refine h.goto (by simp [hpc]) (by simp [Pc.outside]) ?_ (h.atPc hpc).filled ?_ (by rw [hpc]; rfl) (by rw [hpc]; rfl)
    (by rw [hpc]; rfl)
  · intro c hc
    rw [hpc]
    exact hc
  · exact fun hmem => hout (ExecutorMap.contains_iff.mpr hmem)

/-- The entry is new: its node is the next that is allocated, and all others stay. -/
theorem Inv.step_emplace (h : Inv k s) {context : Address} (hpc : s.pc = .emplace context) :
    Inv k { s with m_executor_map := s.m_executor_map.emplace context ⟨context⟩, pc := .socket context } := by
  have hat := h.atPc hpc
  have hnot : context ∉ s.m_executor_map.keys := hat.ok
  have hmap : s.m_executor_map.emplace context ⟨context⟩ =
      s.m_executor_map ++ [⟨context, ⟨context⟩, s.m_executor_map.length⟩] := by
    unfold ExecutorMap.emplace
    rw [if_neg fun hc => hnot (ExecutorMap.contains_iff.mp hc)]
  have hkeys : (s.m_executor_map.emplace context ⟨context⟩).keys = s.m_executor_map.keys ++ [context] := by
    rw [hmap]
    exact List.map_append
  refine ⟨hat.pool, h.used, fun hout => absurd hout (by simp [Pc.outside]), ?_, ?_, ?_, ?_, ?_, ?_, hat.outcomes,
    hat.sessions, hat.failed, ?_⟩
  · intro c hc
    exact h.current c (by rw [hpc]; exact hc)
  · intro c
    show c ∈ (s.m_executor_map.emplace context ⟨context⟩).keys ↔ c ∈ s.used
    rw [hkeys, h.mem_used (c := context) (by rw [hpc]; rfl), List.mem_append, List.mem_singleton, hat.filled c]
    rfl
  · show (s.m_executor_map.emplace context ⟨context⟩).keys.Nodup
    rw [hkeys]
    refine List.nodup_append.mpr ⟨h.keys, List.nodup_singleton context, ?_⟩
    rintro a ha b hb rfl
    rw [List.mem_singleton.mp hb] at ha
    exact hnot ha
  · show (s.m_executor_map.emplace context ⟨context⟩).map Entry.node = _
    rw [hmap, List.map_append, h.nodes, List.length_append, List.length_singleton, List.range_succ]
    rfl
  · intro e he
    show e.executor.m_io_context = e.key
    change e ∈ s.m_executor_map.emplace context ⟨context⟩ at he
    rw [hmap] at he
    rcases List.mem_append.mp he with he | he
    · exact h.posts e he
    · rw [List.mem_singleton.mp he]
  · show context ∈ (s.m_executor_map.emplace context ⟨context⟩).keys
    rw [hkeys]
    exact List.mem_append_right _ List.mem_cons_self
  · intro x hx
    obtain ⟨htimer, e, he, hnode⟩ := h.placed x hx
    exact ⟨htimer, e, (s.m_executor_map.emplace_prefix context ⟨context⟩).subset he, hnode⟩

/-- A completed `async_accept`: its iteration starts a session, or logs the error. -/
theorem Inv.step_accept (h : Inv k s) {context socket : Address} {error : Option ErrorCode}
    (hpc : s.pc = .accept context socket) :
    Inv k { s with outcomes := s.outcomes ++ [error], pc := .accepted context socket error } := by
  have hused := h.current context (by rw [hpc]; rfl)
  have hat := h.atPc hpc
  have houtcomes := hat.outcomes
  have hlen : s.used.dropLast.length = s.outcomes.length := by
    have hlast := congrArg List.length hused
    rw [List.length_append, List.length_singleton] at hlast
    rw [hlast] at houtcomes
    exact (Nat.add_right_cancel houtcomes).symm
  refine ⟨hat.pool, h.used, fun hout => absurd hout (by simp [Pc.outside]), ?_, hat.filled, h.keys, h.nodes, h.posts,
    hat.ok, ?_, ?_, ?_, h.placed⟩
  · intro c hc
    exact h.current c (by rw [hpc]; exact hc)
  · show (s.outcomes ++ [error]).length + 0 = s.used.length
    rw [List.length_append]
    exact houtcomes
  · have hbefore : s.sessions.map Session.socket = succeeded s.used.dropLast s.outcomes := by
      have happend := succeeded_append [context] [] hlen
      rw [← hused, List.append_nil] at happend
      exact (List.append_nil _).symm.trans (hat.sessions.trans (happend.trans (List.append_nil _)))
    have happend := succeeded_append [context] [error] hlen
    rw [← hused] at happend
    show s.sessions.map Session.socket ++ _ = succeeded s.used (s.outcomes ++ [error])
    rw [happend, hbefore]
    cases error <;> rfl
  · rw [List.filterMap_append, ← hat.failed]
    show s.failed ++ _ = s.failed ++ [] ++ _
    rw [List.append_nil]
    cases error <;> rfl

/-- **The session is started** on the executor of its own context. -/
theorem Inv.step_session (h : Inv k s) {context socket timer : Address} {node : Nat}
    (hpc : s.pc = .session context socket timer) (hnode : s.m_executor_map.at_ context = some node) :
    Inv k { s with sessions := s.sessions ++ [⟨socket, timer, node⟩], pc := .loop } := by
  have hat := h.atPc hpc
  obtain ⟨rfl, rfl, hmem⟩ : socket = context ∧ timer = context ∧ context ∈ s.m_executor_map.keys := hat.ok
  refine ⟨hat.pool, h.used, fun hout => absurd hout (by simp [Pc.outside]), fun c hc => absurd hc (by simp [Pc.context]),
    hat.filled, h.keys, h.nodes, h.posts, trivial, hat.outcomes, ?_, hat.failed, ?_⟩
  · rw [List.map_append]
    exact (List.append_nil _).trans hat.sessions
  · intro x hx
    rcases List.mem_append.mp hx with hx | hx
    · exact h.placed x hx
    · rw [List.mem_singleton.mp hx]
      obtain ⟨e, he, hkey, hentry⟩ := ExecutorMap.at_of_mem hmem
      exact ⟨rfl, e, he, Option.some.inj (hentry.symm.trans hnode), hkey⟩

theorem Inv.step_failed (h : Inv k s) {context socket : Address} {error : ErrorCode}
    (hpc : s.pc = .accepted context socket (some error)) :
    Inv k { s with failed := s.failed ++ [error], pc := .loop } := by
  have hat := h.atPc hpc
  refine ⟨hat.pool, h.used, fun hout => absurd hout (by simp [Pc.outside]), fun c hc => absurd hc (by simp [Pc.context]),
    hat.filled, h.keys, h.nodes, h.posts, trivial, hat.outcomes, hat.sessions, ?_, h.placed⟩
  show s.failed ++ [error] ++ [] = _
  rw [List.append_nil]
  exact hat.failed

/-- The setup of the acceptor touches neither the pool nor the map. -/
theorem Inv.step_setup (h : Inv k s) {pc : Pc} {error : Option ErrorCode} (hpc : s.pc.afterSetup = some pc) :
    Inv k { s with pc := if error.isSome then .threw else pc } := by
  have hfilled := h.filled
  unfold TcpServer.filled at hfilled
  cases hs : s.pc <;> rw [hs] at hpc hfilled <;> cases hpc <;> cases error <;>
    exact h.goto (by simp [hs]) (by simp [hs, Pc.outside]) (by simp [Pc.context]) hfilled trivial (by rw [hs]; rfl)
      (by rw [hs]; rfl) (by rw [hs]; rfl)

/-- What is left of an iteration after `async_accept` needs the entry, and it is there. -/
theorem Inv.step (hk : 0 < k) (h : Inv k s) {a : Action} (hs : step s a = some s') : Inv k s' := by
  have hkeep : ∀ {pc : Pc}, s.pc.filling = pc.filling → ∀ c, c ∈ s.m_executor_map.keys ↔
      c ∈ TcpServer.filled { s with pc := pc } := by
    intro pc hfilling c
    unfold TcpServer.filled
    rw [← hfilling]
    exact h.filled c
  cases step_moved hs with
  | acceptor hpc hget => exact h.step_acceptor hk hpc hget
  | loop hpc hget => exact h.step_loop hk hpc hget
  | outside hpc hget =>
      rw [h.getIoContext hk] at hget
      cases hget
  | found hpc hin => exact h.step_found hpc hin
  | missing hpc hout => exact h.step_missing hpc hout
  | emplace hpc => exact h.step_emplace hpc
  | socket hpc =>
      have hok := (h.atPc hpc).ok
      exact h.goto (by simp [hpc]) (by simp [Pc.outside]) (by rw [hpc]; exact fun _ hc => hc)
        (hkeep (by rw [hpc]; rfl)) ⟨rfl, hok⟩ (by rw [hpc]; rfl) (by rw [hpc]; rfl) (by rw [hpc]; rfl)
  | failed hpc => exact h.step_failed hpc
  | accepted hpc =>
      have hok := (h.atPc hpc).ok
      exact h.goto (by simp [hpc]) (by simp [Pc.outside]) (by rw [hpc]; exact fun _ hc => hc)
        (hkeep (by rw [hpc]; rfl)) hok (by rw [hpc]; rfl) (by rw [hpc]; rfl) (by rw [hpc]; rfl)
  | timer hpc =>
      have hok := (h.atPc hpc).ok
      exact h.goto (by simp [hpc]) (by simp [Pc.outside]) (by rw [hpc]; exact fun _ hc => hc)
        (hkeep (by rw [hpc]; rfl)) ⟨hok.1, rfl, hok.2⟩ (by rw [hpc]; rfl) (by rw [hpc]; rfl) (by rw [hpc]; rfl)
  | session hpc hat => exact h.step_session hpc hat
  | out_of_range hpc hat =>
      have hok := (h.atPc hpc).ok
      obtain ⟨e, _, _, hnode⟩ := ExecutorMap.at_of_mem hok.2.2
      exact absurd (hat.symm.trans hnode) (by simp)
  | setup hpc => exact h.step_setup hpc
  | accept hpc => exact h.step_accept hpc

theorem reachable_inv (hk : 0 < k) (h : (server (.after k 0)).Reachable Anything s) : Inv k s :=
  h.invariant start_inv fun _ hi _ hs => hi.step hk hs

/-- No step takes an entry away, or another one's place. -/
theorem step_map_grows {a : Action} (hs : step s a = some s') : s.m_executor_map <+: s'.m_executor_map := by
  cases step_moved hs with
  | emplace => exact s.m_executor_map.emplace_prefix _ _
  | _ => exact List.prefix_refl _

/-! ## Where the sessions are placed -/

/-- **Placement.** -/
structure Placement (k : Nat) (pool : IoContextPool) (s : TcpServer) : Prop where
  /-- The pool is never indexed outside, and `at` never throws: an exception can come from the setup only. -/
  total    : s.m_pool.m_next_io_context < k ∧ s.pc ≠ .undefined ∧ (s.pc = .threw → s.used = [])
  /-- Iteration `i` uses context `(i + 1) mod k`, -/
  turn     : ∀ i < s.used.length, s.used[i]? = some ((i + 1) % k)
  /-- any `k` iterations in a row use each context once, -/
  round    : ∀ i, i + k ≤ s.used.length → ((s.used.drop i).take k).Perm (List.range k)
  /-- and no context is used two times more than another. -/
  fair     : ∀ c d, c < k → d < k → s.used.count c ≤ s.used.count d + 1
  /-- Unless an iteration has not filled its entry yet, the map holds the contexts that were used, -/
  entries  : s.pc.filling = false → ∀ c, c ∈ s.m_executor_map.keys ↔ c ∈ s.used
  /-- each once, -/
  keys     : s.m_executor_map.keys.Nodup ∧ s.m_executor_map.length ≤ k
  /-- with an executor that posts to it, -/
  posts    : ∀ e ∈ s.m_executor_map, ∀ func sys, e.executor.add func sys = sys.post e.key func
  /-- in a node that stays where it is. -/
  stable   : (s.m_executor_map.map Entry.node).Nodup ∧
               ∀ t, (server pool).Steps Anything s t → s.m_executor_map <+: t.m_executor_map
  /-- A session has its socket, its timer and its executor on one context. -/
  placed   : ∀ x ∈ s.sessions, x.timer = x.socket ∧
               ∃ e ∈ s.m_executor_map, e.node = x.executor ∧ e.executor.m_io_context = x.socket
  /-- Each `async_accept` that succeeded has its session, or is about to start it, and nothing else has one; -/
  sessions : s.sessions.map Session.socket ++ s.pc.starting = succeeded s.used s.outcomes
  /-- the errors of the others are logged. -/
  failed   : s.failed ++ s.pc.failing = s.outcomes.filterMap id

theorem Inv.placement (hk : 0 < k) (h : Inv k s) (pool : IoContextPool) : Placement k pool s where
  total := by
    refine ⟨?_, ?_, ?_⟩
    · rw [h.pool]
      exact Nat.mod_lt _ hk
    · intro hpc
      have := h.ok
      rwa [hpc] at this
    · intro hpc
      exact h.outside (by rw [hpc]; rfl)
  turn := by
    intro i hi
    rw [h.used, turns_getElem? hi, Nat.add_comm 1]
  round := by
    intro i hi
    rw [h.used]
    exact turns_window hk hi
  fair := by
    intro c d _ hd
    rw [h.used]
    exact count_turns_le _ _ hd
  entries := by
    intro hfilling c
    have := h.filled c
    unfold TcpServer.filled at this
    rwa [hfilling] at this
  keys := by
    refine ⟨h.keys, ?_⟩
    have hsub : s.m_executor_map.keys.Subset (List.range k) := by
      intro c hc
      have hfilled := (h.filled c).mp hc
      have hused : c ∈ s.used := by
        unfold TcpServer.filled at hfilled
        split at hfilled
        · exact List.mem_of_mem_dropLast hfilled
        · exact hfilled
      rw [h.used] at hused
      exact List.mem_range.mpr (turns_lt hk hused)
    have hle := (List.subperm_of_subset h.keys hsub).length_le
    rwa [List.length_range, ExecutorMap.keys, List.length_map] at hle
  posts := by
    intro e he func sys
    rw [Executor.add, h.posts e he]
  stable := by
    refine ⟨?_, ?_⟩
    · rw [h.nodes]
      exact List.nodup_range
    · intro t ht
      exact ht.invariant (I := fun u => s.m_executor_map <+: u.m_executor_map) (List.prefix_refl _)
        fun hpre _ hs => hpre.trans (step_map_grows hs)
  placed := by
    intro x hx
    obtain ⟨htimer, e, he, hnode, hkey⟩ := h.placed x hx
    exact ⟨htimer, e, he, hnode, (h.posts e he).trans hkey⟩
  sessions := h.sessions
  failed := h.failed

/-- **Accept-loop placement.** For every pool size and every sequence of accept outcomes, in every state of
    `TcpServer::start`. -/
theorem accept_placement (hk : 1 ≤ k) :
    ∃ pool, IoContextPool.make k = .ok pool ∧ ∀ s, (server pool).Reachable Anything s → Placement k pool s :=
  ⟨_, IoContextPool.make_after hk, fun _ h => (reachable_inv hk h).placement hk _⟩

/-- Two contexts; the second of three connections is refused. -/
def threeConnections : List Action :=
  [.next, .setup none, .setup none, .setup none, .setup none,
    .next, .next, .next, .next, .accept none, .next, .next, .next,
    .next, .next, .next, .next, .accept (some ⟨24⟩), .next,
    .next, .next, .next, .accept none, .next, .next, .next]

theorem accept_placement_two : ∃ pool, IoContextPool.make 2 = .ok pool ∧
    ∃ h : ((server pool).exec Anything (server pool).start threeConnections).isSome,
      (Option.get _ h).used = [1, 0, 1] ∧ (Option.get _ h).sessions.map Session.executor = [0, 0] ∧
        Placement 2 pool (Option.get _ h) := by
  obtain ⟨pool, hpool, hall⟩ := accept_placement (k := 2) (by decide)
  refine ⟨pool, hpool, ?_⟩
  cases hpool
  exact ⟨rfl, rfl, rfl, hall _ (reachable_get rfl)⟩

end AsyncCpp.Accept
