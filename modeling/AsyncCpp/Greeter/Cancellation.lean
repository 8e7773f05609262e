import AsyncCpp.Greeter.Progress

/-!
# `Greeter.Cancellation` — what a client that goes away does to the server

The event of a server-side `Finish` has `ok = false` when the call was dead by then, and `HandleRpcs` asserts
`ok` for every event. So the server survives exactly the runs in which no call dies while it is in service.

## Contents
- `Exact`: what gRPC promises of `ok`. `Harmless`: the condition on the clients.
- `aborts_on_cancellation`: a run of one thread and one client that ends in a failed `GPR_ASSERT(ok)`.
- `Survives w`, and `survives_iff_harmless`: it holds after every harmless run, and each further action is
  harmless exactly if the server cannot abort afterwards.
-/

namespace AsyncCpp.Greeter

variable {n : Nat} {users : CallId → Bytes} {w w' : World n} {held : Fin n → Multiset Token}

/-! ## The environments -/

/-- The event of a `Finish` has `ok = false` exactly if the call is dead. -/
def Exact (w : World n) : Action n → Prop
  | .reply _ c _ ok => ok = !(w.calls c).dead
  | _ => True

instance (w : World n) : (a : Action n) → Decidable (Exact w a)
  | .reply _ c _ ok => inferInstanceAs (Decidable (ok = !(w.calls c).dead))
  | .statement _ | .new _ _ | .next _ _ | .arrive _ _ | .die _ | .client _ | .deliver _ _ => .isTrue trivial

/-- The call was accepted and no reply went out. -/
def Net.inService : Net → Bool
  | .accepted _ => true
  | _           => false

theorem Net.inService_iff (net : Net) : net.inService = true ↔ ∃ p, net = .accepted p := by
  cases net <;> simp [Net.inService]

/-- No call dies while it is in service, and no dead call is handed to an acceptor. -/
def Harmless (w : World n) : Action n → Prop
  | .die c      => (w.calls c).net.inService = false
  | .arrive _ c => (w.calls c).dead = false
  | _           => True

instance (w : World n) : (a : Action n) → Decidable (Harmless w a)
  | .die c => inferInstanceAs (Decidable ((w.calls c).net.inService = false))
  | .arrive _ c => inferInstanceAs (Decidable ((w.calls c).dead = false))
  | .statement _ | .new _ _ | .next _ _ | .reply _ _ _ _ | .client _ | .deliver _ _ => .isTrue trivial

/-- What the server and gRPC do with the calls they have. -/
def ServerExact (w : World n) (a : Action n) : Prop := a.isServer ∧ Exact w a

/-- A client cancels its call while the server composes the reply. -/
def cancellation : List (Action 1) :=
  [.new 0 7, .statement 0, .statement 0, .statement 0, .client 0, .client 0, .client 0, .arrive ⟨7, 0⟩ 0,
    .next 0 ⟨⟨7, 0⟩, .request 0, true⟩, .statement 0, .statement 0, .statement 0, .new 0 8, .statement 0,
    .statement 0, .statement 0, .die 0, .statement 0, .statement 0, .statement 0,
    .reply ⟨7, 0⟩ 0 ⟨helloPrefix⟩ false, .next 0 ⟨⟨7, 0⟩, .finish 0, false⟩, .statement 0]

/-- **A cancelled call brings the server down.** -/
theorem aborts_on_cancellation :
    ∃ w : World 1, (system 1 fun _ => []).Reachable Exact w ∧ w.mode = .aborted :=
  ⟨_, Machine.reachable_get (l := cancellation) rfl, rfl⟩

/-! ## Harmless runs -/

/-- Every call in service is alive. -/
def Alive (w : World n) : Prop := ∀ c p, (w.calls c).net = .accepted p → (w.calls c).dead = false

/-- While the calls in service are alive, every `Finish` succeeds. -/
theorem Inv.allOk (h : Inv users w held) (hl : Alive w) {a : Action n} (ha : Exact w a)
    (hs : Greeter.step w a = some w') : AllOk w a := by
  cases a with
  | reply p c r ok =>
      simp only [Greeter.step] at hs
      split at hs
      · next hg =>
        obtain ⟨v, hv, hserves⟩ := h.calls.get (mem_tokens_of_op hg.2) (k := c) rfl
        obtain ⟨hnet, _⟩ := World.serving_eq_some (hserves ▸ hv)
        exact ha.trans (by rw [hl c p hnet]; rfl)
      · exact absurd hs (by simp)
  | _ => trivial

/-- One call moves on, and the calls in service are still alive. -/
theorem Alive.setCall (hl : Alive w) {d : CallId} {call : Call}
    (hd : ∀ p, call.net = .accepted p → call.dead = false) : Alive (w.setCall d call) := by
  intro c p hnet
  by_cases hcd : c = d
  · subst hcd
    simp only [World.setCall, Function.update_self] at hnet ⊢
    exact hd p hnet
  · simp only [World.setCall, Function.update_of_ne hcd] at hnet ⊢
    exact hl c p hnet

/-- `SayHello` itself neither kills nor revives its call. -/
theorem sayHello_dead {call call' : Call} (hs : sayHello call = some call') : call'.dead = call.dead := by
  unfold sayHello at hs
  cases hpc : call.pc with
  | returned text | aborted => rw [hpc] at hs; cases hs
  | startCall | next | assertTag | assertOk =>
      rw [hpc] at hs
      obtain ⟨_, _, rfl⟩ := Option.map_eq_some_iff.mp hs
      rfl
  | _ => rw [hpc] at hs; cases hs; rfl

/-- **A harmless action keeps the calls in service alive.** -/
theorem Inv.step_alive (h : Inv users w held) (hl : Alive w) {a : Action n} (ha : AllOk w a) (hh : Harmless w a)
    (hs : Greeter.step w a = some w') : Alive w' := by
  have hcalls := (h.step_calls ha hs).1
  have hset : ∀ {d call}, w'.calls = (w.setCall d call).calls →
      (∀ p, call.net = .accepted p → call.dead = false) → Alive w' := by
    intro d call hw hd c p hnet
    rw [hw] at hnet ⊢
    exact hl.setCall hd c p hnet
  cases a with
  | statement t | new t addr | next t e =>
      intro c p hnet
      rw [show w'.calls = w.calls from hcalls] at hnet ⊢
      exact hl c p hnet
  | arrive p d => exact hset hcalls.2 fun _ _ => hh
  | reply p d r ok => exact hset hcalls.2.2 fun _ hnet => by cases hnet
  | die d =>
      apply hset hcalls
      intro p hnet
      rw [Harmless, (Net.inService_iff _).mpr ⟨p, hnet⟩] at hh
      cases hh
  | client d =>
      obtain ⟨call, hcall, hw⟩ := hcalls
      apply hset hw
      intro p hnet
      obtain ⟨_, hsame | ⟨_, r, hsent⟩⟩ := sayHello_ok (h.clients d) hcall
      · exact sayHello_dead hcall ▸ hl d p (hsame ▸ hnet)
      · rw [hsent] at hnet
        cases hnet
  | deliver d outcome =>
      obtain ⟨call, hcall, hw⟩ := hcalls
      apply hset hw
      intro p hnet
      obtain ⟨_, _, ⟨r, hr, rfl⟩ | ⟨_, rfl⟩⟩ := deliver_cases hcall
      · exact absurd (hr.symm.trans hnet) (by simp)
      · exact hl d p hnet

/-- What every harmless run preserves. -/
def Sound (users : CallId → Bytes) (w : World n) : Prop := (∃ held, Inv users w held) ∧ Alive w

theorem Sound.step (h : Sound users w) {a : Action n} (ha : Exact w a ∧ Harmless w a)
    (hs : Greeter.step w a = some w') : AllOk w a ∧ Sound users w' := by
  obtain ⟨⟨held, hi⟩, hl⟩ := h
  have hok := hi.allOk hl ha.1 hs
  exact ⟨hok, (hi.step hok hs).1, hi.step_alive hl hok ha.2 hs⟩

theorem reachable_sound (h : (system n users).Reachable (fun w a => Exact w a ∧ Harmless w a) w) :
    Sound users w := by
  have hstart : Alive (World.init n users) := by
    rintro c p ⟨⟩
  apply h.invariant (I := Sound users) ⟨⟨_, Inv.init n users⟩, hstart⟩
  intro w a w' _ hi ha hs
  exact (hi.step ha hs).2

theorem Action.isThread.serverExact {a : Action n} (ha : a.isThread) : ServerExact w a := by
  refine ⟨ha.isServer, ?_⟩
  cases a with
  | reply p c r ok => exact ha.elim
  | _ => trivial

/-- The server's own actions are harmless. -/
theorem ServerExact.harmless {a : Action n} (ha : ServerExact w a) : Exact w a ∧ Harmless w a := by
  refine ⟨ha.2, ?_⟩
  cases a with
  | arrive p c | die c => exact ha.1.elim
  | _ => trivial

theorem Sound.server (h : Sound users w) (hs : (system n users).Steps ServerExact w w') : Sound users w' := by
  apply hs.invariant h
  intro w a w' hi ha hstep
  exact (hi.step ha.harmless hstep).2

/-- The same run, seen as one in which every `Finish` succeeds. -/
theorem Sound.allOk_steps (h : Sound users w) (hs : (system n users).Steps ServerExact w w') :
    (system n users).Steps AllOk w w' := by
  induction hs with
  | refl => exact .refl
  | tail hr ha hstep ih => exact .tail ih ((h.server hr).step ha.harmless hstep).1 hstep

/-! ## Survival -/

/-- **The server survives**: it runs, the `Lifecycle` of its objects is intact, and left to itself it comes to
    rest after at most `rank` steps, with one armed acceptor per thread as its only objects and every call that
    was accepted answered. -/
structure Survives (users : CallId → Bytes) (w : World n) : Prop where
  running   : w.mode = .running
  lifecycle : Lifecycle w
  drains    : ∀ k v, (system n users).StepsN ServerExact k w v → k ≤ w.rank
  atRest    : ∀ v, (system n users).Steps ServerExact w v → (system n users).Stuck ServerExact v → AtRest v
  reclaimed : ∀ v, (system n users).Steps ServerExact w v → AtRest v →
                v.live = n ∧ v.ops.countP (·.isRequestSayHello) = n
  answered  : ∀ v, (system n users).Steps ServerExact w v → AtRest v → ∀ c, (w.calls c).net.begun →
                (v.calls c).net = .replied ⟨greeting (users c)⟩ ∧ v.finishCount c = 1
  accepts   : ∀ v, (system n users).Steps ServerExact w v → AtRest v → ∀ c r, (v.calls c).net = .sent r →
                ∃ p, (Greeter.step v (.arrive p c)).isSome

/-- At rest some acceptor is there for a call that waits. -/
theorem Inv.accepts (h : Inv users w held) (hn : 0 < n) (hr : AtRest w) {c : CallId} {r : HelloRequest}
    (hnet : (w.calls c).net = .sent r) : ∃ p, (Greeter.step w (.arrive p c)).isSome := by
  have hcount := (h.live_of_atRest hr).2
  obtain ⟨o, ho, hreq⟩ := Multiset.countP_pos.mp (hcount.symm ▸ hn)
  cases o with
  | requestSayHello p => exact ⟨p, by simp [Greeter.step, hnet, h.running, ho]⟩
  | finish p d r => cases hreq

theorem Sound.survives (h : Sound users w) (hn : 0 < n) : Survives users w where
  running := by
    obtain ⟨⟨held, hi⟩, _⟩ := h
    exact hi.running
  lifecycle := by
    obtain ⟨⟨held, hi⟩, _⟩ := h
    exact hi.intact
  drains := by
    intro k v hk
    have hbound := hk.measure (I := Sound users) (μ := World.rank)
      (fun hi ha hs => (hi.step ha.harmless hs).2)
      (fun hi ha hs => by
        obtain ⟨hok, _⟩ := hi.step ha.harmless hs
        obtain ⟨⟨held, hinv⟩, _⟩ := hi
        exact (hinv.step hok hs).2 ha.1) h
    omega
  atRest := by
    intro v hs hstuck
    obtain ⟨⟨held, hi⟩, _⟩ := h.server hs
    exact hi.atRest (fun _ ha => ha.serverExact) (fun p c r _ => ⟨_, trivial, rfl⟩) hstuck ⟨0, hn⟩
  reclaimed := by
    intro v hs hr
    obtain ⟨⟨held, hi⟩, _⟩ := h.server hs
    exact hi.live_of_atRest hr
  answered := by
    intro v hs hr c hc
    have hsteps := h.allOk_steps hs
    obtain ⟨⟨held, hi⟩, _⟩ := h
    obtain ⟨⟨held', hi'⟩, hbegun⟩ := hi.steps_begun hsteps hc
    exact hi'.answered hr hbegun
  accepts := by
    intro v hs hr c r hnet
    obtain ⟨⟨held, hi⟩, _⟩ := h.server hs
    exact hi.accepts hn hr hnet

/-! ## The other direction -/

theorem Inv.thread_calls (h : Inv users w held) {a : Action n} (ha : a.isThread)
    (hs : Greeter.step w a = some w') : w'.calls = w.calls := by
  have hcalls := (h.step_calls ha.allOk hs).1
  cases a with
  | statement t | new t addr | next t e => exact hcalls
  | arrive p c | reply p c r ok | die c | client c | deliver c o => exact ha.elim

/-- The threads on their own keep the invariant and change no call. -/
theorem Inv.thread_steps (h : Inv users w held) (hs : (system n users).Steps (fun _ a => a.isThread) w w') :
    (∃ held', Inv users w' held') ∧ w'.calls = w.calls := by
  induction hs with
  | refl => exact ⟨⟨held, h⟩, rfl⟩
  | tail _ ha hstep ih =>
      obtain ⟨⟨held', hi⟩, hcalls⟩ := ih
      exact ⟨(hi.step ha.allOk hstep).1, (hi.thread_calls ha hstep).trans hcalls⟩

/-- While every thread waits in `Next` with nothing to fetch, the `Finish` of a call in service is
    outstanding. -/
theorem Inv.finish_outstanding (h : Inv users w held) (hnext : ∀ t, (w.threads t).pc = .next) (hev : w.events = 0)
    {c : CallId} {p : Ptr} (hnet : (w.calls c).net = .accepted p) : ∃ q r, .finish q c r ∈ w.ops := by
  have hserving : w.serving c = some (p, w.finishCount c) := by
    unfold World.serving
    rw [hnet]
  obtain ⟨k, hk, hkc, _⟩ := h.calls.exists_holder hserving
  rw [h.tokens_of_next hnext] at hk
  unfold World.queued at hk
  rw [hev, Multiset.map_zero, add_zero] at hk
  obtain ⟨o, ho, rfl⟩ := Multiset.mem_map.mp hk
  cases o with
  | requestSayHello q => cases hkc
  | finish q d r =>
      cases hkc
      exact ⟨q, r, ho⟩

/-- A thread that fetches a failed event aborts. -/
theorem aborts_of_failed_event (users : CallId → Bytes) {w : World n} (t : Fin n) {e : Event} (hmode : w.mode = .running)
    (hpc : (w.threads t).pc = .next) (he : e ∈ w.events) (hok : e.ok = false) :
    ∃ v, (system n users).Steps ServerExact w v ∧ v.mode = .aborted := by
  have hnext : (system n users).step w (.next t e) = some (w.next t e) := by
    simp [system, Greeter.step, hmode, hpc, he]
  have hassert : (system n users).step (w.next t e) (.statement t) = some (w.next t e).abort := by
    simp [system, Greeter.step, World.statement, World.next, World.setThread, hmode, hok]
  exact ⟨_, (Machine.Steps.single (a := .next t e) ⟨trivial, trivial⟩ hnext).tail (a := .statement t)
    ⟨trivial, trivial⟩ hassert, rfl⟩

/-- **A dead call in service brings the server down**: the threads serve it until its `Finish` is outstanding;
    its event then has `ok = false`, and whoever fetches it aborts. -/
theorem Inv.aborts (h : Inv users w held) (hn : 0 < n) {c : CallId} {p : Ptr}
    (hnet : (w.calls c).net = .accepted p) (hdead : (w.calls c).dead = true) :
    ∃ v, (system n users).Steps ServerExact w v ∧ v.mode = .aborted := by
  obtain ⟨v, hsteps, hstuck⟩ := Machine.exists_stuck (M := system n users) (E := fun _ a => a.isThread)
    (I := fun v => ∃ held, Inv users v held) (μ := World.rank)
    (fun ⟨_, hi⟩ ha hs => (hi.step ha.allOk hs).1)
    (fun ⟨_, hi⟩ ha hs => (hi.step ha.allOk hs).2 ha.isServer) ⟨held, h⟩
  obtain ⟨⟨held', hi⟩, hcalls⟩ := h.thread_steps hsteps
  -- no thread has anything left to do, so the operation that the dead call waits for is its `Finish`
  have hwait := hi.waiting_of_stuck (fun _ ha => ha) hstuck
  have hdrained := hi.drained_of_stuck (fun _ ha => ha) hstuck ⟨0, hn⟩
  obtain ⟨q, r, hop⟩ := hi.finish_outstanding hwait hdrained (c := c) (p := p) (by rw [hcalls]; exact hnet)
  have haccess := hi.access_eq (mem_tokens_of_op hop)
  have hv₁ : v.reply q c r false = { v with
      ops := v.ops.erase (.finish q c r)
      events := ⟨q, .finish c, false⟩ ::ₘ v.events
      calls := Function.update v.calls c { v.calls c with net := .dropped } } := haccess _
  have hreply : (system n users).step v (.reply q c r false) = some (v.reply q c r false) := by
    simp [system, Greeter.step, hi.running, hop]
  have hexact : ServerExact v (.reply q c r false) := by
    refine ⟨trivial, ?_⟩
    rw [Exact, hcalls, hdead]
    rfl
  obtain ⟨u, hu, hmode⟩ := aborts_of_failed_event users (w := v.reply q c r false) ⟨0, hn⟩
    (e := ⟨q, .finish c, false⟩) (by rw [hv₁]; exact hi.running) (by rw [hv₁]; exact hwait _)
    (by rw [hv₁]; exact Multiset.mem_cons_self _ _) rfl
  exact ⟨u, ((hsteps.mono fun _ _ ha => ha.serverExact).tail hexact hreply).trans hu, hmode⟩

/-- **The server survives exactly the harmless runs.** On any number of dispatch threads, when no call has died
    in service so far, the server survives; and a further action is harmless if and only if the server cannot
    abort on what it has to do afterwards. -/
theorem survives_iff_harmless (n : Nat) (hn : 0 < n) (users : CallId → Bytes) (w : World n)
    (h : (system n users).Reachable (fun w a => Exact w a ∧ Harmless w a) w) :
    Survives users w ∧ ∀ a w', Exact w a → Greeter.step w a = some w' →
      (Harmless w a ↔ ∀ v, (system n users).Steps ServerExact w' v → v.mode ≠ .aborted) := by
  have hsound := reachable_sound h
  refine ⟨hsound.survives hn, ?_⟩
  intro a w' ha hs
  constructor
  · intro hh v hv
    have hw' := (hsound.step ⟨ha, hh⟩ hs).2
    rw [((hw'.server hv).survives hn).running]
    decide
  · intro hsafe
    by_contra hharm
    obtain ⟨⟨held, hi⟩, hl⟩ := hsound
    have hok := hi.allOk hl ha hs
    have hcalls := (hi.step_calls hok hs).1
    obtain ⟨⟨held', hi'⟩, _⟩ := hi.step hok hs
    cases a with
    | die c =>
        obtain ⟨p, hp⟩ := (Net.inService_iff _).mp (Bool.eq_true_of_not_eq_false hharm)
        obtain ⟨v, hv, hmode⟩ := hi'.aborts hn (c := c) (p := p)
          (by rw [show w'.calls = _ from hcalls]; simpa [World.setCall] using hp)
          (by rw [show w'.calls = _ from hcalls]; simp [World.setCall])
        exact hsafe v hv hmode
    | arrive p c =>
        obtain ⟨v, hv, hmode⟩ := hi'.aborts hn (c := c) (p := p)
          (by rw [hcalls.2]; simp [World.setNet, World.setCall])
          (by rw [hcalls.2]; simpa [World.setNet, World.setCall, Harmless] using hharm)
        exact hsafe v hv hmode
    | _ => exact hharm trivial

/-- A client cancels its call when the reply is on the wire already. -/
def lateCancellation : List (Action 1) :=
  [.new 0 7, .statement 0, .statement 0, .statement 0, .client 0, .client 0, .client 0, .arrive ⟨7, 0⟩ 0,
    .next 0 ⟨⟨7, 0⟩, .request 0, true⟩, .statement 0, .statement 0, .statement 0, .new 0 8, .statement 0,
    .statement 0, .statement 0, .statement 0, .statement 0, .statement 0, .reply ⟨7, 0⟩ 0 ⟨helloPrefix⟩ true,
    .die 0, .next 0 ⟨⟨7, 0⟩, .finish 0, true⟩]

theorem survives_lateCancellation :
    ∃ h : ((system 1 fun _ => []).exec (fun w a => Exact w a ∧ Harmless w a) (World.init 1 fun _ => [])
        lateCancellation).isSome,
      ((Option.get _ h).calls 0).dead = true ∧ Survives (fun _ => []) (Option.get _ h) :=
  ⟨rfl, rfl, (survives_iff_harmless 1 Nat.one_pos _ _ (Machine.reachable_get rfl)).1⟩

end AsyncCpp.Greeter
