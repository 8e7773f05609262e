import AsyncCpp.Greeter.Lifecycle

/-!
# `Greeter.Progress` — the server comes to rest with every accepted call answered

Without new arrivals the server has at most `World.rank` steps left (`Inv.drain_bound`), it is never blocked
before it is at rest (`Inv.atRest`), and at rest every object is an armed acceptor and no call is in service.

## Contents
- `Inv.statement_isSome`, `Inv.exists_free`: a thread that is not in `Next` can go on.
- `AtRest w`, and what it means for the objects and the calls.
- `Inv.step_calls`: what each action does to the calls and to the log of `Finish`.
- `Inv.step_begun`: a call that was accepted stays accepted or replied to.
-/

namespace AsyncCpp.Greeter

open Finset

variable {n : Nat} {users : CallId → Bytes} {w w' : World n} {held : Fin n → Multiset Token} {t : Fin n}

/-! ## Nobody is blocked -/

/-- Whatever a thread is at, apart from `new` and `Next`, it can execute. -/
theorem Inv.statement_isSome (h : Inv users w held) (hnew : (w.threads t).pc ≠ .new)
    (hnext : (w.threads t).pc ≠ .next) : (w.statement t).isSome := by
  have hframe := h.frames t
  unfold World.statement
  generalize w.threads t = th at hframe hnew hnext
  generalize held t = T at hframe
  cases hframe with
  | new => exact absurd rfl hnew
  | next => exact absurd rfl hnext
  | _ => rfl

/-- There is always an address for one more object. -/
theorem Inv.exists_free (h : Inv users w held) : ∃ addr, w.heap addr = none := by
  obtain ⟨addr, haddr⟩ := Infinite.exists_notMem_finset ((w.tokens held).filterMap Token.addr).toFinset
  refine ⟨addr, Option.eq_none_iff_forall_ne_some.mpr fun o ho => haddr ?_⟩
  exact Multiset.mem_toFinset.mpr (h.objects.owned addr o ho)

/-! ## Rest -/

/-- **The server is at rest**: every thread waits in `Next`, nothing is there to be fetched, and all that is
    outstanding are requests for further calls. -/
structure AtRest (w : World n) : Prop where
  waiting : ∀ t, (w.threads t).pc = .next
  drained : w.events = 0
  armed   : ∀ o ∈ w.ops, o.isRequestSayHello = true

/-- When the threads cannot move, they all wait in `Next`. -/
theorem Inv.waiting_of_stuck (h : Inv users w held) {E : World n → Action n → Prop}
    (hE : ∀ a, a.isThread → E w a) (hstuck : (system n users).Stuck E w) (t : Fin n) :
    (w.threads t).pc = .next := by
  by_contra hnext
  by_cases hnew : (w.threads t).pc = .new
  · obtain ⟨addr, haddr⟩ := h.exists_free
    have hnone := hstuck (.new t addr) (hE _ trivial)
    simp [system, Greeter.step, h.running, hnew, haddr] at hnone
  · have hsome := h.statement_isSome hnew hnext
    have hnone := hstuck (.statement t) (hE _ trivial)
    simp only [system, Greeter.step, h.running, if_true] at hnone
    rw [hnone] at hsome
    cases hsome

/-- When one of them waits, the queue is empty. -/
theorem Inv.drained_of_stuck (h : Inv users w held) {E : World n → Action n → Prop}
    (hE : ∀ a, a.isThread → E w a) (hstuck : (system n users).Stuck E w) (t : Fin n) : w.events = 0 := by
  apply Multiset.eq_zero_of_forall_notMem
  intro e he
  have hnone := hstuck (.next t e) (hE _ trivial)
  simp [system, Greeter.step, h.running, h.waiting_of_stuck hE hstuck t, he] at hnone

/-- **A stuck server is at rest**, when `Finish` may complete. -/
theorem Inv.atRest (h : Inv users w held) {E : World n → Action n → Prop} (hE : ∀ a, a.isThread → E w a)
    (hreply : ∀ p c r, .finish p c r ∈ w.ops → ∃ ok, E w (.reply p c r ok))
    (hstuck : (system n users).Stuck E w) (t : Fin n) : AtRest w where
  waiting := h.waiting_of_stuck hE hstuck
  drained := h.drained_of_stuck hE hstuck t
  armed := by
    intro o ho
    cases o with
    | requestSayHello p => rfl
    | finish p c r =>
        obtain ⟨ok, hok⟩ := hreply p c r ho
        have hnone := hstuck (.reply p c r ok) hok
        simp [system, Greeter.step, h.running, ho] at hnone

/-- At rest every token is that of an armed acceptor. -/
theorem Inv.armed_of_atRest (h : Inv users w held) (hr : AtRest w) {k : Token} (hk : k ∈ w.tokens held) :
    k.stage = .armed := by
  rw [h.tokens_of_next hr.waiting] at hk
  unfold World.queued at hk
  rw [hr.drained, Multiset.map_zero, add_zero] at hk
  obtain ⟨o, ho, rfl⟩ := Multiset.mem_map.mp hk
  cases o with
  | requestSayHello p => rfl
  | finish p c r => cases hr.armed _ ho

/-- At rest no call is in service. -/
theorem Inv.not_accepted (h : Inv users w held) (hr : AtRest w) (c : CallId) (p : Ptr) :
    (w.calls c).net ≠ .accepted p := by
  intro hnet
  have hserving : w.serving c = some (p, w.finishCount c) := by
    unfold World.serving
    rw [hnet]
  obtain ⟨k, hk, hkc, _⟩ := h.calls.exists_holder hserving
  unfold Token.call at hkc
  rw [h.armed_of_atRest hr hk] at hkc
  cases hkc

/-- At rest all objects are acceptors, as many as there are threads, and each of them is armed. -/
theorem Inv.live_of_atRest (h : Inv users w held) (hr : AtRest w) :
    w.live = n ∧ w.ops.countP (·.isRequestSayHello) = n := by
  have hlife := h.intact
  have howes : ∑ u, (w.threads u).owes = 0 := by
    apply sum_eq_zero
    intro u _
    simp [Thread.owes, hr.waiting u]
  have hunspawned : w.unspawned = 0 := by simp [World.unspawned, hr.drained, howes]
  have hacc := hlife.acceptors
  have harmed := hlife.armed hr.waiting
  have hlive : w.live = (w.tokens held).countP fun _ => True := h.count_eq fun _ => Iff.rfl
  have hall : (w.tokens held).countP (·.stage.isAcceptor) = Multiset.card (w.tokens held) := by
    apply Multiset.countP_eq_card.mpr
    intro k hk
    rw [h.armed_of_atRest hr hk]
    trivial
  have hacceptors := h.acceptors_eq
  rw [Multiset.countP_True] at hlive
  omega

/-! ## Draining -/

/-- An action of a thread is one of the server, and no `Finish` completes in it. -/
theorem Action.isThread.isServer {a : Action n} (ha : a.isThread) : a.isServer := by
  cases a with
  | statement t | new t addr | next t e => trivial
  | arrive p c | reply p c r ok | die c | client c | deliver c o => exact ha.elim

theorem Action.isThread.allOk {a : Action n} (ha : a.isThread) : AllOk w a := by
  cases a with
  | reply p c r ok => exact ha.elim
  | _ => trivial

/-- What the server and gRPC do with the calls they have, every `Finish` succeeding. -/
def ServerOk (w : World n) (a : Action n) : Prop := a.isServer ∧ AllOk w a

/-- Without new arrivals the server has at most `rank` steps left. -/
theorem Inv.drain_bound (h : Inv users w held) {k : Nat} (hk : (system n users).StepsN ServerOk k w w') :
    k + w'.rank ≤ w.rank :=
  hk.measure (I := fun w => ∃ held, Inv users w held) (fun ⟨_, hi⟩ ha hs => (hi.step ha.2 hs).1)
    (fun ⟨_, hi⟩ ha hs => (hi.step ha.2 hs).2 ha.1) ⟨held, h⟩

/-! ## What a step does to the calls -/

/-- What a statement of a thread does to the calls and to the log: nothing, unless it is `Finish`. -/
theorem World.statement_frame (hs : w.statement t = some w') : w'.calls = w.calls ∧
    (w'.finishes = w.finishes ∨ ∃ p c o, (w.threads t).pc = .finish p ∧ w.deref p = some o ∧
      o.responder_ = some c ∧ w'.finishes = (c, o.reply_) :: w.finishes) := by
  unfold World.statement World.access at hs
  cases hpc : (w.threads t).pc with
  | new | next => simp [hpc] at hs
  | assertOk =>
      simp only [hpc, Option.map_eq_some_iff] at hs
      obtain ⟨e, _, rfl⟩ := hs
      split <;> exact ⟨rfl, .inl rfl⟩
  | finish p =>
      simp only [hpc, Option.some.injEq] at hs
      split at hs
      · next o ho =>
        split at hs
        · cases hs; exact ⟨rfl, .inl rfl⟩
        · next c hc => cases hs; exact ⟨rfl, .inr ⟨p, c, o, rfl, ho, hc, rfl⟩⟩
      · cases hs; exact ⟨rfl, .inl rfl⟩
  | testProcess p | assertFinish p =>
      simp only [hpc, Option.some.injEq] at hs
      split at hs
      · split at hs <;> cases hs <;> exact ⟨rfl, .inl rfl⟩
      · cases hs; exact ⟨rfl, .inl rfl⟩
  | _ =>
      simp only [hpc, Option.some.injEq] at hs
      split at hs <;> cases hs <;> exact ⟨rfl, .inl rfl⟩

/-- What each action does to the calls: gRPC and the clients move one call on, the threads none. -/
def CallStep (users : CallId → Bytes) (w w' : World n) : Action n → Prop
  | .statement _ | .new _ _ | .next _ _ => w'.calls = w.calls
  | .arrive p c => (∃ r, (w.calls c).net = .sent r) ∧ w'.calls = (w.setNet c (.accepted p)).calls
  | .reply p c r _ => (w.calls c).net = .accepted p ∧ r = ⟨greeting (users c)⟩ ∧
      w'.calls = (w.setNet c (.replied r)).calls
  | .die c => w'.calls = (w.setCall c { w.calls c with dead := true }).calls
  | .client c => ∃ call, sayHello (w.calls c) = some call ∧ w'.calls = (w.setCall c call).calls
  | .deliver c o => ∃ call, Greeter.deliver (w.calls c) o = some call ∧ w'.calls = (w.setCall c call).calls

/-- The `Finish` that a statement may issue: the first one of a call in service, with its greeting. -/
def FinishStep (users : CallId → Bytes) (w w' : World n) : Prop :=
  w'.finishes = w.finishes ∨
    ∃ c p, (w.calls c).net = .accepted p ∧ w.finishCount c = 0 ∧ w'.calls = w.calls ∧
      w'.finishes = (c, ⟨greeting (users c)⟩) :: w.finishes

theorem Inv.statement_finishes (h : Inv users w held) (hs : w.statement t = some w') : FinishStep users w w' := by
  obtain ⟨hcalls, hsame | ⟨p, c, o, hpc, hderef, hresp, hlog⟩⟩ := World.statement_frame hs
  · exact .inl hsame
  · have hframe := h.frames t
    have hmem : ∀ k ∈ held t, k ∈ w.tokens held := fun k hk => mem_tokens_of_held hk
    generalize w.threads t = th at hframe hpc
    generalize held t = T at hframe hmem
    cases hframe with
    | @finish q d =>
        -- the token of this statement holds the one object whose `responder_` is the call
        cases hpc
        have hk := hmem _ (Multiset.mem_singleton_self _)
        rw [h.deref_eq hk] at hderef
        cases hderef
        cases hresp
        obtain ⟨v, hv, hserves⟩ := h.calls.get hk (k := c) rfl
        obtain ⟨hnet, hcount⟩ := World.serving_eq_some (hserves ▸ hv)
        exact .inr ⟨c, p, hnet, hcount, hcalls, hlog⟩
    | _ => cases hpc

/-- **What an action does to the calls and to the log.** -/
theorem Inv.step_calls (h : Inv users w held) {a : Action n} (ha : AllOk w a)
    (hs : Greeter.step w a = some w') : CallStep users w w' a ∧ FinishStep users w w' := by
  cases a with
  | statement t =>
      simp only [Greeter.step, h.running, if_true] at hs
      exact ⟨(World.statement_frame hs).1, h.statement_finishes hs⟩
  | new t addr =>
      simp only [Greeter.step] at hs
      split at hs
      · cases hs; exact ⟨rfl, .inl rfl⟩
      · exact absurd hs (by simp)
  | next t e =>
      simp only [Greeter.step] at hs
      split at hs
      · cases hs; exact ⟨rfl, .inl rfl⟩
      · exact absurd hs (by simp)
  | arrive p c =>
      simp only [Greeter.step] at hs
      split at hs
      · next r hr =>
        split at hs
        · next hg =>
          cases hs
          have harrive := h.access_eq (mem_tokens_of_op hg.2)
          unfold World.arrive
          rw [show w.access p _ = _ from harrive _]
          exact ⟨⟨⟨r, hr⟩, rfl⟩, .inl rfl⟩
        · exact absurd hs (by simp)
      · exact absurd hs (by simp)
  | reply p c r ok =>
      cases (show ok = true from ha)
      simp only [Greeter.step] at hs
      split at hs
      · next hg =>
        cases hs
        have hmem : (Op.finish p c r).token ∈ w.tokens held := mem_tokens_of_op hg.2
        have hreply := h.access_eq hmem
        obtain ⟨_, _, hval⟩ := h.objects.get hmem (k := p.addr) rfl
        obtain ⟨v, hv, hserves⟩ := h.calls.get hmem (k := c) rfl
        unfold World.reply
        rw [show w.access p _ = _ from hreply _]
        exact ⟨⟨(World.serving_eq_some (hserves ▸ hv)).1, hval.2, rfl⟩, .inl rfl⟩
      · exact absurd hs (by simp)
  | die c =>
      cases hs
      exact ⟨rfl, .inl rfl⟩
  | client c =>
      obtain ⟨call, hcall, rfl⟩ := Option.map_eq_some_iff.mp hs
      exact ⟨⟨call, hcall, rfl⟩, .inl rfl⟩
  | deliver c outcome =>
      obtain ⟨call, hcall, rfl⟩ := Option.map_eq_some_iff.mp hs
      exact ⟨⟨call, hcall, rfl⟩, .inl rfl⟩

/-- A call was accepted: it is in service, or its reply went to the wire. -/
def Net.begun : Net → Prop
  | .accepted _ | .replied _ => True
  | _ => False

/-- One call moves on, and every call that had been accepted still is. -/
theorem begun_setCall {c d : CallId} {call : Call} (hnet : (w.calls d).net.begun → call.net.begun)
    (hc : (w.calls c).net.begun) : ((w.setCall d call).calls c).net.begun := by
  by_cases hcd : c = d
  · subst hcd
    simpa [World.setCall] using hnet hc
  · simpa [World.setCall, hcd] using hc

/-- **No accepted call is forgotten.** -/
theorem Inv.step_begun (h : Inv users w held) {a : Action n} (ha : AllOk w a)
    (hs : Greeter.step w a = some w') {c : CallId} (hc : (w.calls c).net.begun) : (w'.calls c).net.begun := by
  have hcalls := (h.step_calls ha hs).1
  cases a with
  | statement t | new t addr | next t e =>
      rw [show w'.calls = w.calls from hcalls]
      exact hc
  | arrive p d =>
      rw [hcalls.2]
      exact begun_setCall (fun _ => trivial) hc
  | reply p d r ok =>
      rw [hcalls.2.2]
      exact begun_setCall (fun _ => trivial) hc
  | die d =>
      rw [show w'.calls = _ from hcalls]
      exact begun_setCall id hc
  | client d =>
      obtain ⟨call, hcall, hw⟩ := hcalls
      rw [hw]
      obtain ⟨_, hnet | ⟨hidle, _⟩⟩ := sayHello_ok (h.clients d) hcall
      · exact begun_setCall (fun hb => hnet ▸ hb) hc
      · -- `StartCall` moves a call that gRPC does not know yet
        apply begun_setCall ?_ hc
        intro hbegun
        rw [hidle] at hbegun
        exact hbegun.elim
  | deliver d outcome =>
      obtain ⟨call, hcall, hw⟩ := hcalls
      rw [hw]
      exact begun_setCall (fun hb => (deliver_ok (h.clients d) hcall).2 ▸ hb) hc

/-- Along a run, every accepted call stays accepted or is replied to. -/
theorem Inv.steps_begun (h : Inv users w held) (hs : (system n users).Steps AllOk w w') {c : CallId}
    (hc : (w.calls c).net.begun) : (∃ held', Inv users w' held') ∧ (w'.calls c).net.begun := by
  induction hs with
  | refl => exact ⟨⟨held, h⟩, hc⟩
  | tail _ ha hstep ih =>
      obtain ⟨⟨held', hi⟩, hbegun⟩ := ih
      exact ⟨(hi.step ha hstep).1, hi.step_begun ha hstep hbegun⟩

/-- **Every accepted call is answered.** When the server has come to rest, a call that had been accepted was
    sent its own greeting, once. -/
theorem Inv.answered (h : Inv users w held) (hr : AtRest w) {c : CallId} (hc : (w.calls c).net.begun) :
    (w.calls c).net = .replied ⟨greeting (users c)⟩ ∧ w.finishCount c = 1 := by
  have hsettled := h.settled c
  unfold World.Settled at hsettled
  cases hnet : (w.calls c).net with
  | accepted p => exact absurd hnet (h.not_accepted hr c p)
  | replied r =>
      rw [hnet] at hsettled
      exact ⟨by rw [hsettled.2], hsettled.1⟩
  | idle | sent r | dropped =>
      rw [hnet] at hc
      exact hc.elim

end AsyncCpp.Greeter
