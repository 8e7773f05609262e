import AsyncCpp.Greeter.Steps

/-!
# `Greeter.Lifecycle` — the life of a `CallData` under any number of dispatch threads

The ownership invariant read off in terms of the heap, the queue and the logs: `Lifecycle w`. The main result
is `lifecycle`: it holds in every reachable state, for any number of threads and any interleaving.
-/

namespace AsyncCpp.Greeter

open Finset

variable {n : Nat} {users : CallId → Bytes} {w : World n} {held : Fin n → Multiset Token}

def Op.tag : Op → Ptr
  | .requestSayHello p => p
  | .finish p _ _      => p

/-- The outstanding `RequestSayHello`. -/
def Op.isRequestSayHello : Op → Bool
  | .requestSayHello _ => true
  | .finish _ _ _      => false

/-- The status that `Proceed` has to find when it is run for an event. -/
def Event.expects (e : Event) : CallStatus := if e.isRequest then .process else .finish

namespace World

/-- The outstanding operations and undelivered events of the object at an address. -/
def pending (w : World n) (a : Nat) : Nat := (w.ops.map (·.tag.addr) + w.events.map (·.tag.addr)).count a

/-- The number of live objects with a property. -/
noncomputable def count (w : World n) (P : CallData → Prop) : Nat :=
  Set.ncard {a | ∃ o, w.heap a = some o ∧ P o}

/-- The number of live objects. -/
noncomputable def live (w : World n) : Nat := w.count fun _ => True

/-- The number of live objects that no call was accepted for. -/
noncomputable def acceptors (w : World n) : Nat := w.count fun o => o.responder_ = none

/-- The number of live objects that a call was accepted for. -/
noncomputable def inService (w : World n) : Nat := w.count fun o => ¬ o.responder_ = none

/-- The acceptors that are still to be constructed: one for each thread that has not begun, and one for each
    accepted call whose `PROCESS` branch has not run its `new`. -/
def unspawned (w : World n) : Nat := w.events.countP (·.isRequest) + ∑ t, (w.threads t).owes

end World

/-- **The life of a `CallData`**, as far as one state shows it. -/
structure Lifecycle (w : World n) : Prop where
  /-- A live object has at most one operation outstanding or event undelivered. -/
  one_pending : ∀ a o, w.heap a = some o → w.pending a ≤ 1
  /-- A tag that `Next` hands out, or has just handed out, is a live object in the status the event needs. -/
  handed_out : ∀ e, (e ∈ w.events ∨ ∃ t, (w.threads t).pc = .assertOk ∧ (w.threads t).event = some e) →
    ∃ o, w.deref e.tag = some o ∧ o.status_ = e.expects
  /-- No `GPR_ASSERT` has failed. -/
  asserts : w.mode ≠ .aborted
  /-- No object was deleted twice. -/
  deleted_once : w.deleted.Nodup
  /-- An object is only deleted after the event of its own `Finish` was handed out. -/
  deleted_on_finish : ∀ u ∈ w.deleted, ∃ e ∈ w.delivered, e.tag.serial = u ∧ e.isRequest = false
  /-- No deleted object is in the heap, -/
  deleted_gone : ∀ a o, w.heap a = some o → o.serial ∉ w.deleted
  /-- and none was read, written or deleted since. -/
  no_use_after_delete : w.mode ≠ .corrupted
  /-- There is one acceptor per thread, constructed or still to be constructed. -/
  acceptors : w.acceptors + w.unspawned = n
  /-- While every thread waits in `Next`, every acceptor is armed. -/
  armed : (∀ t, (w.threads t).pc = .next) → w.acceptors = w.ops.countP (·.isRequestSayHello)
  /-- The live objects are the acceptors and the calls in service, -/
  live : w.live = w.acceptors + w.inService
  /-- and all objects that were constructed and not deleted. -/
  created : w.live + w.deleted.length = w.created

/-! ## Reading the invariant -/

/-- The addresses that operations and events refer to, as tokens. -/
theorem queued_addr (w : World n) :
    w.queued.filterMap Token.addr = w.ops.map (·.tag.addr) + w.events.map (·.tag.addr) := by
  have hop : ∀ o : Op, o.token.ptr = o.tag := by
    rintro (⟨p⟩ | ⟨p, c, r⟩) <;> rfl
  unfold World.queued Token.addr
  rw [show (fun k : Token => some k.ptr.addr) = some ∘ fun k : Token => k.ptr.addr from rfl,
    Multiset.filterMap_eq_map]
  simp [hop]

/-- Every object is held by one token, so at most one operation or event refers to it. -/
theorem Inv.pending_le_one (h : Inv users w held) (a : Nat) : w.pending a ≤ 1 := by
  have hle : w.queued ≤ w.tokens held := Multiset.le_add_left _ _
  have hcount := Multiset.count_le_of_le a (Multiset.filterMap_le_filterMap Token.addr hle)
  have hone := Multiset.nodup_iff_count_le_one.mp h.objects.nodup a
  unfold World.pending
  rw [← queued_addr]
  omega

/-- The object of a token is where its pointer says, and is still the same. -/
theorem Inv.deref_eq (h : Inv users w held) {k : Token} (hk : k ∈ w.tokens held) :
    w.deref k.ptr = some (k.stage.object users k.ptr.serial) := by
  unfold World.deref
  rw [h.heap_eq hk]
  simp [Option.filter]

theorem Event.token_expects (e : Event) (u : Nat) : (e.token.stage.object users u).status_ = e.expects := by
  unfold Event.token Event.expects Event.isRequest
  cases e.answers <;> rfl

/-- An event in the queue, or in the hands of a thread that `Next` gave it to, is a token. -/
theorem Inv.event_mem (h : Inv users w held) {e : Event}
    (he : e ∈ w.events ∨ ∃ t, (w.threads t).pc = .assertOk ∧ (w.threads t).event = some e) :
    e.token ∈ w.tokens held := by
  rcases he with he | ⟨t, hpc, he⟩
  · refine Multiset.mem_add.mpr (Or.inr (Multiset.mem_add.mpr (Or.inr ?_)))
    exact Multiset.mem_map_of_mem Event.token he
  · apply mem_tokens_of_held (t := t)
    have hframe := h.frames t
    generalize hth : w.threads t = th at hframe hpc he
    generalize hT : held t = T at hframe
    cases hframe with
    | assertOk =>
        cases he
        exact Multiset.mem_singleton_self _
    | _ => cases hpc

/-- Counting objects is counting tokens. -/
theorem Inv.count_eq (h : Inv users w held) {P : CallData → Prop} {Q : Token → Prop} [DecidablePred Q]
    (hPQ : ∀ k : Token, P (k.stage.object users k.ptr.serial) ↔ Q k) :
    w.count P = (w.tokens held).countP Q := by
  have hcard := h.objects.ncard_eq (P := P) (Q := Q) fun o k hval => by rw [hval.1]; exact hPQ k
  unfold World.count
  rw [hcard, Multiset.countP_eq_card_filter]
  unfold Token.addr
  rw [show (fun k : Token => some k.ptr.addr) = some ∘ fun k : Token => k.ptr.addr from rfl,
    Multiset.filterMap_eq_map, Multiset.card_map]

theorem Stage.responder_none (s : Stage) (u : Nat) :
    (s.object users u).responder_ = none ↔ s.isAcceptor = true := by
  cases s <;> simp [Stage.object, Stage.isAcceptor]

theorem Inv.acceptors_eq (h : Inv users w held) :
    w.acceptors = (w.tokens held).countP (·.stage.isAcceptor) :=
  h.count_eq fun k => k.stage.responder_none k.ptr.serial

/-- The serials in use are those below `created` that were not deleted. -/
theorem Inv.live_created (h : Inv users w held) : w.live + w.deleted.length = w.created := by
  have hlive : w.live = Multiset.card (w.tokens held) := by
    rw [show w.live = _ from h.count_eq (Q := fun _ => True) fun _ => Iff.rfl]
    simp
  have hset : {u | ∃ v, w.ledger u = some v ∧ True}
      = ((range w.created \ w.deleted.toFinset : Finset Nat) : Set Nat) := by
    ext u
    simp [World.ledger]
  -- each token has a serial of its own, and each serial in use has a token
  have hledger := h.serials.ncard_eq (P := fun _ => True) (Q := fun _ => True) fun _ _ _ => Iff.rfl
  rw [hset, Set.ncard_coe_finset] at hledger
  unfold Token.serial at hledger
  rw [show (fun k : Token => some k.ptr.serial) = some ∘ fun k : Token => k.ptr.serial from rfl,
    Multiset.filterMap_eq_map, Multiset.card_map] at hledger
  have hsub : w.deleted.toFinset ⊆ range w.created := by
    intro u hu
    exact mem_range.mpr (h.deleted.2 u (List.mem_toFinset.mp hu)).1
  have hcard := card_sdiff_add_card_eq_card hsub
  rw [List.toFinset_card_of_nodup h.deleted.1, card_range] at hcard
  simp only [Multiset.filter_true] at hledger
  omega

/-- A thread that waits in `Next` holds nothing. -/
theorem Frame.next_eq_zero {th : Thread} {T : Multiset Token} (h : Frame th T) (hpc : th.pc = .next) : T = 0 := by
  cases h with
  | next => rfl
  | _ => cases hpc

theorem Inv.tokens_of_next (h : Inv users w held) (hnext : ∀ t, (w.threads t).pc = .next) :
    w.tokens held = w.queued := by
  unfold World.tokens
  rw [sum_eq_zero fun t _ => (h.frames t).next_eq_zero (hnext t), zero_add]

/-- Among the queued tokens, the acceptors are the outstanding `RequestSayHello`. -/
theorem queued_acceptors (w : World n) :
    w.queued.countP (·.stage.isAcceptor) = w.ops.countP (·.isRequestSayHello) := by
  have hop : ∀ o : Op, o.token.stage.isAcceptor = o.isRequestSayHello := by
    rintro (⟨p⟩ | ⟨p, c, r⟩) <;> rfl
  have hev : ∀ e : Event, e.token.stage.isAcceptor = false := by
    intro e
    unfold Event.token
    cases e.answers <;> rfl
  unfold World.queued
  rw [Multiset.countP_add, Multiset.countP_map, Multiset.countP_map]
  simp [hop, hev, Multiset.countP_eq_card_filter]

theorem Inv.intact (h : Inv users w held) : Lifecycle w where
  one_pending := by
    intro a o _
    exact h.pending_le_one a
  handed_out := by
    intro e he
    have hderef := h.deref_eq (h.event_mem he)
    rw [Event.token_ptr] at hderef
    exact ⟨_, hderef, e.token_expects e.tag.serial⟩
  asserts := by rw [h.running]; decide
  deleted_once := h.deleted.1
  deleted_on_finish := by
    intro u hu
    exact (h.deleted.2 u hu).2
  deleted_gone := by
    intro a o ho
    obtain ⟨k, hk, _, hval⟩ := h.objects.exists_holder ho
    obtain ⟨_, hin, _⟩ := h.serials.get hk (k := k.ptr.serial) rfl
    rw [hval.1, Stage.object_serial]
    unfold World.ledger at hin
    split at hin
    · next hlive => exact hlive.2
    · exact absurd hin (by simp)
  no_use_after_delete := by rw [h.running]; decide
  acceptors := by
    rw [h.acceptors_eq]
    have := h.acceptors
    unfold World.unspawned
    omega
  armed := by
    intro hnext
    rw [h.acceptors_eq, h.tokens_of_next hnext, queued_acceptors]
  live := by
    have hlive : w.live = (w.tokens held).countP fun _ => True := h.count_eq fun _ => Iff.rfl
    have hserv : w.inService = (w.tokens held).countP fun k => ¬ k.stage.isAcceptor = true :=
      h.count_eq fun k => not_congr (k.stage.responder_none k.ptr.serial)
    rw [hlive, hserv, h.acceptors_eq, Multiset.countP_True]
    exact Multiset.card_eq_countP_add_countP _ _
  created := h.live_created

/-- **The life of a `CallData` under any number of dispatch threads.** However `n` threads inside
    `HandleRpcs`, the clients and gRPC interleave, as long as every event has `ok = true`: each object has one
    operation or event at a time, every event finds its object alive and in the right status, every object is
    deleted at most once and never touched again, and one acceptor per thread is kept. -/
theorem lifecycle (n : Nat) (users : CallId → Bytes) (w : World n) (h : (system n users).Reachable AllOk w) :
    Lifecycle w := by
  obtain ⟨held, hinv⟩ := reachable_inv h
  exact hinv.intact

/-- Thread 1 fetches the event of the object that thread 0 has just constructed and serves it, and thread 0
    deletes it. -/
def handover : List (Action 2) :=
  [.new 1 7, .statement 1, .statement 1, .statement 1, .new 0 8, .statement 0, .statement 0, .client 0, .client 0,
    .client 0, .statement 0, .arrive ⟨8, 1⟩ 0, .next 1 ⟨⟨8, 1⟩, .request 0, true⟩, .statement 1, .statement 1,
    .statement 1, .new 1 9, .statement 1, .statement 1, .statement 1, .statement 1, .statement 1, .statement 1,
    .reply ⟨8, 1⟩ 0 ⟨helloPrefix⟩ true, .next 0 ⟨⟨8, 1⟩, .finish 0, true⟩, .statement 0, .statement 0,
    .statement 0, .statement 0, .statement 0]

theorem lifecycle_handover :
    ∃ h : ((system 2 fun _ => []).exec AllOk (World.init 2 fun _ => []) handover).isSome,
      (Option.get _ h).deleted = [1] ∧ Lifecycle (Option.get _ h) :=
  ⟨rfl, rfl, lifecycle 2 _ _ (Machine.reachable_get rfl)⟩

end AsyncCpp.Greeter
