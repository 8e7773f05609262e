import Mathlib.Algebra.BigOperators.Group.Finset.Piecewise
import Mathlib.Data.Multiset.Count
import AsyncCpp.Lib.Linear
import AsyncCpp.Greeter.Rank

/-!
# `Greeter.Ownership` — who may touch a `CallData`

At every moment exactly one party may touch a live `CallData`: the thread that is inside its `Proceed`, the
operation that was issued for it, or the event that answers this operation. A `Token` names the object and
how far its life has come, and that determines every member of the object (`Token.object`).

## Contents
- `Frame th T`: what a thread at a given statement holds. Only a thread inside a `PROCESS` branch that called
  `new` holds two objects.
- `Inv`: one token per object, one per call in service, one per undeleted serial, and the number of acceptors.
- `Inv.quiet`: a statement that only moves a token along inside its thread keeps the invariant.
-/

namespace AsyncCpp.Greeter

open Finset

/-! ## Tokens -/

/-- How far the life of a `CallData` has come, as its holder knows it. -/
inductive Stage
  /-- Constructed, status `CREATE`. -/
  | created
  /-- Status `PROCESS`, about to issue `RequestSayHello`. -/
  | arming
  /-- `RequestSayHello` is outstanding. -/
  | armed
  /-- Call `c` was accepted, the `PROCESS` branch has not been entered. -/
  | arrived (c : CallId)
  /-- Inside the `PROCESS` branch. -/
  | serving (c : CallId)
  /-- `reply_` is set. -/
  | composed (c : CallId)
  /-- Status `FINISH`, about to issue `Finish`. -/
  | finishing (c : CallId)
  /-- `Finish` is outstanding. -/
  | replying (c : CallId) (r : HelloReply)
  /-- The event of `Finish` is there. -/
  | answered (c : CallId)
deriving DecidableEq

/-- The right to touch the object at `ptr`. -/
structure Token where
  ptr   : Ptr
  stage : Stage
deriving DecidableEq

/-- The members of a `CallData` at each stage of its life. -/
def Stage.object (users : CallId → Bytes) (serial : Nat) : Stage → CallData
  | .created => { serial := serial }
  | .arming | .armed => { status_ := .process, serial := serial }
  | .arrived c | .serving c =>
      { request_ := ⟨users c⟩, responder_ := some c, status_ := .process, serial := serial }
  | .composed c =>
      { request_ := ⟨users c⟩, reply_ := ⟨greeting (users c)⟩, responder_ := some c, status_ := .process,
        serial := serial }
  | .finishing c | .replying c _ | .answered c =>
      { request_ := ⟨users c⟩, reply_ := ⟨greeting (users c)⟩, responder_ := some c, status_ := .finish,
        serial := serial }

/-- The call that is in service at a stage: accepted, and no reply on the wire. -/
def Stage.call : Stage → Option CallId
  | .arrived c | .serving c | .composed c | .finishing c | .replying c _ => some c
  | _ => none

/-- How many `Finish` were issued for the call in service. -/
def Stage.finishCount : Stage → Nat
  | .replying _ _ => 1
  | _ => 0

/-- A stage at which the object waits for a call. -/
def Stage.isAcceptor : Stage → Bool
  | .created | .arming | .armed => true
  | _ => false

/-- The reply that was handed to gRPC is the one the call is owed. -/
def Stage.ReplyOk (users : CallId → Bytes) : Stage → Prop
  | .replying c r => r = ⟨greeting (users c)⟩
  | _ => True

namespace Token

def addr (k : Token) : Option Nat := some k.ptr.addr

def call (k : Token) : Option CallId := k.stage.call

def serial (k : Token) : Option Nat := some k.ptr.serial

/-- The object is exactly what the stage says. -/
def Valid (users : CallId → Bytes) (o : CallData) (k : Token) : Prop :=
  o = k.stage.object users k.ptr.serial ∧ k.stage.ReplyOk users

/-- The call knows the object that serves it, and how often it was answered. -/
def Serves (v : Ptr × Nat) (k : Token) : Prop := v = (k.ptr, k.stage.finishCount)

end Token

def Op.token : Op → Token
  | .requestSayHello p => ⟨p, .armed⟩
  | .finish p c r      => ⟨p, .replying c r⟩

def Event.token (e : Event) : Token :=
  match e.answers with
  | .request c => ⟨e.tag, .arrived c⟩
  | .finish c  => ⟨e.tag, .answered c⟩

/-! ## What a thread holds -/

/-- Who called the constructor that a thread is in: `HandleRpcs` itself, or the `PROCESS` branch of the
    object `q`, which the thread then holds as well. -/
inductive Caller : List Ptr → Option Event → Multiset Token → Prop
  | loop : Caller [] none 0
  | branch {q : Ptr} {c : CallId} : Caller [q] (some ⟨q, .request c, true⟩) {⟨q, .serving c⟩}

/-- **What a thread holds at each statement.** -/
inductive Frame : Thread → Multiset Token → Prop
  | new {cs e T} (h : Caller cs e T) : Frame ⟨.new, cs, e⟩ T
  | created {cs e T} {p : Ptr} (h : Caller cs e T) : Frame ⟨.testCreate p, cs, e⟩ (⟨p, .created⟩ ::ₘ T)
  | setProcess {cs e T} {p : Ptr} (h : Caller cs e T) : Frame ⟨.setProcess p, cs, e⟩ (⟨p, .created⟩ ::ₘ T)
  | arming {cs e T} {p : Ptr} (h : Caller cs e T) : Frame ⟨.requestSayHello p, cs, e⟩ (⟨p, .arming⟩ ::ₘ T)
  | next {e} : Frame ⟨.next, [], e⟩ 0
  | assertOk {e : Event} (hok : e.ok = true) : Frame ⟨.assertOk, [], some e⟩ {e.token}
  | testCreate {e : Event} (hok : e.ok = true) : Frame ⟨.testCreate e.tag, [], some e⟩ {e.token}
  | testProcess {e : Event} (hok : e.ok = true) : Frame ⟨.testProcess e.tag, [], some e⟩ {e.token}
  | setMessage {q : Ptr} {c : CallId} :
      Frame ⟨.setMessage q, [], some ⟨q, .request c, true⟩⟩ {⟨q, .serving c⟩}
  | setFinish {q : Ptr} {c : CallId} :
      Frame ⟨.setFinish q, [], some ⟨q, .request c, true⟩⟩ {⟨q, .composed c⟩}
  | finish {q : Ptr} {c : CallId} :
      Frame ⟨.finish q, [], some ⟨q, .request c, true⟩⟩ {⟨q, .finishing c⟩}
  | assertFinish {q : Ptr} {c : CallId} :
      Frame ⟨.assertFinish q, [], some ⟨q, .finish c, true⟩⟩ {⟨q, .answered c⟩}
  | delete {q : Ptr} {c : CallId} :
      Frame ⟨.delete q, [], some ⟨q, .finish c, true⟩⟩ {⟨q, .answered c⟩}

/-- Returning from the `Proceed` that a constructor called. -/
theorem Frame.ret {cs e T p} (h : Caller cs e T) {pc : Pc} (hpc : pc = .requestSayHello p) :
    Frame (Thread.ret ⟨pc, cs, e⟩) T := by
  subst hpc
  cases h with
  | loop => exact .next
  | branch => exact .setMessage

/-- The acceptors that a thread still has to construct: one at the start, and one for each call it took
    from the queue and has not spawned the successor of. -/
def Thread.owes (th : Thread) : Nat :=
  match th.pc with
  | .new => 1
  | .assertOk | .testCreate _ | .testProcess _ =>
      if th.callers = [] ∧ th.event.any Event.isRequest then 1 else 0
  | _ => 0

/-! ## The invariant -/

/-- A client's call up to the moment its request is handed over: what goes out is its own name. -/
def Call.Ok (user : Bytes) (c : Call) : Prop :=
  c.user = user ∧
  match c.pc with
  | .setName => c.request = {} ∧ c.net = .idle
  | .prepareAsyncSayHello => c.request = ⟨user⟩ ∧ c.net = .idle
  | .startCall => c.rpc = some ⟨user⟩ ∧ c.net = .idle
  | _ => c.net ≠ .idle ∧ ∀ r, c.net = .sent r → r = ⟨user⟩

namespace World

variable {n : Nat}

/-- The tokens that threads do not hold: of outstanding operations and of undelivered events. -/
def queued (w : World n) : Multiset Token := w.ops.map Op.token + w.events.map Event.token

/-- All tokens. -/
def tokens (w : World n) (held : Fin n → Multiset Token) : Multiset Token := ∑ t, held t + w.queued

/-- The tokens that thread `t` does not hold. -/
def others (w : World n) (held : Fin n → Multiset Token) (t : Fin n) : Multiset Token :=
  ∑ u ∈ univ \ {t}, held u + w.queued

theorem tokens_eq (w : World n) (held : Fin n → Multiset Token) (t : Fin n) :
    w.tokens held = held t + w.others held t := by
  unfold tokens others
  rw [sum_eq_add_sum_sdiff_singleton_of_mem (mem_univ t), add_assoc]

/-- The calls in service: who serves them, and how many `Finish` they were sent. -/
def serving (w : World n) (c : CallId) : Option (Ptr × Nat) :=
  match (w.calls c).net with
  | .accepted p => some (p, w.finishCount c)
  | _ => none

/-- The serials of the objects that were constructed and not deleted. -/
def ledger (w : World n) (u : Nat) : Option Unit := if u < w.created ∧ u ∉ w.deleted then some () else none

/-- How many `Finish` a call has been sent, when it is not in service. -/
def Settled (users : CallId → Bytes) (w : World n) (c : CallId) : Prop :=
  match (w.calls c).net with
  | .idle | .sent _ => w.finishCount c = 0
  | .accepted _ => True
  | .replied r => w.finishCount c = 1 ∧ r = ⟨greeting (users c)⟩
  | .dropped => w.finishCount c = 1

end World

/-- **The ownership invariant**, for the tokens `held` by the threads. -/
structure Inv {n : Nat} (users : CallId → Bytes) (w : World n) (held : Fin n → Multiset Token) : Prop where
  running   : w.mode = .running
  frames    : ∀ t, Frame (w.threads t) (held t)
  objects   : Linear Token.addr (Token.Valid users) w.heap (w.tokens held)
  calls     : Linear Token.call Token.Serves w.serving (w.tokens held)
  serials   : Linear Token.serial (fun _ _ => True) w.ledger (w.tokens held)
  acceptors : (w.tokens held).countP (·.stage.isAcceptor) + w.events.countP (·.isRequest)
                + ∑ t, (w.threads t).owes = n
  eventsOk  : ∀ e ∈ w.events, e.ok = true
  clients   : ∀ c, (w.calls c).Ok (users c)
  settled   : ∀ c, w.Settled users c
  finishes  : ∀ x ∈ w.finishes, x.2 = ⟨greeting (users x.1)⟩
  delivered : ∀ t, ∀ e, (w.threads t).event = some e → e ∈ w.delivered
  deleted   : w.deleted.Nodup ∧ ∀ u ∈ w.deleted, u < w.created ∧
                ∃ e ∈ w.delivered, e.tag.serial = u ∧ e.isRequest = false

/-- Nothing is held at the start. -/
theorem Inv.init (n : Nat) (users : CallId → Bytes) : Inv users (World.init n users) fun _ => 0 := by
  have hserving : (World.init n users).serving = fun _ => none := rfl
  have hledger : (World.init n users).ledger = fun _ => none := by
    funext u
    simp [World.ledger, World.init]
  have htokens : (World.init n users).tokens (fun _ => 0) = 0 := by
    simp [World.tokens, World.queued, World.init]
  refine ⟨rfl, fun _ => .new .loop, ?_, ?_, ?_, ?_, ?_, fun c => ⟨rfl, rfl, rfl⟩, fun c => rfl, ?_, ?_, ?_⟩
  · rw [htokens]
    exact Linear.empty _ _
  · rw [htokens, hserving]
    exact Linear.empty _ _
  · rw [htokens, hledger]
    exact Linear.empty _ _
  · rw [htokens]
    simp [World.init, Thread.owes]
  · simp [World.init]
  · simp [World.init]
  · simp [World.init]
  · simp [World.init]

namespace World

variable {n : Nat} {w : World n} {held : Fin n → Multiset Token} {t : Fin n}

@[simp] theorem setThread_events (th : Thread) : (w.setThread t th).events = w.events := rfl

/-- The moving thread holds something else, the others what they held. -/
theorem tokens_setThread (th : Thread) (T : Multiset Token) :
    (w.setThread t th).tokens (Function.update held t T) = T + w.others held t := by
  unfold tokens others
  rw [sum_update_of_mem (mem_univ t), add_assoc]
  rfl

/-- The acceptors owed by all threads, when thread `t` moves. -/
theorem owes_setThread (th : Thread) :
    ∑ u, ((w.setThread t th).threads u).owes + (w.threads t).owes = ∑ u, (w.threads u).owes + th.owes :=
  Machine.sum_update (fun _ => Thread.owes) w.threads t th

end World

section Step

variable {n : Nat} {users : CallId → Bytes} {w : World n} {held : Fin n → Multiset Token} {t : Fin n}

/-- The frames after one thread has moved. -/
theorem frames_update (h : ∀ u, Frame (w.threads u) (held u)) {th : Thread} {T : Multiset Token}
    (hth : Frame th T) (u : Fin n) :
    Frame ((w.setThread t th).threads u) (Function.update held t T u) := by
  by_cases hu : u = t
  · subst hu
    simpa [World.setThread] using hth
  · simpa [World.setThread, hu] using h u

/-- The events that threads remember, after one thread has moved. -/
theorem event_update {D : List Event} (h : ∀ u, ∀ e, (w.threads u).event = some e → e ∈ D) {th : Thread}
    (hth : ∀ e, th.event = some e → e ∈ D) (u : Fin n) (e : Event)
    (he : ((w.setThread t th).threads u).event = some e) : e ∈ D := by
  by_cases hu : u = t
  · subst hu
    exact hth e (by simpa [World.setThread] using he)
  · exact h u e (by simpa [World.setThread, hu] using he)

/-- **A quiet statement.** Thread `t` rewrites its object and moves the token on, from `k` to `k'`, without
    touching the queues, the calls or the ghosts. -/
theorem Inv.quiet (h : Inv users w held) {k k' : Token} {C : Multiset Token} {th : Thread}
    {heap' : Nat → Option CallData} (hheld : held t = k ::ₘ C) (hframe : Frame th (k' ::ₘ C))
    (hptr : k'.ptr = k.ptr) (hcall : k'.stage.call = k.stage.call)
    (hcount : k'.stage.finishCount = k.stage.finishCount)
    (hacc : k'.stage.isAcceptor = k.stage.isAcceptor) (howes : th.owes = (w.threads t).owes)
    (hevent : th.event = (w.threads t).event)
    (hobjects : Linear Token.addr (Token.Valid users) heap' (k' ::ₘ (C + w.others held t))) :
    Inv users (({ w with heap := heap' } : World n).setThread t th) (Function.update held t (k' ::ₘ C)) := by
  have htok : w.tokens held = k ::ₘ (C + w.others held t) := by
    rw [World.tokens_eq w held t, hheld, Multiset.cons_add]
  have htok' : (({ w with heap := heap' } : World n).setThread t th).tokens
      (Function.update held t (k' ::ₘ C)) = k' ::ₘ (C + w.others held t) := by
    rw [World.tokens_setThread, Multiset.cons_add]
    rfl
  have hcalls := h.calls
  have hserials := h.serials
  have hacceptors := h.acceptors
  rw [htok] at hcalls hserials hacceptors
  refine ⟨h.running, frames_update h.frames hframe, by rw [htok']; exact hobjects, ?_, ?_, ?_, h.eventsOk,
    h.clients, h.settled, h.finishes, event_update h.delivered (fun e he => h.delivered t e (hevent ▸ he)),
    h.deleted⟩
  · rw [htok']
    apply hcalls.pass hcall
    intro v hv
    unfold Token.Serves at hv ⊢
    rw [hv, hptr, hcount]
  · rw [htok']
    exact hserials.pass (congrArg (fun p : Ptr => some p.serial) hptr) fun _ _ => trivial
  · rw [htok']
    have hsum := World.owes_setThread (w := w) (t := t) th
    rw [Multiset.countP_cons] at hacceptors ⊢
    rw [hacc]
    simp only [World.setThread_events] at *
    show _ + _ + ∑ u, ((w.setThread t th).threads u).owes = n
    omega

end Step

end AsyncCpp.Greeter
