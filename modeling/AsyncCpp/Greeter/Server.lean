import Mathlib.Data.Multiset.AddSub
import AsyncCpp.Lib.Machine
import AsyncCpp.Greeter.Client

/-!
# `Greeter.Server` — `ServerImpl::HandleRpcs` on any number of threads, with its clients and gRPC

`World n` is the whole system: `n` threads inside `HandleRpcs` on one completion queue, the heap of
`CallData` objects, the operations the server issued, the events that wait in the queue, and the calls of
the clients. One thread action is one statement of `HandleRpcs` or `Proceed`, so an event can reach another
thread while the thread that issued the operation is still inside `Proceed`.

## Assumptions about gRPC, built into the steps
- Every issued `RequestSayHello` or `Finish` leads to at most one event, with its own tag, and `Next` hands
  each event to one caller, in any order. `Next` never returns false: nothing shuts the queue down.
- The event of a `RequestSayHello` has `ok = true`. The one of a `Finish` carries the `ok` that the
  environment of a run allows (`AllOk`, or `Exact` of `Greeter.Cancellation`).
- A request arrives unchanged in the `request_` of the `CallData` it is handed to, and `Finish` answers the
  call that its `responder_` was registered for.

The fields `serial`, `created`, `deleted`, `delivered`, `finishes` and `answers` are ghost: no statement
reads them.
-/

namespace AsyncCpp.Greeter

/-! ## Objects, operations, events -/

/-- `enum CallStatus { CREATE, PROCESS, FINISH }` -/
inductive CallStatus
  | create
  | process
  | finish
deriving DecidableEq

/-- `ServerImpl::CallData`. -/
structure CallData where
  request_   : HelloRequest := {}
  reply_     : HelloReply := {}
  /-- The call that `ctx_` and `responder_` were registered for, once one was accepted. -/
  responder_ : Option CallId := none
  status_    : CallStatus := .create
  serial     : Nat

/-- An operation of the server that is outstanding at gRPC. -/
inductive Op
  | requestSayHello (tag : Ptr)
  | finish (tag : Ptr) (call : CallId) (reply : HelloReply)
deriving DecidableEq

/-- What an event answers. -/
inductive Answer
  | request (call : CallId)
  | finish (call : CallId)
deriving DecidableEq

/-- An event of the completion queue: what `Next` writes to `tag` and `ok`. -/
structure Event where
  tag     : Ptr
  answers : Answer
  ok      : Bool
deriving DecidableEq

/-! ## Threads -/

/-- The statements of `HandleRpcs` and `Proceed`, with the `this` of the innermost `Proceed`. -/
inductive Pc
  /-- `new CallData(service_, cq_)` -/
  | new
  /-- `if (status_ == CREATE)` -/
  | testCreate (this : Ptr)
  /-- `status_ = PROCESS;` -/
  | setProcess (this : Ptr)
  /-- `service_->RequestSayHello(&ctx_, &request_, &responder_, cq_, cq_, this);` -/
  | requestSayHello (this : Ptr)
  /-- `else if (status_ == PROCESS)` -/
  | testProcess (this : Ptr)
  /-- `reply_.set_message(prefix + request_.name());` -/
  | setMessage (this : Ptr)
  /-- `status_ = FINISH;` -/
  | setFinish (this : Ptr)
  /-- `responder_.Finish(reply_, Status::OK, this);` -/
  | finish (this : Ptr)
  /-- `GPR_ASSERT(status_ == FINISH);` -/
  | assertFinish (this : Ptr)
  /-- `delete this;` -/
  | delete (this : Ptr)
  /-- `cq_->Next(&tag, &ok)` -/
  | next
  /-- `GPR_ASSERT(ok);` -/
  | assertOk
deriving DecidableEq

/-- A thread inside `HandleRpcs`. -/
structure Thread where
  pc      : Pc := .new
  /-- The `Proceed` frames that wait for the constructor they called. -/
  callers : List Ptr := []
  /-- `tag` and `ok`, as the last `Next` left them. -/
  event   : Option Event := none
deriving DecidableEq

/-- Go on at another statement of the same frame. -/
def Thread.goto (th : Thread) (pc : Pc) : Thread := { th with pc := pc }

/-- Return from `Proceed`: to the `PROCESS` branch whose `new` called it, or to the loop. -/
def Thread.ret (th : Thread) : Thread :=
  match th.callers with
  | []      => { th with pc := .next }
  | p :: ps => { th with pc := .setMessage p, callers := ps }

/-! ## The system -/

/-- What has become of the server process. -/
inductive Mode
  | running
  /-- A `GPR_ASSERT` failed. -/
  | aborted
  /-- An object was used after its `delete`, or a call was answered that was never accepted. -/
  | corrupted
deriving DecidableEq

structure World (n : Nat) where
  mode      : Mode := .running
  heap      : Nat → Option CallData := fun _ => none
  threads   : Fin n → Thread := fun _ => {}
  ops       : Multiset Op := 0
  events    : Multiset Event := 0
  calls     : CallId → Call
  /-- The number of `CallData` objects constructed so far. -/
  created   : Nat := 0
  /-- The serials of the deleted objects. -/
  deleted   : List Nat := []
  /-- The events that `Next` has handed out. -/
  delivered : List Event := []
  /-- The calls answered by `Finish`, with their replies. -/
  finishes  : List (CallId × HelloReply) := []

/-- The start: every thread is about to enter `HandleRpcs`, call `c` is about to say hello as `users c`. -/
def World.init (n : Nat) (users : CallId → Bytes) : World n where
  calls c := { user := users c }

namespace World

variable {n : Nat}

/-- The object a pointer refers to: the one at its address, if that is still the same one. -/
def deref (w : World n) (p : Ptr) : Option CallData := (w.heap p.addr).filter fun o => o.serial = p.serial

/-- Use the object at `p`; without one the process is corrupted. -/
def access (w : World n) (p : Ptr) (use : CallData → World n) : World n :=
  match w.deref p with
  | some o => use o
  | none   => { w with mode := .corrupted }

/-- Write the object at `p`. -/
def put (w : World n) (p : Ptr) (o : CallData) : World n :=
  { w with heap := Function.update w.heap p.addr (some o) }

def setThread (w : World n) (t : Fin n) (th : Thread) : World n :=
  { w with threads := Function.update w.threads t th }

def setCall (w : World n) (c : CallId) (call : Call) : World n :=
  { w with calls := Function.update w.calls c call }

def abort (w : World n) : World n := { w with mode := .aborted }

/-- Hand an operation to gRPC. -/
def issue (w : World n) (o : Op) : World n := { w with ops := o ::ₘ w.ops }

/-- The operator `delete`. -/
def free (w : World n) (p : Ptr) : World n :=
  { w with heap := Function.update w.heap p.addr none, deleted := p.serial :: w.deleted }

def logFinish (w : World n) (c : CallId) (r : HelloReply) : World n :=
  { w with finishes := (c, r) :: w.finishes }

/-- How often call `c` was answered. -/
def finishCount (w : World n) (c : CallId) : Nat := w.finishes.countP (·.1 = c)

/-- `new CallData(service_, cq_)` at a free address: the constructor sets the members and calls `Proceed`. -/
def construct (w : World n) (t : Fin n) (addr : Nat) : World n :=
  { w with heap := Function.update w.heap addr (some { serial := w.created }), created := w.created + 1 }.setThread t
    ((w.threads t).goto (.testCreate ⟨addr, w.created⟩))

/-- The next statement of thread `t`, apart from `new` and `Next`, which depend on the outside. -/
def statement (w : World n) (t : Fin n) : Option (World n) :=
  let th := w.threads t
  match th.pc with
  | .new | .next => none
  | .testCreate p => some <| w.access p fun o =>
      w.setThread t (th.goto (if o.status_ = .create then .setProcess p else .testProcess p))
  | .setProcess p => some <| w.access p fun o =>
      (w.put p { o with status_ := .process }).setThread t (th.goto (.requestSayHello p))
  | .requestSayHello p => some <| w.access p fun _ =>
      (w.issue (.requestSayHello p)).setThread t th.ret
  -- the branch begins with `new CallData(service_, cq_)`, whose constructor runs `Proceed` and returns here
  | .testProcess p => some <| w.access p fun o =>
      if o.status_ = .process then w.setThread t { th with pc := .new, callers := p :: th.callers }
      else w.setThread t (th.goto (.assertFinish p))
  | .setMessage p => some <| w.access p fun o =>
      (w.put p { o with reply_ := ⟨helloPrefix ++ o.request_.name⟩ }).setThread t (th.goto (.setFinish p))
  | .setFinish p => some <| w.access p fun o =>
      (w.put p { o with status_ := .finish }).setThread t (th.goto (.finish p))
  | .finish p => some <| w.access p fun o =>
      match o.responder_ with
      | none   => { w with mode := .corrupted }
      | some c => ((w.logFinish c o.reply_).issue (.finish p c o.reply_)).setThread t th.ret
  | .assertFinish p => some <| w.access p fun o =>
      if o.status_ = .finish then w.setThread t (th.goto (.delete p)) else w.abort
  | .delete p => some <| w.access p fun _ => (w.free p).setThread t th.ret
  -- `GPR_ASSERT(ok)`
  | .assertOk => th.event.map fun e =>
      if e.ok then w.setThread t (th.goto (.testCreate e.tag)) else w.abort

/-- `cq_->Next(&tag, &ok)` hands `e` to thread `t`. -/
def next (w : World n) (t : Fin n) (e : Event) : World n :=
  { w with events := w.events.erase e, delivered := e :: w.delivered }.setThread t
    { w.threads t with pc := .assertOk, event := some e }

/-- gRPC hands the request of call `c` to the acceptor at `p`: it fills `request_` and binds `responder_`. -/
def arrive (w : World n) (p : Ptr) (c : CallId) (r : HelloRequest) : World n :=
  w.access p fun o =>
    { w.put p { o with request_ := r, responder_ := some c } with
        ops := w.ops.erase (.requestSayHello p)
        events := ⟨p, .request c, true⟩ ::ₘ w.events
        calls := Function.update w.calls c { w.calls c with net := .accepted p } }

/-- gRPC is done with the `Finish` of the object at `p`; `ok` says whether the reply went to the wire. -/
def reply (w : World n) (p : Ptr) (c : CallId) (r : HelloReply) (ok : Bool) : World n :=
  w.access p fun _ =>
    { w with
        ops := w.ops.erase (.finish p c r)
        events := ⟨p, .finish c, ok⟩ ::ₘ w.events
        calls := Function.update w.calls c { w.calls c with net := if ok then .replied r else .dropped } }

end World

/-- The actions of the system. -/
inductive Action (n : Nat)
  /-- Thread `t` executes its next statement. -/
  | statement (t : Fin n)
  /-- Thread `t` executes `new CallData`, which the allocator places at `addr`. -/
  | new (t : Fin n) (addr : Nat)
  /-- `Next` returns the event `e` to thread `t`. -/
  | next (t : Fin n) (e : Event)
  /-- gRPC hands call `c` to the acceptor at `p`. -/
  | arrive (p : Ptr) (c : CallId)
  /-- gRPC completes the `Finish` at `p` for call `c`. -/
  | reply (p : Ptr) (c : CallId) (r : HelloReply) (ok : Bool)
  /-- Call `c` is cancelled, expires or is disconnected. -/
  | die (c : CallId)
  /-- `SayHello` of call `c` executes its next statement. -/
  | client (c : CallId)
  /-- gRPC completes the RPC of call `c` at its client. -/
  | deliver (c : CallId) (outcome : Status)

/-- One step of the system. The server and gRPC's part of it stop when the process is gone. -/
def step {n : Nat} (w : World n) : Action n → Option (World n)
  | .statement t => if w.mode = .running then w.statement t else none
  | .new t addr =>
      if w.mode = .running ∧ (w.threads t).pc = .new ∧ w.heap addr = none then some (w.construct t addr)
      else none
  | .next t e =>
      if w.mode = .running ∧ (w.threads t).pc = .next ∧ e ∈ w.events then some (w.next t e) else none
  | .arrive p c =>
      match (w.calls c).net with
      | .sent r =>
          if w.mode = .running ∧ .requestSayHello p ∈ w.ops then some (w.arrive p c r) else none
      | _ => none
  | .reply p c r ok =>
      if w.mode = .running ∧ .finish p c r ∈ w.ops then some (w.reply p c r ok) else none
  | .die c => some (w.setCall c { w.calls c with dead := true })
  | .client c => (sayHello (w.calls c)).map (w.setCall c)
  | .deliver c outcome => (Greeter.deliver (w.calls c) outcome).map (w.setCall c)

/-- The system of `n` dispatch threads and the calls of `users`. -/
def system (n : Nat) (users : CallId → Bytes) : Machine (World n) (Action n) where
  start := World.init n users
  step := step

/-- The environment in which every event has `ok = true`. -/
def AllOk {n : Nat} (_ : World n) : Action n → Prop
  | .reply _ _ _ ok => ok = true
  | _ => True

instance {n : Nat} (w : World n) : (a : Action n) → Decidable (AllOk w a)
  | .reply _ _ _ ok => inferInstanceAs (Decidable (ok = true))
  | .statement _ | .new _ _ | .next _ _ | .arrive _ _ | .die _ | .client _ | .deliver _ _ => .isTrue trivial

/-- The actions of the dispatch threads. -/
def Action.isThread {n : Nat} : Action n → Prop
  | .statement _ | .new _ _ | .next _ _ => True
  | _ => False

/-- The actions of the dispatch threads and of gRPC on the operations they issued: what goes on when no
    further call arrives. -/
def Action.isServer {n : Nat} : Action n → Prop
  | .statement _ | .new _ _ | .next _ _ | .reply _ _ _ _ => True
  | _ => False

end AsyncCpp.Greeter
