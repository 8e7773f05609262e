import Mathlib.Logic.Function.Basic

/-!
# `Greeter.Client` — the messages and `GreeterClient::SayHello`

`std::string` is a list of bytes: the names that callers pass are arbitrary. One `Call` is one activation of
`SayHello`, with its locals, together with what gRPC knows of the RPC it started (`net`, `dead`). Each
statement of `SayHello` is one step of `sayHello`; the completion of the RPC is the separate step `deliver`,
which the gRPC runtime takes at a moment of its own choosing.
-/

namespace AsyncCpp.Greeter

/-- `std::string`. -/
abbrev Bytes := List UInt8

/-- `helloworld.HelloRequest`. -/
structure HelloRequest where
  name : Bytes := []
deriving DecidableEq

/-- `helloworld.HelloReply`. -/
structure HelloReply where
  message : Bytes := []
deriving DecidableEq

/-- `std::string prefix("Hello ")` -/
def helloPrefix : Bytes := [72, 101, 108, 108, 111, 32]

/-- `"RPC failed"` -/
def rpcFailed : Bytes := [82, 80, 67, 32, 102, 97, 105, 108, 101, 100]

/-- The reply the server owes to a call for `name`. -/
def greeting (name : Bytes) : Bytes := helloPrefix ++ name

/-- The pointer to a `CallData`, which is also its tag. `addr` is the address, which the allocator may hand
    out again after a `delete`; `serial` is ghost and tells the objects apart that lived there in turn. -/
structure Ptr where
  addr   : Nat
  serial : Nat
deriving DecidableEq

/-- The calls are numbered. -/
abbrev CallId := Nat

/-- `grpc::Status`, as far as `status.ok()` reads it. A default-constructed one is OK. -/
inductive Status
  | ok
  | error
deriving DecidableEq

/-- How far the RPC of one call has come, as gRPC sees it. -/
inductive Net
  /-- `StartCall` has not run. -/
  | idle
  /-- The request is under way, no acceptor has taken it. -/
  | sent (request : HelloRequest)
  /-- Handed to the `CallData` at `tag`, no reply went out. -/
  | accepted (tag : Ptr)
  /-- The reply of the server's `Finish` went to the wire. -/
  | replied (reply : HelloReply)
  /-- The server's `Finish` found the call dead, its reply did not go to the wire. -/
  | dropped
deriving DecidableEq

/-- An event of the completion queue local to `SayHello`. -/
structure ClientEvent where
  tag : Nat
  ok  : Bool
deriving DecidableEq

/-- The statements of `SayHello`. -/
inductive ClientPc
  | setName
  | prepareAsyncSayHello
  | startCall
  | finish
  | next
  | assertTag
  | assertOk
  | act
  | returned (text : Bytes)
  | aborted
deriving DecidableEq

/-- One activation of `SayHello(user)`: its locals, and the RPC as gRPC sees it. -/
structure Call where
  user    : Bytes
  pc      : ClientPc := .setName
  request : HelloRequest := {}
  reply   : HelloReply := {}
  status  : Status := .ok
  /-- The request that `rpc` was prepared with. -/
  rpc     : Option HelloRequest := none
  /-- `cq`: at most the one event of `rpc->Finish` is ever in it. -/
  cq      : Option ClientEvent := none
  /-- `got_tag` and `ok`. -/
  got     : Option ClientEvent := none
  net     : Net := .idle
  /-- Cancelled, past its deadline, or cut off from the server. -/
  dead    : Bool := false

/-- The next statement of `SayHello`; `none` while it is blocked in `cq.Next` or has returned. -/
def sayHello (c : Call) : Option Call :=
  match c.pc with
  | .setName => some { c with request := { c.request with name := c.user }, pc := .prepareAsyncSayHello }
  | .prepareAsyncSayHello => some { c with rpc := some c.request, pc := .startCall }
  | .startCall => c.rpc.map fun r => { c with net := .sent r, pc := .finish }
  | .finish => some { c with pc := .next }
  | .next => c.cq.map fun e => { c with got := some e, cq := none, pc := .assertTag }
  | .assertTag => c.got.map fun e => { c with pc := if e.tag = 1 then .assertOk else .aborted }
  | .assertOk => c.got.map fun e => { c with pc := if e.ok then .act else .aborted }
  | .act => some { c with pc := .returned (if c.status = .ok then c.reply.message else rpcFailed) }
  | .returned _ | .aborted => none

/-- gRPC completes the RPC that `rpc->Finish` waits for: `reply` and `status` are filled in and the event
    with tag 1 is queued. The outcome is OK only when the server's reply is on the wire, and an error only
    when the call is dead. -/
def deliver (c : Call) (outcome : Status) : Option Call :=
  match c.pc, c.cq, outcome, c.net, c.dead with
  | .next, none, .ok, .replied r, _    => some { c with reply := r, status := .ok, cq := some ⟨1, true⟩ }
  | .next, none, .error, _, true => some { c with status := .error, cq := some ⟨1, true⟩ }
  | _, _, _, _, _ => none

end AsyncCpp.Greeter
