import Mathlib.Data.List.Basic
import AsyncCpp.Lib.Machine
import AsyncCpp.Lib.Channel

/-!
# `Echo.Connection` — the client loop of `start` against `TcpServer::session`

One connection: the client, its session, and the two byte streams between them, each a FIFO channel whose
capacity is a parameter. `async_write` hands its bytes over in any number of pieces and completes when all are
handed over; `async_read_some` returns any nonempty part of what is there, up to the size of its buffer. The
sizes, the order of the parties' moves and the errors are the actions of the environment.

The fields `started`, `received` and `error` are ghost.
-/

namespace AsyncCpp.Echo

abbrev Bytes := List UInt8

/-- `max_length`, of the client and of the session. -/
def maxLength : Nat := 1024

/-- The contents of a `char write_buf[max_length]`. -/
structure Buffer where
  bytes  : Bytes
  length : bytes.length = maxLength

/-- `char write_buf[max_length] = {"hello"};` -/
def helloBuf : Buffer := ⟨[104, 101, 108, 108, 111] ++ List.replicate 1019 0, by rw [List.length_append, List.length_replicate]; rfl⟩

/-- What a connection is run with: the number of rounds, the contents of `write_buf` in each (the source never
    changes them), and how much the two streams hold. -/
structure Params where
  count     : Nat
  write_buf : Nat → Buffer
  c2s_cap   : Option Nat := none
  s2c_cap   : Option Nat := none

/-- The client after it has connected. -/
inductive ClientPc
  /-- `i < count` -/
  | loop
  /-- In `async_write`, with the bytes that are not handed over yet. -/
  | writing (rest : Bytes)
  /-- In `async_read_some`. -/
  | reading
  /-- Out of the loop: `"Finished send and recieve"`, `socket.shutdown`. -/
  | finished
deriving DecidableEq

/-- The session. -/
inductive SessionPc
  /-- In `timeout(steady_timer)`. -/
  | timer
  /-- In `async_read_some`. -/
  | reading
  /-- In `async_write`, with the bytes that are not handed over yet. -/
  | writing (rest : Bytes)
  /-- Out of the loop. -/
  | closed
deriving DecidableEq

structure Connection (P : Params) where
  client   : ClientPc := .loop
  i        : Nat := 0
  session  : SessionPc := .timer
  c2s      : Channel UInt8 P.c2s_cap := .empty
  s2c      : Channel UInt8 P.s2c_cap := .empty
  /-- The rounds that were begun. -/
  started  : Nat := 0
  /-- What each completed `async_read_some` of the client returned. -/
  received : List Bytes := []
  /-- Some operation has reported an error. -/
  error    : Bool := false

inductive Action
  /-- The client evaluates the condition of its loop. -/
  | loop
  /-- The client's `async_write` hands over its next `k` bytes. -/
  | clientHandOver (k : Nat)
  | clientWritten
  | clientWriteError
  /-- The client's `async_read_some` returns `k` bytes. -/
  | clientReadSome (k : Nat)
  | clientReadError
  | timer
  | sessionReadSome (k : Nat)
  | sessionReadError
  | sessionHandOver (k : Nat)
  | sessionWritten
  | sessionWriteError
deriving DecidableEq

/-- One step of the connection. -/
def step {P : Params} (s : Connection P) : Action → Option (Connection P)
  | .loop =>
      match s.client with
      | .loop =>
          if s.i < P.count then
            some { s with client := .writing (P.write_buf s.i).bytes, started := s.started + 1 }
          else some { s with client := .finished }
      | _ => none
  | .clientHandOver k =>
      match s.client with
      | .writing rest =>
          if 0 < k ∧ k ≤ rest.length then
            (s.c2s.send (rest.take k)).map fun ch => { s with c2s := ch, client := .writing (rest.drop k) }
          else none
      | _ => none
  | .clientWritten =>
      match s.client with
      | .writing [] => some { s with client := .reading }
      | _ => none
  -- nobody looks at what `co_await async_write` returned
  | .clientWriteError =>
      match s.client with
      | .writing _ => some { s with client := .reading, error := true }
      | _ => none
  | .clientReadSome k =>
      match s.client with
      | .reading =>
          if k ≤ maxLength then
            (s.s2c.receive k).map fun (xs, ch) =>
              { s with s2c := ch, received := s.received ++ [xs], i := s.i + 1, client := .loop }
          else none
      | _ => none
  | .clientReadError =>
      match s.client with
      | .reading => some { s with client := .finished, error := true }
      | _ => none
  | .timer =>
      match s.session with
      | .timer => some { s with session := .reading }
      | _ => none
  | .sessionReadSome k =>
      match s.session with
      | .reading =>
          if k ≤ maxLength then
            (s.c2s.receive k).map fun (xs, ch) => { s with c2s := ch, session := .writing xs }
          else none
      | _ => none
  | .sessionReadError =>
      match s.session with
      | .reading => some { s with session := .closed, error := true }
      | _ => none
  | .sessionHandOver k =>
      match s.session with
      | .writing rest =>
          if 0 < k ∧ k ≤ rest.length then
            (s.s2c.send (rest.take k)).map fun ch => { s with s2c := ch, session := .writing (rest.drop k) }
          else none
      | _ => none
  | .sessionWritten =>
      match s.session with
      | .writing [] => some { s with session := .reading }
      | _ => none
  | .sessionWriteError =>
      match s.session with
      | .writing _ => some { s with session := .reading, error := true }
      | _ => none

def connection (P : Params) : Machine (Connection P) Action where
  start := {}
  step := step

/-! ## What a step can do -/

/-- **The steps of a connection**, one constructor per action and outcome, with everything the action checks. -/
inductive Moved {P : Params} (s : Connection P) : Action → Connection P → Prop
  | enter (hpc : s.client = .loop) (hlt : s.i < P.count) :
      Moved s .loop { s with client := .writing (P.write_buf s.i).bytes, started := s.started + 1 }
  | leave (hpc : s.client = .loop) (hge : ¬ s.i < P.count) : Moved s .loop { s with client := .finished }
  | clientHandOver {k rest ch} (hpc : s.client = .writing rest) (hpos : 0 < k) (hk : k ≤ rest.length)
      (hch : s.c2s.send (rest.take k) = some ch) :
      Moved s (.clientHandOver k) { s with c2s := ch, client := .writing (rest.drop k) }
  | clientWritten (hpc : s.client = .writing []) : Moved s .clientWritten { s with client := .reading }
  | clientWriteError {rest} (hpc : s.client = .writing rest) :
      Moved s .clientWriteError { s with client := .reading, error := true }
  | clientReadSome {k xs ch} (hpc : s.client = .reading) (hk : k ≤ maxLength)
      (hch : s.s2c.receive k = some (xs, ch)) :
      Moved s (.clientReadSome k) { s with s2c := ch, received := s.received ++ [xs], i := s.i + 1, client := .loop }
  | clientReadError (hpc : s.client = .reading) :
      Moved s .clientReadError { s with client := .finished, error := true }
  | timer (hpc : s.session = .timer) : Moved s .timer { s with session := .reading }
  | sessionReadSome {k xs ch} (hpc : s.session = .reading) (hk : k ≤ maxLength)
      (hch : s.c2s.receive k = some (xs, ch)) :
      Moved s (.sessionReadSome k) { s with c2s := ch, session := .writing xs }
  | sessionReadError (hpc : s.session = .reading) :
      Moved s .sessionReadError { s with session := .closed, error := true }
  | sessionHandOver {k rest ch} (hpc : s.session = .writing rest) (hpos : 0 < k) (hk : k ≤ rest.length)
      (hch : s.s2c.send (rest.take k) = some ch) :
      Moved s (.sessionHandOver k) { s with s2c := ch, session := .writing (rest.drop k) }
  | sessionWritten (hpc : s.session = .writing []) : Moved s .sessionWritten { s with session := .reading }
  | sessionWriteError {rest} (hpc : s.session = .writing rest) :
      Moved s .sessionWriteError { s with session := .reading, error := true }

theorem step_moved {P : Params} {s s' : Connection P} {a : Action} (hs : step s a = some s') : Moved s a s' := by
  cases a with
  | loop =>
      simp only [step] at hs
      split at hs
      · next hpc =>
        split at hs
        · next hlt => cases hs; exact .enter hpc hlt
        · next hge => cases hs; exact .leave hpc hge
      · exact absurd hs (by simp)
  | clientHandOver k =>
      simp only [step] at hs
      split at hs
      · next hpc =>
        split at hs
        · next hk =>
          obtain ⟨_, hch, rfl⟩ := Option.map_eq_some_iff.mp hs
          exact .clientHandOver hpc hk.1 hk.2 hch
        · exact absurd hs (by simp)
      · exact absurd hs (by simp)
  | sessionHandOver k =>
      simp only [step] at hs
      split at hs
      · next hpc =>
        split at hs
        · next hk =>
          obtain ⟨_, hch, rfl⟩ := Option.map_eq_some_iff.mp hs
          exact .sessionHandOver hpc hk.1 hk.2 hch
        · exact absurd hs (by simp)
      · exact absurd hs (by simp)
  | clientReadSome k =>
      simp only [step] at hs
      split at hs
      · next hpc =>
        split at hs
        · next hk =>
          obtain ⟨_, hch, rfl⟩ := Option.map_eq_some_iff.mp hs
          exact .clientReadSome hpc hk hch
        · exact absurd hs (by simp)
      · exact absurd hs (by simp)
  | sessionReadSome k =>
      simp only [step] at hs
      split at hs
      · next hpc =>
        split at hs
        · next hk =>
          obtain ⟨_, hch, rfl⟩ := Option.map_eq_some_iff.mp hs
          exact .sessionReadSome hpc hk hch
        · exact absurd hs (by simp)
      · exact absurd hs (by simp)
  | clientWritten | clientWriteError | clientReadError | timer | sessionReadError | sessionWritten
  | sessionWriteError =>
      simp only [step] at hs
      split at hs
      · next hpc => cases hs; constructor; exact hpc
      · exact absurd hs (by simp)

end AsyncCpp.Echo
