import Mathlib.Data.List.Basic

/-!
# `Asio.Awaiters` — the awaiters of `asio_util.hpp`, statement by statement

Each awaiter is what its `await_suspend` does on the suspending thread, what its completion handler does on a
thread of the `io_context`, and what `await_resume` reads. They differ in the fields that the initiating call
uses, in whether a byte count is delivered, and in the local variables of `ConnectAwaiter::await_suspend`.

`Awaiter.HandsOver` is the discipline that makes the handover safe: no field is touched after the operation was
initiated, and `handle.resume()` is the last thing a handler does. All seven follow it (`Kind.handsOver`).
-/

namespace AsyncCpp.Asio

/-- The members of the awaiters. -/
inductive Field
  | m_acceptor
  | m_socket
  | m_buffer
  | delim_
  | io_context_
  | host_
  | port_
  | m_steady_timer
  | m_ec
  | size_
deriving DecidableEq

/-- A statement of `await_suspend`: the members it reads, and whether it is the asio call that initiates the
    operation. -/
structure SuspendStatement where
  reads     : List Field
  initiates : Bool := false
deriving DecidableEq

/-- A statement of a completion handler. -/
inductive HandlerStatement
  /-- `m_ec = ec;` -/
  | storeEc
  /-- `size_ = size;` -/
  | storeSize
  /-- `handle.resume();` -/
  | resume
deriving DecidableEq

/-- An awaiter class. `await_resume` returns `m_ec`, or `make_pair(m_ec, size_)` when `sized`. -/
structure Awaiter where
  await_suspend : List SuspendStatement
  handler       : List HandlerStatement
  sized         : Bool := false

/-- `m_acceptor.async_accept(m_socket, ..)` -/
def AcceptorAwaiter : Awaiter where
  await_suspend := [{ reads := [.m_acceptor, .m_socket], initiates := true }]
  handler := [.storeEc, .resume]

/-- The awaiters that deliver an error code and a byte count. -/
def transfer (reads : List Field) : Awaiter where
  await_suspend := [{ reads := reads, initiates := true }]
  handler := [.storeEc, .storeSize, .resume]
  sized := true

/-- `m_socket.async_read_some(std::move(m_buffer), ..)` -/
def ReadSomeAwaiter : Awaiter := transfer [.m_socket, .m_buffer]

/-- `boost::asio::async_read(m_socket, m_buffer, ..)` -/
def ReadAwaiter : Awaiter := transfer [.m_socket, .m_buffer]

/-- `boost::asio::async_read_until(m_socket, m_buffer, delim_, ..)` -/
def ReadUntilAwaiter : Awaiter := transfer [.m_socket, .m_buffer, .delim_]

/-- `boost::asio::async_write(m_socket, std::move(m_buffer), ..)` -/
def WriteAwaiter : Awaiter := transfer [.m_socket, .m_buffer]

/-- `resolver resolver(io_context_); auto endpoints = resolver.resolve(host_, port_);
    async_connect(m_socket, endpoints, ..);` and the destructors of the two local variables. -/
def ConnectAwaiter : Awaiter where
  await_suspend := [{ reads := [.io_context_] }, { reads := [.host_, .port_] },
    { reads := [.m_socket], initiates := true }, { reads := [] }, { reads := [] }]
  handler := [.storeEc, .resume]

/-- `m_steady_timer.async_wait(..)` -/
def TimerAwaiter : Awaiter where
  await_suspend := [{ reads := [.m_steady_timer], initiates := true }]
  handler := [.storeEc, .resume]

inductive Kind
  | accept
  | readSome
  | read
  | readUntil
  | write
  | connect
  | timer
deriving DecidableEq

def Kind.awaiter : Kind → Awaiter
  | .accept    => AcceptorAwaiter
  | .readSome  => ReadSomeAwaiter
  | .read      => ReadAwaiter
  | .readUntil => ReadUntilAwaiter
  | .write     => WriteAwaiter
  | .connect   => ConnectAwaiter
  | .timer     => TimerAwaiter

/-! ## The discipline -/

/-- After the operation is initiated: no member is read, nothing is initiated. -/
def SuspendStatement.isLocal (st : SuspendStatement) : Bool := st.reads.isEmpty && !st.initiates

/-- What is left of `await_suspend` before the operation is initiated. -/
def Initiating : List SuspendStatement → Bool
  | [] => false
  | st :: rest => if st.initiates then rest.all SuspendStatement.isLocal else Initiating rest

/-- What is left of a handler before `handle.resume()`. -/
def Resuming : List HandlerStatement → Bool
  | [] => false
  | .resume :: rest => rest.isEmpty
  | _ :: rest => Resuming rest

/-- **The discipline of an awaiter.** -/
structure Awaiter.HandsOver (A : Awaiter) : Prop where
  initiates : Initiating A.await_suspend = true
  resumes   : Resuming A.handler = true
  storesEc  : .storeEc ∈ A.handler
  storesSize : A.sized = true → .storeSize ∈ A.handler

/-- Every awaiter of `asio_util.hpp` hands over. -/
theorem Kind.handsOver (k : Kind) : k.awaiter.HandsOver := by
  cases k <;> exact ⟨by decide, by decide, by decide, by decide⟩

end AsyncCpp.Asio
