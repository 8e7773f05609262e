import Mathlib.Algebra.BigOperators.Group.Finset.Piecewise
import Mathlib.Algebra.BigOperators.Group.Multiset.Basic
import Mathlib.Data.Fintype.Basic
import AsyncCpp.Greeter.Server

/-!
# `Greeter.Rank` — how much the server still has to do

`World.rank` counts the statements between a state and the one in which every thread waits in `Next` with
nothing to fetch. A thread that serves a request passes 18 of them until its `Finish` is complete, the
constructor of the next acceptor included; a thread that handles a `Finish` passes 6. The rank drops with
every action of the server (`Inv.step` of `Greeter.Steps`), so without new arrivals the server comes to rest.
-/

namespace AsyncCpp.Greeter

open Finset

/-- The event of a `RequestSayHello`. -/
def Event.isRequest (e : Event) : Bool :=
  match e.answers with
  | .request _ => true
  | .finish _  => false

/-- The rank of the `PROCESS` branch that a constructor returns to, if it was called from one. -/
def Thread.resume (th : Thread) : Nat := if th.callers = [] then 0 else 10

/-- The rank of a thread at each statement. -/
def Thread.rank (th : Thread) : Nat :=
  match th.pc with
  | .next              => 0
  | .delete _          => 1
  | .assertFinish _    => 2
  | .finish _          => 8
  | .setFinish _       => 9
  | .setMessage _      => 10
  | .requestSayHello _ => 1 + th.resume
  | .setProcess _      => 2 + th.resume
  | .new               => 4 + th.resume
  | .testCreate _      =>
      match th.callers, th.event with
      | [], some e => if e.isRequest then 16 else 4
      | _, _       => 3 + th.resume
  | .testProcess _     => if th.event.any Event.isRequest then 15 else 3
  | .assertOk          => if th.event.any Event.isRequest then 17 else 5

/-- An outstanding `RequestSayHello` waits for a call, a `Finish` has its event ahead. -/
def Op.rank : Op → Nat
  | .requestSayHello _ => 0
  | .finish _ _ _      => 7

def Event.rank (e : Event) : Nat := if e.isRequest then 18 else 6

namespace World

variable {n : Nat} {w w' : World n} {t : Fin n}

def rank (w : World n) : Nat :=
  ∑ t, (w.threads t).rank + (w.ops.map Op.rank).sum + (w.events.map Event.rank).sum

/-- The rank after one thread has moved. -/
theorem rank_setThread (w : World n) (t : Fin n) (th : Thread) :
    (w.setThread t th).rank + (w.threads t).rank = w.rank + th.rank := by
  have hsum := Machine.sum_update (fun _ => Thread.rank) w.threads t th
  show ∑ u, (Function.update w.threads t th u).rank + (w.ops.map Op.rank).sum + (w.events.map Event.rank).sum + _ = _
  unfold rank
  omega

/-- Handing an operation to gRPC adds what it has ahead. -/
theorem rank_issue (w : World n) (o : Op) : (w.issue o).rank = w.rank + o.rank := by
  unfold rank issue
  rw [Multiset.map_cons, Multiset.sum_cons]
  simp only
  omega

/-- A thread that moves on to a statement of lower rank lowers the rank. -/
theorem rank_goto (th : Thread) (hlt : th.rank < (w.threads t).rank) : (w.setThread t th).rank < w.rank := by
  have := w.rank_setThread t th
  omega

/-- The same when it hands over an operation on the way. -/
theorem rank_goto_issue (o : Op) (th : Thread) (hlt : th.rank + o.rank < (w.threads t).rank) :
    ((w.issue o).setThread t th).rank < w.rank := by
  have hthread := (w.issue o).rank_setThread t th
  have hissue := w.rank_issue o
  change _ + (w.threads t).rank = _ at hthread
  omega

/-- Fetching an event takes it out of the queue and puts the thread one statement further. -/
theorem rank_next {e : Event} (hpc : (w.threads t).pc = .next) (he : e ∈ w.events) :
    (w.next t e).rank < w.rank := by
  have hthread := rank_setThread { w with events := w.events.erase e, delivered := e :: w.delivered } t
    { w.threads t with pc := .assertOk, event := some e }
  have hold : (w.threads t).rank = 0 := by simp [Thread.rank, hpc]
  have hnew : Thread.rank { w.threads t with pc := .assertOk, event := some e } + 1 = e.rank := by
    cases hreq : e.isRequest <;> simp [Thread.rank, Event.rank, hreq]
  have herase : (w.events.map Event.rank).sum = e.rank + ((w.events.erase e).map Event.rank).sum := by
    rw [← Multiset.sum_cons, ← Multiset.map_cons, Multiset.cons_erase he]
  have hrest : rank { w with events := w.events.erase e, delivered := e :: w.delivered } + e.rank = w.rank := by
    unfold rank
    simp only
    omega
  change (w.next t e).rank + (w.threads t).rank = _ at hthread
  omega

/-- Completing a `Finish` leaves its event to be fetched. -/
theorem rank_reply {p : Ptr} {c : CallId} {r : HelloReply} {ok : Bool} (hop : .finish p c r ∈ w.ops)
    (hthreads : w'.threads = w.threads) (hops : w'.ops = w.ops.erase (.finish p c r))
    (hevents : w'.events = ⟨p, .finish c, ok⟩ ::ₘ w.events) : w'.rank < w.rank := by
  have herase : (w.ops.map Op.rank).sum = 7 + ((w.ops.erase (.finish p c r)).map Op.rank).sum := by
    rw [show 7 = Op.rank (.finish p c r) from rfl, ← Multiset.sum_cons, ← Multiset.map_cons,
      Multiset.cons_erase hop]
  unfold rank
  rw [hthreads, hops, hevents, herase, Multiset.map_cons, Multiset.sum_cons]
  simp only [Event.rank, Event.isRequest, Bool.false_eq_true, if_false]
  omega

end World

end AsyncCpp.Greeter
