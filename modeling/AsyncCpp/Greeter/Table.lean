import AsyncCpp.Greeter.Progress

/-!
# `Greeter.Table` — clients and server refine a table of independent calls

What the users of the service see of it: one row per call, and no row knows of any other. `refines` shows that
clients, server and gRPC together, in every interleaving, do nothing else; the agreement of each reply with its
own call is then an invariant of a single row.

## Contents
- `Entry`, `Entry.step`: one row, and `table users`, all of them side by side.
- `World.entry`: the row of a call, read off the system. `refines`.
- `Entry.Ok`: what holds of a row in every reachable state.
- `Agreement w` and `agreement`.
-/

namespace AsyncCpp.Greeter

open Machine

variable {n : Nat} {users : CallId → Bytes} {w w' : World n} {held : Fin n → Multiset Token}

/-! ## The table -/

/-- How far a call has come at the server. -/
inductive Phase
  | idle
  | waiting
  | accepted
deriving DecidableEq

/-- One row of the table. -/
structure Entry where
  phase   : Phase := .idle
  /-- The replies the server has sent. -/
  replies : List HelloReply := []
  /-- How the RPC ended at its client, once it has. -/
  outcome : Option Status := none
  /-- What the client has seen of the reply. -/
  reply   : HelloReply := {}
  /-- What `SayHello` returned, once it has. -/
  result  : Option Bytes := none

inductive EntryAction
  | start
  | accept
  | finish
  | complete (outcome : Status)
  | ret

/-- One step of the row of a call for `user`. -/
def Entry.step (user : Bytes) (e : Entry) : EntryAction → Option Entry
  | .start  => if e.phase = .idle then some { e with phase := .waiting } else none
  | .accept => if e.phase = .waiting then some { e with phase := .accepted } else none
  | .finish => if e.phase = .accepted ∧ e.replies = [] then some { e with replies := [⟨greeting user⟩] } else none
  | .complete .ok =>
      match e.outcome, e.replies with
      | none, [r] => some { e with reply := r, outcome := some .ok }
      | _, _      => none
  | .complete .error =>
      if e.outcome = none ∧ e.phase ≠ .idle then some { e with outcome := some .error } else none
  | .ret =>
      match e.outcome, e.result with
      | some s, none => some { e with result := some (if s = .ok then e.reply.message else rpcFailed) }
      | _, _         => none

def row (user : Bytes) : Machine Entry EntryAction where
  start := {}
  step := Entry.step user

/-- The table of independent calls. -/
def table (users : CallId → Bytes) : Machine (CallId → Entry) (CallId × EntryAction) := family fun c => row (users c)

/-! ## One row -/

/-- **Agreement of one row**: one reply, the call's own, and a result that follows from it. -/
structure Entry.Ok (user : Bytes) (e : Entry) : Prop where
  accepted : e.replies ≠ [] → e.phase = .accepted
  once     : e.replies = [] ∨ e.replies = [⟨greeting user⟩]
  own      : e.reply = {} ∨ e.reply = ⟨greeting user⟩
  ok       : e.outcome = some .ok → e.reply = ⟨greeting user⟩
  result   : ∀ text, e.result = some text →
               ∃ s, e.outcome = some s ∧ text = if s = .ok then greeting user else rpcFailed

theorem Entry.Ok.step {user : Bytes} {e e' : Entry} (h : e.Ok user) {a : EntryAction}
    (hs : e.step user a = some e') : e'.Ok user := by
  cases a with
  | start =>
      simp only [Entry.step] at hs
      split at hs
      · next hidle =>
        cases hs
        exact ⟨fun hr => absurd (hidle.symm.trans (h.accepted hr)) (by decide), h.once, h.own, h.ok, h.result⟩
      · exact absurd hs (by simp)
  | accept =>
      simp only [Entry.step] at hs
      split at hs
      · cases hs
        exact ⟨fun _ => rfl, h.once, h.own, h.ok, h.result⟩
      · exact absurd hs (by simp)
  | finish =>
      simp only [Entry.step] at hs
      split at hs
      · next hacc =>
        cases hs
        exact ⟨fun _ => hacc.1, .inr rfl, h.own, h.ok, h.result⟩
      · exact absurd hs (by simp)
  | complete o =>
      cases o with
      | ok =>
          simp only [Entry.step] at hs
          split at hs
          · next r hout hr =>
            cases hs
            have hown : r = ⟨greeting user⟩ := by
              rcases h.once with hnil | hone
              · rw [hr] at hnil; cases hnil
              · rw [hr] at hone; cases hone; rfl
            refine ⟨h.accepted, h.once, .inr hown, fun _ => hown, ?_⟩
            intro text ht
            obtain ⟨s, hs, _⟩ := h.result text ht
            rw [hout] at hs
            cases hs
          · exact absurd hs (by simp)
      | error =>
          simp only [Entry.step] at hs
          split at hs
          · next hout =>
            cases hs
            refine ⟨h.accepted, h.once, h.own, nofun, ?_⟩
            intro text ht
            obtain ⟨s, hs, _⟩ := h.result text ht
            rw [hout.1] at hs
            cases hs
          · exact absurd hs (by simp)
  | ret =>
      simp only [Entry.step] at hs
      split at hs
      · next s hout _ =>
        cases hs
        refine ⟨h.accepted, h.once, h.own, h.ok, ?_⟩
        rintro text ⟨rfl⟩
        refine ⟨s, hout, ?_⟩
        by_cases hsok : s = .ok
        · subst hsok
          simp [h.ok hout]
        · simp [hsok]
      · exact absurd hs (by simp)

/-- Every row of a reachable table is in agreement. -/
theorem table_ok {rows : CallId → Entry} (h : (table users).Reachable (familyEnv fun _ => Anything) rows)
    (c : CallId) : (rows c).Ok (users c) := by
  have hstart : Entry.Ok (users c) {} := ⟨fun hr => absurd rfl hr, .inl rfl, .inl rfl, nofun, nofun⟩
  apply (family_reachable h c).invariant hstart
  intro e a e' _ hi _ hs
  exact hi.step hs

/-! ## The row of a call -/

def Net.phase : Net → Phase
  | .idle   => .idle
  | .sent _ => .waiting
  | .accepted _ | .replied _ | .dropped => .accepted

/-- The RPC has ended at its client. -/
def Call.completed (c : Call) : Bool :=
  c.cq.isSome ||
    match c.pc with
    | .assertTag | .assertOk | .act | .returned _ | .aborted => true
    | _ => false

def Call.outcome (c : Call) : Option Status := if c.completed then some c.status else none

def Call.result (c : Call) : Option Bytes :=
  match c.pc with
  | .returned text => some text
  | _ => none

def World.replies (w : World n) (c : CallId) : List HelloReply := (w.finishes.filter (·.1 = c)).map (·.2)

/-- The row of a call with the replies it was sent. -/
def Call.entry (call : Call) (replies : List HelloReply) : Entry where
  phase   := call.net.phase
  replies := replies
  outcome := call.outcome
  reply   := call.reply
  result  := call.result

/-- **The abstraction**: the table that a state of the system stands for. -/
def World.entry (w : World n) (c : CallId) : Entry := (w.calls c).entry (w.replies c)

/-! ## The refinement -/

/-- The replies of a call in service are as many as its `Finish`, each with its own greeting. -/
theorem Inv.replies_eq (h : Inv users w held) (c : CallId) :
    w.replies c = List.replicate (w.finishCount c) ⟨greeting (users c)⟩ := by
  apply List.eq_replicate_iff.mpr
  constructor
  · rw [World.replies, List.length_map, ← List.countP_eq_length_filter]
    rfl
  · intro r hr
    obtain ⟨x, hx, rfl⟩ := List.mem_map.mp hr
    obtain ⟨hmem, hxc⟩ := List.mem_filter.mp hx
    rw [h.finishes x hmem, of_decide_eq_true hxc]

theorem World.replies_congr (hf : w'.finishes = w.finishes) (c : CallId) : w'.replies c = w.replies c := by
  unfold World.replies
  rw [hf]

/-- When one call moves on, one row changes. -/
theorem World.entry_setCall {d : CallId} {call : Call} (hc : w'.calls = (w.setCall d call).calls)
    (hf : w'.finishes = w.finishes) : w'.entry = Function.update w.entry d (call.entry (w.replies d)) := by
  funext c
  by_cases hcd : c = d
  · subst hcd
    simp [World.entry, hc, World.setCall, World.replies_congr hf]
  · simp [World.entry, hc, World.setCall, World.replies_congr hf, hcd]

/-- A `Finish` adds a reply to one row. -/
theorem World.entry_finish {c : CallId} {r : HelloReply} (hc : w'.calls = w.calls)
    (hf : w'.finishes = (c, r) :: w.finishes) :
    w'.entry = Function.update w.entry c ((w.calls c).entry (r :: w.replies c)) := by
  funext d
  by_cases hcd : d = c
  · subst hcd
    simp [World.entry, hc, World.replies, hf]
  · have hne : ¬ c = d := fun he => hcd he.symm
    simp [World.entry, hc, World.replies, hf, hcd, hne]

/-- What `SayHello` does to the row of its call: only `StartCall` and the return are seen. -/
theorem sayHello_entry {user : Bytes} {call call' : Call} (h : call.Ok user) (hs : sayHello call = some call')
    (rs : List HelloReply) : (row user).Steps Anything (call.entry rs) (call'.entry rs) := by
  obtain ⟨_, hpc⟩ := h
  unfold sayHello at hs
  cases hc : call.pc with
  | setName | prepareAsyncSayHello | finish =>
      rw [hc] at hs
      cases hs
      exact .of_eq (by simp [Call.entry, Call.outcome, Call.completed, Call.result, hc])
  | startCall =>
      rw [hc] at hs hpc
      obtain ⟨r, _, rfl⟩ := Option.map_eq_some_iff.mp hs
      apply Steps.single (a := .start) trivial
      simp [row, Entry.step, Call.entry, Net.phase, hpc.2, Call.outcome, Call.completed, Call.result, hc]
  | next =>
      rw [hc] at hs
      obtain ⟨e, he, rfl⟩ := Option.map_eq_some_iff.mp hs
      exact .of_eq (by simp [Call.entry, Call.outcome, Call.completed, Call.result, hc, he])
  | assertTag =>
      rw [hc] at hs
      obtain ⟨e, _, rfl⟩ := Option.map_eq_some_iff.mp hs
      apply Steps.of_eq
      by_cases he : e.tag = 1 <;> simp [Call.entry, Call.outcome, Call.completed, Call.result, hc, he]
  | assertOk =>
      rw [hc] at hs
      obtain ⟨e, _, rfl⟩ := Option.map_eq_some_iff.mp hs
      apply Steps.of_eq
      by_cases he : e.ok = true <;> simp [Call.entry, Call.outcome, Call.completed, Call.result, hc, he]
  | act =>
      rw [hc] at hs
      cases hs
      apply Steps.single (a := .ret) trivial
      simp [row, Entry.step, Call.entry, Call.outcome, Call.completed, Call.result, hc]
  | returned text => rw [hc] at hs; cases hs
  | aborted => rw [hc] at hs; cases hs

/-- The completion of an RPC is the completion of its row. -/
theorem Inv.deliver_entry (h : Inv users w held) {c : CallId} {o : Status} {call : Call}
    (hs : Greeter.deliver (w.calls c) o = some call) :
    (row (users c)).Steps Anything (w.entry c) (call.entry (w.replies c)) := by
  obtain ⟨hpc, hcq, hout⟩ := deliver_cases hs
  have hidle : (w.calls c).net ≠ .idle := by
    have hclient := (h.clients c).2
    rw [hpc] at hclient
    exact hclient.1
  rcases hout with ⟨r, hr, rfl⟩ | ⟨_, rfl⟩
  · have hsettled := h.settled c
    unfold World.Settled at hsettled
    rw [hr] at hsettled
    have hone : w.replies c = [r] := by rw [h.replies_eq, hsettled.1, hsettled.2]; rfl
    apply Steps.single (a := .complete .ok) trivial
    simp [row, Entry.step, World.entry, Call.entry, hone, hpc, hcq, Call.outcome, Call.completed, Call.result]
  · have hphase : (w.calls c).net.phase ≠ .idle := by
      cases hnet : (w.calls c).net with
      | idle => exact absurd hnet hidle
      | _ => simp [Net.phase]
    apply Steps.single (a := .complete .error) trivial
    simp [row, Entry.step, World.entry, Call.entry, hphase, hpc, hcq, Call.outcome, Call.completed, Call.result]

/-- One row moves, the table moves. -/
theorem World.entry_steps {d : CallId} {call : Call} (hc : w'.calls = (w.setCall d call).calls)
    (hf : w'.finishes = w.finishes)
    (hrow : (row (users d)).Steps Anything (w.entry d) (call.entry (w.replies d))) :
    (table users).Steps (familyEnv fun _ => Anything) w.entry w'.entry := by
  rw [World.entry_setCall hc hf]
  exact family_steps_update (M := fun c => row (users c)) (G := fun _ => Anything) hrow rfl

/-- **Refinement.** However clients, dispatch threads and gRPC interleave, they run the table of independent
    calls. -/
theorem refines (n : Nat) (users : CallId → Bytes) :
    Refines (system n users) AllOk (table users) (familyEnv fun _ => Anything) World.entry where
  start := rfl
  step := by
    intro w a w' hr ha hs
    obtain ⟨held, h⟩ := reachable_inv hr
    obtain ⟨hcalls, hsame | ⟨c, p, hnet, hcount, heq, hlog⟩⟩ := h.step_calls ha hs
    · cases a with
      | statement t | new t addr | next t e =>
          -- the statements of the threads are not seen in the table
          apply Steps.of_eq
          funext c
          unfold World.entry
          rw [show w'.calls = w.calls from hcalls, World.replies_congr hsame]
      | arrive p c =>
          obtain ⟨⟨r, hr⟩, hw⟩ := hcalls
          refine World.entry_steps hw hsame (.single (a := .accept) trivial ?_)
          simp [row, Entry.step, World.entry, Call.entry, hr, Net.phase, Call.outcome, Call.completed, Call.result]
      | reply p c r ok =>
          refine World.entry_steps hcalls.2.2 hsame (.of_eq ?_)
          simp [World.entry, Call.entry, hcalls.1, Net.phase, Call.outcome, Call.completed, Call.result]
      | die c => exact World.entry_steps hcalls hsame (.of_eq rfl)
      | client c =>
          obtain ⟨call, hcall, hw⟩ := hcalls
          exact World.entry_steps hw hsame (sayHello_entry (h.clients c) hcall _)
      | deliver c o =>
          obtain ⟨call, hcall, hw⟩ := hcalls
          exact World.entry_steps hw hsame (h.deliver_entry hcall)
    · -- a `Finish` is the reply of its row, and the first one
      rw [World.entry_finish heq hlog]
      have hnil : w.replies c = [] := by rw [h.replies_eq, hcount]; rfl
      refine family_steps_update (M := fun c => row (users c)) (G := fun _ => Anything)
        (.single (a := .finish) trivial ?_) rfl
      simp [row, Entry.step, World.entry, Call.entry, hnet, Net.phase, hnil]

/-- Every row of the system is in agreement. -/
theorem reachable_row (h : (system n users).Reachable AllOk w) (c : CallId) : (w.entry c).Ok (users c) :=
  (refines n users).invariant (P := fun rows => (rows c).Ok (users c)) (fun _ ht => table_ok ht c) h

/-! ## Agreement -/

/-- The one event of a client's own queue has tag 1 and `ok`, so its assertions hold. -/
def Call.Tagged (c : Call) : Prop :=
  (∀ e, c.cq = some e → e = ⟨1, true⟩) ∧
  match c.pc with
  | .assertTag | .assertOk => c.got = some ⟨1, true⟩
  | .aborted => False
  | _ => True

theorem sayHello_tagged {call call' : Call} (h : call.Tagged) (hs : sayHello call = some call') :
    call'.Tagged := by
  obtain ⟨hcq, hpc⟩ := h
  unfold sayHello at hs
  cases hc : call.pc with
  | setName | prepareAsyncSayHello | finish | act => rw [hc] at hs; cases hs; exact ⟨hcq, trivial⟩
  | startCall =>
      rw [hc] at hs
      obtain ⟨r, _, rfl⟩ := Option.map_eq_some_iff.mp hs
      exact ⟨hcq, trivial⟩
  | next =>
      rw [hc] at hs
      obtain ⟨e, he, rfl⟩ := Option.map_eq_some_iff.mp hs
      exact ⟨nofun, congrArg some (hcq e he)⟩
  | assertTag | assertOk =>
      rw [hc] at hs hpc
      obtain ⟨e, he, rfl⟩ := Option.map_eq_some_iff.mp hs
      cases he.symm.trans hpc
      exact ⟨hcq, by first | exact hpc | trivial⟩
  | returned text | aborted => rw [hc] at hs; cases hs

theorem tagged_setCall {d : CallId} {call : Call} (hw : ∀ c, (w.calls c).Tagged) (hcall : call.Tagged)
    (c : CallId) : ((w.setCall d call).calls c).Tagged := by
  by_cases hcd : c = d
  · subst hcd
    simpa [World.setCall] using hcall
  · simpa [World.setCall, hcd] using hw c

/-- No action puts another event into a client's queue. -/
theorem Inv.step_tagged (h : Inv users w held) (hw : ∀ c, (w.calls c).Tagged) {a : Action n} (ha : AllOk w a)
    (hs : Greeter.step w a = some w') : ∀ c, (w'.calls c).Tagged := by
  have hcalls := (h.step_calls ha hs).1
  cases a with
  | statement t | new t addr | next t e =>
      rw [show w'.calls = w.calls from hcalls]
      exact hw
  | arrive p d =>
      rw [hcalls.2]
      exact tagged_setCall hw (hw d)
  | reply p d r ok =>
      rw [hcalls.2.2]
      exact tagged_setCall hw (hw d)
  | die d =>
      rw [show w'.calls = _ from hcalls]
      exact tagged_setCall hw (hw d)
  | client d =>
      obtain ⟨call, hcall, hset⟩ := hcalls
      rw [hset]
      exact tagged_setCall hw (sayHello_tagged (hw d) hcall)
  | deliver d o =>
      obtain ⟨call, hcall, hset⟩ := hcalls
      rw [hset]
      apply tagged_setCall hw
      obtain ⟨hpc, _, ⟨r, _, rfl⟩ | ⟨_, rfl⟩⟩ := deliver_cases hcall
      all_goals
        constructor
        · rintro e ⟨rfl⟩
          rfl
        · rw [hpc]
          trivial

/-- Every client's events are its own, in every reachable state. -/
theorem reachable_tagged (h : (system n users).Reachable AllOk w) (c : CallId) : (w.calls c).Tagged := by
  have hstart : ∀ d, ((World.init n users).calls d).Tagged := by
    intro d
    constructor
    · rintro e ⟨⟩
    · trivial
  have hall : ∀ d, (w.calls d).Tagged := by
    apply h.invariant (I := fun w => ∀ d, (w.calls d).Tagged) hstart
    intro v a v' hr hv ha hs
    obtain ⟨held, hi⟩ := reachable_inv hr
    exact hi.step_tagged hv ha hs
  exact hall c

/-- What a `CallData` holds of a request and of a reply: nothing before a call was accepted, and afterwards
    only what belongs to that call. -/
def CallData.Own (users : CallId → Bytes) (o : CallData) : Prop :=
  match o.responder_ with
  | none   => o.request_ = {} ∧ o.reply_ = {}
  | some c => o.request_ = ⟨users c⟩ ∧ (o.reply_ = {} ∨ o.reply_ = ⟨greeting (users c)⟩)

theorem Stage.object_own (s : Stage) (u : Nat) : (s.object users u).Own users := by
  cases s <;> simp [Stage.object, CallData.Own]

/-- **End-to-end agreement** of clients and server. -/
structure Agreement (users : CallId → Bytes) (w : World n) : Prop where
  /-- The calls are rows of the table that no other row interferes with. -/
  table    : (table users).Reachable (familyEnv fun _ => Anything) w.entry
  /-- A call is answered once at most, and only if it was accepted. -/
  once     : ∀ c, w.finishCount c ≤ 1 ∧ (w.finishCount c = 1 → (w.calls c).net.phase = .accepted)
  /-- Every answer is the greeting of the call it goes to. -/
  own      : ∀ x ∈ w.finishes, x.2 = ⟨greeting (users x.1)⟩
  /-- The client sees its own reply or none, -/
  observed : ∀ c, (w.calls c).reply = {} ∨ (w.calls c).reply = ⟨greeting (users c)⟩
  /-- and `SayHello` returns what its status says. -/
  returned : ∀ c text, (w.calls c).pc = .returned text →
               text = if (w.calls c).status = .ok then greeting (users c) else rpcFailed
  /-- No `GPR_ASSERT` fails, of the server or of a client. -/
  asserts  : w.mode = .running ∧ ∀ c, (w.calls c).pc ≠ .aborted
  /-- A `CallData` carries nothing over from another call. -/
  objects  : ∀ a o, w.heap a = some o → o.Own users
  /-- Left to itself, the server comes to rest, -/
  drains   : ∀ k v, (system n users).StepsN ServerOk k w v → k ≤ w.rank
  /-- and then every call it accepted has had its one `Finish`. -/
  answered : ∀ v, (system n users).Steps ServerOk w v → (system n users).Stuck ServerOk v →
               ∀ c, (w.calls c).net.begun → v.finishCount c = 1 ∧ (v.calls c).net = .replied ⟨greeting (users c)⟩

theorem Action.isThread.serverOk {a : Action n} (ha : a.isThread) : ServerOk w a := ⟨ha.isServer, ha.allOk⟩

/-- **Agreement of `GreeterClient` and `ServerImpl`.** For every finite or infinite set of calls with arbitrary
    names, any number of dispatch loops and every order of arrivals and completions. -/
theorem agreement (n : Nat) (hn : 0 < n) (users : CallId → Bytes) (w : World n)
    (h : (system n users).Reachable AllOk w) : Agreement users w where
  table := (refines n users).reachable h
  once := by
    intro c
    obtain ⟨held, hi⟩ := reachable_inv h
    have hrow := reachable_row h c
    have hlen : (w.replies c).length = w.finishCount c := by rw [hi.replies_eq, List.length_replicate]
    constructor
    · rcases hrow.once with hnil | hone
      · rw [← hlen, show w.replies c = _ from hnil]
        exact Nat.zero_le 1
      · rw [← hlen, show w.replies c = _ from hone]
        exact Nat.le_refl 1
    · intro hone
      apply hrow.accepted
      intro hnil
      rw [← hlen, show w.replies c = _ from hnil] at hone
      cases hone
  own := by
    obtain ⟨held, hi⟩ := reachable_inv h
    exact hi.finishes
  observed := by
    intro c
    exact (reachable_row h c).own
  returned := by
    intro c text hpc
    have hrow := reachable_row h c
    obtain ⟨s, hout, htext⟩ := hrow.result text (by simp [World.entry, Call.entry, Call.result, hpc])
    have hstatus : (w.calls c).outcome = some (w.calls c).status := by
      simp [Call.outcome, Call.completed, hpc]
    cases hstatus.symm.trans hout
    exact htext
  asserts := by
    obtain ⟨held, hi⟩ := reachable_inv h
    refine ⟨hi.running, ?_⟩
    intro c hpc
    have htag := (reachable_tagged h c).2
    rw [hpc] at htag
    exact htag
  objects := by
    intro a o ho
    obtain ⟨held, hi⟩ := reachable_inv h
    obtain ⟨k, _, _, hval⟩ := hi.objects.exists_holder ho
    exact hval.1 ▸ k.stage.object_own k.ptr.serial
  drains := by
    intro k v hk
    obtain ⟨held, hi⟩ := reachable_inv h
    have := hi.drain_bound hk
    omega
  answered := by
    intro v hs hstuck c hc
    obtain ⟨held, hi⟩ := reachable_inv h
    obtain ⟨⟨held', hi'⟩, hbegun⟩ := hi.steps_begun (hs.mono fun _ _ ha => ha.2) hc
    have hrest := hi'.atRest (fun _ ha => ha.serverOk) (fun p c r _ => ⟨true, trivial, rfl⟩) hstuck ⟨0, hn⟩
    exact (hi'.answered hrest hbegun).symm

/-- Two calls overlap on the threads `t` and `u`: the one that was sent second is accepted first, each is served
    by the thread that did not arm its object, and the first one gets its answer. -/
def overlap (t u : Fin n) : List (Action n) :=
  [.new t 7, .statement t, .statement t, .statement t, .new u 8, .statement u, .statement u, .statement u,
    .client 0, .client 0, .client 0, .client 1, .client 1, .client 1, .arrive ⟨7, 0⟩ 1, .arrive ⟨8, 1⟩ 0,
    .next u ⟨⟨7, 0⟩, .request 1, true⟩, .next t ⟨⟨8, 1⟩, .request 0, true⟩, .statement u, .statement u, .statement u,
    .statement t, .statement t, .statement t, .new u 9, .new t 10, .statement t, .statement t, .statement t,
    .statement u, .statement u, .statement u, .statement u, .statement u, .statement u, .statement t, .statement t,
    .statement t, .reply ⟨8, 1⟩ 0 ⟨greeting [65]⟩ true, .reply ⟨7, 0⟩ 1 ⟨greeting [66]⟩ true, .client 0, .deliver 0 .ok,
    .client 0, .client 0, .client 0, .client 0]

theorem agreement_overlap :
    ∃ h : ((system 2 fun c => if c = 0 then [65] else [66]).exec AllOk
        (World.init 2 fun c => if c = 0 then [65] else [66]) (overlap 0 1)).isSome,
      ((Option.get _ h).calls 0).pc = .returned (helloPrefix ++ [65]) ∧
      Agreement (fun c => if c = 0 then [65] else [66]) (Option.get _ h) :=
  ⟨rfl, rfl, agreement 2 Nat.two_pos _ _ (reachable_get rfl)⟩

end AsyncCpp.Greeter
