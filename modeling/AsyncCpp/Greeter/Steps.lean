import AsyncCpp.Greeter.Ownership

/-!
# `Greeter.Steps` — every step keeps the ownership invariant

One lemma per statement or action, in the order in which a `CallData` goes through them, then `Inv.step`,
which dispatches on the action, and `reachable_inv`, by induction on the run.
-/

namespace AsyncCpp.Greeter

open Finset

variable {n : Nat} {users : CallId → Bytes} {w w' : World n} {held : Fin n → Multiset Token} {t : Fin n}

/-! ## Using an object -/

@[simp] theorem Stage.object_serial (s : Stage) (u : Nat) : (s.object users u).serial = u := by
  cases s <;> rfl

@[simp] theorem Event.token_ptr (e : Event) : e.token.ptr = e.tag := by
  unfold Event.token
  cases e.answers <;> rfl

/-- The holder of a token finds the object that its stage promises. -/
theorem Inv.heap_eq (h : Inv users w held) {k : Token} (hk : k ∈ w.tokens held) :
    w.heap k.ptr.addr = some (k.stage.object users k.ptr.serial) := by
  obtain ⟨o, ho, hval⟩ := h.objects.get hk rfl
  rw [ho, hval.1]

/-- **No use after free.** What a holder does to its object is done to the object. -/
theorem Inv.access_eq (h : Inv users w held) {k : Token} (hk : k ∈ w.tokens held)
    (use : CallData → World n) : w.access k.ptr use = use (k.stage.object users k.ptr.serial) := by
  unfold World.access World.deref
  rw [h.heap_eq hk]
  simp [Option.filter]

/-- What thread `t` holds is among the tokens. -/
theorem mem_tokens_of_held {k : Token} (hk : k ∈ held t) : k ∈ w.tokens held := by
  rw [World.tokens_eq w held t]
  exact Multiset.mem_add.mpr (Or.inl hk)

/-- An outstanding operation is a token. -/
theorem mem_tokens_of_op {o : Op} (ho : o ∈ w.ops) : o.token ∈ w.tokens held :=
  Multiset.mem_add.mpr (.inr (Multiset.mem_add.mpr (.inl (Multiset.mem_map_of_mem Op.token ho))))

/-- The tokens, with the one of the moving thread in front. -/
theorem tokens_cons {k : Token} {C : Multiset Token} (hheld : held t = k ::ₘ C) :
    w.tokens held = k ::ₘ (C + w.others held t) := by
  rw [World.tokens_eq w held t, hheld, Multiset.cons_add]

/-! ## Tests -/

/-- A statement that only reads moves the thread on, and the token says what was read. -/
theorem Inv.read (h : Inv users w held) {k k' : Token} {C : Multiset Token} {th : Thread}
    (hheld : held t = k ::ₘ C) (hframe : Frame th (k' ::ₘ C)) (hptr : k'.ptr = k.ptr)
    (hcall : k'.stage.call = k.stage.call) (hcount : k'.stage.finishCount = k.stage.finishCount)
    (hacc : k'.stage.isAcceptor = k.stage.isAcceptor) (howes : th.owes = (w.threads t).owes)
    (hevent : th.event = (w.threads t).event)
    (hval : ∀ o, Token.Valid users o k → Token.Valid users o k') :
    Inv users (w.setThread t th) (Function.update held t (k' ::ₘ C)) := by
  have hobjects := h.objects
  rw [tokens_cons hheld] at hobjects
  exact h.quiet hheld hframe hptr hcall hcount hacc howes hevent
    (hobjects.pass (congrArg (fun p : Ptr => some p.addr) hptr) hval)

/-- A statement that writes the object moves the thread and the token on. -/
theorem Inv.write (h : Inv users w held) {k k' : Token} {C : Multiset Token} {th : Thread}
    (hheld : held t = k ::ₘ C) (hframe : Frame th (k' ::ₘ C)) (hptr : k'.ptr = k.ptr)
    (hcall : k'.stage.call = k.stage.call) (hcount : k'.stage.finishCount = k.stage.finishCount)
    (hacc : k'.stage.isAcceptor = k.stage.isAcceptor) (howes : th.owes = (w.threads t).owes)
    (hevent : th.event = (w.threads t).event) (hreply : k'.stage.ReplyOk users) {o : CallData}
    (ho : o = k'.stage.object users k.ptr.serial) :
    Inv users ((w.put k.ptr o).setThread t th) (Function.update held t (k' ::ₘ C)) := by
  have hobjects := h.objects
  rw [tokens_cons hheld] at hobjects
  refine h.quiet hheld hframe hptr hcall hcount hacc howes hevent
    (hobjects.write (k := k.ptr.addr) rfl (congrArg (fun p : Ptr => some p.addr) hptr) ⟨?_, hreply⟩)
  rw [ho, hptr]

/-! ## Issuing an operation -/

/-- **Issue.** The token goes from the thread to the operation; `F` is the log of `Finish` afterwards. -/
theorem Inv.issue (h : Inv users w held) {k : Token} {C : Multiset Token} {th : Thread} {o : Op}
    {F : List (CallId × HelloReply)} (hheld : held t = k ::ₘ C) (hframe : Frame th C)
    (hptr : o.token.ptr = k.ptr) (hacc : o.token.stage.isAcceptor = k.stage.isAcceptor)
    (howes : th.owes = (w.threads t).owes) (hevent : th.event = (w.threads t).event)
    (hval : ∀ ob, Token.Valid users ob k → Token.Valid users ob o.token)
    (hcalls : Linear Token.call Token.Serves ({ w with finishes := F } : World n).serving
      (o.token ::ₘ (C + w.others held t)))
    (hsettled : ∀ c, ({ w with finishes := F } : World n).Settled users c)
    (hfinishes : ∀ x ∈ F, x.2 = ⟨greeting (users x.1)⟩) :
    Inv users ((({ w with finishes := F } : World n).issue o).setThread t th) (Function.update held t C) := by
  have htok' : ((({ w with finishes := F } : World n).issue o).setThread t th).tokens
      (Function.update held t C) = o.token ::ₘ (C + w.others held t) := by
    rw [World.tokens_setThread]
    simp [World.others, World.queued, World.issue]
  have hobjects := h.objects
  have hserials := h.serials
  have hacceptors := h.acceptors
  rw [tokens_cons hheld] at hobjects hserials hacceptors
  refine ⟨h.running, frames_update h.frames hframe, ?_, by rw [htok']; exact hcalls, ?_, ?_, h.eventsOk,
    h.clients, hsettled, hfinishes, event_update h.delivered (fun e he => h.delivered t e (hevent ▸ he)),
    h.deleted⟩
  · rw [htok']
    exact hobjects.pass (congrArg (fun p : Ptr => some p.addr) hptr) hval
  · rw [htok']
    exact hserials.pass (congrArg (fun p : Ptr => some p.serial) hptr) fun _ _ => trivial
  · rw [htok']
    have hsum := World.owes_setThread (w := w) (t := t) th
    rw [Multiset.countP_cons] at hacceptors ⊢
    rw [hacc]
    show _ + w.events.countP _ + ∑ u, ((w.setThread t th).threads u).owes = n
    omega

/-- `RequestSayHello` hands the object to gRPC. -/
theorem Inv.requestSayHello (h : Inv users w held) {p : Ptr} {cs e T} (hC : Caller cs e T)
    (hth : w.threads t = ⟨.requestSayHello p, cs, e⟩) (hheld : held t = ⟨p, .arming⟩ ::ₘ T) :
    Inv users ((w.issue (.requestSayHello p)).setThread t (w.threads t).ret) (Function.update held t T) := by
  have hcalls := h.calls
  rw [tokens_cons hheld] at hcalls
  refine h.issue (o := .requestSayHello p) hheld (by rw [hth]; exact Frame.ret hC rfl) rfl rfl ?_ ?_
    (fun _ hv => hv) (hcalls.pass rfl fun _ hv => hv) h.settled h.finishes
  · rw [hth]
    cases hC <;> rfl
  · rw [hth]
    cases hC <;> rfl

@[simp] theorem World.finishCount_logFinish_self (c : CallId) (r : HelloReply) :
    (w.logFinish c r).finishCount c = w.finishCount c + 1 :=
  List.countP_cons_of_pos (by simp)

@[simp] theorem World.finishCount_logFinish_ne {c c' : CallId} (hc : c' ≠ c) (r : HelloReply) :
    (w.logFinish c r).finishCount c' = w.finishCount c' :=
  List.countP_cons_of_neg (by simpa using fun h : c = c' => hc h.symm)

/-- What is known of a call in service. -/
theorem World.serving_eq_some {c : CallId} {p : Ptr} {m : Nat} (h : w.serving c = some (p, m)) :
    (w.calls c).net = .accepted p ∧ w.finishCount c = m := by
  unfold World.serving at h
  split at h
  · next q hq =>
    cases h
    exact ⟨hq, rfl⟩
  · exact absurd h (by simp)

/-- The call in service has one more `Finish`. -/
theorem World.serving_logFinish {c : CallId} {p : Ptr} {m : Nat} (h : w.serving c = some (p, m)) (r : HelloReply) :
    (w.logFinish c r).serving = Function.update w.serving c (some (p, m + 1)) := by
  obtain ⟨hnet, hm⟩ := World.serving_eq_some h
  funext c'
  by_cases hcc : c' = c
  · subst hcc
    rw [Function.update_self]
    unfold World.serving
    rw [World.finishCount_logFinish_self, hm, show ((w.logFinish c' r).calls c').net = _ from hnet]
  · rw [Function.update_of_ne hcc]
    unfold World.serving
    rw [World.finishCount_logFinish_ne hcc]
    rfl

/-- `Finish` hands the object and the reply to gRPC, and the call has its one `Finish`. -/
theorem Inv.finish (h : Inv users w held) {q : Ptr} {c : CallId}
    (hth : w.threads t = ⟨.finish q, [], some ⟨q, .request c, true⟩⟩) (hheld : held t = {⟨q, .finishing c⟩}) :
    Inv users (((w.logFinish c ⟨greeting (users c)⟩).issue (.finish q c ⟨greeting (users c)⟩)).setThread t
      (w.threads t).ret) (Function.update held t 0) := by
  have hheld' : held t = ⟨q, .finishing c⟩ ::ₘ 0 := hheld
  have hcalls := h.calls
  rw [tokens_cons hheld'] at hcalls
  obtain ⟨v, hv, hserves⟩ := hcalls.get (Multiset.mem_cons_self _ _) (k := c) rfl
  have hserving : w.serving c = some (q, 0) := by rw [hv, hserves]; rfl
  refine h.issue (o := .finish q c ⟨greeting (users c)⟩) hheld' (by rw [hth]; exact .next) rfl rfl
    (by rw [hth]; rfl) (by rw [hth]; rfl) (fun ob hob => ⟨hob.1, rfl⟩) ?_ ?_ ?_
  · exact World.serving_logFinish hserving _ ▸ hcalls.write (k := c) rfl rfl rfl
  · intro c'
    have hs := h.settled c'
    by_cases hcc : c' = c
    · subst hcc
      unfold World.Settled
      rw [show (({ w with finishes := _ } : World n).calls c').net = _ from (World.serving_eq_some hserving).1]
      trivial
    · unfold World.Settled at hs ⊢
      rw [← World.finishCount_logFinish_ne hcc ⟨greeting (users c)⟩] at hs
      exact hs
  · intro x hx
    rcases List.mem_cons.mp hx with rfl | hx
    · rfl
    · exact h.finishes x hx

/-! ## Deletion and construction -/

/-- `delete this` gives up the object. Its serial leaves the ledger, and the event that led here was the
    one of its own `Finish`. -/
theorem Inv.delete (h : Inv users w held) {q : Ptr} {c : CallId}
    (hth : w.threads t = ⟨.delete q, [], some ⟨q, .finish c, true⟩⟩) (hheld : held t = {⟨q, .answered c⟩}) :
    Inv users ((w.free q).setThread t (w.threads t).ret) (Function.update held t 0) := by
  have hheld' : held t = ⟨q, .answered c⟩ ::ₘ 0 := hheld
  have htok' : ((w.free q).setThread t (w.threads t).ret).tokens (Function.update held t 0)
      = 0 + w.others held t := by
    rw [World.tokens_setThread]
    rfl
  have hobjects := h.objects
  have hcalls := h.calls
  have hserials := h.serials
  have hacceptors := h.acceptors
  rw [tokens_cons hheld'] at hobjects hcalls hserials hacceptors
  have hledger : (w.free q).ledger = Function.update w.ledger q.serial none := by
    funext u
    unfold World.ledger World.free
    by_cases hu : u = q.serial
    · subst hu
      simp
    · simp [hu]
  obtain ⟨_, hin, _⟩ := hserials.get (Multiset.mem_cons_self _ _) (k := q.serial) rfl
  have hlive : q.serial < w.created ∧ q.serial ∉ w.deleted := by
    unfold World.ledger at hin
    split at hin
    · assumption
    · exact absurd hin (by simp)
  have hret : (w.threads t).ret = ⟨.next, [], some ⟨q, .finish c, true⟩⟩ := by rw [hth]; rfl
  refine ⟨h.running, frames_update h.frames (by rw [hret]; exact .next), ?_, ?_, ?_, ?_, h.eventsOk, h.clients,
    h.settled, h.finishes, event_update h.delivered (fun e he => h.delivered t e ?_), ?_, ?_⟩
  · rw [htok']
    exact hobjects.free rfl
  · rw [htok']
    exact (Linear.cons_keyless rfl).mp hcalls
  · rw [htok']
    exact hledger ▸ hserials.free rfl
  · rw [htok']
    have hsum := World.owes_setThread (w := w) (t := t) (w.threads t).ret
    have hold : (w.threads t).owes = 0 := by rw [hth]; rfl
    have hnew : (w.threads t).ret.owes = 0 := by rw [hret]; rfl
    rw [Multiset.countP_cons_of_neg _ (by simp [Stage.isAcceptor])] at hacceptors
    show _ + w.events.countP _ + ∑ u, ((w.setThread t (w.threads t).ret).threads u).owes = n
    omega
  · rw [hret] at he
    rw [hth]
    exact he
  · exact List.nodup_cons.mpr ⟨hlive.2, h.deleted.1⟩
  · intro u hu
    rcases List.mem_cons.mp hu with rfl | hu
    · exact ⟨hlive.1, _, h.delivered t _ (by rw [hth]), rfl, rfl⟩
    · exact h.deleted.2 u hu

/-- `new CallData` brings an object with a fresh serial, which its thread holds. -/
theorem Inv.construct (h : Inv users w held) {addr : Nat} (hpc : (w.threads t).pc = .new)
    (hfree : w.heap addr = none) :
    (∃ held', Inv users (w.construct t addr) held') ∧ (w.construct t addr).rank < w.rank := by
  have hframe := h.frames t
  generalize hth : w.threads t = th at hframe hpc
  generalize hT : held t = T at hframe
  cases hframe with
  | new hC =>
      rename_i cs e
      have htok' : (w.construct t addr).tokens
          (Function.update held t (⟨⟨addr, w.created⟩, .created⟩ ::ₘ T))
            = ⟨⟨addr, w.created⟩, .created⟩ ::ₘ w.tokens held := by
        unfold World.construct
        rw [World.tokens_setThread, World.tokens_eq w held t, hT, Multiset.cons_add]
        rfl
      have hledger : (w.construct t addr).ledger = Function.update w.ledger w.created (some ()) := by
        funext u
        unfold World.ledger World.construct
        by_cases hu : u = w.created
        · subst hu
          have hnot : w.created ∉ w.deleted := by
            intro hmem
            exact absurd (h.deleted.2 _ hmem).1 (Nat.lt_irrefl _)
          simp [World.setThread, hnot]
        · have hiff : u < w.created + 1 ↔ u < w.created := by omega
          simp [World.setThread, hu, hiff]
      have hrank : (w.construct t addr).rank < w.rank :=
        World.rank_goto (w := { w with heap := Function.update w.heap addr (some { serial := w.created }),
                                       created := w.created + 1 }) _ (by
          rw [show ({ w with heap := _, created := _ } : World n).threads t = _ from hth]
          cases hC <;> simp [Thread.rank, Thread.goto, Thread.resume])
      refine ⟨⟨Function.update held t (⟨⟨addr, w.created⟩, .created⟩ ::ₘ T), h.running,
        frames_update h.frames (by rw [hth]; exact .created hC), ?_, ?_, ?_, ?_, h.eventsOk, h.clients,
        h.settled, h.finishes, event_update h.delivered (fun e he => h.delivered t e he), h.deleted.1, ?_⟩, hrank⟩
      · rw [htok']
        exact h.objects.alloc hfree rfl ⟨rfl, trivial⟩
      · rw [htok']
        exact (Linear.cons_keyless rfl).mpr h.calls
      · rw [htok', hledger]
        exact h.serials.alloc (by simp [World.ledger]) rfl trivial
      · rw [htok', Multiset.countP_cons_of_pos _ (by simp [Stage.isAcceptor])]
        have hsum := World.owes_setThread (w := w) (t := t) ((w.threads t).goto (.testCreate ⟨addr, w.created⟩))
        have hold : (w.threads t).owes = 1 := by rw [hth]; rfl
        have hnew : ((w.threads t).goto (.testCreate ⟨addr, w.created⟩)).owes = 0 := by
          rw [hth]
          cases hC <;> rfl
        have := h.acceptors
        show _ + 1 + w.events.countP _ + ∑ u, ((w.setThread t _).threads u).owes = n
        omega
      · intro u hu
        obtain ⟨hlt, he⟩ := h.deleted.2 u hu
        exact ⟨Nat.lt_succ_of_lt hlt, he⟩
  | _ => cases hpc

/-! ## The queue -/

/-- `Next` gives the token of an event to the thread. -/
theorem Inv.next (h : Inv users w held) {e : Event} (hpc : (w.threads t).pc = .next) (he : e ∈ w.events) :
    ∃ held', Inv users (w.next t e) held' := by
  have hframe := h.frames t
  generalize hth : w.threads t = th at hframe hpc
  generalize hT : held t = T at hframe
  cases hframe with
  | next =>
      have hok : e.ok = true := h.eventsOk e he
      have hnext : w.next t e = ({ w with events := w.events.erase e, delivered := e :: w.delivered } :
          World n).setThread t ⟨.assertOk, [], some e⟩ := by
        unfold World.next
        rw [hth]
      have htok : w.tokens held
          = e.token ::ₘ (({ w with events := w.events.erase e, delivered := e :: w.delivered } :
              World n).others held t) := by
        have hsplit : w.events.map Event.token = e.token ::ₘ (w.events.erase e).map Event.token := by
          rw [← Multiset.map_cons, Multiset.cons_erase he]
        rw [World.tokens_eq w held t, hT, zero_add]
        unfold World.others World.queued
        rw [hsplit, Multiset.add_cons, Multiset.add_cons]
      have htok' : (w.next t e).tokens (Function.update held t {e.token}) = w.tokens held := by
        rw [hnext, World.tokens_setThread, htok]
        rfl
      refine ⟨Function.update held t {e.token}, ?_⟩
      have hacceptors := h.acceptors
      rw [← Multiset.cons_erase he, Multiset.countP_cons] at hacceptors
      rw [← htok'] at hacceptors
      have hsum := World.owes_setThread (w := w) (t := t) ⟨.assertOk, [], some e⟩
      have hold : (w.threads t).owes = 0 := by rw [hth]; rfl
      have hnew : (⟨.assertOk, [], some e⟩ : Thread).owes = if e.isRequest = true then 1 else 0 := by
        simp [Thread.owes]
      refine ⟨h.running, ?_, htok' ▸ h.objects, htok' ▸ h.calls, htok' ▸ h.serials, ?_, ?_, h.clients, h.settled,
        h.finishes, ?_, h.deleted.1, ?_⟩
      · rw [hnext]
        exact frames_update (w := { w with events := _, delivered := _ }) h.frames (.assertOk hok)
      · rw [hnext] at hacceptors ⊢
        show _ + (w.events.erase e).countP _ + ∑ u, ((w.setThread t _).threads u).owes = n
        omega
      · exact fun e' he' => h.eventsOk e' (Multiset.mem_of_mem_erase he')
      · rw [hnext]
        refine event_update (w := { w with events := _, delivered := _ }) ?_ ?_
        · intro u e' he'
          exact List.mem_cons_of_mem _ (h.delivered u e' he')
        · rintro e' ⟨rfl⟩
          exact List.mem_cons_self
      · intro u hu
        obtain ⟨hlt, e', he', hser, hreq⟩ := h.deleted.2 u hu
        exact ⟨hlt, e', List.mem_cons_of_mem _ he', hser, hreq⟩
  | _ => cases hpc

/-! ## gRPC -/

/-- The calls after one of them has moved on at gRPC. -/
def World.setNet (w : World n) (c : CallId) (net : Net) : World n :=
  w.setCall c { w.calls c with net := net }

/-- A call past `StartCall` keeps what is known of it when gRPC moves it on. -/
theorem Call.Ok.setNet {user : Bytes} {call : Call} (h : call.Ok user) (hidle : call.net ≠ .idle) {net : Net}
    (hnet : net ≠ .idle) (hsent : ∀ r, net ≠ .sent r) : ({ call with net := net } : Call).Ok user := by
  obtain ⟨hu, hpc⟩ := h
  refine ⟨hu, ?_⟩
  split at hpc
  · exact absurd hpc.2 hidle
  · exact absurd hpc.2 hidle
  · exact absurd hpc.2 hidle
  · exact ⟨hnet, fun r hr => absurd hr (hsent r)⟩

/-- The request of a call that waits for an acceptor carries the call's own name. -/
theorem Call.Ok.sent_eq {user : Bytes} {call : Call} (h : call.Ok user) {r : HelloRequest}
    (hr : call.net = .sent r) : r = ⟨user⟩ := by
  obtain ⟨_, hpc⟩ := h
  split at hpc
  · exact absurd (hpc.2.symm.trans hr) (by simp)
  · exact absurd (hpc.2.symm.trans hr) (by simp)
  · exact absurd (hpc.2.symm.trans hr) (by simp)
  · exact hpc.2 r hr

/-- The clients' calls, after gRPC moved one of them on. -/
theorem clients_setNet (h : ∀ c, (w.calls c).Ok (users c)) {c : CallId} (hidle : (w.calls c).net ≠ .idle)
    {net : Net} (hnet : net ≠ .idle) (hsent : ∀ r, net ≠ .sent r) (c' : CallId) :
    ((w.setNet c net).calls c').Ok (users c') := by
  by_cases hcc : c' = c
  · subst hcc
    simpa [World.setNet, World.setCall] using (h c').setNet hidle hnet hsent
  · simpa [World.setNet, World.setCall, hcc] using h c'

/-- Where a call stands, after one of them moved on at gRPC. -/
theorem settled_setNet (h : ∀ c, w.Settled users c) {c : CallId} {net : Net}
    (hc : (w.setNet c net).Settled users c) (c' : CallId) : (w.setNet c net).Settled users c' := by
  by_cases hcc : c' = c
  · exact hcc ▸ hc
  · have hcall : (w.setNet c net).calls c' = w.calls c' := by simp [World.setNet, World.setCall, hcc]
    have h' := h c'
    unfold World.Settled at h' ⊢
    rw [hcall]
    exact h'

/-- The calls in service, when one more is. -/
theorem World.serving_setNet_accepted (c : CallId) (p : Ptr) :
    (w.setNet c (.accepted p)).serving = Function.update w.serving c (some (p, w.finishCount c)) := by
  funext c'
  by_cases hcc : c' = c
  · subst hcc
    simp [World.serving, World.setNet, World.setCall, World.finishCount]
  · simp [World.serving, World.setNet, World.setCall, World.finishCount, hcc]

/-- The calls in service, when one no longer is. -/
theorem World.serving_setNet_other (c : CallId) {net : Net} (hnet : ∀ p, net ≠ .accepted p) :
    (w.setNet c net).serving = Function.update w.serving c none := by
  funext c'
  by_cases hcc : c' = c
  · subst hcc
    rw [Function.update_self]
    unfold World.serving World.setNet World.setCall
    -- the match falls through to its last case, which `hnet` discharges
    simp only [Function.update_self]
  · simp [World.serving, World.setNet, World.setCall, World.finishCount, hcc]

/-- **A token moves from an outstanding operation to its event.** -/
theorem tokens_op_event (held : Fin n → Multiset Token) {o : Op} (e : Event) (ho : o ∈ w.ops) (w' : World n)
    (hops : w'.ops = w.ops.erase o) (hevents : w'.events = e ::ₘ w.events) :
    ∃ R, w.tokens held = o.token ::ₘ R ∧ w'.tokens held = e.token ::ₘ R := by
  have hsplit : w.ops.map Op.token = o.token ::ₘ (w.ops.erase o).map Op.token := by
    rw [← Multiset.map_cons, Multiset.cons_erase ho]
  -- all tokens but the one that moves
  refine ⟨∑ u, held u + ((w.ops.erase o).map Op.token + w.events.map Event.token), ?_, ?_⟩
  · unfold World.tokens World.queued
    rw [hsplit, Multiset.cons_add, Multiset.add_cons]
  · unfold World.tokens World.queued
    rw [hops, hevents, Multiset.map_cons, Multiset.add_cons, Multiset.add_cons]

/-- **Arrival.** The object becomes the one that serves call `c`: its `request_` is the name of `c`. -/
theorem Inv.arrive (h : Inv users w held) {p : Ptr} {c : CallId} {r : HelloRequest}
    (hnet : (w.calls c).net = .sent r) (hop : .requestSayHello p ∈ w.ops) : Inv users (w.arrive p c r) held := by
  have hr : r = ⟨users c⟩ := (h.clients c).sent_eq hnet
  subst hr
  have hmem : (⟨p, .armed⟩ : Token) ∈ w.tokens held := mem_tokens_of_op hop
  have harrive := h.access_eq hmem fun o =>
    { (w.put p { o with request_ := ⟨users c⟩, responder_ := some c }).setNet c (.accepted p) with
        ops := w.ops.erase (.requestSayHello p)
        events := ⟨p, .request c, true⟩ ::ₘ w.events }
  change w.arrive p c ⟨users c⟩ = _ at harrive
  rw [harrive]
  obtain ⟨R, htok, htok'⟩ := tokens_op_event held ⟨p, .request c, true⟩ hop
    { (w.put p { (Stage.armed.object users p.serial) with request_ := ⟨users c⟩, responder_ := some c }).setNet c
        (.accepted p) with
      ops := w.ops.erase (.requestSayHello p)
      events := ⟨p, .request c, true⟩ ::ₘ w.events } rfl rfl
  have hidle : (w.calls c).net ≠ .idle := by rw [hnet]; simp
  have hcount : w.finishCount c = 0 := by
    have hs := h.settled c
    unfold World.Settled at hs
    rw [hnet] at hs
    exact hs
  have hserving : w.serving c = none := by
    unfold World.serving
    rw [hnet]
  have hobjects := h.objects
  have hcalls := h.calls
  have hserials := h.serials
  have hacceptors := h.acceptors
  rw [htok] at hobjects hcalls hserials hacceptors
  refine ⟨h.running, h.frames, ?_, ?_, ?_, ?_, ?_, clients_setNet h.clients hidle (by simp) (by simp),
    settled_setNet h.settled ?_, h.finishes, h.delivered, h.deleted⟩
  · rw [htok']
    exact hobjects.write (k := p.addr) rfl rfl ⟨rfl, trivial⟩
  · -- the call has been nobody's so far, and is now the object's
    rw [htok']
    have hcalls' := ((Linear.cons_keyless rfl).mp hcalls).alloc (t := ⟨p, .arrived c⟩) (v := (p, 0)) hserving rfl rfl
    exact (hcount ▸ World.serving_setNet_accepted (w := w) c p) ▸ hcalls'
  · rw [htok']
    exact hserials.pass rfl fun _ _ => trivial
  · rw [htok']
    rw [Multiset.countP_cons_of_pos _ (by simp [Op.token, Stage.isAcceptor])] at hacceptors
    rw [Multiset.countP_cons_of_neg _ (by simp [Event.token, Stage.isAcceptor])]
    show _ + (_ ::ₘ w.events).countP _ + _ = n
    rw [Multiset.countP_cons_of_pos _ (by simp [Event.isRequest])]
    show _ + _ + ∑ u, (w.threads u).owes = n
    omega
  · intro e he
    rcases Multiset.mem_cons.mp he with rfl | he
    · rfl
    · exact h.eventsOk e he
  · unfold World.Settled
    simp [World.setNet, World.setCall]

/-- **A reply goes to the wire**: the call leaves service with its one reply. -/
theorem Inv.reply (h : Inv users w held) {p : Ptr} {c : CallId} {r : HelloReply} (hop : .finish p c r ∈ w.ops) :
    Inv users (w.reply p c r true) held ∧ (w.reply p c r true).rank < w.rank := by
  have hmem : (⟨p, .replying c r⟩ : Token) ∈ w.tokens held := mem_tokens_of_op hop
  have hreply := h.access_eq hmem fun _ =>
    { w.setNet c (.replied r) with
        ops := w.ops.erase (.finish p c r)
        events := ⟨p, .finish c, true⟩ ::ₘ w.events }
  change w.reply p c r true = _ at hreply
  rw [hreply]
  obtain ⟨R, htok, htok'⟩ := tokens_op_event held ⟨p, .finish c, true⟩ hop
    { w.setNet c (.replied r) with
      ops := w.ops.erase (.finish p c r)
      events := ⟨p, .finish c, true⟩ ::ₘ w.events } rfl rfl
  have hobjects := h.objects
  have hcalls := h.calls
  have hserials := h.serials
  have hacceptors := h.acceptors
  rw [htok] at hobjects hcalls hserials hacceptors
  obtain ⟨o, _, hval⟩ := hobjects.get (Multiset.mem_cons_self _ _) (k := p.addr) rfl
  obtain ⟨v, hv, hserves⟩ := hcalls.get (Multiset.mem_cons_self _ _) (k := c) rfl
  have hserving : w.serving c = some (p, 1) := by rw [hv, hserves]; rfl
  obtain ⟨hnet, hcount⟩ := World.serving_eq_some hserving
  have hidle : (w.calls c).net ≠ .idle := by rw [hnet]; simp
  refine ⟨⟨h.running, h.frames, ?_, ?_, ?_, ?_, ?_, clients_setNet h.clients hidle (by simp) (by simp),
    settled_setNet h.settled ?_, h.finishes, h.delivered, h.deleted⟩, World.rank_reply hop rfl rfl rfl⟩
  · rw [htok']
    exact hobjects.pass rfl fun ob hob => ⟨hob.1, trivial⟩
  · -- the answered call is nobody's any more, and the token of its event has no call
    rw [htok']
    have hnone : (w.setNet c (.replied r)).serving = Function.update w.serving c none :=
      World.serving_setNet_other c (by simp)
    show Linear _ _ (w.setNet c (.replied r)).serving _
    rw [hnone]
    exact (Linear.cons_keyless rfl).mpr (hcalls.free rfl)
  · rw [htok']
    exact hserials.pass rfl fun _ _ => trivial
  · rw [htok']
    rw [Multiset.countP_cons_of_neg _ (by simp [Op.token, Stage.isAcceptor])] at hacceptors
    rw [Multiset.countP_cons_of_neg _ (by simp [Event.token, Stage.isAcceptor])]
    show _ + (_ ::ₘ w.events).countP _ + _ = n
    rw [Multiset.countP_cons_of_neg _ (by simp [Event.isRequest])]
    exact hacceptors
  · intro e he
    rcases Multiset.mem_cons.mp he with rfl | he
    · rfl
    · exact h.eventsOk e he
  · unfold World.Settled
    simp only [World.setNet, World.setCall, Function.update_self]
    exact ⟨hcount, hval.2⟩

/-! ## Clients -/

/-- A statement of a client or the death of its call does not concern the server. -/
theorem Inv.setCall (h : Inv users w held) {c : CallId} {call : Call} (hok : call.Ok (users c))
    (hnet : call.net = (w.calls c).net ∨ (w.calls c).net = .idle ∧ ∃ r, call.net = .sent r) :
    Inv users (w.setCall c call) held := by
  have hserving : (w.setCall c call).serving = w.serving := by
    funext c'
    by_cases hcc : c' = c
    · subst hcc
      unfold World.serving World.setCall World.finishCount
      simp only [Function.update_self]
      rcases hnet with hnet | ⟨hidle, r, hsent⟩
      · rw [hnet]
      · rw [hidle, hsent]
    · simp [World.serving, World.setCall, World.finishCount, hcc]
  refine ⟨h.running, h.frames, h.objects, hserving ▸ h.calls, h.serials, h.acceptors, h.eventsOk, ?_, ?_, h.finishes,
    h.delivered, h.deleted⟩
  · intro c'
    by_cases hcc : c' = c
    · subst hcc
      simpa [World.setCall] using hok
    · simpa [World.setCall, hcc] using h.clients c'
  · intro c'
    have hs := h.settled c'
    unfold World.Settled at hs ⊢
    by_cases hcc : c' = c
    · subst hcc
      rw [show (w.setCall c' call).calls c' = call from Function.update_self _ _ _]
      rcases hnet with hnet | ⟨hidle, r, hsent⟩
      · rw [hnet]
        exact hs
      · rw [hidle] at hs
        rw [hsent]
        exact hs
    · rw [show (w.setCall c call).calls c' = w.calls c' from Function.update_of_ne hcc _ _]
      exact hs

/-- A statement of `SayHello` keeps the call's own name in its request. Only `StartCall` moves the RPC. -/
theorem sayHello_ok {user : Bytes} {call call' : Call} (h : call.Ok user) (hs : sayHello call = some call') :
    call'.Ok user ∧ (call'.net = call.net ∨ call.net = .idle ∧ ∃ r, call'.net = .sent r) := by
  obtain ⟨hu, hpc⟩ := h
  unfold sayHello at hs
  cases hc : call.pc with
  | setName =>
      rw [hc] at hs hpc
      cases hs
      exact ⟨⟨hu, by simp [hu], hpc.2⟩, .inl rfl⟩
  | prepareAsyncSayHello =>
      rw [hc] at hs hpc
      cases hs
      exact ⟨⟨hu, by simp [hpc.1], hpc.2⟩, .inl rfl⟩
  | startCall =>
      rw [hc] at hs hpc
      simp only [hpc.1, Option.map_some, Option.some.injEq] at hs
      subst hs
      refine ⟨⟨hu, by simp, ?_⟩, .inr ⟨hpc.2, _, rfl⟩⟩
      rintro r ⟨rfl⟩
      rfl
  | finish =>
      rw [hc] at hs hpc
      cases hs
      exact ⟨⟨hu, hpc⟩, .inl rfl⟩
  | next =>
      rw [hc] at hs hpc
      obtain ⟨e, _, rfl⟩ := Option.map_eq_some_iff.mp hs
      exact ⟨⟨hu, hpc⟩, .inl rfl⟩
  | assertTag =>
      rw [hc] at hs hpc
      obtain ⟨e, _, rfl⟩ := Option.map_eq_some_iff.mp hs
      exact ⟨⟨hu, by by_cases he : e.tag = 1 <;> simpa [he] using hpc⟩, .inl rfl⟩
  | assertOk =>
      rw [hc] at hs hpc
      obtain ⟨e, _, rfl⟩ := Option.map_eq_some_iff.mp hs
      exact ⟨⟨hu, by by_cases he : e.ok = true <;> simpa [he] using hpc⟩, .inl rfl⟩
  | act =>
      rw [hc] at hs hpc
      cases hs
      exact ⟨⟨hu, hpc⟩, .inl rfl⟩
  | returned text => rw [hc] at hs; cases hs
  | aborted => rw [hc] at hs; cases hs

/-- What the completion of an RPC writes at the client, in both outcomes. -/
theorem deliver_cases {call call' : Call} {outcome : Status} (hs : deliver call outcome = some call') :
    call.pc = .next ∧ call.cq = none ∧
      ((∃ r, call.net = .replied r ∧ call' = { call with reply := r, status := .ok, cq := some ⟨1, true⟩ }) ∨
       (call.dead = true ∧ call' = { call with status := .error, cq := some ⟨1, true⟩ })) := by
  unfold deliver at hs
  split at hs
  · next hpc hcq hnet =>
    cases hs
    exact ⟨hpc, hcq, .inl ⟨_, hnet, rfl⟩⟩
  · next hpc hcq hdead =>
    cases hs
    exact ⟨hpc, hcq, .inr ⟨hdead, rfl⟩⟩
  · exact absurd hs (by simp)

theorem deliver_ok {user : Bytes} {call call' : Call} {outcome : Status} (h : call.Ok user)
    (hs : deliver call outcome = some call') : call'.Ok user ∧ call'.net = call.net := by
  obtain ⟨hu, hpc⟩ := h
  obtain ⟨_, _, ⟨r, hr, rfl⟩ | ⟨_, rfl⟩⟩ := deliver_cases hs
  · exact ⟨⟨hu, hpc⟩, rfl⟩
  · exact ⟨⟨hu, hpc⟩, rfl⟩

/-! ## Every statement, every action, every run -/

/-- **The statement lemma.** Each statement of a thread keeps the invariant and lowers the rank; none fails. -/
theorem Inv.statement (h : Inv users w held) (hs : w.statement t = some w') :
    (∃ held', Inv users w' held') ∧ w'.rank < w.rank := by
  have hframe := h.frames t
  have hmem : ∀ k ∈ held t, k ∈ w.tokens held := by
    intro k hk
    exact mem_tokens_of_held hk
  generalize hth : w.threads t = th at hframe
  generalize hT : held t = T at hframe hmem
  have hgoto : ∀ th' : Thread, th'.rank < th.rank → (w.setThread t th').rank < w.rank := by
    intro th' hlt
    exact World.rank_goto _ (hth ▸ hlt)
  unfold World.statement at hs
  rw [hth] at hs
  cases hframe with
  | new | next => exact absurd hs (by simp)
  | created hC =>
      dsimp only at hs
      rw [h.access_eq (hmem _ (Multiset.mem_cons_self _ _))] at hs
      cases hs
      refine ⟨⟨_, h.read hT (.setProcess hC) rfl rfl rfl rfl (by rw [hth]; cases hC <;> rfl) (by rw [hth]; rfl)
        fun _ ho => ho⟩, hgoto _ ?_⟩
      cases hC <;> simp [Thread.rank, Thread.goto, Thread.resume, Stage.object]
  | setProcess hC =>
      dsimp only at hs
      rw [h.access_eq (hmem _ (Multiset.mem_cons_self _ _))] at hs
      cases hs
      refine ⟨⟨_, h.write hT (.arming hC) rfl rfl rfl rfl (by rw [hth]; rfl) (by rw [hth]) trivial rfl⟩, hgoto _ ?_⟩
      cases hC <;> simp [Thread.rank, Thread.goto, Thread.resume]
  | arming hC =>
      dsimp only at hs
      rw [h.access_eq (hmem _ (Multiset.mem_cons_self _ _))] at hs
      cases hs
      refine ⟨⟨_, hth ▸ h.requestSayHello hC hth hT⟩, World.rank_goto_issue _ _ ?_⟩
      rw [hth]
      cases hC <;> simp [Thread.rank, Thread.ret, Thread.resume, Op.rank]
  | @assertOk e hok =>
      simp only [Option.map_some, hok, if_true, Option.some.injEq] at hs
      subst hs
      refine ⟨⟨_, h.read hT (.testCreate hok) rfl rfl rfl rfl (by rw [hth]; rfl) (by rw [hth]; rfl) fun _ ho => ho⟩,
        hgoto _ ?_⟩
      cases hreq : e.isRequest <;> simp [Thread.rank, Thread.goto, hreq]
  | @testCreate e hok =>
      -- no object with an event is in `CREATE` any more
      have hacc := h.access_eq (hmem _ (Multiset.mem_singleton_self _))
      rw [Event.token_ptr] at hacc
      dsimp only at hs
      rw [hacc] at hs
      have hne : (e.token.stage.object users e.tag.serial).status_ ≠ .create := by
        unfold Event.token
        cases e.answers <;> simp [Stage.object]
      simp only [hne, if_false, Option.some.injEq] at hs
      subst hs
      refine ⟨⟨_, h.read hT (.testProcess hok) rfl rfl rfl rfl (by rw [hth]; rfl) (by rw [hth]; rfl) fun _ ho => ho⟩,
        hgoto _ ?_⟩
      cases hreq : e.isRequest <;> simp [Thread.rank, Thread.goto, hreq]
  | @testProcess e hok =>
      have hacc := h.access_eq (hmem _ (Multiset.mem_singleton_self _))
      rw [Event.token_ptr] at hacc
      dsimp only at hs
      rw [hacc] at hs
      obtain ⟨p, a, ok⟩ := e
      cases hok
      cases a with
      | request c =>
          -- the `PROCESS` branch: the next statement is `new`, and its constructor will return here
          cases hs
          exact ⟨⟨_, h.read hT (.new .branch) rfl rfl rfl rfl
            (by rw [hth]; rfl) (by rw [hth]) fun _ ho => ho⟩,
            hgoto _ (by simp [Thread.rank, Thread.resume, Event.isRequest])⟩
      | finish c =>
          cases hs
          exact ⟨⟨_, h.read hT .assertFinish rfl rfl rfl rfl
            (by rw [hth]; rfl) (by rw [hth]; rfl) fun _ ho => ho⟩,
            hgoto _ (by simp [Thread.rank, Thread.goto, Event.isRequest])⟩
  | setMessage =>
      dsimp only at hs
      rw [h.access_eq (hmem _ (Multiset.mem_singleton_self _))] at hs
      cases hs
      exact ⟨⟨_, h.write hT .setFinish rfl rfl rfl rfl (by rw [hth]; rfl) (by rw [hth]) trivial rfl⟩,
        hgoto _ (by simp [Thread.rank, Thread.goto])⟩
  | setFinish =>
      dsimp only at hs
      rw [h.access_eq (hmem _ (Multiset.mem_singleton_self _))] at hs
      cases hs
      exact ⟨⟨_, h.write hT .finish rfl rfl rfl rfl (by rw [hth]; rfl) (by rw [hth]) trivial rfl⟩,
        hgoto _ (by simp [Thread.rank, Thread.goto])⟩
  | finish =>
      dsimp only at hs
      rw [h.access_eq (hmem _ (Multiset.mem_singleton_self _))] at hs
      cases hs
      refine ⟨⟨_, hth ▸ h.finish hth hT⟩, World.rank_goto_issue (w := w.logFinish _ _) _ _ ?_⟩
      rw [show (w.logFinish _ _).threads t = _ from hth]
      simp [Thread.rank, Thread.ret, Op.rank]
  | assertFinish =>
      dsimp only at hs
      rw [h.access_eq (hmem _ (Multiset.mem_singleton_self _))] at hs
      cases hs
      exact ⟨⟨_, h.read hT .delete rfl rfl rfl rfl (by rw [hth]; rfl) (by rw [hth]; rfl) fun _ ho => ho⟩,
        hgoto _ (by simp [Thread.rank, Thread.goto])⟩
  | delete =>
      dsimp only at hs
      rw [h.access_eq (hmem _ (Multiset.mem_singleton_self _))] at hs
      cases hs
      exact ⟨⟨_, hth ▸ h.delete hth hT⟩, hgoto _ (by simp [Thread.rank, Thread.ret])⟩

/-- **The step lemma.** Every action under which `Finish` succeeds keeps the invariant, and those of the server
    lower the rank. -/
theorem Inv.step (h : Inv users w held) {a : Action n} (ha : AllOk w a) (hs : step w a = some w') :
    (∃ held', Inv users w' held') ∧ (a.isServer → w'.rank < w.rank) := by
  cases a with
  | statement t =>
      simp only [Greeter.step, h.running, if_true] at hs
      obtain ⟨hinv, hrank⟩ := h.statement hs
      exact ⟨hinv, fun _ => hrank⟩
  | new t addr =>
      simp only [Greeter.step] at hs
      split at hs
      · next hg =>
        cases hs
        obtain ⟨hinv, hrank⟩ := h.construct hg.2.1 hg.2.2
        exact ⟨hinv, fun _ => hrank⟩
      · exact absurd hs (by simp)
  | next t e =>
      simp only [Greeter.step] at hs
      split at hs
      · next hg =>
        cases hs
        exact ⟨h.next hg.2.1 hg.2.2, fun _ => World.rank_next hg.2.1 hg.2.2⟩
      · exact absurd hs (by simp)
  | arrive p c =>
      simp only [Greeter.step] at hs
      split at hs
      · next r hr =>
        split at hs
        · next hg =>
          cases hs
          exact ⟨⟨held, h.arrive hr hg.2⟩, False.elim⟩
        · exact absurd hs (by simp)
      · exact absurd hs (by simp)
  | reply p c r ok =>
      cases (show ok = true from ha)
      simp only [Greeter.step] at hs
      split at hs
      · next hg =>
        cases hs
        obtain ⟨hinv, hrank⟩ := h.reply hg.2
        exact ⟨⟨held, hinv⟩, fun _ => hrank⟩
      · exact absurd hs (by simp)
  | die c =>
      cases hs
      exact ⟨⟨held, h.setCall (h.clients c) (.inl rfl)⟩, False.elim⟩
  | client c =>
      obtain ⟨call, hcall, rfl⟩ := Option.map_eq_some_iff.mp hs
      obtain ⟨hok, hnet⟩ := sayHello_ok (h.clients c) hcall
      exact ⟨⟨held, h.setCall hok hnet⟩, False.elim⟩
  | deliver c outcome =>
      obtain ⟨call, hcall, rfl⟩ := Option.map_eq_some_iff.mp hs
      obtain ⟨hok, hnet⟩ := deliver_ok (h.clients c) hcall
      exact ⟨⟨held, h.setCall hok (.inl hnet)⟩, False.elim⟩

/-- **The run lemma.** The invariant holds in every state that `n` dispatch threads, the clients and gRPC can
    reach together. -/
theorem reachable_inv (h : (system n users).Reachable AllOk w) : ∃ held, Inv users w held := by
  apply h.invariant (I := fun w => ∃ held, Inv users w held) ⟨_, Inv.init n users⟩
  rintro w a w' _ ⟨held, hi⟩ ha hs
  exact (hi.step ha hs).1

end AsyncCpp.Greeter
