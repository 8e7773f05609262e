import AsyncCpp.Echo.Conservation

/-!
# `Echo.Delivery` — when the client gets back all it sent

A round writes `max_length` bytes and reads once, and one `async_read_some` may return less. So the client has
read what it wrote after each round, and leaves nothing behind at the end, exactly in the runs in which every
one of its reads returned `max_length` bytes (`delivered_iff`).
-/

namespace AsyncCpp.Echo

open Machine

variable {P : Params} {s : Connection P}

/-- **Delivery**, as far as the run has come: after each completed round the client has read what it had
    written by then, and out of the loop nothing is unread, in flight or held by the session. -/
structure Delivered (P : Params) (s : Connection P) : Prop where
  rounds : ∀ j ≤ s.i, (s.received.take j).flatten = sent P j
  atEnd  : s.client = .finished → s.s2c.items = [] ∧ s.session.held = [] ∧ s.c2s.items = []

/-- Every `async_read_some` of the client has returned a whole buffer. -/
def FullReads (s : Connection P) : Prop := ∀ xs ∈ s.received, xs.length = maxLength

/-- With whole buffers the first `j` reads are the first `j` write buffers. -/
theorem Conserved.rounds (h : Conserved P s) (hfull : FullReads s) (j : Nat) (hj : j ≤ s.i) :
    (s.received.take j).flatten = sent P j := by
  have hread : (s.received.take j).flatten <+: sent P s.i := by
    refine List.IsPrefix.trans ?_ h.read_sent
    unfold Connection.read
    conv => rhs; rw [← List.take_append_drop j s.received, List.flatten_append]
    exact List.prefix_append _ _
  have hlen : (s.received.take j).flatten.length = (sent P j).length := by
    rw [flatten_length fun xs hxs => hfull xs (List.mem_of_mem_take hxs), sent_length, List.length_take, h.received,
      Nat.min_eq_left hj]
  exact (List.prefix_of_prefix_length_le hread (sent_mono P hj) (Nat.le_of_eq hlen)).eq_of_length hlen

/-- With whole buffers nothing is left at the end. -/
theorem Conserved.atEnd (h : Conserved P s) (hfull : FullReads s) (hfin : s.client = .finished) :
    s.s2c.items = [] ∧ s.session.held = [] ∧ s.c2s.items = [] := by
  have hlen := congrArg List.length h.stream
  have hread : s.read.length = maxLength * s.i := by
    unfold Connection.read
    rw [flatten_length hfull, h.received]
  have hstarted : s.started = s.i := h.started_at hfin
  simp only [List.length_append, sent_length, hread, hstarted] at hlen
  simp only [List.eq_nil_iff_length_eq_zero]
  omega

/-- Each round that is delivered took a whole buffer. -/
theorem Delivered.fullReads (h : Delivered P s) (hi : s.received.length = s.i) : FullReads s := by
  intro xs hxs
  obtain ⟨j, hj, rfl⟩ := List.mem_iff_getElem.mp hxs
  -- the bytes of this round are the difference of two deliveries
  have hround := h.rounds (j + 1) (by omega)
  rw [← List.take_append_getElem hj, List.flatten_append, List.flatten_singleton, h.rounds j (by omega),
    sent_succ] at hround
  rw [List.append_cancel_left hround, (P.write_buf j).length]

/-- **The client receives everything it sent exactly if none of its reads is short.** In every state of every
    run without an error. -/
theorem delivered_iff (P : Params) (s : Connection P) (h : (connection P).Reachable Anything s)
    (hok : s.error = false) : Delivered P s ↔ FullReads s := by
  have hc := reachable_conserved h hok
  exact ⟨fun hd => hd.fullReads hc.received, fun hfull => ⟨hc.rounds hfull, hc.atEnd hfull⟩⟩

/-- The program's own parameters, on streams without a bound. -/
def program : Params := { count := 100, write_buf := fun _ => helloBuf }

/-- The session echoes the first buffer in two pieces. -/
def shortRead : List Action :=
  [.loop, .clientHandOver 1024, .clientWritten, .timer, .sessionReadSome 1024, .sessionHandOver 1, .clientReadSome 1]

/-- One round whose echo arrives whole. -/
def wholeRead : List Action :=
  [.loop, .clientHandOver 1024, .clientWritten, .timer, .sessionReadSome 1024, .sessionHandOver 1024,
    .clientReadSome 1024]

theorem delivered_wholeRead :
    ∃ h : ((connection program).exec Anything (connection program).start wholeRead).isSome,
      (Option.get _ h).i = 1 ∧ (Delivered program (Option.get _ h) ↔ FullReads (Option.get _ h)) :=
  ⟨by decide +kernel, by decide +kernel,
    delivered_iff program _ (reachable_get (by decide +kernel)) (by decide +kernel)⟩

/-- **A short read breaks delivery**: after the first round the client has read one byte of 1024. -/
theorem not_delivered_shortRead :
    ∃ s : Connection program, (connection program).Reachable Anything s ∧ s.error = false ∧ ¬ Delivered program s :=
  ⟨_, reachable_get (l := shortRead) (by decide +kernel), by decide +kernel, fun hd =>
    absurd (hd.rounds 1 (by decide +kernel)) (by decide +kernel)⟩

end AsyncCpp.Echo
