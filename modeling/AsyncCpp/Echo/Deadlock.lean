import AsyncCpp.Echo.Conservation

/-!
# `Echo.Deadlock` — when both sides can block on full streams

Each round adds `max_length` bytes to what is on the way and takes at least one byte off it. So the backlog can
grow by `max_length - 1` bytes a round, and client and session can block each other in `async_write` exactly
when that is more, over all rounds, than the two streams hold together (`no_deadlock_iff`).

## Contents
- `Deadlock s`, and `Conserved.no_deadlock`: enough room rules it out.
- `Connection.rank`: every run without an error ends.
- `Bytewise`: the environment of one-byte reads, in which the backlog is largest. Its invariant `Backlog`, and
  `stuck_deadlock`: too little room, and it ends in a deadlock.
-/

namespace AsyncCpp.Echo

open Machine

/-- A connection over streams of the capacities `C` and `S`. -/
def bounded (count : Nat) (write_buf : Nat → Buffer) (C S : Nat) : Params where
  count := count
  write_buf := write_buf
  c2s_cap := some C
  s2c_cap := some S

variable {P : Params} {s s' : Connection P}

/-- **Deadlock**: the client is suspended in `async_write` on a full stream to the session, and the session in
    `async_write` on a full stream to the client. -/
def Deadlock (s : Connection P) : Prop :=
  s.client.rest ≠ [] ∧ s.c2s.Full ∧ s.session.held ≠ [] ∧ s.s2c.Full

/-! ## Enough room -/

theorem Conserved.length (h : Conserved P s) :
    s.read.length + s.s2c.items.length + s.session.held.length + s.c2s.items.length + s.client.rest.length
      = maxLength * s.started := by
  have hlen := congrArg List.length h.stream
  simpa only [List.length_append, sent_length] using hlen

variable {count C S : Nat} {write_buf : Nat → Buffer}

/-- A deadlock needs more backlog than the rounds can leave. -/
theorem Conserved.no_deadlock {s : Connection (bounded count write_buf C S)}
    (h : Conserved (bounded count write_buf C S) s) (hroom : (maxLength - 1) * count ≤ C + S) : ¬ Deadlock s := by
  rintro ⟨hrest, ⟨c, hc, hclen⟩, hheld, ⟨d, hd, hdlen⟩⟩
  cases hc
  cases hd
  have hlen := h.length
  have hread := h.read_length.1
  have hstarted := h.started
  have hcount : s.started ≤ count := h.count
  have hin : s.client.inRound ≤ 1 := by cases s.client <;> simp [ClientPc.inRound]
  have hrest' := List.length_pos_iff.mpr hrest
  have hheld' := List.length_pos_iff.mpr hheld
  simp only [maxLength] at hlen hroom
  omega

/-! ## Every run ends -/

def ClientPc.rank : ClientPc → Nat
  | .loop      => 1
  | .writing _ => 2
  | .reading   => 1
  | .finished  => 0

def SessionPc.rank : SessionPc → Nat
  | .timer     => 1
  | .reading   => 0
  | .writing _ => 1
  | .closed    => 0

/-- What is left to do: each round still to come counts as its bytes and its statements, each byte on the way
    as the moves it has ahead. -/
def Connection.rank (s : Connection P) : Nat :=
  (P.count - s.started) * (5 * maxLength + 2) + 5 * s.client.rest.length + 4 * s.c2s.items.length
    + 2 * s.session.held.length + s.s2c.items.length + s.client.rank + s.session.rank

/-- Every step without an error lowers the rank. -/
theorem step_rank (h : Conserved P s) {a : Action} (hs : step s a = some s') (hok : s'.error = false) :
    s'.rank < s.rank := by
  unfold Connection.rank
  cases step_moved hs with
  | enter hpc hlt =>
      have hi : s.started = s.i := h.started_at hpc
      have hsub : P.count - s.started = P.count - (s.started + 1) + 1 := by omega
      rw [hsub, Nat.add_mul]
      simp only [hpc, ClientPc.rest, ClientPc.rank, (P.write_buf s.i).length, List.length_nil]
      omega
  | leave hpc _ =>
      simp only [hpc, ClientPc.rest, ClientPc.rank]
      omega
  | clientHandOver hpc hpos hk hch =>
      simp only [hpc, ClientPc.rest, ClientPc.rank, Channel.send_items hch, List.length_append, List.length_drop,
        List.length_take]
      omega
  | clientWritten hpc =>
      simp only [hpc, ClientPc.rest, ClientPc.rank]
      omega
  | clientReadSome hpc _ hch =>
      obtain ⟨hitems, hlen, hpos⟩ := Channel.receive_items hch
      simp only [hpc, ClientPc.rest, ClientPc.rank, ← hitems, List.length_append]
      omega
  | timer hpc =>
      simp only [hpc, SessionPc.held, SessionPc.rank]
      omega
  | sessionReadSome hpc _ hch =>
      obtain ⟨hitems, hlen, hpos⟩ := Channel.receive_items hch
      simp only [hpc, SessionPc.held, SessionPc.rank, ← hitems, List.length_append, List.length_nil]
      omega
  | sessionHandOver hpc hpos hk hch =>
      simp only [hpc, SessionPc.held, SessionPc.rank, Channel.send_items hch, List.length_append, List.length_drop,
        List.length_take]
      omega
  | sessionWritten hpc =>
      simp only [hpc, SessionPc.held, SessionPc.rank]
      omega
  | clientWriteError | clientReadError | sessionReadError | sessionWriteError => cases hok

/-! ## Too little room -/

/-- Reads and pieces of one byte, and no errors. -/
def Bytewise (_ : Connection P) : Action → Prop
  | .loop | .clientWritten | .timer | .sessionWritten => True
  | .clientHandOver k | .clientReadSome k | .sessionReadSome k | .sessionHandOver k => k = 1
  | .clientWriteError | .clientReadError | .sessionReadError | .sessionWriteError => False

/-- What bytewise runs preserve: as long as the client got past its `async_write`, the rounds so far fitted. -/
structure Backlog (s : Connection (bounded count write_buf C S)) : Prop where
  ok        : s.error = false
  conserved : Conserved (bounded count write_buf C S) s
  single    : ∀ xs ∈ s.received, xs.length = 1
  held      : s.session.held.length ≤ 1
  fitted    : (∃ rest, s.client = .writing rest) ∨ (maxLength - 1) * s.started ≤ C + S

theorem bytewise_ok {a : Action} (ha : Bytewise s a) (hs : step s a = some s') (hok : s.error = false) :
    s'.error = false := by
  cases step_moved hs with
  | clientWriteError | clientReadError | sessionReadError | sessionWriteError => exact ha.elim
  | _ => exact hok

/-- Outside of its `async_write` the client has not got further than the streams could hold. -/
theorem Backlog.room {s : Connection (bounded count write_buf C S)} (h : Backlog s)
    (hpc : ∀ rest, s.client ≠ .writing rest) : (maxLength - 1) * s.started ≤ C + S := by
  apply h.fitted.resolve_left
  rintro ⟨rest, hrest⟩
  exact hpc rest hrest

theorem start_backlog : Backlog (connection (bounded count write_buf C S)).start where
  ok := rfl
  conserved := start_conserved _
  single := by
    rintro xs ⟨⟩
  held := Nat.zero_le 1
  fitted := .inr (Nat.zero_le _)

theorem Backlog.step {s s' : Connection (bounded count write_buf C S)} (h : Backlog s) {a : Action}
    (ha : Bytewise s a) (hs : Echo.step s a = some s') : Backlog s' := by
  have hok := bytewise_ok ha hs h.ok
  have hconserved := step_conserved h.conserved hs hok
  cases step_moved hs with
  | enter hpc hlt => exact ⟨hok, hconserved, h.single, h.held, .inl ⟨_, rfl⟩⟩
  | leave hpc hge => exact ⟨hok, hconserved, h.single, h.held, .inr (h.room (by simp [hpc]))⟩
  | clientHandOver => exact ⟨hok, hconserved, h.single, h.held, .inl ⟨_, rfl⟩⟩
  | clientWritten hpc =>
      -- all of the round is handed over, and at most one byte per earlier round was read
      have hlen := h.conserved.length
      have hread : s.read.length = 1 * s.received.length := flatten_length h.single
      have hstarted : s.started = s.i + 1 := h.conserved.started_at hpc
      have hreceived := h.conserved.received
      have hc2s := s.c2s.bounded C rfl
      have hs2c := s.s2c.bounded S rfl
      have hheld := h.held
      refine ⟨hok, hconserved, h.single, h.held, .inr ?_⟩
      simp only [hpc, ClientPc.rest, List.length_nil, maxLength] at hlen ⊢
      omega
  | clientReadSome hpc hk hch =>
      obtain ⟨_, hlen, _⟩ := Channel.receive_items hch
      refine ⟨hok, hconserved, ?_, h.held, .inr (h.room (by simp [hpc]))⟩
      intro xs hxs
      rcases List.mem_append.mp hxs with hxs | hxs
      · exact h.single xs hxs
      · rw [List.mem_singleton.mp hxs, hlen]
        exact ha
  | timer => exact ⟨hok, hconserved, h.single, Nat.zero_le 1, h.fitted⟩
  | sessionReadSome hpc hk hch =>
      obtain ⟨_, hlen, _⟩ := Channel.receive_items hch
      exact ⟨hok, hconserved, h.single, Nat.le_of_eq (hlen.trans ha), h.fitted⟩
  | sessionHandOver hpc =>
      have hheld := h.held
      refine ⟨hok, hconserved, h.single, ?_, h.fitted⟩
      simp only [hpc, SessionPc.held, List.length_drop] at hheld ⊢
      omega
  | sessionWritten => exact ⟨hok, hconserved, h.single, Nat.zero_le 1, h.fitted⟩
  | clientWriteError | clientReadError | sessionReadError | sessionWriteError => exact ha.elim

/-- A session that cannot move waits for bytes, or for room. -/
theorem session_stuck (hstuck : (connection P).Stuck Bytewise s) (hopen : s.session ≠ .closed) :
    (s.session = .reading ∧ s.c2s.items = []) ∨ (s.session.held ≠ [] ∧ s.s2c.Full) := by
  cases hpc : s.session with
  | timer =>
      have hnone := hstuck .timer trivial
      simp [connection, step, hpc] at hnone
  | reading =>
      have hnone := hstuck (.sessionReadSome 1) rfl
      simp [connection, step, hpc, maxLength] at hnone
      exact .inl ⟨rfl, Channel.items_of_receive hnone⟩
  | writing rest =>
      cases rest with
      | nil =>
          have hnone := hstuck .sessionWritten trivial
          simp [connection, step, hpc] at hnone
      | cons x rest =>
          have hnone := hstuck (.sessionHandOver 1) rfl
          simp [connection, step, hpc] at hnone
          exact .inr ⟨List.cons_ne_nil _ _, Channel.full_of_send x hnone⟩
  | closed => exact absurd hpc hopen

/-- **Where bytewise runs end**, when the rounds do not fit: in a deadlock. -/
theorem Backlog.deadlock {s : Connection (bounded count write_buf C S)} (h : Backlog s) (hC : maxLength ≤ C)
    (hS : maxLength ≤ S) (hroom : C + S < (maxLength - 1) * count)
    (hstuck : (connection (bounded count write_buf C S)).Stuck Bytewise s) : Deadlock s := by
  have hsession := session_stuck hstuck h.conserved.session
  have hlen := h.conserved.length
  cases hpc : s.client with
  | loop =>
      have hnone := hstuck .loop trivial
      simp only [connection, Echo.step, hpc] at hnone
      split at hnone <;> cases hnone
  | writing rest =>
      cases rest with
      | nil =>
          have hnone := hstuck .clientWritten trivial
          simp [connection, Echo.step, hpc] at hnone
      | cons x rest =>
          have hnone := hstuck (.clientHandOver 1) rfl
          simp [connection, Echo.step, hpc] at hnone
          have hfull := Channel.full_of_send x hnone
          rcases hsession with ⟨_, hempty⟩ | hblocked
          · obtain ⟨c, hc, hclen⟩ := hfull
            cases hc
            simp [hempty, maxLength] at hclen hC
            omega
          · exact ⟨by simp [hpc, ClientPc.rest], hfull, hblocked⟩
  | reading =>
      have hnone := hstuck (.clientReadSome 1) rfl
      simp [connection, Echo.step, hpc, maxLength] at hnone
      have hs2c := Channel.items_of_receive hnone
      rcases hsession with ⟨hreading, hempty⟩ | ⟨_, d, hd, hdlen⟩
      · -- all four queues are empty, but fewer bytes were read than sent
        have hread : s.read.length = 1 * s.received.length := flatten_length h.single
        have hstarted : s.started = s.i + 1 := h.conserved.started_at hpc
        have hreceived := h.conserved.received
        simp only [hs2c, hempty, hreading, hpc, ClientPc.rest, SessionPc.held, List.length_nil, maxLength] at hlen
        omega
      · cases hd
        simp [hs2c, maxLength] at hdlen hS
        omega
  | finished =>
      -- all rounds are over, so all of them fitted
      have hstarted : s.started = s.i := h.conserved.started_at hpc
      have hall : s.i = count := h.conserved.finished hpc
      have hfit := h.room (by simp [hpc])
      rw [hstarted, hall] at hfit
      omega

/-- Too little room, and a deadlock is reachable: the bytewise run ends in one. -/
theorem exists_deadlock (write_buf : Nat → Buffer) (hC : maxLength ≤ C) (hS : maxLength ≤ S) (hroom : C + S < (maxLength - 1) * count) :
    ∃ s, (connection (bounded count write_buf C S)).Reachable Anything s ∧ s.error = false ∧ Deadlock s := by
  obtain ⟨s, hsteps, hstuck⟩ := exists_stuck (M := connection (bounded count write_buf C S)) (E := Bytewise)
    (I := Backlog) (μ := Connection.rank) (fun h ha hs => h.step ha hs)
    (fun h ha hs => step_rank h.conserved hs (bytewise_ok ha hs h.ok)) start_backlog
  have hbacklog := hsteps.invariant start_backlog fun h ha hs => h.step ha hs
  exact ⟨s, hsteps.mono fun _ _ _ => trivial, hbacklog.ok, hbacklog.deadlock hC hS hroom hstuck⟩

/-- **Deadlock freedom.** For all capacities of at least `max_length`, any number of rounds and any buffers: no
    run without an error reaches a deadlock if and only if the two streams together hold
    `(max_length - 1) * count` bytes. -/
theorem no_deadlock_iff (count C S : Nat) (write_buf : Nat → Buffer) (hC : maxLength ≤ C) (hS : maxLength ≤ S) :
    (∀ s, (connection (bounded count write_buf C S)).Reachable Anything s → s.error = false → ¬ Deadlock s) ↔
      (maxLength - 1) * count ≤ C + S := by
  constructor
  · intro hfree
    by_contra hroom
    obtain ⟨s, hreach, hok, hdead⟩ := exists_deadlock write_buf hC hS
      (Nat.lt_of_not_le hroom)
    exact hfree s hreach hok hdead
  · intro hroom s hreach hok
    exact (reachable_conserved hreach hok).no_deadlock hroom

theorem no_deadlock_iff_small : (∀ s, (connection (bounded 2 (fun _ => helloBuf) 1024 1024)).Reachable Anything s →
    s.error = false → ¬ Deadlock s) ↔ (maxLength - 1) * 2 ≤ 1024 + 1024 :=
  no_deadlock_iff 2 1024 1024 _ (Nat.le_refl _) (Nat.le_refl _)

/-- The 100 rounds of the program over two streams of 1024 bytes. -/
theorem deadlock_program : ∃ s, (connection (bounded 100 (fun _ => helloBuf) 1024 1024)).Reachable Anything s ∧
    s.error = false ∧ Deadlock s :=
  exists_deadlock _ (Nat.le_refl _) (Nat.le_refl _) (by decide)

end AsyncCpp.Echo
