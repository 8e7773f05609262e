import AsyncCpp.Echo.Connection

/-!
# `Echo.Conservation` — nothing is lost, duplicated or reordered

While no operation has reported an error, the bytes that the client has read, those in the four queues between
the two programs, and those that the client has still to hand over are, in this order, the write buffers of the
rounds begun (`Conserved.stream`). `step_conserved` is the step lemma, `conservation` the result for any number
of connections side by side.
-/

namespace AsyncCpp.Echo

open Machine

variable {P : Params} {s s' : Connection P}

/-! ## The five parts of the stream -/

/-- The bytes of the current `async_write` of the client that are not handed over. -/
def ClientPc.rest : ClientPc → Bytes
  | .writing rest => rest
  | _ => []

/-- The bytes that the session has read and not handed over yet. -/
def SessionPc.held : SessionPc → Bytes
  | .writing rest => rest
  | _ => []

/-- 1 while the client is inside a round. -/
def ClientPc.inRound : ClientPc → Nat
  | .writing _ | .reading => 1
  | _ => 0

/-- What the client has read. -/
def Connection.read (s : Connection P) : Bytes := s.received.flatten

/-- The write buffers of the first `r` rounds. -/
def sent (P : Params) (r : Nat) : Bytes := (List.range r).flatMap fun j => (P.write_buf j).bytes

theorem sent_succ (P : Params) (r : Nat) : sent P (r + 1) = sent P r ++ (P.write_buf r).bytes := by
  simp [sent, List.range_succ]

theorem sent_length (P : Params) (r : Nat) : (sent P r).length = maxLength * r := by
  induction r with
  | zero => rfl
  | succ r ih => rw [sent_succ, List.length_append, ih, (P.write_buf r).length, Nat.mul_succ]

/-- The buffers of fewer rounds are a beginning of those of more. -/
theorem sent_mono (P : Params) {r r' : Nat} (h : r ≤ r') : sent P r <+: sent P r' := by
  induction h with
  | refl => exact List.prefix_rfl
  | step _ ih => exact ih.trans (sent_succ P _ ▸ List.prefix_append _ _)

/-! ## The invariant -/

/-- **Conservation**, with the counters of the loop. -/
structure Conserved (P : Params) (s : Connection P) : Prop where
  stream   : s.read ++ s.s2c.items ++ s.session.held ++ s.c2s.items ++ s.client.rest = sent P s.started
  started  : s.started = s.i + s.client.inRound
  received : s.received.length = s.i
  chunks   : ∀ xs ∈ s.received, 1 ≤ xs.length ∧ xs.length ≤ maxLength
  count    : s.started ≤ P.count
  finished : s.client = .finished → s.i = P.count
  session  : s.session ≠ .closed

theorem Conserved.started_at (h : Conserved P s) {pc : ClientPc} (hpc : s.client = pc) :
    s.started = s.i + pc.inRound := by
  rw [← hpc]
  exact h.started

theorem start_conserved (P : Params) : Conserved P (connection P).start := by
  refine ⟨rfl, rfl, rfl, ?_, Nat.zero_le _, nofun, nofun⟩
  rintro xs ⟨⟩

/-- The five parts in a row. -/
def Connection.stream (s : Connection P) : Bytes :=
  s.read ++ s.s2c.items ++ s.session.held ++ s.c2s.items ++ s.client.rest

/-- A step that moves bytes from one part to the next, inside a round of the client or outside of one. -/
theorem Conserved.move (h : Conserved P s) (hstream : s'.stream = s.stream) (hi : s'.i = s.i)
    (hstarted : s'.started = s.started) (hreceived : s'.received = s.received)
    (hround : s'.client.inRound = s.client.inRound) (hfin : s'.client = .finished → s.client = .finished)
    (hsession : s'.session ≠ .closed) : Conserved P s' where
  stream := hstream.trans (h.stream.trans (congrArg (sent P) hstarted.symm))
  started := by rw [hstarted, hi, hround]; exact h.started
  received := by rw [hreceived, hi]; exact h.received
  chunks := by rw [hreceived]; exact h.chunks
  count := by rw [hstarted]; exact h.count
  finished := by
    intro hf
    rw [hi]
    exact h.finished (hfin hf)
  session := hsession

/-- **Every step that reports no error conserves the stream.** -/
theorem step_conserved (h : Conserved P s) {a : Action} (hs : step s a = some s') (hok : s'.error = false) :
    Conserved P s' := by
  have hstream := h.stream
  cases step_moved hs with
  | enter hpc hlt =>
      -- a new buffer at the end of the row
      have hi : s.started = s.i := h.started_at hpc
      rw [hpc] at hstream
      refine ⟨?_, ?_, h.received, h.chunks, ?_, nofun, h.session⟩
      · rw [sent_succ, ← hstream, hi]
        simp [Connection.read, ClientPc.rest]
      · simp only [ClientPc.inRound, hi]
      · show s.started + 1 ≤ P.count
        omega
  | leave hpc hge =>
      have hi : s.started = s.i := h.started_at hpc
      rw [hpc] at hstream
      refine ⟨hstream, hi, h.received, h.chunks, h.count, ?_, h.session⟩
      intro _
      have := h.count
      show s.i = P.count
      omega
  | clientHandOver hpc _ _ hch =>
      refine h.move ?_ rfl rfl rfl (by rw [hpc]; rfl) nofun h.session
      simp [Connection.stream, Connection.read, ClientPc.rest, hpc, Channel.send_items hch]
  | clientWritten hpc =>
      refine h.move ?_ rfl rfl rfl (by rw [hpc]; rfl) nofun h.session
      simp [Connection.stream, Connection.read, ClientPc.rest, hpc]
  | clientReadSome hpc hk hch =>
      obtain ⟨hitems, hlen, hpos⟩ := Channel.receive_items hch
      have hi : s.started = s.i + 1 := h.started_at hpc
      rw [hpc] at hstream
      refine ⟨?_, hi, ?_, ?_, h.count, nofun, h.session⟩
      · -- the bytes read leave the front of the channel and become the last ones that the client has
        simp only [Connection.read, List.flatten_append, List.flatten_singleton, List.append_assoc, ClientPc.rest,
          ← hitems] at hstream ⊢
        exact hstream
      · simp [h.received]
      · intro ys hys
        rcases List.mem_append.mp hys with hys | hys
        · exact h.chunks ys hys
        · rw [List.mem_singleton.mp hys, hlen]
          exact ⟨hpos, hk⟩
  | timer hpc =>
      refine h.move ?_ rfl rfl rfl rfl id nofun
      simp [Connection.stream, Connection.read, SessionPc.held, hpc]
  | sessionReadSome hpc _ hch =>
      obtain ⟨hitems, _, _⟩ := Channel.receive_items hch
      refine h.move ?_ rfl rfl rfl rfl id nofun
      simp [Connection.stream, Connection.read, SessionPc.held, hpc, ← hitems]
  | @sessionHandOver k rest ch hpc _ _ hch =>
      refine h.move ?_ rfl rfl rfl rfl id nofun
      simp only [Connection.stream, Connection.read, SessionPc.held, hpc, Channel.send_items hch, List.append_assoc]
      -- what is handed over and what is still held are what was held
      rw [← List.append_assoc (rest.take k), List.take_append_drop]
  | sessionWritten hpc =>
      refine h.move ?_ rfl rfl rfl rfl id nofun
      simp [Connection.stream, Connection.read, SessionPc.held, hpc]
  | clientWriteError | clientReadError | sessionReadError | sessionWriteError => cases hok

/-- An error stays reported. -/
theorem step_error {a : Action} (hs : step s a = some s') (he : s.error = true) : s'.error = true := by
  cases step_moved hs with
  | clientWriteError | clientReadError | sessionReadError | sessionWriteError => rfl
  | _ => exact he

/-- **Conservation along every run.** -/
theorem reachable_conserved (h : (connection P).Reachable Anything s) (hok : s.error = false) :
    Conserved P s := by
  have hall : s.error = false → Conserved P s := by
    apply h.invariant (I := fun s => s.error = false → Conserved P s) (fun _ => start_conserved P)
    intro t a t' _ hi _ hs ht
    apply step_conserved (hi ?_) hs ht
    -- a step does not take an error back
    by_contra hne
    rw [step_error hs (by simpa using hne)] at ht
    cases ht
  exact hall hok

/-! ## Any number of connections -/

/-- Pieces of one length. -/
theorem flatten_length {n : Nat} {l : List Bytes} (h : ∀ xs ∈ l, xs.length = n) :
    l.flatten.length = n * l.length := by
  induction l with
  | nil => rfl
  | cons xs l ih =>
      rw [List.flatten_cons, List.length_append, List.length_cons, Nat.mul_succ, h xs List.mem_cons_self,
        ih fun ys hys => h ys (List.mem_cons_of_mem _ hys), Nat.add_comm]

/-- The bytes read in `i` rounds: `i` at least, and at most `i` buffers full. -/
theorem Conserved.read_length (h : Conserved P s) : s.i ≤ s.read.length ∧ s.read.length ≤ maxLength * s.i := by
  have hbound : ∀ l : List Bytes, (∀ xs ∈ l, 1 ≤ xs.length ∧ xs.length ≤ maxLength) →
      l.length ≤ l.flatten.length ∧ l.flatten.length ≤ maxLength * l.length := by
    intro l hl
    induction l with
    | nil => exact ⟨Nat.le_refl _, Nat.le_refl _⟩
    | cons xs l ih =>
        obtain ⟨hlow, hhigh⟩ := ih fun ys hys => hl ys (List.mem_cons_of_mem _ hys)
        have hxs := hl xs List.mem_cons_self
        rw [List.flatten_cons, List.length_append, List.length_cons, Nat.mul_succ]
        omega
  rw [← h.received]
  exact hbound s.received h.chunks

/-- What the client has read are the first bytes of the buffers of its completed rounds. -/
theorem Conserved.read_sent (h : Conserved P s) : s.read <+: sent P s.i := by
  have hstream : s.read <+: sent P s.started := by
    rw [← h.stream]
    simp only [List.append_assoc]
    exact List.prefix_append _ _
  have hle : s.i ≤ s.started := by
    have := h.started
    omega
  apply List.prefix_of_prefix_length_le hstream (sent_mono P hle)
  rw [sent_length]
  exact h.read_length.2

/-- **Echo stream conservation.** For any number of connections with any buffers and capacities, every
    segmentation and every interleaving: on a connection on which no error was reported, the five parts of the
    stream are the buffers of the rounds begun there, and the client has read a beginning of the buffers of its
    completed rounds, at least one byte for each and at most a buffer. -/
theorem conservation {ι : Type} [DecidableEq ι] (P : ι → Params) (s : (c : ι) → Connection (P c))
    (h : (family fun c => connection (P c)).Reachable (familyEnv fun _ => Anything) s) (c : ι) (hok : (s c).error = false) :
    (s c).read ++ (s c).s2c.items ++ (s c).session.held ++ (s c).c2s.items ++ (s c).client.rest
      = sent (P c) (s c).started ∧
    (s c).read <+: sent (P c) (s c).i ∧ (s c).i ≤ (s c).read.length ∧ (s c).read.length ≤ maxLength * (s c).i := by
  have hc := reachable_conserved (family_reachable h c) hok
  exact ⟨hc.stream, hc.read_sent, hc.read_length⟩

/-- Two connections in the middle of their first rounds. -/
def twoConnections : List (Bool × Action) :=
  [(true, .loop), (true, .clientHandOver 3), (false, .loop), (true, .timer), (true, .sessionReadSome 2),
    (true, .clientHandOver 1), (true, .sessionHandOver 1), (false, .clientHandOver 1024)]

def twoClients (_ : Bool) : Params := { count := 100, write_buf := fun _ => helloBuf }

theorem conservation_twoConnections :
    ∃ h : ((family fun c => connection (twoClients c)).exec (familyEnv fun _ => Anything)
        (family fun c => connection (twoClients c)).start twoConnections).isSome,
      (Option.get _ h true).read ++ (Option.get _ h true).s2c.items ++ (Option.get _ h true).session.held ++
          (Option.get _ h true).c2s.items ++ (Option.get _ h true).client.rest
        = sent (twoClients true) (Option.get _ h true).started :=
  ⟨by decide +kernel, (conservation twoClients _ (reachable_get (by decide +kernel)) true (by decide +kernel)).1⟩

end AsyncCpp.Echo
