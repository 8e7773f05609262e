import AsyncCpp.Echo.Connection

/-!
# `Echo.Session` — one `TcpServer::session` and the errors of its operations

The session alone, against a socket whose operations report what a `Script` says: reads of any content, writes that
fail after any part of their bytes, and writes that succeed again afterwards. The session does not look at what
`async_write` returned. So the stream that it echoes has a hole exactly when, after a failed write, it hands over
bytes that are not the ones it has left out (`no_hole_iff`).

## Contents
- `Round`, `Script`; `Session`, its `step`; `session script`, the machine.
- `Inv`, what holds in every state (`reachable_inv`), and `reachable_end`: the script can be played to its end.
- `NoHole`, `Harmless`, `Quiet`; `no_hole_iff`.
-/

namespace AsyncCpp.TcpSession

open Machine Echo

/-- `boost::system::error_code`, when it reports an error. -/
structure ErrorCode where
  value : Nat
deriving DecidableEq

/-- What one iteration of the loop meets when its `async_read_some` succeeds. -/
structure Round where
  /-- What `async_read_some` returns. -/
  data   : Bytes
  size   : 0 < data.length ∧ data.length ≤ maxLength
  /-- How many bytes `async_write` hands over before it fails, if it does. -/
  fault  : Option (Nat × ErrorCode) := none
  proper : ∀ f ∈ fault, f.1 < data.length

/-- The bytes that `async_write` hands over, -/
def Round.sent (r : Round) : Bytes := r.data.take ((r.fault.map Prod.fst).getD r.data.length)

/-- and those that it leaves out. -/
def Round.left (r : Round) : Bytes := r.data.drop ((r.fault.map Prod.fst).getD r.data.length)

/-- What the operations of a session report. -/
structure Script where
  /-- What `timeout(steady_timer)` reports. -/
  timeout : Option ErrorCode
  rounds  : List Round
  /-- The error of the read that follows; `none`: this read is never completed. -/
  last    : Option ErrorCode

inductive Pc
  /-- Suspended in `timeout(steady_timer)`. -/
  | timer
  /-- In `async_read_some`. -/
  | reading
  /-- In `async_write`: the bytes it still hands over, and the error it will report. -/
  | writing (rest : Bytes) (error : Option ErrorCode)
  /-- `sock.shutdown(..)` -/
  | shutdown
  /-- `sock.close(..)` -/
  | close
  | returned
deriving DecidableEq

/-- What the session logs. -/
inductive Log
  /-- `"end test timeout: {}"` -/
  | timeout (error : Option ErrorCode)
  /-- `"[session] {}"` -/
  | session (error : ErrorCode)
deriving DecidableEq

structure Session where
  pc      : Pc := .timer
  /-- The rounds that are still to come. -/
  coming  : List Round
  /-- All bytes that were read from the socket, -/
  read    : Bytes := []
  /-- and all that were handed to it. -/
  written : Bytes := []
  log     : List Log := []

inductive Action
  | timeout
  | readSome
  | readError
  /-- `async_write` hands over its next `k` bytes, -/
  | handOver (k : Nat)
  /-- and completes. -/
  | written
  | shutdown
  | close
deriving DecidableEq

def step (script : Script) (s : Session) : Action → Option Session
  | .timeout =>
      match s.pc with
      | .timer => some { s with pc := .reading, log := s.log ++ [.timeout script.timeout] }
      | _ => none
  | .readSome =>
      match s.pc, s.coming with
      | .reading, r :: coming =>
          some { s with pc := .writing r.sent (r.fault.map Prod.snd), coming := coming, read := s.read ++ r.data }
      | _, _ => none
  | .readError =>
      match s.pc, s.coming, script.last with
      | .reading, [], some error => some { s with pc := .shutdown, log := s.log ++ [.session error] }
      | _, _, _ => none
  | .handOver k =>
      match s.pc with
      | .writing rest error =>
          if 0 < k ∧ k ≤ rest.length then
            some { s with pc := .writing (rest.drop k) error, written := s.written ++ rest.take k }
          else none
      | _ => none
  -- `co_await async_write(..);`: the error is not looked at
  | .written =>
      match s.pc with
      | .writing [] _ => some { s with pc := .reading }
      | _ => none
  | .shutdown => if s.pc = .shutdown then some { s with pc := .close } else none
  | .close => if s.pc = .close then some { s with pc := .returned } else none

def session (script : Script) : Machine Session Action where
  start := { coming := script.rounds }
  step := step script

/-! ## What a step can do -/

/-- **The steps of a session**, one constructor per action, with everything the action checks. -/
inductive Moved (script : Script) (s : Session) : Action → Session → Prop
  | timeout (hpc : s.pc = .timer) :
      Moved script s .timeout { s with pc := .reading, log := s.log ++ [.timeout script.timeout] }
  | readSome {r coming} (hpc : s.pc = .reading) (hcoming : s.coming = r :: coming) :
      Moved script s .readSome
        { s with pc := .writing r.sent (r.fault.map Prod.snd), coming := coming, read := s.read ++ r.data }
  | readError {error} (hpc : s.pc = .reading) (hcoming : s.coming = []) (hlast : script.last = some error) :
      Moved script s .readError { s with pc := .shutdown, log := s.log ++ [.session error] }
  | handOver {k rest error} (hpc : s.pc = .writing rest error) (hpos : 0 < k) (hk : k ≤ rest.length) :
      Moved script s (.handOver k)
        { s with pc := .writing (rest.drop k) error, written := s.written ++ rest.take k }
  | written {error} (hpc : s.pc = .writing [] error) : Moved script s .written { s with pc := .reading }
  | shutdown (hpc : s.pc = .shutdown) : Moved script s .shutdown { s with pc := .close }
  | close (hpc : s.pc = .close) : Moved script s .close { s with pc := .returned }

variable {script : Script} {s s' : Session}

theorem step_moved {a : Action} (hs : step script s a = some s') : Moved script s a s' := by
  cases a with
  | timeout =>
      simp only [step] at hs
      split at hs
      · next hpc => cases hs; exact .timeout hpc
      · exact absurd hs (by simp)
  | readSome =>
      simp only [step] at hs
      split at hs
      · next hpc hcoming => cases hs; exact .readSome hpc hcoming
      · exact absurd hs (by simp)
  | readError =>
      simp only [step] at hs
      split at hs
      · next hpc hcoming hlast => cases hs; exact .readError hpc hcoming hlast
      · exact absurd hs (by simp)
  | handOver k =>
      simp only [step] at hs
      split at hs
      · next hpc =>
        split at hs
        · next hk => cases hs; exact .handOver hpc hk.1 hk.2
        · exact absurd hs (by simp)
      · exact absurd hs (by simp)
  | written =>
      simp only [step] at hs
      split at hs
      · next hpc => cases hs; exact .written hpc
      · exact absurd hs (by simp)
  | shutdown =>
      simp only [step] at hs
      split at hs
      · next hpc => cases hs; exact .shutdown hpc
      · exact absurd hs (by simp)
  | close =>
      simp only [step] at hs
      split at hs
      · next hpc => cases hs; exact .close hpc
      · exact absurd hs (by simp)

/-! ## What holds in every state -/

/-- What the write in progress still hands over. -/
def Pc.rest : Pc → Bytes
  | .writing rest _ => rest
  | _ => []

/-- Out of the loop. -/
def Pc.out : Pc → Bool
  | .shutdown | .close | .returned => true
  | _ => false

/-- All that some rounds read, -/
def data (rounds : List Round) : Bytes := rounds.flatMap Round.data

/-- and all that they hand over. -/
def sent (rounds : List Round) : Bytes := rounds.flatMap Round.sent

/-- **The state of a session** whose rounds `done` have been begun. -/
structure Inv (script : Script) (s : Session) (done : List Round) : Prop where
  rounds  : script.rounds = done ++ s.coming
  read    : s.read = data done
  written : s.written ++ s.pc.rest = sent done
  out     : s.pc.out = true → s.coming = []

theorem start_inv : Inv script (session script).start [] :=
  ⟨rfl, rfl, rfl, fun h => absurd h (by simp [session, Pc.out])⟩

theorem Inv.step {done : List Round} (h : Inv script s done) {a : Action} (hs : step script s a = some s') :
    ∃ done', Inv script s' done' := by
  have hwritten := h.written
  cases step_moved hs with
  | timeout hpc =>
      rw [hpc] at hwritten
      exact ⟨done, h.rounds, h.read, hwritten, fun hout => absurd hout (by simp [Pc.out])⟩
  | readSome hpc hcoming =>
      next r coming =>
      rw [hpc] at hwritten
      have hw : s.written = sent done := (List.append_nil _).symm.trans hwritten
      refine ⟨done ++ [r], ?_, ?_, ?_, fun hout => absurd hout (by simp [Pc.out])⟩
      · rw [List.append_assoc, List.singleton_append, ← hcoming]
        exact h.rounds
      · show s.read ++ r.data = data (done ++ [r])
        rw [h.read, data, data, List.flatMap_append, List.flatMap_singleton]
      · show s.written ++ r.sent = sent (done ++ [r])
        rw [hw, sent, sent, List.flatMap_append, List.flatMap_singleton]
  | readError hpc hcoming =>
      rw [hpc] at hwritten
      exact ⟨done, h.rounds, h.read, hwritten, fun _ => hcoming⟩
  | handOver hpc =>
      next k rest error _ _ =>
      rw [hpc] at hwritten
      refine ⟨done, h.rounds, h.read, ?_, fun hout => absurd hout (by simp [Pc.out])⟩
      show s.written ++ rest.take k ++ rest.drop k = sent done
      rw [List.append_assoc, List.take_append_drop]
      exact hwritten
  | written hpc =>
      rw [hpc] at hwritten
      exact ⟨done, h.rounds, h.read, hwritten, fun hout => absurd hout (by simp [Pc.out])⟩
  | shutdown hpc =>
      have hcoming := h.out (by rw [hpc]; rfl)
      rw [hpc] at hwritten
      exact ⟨done, h.rounds, h.read, hwritten, fun _ => hcoming⟩
  | close hpc =>
      have hcoming := h.out (by rw [hpc]; rfl)
      rw [hpc] at hwritten
      exact ⟨done, h.rounds, h.read, hwritten, fun _ => hcoming⟩

theorem reachable_inv (h : (session script).Reachable Anything s) : ∃ done, Inv script s done :=
  h.invariant (I := fun s => ∃ done, Inv script s done) ⟨[], start_inv⟩ fun _ ⟨_, hi⟩ _ hs => hi.step hs

/-! ## The script to its end -/

/-- A write hands its bytes over. -/
theorem steps_written {rest : Bytes} {error : Option ErrorCode} (hpc : s.pc = .writing rest error) :
    (session script).Steps Anything s { s with pc := .reading, written := s.written ++ rest } := by
  by_cases hrest : rest = []
  · subst hrest
    apply Steps.single (a := .written) trivial
    show step script s .written = _
    simp only [step, hpc, List.append_nil]
  · have hpos : 0 < rest.length := List.length_pos_iff.mpr hrest
    have hover : (session script).step s (.handOver rest.length) =
        some { s with pc := .writing [] error, written := s.written ++ rest } := by
      show step script s (.handOver rest.length) = _
      simp only [step, hpc, if_pos (And.intro hpos (Nat.le_refl _)), List.drop_length, List.take_length]
    exact (Steps.single (a := .handOver rest.length) trivial hover).trans (Steps.single (a := .written) trivial rfl)

/-- The rounds that are to come are read and written, one after the other. -/
theorem steps_rounds (rounds : List Round) (hpc : s.pc = .reading) (hcoming : s.coming = rounds) :
    ∃ t, (session script).Steps Anything s t ∧ t.read = s.read ++ data rounds ∧
      t.written = s.written ++ sent rounds := by
  induction rounds generalizing s with
  | nil => exact ⟨s, .refl, (List.append_nil _).symm, (List.append_nil _).symm⟩
  | cons r rounds ih =>
      have hread : (session script).step s .readSome = some { s with
          pc := .writing r.sent (r.fault.map Prod.snd), coming := rounds, read := s.read ++ r.data } := by
        show step script s .readSome = _
        simp only [step, hpc, hcoming]
      obtain ⟨t, hto, htread, htwritten⟩ := ih (s := { s with
          pc := .reading, coming := rounds, read := s.read ++ r.data, written := s.written ++ r.sent }) rfl rfl
      refine ⟨t, ((Steps.single (a := .readSome) trivial hread).trans (steps_written rfl)).trans hto, ?_, ?_⟩
      · rw [htread, data, data, List.flatMap_cons, List.append_assoc]
      · rw [htwritten, sent, sent, List.flatMap_cons, List.append_assoc]

theorem reachable_end (script : Script) :
    ∃ s, (session script).Reachable Anything s ∧ s.read = data script.rounds ∧ s.written = sent script.rounds := by
  have htimeout : (session script).step (session script).start .timeout =
      some { pc := .reading, coming := script.rounds, log := [.timeout script.timeout] } := rfl
  obtain ⟨t, hto, hread, hwritten⟩ := @steps_rounds script
    { pc := .reading, coming := script.rounds, log := [.timeout script.timeout] } script.rounds rfl rfl
  exact ⟨t, (Steps.single (a := .timeout) trivial htimeout).trans hto, hread, hwritten⟩

/-! ## Holes -/

/-- **No hole**: in every state what was handed to the socket is a prefix of what was read from it, and if no
    operation failed but the last read, the session closes the socket with nothing left. -/
structure NoHole (script : Script) : Prop where
  fifo   : ∀ s, (session script).Reachable Anything s → s.written <+: s.read
  closed : (∀ r ∈ script.rounds, r.fault = none) →
             ∀ s, (session script).Reachable Anything s → s.pc.out = true → s.written = s.read

/-- After the first failed write the session hands over the bytes that this write has left out, or none. -/
def Harmless : List Round → Prop
  | [] => True
  | r :: rounds => match r.fault with
      | none   => Harmless rounds
      | some _ => sent rounds <+: r.left ++ data rounds

/-- After the first failed write no other hands over anything. -/
def Quiet : List Round → Prop
  | [] => True
  | r :: rounds => match r.fault with
      | none   => Quiet rounds
      | some _ => sent rounds = []

theorem Round.sent_append_left (r : Round) : r.sent ++ r.left = r.data := List.take_append_drop _ _

theorem Round.sent_ok {r : Round} (h : r.fault = none) : r.sent = r.data := by
  rw [Round.sent, h]
  exact List.take_length

theorem data_cons (r : Round) (rounds : List Round) : data (r :: rounds) = r.data ++ data rounds := List.flatMap_cons

theorem sent_cons (r : Round) (rounds : List Round) : sent (r :: rounds) = r.sent ++ sent rounds := List.flatMap_cons

/-- Up to the first failure both streams are the same. -/
theorem harmless_iff (rounds : List Round) : Harmless rounds ↔ sent rounds <+: data rounds := by
  induction rounds with
  | nil => exact iff_of_true trivial (List.prefix_refl _)
  | cons r rounds ih =>
      rw [data_cons, sent_cons, ← r.sent_append_left, List.append_assoc, List.prefix_append_right_inj]
      unfold Harmless
      split
      · next hok =>
        have hleft : r.left = [] := by
          have := r.sent_append_left
          rw [Round.sent_ok hok] at this
          exact List.append_right_eq_self.mp this
        rw [hleft, List.nil_append]
        exact ih
      · exact Iff.rfl

theorem sent_of_ok {rounds : List Round} (h : ∀ r ∈ rounds, r.fault = none) : sent rounds = data rounds := by
  induction rounds with
  | nil => rfl
  | cons r rounds ih =>
      rw [data_cons, sent_cons, Round.sent_ok (h r List.mem_cons_self), ih fun x hx => h x (List.mem_cons_of_mem _ hx)]

theorem Round.sent_length_le (r : Round) : r.sent.length ≤ r.data.length := by
  rw [← congrArg List.length r.sent_append_left, List.length_append]
  exact Nat.le_add_right _ _

theorem sent_length_le (rounds : List Round) : (sent rounds).length ≤ (data rounds).length := by
  induction rounds with
  | nil => exact Nat.le_refl 0
  | cons r rounds ih =>
      rw [data_cons, sent_cons, List.length_append, List.length_append]
      exact Nat.add_le_add r.sent_length_le ih

/-- What holds of the whole stream holds in every state on the way. -/
theorem Inv.fifo {done : List Round} (h : Inv script s done) (hwhole : sent script.rounds <+: data script.rounds) :
    s.written <+: s.read := by
  have hsent : sent done <+: sent script.rounds := by
    rw [h.rounds, sent, sent, List.flatMap_append]
    exact List.prefix_append _ _
  have hdata : data done <+: data script.rounds := by
    rw [h.rounds, data, data, List.flatMap_append]
    exact List.prefix_append _ _
  have hwritten : s.written <+: sent done := by
    rw [← h.written]
    exact List.prefix_append _ _
  rw [h.read]
  exact hwritten.trans (List.prefix_of_prefix_length_le (hsent.trans hwhole) hdata (sent_length_le done))

theorem Inv.closed {done : List Round} (h : Inv script s done) (hok : ∀ r ∈ script.rounds, r.fault = none)
    (hout : s.pc.out = true) : s.written = s.read := by
  have hdone : script.rounds = done := by
    rw [h.rounds, h.out hout, List.append_nil]
  have hrest : s.pc.rest = [] := by
    cases hpc : s.pc <;> rw [hpc] at hout <;> first | rfl | cases hout
  have hwritten := h.written
  rw [hrest, List.append_nil] at hwritten
  rw [hwritten, h.read, ← hdone]
  exact sent_of_ok hok

theorem noHole_iff_harmless (script : Script) : NoHole script ↔ Harmless script.rounds := by
  rw [harmless_iff]
  constructor
  · intro h
    obtain ⟨s, hr, hread, hwritten⟩ := reachable_end script
    have := h.fifo s hr
    rwa [hread, hwritten] at this
  · intro hwhole
    refine ⟨?_, ?_⟩
    · intro s hr
      obtain ⟨done, hi⟩ := reachable_inv hr
      exact hi.fifo hwhole
    · intro hok s hr hout
      obtain ⟨done, hi⟩ := reachable_inv hr
      exact hi.closed hok hout

/-! ## Bytes of any content -/

/-- The same lengths and the same errors, with other bytes. -/
def SameShape (r r' : Round) : Prop := r.data.length = r'.data.length ∧ r.fault = r'.fault

theorem SameShape.sent_nil {r r' : Round} (h : SameShape r r') (hnil : r.sent = []) : r'.sent = [] := by
  have hlen := congrArg List.length hnil
  simp only [Round.sent, List.length_take, List.length_nil] at hlen
  simp only [List.eq_nil_iff_length_eq_zero, Round.sent, List.length_take, ← h.1, ← h.2]
  exact hlen

theorem sent_nil_sameShape {rounds rounds' : List Round} (hsame : List.Forall₂ SameShape rounds rounds')
    (hnil : sent rounds = []) : sent rounds' = [] := by
  induction hsame with
  | nil => rfl
  | cons hr _ ih =>
      rw [sent_cons] at hnil ⊢
      obtain ⟨hhead, htail⟩ := List.append_eq_nil_iff.mp hnil
      rw [hr.sent_nil hhead, ih htail, List.append_nil]

/-- Whether a session is quiet does not depend on the bytes. -/
theorem Quiet.sameShape {rounds rounds' : List Round} (h : Quiet rounds) (hsame : List.Forall₂ SameShape rounds rounds') :
    Quiet rounds' := by
  induction hsame with
  | nil => trivial
  | @cons r r' rounds rounds' hr hrounds ih =>
      unfold Quiet at h ⊢
      rw [hr.2] at h
      split
      · next hok =>
        simp only [hok] at h
        exact ih h
      · next hfault =>
        simp only [hfault] at h
        exact sent_nil_sameShape hrounds h

theorem Quiet.harmless {rounds : List Round} (h : Quiet rounds) : Harmless rounds := by
  induction rounds with
  | nil => trivial
  | cons r rounds ih =>
      unfold Quiet at h
      unfold Harmless
      split
      · next hok =>
        simp only [hok] at h
        exact ih h
      · next hfault =>
        simp only [hfault] at h
        rw [h]
        exact List.nil_prefix

/-- A round with the same shape whose bytes are all `b`. -/
def Round.paint (b : UInt8) (r : Round) : Round where
  data := List.replicate r.data.length b
  size := by rw [List.length_replicate]; exact r.size
  fault := r.fault
  proper := by rw [List.length_replicate]; exact r.proper

/-- Bytes `0` up to the first failure, and `1` afterwards. -/
def paint : List Round → List Round
  | [] => []
  | r :: rounds => r.paint 0 :: match r.fault with
      | none   => paint rounds
      | some _ => rounds.map (Round.paint 1)

theorem Round.sameShape_paint (b : UInt8) (r : Round) : SameShape r (r.paint b) :=
  ⟨List.length_replicate.symm, rfl⟩

theorem sameShape_paint (rounds : List Round) : List.Forall₂ SameShape rounds (paint rounds) := by
  induction rounds with
  | nil => exact .nil
  | cons r rounds ih =>
      apply List.Forall₂.cons (r.sameShape_paint 0)
      split
      · exact ih
      · exact List.forall₂_map_right_iff.mpr (List.forall₂_same.mpr fun x _ => x.sameShape_paint 1)

theorem Round.sent_paint (b : UInt8) (r : Round) : (r.paint b).sent = List.replicate r.sent.length b := by
  simp [Round.sent, Round.paint, List.take_replicate]

theorem sent_paint (b : UInt8) (rounds : List Round) :
    sent (rounds.map (Round.paint b)) = List.replicate (sent rounds).length b := by
  induction rounds with
  | nil => rfl
  | cons r rounds ih =>
      rw [List.map_cons, sent_cons, sent_cons, ih, Round.sent_paint, List.length_append, List.replicate_append_replicate]

/-- A failed write leaves something out, in a painted round a `0`. -/
theorem Round.left_paint {r : Round} {f : Nat × ErrorCode} (h : r.fault = some f) :
    ∃ rest, (r.paint 0).left = 0 :: rest := by
  have hlt := r.proper f h
  have hleft : (r.paint 0).left = List.replicate (r.data.length - f.1) 0 := by
    simp [Round.left, Round.paint, h]
  obtain ⟨m, hm⟩ : ∃ m, r.data.length - f.1 = m + 1 := ⟨r.data.length - f.1 - 1, by omega⟩
  exact ⟨List.replicate m 0, by rw [hleft, hm, List.replicate_succ]⟩

/-- With these bytes nothing that is handed over after a failure passes for what was left out. -/
theorem quiet_of_paint {rounds : List Round} (h : Harmless (paint rounds)) : Quiet rounds := by
  induction rounds with
  | nil => trivial
  | cons r rounds ih =>
      unfold Quiet
      unfold paint Harmless at h
      split
      · next hok =>
        have hok' : (r.paint 0).fault = none := hok
        simp only [hok, hok'] at h
        exact ih h
      · next f hfault =>
        have hfault' : (r.paint 0).fault = some f := hfault
        simp only [hfault, hfault'] at h
        obtain ⟨rest, hrest⟩ := Round.left_paint hfault
        rw [hrest, sent_paint] at h
        by_contra hne
        obtain ⟨m, hm⟩ : ∃ m, (sent rounds).length = m + 1 :=
          Nat.exists_eq_succ_of_ne_zero fun hzero => hne (List.eq_nil_of_length_eq_zero hzero)
        rw [hm, List.replicate_succ, List.cons_append, List.cons_prefix_cons] at h
        exact absurd h.1 (by decide)

/-- **A session never echoes a stream with a hole, exactly if its failed writes are harmless.** For every script:
    the stream has no hole if and only if what is handed over after the first failed write repeats what that write
    has left out; and this holds whatever the bytes are if and only if nothing is handed over any more. -/
theorem no_hole_iff (script : Script) :
    (NoHole script ↔ Harmless script.rounds) ∧
    ((∀ rounds, List.Forall₂ SameShape script.rounds rounds → NoHole { script with rounds := rounds }) ↔
      Quiet script.rounds) := by
  refine ⟨noHole_iff_harmless script, ?_, ?_⟩
  · intro h
    exact quiet_of_paint ((noHole_iff_harmless _).mp (h _ (sameShape_paint script.rounds)))
  · intro h rounds hsame
    exact (noHole_iff_harmless _).mpr (h.sameShape hsame).harmless

/-- `ENOBUFS` on the first write, and the second succeeds. -/
def enobufs : Script where
  timeout := none
  rounds := [{ data := [1], size := by decide, fault := some (0, ⟨105⟩), proper := by decide },
    { data := [2], size := by decide, proper := by decide }]
  last := some ⟨2⟩

/-- **A hole**: of the bytes `1` and `2` the session echoes the `2` only. -/
theorem hole_enobufs : ¬ NoHole enobufs := by
  intro h
  have hr : (session enobufs).Reachable Anything _ :=
    reachable_get (l := [.timeout, .readSome, .written, .readSome, .handOver 1]) rfl
  exact absurd (h.fifo _ hr) (by decide)

end AsyncCpp.TcpSession
