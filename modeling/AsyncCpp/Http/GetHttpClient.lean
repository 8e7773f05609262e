import Mathlib.Data.List.Basic
import AsyncCpp.Lib.Machine

/-!
# `Http.GetHttpClient` — the HTTP clients and the lambda that gives them out in turn

The loop that fills `http_clients` and the lambda `get_http_client`, which `test_drogon.cpp` and `test.cpp` share
word for word. Any number of threads call the lambda; each of its statements is a step of its own, and the mutex
`tx` keeps the calls apart. What `std::thread::hardware_concurrency()` answers, at each of its call sites, is an
argument of the action that asks: it is a hint, and may be `0` or another one every time.

## Contents
- `Clients`, its `step`; `clients τ`, the machine for callers from `τ`.
- `Moved`, the steps; `Inv`, what holds in every state (`reachable_inv`).
- `Safe`, `Told`; `safe_iff`.
-/

namespace AsyncCpp.Http

open Machine

/-- `drogon::HttpClientPtr`; the filling loop gives the clients their numbers. -/
abbrev HttpClientPtr := Nat

/-- What a call of the lambda compares. -/
structure Call where
  /-- `count`, as the call finds it. -/
  found : UInt32
  /-- The answer of `hardware_concurrency()`. -/
  told  : UInt32
deriving DecidableEq

inductive MainPc
  /-- At `i < std::thread::hardware_concurrency()`. -/
  | fill (i : UInt32)
  /-- The lambda is there. -/
  | ready
deriving DecidableEq

/-- A thread, as far as it calls the lambda. The comparison of its call is ghost. -/
inductive ThreadPc
  | idle
  /-- Has locked `tx`; at `if (count == std::thread::hardware_concurrency())`. -/
  | locked
  /-- At `count = 0`. -/
  | wrap (c : Call)
  /-- At `return http_clients[count++]`. -/
  | select (c : Call)
  /-- With the reference to `http_clients[j]`; `lk` is still alive. -/
  | selected (j : Nat) (client : HttpClientPtr)
  /-- Indexed outside of the vector. -/
  | undefined
deriving DecidableEq

structure Clients (τ : Type) where
  main         : MainPc := .fill 0
  http_clients : List HttpClientPtr := []
  count        : UInt32 := 0
  /-- The thread that has locked the mutex. -/
  tx           : Option τ := none
  threads      : τ → ThreadPc := fun _ => .idle
  /-- The indices that the calls have used, in the order of their critical sections; ghost. -/
  indices      : List Nat := []
  /-- Their comparisons; ghost. -/
  calls        : List Call := []

inductive Action (τ : Type)
  /-- The condition of the filling loop, and its body. -/
  | condition (hint : UInt32)
  /-- `std::lock_guard<std::mutex> lk(tx)` -/
  | lock (t : τ)
  | test (t : τ) (hint : UInt32)
  | wrap (t : τ)
  | select (t : τ)
  /-- The destructor of `lk`. -/
  | unlock (t : τ)

variable {τ : Type} [DecidableEq τ] {s s' : Clients τ}

def Clients.goto (s : Clients τ) (t : τ) (pc : ThreadPc) : Clients τ :=
  { s with threads := Function.update s.threads t pc }

/-- `http_clients[count++]` by thread `t`. -/
def Clients.index (s : Clients τ) (t : τ) (c : Call) : Clients τ :=
  { s with
    count := s.count + 1, indices := s.indices ++ [s.count.toNat], calls := s.calls ++ [c],
    threads := Function.update s.threads t <|
      match s.http_clients[s.count.toNat]? with
      | some client => .selected s.count.toNat client
      | none => .undefined }

theorem Clients.index_self {t : τ} {c : Call} (h : s.count.toNat < s.http_clients.length) :
    (s.index t c).threads t = .selected s.count.toNat s.http_clients[s.count.toNat] := by
  show Function.update _ _ _ t = _
  rw [Function.update_self, List.getElem?_eq_getElem h]

def step (s : Clients τ) : Action τ → Option (Clients τ)
  | .condition hint =>
      match s.main with
      | .fill i =>
          if i < hint then
            some { s with http_clients := s.http_clients ++ [s.http_clients.length], main := .fill (i + 1) }
          else some { s with main := .ready }
      | .ready => none
  | .lock t =>
      if s.main = .ready ∧ s.tx = none ∧ s.threads t = .idle then some { s.goto t .locked with tx := some t } else none
  | .test t hint =>
      match s.threads t with
      | .locked => some (s.goto t (if s.count = hint then .wrap ⟨s.count, hint⟩ else .select ⟨s.count, hint⟩))
      | _ => none
  | .wrap t =>
      match s.threads t with
      | .wrap c => some { s.goto t (.select c) with count := 0 }
      | _ => none
  | .select t =>
      match s.threads t with
      | .select c => some (s.index t c)
      | _ => none
  | .unlock t =>
      match s.threads t with
      | .selected _ _ => some { s.goto t .idle with tx := none }
      | _ => none

def clients (τ : Type) [DecidableEq τ] : Machine (Clients τ) (Action τ) where
  start := {}
  step := step

/-! ## What a step can do -/

/-- **The steps**, one constructor per action and outcome, with everything the action checks. -/
inductive Moved (s : Clients τ) : Action τ → Clients τ → Prop
  | emplace {i hint} (hpc : s.main = .fill i) (hlt : i < hint) :
      Moved s (.condition hint)
        { s with http_clients := s.http_clients ++ [s.http_clients.length], main := .fill (i + 1) }
  | filled {i hint} (hpc : s.main = .fill i) (hge : ¬ i < hint) : Moved s (.condition hint) { s with main := .ready }
  | lock {t} (hmain : s.main = .ready) (htx : s.tx = none) (hpc : s.threads t = .idle) :
      Moved s (.lock t) { s.goto t .locked with tx := some t }
  | test {t hint} (hpc : s.threads t = .locked) :
      Moved s (.test t hint) (s.goto t (if s.count = hint then .wrap ⟨s.count, hint⟩ else .select ⟨s.count, hint⟩))
  | wrap {t c} (hpc : s.threads t = .wrap c) : Moved s (.wrap t) { s.goto t (.select c) with count := 0 }
  | select {t c} (hpc : s.threads t = .select c) : Moved s (.select t) (s.index t c)
  | unlock {t j client} (hpc : s.threads t = .selected j client) :
      Moved s (.unlock t) { s.goto t .idle with tx := none }

theorem step_moved {a : Action τ} (hs : step s a = some s') : Moved s a s' := by
  cases a with
  | condition hint =>
      simp only [step] at hs
      split at hs
      · next hpc =>
        split at hs
        · next hlt => cases hs; exact .emplace hpc hlt
        · next hge => cases hs; exact .filled hpc hge
      · exact absurd hs (by simp)
  | lock t =>
      simp only [step] at hs
      split at hs
      · next hg => cases hs; exact .lock hg.1 hg.2.1 hg.2.2
      · exact absurd hs (by simp)
  | test t hint =>
      simp only [step] at hs
      split at hs
      · next hpc => cases hs; exact .test hpc
      · exact absurd hs (by simp)
  | wrap t =>
      simp only [step] at hs
      split at hs
      · next hpc => cases hs; exact .wrap hpc
      · exact absurd hs (by simp)
  | select t =>
      simp only [step] at hs
      split at hs
      · next hpc => cases hs; exact .select hpc
      · exact absurd hs (by simp)
  | unlock t =>
      simp only [step] at hs
      split at hs
      · next hpc => cases hs; exact .unlock hpc
      · exact absurd hs (by simp)

/-! ## What holds in every state -/

/-- No call has left the vector. -/
structure Safe (s : Clients τ) : Prop where
  inside   : ∀ j ∈ s.indices, j < s.http_clients.length
  counter  : s.count.toNat ≤ s.http_clients.length
  returned : ∀ t j client, s.threads t = .selected j client → s.http_clients[j]? = some client

/-- There are clients, and a call that finds the counter at their number is told this number. -/
def Call.Honest (size : Nat) (c : Call) : Prop := 0 < size ∧ (c.found.toNat = size → c.told.toNat = size)

/-- The calls so far were told the truth, as far as they depend on it. -/
def Told (s : Clients τ) : Prop := ∀ c ∈ s.calls, c.Honest s.http_clients.length

/-- What one call leaves to the next. -/
structure Sound (s : Clients τ) : Prop where
  told    : Told s
  inside  : ∀ j ∈ s.indices, j < s.http_clients.length
  counter : s.count.toNat ≤ s.http_clients.length

/-- What a thread at this place knows. -/
def Stage (s : Clients τ) : ThreadPc → Prop
  | .idle              => True
  | .locked            => Sound s
  | .wrap c            => Sound s ∧ c = ⟨s.count, s.count⟩
  | .select c          => Sound s ∧ (c.Honest s.http_clients.length ↔ s.count.toNat < s.http_clients.length)
  | .selected j client => Sound s ∧ s.http_clients[j]? = some client
  | .undefined         => ¬ Safe s ∧ ¬ Told s

structure Inv (s : Clients τ) : Prop where
  size    : s.http_clients.length < 2 ^ 32
  filling : ∀ i, s.main = .fill i → s.http_clients.length = i.toNat ∧ s.tx = none ∧ s.indices = [] ∧ s.calls = [] ∧
              s.count = 0
  held    : ∀ t, s.tx = some t ↔ s.threads t ≠ .idle
  free    : s.tx = none → Sound s
  stage   : ∀ t, Stage s (s.threads t)

theorem start_inv : Inv (clients τ).start where
  size := Nat.two_pow_pos 32
  filling := by
    intro i hi
    cases hi
    exact ⟨rfl, rfl, rfl, rfl, rfl⟩
  held := by
    intro t
    exact ⟨fun h => absurd h (by simp [clients]), fun h => absurd rfl h⟩
  free := by
    intro _
    exact ⟨fun c hc => absurd hc List.not_mem_nil, fun j hj => absurd hj List.not_mem_nil, Nat.le_refl 0⟩
  stage := by
    intro t
    trivial

omit [DecidableEq τ] in
theorem Inv.all_idle (h : Inv s) (htx : s.tx = none) (t : τ) : s.threads t = .idle := by
  by_contra hne
  rw [(h.held t).mpr hne] at htx
  cases htx

omit [DecidableEq τ] in
/-- The mutex excludes: while one thread is in the lambda all others are out of it. -/
theorem Inv.idle (h : Inv s) {t u : τ} (ht : s.threads t ≠ .idle) (hu : u ≠ t) : s.threads u = .idle := by
  by_contra hne
  have htx := (h.held t).mpr ht
  rw [(h.held u).mpr hne] at htx
  exact hu (Option.some.inj htx)

omit [DecidableEq τ] in
theorem Inv.main_ready (h : Inv s) {t : τ} (ht : s.threads t ≠ .idle) : s.main = .ready := by
  cases hmain : s.main with
  | ready => rfl
  | fill i =>
      have htx := (h.held t).mpr ht
      rw [(h.filling i hmain).2.1] at htx
      cases htx

omit [DecidableEq τ] in
theorem Inv.stage_at (h : Inv s) {t : τ} {pc : ThreadPc} (hpc : s.threads t = pc) : Stage s pc := by
  subst hpc
  exact h.stage t

/-- **A statement of the lambda.** The thread that holds the mutex goes to another place, at which it knows what
    it has to know. -/
theorem Inv.move (h : Inv s) {t : τ} {pc : ThreadPc} (ht : s.threads t ≠ .idle) (hpc : pc ≠ .idle)
    (hmain : s'.main = s.main) (hclients : s'.http_clients = s.http_clients) (htx : s'.tx = s.tx)
    (hthreads : s'.threads = Function.update s.threads t pc) (hstage : Stage s' pc) : Inv s' where
  size := by
    rw [hclients]
    exact h.size
  filling := by
    intro i hi
    rw [hmain, h.main_ready ht] at hi
    cases hi
  held := by
    intro u
    rw [htx, hthreads]
    by_cases hu : u = t
    · subst hu
      rw [Function.update_self]
      exact ⟨fun _ => hpc, fun _ => (h.held u).mpr ht⟩
    · rw [Function.update_of_ne hu]
      exact h.held u
  free := by
    intro hfree
    rw [htx, (h.held t).mpr ht] at hfree
    cases hfree
  stage := by
    intro u
    rw [hthreads]
    by_cases hu : u = t
    · subst hu
      rw [Function.update_self]
      exact hstage
    · rw [Function.update_of_ne hu, h.idle ht hu]
      trivial

/-! ## The statements of the lambda -/

omit [DecidableEq τ] in
/-- Before the test: the index that will be used is inside exactly if the call is told the truth. -/
theorem Sound.honest_iff {hint : UInt32} (h : Sound s) (hne : s.count ≠ hint) :
    Call.Honest s.http_clients.length ⟨s.count, hint⟩ ↔ s.count.toNat < s.http_clients.length := by
  have hcount := h.counter
  constructor
  · rintro ⟨_, htold⟩
    by_contra hge
    have heq : s.count.toNat = s.http_clients.length := by omega
    exact hne (UInt32.toNat_inj.mp (heq.trans (htold heq).symm))
  · intro hlt
    refine ⟨by omega, ?_⟩
    intro heq
    exact absurd heq (Nat.ne_of_lt hlt)

theorem Inv.step_test (h : Inv s) {t : τ} {hint : UInt32} (hpc : s.threads t = .locked) :
    Inv (s.goto t (if s.count = hint then .wrap ⟨s.count, hint⟩ else .select ⟨s.count, hint⟩)) := by
  have hsound : Sound s := h.stage_at hpc
  refine h.move (t := t) (by simp [hpc]) ?_ rfl rfl rfl rfl ?_
  · split <;> simp
  · split
    · next heq => exact ⟨⟨hsound.told, hsound.inside, hsound.counter⟩, by subst heq; rfl⟩
    · next hne => exact ⟨⟨hsound.told, hsound.inside, hsound.counter⟩, hsound.honest_iff hne⟩

theorem Inv.step_wrap (h : Inv s) {t : τ} {c : Call} (hpc : s.threads t = .wrap c) :
    Inv { s.goto t (.select c) with count := 0 } := by
  obtain ⟨hsound, rfl⟩ : Sound s ∧ c = ⟨s.count, s.count⟩ := h.stage_at hpc
  refine h.move (t := t) (by simp [hpc]) (by simp) rfl rfl rfl rfl ?_
  refine ⟨⟨hsound.told, hsound.inside, Nat.zero_le _⟩, ?_⟩
  exact ⟨fun hhonest => hhonest.1, fun hpos => ⟨hpos, id⟩⟩

theorem Inv.step_select (h : Inv s) {t : τ} {c : Call} (hpc : s.threads t = .select c) : Inv (s.index t c) := by
  obtain ⟨hsound, hiff⟩ : Sound s ∧ (c.Honest s.http_clients.length ↔ s.count.toNat < s.http_clients.length) :=
    h.stage_at hpc
  refine h.move (t := t) (by simp [hpc]) ?_ rfl rfl rfl rfl ?_
  · split <;> simp
  split
  · next client hclient =>
    obtain ⟨hlt, _⟩ := List.getElem?_eq_some_iff.mp hclient
    refine ⟨⟨?_, ?_, ?_⟩, hclient⟩
    · intro d hd
      rcases List.mem_append.mp hd with hd | hd
      · exact hsound.told d hd
      · rw [List.mem_singleton.mp hd]
        exact hiff.mpr hlt
    · intro j hj
      rcases List.mem_append.mp hj with hj | hj
      · exact hsound.inside j hj
      · rw [List.mem_singleton.mp hj]
        exact hlt
    · show (s.count + 1).toNat ≤ s.http_clients.length
      rw [UInt32.toNat_add]
      exact Nat.le_trans (Nat.mod_le _ _) hlt
  · next hnone =>
    have hge : ¬ s.count.toNat < s.http_clients.length := by
      rw [List.getElem?_eq_none_iff] at hnone
      omega
    refine ⟨?_, ?_⟩
    · intro hsafe
      exact hge (hsafe.inside _ (List.mem_append_right _ List.mem_cons_self))
    · intro htold
      exact hge (hiff.mp (htold c (List.mem_append_right _ List.mem_cons_self)))

omit [DecidableEq τ] in
/-- Another round of the filling loop. The answer of `hardware_concurrency()` bounds the number of clients. -/
theorem Inv.step_emplace (h : Inv s) {i hint : UInt32} (hpc : s.main = .fill i) (hlt : i < hint) :
    Inv { s with http_clients := s.http_clients ++ [s.http_clients.length], main := .fill (i + 1) } := by
  obtain ⟨hlen, htx, hindices, hcalls, hcount⟩ := h.filling i hpc
  have hbound : i.toNat + 1 < 2 ^ 32 := Nat.lt_of_le_of_lt (UInt32.lt_iff_toNat_lt.mp hlt) hint.toNat_lt
  have hsucc : (i + 1).toNat = i.toNat + 1 := by
    rw [UInt32.toNat_add]
    exact Nat.mod_eq_of_lt hbound
  have hlen' : (s.http_clients ++ [s.http_clients.length]).length = i.toNat + 1 := by
    rw [List.length_append, List.length_singleton, hlen]
  refine ⟨?_, ?_, h.held, ?_, ?_⟩
  · show (s.http_clients ++ [s.http_clients.length]).length < 2 ^ 32
    rw [hlen']
    exact hbound
  · intro i' hi'
    cases hi'
    exact ⟨hlen'.trans hsucc.symm, htx, hindices, hcalls, hcount⟩
  · intro _
    exact ⟨by simp [Told, hcalls], by simp [hindices], by simp [hcount]⟩
  · intro t
    show Stage _ (s.threads t)
    rw [h.all_idle htx t]
    trivial

/-- Between two calls the mutex changes hands. -/
theorem Inv.step_lock (h : Inv s) {t : τ} (hmain : s.main = .ready) (htx : s.tx = none) :
    Inv { s.goto t .locked with tx := some t } := by
  have hsound := h.free htx
  refine ⟨h.size, ?_, ?_, ?_, ?_⟩
  · intro i hi
    exact absurd (hmain.symm.trans hi) (by simp)
  · intro u
    show some t = some u ↔ Function.update s.threads t .locked u ≠ .idle
    by_cases hu : u = t
    · subst hu
      simp
    · rw [Function.update_of_ne hu, h.all_idle htx u]
      simpa using Ne.symm hu
  · intro hfree
    cases hfree
  · intro u
    show Stage _ (Function.update s.threads t .locked u)
    by_cases hu : u = t
    · subst hu
      rw [Function.update_self]
      exact ⟨hsound.told, hsound.inside, hsound.counter⟩
    · rw [Function.update_of_ne hu, h.all_idle htx u]
      trivial

theorem Inv.step_unlock (h : Inv s) {t : τ} {j : Nat} {client : HttpClientPtr}
    (hpc : s.threads t = .selected j client) : Inv { s.goto t .idle with tx := none } := by
  have hne : s.threads t ≠ .idle := by simp [hpc]
  have hsound : Sound s := (h.stage_at hpc).1
  have hidle : ∀ u, Function.update s.threads t .idle u = .idle := by
    intro u
    by_cases hu : u = t
    · subst hu
      rw [Function.update_self]
    · rw [Function.update_of_ne hu, h.idle hne hu]
  refine ⟨h.size, ?_, ?_, fun _ => ⟨hsound.told, hsound.inside, hsound.counter⟩, ?_⟩
  · intro i hi
    exact absurd ((h.main_ready hne).symm.trans hi) (by simp)
  · intro u
    exact ⟨fun htx => absurd htx (by simp), fun hu => absurd (hidle u) hu⟩
  · intro u
    show Stage _ (Function.update s.threads t .idle u)
    rw [hidle u]
    trivial

theorem Inv.step (h : Inv s) {a : Action τ} (hs : step s a = some s') : Inv s' := by
  cases step_moved hs with
  | emplace hpc hlt => exact h.step_emplace hpc hlt
  | filled hpc =>
      obtain ⟨_, htx, _⟩ := h.filling _ hpc
      have hsound := h.free htx
      refine ⟨h.size, ?_, h.held, fun _ => ⟨hsound.told, hsound.inside, hsound.counter⟩, ?_⟩
      · intro i hi
        cases hi
      · intro t
        show Stage _ (s.threads t)
        rw [h.all_idle htx t]
        trivial
  | lock hmain htx => exact h.step_lock hmain htx
  | test hpc => exact h.step_test hpc
  | wrap hpc => exact h.step_wrap hpc
  | select hpc => exact h.step_select hpc
  | unlock hpc => exact h.step_unlock hpc

theorem reachable_inv (h : (clients τ).Reachable Anything s) : Inv s :=
  h.invariant start_inv fun _ hi _ hs => hi.step hs

/-! ## When the lambda stays inside -/

omit [DecidableEq τ] in
/-- Wherever the call in progress is, it has not left the vector, or it was told something wrong. -/
theorem Stage.sound_or {pc : ThreadPc} (h : Stage s pc) (hpc : pc ≠ .idle) : Sound s ∨ ¬ Safe s ∧ ¬ Told s := by
  cases pc with
  | idle => exact absurd rfl hpc
  | locked => exact .inl h
  | wrap | select | selected => exact .inl h.1
  | undefined => exact .inr h

omit [DecidableEq τ] in
theorem Inv.sound_or (h : Inv s) : Sound s ∨ ¬ Safe s ∧ ¬ Told s := by
  cases htx : s.tx with
  | none => exact .inl (h.free htx)
  | some t =>
      apply (h.stage t).sound_or
      exact (h.held t).mp htx

/-- **The lambda stays inside of `http_clients` exactly if it is told the truth at the end of each round.** In
    every state that any number of calls of any threads leads to, whatever `hardware_concurrency()` answered. -/
theorem safe_iff (s : Clients τ) (h : (clients τ).Reachable Anything s) : Safe s ↔ Told s := by
  have hi := reachable_inv h
  rcases hi.sound_or with hsound | ⟨hbad, huntold⟩
  · refine iff_of_true ⟨hsound.inside, hsound.counter, ?_⟩ hsound.told
    intro t j client hpc
    exact (hi.stage_at hpc).2
  · exact iff_of_false hbad huntold

/-- One client, and two threads that take it in turn. -/
def twoCalls : List (Action Bool) :=
  [.condition 1, .condition 1, .lock true, .test true 8, .select true, .unlock true, .lock false, .test false 1,
    .wrap false, .select false, .unlock false]

theorem safe_iff_twoCalls :
    ∃ h : ((clients Bool).exec Anything (clients Bool).start twoCalls).isSome,
      (Option.get _ h).indices = [0, 0] ∧ (Safe (Option.get _ h) ↔ Told (Option.get _ h)) :=
  ⟨rfl, rfl, safe_iff _ (reachable_get rfl)⟩

/-- **The answer `0` breaks it**: there are no clients, and the first call takes one. -/
theorem not_safe_zero : ∃ s : Clients Unit, (clients Unit).Reachable Anything s ∧ ¬ Safe s :=
  ⟨_, reachable_get (l := [.condition 0, .lock (), .test () 0, .wrap (), .select ()]) rfl,
    fun h => absurd (h.inside 0 (by decide)) (by decide)⟩

end AsyncCpp.Http
