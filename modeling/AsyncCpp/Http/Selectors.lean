import AsyncCpp.Http.GetHttpClient
import AsyncCpp.Asio.IoContextPool

/-!
# `Http.Selectors` — the two selectors that take their things in turn

`get_http_client` tests its counter before it is used and increments it afterwards; `IoContextPool::getIoContext`
increments first and tests afterwards. With `k` clients, `k` contexts and a constant answer `k` of
`hardware_concurrency()` both give out the same index at every call: the one counter is the other `mod k`.
-/

namespace AsyncCpp.Http

open Machine RoundRobin Pool

variable {τ : Type} [DecidableEq τ] {k : UInt32} {s s' : Clients τ}

/-- `hardware_concurrency()` answers `k` at every call site. -/
def Constantly (k : UInt32) (_ : Clients τ) : Action τ → Prop
  | .condition hint => hint = k
  | .test _ hint    => hint = k
  | _               => True

instance (k : UInt32) (s : Clients τ) (a : Action τ) : Decidable (Constantly k s a) := by
  cases a <;> unfold Constantly <;> infer_instance

/-! ## The counter of the lambda -/

/-- The counter after `n` turns, by how far the next one has come. -/
def Counts (k n count : Nat) : ThreadPc → Prop
  | .idle | .locked | .selected _ _ => count = lag k n
  | .wrap _                         => count = k ∧ lag k n = k
  | .select _                       => count = n % k
  | .undefined                      => False

structure Turning (k : UInt32) (s : Clients τ) : Prop where
  inv     : Inv s
  filling : ∀ i, s.main = .fill i → i.toNat ≤ k.toNat
  ready   : s.main = .ready → s.http_clients.length = k.toNat
  indices : s.indices = turns k.toNat 0 s.indices.length
  free    : s.tx = none → s.count.toNat = lag k.toNat s.indices.length
  stage   : ∀ t, s.threads t ≠ .idle → Counts k.toNat s.indices.length s.count.toNat (s.threads t)

theorem start_turning : Turning k (clients τ).start where
  inv := start_inv
  filling := by
    intro i hi
    cases hi
    exact Nat.zero_le _
  ready := by
    intro h
    cases h
  indices := rfl
  free := fun _ => rfl
  stage := by
    intro t ht
    exact absurd rfl ht

/-- **A statement of the lambda** that takes no client: it is enough to look at the counter. -/
theorem Turning.move (h : Turning k s) (hinv : Inv s') {t : τ} {p : ThreadPc} (ht : s.threads t ≠ .idle)
    (hpc : p ≠ .idle) (hmain : s'.main = s.main) (hclients : s'.http_clients = s.http_clients)
    (hthreads : s'.threads = Function.update s.threads t p)
    (hindices : s'.indices = turns k.toNat 0 s'.indices.length)
    (hcounts : Counts k.toNat s'.indices.length s'.count.toNat p) : Turning k s' where
  inv := hinv
  filling := by
    intro i hi
    rw [hmain] at hi
    exact h.filling i hi
  ready := by
    intro hi
    rw [hmain] at hi
    rw [hclients]
    exact h.ready hi
  indices := hindices
  free := by
    intro htx
    have hidle := hinv.all_idle htx t
    rw [hthreads, Function.update_self] at hidle
    exact absurd hidle hpc
  stage := by
    intro u hu
    rw [hthreads] at hu ⊢
    by_cases hut : u = t
    · subst hut
      rw [Function.update_self]
      exact hcounts
    · rw [Function.update_of_ne hut] at hu
      exact absurd (h.inv.idle ht hut) hu

omit [DecidableEq τ] in
theorem Turning.stage_at (h : Turning k s) {t : τ} {p : ThreadPc} (hpc : s.threads t = p) (hne : p ≠ .idle) :
    Counts k.toNat s.indices.length s.count.toNat p := by
  subst hpc
  exact h.stage t hne

theorem Turning.step_test (h : Turning k s) (hinv : Inv s') {t : τ} (hpc : s.threads t = .locked)
    (hs' : s' = s.goto t (if s.count = k then .wrap ⟨s.count, k⟩ else .select ⟨s.count, k⟩)) (hk : 0 < k.toNat) :
    Turning k s' := by
  subst hs'
  have hne : s.threads t ≠ .idle := by simp [hpc]
  have hcount : s.count.toNat = lag k.toNat s.indices.length := h.stage_at hpc (by simp)
  refine h.move hinv hne ?_ rfl rfl rfl h.indices ?_
  · split <;> simp
  · show Counts _ s.indices.length s.count.toNat _
    split
    · next heq => exact ⟨congrArg UInt32.toNat heq, by rw [← hcount, heq]⟩
    · next hcne =>
      refine hcount.trans (lag_of_ne hk ?_)
      intro hlag
      exact hcne (UInt32.toNat_inj.mp (hcount.trans hlag))

theorem Turning.step_wrap (h : Turning k s) {t : τ} {c : Call} (hpc : s.threads t = .wrap c)
    (hinv : Inv { s.goto t (.select c) with count := 0 }) : Turning k { s.goto t (.select c) with count := 0 } := by
  have hne : s.threads t ≠ .idle := by simp [hpc]
  obtain ⟨_, hlag⟩ : s.count.toNat = k.toNat ∧ lag k.toNat s.indices.length = k.toNat := h.stage_at hpc (by simp)
  refine h.move hinv hne (by simp) rfl rfl rfl h.indices ?_
  show 0 = s.indices.length % k.toNat
  rw [← lag_mod, hlag, Nat.mod_self]

omit [DecidableEq τ] in
/-- The index that is about to be used is the next one in turn. -/
theorem Turning.count_select (h : Turning k s) {t : τ} {c : Call} (hpc : s.threads t = .select c)
    (hk : 0 < k.toNat) : s.count.toNat = s.indices.length % k.toNat ∧ s.count.toNat < s.http_clients.length := by
  have hne : s.threads t ≠ .idle := by simp [hpc]
  have hcount : s.count.toNat = s.indices.length % k.toNat := h.stage_at hpc (by simp)
  refine ⟨hcount, ?_⟩
  rw [h.ready (h.inv.main_ready hne), hcount]
  exact Nat.mod_lt _ hk

/-- The client whose turn it is. -/
theorem Turning.step_select (h : Turning k s) {t : τ} {c : Call} (hpc : s.threads t = .select c)
    (hinv : Inv (s.index t c)) (hk : 0 < k.toNat) : Turning k (s.index t c) := by
  have hne : s.threads t ≠ .idle := by simp [hpc]
  obtain ⟨hcount, hlen⟩ := h.count_select hpc hk
  have hsucc : (s.count + 1).toNat = s.count.toNat + 1 := by
    rw [UInt32.toNat_add]
    exact Nat.mod_eq_of_lt (Nat.lt_of_le_of_lt hlen h.inv.size)
  refine h.move hinv hne (p := .selected s.count.toNat s.http_clients[s.count.toNat]) (by simp) rfl rfl ?_ ?_ ?_
  · show Function.update _ _ _ = _
    rw [List.getElem?_eq_getElem hlen]
  · show s.indices ++ [s.count.toNat] = turns k.toNat 0 (s.indices ++ [s.count.toNat]).length
    rw [List.length_append, List.length_singleton, turns_succ, ← h.indices, Nat.zero_add, hcount]
  · show (s.count + 1).toNat = lag k.toNat (s.indices ++ [s.count.toNat]).length
    rw [List.length_append, List.length_singleton, hsucc, hcount]
    rfl

theorem Turning.step (hk : 0 < k.toNat) (h : Turning k s) {a : Action τ} (ha : Constantly k s a)
    (hs : step s a = some s') : Turning k s' := by
  have hinv := h.inv.step hs
  cases step_moved hs with
  | emplace hpc hlt =>
      next i hint =>
      obtain ⟨hlen, htx, hindices, -, hcount⟩ := h.inv.filling i hpc
      refine ⟨hinv, ?_, fun hi => absurd hi (by simp), h.indices, h.free, h.stage⟩
      intro i' hi'
      cases hi'
      subst ha
      rw [UInt32.toNat_add]
      exact Nat.le_trans (Nat.mod_le _ _) (UInt32.lt_iff_toNat_lt.mp hlt)
  | filled hpc hge =>
      next i hint =>
      obtain ⟨hlen, -⟩ := h.inv.filling i hpc
      refine ⟨hinv, fun i hi => absurd hi (by simp), ?_, h.indices, h.free, h.stage⟩
      intro _
      subst ha
      have hle := h.filling i hpc
      have hnlt : ¬ i.toNat < hint.toNat := fun hlt => hge (UInt32.lt_iff_toNat_lt.mpr hlt)
      show s.http_clients.length = _
      omega
  | lock hmain htx hpc =>
      next t =>
      refine ⟨hinv, h.filling, h.ready, h.indices, fun htx' => absurd htx' (by simp), ?_⟩
      intro u hu
      obtain rfl : t = u := Option.some.inj ((hinv.held u).mpr hu)
      show Counts _ _ _ (Function.update s.threads t .locked t)
      rw [Function.update_self]
      exact h.free htx
  | test hpc =>
      subst ha
      exact h.step_test hinv hpc rfl hk
  | wrap hpc => exact h.step_wrap hpc hinv
  | select hpc => exact h.step_select hpc hinv hk
  | unlock hpc =>
      next t j client =>
      have hcount := h.stage_at hpc (by simp)
      refine ⟨hinv, h.filling, h.ready, h.indices, fun _ => hcount, ?_⟩
      intro u hu
      exact absurd (hinv.all_idle rfl u) hu

theorem reachable_turning (hk : 0 < k.toNat) (h : (clients τ).Reachable (Constantly k) s) : Turning k s :=
  h.invariant start_turning fun _ hi ha hs => hi.step hk ha hs

/-- In the middle of a call the counter is the number of turns `mod k`, -/
theorem Counts.mod {k n c : Nat} {p : ThreadPc} (h : Counts k n c p) : c % k = n % k := by
  cases p with
  | wrap => rw [h.1, Nat.mod_self, ← lag_mod, h.2, Nat.mod_self]
  | select => rw [show c = _ from h, Nat.mod_mod]
  | idle | locked | selected => rw [show c = _ from h, lag_mod]
  | undefined => exact h.elim

omit [DecidableEq τ] in
/-- and so in every state. -/
theorem Turning.count_mod (h : Turning k s) : s.count.toNat % k.toNat = s.indices.length % k.toNat := by
  cases htx : s.tx with
  | none => rw [h.free htx, lag_mod]
  | some t =>
      apply Counts.mod
      exact h.stage t ((h.inv.held t).mp htx)

/-! ## Any number of calls -/

/-- The rest of a call, up to where the mutex is free again. -/
def Ends (k : UInt32) (s : Clients τ) (s' : Clients τ) : Prop :=
  (clients τ).Steps (Constantly k) s s' ∧ s'.main = .ready ∧ s'.tx = none ∧
    s'.indices.length = s.indices.length + 1

/-- It selects and unlocks. -/
theorem Turning.ends_select (hk : 0 < k.toNat) (h : Turning k s) {t : τ} {c : Call} (hpc : s.threads t = .select c) :
    ∃ s', Ends k s s' := by
  have hselect : (clients τ).step s (.select t) = some (s.index t c) := by
    show Http.step s (.select t) = _
    simp only [Http.step, hpc]
  have h' : Turning k (s.index t c) := h.step_select hpc (h.inv.step (a := .select t) hselect) hk
  have hsel := Clients.index_self (t := t) (c := c) (h.count_select hpc hk).2
  have hunlock : (clients τ).step (s.index t c) (.unlock t) =
      some { (s.index t c).goto t .idle with tx := none } := by
    show Http.step _ (.unlock t) = _
    simp only [Http.step, hsel]
  exact ⟨_, (Steps.single (a := .select t) trivial hselect).trans (Steps.single (a := .unlock t) trivial hunlock),
    h'.inv.main_ready (t := t) (by simp [hsel]), rfl, List.length_append⟩

/-- Before, it tests, and puts the counter back if it has to. -/
theorem Turning.ends_locked (hk : 0 < k.toNat) (h : Turning k s) {t : τ} (hpc : s.threads t = .locked) :
    ∃ s', Ends k s s' := by
  have htest : (clients τ).step s (.test t k) =
      some (s.goto t (if s.count = k then .wrap ⟨s.count, k⟩ else .select ⟨s.count, k⟩)) := by
    show Http.step s (.test t k) = _
    simp only [Http.step, hpc]
  have h₁ := h.step_test (h.inv.step (a := .test t k) htest) hpc rfl hk
  have hto₁ := Steps.single (M := clients τ) (E := Constantly k) (a := .test t k) rfl htest
  by_cases hcount : s.count = k
  · rw [if_pos hcount] at h₁ hto₁
    have hpc₁ : (s.goto t (.wrap ⟨s.count, k⟩)).threads t = .wrap ⟨s.count, k⟩ := Function.update_self ..
    have hwrap : (clients τ).step (s.goto t (.wrap ⟨s.count, k⟩)) (.wrap t) =
        some { (s.goto t (.wrap ⟨s.count, k⟩)).goto t (.select ⟨s.count, k⟩) with count := 0 } := by
      show Http.step _ (.wrap t) = _
      simp only [Http.step, hpc₁]
    have h₂ := h₁.step_wrap hpc₁ (h₁.inv.step (a := .wrap t) hwrap)
    obtain ⟨s', hto, hready, htx, hlen⟩ := h₂.ends_select hk (Function.update_self ..)
    exact ⟨s', (hto₁.trans (Steps.single (a := .wrap t) trivial hwrap)).trans hto, hready, htx, hlen⟩
  · rw [if_neg hcount] at h₁ hto₁
    obtain ⟨s', hto, hready, htx, hlen⟩ := h₁.ends_select hk (Function.update_self ..)
    exact ⟨s', hto₁.trans hto, hready, htx, hlen⟩

/-- **Another call can always be made** from a state between two calls. -/
theorem Turning.call (hk : 0 < k.toNat) (h : Turning k s) (hready : s.main = .ready) (htx : s.tx = none) (t : τ) :
    ∃ s', Ends k s s' := by
  have hlock : (clients τ).step s (.lock t) = some { s.goto t .locked with tx := some t } :=
    if_pos ⟨hready, htx, h.inv.all_idle htx t⟩
  have h₁ : Turning k { s.goto t .locked with tx := some t } := h.step hk (a := .lock t) trivial hlock
  obtain ⟨s', hto, hready', htx', hlen⟩ := h₁.ends_locked hk (Function.update_self ..)
  exact ⟨s', (Steps.single (a := .lock t) trivial hlock).trans hto, hready', htx', hlen⟩

/-- `i` rounds of the filling loop. -/
theorem reachable_fill (i : Nat) (hi : i ≤ k.toNat) :
    ∃ s : Clients τ, (clients τ).Reachable (Constantly k) s ∧ s.main = .fill (UInt32.ofNat i) ∧ s.tx = none ∧
      s.indices = [] := by
  induction i with
  | zero => exact ⟨_, Reachable.start, rfl, rfl, rfl⟩
  | succ i ih =>
      obtain ⟨s, hr, hmain, htx, hindices⟩ := ih (by omega)
      have hlt : UInt32.ofNat i < k := by
        rw [UInt32.lt_iff_toNat_lt, UInt32.toNat_ofNat']
        exact Nat.lt_of_le_of_lt (Nat.mod_le _ _) hi
      have hstep : (clients τ).step s (.condition k) = some { s with
          http_clients := s.http_clients ++ [s.http_clients.length], main := .fill (UInt32.ofNat i + 1) } := by
        show Http.step s (.condition k) = _
        simp only [Http.step, hmain, if_pos hlt]
      refine ⟨_, hr.tail (a := .condition k) rfl hstep, ?_, htx, hindices⟩
      show MainPc.fill (UInt32.ofNat i + 1) = .fill (UInt32.ofNat (i + 1))
      rw [UInt32.ofNat_add]
      rfl

/-- Any number of calls can be made. -/
theorem reachable_calls (hk : 0 < k.toNat) (t : τ) (n : Nat) :
    ∃ s : Clients τ, (clients τ).Reachable (Constantly k) s ∧ s.main = .ready ∧ s.tx = none ∧
      s.indices.length = n := by
  induction n with
  | zero =>
      obtain ⟨s, hr, hmain, htx, hindices⟩ := reachable_fill (τ := τ) k.toNat (Nat.le_refl _)
      have hge : ¬ UInt32.ofNat k.toNat < k := by
        rw [UInt32.ofNat_toNat]
        exact UInt32.lt_irrefl k
      have hstep : (clients τ).step s (.condition k) = some { s with main := .ready } := by
        show Http.step s (.condition k) = _
        simp only [Http.step, hmain, if_neg hge]
      exact ⟨_, hr.tail (a := .condition k) rfl hstep, rfl, htx, by rw [hindices]; rfl⟩
  | succ n ih =>
      obtain ⟨s, hr, hmain, htx, rfl⟩ := ih
      obtain ⟨s', hto, hready, htx', hlen⟩ := (reachable_turning hk hr).call hk hmain htx t
      exact ⟨s', hr.trans hto, hready, htx', hlen⟩

/-! ## Both selectors -/

/-- **Agreement** of the lambda and the pool, after as many calls of the one as of the other. -/
structure Agree (k : Nat) (pool : IoContextPool) (s : Clients τ) : Prop where
  /-- There are as many clients as contexts. -/
  clients  : s.main = .ready → s.http_clients.length = k
  /-- The `n`-th call of the lambda takes the client `(n - 1) mod k`, -/
  indices  : ∀ n, 0 < n → n ≤ s.indices.length → s.indices[n - 1]? = some ((n - 1) % k)
  /-- the pool has given out the same, and the counters correspond, in the middle of a call too. -/
  contexts : ∃ p, pool.getIoContexts s.indices.length = some (s.indices, p) ∧
               p.m_next_io_context = s.count.toNat % k ∧ p.m_next_io_context < k
  /-- Between two calls, after each full round and only then, `count` is `k`. -/
  count    : s.tx = none → (s.count.toNat = k ↔ 0 < s.indices.length ∧ k ∣ s.indices.length)

/-- **The two selectors agree.** For every `k ≥ 1`, all threads, and every order in which they lock the mutex;
    and the lambda can be called any number of times. -/
theorem selectors_agree (k : UInt32) (hk : 1 ≤ k.toNat) :
    ∃ pool, IoContextPool.make k.toNat = .ok pool ∧
      (∀ s : Clients τ, (clients τ).Reachable (Constantly k) s → Agree k.toNat pool s) ∧
      ∀ (_ : τ) (n : Nat), ∃ s : Clients τ, (clients τ).Reachable (Constantly k) s ∧ s.tx = none ∧
        s.indices.length = n := by
  refine ⟨IoContextPool.after k.toNat 0, IoContextPool.make_after hk, ?_, ?_⟩
  · intro s hr
    have h := reachable_turning hk hr
    refine ⟨h.ready, ?_, ⟨IoContextPool.after k.toNat s.indices.length, ?_, ?_, Nat.mod_lt _ hk⟩, ?_⟩
    · intro n hpos hn
      rw [h.indices, turns_getElem? (by omega), Nat.zero_add]
    · rw [IoContextPool.getIoContexts_after hk, ← h.indices]
    · exact h.count_mod.symm
    · intro htx
      rw [h.free htx]
      exact lag_eq_iff hk _
  · intro t n
    obtain ⟨s, hr, -, htx, hlen⟩ := reachable_calls hk t n
    exact ⟨s, hr, htx, hlen⟩

/-- Two clients, and three calls of two threads. -/
def threeCalls : List (Action Bool) :=
  [.condition 2, .condition 2, .condition 2, .lock true, .test true 2, .select true, .unlock true, .lock false,
    .test false 2, .select false, .unlock false, .lock true, .test true 2, .wrap true, .select true, .unlock true]

theorem selectors_agree_two : ∃ pool, IoContextPool.make 2 = .ok pool ∧
    ∃ h : ((clients Bool).exec (Constantly 2) (clients Bool).start threeCalls).isSome,
      (Option.get _ h).indices = [0, 1, 0] ∧ Agree 2 pool (Option.get _ h) := by
  obtain ⟨pool, hpool, hall, -⟩ := selectors_agree (τ := Bool) 2 (by decide)
  exact ⟨pool, hpool, rfl, rfl, hall _ (reachable_get rfl)⟩

end AsyncCpp.Http
