import Mathlib.Data.Multiset.Filter
import Mathlib.Data.Set.Card
import Mathlib.Data.Finset.Basic

/-!
# `Lib.Linear` — cells that are held by exactly one token

A store maps keys to cells, and a multiset of *tokens* says who may touch which cell: a thread that is
inside a method of an object, an operation that was issued for it, an event that waits in a queue. `Linear`
states the discipline: no two tokens hold the same cell, every token finds its cell there and in the state
it expects (`valid`), and no cell is left without a token.

The rules below are the moves of such a system: a cell is created with its token (`alloc`), the holder
writes it (`write`), hands its token on (`pass`), and gives both up (`free`). Tokens without a key hold
nothing and are ignored.
-/

namespace AsyncCpp

variable {κ ν τ : Type*}

/-- **One token per cell.** -/
structure Linear (key : τ → Option κ) (valid : ν → τ → Prop) (store : κ → Option ν)
    (toks : Multiset τ) : Prop where
  nodup : (toks.filterMap key).Nodup
  held  : ∀ t ∈ toks, ∀ k, key t = some k → ∃ v, store k = some v ∧ valid v t
  owned : ∀ k v, store k = some v → k ∈ toks.filterMap key

namespace Linear

variable {key : τ → Option κ} {valid : ν → τ → Prop} {store : κ → Option ν} {toks : Multiset τ}

theorem empty (key : τ → Option κ) (valid : ν → τ → Prop) : Linear key valid (fun _ => none) 0 where
  nodup := by simp
  held := by simp
  owned := by simp

/-- The holder of a token finds its cell, in the state the token promises. -/
theorem get (h : Linear key valid store toks) {t : τ} (ht : t ∈ toks) {k : κ} (hk : key t = some k) :
    ∃ v, store k = some v ∧ valid v t := h.held t ht k hk

/-- Some token holds every cell that exists. -/
theorem exists_holder (h : Linear key valid store toks) {k : κ} {v : ν} (hv : store k = some v) :
    ∃ t ∈ toks, key t = some k ∧ valid v t := by
  obtain ⟨t, ht, hk⟩ := (Multiset.mem_filterMap key _).mp (h.owned k v hv)
  obtain ⟨v', hv', hval⟩ := h.held t ht k hk
  rw [hv] at hv'
  cases hv'
  exact ⟨t, ht, hk, hval⟩

/-- No other token holds the cell of `t`. -/
theorem ne_of_mem {t : τ} (h : Linear key valid store (t ::ₘ toks)) {u : τ} (hu : u ∈ toks)
    {k : κ} (hk : key t = some k) : key u ≠ some k := by
  intro hu'
  have hn := h.nodup
  rw [Multiset.filterMap_cons_some _ _ _ hk] at hn
  exact (Multiset.nodup_cons.mp hn).1 ((Multiset.mem_filterMap key _).mpr ⟨u, hu, hu'⟩)

/-- A key that is not in the store is held by nobody. -/
theorem not_held (h : Linear key valid store toks) {k : κ} (hk : store k = none) {t : τ}
    (ht : t ∈ toks) : key t ≠ some k := by
  intro hkt
  obtain ⟨v, hv, _⟩ := h.held t ht k hkt
  rw [hk] at hv
  cases hv

/-! ## The moves -/

/-- A token without a key changes nothing. -/
theorem cons_keyless {t : τ} (hk : key t = none) :
    Linear key valid store (t ::ₘ toks) ↔ Linear key valid store toks := by
  constructor
  · intro h
    have hn := h.nodup
    rw [Multiset.filterMap_cons_none _ _ hk] at hn
    refine ⟨hn, fun u hu => h.held u (Multiset.mem_cons_of_mem hu), ?_⟩
    intro k v hv
    have := h.owned k v hv
    rwa [Multiset.filterMap_cons_none _ _ hk] at this
  · intro h
    refine ⟨by rw [Multiset.filterMap_cons_none _ _ hk]; exact h.nodup, ?_, ?_⟩
    · intro u hu k hku
      rcases Multiset.mem_cons.mp hu with rfl | hu
      · rw [hk] at hku; cases hku
      · exact h.held u hu k hku
    · intro k v hv
      rw [Multiset.filterMap_cons_none _ _ hk]; exact h.owned k v hv

/-- **Hand on.** The token changes, its cell and what is promised of it do not get worse. -/
theorem pass {t t' : τ} (h : Linear key valid store (t ::ₘ toks)) (hkey : key t' = key t)
    (hval : ∀ v, valid v t → valid v t') : Linear key valid store (t' ::ₘ toks) := by
  have hmap : (t' ::ₘ toks).filterMap key = (t ::ₘ toks).filterMap key := by
    cases hk : key t with
    | none => rw [Multiset.filterMap_cons_none _ _ hk, Multiset.filterMap_cons_none _ _ (hkey.trans hk)]
    | some k => rw [Multiset.filterMap_cons_some _ _ _ hk, Multiset.filterMap_cons_some _ _ _ (hkey.trans hk)]
  refine ⟨hmap ▸ h.nodup, ?_, fun k v hv => hmap ▸ h.owned k v hv⟩
  intro u hu k hku
  rcases Multiset.mem_cons.mp hu with rfl | hu
  · -- the new token finds the cell of the old one
    obtain ⟨v, hv, hvt⟩ := h.held t (Multiset.mem_cons_self _ _) k (hkey ▸ hku)
    exact ⟨v, hv, hval v hvt⟩
  · exact h.held u (Multiset.mem_cons_of_mem hu) k hku

variable [DecidableEq κ]

/-- **Create** a cell at a free key, together with its token. -/
theorem alloc (h : Linear key valid store toks) {t : τ} {k : κ} {v : ν} (hfree : store k = none)
    (hk : key t = some k) (hv : valid v t) :
    Linear key valid (Function.update store k (some v)) (t ::ₘ toks) where
  nodup := by
    rw [Multiset.filterMap_cons_some _ _ _ hk, Multiset.nodup_cons]
    refine ⟨?_, h.nodup⟩
    intro hmem
    obtain ⟨u, hu, hku⟩ := (Multiset.mem_filterMap key _).mp hmem
    exact h.not_held hfree hu hku
  held := by
    intro u hu j hj
    rcases Multiset.mem_cons.mp hu with rfl | hu
    · rw [hk] at hj
      cases hj
      exact ⟨v, Function.update_self _ _ _, hv⟩
    · have hne : j ≠ k := fun he => h.not_held hfree hu (he ▸ hj)
      rw [Function.update_of_ne hne]
      exact h.held u hu j hj
  owned := by
    intro j w hw
    rw [Multiset.filterMap_cons_some _ _ _ hk, Multiset.mem_cons]
    by_cases hj : j = k
    · exact Or.inl hj
    · rw [Function.update_of_ne hj] at hw
      exact Or.inr (h.owned j w hw)

/-- **Give up** a cell and its token. -/
theorem free {t : τ} (h : Linear key valid store (t ::ₘ toks)) {k : κ} (hk : key t = some k) :
    Linear key valid (Function.update store k none) toks where
  nodup := by
    have hn := h.nodup
    rw [Multiset.filterMap_cons_some _ _ _ hk] at hn
    exact (Multiset.nodup_cons.mp hn).2
  held := by
    intro u hu j hj
    have hne : j ≠ k := fun he => h.ne_of_mem hu hk (he ▸ hj)
    rw [Function.update_of_ne hne]
    exact h.held u (Multiset.mem_cons_of_mem hu) j hj
  owned := by
    intro j w hw
    have hne : j ≠ k := by
      rintro rfl
      rw [Function.update_self] at hw
      cases hw
    rw [Function.update_of_ne hne] at hw
    have hmem := h.owned j w hw
    rw [Multiset.filterMap_cons_some _ _ _ hk, Multiset.mem_cons] at hmem
    exact hmem.resolve_left hne

/-- **Write** the cell that a token holds, and let the token say so. -/
theorem write {t t' : τ} (h : Linear key valid store (t ::ₘ toks)) {k : κ} {v : ν}
    (hk : key t = some k) (hk' : key t' = some k) (hv : valid v t') :
    Linear key valid (Function.update store k (some v)) (t' ::ₘ toks) := by
  have hfree := (h.free hk).alloc (v := v) (Function.update_self k none store) hk' hv
  rwa [Function.update_idem] at hfree

/-! ## Counting -/

omit [DecidableEq κ] in
/-- The cells with a property are as many as the tokens that promise it. -/
theorem ncard_eq (h : Linear key valid store toks) {P : ν → Prop} {Q : τ → Prop} [DecidablePred Q]
    (hPQ : ∀ v t, valid v t → (P v ↔ Q t)) :
    Set.ncard {k | ∃ v, store k = some v ∧ P v} = Multiset.card ((toks.filter Q).filterMap key) := by
  have hnodup : ((toks.filter Q).filterMap key).Nodup :=
    Multiset.nodup_of_le (Multiset.filterMap_le_filterMap _ (Multiset.filter_le _ _)) h.nodup
  have hset : {k | ∃ v, store k = some v ∧ P v} = ((⟨_, hnodup⟩ : Finset κ) : Set κ) := by
    -- on both sides the keys of the tokens that promise the property
    ext k
    simp only [Set.mem_ofPred_eq, Finset.mem_coe, Finset.mem_mk, Multiset.mem_filterMap, Multiset.mem_filter]
    constructor
    · rintro ⟨v, hv, hP⟩
      obtain ⟨t, ht, hkt, hval⟩ := h.exists_holder hv
      exact ⟨t, ⟨ht, (hPQ v t hval).mp hP⟩, hkt⟩
    · rintro ⟨t, ⟨ht, hQ⟩, hkt⟩
      obtain ⟨v, hv, hval⟩ := h.get ht hkt
      exact ⟨v, hv, (hPQ v t hval).mpr hQ⟩
  rw [hset, Set.ncard_coe_finset]
  rfl

end Linear

end AsyncCpp
