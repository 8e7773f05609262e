import Mathlib.Data.List.Nodup
import Mathlib.Logic.Function.Basic

/-!
# `Lib.Lanes` — functions that are posted to lanes, on behalf of owners

Functions are numbered in the order in which they are made. Each is posted to a *lane*, where it waits and then runs,
and it acts for an *owner*, whose home is one of the lanes. `Lanes` states the discipline: whatever is on a lane acts
for an owner that is at home there, and the function that will act for an owner next, the one that *holds* it, is on
that lane, once.

The rules are the moves of such a system: a lane is permuted (`perm`), a function is made and posted (`post`), its
code ends and gives its owner back (`ended`), and it leaves its lane (`remove`).

`weight` sums what is left to do on a lane, or over all lanes; a move at one place changes it by what that place does
(`weight_move`).
-/

namespace AsyncCpp

variable {φ ω ι : Type*}

/-- A function that was made: what it does, and whether its code is over. -/
structure Job (φ : Type*) where
  func : φ
  ended : Bool := false

/-- **Every function on the lane of its owner.** A function whose code is not over holds its owner, and is on the lane. -/
structure Lanes (owner : φ → ω) (home : ω → Option ι) (lane : ι → List Nat) (jobs : List (Job φ))
    (held : ω → Option Nat) : Prop where
  nodup : ∀ c, (lane c).Nodup
  placed : ∀ c, ∀ n ∈ lane c, ∃ job, jobs[n]? = some job ∧ home (owner job.func) = some c
  live : ∀ n f, jobs[n]? = some ⟨f, false⟩ → held (owner f) = some n
  held : ∀ o n, held o = some n → ∃ f c, jobs[n]? = some ⟨f, false⟩ ∧ owner f = o ∧ home o = some c ∧ n ∈ lane c

namespace Lanes

variable {owner : φ → ω} {home : ω → Option ι} {lane : ι → List Nat} {jobs : List (Job φ)} {held : ω → Option Nat}

theorem empty : Lanes owner home (fun _ => []) [] (fun _ => none) where
  nodup := fun _ => List.nodup_nil
  placed := by
    intro c n hn
    cases hn
  live := by
    intro n f hjob
    cases hjob
  held := by
    intro o n hn
    cases hn

/-- What is on a lane was made. -/
theorem lt_length (h : Lanes owner home lane jobs held) {c : ι} {n : Nat} (hn : n ∈ lane c) : n < jobs.length := by
  obtain ⟨job, hjob, _⟩ := h.placed c n hn
  exact (List.getElem?_eq_some_iff.mp hjob).1

/-- A function is on the lane of its owner. -/
theorem home_eq (h : Lanes owner home lane jobs held) {c : ι} {n : Nat} (hn : n ∈ lane c) {job : Job φ}
    (hjob : jobs[n]? = some job) : home (owner job.func) = some c := by
  obtain ⟨job', hjob', hhome⟩ := h.placed c n hn
  rw [hjob] at hjob'
  cases hjob'
  exact hhome

/-- **Nobody is held twice.** -/
theorem holder_unique (h : Lanes owner home lane jobs held) {n m : Nat} {f g : φ} (hf : jobs[n]? = some ⟨f, false⟩)
    (hg : jobs[m]? = some ⟨g, false⟩) (howner : owner f = owner g) : n = m := by
  have hheld := h.live n f hf
  rw [howner, h.live m g hg] at hheld
  exact (Option.some.inj hheld).symm

/-- Where nothing is on a lane, nobody is held. -/
theorem held_none (h : Lanes owner home lane jobs held) (hempty : ∀ o c, home o = some c → lane c = []) (o : ω) :
    held o = none := by
  cases hheld : held o with
  | none => rfl
  | some n =>
      obtain ⟨_, c, _, _, hhome, hn⟩ := h.held o n hheld
      rw [hempty o c hhome] at hn
      cases hn

/-! ## The moves -/

/-- The order on a lane does not matter. -/
theorem perm (h : Lanes owner home lane jobs held) {lane' : ι → List Nat} (hperm : ∀ c, (lane' c).Perm (lane c)) :
    Lanes owner home lane' jobs held where
  nodup := fun c => (hperm c).nodup_iff.mpr (h.nodup c)
  placed := fun c n hn => h.placed c n ((hperm c).mem_iff.mp hn)
  live := h.live
  held := by
    intro o n hn
    obtain ⟨f, c, hjob, howner, hhome, hmem⟩ := h.held o n hn
    exact ⟨f, c, hjob, howner, hhome, (hperm c).mem_iff.mpr hmem⟩

/-- More owners get a home. -/
theorem rehome (h : Lanes owner home lane jobs held) {home' : ω → Option ι}
    (hhome : ∀ o c, home o = some c → home' o = some c) : Lanes owner home' lane jobs held where
  nodup := h.nodup
  placed := by
    intro c n hn
    obtain ⟨job, hjob, hc⟩ := h.placed c n hn
    exact ⟨job, hjob, hhome _ _ hc⟩
  live := h.live
  held := by
    intro o n hn
    obtain ⟨f, c, hjob, howner, hc, hmem⟩ := h.held o n hn
    exact ⟨f, c, hjob, howner, hhome _ _ hc, hmem⟩

/-- **Remove** a function whose code is over. -/
theorem remove [DecidableEq ι] (h : Lanes owner home lane jobs held) {c : ι} {n : Nat} {rest : List Nat}
    (hc : lane c = n :: rest) {f : φ} (hover : jobs[n]? = some ⟨f, true⟩) :
    Lanes owner home (Function.update lane c rest) jobs held := by
  have hsub : ∀ d, (Function.update lane c rest d).Sublist (lane d) := by
    intro d
    by_cases hd : d = c
    · subst hd
      rw [Function.update_self, hc]
      exact List.sublist_cons_self n rest
    · rw [Function.update_of_ne hd]
  refine ⟨fun d => (h.nodup d).sublist (hsub d), fun d m hm => h.placed d m ((hsub d).subset hm), h.live, ?_⟩
  intro o m hm
  obtain ⟨g, d, hjob, howner, hhome, hmem⟩ := h.held o m hm
  refine ⟨g, d, hjob, howner, hhome, ?_⟩
  by_cases hd : d = c
  · subst hd
    rw [Function.update_self]
    rw [hc] at hmem
    rcases List.mem_cons.mp hmem with rfl | hmem
    · -- the one that leaves holds nobody
      rw [hjob] at hover
      cases hover
    · exact hmem
  · rw [Function.update_of_ne hd]
    exact hmem

/-- A function goes on, for the same owner. -/
theorem go (h : Lanes owner home lane jobs held) {n : Nat} {f g : φ} (hjob : jobs[n]? = some ⟨f, false⟩)
    (howner : owner g = owner f) :
    Lanes owner home lane (jobs.modify n fun job => { job with func := g }) held where
  nodup := h.nodup
  placed := by
    intro c m hm
    obtain ⟨job, hget, hc⟩ := h.placed c m hm
    by_cases hmn : n = m
    · subst hmn
      rw [hjob] at hget
      cases hget
      refine ⟨⟨g, false⟩, ?_, howner ▸ hc⟩
      rw [List.getElem?_modify_eq, hjob]
      rfl
    · exact ⟨job, by rw [List.getElem?_modify_ne _ _ hmn, hget], hc⟩
  live := by
    intro m f' hget
    by_cases hmn : n = m
    · subst hmn
      rw [List.getElem?_modify_eq, hjob] at hget
      cases hget
      exact howner ▸ h.live n f hjob
    · rw [List.getElem?_modify_ne _ _ hmn] at hget
      exact h.live m f' hget
  held := by
    intro p m hm
    obtain ⟨f', c, hget, hp, hc, hmem⟩ := h.held p m hm
    by_cases hmn : n = m
    · subst hmn
      rw [hjob] at hget
      cases hget
      refine ⟨g, c, ?_, howner.trans hp, hc, hmem⟩
      rw [List.getElem?_modify_eq, hjob]
      rfl
    · exact ⟨f', c, by rw [List.getElem?_modify_ne _ _ hmn, hget], hp, hc, hmem⟩

variable [DecidableEq ω]

/-- **Post** a new function to the lane of an owner that nobody holds. -/
theorem post [DecidableEq ι] (h : Lanes owner home lane jobs held) {c : ι} {f : φ} (hfree : held (owner f) = none)
    (hhome : home (owner f) = some c) :
    Lanes owner home (Function.update lane c (lane c ++ [jobs.length])) (jobs ++ [⟨f, false⟩])
      (Function.update held (owner f) (some jobs.length)) where
  nodup := by
    intro d
    by_cases hd : d = c
    · subst hd
      rw [Function.update_self]
      refine List.nodup_append.mpr ⟨h.nodup d, List.nodup_singleton _, ?_⟩
      intro a ha b hb hab
      have hlt := h.lt_length ha
      rw [hab, List.mem_singleton.mp hb] at hlt
      exact absurd hlt (Nat.lt_irrefl _)
    · rw [Function.update_of_ne hd]
      exact h.nodup d
  placed := by
    intro d n hn
    have hcases : n ∈ lane d ∨ d = c ∧ n = jobs.length := by
      by_cases hd : d = c
      · subst hd
        rw [Function.update_self, List.mem_append, List.mem_singleton] at hn
        exact hn.imp id fun hn => ⟨rfl, hn⟩
      · rw [Function.update_of_ne hd] at hn
        exact .inl hn
    rcases hcases with hold | ⟨rfl, rfl⟩
    · obtain ⟨job, hjob, hc⟩ := h.placed d n hold
      exact ⟨job, by rw [List.getElem?_append_left (h.lt_length hold), hjob], hc⟩
    · exact ⟨⟨f, false⟩, List.getElem?_concat_length, hhome⟩
  live := by
    intro n g hjob
    rcases Nat.lt_or_ge n jobs.length with hlt | hge
    · rw [List.getElem?_append_left hlt] at hjob
      have hheld := h.live n g hjob
      have hne : owner g ≠ owner f := by
        intro heq
        rw [← heq, hheld] at hfree
        cases hfree
      rw [Function.update_of_ne hne]
      exact hheld
    · obtain ⟨hlt, hget⟩ := List.getElem?_eq_some_iff.mp hjob
      rw [List.length_append, List.length_singleton] at hlt
      obtain rfl : n = jobs.length := by omega
      rw [List.getElem?_concat_length, Option.some.injEq] at hjob
      cases hjob
      exact Function.update_self _ _ _
  held := by
    intro o n hn
    by_cases ho : o = owner f
    · subst ho
      rw [Function.update_self, Option.some.injEq] at hn
      subst hn
      refine ⟨f, c, List.getElem?_concat_length, rfl, hhome, ?_⟩
      rw [Function.update_self]
      exact List.mem_append_right _ List.mem_cons_self
    · rw [Function.update_of_ne ho] at hn
      obtain ⟨g, d, hjob, howner, hd, hmem⟩ := h.held o n hn
      refine ⟨g, d, ?_, howner, hd, ?_⟩
      · rw [List.getElem?_append_left (h.lt_length hmem), hjob]
      · by_cases hdc : d = c
        · subst hdc
          rw [Function.update_self]
          exact List.mem_append_left _ hmem
        · rw [Function.update_of_ne hdc]
          exact hmem

/-- The code of a function ends, **and gives its owner back**. -/
theorem ended (h : Lanes owner home lane jobs held) {o : ω} {n : Nat} (hn : held o = some n) :
    Lanes owner home lane (jobs.modify n fun job => { job with ended := true }) (Function.update held o none) where
  nodup := h.nodup
  placed := by
    intro c m hm
    obtain ⟨job, hjob, hc⟩ := h.placed c m hm
    by_cases hmn : n = m
    · subst hmn
      refine ⟨{ job with ended := true }, ?_, hc⟩
      rw [List.getElem?_modify_eq, hjob]
      rfl
    · exact ⟨job, by rw [List.getElem?_modify_ne _ _ hmn, hjob], hc⟩
  live := by
    intro m f hjob
    by_cases hmn : n = m
    · subst hmn
      rw [List.getElem?_modify_eq] at hjob
      obtain ⟨job, _, heq⟩ := Option.map_eq_some_iff.mp hjob
      cases heq
    · rw [List.getElem?_modify_ne _ _ hmn] at hjob
      have hheld := h.live m f hjob
      have hne : owner f ≠ o := by
        intro heq
        rw [← heq, hheld] at hn
        exact hmn (Option.some.inj hn).symm
      rw [Function.update_of_ne hne]
      exact hheld
  held := by
    intro p m hm
    have hpo : p ≠ o := by
      rintro rfl
      rw [Function.update_self] at hm
      cases hm
    rw [Function.update_of_ne hpo] at hm
    obtain ⟨f, c, hjob, howner, hc, hmem⟩ := h.held p m hm
    refine ⟨f, c, ?_, howner, hc, hmem⟩
    have hmn : n ≠ m := by
      -- one function cannot hold two
      rintro rfl
      obtain ⟨g, _, hjob', howner', _⟩ := h.held o n hn
      rw [hjob] at hjob'
      cases hjob'
      exact hpo (howner.symm.trans howner')
    rw [List.getElem?_modify_ne _ _ hmn, hjob]

end Lanes

/-! ## What is left to do -/

/-- The weights of some functions, or of some lanes, together. -/
def weight (μ : Nat → Nat) : List Nat → Nat
  | [] => 0
  | n :: ns => μ n + weight μ ns

variable {μ ν : Nat → Nat} {l l' : List Nat}

theorem weight_append (μ : Nat → Nat) (l l' : List Nat) : weight μ (l ++ l') = weight μ l + weight μ l' := by
  induction l with
  | nil => exact (Nat.zero_add _).symm
  | cons n ns ih => rw [List.cons_append, weight, weight, ih, Nat.add_assoc]

theorem weight_perm (h : l.Perm l') : weight μ l = weight μ l' := by
  induction h with
  | nil => rfl
  | cons n _ ih => rw [weight, weight, ih]
  | swap n m l => exact Nat.add_left_comm _ _ _
  | trans _ _ ih ih' => exact ih.trans ih'

theorem weight_le (h : ∀ n ∈ l, μ n ≤ ν n) : weight μ l ≤ weight ν l := by
  induction l with
  | nil => exact Nat.le_refl 0
  | cons n ns ih =>
      exact Nat.add_le_add (h n List.mem_cons_self) (ih fun m hm => h m (List.mem_cons_of_mem n hm))

theorem weight_congr (h : ∀ n ∈ l, μ n = ν n) : weight μ l = weight ν l :=
  Nat.le_antisymm (weight_le fun n hn => Nat.le_of_eq (h n hn)) (weight_le fun n hn => Nat.le_of_eq (h n hn).symm)

/-- **One weight changes**, and the whole by as much. -/
theorem weight_move (hl : l.Nodup) {n : Nat} (hn : n ∈ l) (h : ∀ m ∈ l, m ≠ n → μ m = ν m) :
    weight μ l + ν n = weight ν l + μ n := by
  induction l with
  | nil => cases hn
  | cons m ms ih =>
      obtain ⟨hm, hms⟩ := List.nodup_cons.mp hl
      rw [weight, weight]
      rcases List.mem_cons.mp hn with rfl | hmem
      · have hrest : weight μ ms = weight ν ms :=
          weight_congr fun i hi => h i (List.mem_cons_of_mem _ hi) fun heq => hm (heq ▸ hi)
        omega
      · have hhead : μ m = ν m := h m List.mem_cons_self fun heq => hm (heq ▸ hmem)
        have := ih hms hmem fun i hi => h i (List.mem_cons_of_mem _ hi)
        omega

end AsyncCpp
