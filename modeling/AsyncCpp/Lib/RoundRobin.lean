import Mathlib.Data.List.Nodup
import Mathlib.Data.List.Perm.Subperm
import Mathlib.Data.Nat.ModEq

/-!
# `Lib.RoundRobin` — taking `k` things in turn

`turns k first n` are the numbers of the things taken by `n` turns that start at `first`. Any `k` turns in a row
take each thing once (`turns_window`), so that no thing is ever taken two times more than another
(`count_turns_le`). A counter that is put back to `0` when it reaches `k` runs through the turns (`wrap`); one that
is put back later, before it is used, is `lag`.
-/

namespace AsyncCpp.RoundRobin

variable {k : Nat}

def turns (k first n : Nat) : List Nat := (List.range n).map fun i => (first + i) % k

@[simp] theorem turns_length (first n : Nat) : (turns k first n).length = n := by simp [turns]

theorem turns_getElem? {first n i : Nat} (h : i < n) : (turns k first n)[i]? = some ((first + i) % k) := by
  simp [turns, h]

theorem turns_succ (first n : Nat) : turns k first (n + 1) = turns k first n ++ [(first + n) % k] := by
  simp [turns, List.range_succ]

theorem turns_add (first m n : Nat) : turns k first (m + n) = turns k first m ++ turns k (first + m) n := by
  induction n with
  | zero => simp [turns]
  | succ n ih => rw [← Nat.add_assoc, turns_succ, ih, turns_succ, List.append_assoc, Nat.add_assoc]

theorem turns_lt (hk : 0 < k) {first n c : Nat} (h : c ∈ turns k first n) : c < k := by
  obtain ⟨i, _, rfl⟩ := List.mem_map.mp h
  exact Nat.mod_lt _ hk

/-- Up to `k` turns in a row never take the same thing twice. -/
theorem turns_nodup (first : Nat) {n : Nat} (hn : n ≤ k) : (turns k first n).Nodup := by
  refine List.Nodup.map_on ?_ List.nodup_range
  intro i hi j hj heq
  have hij : i ≡ j [MOD k] := Nat.ModEq.add_left_cancel' first heq
  exact hij.eq_of_lt_of_lt (Nat.lt_of_lt_of_le (List.mem_range.mp hi) hn)
    (Nat.lt_of_lt_of_le (List.mem_range.mp hj) hn)

/-- **A full round takes each thing exactly once.** -/
theorem turns_perm (hk : 0 < k) (first : Nat) : (turns k first k).Perm (List.range k) := by
  have hsub : (turns k first k).Subset (List.range k) := fun c hc => List.mem_range.mpr (turns_lt hk hc)
  apply (List.subperm_of_subset (turns_nodup first (Nat.le_refl k)) hsub).perm_of_length_le
  rw [turns_length, List.length_range]

/-- So does every window of `k` turns. -/
theorem turns_window (hk : 0 < k) {first n i : Nat} (hi : i + k ≤ n) :
    (((turns k first n).drop i).take k).Perm (List.range k) := by
  obtain ⟨m, rfl⟩ := Nat.exists_eq_add_of_le hi
  rw [Nat.add_assoc, turns_add, turns_add, List.drop_left' (turns_length _ _), List.take_left' (turns_length _ _)]
  exact turns_perm hk _

/-- **Fairness.** No thing is ahead of another by more than one turn. Induction on full rounds. -/
theorem count_turns_le (first n : Nat) {c d : Nat} (hd : d < k) :
    (turns k first n).count c ≤ (turns k first n).count d + 1 := by
  have hk : 0 < k := Nat.zero_lt_of_lt hd
  induction n using Nat.strongRecOn generalizing first with
  | _ n ih =>
      by_cases hn : n ≤ k
      · exact Nat.le_trans (List.nodup_iff_count_le_one.mp (turns_nodup first hn) c) (Nat.le_add_left 1 _)
      · obtain ⟨m, rfl⟩ := Nat.exists_eq_add_of_le (Nat.le_of_not_le hn)
        have hround := turns_perm hk first
        have hc : (List.range k).count c ≤ 1 := List.nodup_iff_count_le_one.mp List.nodup_range c
        have hone : (List.range k).count d = 1 :=
          List.count_eq_one_of_mem List.nodup_range (List.mem_range.mpr hd)
        have hrest := ih m (by omega) (first + k)
        rw [turns_add, List.count_append, List.count_append, hround.count_eq, hround.count_eq]
        omega

/-- One step of a counter that wraps at `k`. -/
theorem wrap (hk : 0 < k) (n : Nat) : (if n % k + 1 = k then 0 else n % k + 1) = (n + 1) % k := by
  have hlt := Nat.mod_lt n hk
  rw [← Nat.mod_add_mod]
  split
  · next h => rw [h, Nat.mod_self]
  · next h => exact (Nat.mod_eq_of_lt (by omega)).symm

/-- A counter that reaches `k`, and is put back only when it is used again: its value after `n` turns. -/
def lag (k : Nat) : Nat → Nat
  | 0     => 0
  | n + 1 => n % k + 1

/-- The two counters are the same up to `k`. -/
theorem lag_mod (n : Nat) : lag k n % k = n % k := by
  cases n with
  | zero => rfl
  | succ n => exact Nat.mod_add_mod n k 1

theorem lag_le (hk : 0 < k) (n : Nat) : lag k n ≤ k := by
  cases n with
  | zero => exact Nat.zero_le k
  | succ n => exact Nat.mod_lt n hk

theorem lag_of_ne (hk : 0 < k) {n : Nat} (h : lag k n ≠ k) : lag k n = n % k := by
  rw [← lag_mod, Nat.mod_eq_of_lt (Nat.lt_of_le_of_ne (lag_le hk n) h)]

/-- It stands at `k` after each full round. -/
theorem lag_eq_iff (hk : 0 < k) (n : Nat) : lag k n = k ↔ 0 < n ∧ k ∣ n := by
  constructor
  · intro h
    refine ⟨?_, ?_⟩
    · apply Nat.pos_of_ne_zero
      rintro rfl
      exact absurd h (Nat.ne_of_lt hk)
    · rw [Nat.dvd_iff_mod_eq_zero, ← lag_mod, h, Nat.mod_self]
  · rintro ⟨hn, hdvd⟩
    by_contra hne
    have hzero : lag k n = 0 := by rw [lag_of_ne hk hne, Nat.mod_eq_zero_of_dvd hdvd]
    cases n with
    | zero => exact absurd hn (Nat.lt_irrefl 0)
    | succ n => exact absurd hzero (Nat.succ_ne_zero _)

end AsyncCpp.RoundRobin
