import Mathlib.Data.List.Basic
import Mathlib.Data.Option.Basic

/-!
# `Lib.Channel` — reliable FIFO channels, with or without a bound

`Channel α cap` is a queue that holds at most `cap` items (any number, when `cap` is `none`); the bound is part
of the value. `send` appends, `receive` takes from the front. What went in comes out, in order:
`send_items` and `receive_items`.
-/

namespace AsyncCpp

/-- A FIFO channel of a capacity. -/
structure Channel (α : Type*) (cap : Option Nat) where
  items   : List α
  bounded : ∀ c ∈ cap, items.length ≤ c

namespace Channel

variable {α : Type*} {cap : Option Nat} {ch ch' : Channel α cap} {xs : List α} {k : Nat}

def empty : Channel α cap := ⟨[], fun _ _ => Nat.zero_le _⟩

/-- Put `xs` behind what is there; `none` when there is no room for all of it. -/
def send (ch : Channel α cap) (xs : List α) : Option (Channel α cap) :=
  if h : ∀ c ∈ cap, (ch.items ++ xs).length ≤ c then some ⟨ch.items ++ xs, h⟩ else none

/-- Take `k` items from the front; `none` when there are not as many, or for `k = 0`. -/
def receive (ch : Channel α cap) (k : Nat) : Option (List α × Channel α cap) :=
  if 0 < k ∧ k ≤ ch.items.length then
    some (ch.items.take k, ⟨ch.items.drop k, fun c hc => by
      have := ch.bounded c hc
      rw [List.length_drop]
      omega⟩)
  else none

/-- There is no room for even one more item. -/
def Full (ch : Channel α cap) : Prop := ∃ c ∈ cap, ch.items.length = c

theorem send_items (h : ch.send xs = some ch') : ch'.items = ch.items ++ xs := by
  unfold send at h
  split at h
  · cases h; rfl
  · exact absurd h (by simp)

/-- A channel takes another item unless it is full. -/
theorem full_of_send (x : α) (h : ch.send [x] = none) : ch.Full := by
  unfold send at h
  split at h
  · exact absurd h (by simp)
  · next hno =>
    obtain ⟨c, hc⟩ := not_forall.mp hno
    obtain ⟨hmem, hlt⟩ := Classical.not_imp.mp hc
    refine ⟨c, hmem, ?_⟩
    have := ch.bounded c hmem
    rw [List.length_append, List.length_singleton] at hlt
    omega

/-- What is taken and what remains are what was there. -/
theorem receive_items (h : ch.receive k = some (xs, ch')) :
    xs ++ ch'.items = ch.items ∧ xs.length = k ∧ 0 < k := by
  unfold receive at h
  split at h
  · next hk =>
    cases h
    exact ⟨List.take_append_drop _ _, List.length_take_of_le hk.2, hk.1⟩
  · exact absurd h (by simp)

/-- Only an empty channel has nothing to take. -/
theorem items_of_receive (h : ch.receive 1 = none) : ch.items = [] := by
  unfold receive at h
  split at h
  · exact absurd h (by simp)
  · next hno =>
    apply List.eq_nil_iff_length_eq_zero.mpr
    omega

end Channel

end AsyncCpp
