import Mathlib.Data.List.Nodup

/-!
# `Lib.Paging` — a listing that is given out in pages

A service gives out a list page by page: a request carries a limit and, from the second page on, the last item of
the page before; the answer says whether more is to come. A client that follows the answers (`collect`) gets the
whole list, if no request fails that it needs (`collect_ok`).
-/

namespace AsyncCpp

variable {α ε : Type}

/-- One page. `last` is the place to go on from, if more items are to come. -/
structure Page (α : Type) where
  items : List α
  last  : Option α

namespace Paging

variable [DecidableEq α]

/-- What comes after an item. -/
def after (xs : List α) : Option α → List α
  | none   => xs
  | some x => (xs.dropWhile (· ≠ x)).tail

/-- The next `limit` items after `start`. -/
def page (xs : List α) (limit : Nat) (start : Option α) : Page α where
  items := (after xs start).take limit
  last := if limit < (after xs start).length then ((after xs start).take limit).getLast? else none

/-- A client that asks for page after page, the `n`-th next, and puts them together. -/
def collect (ask : Nat → Option α → Except ε (Page α)) : Nat → Nat → Option α → Except ε (List α)
  | 0, _, _ => .ok []
  | fuel + 1, n, start =>
      (ask n start).bind fun p =>
        match p.last with
        | none      => .ok p.items
        | some last => (collect ask fuel (n + 1) (some last)).map (p.items ++ ·)

theorem after_getElem {xs : List α} (hnodup : xs.Nodup) {i : Nat} (hi : i < xs.length) :
    after xs (some xs[i]) = xs.drop (i + 1) := by
  induction xs generalizing i with
  | nil => exact absurd hi (Nat.not_lt_zero i)
  | cons x xs ih =>
      cases i with
      | zero => simp [after]
      | succ i =>
          obtain ⟨hx, hxs⟩ := List.nodup_cons.mp hnodup
          have hi' : i < xs.length := Nat.lt_of_succ_lt_succ hi
          have hne : x ≠ xs[i] := fun heq => hx (heq ▸ List.getElem_mem hi')
          have := ih hxs hi'
          simp only [after, List.getElem_cons_succ] at this ⊢
          rw [List.dropWhile_cons_of_pos (by simpa using hne), this]
          rfl

/-- After a page that is not the last one the next page begins where it has ended. -/
theorem after_page {xs : List α} (hnodup : xs.Nodup) {limit m : Nat} {start : Option α} {x : α} (hlimit : 0 < limit)
    (hstart : after xs start = xs.drop m) (hlast : (page xs limit start).last = some x) :
    m + limit < xs.length ∧ after xs (some x) = xs.drop (m + limit) := by
  simp only [page, hstart] at hlast
  split at hlast
  · next hmore =>
    rw [List.length_drop] at hmore
    have hlt : m + limit < xs.length := by omega
    refine ⟨hlt, ?_⟩
    have hget : ((xs.drop m).take limit).getLast? = xs[m + limit - 1]? := by
      rw [List.getLast?_eq_getElem?, List.length_take, List.length_drop, List.getElem?_take, List.getElem?_drop,
        Nat.min_eq_left (by omega), if_pos (by omega), Nat.add_sub_assoc hlimit]
    rw [hget, List.getElem?_eq_getElem (by omega)] at hlast
    cases hlast
    rw [after_getElem hnodup, Nat.sub_add_cancel (by omega)]
  · cases hlast

/-- From any page on the rest is collected. Induction on what is left to ask. -/
theorem collect_drop {xs : List α} (hnodup : xs.Nodup) {limit : Nat} (hlimit : 0 < limit)
    {ask : Nat → Option α → Except ε (Page α)}
    (hask : ∀ n start, n = 0 ∨ limit * n < xs.length → ask n start = .ok (page xs limit start))
    {fuel n : Nat} {start : Option α} (hn : n = 0 ∨ limit * n < xs.length)
    (hstart : after xs start = xs.drop (limit * n)) (hfuel : xs.length < limit * n + fuel) :
    collect ask fuel n start = .ok (xs.drop (limit * n)) := by
  induction fuel generalizing n start with
  | zero =>
      rcases hn with rfl | hn
      · exact absurd hfuel (by simp)
      · exact absurd hfuel (by omega)
  | succ fuel ih =>
      rw [collect, hask n start hn]
      show (match (page xs limit start).last with | none => _ | some last => _) = _
      split
      · next hlast =>
        have hall : ¬ limit < (xs.drop (limit * n)).length := by
          intro hmore
          simp only [page, hstart, if_pos hmore, List.getLast?_eq_none_iff] at hlast
          have := congrArg List.length hlast
          rw [List.length_take, List.length_nil] at this
          omega
        show Except.ok ((after xs start).take limit) = _
        rw [hstart, List.take_of_length_le (Nat.le_of_not_lt hall)]
      · next last hlast =>
        obtain ⟨hlt, hafter⟩ := after_page hnodup hlimit hstart hlast
        rw [← Nat.mul_succ] at hlt hafter
        rw [ih (.inr hlt) hafter (by rw [Nat.mul_succ]; omega)]
        show Except.ok ((after xs start).take limit ++ xs.drop (limit * (n + 1))) = _
        rw [hstart, Nat.mul_succ, ← List.drop_drop, List.take_append_drop]

/-- **Following the pages gives the whole list**, if no request fails that is needed: the first, and the `n`-th next
    while the pages before it leave something over. -/
theorem collect_ok {xs : List α} (hnodup : xs.Nodup) {limit : Nat} (hlimit : 0 < limit)
    {ask : Nat → Option α → Except ε (Page α)}
    (hask : ∀ n start, n = 0 ∨ limit * n < xs.length → ask n start = .ok (page xs limit start))
    {fuel : Nat} (hfuel : xs.length < fuel) : collect ask fuel 0 none = .ok xs :=
  collect_drop hnodup hlimit hask (.inl rfl) rfl (by omega)

end Paging

end AsyncCpp
