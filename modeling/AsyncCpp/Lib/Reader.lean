import Mathlib.Data.List.Basic

/-!
# `Lib.Reader` — reading one item after another off a list

A `Reader` takes an item off the front of a list, or refuses. It looks at nothing beyond what it takes (`takes`): the
invariant is a field, so every reader built below has it, and `readAll` of a reader that refuses the empty list splits
over `++` (`readAll_append`) and undoes every writer that the reader undoes item by item (`readAll_flatMap`).
-/

namespace AsyncCpp

/-- Takes an item off the front of a list. What it takes is an item again in front of anything else. -/
structure Reader (β α : Type) where
  read  : List β → Option (α × List β)
  takes : ∀ {p a q}, read p = some (a, q) → ∃ c, p = c ++ q ∧ ∀ r, read (c ++ r) = some (a, r)

namespace Reader

variable {α β γ : Type}

/-- Takes nothing. -/
protected def pure (a : α) : Reader β α where
  read p := some (a, p)
  takes h := by
    cases h
    exact ⟨[], rfl, fun r => rfl⟩

/-- Refuses everything. -/
def fail : Reader β α where
  read _ := none
  takes h := by cases h

/-- One item of the list. -/
def next : Reader β β where
  read
    | []     => none
    | b :: q => some (b, q)
  takes {p a q} h := by
    cases p with
    | nil => cases h
    | cons b p =>
        cases h
        exact ⟨[a], rfl, fun r => rfl⟩

/-- `n` items of the list. -/
def exactly (n : Nat) : Reader β (List β) where
  read p := if n ≤ p.length then some (p.take n, p.drop n) else none
  takes {p a q} h := by
    split at h
    · next hn =>
      cases h
      refine ⟨p.take n, (List.take_append_drop n p).symm, fun r => ?_⟩
      have hlen : (p.take n).length = n := by rw [List.length_take]; omega
      rw [if_pos (by rw [List.length_append]; omega), List.take_append_of_le_length (by omega),
        List.drop_append_of_le_length (by omega), List.take_of_length_le (by omega),
        List.drop_of_length_le (by omega), List.nil_append]
    · cases h

/-- One after the other, the second chosen by what the first has read. -/
protected def bind (x : Reader β α) (f : α → Reader β γ) : Reader β γ where
  read p := (x.read p).bind fun aq => (f aq.1).read aq.2
  takes {p c q} h := by
    obtain ⟨⟨a, m⟩, hx, hf⟩ := Option.bind_eq_some_iff.mp h
    obtain ⟨s, rfl, hs⟩ := x.takes hx
    obtain ⟨t, rfl, ht⟩ := (f a).takes hf
    refine ⟨s ++ t, by rw [List.append_assoc], fun r => ?_⟩
    rw [List.append_assoc, hs (t ++ r)]
    exact ht r

/-- What is read, seen through `f`. -/
protected def map (f : α → γ) (x : Reader β α) : Reader β γ :=
  x.bind fun a => Reader.pure (f a)

@[simp] theorem read_pure (a : α) (p : List β) : (Reader.pure a).read p = some (a, p) := rfl

@[simp] theorem read_fail (p : List β) : (fail : Reader β α).read p = none := rfl

@[simp] theorem read_next_nil : (next : Reader β β).read [] = none := rfl

@[simp] theorem read_next_cons (b : β) (p : List β) : next.read (b :: p) = some (b, p) := rfl

theorem read_bind (x : Reader β α) (f : α → Reader β γ) (p : List β) :
    (x.bind f).read p = (x.read p).bind fun aq => (f aq.1).read aq.2 := rfl

/-- `read_bind`, where the first reader is known to succeed. -/
theorem read_bind_of {x : Reader β α} {p q : List β} {a : α} (hx : x.read p = some (a, q)) (f : α → Reader β γ) :
    (x.bind f).read p = (f a).read q := by
  rw [read_bind, hx]; rfl

theorem read_bind_eq_some {x : Reader β α} {f : α → Reader β γ} {p q : List β} {c : γ}
    (h : (x.bind f).read p = some (c, q)) :
    ∃ a m, x.read p = some (a, m) ∧ (f a).read m = some (c, q) := by
  obtain ⟨⟨a, m⟩, hx, hf⟩ := Option.bind_eq_some_iff.mp h
  exact ⟨a, m, hx, hf⟩

/-- `read_bind_of` for `map`. -/
theorem read_map_of {x : Reader β α} {p q : List β} {a : α} (hx : x.read p = some (a, q)) (f : α → γ) :
    (x.map f).read p = some (f a, q) :=
  read_bind_of hx _

theorem read_map_eq_some {x : Reader β α} {f : α → γ} {p q : List β} {c : γ} (h : (x.map f).read p = some (c, q)) :
    ∃ a, x.read p = some (a, q) ∧ f a = c := by
  obtain ⟨a, m, hx, hf⟩ := read_bind_eq_some h
  cases hf
  exact ⟨a, hx, rfl⟩

/-- `exactly n` takes `n` items, as they stand. -/
theorem exactly_eq_some {n : Nat} {p xs q : List β} (h : (exactly n).read p = some (xs, q)) :
    xs.length = n ∧ xs ++ q = p := by
  simp only [exactly] at h
  split at h
  · next hn =>
    cases h
    exact ⟨by rw [List.length_take]; omega, List.take_append_drop n p⟩
  · cases h

theorem read_exactly (xs r : List β) : (exactly xs.length).read (xs ++ r) = some (xs, r) := by
  simp [exactly]

/-- Nothing is read off the empty list. -/
def Hungry (x : Reader β α) : Prop := x.read [] = none

theorem Hungry.next : Hungry (next : Reader β β) := rfl

theorem Hungry.bind {x : Reader β α} (hx : x.Hungry) (f : α → Reader β γ) : (x.bind f).Hungry := by
  rw [Hungry, read_bind, hx]; rfl

theorem Hungry.map {x : Reader β α} (hx : x.Hungry) (f : α → γ) : (x.map f).Hungry :=
  hx.bind _

theorem length_le {x : Reader β α} {p q : List β} {a : α} (h : x.read p = some (a, q)) : q.length ≤ p.length := by
  obtain ⟨c, rfl, -⟩ := x.takes h
  rw [List.length_append]
  exact Nat.le_add_left _ _

/-- A hungry reader takes at least one item. -/
theorem Hungry.length_lt {x : Reader β α} (hx : x.Hungry) {p q : List β} {a : α} (h : x.read p = some (a, q)) :
    q.length < p.length := by
  obtain ⟨c, rfl, hc⟩ := x.takes h
  cases c with
  | nil => exact absurd ((hc []).symm.trans hx) nofun
  | cons b c => simp only [List.length_append, List.length_cons]; omega

/-- What a reader has read in front of one rest it reads in front of every other. -/
theorem read_append {x : Reader β α} {p q : List β} {a : α} (h : x.read p = some (a, q)) (r : List β) :
    x.read (p ++ r) = some (a, q ++ r) := by
  obtain ⟨c, rfl, hc⟩ := x.takes h
  rw [List.append_assoc]
  exact hc (q ++ r)

/-! ## Reading to the end -/

/-- Item after item, `fuel` at most, to the end of the list. -/
def readUpTo (x : Reader β α) : Nat → List β → Option (List α)
  | _, [] => some []
  | 0, _ :: _ => none
  | fuel + 1, b :: p => (x.read (b :: p)).bind fun aq => (x.readUpTo fuel aq.2).map (aq.1 :: ·)

/-- Item after item to the end of the list. -/
def readAll (x : Reader β α) (p : List β) : Option (List α) := x.readUpTo p.length p

variable {x : Reader β α}

/-- With an item for every round there is never too little fuel. Induction on the fuel that there is. -/
theorem Hungry.readUpTo_eq (hx : x.Hungry) {n m : Nat} {p : List β} (hn : p.length ≤ n) (hm : p.length ≤ m) :
    x.readUpTo n p = x.readUpTo m p := by
  induction n generalizing m p with
  | zero =>
      obtain rfl := List.length_eq_zero_iff.mp (Nat.le_zero.mp hn)
      cases m <;> rfl
  | succ n ih =>
      cases p with
      | nil => cases m <;> rfl
      | cons b p =>
          obtain ⟨m, rfl⟩ := Nat.exists_eq_succ_of_ne_zero (n := m) (by rintro rfl; simp at hm)
          simp only [readUpTo]
          cases h : x.read (b :: p) with
          | none => rfl
          | some aq =>
              have hlt := hx.length_lt (a := aq.1) (q := aq.2) h
              simp only [List.length_cons] at hlt hn hm
              simp only [Option.bind_some]
              rw [ih (m := m) (by omega) (by omega)]

@[simp] theorem readAll_nil : x.readAll [] = some [] := rfl

/-- The first item, then the rest. -/
theorem Hungry.readAll_cons (hx : x.Hungry) {p q : List β} {a : α} (h : x.read p = some (a, q)) :
    x.readAll p = (x.readAll q).map (a :: ·) := by
  have hlt := hx.length_lt h
  cases p with
  | nil => exact absurd (hx.symm.trans h) nofun
  | cons b p =>
      simp only [readAll, List.length_cons, readUpTo, h, Option.bind_some]
      simp only [List.length_cons] at hlt
      rw [hx.readUpTo_eq (Nat.le_of_lt_succ hlt) (Nat.le_refl _)]

theorem readAll_of_refused {p : List β} (hp : p ≠ []) (h : x.read p = none) : x.readAll p = none := by
  cases p with
  | nil => exact absurd rfl hp
  | cons b p => simp only [readAll, List.length_cons, readUpTo, h, Option.bind_none]

/-- A list that is read to its end is empty, or an item and a list that is. -/
theorem Hungry.readAll_eq_some (hx : x.Hungry) {p : List β} {as : List α} (h : x.readAll p = some as) :
    (p = [] ∧ as = []) ∨ ∃ a q as', x.read p = some (a, q) ∧ x.readAll q = some as' ∧ as = a :: as' := by
  cases p with
  | nil =>
      cases h
      exact Or.inl ⟨rfl, rfl⟩
  | cons b p =>
      cases hr : x.read (b :: p) with
      | none => exact absurd ((readAll_of_refused (List.cons_ne_nil b p) hr).symm.trans h) nofun
      | some aq =>
          rw [hx.readAll_cons (a := aq.1) (q := aq.2) hr] at h
          obtain ⟨as', hall, rfl⟩ := Option.map_eq_some_iff.mp h
          exact Or.inr ⟨aq.1, aq.2, as', rfl, hall, rfl⟩

/-- Induction along a list that is read to its end. -/
theorem Hungry.readAll_induction (hx : x.Hungry) {motive : List β → List α → Prop} (hnil : motive [] [])
    (hcons : ∀ p a q as, x.read p = some (a, q) → x.readAll q = some as → motive q as → motive p (a :: as))
    {p : List β} {as : List α} (h : x.readAll p = some as) : motive p as := by
  induction as generalizing p with
  | nil =>
      rcases hx.readAll_eq_some h with ⟨rfl, -⟩ | ⟨a, q, as', -, -, hne⟩
      · exact hnil
      · cases hne
  | cons a as ih =>
      rcases hx.readAll_eq_some h with ⟨-, hne⟩ | ⟨a', q, as', hread, hall, heq⟩
      · cases hne
      · cases heq
        exact hcons p a q as hread hall (ih hall)

/-- Two lists end to end are read as the items of the first and then those of the second. -/
theorem Hungry.readAll_append (hx : x.Hungry) {p r : List β} {as : List α} (h : x.readAll p = some as) :
    x.readAll (p ++ r) = (x.readAll r).map (as ++ ·) := by
  refine hx.readAll_induction (motive := fun p as => x.readAll (p ++ r) = (x.readAll r).map (as ++ ·)) ?_ ?_ h
  · simp
  · intro p a q as hread _ ih
    rw [hx.readAll_cons (read_append hread r), ih, Option.map_map]
    rfl

/-- What is written item by item is read back, when each item is in front of anything. -/
theorem Hungry.readAll_flatMap (hx : x.Hungry) {write : α → List β} {as : List α}
    (hw : ∀ a ∈ as, ∀ r, x.read (write a ++ r) = some (a, r)) : x.readAll (as.flatMap write) = some as := by
  induction as with
  | nil => rfl
  | cons a as ih =>
      rw [List.flatMap_cons, hx.readAll_cons (hw a List.mem_cons_self _),
        ih fun b hb => hw b (List.mem_cons_of_mem a hb)]
      rfl

/-! ## Reading up to a mark -/

/-- Item after item, `fuel` at most with the mark, until `x` gives `none`. -/
def readUntil (x : Reader β (Option α)) : Nat → List β → Option (List α × List β)
  | 0, _ => none
  | fuel + 1, p => (x.read p).bind fun aq =>
      match aq.1 with
      | none   => some ([], aq.2)
      | some a => (x.readUntil fuel aq.2).map fun r => (a :: r.1, r.2)

variable {y : Reader β (Option α)}

/-- A run of `readUntil` ends at the mark at once, or takes an item and goes on. -/
theorem readUntil_eq_some {n : Nat} {p q : List β} {as : List α} (h : y.readUntil (n + 1) p = some (as, q)) :
    (y.read p = some (none, q) ∧ as = []) ∨
      ∃ a m as', y.read p = some (some a, m) ∧ y.readUntil n m = some (as', q) ∧ as = a :: as' := by
  obtain ⟨⟨_ | a, m⟩, hread, hrest⟩ := Option.bind_eq_some_iff.mp h
  · cases hrest
    exact Or.inl ⟨hread, rfl⟩
  · obtain ⟨⟨as', r⟩, hall, heq⟩ := Option.map_eq_some_iff.mp hrest
    cases heq
    exact Or.inr ⟨a, m, as', hread, hall, rfl⟩

theorem readUntil_succ_of_mark {n : Nat} {p q : List β} (h : y.read p = some (none, q)) :
    y.readUntil (n + 1) p = some ([], q) := by
  simp only [readUntil, h, Option.bind_some]

theorem readUntil_succ_of_item {n : Nat} {p m q : List β} {a : α} {as : List α} (h : y.read p = some (some a, m))
    (hrest : y.readUntil n m = some (as, q)) : y.readUntil (n + 1) p = some (a :: as, q) := by
  simp only [readUntil, h, Option.bind_some, hrest, Option.map_some]

/-- What is taken in a run of `readUntil` is taken again in front of anything, for any fuel of at least its length.
    Induction on the fuel of the run. -/
theorem Hungry.readUntil_takes (hy : y.Hungry) {n : Nat} {p q : List β} {as : List α}
    (h : y.readUntil n p = some (as, q)) :
    ∃ c, p = c ++ q ∧ ∀ r m, c.length ≤ m → y.readUntil m (c ++ r) = some (as, r) := by
  induction n generalizing p as with
  | zero => cases h
  | succ n ih =>
      rcases readUntil_eq_some h with ⟨hread, rfl⟩ | ⟨a, mid, as', hread, hall, rfl⟩
      · obtain ⟨c, rfl, hc⟩ := y.takes hread
        have hpos := hy.length_lt hread
        refine ⟨c, rfl, fun r m hm => ?_⟩
        rw [List.length_append] at hpos
        obtain ⟨m, rfl⟩ := Nat.exists_eq_succ_of_ne_zero (n := m) (by omega)
        exact readUntil_succ_of_mark (hc r)
      · obtain ⟨c, rfl, hc⟩ := y.takes hread
        obtain ⟨d, rfl, hd⟩ := ih hall
        have hpos := hy.length_lt hread
        refine ⟨c ++ d, by rw [List.append_assoc], fun r m hm => ?_⟩
        simp only [List.length_append] at hpos hm
        obtain ⟨m, rfl⟩ := Nat.exists_eq_succ_of_ne_zero (n := m) (by omega)
        rw [List.append_assoc]
        exact readUntil_succ_of_item (hc (d ++ r)) (hd r m (by omega))

/-- Items up to a mark. -/
def upTo (y : Reader β (Option α)) (hy : y.Hungry) : Reader β (List α) where
  read p := y.readUntil p.length p
  takes h := by
    obtain ⟨c, rfl, hc⟩ := hy.readUntil_takes h
    exact ⟨c, rfl, fun r => hc r _ (by rw [List.length_append]; exact Nat.le_add_right _ _)⟩

theorem Hungry.upTo (hy : y.Hungry) : (y.upTo hy).Hungry := rfl

/-- What holds of every item that can be read holds of all that are read up to the mark. -/
theorem readUntil_forall {good : α → Prop} (hgood : ∀ p a q, y.read p = some (some a, q) → good a) {n : Nat}
    {p q : List β} {as : List α} (h : y.readUntil n p = some (as, q)) : ∀ a ∈ as, good a := by
  induction n generalizing p as with
  | zero => cases h
  | succ n ih =>
      rcases readUntil_eq_some h with ⟨-, rfl⟩ | ⟨a, mid, as', hread, hall, rfl⟩
      · nofun
      · intro b hb
        rcases List.mem_cons.mp hb with rfl | hb
        · exact hgood p b mid hread
        · exact ih hall b hb

/-- Where the mark and each item are written in no more than was read for them, so is the whole. -/
theorem readUntil_length {write : α → List β} {mark : List β}
    (hmark : ∀ p q, y.read p = some (none, q) → mark.length + q.length ≤ p.length)
    (hw : ∀ p a q, y.read p = some (some a, q) → (write a).length + q.length ≤ p.length) {n : Nat}
    {p q : List β} {as : List α} (h : y.readUntil n p = some (as, q)) :
    (as.flatMap write ++ mark).length + q.length ≤ p.length := by
  induction n generalizing p as with
  | zero => cases h
  | succ n ih =>
      rcases readUntil_eq_some h with ⟨hread, rfl⟩ | ⟨a, mid, as', hread, hall, rfl⟩
      · exact hmark p q hread
      · have hitem := hw p a mid hread
        have hrest := ih hall
        rw [List.flatMap_cons, List.append_assoc, List.length_append]
        omega

/-- Items written one after the other, with the mark behind them, are read back. -/
theorem read_upTo {write : α → List β} {mark : List β} (hy : y.Hungry)
    (hmark : ∀ r, y.read (mark ++ r) = some (none, r)) {as : List α}
    (hw : ∀ a ∈ as, ∀ r, y.read (write a ++ r) = some (some a, r)) (r : List β) :
    (y.upTo hy).read (as.flatMap write ++ mark ++ r) = some (as, r) := by
  -- some fuel is enough, and then so is the length
  have hsome : ∃ n, y.readUntil n (as.flatMap write ++ mark ++ r) = some (as, r) := by
    induction as with
    | nil => exact ⟨1, readUntil_succ_of_mark (hmark r)⟩
    | cons a as ih =>
        obtain ⟨n, hn⟩ := ih fun b hb => hw b (List.mem_cons_of_mem a hb)
        refine ⟨n + 1, ?_⟩
        rw [List.flatMap_cons, List.append_assoc, List.append_assoc, ← List.append_assoc (as.flatMap write)]
        exact readUntil_succ_of_item (hw a List.mem_cons_self _) hn
  obtain ⟨n, hn⟩ := hsome
  obtain ⟨c, hp, hc⟩ := hy.readUntil_takes hn
  have hlen : c.length ≤ (as.flatMap write ++ mark ++ r).length := by
    rw [hp, List.length_append]
    exact Nat.le_add_right _ _
  have := hc r _ hlen
  rw [← hp] at this
  exact this

end Reader

end AsyncCpp
