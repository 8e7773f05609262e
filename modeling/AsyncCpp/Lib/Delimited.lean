import AsyncCpp.Lib.Joined
import Mathlib.Logic.Function.Basic

/-!
# `Lib.Delimited` — texts from which values can be read back

A writer that joins texts without escaping anything loses where they end, unless each of them ends by itself. `Delimited
stop text` says so of the texts of a type: with what follows, when that is nothing or begins with a stop symbol, a text
determines its value and what follows. It is kept by the ways in which such writers join: a separator between two
(`pair`), and brackets around a list (`list`). A single text of any symbols between such texts is determined when the
separators behind it can be counted (`append_cons_inj`). Where any text may stand in the texts (`Open`), two of them pass
for one (`Open.join`).
-/

namespace AsyncCpp

variable {α β γ : Type} {stop stop' : α → Prop}

/-- Nothing, or what begins with a stop symbol. -/
def Stops (stop : α → Prop) (rest : List α) : Prop := ∀ a ∈ rest.head?, stop a

/-- **Each text ends by itself** before a stop symbol. -/
def Delimited (stop : α → Prop) (text : β → List α) : Prop :=
  ∀ ⦃x y : β⦄ ⦃r r' : List α⦄, Stops stop r → Stops stop r' → text x ++ r = text y ++ r' → x = y ∧ r = r'

@[simp] theorem stops_nil : Stops stop [] := by simp [Stops]

@[simp] theorem stops_cons {a : α} {rest : List α} : Stops stop (a :: rest) ↔ stop a := by simp [Stops]

/-- Where no symbol stops, a text is ended by what follows. -/
theorem append_stops {l l' r r' : List α} (hl : ∀ a ∈ l, ¬ stop a) (hl' : ∀ a ∈ l', ¬ stop a) (hr : Stops stop r)
    (hr' : Stops stop r') (h : l ++ r = l' ++ r') : l = l' ∧ r = r' := by
  induction l generalizing l' with
  | nil =>
    cases l' with
    | nil => exact ⟨rfl, h⟩
    | cons a l' =>
      rw [List.nil_append] at h
      rw [h, List.cons_append, stops_cons] at hr
      exact absurd hr (hl' a List.mem_cons_self)
  | cons a l ih =>
    cases l' with
    | nil =>
      rw [List.nil_append] at h
      rw [← h, List.cons_append, stops_cons] at hr'
      exact absurd hr' (hl a List.mem_cons_self)
    | cons b l' =>
      obtain ⟨rfl, htail⟩ := List.cons.inj h
      obtain ⟨rfl, hrest⟩ := ih (fun c hc => hl c (List.mem_cons_of_mem a hc))
        (fun c hc => hl' c (List.mem_cons_of_mem a hc)) htail
      exact ⟨rfl, hrest⟩

/-- **The separators behind a text of any symbols**: where they are as many, it is the same text. -/
theorem append_cons_inj [DecidableEq α] {c : α} {l l' r r' : List α} (hcount : r.count c = r'.count c)
    (h : l ++ c :: r = l' ++ c :: r') : l = l' ∧ r = r' := by
  induction l generalizing l' with
  | nil =>
    cases l' with
    | nil => exact ⟨rfl, (List.cons.inj h).2⟩
    | cons a l' =>
      have hr : r = l' ++ c :: r' := (List.cons.inj h).2
      rw [hr, List.count_append, List.count_cons_self] at hcount
      omega
  | cons a l ih =>
    cases l' with
    | nil =>
      have hr' : l ++ c :: r = r' := (List.cons.inj h).2
      rw [← hr', List.count_append, List.count_cons_self] at hcount
      omega
    | cons b l' =>
      obtain ⟨rfl, htail⟩ := List.cons.inj h
      obtain ⟨rfl, hrest⟩ := ih htail
      exact ⟨rfl, hrest⟩

namespace Delimited

variable {text : β → List α} {text' : γ → List α}

theorem injective (h : Delimited stop text) : Function.Injective text := by
  intro x y hxy
  exact (h stops_nil stops_nil (congrArg (· ++ []) hxy)).1

theorem comp (h : Delimited stop text) {f : γ → β} (hf : Function.Injective f) : Delimited stop fun x => text (f x) := by
  intro x y r r' hr hr' heq
  obtain ⟨hxy, hrest⟩ := h hr hr' heq
  exact ⟨hf hxy, hrest⟩

/-- **A word**: a stop symbol is at its beginning at most. -/
theorem word (hinj : Function.Injective text) (hne : ∀ x, text x ≠ []) (htail : ∀ x, ∀ a ∈ (text x).tail, ¬ stop a) :
    Delimited stop text := by
  intro x y r r' hr hr' heq
  have hx := htail x
  have hy := htail y
  obtain ⟨a, l, hl⟩ := List.exists_cons_of_ne_nil (hne x)
  obtain ⟨b, l', hl'⟩ := List.exists_cons_of_ne_nil (hne y)
  rw [hl, hl', List.cons_append, List.cons_append] at heq
  rw [hl] at hx
  rw [hl'] at hy
  obtain ⟨hhead, htails⟩ := List.cons.inj heq
  obtain ⟨htail, hrest⟩ : l = l' ∧ r = r' := append_stops hx hy hr hr' htails
  rw [hhead] at hl
  exact ⟨hinj (hl.trans ((congrArg (b :: ·) htail).trans hl'.symm)), hrest⟩

/-- **Two texts with a separator**, which stops the first. -/
theorem pair (h : Delimited stop text) (h' : Delimited stop' text') {c : α} (hc : stop c) (sep : List α) :
    Delimited stop' fun p : β × γ => text p.1 ++ c :: sep ++ text' p.2 := by
  intro p q r r' hr hr' heq
  simp only [List.append_assoc, List.cons_append] at heq
  obtain ⟨hfst, hrest⟩ := h (stops_cons.mpr hc) (stops_cons.mpr hc) heq
  obtain ⟨hsnd, hrest⟩ := h' hr hr' (List.append_cancel_left (List.cons.inj hrest).2)
  exact ⟨Prod.ext hfst hsnd, hrest⟩

section list

variable {c d : α}

/-- What follows an element: a separator, or the closing bracket. -/
theorem stops_further (hc : stop c) (hd : stop d) (xs : List β) (r : List α) :
    Stops stop ((xs.map text).flatMap ([c] ++ ·) ++ d :: r) := by
  cases xs with
  | nil => exact stops_cons.mpr hd
  | cons x xs => exact stops_cons.mpr hc

/-- The elements but the first, each behind a separator. -/
theorem further (h : Delimited stop text) (hc : stop c) (hd : stop d) (hcd : c ≠ d) {xs ys : List β} {r r' : List α}
    (heq : (xs.map text).flatMap ([c] ++ ·) ++ d :: r = (ys.map text).flatMap ([c] ++ ·) ++ d :: r') :
    xs = ys ∧ r = r' := by
  induction xs generalizing ys with
  | nil =>
    cases ys with
    | nil => exact ⟨rfl, (List.cons.inj heq).2⟩
    | cons y ys => exact absurd (List.cons.inj heq).1.symm hcd
  | cons x xs ih =>
    cases ys with
    | nil => exact absurd (List.cons.inj heq).1 hcd
    | cons y ys =>
      simp only [List.map_cons, List.flatMap_cons, List.append_assoc, List.append_cancel_left_eq] at heq
      obtain ⟨rfl, hrest⟩ := h (stops_further hc hd xs r) (stops_further hc hd ys r') heq
      obtain ⟨rfl, hr⟩ := ih hrest
      exact ⟨rfl, hr⟩

/-- **A list in brackets.** No element is empty or begins with the closing bracket. -/
theorem list (h : Delimited stop text) (hc : stop c) (hd : stop d) (hcd : c ≠ d) (hne : ∀ x, text x ≠ [])
    (hhead : ∀ x, ∀ a ∈ (text x).head?, a ≠ d) (opening : List α) :
    Delimited stop' fun xs : List β => opening ++ [c].intercalate (xs.map text) ++ [d] := by
  intro xs ys r r' _ _ heq
  -- the closing bracket is not the beginning of an element
  have hclosed : ∀ (x : β) (l m : List α), text x ++ l ≠ d :: m := by
    intro x l m heq
    obtain ⟨a, as, ha⟩ := List.exists_cons_of_ne_nil (hne x)
    rw [ha] at heq
    exact hhead x a (by rw [ha]; rfl) (List.cons.inj heq).1
  simp only [List.append_assoc, List.append_cancel_left_eq, List.singleton_append] at heq
  cases xs with
  | nil =>
    cases ys with
    | nil => exact ⟨rfl, (List.cons.inj heq).2⟩
    | cons y ys =>
      rw [List.map_cons, Joined.intercalate_cons, List.append_assoc] at heq
      exact absurd heq.symm (hclosed y _ _)
  | cons x xs =>
    cases ys with
    | nil =>
      rw [List.map_cons, Joined.intercalate_cons, List.append_assoc] at heq
      exact absurd heq (hclosed x _ _)
    | cons y ys =>
      rw [List.map_cons, List.map_cons, Joined.intercalate_cons, Joined.intercalate_cons, List.append_assoc,
        List.append_assoc] at heq
      obtain ⟨rfl, hrest⟩ := h (stops_further hc hd xs r) (stops_further hc hd ys r') heq
      obtain ⟨rfl, hr⟩ := h.further hc hd hcd hrest
      exact ⟨rfl, hr⟩

end list

end Delimited

/-! ## Texts that any other may stand in -/

/-- Any text can be put at a place of some value's text. -/
def Open (text : β → List α) : Prop := ∃ p q, ∀ s, ∃ x, text x = p ++ s ++ q

/-- **Two such texts are one**, whatever is between them. -/
theorem Open.join {text : β → List α} (h : Open text) (mid : List α) : ∃ x y z, text x ++ mid ++ text y = text z := by
  obtain ⟨p, q, hvalue⟩ := h
  obtain ⟨x, hx⟩ := hvalue []
  obtain ⟨z, hz⟩ := hvalue (q ++ mid ++ p)
  refine ⟨x, x, z, ?_⟩
  rw [hx, hz]
  simp

end AsyncCpp
