import Mathlib.Data.List.Basic

/-!
# `Lib.Joined` — texts joined with a separator

Two loops that join, and `List.intercalate`. When two joined texts are equal, so are the pieces, if each two of them
are equal or differ at a place inside both.
-/

namespace AsyncCpp.Joined

variable {α β : Type} {sep : List α}

theorem intercalate_cons (x : List α) (xs : List (List α)) :
    sep.intercalate (x :: xs) = x ++ xs.flatMap (sep ++ ·) := by
  induction xs generalizing x with
  | nil => simp
  | cons y ys ih => rw [List.intercalate_cons_cons, ih, List.flatMap_cons, List.append_assoc, List.append_assoc]

/-! ## The loops -/

/-- A separator is appended before each further piece. -/
theorem foldl_separator (f : β → List α) (str : List α) (xs : List β) :
    xs.foldl (fun str x => str ++ sep ++ f x) str = str ++ (xs.map f).flatMap (sep ++ ·) := by
  induction xs generalizing str with
  | nil => simp
  | cons x xs ih =>
    rw [List.foldl_cons, ih, List.map_cons, List.flatMap_cons]
    simp only [List.append_assoc]

/-- The first piece is apart. -/
theorem foldl_first (f : β → List α) (str : List α) (x : β) (xs : List β) :
    xs.foldl (fun str x => str ++ sep ++ f x) (str ++ f x) = str ++ sep.intercalate ((x :: xs).map f) := by
  rw [foldl_separator, List.map_cons, intercalate_cons, List.append_assoc]

/-- The separator is a variable, empty before the first piece. -/
theorem foldl_variable (f : β → List α) (xs : List β) :
    (xs.foldl (fun s x => (s.1 ++ s.2 ++ f x, sep)) ([], [])).1 = sep.intercalate (xs.map f) := by
  have htail : ∀ (xs : List β) (str : List α), (xs.foldl (fun s x => (s.1 ++ s.2 ++ f x, sep)) (str, sep)).1 =
      xs.foldl (fun str x => str ++ sep ++ f x) str := by
    intro xs
    induction xs with
    | nil => intro str; rfl
    | cons x xs ih => intro str; exact ih _
  cases xs with
  | nil => rfl
  | cons x xs =>
    rw [List.foldl_cons, htail]
    exact foldl_first f [] x xs

/-! ## Cancellation -/

/-- Two texts that differ at a place inside both. -/
def Diverge (a b : List α) : Prop := ∃ p x s y s', x ≠ y ∧ a = p ++ x :: s ∧ b = p ++ y :: s'

theorem Diverge.append_ne {a b : List α} (h : Diverge a b) (u v : List α) : a ++ u ≠ b ++ v := by
  obtain ⟨p, x, s, y, s', hne, rfl, rfl⟩ := h
  intro heq
  rw [List.append_assoc, List.append_assoc, List.append_cancel_left_eq, List.cons_append, List.cons_append] at heq
  exact hne (List.cons.inj heq).1

theorem Diverge.ne {a b : List α} (h : Diverge a b) : a ≠ b := by
  simpa using h.append_ne [] []

theorem flatMap_inj {f g : β → List α} {xs : List β} (h : ∀ x ∈ xs, f x = g x ∨ Diverge (f x) (g x)) :
    (xs.map f).flatMap (sep ++ ·) = (xs.map g).flatMap (sep ++ ·) ↔ ∀ x ∈ xs, f x = g x := by
  induction xs with
  | nil => simp
  | cons x xs ih =>
    have ih := ih fun y hy => h y (List.mem_cons_of_mem x hy)
    rw [List.forall_mem_cons, ← ih]
    simp only [List.map_cons, List.flatMap_cons, List.append_assoc, List.append_cancel_left_eq]
    rcases h x List.mem_cons_self with heq | hdiv
    · simp [heq]
    · exact ⟨fun hjoin => absurd hjoin (hdiv.append_ne _ _), fun hboth => absurd hboth.1 hdiv.ne⟩

/-- **Joined texts are equal when the pieces are.** -/
theorem intercalate_inj {f g : β → List α} {xs : List β} (h : ∀ x ∈ xs, f x = g x ∨ Diverge (f x) (g x)) :
    sep.intercalate (xs.map f) = sep.intercalate (xs.map g) ↔ ∀ x ∈ xs, f x = g x := by
  cases xs with
  | nil => simp
  | cons x xs =>
    have htail : (xs.map f).flatMap (sep ++ ·) = (xs.map g).flatMap (sep ++ ·) ↔ ∀ x ∈ xs, f x = g x :=
      flatMap_inj fun y hy => h y (List.mem_cons_of_mem x hy)
    rw [List.forall_mem_cons, ← htail, List.map_cons, List.map_cons, intercalate_cons, intercalate_cons]
    rcases h x List.mem_cons_self with heq | hdiv
    · simp [heq]
    · exact ⟨fun hjoin => absurd hjoin (hdiv.append_ne _ _), fun hboth => absurd hboth.1 hdiv.ne⟩

end AsyncCpp.Joined
