import AsyncCpp.Config.Print
import AsyncCpp.Lib.Delimited

/-!
# `Config.Legible` — the types of which the text determines the value

Nothing is escaped in the texts that the overloads write. So two values may have the same text, depending on the type:
`{"a,b"}` and `{"a", "b"}` do. `injective_iff_legible` says of which types no two values have.

## Contents
- `Ty.clean`: what is delimited in every place (`clean_delimited`).
- `Ty.legible`; `injective_of_legible`.
- Two values with one text: `not_injective`, by the parts of the type.
- `injective_iff_legible`.
-/

namespace AsyncCpp.Config

/-! ## Numbers and words -/

/-- What stands behind a part: a separator of some kind or a closing bracket. -/
abbrev Stop (c : Char) : Prop := c ∈ [' ', ',', '-', ']', '}']

theorem not_stop_of_isDigit {c : Char} (h : c.isDigit = true) : ¬ Stop c := by
  intro hstop
  have hall : [' ', ',', '-', ']', '}'].all (fun c => !c.isDigit) = true := by decide
  have hdigit := List.all_eq_true.1 hall c hstop
  rw [h] at hdigit
  cases hdigit

theorem toDigits_isDigit {n : Nat} {c : Char} (h : c ∈ Nat.toDigits 10 n) : c.isDigit = true :=
  Nat.isDigit_of_mem_toDigits (by decide) (by decide) h

theorem toDigits_injective : Function.Injective (Nat.toDigits 10) := by
  intro n m h
  rw [← Nat.ofDigitChars_ten_toDigits (n := n), h, Nat.ofDigitChars_ten_toDigits]

theorem decimal_injective : Function.Injective decimal := by
  have hsign : ∀ n m, decimal (.ofNat n) ≠ decimal (.negSucc m) := by
    intro n m h
    have hminus : '-' ∈ Nat.toDigits 10 n := by
      rw [show Nat.toDigits 10 n = _ from h]
      exact List.mem_cons_self
    exact absurd (toDigits_isDigit hminus) (by decide)
  intro z z' h
  cases z with
  | ofNat n =>
    cases z' with
    | ofNat m => exact congrArg Int.ofNat (toDigits_injective h)
    | negSucc m => exact absurd h (hsign n m)
  | negSucc n =>
    cases z' with
    | ofNat m => exact absurd h.symm (hsign m n)
    | negSucc m =>
      have hnm := toDigits_injective (List.cons.inj h).2
      exact congrArg Int.negSucc (Nat.succ.inj hnm)

/-- A number begins with a digit or the sign. -/
theorem decimal_cons (z : Int) :
    ∃ c l, decimal z = c :: l ∧ (c.isDigit = true ∨ c = '-') ∧ ∀ a ∈ l, a.isDigit = true := by
  cases z with
  | ofNat n =>
    obtain ⟨c, l, hl⟩ := List.exists_cons_of_ne_nil (Nat.toDigits_ne_nil (n := n) (b := 10))
    have hdigits : ∀ a ∈ c :: l, a.isDigit = true := by
      intro a ha
      rw [← hl] at ha
      exact toDigits_isDigit ha
    exact ⟨c, l, hl, .inl (hdigits c List.mem_cons_self), fun a ha => hdigits a (List.mem_cons_of_mem c ha)⟩
  | negSucc n => exact ⟨'-', Nat.toDigits 10 (n + 1), rfl, .inr rfl, fun a ha => toDigits_isDigit ha⟩

theorem decimal_delimited : Delimited Stop decimal := by
  refine .word decimal_injective ?_ ?_
  · intro z
    obtain ⟨c, l, hl, -⟩ := decimal_cons z
    rw [hl]
    exact List.cons_ne_nil c l
  · intro z a ha
    obtain ⟨c, l, hl, -, htail⟩ := decimal_cons z
    rw [hl] at ha
    exact not_stop_of_isDigit (htail a ha)

theorem number_injective (signed : Bool) {w : Nat} : Function.Injective (number signed (w := w)) := by
  intro x y h
  cases signed with
  | false =>
    simp only [number, Bool.false_eq_true, if_false] at h
    exact BitVec.eq_of_toNat_eq (by exact_mod_cast h)
  | true =>
    simp only [number, if_true] at h
    exact BitVec.eq_of_toInt_eq h

theorem integer_delimited (signed : Bool) (width : Width) : Delimited Stop (to_string (.integer signed width)) :=
  decimal_delimited.comp (number_injective signed)

/-- A word of two, for `false` and for `true`. -/
theorem word_delimited (text : Bool → Text) (hne : text false ≠ text true) (hcons : ∀ b, text b ≠ [])
    (htail : ∀ b, (text b).tail.all (fun a => !decide (Stop a)) = true) : Delimited Stop text := by
  refine .word ?_ hcons fun b a ha => by simpa using List.all_eq_true.1 (htail b) a ha
  intro b b' h
  cases b <;> cases b'
  · rfl
  · exact absurd h hne
  · exact absurd h.symm hne
  · rfl

theorem bool_delimited : Delimited Stop (to_string .bool) :=
  word_delimited to_string_bool (by decide) (by decide) (by decide)

theorem stream_bool_delimited : Delimited Stop fun b : Ty.bool.Val => stream (func ⟨.bool, b⟩) :=
  word_delimited (fun b => stream (func ⟨.bool, b⟩)) (by decide) (by decide) (by decide)

/-! ## The types -/

def Ty.isString : Ty → Bool
  | .string => true
  | _ => false

/-- Every value is written as nothing. -/
def Ty.blank : Ty → Bool
  | .tuple []  => true
  | .tuple [T] => T.blank
  | _ => false

/-- No string is in a value, and no element of a container is written as nothing. -/
def Ty.clean : Ty → Bool
  | .bool | .integer _ _         => true
  | .string | .optional _        => false
  | .vector T | .unordered_set T => T.clean && !T.blank
  | .unordered_map K V           => K.clean && V.clean
  | .tuple [T]                   => T.clean
  | .tuple Args                  => Args.all fun T => !T.isString

/-- A text of the type may be `(nullopt)`. -/
def Ty.hides : Ty → Bool
  | .string | .optional _ => true
  | .tuple [T]            => T.hides
  | _ => false

/-- No two values have the same text. -/
def Ty.legible : Ty → Bool
  | .bool | .integer _ _ | .string => true
  | .vector T                      => (Ty.vector T).clean
  | .unordered_set T               => (Ty.unordered_set T).clean
  | .unordered_map K V             => (Ty.unordered_map K V).clean
  | .optional T                    => T.legible && !T.hides
  | .tuple [T]                     => T.legible
  | .tuple Args                    => Args.countP Ty.isString ≤ 1

/-! ## Tuples of several components -/

/-- What the first overload writes for the components of a tuple. -/
def pack {Args : List Ty} (x : Ty.Vals Args) : Text := to_string_pack (Ty.Vals.args x)

/-- A component. -/
def streamed {T : Ty} (a : T.Val) : Text := stream (func ⟨T, a⟩)

@[simp] theorem pack_singleton {T : Ty} (x : Ty.Vals [T]) : pack x = streamed x.1 := by
  rw [pack, to_string_pack_eq]
  exact List.intercalate_singleton

@[simp] theorem pack_cons {T U : Ty} {Args : List Ty} (x : Ty.Vals (T :: U :: Args)) :
    pack x = streamed x.1 ++ ' ' :: pack x.2 := by
  obtain ⟨a, b, x⟩ := x
  simp only [pack, to_string_pack_eq, Ty.Vals.args, List.map_cons]
  exact List.intercalate_cons_cons.trans (List.append_assoc _ _ _)

/-- The components can be streamed. -/
def Streams (Args : List Ty) : Prop := ∀ T ∈ Args, T.streamable = true

theorem Streams.tail {T : Ty} {Args : List Ty} (h : Streams (T :: Args)) : Streams Args :=
  fun U hU => h U (List.mem_cons_of_mem T hU)

theorem streamed_delimited {T : Ty} (h : T.streamable = true) (hT : T.isString = false) :
    Delimited Stop (streamed (T := T)) := by
  cases T with
  | bool => exact stream_bool_delimited
  | integer signed width =>
    have heq : streamed (T := .integer signed width) = to_string (.integer signed width) :=
      funext fun x => stream_func_integer signed width x
    rw [heq]
    exact integer_delimited signed width
  | string => cases hT
  | _ => cases h

theorem streamed_injective {T : Ty} (h : T.streamable = true) : Function.Injective (streamed (T := T)) := by
  cases hT : T.isString with
  | false => exact (streamed_delimited h hT).injective
  | true =>
    cases T with
    | string => exact fun a b hab => hab
    | _ => cases hT

/-- **Without strings the components are delimited.** -/
theorem pack_delimited {Args : List Ty} (h : Streams Args) (hclean : ∀ T ∈ Args, T.isString = false) :
    Delimited Stop (@pack Args) := by
  induction Args with
  | nil =>
    intro x y r r' _ _ heq
    exact ⟨rfl, heq⟩
  | cons T Args ih =>
    have hT := streamed_delimited (h T List.mem_cons_self) (hclean T List.mem_cons_self)
    cases Args with
    | nil =>
      intro x y r r' hr hr' heq
      rw [pack_singleton, pack_singleton] at heq
      obtain ⟨hfst, hrest⟩ := hT hr hr' heq
      exact ⟨Prod.ext hfst rfl, hrest⟩
    | cons U Args =>
      have ih := ih h.tail fun V hV => hclean V (List.mem_cons_of_mem T hV)
      intro x y r r' hr hr' heq
      refine hT.pair ih (show Stop ' ' by decide) [] hr hr' ?_
      simpa using heq

theorem streamed_count {T : Ty} (h : T.streamable = true) (hT : T.isString = false) (a : T.Val) :
    (streamed a).count ' ' = 0 := by
  cases T with
  | bool => cases a <;> decide
  | integer signed width =>
    rw [List.count_eq_zero, show streamed a = decimal (number signed a) from stream_func_integer signed width a]
    obtain ⟨c, l, hl, hc, htail⟩ := decimal_cons (number signed a)
    rw [hl, List.mem_cons]
    rintro (rfl | hmem)
    · revert hc
      decide
    · exact absurd (htail ' ' hmem) (by decide)
  | string => cases hT
  | _ => cases h

/-- There are as many spaces in the text as between the components. -/
theorem pack_count {Args : List Ty} (h : Streams Args) (hclean : ∀ T ∈ Args, T.isString = false) (x : Ty.Vals Args) :
    (pack x).count ' ' = Args.length - 1 := by
  induction Args with
  | nil => rfl
  | cons T Args ih =>
    have hT := streamed_count (h T List.mem_cons_self) (hclean T List.mem_cons_self)
    cases Args with
    | nil =>
      rw [pack_singleton]
      exact hT x.1
    | cons U Args =>
      have ih := ih h.tail (fun V hV => hclean V (List.mem_cons_of_mem T hV)) x.2
      rw [pack_cons, List.count_append, hT, List.count_cons_self, ih]
      simp

/-- **One string is no harm**: it is what is left of the text between the components before it and those behind. -/
theorem pack_injective {Args : List Ty} (h : Streams Args) (hone : Args.countP Ty.isString ≤ 1) :
    Function.Injective (@pack Args) := by
  induction Args with
  | nil => exact fun x y _ => rfl
  | cons T Args ih =>
    have hT := h T List.mem_cons_self
    cases Args with
    | nil =>
      intro x y heq
      rw [pack_singleton, pack_singleton] at heq
      exact Prod.ext (streamed_injective hT heq) rfl
    | cons U Args =>
      intro x y heq
      rw [pack_cons, pack_cons] at heq
      rw [List.countP_cons] at hone
      cases hstring : T.isString with
      | false =>
        have hstops : ∀ r : Text, Stops Stop (' ' :: r) := fun r => stops_cons.mpr (by decide)
        obtain ⟨hfst, hrest⟩ := streamed_delimited hT hstring (hstops _) (hstops _) heq
        exact Prod.ext hfst (ih h.tail (by omega) (List.cons.inj hrest).2)
      | true =>
        have hclean : ∀ V ∈ U :: Args, V.isString = false := by
          rw [if_pos hstring] at hone
          simpa [List.countP_eq_zero] using (show (U :: Args).countP Ty.isString = 0 by omega)
        have hcount := (pack_count h.tail hclean x.2).trans (pack_count h.tail hclean y.2).symm
        obtain ⟨hfst, hsnd⟩ := append_cons_inj hcount heq
        exact Prod.ext (streamed_injective hT hfst) ((pack_delimited h.tail hclean).injective hsnd)

/-! ## The texts -/

section texts

variable {T K V : Ty}

theorem accepts_file {seen : List Overload} (h : accepts seen T = true) : accepts Overload.file T = true := by
  by_cases hseen : T.own ∈ seen
  · rwa [accepts_seen hseen] at h
  · rw [accepts_unseen hseen] at h
    cases T with
    | bool | integer _ _ | string => rfl
    | _ => cases h

theorem vector_text (h : accepts Overload.file (.vector T) = true) (xs : List T.Val) :
    to_string (.vector T) xs = ['['] ++ [','].intercalate (xs.map (to_string T)) ++ [']'] := by
  have hcall : call (Overload.visible .vector) T = to_string T := funext (call_visible_container (by decide) h)
  rw [← hcall]
  exact to_string_vector_eq _ xs

theorem unordered_set_text (h : accepts Overload.file (.unordered_set T) = true) (x : (Ty.unordered_set T).Val) :
    to_string (.unordered_set T) x = ['['] ++ [','].intercalate (x.1.map (to_string T)) ++ [']'] := by
  have hT := (Bool.and_eq_true_iff.1 h).2
  have hcall : call (Overload.visible .unordered_set) T = to_string T := funext (call_visible_container (by decide) hT)
  rw [← hcall]
  exact to_string_unordered_set_eq _ x.1

/-- An entry of a map. -/
def entry (it : K.Val × V.Val) : Text := to_string K it.1 ++ '-' :: ['>'] ++ to_string V it.2

theorem accepts_unordered_map (h : accepts Overload.file (.unordered_map K V) = true) :
    K.hashable = true ∧ accepts (Overload.visible .unordered_map) K = true ∧
      accepts (Overload.visible .unordered_map) V = true := by
  have hall : (K.hashable && _ && _) = true := h
  simp only [Bool.and_eq_true] at hall
  exact ⟨hall.1.1, hall.1.2, hall.2⟩

theorem unordered_map_text (h : accepts Overload.file (.unordered_map K V) = true) (x : (Ty.unordered_map K V).Val) :
    to_string (.unordered_map K V) x = ['{'] ++ [','].intercalate (x.1.map entry) ++ ['}'] := by
  obtain ⟨-, hK, hV⟩ := accepts_unordered_map h
  have hcallK : call (Overload.visible .unordered_map) K = to_string K := funext (call_visible_container (by decide) hK)
  have hcallV : call (Overload.visible .unordered_map) V = to_string V := funext (call_visible_container (by decide) hV)
  have hentry : entry = fun it : K.Val × V.Val => call (Overload.visible .unordered_map) K it.1 ++ ['-', '>'] ++
      call (Overload.visible .unordered_map) V it.2 := by
    rw [hcallK, hcallV]
    rfl
  rw [hentry]
  exact to_string_unordered_map_eq _ _ x.1

/-- The only component of a tuple: it is a tuple, or it is streamed. -/
theorem singleton_cases (h : accepts Overload.file (.tuple [T]) = true) :
    (T.streamable = true ∧ ∀ x : Ty.Vals [T], to_string (.tuple [T]) x = streamed x.1) ∨
      (accepts Overload.file T = true ∧ (∃ Args, T = .tuple Args) ∧
        ∀ x : Ty.Vals [T], to_string (.tuple [T]) x = to_string T x.1) := by
  have hcall : accepts (Overload.visible .tuple) T = true := h
  by_cases hseen : T.own ∈ Overload.visible .tuple
  · refine .inr ⟨accepts_file hcall, ?_, fun x => call_seen hseen x.1⟩
    cases T with
    | tuple Args => exact ⟨Args, rfl⟩
    | _ => simp [mem_visible_tuple, Ty.own] at hseen
  · rw [accepts_unseen hseen] at hcall
    exact .inl ⟨hcall, fun x => call_unseen hseen x.1⟩

theorem streams_of_accepts {U : Ty} {Args : List Ty} (h : accepts Overload.file (.tuple (T :: U :: Args)) = true) :
    Streams (T :: U :: Args) := List.all_eq_true.1 h

end texts

/-! ## The types that are delimited -/

/-- A text that is not empty does not begin as a container ends. -/
def Opens (text : Text) : Prop := ∃ c l, text = c :: l ∧ c ≠ ']' ∧ c ≠ '}'

theorem Opens.of_eq {text text' : Text} (h : text = text') (hopens : Opens text') : Opens text := h ▸ hopens

theorem Opens.append {text : Text} (h : Opens text) (rest : Text) : Opens (text ++ rest) := by
  obtain ⟨c, l, rfl, hc⟩ := h
  exact ⟨c, l ++ rest, rfl, hc⟩

theorem Opens.ne_nil {text : Text} (h : Opens text) : text ≠ [] := by
  obtain ⟨c, l, rfl, -⟩ := h
  exact List.cons_ne_nil c l

theorem Opens.head {text : Text} (h : Opens text) : ∀ c ∈ text.head?, c ≠ ']' ∧ c ≠ '}' := by
  obtain ⟨c, l, rfl, hc⟩ := h
  intro a ha
  obtain rfl := Option.some.inj ha
  exact hc

theorem decimal_opens (z : Int) : Opens (decimal z) := by
  obtain ⟨c, l, hl, hc, -⟩ := decimal_cons z
  refine ⟨c, l, hl, ?_, ?_⟩ <;> rintro rfl <;> revert hc <;> decide

theorem streamed_opens {T : Ty} (h : T.streamable = true) (hT : T.isString = false) (a : T.Val) :
    Opens (streamed a) := by
  cases T with
  | bool => cases a <;> exact ⟨_, [], rfl, by decide⟩
  | integer signed width =>
    rw [show streamed a = decimal (number signed a) from stream_func_integer signed width a]
    exact decimal_opens _
  | string => cases hT
  | _ => cases h

/-- A streamable type has no string exactly when it is clean. -/
theorem clean_of_streamable {T : Ty} (h : T.streamable = true) : T.clean = !T.isString := by
  cases T with
  | bool | integer _ _ | string => rfl
  | _ => cases h

theorem clean_opens (T : Ty) (h : accepts Overload.file T = true) (hclean : T.clean = true) (hblank : T.blank = false)
    (x : T.Val) : Opens (to_string T x) := by
  match T with
  | .bool => cases x <;> exact ⟨_, _, rfl, by decide⟩
  | .integer signed width => exact decimal_opens _
  | .string | .optional _ => cases hclean
  | .vector T => exact .of_eq (vector_text h x) ⟨'[', _, rfl, by decide⟩
  | .unordered_set T => exact .of_eq (unordered_set_text h x) ⟨'[', _, rfl, by decide⟩
  | .unordered_map K V => exact .of_eq (unordered_map_text h x) ⟨'{', _, rfl, by decide⟩
  | .tuple [] => cases hblank
  | .tuple [T] =>
    have hT : T.clean = true := hclean
    rcases singleton_cases h with ⟨hstream, htext⟩ | ⟨haccepts, -, htext⟩
    · rw [clean_of_streamable hstream] at hT
      exact .of_eq (htext x) (streamed_opens hstream (by simpa using hT) _)
    · exact .of_eq (htext x) (clean_opens T haccepts hT hblank _)
  | .tuple (T :: U :: Args) =>
    have hstream := streams_of_accepts h T List.mem_cons_self
    have hT : T.isString = false := by simpa using List.all_eq_true.1 hclean T List.mem_cons_self
    exact .of_eq (pack_cons x) ((streamed_opens hstream hT _).append _)
termination_by sizeOf T

/-- **What is clean is delimited.** -/
theorem clean_delimited (T : Ty) (h : accepts Overload.file T = true) (hclean : T.clean = true) :
    Delimited Stop (to_string T) := by
  match T with
  | .bool => exact bool_delimited
  | .integer signed width => exact integer_delimited signed width
  | .string | .optional _ => cases hclean
  | .vector T =>
    obtain ⟨hT, hblank⟩ := Bool.and_eq_true_iff.1 hclean
    have haccepts : accepts Overload.file T = true := accepts_file (show accepts (Overload.visible .vector) T = true from h)
    have hopens := clean_opens T haccepts hT (by simpa using hblank)
    rw [show to_string (.vector T) = _ from funext (vector_text h)]
    exact (clean_delimited T haccepts hT).list (by decide) (by decide) (by decide) (fun x => (hopens x).ne_nil)
      (fun x a ha => ((hopens x).head a ha).1) _
  | .unordered_set T =>
    obtain ⟨hT, hblank⟩ := Bool.and_eq_true_iff.1 hclean
    have haccepts : accepts Overload.file T = true := accepts_file (Bool.and_eq_true_iff.1 h).2
    have hopens := clean_opens T haccepts hT (by simpa using hblank)
    rw [show to_string (.unordered_set T) = _ from funext (unordered_set_text h)]
    exact ((clean_delimited T haccepts hT).list (by decide) (by decide) (by decide) (fun x => (hopens x).ne_nil)
      (fun x a ha => ((hopens x).head a ha).1) _).comp Subtype.val_injective
  | .unordered_map K V =>
    obtain ⟨hK, hV⟩ := Bool.and_eq_true_iff.1 hclean
    obtain ⟨hhash, hacceptsK, hacceptsV⟩ := accepts_unordered_map h
    have hkeys := clean_delimited K (accepts_file hacceptsK) hK
    have hentry : Delimited Stop (entry (K := K) (V := V)) :=
      hkeys.pair (clean_delimited V (accepts_file hacceptsV) hV) (show Stop '-' by decide) ['>']
    have hopens : ∀ it : K.Val × V.Val, Opens (entry it) := by
      intro it
      have hblank : K.blank = false := by
        cases K <;> first | rfl | cases hhash
      exact .of_eq (List.append_assoc _ _ _) ((clean_opens K (accepts_file hacceptsK) hK hblank it.1).append _)
    rw [show to_string (.unordered_map K V) = _ from funext (unordered_map_text h)]
    exact (hentry.list (by decide) (by decide) (by decide) (fun it => (hopens it).ne_nil)
      (fun it a ha => ((hopens it).head a ha).2) _).comp Subtype.val_injective
  | .tuple [] => exact fun x y r r' _ _ heq => ⟨rfl, heq⟩
  | .tuple [T] =>
    have hT : T.clean = true := hclean
    have hfst : Function.Injective (Prod.fst : Ty.Vals [T] → T.Val) := fun x y hxy => Prod.ext hxy rfl
    rcases singleton_cases h with ⟨hstream, htext⟩ | ⟨haccepts, -, htext⟩
    · rw [clean_of_streamable hstream] at hT
      rw [show to_string (.tuple [T]) = _ from funext htext]
      exact (streamed_delimited hstream (by simpa using hT)).comp hfst
    · rw [show to_string (.tuple [T]) = _ from funext htext]
      exact (clean_delimited T haccepts hT).comp hfst
  | .tuple (T :: U :: Args) =>
    exact pack_delimited (streams_of_accepts h) fun V hV => by simpa using List.all_eq_true.1 hclean V hV
termination_by sizeOf T

/-! ## The types that are legible -/

theorem ofNat_toNat {n : Nat} (h : n < 256) : (Char.ofNat n).toNat = n := by
  have hvalid : n.isValidChar := Or.inl (by omega)
  rw [Char.ofNat, dif_pos hvalid]
  rfl

/-- What `std::nullopt` is written as. -/
def nullopt : Text := ['(', 'n', 'u', 'l', 'l', 'o', 'p', 't', ')']

section optional

variable {T : Ty}

theorem optional_some (h : accepts Overload.file (.optional T) = true) (y : T.Val) :
    to_string (.optional T) (some y : Option T.Val) = within .optional ⟨T, y⟩ := to_string_shape h _

theorem accepts_optional (h : accepts Overload.file (.optional T) = true) : accepts Overload.file T = true := by
  rcases Bool.or_eq_true_iff.1 h with hdirect | hcall
  · cases T <;> first | rfl | cases hdirect
  · exact accepts_file hcall

theorem within_not_special (h : accepts Overload.file (.optional T) = true) (hT : special .optional T = false)
    (y : T.Val) : within .optional ⟨T, y⟩ = to_string T y :=
  (within_iff h (List.mem_singleton_self (⟨T, y⟩ : Arg)) (x := (some y : Option T.Val))).2 hT

/-- A value in an optional is not lost where it would not be lost alone. -/
theorem within_injective (h : accepts Overload.file (.optional T) = true) (hT : Function.Injective (to_string T)) :
    Function.Injective fun y : T.Val => within .optional ⟨T, y⟩ := by
  cases hspecial : special .optional T with
  | false =>
    rw [show (fun y : T.Val => within .optional ⟨T, y⟩) = to_string T from funext (within_not_special h hspecial)]
    exact hT
  | true =>
    intro y z hyz
    cases T with
    | bool =>
      cases y <;> cases z <;> first | rfl | exact absurd hyz (by decide)
    | integer signed width =>
      cases width with
      | w8 =>
        change BitVec 8 at y z
        have hchar : Char.ofNat y.toNat = Char.ofNat z.toNat := (List.cons.inj hyz).1
        have hnat := congrArg Char.toNat hchar
        rw [ofNat_toNat y.isLt, ofNat_toNat z.isLt] at hnat
        exact BitVec.eq_of_toNat_eq hnat
      | _ => cases hspecial
    | _ => cases hspecial

end optional

theorem decimal_ne_nullopt (z : Int) : decimal z ≠ nullopt := by
  obtain ⟨c, l, hl, hc, -⟩ := decimal_cons z
  rw [hl]
  intro heq
  rw [(List.cons.inj heq).1] at hc
  revert hc
  decide

theorem streamed_ne_nullopt {T : Ty} (h : T.streamable = true) (hides : T.hides = false) (a : T.Val) :
    streamed a ≠ nullopt := by
  cases T with
  | bool => cases a <;> decide
  | integer signed width =>
    rw [show streamed a = decimal (number signed a) from stream_func_integer signed width a]
    exact decimal_ne_nullopt _
  | string => cases hides
  | _ => cases h

/-- A value that is not written as a string could be is not taken for `std::nullopt`. -/
theorem ne_nullopt (T : Ty) (h : accepts Overload.file T = true) (hides : T.hides = false) (y : T.Val) :
    to_string T y ≠ nullopt := by
  match T with
  | .string | .optional _ => cases hides
  | .bool => cases y <;> decide
  | .integer signed width => exact decimal_ne_nullopt _
  | .vector T =>
    rw [show to_string (.vector T) y = _ from vector_text h y]
    exact fun heq => absurd (List.cons.inj heq).1 (by decide)
  | .unordered_set T =>
    rw [show to_string (.unordered_set T) y = _ from unordered_set_text h y]
    exact fun heq => absurd (List.cons.inj heq).1 (by decide)
  | .unordered_map K V =>
    rw [show to_string (.unordered_map K V) y = _ from unordered_map_text h y]
    exact fun heq => absurd (List.cons.inj heq).1 (by decide)
  | .tuple [] => exact (List.cons_ne_nil _ _).symm
  | .tuple [T] =>
    rcases singleton_cases h with ⟨hstream, htext⟩ | ⟨haccepts, -, htext⟩
    · rw [show to_string (.tuple [T]) y = _ from htext y]
      exact streamed_ne_nullopt hstream hides _
    · rw [show to_string (.tuple [T]) y = _ from htext y]
      exact ne_nullopt T haccepts hides _
  | .tuple (T :: U :: Args) =>
    -- there is a space between the components
    intro heq
    have hspace : ' ' ∈ to_string (.tuple (T :: U :: Args)) y := by
      rw [show to_string (.tuple (T :: U :: Args)) y = _ from pack_cons y]
      simp
    rw [heq] at hspace
    exact absurd hspace (by decide)
termination_by sizeOf T

theorem within_ne_nullopt {T : Ty} (h : accepts Overload.file (.optional T) = true) (hides : T.hides = false)
    (y : T.Val) : within .optional ⟨T, y⟩ ≠ nullopt := by
  cases hspecial : special .optional T with
  | false =>
    rw [within_not_special h hspecial]
    exact ne_nullopt T (accepts_optional h) hides y
  | true =>
    cases T with
    | bool => cases y <;> decide
    | integer signed width =>
      cases width with
      | w8 =>
        intro heq
        have hlen : 1 = 9 := congrArg List.length heq
        exact absurd hlen (by decide)
      | _ => cases hspecial
    | _ => cases hspecial

/-- **No two values of a legible type have the same text.** -/
theorem injective_of_legible (T : Ty) (h : accepts Overload.file T = true) (hlegible : T.legible = true) :
    Function.Injective (to_string T) := by
  match T with
  | .bool => exact bool_delimited.injective
  | .integer signed width => exact (integer_delimited signed width).injective
  | .string => exact fun x y hxy => hxy
  | .vector T => exact (clean_delimited (.vector T) h hlegible).injective
  | .unordered_set T => exact (clean_delimited (.unordered_set T) h hlegible).injective
  | .unordered_map K V => exact (clean_delimited (.unordered_map K V) h hlegible).injective
  | .optional T =>
    obtain ⟨hT, hhides⟩ := Bool.and_eq_true_iff.1 hlegible
    have hinj := within_injective h (injective_of_legible T (accepts_optional h) hT)
    have hsome : ∀ y : T.Val, to_string (.optional T) (some y : Option T.Val) ≠ nullopt := by
      intro y
      rw [optional_some h]
      exact within_ne_nullopt h (by simpa using hhides) y
    intro x y hxy
    cases x with
    | none =>
      cases y with
      | none => rfl
      | some z => exact absurd hxy.symm (hsome z)
    | some x =>
      cases y with
      | none => exact absurd hxy (hsome x)
      | some z =>
        rw [show to_string (.optional T) (some x) = _ from optional_some h x,
          show to_string (.optional T) (some z) = _ from optional_some h z] at hxy
        exact congrArg some (hinj hxy)
  | .tuple [] => exact fun x y _ => rfl
  | .tuple [T] =>
    have hT : T.legible = true := hlegible
    have hfst : Function.Injective (Prod.fst : Ty.Vals [T] → T.Val) := fun x y hxy => Prod.ext hxy rfl
    rcases singleton_cases h with ⟨hstream, htext⟩ | ⟨haccepts, -, htext⟩
    · rw [show to_string (.tuple [T]) = _ from funext htext]
      exact (streamed_injective hstream).comp hfst
    · rw [show to_string (.tuple [T]) = _ from funext htext]
      exact (injective_of_legible T haccepts hT).comp hfst
  | .tuple (T :: U :: Args) => exact pack_injective (streams_of_accepts h) (by simpa [Ty.legible] using hlegible)
termination_by sizeOf T

/-! ## Two values with one text -/

theorem not_injective_of {α β : Type} {f : α → β} {x y : α} (h : f x = f y) (hne : x ≠ y) : ¬ Function.Injective f :=
  fun hinj => hne (hinj h)

section tuples

variable {T U : Ty} {Args : List Ty}

def Ty.Vals.cons (a : T.Val) (x : Ty.Vals Args) : Ty.Vals (T :: Args) := (a, x)

def Ty.Vals.word (s : Text) (x : Ty.Vals Args) : Ty.Vals (.string :: Args) := (s, x)

theorem pack_word (s : Text) (x : Ty.Vals (U :: Args)) : pack (Ty.Vals.word s x) = s ++ ' ' :: pack x := pack_cons _

theorem pack_cons_cons (a : T.Val) (x : Ty.Vals (U :: Args)) : pack (Ty.Vals.cons a x) = streamed a ++ ' ' :: pack x :=
  pack_cons _

theorem eq_string (h : T.isString = true) : T = .string := by
  cases T with
  | string => rfl
  | _ => cases h

/-- Any text can be put in the first string among the components. -/
theorem pack_open (h : Streams Args) (hone : 1 ≤ Args.countP Ty.isString) : Open (@pack Args) := by
  induction Args with
  | nil => exact absurd hone (by decide)
  | cons T Args ih =>
    cases hstring : T.isString with
    | true =>
      obtain rfl := eq_string hstring
      cases Args with
      | nil =>
        refine ⟨[], [], fun s => ⟨Ty.Vals.word s (), ?_⟩⟩
        exact (pack_singleton (Ty.Vals.word s ())).trans (List.append_nil s).symm
      | cons U Args =>
        refine ⟨[], ' ' :: pack (Ty.defaults (U :: Args)), fun s => ?_⟩
        exact ⟨Ty.Vals.word s (Ty.defaults (U :: Args)), pack_word s _⟩
    | false =>
      rw [List.countP_cons_of_neg (by simp [hstring])] at hone
      cases Args with
      | nil => exact absurd hone (by decide)
      | cons U Args =>
        obtain ⟨p, q, hvalue⟩ := ih h.tail hone
        refine ⟨streamed T.default ++ ' ' :: p, q, fun s => ?_⟩
        obtain ⟨x, hx⟩ := hvalue s
        refine ⟨Ty.Vals.cons T.default x, ?_⟩
        rw [pack_cons_cons, hx]
        simp

/-- **Two strings**: what is between them may as well belong to either. -/
theorem pack_not_injective (h : Streams Args) (htwo : 2 ≤ Args.countP Ty.isString) :
    ¬ Function.Injective (@pack Args) := by
  induction Args with
  | nil => exact absurd htwo (by decide)
  | cons T Args ih =>
    cases Args with
    | nil =>
      rw [List.countP_cons, List.countP_nil] at htwo
      split at htwo <;> omega
    | cons U Args =>
      cases hstring : T.isString with
      | true =>
        obtain rfl := eq_string hstring
        rw [List.countP_cons_of_pos hstring] at htwo
        obtain ⟨p, q, hvalue⟩ := pack_open h.tail (Nat.le_of_succ_le_succ htwo)
        obtain ⟨x, hx⟩ := hvalue (' ' :: p)
        obtain ⟨y, hy⟩ := hvalue []
        refine not_injective_of (x := Ty.Vals.word [] x) (y := Ty.Vals.word (' ' :: p) y) ?_ ?_
        · rw [pack_word, pack_word, hx, hy]
          simp
        · exact fun heq => List.cons_ne_nil _ _ (congrArg Prod.fst heq).symm
      | false =>
        rw [List.countP_cons_of_neg (by simp [hstring])] at htwo
        obtain ⟨x, y, hxy, hne⟩ := Function.not_injective_iff.1 (ih h.tail htwo)
        refine not_injective_of (x := Ty.Vals.cons T.default x) (y := Ty.Vals.cons T.default y) ?_ ?_
        · rw [pack_cons_cons, pack_cons_cons, hxy]
        · exact fun heq => hne (congrArg Prod.snd heq)

end tuples

/-- What is written as nothing. -/
theorem blank_text (T : Ty) (h : accepts Overload.file T = true) (hblank : T.blank = true) (x : T.Val) :
    to_string T x = [] := by
  match T with
  | .bool | .integer _ _ | .string | .vector _ | .unordered_set _ | .unordered_map _ _ | .optional _ => cases hblank
  | .tuple [] => rfl
  | .tuple [T] =>
    rcases singleton_cases h with ⟨hstream, -⟩ | ⟨haccepts, -, htext⟩
    · cases T <;> first | cases hblank | cases hstream
    · exact (htext x).trans (blank_text T haccepts hblank x.1)
  | .tuple (_ :: _ :: _) => cases hblank
termination_by sizeOf T

/-- Where a text may be `(nullopt)`, one is. -/
theorem exists_nullopt (T : Ty) (h : accepts Overload.file T = true) (hides : T.hides = true) :
    ∃ x, to_string T x = nullopt := by
  match T with
  | .bool | .integer _ _ | .vector _ | .unordered_set _ | .unordered_map _ _ => cases hides
  | .string => exact ⟨nullopt, rfl⟩
  | .optional T => exact ⟨(none : Option T.Val), rfl⟩
  | .tuple [] => cases hides
  | .tuple [T] =>
    rcases singleton_cases h with ⟨hstream, htext⟩ | ⟨haccepts, -, htext⟩
    · obtain rfl : T = .string := by
        cases T with
        | string => rfl
        | bool | integer _ _ => cases hides
        | _ => cases hstream
      exact ⟨Ty.Vals.word nullopt (), htext _⟩
    · obtain ⟨x, hx⟩ := exists_nullopt T haccepts hides
      exact ⟨(x, ()), (htext _).trans hx⟩
  | .tuple (_ :: _ :: _) => cases hides
termination_by sizeOf T

/-- A legible type with a string in it: any text can be put there. -/
theorem open_of_not_clean (T : Ty) (h : accepts Overload.file T = true) (hoptional : T.own ≠ .optional)
    (hlegible : T.legible = true) (hclean : T.clean = false) : Open (to_string T) := by
  match T with
  | .bool | .integer _ _ => cases hclean
  | .vector _ | .unordered_set _ | .unordered_map _ _ => exact absurd (hlegible.symm.trans hclean) (by decide)
  | .optional _ => exact absurd rfl hoptional
  | .string => exact ⟨[], [], fun s => ⟨s, (List.append_nil s).symm⟩⟩
  | .tuple [] => cases hclean
  | .tuple [T] =>
    have hcons : ∀ {p q : Text}, (∀ s, ∃ y : T.Val, to_string (.tuple [T]) (y, ()) = p ++ s ++ q) →
        Open (to_string (.tuple [T])) := fun hvalue => ⟨_, _, fun s => (hvalue s).elim fun y hy => ⟨(y, ()), hy⟩⟩
    rcases singleton_cases h with ⟨hstream, htext⟩ | ⟨haccepts, ⟨Args, rfl⟩, htext⟩
    · obtain rfl := eq_string (by simpa using (clean_of_streamable hstream).symm.trans hclean)
      exact hcons (p := []) (q := []) fun s => ⟨s, (htext _).trans (List.append_nil s).symm⟩
    · obtain ⟨p, q, hvalue⟩ := open_of_not_clean (.tuple Args) haccepts Overload.noConfusion hlegible hclean
      exact hcons fun s => (hvalue s).imp fun y hy => (htext _).trans hy
  | .tuple (T :: U :: Args) =>
    obtain ⟨V, hV, hstring⟩ : ∃ V ∈ T :: U :: Args, V.isString = true := by
      simpa using (List.all_eq_false.1 hclean)
    exact pack_open (streams_of_accepts h) (List.countP_pos_iff.2 ⟨V, hV, hstring⟩)
termination_by sizeOf T

section lists

variable {T K V : Ty}

/-- Two values with one text give two lists of which the texts are the same. -/
theorem vector_not_injective (h : accepts Overload.file (.vector T) = true) (xs ys : List T.Val)
    (htext : [','].intercalate (xs.map (to_string T)) = [','].intercalate (ys.map (to_string T))) (hne : xs ≠ ys) :
    ¬ Function.Injective (to_string (.vector T)) := by
  refine not_injective_of (x := xs) (y := ys) ?_ hne
  rw [show to_string (.vector T) xs = _ from vector_text h xs, show to_string (.vector T) ys = _ from vector_text h ys,
    htext]

theorem unordered_map_not_injective (h : accepts Overload.file (.unordered_map K V) = true)
    {x y : (Ty.unordered_map K V).Val}
    (htext : [','].intercalate (x.1.map entry) = [','].intercalate (y.1.map entry)) (hne : x.1 ≠ y.1) :
    ¬ Function.Injective (to_string (.unordered_map K V)) := by
  refine not_injective_of (x := x) (y := y) ?_ fun heq => hne (congrArg Subtype.val heq)
  rw [unordered_map_text h, unordered_map_text h, htext]

theorem entries_one (k : K.Val) (v : V.Val) :
    [','].intercalate ((Ty.one_unordered_map k v).1.map entry) = entry (k, v) := List.intercalate_singleton

/-- The map with two entries. -/
def Ty.two_unordered_map {k k' : K.Val} (hne : k ≠ k') (v v' : V.Val) : (Ty.unordered_map K V).Val :=
  ⟨([(k, v), (k', v')] : List (K.Val × V.Val)), List.nodup_cons.2 ⟨by simpa using hne, List.nodup_singleton k'⟩⟩

theorem entries_two {k k' : K.Val} (hne : k ≠ k') (v v' : V.Val) :
    [','].intercalate ((Ty.two_unordered_map hne v v').1.map entry) = entry (k, v) ++ [','] ++ entry (k', v') := by
  rw [Ty.two_unordered_map, List.map_cons, List.map_singleton, List.intercalate_cons_cons, List.intercalate_singleton]

/-- There are two keys. -/
theorem exists_keys (h : K.hashable = true) : ∃ k k' : K.Val, k ≠ k' := by
  cases K with
  | bool => exact ⟨false, true, Bool.noConfusion⟩
  | integer signed width =>
    refine ⟨(0 : BitVec width.bits), (1 : BitVec width.bits), ?_⟩
    cases width <;> exact fun heq => absurd (congrArg BitVec.toNat heq) (by decide)
  | string => exact ⟨[], ['k'], (List.cons_ne_nil _ _).symm⟩
  | vector T => exact ⟨[], [T.default], (List.cons_ne_nil _ _).symm⟩
  | optional T => exact ⟨none, some T.default, (Option.some_ne_none T.default).symm⟩
  | _ => cases h

/-- The only key, or element of a set, that can be hashed and is not clean. -/
theorem string_of_hashable {o : Overload} (ho : Overload.optional ∉ o.visible) (h : K.hashable = true)
    (haccepts : accepts o.visible K = true) (hclean : K.clean = false) : K = .string := by
  cases K with
  | string => rfl
  | bool | integer _ _ => cases hclean
  | vector T =>
    obtain rfl : T = .bool := by
      cases T with
      | bool => rfl
      | _ => cases h
    cases hclean
  | optional T =>
    rw [accepts_unseen ho] at haccepts
    cases haccepts
  | _ => cases h

theorem not_optional {o : Overload} (ho : Overload.optional ∉ o.visible) (haccepts : accepts o.visible T = true) :
    T.own ≠ .optional := by
  intro hown
  rw [accepts_unseen (hown ▸ ho)] at haccepts
  cases T with
  | optional T => cases haccepts
  | _ => cases hown

end lists

/-- **Two values of a type that is not legible have the same text.** -/
theorem not_injective (T : Ty) (h : accepts Overload.file T = true) (hlegible : T.legible = false) :
    ¬ Function.Injective (to_string T) := by
  match T with
  | .bool | .integer _ _ | .string => cases hlegible
  | .vector T =>
    have haccepts : accepts Overload.file T = true := accepts_file (show accepts (Overload.visible .vector) T = true from h)
    by_cases hblank : T.blank = true
    · -- no element, or one that is written as nothing
      refine vector_not_injective h [] [T.default] ?_ (List.cons_ne_nil _ _).symm
      simp [blank_text T haccepts hblank]
    · have hclean : T.clean = false := by
        have hboth : (T.clean && !T.blank) = false := hlegible
        simpa [hblank] using hboth
      cases hT : T.legible with
      | false =>
        obtain ⟨x, y, hxy, hne⟩ := Function.not_injective_iff.1 (not_injective T haccepts hT)
        refine vector_not_injective h [x] [y] ?_ fun heq => hne (List.cons.inj heq).1
        simp [hxy]
      | true =>
        -- two elements, or one with the comma in a string
        have hopen := open_of_not_clean T haccepts (not_optional (o := .vector) (by decide) h) hT hclean
        obtain ⟨x, y, z, hxyz⟩ := hopen.join [',']
        refine vector_not_injective h [x, y] [z] ?_ ?_
        · simpa using hxyz
        · exact fun heq => List.cons_ne_nil _ _ (List.cons.inj heq).2
  | .unordered_set T =>
    obtain ⟨hhash, haccepts⟩ := Bool.and_eq_true_iff.1 h
    obtain rfl : T = .string := by
      refine string_of_hashable (by decide) hhash haccepts ?_
      have hblank : T.blank = false := by
        cases T with
        | tuple Args => cases hhash
        | _ => rfl
      have hboth : (T.clean && !T.blank) = false := hlegible
      simpa [hblank] using hboth
    -- an element of which the first character is a comma, or the empty one before it
    let x : (Ty.unordered_set .string).Val := ⟨([[',', 's']] : List Text), List.nodup_singleton _⟩
    let y : (Ty.unordered_set .string).Val := ⟨([[], ['s']] : List Text), show List.Nodup (α := Text) _ by decide⟩
    refine not_injective_of (x := x) (y := y) ?_ fun heq => ?_
    · rw [unordered_set_text h, unordered_set_text h]
      rfl
    · exact List.cons_ne_nil _ _ (List.cons.inj (congrArg Subtype.val heq)).2.symm
  | .unordered_map K V =>
    obtain ⟨hhash, hacceptsK, hacceptsV⟩ := accepts_unordered_map h
    cases hK : K.clean with
    | false =>
      obtain rfl := string_of_hashable (by decide) hhash hacceptsK hK
      -- the first entry of two is in the key of the only one
      have hkeys : ([] : Text) ≠ ['k'] := (List.cons_ne_nil _ _).symm
      refine unordered_map_not_injective h (x := Ty.two_unordered_map (K := .string) hkeys V.default V.default)
        (y := Ty.one_unordered_map (K := .string) (['-', '>'] ++ to_string V V.default ++ [',', 'k']) V.default) ?_ ?_
      · refine (entries_two (K := .string) hkeys _ _).trans (Eq.trans ?_ (entries_one (K := .string) _ _).symm)
        show [] ++ ['-', '>'] ++ to_string V V.default ++ [','] ++ (['k'] ++ ['-', '>'] ++ to_string V V.default) =
          ['-', '>'] ++ to_string V V.default ++ [',', 'k'] ++ ['-', '>'] ++ to_string V V.default
        simp
      · exact fun heq => List.cons_ne_nil _ _ (List.cons.inj heq).2
    | true =>
      have hclean : V.clean = false := by
        have hboth : (K.clean && V.clean) = false := hlegible
        simpa [hK] using hboth
      cases hV : V.legible with
      | false =>
        obtain ⟨x, y, hxy, hne⟩ := Function.not_injective_iff.1 (not_injective V (accepts_file hacceptsV) hV)
        refine unordered_map_not_injective h (x := Ty.one_unordered_map K.default x)
          (y := Ty.one_unordered_map K.default y) ?_ fun heq => hne (Prod.ext_iff.1 (List.cons.inj heq).1).2
        simp [Ty.one_unordered_map, entry, hxy]
      | true =>
        have hoptional := not_optional (o := .unordered_map) (by decide) hacceptsV
        have hopen := open_of_not_clean V (accepts_file hacceptsV) hoptional hV hclean
        obtain ⟨k, k', hkeys⟩ := exists_keys hhash
        obtain ⟨x, y, z, hxyz⟩ := hopen.join (',' :: to_string K k' ++ ['-', '>'])
        refine unordered_map_not_injective h (x := Ty.two_unordered_map hkeys x y) (y := Ty.one_unordered_map k z) ?_ ?_
        · rw [entries_two, entries_one, entry, entry, entry, ← hxyz]
          simp
        · exact fun heq => List.cons_ne_nil _ _ (List.cons.inj heq).2
  | .optional T =>
    have haccepts := accepts_optional h
    have hsome : special .optional T = false →
        ∀ y : T.Val, to_string (.optional T) (Ty.one_optional y) = to_string T y :=
      fun hspecial y => (optional_some h y).trans (within_not_special h hspecial y)
    cases hT : T.legible with
    | false =>
      obtain ⟨x, y, hxy, hne⟩ := Function.not_injective_iff.1 (not_injective T haccepts hT)
      have hspecial : special .optional T = false := by
        cases T with
        | bool | integer _ _ => cases hT
        | _ => rfl
      refine not_injective_of (x := Ty.one_optional x) (y := Ty.one_optional y) ?_ fun heq => hne (Option.some.inj heq)
      rw [hsome hspecial, hsome hspecial, hxy]
    | true =>
      have hhides : T.hides = true := by
        have hboth : (T.legible && !T.hides) = false := hlegible
        simpa [hT] using hboth
      have hspecial : special .optional T = false := by
        cases T with
        | bool | integer _ _ => cases hhides
        | _ => rfl
      obtain ⟨y, hy⟩ := exists_nullopt T haccepts hhides
      exact not_injective_of (x := Ty.one_optional y) (y := (none : Option T.Val)) ((hsome hspecial y).trans hy)
        (Option.some_ne_none y)
  | .tuple [] => cases hlegible
  | .tuple [T] =>
    have hT : T.legible = false := hlegible
    rcases singleton_cases h with ⟨hstream, -⟩ | ⟨haccepts, -, htext⟩
    · cases T with
      | bool | integer _ _ | string => cases hT
      | _ => cases hstream
    · obtain ⟨x, y, hxy, hne⟩ := Function.not_injective_iff.1 (not_injective T haccepts hT)
      refine not_injective_of (x := (x, ())) (y := (y, ())) ?_ fun heq => hne (congrArg Prod.fst heq)
      exact (htext (x, ())).trans (hxy.trans (htext (y, ())).symm)
  | .tuple (T :: U :: Args) =>
    have htwo : ¬ (T :: U :: Args).countP Ty.isString ≤ 1 := by simpa [Ty.legible] using hlegible
    exact pack_not_injective (streams_of_accepts h) (by omega)
termination_by sizeOf T

/-- **The text determines the value exactly for the legible types.** -/
theorem injective_iff_legible {T : Ty} (h : accepts Overload.file T = true) :
    Function.Injective (to_string T) ↔ T.legible = true := by
  constructor
  · intro hinj
    by_contra hlegible
    exact not_injective T h (by simpa using hlegible) hinj
  · exact injective_of_legible T h

example : Ty.legible (.vector (.tuple [.integer true .w32, .bool])) = true := by decide

/-- A tuple of a string and an `int32_t` can be read back, and a map from strings to such tuples cannot. -/
theorem injective_iff_legible_map_tuple :
    Function.Injective (to_string (.tuple [.string, .integer true .w32])) ∧
    ¬ Function.Injective (to_string (.unordered_map .string (.tuple [.string, .integer true .w32]))) :=
  ⟨(injective_iff_legible (by decide)).2 (by decide),
    fun hinj => absurd ((injective_iff_legible (by decide)).1 hinj) (by decide)⟩

end AsyncCpp.Config
