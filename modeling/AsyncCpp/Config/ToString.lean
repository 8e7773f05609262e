import AsyncCpp.Lib.Joined
import Mathlib.Data.List.Nodup

/-!
# `Config.ToString` — the `to_string` overloads of `test_yaml_cpp_struct.cpp`

The types are those built from `bool`, the integers and `std::string`. A call of `to_string` in the body of an
overload sees this overload and the ones that are declared before it; the namespace `std` has nothing for these types
that fits. `accepts` says which calls compile.

A value should be rendered the same way wherever it occurs: its text is its own shape around the `to_string` texts of
its parts. `uniform_iff` says for which values this is so.

## Contents
- `Ty`, the values, what is streamed.
- The overloads, `call`, `accepts`.
- The law: `Uniform`. What the bodies do, which overload is chosen, what is streamed.
- `to_string_shape`, `uniform_iff`, and `to_string_eq_render` for a whole tree.
-/

namespace AsyncCpp.Config

/-- A byte is the character with its number. -/
abbrev Text := List Char

inductive Width
  | w8
  | w16
  | w32
  | w64
deriving DecidableEq

def Width.bits : Width → Nat
  | w8  => 8
  | w16 => 16
  | w32 => 32
  | w64 => 64

inductive Ty
  | bool
  | integer (signed : Bool) (width : Width)
  | string
  | vector (T : Ty)
  | unordered_set (T : Ty)
  | unordered_map (K V : Ty)
  | optional (T : Ty)
  | tuple (Args : List Ty)

mutual
/-- The values. A set or a map is its entries in iteration order. -/
def Ty.Val : Ty → Type
  | .bool              => Bool
  | .integer _ width   => BitVec width.bits
  | .string            => Text
  | .vector T          => List T.Val
  | .unordered_set T   => { xs : List T.Val // xs.Nodup }
  | .unordered_map K V => { kvs : List (K.Val × V.Val) // (kvs.map Prod.fst).Nodup }
  | .optional T        => Option T.Val
  | .tuple Args        => Ty.Vals Args

def Ty.Vals : List Ty → Type
  | []        => Unit
  | T :: Args => T.Val × Ty.Vals Args
end

/-- A value with its type. -/
abbrev Arg := (T : Ty) × T.Val

def Ty.Vals.args : {Args : List Ty} → Ty.Vals Args → List Arg
  | [], _          => []
  | T :: _, (x, t) => ⟨T, x⟩ :: Ty.Vals.args t

/-! ## Streams -/

def decimal : Int → Text
  | .ofNat n   => Nat.toDigits 10 n
  | .negSucc n => '-' :: Nat.toDigits 10 (n + 1)

/-- The number that an integer type gives its bits. -/
def number (signed : Bool) {w : Nat} (x : BitVec w) : Int := if signed then x.toInt else x.toNat

/-- There is an `operator<<` for the type. -/
def Ty.streamable : Ty → Bool
  | .bool | .integer _ _ | .string => true
  | _ => false

/-- `ss << t`; the two types of 8 bits are character types. -/
def stream : Arg → Text
  | ⟨.bool, b⟩             => bif b then ['1'] else ['0']
  | ⟨.integer _ .w8, x⟩    => [Char.ofNat x.toNat]
  | ⟨.integer signed _, x⟩ => decimal (number signed x)
  | ⟨.string, s⟩           => s
  | _                      => []

/-- The lambda in the first overload. -/
def func : Arg → Arg
  | ⟨.integer signed .w8, x⟩ => ⟨.integer true .w32, BitVec.ofInt 32 (number signed x)⟩
  | t => t

/-! ## The overloads -/

/-- In the order of the file. -/
inductive Overload
  | pack
  | tuple
  | arithmetic
  | bool
  | string
  | vector
  | unordered_set
  | unordered_map
  | optional
deriving DecidableEq

namespace Overload

def file : List Overload :=
  [pack, tuple, arithmetic, bool, string, vector, unordered_set, unordered_map, optional]

/-- The overloads that a call in the body of `o` sees. -/
def visible (o : Overload) : List Overload := file.take (file.idxOf o + 1)

end Overload

/-- `to_string(const Ts&...)` -/
def to_string_pack (ts : List Arg) : Text :=
  (ts.foldl (fun s t => (s.1 ++ s.2 ++ stream (func t), [' '])) (([] : Text), ([] : Text))).1

def to_string_arithmetic (signed : Bool) {w : Nat} (value : BitVec w) : Text := decimal (number signed value)

def to_string_bool (value : Bool) : Text := if value then ['t', 'r', 'u', 'e'] else ['f', 'a', 'l', 's', 'e']

def to_string_string (value : Text) : Text := value

section containers

variable {α β : Type}

/-- The loop over a container. `write` appends an element. -/
def to_string_container (opening closing : Text) (write : Text → α → Text) (xs : List α) : Text :=
  let str := match xs with
    | []      => opening
    | x :: xs => xs.foldl (fun str x => write (str ++ [',']) x) (write opening x)
  str ++ closing

def to_string_vector (to_string : α → Text) (vector : List α) : Text :=
  to_string_container ['['] [']'] (fun str x => str ++ to_string x) vector

def to_string_unordered_set (to_string : α → Text) (vector : List α) : Text :=
  to_string_container ['['] [']'] (fun str x => str ++ to_string x) vector

def to_string_unordered_map (to_string_first : α → Text) (to_string_second : β → Text) (map : List (α × β)) : Text :=
  to_string_container ['{'] ['}']
    (fun str it => str ++ to_string_first it.1 ++ ['-', '>'] ++ to_string_second it.2) map

/-- `write` is what is streamed for `opt.value()`. -/
def to_string_optional (write : α → Text) : Option α → Text
  | some value => write value
  | none       => ['(', 'n', 'u', 'l', 'l', 'o', 'p', 't', ')']

end containers

/-- The overload that is made for the type; it is chosen before `pack` where it is seen. -/
def Ty.own : Ty → Overload
  | .bool              => .bool
  | .integer _ _       => .arithmetic
  | .string            => .string
  | .vector _          => .vector
  | .unordered_set _   => .unordered_set
  | .unordered_map _ _ => .unordered_map
  | .optional _        => .optional
  | .tuple _           => .tuple

/-- `std::is_fundamental_v<T> || std::is_same_v<T, std::string>` -/
def Ty.direct : Ty → Bool
  | .bool | .integer _ _ | .string => true
  | _ => false

/-- The text of a call where `seen` are seen; `text` is what the overload gives that is made for the type. -/
def resolve (seen : List Overload) (T : Ty) (x : T.Val) (text : Text) : Text :=
  if T.own ∈ seen then text else to_string_pack [⟨T, x⟩]

/-- A call of `to_string` where the overloads in `seen` are seen. -/
def call (seen : List Overload) : (T : Ty) → T.Val → Text
  | .bool, x                 => resolve seen .bool x (to_string_bool x)
  | .integer signed width, x => resolve seen (.integer signed width) x (to_string_arithmetic signed x)
  | .string, x               => resolve seen .string x (to_string_string x)
  | .vector T, x             => resolve seen (.vector T) x (to_string_vector (call (Overload.visible .vector) T) x)
  | .unordered_set T, x      => resolve seen (.unordered_set T) x
      (to_string_unordered_set (call (Overload.visible .unordered_set) T) x.1)
  | .unordered_map K V, x    => resolve seen (.unordered_map K V) x
      (to_string_unordered_map (call (Overload.visible .unordered_map) K) (call (Overload.visible .unordered_map) V) x.1)
  | .optional T, x           => resolve seen (.optional T) x
      (to_string_optional (if T.direct then fun y => stream ⟨T, y⟩ else call (Overload.visible .optional) T) x)
  -- one component: `to_string(ts...)` may be the overload for tuples again
  | .tuple [T], x            => resolve seen (.tuple [T]) x (call (Overload.visible .tuple) T x.1)
  | .tuple Args, x           => resolve seen (.tuple Args) x (to_string_pack (Ty.Vals.args x))

/-- `std::hash` is there for the type. -/
def Ty.hashable : Ty → Bool
  | .bool | .integer _ _ | .string | .vector .bool => true
  | .optional T => T.hashable
  | _ => false

/-- As `resolve`, for the question whether the call compiles. -/
def resolves (seen : List Overload) (T : Ty) (body : Bool) : Bool := if T.own ∈ seen then body else T.streamable

/-- A call of `to_string` where the overloads in `seen` are seen compiles. -/
def accepts (seen : List Overload) : Ty → Bool
  | .bool                 => resolves seen .bool true
  | .integer signed width => resolves seen (.integer signed width) true
  | .string               => resolves seen .string true
  | .vector T             => resolves seen (.vector T) (accepts (Overload.visible .vector) T)
  | .unordered_set T      => resolves seen (.unordered_set T)
      (T.hashable && accepts (Overload.visible .unordered_set) T)
  | .unordered_map K V    => resolves seen (.unordered_map K V)
      (K.hashable && accepts (Overload.visible .unordered_map) K && accepts (Overload.visible .unordered_map) V)
  | .optional T           => resolves seen (.optional T) (T.direct || accepts (Overload.visible .optional) T)
  | .tuple [T]            => resolves seen (.tuple [T]) (accepts (Overload.visible .tuple) T)
  | .tuple Args           => resolves seen (.tuple Args) (Args.all Ty.streamable)

/-- `to_string(x)` after all the overloads. -/
def to_string (T : Ty) (x : T.Val) : Text := call Overload.file T x

/-! ## The law -/

/-- A value with its text after all the overloads. -/
def Arg.text (t : Arg) : Text := to_string t.1 t.2

/-- The parts of a value in iteration order. -/
def parts : (T : Ty) → T.Val → List Arg
  | .vector T, x          => List.map (fun y => ⟨T, y⟩) x
  | .unordered_set T, x   => x.1.map fun y => ⟨T, y⟩
  | .unordered_map K V, x => x.1.flatMap fun it => [⟨K, it.1⟩, ⟨V, it.2⟩]
  | .optional T, x        => (Option.toList x).map fun y => ⟨T, y⟩
  | .tuple _, x           => Ty.Vals.args x
  | _, _                  => []

/-- What the body of `o` writes for a part. The several components of a tuple are streamed, and a call for one of them
    would stream it too (`within_tuple_streamable`). -/
def within (o : Overload) (t : Arg) : Text :=
  if o = .optional ∧ t.1.direct then stream t else call o.visible t.1 t.2

/-- The brackets and separators of a value around the texts of its parts. -/
def shape : (T : Ty) → T.Val → (Arg → Text) → Text
  | .vector T, x, text          => ['['] ++ List.intercalate [','] (List.map (fun y => text ⟨T, y⟩) x) ++ [']']
  | .unordered_set T, x, text   => ['['] ++ List.intercalate [','] (x.1.map fun y => text ⟨T, y⟩) ++ [']']
  | .unordered_map K V, x, text =>
      ['{'] ++ List.intercalate [','] (x.1.map fun it => text ⟨K, it.1⟩ ++ ['-', '>'] ++ text ⟨V, it.2⟩) ++ ['}']
  | .optional T, x, text        =>
      Option.elim x ['(', 'n', 'u', 'l', 'l', 'o', 'p', 't', ')'] fun y => text ⟨T, y⟩
  | .tuple _, x, text           => List.intercalate [' '] ((Ty.Vals.args x).map text)
  | T, x, _                     => to_string T x

/-- **A value is rendered the same way wherever it occurs.** -/
structure Uniform (T : Ty) (x : T.Val) : Prop where
  /-- The text that stands for a part is the `to_string` of the part. -/
  inside : ∀ t ∈ parts T x, within T.own t = t.text
  /-- The text of the value is its shape around these. -/
  whole  : to_string T x = shape T x Arg.text

/-- What an overload streams by itself and not as `to_string` would. -/
def special : Overload → Ty → Bool
  | .optional, .bool | .optional, .integer _ .w8 | .tuple, .bool => true
  | _, _ => false

/-! ## The bodies -/

section containers

variable {α β : Type} (f : α → Text) (g : β → Text)

theorem to_string_container_eq {opening closing : Text} {write : Text → α → Text}
    (hwrite : ∀ str x, write str x = str ++ f x) (xs : List α) :
    to_string_container opening closing write xs = opening ++ List.intercalate [','] (xs.map f) ++ closing := by
  obtain rfl : write = fun str x => str ++ f x := funext₂ hwrite
  cases xs with
  | nil => simp [to_string_container]
  | cons x xs => rw [to_string_container, Joined.foldl_first]

theorem to_string_vector_eq (xs : List α) :
    to_string_vector f xs = ['['] ++ List.intercalate [','] (xs.map f) ++ [']'] :=
  to_string_container_eq f (fun _ _ => rfl) xs

theorem to_string_unordered_set_eq (xs : List α) :
    to_string_unordered_set f xs = ['['] ++ List.intercalate [','] (xs.map f) ++ [']'] :=
  to_string_container_eq f (fun _ _ => rfl) xs

theorem to_string_unordered_map_eq (kvs : List (α × β)) :
    to_string_unordered_map f g kvs =
      ['{'] ++ List.intercalate [','] (kvs.map fun it => f it.1 ++ ['-', '>'] ++ g it.2) ++ ['}'] :=
  to_string_container_eq (fun it : α × β => f it.1 ++ ['-', '>'] ++ g it.2) (fun _ _ => by simp) kvs

theorem to_string_optional_eq (x : Option α) :
    to_string_optional f x = x.elim ['(', 'n', 'u', 'l', 'l', 'o', 'p', 't', ')'] f := by
  cases x <;> rfl

end containers

theorem to_string_pack_eq (ts : List Arg) :
    to_string_pack ts = List.intercalate [' '] (ts.map fun t => stream (func t)) :=
  Joined.foldl_variable _ ts

/-! ## Which overload is chosen -/

theorem mem_file (o : Overload) : o ∈ Overload.file := by
  cases o <;> decide

/-- The body of the chosen overload does not depend on where it is called. -/
theorem call_resolve (T : Ty) (x : T.Val) : ∃ text, ∀ seen, call seen T x = resolve seen T x text := by
  cases T with
  | tuple Args =>
    match Args, x with
    | [], x | [_], x | _ :: _ :: _, x => exact ⟨_, fun _ => rfl⟩
  | _ => exact ⟨_, fun _ => rfl⟩

theorem accepts_resolves (T : Ty) : ∃ body, ∀ seen, accepts seen T = resolves seen T body := by
  cases T with
  | tuple Args =>
    match Args with
    | [] | [_] | _ :: _ :: _ => exact ⟨_, fun _ => rfl⟩
  | _ => exact ⟨_, fun _ => rfl⟩

variable {seen : List Overload} {T : Ty}

theorem call_seen (h : T.own ∈ seen) (x : T.Val) : call seen T x = to_string T x := by
  obtain ⟨text, hcall⟩ := call_resolve T x
  rw [to_string, hcall, hcall, resolve, resolve, if_pos h, if_pos (mem_file _)]

theorem call_unseen (h : T.own ∉ seen) (x : T.Val) : call seen T x = stream (func ⟨T, x⟩) := by
  obtain ⟨text, hcall⟩ := call_resolve T x
  rw [hcall, resolve, if_neg h, to_string_pack_eq, List.map_singleton, List.intercalate_singleton]

theorem accepts_seen (h : T.own ∈ seen) : accepts seen T = accepts Overload.file T := by
  obtain ⟨body, haccepts⟩ := accepts_resolves T
  rw [haccepts, haccepts, resolves, resolves, if_pos h, if_pos (mem_file _)]

theorem accepts_unseen (h : T.own ∉ seen) : accepts seen T = T.streamable := by
  obtain ⟨body, haccepts⟩ := accepts_resolves T
  rw [haccepts, resolves, if_neg h]

/-! ## What is streamed -/

theorem number_w8_bounds (signed : Bool) (x : BitVec 8) : -128 ≤ number signed x ∧ number signed x < 256 := by
  have hlow := BitVec.le_toInt x
  have hhigh := BitVec.toInt_lt (x := x)
  have hnat := x.isLt
  cases signed <;> simp only [number, Bool.false_eq_true, if_true, if_false] <;> omega

/-- The conversion keeps the number. -/
theorem stream_func_integer (signed : Bool) (width : Width) (x : BitVec width.bits) :
    stream (func ⟨.integer signed width, x⟩) = to_string (.integer signed width) x := by
  cases width with
  | w8 =>
    change BitVec 8 at x
    have hbounds := number_w8_bounds signed x
    have hself : (BitVec.ofInt 32 (number signed x)).toInt = number signed x :=
      BitVec.toInt_ofInt_eq_self (by decide) (by omega) (by omega)
    exact congrArg decimal hself
  | _ => rfl

theorem stream_func_bool (b : Bool) : Joined.Diverge (stream (func ⟨.bool, b⟩)) (to_string .bool b) := by
  cases b
  · exact ⟨[], '0', [], 'f', ['a', 'l', 's', 'e'], by decide, rfl, rfl⟩
  · exact ⟨[], '1', [], 't', ['r', 'u', 'e'], by decide, rfl, rfl⟩

theorem toDigits_ne_char (n : Nat) : Nat.toDigits 10 n ≠ [Char.ofNat n] := by
  by_cases hn : n < 10
  · rw [Nat.toDigits_of_lt_base hn]
    revert n
    decide
  · rw [Nat.toDigits_of_base_le (by decide) (by omega)]
    intro h
    have hlen := congrArg List.length h
    have hpos := Nat.length_toDigits_pos (b := 10) (n := n / 10)
    rw [List.length_append, List.length_singleton, List.length_singleton] at hlen
    omega

/-- A character is not the number of its byte. -/
theorem stream_w8_ne (signed : Bool) (x : BitVec 8) :
    stream ⟨.integer signed .w8, x⟩ ≠ to_string (.integer signed .w8) x := by
  show [Char.ofNat x.toNat] ≠ decimal (number signed x)
  intro h
  cases hn : number signed x with
  | ofNat n =>
    have heq : n = x.toNat := by
      have hcond := BitVec.toInt_eq_toNat_cond x
      cases signed <;> simp only [number, Bool.false_eq_true, if_true, if_false, Int.ofNat_eq_natCast] at hn <;> omega
    rw [hn, decimal, heq] at h
    exact toDigits_ne_char _ h.symm
  | negSucc n =>
    rw [hn, decimal] at h
    exact Nat.toDigits_ne_nil (List.cons.inj h).2.symm

/-! ## The text of a part -/

theorem mem_visible_tuple {o : Overload} : o ∈ Overload.visible .tuple ↔ o = .pack ∨ o = .tuple := by
  cases o <;> decide

/-- What can be streamed has an overload of its own before those of the containers. -/
theorem own_of_streamable (h : T.streamable = true) : T.own ∈ [Overload.bool, .arithmetic, .string] := by
  cases T with
  | bool | integer _ _ | string => simp [Ty.own]
  | _ => cases h

theorem own_visible_of_streamable {o : Overload} (ho : o ∈ [.vector, .unordered_set, .unordered_map, .optional])
    (h : T.streamable = true) : T.own ∈ o.visible := by
  have hall : ∀ o ∈ [Overload.vector, .unordered_set, .unordered_map, .optional],
      ∀ own ∈ [Overload.bool, .arithmetic, .string], own ∈ o.visible := by decide
  exact hall o ho T.own (own_of_streamable h)

/-- A part of a container is written with the overloads that the whole file has. -/
theorem call_visible_container {o : Overload} (ho : o ∈ [.vector, .unordered_set, .unordered_map, .optional])
    (h : accepts o.visible T = true) (x : T.Val) : call o.visible T x = to_string T x := by
  by_cases hseen : T.own ∈ o.visible
  · exact call_seen hseen x
  · rw [accepts_unseen hseen] at h
    exact absurd (own_visible_of_streamable ho h) hseen

theorem within_container {o : Overload} (ho : o ∈ [.vector, .unordered_set, .unordered_map]) {t : Arg}
    (h : accepts o.visible t.1 = true) : within o t = t.text := by
  have hne : o ≠ .optional := by rintro rfl; revert ho; decide
  rw [within, if_neg fun hboth => hne hboth.1]
  exact call_visible_container (by simp_all) h t.2

theorem within_optional {t : Arg} (h : accepts (Overload.visible .optional) t.1 = true) :
    within .optional t = t.text ↔ special .optional t.1 = false := by
  obtain ⟨T, x⟩ := t
  cases T with
  | bool => cases x <;> decide
  | integer signed width =>
    cases width with
    | w8 => exact ⟨fun heq => absurd heq (stream_w8_ne signed x), fun hs => by cases hs⟩
    | _ => exact ⟨fun _ => rfl, fun _ => rfl⟩
  | string => exact ⟨fun _ => rfl, fun _ => rfl⟩
  | _ => exact ⟨fun _ => rfl, fun _ => call_visible_container (by simp) h x⟩

/-- It is not there yet for tuples. -/
theorem own_not_visible_tuple (h : T.streamable = true) : T.own ∉ Overload.visible .tuple := by
  have hall : ∀ own ∈ [Overload.bool, .arithmetic, .string], own ∉ Overload.visible .tuple := by decide
  exact hall T.own (own_of_streamable h)

theorem within_tuple_streamable {t : Arg} (h : t.1.streamable = true) : within .tuple t = stream (func t) := by
  rw [within, if_neg (by simp)]
  exact call_unseen (own_not_visible_tuple h) t.2

theorem within_tuple {t : Arg} (h : accepts (Overload.visible .tuple) t.1 = true) :
    if special .tuple t.1 then Joined.Diverge (within .tuple t) t.text else within .tuple t = t.text := by
  obtain ⟨T, x⟩ := t
  cases T with
  | bool =>
    rw [within_tuple_streamable rfl]
    exact stream_func_bool x
  | integer signed width =>
    rw [within_tuple_streamable rfl]
    exact stream_func_integer signed width x
  | string =>
    rw [within_tuple_streamable rfl]
    rfl
  | tuple Args => exact call_seen (mem_visible_tuple.2 (.inr rfl)) x
  | _ =>
    rw [accepts_unseen (by simp [mem_visible_tuple, Ty.own])] at h
    cases h

/-! ## The text of a value -/

theorem args_types : ∀ {Args : List Ty} (x : Ty.Vals Args), (Ty.Vals.args x).map Sigma.fst = Args
  | [], _          => rfl
  | T :: _, (_, x) => congrArg (T :: ·) (args_types x)

theorem accepts_tuple {T₁ T₂ : Ty} {Args : List Ty} (h : accepts Overload.file (.tuple (T₁ :: T₂ :: Args)) = true)
    (x : Ty.Vals (T₁ :: T₂ :: Args)) : ∀ t ∈ Ty.Vals.args x, t.1.streamable = true := by
  intro t ht
  have hall : (T₁ :: T₂ :: Args).all Ty.streamable = true := h
  rw [← args_types x, List.all_map, List.all_eq_true] at hall
  exact hall t ht

/-- The call for a part compiles where it stands. -/
theorem accepts_parts (h : accepts Overload.file T = true) (x : T.Val) :
    ∀ t ∈ parts T x, accepts T.own.visible t.1 = true := by
  intro t ht
  cases T with
  | bool | integer _ _ | string => cases ht
  | vector T =>
    obtain ⟨y, -, rfl⟩ := List.mem_map.1 ht
    exact h
  | unordered_set T =>
    obtain ⟨y, -, rfl⟩ := List.mem_map.1 ht
    exact (Bool.and_eq_true_iff.1 h).2
  | unordered_map K V =>
    obtain ⟨it, -, hit⟩ := List.mem_flatMap.1 ht
    have hKV := Bool.and_eq_true_iff.1 h
    rcases List.mem_pair.1 hit with rfl | rfl
    · exact (Bool.and_eq_true_iff.1 hKV.1).2
    · exact hKV.2
  | optional T =>
    obtain ⟨y, -, rfl⟩ := List.mem_map.1 ht
    rcases Bool.or_eq_true_iff.1 h with hdirect | hcall
    · show accepts _ T = true
      cases T <;> first | rfl | cases hdirect
    · exact hcall
  | tuple Args =>
    match Args, x with
    | [], _ => cases ht
    | [T], x =>
      obtain rfl := List.mem_singleton.1 ht
      exact h
    | _ :: _ :: _, x =>
      have hstream := accepts_tuple h x t ht
      exact (accepts_unseen (own_not_visible_tuple hstream)).trans hstream

/-- **What the code writes**: the shape of the value around the texts that the body gives the parts. -/
theorem to_string_shape (h : accepts Overload.file T = true) (x : T.Val) :
    to_string T x = shape T x (within T.own) := by
  cases T with
  | bool | integer _ _ | string => rfl
  | vector T => exact to_string_vector_eq _ x
  | unordered_set T => exact to_string_unordered_set_eq _ x.1
  | unordered_map K V => exact to_string_unordered_map_eq _ _ x.1
  | optional T =>
    have heq : (if T.direct then fun y => stream ⟨T, y⟩ else call (Overload.visible .optional) T) =
        fun y => within .optional ⟨T, y⟩ := by
      funext y
      cases hd : T.direct <;> simp [within, hd]
    exact (to_string_optional_eq _ x).trans (by rw [heq]; rfl)
  | tuple Args =>
    match Args, x with
    | [], _ => rfl
    | [T], x => exact List.intercalate_singleton.symm
    | _ :: _ :: _, x =>
      refine (to_string_pack_eq _).trans (congrArg _ (List.map_congr_left fun t ht => ?_))
      exact (within_tuple_streamable (accepts_tuple h x t ht)).symm

theorem shape_congr {f g : Arg → Text} {x : T.Val} (h : ∀ t ∈ parts T x, f t = g t) : shape T x f = shape T x g := by
  cases T with
  | bool | integer _ _ | string => rfl
  | vector T =>
    have hmap := List.map_congr_left fun y hy => h ⟨T, y⟩ (List.mem_map_of_mem hy)
    simp only [shape]
    rw [hmap]
  | unordered_set T =>
    have hmap := List.map_congr_left fun y hy => h ⟨T, y⟩ (List.mem_map_of_mem hy)
    simp only [shape]
    rw [hmap]
  | unordered_map K V =>
    have hmap : x.1.map (fun it => f ⟨K, it.1⟩ ++ ['-', '>'] ++ f ⟨V, it.2⟩) =
        x.1.map fun it => g ⟨K, it.1⟩ ++ ['-', '>'] ++ g ⟨V, it.2⟩ := by
      apply List.map_congr_left
      intro it hit
      have hK := h ⟨K, it.1⟩ (List.mem_flatMap.2 ⟨it, hit, List.mem_cons_self⟩)
      have hV := h ⟨V, it.2⟩ (List.mem_flatMap.2 ⟨it, hit, List.mem_cons_of_mem _ List.mem_cons_self⟩)
      rw [hK, hV]
    simp only [shape]
    rw [hmap]
  | optional T =>
    cases x with
    | none => rfl
    | some y => exact h ⟨T, y⟩ List.mem_cons_self
  | tuple Args => exact congrArg (List.intercalate [' ']) (List.map_congr_left h)

/-! ## Where the law holds -/

/-- No part is one that the body streams by itself. -/
def Plain (T : Ty) (x : T.Val) : Prop := ∀ t ∈ parts T x, special T.own t.1 = false

theorem within_iff (h : accepts Overload.file T = true) {x : T.Val} {t : Arg} (ht : t ∈ parts T x) :
    within T.own t = t.text ↔ special T.own t.1 = false := by
  have hpart := accepts_parts h x t ht
  cases T with
  | bool | integer _ _ | string => cases ht
  | vector T => exact ⟨fun _ => rfl, fun _ => within_container (o := .vector) (by decide) hpart⟩
  | unordered_set T => exact ⟨fun _ => rfl, fun _ => within_container (o := .unordered_set) (by decide) hpart⟩
  | unordered_map K V => exact ⟨fun _ => rfl, fun _ => within_container (o := .unordered_map) (by decide) hpart⟩
  | optional T => exact within_optional hpart
  | tuple Args =>
    have htuple := within_tuple hpart
    cases hs : special .tuple t.1 with
    | false =>
      rw [hs] at htuple
      exact ⟨fun _ => hs, fun _ => htuple⟩
    | true =>
      rw [hs] at htuple
      exact ⟨fun heq => absurd heq htuple.ne, fun hf => absurd (hs.symm.trans hf) (by decide)⟩

theorem whole_iff (h : accepts Overload.file T = true) (x : T.Val) :
    to_string T x = shape T x Arg.text ↔ Plain T x := by
  rw [to_string_shape h]
  constructor
  · intro heq t ht
    rw [← within_iff h ht]
    cases T with
    | bool | integer _ _ | string => cases ht
    | vector _ | unordered_set _ | unordered_map _ _ => exact (within_iff h ht).2 rfl
    | optional T =>
      cases x with
      | none => cases ht
      | some y =>
        obtain rfl := List.mem_singleton.1 ht
        exact heq
    | tuple Args =>
      refine (Joined.intercalate_inj fun t ht => ?_).1 heq t ht
      have htuple := within_tuple (accepts_parts h x t ht)
      split at htuple
      · exact .inr htuple
      · exact .inl htuple
  · intro hplain
    exact shape_congr fun t ht => (within_iff h ht).2 (hplain t ht)

/-- **The law holds exactly for the values without a special part.** These parts are a `bool` or an integer of 8 bits
in an optional, and a `bool` in a tuple. -/
theorem uniform_iff (h : accepts Overload.file T = true) (x : T.Val) : Uniform T x ↔ Plain T x := by
  constructor
  · intro hu
    exact (whole_iff h x).1 hu.whole
  · intro hplain
    exact ⟨fun t ht => (within_iff h ht).2 (hplain t ht), (whole_iff h x).2 hplain⟩

/-- A map from strings to tuples of a string and an `int32_t`, with one entry. -/
theorem uniform_iff_map :
    accepts Overload.file (.unordered_map .string (.tuple [.string, .integer true .w32])) = true ∧
    (Uniform (.unordered_map .string (.tuple [.string, .integer true .w32]))
        ⟨[(['k'], ['a'], 7#32, ())], List.nodup_singleton _⟩ ↔
      Plain (.unordered_map .string (.tuple [.string, .integer true .w32]))
        ⟨[(['k'], ['a'], 7#32, ())], List.nodup_singleton _⟩) :=
  ⟨by decide, uniform_iff (by decide) _⟩

/-- `std::optional<uint8_t>{65}` is written as the letter `A`. -/
theorem not_uniform_uint8 :
    accepts Overload.file (.optional (.integer false .w8)) = true ∧
    ¬ Uniform (.optional (.integer false .w8)) (some 65#8) := by
  refine ⟨by decide, fun hu => ?_⟩
  have hwhole : ['A'] = ['6', '5'] := hu.whole
  exact absurd hwhole (by decide)

/-! ## The whole tree -/

theorem accepts_file_parts (h : accepts Overload.file T = true) (x : T.Val) :
    ∀ t ∈ parts T x, accepts Overload.file t.1 = true := by
  intro t ht
  have hpart := accepts_parts h x t ht
  by_cases hseen : t.1.own ∈ T.own.visible
  · rwa [accepts_seen hseen] at hpart
  · rw [accepts_unseen hseen] at hpart
    cases hT : t.1 with
    | bool | integer _ _ | string => rfl
    | _ => rw [hT] at hpart; cases hpart

mutual
/-- The uniform text of a value. -/
def render : (T : Ty) → T.Val → Text
  | .vector T, x          => ['['] ++ List.intercalate [','] (List.map (render T) x) ++ [']']
  | .unordered_set T, x   => ['['] ++ List.intercalate [','] (x.1.map (render T)) ++ [']']
  | .unordered_map K V, x =>
      ['{'] ++ List.intercalate [','] (x.1.map fun it => render K it.1 ++ ['-', '>'] ++ render V it.2) ++ ['}']
  | .optional T, x        => Option.elim x ['(', 'n', 'u', 'l', 'l', 'o', 'p', 't', ')'] (render T)
  | .tuple Args, x        => List.intercalate [' '] (renders Args x)
  | .bool, x              => to_string_bool x
  | .integer signed _, x  => to_string_arithmetic signed x
  | .string, x            => to_string_string x

def renders : (Args : List Ty) → Ty.Vals Args → List Text
  | [], _             => []
  | T :: Args, (x, t) => render T x :: renders Args t
end

theorem renders_eq : ∀ (Args : List Ty) (x : Ty.Vals Args),
    renders Args x = (Ty.Vals.args x).map fun t => render t.1 t.2
  | [], _             => rfl
  | T :: Args, (x, t) => congrArg (render T x :: ·) (renders_eq Args t)

theorem render_shape (T : Ty) (x : T.Val) : render T x = shape T x fun t => render t.1 t.2 := by
  cases T with
  | tuple Args => exact congrArg (List.intercalate [' ']) (renders_eq Args x)
  | _ => rfl

/-- There is no special part anywhere in the value. -/
inductive Regular : (T : Ty) → T.Val → Prop
  | intro {T : Ty} {x : T.Val} : Plain T x → (∀ t ∈ parts T x, Regular t.1 t.2) → Regular T x

/-- **The code writes the uniform text** of every value that has no special part anywhere. -/
theorem to_string_eq_render {x : T.Val} (h : accepts Overload.file T = true) (hx : Regular T x) :
    to_string T x = render T x := by
  induction hx with
  | intro hplain _ ih =>
    rw [(whole_iff h _).2 hplain, render_shape]
    exact shape_congr fun t ht => ih t ht (accepts_file_parts h _ t ht)

end AsyncCpp.Config
