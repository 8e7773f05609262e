import AsyncCpp.Config.ToString

/-!
# `Config.Print` — the types that are always rendered uniformly, and the structures of the configuration

`uniform_iff` says which values are rendered uniformly at their top. Here it is said of the types of which all values
are, to the bottom (`to_string_eq_render_iff`). The members of `Config` and `AccountInfo` have such types, so their
`to_string` writes each member as it would be written alone (`to_string_config_eq`).

## Assumption
`char` is signed, as it is for x86-64; a `char` is written by `std::to_string` as an `int8_t` is.

## Contents
- `Ty.plain`, `regular_of_plain`.
- A value that is not rendered uniformly: `exists_ne`, by the parts of the type.
- `to_string_eq_render_iff`.
- `AccountType`, `AccountInfo`, `Config`.
-/

namespace AsyncCpp.Config

/-! ## The types -/

mutual
/-- No special part can occur anywhere in a value of the type. -/
def Ty.plain : Ty → Bool
  | .bool | .integer _ _ | .string => true
  | .vector T | .unordered_set T   => T.plain
  | .unordered_map K V             => K.plain && V.plain
  | .optional T                    => !special .optional T && T.plain
  | .tuple Args                    => Ty.plains Args

def Ty.plains : List Ty → Bool
  | []        => true
  | T :: Args => !special .tuple T && T.plain && Ty.plains Args
end

theorem plains_mem : ∀ {Args : List Ty}, Ty.plains Args = true → ∀ T ∈ Args, special .tuple T = false ∧ T.plain = true
  | [], _, T, hT     => by cases hT
  | U :: Args, h, T, hT => by
      simp only [Ty.plains, Bool.and_eq_true, Bool.not_eq_true'] at h
      rcases List.mem_cons.1 hT with rfl | hmem
      · exact h.1
      · exact plains_mem h.2 T hmem

/-- The parts of a value of such a type are of such types, and not special. -/
theorem plain_parts {T : Ty} (h : T.plain = true) (x : T.Val) :
    ∀ t ∈ parts T x, special T.own t.1 = false ∧ t.1.plain = true := by
  intro t ht
  cases T with
  | bool | integer _ _ | string => cases ht
  | vector T =>
    obtain ⟨y, -, rfl⟩ := List.mem_map.1 ht
    exact ⟨rfl, h⟩
  | unordered_set T =>
    obtain ⟨y, -, rfl⟩ := List.mem_map.1 ht
    exact ⟨rfl, h⟩
  | unordered_map K V =>
    obtain ⟨it, -, hit⟩ := List.mem_flatMap.1 ht
    have hKV := Bool.and_eq_true_iff.1 h
    rcases List.mem_pair.1 hit with rfl | rfl
    · exact ⟨rfl, hKV.1⟩
    · exact ⟨rfl, hKV.2⟩
  | optional T =>
    obtain ⟨y, -, rfl⟩ := List.mem_map.1 ht
    simpa [Ty.plain, Ty.own] using h
  | tuple Args =>
    refine plains_mem h t.1 ?_
    rw [← args_types x]
    exact List.mem_map_of_mem ht

/-- The type of a part is a part of the type. -/
theorem parts_lt {T : Ty} {x : T.Val} {t : Arg} (ht : t ∈ parts T x) : sizeOf t.1 < sizeOf T := by
  cases T with
  | bool | integer _ _ | string => cases ht
  | vector T | unordered_set T | optional T =>
    obtain ⟨y, -, rfl⟩ := List.mem_map.1 ht
    simp
  | unordered_map K V =>
    obtain ⟨it, -, hit⟩ := List.mem_flatMap.1 ht
    rcases List.mem_pair.1 hit with rfl | rfl
    · simp only [Ty.unordered_map.sizeOf_spec]
      omega
    · simp only [Ty.unordered_map.sizeOf_spec]
      omega
  | tuple Args =>
    have hmem : t.1 ∈ Args := by
      rw [← args_types x]
      exact List.mem_map_of_mem ht
    have hlt := List.sizeOf_lt_of_mem hmem
    simp only [Ty.tuple.sizeOf_spec]
    omega

theorem regular_of_plain {T : Ty} (h : T.plain = true) (x : T.Val) : Regular T x :=
  .intro (fun t ht => (plain_parts h x t ht).1) fun t ht => regular_of_plain (plain_parts h x t ht).2 t.2
termination_by sizeOf T
decreasing_by exact parts_lt ht

/-! ## Values that are not rendered uniformly -/

mutual
/-- Some value of the type. -/
def Ty.default : (T : Ty) → T.Val
  | .bool              => false
  | .integer _ width   => (0 : BitVec width.bits)
  | .string            => []
  | .vector T          => ([] : List T.Val)
  | .unordered_set T   => ⟨([] : List T.Val), List.nodup_nil⟩
  | .unordered_map K V => ⟨([] : List (K.Val × V.Val)), List.nodup_nil⟩
  | .optional T        => (none : Option T.Val)
  | .tuple Args        => Ty.defaults Args

def Ty.defaults : (Args : List Ty) → Ty.Vals Args
  | []        => ()
  | T :: Args => (T.default, Ty.defaults Args)
end

/-- What can be streamed is no more than what its overload writes. -/
theorem render_of_streamable {T : Ty} (h : T.streamable = true) (x : T.Val) : render T x = to_string T x := by
  cases T with
  | bool | integer _ _ | string => rfl
  | _ => cases h

/-- What can be hashed has a value that is rendered uniformly. -/
theorem exists_eq_of_hashable {T : Ty} (h : T.hashable = true) : ∃ x, to_string T x = render T x := by
  cases T with
  | bool | integer _ _ | string => exact ⟨Ty.default _, rfl⟩
  | vector T => exact ⟨Ty.default (.vector T), rfl⟩
  | optional T => exact ⟨Ty.default (.optional T), rfl⟩
  | unordered_set _ | unordered_map _ _ | tuple _ => cases h

/-- A value is not rendered uniformly when its parts are and one of them is special. -/
theorem ne_render {T : Ty} (h : accepts Overload.file T = true) {x : T.Val}
    (hparts : ∀ t ∈ parts T x, render t.1 t.2 = t.text) (hspecial : ¬ Plain T x) : to_string T x ≠ render T x := by
  rw [render_shape, shape_congr hparts]
  exact fun heq => hspecial ((whole_iff h x).1 heq)

/-- The components of an accepted tuple can be streamed, or it has one, which is a tuple. -/
theorem accepts_tuple_cases {Args : List Ty} (h : accepts Overload.file (.tuple Args) = true) :
    (∀ T ∈ Args, T.streamable = true) ∨ ∃ Args', Args = [.tuple Args'] ∧ accepts Overload.file (.tuple Args') = true := by
  match Args with
  | [] => exact .inl (by simp)
  | [T] =>
    by_cases hstream : T.streamable = true
    · exact .inl (by simpa using hstream)
    · have hcall : accepts (Overload.visible .tuple) T = true := h
      by_cases hseen : T.own ∈ Overload.visible .tuple
      · rw [accepts_seen hseen] at hcall
        cases T with
        | tuple Args' => exact .inr ⟨Args', rfl, hcall⟩
        | _ => simp [mem_visible_tuple, Ty.own] at hseen
      · exact absurd ((accepts_unseen hseen).symm.trans hcall) hstream
  | _ :: _ :: _ => exact .inl (List.all_eq_true.1 h)

/-- A type of which not all values are plain is special somewhere. -/
theorem plains_false : ∀ {Args : List Ty}, (∀ T ∈ Args, T.streamable = true) → Ty.plains Args = false →
    Ty.bool ∈ Args
  | [], _, h => by cases h
  | T :: Args, hstream, h => by
      have hT := hstream T List.mem_cons_self
      cases T with
      | bool => exact List.mem_cons_self
      | integer _ _ | string =>
        exact List.mem_cons_of_mem _ (plains_false (fun U hU => hstream U (List.mem_cons_of_mem _ hU)) h)
      | _ => cases hT

section one

variable {T : Ty} {t : Arg} (opening closing : Text)

/-- A value is not rendered uniformly when all of it but one part is written alike, and that part is not. -/
theorem ne_of_part (h : accepts Overload.file T = true) {x : T.Val} (ht : t ∈ parts T x)
    (hplain : special T.own t.1 = false) (hcode : shape T x (within T.own) = opening ++ within T.own t ++ closing)
    (hlaw : shape T x (fun t => render t.1 t.2) = opening ++ render t.1 t.2 ++ closing)
    (hne : to_string t.1 t.2 ≠ render t.1 t.2) : to_string T x ≠ render T x := by
  rw [to_string_shape h, render_shape, hcode, hlaw, (within_iff h ht).2 hplain]
  simpa [Arg.text] using hne

end one

/-- The containers with one entry. -/
def Ty.one_vector {T : Ty} (y : T.Val) : (Ty.vector T).Val := ([y] : List T.Val)

def Ty.one_unordered_set {T : Ty} (y : T.Val) : (Ty.unordered_set T).Val := ⟨([y] : List T.Val), List.nodup_singleton y⟩

def Ty.one_unordered_map {K V : Ty} (k : K.Val) (v : V.Val) : (Ty.unordered_map K V).Val :=
  ⟨([(k, v)] : List (K.Val × V.Val)), List.nodup_singleton k⟩

def Ty.one_optional {T : Ty} (y : T.Val) : (Ty.optional T).Val := (some y : Option T.Val)

theorem shape_one_unordered_map {K V : Ty} (k : K.Val) (v : V.Val) (f : Arg → Text) :
    shape (.unordered_map K V) (Ty.one_unordered_map k v) f = ['{'] ++ (f ⟨K, k⟩ ++ ['-', '>'] ++ f ⟨V, v⟩) ++ ['}'] := by
  simp [Ty.one_unordered_map, shape]

/-- **A type that is not plain has a value that is not rendered uniformly.** -/
theorem exists_ne (T : Ty) (h : accepts Overload.file T = true) (hT : T.plain = false) :
    ∃ x, to_string T x ≠ render T x := by
  match T with
  | .bool | .integer _ _ | .string => cases hT
  | .vector T =>
    have hpart : ∀ y : T.Val, ⟨T, y⟩ ∈ parts (.vector T) (Ty.one_vector y) := fun y => List.mem_singleton_self _
    obtain ⟨y, hy⟩ := exists_ne T (accepts_file_parts h _ _ (hpart T.default)) hT
    refine ⟨Ty.one_vector y, ne_of_part ['['] [']'] h (hpart y) rfl ?_ ?_ hy⟩ <;> simp [Ty.one_vector, shape]
  | .unordered_set T =>
    have hpart : ∀ y : T.Val, ⟨T, y⟩ ∈ parts (.unordered_set T) (Ty.one_unordered_set y) :=
      fun y => List.mem_singleton_self _
    obtain ⟨y, hy⟩ := exists_ne T (accepts_file_parts h _ _ (hpart T.default)) hT
    refine ⟨Ty.one_unordered_set y, ne_of_part ['['] [']'] h (hpart y) rfl ?_ ?_ hy⟩ <;> simp [Ty.one_unordered_set, shape]
  | .unordered_map K V =>
    have hK : ∀ (k : K.Val) (v : V.Val), ⟨K, k⟩ ∈ parts (.unordered_map K V) (Ty.one_unordered_map k v) :=
      fun k v => by simp [parts, Ty.one_unordered_map]
    have hV : ∀ (k : K.Val) (v : V.Val), ⟨V, v⟩ ∈ parts (.unordered_map K V) (Ty.one_unordered_map k v) :=
      fun k v => by simp [parts, Ty.one_unordered_map]
    cases hplain : V.plain with
    | false =>
      -- a key that is rendered uniformly, and a value that is not
      have hkeys : (K.hashable && _ && _) = true := h
      simp only [Bool.and_eq_true] at hkeys
      obtain ⟨k, hk⟩ := exists_eq_of_hashable hkeys.1.1
      obtain ⟨v, hv⟩ := exists_ne V (accepts_file_parts h _ _ (hV K.default V.default)) hplain
      have hwithin : within .unordered_map ⟨K, k⟩ = to_string K k := (within_iff h (hK k v)).2 rfl
      refine ⟨Ty.one_unordered_map k v,
        ne_of_part (['{'] ++ (to_string K k ++ ['-', '>'])) ['}'] h (hV k v) rfl ?_ ?_ hv⟩
      · rw [shape_one_unordered_map]
        simp [Ty.own, hwithin]
      · rw [shape_one_unordered_map]
        simp [hk]
    | true =>
      -- the other way round
      have hKplain : K.plain = false := by
        simpa [Ty.plain, hplain] using hT
      obtain ⟨k, hk⟩ := exists_ne K (accepts_file_parts h _ _ (hK K.default V.default)) hKplain
      have hv : to_string V V.default = render V V.default :=
        to_string_eq_render (accepts_file_parts h _ _ (hV k V.default)) (regular_of_plain hplain _)
      have hwithin : within .unordered_map ⟨V, V.default⟩ = to_string V V.default := (within_iff h (hV k _)).2 rfl
      refine ⟨Ty.one_unordered_map k V.default,
        ne_of_part ['{'] (['-', '>'] ++ to_string V V.default ++ ['}']) h (hK k _) rfl ?_ ?_ hk⟩
      · rw [shape_one_unordered_map]
        simp [Ty.own, hwithin]
      · rw [shape_one_unordered_map]
        simp [hv]
  | .optional T =>
    have hpart : ∀ y : T.Val, ⟨T, y⟩ ∈ parts (.optional T) (Ty.one_optional y) := fun y => List.mem_singleton_self _
    cases hspecial : special .optional T with
    | true =>
      have hstream : T.streamable = true := by
        cases T <;> first | rfl | cases hspecial
      refine ⟨Ty.one_optional T.default, ne_render h ?_ ?_⟩
      · intro t ht
        obtain rfl := List.mem_singleton.1 ht
        exact render_of_streamable hstream _
      · intro hplain
        exact absurd (hspecial.symm.trans (hplain _ (hpart _))) (by decide)
    | false =>
      have hTplain : T.plain = false := by
        simpa [Ty.plain, hspecial] using hT
      obtain ⟨y, hy⟩ := exists_ne T (accepts_file_parts h _ _ (hpart T.default)) hTplain
      refine ⟨Ty.one_optional y, ne_of_part [] [] h (hpart y) hspecial ?_ ?_ hy⟩ <;> simp [Ty.one_optional, shape]
  | .tuple Args =>
    rcases accepts_tuple_cases h with hstream | ⟨Args', rfl, h'⟩
    · refine ⟨Ty.default (.tuple Args), ne_render h ?_ ?_⟩
      · intro t ht
        apply render_of_streamable
        apply hstream
        rw [← args_types (Ty.default (.tuple Args))]
        exact List.mem_map_of_mem ht
      · intro hplain
        have hbool := plains_false hstream hT
        rw [← args_types (Ty.default (.tuple Args))] at hbool
        obtain ⟨t, ht, heq⟩ := List.mem_map.1 hbool
        have := hplain t ht
        rw [heq] at this
        cases this
    · obtain ⟨y, hy⟩ := exists_ne (.tuple Args') h' (by simpa [Ty.plain, Ty.plains, special] using hT)
      have hpart : ⟨.tuple Args', y⟩ ∈ parts (.tuple [.tuple Args']) (y, ()) := List.mem_singleton_self _
      refine ⟨(y, ()), ne_of_part [] [] h hpart rfl ?_ ?_ hy⟩ <;> simp [shape, Ty.Vals.args]
termination_by sizeOf T

/-- **The types of which every value is rendered uniformly**, to the bottom. -/
theorem to_string_eq_render_iff {T : Ty} (h : accepts Overload.file T = true) :
    (∀ x, to_string T x = render T x) ↔ T.plain = true := by
  constructor
  · intro hall
    by_contra hne
    obtain ⟨x, hx⟩ := exists_ne T h (by simpa using hne)
    exact hx (hall x)
  · intro hplain x
    exact to_string_eq_render h (regular_of_plain hplain x)

/-- A map from strings to tuples of a string and an `int32_t`; a `bool` in place of the number is not rendered
uniformly. -/
theorem to_string_eq_render_iff_map_tuple :
    (∀ x, to_string (.unordered_map .string (.tuple [.string, .integer true .w32])) x = render _ x) ∧
    ¬ ∀ x, to_string (.unordered_map .string (.tuple [.string, .bool])) x = render _ x :=
  ⟨(to_string_eq_render_iff (by decide)).2 (by decide),
    fun hall => absurd ((to_string_eq_render_iff (by decide)).1 hall) (by decide)⟩

end AsyncCpp.Config

/-! ## The structures of the configuration -/

namespace AsyncCpp.YamlCppStruct

open Config

/-- `enum class AccountType : uint8_t`; a value need not be an enumerator. -/
structure AccountType where
  value : BitVec 8
deriving DecidableEq

def AccountType.Personal : AccountType := ⟨1⟩

def AccountType.Company : AccountType := ⟨2⟩

inductive Exception
  | bad_cast
deriving DecidableEq

/-- `std::string` as a list of bytes. -/
def text (s : String) : Text := s.toList

/-- `to_string(const AccountType&)` -/
def to_string_account_type (type : AccountType) : Except Exception Text :=
  if type = .Personal then .ok (text "Personal")
  else if type = .Company then .ok (text "Company")
  else .error .bad_cast

structure AccountInfo where
  flag      : Ty.bool.Val
  name      : Ty.string.Val
  address   : (Ty.unordered_map .string (.integer true .w32)).Val
  num       : (Ty.optional .string).Val
  /-- The count. -/
  msec      : (Ty.integer true .w64).Val
  tuple     : (Ty.tuple [.string, .integer false .w8]).Val
  map_tuple : (Ty.unordered_map .string (.tuple [.string, .integer true .w32])).Val

/-- `to_string(const AccountInfo&)` -/
def to_string_account_info (aif : AccountInfo) : Text := List.flatten
  [text "AccountInfo",
   text " name=", stream ⟨.string, aif.name⟩, text " address=", to_string _ aif.address,
   text " num=", to_string _ aif.num, text " msec=", stream ⟨.integer true .w64, aif.msec⟩,
   text " tuple=", to_string _ aif.tuple, text " map_tuple=", to_string _ aif.map_tuple,
   text " flag=", to_string .bool aif.flag]

/-- `δ` are the values of type `double`. -/
structure Config (δ : Type) where
  ch           : (Ty.integer true .w8).Val
  price        : δ
  count        : (Ty.integer true .w16).Val
  content      : Ty.string.Val
  map          : (Ty.unordered_map .string .string).Val
  account_info : AccountInfo
  vec          : (Ty.vector .string).Val
  set_vec      : (Ty.unordered_set (.integer false .w8)).Val
  account_type : AccountType

section config

variable {δ : Type} (std_to_string : δ → Text)

/-- `to_string(const Config&)`; `std_to_string` is `std::to_string(double)`. -/
def to_string_config (cfg : Config δ) : Except Exception Text := do
  let beginning := List.flatten
    [text "Config",
     text " price=", std_to_string cfg.price,
     -- (int32_t)cfg.count
     text " count=", stream ⟨.integer true .w32, BitVec.ofInt 32 (number true cfg.count)⟩,
     text " content=", stream ⟨.string, cfg.content⟩, text " map=", to_string _ cfg.map,
     text " account_info=", to_string_account_info cfg.account_info,
     text " vec=", to_string _ cfg.vec, text " set_vec=", to_string _ cfg.set_vec, text " account_type="]
  let account_type ← to_string_account_type cfg.account_type
  return List.flatten [beginning, account_type, text " ch=", to_string (.integer true .w8) cfg.ch]

/-- The uniform text of a member, after its label. -/
def member (label : String) {T : Ty} (x : T.Val) : Text := text label ++ render T x

/-- The members of which the types are plain are rendered uniformly. -/
theorem to_string_member {T : Ty} (h : accepts Overload.file T = true) (hT : T.plain = true) (x : T.Val) :
    to_string T x = render T x := to_string_eq_render h (regular_of_plain hT x)

/-- The account, member by member. -/
def AccountInfo.members (aif : AccountInfo) : Text := List.flatten
  [text "AccountInfo", member " name=" (T := .string) aif.name, member " address=" aif.address, member " num=" aif.num,
   member " msec=" (T := .integer true .w64) aif.msec, member " tuple=" aif.tuple, member " map_tuple=" aif.map_tuple,
   member " flag=" (T := .bool) aif.flag]

theorem to_string_account_info_eq (aif : AccountInfo) : to_string_account_info aif = aif.members := by
  have haddress := to_string_member (by decide) (by decide) aif.address
  have hnum := to_string_member (by decide) (by decide) aif.num
  have htuple := to_string_member (by decide) (by decide) aif.tuple
  have hmap_tuple := to_string_member (by decide) (by decide) aif.map_tuple
  simp only [to_string_account_info, AccountInfo.members, haddress, hnum, htuple, hmap_tuple, member, List.flatten_cons,
    List.append_assoc]
  rfl

/-- The conversion in front of `count` keeps the number. -/
theorem stream_count (count : (Ty.integer true .w16).Val) :
    stream ⟨.integer true .w32, BitVec.ofInt 32 (number true count)⟩ = render (.integer true .w16) count := by
  change BitVec 16 at count
  have hlow := BitVec.le_toInt count
  have hhigh := BitVec.toInt_lt (x := count)
  have hself : (BitVec.ofInt 32 count.toInt).toInt = count.toInt :=
    BitVec.toInt_ofInt_eq_self (by decide) (by omega) (by omega)
  exact congrArg decimal hself

/-- **The configuration is written member by member, each in its uniform text**; only `account_type` can throw. -/
theorem to_string_config_eq (cfg : Config δ) :
    to_string_config std_to_string cfg = (to_string_account_type cfg.account_type).map fun account_type => List.flatten
      [text "Config", text " price=" ++ std_to_string cfg.price, member " count=" (T := .integer true .w16) cfg.count,
       member " content=" (T := .string) cfg.content, member " map=" cfg.map,
       text " account_info=" ++ cfg.account_info.members, member " vec=" cfg.vec,
       member " set_vec=" cfg.set_vec, text " account_type=" ++ account_type,
       member " ch=" (T := .integer true .w8) cfg.ch] := by
  have hmap := to_string_member (by decide) (by decide) cfg.map
  have hvec := to_string_member (by decide) (by decide) cfg.vec
  have hset_vec := to_string_member (by decide) (by decide) cfg.set_vec
  simp only [to_string_config, hmap, hvec, hset_vec, stream_count, to_string_account_info_eq, member]
  cases to_string_account_type cfg.account_type with
  | error e => rfl
  | ok account_type =>
    simp only [bind, Except.bind, pure, Except.pure, Except.map, List.flatten_cons, List.flatten_nil, List.append_assoc,
      List.append_nil]
    rfl

end config

end AsyncCpp.YamlCppStruct
