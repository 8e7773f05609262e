import AsyncCpp.Greeter.Messages
import AsyncCpp.Lib.Reader

/-!
# `Greeter.Codec` — what the bytes of a message mean

Under the documented behaviour of the protobuf runtime (`Runtime.Documented`) the bytes of a message are a list of
items, each the string field or an unknown field, and `_InternalParse` is the fold of these items over the message
(`accepted_iff`): the last string wins, unknown fields are kept in order, a string that is not UTF-8 is refused
wherever it stands. What is written is read back.
-/

namespace AsyncCpp.Greeter

/-- Well-formed UTF-8. -/
def ValidUtf8 (s : Bytes) : Prop := s.toByteArray.IsValidUTF8

instance (s : Bytes) : Decidable (ValidUtf8 s) := inferInstanceAs (Decidable s.toByteArray.IsValidUTF8)

theorem ValidUtf8.nil : ValidUtf8 [] := ⟨[], rfl⟩

theorem ValidUtf8.append {s t : Bytes} (hs : ValidUtf8 s) (ht : ValidUtf8 t) : ValidUtf8 (s ++ t) := by
  rw [ValidUtf8, List.toByteArray_append]
  exact ByteArray.IsValidUTF8.append hs ht

theorem ValidUtf8.helloPrefix : ValidUtf8 helloPrefix := ⟨['H', 'e', 'l', 'l', 'o', ' '], by decide⟩

/-- A greeting is readable if the name is. -/
theorem ValidUtf8.greeting {name : Bytes} (h : ValidUtf8 name) : ValidUtf8 (greeting name) :=
  ValidUtf8.helloPrefix.append h

/-- The tag of a string field with number 1. -/
def stringTag : UInt32 := 10

/-- The tags that end a message: 0, and the end of a group. -/
def EndsMessage (tag : UInt32) : Prop := tag = 0 ∨ tag &&& 7 = 4

instance (tag : UInt32) : Decidable (EndsMessage tag) := inferInstanceAs (Decidable (_ ∨ _))

/-- `case 1` of `_InternalParse` is the one tag. -/
theorem tag_eq_stringTag (tag : UInt32) : (tag >>> 3 = 1 ∧ tag.toUInt8 = 10) ↔ tag = stringTag := by
  constructor
  · rintro ⟨hnumber, hlow⟩
    have h1 := congrArg UInt32.toNat hnumber
    have h2 := congrArg UInt8.toNat hlow
    rw [UInt32.toNat_shiftRight] at h1
    rw [UInt32.toNat_toUInt8] at h2
    simp [Nat.shiftRight_eq_div_pow] at h1 h2
    apply UInt32.toNat_inj.mp
    simp [stringTag]
    omega
  · rintro rfl
    decide

/-- What the documentation says of the runtime's functions. A reading function looks at nothing beyond what it
    takes; strings of up to `limit` bytes and the unknown fields that were read before are read back as they are
    written; the size functions say how much is written. -/
structure Runtime.Documented {F : Type} (rt : Runtime F) (limit : Nat) (write : F → Bytes) (size : F → Nat) : Prop where
  readTag_nil : rt.readTag [] = none
  readTag_takes {p tag q} (h : rt.readTag p = some (tag, q)) :
    ∃ c, p = c ++ q ∧ ∀ r, rt.readTag (c ++ r) = some (tag, r)
  string_takes {p s q} (h : rt.inlineGreedyStringParser p = (s, some q)) :
    ∃ c, p = c ++ q ∧ ∀ r, rt.inlineGreedyStringParser (c ++ r) = (s, some r)
  unknown_takes {tag p fs q} (h : rt.unknownFieldParse tag p = (fs, some q)) :
    ∃ c f, p = c ++ q ∧ fs = [f] ∧ ∀ r, rt.unknownFieldParse tag (c ++ r) = ([f], some r)
  verify (s op field_name) : rt.verifyUtf8String s op field_name =
    if ValidUtf8 s then (true, []) else (false, [⟨op, field_name⟩])
  readTag_string (r) : rt.readTag (10 :: r) = some (10, r)
  write_string (s) : ∃ body, body.length = rt.stringSize s ∧
    (∀ target, rt.writeStringMaybeAliased 1 s target = target ++ 10 :: body) ∧
    (s.length ≤ limit → ∀ r, rt.inlineGreedyStringParser (body ++ r) = (s, some r))
  write_unknown (fs target) : rt.internalSerializeUnknownFieldsToArray fs target = target ++ fs.flatMap write
  size_nil : rt.computeUnknownFieldsSize [] = 0
  size_cons (f fs) : rt.computeUnknownFieldsSize (f :: fs) = size f + rt.computeUnknownFieldsSize fs
  size_write (f) : (write f).length = size f
  read_unknown {tag p q₀ q f} (ht : rt.readTag p = some (tag, q₀)) (h : rt.unknownFieldParse tag q₀ = ([f], some q)) :
    (write f).length + q.length ≤ p.length ∧
      ∀ r, ∃ m, rt.readTag (write f ++ r) = some (tag, m) ∧ rt.unknownFieldParse tag m = ([f], some r)
  string_bound {p s q} (h : rt.inlineGreedyStringParser p = (s, some q)) :
    s.length ≤ limit ∧ rt.stringSize s + q.length ≤ p.length

namespace Runtime

variable {F : Type} (rt : Runtime F)

/-- `inlineGreedyStringParser`, where it succeeds. -/
def readString (p : Bytes) : Option (Bytes × Bytes) :=
  (rt.inlineGreedyStringParser p).2.map ((rt.inlineGreedyStringParser p).1, ·)

/-- `unknownFieldParse`, where it succeeds. -/
def readUnknown (tag : UInt32) (p : Bytes) : Option (List F × Bytes) :=
  (rt.unknownFieldParse tag p).2.map ((rt.unknownFieldParse tag p).1, ·)

variable {rt}

theorem readString_eq_some {p s q : Bytes} :
    rt.readString p = some (s, q) ↔ rt.inlineGreedyStringParser p = (s, some q) := by
  rw [readString]
  rcases rt.inlineGreedyStringParser p with ⟨t, _ | r⟩ <;> simp

theorem readUnknown_eq_some {tag : UInt32} {p q : Bytes} {fs : List F} :
    rt.readUnknown tag p = some (fs, q) ↔ rt.unknownFieldParse tag p = (fs, some q) := by
  rw [readUnknown]
  rcases rt.unknownFieldParse tag p with ⟨t, _ | r⟩ <;> simp

end Runtime

/-- What a message is made of, in the order of its bytes. -/
inductive Item (F : Type)
  | value (s : Bytes)
  | unknown (fs : List F)

namespace Item

variable {F : Type}

/-- What an item does to a message. -/
def apply (m : Message F) : Item F → Message F
  | .value s    => { m with value_ := s }
  | .unknown fs => { m with unknown_fields := m.unknown_fields ++ fs }

/-- Strings are to be UTF-8. -/
def Valid : Item F → Prop
  | .value s   => ValidUtf8 s
  | .unknown _ => True

instance (t : Item F) : Decidable t.Valid := by
  cases t <;> (unfold Valid; infer_instance)

end Item

namespace Runtime.Documented

variable {F : Type} {rt : Runtime F} {limit : Nat} {write : F → Bytes} {size : F → Nat}

def tag (doc : rt.Documented limit write size) : Reader UInt8 UInt32 where
  read := rt.readTag
  takes h := doc.readTag_takes h

def string (doc : rt.Documented limit write size) : Reader UInt8 Bytes where
  read := rt.readString
  takes h := by
    obtain ⟨c, rfl, hc⟩ := doc.string_takes (readString_eq_some.mp h)
    exact ⟨c, rfl, fun r => readString_eq_some.mpr (hc r)⟩

def unknown (doc : rt.Documented limit write size) (tag : UInt32) : Reader UInt8 (List F) where
  read := rt.readUnknown tag
  takes h := by
    obtain ⟨c, f, rfl, rfl, hc⟩ := doc.unknown_takes (readUnknown_eq_some.mp h)
    exact ⟨c, rfl, fun r => readUnknown_eq_some.mpr (hc r)⟩

/-- One round of the loop, as far as it takes an item. -/
def item (doc : rt.Documented limit write size) : Reader UInt8 (Item F) :=
  doc.tag.bind fun tag =>
    if tag = stringTag then doc.string.map .value
    else if EndsMessage tag then Reader.fail else (doc.unknown tag).map .unknown

theorem item_hungry (doc : rt.Documented limit write size) : doc.item.Hungry :=
  Reader.Hungry.bind (x := doc.tag) doc.readTag_nil _

/-- The items of the bytes of a message, if they have any. -/
def items (doc : rt.Documented limit write size) : Bytes → Option (List (Item F)) := doc.item.readAll

/-- What an item can be. -/
theorem item_eq_some (doc : rt.Documented limit write size) {p q : Bytes} {t : Item F}
    (h : doc.item.read p = some (t, q)) :
    (∃ m s, rt.readTag p = some (stringTag, m) ∧ rt.inlineGreedyStringParser m = (s, some q) ∧ t = .value s) ∨
      ∃ tag m f, rt.readTag p = some (tag, m) ∧ tag ≠ stringTag ∧ ¬ EndsMessage tag ∧
        rt.unknownFieldParse tag m = ([f], some q) ∧ t = .unknown [f] := by
  obtain ⟨tag, m, htag, hrest⟩ := Reader.read_bind_eq_some h
  split at hrest
  · next hs =>
    obtain ⟨s, hread, rfl⟩ := Reader.read_map_eq_some hrest
    exact Or.inl ⟨m, s, hs ▸ htag, readString_eq_some.mp hread, rfl⟩
  · next hs =>
    split at hrest
    · cases hrest
    · next hends =>
      obtain ⟨fs, hread, rfl⟩ := Reader.read_map_eq_some hrest
      have hparse := readUnknown_eq_some.mp hread
      obtain ⟨-, f, -, rfl, -⟩ := doc.unknown_takes hparse
      exact Or.inr ⟨tag, m, f, htag, hs, hends, hparse, rfl⟩

theorem item_value (doc : rt.Documented limit write size) {p m q s : Bytes} (htag : rt.readTag p = some (stringTag, m))
    (hs : rt.inlineGreedyStringParser m = (s, some q)) : doc.item.read p = some (.value s, q) := by
  rw [item, Reader.read_bind_of (x := doc.tag) htag, if_pos rfl]
  exact Reader.read_map_of (x := doc.string) (readString_eq_some.mpr hs) _

theorem item_unknown (doc : rt.Documented limit write size) {p m q : Bytes} {tag : UInt32} {fs : List F}
    (htag : rt.readTag p = some (tag, m)) (hs : tag ≠ stringTag) (hends : ¬ EndsMessage tag)
    (hf : rt.unknownFieldParse tag m = (fs, some q)) : doc.item.read p = some (.unknown fs, q) := by
  rw [item, Reader.read_bind_of (x := doc.tag) htag, if_neg hs, if_neg hends]
  exact Reader.read_map_of (x := doc.unknown tag) (readUnknown_eq_some.mpr hf) _

theorem verify_valid (doc : rt.Documented limit write size) {s : Bytes} (hs : ValidUtf8 s) (op : Operation)
    (field_name : String) : rt.verifyUtf8String s op field_name = (true, []) := by
  rw [doc.verify, if_pos hs]

theorem verify_invalid (doc : rt.Documented limit write size) {s : Bytes} (hs : ¬ ValidUtf8 s) (op : Operation)
    (field_name : String) : rt.verifyUtf8String s op field_name = (false, [⟨op, field_name⟩]) := by
  rw [doc.verify, if_neg hs]

/-- A round that takes a valid item applies it to the message. -/
theorem parseLoop_item (doc : rt.Documented limit write size) {p q : Bytes} {t : Item F}
    (h : doc.item.read p = some (t, q)) (ht : t.Valid) (field_name : String) (n : Nat) (this : Message F)
    (log : List Utf8Error) :
    Message.parseLoop rt field_name (n + 1) this p log = Message.parseLoop rt field_name n (t.apply this) q log := by
  cases p with
  | nil => exact absurd (doc.item_hungry.symm.trans h) nofun
  | cons b p =>
      rcases doc.item_eq_some h with ⟨m, s, htag, hs, rfl⟩ | ⟨tag, m, f, htag, hne, hends, hf, rfl⟩
      · rw [Message.parseLoop, htag]
        simp only
        rw [if_pos ((tag_eq_stringTag _).mpr rfl), hs]
        simp only [doc.verify_valid ht, List.append_nil]
        rfl
      · rw [Message.parseLoop, htag]
        simp only
        rw [if_neg fun hc => hne ((tag_eq_stringTag _).mp hc), if_neg (show ¬ (_ ∨ _) from hends), hf]
        rfl

/-- A string that is not UTF-8 is refused, and the log names the field. -/
theorem parseLoop_invalid (doc : rt.Documented limit write size) {p q : Bytes} {t : Item F}
    (h : doc.item.read p = some (t, q)) (ht : ¬ t.Valid) (field_name : String) (n : Nat) (this : Message F)
    (log : List Utf8Error) :
    ∃ r, Message.parseLoop rt field_name (n + 1) this p log = some r ∧ ¬ r.Accepted ∧
      r.log = log ++ [⟨.parse, field_name⟩] := by
  cases p with
  | nil => exact absurd (doc.item_hungry.symm.trans h) nofun
  | cons b p =>
      rcases doc.item_eq_some h with ⟨m, s, htag, hs, rfl⟩ | ⟨tag, m, f, htag, hne, hends, hf, rfl⟩
      · rw [Message.parseLoop, htag]
        simp only
        rw [if_pos ((tag_eq_stringTag _).mpr rfl), hs]
        simp only [doc.verify_invalid ht]
        exact ⟨_, rfl, by simp [Parsed.Accepted], rfl⟩
      · exact absurd trivial ht

/-- The lines that looking at a string may add to the log. -/
theorem verify_log (doc : rt.Documented limit write size) (s : Bytes) (op : Operation) (field_name : String) :
    (rt.verifyUtf8String s op field_name).2 = [] ∨ (rt.verifyUtf8String s op field_name).2 = [⟨op, field_name⟩] := by
  by_cases hs : ValidUtf8 s
  · exact Or.inl (by rw [doc.verify_valid hs])
  · exact Or.inr (by rw [doc.verify_invalid hs])

/-- Where no item can be taken the parse is refused. -/
theorem parseLoop_refused (doc : rt.Documented limit write size) {p : Bytes} (hp : p ≠ [])
    (h : doc.item.read p = none) (field_name : String) (n : Nat) (this : Message F) (log : List Utf8Error) :
    ∃ r, Message.parseLoop rt field_name (n + 1) this p log = some r ∧ ¬ r.Accepted ∧
      (r.log = log ∨ r.log = log ++ [⟨.parse, field_name⟩]) := by
  cases p with
  | nil => exact absurd rfl hp
  | cons b p =>
      rw [Message.parseLoop]
      cases htag : rt.readTag (b :: p) with
      | none => exact ⟨_, rfl, by simp [Parsed.Accepted], Or.inl rfl⟩
      | some aq =>
          obtain ⟨tag, m⟩ := aq
          simp only
          split
          · next hcase =>
            obtain rfl := (tag_eq_stringTag tag).mp hcase
            rcases hs : rt.inlineGreedyStringParser m with ⟨s, _ | q⟩
            · refine ⟨_, rfl, by simp [Parsed.Accepted], ?_⟩
              rcases doc.verify_log s .parse field_name with hlog | hlog
              · exact Or.inl (by rw [hlog, List.append_nil])
              · exact Or.inr (by rw [hlog])
            · exact absurd ((doc.item_value htag hs).symm.trans h) nofun
          · next hcase =>
            split
            · exact ⟨_, rfl, by simp [Parsed.Accepted], Or.inl rfl⟩
            · next hends =>
              rcases hf : rt.unknownFieldParse tag m with ⟨fs, _ | q⟩
              · exact ⟨_, rfl, by simp [Parsed.Accepted], Or.inl rfl⟩
              · have hne : tag ≠ stringTag := fun hc => hcase ((tag_eq_stringTag tag).mpr hc)
                exact absurd ((doc.item_unknown htag hne hends hf).symm.trans h) nofun

/-- What the loop makes of items that are all valid, in front of anything. Induction along the bytes that are read. -/
theorem parseLoop_items (doc : rt.Documented limit write size) (field_name : String) (log : List Utf8Error)
    {p : Bytes} {ts : List (Item F)} (h : doc.items p = some ts) (hts : ∀ t ∈ ts, t.Valid) {n : Nat} {q : Bytes}
    (hn : (p ++ q).length ≤ n) (this : Message F) :
    ∃ m, q.length ≤ m ∧ Message.parseLoop rt field_name n this (p ++ q) log =
      Message.parseLoop rt field_name m (ts.foldl Item.apply this) q log := by
  refine doc.item_hungry.readAll_induction (motive := fun p ts => (∀ t ∈ ts, t.Valid) → ∀ n, (p ++ q).length ≤ n →
    ∀ this, ∃ m, q.length ≤ m ∧ Message.parseLoop rt field_name n this (p ++ q) log =
      Message.parseLoop rt field_name m (ts.foldl Item.apply this) q log) ?_ ?_ h hts n hn this
  · intro _ n hn this
    exact ⟨n, hn, rfl⟩
  · intro p t r ts hread _ ih hvalid n hn this
    have hlt := doc.item_hungry.length_lt hread
    rw [List.length_append] at hn
    obtain ⟨n, rfl⟩ := Nat.exists_eq_succ_of_ne_zero (n := n) (by omega)
    rw [doc.parseLoop_item (Reader.read_append hread q) (hvalid t List.mem_cons_self)]
    exact ih (fun u hu => hvalid u (List.mem_cons_of_mem t hu)) n (by rw [List.length_append]; omega) (t.apply this)

/-- The whole of a message. -/
theorem internalParse_items (doc : rt.Documented limit write size) (field_name : String) {p : Bytes}
    {ts : List (Item F)} (h : doc.items p = some ts) (hts : ∀ t ∈ ts, t.Valid) (this : Message F) :
    Message.internalParse rt field_name this p =
      some { ptr := some [], message := ts.foldl Item.apply this } := by
  obtain ⟨m, -, hloop⟩ := doc.parseLoop_items field_name [] h hts (q := []) (n := p.length) (by simp) this
  rw [List.append_nil] at hloop
  rw [Message.internalParse, hloop]
  cases m <;> rfl

/-- An accepted parse has read valid items to the end. Induction on the fuel. -/
theorem items_of_parseLoop (doc : rt.Documented limit write size) (field_name : String) {n : Nat} {p : Bytes}
    {this : Message F} {log : List Utf8Error} {r : Parsed F}
    (h : Message.parseLoop rt field_name n this p log = some r) (hr : r.Accepted) :
    ∃ ts, doc.items p = some ts ∧ ∀ t ∈ ts, t.Valid := by
  induction n generalizing p this log with
  | zero =>
      cases p with
      | nil => exact ⟨[], rfl, nofun⟩
      | cons b p => cases h
  | succ n ih =>
      by_cases hp : p = []
      · subst hp
        exact ⟨[], rfl, nofun⟩
      · cases hread : doc.item.read p with
        | none =>
            obtain ⟨r', hloop, hrefused, -⟩ := doc.parseLoop_refused hp hread field_name n this log
            obtain rfl := Option.some.inj (hloop.symm.trans h)
            exact absurd hr hrefused
        | some tq =>
            obtain ⟨t, q⟩ := tq
            by_cases ht : t.Valid
            · rw [doc.parseLoop_item hread ht] at h
              obtain ⟨ts, hts, hvalid⟩ := ih h
              refine ⟨t :: ts, ?_, List.forall_mem_cons.mpr ⟨ht, hvalid⟩⟩
              rw [items, doc.item_hungry.readAll_cons hread]
              exact congrArg (Option.map _) hts
            · obtain ⟨r', hloop, hrefused, -⟩ := doc.parseLoop_invalid hread ht field_name n this log
              obtain rfl := Option.some.inj (hloop.symm.trans h)
              exact absurd hr hrefused

/-- The loop always ends: there are no more rounds than bytes. It is done with all of them and has logged nothing, or it
    refuses them, with a line about the field at most. -/
theorem parseLoop_outcome (doc : rt.Documented limit write size) (field_name : String) {n : Nat} {p : Bytes}
    (hn : p.length ≤ n) (this : Message F) (log : List Utf8Error) :
    ∃ r, Message.parseLoop rt field_name n this p log = some r ∧
      ((r.Accepted ∧ r.ptr = some [] ∧ r.log = log) ∨
        (¬ r.Accepted ∧ (r.log = log ∨ r.log = log ++ [⟨.parse, field_name⟩]))) := by
  induction n generalizing p this with
  | zero =>
      obtain rfl := List.length_eq_zero_iff.mp (Nat.le_zero.mp hn)
      exact ⟨_, rfl, Or.inl ⟨⟨rfl, rfl⟩, rfl, rfl⟩⟩
  | succ n ih =>
      by_cases hp : p = []
      · subst hp
        exact ⟨_, rfl, Or.inl ⟨⟨rfl, rfl⟩, rfl, rfl⟩⟩
      · cases hread : doc.item.read p with
        | none =>
            obtain ⟨r, hloop, hrefused, hlog⟩ := doc.parseLoop_refused hp hread field_name n this log
            exact ⟨r, hloop, Or.inr ⟨hrefused, hlog⟩⟩
        | some tq =>
            obtain ⟨t, q⟩ := tq
            by_cases ht : t.Valid
            · have hlt := doc.item_hungry.length_lt hread
              rw [doc.parseLoop_item hread ht]
              exact ih (by omega) _
            · obtain ⟨r, hloop, hrefused, hlog⟩ := doc.parseLoop_invalid hread ht field_name n this log
              exact ⟨r, hloop, Or.inr ⟨hrefused, Or.inr hlog⟩⟩

end Runtime.Documented

end AsyncCpp.Greeter
