import AsyncCpp.Greeter.WireRuntime
import AsyncCpp.Lib.Machine

/-!
# `Greeter.RoundTrip` — messages written and read back

A message is written as items (`Message.items`), and these, parsed into a message, merge it into that
(`foldl_items`): hence the round trip (`parses_serialize`), which holds for exactly the messages whose string is
UTF-8, the size that `ByteSizeLong` announces, and what two messages end to end mean. That the unknown fields of a
message were all read before is kept by every member function, along any run of them over any objects (`received`).
-/

namespace AsyncCpp.Greeter

variable {F : Type}

/-- The bytes are parsed into `this`, which is `m` then. -/
def Message.Parses (rt : Runtime F) (field_name : String) (this : Message F) (p : Bytes) (m : Message F) : Prop :=
  ∃ r, Message.internalParse rt field_name this p = some r ∧ r.Accepted ∧ r.message = m

/-- An unknown field that was read off some bytes: not under the tag of the string. -/
def Runtime.Received (rt : Runtime F) (f : F) : Prop :=
  ∃ p tag m q, rt.readTag p = some (tag, m) ∧ tag ≠ stringTag ∧ ¬ EndsMessage tag ∧
    rt.unknownFieldParse tag m = ([f], some q)

/-- The unknown fields of a message were all read off some bytes. -/
def Message.Received (rt : Runtime F) (m : Message F) : Prop := ∀ f ∈ m.unknown_fields, rt.Received f

/-- The items that a message is written as. -/
def Message.items (m : Message F) : List (Item F) :=
  (if m.value_ ≠ [] then [.value m.value_] else []) ++ m.unknown_fields.map fun f => .unknown [f]

/-- An item as it is written. -/
def Item.bytes (rt : Runtime F) (write : F → Bytes) : Item F → Bytes
  | .value s    => rt.writeStringMaybeAliased 1 s []
  | .unknown fs => fs.flatMap write

theorem Item.foldl_unknown (this : Message F) (fs : List F) :
    (fs.map fun f => Item.unknown [f]).foldl Item.apply this =
      { this with unknown_fields := this.unknown_fields ++ fs } := by
  induction fs generalizing this with
  | nil => simp
  | cons f fs ih =>
      rw [List.map_cons, List.foldl_cons, ih]
      simp [Item.apply, List.append_assoc]

/-- What a message is written as, applied to another message, merges it into that. -/
theorem Message.foldl_items (this m : Message F) : m.items.foldl Item.apply this = this.mergeFrom m := by
  rw [items, List.foldl_append, Item.foldl_unknown]
  by_cases h : m.value_ = []
  · simp [h, mergeFrom]
  · simp [h, mergeFrom, Item.apply]

@[simp] theorem Message.mergeFrom_default (m : Message F) : ({} : Message F).mergeFrom m = m := by
  by_cases h : m.value_ = [] <;> ext1 <;> simp [h, mergeFrom]

theorem Message.items_valid_iff (m : Message F) : (∀ t ∈ m.items, t.Valid) ↔ ValidUtf8 m.value_ := by
  by_cases h : m.value_ = []
  · simp [items, h, ValidUtf8.nil, Item.Valid]
  · simp [items, h, Item.Valid]

/-- The last string of some items. -/
def Item.lastValue : List (Item F) → Option Bytes
  | []               => none
  | .value s :: ts   => (lastValue ts).or (some s)
  | .unknown _ :: ts => lastValue ts

/-- Of the strings the last one wins. -/
theorem Item.foldl_value (this : Message F) (ts : List (Item F)) :
    (ts.foldl apply this).value_ = (lastValue ts).getD this.value_ := by
  induction ts generalizing this with
  | nil => rfl
  | cons t ts ih =>
      rw [List.foldl_cons, ih]
      cases t with
      | value s => cases h : lastValue ts <;> simp [lastValue, apply, h]
      | unknown fs => rfl

/-- The unknown fields come behind those that were there. -/
theorem Item.foldl_unknown_fields (this : Message F) (ts : List (Item F)) :
    (ts.foldl apply this).unknown_fields = this.unknown_fields ++ (ts.foldl apply {}).unknown_fields := by
  induction ts generalizing this with
  | nil => simp
  | cons t ts ih =>
      rw [List.foldl_cons, List.foldl_cons, ih, ih (apply {} t)]
      cases t <;> simp [apply, List.append_assoc]

namespace Runtime.Documented

variable {rt : Runtime F} {limit : Nat} {write : F → Bytes} {size : F → Nat}

/-- A parse is accepted exactly when the bytes are valid items to the end; it applies them one after the other. -/
theorem parses_iff (doc : rt.Documented limit write size) (field_name : String) (this m : Message F) (p : Bytes) :
    Message.Parses rt field_name this p m ↔
      ∃ ts, doc.items p = some ts ∧ (∀ t ∈ ts, t.Valid) ∧ ts.foldl Item.apply this = m := by
  constructor
  · rintro ⟨r, hparse, hr, rfl⟩
    obtain ⟨ts, hts, hvalid⟩ := doc.items_of_parseLoop field_name hparse hr
    refine ⟨ts, hts, hvalid, ?_⟩
    rw [Option.some.inj (hparse.symm.trans (doc.internalParse_items field_name hts hvalid this))]
  · rintro ⟨ts, hts, hvalid, rfl⟩
    refine ⟨_, doc.internalParse_items field_name hts hvalid this, ?_, rfl⟩
    exact ⟨rfl, rfl⟩

/-- The message is written as its items, behind what is there. -/
theorem serialize_eq (doc : rt.Documented limit write size) (field_name : String) (m : Message F) (target : Bytes) :
    (Message.internalSerialize rt field_name m target).1 = target ++ m.items.flatMap (Item.bytes rt write) := by
  obtain ⟨body, -, hbody, -⟩ := doc.write_string m.value_
  have hvalue : (if m.value_ ≠ [] then rt.writeStringMaybeAliased 1 m.value_ target else target) =
      target ++ (if m.value_ ≠ [] then [Item.value m.value_] else []).flatMap (Item.bytes rt write) := by
    split
    · rw [List.flatMap_singleton, Item.bytes, hbody target, hbody []]
      rfl
    · simp
  have hunknown (target : Bytes) : (if m.unknown_fields ≠ [] then
      rt.internalSerializeUnknownFieldsToArray m.unknown_fields target else target) =
        target ++ (m.unknown_fields.map fun f => Item.unknown [f]).flatMap (Item.bytes rt write) := by
    have hfields : (m.unknown_fields.map fun f => Item.unknown [f]).flatMap (Item.bytes rt write) =
        m.unknown_fields.flatMap write := by simp [List.flatMap_map, Item.bytes]
    rw [hfields]
    split
    · exact doc.write_unknown _ _
    · next h => simp [not_not.mp h]
  rw [Message.items, List.flatMap_append, ← List.append_assoc, ← hvalue, ← hunknown,
    Message.internalSerialize_fst]

/-- Each item of a message is read back in front of anything, if its unknown fields were read before and its string
    is not too long. -/
theorem read_item (doc : rt.Documented limit write size) {m : Message F} (hm : m.Received rt)
    (hlen : m.value_.length ≤ limit) {t : Item F} (ht : t ∈ m.items) (r : Bytes) :
    doc.item.read (t.bytes rt write ++ r) = some (t, r) := by
  rcases List.mem_append.mp ht with hvalue | hunknown
  · obtain ⟨body, -, hbody, hread⟩ := doc.write_string m.value_
    obtain rfl : t = .value m.value_ := by
      split at hvalue
      · exact List.mem_singleton.mp hvalue
      · cases hvalue
    rw [Item.bytes, hbody []]
    exact doc.item_value (doc.readTag_string _) (hread hlen r)
  · obtain ⟨f, hf, rfl⟩ := List.mem_map.mp hunknown
    obtain ⟨p, tag, m₀, q, htag, hne, hends, hparse⟩ := hm f hf
    obtain ⟨mid, hmid, hagain⟩ := (doc.read_unknown htag hparse).2 r
    have hbytes : (Item.unknown [f]).bytes rt write = write f := by simp [Item.bytes]
    rw [hbytes]
    exact doc.item_unknown hmid hne hends hagain

/-- A message is read back as the items that it was written as. -/
theorem items_serialize (doc : rt.Documented limit write size) (field_name : String) {m : Message F}
    (hm : m.Received rt) (hlen : m.value_.length ≤ limit) :
    doc.items (Message.internalSerialize rt field_name m []).1 = some m.items := by
  rw [doc.serialize_eq, List.nil_append]
  exact doc.item_hungry.readAll_flatMap fun t ht r => doc.read_item hm hlen ht r

/-- **Round trip.** The bytes of a message can be parsed exactly if its string is UTF-8, and parsed into a message they
    merge it into that. -/
theorem parses_serialize (doc : rt.Documented limit write size) (field_name : String) {m : Message F}
    (hm : m.Received rt) (hlen : m.value_.length ≤ limit) (this m' : Message F) :
    Message.Parses rt field_name this (Message.internalSerialize rt field_name m []).1 m' ↔
      ValidUtf8 m.value_ ∧ m' = this.mergeFrom m := by
  rw [doc.parses_iff, doc.items_serialize field_name hm hlen, ← m.items_valid_iff]
  constructor
  · rintro ⟨ts, hts, hvalid, rfl⟩
    cases hts
    exact ⟨hvalid, Message.foldl_items this m⟩
  · rintro ⟨hvalid, rfl⟩
    exact ⟨m.items, rfl, hvalid, Message.foldl_items this m⟩

theorem length_unknown (doc : rt.Documented limit write size) (fs : List F) :
    (fs.flatMap write).length = rt.computeUnknownFieldsSize fs := by
  induction fs with
  | nil => rw [doc.size_nil, List.flatMap_nil, List.length_nil]
  | cons f fs ih => rw [doc.size_cons, List.flatMap_cons, List.length_append, doc.size_write, ih]

/-- **Size.** What is written is as long as `ByteSizeLong` says. -/
theorem length_serialize (doc : rt.Documented limit write size) (field_name : String) (m : Message F)
    (target : Bytes) :
    (Message.internalSerialize rt field_name m target).1.length = target.length + m.byteSizeLong rt := by
  obtain ⟨body, hsize, hbody, -⟩ := doc.write_string m.value_
  rw [Message.internalSerialize_fst, Message.byteSizeLong]
  split <;> split <;>
    simp only [hbody, doc.write_unknown, List.length_append, List.length_cons, doc.length_unknown, hsize] <;> omega

/-- Two messages end to end: the second is parsed into what the first has left. -/
theorem parses_append (doc : rt.Documented limit write size) (field_name : String) {this m : Message F} {p : Bytes}
    (hp : Message.Parses rt field_name this p m) (q : Bytes) (m' : Message F) :
    Message.Parses rt field_name this (p ++ q) m' ↔ Message.Parses rt field_name m q m' := by
  obtain ⟨ts, hts, hvalid, rfl⟩ := (doc.parses_iff field_name this m p).mp hp
  rw [doc.parses_iff, doc.parses_iff]
  have happend : doc.items (p ++ q) = (doc.items q).map (ts ++ ·) := doc.item_hungry.readAll_append hts
  constructor
  · rintro ⟨us, hus, husv, rfl⟩
    obtain ⟨vs, hvs, rfl⟩ := Option.map_eq_some_iff.mp (happend.symm.trans hus)
    exact ⟨vs, hvs, fun t ht => husv t (List.mem_append_right ts ht), List.foldl_append.symm⟩
  · rintro ⟨us, hus, husv, rfl⟩
    refine ⟨ts ++ us, by rw [happend, hus]; rfl, ?_, List.foldl_append⟩
    intro t ht
    rcases List.mem_append.mp ht with ht | ht
    · exact hvalid t ht
    · exact husv t ht

/-- **Outcome.** For all bytes there is a result. They were all parsed, and nothing was logged, or they are refused, and
    the log has a line about the field of the class at most. -/
theorem internalParse_outcome (doc : rt.Documented limit write size) (field_name : String) (this : Message F)
    (p : Bytes) :
    ∃ r, Message.internalParse rt field_name this p = some r ∧
      ((r.Accepted ∧ r.ptr = some [] ∧ r.log = []) ∨
        (¬ r.Accepted ∧ (r.log = [] ∨ r.log = [⟨.parse, field_name⟩]))) :=
  doc.parseLoop_outcome field_name (Nat.le_refl _) this []

/-- A string that is cut off. -/
theorem internalParse_outcome_short :
    ∃ r, Message.internalParse wireRuntime "helloworld.HelloReply.message" {} [10, 3, 65] = some r ∧
      ((r.Accepted ∧ r.ptr = some [] ∧ r.log = []) ∨
        (¬ r.Accepted ∧ (r.log = [] ∨ r.log = [⟨.parse, "helloworld.HelloReply.message"⟩]))) :=
  wireRuntime_documented.internalParse_outcome _ {} [10, 3, 65]

/-- **Merging.** Two messages end to end are one message, and it is the second merged into the first unless the second
    ends with an empty string field that replaces what the first has. -/
theorem parses_append_iff_mergeFrom (doc : rt.Documented limit write size) (field_name : String) {p q : Bytes}
    {a b : Message F} (hp : Message.Parses rt field_name {} p a) (hq : Message.Parses rt field_name {} q b) :
    Message.Parses rt field_name {} (p ++ q) (a.mergeFrom b) ↔
      b.value_ ≠ [] ∨ a.value_ = [] ∨ ∀ this m, Message.Parses rt field_name this q m → m.value_ = this.value_ := by
  obtain ⟨ts, hts, hvalid, rfl⟩ := (doc.parses_iff field_name {} b q).mp hq
  have hparses (this m : Message F) : Message.Parses rt field_name this q m ↔ ts.foldl Item.apply this = m := by
    rw [doc.parses_iff]
    constructor
    · rintro ⟨us, hus, -, h⟩
      cases hts.symm.trans hus
      exact h
    · exact fun h => ⟨ts, hts, hvalid, h⟩
  have hfields : (ts.foldl Item.apply a).unknown_fields = (a.mergeFrom (ts.foldl Item.apply {})).unknown_fields :=
    Item.foldl_unknown_fields a ts
  rw [doc.parses_append field_name hp, hparses, Message.ext_iff, and_iff_left hfields, Message.mergeFrom,
    Item.foldl_value, Item.foldl_value]
  cases hlast : Item.lastValue ts with
  | none =>
      have hkeep : ∀ this m, Message.Parses rt field_name this q m → m.value_ = this.value_ := by
        intro this m h
        rw [← (hparses this m).mp h, Item.foldl_value, hlast]
        rfl
      exact iff_of_true (by simp) (Or.inr (Or.inr hkeep))
  | some s =>
      have hreplace : ¬ ∀ this m, Message.Parses rt field_name this q m → m.value_ = this.value_ := by
        intro hkeep
        have := hkeep { value_ := 0 :: s } _ ((hparses _ _).mpr rfl)
        rw [Item.foldl_value, hlast] at this
        simp at this
      rw [iff_false_intro hreplace, or_false]
      by_cases hs : s = []
      · simp [hs, eq_comm]
      · simp [hs]

/-- An empty string field does replace the name, but in a message it is not there to merge. -/
theorem parses_append_iff_mergeFrom_empty :
    ¬ Message.Parses wireRuntime "helloworld.HelloRequest.name" {} ([10, 1, 65] ++ [10, 0])
      (Message.mergeFrom { value_ := [65] } {}) := by
  have hp : Message.Parses wireRuntime "helloworld.HelloRequest.name" {} [10, 1, 65] { value_ := [65] } :=
    ⟨_, rfl, ⟨rfl, rfl⟩, rfl⟩
  have hq (this : Message Wire.Field) : Message.Parses wireRuntime "helloworld.HelloRequest.name" this [10, 0]
      { this with value_ := [] } := ⟨_, rfl, ⟨rfl, rfl⟩, rfl⟩
  rw [wireRuntime_documented.parses_append_iff_mergeFrom _ hp (hq {})]
  rintro (hb | ha | hkeep)
  · exact hb rfl
  · cases ha
  · cases hkeep { value_ := [65] } _ (hq _)

theorem byteSizeLong_eq (doc : rt.Documented limit write size) (m : Message F) :
    m.byteSizeLong rt =
      (if m.value_ ≠ [] then 1 + rt.stringSize m.value_ else 0) + (m.unknown_fields.flatMap write).length := by
  rw [Message.byteSizeLong, doc.length_unknown]
  by_cases hu : m.unknown_fields = []
  · rw [if_neg (not_not.mpr hu), hu, doc.size_nil, Nat.add_zero]
  · rw [if_pos hu]

/-- What an item that was read is like: its string is not too long, its unknown fields are received, and it is written
    in no more than was read for it. -/
theorem item_bound (doc : rt.Documented limit write size) {p q : Bytes} {t : Item F}
    (h : doc.item.read p = some (t, q)) :
    (∀ this : Message F, this.Received rt → (t.apply this).Received rt) ∧
      (∀ this : Message F, this.value_.length ≤ limit → (t.apply this).value_.length ≤ limit) ∧
      ∀ this : Message F, (t.apply this).byteSizeLong rt + q.length ≤ this.byteSizeLong rt + p.length := by
  have htagged {tag : UInt32} {m : Bytes} (htag : rt.readTag p = some (tag, m)) : m.length < p.length :=
    Reader.Hungry.length_lt (x := doc.tag) doc.readTag_nil htag
  rcases doc.item_eq_some h with ⟨m, s, htag, hs, rfl⟩ | ⟨tag, m, f, htag, hne, hends, hf, rfl⟩
  · refine ⟨fun this hthis => hthis, fun this _ => (doc.string_bound hs).1, fun this => ?_⟩
    have hlt := htagged htag
    have hle := (doc.string_bound hs).2
    have hvalue : (if s ≠ [] then 1 + rt.stringSize s else 0) ≤ 1 + rt.stringSize s := by split <;> omega
    simp only [doc.byteSizeLong_eq, Item.apply]
    omega
  · refine ⟨fun this hthis g hg => ?_, fun this hthis => hthis, fun this => ?_⟩
    · rcases List.mem_append.mp hg with hg | hg
      · exact hthis g hg
      · rw [List.mem_singleton.mp hg]
        exact ⟨p, tag, m, q, htag, hne, hends, hf⟩
    · have hle := (doc.read_unknown htag hf).1
      simp only [doc.byteSizeLong_eq, Item.apply, List.flatMap_append, List.flatMap_singleton, List.length_append]
      omega

/-- What an accepted parse makes of a message, item by item. -/
theorem bound_of_parses (doc : rt.Documented limit write size) (field_name : String) {this m : Message F} {p : Bytes}
    (hp : Message.Parses rt field_name this p m) :
    (this.Received rt → m.Received rt) ∧ (this.value_.length ≤ limit → m.value_.length ≤ limit) ∧
      (ValidUtf8 this.value_ → ValidUtf8 m.value_) ∧ m.byteSizeLong rt ≤ this.byteSizeLong rt + p.length := by
  obtain ⟨ts, hts, hvalid, rfl⟩ := (doc.parses_iff field_name this m p).mp hp
  refine doc.item_hungry.readAll_induction (motive := fun p ts => (∀ t ∈ ts, t.Valid) → ∀ this : Message F,
    (this.Received rt → (ts.foldl Item.apply this).Received rt) ∧
      (this.value_.length ≤ limit → (ts.foldl Item.apply this).value_.length ≤ limit) ∧
      (ValidUtf8 this.value_ → ValidUtf8 (ts.foldl Item.apply this).value_) ∧
      (ts.foldl Item.apply this).byteSizeLong rt ≤ this.byteSizeLong rt + p.length) ?_ ?_ hts hvalid this
  · intro _ this
    exact ⟨id, id, id, Nat.le_add_right _ _⟩
  · intro p t q ts hread _ ih hvalid this
    obtain ⟨hreceived, hlen, hsize⟩ := doc.item_bound hread
    obtain ⟨ihreceived, ihlen, ihvalid, ihsize⟩ := ih (fun u hu => hvalid u (List.mem_cons_of_mem t hu)) (t.apply this)
    refine ⟨fun h => ihreceived (hreceived this h), fun h => ihlen (hlen this h), fun h => ihvalid ?_, ?_⟩
    · cases t with
      | value s => exact hvalid _ List.mem_cons_self
      | unknown fs => exact h
    · have := hsize this
      rw [List.foldl_cons]
      omega

/-- **Normal form.** A message that was accepted is written in no more bytes than came in, as many as `ByteSizeLong`
    says, and these are parsed into the same message. -/
theorem parses_serialize_of_parses (doc : rt.Documented limit write size) (field_name : String) {m : Message F}
    {p : Bytes} (hp : Message.Parses rt field_name {} p m) :
    (Message.internalSerialize rt field_name m []).1.length = m.byteSizeLong rt ∧ m.byteSizeLong rt ≤ p.length ∧
      Message.Parses rt field_name {} (Message.internalSerialize rt field_name m []).1 m := by
  obtain ⟨hreceived, hlen, hvalid, hsize⟩ := doc.bound_of_parses field_name hp
  refine ⟨?_, ?_, ?_⟩
  · rw [doc.length_serialize, List.length_nil, Nat.zero_add]
  · simpa [Message.byteSizeLong] using hsize
  · rw [doc.parses_serialize field_name (hreceived nofun) (hlen (Nat.zero_le _))]
    exact ⟨hvalid ValidUtf8.nil, (Message.mergeFrom_default m).symm⟩

/-- A tag of five bytes and two names come out as one name behind a tag of one byte. -/
theorem parses_serialize_of_parses_overlong :
    Message.byteSizeLong wireRuntime { value_ := [66, 67], unknown_fields := [.varint 2 5] } ≤ 13 ∧
      Message.Parses wireRuntime "helloworld.HelloRequest.name" {}
        (Message.internalSerialize wireRuntime "helloworld.HelloRequest.name"
          { value_ := [66, 67], unknown_fields := [.varint 2 5] } []).1
        { value_ := [66, 67], unknown_fields := [.varint 2 5] } :=
  (wireRuntime_documented.parses_serialize_of_parses "helloworld.HelloRequest.name"
    (p := [138, 128, 128, 128, 0, 1, 65, 16, 5, 10, 2, 66, 67]) ⟨_, rfl, ⟨rfl, rfl⟩, rfl⟩).2

end Runtime.Documented

/-! ## Runs of the member functions -/

namespace Objects

/-- `CopyFrom` makes a copy, of the object itself too. -/
theorem copyFrom_eq (o : Objects F) (this «from» : Nat) :
    o.copyFrom this «from» = Function.update o this (o «from») := by
  rw [copyFrom]
  split
  · next h => rw [h, Function.update_eq_self]
  · next h =>
    dsimp only
    rw [Function.update_of_ne h, Function.update_self, Function.update_idem, Message.clear, Message.mergeFrom_default]

theorem copyConstruct_eq (o : Objects F) (this «from» : Nat) :
    o.copyConstruct this «from» = Function.update o this (o «from») := by
  rw [copyConstruct]
  by_cases h : (o «from»).value_ = []
  · congr 1
    ext1 <;> simp [h]
  · simp [h]

/-- A call of a member function, at the addresses of the objects. -/
inductive Action
  | construct (this : Nat)
  | clear (this : Nat)
  | setValue (this : Nat) (value : Bytes)
  | mergeFrom (this «from» : Nat)
  | copyFrom (this «from» : Nat)
  | copyConstruct (this «from» : Nat)
  | swap (this other : Nat)
  | moveFrom (this «from» : Nat)
  | moveConstruct (this «from» : Nat)
  /-- The bytes are parsed into the object, and accepted. -/
  | parse (this : Nat) (p : Bytes)

instance (r : Parsed F) : Decidable r.Accepted := inferInstanceAs (Decidable (_ ∧ _))

/-- `MergeFrom` checks that the objects are two. -/
def step (rt : Runtime F) (field_name : String) (o : Objects F) : Action → Option (Objects F)
  | .construct this             => some (Function.update o this {})
  | .clear this                 => some (Function.update o this (o this).clear)
  | .setValue this value        => some (Function.update o this ((o this).setValue value))
  | .mergeFrom this «from»      =>
      if «from» = this then none else some (Function.update o this ((o this).mergeFrom (o «from»)))
  | .copyFrom this «from»       => some (o.copyFrom this «from»)
  | .copyConstruct this «from»  => some (o.copyConstruct this «from»)
  | .swap this other            => some (o.swap this other)
  | .moveFrom this «from»       => some (o.moveFrom this «from»)
  | .moveConstruct this «from»  => some (o.moveConstruct this «from»)
  | .parse this p               =>
      (Message.internalParse rt field_name (o this) p).bind fun r =>
        if r.Accepted then some (Function.update o this r.message) else none

/-- Any member functions, called in any order on any objects. -/
def objects (rt : Runtime F) (field_name : String) : Machine (Objects F) Action where
  start _ := {}
  step  := step rt field_name

/-- What holds of all messages still does when one of them has been replaced by one of which it holds. -/
theorem forall_update {I : Message F → Prop} {o : Objects F} (ho : ∀ x, I (o x)) {m : Message F} (hm : I m)
    (this : Nat) : ∀ x, I (Function.update o this m x) := by
  intro x
  by_cases hx : x = this
  · rw [hx, Function.update_self]
    exact hm
  · rw [Function.update_of_ne hx]
    exact ho x

theorem forall_internalSwap {I : Message F → Prop} {o : Objects F} (ho : ∀ x, I (o x)) (this other : Nat) :
    ∀ x, I (o.internalSwap this other x) :=
  forall_update (forall_update ho (ho other) this) (ho this) other

theorem forall_moveFrom {I : Message F → Prop} {o : Objects F} (ho : ∀ x, I (o x)) (this «from» : Nat) :
    ∀ x, I (o.moveFrom this «from» x) := by
  rw [moveFrom]
  split
  · exact ho
  · exact forall_internalSwap ho this «from»

variable {rt : Runtime F} {limit : Nat} {write : F → Bytes} {size : F → Nat}

/-- One call keeps the unknown fields of every object received. -/
theorem received_step (doc : rt.Documented limit write size) (field_name : String) {o o' : Objects F}
    (ho : ∀ x, (o x).Received rt) {a : Action} (h : step rt field_name o a = some o') : ∀ x, (o' x).Received rt := by
  have hnil : ({} : Message F).Received rt := nofun
  cases a with
  | construct this =>
      cases h
      exact forall_update ho hnil this
  | clear this =>
      cases h
      exact forall_update ho hnil this
  | setValue this value =>
      cases h
      exact forall_update ho (m := (o this).setValue value) (ho this) this
  | mergeFrom this «from» =>
      simp only [step] at h
      split at h
      · cases h
      · cases h
        refine forall_update ho (fun f hf => ?_) this
        rcases List.mem_append.mp hf with hf | hf
        · exact ho this f hf
        · exact ho «from» f hf
  | copyFrom this «from» =>
      cases h
      rw [copyFrom_eq]
      exact forall_update ho (ho «from») this
  | copyConstruct this «from» =>
      cases h
      rw [copyConstruct_eq]
      exact forall_update ho (ho «from») this
  | swap this other =>
      cases h
      rw [swap]
      split
      · exact ho
      · exact forall_internalSwap ho this other
  | moveFrom this «from» =>
      cases h
      exact forall_moveFrom ho this «from»
  | moveConstruct this «from» =>
      cases h
      exact forall_moveFrom (forall_update ho hnil this) this «from»
  | parse this p =>
      obtain ⟨r, hparse, hr⟩ := Option.bind_eq_some_iff.mp h
      split at hr
      · next hacc =>
        cases hr
        exact forall_update ho ((doc.bound_of_parses field_name ⟨r, hparse, hacc, rfl⟩).1 (ho this)) this
      · cases hr

/-- Along every run the unknown fields of every object are received. -/
theorem received (doc : rt.Documented limit write size) (field_name : String) {o : Objects F}
    (h : (objects rt field_name).Reachable Machine.Anything o) : ∀ x, (o x).Received rt :=
  h.invariant (I := fun o => ∀ x, (o x).Received rt) (fun _ => nofun)
    fun _ ho _ hstep => received_step doc field_name ho hstep

/-- **Every object round-trips.** After any calls of member functions on any objects, what an object is written as is
    parsed into an equal one, or is refused because its string is not UTF-8. -/
theorem parses_serialize_iff (doc : rt.Documented limit write size) (field_name : String) {o : Objects F}
    (h : (objects rt field_name).Reachable Machine.Anything o) (x : Nat) (hlen : (o x).value_.length ≤ limit)
    (m : Message F) :
    Message.Parses rt field_name {} (Message.internalSerialize rt field_name (o x) []).1 m ↔
      ValidUtf8 (o x).value_ ∧ m = o x := by
  rw [doc.parses_serialize field_name (received doc field_name h x) hlen, Message.mergeFrom_default]

/-- A request with an unknown field is parsed and copied; then its name is spoilt. -/
def copied : List Action := [.parse 0 [10, 1, 65, 16, 5], .copyFrom 1 0, .setValue 0 [255], .swap 0 0]

theorem parses_serialize_iff_copied :
    ∃ h : ((objects wireRuntime "helloworld.HelloRequest.name").exec Machine.Anything (fun _ => {}) copied).isSome,
      Message.Parses wireRuntime "helloworld.HelloRequest.name" {}
        (Message.internalSerialize wireRuntime "helloworld.HelloRequest.name" (Option.get _ h 1) []).1
        { value_ := [65], unknown_fields := [.varint 2 5] } ∧
      ∀ m, ¬ Message.Parses wireRuntime "helloworld.HelloRequest.name" {}
        (Message.internalSerialize wireRuntime "helloworld.HelloRequest.name" (Option.get _ h 0) []).1 m := by
  have hreach := Machine.reachable_get (M := objects wireRuntime "helloworld.HelloRequest.name")
    (E := Machine.Anything) (l := copied) rfl
  refine ⟨rfl, ?_, fun m hm => ?_⟩
  · exact (parses_serialize_iff wireRuntime_documented _ hreach 1 (by decide) _).mpr ⟨by decide, rfl⟩
  · exact absurd ((parses_serialize_iff wireRuntime_documented _ hreach 0 (by decide) m).mp hm).1 (by decide)

end Objects

end AsyncCpp.Greeter
