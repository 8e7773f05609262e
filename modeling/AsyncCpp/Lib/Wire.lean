import Mathlib.Algebra.Order.Ring.Nat
import AsyncCpp.Lib.Reader

/-!
# `Lib.Wire` — tagged fields on the wire

The byte format of tagged records: base-128 varints, little-endian words, byte strings behind their length, and
fields of these behind a tag that holds the field's number and the kind of its value; a group is a field whose value
is fields, up to the tag that ends it. Each part is a `Reader` with the bytes it is written as. A reader gives back what
was written (`read_putVarint`, `read_putWord`, `read_putBytes`), and a field that was read at all is read again off
the bytes it is written as (`read_payload`), which are never more than those it came from (`length_payload_le`).
-/

namespace AsyncCpp
namespace Wire

open Reader

/-! ## Varints -/

/-- A varint of at most `k` bytes: seven bits each, the low ones first, the top bit set on all but the last. -/
def varint : Nat → Reader UInt8 Nat
  | 0 => fail
  | k + 1 => next.bind fun b =>
      if b.toNat < 128 then Reader.pure b.toNat else (varint k).map fun n => b.toNat - 128 + 128 * n

/-- The shortest varint for `n`, if `k` bytes are enough. -/
def putVarint : Nat → Nat → List UInt8
  | 0, _ => []
  | k + 1, n => if n < 128 then [UInt8.ofNat n] else UInt8.ofNat (n % 128 + 128) :: putVarint k (n / 128)

theorem Hungry.varint (k : Nat) : (varint k).Hungry := by
  cases k with
  | zero => rfl
  | succ k => exact Hungry.next.bind _

theorem read_putVarint {k n : Nat} (hpos : 0 < k) (hn : n < 128 ^ k) (r : List UInt8) :
    (varint k).read (putVarint k n ++ r) = some (n, r) := by
  induction k generalizing n with
  | zero => exact absurd hpos (Nat.lt_irrefl 0)
  | succ k ih =>
      rw [putVarint, varint]
      by_cases h : n < 128
      · rw [if_pos h, List.cons_append, read_bind_of (read_next_cons _ _)]
        have hb : (UInt8.ofNat n).toNat = n := by rw [UInt8.toNat_ofNat']; omega
        rw [if_pos (by omega), hb]
        rfl
      · rw [if_neg h, List.cons_append, read_bind_of (read_next_cons _ _)]
        have hb : (UInt8.ofNat (n % 128 + 128)).toNat = n % 128 + 128 := by rw [UInt8.toNat_ofNat']; omega
        have hk : n / 128 < 128 ^ k := by
          rw [Nat.div_lt_iff_lt_mul (by decide), ← Nat.pow_succ]
          exact hn
        have hpos : 0 < k := Nat.pos_of_ne_zero fun h0 => by
          rw [h0] at hk
          omega
        rw [if_neg (by omega), read_map_of (ih hpos hk), hb]
        congr 2
        omega

/-- How many bytes `putVarint` writes. -/
def sizeVarint : Nat → Nat → Nat
  | 0, _ => 0
  | k + 1, n => if n < 128 then 1 else 1 + sizeVarint k (n / 128)

theorem length_putVarint (k n : Nat) : (putVarint k n).length = sizeVarint k n := by
  induction k generalizing n with
  | zero => rfl
  | succ k ih =>
      rw [putVarint, sizeVarint]
      split
      · rfl
      · rw [List.length_cons, ih, Nat.add_comm]

/-- Nothing that is at most what was read takes more bytes than were read. -/
theorem length_putVarint_le {k n m : Nat} {p q : List UInt8} (h : (varint k).read p = some (n, q)) (hm : m ≤ n) :
    (putVarint k m).length + q.length ≤ p.length := by
  induction k generalizing n m p with
  | zero => cases h
  | succ k ih =>
      obtain ⟨b, mid, hnext, hrest⟩ := read_bind_eq_some h
      obtain ⟨c, rfl, -⟩ := next.takes hnext
      have hlen : mid.length < (c ++ mid).length := Hungry.next.length_lt hnext
      rw [putVarint]
      by_cases hsmall : m < 128
      · rw [if_pos hsmall]
        have hle : q.length ≤ mid.length := length_le hrest
        simp only [List.length_cons, List.length_nil]
        omega
      · rw [if_neg hsmall]
        have hb : ¬ b.toNat < 128 := by
          intro hb
          rw [if_pos hb] at hrest
          cases hrest
          omega
        rw [if_neg hb] at hrest
        obtain ⟨n', hread, rfl⟩ := read_map_eq_some hrest
        have hb' := b.toNat_lt
        have := ih hread (m := m / 128) (by omega)
        simp only [List.length_cons]
        omega

/-! ## Words -/

/-- `k` bytes, the low one first. -/
def word : Nat → Reader UInt8 Nat
  | 0 => Reader.pure 0
  | k + 1 => next.bind fun b => (word k).map fun n => b.toNat + 256 * n

def putWord : Nat → Nat → List UInt8
  | 0, _ => []
  | k + 1, n => UInt8.ofNat (n % 256) :: putWord k (n / 256)

theorem length_putWord (k n : Nat) : (putWord k n).length = k := by
  induction k generalizing n with
  | zero => rfl
  | succ k ih => rw [putWord, List.length_cons, ih]

theorem read_putWord {k n : Nat} (hn : n < 256 ^ k) (r : List UInt8) :
    (word k).read (putWord k n ++ r) = some (n, r) := by
  induction k generalizing n with
  | zero =>
      obtain rfl : n = 0 := by simpa using hn
      rfl
  | succ k ih =>
      rw [putWord, word, List.cons_append, read_bind_of (read_next_cons _ _)]
      have hb : (UInt8.ofNat (n % 256)).toNat = n % 256 := by rw [UInt8.toNat_ofNat']; omega
      have hk : n / 256 < 256 ^ k := by
        rw [Nat.div_lt_iff_lt_mul (by decide), ← Nat.pow_succ]
        exact hn
      rw [read_map_of (ih hk), hb]
      congr 2
      omega

/-- A word that was read fits in its bytes, and took them all. -/
theorem word_bound {k n : Nat} {p q : List UInt8} (h : (word k).read p = some (n, q)) :
    n < 256 ^ k ∧ k + q.length = p.length := by
  induction k generalizing n p with
  | zero =>
      cases h
      exact ⟨by decide, Nat.zero_add _⟩
  | succ k ih =>
      cases p with
      | nil => cases h
      | cons b p =>
          obtain ⟨n', hread, rfl⟩ := read_map_eq_some ((read_bind_of (read_next_cons b p) _).symm.trans h)
          obtain ⟨hlt, hlen⟩ := ih hread
          have hb := b.toNat_lt
          rw [Nat.pow_succ, List.length_cons]
          omega

/-! ## Byte strings -/

/-- A byte string behind its length, which is at most `limit`. -/
def bytes (limit : Nat) : Reader UInt8 (List UInt8) :=
  (varint 5).bind fun n => if n ≤ limit then exactly n else fail

def putBytes (s : List UInt8) : List UInt8 := putVarint 5 s.length ++ s

theorem length_putBytes (s : List UInt8) : (putBytes s).length = sizeVarint 5 s.length + s.length := by
  rw [putBytes, List.length_append, length_putVarint]

theorem Hungry.bytes (limit : Nat) : (bytes limit).Hungry := (Hungry.varint 5).bind _

theorem read_putBytes {limit : Nat} (hlimit : limit < 128 ^ 5) {s : List UInt8} (hs : s.length ≤ limit)
    (r : List UInt8) : (bytes limit).read (putBytes s ++ r) = some (s, r) := by
  rw [putBytes, List.append_assoc, bytes, read_bind_of (read_putVarint (by decide) (by omega) _), if_pos hs]
  exact read_exactly s r

/-- A byte string that was read is within the limit, and is written in no more than was read for it. -/
theorem bytes_bound {limit : Nat} {s p q : List UInt8} (h : (bytes limit).read p = some (s, q)) :
    s.length ≤ limit ∧ (putBytes s).length + q.length ≤ p.length := by
  obtain ⟨n, mid, hn, hrest⟩ := read_bind_eq_some h
  split at hrest
  · next hle =>
    obtain ⟨hlen, rfl⟩ := exactly_eq_some hrest
    have := length_putVarint_le hn (Nat.le_of_eq hlen)
    rw [putBytes]
    simp only [List.length_append] at this ⊢
    omega
  · cases hrest

/-! ## Fields -/

/-- A field, with its number. -/
inductive Field
  | varint (number value : Nat)
  | fixed64 (number value : Nat)
  | bytes (number : Nat) (value : List UInt8)
  | group (number : Nat) (fields : List Field)
  | fixed32 (number value : Nat)

/-- The number, and in the low three bits the kind of the value. -/
def Field.tag : Field → Nat
  | .varint number _  => 8 * number
  | .fixed64 number _ => 8 * number + 1
  | .bytes number _   => 8 * number + 2
  | .group number _   => 8 * number + 3
  | .fixed32 number _ => 8 * number + 5

/-- The tag that ends a group. -/
def endTag (number : Nat) : Nat := 8 * number + 4

def putTag (t : Nat) : List UInt8 := putVarint 5 t

mutual

/-- What follows the tag of a field. -/
def Field.payload : Field → List UInt8
  | .varint _ value      => putVarint 10 value
  | .fixed64 _ value     => putWord 8 value
  | .bytes _ value       => putBytes value
  | .group number fields => putFields fields ++ putTag (endTag number)
  | .fixed32 _ value     => putWord 4 value

/-- Fields, each behind its tag. -/
def putFields : List Field → List UInt8
  | []      => []
  | f :: fs => putTag f.tag ++ f.payload ++ putFields fs

end

def Field.put (f : Field) : List UInt8 := putTag f.tag ++ f.payload

mutual

/-- How many bytes the payload of a field takes. -/
def Field.payloadSize : Field → Nat
  | .varint _ value      => sizeVarint 10 value
  | .fixed64 _ _         => 8
  | .bytes _ value       => sizeVarint 5 value.length + value.length
  | .group number fields => sizeFields fields + sizeVarint 5 (endTag number)
  | .fixed32 _ _         => 4

/-- How many bytes fields take, with their tags. -/
def sizeFields : List Field → Nat
  | []      => 0
  | f :: fs => sizeVarint 5 f.tag + f.payloadSize + sizeFields fs

end

/-- How many bytes a field takes, with its tag. -/
def Field.size (f : Field) : Nat := sizeVarint 5 f.tag + f.payloadSize

mutual

theorem Field.length_payload : ∀ f : Field, f.payload.length = f.payloadSize
  | .varint _ value => by rw [Field.payload, Field.payloadSize, length_putVarint]
  | .fixed64 _ value => by rw [Field.payload, Field.payloadSize, length_putWord]
  | .bytes _ value => by rw [Field.payload, Field.payloadSize, length_putBytes]
  | .group number fields => by
      rw [Field.payload, Field.payloadSize, List.length_append, length_putFields fields, putTag, length_putVarint]
  | .fixed32 _ value => by rw [Field.payload, Field.payloadSize, length_putWord]

theorem length_putFields : ∀ fs : List Field, (putFields fs).length = sizeFields fs
  | [] => rfl
  | f :: fs => by
      rw [putFields, sizeFields, List.length_append, List.length_append, length_putFields fs, f.length_payload, putTag,
        length_putVarint]

end

theorem Field.length_put (f : Field) : f.put.length = f.size := by
  rw [put, size, List.length_append, f.length_payload, putTag, length_putVarint]

theorem putFields_eq (fs : List Field) : putFields fs = fs.flatMap Field.put := by
  induction fs with
  | nil => rfl
  | cons f fs ih => rw [putFields, List.flatMap_cons, ih, Field.put]

/-- A tag is 32 bits; what a longer varint has beyond them is dropped. -/
def tag : Reader UInt8 Nat := (varint 5).map (· % 2 ^ 32)

theorem Hungry.tag : tag.Hungry := (Hungry.varint 5).map _

theorem read_putTag {t : Nat} (ht : t < 2 ^ 32) (r : List UInt8) : tag.read (putTag t ++ r) = some (t, r) := by
  rw [tag, putTag, read_map_of (read_putVarint (by decide) (by omega) r), Nat.mod_eq_of_lt ht]

theorem tag_bound {t : Nat} {p q : List UInt8} (h : tag.read p = some (t, q)) :
    t < 2 ^ 32 ∧ (putTag t).length + q.length ≤ p.length := by
  obtain ⟨n, hn, rfl⟩ := read_map_eq_some h
  exact ⟨Nat.mod_lt _ (by decide), length_putVarint_le hn (Nat.mod_le _ _)⟩

/-- Within a group: the tag that ends it is the mark, any other is the tag of a field. -/
def groupItem (field : Nat → Reader UInt8 Field) (number : Nat) : Reader UInt8 (Option Field) :=
  tag.bind fun t =>
    if t = endTag number then Reader.pure none
    else if t % 8 = 4 then fail else (field t).map some

theorem Hungry.groupItem (field : Nat → Reader UInt8 Field) (number : Nat) : (groupItem field number).Hungry :=
  Hungry.tag.bind _

/-- The value of the field with the tag `t`, which is no group. -/
def plainField (limit t : Nat) : Reader UInt8 Field :=
  if t / 8 = 0 then fail
  else if t % 8 = 0 then (varint 10).map fun n => .varint (t / 8) (n % 2 ^ 64)
  else if t % 8 = 1 then (word 8).map (.fixed64 (t / 8))
  else if t % 8 = 2 then (bytes limit).map (.bytes (t / 8))
  else if t % 8 = 5 then (word 4).map (.fixed32 (t / 8))
  else fail

/-- The value of the field with the tag `t`: byte strings up to `limit`, groups within groups up to the depth. -/
def field (limit : Nat) : Nat → Nat → Reader UInt8 Field
  | 0, t => plainField limit t
  | depth + 1, t =>
      if t / 8 ≠ 0 ∧ t % 8 = 3 then
        ((groupItem (field limit depth) (t / 8)).upTo (Hungry.groupItem _ _)).map (.group (t / 8))
      else plainField limit t

theorem field_of_ne_group {limit depth t : Nat} (ht : t % 8 ≠ 3) : field limit depth t = plainField limit t := by
  cases depth with
  | zero => rfl
  | succ depth => rw [field, if_neg fun h => ht h.2]

/-- How a field behind the tag `t` can come to be read off `p`, with `q` left. -/
inductive Taken (limit t : Nat) (p q : List UInt8) : Nat → Field → Prop
  | varint {depth n : Nat} (ht : t % 8 = 0) (h : (Wire.varint 10).read p = some (n, q)) :
      Taken limit t p q depth (.varint (t / 8) (n % 2 ^ 64))
  | fixed64 {depth n : Nat} (ht : t % 8 = 1) (h : (word 8).read p = some (n, q)) :
      Taken limit t p q depth (.fixed64 (t / 8) n)
  | bytes {depth : Nat} {s : List UInt8} (ht : t % 8 = 2) (h : (Wire.bytes limit).read p = some (s, q)) :
      Taken limit t p q depth (.bytes (t / 8) s)
  | fixed32 {depth n : Nat} (ht : t % 8 = 5) (h : (word 4).read p = some (n, q)) :
      Taken limit t p q depth (.fixed32 (t / 8) n)
  | group {depth : Nat} {fs : List Field} (ht : t % 8 = 3)
      (h : (groupItem (field limit depth) (t / 8)).readUntil p.length p = some (fs, q)) :
      Taken limit t p q (depth + 1) (.group (t / 8) fs)

theorem Taken.tag_eq {limit t depth : Nat} {p q : List UInt8} {f : Field} (h : Taken limit t p q depth f) :
    f.tag = t := by
  cases h <;> simp only [Field.tag] <;> omega

theorem taken_of_plainField {limit depth t : Nat} {p q : List UInt8} {f : Field}
    (h : (plainField limit t).read p = some (f, q)) : t / 8 ≠ 0 ∧ Taken limit t p q depth f := by
  rw [plainField] at h
  split at h
  · cases h
  · next h0 =>
    refine ⟨h0, ?_⟩
    split at h
    · next ht =>
      obtain ⟨n, hn, rfl⟩ := read_map_eq_some h
      exact .varint ht hn
    · split at h
      · next ht =>
        obtain ⟨n, hn, rfl⟩ := read_map_eq_some h
        exact .fixed64 ht hn
      · split at h
        · next ht =>
          obtain ⟨s, hs, rfl⟩ := read_map_eq_some h
          exact .bytes ht hs
        · split at h
          · next ht =>
            obtain ⟨n, hn, rfl⟩ := read_map_eq_some h
            exact .fixed32 ht hn
          · cases h

/-- A field that is read has a number, and its value came from the reader for its kind. -/
theorem taken_of_read {limit depth t : Nat} {p q : List UInt8} {f : Field}
    (h : (field limit depth t).read p = some (f, q)) : t / 8 ≠ 0 ∧ Taken limit t p q depth f := by
  cases depth with
  | zero => exact taken_of_plainField h
  | succ depth =>
      rw [field] at h
      split at h
      · next ht =>
        obtain ⟨fs, hfs, rfl⟩ := read_map_eq_some h
        exact ⟨ht.1, .group ht.2 hfs⟩
      · exact taken_of_plainField h

/-- An item of a group, with its tag. -/
theorem groupItem_eq_some {field : Nat → Reader UInt8 Field} {number : Nat} {p q : List UInt8} {f : Field}
    (h : (groupItem field number).read p = some (some f, q)) :
    ∃ t m, tag.read p = some (t, m) ∧ t ≠ endTag number ∧ t % 8 ≠ 4 ∧ (field t).read m = some (f, q) := by
  obtain ⟨t, m, ht, hrest⟩ := read_bind_eq_some h
  split at hrest
  · cases hrest
  · next hend =>
    split at hrest
    · cases hrest
    · next h4 =>
      obtain ⟨f', hf, heq⟩ := read_map_eq_some hrest
      cases heq
      exact ⟨t, m, ht, hend, h4, hf⟩

theorem groupItem_eq_mark {field : Nat → Reader UInt8 Field} {number : Nat} {p q : List UInt8}
    (h : (groupItem field number).read p = some (none, q)) : tag.read p = some (endTag number, q) := by
  obtain ⟨t, m, ht, hrest⟩ := read_bind_eq_some h
  split at hrest
  · next hend =>
    cases hrest
    rw [← hend]
    exact ht
  · split at hrest
    · cases hrest
    · obtain ⟨f', hf, heq⟩ := read_map_eq_some hrest
      cases heq

theorem read_groupItem {field : Nat → Reader UInt8 Field} {number : Nat} {p q m : List UInt8} {f : Field} {t : Nat}
    (ht : tag.read p = some (t, m)) (hend : t ≠ endTag number) (h4 : t % 8 ≠ 4)
    (hf : (field t).read m = some (f, q)) : (groupItem field number).read p = some (some f, q) := by
  rw [groupItem, read_bind_of ht, if_neg hend, if_neg h4]
  exact read_map_of hf some

theorem read_groupItem_mark {field : Nat → Reader UInt8 Field} {number : Nat} (hnumber : endTag number < 2 ^ 32)
    (r : List UInt8) : (groupItem field number).read (putTag (endTag number) ++ r) = some (none, r) := by
  rw [groupItem, read_bind_of (read_putTag hnumber r), if_pos rfl]
  rfl

/-- A field that was read is read again off what it is written as, in front of anything. Induction on the depth: within
    a group each item was read at the depth below. -/
theorem read_payload {limit : Nat} (hlimit : limit < 128 ^ 5) {depth t : Nat} {p q : List UInt8} {f : Field}
    (ht32 : t < 2 ^ 32) (h : (field limit depth t).read p = some (f, q)) (r : List UInt8) :
    (field limit depth t).read (f.payload ++ r) = some (f, r) := by
  induction depth using Nat.strongRecOn generalizing t p q f r with
  | ind depth ih =>
    obtain ⟨h0, htaken⟩ := taken_of_read h
    cases htaken with
    | @varint _ n ht hn =>
        rw [field_of_ne_group (by omega), plainField, if_neg h0, if_pos ht, Field.payload]
        rw [read_map_of (read_putVarint (by decide) (by omega) r), Nat.mod_mod]
    | fixed64 ht hn =>
        have hlt := (word_bound hn).1
        rw [field_of_ne_group (by omega), plainField, if_neg h0, if_neg (by omega), if_pos ht, Field.payload]
        exact read_map_of (read_putWord hlt r) _
    | bytes ht hs =>
        have hle := (bytes_bound hs).1
        rw [field_of_ne_group (by omega), plainField, if_neg h0, if_neg (by omega), if_neg (by omega), if_pos ht,
          Field.payload]
        exact read_map_of (read_putBytes hlimit hle r) _
    | fixed32 ht hn =>
        have hlt := (word_bound hn).1
        rw [field_of_ne_group (by omega), plainField, if_neg h0, if_neg (by omega), if_neg (by omega),
          if_neg (by omega), if_pos ht, Field.payload]
        exact read_map_of (read_putWord hlt r) _
    | @group d fs ht hfs =>
        have hend : endTag (t / 8) < 2 ^ 32 := by
          simp only [endTag]
          omega
        have hitem : ∀ g ∈ fs, ∀ r, (groupItem (field limit d) (t / 8)).read (g.put ++ r) = some (some g, r) := by
          refine readUntil_forall (fun p g q hg r => ?_) hfs
          obtain ⟨u, m, hu, hne, h4, hread⟩ := groupItem_eq_some hg
          have hlt := (tag_bound hu).1
          rw [Field.put, (taken_of_read hread).2.tag_eq, List.append_assoc]
          exact read_groupItem (read_putTag hlt _) hne h4 (ih d (Nat.lt_succ_self d) hlt hread r)
        rw [field, if_pos ⟨h0, ht⟩, Field.payload, putFields_eq]
        exact read_map_of (read_upTo (Hungry.groupItem _ _) (read_groupItem_mark hend) hitem r) _

/-- A field is written in no more than was read for it. -/
theorem length_payload_le {limit depth t : Nat} {p q : List UInt8} {f : Field}
    (h : (field limit depth t).read p = some (f, q)) : f.payload.length + q.length ≤ p.length := by
  induction depth using Nat.strongRecOn generalizing t p q f with
  | ind depth ih =>
    obtain ⟨h0, htaken⟩ := taken_of_read h
    cases htaken with
    | varint ht hn => exact length_putVarint_le hn (Nat.mod_le _ _)
    | fixed64 ht hn =>
        have := (word_bound hn).2
        rw [Field.payload, length_putWord]
        omega
    | bytes ht hs => exact (bytes_bound hs).2
    | fixed32 ht hn =>
        have := (word_bound hn).2
        rw [Field.payload, length_putWord]
        omega
    | @group d fs ht hfs =>
        rw [Field.payload, putFields_eq]
        refine readUntil_length (fun p q hmark => (tag_bound (groupItem_eq_mark hmark)).2) ?_ hfs
        intro p g q hg
        obtain ⟨u, m, hu, -, -, hread⟩ := groupItem_eq_some hg
        have hpay := ih d (Nat.lt_succ_self d) hread
        have htag := (tag_bound hu).2
        rw [Field.put, (taken_of_read hread).2.tag_eq, List.length_append]
        omega

end Wire
end AsyncCpp
