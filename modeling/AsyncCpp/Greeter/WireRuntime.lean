import AsyncCpp.Greeter.Codec
import AsyncCpp.Lib.Wire

/-!
# `Greeter.WireRuntime` — a runtime that behaves as documented

The functions of the protobuf runtime, made of the readers and writers of `Lib.Wire`: tags and lengths are varints,
an unknown field is any field that has a number, groups nest up to a depth of 100 and a string is shorter than 2 GiB.
What `Runtime.Documented` asks is proved of it, so that the results about the message classes are not about nothing.
-/

namespace AsyncCpp.Greeter

open Reader (read_bind_of read_map_of read_map_eq_some)

/-- The longest string that is read: `INT_MAX`, less what the input buffer keeps behind its end. -/
def stringLimit : Nat := 2 ^ 31 - 17

/-- How deep groups may nest. -/
def recursionLimit : Nat := 100

/-- A successful read as the runtime reports it. -/
def stored {α β : Type} (none' : α) (wrap : β → α) : Option (β × Bytes) → α × Option Bytes
  | some (b, q) => (wrap b, some q)
  | none        => (none', none)

def wireRuntime : Runtime Wire.Field where
  readTag p := (Wire.tag.read p).map fun tq => (UInt32.ofNat tq.1, tq.2)
  inlineGreedyStringParser p := stored [] id ((Wire.bytes stringLimit).read p)
  unknownFieldParse tag p := stored [] ([·]) ((Wire.field stringLimit recursionLimit tag.toNat).read p)
  verifyUtf8String s op field_name := if ValidUtf8 s then (true, []) else (false, [⟨op, field_name⟩])
  writeStringMaybeAliased number s target := target ++ (Wire.putTag (8 * number.toNat + 2) ++ Wire.putBytes s)
  stringSize s := Wire.sizeVarint 5 s.length + s.length
  internalSerializeUnknownFieldsToArray fs target := target ++ Wire.putFields fs
  computeUnknownFieldsSize fs := Wire.sizeFields fs

theorem stored_eq_some {α β : Type} {none' : α} {wrap : β → α} {r : Option (β × Bytes)} {a : α} {q : Bytes}
    (h : stored none' wrap r = (a, some q)) : ∃ b, r = some (b, q) ∧ wrap b = a := by
  cases r with
  | none => cases h
  | some bq =>
      cases h
      exact ⟨bq.1, rfl, rfl⟩

theorem wireRuntime_documented :
    wireRuntime.Documented stringLimit Wire.Field.put Wire.Field.size where
  readTag_nil := rfl
  readTag_takes h := by
    obtain ⟨tq, htag, heq⟩ := Option.map_eq_some_iff.mp h
    cases heq
    obtain ⟨c, rfl, hc⟩ := Wire.tag.takes htag
    refine ⟨c, rfl, fun r => ?_⟩
    simp only [wireRuntime, hc r, Option.map_some]
  string_takes h := by
    obtain ⟨s, hs, rfl⟩ := stored_eq_some h
    obtain ⟨c, rfl, hc⟩ := Reader.takes _ hs
    refine ⟨c, rfl, fun r => ?_⟩
    simp only [wireRuntime, hc r, stored]
  unknown_takes h := by
    obtain ⟨f, hf, rfl⟩ := stored_eq_some h
    obtain ⟨c, rfl, hc⟩ := Reader.takes _ hf
    refine ⟨c, f, rfl, rfl, fun r => ?_⟩
    simp only [wireRuntime, hc r, stored]
  verify s op field_name := rfl
  readTag_string r := by
    have : Wire.tag.read (10 :: r) = some (10, r) := Wire.read_putTag (t := 10) (by decide) r
    simp only [wireRuntime, this, Option.map_some]
    rfl
  write_string s := by
    refine ⟨Wire.putBytes s, Wire.length_putBytes s, fun target => rfl, fun hs r => ?_⟩
    have hread : (Wire.bytes stringLimit).read (Wire.putBytes s ++ r) = some (s, r) :=
      Wire.read_putBytes (by decide) hs r
    simp only [wireRuntime, hread, stored, id]
  write_unknown fs target := by
    rw [← Wire.putFields_eq]
    rfl
  size_nil := rfl
  size_cons f fs := rfl
  size_write := Wire.Field.length_put
  read_unknown {_ p _ q f} ht h := by
    obtain ⟨⟨t, m⟩, htag, heq⟩ := Option.map_eq_some_iff.mp ht
    cases heq
    obtain ⟨g, hf, heq⟩ := stored_eq_some h
    obtain rfl : g = f := List.cons.inj heq |>.1
    obtain ⟨hlt, hlen⟩ := Wire.tag_bound htag
    have htoNat : (UInt32.ofNat t).toNat = t := UInt32.toNat_ofNat_of_lt' hlt
    rw [htoNat] at hf
    have hpay : g.payload.length + q.length ≤ m.length := Wire.length_payload_le hf
    have htag_eq := (Wire.taken_of_read hf).2.tag_eq
    constructor
    · rw [Wire.Field.put, List.length_append, htag_eq]
      omega
    · intro r
      refine ⟨g.payload ++ r, ?_, ?_⟩
      · simp only [wireRuntime]
        rw [Wire.Field.put, htag_eq, List.append_assoc, Wire.read_putTag hlt]
        rfl
      · simp only [wireRuntime, htoNat]
        rw [Wire.read_payload (by decide) hlt hf r]
        rfl
  string_bound h := by
    obtain ⟨s, hs, rfl⟩ := stored_eq_some h
    obtain ⟨hle, hlen⟩ := Wire.bytes_bound hs
    rw [Wire.length_putBytes] at hlen
    exact ⟨hle, hlen⟩

end AsyncCpp.Greeter
