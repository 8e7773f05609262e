import AsyncCpp.Greeter.Client

/-!
# `Greeter.Messages` — the generated message classes

`helloworld::HelloRequest` and `helloworld::HelloReply` are one class but for names: a string field with number 1 and
the unknown fields that came with it. Its member functions are written once, for a `Message`, and each class has
its own under the names of the source. What they call of the protobuf runtime is a parameter, `Runtime`: pointers
into the input are the bytes that are left of it, `nullptr` is `none`, and what a function stores through a pointer
it returns.
-/

namespace AsyncCpp.Greeter

/-- `WireFormatLite::Operation`. -/
inductive Operation
  | parse
  | serialize
deriving DecidableEq

/-- A line of the log: the string field that is not UTF-8. -/
structure Utf8Error where
  op         : Operation
  field_name : String
deriving DecidableEq

/-- The functions of the protobuf runtime that the generated code calls; `F` is one field of an `UnknownFieldSet`. -/
structure Runtime (F : Type) where
  /-- The tag and what follows it; `none` stands for `nullptr`, with a tag of 0. -/
  readTag : Bytes → Option (UInt32 × Bytes)
  /-- The string stored, and where it ends. -/
  inlineGreedyStringParser : Bytes → Bytes × Option Bytes
  /-- The fields added to the set, and where the last one ends. -/
  unknownFieldParse : UInt32 → Bytes → List F × Option Bytes
  /-- Whether the string is UTF-8, and what is logged. -/
  verifyUtf8String : Bytes → Operation → String → Bool × List Utf8Error
  writeStringMaybeAliased : UInt32 → Bytes → Bytes → Bytes
  stringSize : Bytes → Nat
  internalSerializeUnknownFieldsToArray : List F → Bytes → Bytes
  computeUnknownFieldsSize : List F → Nat

/-- A message. `value_` is `name_` of a `HelloRequest` and `message_` of a `HelloReply`. -/
@[ext] structure Message (F : Type) where
  value_         : Bytes := []
  unknown_fields : List F := []

/-- What `_InternalParse` leaves: the pointer it returns, the message, the tag it stopped at, if any, and the log. -/
structure Parsed (F : Type) where
  ptr     : Option Bytes
  message : Message F
  lastTag : Option UInt32 := none
  log     : List Utf8Error := []

/-- What the runtime asks of `_InternalParse` to call a message parsed. -/
def Parsed.Accepted {F : Type} (r : Parsed F) : Prop := r.ptr.isSome ∧ r.lastTag = none

namespace Message

variable {F : Type} (rt : Runtime F) (field_name : String)

/-- The loop of `_InternalParse`; every round but the last takes one of `fuel`. -/
def parseLoop : Nat → Message F → Bytes → List Utf8Error → Option (Parsed F)
  | _, this, [], log => some { ptr := some [], message := this, log }
  | 0, _, _ :: _, _ => none
  | fuel + 1, this, b :: p, log =>
      match rt.readTag (b :: p) with
      | none => some { ptr := none, message := this, log }
      | some (tag, ptr) =>
          if tag >>> 3 = 1 ∧ tag.toUInt8 = 10 then
            match rt.inlineGreedyStringParser ptr with
            | (str, some ptr) =>
                match rt.verifyUtf8String str .parse field_name with
                | (true, lines)  => parseLoop fuel { this with value_ := str } ptr (log ++ lines)
                | (false, lines) =>
                    some { ptr := none, message := { this with value_ := str }, log := log ++ lines }
            -- the string is looked at before the pointer
            | (str, none) =>
                let lines := (rt.verifyUtf8String str .parse field_name).2
                some { ptr := none, message := { this with value_ := str }, log := log ++ lines }
          -- handle_unusual
          else if tag = 0 ∨ tag &&& 7 = 4 then some { ptr := some ptr, message := this, lastTag := some tag, log }
          else
            match rt.unknownFieldParse tag ptr with
            | (fields, some ptr) =>
                parseLoop fuel { this with unknown_fields := this.unknown_fields ++ fields } ptr log
            | (fields, none) =>
                some { ptr := none, message := { this with unknown_fields := this.unknown_fields ++ fields }, log }

/-- `_InternalParse`. There are no more rounds than bytes. -/
def internalParse (this : Message F) (ptr : Bytes) : Option (Parsed F) :=
  parseLoop rt field_name ptr.length this ptr []

/-- `_InternalSerialize`: what is at `target` then, and the log. -/
def internalSerialize (this : Message F) (target : Bytes) : Bytes × List Utf8Error :=
  let (target, log) :=
    if this.value_ ≠ [] then
      (rt.writeStringMaybeAliased 1 this.value_ target, (rt.verifyUtf8String this.value_ .serialize field_name).2)
    else (target, [])
  if this.unknown_fields ≠ [] then (rt.internalSerializeUnknownFieldsToArray this.unknown_fields target, log)
  else (target, log)

/-- What `_InternalSerialize` writes: the string first. -/
theorem internalSerialize_fst (this : Message F) (target : Bytes) :
    (internalSerialize rt field_name this target).1 =
      let target := if this.value_ ≠ [] then rt.writeStringMaybeAliased 1 this.value_ target else target
      if this.unknown_fields ≠ [] then rt.internalSerializeUnknownFieldsToArray this.unknown_fields target
      else target := by
  by_cases hv : this.value_ = [] <;> by_cases hu : this.unknown_fields = [] <;> simp [internalSerialize, hv, hu]

/-- `ByteSizeLong`. -/
def byteSizeLong (this : Message F) : Nat :=
  let total_size := if this.value_ ≠ [] then 1 + rt.stringSize this.value_ else 0
  if this.unknown_fields ≠ [] then total_size + rt.computeUnknownFieldsSize this.unknown_fields else total_size

/-- `Clear`. -/
def clear (_ : Message F) : Message F := {}

/-- `set_name`, `set_message`. -/
def setValue (this : Message F) (value : Bytes) : Message F := { this with value_ := value }

/-- `MergeFrom`. -/
def mergeFrom (this «from» : Message F) : Message F where
  value_ := if «from».value_ ≠ [] then «from».value_ else this.value_
  unknown_fields := this.unknown_fields ++ «from».unknown_fields

end Message

/-! ## Objects -/

/-- The messages of one class, by address. None is on an arena. -/
abbrev Objects (F : Type) := Nat → Message F

namespace Objects

variable {F : Type}

/-- `CopyFrom`, which is also the copy assignment. -/
def copyFrom (o : Objects F) (this «from» : Nat) : Objects F :=
  if «from» = this then o
  else
    let o := Function.update o this (o this).clear
    Function.update o this ((o this).mergeFrom (o «from»))

/-- `InternalSwap`. -/
def internalSwap (o : Objects F) (this other : Nat) : Objects F :=
  Function.update (Function.update o this (o other)) other (o this)

/-- `Swap`. -/
def swap (o : Objects F) (this other : Nat) : Objects F :=
  if other = this then o else o.internalSwap this other

/-- The move assignment. -/
def moveFrom (o : Objects F) (this «from» : Nat) : Objects F :=
  if this = «from» then o else o.internalSwap this «from»

/-- The copy constructor, at the address `this`. -/
def copyConstruct (o : Objects F) (this «from» : Nat) : Objects F :=
  let m : Message F := { unknown_fields := (o «from»).unknown_fields }
  let m := if (o «from»).value_ ≠ [] then { m with value_ := (o «from»).value_ } else m
  Function.update o this m

/-- The move constructor, at the address `this`. -/
def moveConstruct (o : Objects F) (this «from» : Nat) : Objects F :=
  moveFrom (Function.update o this {}) this «from»

end Objects

/-! ## The two classes -/

namespace HelloRequest

variable {F : Type} (rt : Runtime F)

def internalParse : Message F → Bytes → Option (Parsed F) :=
  Message.internalParse rt "helloworld.HelloRequest.name"

def internalSerialize : Message F → Bytes → Bytes × List Utf8Error :=
  Message.internalSerialize rt "helloworld.HelloRequest.name"

end HelloRequest

namespace HelloReply

variable {F : Type} (rt : Runtime F)

def internalParse : Message F → Bytes → Option (Parsed F) :=
  Message.internalParse rt "helloworld.HelloReply.message"

def internalSerialize : Message F → Bytes → Bytes × List Utf8Error :=
  Message.internalSerialize rt "helloworld.HelloReply.message"

end HelloReply

end AsyncCpp.Greeter
