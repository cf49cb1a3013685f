/-
The protobuf decoder (Protobuf.h): `ReadVarint`, the value elements (`VarintType`, `FixedType`,
`BytesType`), `RepeatedType`, and `Message::FromBuffer` over elements registered under 8-bit
indices. Elements are reached through `IElement`, as in the source, so that a message can hold
elements of any kind.
-/
import Ocdm.Lib.Bytes
import Ocdm.Lib.Comp

namespace Ocdm.Protobuf

open Bytes

/-- `IElement::WireType`; the values 6 and 7 of the three-bit field have no name. -/
inductive WireType where
  | varint
  | fixed64
  | lengthDelimited
  | groupStart
  | groupEnd
  | fixed32
  | unnamed
deriving DecidableEq, Repr

/-- `static_cast<WireType>(tag & 0x7)` -/
def WireType.ofTag (tag : UInt64) : WireType :=
  match (tag &&& 0x7).toNat with
  | 0 => .varint
  | 1 => .fixed64
  | 2 => .lengthDelimited
  | 3 => .groupStart
  | 4 => .groupEnd
  | 5 => .fixed32
  | _ => .unnamed

/-! ## Value elements -/

/-- The loop of `ReadVarint` with `size` bytes still allowed: the value and the address behind its
last byte, or nothing when the bytes or the allowance run out first. -/
def readVarintLoop (mem : Memory) (stop : Nat) : Nat → Nat → UInt8 → UInt64 → Option (UInt64 × Nat)
  | 0, _, _, _ => none
  | size + 1, ptr, shift, value =>
    if ptr < stop then
      let value := value ||| (mem ptr &&& 0x7F).toUInt64 <<< shift.toUInt64
      if mem ptr &&& 0x80 = 0 then some (value, ptr + 1)
      else readVarintLoop mem stop size (ptr + 1) (shift + 7) value
    else none

/-- `ReadVarint`: the value read and the number of bytes it took, nothing for the result 0. -/
def readVarint (mem : Memory) (data : Nat) (length : UInt32) : Option (UInt64 × UInt8) :=
  (readVarintLoop mem (data + length.toNat) 8 data 0 0).map fun r => (r.1, u8 (r.2 - data))

/-- A `ValueElementType`: `VarintType<T>` for a `T` of `bits` bits, `VarintType<bool>`,
`FixedType<T>` for a `T` of `size` bytes, and `BytesType`. -/
inductive Scalar where
  | varint (bits : Nat) (value : UInt64) (set : Bool)
  | boolean (value : Bool) (set : Bool)
  | fixed (size : Nat) (value : List UInt8) (set : Bool)
  | bytes (value : List UInt8) (set : Bool)
deriving DecidableEq, Repr

namespace Scalar

/-- A `VarintType<uint32_t>` or a `VarintType` of a 32-bit enumeration, fresh. -/
def uInt32 : Scalar := .varint 32 0 false
/-- A fresh `Bytes` or `Utf8String`. -/
def string : Scalar := .bytes [] false

def type : Scalar → WireType
  | .varint .. => .varint
  | .boolean .. => .varint
  | .fixed 4 .. => .fixed32
  | .fixed .. => .fixed64
  | .bytes .. => .lengthDelimited

def isSet : Scalar → Bool
  | .varint _ _ set => set
  | .boolean _ set => set
  | .fixed _ _ set => set
  | .bytes _ set => set

/-- `BytesType::Deserialize`: the bytes appended and the number of bytes taken. A length prefix that
promises more than there is takes the bytes of the prefix and appends nothing. -/
def deserializeBytes (mem : Memory) (data : Nat) (length : UInt32) : List UInt8 × UInt32 :=
  match readVarint mem data length with
  | none => ([], 0)
  | some (size, result) =>
    let size := u32 size.toNat
    if size ≠ 0 ∧ size ≤ length ∧ data + result.toNat + size.toNat ≤ data + length.toNat then
      (slice mem (data + result.toNat) size.toNat, u32 (result.toNat + size.toNat))
    else ([], result.toUInt32)

/-- `Deserialize`: the element afterwards and the number of bytes taken. -/
def deserialize (mem : Memory) (data : Nat) (length : UInt32) : Scalar → Scalar × UInt32
  | .varint bits value _ =>
    match readVarint mem data length with
    | none => (.varint bits value false, 0)
    | some (v, result) => (.varint bits (UInt64.ofNat (v.toNat % 2 ^ bits)) true, result.toUInt32)
  | .boolean value _ =>
    match readVarint mem data length with
    | none => (.boolean value false, 0)
    | some (v, result) => (.boolean (v ≠ 0) true, result.toUInt32)
  | .fixed size value _ =>
    if size ≤ length.toNat then (.fixed size (slice mem data size) true, u32 size) else (.fixed size value false, 0)
  | .bytes value set =>
    let r := deserializeBytes mem data length
    (.bytes (value ++ r.1) set, r.2)

end Scalar

/-! ## Elements of a message -/

/-- The interface `IElement`. -/
class IElement (E : Type) where
  deserialize : Memory → Nat → UInt32 → E → Comp (E × UInt32)
  isSet : E → Bool
  type : E → WireType

/-- A singular element, or a `RepeatedType` of elements that start as `fresh`. -/
inductive Element where
  | single (value : Scalar)
  | repeated (fresh : Scalar) (elements : List Scalar)
deriving DecidableEq, Repr

def Element.deserialize (mem : Memory) (data : Nat) (length : UInt32) : Element → Element × UInt32
  | .single value =>
    let r := value.deserialize mem data length
    (.single r.1, r.2)
  | .repeated fresh elements =>
    let r := fresh.deserialize mem data length
    if r.2 ≠ 0 then (.repeated fresh (elements ++ [r.1]), r.2) else (.repeated fresh elements, r.2)

instance : IElement Element where
  deserialize mem data length e := pure (e.deserialize mem data length)
  isSet
    | .single value => value.isSet
    | .repeated _ elements => !elements.isEmpty
  type
    | .single value => value.type
    | .repeated fresh _ => fresh.type

/-! ## Messages -/

/-- `Message::Entry` -/
structure Entry (E : Type) where
  element : E
  required : Bool
deriving DecidableEq, Repr

/-- A `Message`: its elements by index. -/
abbrev Message (E : Type) := List (UInt8 × Entry E)

/-- `Message::Add`; an index that is taken keeps its element. -/
def Message.add {E : Type} (m : Message E) (index : UInt8) (element : E) (required : Bool) : Message E :=
  if (m.lookup index).isSome then m else m ++ [(index, ⟨element, required⟩)]

/-- `Message::IsValid` -/
def Message.isValid {E : Type} [IElement E] (m : Message E) : Bool :=
  m.all fun p => !(p.2.required && !IElement.isSet p.2.element)

/-- The message with the element at `index` replaced. -/
def Message.set {E : Type} (m : Message E) (index : UInt8) (element : E) : Message E :=
  m.map fun p => if p.1 = index then (p.1, { p.2 with element := element }) else p

theorem Message.lookup_set {E : Type} (m : Message E) (i j : UInt8) (e : E) :
    (m.set i e).lookup j = if j = i then (m.lookup j).map ({ · with element := e }) else m.lookup j := by
  induction m with
  | nil => simp [set]
  | cons p m ih =>
    obtain ⟨k, entry⟩ := p
    have hset : Message.set ((k, entry) :: m) i e =
        (k, if k = i then { entry with element := e } else entry) :: Message.set m i e := by
      rw [set, List.map_cons]; split <;> rfl
    rw [hset, List.lookup_cons, List.lookup_cons, ih]
    cases hj : j == k with
    | true => rw [eq_of_beq hj]; by_cases hk : k = i <;> simp [hk]
    | false => rfl

theorem Message.required_set {E : Type} {m : Message E} (h : ∀ p ∈ m, p.2.required = false) (i : UInt8) (e : E) :
    ∀ p ∈ m.set i e, p.2.required = false := by
  intro p hp
  obtain ⟨q, hq, rfl⟩ := List.mem_map.1 hp
  split <;> exact h q hq

/-- `Message::Skip` -/
def skip (mem : Memory) (data : Nat) (length : UInt32) : WireType → UInt32
  | .varint => ((Scalar.varint 64 0 false).deserialize mem data length).2
  | .fixed64 => ((Scalar.fixed 8 [] false).deserialize mem data length).2
  | .lengthDelimited => ((Scalar.bytes [] false).deserialize mem data length).2
  | .fixed32 => ((Scalar.fixed 4 [] false).deserialize mem data length).2
  | .groupStart | .groupEnd | .unnamed => 0

section FromBuffer

variable {E : Type} [IElement E]

/-- Where `FromBuffer` is: its cursor and the message filled so far. -/
structure Scan (E : Type) where
  ptr : Nat
  message : Message E

/-- The payload of a field: the message afterwards and the number of bytes taken. -/
def fromField (mem : Memory) (ptr : Nat) (available : UInt32) (type : WireType) (key : UInt32) (m : Message E) :
    Comp (Message E × UInt32) :=
  if key ≠ 0 then
    match m.lookup (u8 key.toNat) with
    | some entry =>
      -- a field of another wire type than its element's fails the message
      if type = IElement.type entry.element then do
        let r ← IElement.deserialize mem ptr available entry.element
        return (m.set (u8 key.toNat) r.1, r.2)
      else return (m, 0)
    | none => return (m, skip mem ptr available type)
  else return (m, 0)

/-- One pass of the loop of `FromBuffer`. -/
def fromBufferPass (mem : Memory) (stop : Nat) (s : Scan E) : Comp (Comp.Pass (Scan E) (Bool × Message E)) :=
  if s.ptr < stop then
    match readVarint mem s.ptr (u32 (stop - s.ptr)) with
    | some (tag, tagSize) => do
      let type := WireType.ofTag tag
      let key := u32 (tag >>> 3).toNat
      let available := u32 (stop - s.ptr - tagSize.toNat)
      let ptr := s.ptr + tagSize.toNat
      let r ← fromField mem ptr available type key s.message
      if r.2 = 0 then return .done (false, r.1) else return .again ⟨ptr + r.2.toNat, r.1⟩
    | none => return .done (false, s.message)
  else return .done (true, s.message)

/-- `Message::FromBuffer` -/
def fromBuffer (mem : Memory) (data : Nat) (length : UInt32) (m : Message E) : Comp (Bool × Message E) :=
  Comp.loop (fromBufferPass mem (data + length.toNat)) ⟨data, m⟩

end FromBuffer

end Ocdm.Protobuf
