/-
Messages in messages (Protobuf.h): `Message::Deserialize`, and a `Message` as an element of another one, alone or
repeated, to any depth.
-/
import Ocdm.Protobuf.Message

namespace Ocdm.Protobuf

open Bytes

/-! ## Elements of scalars -/

/-- A fixed scalar has one of the two sizes there are. -/
def Scalar.Sized : Scalar → Prop
  | .varint .. => True
  | .boolean .. => True
  | .fixed size _ _ => size = 4 ∨ size = 8
  | .bytes .. => True

def Element.Sized : Element → Prop
  | .single value => value.Sized
  | .repeated fresh _ => fresh.Sized

theorem Scalar.deserialize_sized {s : Scalar} (h : s.Sized) (mem : Memory) (data : Nat) (length : UInt32) :
    (s.deserialize mem data length).1.Sized := by
  unfold deserialize
  cases s with
  | varint bits value set =>
    dsimp only
    split <;> trivial
  | boolean value set =>
    dsimp only
    split <;> trivial
  | fixed size value set =>
    dsimp only
    split <;> exact h
  | bytes value set => trivial

/-- An element of scalars. -/
structure ScalarElement where
  element : Element
  sized : element.Sized

theorem Element.deserialize_sized {e : Element} (h : e.Sized) (mem : Memory) (data : Nat) (length : UInt32) :
    (e.deserialize mem data length).1.Sized := by
  unfold deserialize
  cases e with
  | single value => exact Scalar.deserialize_sized (s := value) h mem data length
  | repeated fresh elements =>
    dsimp only
    split <;> exact h

def ScalarElement.deserialize (mem : Memory) (data : Nat) (length : UInt32) (e : ScalarElement) :
    ScalarElement × UInt32 :=
  (⟨(e.element.deserialize mem data length).1, e.element.deserialize_sized e.sized mem data length⟩,
    (e.element.deserialize mem data length).2)

instance : IElement ScalarElement where
  deserialize mem data length e := pure (e.deserialize mem data length)
  isSet e := IElement.isSet e.element
  type e := IElement.type e.element

/-! ## Messages as elements -/

/-- `Message::Deserialize`: the message afterwards and the number of bytes taken. A message that cannot read its part
takes the bytes of the length prefix. -/
def deserializeMessage {E : Type} [IElement E] (mem : Memory) (data : Nat) (length : UInt32) (m : Message E) :
    Comp (Message E × UInt32) :=
  match readVarint mem data length with
  | none => pure (m, 0)
  | some (size, result) =>
    let size := u32 size.toNat
    if size > 0 ∧ size ≤ length - result.toUInt32 then do
      let r ← fromBuffer mem (data + result.toNat) size m
      return (r.2, if r.1 then u32 (result.toNat + size.toNat) else result.toUInt32)
    else return (m, result.toUInt32)

/-- An element of scalars, a message, or a `RepeatedType` of messages that start as `fresh`. -/
inductive NestedElement (E : Type) where
  | scalar (e : ScalarElement)
  | message (m : Message E)
  | repeated (fresh : Message E) (elements : List (Message E))

instance {E : Type} [IElement E] : IElement (NestedElement E) where
  deserialize mem data length
    | .scalar e => pure (.scalar (e.deserialize mem data length).1, (e.deserialize mem data length).2)
    | .message m => do
      let r ← deserializeMessage mem data length m
      return (.message r.1, r.2)
    | .repeated fresh elements => do
      let r ← deserializeMessage mem data length fresh
      return (.repeated fresh (if r.2 ≠ 0 then elements ++ [r.1] else elements), r.2)
  isSet
    | .scalar e => IElement.isSet e
    | .message m => !m.isEmpty
    | .repeated _ elements => !elements.isEmpty
  type
    | .scalar e => IElement.type e
    | .message _ => .lengthDelimited
    | .repeated _ _ => .lengthDelimited

/-- The elements of messages nested to a depth. -/
def Nested : Nat → Type
  | 0 => ScalarElement
  | depth + 1 => NestedElement (Nested depth)

instance instNested : (depth : Nat) → IElement (Nested depth)
  | 0 => inferInstanceAs (IElement ScalarElement)
  | depth + 1 =>
    have := instNested depth
    inferInstanceAs (IElement (NestedElement (Nested depth)))

end Ocdm.Protobuf
