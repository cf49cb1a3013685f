/-
What an element consumes of a buffer, told from the bytes alone (`Consumes`): a whole payload, or, when the
length prefix promises more than there is or a nested message cannot read its part, the prefix without it. It
depends on the definition of the element and not on the values it holds (`LawfulElement`); elements of scalars
are of this kind.
-/
import Ocdm.Protobuf.Nested
import Ocdm.Protobuf.Varint

namespace Ocdm.Protobuf

open Bytes Comp
open Wire (Varint IsPayload)

/-! ## What an element consumes -/

/-- Where the cursor is after a payload at `p` of a buffer that ends at `stop`, and whether it is behind a
whole payload. `reads` says which bytes the payload of a length-delimited field can be. -/
inductive Consumes (mem : Memory) (reads : Nat → Nat → Prop) (p stop : Nat) : WireType → Bool → Nat → Prop where
  | varint {bs : List UInt8} {n : Nat} : Varint bs n → bs.length ≤ 8 → Holds mem p bs → p + bs.length ≤ stop →
      Consumes mem reads p stop .varint true (p + bs.length)
  | fixed64 : p + 8 ≤ stop → Consumes mem reads p stop .fixed64 true (p + 8)
  | fixed32 : p + 4 ≤ stop → Consumes mem reads p stop .fixed32 true (p + 4)
  | delimited {size : List UInt8} {n : Nat} : Varint size n → size.length ≤ 8 → Holds mem p size →
      p + size.length + n ≤ stop → reads (p + size.length) (p + size.length + n) →
      Consumes mem reads p stop .lengthDelimited true (p + size.length + n)
  /-- Only 32 bits of a size are kept. What they announce is not there or cannot be read, and the prefix alone
  is taken. -/
  | dropped {size : List UInt8} {n : Nat} : Varint size n → size.length ≤ 8 → Holds mem p size →
    p + size.length ≤ stop →
      ¬ (p + size.length + n % 2 ^ 32 ≤ stop ∧ reads (p + size.length) (p + size.length + n % 2 ^ 32)) →
      Consumes mem reads p stop .lengthDelimited false (p + size.length)
  /-- What the 32 bits announce of a longer size is taken for the payload. -/
  | wrapped {size : List UInt8} {n : Nat} : Varint size n → size.length ≤ 8 → Holds mem p size → 2 ^ 32 ≤ n →
      p + size.length + n % 2 ^ 32 ≤ stop → reads (p + size.length) (p + size.length + n % 2 ^ 32) →
      Consumes mem reads p stop .lengthDelimited false (p + size.length + n % 2 ^ 32)

theorem Consumes.le {mem : Memory} {reads : Nat → Nat → Prop} {p stop q : Nat} {type : WireType} {whole : Bool}
    (h : Consumes mem reads p stop type whole q) : p ≤ q ∧ q ≤ stop := by
  cases h with
  | dropped _ _ _ hle _ => exact ⟨Nat.le_add_right _ _, hle⟩
  | _ => omega

/-- What is behind a whole payload is the payload. -/
theorem Consumes.payload {mem : Memory} {reads : Nat → Nat → Prop} {p stop q : Nat} {type : WireType}
    (h : Consumes mem reads p stop type true q) :
    ∃ payload, IsPayload 8 type.code payload ∧ Holds mem p payload ∧ p + payload.length = q ∧ q ≤ stop := by
  have hle := h.le.2
  cases h with
  | varint hbs height hholds _ => exact ⟨_, .varint hbs height, hholds, rfl, hle⟩
  | fixed64 _ => exact ⟨slice mem p 8, .fixed64 (slice_length ..), holds_slice .., by rw [slice_length], hle⟩
  | fixed32 _ => exact ⟨slice mem p 4, .fixed32 (slice_length ..), holds_slice .., by rw [slice_length], hle⟩
  | @delimited size n hsize height hholds _ _ =>
    refine ⟨size ++ slice mem (p + size.length) n, .delimited ?_ height, ?_, ?_, hle⟩
    · rw [slice_length]
      exact hsize
    · rw [holds_append]
      exact ⟨hholds, holds_slice ..⟩
    · rw [List.length_append, slice_length, Nat.add_assoc]

theorem Consumes.type_ne {mem : Memory} {reads : Nat → Nat → Prop} {p stop q : Nat} {type : WireType} {whole : Bool}
    (h : Consumes mem reads p stop type whole q) : type ≠ .unnamed := by
  cases h <;> decide

/-- The bytes consumed are what `Consumes` says; without anything to consume there are none. -/
def ConsumesExactly (mem : Memory) (reads : Nat → Nat → Prop) (p : Nat) (available : UInt32) (type : WireType)
    (consumed : UInt32) : Prop :=
  ∀ q, (∃ whole, Consumes mem reads p (p + available.toNat) type whole q) ↔ consumed ≠ 0 ∧ q = p + consumed.toNat

section

variable {mem : Memory} {reads : Nat → Nat → Prop} {p : Nat} {available consumed : UInt32}

theorem consumesExactly_none {type : WireType}
    (h : ∀ whole q, ¬ Consumes mem reads p (p + available.toNat) type whole q) :
    ConsumesExactly mem reads p available type 0 :=
  fun q => ⟨fun ⟨whole, hc⟩ => absurd hc (h whole q), fun hne => absurd rfl hne.1⟩

theorem consumesExactly_varint (hnone : readVarint mem p available = none → consumed = 0)
    (hsome : ∀ v k, readVarint mem p available = some (v, k) → consumed = k.toUInt32) :
    ConsumesExactly mem reads p available .varint consumed := by
  intro q
  constructor
  · rintro ⟨whole, hc⟩
    cases hc with
    | varint hbs height hholds hle =>
      obtain ⟨v, k, hread, -, hk⟩ := readVarint_of_varint available hbs hholds height (by omega)
      have hpos := hbs.length_pos
      have hconsumed : consumed.toNat = k.toNat := by simp [hsome v k hread]
      exact ⟨u32_ne_zero (by omega), by omega⟩
  · rintro ⟨hne, rfl⟩
    cases hread : readVarint mem p available with
    | none => exact absurd (hnone hread) hne
    | some r =>
      obtain ⟨v, k⟩ := r
      obtain ⟨bs, hbs, hholds, hlen, height, hle⟩ := readVarint_varint hread
      have hconsumed : consumed.toNat = bs.length := by simp [hsome v k hread, hlen]
      rw [hconsumed]
      exact ⟨true, .varint hbs height hholds (by omega)⟩

theorem consumesExactly_fixed32 (hle : 4 ≤ available.toNat) : ConsumesExactly mem reads p available .fixed32 4 := by
  intro q
  constructor
  · rintro ⟨whole, hconsumes⟩
    cases hconsumes
    exact ⟨by decide, rfl⟩
  · rintro ⟨-, rfl⟩
    exact ⟨true, .fixed32 (Nat.add_le_add_left hle p)⟩

theorem consumesExactly_fixed64 (hle : 8 ≤ available.toNat) : ConsumesExactly mem reads p available .fixed64 8 := by
  intro q
  constructor
  · rintro ⟨whole, hconsumes⟩
    cases hconsumes
    exact ⟨by decide, rfl⟩
  · rintro ⟨-, rfl⟩
    exact ⟨true, .fixed64 (Nat.add_le_add_left hle p)⟩

/-- What is announced can be consumed: 32 bits of it are there and can be read. -/
def Announced (reads : Nat → Nat → Prop) (p : Nat) (available : UInt32) (size : UInt64) (result : UInt8) : Prop :=
  p + result.toNat + size.toNat % 2 ^ 32 ≤ p + available.toNat ∧
    reads (p + result.toNat) (p + result.toNat + size.toNat % 2 ^ 32)

theorem consumesExactly_delimited (hnone : readVarint mem p available = none → consumed = 0)
    (hsome : ∀ size result, readVarint mem p available = some (size, result) →
      (Announced reads p available size result → consumed.toNat = result.toNat + size.toNat % 2 ^ 32) ∧
      (¬ Announced reads p available size result → consumed.toNat = result.toNat)) :
    ConsumesExactly mem reads p available .lengthDelimited consumed := by
  have hlt := available.toNat_lt
  intro q
  constructor
  · rintro ⟨whole, hc⟩
    cases hc with
    | @delimited size n hsize height hholds hle hreads =>
      obtain ⟨v, k, hread, rfl, hk⟩ := readVarint_of_varint available hsize hholds height (by omega)
      have hpos := hsize.length_pos
      have hmod : v.toNat % 2 ^ 32 = v.toNat := Nat.mod_eq_of_lt (by omega)
      have hconsumed := (hsome v k hread).1 (by
        unfold Announced
        rw [hk, hmod]
        exact ⟨hle, hreads⟩)
      exact ⟨u32_ne_zero (by omega), by omega⟩
    | @dropped size n hsize height hholds hle hno =>
      obtain ⟨v, k, hread, rfl, hk⟩ := readVarint_of_varint available hsize hholds height (by omega)
      have hpos := hsize.length_pos
      have hconsumed := (hsome v k hread).2 (by
        unfold Announced
        rw [hk]
        exact hno)
      exact ⟨u32_ne_zero (by omega), by omega⟩
    | @wrapped size n hsize height hholds hbig hle hreads =>
      obtain ⟨v, k, hread, rfl, hk⟩ := readVarint_of_varint available hsize hholds height (by omega)
      have hpos := hsize.length_pos
      have hconsumed := (hsome v k hread).1 (by
        unfold Announced
        rw [hk]
        exact ⟨hle, hreads⟩)
      exact ⟨u32_ne_zero (by omega), by omega⟩
  · rintro ⟨hne, rfl⟩
    cases hread : readVarint mem p available with
    | none => exact absurd (hnone hread) hne
    | some r =>
      obtain ⟨v, k⟩ := r
      obtain ⟨bs, hbs, hholds, hlen, height, hle⟩ := readVarint_varint hread
      -- the size is kept in 32 bits: what it announces is read whole or wrapped, or dropped
      by_cases hann : Announced reads p available v k
      · rw [(hsome v k hread).1 hann, ← Nat.add_assoc]
        obtain ⟨hroom, hreads⟩ := hann
        rw [← hlen] at hroom hreads ⊢
        by_cases hbig : 2 ^ 32 ≤ v.toNat
        · exact ⟨false, .wrapped hbs height hholds hbig hroom hreads⟩
        · rw [Nat.mod_eq_of_lt (Nat.lt_of_not_le hbig)] at hroom hreads ⊢
          exact ⟨true, .delimited hbs height hholds hroom hreads⟩
      · rw [(hsome v k hread).2 hann]
        unfold Announced at hann
        rw [← hlen] at hann ⊢
        exact ⟨false, .dropped hbs height hholds (by omega) hann⟩

end

theorem Scalar.deserializeBytes_consumes (mem : Memory) (p : Nat) (available : UInt32) :
    ConsumesExactly mem (fun _ _ => True) p available .lengthDelimited (deserializeBytes mem p available).2 := by
  have hlt := available.toNat_lt
  unfold deserializeBytes
  refine consumesExactly_delimited (fun hnone => ?_) fun v k hread => ?_
  · rw [hnone]
  · obtain ⟨bs, hbs, hholds, hlen, height, hle⟩ := readVarint_varint hread
    have hsize := u32_mod v.toNat
    rw [hread]
    dsimp only
    constructor
    · rintro ⟨hroom, -⟩
      by_cases hzero : u32 v.toNat = 0
      · rw [if_neg fun hand => hand.1 hzero, ← hsize, hzero]
        simp
      · rw [if_pos ⟨hzero, UInt32.le_iff_toNat_le.2 (by omega), by omega⟩, ← hsize]
        exact u32_eq (by omega) (by omega)
    · intro hno
      rw [if_neg fun hand => hno ⟨by omega, trivial⟩]
      simp

theorem Scalar.deserialize_consumes {s : Scalar} (h : s.Sized) (mem : Memory) (p : Nat) (available : UInt32) :
    ConsumesExactly mem (fun _ _ => True) p available s.type (s.deserialize mem p available).2 := by
  unfold deserialize
  cases s with
  | varint bits value set =>
    refine consumesExactly_varint (fun hnone => ?_) fun v k hread => ?_
    · rw [hnone]
    · rw [hread]
  | boolean value set =>
    refine consumesExactly_varint (fun hnone => ?_) fun v k hread => ?_
    · rw [hnone]
    · rw [hread]
  | fixed size value set =>
    dsimp only
    by_cases hle : size ≤ available.toNat
    · rw [if_pos hle]
      rcases h with rfl | rfl
      · exact consumesExactly_fixed32 hle
      · exact consumesExactly_fixed64 hle
    · rw [if_neg hle]
      refine consumesExactly_none fun whole q hc => hle ?_
      rcases h with rfl | rfl <;> cases hc <;> omega
  | bytes value set => exact deserializeBytes_consumes mem p available

theorem skip_consumes (mem : Memory) (p : Nat) (available : UInt32) (type : WireType) :
    ConsumesExactly mem (fun _ _ => True) p available type (skip mem p available type) := by
  cases type with
  | varint => exact Scalar.deserialize_consumes (s := .varint 64 0 false) trivial mem p available
  | fixed64 => exact Scalar.deserialize_consumes (s := .fixed 8 [] false) (.inr rfl) mem p available
  | lengthDelimited => exact Scalar.deserialize_consumes (s := .bytes [] false) trivial mem p available
  | fixed32 => exact Scalar.deserialize_consumes (s := .fixed 4 [] false) (.inl rfl) mem p available
  | groupStart => exact consumesExactly_none fun _ _ => nofun
  | groupEnd => exact consumesExactly_none fun _ _ => nofun
  | unnamed => exact consumesExactly_none fun _ _ => nofun

/-! ## Lawful elements -/

/-- Elements whose `Deserialize` ends. -/
class TotalElement (E : Type) [IElement E] : Prop where
  total (mem : Memory) (p : Nat) (available : UInt32) (e : E) : (IElement.deserialize mem p available e).Terminates

instance : TotalElement Element where
  total _ _ _ _ := ⟨_, returns_pure.2 rfl⟩

/-- Elements with a definition that reading does not change and that alone decides what is consumed. `reads` says which
bytes an element can read as the payload of a length-delimited field. -/
class LawfulElement (E : Type) [IElement E] extends TotalElement E where
  Definition : Type
  definition : E → Definition
  reads : E → Memory → Nat → Nat → Prop
  keeps {mem : Memory} {p : Nat} {available : UInt32} {e : E} {r : E × UInt32} :
    (IElement.deserialize mem p available e).Returns r → definition r.1 = definition e
  type_same {e e' : E} : definition e = definition e' → IElement.type e = IElement.type e'
  reads_same {e e' : E} : definition e = definition e' → reads e = reads e'
  consumes {mem : Memory} {p : Nat} {available : UInt32} {e : E} {r : E × UInt32} :
    (IElement.deserialize mem p available e).Returns r →
      ConsumesExactly mem (reads e mem) p available (IElement.type e) r.2

/-! ## Scalars are lawful -/

def Scalar.definition : Scalar → Scalar
  | .varint bits _ _ => .varint bits 0 false
  | .boolean _ _ => .boolean false false
  | .fixed size _ _ => .fixed size [] false
  | .bytes _ _ => .bytes [] false

def Element.definition : Element → Element
  | .single value => .single value.definition
  | .repeated fresh _ => .repeated fresh []

theorem Scalar.type_definition (s : Scalar) : s.definition.type = s.type := by
  cases s with
  | varint bits value set => rfl
  | boolean value set => rfl
  | fixed size value set =>
    by_cases hsize : size = 4
    · rw [hsize]
      rfl
    · simp [definition, type]
  | bytes value set => rfl

theorem Scalar.deserialize_definition (s : Scalar) (mem : Memory) (p : Nat) (available : UInt32) :
    (s.deserialize mem p available).1.definition = s.definition := by
  unfold deserialize
  cases s with
  | varint bits value set =>
    dsimp only
    cases readVarint mem p available <;> rfl
  | boolean value set =>
    dsimp only
    cases readVarint mem p available <;> rfl
  | fixed size value set =>
    dsimp only
    split <;> rfl
  | bytes value set => rfl

theorem Element.deserialize_definition (e : Element) (mem : Memory) (p : Nat) (available : UInt32) :
    (e.deserialize mem p available).1.definition = e.definition := by
  unfold deserialize
  cases e with
  | single value => exact congrArg Element.single (value.deserialize_definition mem p available)
  | repeated fresh elements =>
    dsimp only
    split <;> rfl

theorem Element.type_definition (e : Element) : IElement.type e.definition = IElement.type e := by
  cases e with
  | single value => exact value.type_definition
  | repeated fresh elements => rfl

theorem Element.deserialize_consumes {e : Element} (h : e.Sized) (mem : Memory) (p : Nat) (available : UInt32) :
    ConsumesExactly mem (fun _ _ => True) p available (IElement.type e) (e.deserialize mem p available).2 := by
  unfold deserialize
  cases e with
  | single value => exact Scalar.deserialize_consumes (s := value) h mem p available
  | repeated fresh elements =>
    have hfresh := Scalar.deserialize_consumes (s := fresh) h mem p available
    dsimp only
    split <;> exact hfresh

instance : LawfulElement ScalarElement where
  Definition := Element
  definition e := e.element.definition
  reads _ _ _ _ := True
  total _ _ _ _ := (returns_pure.2 rfl : (pure _ : Comp _).Returns _).terminates
  keeps h := by
    rw [← returns_pure.1 h]
    exact Element.deserialize_definition _ _ _ _
  type_same {e e'} heq := by
    show IElement.type e.element = IElement.type e'.element
    rw [← e.element.type_definition, heq, e'.element.type_definition]
  reads_same _ := rfl
  consumes {_ _ _ e} _ h := by
    rw [← returns_pure.1 h]
    exact Element.deserialize_consumes e.sized _ _ _

end Ocdm.Protobuf
