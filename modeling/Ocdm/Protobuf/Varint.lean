/-
What `ReadVarint` reads of memory (Protobuf.h): the varints of at most eight bytes that lie in what it may read, and no
other bytes (`readVarint_varint`, `readVarint_of_varint`); and what `FromBuffer` takes from a tag.
-/
import Ocdm.Lib.Wire
import Ocdm.Protobuf.Message
import Mathlib.Tactic.Ring

namespace Ocdm.Protobuf

open Bytes
open Wire (Varint)

/-! ## The bits of a byte -/

/-- The seven bits of a byte. -/
theorem and_0x7F (b : UInt8) : (b &&& 0x7F).toNat = b.toNat % 128 := by
  rw [UInt8.toNat_and, show (0x7F : UInt8).toNat = 2 ^ 7 - 1 from rfl, Nat.and_two_pow_sub_one_eq_mod]

/-- The high bit of a byte. -/
theorem and_0x80 (b : UInt8) : b &&& 0x80 = 0 ↔ b.toNat < 128 := by
  rw [← UInt8.toNat_inj, UInt8.toNat_and, show (0x80 : UInt8).toNat = 2 ^ 7 from rfl, Nat.and_two_pow,
    Nat.testBit_eq_decide_div_mod_eq]
  have := b.toNat_lt
  by_cases h : b.toNat < 128
  · simp [show b.toNat / 128 = 0 by omega, h]
  · simp [show b.toNat / 128 = 1 by omega, h]

/-- Seven more bits above the `k` bits read so far. -/
theorem or_shift (acc : UInt64) (b shift : UInt8) (hs : shift.toNat + 7 ≤ 64) (hacc : acc.toNat < 2 ^ shift.toNat) :
    (acc ||| (b &&& 0x7F).toUInt64 <<< shift.toUInt64).toNat = acc.toNat + b.toNat % 128 * 2 ^ shift.toNat := by
  have hfit : b.toNat % 128 * 2 ^ shift.toNat < 2 ^ 64 := by
    calc b.toNat % 128 * 2 ^ shift.toNat < 2 ^ 7 * 2 ^ shift.toNat :=
          Nat.mul_lt_mul_of_pos_right (Nat.mod_lt _ (by decide)) (Nat.two_pow_pos _)
      _ = 2 ^ (7 + shift.toNat) := (Nat.pow_add ..).symm
      _ ≤ 2 ^ 64 := Nat.pow_le_pow_right (by decide) (by omega)
  rw [UInt64.toNat_or, UInt64.toNat_shiftLeft, UInt8.toNat_toUInt64, UInt8.toNat_toUInt64, and_0x7F,
    Nat.mod_eq_of_lt (show shift.toNat < 64 by omega), Nat.shiftLeft_eq, Nat.mod_eq_of_lt hfit, Nat.or_comm,
    or_eq_add_of_dvd shift.toNat (Nat.dvd_mul_left ..) hacc, Nat.add_comm]

/-! ## Reading a varint -/

theorem readVarintLoop_varint {mem : Memory} {stop : Nat} (size : Nat) :
    ∀ {ptr : Nat} {shift : UInt8} {acc v : UInt64} {q : Nat}, 7 * size + shift.toNat = 56 →
      acc.toNat < 2 ^ shift.toNat →
      readVarintLoop mem stop size ptr shift acc = some (v, q) →
      ∃ bs w, Varint bs w ∧ Holds mem ptr bs ∧ q = ptr + bs.length ∧ bs.length ≤ size ∧ q ≤ stop ∧
        v.toNat = acc.toNat + w * 2 ^ shift.toNat := by
  induction size with
  | zero => intro _ _ _ _ _ _ _ h; cases h
  | succ size ih =>
    intro ptr shift acc v q hsize hacc h
    rw [readVarintLoop] at h
    split at h
    · rename_i hlt
      have hor := or_shift acc (mem ptr) shift (by omega) hacc
      split at h
      · -- the last byte
        rename_i hlast
        rw [and_0x80] at hlast
        cases h
        refine ⟨[mem ptr], _, .last hlast, ⟨rfl, trivial⟩, rfl, by simp, hlt, ?_⟩
        rw [hor, Nat.mod_eq_of_lt hlast]
      · rename_i hmore
        rw [and_0x80] at hmore
        have hpow : 2 ^ (shift.toNat + 7) = 2 ^ shift.toNat * 128 := Nat.pow_add ..
        cases size with
        | zero => cases h
        | succ k =>
          have hshift : (shift + 7).toNat = shift.toNat + 7 := u8_add rfl (by omega)
          have hmul : (mem ptr).toNat % 128 * 2 ^ shift.toNat ≤ 127 * 2 ^ shift.toNat :=
            Nat.mul_le_mul_right _ (by omega)
          obtain ⟨bs, w, hbs, hholds, rfl, hlen, hstop, hv⟩ :=
            ih (by rw [hshift]; omega) (by rw [hor, hshift, hpow]; omega) h
          refine ⟨mem ptr :: bs, _, .more (by omega) hbs, ⟨rfl, hholds⟩, by rw [List.length_cons]; omega,
            by rw [List.length_cons]; omega, hstop, ?_⟩
          rw [hv, hor, hshift, hpow]
          ring
    · cases h

/-- What `ReadVarint` reads is a varint of at most eight bytes, wholly inside what it may read. -/
theorem readVarint_varint {mem : Memory} {data : Nat} {length : UInt32} {v : UInt64} {k : UInt8}
    (h : readVarint mem data length = some (v, k)) :
    ∃ bs, Varint bs v.toNat ∧ Holds mem data bs ∧ bs.length = k.toNat ∧ bs.length ≤ 8 ∧ bs.length ≤ length.toNat := by
  unfold readVarint at h
  obtain ⟨⟨v', q⟩, hloop, heq⟩ := Option.map_eq_some_iff.1 h
  cases heq
  obtain ⟨bs, w, hbs, hholds, rfl, hlen, hstop, hv⟩ := readVarintLoop_varint 8 rfl (by decide) hloop
  have hw : v'.toNat = w := by
    rw [hv]
    simp
  rw [hw]
  have hk : (u8 (((data + bs.length : Nat) : Int) - data)).toNat = bs.length := u8_eq (by omega) (by omega)
  exact ⟨bs, hbs, hholds, hk.symm, hlen, by omega⟩

theorem readVarintLoop_isSome {mem : Memory} (stop : Nat) {bs : List UInt8} {n : Nat} (hbs : Varint bs n) :
    ∀ {size ptr : Nat} (shift : UInt8) (acc : UInt64), Holds mem ptr bs → bs.length ≤ size → ptr + bs.length ≤ stop →
      ∃ r, readVarintLoop mem stop size ptr shift acc = some r := by
  induction hbs with
  | @last b hb =>
    intro size ptr shift acc hholds hsize hstop
    rw [List.length_singleton] at hsize hstop
    obtain ⟨size, rfl⟩ := Nat.exists_eq_add_one.2 hsize
    rw [readVarintLoop, if_pos (by omega), if_pos ((and_0x80 _).2 (by rw [hholds.1]; exact hb))]
    exact ⟨_, rfl⟩
  | @more b bs v hb _ ih =>
    intro size ptr shift acc hholds hsize hstop
    rw [List.length_cons] at hsize hstop
    obtain ⟨size, rfl⟩ := Nat.exists_eq_add_one.2 (Nat.zero_lt_of_lt hsize)
    have hmore : ¬ mem ptr &&& 0x80 = 0 := by
      rw [and_0x80, hholds.1]
      omega
    rw [readVarintLoop, if_pos (by omega), if_neg hmore]
    exact ih _ _ hholds.2 (by omega) (by omega)

/-- There is one varint at an address. -/
theorem varint_unique {mem : Memory} {p : Nat} {xs ys : List UInt8} {v w : Nat} (hx : Varint xs v) (hy : Varint ys w)
    (hxs : Holds mem p xs) (hys : Holds mem p ys) : xs = ys ∧ v = w := by
  have hsame : xs ++ slice mem (p + xs.length) ys.length = ys ++ slice mem (p + ys.length) xs.length := by
    rw [← hxs.slice_append, ← hys.slice_append, Nat.add_comm]
  exact hx.unique hy hsame

/-- A varint of at most eight bytes that lies in what may be read is read. -/
theorem readVarint_of_varint {mem : Memory} {data : Nat} (length : UInt32) {bs : List UInt8} {n : Nat}
    (hbs : Varint bs n) (hholds : Holds mem data bs) (height : bs.length ≤ 8) (hle : bs.length ≤ length.toNat) :
    ∃ v k, readVarint mem data length = some (v, k) ∧ v.toNat = n ∧ k.toNat = bs.length := by
  obtain ⟨⟨v, q⟩, hloop⟩ := readVarintLoop_isSome (data + length.toNat) hbs 0 0 hholds height (by omega)
  have hread : readVarint mem data length = some (v, u8 ((q : Int) - data)) := by
    unfold readVarint
    rw [hloop]
    rfl
  obtain ⟨bs', hbs', hholds', hlen, -⟩ := readVarint_varint hread
  obtain ⟨rfl, rfl⟩ := varint_unique hbs hbs' hholds hholds'
  exact ⟨v, _, hread, rfl, hlen.symm⟩

/-! ## Tags -/

def WireType.code : WireType → Nat
  | .varint => 0
  | .fixed64 => 1
  | .lengthDelimited => 2
  | .groupStart => 3
  | .groupEnd => 4
  | .fixed32 => 5
  | .unnamed => 6

theorem tag_mod (tag : UInt64) : (tag &&& 0x7).toNat = tag.toNat % 8 := by
  rw [UInt64.toNat_and, show (0x7 : UInt64).toNat = 2 ^ 3 - 1 from rfl, Nat.and_two_pow_sub_one_eq_mod]

theorem tag_number (tag : UInt64) : (tag >>> 3).toNat = tag.toNat / 8 := by
  rw [UInt64.toNat_shiftRight, Nat.shiftRight_eq_div_pow]
  rfl

theorem WireType.code_lt (type : WireType) : type.code < 8 := by cases type <;> decide

theorem WireType.ofTag_eq {tag : UInt64} {type : WireType} (h : type ≠ .unnamed) :
    ofTag tag = type ↔ tag.toNat % 8 = type.code := by
  unfold ofTag
  rw [tag_mod]
  have hlt : tag.toNat % 8 < 8 := Nat.mod_lt _ (by decide)
  generalize tag.toNat % 8 = code at hlt ⊢
  cases type with
  | unnamed => exact absurd rfl h
  | _ => revert code; decide

theorem u32_mod (number : Nat) : (u32 number).toNat = number % 2 ^ 32 := by
  have h := toNat_u32 (number : Int)
  omega

theorem u32_ne_zero {n : UInt32} (h : 0 < n.toNat) : n ≠ 0 := fun hzero => by
  rw [hzero] at h
  cases h

/-- The index a number is looked up under. -/
theorem key_index (number : Nat) : u8 (u32 number).toNat = UInt8.ofNat number := by
  rw [← UInt8.toNat_inj, UInt8.toNat_ofNat', u32_mod]
  have h := toNat_u8 ((number % 2 ^ 32 : Nat) : Int)
  omega

theorem key_ne_zero (number : Nat) : u32 number ≠ 0 ↔ number % 2 ^ 32 ≠ 0 := by
  rw [← u32_mod, not_iff_not, ← UInt32.toNat_inj]
  rfl

end Ocdm.Protobuf
