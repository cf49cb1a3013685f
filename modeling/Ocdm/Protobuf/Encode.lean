/-
What the decoder makes of protobuf's wire encoding: a varint, a length-delimited, a fixed and a
skipped payload each take exactly their own bytes, and a message whose elements take the payloads of
a list of fields one after another is filled by the encoding of that list (`fromBuffer_encode`).
Varints are below `2 ^ 56`, which is as far as the eight bytes of `ReadVarint` reach.
-/
import Ocdm.Protobuf.Varint

namespace Ocdm.Protobuf

open Bytes Comp
open Wire (Varint)

/-! ## The wire encoding -/

/-- The varint of a number: seven bits a byte, the lowest first, and the high bit set on all bytes
but the last. -/
def encodeVarint (v : Nat) : List UInt8 :=
  if v < 128 then [UInt8.ofNat v] else UInt8.ofNat (v % 128 + 128) :: encodeVarint (v / 128)
termination_by v
decreasing_by omega

/-- The payload of a field, by wire type. -/
inductive Payload where
  | varint (value : Nat) (small : value < 2 ^ 56)
  | fixed64 (value : Vector UInt8 8)
  | bytes (value : List UInt8)
  | fixed32 (value : Vector UInt8 4)

namespace Payload

def type : Payload → WireType
  | .varint .. => .varint
  | .fixed64 _ => .fixed64
  | .bytes _ => .lengthDelimited
  | .fixed32 _ => .fixed32

/-- The number of the wire type. -/
def code : Payload → Nat
  | .varint .. => 0
  | .fixed64 _ => 1
  | .bytes _ => 2
  | .fixed32 _ => 5

def encode : Payload → List UInt8
  | .varint value _ => encodeVarint value
  | .fixed64 value => value.toList
  | .bytes value => encodeVarint value.length ++ value
  | .fixed32 value => value.toList

end Payload

/-- A field; its number is one of those that fit the 8-bit index of an element. -/
structure Field where
  number : Nat
  payload : Payload
  pos : 0 < number
  small : number < 256

def Field.tag (f : Field) : Nat := f.number * 8 + f.payload.code

def Field.encode (f : Field) : List UInt8 := encodeVarint f.tag ++ f.payload.encode

/-- The encoding of a message with these fields, in this order. -/
def encode (fields : List Field) : List UInt8 := fields.flatMap Field.encode

/-! ## Varints -/

theorem encodeVarint_small {v : Nat} (h : v < 128) : encodeVarint v = [UInt8.ofNat v] := by
  rw [encodeVarint, if_pos h]

theorem encodeVarint_big {v : Nat} (h : ¬ v < 128) :
    encodeVarint v = UInt8.ofNat (v % 128 + 128) :: encodeVarint (v / 128) := by
  rw [encodeVarint, if_neg h]

theorem encodeVarint_pos (v : Nat) : 0 < (encodeVarint v).length := by
  rw [encodeVarint]; split <;> simp

theorem encodeVarint_length {k v : Nat} (h : v < 2 ^ (7 * (k + 1))) : (encodeVarint v).length ≤ k + 1 := by
  induction k generalizing v with
  | zero => rw [encodeVarint_small (by omega)]; simp
  | succ k ih =>
    by_cases hv : v < 128
    · rw [encodeVarint_small hv]; simp
    · rw [encodeVarint_big hv, List.length_cons]
      have hpow : 2 ^ (7 * (k + 1 + 1)) = 2 ^ (7 * (k + 1)) * 128 := by
        rw [show 7 * (k + 1 + 1) = 7 * (k + 1) + 7 by omega, Nat.pow_add]
      have := ih (v := v / 128) (by omega)
      omega

theorem encodeVarint_varint (v : Nat) : Varint (encodeVarint v) v := by
  induction v using encodeVarint.induct with
  | case1 v hv =>
    rw [encodeVarint_small hv]
    have hb : (UInt8.ofNat v).toNat = v := by rw [UInt8.toNat_ofNat']; omega
    have hlast := Varint.last (b := UInt8.ofNat v) (by omega)
    rwa [hb] at hlast
  | case2 v hv ih =>
    rw [encodeVarint_big hv]
    have hb : (UInt8.ofNat (v % 128 + 128)).toNat = v % 128 + 128 := by rw [UInt8.toNat_ofNat']; omega
    have hmore := Varint.more (b := UInt8.ofNat (v % 128 + 128)) (by omega) ih
    rwa [hb, show (v % 128 + 128) % 128 + 128 * (v / 128) = v by omega] at hmore

theorem readVarint_encode {mem : Memory} {data v : Nat} (length : UInt32) (hv : v < 2 ^ 56)
    (h : Holds mem data (encodeVarint v)) (hl : (encodeVarint v).length ≤ length.toNat) :
    ∃ r n, readVarint mem data length = some (r, n) ∧ r.toNat = v ∧ n.toNat = (encodeVarint v).length :=
  readVarint_of_varint length (encodeVarint_varint v) h (encodeVarint_length hv) hl

/-- A varint of a number from `2 ^ 56` on is longer than `ReadVarint` reads. -/
theorem readVarint_long {mem : Memory} {data v : Nat} (length : UInt32) (hv : 2 ^ 56 ≤ v)
    (h : Holds mem data (encodeVarint v)) : readVarint mem data length = none := by
  cases hread : readVarint mem data length with
  | none => rfl
  | some r =>
    obtain ⟨bs, hbs, hholds, -, height, -⟩ := readVarint_varint hread
    obtain ⟨rfl, hvalue⟩ := varint_unique hbs (encodeVarint_varint v) hholds h
    have hlt := hbs.lt
    have hpow := Nat.pow_le_pow_right (show 0 < 2 by decide) (show 7 * (encodeVarint v).length ≤ 56 by omega)
    omega

/-- A varint that is cut off is not read. -/
theorem readVarint_cut {mem : Memory} {data v : Nat} {length : UInt32} {bs : List UInt8} (hcut : bs <+: encodeVarint v)
    (hne : bs ≠ encodeVarint v) (h : Holds mem data bs) (hlength : length.toNat = bs.length) :
    readVarint mem data length = none := by
  cases hread : readVarint mem data length with
  | none => rfl
  | some r =>
    -- what is read begins the encoding, so it is all of it
    obtain ⟨read, hread, hholds, -, -, hle⟩ := readVarint_varint hread
    have hbegins := hholds.begins h (by omega)
    obtain ⟨rest, hrest⟩ := hbegins.trans hcut
    obtain ⟨rfl, -⟩ := hread.unique (encodeVarint_varint v) (hrest.trans (List.append_nil _).symm)
    exact absurd (hcut.eq_of_length (Nat.le_antisymm hcut.length_le hbegins.length_le)) hne

/-- The encoding of `v` with `t` behind it is read as `v` and is taken alone, and what only begins it is refused. -/
structure RoundTrips (v : UInt64) (t : List UInt8) : Prop where
  reads : ∀ (mem : Memory) (data : Nat) (length : UInt32), Holds mem data (encodeVarint v.toNat ++ t) →
    length.toNat = (encodeVarint v.toNat ++ t).length →
    ∃ n, readVarint mem data length = some (v, n) ∧ n.toNat = (encodeVarint v.toNat).length
  refuses : ∀ (bs : List UInt8) (mem : Memory) (data : Nat) (length : UInt32), bs <+: encodeVarint v.toNat →
    bs ≠ encodeVarint v.toNat → Holds mem data bs → length.toNat = bs.length → readVarint mem data length = none

/-- `ReadVarint` allows eight bytes, the size of the value, where an encoding has up to ten: the numbers below `2 ^ 56`
come back and no others. -/
theorem roundTrips_iff (v : UInt64) (t : List UInt8) (ht : t.length + 10 < 2 ^ 32) :
    RoundTrips v t ↔ v.toNat < 2 ^ 56 := by
  constructor
  · intro h
    by_contra hbig
    have hten := encodeVarint_length (k := 9) (v := v.toNat) (Nat.lt_trans v.toNat_lt (by decide))
    have hholds := holds_place 0 (encodeVarint v.toNat ++ t) 0
    obtain ⟨n, hread, -⟩ := h.reads _ 0 (u32 (encodeVarint v.toNat ++ t).length) hholds
      (u32_eq rfl (by rw [List.length_append]; omega))
    rw [readVarint_long _ (Nat.le_of_not_lt hbig) ((holds_append _ _ _).1 hholds).1] at hread
    cases hread
  · intro hsmall
    refine ⟨fun mem data length h hlength => ?_, fun bs mem data length => readVarint_cut⟩
    rw [List.length_append] at hlength
    obtain ⟨r, n, hread, hvalue, hn⟩ := readVarint_encode length hsmall ((holds_append _ _ _).1 h).1 (by omega)
    rw [UInt64.toNat_inj.1 hvalue] at hread
    exact ⟨n, hread, hn⟩

theorem roundTrips_300 : RoundTrips 300 [0x2A] := (roundTrips_iff 300 [0x2A] (by decide)).2 (by decide)

/-- The first number of nine bytes is not read back. -/
theorem not_roundTrips_nine : ¬ RoundTrips 0x100000000000000 [] := fun h => by
  have hholds := holds_place 0 (encodeVarint 0x100000000000000) 0
  have hnine := encodeVarint_length (k := 8) (v := 0x100000000000000) (by decide)
  obtain ⟨n, hread, -⟩ := h.reads _ 0 (u32 (encodeVarint 0x100000000000000).length)
    (by rw [List.append_nil]; exact hholds)
    (by rw [List.append_nil]; exact u32_eq rfl (Nat.lt_of_le_of_lt hnine (by decide)))
  rw [readVarint_long _ (Nat.le_refl _) hholds] at hread
  cases hread

/-! ## Payloads -/

theorem Payload.code_lt (p : Payload) : p.code < 8 := by cases p <;> simp [code]

theorem Payload.encode_pos (p : Payload) : 0 < p.encode.length := by
  cases p with
  | varint value small => exact encodeVarint_pos value
  | fixed64 value => simp [encode]
  | bytes value => have := encodeVarint_pos value.length; simp [encode]; omega
  | fixed32 value => simp [encode]

/-- The element `s` reads the payload `p`, whatever memory holds it, takes exactly its bytes and is
`s'` then. -/
def Scalar.Reads (s : Scalar) (p : Payload) (s' : Scalar) : Prop :=
  ∀ (mem : Memory) (data : Nat) (length : UInt32), Holds mem data p.encode → p.encode.length ≤ length.toNat →
    ∃ n, s.deserialize mem data length = (s', n) ∧ n.toNat = p.encode.length

namespace Scalar

theorem reads_varint {v : Nat} (hv : v < 2 ^ 56) (bits : Nat) (value : UInt64) (set : Bool) :
    (Scalar.varint bits value set).Reads (.varint v hv) (.varint bits (UInt64.ofNat (v % 2 ^ bits)) true) := by
  intro mem data length h hl
  obtain ⟨r, n, hr, hval, hn⟩ := readVarint_encode length hv h hl
  simp only [deserialize, hr]
  exact ⟨_, by rw [hval], by rw [UInt8.toNat_toUInt32, hn]; rfl⟩

theorem reads_fixed {size : Nat} {p : Payload} (hp : p.encode.length = size) (value : List UInt8) (set : Bool) :
    (Scalar.fixed size value set).Reads p (.fixed size p.encode true) := by
  intro mem data length h hl
  have hlt := length.toNat_lt
  simp only [deserialize, if_pos (show size ≤ length.toNat by omega)]
  exact ⟨_, by rw [← hp, h.slice_eq], u32_eq (by rw [hp]) (by omega)⟩

theorem reads_bytes (bs value : List UInt8) (set : Bool) :
    (Scalar.bytes value set).Reads (.bytes bs) (.bytes (value ++ bs) set) := by
  intro mem data length h hl
  rw [Payload.encode, holds_append] at h
  rw [Payload.encode, List.length_append] at hl ⊢
  have hlt := length.toNat_lt
  obtain ⟨r, n, hr, hval, hn⟩ := readVarint_encode (v := bs.length) length (by omega) h.1 (by omega)
  have hsize : (u32 r.toNat).toNat = bs.length := u32_eq (by omega) (by omega)
  simp only [deserialize, deserializeBytes, hr]
  by_cases he : bs = []
  · -- a length of zero: the prefix is all there is
    subst he
    have hzero : u32 r.toNat = 0 := by rw [← UInt32.toNat_inj, hsize]; rfl
    rw [if_neg (by rw [hzero]; simp)]
    exact ⟨_, rfl, by rw [UInt8.toNat_toUInt32, hn]; rfl⟩
  · have hne : u32 r.toNat ≠ 0 := fun hz => he (List.eq_nil_of_length_eq_zero (by rw [← hsize, hz]; rfl))
    have hle : u32 r.toNat ≤ length := by rw [UInt32.le_iff_toNat_le, hsize]; omega
    rw [if_pos ⟨hne, hle, by omega⟩, hsize, hn, h.2.slice_eq]
    exact ⟨_, rfl, u32_eq (by omega) (by omega)⟩

end Scalar

/-- `Skip` takes exactly the payload. -/
theorem skip_encode {mem : Memory} {data : Nat} {length : UInt32} (p : Payload) (h : Holds mem data p.encode)
    (hl : p.encode.length ≤ length.toNat) : (skip mem data length p.type).toNat = p.encode.length := by
  have hread : ∀ {s s' : Scalar}, s.Reads p s' → (s.deserialize mem data length).2.toNat = p.encode.length := by
    intro s s' hs
    obtain ⟨n, hr, hn⟩ := hs mem data length h hl
    rw [hr, hn]
  cases p with
  | varint value small => exact hread (Scalar.reads_varint small 64 0 false)
  | fixed64 value => exact hread (Scalar.reads_fixed (by simp [Payload.encode]) [] false)
  | bytes value => exact hread (Scalar.reads_bytes value [] false)
  | fixed32 value => exact hread (Scalar.reads_fixed (by simp [Payload.encode]) [] false)

/-! ## Messages -/

section FromBuffer

variable {E : Type} [IElement E]

/-- The message `m` takes the payload of `f`, whatever memory holds it, and is `m'` then. -/
def Takes (f : Field) (m m' : Message E) : Prop :=
  ∀ (mem : Memory) (ptr : Nat) (available : UInt32), Holds mem ptr f.payload.encode →
    f.payload.encode.length ≤ available.toNat →
    ∃ n, (fromField mem ptr available f.payload.type (u32 f.number) m).Returns (m', n) ∧
      n.toNat = f.payload.encode.length

theorem Field.key_ne_zero (f : Field) : u32 f.number ≠ 0 := by
  have hs := f.small
  have hp := f.pos
  exact (Protobuf.key_ne_zero f.number).2 (by omega)

theorem takes_known {f : Field} {m : Message E} {e e' : E} {required : Bool}
    (hm : m.lookup (UInt8.ofNat f.number) = some ⟨e, required⟩) (htype : IElement.type e = f.payload.type)
    (hread : ∀ (mem : Memory) (ptr : Nat) (available : UInt32), Holds mem ptr f.payload.encode →
      f.payload.encode.length ≤ available.toNat →
      ∃ n, (IElement.deserialize mem ptr available e).Returns (e', n) ∧ n.toNat = f.payload.encode.length) :
    Takes f m (m.set (UInt8.ofNat f.number) e') := by
  intro mem ptr available h hl
  obtain ⟨n, hr, hn⟩ := hread mem ptr available h hl
  refine ⟨n, ?_, hn⟩
  simp only [fromField, if_pos f.key_ne_zero, key_index, hm, htype, if_true]
  exact hr.bind (returns_pure.2 rfl)

theorem takes_unknown {f : Field} {m : Message E} (hm : m.lookup (UInt8.ofNat f.number) = none) : Takes f m m := by
  intro mem ptr available h hl
  refine ⟨_, ?_, skip_encode f.payload h hl⟩
  simp only [fromField, if_pos f.key_ne_zero, key_index, hm]
  exact returns_pure.2 rfl

theorem takes_single {f : Field} {m : Message Element} {s s' : Scalar} {required : Bool}
    (hm : m.lookup (UInt8.ofNat f.number) = some ⟨.single s, required⟩) (htype : s.type = f.payload.type)
    (hread : s.Reads f.payload s') : Takes f m (m.set (UInt8.ofNat f.number) (.single s')) := by
  refine takes_known hm htype fun mem ptr available h hl => ?_
  obtain ⟨n, hr, hn⟩ := hread mem ptr available h hl
  refine ⟨n, returns_pure.2 ?_, hn⟩
  rw [Element.deserialize, hr]

theorem takes_repeated {f : Field} {m : Message Element} {fresh s' : Scalar} {elements : List Scalar} {required : Bool}
    (hm : m.lookup (UInt8.ofNat f.number) = some ⟨.repeated fresh elements, required⟩)
    (htype : fresh.type = f.payload.type) (hread : fresh.Reads f.payload s') :
    Takes f m (m.set (UInt8.ofNat f.number) (.repeated fresh (elements ++ [s']))) := by
  refine takes_known hm htype fun mem ptr available h hl => ?_
  obtain ⟨n, hr, hn⟩ := hread mem ptr available h hl
  have hpos := f.payload.encode_pos
  have hne : n ≠ 0 := fun hz => by rw [hz] at hn; have : (0 : UInt32).toNat = 0 := rfl; omega
  refine ⟨n, returns_pure.2 ?_, hn⟩
  rw [Element.deserialize, hr, if_pos hne]

theorem Payload.type_code (p : Payload) : p.type.code = p.code := by cases p <;> rfl

theorem WireType.ofTag_code {tag : UInt64} {number : Nat} (p : Payload) (h : tag.toNat = number * 8 + p.code) :
    WireType.ofTag tag = p.type := by
  have hlt := p.code_lt
  refine (ofTag_eq (by cases p <;> exact nofun)).2 ?_
  rw [p.type_code]
  omega

/-- One pass of `FromBuffer` takes one field. -/
theorem fromBufferPass_field {mem : Memory} {stop ptr : Nat} {f : Field} {m m' : Message E} (ht : Takes f m m')
    (h : Holds mem ptr f.encode) (hstop : ptr + f.encode.length ≤ stop) (hbig : stop - ptr < 4294967296) :
    (fromBufferPass mem stop ⟨ptr, m⟩).Returns (.again ⟨ptr + f.encode.length, m'⟩) := by
  have hcode := f.payload.code_lt
  have hsmall := f.small
  have hpay := f.payload.encode_pos
  rw [Field.encode, holds_append] at h
  rw [Field.encode, List.length_append] at hstop ⊢
  have hlen : (u32 ((stop : Int) - ptr)).toNat = stop - ptr := u32_eq (by omega) hbig
  obtain ⟨tag, tagSize, hr, htag, hsize⟩ := readVarint_encode (v := f.tag) (u32 (stop - ptr))
    (by unfold Field.tag; omega) h.1 (by rw [hlen]; omega)
  rw [← hsize] at h hstop ⊢
  have hkey : u32 (tag >>> 3).toNat = u32 f.number := by
    have hnumber : (tag >>> 3).toNat = f.number := by
      rw [tag_number, htag, Field.tag]
      omega
    rw [hnumber]
  obtain ⟨n, hn, hnlen⟩ := ht mem (ptr + tagSize.toNat) (u32 (stop - ptr - tagSize.toNat)) h.2
    (by rw [u32_eq (n := stop - ptr - tagSize.toNat) (by omega) (by omega)]; omega)
  have hne : n ≠ 0 := fun hz => by rw [hz] at hnlen; have : (0 : UInt32).toNat = 0 := rfl; omega
  rw [fromBufferPass, if_pos (show ptr < stop by omega)]
  simp only [hr]
  refine Returns.bind (a := (m', n)) ?_ ?_
  · rw [hkey, WireType.ofTag_code f.payload htag]; exact hn
  · rw [if_neg hne, returns_pure, hnlen, Nat.add_assoc]

section Run

variable {α : Type} (field : α → Field) (P : List α → Message E → Prop)
  (hstep : ∀ a rest m, P (a :: rest) m → ∃ m', Takes (field a) m m' ∧ P rest m')

include hstep

theorem scan_encode {mem : Memory} {stop ptr : Nat} {fields : List α} {m : Message E} (hP : P fields m)
    (h : Holds mem ptr (encode (fields.map field))) (hend : ptr + (encode (fields.map field)).length = stop)
    (hbig : (encode (fields.map field)).length < 4294967296) :
    ∃ m', (loop (fromBufferPass mem stop) ⟨ptr, m⟩).Returns (true, m') ∧ P [] m' := by
  induction fields generalizing m ptr with
  | nil =>
    have hout : ¬ ptr < stop := by simp [encode] at hend; omega
    exact ⟨m, loop_done (by rw [fromBufferPass, if_neg hout, returns_pure]), hP⟩
  | cons a rest ih =>
    obtain ⟨m1, ht, hP1⟩ := hstep a rest m hP
    have hcons : encode ((a :: rest).map field) = (field a).encode ++ encode (rest.map field) := rfl
    rw [hcons, List.length_append] at hbig hend
    rw [hcons, holds_append] at h
    obtain ⟨m', hr, hP'⟩ := ih hP1 h.2 (by omega) (by omega)
    exact ⟨m', loop_again (fromBufferPass_field ht h.1 (by omega) (by omega)) hr, hP'⟩

/-- The run over a list of fields: what each field preserves of the message and the fields to come
holds of the message filled, with no field left. -/
theorem fromBuffer_encode {mem : Memory} {data : Nat} {length : UInt32} {fields : List α} {m : Message E}
    (hP : P fields m) (h : Holds mem data (encode (fields.map field)))
    (hlen : length.toNat = (encode (fields.map field)).length) :
    ∃ m', (fromBuffer mem data length m).Returns (true, m') ∧ P [] m' := by
  have hlt := length.toNat_lt
  exact scan_encode field P hstep hP h (by rw [hlen]) (by omega)

end Run

end FromBuffer

end Ocdm.Protobuf
