/-
Fields that are taken whole (Protobuf.h). A field that a message takes whole in one buffer it takes whole wherever the
field lies, with the same effect (`Message.Field.takes`), so that the fields in front of a place of a buffer bring
`FromBuffer` there whatever is behind (`Message.ReadsWhole.passes`).
-/
import Ocdm.Protobuf.Local

namespace Ocdm.Protobuf

open Bytes Comp
open Wire (Varint IsPayload)

/-! ## Whole payloads -/

/-- A payload is whole where it lies inside the buffer, and what is behind a size can be read. -/
theorem Consumes.of_payload {mem : Memory} {reads : Nat → Nat → Prop} {p stop : Nat} {type : WireType}
    {payload : List UInt8} (hpayload : IsPayload 8 type.code payload) (hholds : Holds mem p payload)
    (hroom : p + payload.length ≤ stop)
    (hreads : ∀ size body, payload = size ++ body → Varint size body.length → type = .lengthDelimited →
      reads (p + size.length) (p + size.length + body.length)) :
    Consumes mem reads p stop type true (p + payload.length) := by
  cases type with
  | varint =>
    obtain ⟨hbs, height⟩ := hpayload
    exact .varint hbs height hholds hroom
  | fixed64 =>
    obtain _ | hlength := hpayload
    rw [hlength] at hroom ⊢
    exact .fixed64 hroom
  | lengthDelimited =>
    obtain _ | _ | @⟨size, body, hsize, height⟩ := hpayload
    have hbody := hreads size body rfl hsize rfl
    rw [List.length_append, ← Nat.add_assoc] at hroom ⊢
    exact .delimited hsize height ((holds_append ..).1 hholds).1 hroom hbody
  | fixed32 =>
    obtain _ | _ | _ | hlength := hpayload
    rw [hlength] at hroom ⊢
    exact .fixed32 hroom
  | groupStart => cases hpayload
  | groupEnd => cases hpayload
  | unnamed => cases hpayload

/-- Where a complete payload lies that can be read, it is taken whole. -/
theorem Consumes.complete {limit : Nat} {mem : Memory} {reads : Nat → Nat → Prop} {p stop q : Nat} {type : WireType}
    {whole : Bool} {payload : List UInt8} (h : Consumes mem reads p stop type whole q)
    (hpayload : IsPayload limit type.code payload) (hholds : Holds mem p payload) (hroom : p + payload.length ≤ stop)
    (hbig : stop - p < 2 ^ 32)
    (hreads : ∀ size body, payload = size ++ body → Varint size body.length → type = .lengthDelimited →
      reads (p + size.length) (p + size.length + body.length)) : q = p + payload.length := by
  cases h with
  | varint hbs _ hbsHolds _ =>
    obtain ⟨hpayload, -⟩ := hpayload
    rw [(varint_unique hbs hpayload hbsHolds hholds).1]
  | fixed64 _ =>
    obtain _ | hlength := hpayload
    rw [hlength]
  | fixed32 _ =>
    obtain _ | _ | _ | hlength := hpayload
    rw [hlength]
  | delimited hs _ hsHolds _ _ =>
    obtain _ | _ | ⟨hpayload, -⟩ := hpayload
    obtain ⟨rfl, rfl⟩ := varint_unique hs hpayload hsHolds ((holds_append ..).1 hholds).1
    rw [List.length_append, Nat.add_assoc]
  | dropped hs _ hsHolds _ hno =>
    obtain _ | _ | ⟨hpayload, -⟩ := hpayload
    obtain ⟨rfl, rfl⟩ := varint_unique hs hpayload hsHolds ((holds_append ..).1 hholds).1
    rw [List.length_append] at hroom
    rw [Nat.mod_eq_of_lt (by omega)] at hno
    exact absurd ⟨by omega, hreads _ _ rfl hpayload rfl⟩ hno
  | wrapped hs _ hsHolds hlong _ _ =>
    obtain _ | _ | ⟨hpayload, -⟩ := hpayload
    obtain ⟨rfl, rfl⟩ := varint_unique hs hpayload hsHolds ((holds_append ..).1 hholds).1
    rw [List.length_append] at hroom
    omega

theorem code_type {limit code : Nat} {payload : List UInt8} (h : IsPayload limit code payload) :
    ∃ type : WireType, type.code = code := by
  cases h with
  | varint => exact ⟨.varint, rfl⟩
  | fixed64 => exact ⟨.fixed64, rfl⟩
  | delimited => exact ⟨.lengthDelimited, rfl⟩
  | fixed32 => exact ⟨.fixed32, rfl⟩

/-- A whole payload is skipped. -/
theorem skip_payload {mem : Memory} {p : Nat} {available : UInt32} {type : WireType} {payload : List UInt8}
    (hpayload : IsPayload 8 type.code payload) (hholds : Holds mem p payload)
    (hroom : payload.length ≤ available.toNat) : (skip mem p available type).toNat = payload.length := by
  have hconsumes : Consumes mem (fun _ _ => True) p (p + available.toNat) type true (p + payload.length) :=
    .of_payload hpayload hholds (Nat.add_le_add_left hroom p) fun _ _ _ _ _ => trivial
  have hskip := ((skip_consumes mem p available type _).1 ⟨true, hconsumes⟩).2
  omega

/-! ## Fields that are taken the same way everywhere -/

section

variable {E : Type} [IElement E] [LawfulElement E] [LocalElement E] {m m' : Message E}

/-- The message takes these bytes as one field, whatever is around them, and is `m'` then. -/
def Message.Takes (m : Message E) (f : List UInt8) (m' : Message E) : Prop :=
  ∀ (mem : Memory) (ptr stop : Nat), Holds mem ptr f → ptr + f.length ≤ stop → stop - ptr < 2 ^ 32 →
    (fromBufferPass mem stop ⟨ptr, m⟩).Returns (.again ⟨ptr + f.length, m'⟩)

theorem fromField_moved {limit : Nat} {mem mem' : Memory} {p p' : Nat} {available available' : UInt32} {type : WireType}
    {key : UInt32} {payload : List UInt8} {r : Message E × UInt32} (hpayload : IsPayload limit type.code payload)
    (hholds : Holds mem p payload) (hholds' : Holds mem' p' payload) (hroom : payload.length ≤ available.toNat)
    (hroom' : payload.length ≤ available'.toNat) (h : (fromField mem p available type key m).Returns r)
    (htaken : r.2.toNat = payload.length) : (fromField mem' p' available' type key m).Returns r := by
  have hpos := hpayload.length_pos
  unfold fromField
  rcases fromField_cases h with ⟨-, hzero⟩ | ⟨hkey, hnone, rfl⟩ | ⟨entry, e, hkey, hentry, rfl, he, hm⟩
  · rw [hzero] at htaken
    exact absurd htaken.symm (Nat.ne_of_gt hpos)
  · rw [if_pos hkey, hnone]
    dsimp only
    rw [skip_moved hpayload hholds hholds' hroom hroom' htaken]
    exact returns_pure.2 rfl
  · rw [if_pos hkey, hentry]
    dsimp only
    rw [if_pos rfl]
    exact (LocalElement.moved hpayload hholds hholds' hroom hroom' he htaken).bind (returns_pure.2 (by rw [← hm]))

/-- What a field does in one place it does in every place. -/
theorem Message.takes_of {mem : Memory} {p : Nat} {available : UInt32} {type : WireType} {number : Nat}
    {tag payload : List UInt8} {n : UInt32} (htag : Varint tag (number * 8 + type.code)) (height : tag.length ≤ 8)
    (hpayload : IsPayload 8 type.code payload) (hholds : Holds mem p payload) (hroom : payload.length ≤ available.toNat)
    (h : (fromField mem p available type (u32 number) m).Returns (m', n)) (htaken : n.toNat = payload.length) :
    m.Takes (tag ++ payload) m' := by
  intro mem' ptr stop hholds' hstop hbig
  have htype : type ≠ .unnamed := by
    rintro rfl
    cases hpayload
  have hcode := type.code_lt
  have hpos := htag.length_pos
  have hpayloadPos := hpayload.length_pos
  rw [holds_append] at hholds'
  rw [List.length_append] at hstop ⊢
  have hleft : (u32 (stop - ptr)).toNat = stop - ptr := u32_eq (by omega) (by omega)
  obtain ⟨v, k, hread, hvalue, hk⟩ := readVarint_of_varint (u32 (stop - ptr)) htag hholds'.1 height (by omega)
  have hbehind : (u32 (stop - ptr - k.toNat)).toNat = stop - ptr - k.toNat := u32_eq (by omega) (by omega)
  have hofTag : WireType.ofTag v = type := (WireType.ofTag_eq htype).2 (by omega)
  have hnumber : (v >>> 3).toNat = number := by
    rw [tag_number]
    omega
  have hfield : (fromField mem' (ptr + k.toNat) (u32 (stop - ptr - k.toNat)) (WireType.ofTag v) (u32 (v >>> 3).toNat)
      m).Returns (m', n) := by
    rw [hofTag, hnumber]
    exact fromField_moved hpayload hholds (hk ▸ hholds'.2) hroom (by omega) h htaken
  have hpass := fromBufferPass_returns (s := ⟨ptr, m⟩) (by dsimp only; omega) hread hfield
  have hne : n ≠ 0 := u32_ne_zero (by omega)
  rw [if_neg hne] at hpass
  rw [← Nat.add_assoc, ← hk, ← htaken]
  exact hpass

/-- A field that is taken whole in one buffer is taken so everywhere. -/
theorem Message.Field.takes {mem : Memory} {stop p q : Nat} (hbig : stop - p < 2 ^ 32) (h : m.Field mem stop p true q) :
    ∃ f m', Holds mem p f ∧ p + f.length = q ∧ m.Takes f m' ∧ m'.definition = m.definition := by
  have hbounds := h.bounds
  obtain ⟨tag, number, type, htag, height, hholds, hnumber, htype, hconsumes⟩ := h
  obtain ⟨payload, hpayload, hpayloadHolds, hq, hle⟩ := hconsumes.payload
  have hpos := htag.length_pos
  have havailable : (u32 (stop - p - tag.length)).toNat = stop - p - tag.length := u32_eq (by omega) (by omega)
  obtain ⟨⟨m', n⟩, hr⟩ := fromField_total mem (p + tag.length) (u32 (stop - p - tag.length)) type (u32 number) m
  have htaken := (fromField_consumes hr q).2 ⟨(key_ne_zero number).2 hnumber, by rwa [key_index], true, by
    rw [key_index, havailable, show p + tag.length + (stop - p - tag.length) = stop by omega]
    exact hconsumes⟩
  dsimp only at htaken
  refine ⟨tag ++ payload, m', (holds_append ..).2 ⟨hholds, hpayloadHolds⟩, by rw [List.length_append]; omega, ?_,
    fromField_keeps hr⟩
  exact Message.takes_of htag height hpayload hpayloadHolds (by omega) hr (by omega)

/-- The fields of these bytes are taken one after another, each of them whole. -/
def Message.ReadsWhole (m : Message E) (bytes : List UInt8) : Prop :=
  Relation.ReflTransGen (fun p q => m.Field (place 0 bytes 0) bytes.length p true q) 0 bytes.length

/-- Behind fields that are taken whole the message is the same, whatever follows them. -/
theorem Message.ReadsWhole.passes {bytes : List UInt8} (hsmall : bytes.length < 2 ^ 32) (h : m.ReadsWhole bytes) :
    ∃ m', m'.definition = m.definition ∧ ∀ (mem : Memory) (data stop : Nat), Holds mem data bytes →
      data + bytes.length ≤ stop → stop - data < 2 ^ 32 →
      Passes (fromBufferPass mem stop) ⟨data, m⟩ ⟨data + bytes.length, m'⟩ := by
  have hplace := holds_place 0 bytes 0
  suffices hwalk : ∀ q, Relation.ReflTransGen (fun p q => m.Field (place 0 bytes 0) bytes.length p true q) 0 q →
      ∃ m', m'.definition = m.definition ∧ ∀ (mem : Memory) (data stop : Nat), Holds mem data bytes →
        data + bytes.length ≤ stop → stop - data < 2 ^ 32 →
        Passes (fromBufferPass mem stop) ⟨data, m⟩ ⟨data + q, m'⟩ from hwalk _ h
  intro q hwalk
  induction hwalk with
  | refl => exact ⟨m, rfl, fun _ _ _ _ _ _ => .refl⟩
  | @tail q q' _ hfield ih =>
    obtain ⟨m', hdefinition, hpasses⟩ := ih
    obtain ⟨f, m'', hholds, rfl, htakes, hsame⟩ := (hfield.same hdefinition.symm).takes (by omega)
    refine ⟨m'', hsame.trans hdefinition,
      fun mem data stop hmem hstop hbig => (hpasses mem data stop hmem hstop hbig).tail ?_⟩
    have hend := hfield.bounds.2
    have hheld : Holds mem (data + q) f := holds_of_get fun i hi => by
      have hsame := hplace.agree hmem (q + i) (by omega)
      rw [← Nat.add_assoc, Nat.zero_add, hholds.get hi] at hsame
      exact hsame
    rw [← Nat.add_assoc]
    exact htakes mem (data + q) stop hheld (by omega) (by omega)

end

end Ocdm.Protobuf
