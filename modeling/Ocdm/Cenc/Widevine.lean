/-
`ParseWidevinePSSHData` on Widevine PSSH messages: whatever fields come in whatever order, the
decoder stays in step with them, and the key ids of field 2 are added, in order, and nothing else.
-/
import Ocdm.Cenc.Parser
import Ocdm.Protobuf.Encode

namespace Ocdm.Cenc

open Bytes Comp Protobuf Thunder

/-! ## Messages -/

/-- A field of a Widevine PSSH message. -/
inductive WidevineField where
  /-- field 2 -/
  | keyId (id : Vector UInt8 16)
  /-- `algorithm`, `crypto_period_index`, `protection_scheme`, `crypto_period_duration` -/
  | number (index : Nat) (declared : index ∈ [1, 7, 9, 10]) (value : Nat) (small : value < 2 ^ 56)
  /-- `provider`, `content_id`, `track_type`, `policy`, `grouped_license` -/
  | string (index : Nat) (declared : index ∈ [3, 4, 5, 6, 8]) (value : List UInt8)
  /-- a field the message does not register -/
  | other (index : Nat) (above : 10 < index) (small : index < 256) (payload : Payload)

namespace WidevineField

/-- The field on the wire. -/
def field : WidevineField → Field
  | .keyId id => ⟨2, .bytes id.toList, by decide, by decide⟩
  | .number index declared value small =>
    ⟨index, .varint value small, by revert declared; simp; omega, by revert declared; simp; omega⟩
  | .string index declared value =>
    ⟨index, .bytes value, by revert declared; simp; omega, by revert declared; simp; omega⟩
  | .other index above small payload => ⟨index, payload, by omega, small⟩

/-- The key id of a field 2. -/
def kid : WidevineField → Option (Vector UInt8 16)
  | .keyId id => some id
  | _ => none

end WidevineField

/-- The key ids of a message, in order. -/
def kidsOf (fields : List WidevineField) : List (Vector UInt8 16) := fields.filterMap WidevineField.kid

/-- The bytes of a message. -/
def widevineData (fields : List WidevineField) : List UInt8 := encode (fields.map WidevineField.field)

/-! ## Filling `WidevinePsshPB2` -/

/-- A `WidevinePsshPB2` that has read the key ids `ids`. -/
structure Filled (ids : List (Vector UInt8 16)) (m : Message Element) : Prop where
  keyIDs : m.lookup 2 = some ⟨.repeated .string (ids.map fun id => .bytes id.toList false), false⟩
  numbers : ∀ i ∈ [1, 7, 9, 10], ∃ v set, m.lookup (UInt8.ofNat i) = some ⟨.single (.varint 32 v set), false⟩
  strings : ∀ i ∈ [3, 4, 5, 6, 8], ∃ v set, m.lookup (UInt8.ofNat i) = some ⟨.single (.bytes v set), false⟩
  others : ∀ i, 10 < i → i < 256 → m.lookup (UInt8.ofNat i) = none
  optional : ∀ p ∈ m, p.2.required = false

theorem filled_fresh : Filled [] widevinePsshPB2 := by
  have hall : ∀ p ∈ widevinePsshPB2, p.1.toNat ≤ 10 ∧ p.2.required = false := by decide
  have hnumbers : ∀ i ∈ [1, 7, 9, 10], widevinePsshPB2.lookup (UInt8.ofNat i) = some ⟨.single .uInt32, false⟩ := by
    decide
  have hstrings : ∀ i ∈ [3, 4, 5, 6, 8], widevinePsshPB2.lookup (UInt8.ofNat i) = some ⟨.single .string, false⟩ := by
    decide
  refine ⟨by decide, fun i hi => ⟨0, false, hnumbers i hi⟩, fun i hi => ⟨[], false, hstrings i hi⟩, ?_,
    fun p hp => (hall p hp).2⟩
  intro i h10 h256
  rw [List.lookup_eq_none_iff]
  intro p hp
  have := (hall p hp).1
  rw [bne_iff_ne, ne_eq, ← UInt8.toNat_inj, UInt8.toNat_ofNat']
  omega

section

variable {ids : List (Vector UInt8 16)} {m : Message Element}

/-- The index of every registered field is its own. -/
theorem index_ne {i j : Nat} (hi : i ≤ 10) (hj : j ≤ 10) (hne : i ≠ j) : UInt8.ofNat i ≠ UInt8.ofNat j := by
  rw [ne_eq, ← UInt8.toNat_inj, UInt8.toNat_ofNat', UInt8.toNat_ofNat']
  omega

theorem Filled.others_set (h : Filled ids m) (j : UInt8) (e : Element) (i : Nat) (above : 10 < i) (small : i < 256) :
    (m.set j e).lookup (UInt8.ofNat i) = none := by
  rw [Message.lookup_set, h.others i above small]; simp

theorem Filled.set_keyIDs (h : Filled ids m) (id : Vector UInt8 16) :
    Filled (ids ++ [id]) (m.set (UInt8.ofNat 2)
      (.repeated .string ((ids.map fun id => .bytes id.toList false) ++ [.bytes id.toList false]))) := by
  refine ⟨?_, ?_, ?_, h.others_set _ _, Message.required_set h.optional _ _⟩
  · rw [Message.lookup_set, if_pos (by decide), h.keyIDs, List.map_append]; rfl
  · intro i hi
    have hne : UInt8.ofNat i ≠ UInt8.ofNat 2 := index_ne (by simp at hi; omega) (by omega) (by simp at hi; omega)
    rw [Message.lookup_set, if_neg hne]; exact h.numbers i hi
  · intro i hi
    have hne : UInt8.ofNat i ≠ UInt8.ofNat 2 := index_ne (by simp at hi; omega) (by omega) (by simp at hi; omega)
    rw [Message.lookup_set, if_neg hne]; exact h.strings i hi

theorem Filled.set_number (h : Filled ids m) {j : Nat} (hj : j ∈ [1, 7, 9, 10]) (value : UInt64) (set : Bool) :
    Filled ids (m.set (UInt8.ofNat j) (.single (.varint 32 value set))) := by
  have hsmall : j ≤ 10 ∧ j ≠ 2 := by simp at hj; omega
  refine ⟨?_, ?_, ?_, h.others_set _ _, Message.required_set h.optional _ _⟩
  · have hne : UInt8.ofNat 2 ≠ UInt8.ofNat j := index_ne (by omega) hsmall.1 (by omega)
    exact (Message.lookup_set ..).trans ((if_neg hne).trans h.keyIDs)
  · intro i hi
    obtain ⟨v, set', hv⟩ := h.numbers i hi
    rw [Message.lookup_set, hv]
    split <;> exact ⟨_, _, rfl⟩
  · intro i hi
    have hne : UInt8.ofNat i ≠ UInt8.ofNat j := index_ne (by simp at hi; omega) hsmall.1 (by simp at hi hj; omega)
    rw [Message.lookup_set, if_neg hne]; exact h.strings i hi

theorem Filled.set_string (h : Filled ids m) {j : Nat} (hj : j ∈ [3, 4, 5, 6, 8]) (value : List UInt8) (set : Bool) :
    Filled ids (m.set (UInt8.ofNat j) (.single (.bytes value set))) := by
  have hsmall : j ≤ 10 ∧ j ≠ 2 := by simp at hj; omega
  refine ⟨?_, ?_, ?_, h.others_set _ _, Message.required_set h.optional _ _⟩
  · have hne : UInt8.ofNat 2 ≠ UInt8.ofNat j := index_ne (by omega) hsmall.1 (by omega)
    exact (Message.lookup_set ..).trans ((if_neg hne).trans h.keyIDs)
  · intro i hi
    have hne : UInt8.ofNat i ≠ UInt8.ofNat j := index_ne (by simp at hi; omega) hsmall.1 (by simp at hi hj; omega)
    rw [Message.lookup_set, if_neg hne]; exact h.numbers i hi
  · intro i hi
    obtain ⟨v, set', hv⟩ := h.strings i hi
    rw [Message.lookup_set, hv]
    split <;> exact ⟨_, _, rfl⟩

/-- What one field does to the message. -/
theorem Filled.takes (h : Filled ids m) (f : WidevineField) :
    ∃ m', Takes f.field m m' ∧ Filled (ids ++ f.kid.toList) m' := by
  cases f with
  | keyId id =>
    exact ⟨_, takes_repeated h.keyIDs rfl (Scalar.reads_bytes id.toList [] false), h.set_keyIDs id⟩
  | number index declared value small =>
    obtain ⟨v, set, hm⟩ := h.numbers index declared
    refine ⟨_, takes_single hm rfl (Scalar.reads_varint small 32 v set), ?_⟩
    simpa [WidevineField.kid, WidevineField.field] using h.set_number declared _ _
  | string index declared value =>
    obtain ⟨v, set, hm⟩ := h.strings index declared
    refine ⟨_, takes_single hm rfl (Scalar.reads_bytes value v set), ?_⟩
    simpa [WidevineField.kid, WidevineField.field] using h.set_string declared _ _
  | other index above small payload =>
    refine ⟨m, takes_unknown (h.others index above small), ?_⟩
    simpa [WidevineField.kid] using h

theorem Filled.isValid (h : Filled ids m) : m.isValid = true := by
  rw [Message.isValid, List.all_eq_true]
  intro p hp
  rw [h.optional p hp]; rfl

theorem Filled.keyIDs_eq (h : Filled ids m) : Cenc.keyIDs m = ids.map Vector.toList := by
  rw [Cenc.keyIDs, h.keyIDs]
  show (ids.map fun id => Scalar.bytes id.toList false).filterMap _ = _
  rw [List.filterMap_map]
  exact congrFun List.filterMap_eq_map ids

end

/-! ## The keys of a message -/

variable {K : Type} [Thunder K]

/-- The key `ParseWidevinePSSHData` adds for a key id. -/
def widevineKey (id : Vector UInt8 16) : KeyId K := { id := keyId id.toList, systems := SystemType.wideVine.mask }

theorem KeyId.ofValue_eq (id : Vector UInt8 16) : KeyId.ofValue .wideVine id.toList = widevineKey (K := K) id := by
  have hlen : (u8 id.toList.length).toNat = 16 := by rw [Vector.length_toList]; rfl
  rw [ofValue, hlen, List.take_of_length_le (by simp), widevineKey]

/-- A message is decoded as a whole, with all its key ids. -/
theorem fromBuffer_widevine (fields : List WidevineField) {mem : Memory} {data : Nat} {length : UInt32}
    (h : Holds mem data (widevineData fields)) (hlen : length.toNat = (widevineData fields).length) :
    ∃ m, (fromBuffer mem data length widevinePsshPB2).Returns (true, m) ∧ Filled (kidsOf fields) m := by
  obtain ⟨m, hr, ids, hfilled, hids⟩ := fromBuffer_encode WidevineField.field
    (fun rest m => ∃ ids, Filled ids m ∧ ids ++ kidsOf rest = kidsOf fields)
    (fun f rest m ⟨ids, hm, hids⟩ => by
      obtain ⟨m', ht, hm'⟩ := hm.takes f
      refine ⟨m', ht, _, hm', ?_⟩
      rw [← hids, List.append_assoc]
      cases hk : f.kid <;> simp [kidsOf, hk])
    ⟨[], filled_fresh, rfl⟩ h hlen
  refine ⟨m, hr, ?_⟩
  rw [← hids, kidsOf, List.filterMap_nil, List.append_nil]
  exact hfilled

theorem parseWidevinePSSHData_filled {mem : Memory} {data : Nat} {length : UInt16} {m : Message Element}
    {ids : List (Vector UInt8 16)} (hr : (fromBuffer mem data length.toUInt32 widevinePsshPB2).Returns (true, m))
    (hm : Filled ids m) (keys : List (KeyId K)) :
    (parseWidevinePSSHData mem data length keys).Returns (true, addAll keys (ids.map widevineKey)) := by
  have hkeys : (keyIDs m).map (KeyId.ofValue .wideVine) = ids.map (widevineKey (K := K)) := by
    rw [hm.keyIDs_eq, List.map_map]
    exact List.map_congr_left fun id _ => KeyId.ofValue_eq id
  rw [parseWidevinePSSHData]
  refine hr.bind ?_
  rw [if_pos ⟨rfl, hm.isValid⟩, hkeys]
  exact returns_pure.2 rfl

/-- Exactly the key ids of a message are added, in order. -/
theorem parseWidevinePSSHData_encode (fields : List WidevineField) {mem : Memory} {data : Nat} {length : UInt16}
    (h : Holds mem data (widevineData fields)) (hlen : length.toNat = (widevineData fields).length)
    (keys : List (KeyId K)) :
    (parseWidevinePSSHData mem data length keys).Returns (true, addAll keys ((kidsOf fields).map widevineKey)) := by
  obtain ⟨m, hr, hm⟩ := fromBuffer_widevine fields h (show length.toUInt32.toNat = _ from hlen)
  exact parseWidevinePSSHData_filled hr hm keys

/-- Key ids between fields of the other kinds, one of them empty and one key id twice. -/
theorem parseWidevinePSSHData_encode_mixed :
    let fields : List WidevineField :=
      [.keyId (Vector.replicate 16 1), .number 7 (by decide) 300 (by decide),
        .other 200 (by decide) (by decide) (.fixed64 (Vector.replicate 8 9)), .string 3 (by decide) [],
        .keyId (Vector.replicate 16 2), .keyId (Vector.replicate 16 1)]
    (parseWidevinePSSHData (place 64 (widevineData fields) 0) 64 69 ([] : List (KeyId Kid))).Returns
      (true, [{ id := List.replicate 16 1, systems := 8 }, { id := List.replicate 16 2, systems := 8 }]) := by
  intro fields
  refine parseWidevinePSSHData_encode fields (holds_place ..) ?_ []
  simp [fields, widevineData, encode, Field.encode, Field.tag, WidevineField.field, Payload.encode, Payload.code,
    encodeVarint]

end Ocdm.Cenc
