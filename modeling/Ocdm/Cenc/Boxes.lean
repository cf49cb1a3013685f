/-
`Parse` on a concatenation of PSSH boxes: the walk steps from box to box, and each box adds the keys
its payload decoder adds followed by those of its own table. The keys collected are those of the
boxes, in the order of their first appearance, with the systems of all the boxes that name them.
-/
import Ocdm.Cenc.BoxLoop
import Ocdm.Cenc.Widevine

namespace Ocdm.Cenc

open Bytes Comp Thunder

/-! ## Boxes -/

/-- The system a box names by its id; `COMMON` for an id that is not known. -/
def systemNamed (systemId : List UInt8) : SystemType :=
  if systemId = commonEncryption then .common
  else if systemId = playReady then .playReady
  else if systemId = wideVine then .wideVine
  else if systemId = clearKey then .clearKey
  else .common

section

variable {K : Type} [Thunder K]

/-- The payload decoder of `system`, called for `payload` wherever it is and whatever surrounds it,
adds exactly the keys `adds`. -/
def Decodes (system : SystemType) (payload : List UInt8) (adds : List (KeyId K)) : Prop :=
  ∀ (mem : Memory) (a : Nat) (size : UInt32) (keys : List (KeyId K)), Holds mem a payload →
    size.toNat = payload.length → (parsePayload mem system (some (a, size)) keys).Returns (addAll keys adds)

end

/-- The decoder of Widevine messages adds their key ids. -/
theorem decodes_widevine {K : Type} [Thunder K] (fields : List WidevineField)
    (small : (widevineData fields).length < 65536) :
    Decodes (K := K) .wideVine (widevineData fields) ((kidsOf fields).map widevineKey) := by
  intro mem a size keys h hsize
  have hlen : (u16 size.toNat).toNat = (widevineData fields).length := u16_eq (by omega) small
  obtain ⟨m, hr, hm⟩ := fromBuffer_widevine fields h (show (u16 size.toNat).toUInt32.toNat = _ from hlen)
  exact (parseWidevinePSSHData_filled hr hm keys).bind (returns_pure.2 rfl)

/-- A PSSH box: version 1 with a key table, version 0 without. `payloadKeys` are the keys the
decoder of its system adds from its payload. -/
structure PsshBox (K : Type) [Thunder K] where
  flags : Vector UInt8 3
  systemId : Vector UInt8 16
  keyTable : Option (List (Vector UInt8 16))
  payload : List UInt8
  payloadKeys : List (KeyId K)
  decodes : Decodes (systemNamed systemId.toList) payload payloadKeys

namespace PsshBox

variable {K : Type} [Thunder K]

def system (b : PsshBox K) : SystemType := systemNamed b.systemId.toList

/-- The key count and the keys of version 1. -/
def tableBytes (b : PsshBox K) : List UInt8 :=
  match b.keyTable with
  | none => []
  | some kids => be32 kids.length ++ kids.flatMap Vector.toList

/-- The box behind its size and its type. -/
def body (b : PsshBox K) : List UInt8 :=
  [if b.keyTable.isSome then 1 else 0] ++ b.flags.toList ++ b.systemId.toList ++ b.tableBytes ++
    be32 b.payload.length ++ b.payload

def bytes (b : PsshBox K) : List UInt8 := be32 (b.body.length + 8) ++ psshHeader ++ b.body

/-- The key `ParsePSSHBox` adds for a row of the table. -/
def tableKey (system : SystemType) (kid : Vector UInt8 16) : KeyId K :=
  { id := keyId kid.toList, systems := system.mask }

/-- The keys of the box, in the order they are added. -/
def keys (b : PsshBox K) : List (KeyId K) := b.payloadKeys ++ (b.keyTable.getD []).map (tableKey b.system)

end PsshBox

/-- A Widevine box around a message. -/
def PsshBox.widevine {K : Type} [Thunder K] (keyTable : Option (List (Vector UInt8 16))) (fields : List WidevineField)
    (small : (widevineData fields).length < 65536) : PsshBox K where
  flags := Vector.replicate 3 0
  systemId := ⟨wideVine.toArray, rfl⟩
  keyTable := keyTable
  payload := widevineData fields
  payloadKeys := (kidsOf fields).map widevineKey
  decodes := decodes_widevine fields small

/-- A ClearKey box; its payload is not looked at. -/
def PsshBox.clearKey {K : Type} [Thunder K] (keyTable : Option (List (Vector UInt8 16))) (payload : List UInt8) :
    PsshBox K where
  flags := Vector.replicate 3 0
  systemId := ⟨Cenc.clearKey.toArray, rfl⟩
  keyTable := keyTable
  payload := payload
  payloadKeys := []
  decodes := fun _ _ _ _ _ _ => returns_pure.2 rfl

/-- The bytes start a PSSH box, as `Parse` sees it. -/
def StartsBox (bs : List UInt8) : Prop :=
  ∃ size rest, size < 4294967296 ∧ bs = be32 size ++ psshHeader ++ rest ∧ size ≤ bs.length

/-! ## Reading a box -/

section

variable {K : Type} [Thunder K] {mem : Memory}

theorem systemOf_eq {a : Nat} {id : Vector UInt8 16} (h : Holds mem a id.toList) :
    systemOf mem a = systemNamed id.toList := by
  have hlen : id.toList.length = 16 := by simp
  simp only [systemOf, systemNamed, Holds.eq_iff h (show _ = commonEncryption.length from hlen),
    Holds.eq_iff h (show _ = playReady.length from hlen), Holds.eq_iff h (show _ = wideVine.length from hlen),
    Holds.eq_iff h (show _ = clearKey.length from hlen)]

theorem flatMap_toList_length (kids : List (Vector UInt8 16)) :
    (kids.flatMap Vector.toList).length = 16 * kids.length := by
  induction kids with
  | nil => rfl
  | cons kid kids ih => rw [List.flatMap_cons, List.length_append, ih, Vector.length_toList, List.length_cons]; omega

theorem addTable_eq (system : SystemType) (kids : List (Vector UInt8 16)) {a : Nat}
    (h : Holds mem a (kids.flatMap Vector.toList)) (keys : List (KeyId K)) :
    addTable mem system kids.length a keys = addAll keys (kids.map (PsshBox.tableKey system)) := by
  induction kids generalizing a keys with
  | nil => rfl
  | cons kid kids ih =>
    rw [List.flatMap_cons, holds_append, Vector.length_toList] at h
    have hslice : slice mem a keyLength = kid.toList := by
      have := h.1.slice_eq
      rwa [Vector.length_toList] at this
    rw [List.length_cons, addTable, hslice, List.map_cons, addAll_cons]
    exact ih h.2 _

namespace PsshBox

variable {b : PsshBox K} {data : Nat} {length : UInt16}

theorem body_length (b : PsshBox K) :
    b.body.length = 24 + b.tableBytes.length + b.payload.length := by
  simp [body]; omega

theorem bytes_length (b : PsshBox K) : b.bytes.length = b.body.length + 8 := by
  simp [bytes, psshHeader]; omega

/-- Where the parts of a box are. -/
theorem body_parts (h : Holds mem data b.body) :
    mem data = (if b.keyTable.isSome then 1 else 0) ∧ Holds mem (data + 4) b.systemId.toList ∧
      Holds mem (data + 20) b.tableBytes ∧ Holds mem (data + 20 + b.tableBytes.length) (be32 b.payload.length) ∧
      Holds mem (data + 24 + b.tableBytes.length) b.payload := by
  simp only [body, holds_append, holds_cons, holds_nil, and_true, List.length_append, List.length_cons,
    List.length_nil, Vector.length_toList, be32_length] at h
  obtain ⟨⟨⟨⟨⟨hversion, -⟩, hid⟩, htable⟩, hsize⟩, hpayload⟩ := h
  refine ⟨hversion, hid, htable, ?_, ?_⟩
  · rw [show data + 20 + b.tableBytes.length = data + (0 + 1 + 3 + 16 + b.tableBytes.length) by omega]
    exact hsize
  · rw [show data + 24 + b.tableBytes.length = data + (0 + 1 + 3 + 16 + b.tableBytes.length + 4) by omega]
    exact hpayload

/-- A version 0 box: no table, and the payload behind the fixed part. -/
theorem psshLayout_v0 (hb : b.keyTable = none) (h : Holds mem data b.body) (hlen : length.toNat = b.body.length) :
    ∃ size : UInt32, size.toNat = b.payload.length ∧ psshLayout mem data length = ⟨none, some (data + 24, size)⟩ := by
  obtain ⟨hversion, -, -, hsize, -⟩ := body_parts h
  have ht : b.tableBytes = [] := by rw [tableBytes, hb]
  have hl := b.body_length
  have hlt := length.toNat_lt
  rw [ht, List.length_nil] at hsize hl
  have hn := hsize.read32BE (by omega)
  refine ⟨read32BE mem (data + 20), hn, ?_⟩
  have hfit : ¬ (read32BE mem (data + 20) + 24 > length.toUInt32) := by
    rw [gt_iff_lt, UInt32.lt_iff_toNat_lt, UInt32.toNat_add, hn, UInt16.toNat_toUInt32]
    show ¬ length.toNat < (b.payload.length + 24) % 4294967296
    omega
  have hzero : mem data = 0 := by rw [hversion, hb]; rfl
  simp only [psshLayout]
  rw [if_pos hzero, show data + 24 - 4 = data + 20 by omega, if_neg hfit]

/-- A version 1 box: the table behind the fixed part, and the payload behind the table. -/
theorem psshLayout_v1 {kids : List (Vector UInt8 16)} (hb : b.keyTable = some kids) (h : Holds mem data b.body)
    (hlen : length.toNat = b.body.length) :
    ∃ count size : UInt32, count.toNat = kids.length ∧ size.toNat = b.payload.length ∧
      psshLayout mem data length = ⟨some (data + 24, count), some (data + 24 + b.tableBytes.length, size)⟩ := by
  obtain ⟨hversion, -, htable, hsize, -⟩ := body_parts h
  have ht : b.tableBytes = be32 kids.length ++ kids.flatMap Vector.toList := by rw [tableBytes, hb]
  have htl : b.tableBytes.length = 4 + 16 * kids.length := by
    rw [ht, List.length_append, flatMap_toList_length, be32_length]
  have hl := b.body_length
  have hlt := length.toNat_lt
  rw [ht, holds_append] at htable
  have hcount := htable.1.read32BE (by omega)
  have hn := hsize.read32BE (by omega)
  refine ⟨read32BE mem (data + 20), read32BE mem (data + 20 + b.tableBytes.length), hcount, hn, ?_⟩
  have hmul : (read32BE mem (data + 20) * 16).toNat = 16 * kids.length := by
    rw [UInt32.toNat_mul, hcount]
    show kids.length * 16 % 4294967296 = _
    omega
  have hfit : ¬ (read32BE mem (data + 20) * 16 + 28 > length.toUInt32) := by
    rw [gt_iff_lt, UInt32.lt_iff_toNat_lt, UInt32.toNat_add, hmul, UInt16.toNat_toUInt32]
    show ¬ length.toNat < (16 * kids.length + 28) % 4294967296
    omega
  have hpos : (28 + read32BE mem (data + 20) * 16).toNat = 24 + b.tableBytes.length := by
    rw [UInt32.toNat_add, hmul]
    show (28 + 16 * kids.length) % 4294967296 = _
    omega
  have hfit' : ¬ (read32BE mem (data + 20 + b.tableBytes.length) + 28 + read32BE mem (data + 20) * 16 >
      length.toUInt32) := by
    rw [gt_iff_lt, UInt32.lt_iff_toNat_lt, UInt32.toNat_add, UInt32.toNat_add, hmul, hn, UInt16.toNat_toUInt32]
    show ¬ length.toNat < ((b.payload.length + 28) % 4294967296 + 16 * kids.length) % 4294967296
    omega
  have hone : mem data = 1 := by rw [hversion, hb]; rfl
  simp only [psshLayout]
  rw [if_neg (by rw [hone]; decide), if_pos hone, show data + 24 - 4 = data + 20 by omega, if_neg hfit, hpos,
    show data + (24 + b.tableBytes.length) - 4 = data + 20 + b.tableBytes.length by omega, if_neg hfit',
      ← Nat.add_assoc]

/-- A box adds its keys. -/
theorem parsePSSHBox_adds (h : Holds mem data b.body) (hlen : length.toNat = b.body.length) (keys : List (KeyId K)) :
    (parsePSSHBox mem data length keys).Returns (addAll keys b.keys) := by
  obtain ⟨-, hid, htable, -, hpayload⟩ := body_parts h
  have hl := b.body_length
  have h24 : length ≥ 24 := by
    rw [ge_iff_le, UInt16.le_iff_toNat_le]
    show 24 ≤ length.toNat
    omega
  unfold parsePSSHBox
  rw [if_pos h24, systemOf_eq hid]
  dsimp only
  cases hb : b.keyTable with
  | none =>
    obtain ⟨size, hsize, hlayout⟩ := psshLayout_v0 hb h hlen
    have ht : b.tableBytes = [] := by rw [tableBytes, hb]
    rw [ht] at hpayload
    have hkeys : b.keys = b.payloadKeys := by simp [PsshBox.keys, hb]
    rw [hlayout, if_pos (by simp), hkeys]
    exact (b.decodes mem _ size keys hpayload hsize).bind (returns_pure.2 rfl)
  | some kids =>
    obtain ⟨count, size, hcount, hsize, hlayout⟩ := psshLayout_v1 hb h hlen
    have ht : b.tableBytes = be32 kids.length ++ kids.flatMap Vector.toList := by rw [tableBytes, hb]
    rw [ht, holds_append] at htable
    have hkeys : b.keys = b.payloadKeys ++ kids.map (tableKey b.system) := by simp [PsshBox.keys, hb]
    rw [hlayout, if_pos (by simp), hkeys, addAll_append]
    refine (b.decodes mem _ size keys hpayload hsize).bind (returns_pure.2 ?_)
    show addTable mem _ count.toNat _ _ = _
    rw [hcount]
    exact addTable_eq _ kids htable.2 _

end PsshBox

/-! ## Walking the boxes -/

variable {data : Nat} {length offset : UInt16}

theorem acceptsBox_bytes (b : PsshBox K) (h : Holds mem (data + offset.toNat) b.bytes)
    (hlen : offset.toNat + b.bytes.length ≤ length.toNat) :
    acceptsBox mem data length offset = true ∧ sizeField mem data offset = b.bytes.length := by
  have hl := length.toNat_lt
  have hb := b.bytes_length
  rw [PsshBox.bytes, holds_append, holds_append] at h
  have hsize := h.1.1.read32BE (by omega)
  refine ⟨?_, by rw [sizeField, hsize, hb]⟩
  have hrem : (u32 ((length.toNat : Int) - offset.toNat)).toNat = length.toNat - offset.toNat :=
    u32_eq (by omega) (by omega)
  simp only [acceptsBox, Bool.and_eq_true, decide_eq_true_eq, UInt32.le_iff_toNat_le, hsize, hrem]
  exact ⟨⟨by omega, by omega⟩, h.1.2⟩

theorem be32_read32BE (a : Nat) :
    be32 (read32BE mem a).toNat = [mem a, mem (a + 1), mem (a + 2), mem (a + 3)] := by
  have h0 := (mem a).toNat_lt
  have h1 := (mem (a + 1)).toNat_lt
  have h2 := (mem (a + 2)).toNat_lt
  have h3 := (mem (a + 3)).toNat_lt
  simp only [be32, read32BE_toNat, List.cons.injEq, ← UInt8.toNat_inj, UInt8.toNat_ofNat', and_true]
  omega

/-- What the walk takes for a box starts one. -/
theorem startsBox_of_accepts {bs : List UInt8} (h : Holds mem (data + offset.toNat) bs) (h8 : 8 ≤ bs.length)
    (hlen : offset.toNat + bs.length = length.toNat) (ha : acceptsBox mem data length offset = true) :
    StartsBox bs := by
  have hl := length.toNat_lt
  have hrem : (u32 ((length.toNat : Int) - offset.toNat)).toNat = bs.length := u32_eq (by omega) (by omega)
  simp only [acceptsBox, Bool.and_eq_true, decide_eq_true_eq, UInt32.le_iff_toNat_le, hrem] at ha
  obtain ⟨⟨hsize, -⟩, htype⟩ := ha
  refine ⟨_, bs.drop 8, (read32BE mem (data + offset.toNat)).toNat_lt, ?_, hsize⟩
  have hhead : Holds mem (data + offset.toNat) (be32 (read32BE mem (data + offset.toNat)).toNat ++ psshHeader) := by
    rw [holds_append, be32_read32BE]
    exact ⟨⟨rfl, rfl, rfl, rfl, trivial⟩, htype⟩
  have htake : Holds mem (data + offset.toNat) (bs.take 8) := by
    rw [← List.take_append_drop 8 bs, holds_append] at h
    exact h.1
  have hlen8 : (bs.take 8).length = 8 := by rw [List.length_take]; omega
  rw [← (Holds.eq_iff htake (by rw [hlen8]; rfl)).1 hhead, List.take_append_drop]

theorem boxCall_adds (b : PsshBox K) (h : Holds mem (data + offset.toNat) b.bytes) (hlen : b.bytes.length < 65536)
    (keys : List (KeyId K)) : (boxCall mem data offset keys).Returns (addAll keys b.keys) := by
  have hb := b.bytes_length
  rw [PsshBox.bytes, holds_append, holds_append] at h
  obtain ⟨⟨hsize, -⟩, hbody⟩ := h
  have hn := hsize.read32BE (by omega)
  refine PsshBox.parsePSSHBox_adds hbody ?_ keys
  have hsub : (read32BE mem (data + offset.toNat) - 4 - 4).toNat = b.body.length := by
    rw [UInt32.toNat_sub, UInt32.toNat_sub, hn]
    show (2 ^ 32 - 4 + (2 ^ 32 - 4 + (b.body.length + 8)) % 2 ^ 32) % 2 ^ 32 = _
    omega
  rw [hsub]
  exact u16_eq rfl (by omega)

/-- The run over the boxes, from any offset and any keys so far. -/
theorem loop_boxes (boxes : List (PsshBox K)) {trailer : List UInt8}
    (ht : trailer = [] ∨ 8 ≤ trailer.length ∧ ¬ StartsBox trailer) (hoff : boxes = [] → offset ≠ 0)
    (hlt : offset < length) (h : Holds mem (data + offset.toNat) (boxes.flatMap PsshBox.bytes ++ trailer))
    (hlen : offset.toNat + (boxes.flatMap PsshBox.bytes ++ trailer).length = length.toNat) (keys : List (KeyId K)) :
    (loop (parsePass mem data length) ⟨offset, keys⟩).Returns (addAll keys (boxes.flatMap PsshBox.keys)) := by
  induction boxes generalizing offset keys with
  | nil =>
    have hne : trailer ≠ [] := by
      rintro rfl
      rw [UInt16.lt_iff_toNat_lt] at hlt
      simp at hlen; omega
    obtain ⟨h8, hno⟩ := ht.resolve_left hne
    have ha : ¬ acceptsBox mem data length offset = true := fun ha => hno (startsBox_of_accepts h h8 hlen ha)
    refine loop_done ?_
    rw [parsePass, if_neg ha, if_neg (hoff rfl)]
    exact returns_pure.2 rfl
  | cons b rest ih =>
    rw [List.flatMap_cons, List.append_assoc, List.length_append] at hlen
    rw [List.flatMap_cons, List.append_assoc, holds_append] at h
    have hb := b.bytes_length
    have hl := length.toNat_lt
    have hacc : acceptsBox mem data length offset = true ∧ sizeField mem data offset = b.bytes.length :=
      acceptsBox_bytes b h.1 (by omega)
    obtain ⟨ha, hsize⟩ := hacc
    have hnext := nextOffset_toNat hlt ha
    rw [hsize] at hnext
    have hp := parsePass_accepts (c := ⟨offset, keys⟩) ha (boxCall_adds b h.1 (by omega) keys)
    rw [List.flatMap_cons, addAll_append]
    split at hp
    · rename_i hmore
      refine loop_again hp (ih ?_ hmore ?_ ?_ _)
      · intro _ hz
        rw [hz, UInt16.toNat_zero] at hnext
        omega
      · rw [hnext, ← Nat.add_assoc]; exact h.2
      · rw [hnext]; omega
    · rename_i hend
      rw [UInt16.lt_iff_toNat_lt, hnext] at hend
      cases rest with
      | nil => exact loop_done hp
      | cons b' rest' =>
        -- a further box would be left to walk
        have hb' := b'.bytes_length
        simp only [List.flatMap_cons, List.length_append] at hlen
        omega

/-- The keys of init data that is a list of boxes. -/
theorem parse_boxes (hr : Upsert.Equiv (same (K := K))) {boxes : List (PsshBox K)} (hne : boxes ≠ [])
    {trailer : List UInt8} (ht : trailer = [] ∨ 8 ≤ trailer.length ∧ ¬ StartsBox trailer) (hd : data ≠ nullptr)
    (h : Holds mem data (boxes.flatMap PsshBox.bytes ++ trailer))
    (hlen : length.toNat = (boxes.flatMap PsshBox.bytes ++ trailer).length) :
    ∃ keys, (parse mem data length).Returns keys ∧ Collected (boxes.flatMap PsshBox.keys) keys := by
  refine ⟨addAll [] (boxes.flatMap PsshBox.keys), ?_, addAll_collected hr _⟩
  have hpos : 0 < length.toNat := by
    cases boxes with
    | nil => exact absurd rfl hne
    | cons b rest =>
      have hb := b.bytes_length
      rw [hlen, List.flatMap_cons, List.append_assoc, List.length_append]
      omega
  have hl : length ≠ 0 := fun hz => by rw [hz, UInt16.toNat_zero] at hpos; omega
  rw [parse, if_neg (not_or.2 ⟨hd, hl⟩)]
  have hlt : (0 : UInt16) < length := UInt16.lt_iff_toNat_lt.2 hpos
  exact loop_boxes boxes ht (fun hz => absurd hz hne) hlt h (by rw [UInt16.toNat_zero, Nat.zero_add, hlen]) []

end

/-- A Widevine box and a ClearKey box that name a key both, and eight bytes behind them. -/
theorem parse_boxes_shared_key :
    let boxes : List (PsshBox Kid) :=
      [.widevine (some [Vector.replicate 16 1]) [.keyId (Vector.replicate 16 2)] (by
          simp [widevineData, Protobuf.encode, Protobuf.Field.encode, Protobuf.Field.tag, WidevineField.field,
            Protobuf.Payload.encode, Protobuf.Payload.code, Protobuf.encodeVarint]),
        .clearKey (some [Vector.replicate 16 3, Vector.replicate 16 1]) [7]]
    ∃ keys, (parse (place 4096 (boxes.flatMap PsshBox.bytes ++ List.replicate 8 0) 0) 4096 147).Returns keys ∧
      Collected (K := Kid) [{ id := List.replicate 16 2, systems := 8 }, { id := List.replicate 16 1, systems := 8 },
        { id := List.replicate 16 3, systems := 2 }, { id := List.replicate 16 1, systems := 2 }] keys := by
  intro boxes
  have htrailer : ¬ StartsBox (List.replicate 8 0) := by
    rintro ⟨size, rest, -, he, -⟩
    have := congrArg (fun l => l[4]?) he
    simp [be32, psshHeader] at this
  refine parse_boxes Kid.same_equiv (show boxes ≠ [] by simp [boxes]) (.inr ⟨?_, htrailer⟩) (by decide)
    (holds_place ..) ?_
  · simp
  · simp [boxes, PsshBox.bytes, PsshBox.body, PsshBox.tableBytes, PsshBox.widevine, PsshBox.clearKey, psshHeader,
      widevineData, Protobuf.encode, Protobuf.Field.encode, Protobuf.Field.tag, WidevineField.field,
      Protobuf.Payload.encode, Protobuf.Payload.code, Protobuf.encodeVarint]

end Ocdm.Cenc
