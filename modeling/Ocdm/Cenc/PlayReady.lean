/-
The three forms in which `Parse` takes PlayReady headers: the XML alone, as records of a PlayReady
object, and that object in a PSSH box. In all three exactly the key ids of the headers are added,
in order. Two things keep a key id from being found: `VALUE` in the value of an attribute before it,
and the bytes of a JSON `kids` member anywhere in an object that has no box around it.
-/
import Ocdm.Cenc.Boxes
import Ocdm.Cenc.PlayReadyHeader

namespace Ocdm.Cenc

open Bytes Comp Thunder

/-! ## PlayReady objects -/

/-- A record of a PlayReady object: a rights management header, or a record of another type. -/
inductive Record where
  | rightsManagement (header : Header)
  | other (type : UInt16) (notHeader : type ≠ 1) (content : List UInt8)

namespace Record

def type : Record → UInt16
  | .rightsManagement _ => 1
  | .other type _ _ => type

def content : Record → List UInt8
  | .rightsManagement header => header.bytes
  | .other _ _ content => content

def bytes (r : Record) : List UInt8 := le16 r.type.toNat ++ le16 r.content.length ++ r.content

def keys {K : Type} [Thunder K] : Record → List (KeyId K)
  | .rightsManagement header => header.keys
  | .other .. => []

def Clean : Record → Prop
  | .rightsManagement header => header.Clean
  | .other .. => True

end Record

/-- A PlayReady object: its size, the number of its records, and the records. -/
def objectBytes (records : List Record) : List UInt8 :=
  le32 (6 + (records.flatMap Record.bytes).length) ++ le16 records.length ++ records.flatMap Record.bytes

section

variable {K : Type} [Thunder K] {mem : Memory}

theorem Record.length_bytes (r : Record) : r.bytes.length = 4 + r.content.length := by
  simp [bytes]; omega

theorem objectBytes_length (records : List Record) :
    (objectBytes records).length = 6 + (records.flatMap Record.bytes).length := by
  simp only [objectBytes, List.length_append, le32_length, le16_length]

theorem records_length (records : List Record) : 4 * records.length ≤ (records.flatMap Record.bytes).length := by
  induction records with
  | nil => exact Nat.le_refl 0
  | cons r records ih =>
    rw [List.flatMap_cons, List.length_append, r.length_bytes, List.length_cons]; omega

/-- A record adds its keys. -/
theorem parseRecord_adds (r : Record) (hclean : r.Clean) {data : Nat} {recordLength : UInt16}
    (h : Holds mem data r.content) (hlen : recordLength.toNat = r.content.length) (hsmall : recordLength.toNat < 65500)
    (keys : List (KeyId K)) : (parseRecord mem r.type recordLength data keys).Returns (addAll keys r.keys) := by
  cases r with
  | rightsManagement header => exact parseXMLBox_header header hclean h hlen hsmall keys
  | other type notHeader content =>
    rw [parseRecord, if_neg (show ¬ (Record.other type notHeader content).type = 1 from notHeader)]
    exact returns_pure.2 rfl

/-- The run over the records, from any keys so far; the end the loop looks at is four bytes past
that of the object. -/
theorem loop_records {dataEnd : Nat} {records : List Record} (hne : records ≠ []) (hclean : ∀ r ∈ records, r.Clean)
    {c : RecordCursor K} (h : Holds mem c.data (records.flatMap Record.bytes))
    (hend : c.data + (records.flatMap Record.bytes).length + 4 = dataEnd) (hcount : c.count.toNat = records.length)
    (hsmall : (records.flatMap Record.bytes).length < 65000) :
    ∃ data, (loop (parseRecordPass mem dataEnd) c).Returns ⟨data, 0, addAll c.keys (records.flatMap Record.keys)⟩ := by
  induction records generalizing c with
  | nil => exact absurd rfl hne
  | cons r records ih =>
    have hlenr := r.length_bytes
    rw [List.flatMap_cons, List.length_append] at hend hsmall
    rw [List.flatMap_cons, holds_append] at h
    obtain ⟨hr, hrest⟩ := h
    have hparts := hr
    rw [Record.bytes, holds_append, holds_append] at hparts
    obtain ⟨⟨htype, hlength⟩, hcontent⟩ := hparts
    have htypeN : read16LE mem c.data = r.type := UInt16.toNat_inj.1 (htype.read16LE r.type.toNat_lt)
    have hlenN : (read16LE mem (c.data + 2)).toNat = r.content.length := hlength.read16LE (by omega)
    have hsub : (c.count - 1).toNat = records.length := by
      rw [UInt16.toNat_sub, hcount, List.length_cons]
      have := records_length records
      show (2 ^ 16 - 1 + (records.length + 1)) % 2 ^ 16 = _
      omega
    have hadd := parseRecord_adds r (hclean r (List.mem_cons_self ..)) hcontent hlenN (by omega) c.keys
    have hpass : (parseRecordPass mem dataEnd c).Returns
        (if c.count - 1 = 0 then .done ⟨c.data + r.bytes.length, c.count - 1, addAll c.keys r.keys⟩
          else .again ⟨c.data + r.bytes.length, c.count - 1, addAll c.keys r.keys⟩) := by
      rw [parseRecordPass, if_pos (by omega)]
      dsimp only
      rw [if_neg (by omega), htypeN]
      refine hadd.bind ?_
      rw [hlenN, hlenr, Nat.add_assoc]
      split <;> exact returns_pure.2 rfl
    rw [List.flatMap_cons, addAll_append]
    cases records with
    | nil =>
      have hz : c.count - 1 = 0 := UInt16.toNat_inj.1 hsub
      rw [if_pos hz, hz] at hpass
      exact ⟨_, loop_done hpass⟩
    | cons r' records =>
      have hz : c.count - 1 ≠ 0 := fun hz => by rw [hz] at hsub; exact absurd hsub (by simp)
      rw [if_neg hz] at hpass
      obtain ⟨data, hloop⟩ := ih (by simp) (fun r hr => hclean r (List.mem_cons_of_mem _ hr))
        (c := ⟨c.data + r.bytes.length, c.count - 1, addAll c.keys r.keys⟩) hrest (by
          show c.data + r.bytes.length + _ + 4 = dataEnd
          omega) hsub (by omega)
      exact ⟨data, loop_again hpass hloop⟩

/-- An object adds the keys of its headers, in order. -/
theorem parsePlayReadyPSSHData_object (records : List Record) (hclean : ∀ r ∈ records, r.Clean) {data : Nat}
    {length : UInt16} (h : Holds mem data (objectBytes records)) (hlen : length.toNat = (objectBytes records).length)
    (hsmall : length.toNat < 65000) (keys : List (KeyId K)) :
    (parsePlayReadyPSSHData mem data length keys).Returns (true, addAll keys (records.flatMap Record.keys)) := by
  have hbytes := objectBytes_length records
  have hcountlen := records_length records
  have hslen := hlen
  rw [objectBytes, holds_append, holds_append] at h
  obtain ⟨⟨hsize, hcount⟩, hrecords⟩ := h
  have hsizeN := hsize.read32LE (by omega)
  have hcountN : (read16LE mem (data + 4)).toNat = records.length := hcount.read16LE (by omega)
  have heq : read32LE mem data = length.toUInt32 := by
    rw [← UInt32.toNat_inj, hsizeN, UInt16.toNat_toUInt32]; omega
  unfold parsePlayReadyPSSHData
  dsimp only
  rw [if_pos heq]
  cases records with
  | nil =>
    have hz : read16LE mem (data + 4) = 0 := UInt16.toNat_inj.1 hcountN
    rw [hz]
    exact returns_pure.2 rfl
  | cons r records =>
    have hpos : read16LE mem (data + 4) > 0 := by
      rw [gt_iff_lt, UInt16.lt_iff_toNat_lt, hcountN]
      exact Nat.zero_lt_succ _
    rw [if_pos hpos]
    have hend : data + 4 + 2 + ((r :: records).flatMap Record.bytes).length + 4 = data + 4 + length.toNat := by omega
    obtain ⟨data', hloop⟩ := loop_records (c := ⟨data + 4 + 2, read16LE mem (data + 4), keys⟩) (by simp) hclean
      hrecords hend hcountN (by omega)
    exact hloop.bind (returns_pure.2 rfl)

end

/-! ## Init data -/

/-- PlayReady init data in the forms `Parse` takes: a header, a PlayReady object, and a version 0
PSSH box around an object. -/
inductive PlayReadyData where
  | xml (header : Header)
  | object (records : List Record)
  | box (flags : Vector UInt8 3) (records : List Record)

namespace PlayReadyData

def bytes : PlayReadyData → List UInt8
  | .xml header => header.bytes
  | .object records => objectBytes records
  | .box flags records =>
    be32 (32 + (objectBytes records).length) ++ psshHeader ++ [0] ++ flags.toList ++ playReady ++
      be32 (objectBytes records).length ++ objectBytes records

/-- The keys of its headers, in order. -/
def keys {K : Type} [Thunder K] : PlayReadyData → List (KeyId K)
  | .xml header => header.keys
  | .object records => records.flatMap Record.keys
  | .box _ records => records.flatMap Record.keys

/-- No attribute value has `VALUE` in it, and an object without a box does not have the bytes of a
`kids` member, which `Parse` takes for ClearKey init data. -/
def Clean : PlayReadyData → Prop
  | .xml header => header.Clean
  | .object records => (∀ r ∈ records, r.Clean) ∧ ¬ jsonKeyIds <:+: objectBytes records
  | .box _ records => ∀ r ∈ records, r.Clean

end PlayReadyData

section

variable {K : Type} [Thunder K] {mem : Memory} {data : Nat} {length : UInt16}

/-- Data that starts like neither a box nor anything else goes by its first bytes. -/
theorem parse_unboxed (hd : data ≠ nullptr) (hl : length ≠ 0) (hno : length.toNat < (read32BE mem data).toNat)
    {keys : List (KeyId K)} (h : (parseUnboxed mem data length []).Returns keys) :
    (parse mem data length).Returns keys := by
  have hrem : (u32 ((length.toNat : Int) - (0 : UInt16).toNat)).toNat = length.toNat :=
    u32_eq (by simp) (by have := length.toNat_lt; omega)
  have ha : ¬ acceptsBox mem data length 0 = true := by
    simp only [acceptsBox, Bool.and_eq_true, decide_eq_true_eq, UInt32.le_iff_toNat_le, hrem]
    intro hacc
    exact absurd hacc.1.1 (Nat.not_le_of_lt hno)
  rw [parse, if_neg (not_or.2 ⟨hd, hl⟩)]
  refine loop_done ?_
  rw [parsePass, if_neg ha, if_pos rfl]
  exact h.bind (returns_pure.2 rfl)

/-- A header alone. -/
theorem parse_xml (header : Header) (hclean : header.Clean) (hd : data ≠ nullptr) (h : Holds mem data header.bytes)
    (hlen : length.toNat = header.bytes.length) (hsmall : length.toNat < 65000) :
    (parse mem data length).Returns (addAll [] (header.keys (K := K))) := by
  obtain ⟨cs, hcs⟩ := header.start
  have hchars : header.bytes = utf16 (ascii "<WRM") ++ utf16 cs := by
    rw [Header.bytes, Header.chars, ← hcs, utf16, List.flatMap_append]; rfl
  have hlength : length ≠ 0 := by
    intro hz
    rw [hchars, List.length_append, hz, UInt16.toNat_zero] at hlen
    have : (utf16 (ascii "<WRM")).length = 8 := by decide
    omega
  have hstart : Holds mem data [0x3c, 0, 0x57, 0, 0x52, 0, 0x4d, 0] := by
    have hw : utf16 (ascii "<WRM") = [0x3c, 0, 0x57, 0, 0x52, 0, 0x4d, 0] := by decide
    rw [hchars, hw, holds_append] at h
    exact h.1
  obtain ⟨h0, h1, h2, h3, h4, -, h6, -⟩ := hstart
  refine parse_unboxed hd hlength ?_ ?_
  · rw [read32BE_toNat, h0, h1, h2, h3]
    exact Nat.lt_trans hsmall (by decide)
  · have hwrm : startsWRM mem data = true := by simp [startsWRM, h0, h2, h4, h6]
    rw [parseUnboxed, if_pos hwrm]
    exact parseXMLBox_header header hclean h hlen (by omega) []

/-- An object without a box. -/
theorem parse_object (records : List Record) (hclean : ∀ r ∈ records, r.Clean)
    (hjson : ¬ jsonKeyIds <:+: objectBytes records) (hd : data ≠ nullptr) (h : Holds mem data (objectBytes records))
    (hlen : length.toNat = (objectBytes records).length) (hsmall : length.toNat < 65000) :
    (parse mem data length).Returns (addAll [] (records.flatMap (Record.keys (K := K)))) := by
  have hbytes := objectBytes_length records
  have hlength : length ≠ 0 := fun hz => by rw [hz, UInt16.toNat_zero] at hlen; omega
  have hparts := h
  rw [objectBytes, holds_append, holds_append] at hparts
  have hsize := hparts.1.1.read32LE (by omega)
  obtain ⟨⟨⟨h0, h1, h2, h3, -⟩, -⟩, -⟩ := hparts
  generalize hn : 6 + (records.flatMap Record.bytes).length = n at *
  have h2' : mem (data + 2) = 0 := by
    have hz : n / 65536 = 0 := by omega
    rw [show data + 2 = data + 1 + 1 by omega, h2, hz]
    rfl
  refine parse_unboxed hd hlength ?_ ?_
  · -- read with the high byte first, the size is at least 65536
    rw [read32BE_toNat, h0, h1]
    simp only [UInt8.toNat_ofNat']
    have hhigh : 0 < n % 256 ∨ 0 < n / 256 % 256 := by omega
    omega
  · have hwrm : ¬ startsWRM mem data = true := by simp [startsWRM, h2']
    have hslice : slice mem data length.toNat = objectBytes records := by rw [hlen]; exact h.slice_eq
    have heq : read32LE mem data = length.toUInt32 := by
      rw [← UInt32.toNat_inj, hsize, UInt16.toNat_toUInt32]; omega
    unfold parseUnboxed
    dsimp only
    rw [if_neg hwrm, hslice, if_neg hjson, if_pos heq]
    exact (parsePlayReadyPSSHData_object records hclean h hlen hsmall []).bind (returns_pure.2 rfl)

/-- The decoder of PlayReady objects adds the keys of their headers. -/
theorem decodes_playReady (records : List Record) (hclean : ∀ r ∈ records, r.Clean)
    (hsmall : (objectBytes records).length < 65000) :
    Decodes (K := K) .playReady (objectBytes records) (records.flatMap Record.keys) := by
  intro mem a size keys h hsize
  have hlen : (u16 size.toNat).toNat = (objectBytes records).length := u16_eq (by omega) (by omega)
  exact (parsePlayReadyPSSHData_object records hclean h hlen (by omega) keys).bind (returns_pure.2 rfl)

/-- An object in a box. -/
theorem parse_box (flags : Vector UInt8 3) (records : List Record) (hclean : ∀ r ∈ records, r.Clean)
    (hd : data ≠ nullptr) (h : Holds mem data (PlayReadyData.box flags records).bytes)
    (hlen : length.toNat = (PlayReadyData.box flags records).bytes.length) (hsmall : length.toNat < 65000) :
    (parse mem data length).Returns (addAll [] (records.flatMap (Record.keys (K := K)))) := by
  have hobject : (objectBytes records).length < 65000 := by
    simp only [PlayReadyData.bytes, List.length_append] at hlen
    omega
  let b : PsshBox K := ⟨flags, ⟨playReady.toArray, rfl⟩, none, objectBytes records, records.flatMap Record.keys,
    decodes_playReady records hclean hobject⟩
  have hb : (PlayReadyData.box flags records).bytes = [b].flatMap PsshBox.bytes ++ [] := by
    have hbody : b.body.length + 8 = 32 + (objectBytes records).length := by
      rw [b.body_length]
      show 24 + 0 + (objectBytes records).length + 8 = _
      omega
    rw [List.flatMap_singleton, List.append_nil, PsshBox.bytes, hbody]
    simp only [PlayReadyData.bytes, PsshBox.body, PsshBox.tableBytes, b, List.append_assoc, List.nil_append]
    rfl
  have hpos : 0 < length.toNat := by rw [hlen]; simp [PlayReadyData.bytes]
  rw [hb] at h hlen
  have hlt : (0 : UInt16) < length := UInt16.lt_iff_toNat_lt.2 hpos
  rw [parse, if_neg (not_or.2 ⟨hd, fun hz => by rw [hz, UInt16.toNat_zero] at hpos; omega⟩)]
  have hrun : (loop (parsePass mem data length) ⟨0, []⟩).Returns (addAll [] ([b].flatMap PsshBox.keys)) :=
    loop_boxes [b] (.inl rfl) (by simp) hlt h (by rw [UInt16.toNat_zero, Nat.zero_add, hlen]) []
  have hkeys : [b].flatMap PsshBox.keys = records.flatMap Record.keys := by
    rw [List.flatMap_singleton, PsshBox.keys]
    exact List.append_nil _
  rwa [hkeys] at hrun

end

/-- Exactly the key ids of the headers are added, in order, in whichever form they come. -/
theorem parse_playReady {K : Type} [Thunder K] (init : PlayReadyData) (hclean : init.Clean) {mem : Memory} {data : Nat}
    {length : UInt16} (hd : data ≠ nullptr) (h : Holds mem data init.bytes) (hlen : length.toNat = init.bytes.length)
    (hsmall : length.toNat < 65000) : (parse mem data length).Returns (addAll [] (init.keys (K := K))) := by
  cases init with
  | xml header => exact parse_xml header hclean hd h hlen hsmall
  | object records => exact parse_object records hclean.1 hclean.2 hd h hlen hsmall
  | box flags records => exact parse_box flags records hclean hd h hlen hsmall

/-- `<KID` is not in a text without `K`. -/
theorem no_kid {cs : List UInt8} (h : 0x4b ∉ cs) : ¬ kidOpen <:+: cs := fun hk => h (hk.subset (by decide))

/-- `VALUE` is not in a text without `L`. -/
theorem no_value {cs : List UInt8} (h : 0x4c ∉ cs) : ¬ ascii "VALUE" <:+: cs := fun hv => h (hv.subset (by decide))

def sampleKid : Vector UInt8 16 := ⟨#[1, 2, 3, 4, 5, 6, 7, 8, 9, 10, 11, 12, 13, 14, 15, 16], rfl⟩

/-- A v4.1 header with one key id. -/
def sampleHeader (checksum : AttributeValue) : Header where
  version := .v41
  parts := [⟨ascii "<WRM>", no_kid (by decide), .v41 ⟨ascii "AESCTR", by decide⟩ checksum sampleKid⟩]
  tail := ascii "</WRM>"
  noKid := no_kid (by decide)
  start := ⟨_, rfl⟩

/-- An object with an embedded license store before the header. -/
theorem parse_playReady_object :
    let init := PlayReadyData.object
      [.other 3 (by decide) [5, 6, 7], .rightsManagement (sampleHeader ⟨ascii "xNvWVxoWk04=", by decide⟩)]
    (parse (place 4096 init.bytes 0) 4096 205 : Comp (List (KeyId Kid))).Returns
      [{ id := [4, 3, 2, 1, 6, 5, 8, 7, 9, 10, 11, 12, 13, 14, 15, 16], systems := 4 }] := by
  intro init
  have hclean : init.Clean := by
    refine ⟨?_, fun h => absurd (h.subset (show 0x7b ∈ jsonKeyIds by decide)) (by decide +kernel)⟩
    refine List.forall_mem_cons.2 ⟨trivial, List.forall_mem_cons.2 ⟨?_, List.forall_mem_nil _⟩⟩
    exact List.forall_mem_cons.2 ⟨⟨no_value (by decide), no_value (by decide)⟩, List.forall_mem_nil _⟩
  exact parse_playReady init hclean (by decide) (holds_place ..) (by decide +kernel) (by decide)

/-- The checksum, the base64 text of eight bytes, has `VALUE` in it. -/
def valueInChecksum : PlayReadyData := .xml (sampleHeader ⟨ascii "VALUEAAAAAA=", by decide⟩)

/-- Another record of the object has the bytes of a JSON `kids` member. -/
def kidsInRecord : PlayReadyData := .object
  [.other 3 (by decide) jsonKeyIds, .rightsManagement (sampleHeader ⟨ascii "xNvWVxoWk04=", by decide⟩)]

/-- In neither is the key id found. -/
theorem key_ids_lost :
    ¬ (parse (place 4096 valueInChecksum.bytes 0) 4096 (u16 valueInChecksum.bytes.length)).Returns
      (addAll [] (valueInChecksum.keys (K := Kid))) ∧
    ¬ (parse (place 4096 kidsInRecord.bytes 0) 4096 (u16 kidsInRecord.bytes.length)).Returns
      (addAll [] (kidsInRecord.keys (K := Kid))) := by
  constructor
  · intro h
    have hlost : (parse (place 4096 valueInChecksum.bytes 0) 4096 (u16 valueInChecksum.bytes.length) :
        Comp (List (KeyId Kid))).Returns [] := ⟨150, by decide +kernel⟩
    exact absurd (hlost.unique h) (by decide)
  · intro h
    have hlost : (parse (place 4096 kidsInRecord.bytes 0) 4096 (u16 kidsInRecord.bytes.length) :
        Comp (List (KeyId Kid))).Returns [] := ⟨2, by decide +kernel⟩
    exact absurd (hlost.unique h) (by decide)

end Ocdm.Cenc
