/-
The init-data parser (CENCParser.h): `Base64`, `FindInXML`, `ParseXMLBox`, `ParsePlayReadyPSSHData`,
`ParseWidevinePSSHData`, `ParseJSONInitData`, `ParsePSSHBox` and `Parse`, over memory around the
data passed in. A pointer is an address; integers are converted where C++ converts them, and
differences are taken in the integers, where C++ takes them in `int`. Each function threads the key
list `_keyIds`.
-/
import Ocdm.Cenc.KeyId
import Ocdm.Protobuf.Message
import Mathlib.Data.List.Infix
import Mathlib.Logic.Function.Basic

namespace Ocdm.Cenc

open Bytes Comp Thunder

/-! ## Constants -/

def nullptr : Nat := 0

/-- `PSSHeader` -/
def psshHeader : List UInt8 := [0x70, 0x73, 0x73, 0x68]
/-- `CommonEncryption` -/
def commonEncryption : List UInt8 :=
  [0x10, 0x77, 0xef, 0xec, 0xc0, 0xb2, 0x4d, 0x02, 0xac, 0xe3, 0x3c, 0x1e, 0x52, 0xe2, 0xfb, 0x4b]
/-- `PlayReady` -/
def playReady : List UInt8 :=
  [0x9a, 0x04, 0xf0, 0x79, 0x98, 0x40, 0x42, 0x86, 0xab, 0x92, 0xe6, 0x5b, 0xe0, 0x88, 0x5f, 0x95]
/-- `WideVine` -/
def wideVine : List UInt8 :=
  [0xed, 0xef, 0x8b, 0xa9, 0x79, 0xd6, 0x4a, 0xce, 0xa3, 0xc8, 0x27, 0xdc, 0xd5, 0x1d, 0x21, 0xed]
/-- `ClearKey` -/
def clearKey : List UInt8 :=
  [0x58, 0x14, 0x7e, 0xc8, 0x04, 0x23, 0x46, 0x59, 0x92, 0xe6, 0xf5, 0x2c, 0x5c, 0xe8, 0xc3, 0xcc]

/-- The bytes of an ASCII string. -/
def ascii (s : String) : List UInt8 := s.toList.map fun c => UInt8.ofNat c.toNat

/-- `JSONKeyIds`: an opening brace, then `"kids":` -/
def jsonKeyIds : List UInt8 := [0x7b, 0x22, 0x6b, 0x69, 0x64, 0x73, 0x22, 0x3a]

/-! ## Base64 -/

/-- The locals of `Base64` and the memory it writes to, from the start of `object` on. -/
structure Base64State where
  state : UInt8
  index : UInt8
  filler : UInt8
  lastStuff : UInt8
  object : Memory

/-- The value of a base64 digit. -/
def base64Digit (current : UInt8) : Option UInt8 :=
  if 0x41 ≤ current ∧ current ≤ 0x5a then some (current - 0x41)
  else if 0x61 ≤ current ∧ current ≤ 0x7a then some (current - 0x61 + 26)
  else if 0x30 ≤ current ∧ current ≤ 0x39 then some (current - 0x30 + 52)
  else if current = 0x2b then some 62
  else if current = 0x2f then some 63
  else none

/-- One digit: the four states of the decoder. -/
def base64Put (s : Base64State) (converted : UInt8) : Base64State :=
  if s.state = 0 then { s with lastStuff := converted <<< 2, state := 1 }
  else if s.state = 1 then
    { s with object := Function.update s.object s.filler.toNat (((converted &&& 0x30) >>> 4) ||| s.lastStuff)
             filler := s.filler + 1
             lastStuff := (converted &&& 0x0F) <<< 4, state := 2 }
  else if s.state = 2 then
    { s with object := Function.update s.object s.filler.toNat (((converted &&& 0x3C) >>> 2) ||| s.lastStuff)
             filler := s.filler + 1
             lastStuff := (converted &&& 0x03) <<< 6, state := 3 }
  else if s.state = 3 then
    { s with object := Function.update s.object s.filler.toNat ((converted &&& 0x3F) ||| s.lastStuff)
             filler := s.filler + 1, state := 0 }
  else s

def base64Pass (mem : Memory) (value : Nat) (sourceLength length : UInt8) (s : Base64State) :
    Comp (Pass Base64State (UInt8 × Memory)) :=
  if s.index < sourceLength ∧ s.filler < length then
    match base64Digit (mem (value + s.index.toNat)) with
    | some converted => return .again { base64Put s converted with index := s.index + 2 }
    | none => return .done (s.filler, s.object)
  else return .done (s.filler, s.object)

/-- `Base64`: the number of bytes written and the memory from `object` on afterwards. -/
def base64 (mem : Memory) (value : Nat) (sourceLength : UInt8) (object : Memory) (length : UInt8) :
    Comp (UInt8 × Memory) :=
  loop (base64Pass mem value sourceLength length) ⟨0, 0, 0, 0, object⟩

/-! ## PlayReady headers -/

/-- The locals of `FindInXML`. -/
structure FindState where
  index : UInt8
  result : UInt16
deriving DecidableEq, Repr

def findInXMLPass (mem : Memory) (data : Nat) (length : UInt16) (key : List UInt8) (keyLength : UInt8) (s : FindState) :
    Comp (Pass FindState UInt16) :=
  if s.result ≤ length ∧ s.index < keyLength then
    if key.getD s.index.toNat 0 = mem (data + s.result.toNat) then return .again ⟨s.index + 1, s.result + 2⟩
    -- back to the position behind the one where this match began
    else if s.index > 0 then return .again ⟨0, u16 (s.result.toNat - (s.index.toNat - 1) * 2)⟩
    else return .again ⟨s.index, s.result + 2⟩
  else return .done (if s.index = keyLength then u16 (s.result.toNat - keyLength.toNat * 2) else s.result)

/-- `FindInXML` -/
def findInXML (mem : Memory) (data : Nat) (length : UInt16) (key : List UInt8) (keyLength : UInt8) : Comp UInt16 :=
  loop (findInXMLPass mem data length key keyLength) ⟨0, 0⟩

section

variable {K : Type} [Thunder K]

/-- The key `ParseXMLBox` builds from the sixteen bytes it decoded. -/
def playReadyKey (byteArray : List UInt8) : KeyId K :=
  let b := fun i => byteArray.getD i 0
  let a := (((b 0).toUInt32 <<< 8 ||| (b 1).toUInt32) <<< 8 ||| (b 2).toUInt32) <<< 8 ||| (b 3).toUInt32
  { id := keyIdOfParts a ((b 4).toUInt16 <<< 8 ||| (b 5).toUInt16) ((b 6).toUInt16 <<< 8 ||| (b 7).toUInt16)
      ((byteArray.drop 8).take 8)
    systems := SystemType.playReady.mask }

/-- `uint8_t byteArray[32]`, and what is around it. -/
def byteArray (K : Type) [Thunder K] : Memory := fun _ => fill K

/-- The locals of `ParseXMLBox` and the key list. -/
structure XmlCursor (K : Type) where
  slot : Nat
  size : UInt16
  keys : List (KeyId K)

/-- Decode the `length` bytes at `text` and add the key if it has sixteen bytes. -/
def addXMLKey (mem : Memory) (text : Nat) (length : UInt8) (keys : List (KeyId K)) : Comp (List (KeyId K)) := do
  let r ← base64 mem text length (byteArray K) 32
  if r.1.toNat = keyLength then return addKeyId keys (playReadyKey (slice r.2 0 keyLength)) else return keys

/-- One pass of the first loop of `ParseXMLBox`, for `<KID>..</KID>`. -/
def parseKidPass (mem : Memory) (c : XmlCursor K) : Comp (Pass (XmlCursor K) (XmlCursor K)) :=
  if c.size > 0 then do
    let begin_ ← findInXML mem c.slot c.size (ascii "<KID>") 5
    if begin_ < c.size then do
      let end_ ← findInXML mem (c.slot + (begin_.toNat + 10)) (u16 (c.size.toNat - begin_.toNat - 10))
        (ascii "</KID>") 6
      if (end_.toNat : Int) < c.size.toNat - begin_.toNat - 10 then do
        let keys ← addXMLKey mem (c.slot + (begin_.toNat + 10)) (u8 end_.toNat) c.keys
        let past := begin_.toNat + 10 + end_.toNat + 12
        return .again ⟨c.slot + past, u16 (c.size.toNat - past), keys⟩
      else return .again { c with size := 0 }
    else return .done c
  else return .done c

/-- One pass of the second loop of `ParseXMLBox`, for `<KID .. VALUE=".."></KID>`. -/
def parseKidValuePass (mem : Memory) (c : XmlCursor K) : Comp (Pass (XmlCursor K) (XmlCursor K)) :=
  if c.size > 0 then do
    let begin_ ← findInXML mem c.slot c.size (ascii "<KID ") 5
    if begin_ < c.size then do
      let body := c.slot + (begin_.toNat + 10)
      let end_ ← findInXML mem body (u16 (c.size.toNat - begin_.toNat - 10)) (ascii "</KID>") 6
      let keyValue ← findInXML mem body end_ (ascii "VALUE") 5
      let quote ← findInXML mem (body + (keyValue.toNat + 10)) (u16 (end_.toNat - keyValue.toNat - 10)) (ascii "\"") 1
      let keyStart := u16 (quote.toNat + 2)
      let text := body + (keyValue.toNat + 10 + keyStart.toNat)
      let closing ← findInXML mem text (u16 (end_.toNat - keyValue.toNat - 10 - keyStart.toNat - 2)) (ascii "\"") 1
      let keyLength := u16 (closing.toNat - 2)
      -- only here is the closing tag known to be inside the text
      if (end_.toNat : Int) < c.size.toNat - begin_.toNat - 10 then do
        let keys ← addXMLKey mem text (u8 keyLength.toNat) c.keys
        let past := begin_.toNat + 10 + end_.toNat + 12
        return .again ⟨c.slot + past, u16 (c.size.toNat - past), keys⟩
      else return .again { c with size := 0 }
    else return .done c
  else return .done c

/-- `ParseXMLBox` -/
def parseXMLBox (mem : Memory) (data : Nat) (length : UInt16) (keys : List (KeyId K)) : Comp (List (KeyId K)) := do
  let c ← loop (parseKidPass mem) ⟨data, length, keys⟩
  let c ← loop (parseKidValuePass mem) c
  return c.keys

/-- The locals of the record loop of `ParsePlayReadyPSSHData` and the key list. -/
structure RecordCursor (K : Type) where
  data : Nat
  count : UInt16
  keys : List (KeyId K)

/-- One record of an object: rights management records are parsed. -/
def parseRecord (mem : Memory) (recordType recordLength : UInt16) (data : Nat) (keys : List (KeyId K)) :
    Comp (List (KeyId K)) :=
  if recordType = 1 then parseXMLBox mem data recordLength keys else return keys

def parseRecordPass (mem : Memory) (dataEnd : Nat) (c : RecordCursor K) :
    Comp (Pass (RecordCursor K) (RecordCursor K)) :=
  if c.data + 4 < dataEnd then
    let recordType := read16LE mem c.data
    let recordLength := read16LE mem (c.data + 2)
    let data := c.data + 4
    -- a record that reaches the end is not parsed, and stays in the count
    if data + recordLength.toNat ≥ dataEnd then return .done { c with data := data }
    else do
      let keys ← parseRecord mem recordType recordLength data c.keys
      let c : RecordCursor K := ⟨data + recordLength.toNat, c.count - 1, keys⟩
      if c.count = 0 then return .done c else return .again c
  else return .done c

/-- `ParsePlayReadyPSSHData` -/
def parsePlayReadyPSSHData (mem : Memory) (data : Nat) (length : UInt16) (keys : List (KeyId K)) :
    Comp (Bool × List (KeyId K)) :=
  let size := read32LE mem data
  let data := data + 4
  if size = length.toUInt32 then
    let count := read16LE mem data
    if count > 0 then do
      -- `length` counts the size field too, so this end is four bytes behind the object
      let c ← loop (parseRecordPass mem (data + length.toNat)) ⟨data + 2, count, keys⟩
      return (decide (c.count = 0), c.keys)
    else return (decide (count = 0), keys)
  else return (false, keys)

/-! ## Widevine messages -/

open Protobuf in
/-- `WidevinePsshPB2` -/
def widevinePsshPB2 : Message Element :=
  let add := fun (m : Message Element) (p : UInt8 × Element) => m.add p.1 p.2 false
  [(1, .single .uInt32), (2, .repeated .string []), (3, .single .string), (4, .single .string), (5, .single .string),
    (6, .single .string), (7, .single .uInt32), (8, .single .string), (9, .single .uInt32),
    (10, .single .uInt32)].foldl add []

open Protobuf in
/-- The values of `KeyIDs.Elements()`. -/
def keyIDs (m : Message Element) : List (List UInt8) :=
  match m.lookup 2 with
  | some ⟨.repeated _ elements, _⟩ => elements.filterMap fun e => match e with
    | .bytes value _ => some value
    | _ => none
  | _ => []

/-- `KeyId(type, value.data(), value.size())` -/
def KeyId.ofValue (system : SystemType) (value : List UInt8) : KeyId K :=
  { id := keyId (value.take (u8 value.length).toNat), systems := system.mask }

/-- `ParseWidevinePSSHData` -/
def parseWidevinePSSHData (mem : Memory) (data : Nat) (length : UInt16) (keys : List (KeyId K)) :
    Comp (Bool × List (KeyId K)) := do
  let r ← Protobuf.fromBuffer mem data length.toUInt32 widevinePsshPB2
  if r.1 = true ∧ r.2.isValid = true then
    return (true, addAll keys ((keyIDs r.2).map (KeyId.ofValue .wideVine)))
  else return (false, keys)

/-! ## Init data -/

/-- `ParseJSONInitData`: `decodeLength` goes from one kid to the next, as `FromString` leaves it. -/
def parseJSONInitData (mem : Memory) (data : Nat) (length : UInt16) (keys : List (KeyId K)) : List (KeyId K) :=
  ((kids K (slice mem data length.toNat)).foldl (fun (p : UInt16 × List (KeyId K)) keyID64 =>
    let r := fromString K keyID64 (List.replicate 16 (fill K)) p.1
    (r.2, addKeyId p.2 { id := keyId r.1, systems := SystemType.clearKey.mask }))
    (u16 keyLength, keys)).2

/-- Add the `count` keys of a version 1 box, sixteen bytes each. -/
def addTable (mem : Memory) (system : SystemType) : Nat → Nat → List (KeyId K) → List (KeyId K)
  | 0, _, keys => keys
  | count + 1, keyIdData, keys =>
    addTable mem system count (keyIdData + keyLength)
      (addKeyId keys { id := keyId (slice mem keyIdData keyLength), systems := system.mask })

/-- What a box of a supported version holds: where its key table is and how long, and where its
payload is and how long; an absent part is one its own size field denies. -/
structure PsshLayout where
  keyTable : Option (Nat × UInt32)
  payload : Option (Nat × UInt32)
deriving DecidableEq, Repr

/-- The version branches of `ParsePSSHBox`, in 32-bit arithmetic. -/
def psshLayout (mem : Memory) (data : Nat) (length : UInt16) : PsshLayout :=
  if mem data = 0 then
    let psshData := data + 24
    let psshDataSize := read32BE mem (psshData - 4)
    ⟨none, if psshDataSize + 24 > length.toUInt32 then none else some (psshData, psshDataSize)⟩
  else if mem data = 1 then
    let keyIdData := data + 24
    let keyIdCount := read32BE mem (keyIdData - 4)
    if keyIdCount * 16 + 28 > length.toUInt32 then ⟨none, none⟩
    else
      let psshData := data + (28 + keyIdCount * 16).toNat
      let psshDataSize := read32BE mem (psshData - 4)
      ⟨some (keyIdData, keyIdCount),
        if psshDataSize + 28 + keyIdCount * 16 > length.toUInt32 then none else some (psshData, psshDataSize)⟩
  else ⟨none, none⟩

/-- The system of a box: `COMMON` also for an id that is not known. -/
def systemOf (mem : Memory) (systemId : Nat) : SystemType :=
  if Holds mem systemId commonEncryption then .common
  else if Holds mem systemId playReady then .playReady
  else if Holds mem systemId wideVine then .wideVine
  else if Holds mem systemId clearKey then .clearKey
  else .common

/-- The payload decoder of a system. -/
def parsePayload (mem : Memory) (system : SystemType) (payload : Option (Nat × UInt32)) (keys : List (KeyId K)) :
    Comp (List (KeyId K)) :=
  match system, payload with
  | .playReady, some (psshData, psshDataSize) => do
    let r ← parsePlayReadyPSSHData mem psshData (u16 psshDataSize.toNat) keys
    return r.2
  | .wideVine, some (psshData, psshDataSize) => do
    let r ← parseWidevinePSSHData mem psshData (u16 psshDataSize.toNat) keys
    return r.2
  | _, _ => return keys

/-- `ParsePSSHBox` -/
def parsePSSHBox (mem : Memory) (data : Nat) (length : UInt16) (keys : List (KeyId K)) : Comp (List (KeyId K)) :=
  if length ≥ 24 then
    let layout := psshLayout mem data length
    if layout.keyTable.isSome ∨ layout.payload.isSome then do
      let system := systemOf mem (data + 4)
      -- the keys of the payload come before those of the table
      let keys ← parsePayload mem system layout.payload keys
      match layout.keyTable with
      | some (keyIdData, keyIdCount) => return addTable mem system keyIdCount.toNat keyIdData keys
      | none => return keys
    else return keys
  else return keys

/-- The test of `Parse` for a box at `offset`. -/
def acceptsBox (mem : Memory) (data : Nat) (length offset : UInt16) : Bool :=
  let sizeBE := read32BE mem (data + offset.toNat)
  let remaining : Int := length.toNat - offset.toNat
  sizeBE ≤ u32 remaining && decide (remaining ≥ 4) && decide (Holds mem (data + (offset.toNat + 4)) psshHeader)

/-- The UTF-16 probe for `<WRM`. -/
def startsWRM (mem : Memory) (data : Nat) : Bool :=
  mem data == 0x3c && mem (data + 2) == 0x57 && mem (data + 4) == 0x52 && mem (data + 6) == 0x4d

/-- The branches of `Parse` for data that does not start with a box. -/
def parseUnboxed (mem : Memory) (data : Nat) (length : UInt16) (keys : List (KeyId K)) : Comp (List (KeyId K)) :=
  let sizeLE := read32LE mem data
  if startsWRM mem data then parseXMLBox mem data length keys
  else if jsonKeyIds <:+: slice mem data length.toNat then return parseJSONInitData mem data length keys
  else if sizeLE = length.toUInt32 then do
    let r ← parsePlayReadyPSSHData mem data length keys
    return r.2
  else return keys

/-- Where the loop of `Parse` is, and the key list. -/
structure BoxCursor (K : Type) where
  offset : UInt16
  keys : List (KeyId K)

/-- `offset += sizeBE` -/
def nextOffset (mem : Memory) (data : Nat) (offset : UInt16) : UInt16 :=
  u16 (offset.toNat + (read32BE mem (data + offset.toNat)).toNat)

def parsePass (mem : Memory) (data : Nat) (length : UInt16) (c : BoxCursor K) :
    Comp (Pass (BoxCursor K) (List (KeyId K))) :=
  if acceptsBox mem data length c.offset then do
    let sizeBE := read32BE mem (data + c.offset.toNat)
    let keys ← parsePSSHBox mem (data + (c.offset.toNat + 4 + 4)) (u16 (sizeBE - 4 - 4).toNat) c.keys
    let offset := nextOffset mem data c.offset
    if offset < length then return .again ⟨offset, keys⟩ else return .done keys
  -- anything but a box is tried at the start only, and ends the loop
  else if c.offset = 0 then do
    let keys ← parseUnboxed mem data length c.keys
    return .done keys
  else return .done c.keys

/-- `Parse`, from an empty key list: the keys of `CommonEncryptionData(data, length)`. -/
def parse (mem : Memory) (data : Nat) (length : UInt16) : Comp (List (KeyId K)) :=
  if data = nullptr ∨ length = 0 then return [] else loop (parsePass mem data length) ⟨0, []⟩

end

end Ocdm.Cenc
