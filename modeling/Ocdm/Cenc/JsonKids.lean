/-
The keys of `ParseJSONInitData` (CENCParser.h). `FromString` stores the number of bytes it has written in the length
it is given, and the loop passes that on to the next string; so a string that decodes to fewer than sixteen bytes cuts
off the strings behind it, and the rest of a key is what its array held before. Each key is that of its own string
exactly if, beyond the bytes that another string decodes to, there is nothing but the fill (`keys_alone_iff`).
-/
import Ocdm.Cenc.Parser

namespace Ocdm.Cenc

open Bytes Thunder

section

variable {K : Type} [Thunder K]

/-- The key of one string: `keyID` holds `array` before it is written. -/
def jsonKey (decodeLength : UInt16) (keyID64 array : List UInt8) : KeyId K :=
  { id := keyId (fromString K keyID64 array decodeLength).1, systems := SystemType.clearKey.mask }

/-- The keys that the loop of `ParseJSONInitData` adds from its pass `i` on; `stack i` is what the array of the pass
holds before it is written. -/
def jsonKeysFrom (stack : Nat → List UInt8) : Nat → UInt16 → List (List UInt8) → List (KeyId K)
  | _, _, [] => []
  | i, decodeLength, keyID64 :: rest =>
    jsonKey decodeLength keyID64 (stack i) ::
      jsonKeysFrom stack (i + 1) (fromString K keyID64 (stack i) decodeLength).2 rest

def jsonKeys (stack : Nat → List UInt8) (strings : List (List UInt8)) : List (KeyId K) :=
  jsonKeysFrom stack 0 (u16 keyLength) strings

/-- `ParseJSONInitData` adds these keys, for arrays that hold the same byte everywhere. -/
theorem parseJSONInitData_keys (mem : Memory) (data : Nat) (length : UInt16) (keys : List (KeyId K)) :
    parseJSONInitData mem data length keys =
      addAll keys (jsonKeys (fun _ => List.replicate 16 (fill K)) (kids K (slice mem data length.toNat))) := by
  unfold parseJSONInitData jsonKeys
  generalize kids K (slice mem data length.toNat) = strings
  generalize u16 keyLength = decodeLength
  generalize 0 = i
  induction strings generalizing decodeLength keys i with
  | nil => rfl
  | cons keyID64 rest ih =>
    rw [List.foldl_cons, jsonKeysFrom, addAll_cons]
    exact ih ..

/-- What the code relies on: `FromString` writes at most `length` bytes of what the text decodes to and stores their
number, and a `KeyId` holds its sixteen bytes. -/
structure TextDecoder (K : Type) [Thunder K] (decode : List UInt8 → List UInt8) : Prop where
  writes : ∀ text object length, length.toNat ≤ object.length → (fromString K text object length).1 =
    (decode text).take length.toNat ++ object.drop (min length.toNat (decode text).length)
  counts : ∀ text object length, length.toNat ≤ object.length →
    (fromString K text object length).2.toNat = min length.toNat (decode text).length
  holds : ∀ a b : List UInt8, a.length = 16 → b.length = 16 → (keyId a : K) = keyId b → a = b

/-- The key a string should have: the first sixteen bytes it decodes to, and the fill behind them. -/
def keyOf (decode : List UInt8 → List UInt8) (filler keyID64 : List UInt8) : KeyId K :=
  { id := keyId ((decode keyID64).take 16 ++ filler.drop (min 16 (decode keyID64).length))
    systems := SystemType.clearKey.mask }

/-- The key of each string is its own, in any order of the strings. -/
def KeysAlone (K : Type) [Thunder K] (decode : List UInt8 → List UInt8) (filler : List UInt8)
    (stack : Nat → List UInt8) (strings : List (List UInt8)) : Prop :=
  ∀ order : List (List UInt8), order.Perm strings →
    (jsonKeys stack order : List (KeyId K)) = order.map (keyOf decode filler)

end

/-- From the byte `n` on, and up to the sixteenth, there is nothing but the fill. -/
def FillFrom (filler : List UInt8) (n : Nat) (bytes : List UInt8) : Prop :=
  ∀ p, n ≤ p → p < 16 → p < bytes.length → bytes.getD p 0 = filler.getD p 0

theorem fillFrom_min (filler bytes : List UInt8) (n m : Nat) :
    FillFrom filler (min n m) bytes ↔ FillFrom filler n bytes ∧ FillFrom filler m bytes := by
  constructor
  · intro h
    exact ⟨fun p hp => h p (by omega), fun p hp => h p (by omega)⟩
  · rintro ⟨hn, hm⟩ p hp
    by_cases h : n ≤ p
    · exact hn p h
    · exact hm p (by omega)

/-! ## An array that is written -/

section

variable {bytes object : List UInt8} {n : Nat}

/-- `n` bytes at most, over what the array held. -/
theorem written_length (hn : n ≤ 16) (hobject : object.length = 16) :
    (bytes.take n ++ object.drop (min n bytes.length)).length = 16 := by
  rw [List.length_append, List.length_take, List.length_drop, hobject]
  omega

theorem written_getD (p : Nat) : (bytes.take n ++ object.drop (min n bytes.length)).getD p 0 =
    if p < min n bytes.length then bytes.getD p 0 else object.getD p 0 := by
  split
  · rename_i hp
    rw [List.getD_append _ _ _ _ (by rw [List.length_take]; exact hp), List.getD_eq_getElem?_getD,
      List.getElem?_take_of_lt (by omega), ← List.getD_eq_getElem?_getD]
  · rename_i hp
    rw [List.getD_append_right _ _ _ _ (by rw [List.length_take]; omega), List.length_take,
      List.getD_eq_getElem?_getD, List.getElem?_drop, Nat.add_sub_cancel' (by omega), ← List.getD_eq_getElem?_getD]

/-- Two arrays written with the same bytes, one of them in full. -/
theorem written_eq_iff {filler : List UInt8} (hn : n ≤ 16) (hobject : object.length = 16) (hfill : filler.length = 16) :
    bytes.take n ++ object.drop (min n bytes.length) = bytes.take 16 ++ filler.drop (min 16 bytes.length) ↔
      ∀ p < 16, (if p < min n bytes.length then bytes.getD p 0 else object.getD p 0) =
        if p < bytes.length then bytes.getD p 0 else filler.getD p 0 := by
  have hfull : ∀ p < 16, (bytes.take 16 ++ filler.drop (min 16 bytes.length)).getD p 0 =
      if p < bytes.length then bytes.getD p 0 else filler.getD p 0 := by
    intro p hp
    rw [written_getD, if_congr (show p < min 16 bytes.length ↔ p < bytes.length by omega) rfl rfl]
  constructor
  · intro h p hp
    rw [← written_getD, h, hfull p hp]
  · intro h
    refine List.ext_getElem ?_ fun p h1 h2 => ?_
    · rw [written_length hn hobject, written_length (Nat.le_refl _) hfill]
    · rw [written_length hn hobject] at h1
      rw [← List.getD_eq_getElem _ 0, ← List.getD_eq_getElem _ 0, written_getD, hfull p h1]
      exact h p h1

/-- Over the fill itself, what is cut off must be the fill. -/
theorem written_fill_iff {filler : List UInt8} (hn : n ≤ 16) (hfill : filler.length = 16) :
    bytes.take n ++ filler.drop (min n bytes.length) = bytes.take 16 ++ filler.drop (min 16 bytes.length) ↔
      FillFrom filler n bytes := by
  rw [written_eq_iff hn hfill hfill]
  constructor
  · intro h p hnp hp hlen
    have := h p hp
    rw [if_neg (by omega), if_pos hlen] at this
    exact this.symm
  · intro h p hp
    by_cases hlen : p < bytes.length
    · rw [if_pos hlen]
      by_cases hnp : n ≤ p
      · rw [if_neg (by omega), h p hnp hp hlen]
      · rw [if_pos (by omega)]
    · rw [if_neg (by omega), if_neg hlen]

/-- Over bytes that all differ from the fill, the string must decode to all sixteen bytes. -/
theorem written_long {filler : List UInt8} (hn : n ≤ 16) (hobject : object.length = 16) (hfill : filler.length = 16)
    (hother : ∀ p < 16, object.getD p 0 ≠ filler.getD p 0)
    (h : bytes.take n ++ object.drop (min n bytes.length) = bytes.take 16 ++ filler.drop (min 16 bytes.length)) :
    16 ≤ bytes.length := by
  by_contra hshort
  have hp := (written_eq_iff hn hobject hfill).1 h bytes.length (by omega)
  rw [if_neg (by omega), if_neg (by omega)] at hp
  exact hother bytes.length (by omega) hp

end

/-! ## The keys -/

section

variable {K : Type} [Thunder K] {decode : List UInt8 → List UInt8} (hK : TextDecoder K decode) {filler : List UInt8}
  (hfill : filler.length = 16)

include hK

/-- A pass leaves the smaller one of the length it has and the number of bytes its string decodes to. -/
theorem decodeLength_next (decodeLength : UInt16) (keyID64 : List UInt8) {array : List UInt8} (hn : decodeLength.toNat ≤ 16)
    (harray : array.length = 16) : (fromString K keyID64 array decodeLength).2.toNat =
      min decodeLength.toNat (decode keyID64).length := hK.counts _ _ _ (by omega)

include hfill

theorem jsonKey_eq_iff {decodeLength : UInt16} {keyID64 array : List UInt8} (hn : decodeLength.toNat ≤ 16)
    (harray : array.length = 16) : (jsonKey decodeLength keyID64 array : KeyId K) = keyOf decode filler keyID64 ↔
      (decode keyID64).take decodeLength.toNat ++ array.drop (min decodeLength.toNat (decode keyID64).length) =
        (decode keyID64).take 16 ++ filler.drop (min 16 (decode keyID64).length) := by
  unfold jsonKey keyOf
  rw [hK.writes _ _ _ (by omega)]
  constructor
  · intro h
    exact hK.holds _ _ (written_length hn harray) (written_length (Nat.le_refl _) hfill) (congrArg KeyId.id h)
  · intro h
    rw [h]

/-- Over the fill, from a pass on: nothing but fill is cut off by the length so far, nor by the strings before. -/
theorem jsonKeysFrom_fill (i : Nat) (decodeLength : UInt16) (strings : List (List UInt8))
    (hn : decodeLength.toNat ≤ 16) :
    (jsonKeysFrom (fun _ => filler) i decodeLength strings : List (KeyId K)) = strings.map (keyOf decode filler) ↔
      (∀ s ∈ strings, FillFrom filler decodeLength.toNat (decode s)) ∧
        strings.Pairwise fun a b => FillFrom filler (decode a).length (decode b) := by
  induction strings generalizing i decodeLength with
  | nil => exact iff_of_true rfl ⟨fun s hs => (by cases hs), .nil⟩
  | cons keyID64 rest ih =>
    have hnext := decodeLength_next hK decodeLength keyID64 hn hfill
    rw [jsonKeysFrom, List.map_cons, List.cons.injEq, jsonKey_eq_iff hK hfill hn hfill, written_fill_iff hn hfill,
      ih _ _ (by omega), hnext, List.forall_mem_cons, List.pairwise_cons]
    simp only [fillFrom_min, forall_and]
    constructor
    · rintro ⟨hkey, ⟨hlength, hstring⟩, hrest⟩
      exact ⟨⟨hkey, hlength⟩, hstring, hrest⟩
    · rintro ⟨⟨hkey, hlength⟩, hstring, hrest⟩
      exact ⟨hkey, ⟨hlength, hstring⟩, hrest⟩

/-- With strings of sixteen bytes and more, the arrays are written in full. -/
theorem jsonKeysFrom_long {stack : Nat → List UInt8} (hstack : ∀ i, (stack i).length = 16) (i : Nat)
    (decodeLength : UInt16) (strings : List (List UInt8)) (hn : decodeLength.toNat = 16)
    (hlong : ∀ s ∈ strings, 16 ≤ (decode s).length) :
    (jsonKeysFrom stack i decodeLength strings : List (KeyId K)) = strings.map (keyOf decode filler) := by
  induction strings generalizing i decodeLength with
  | nil => rfl
  | cons keyID64 rest ih =>
    obtain ⟨hhead, hrest⟩ := List.forall_mem_cons.1 hlong
    have hnext := decodeLength_next hK decodeLength keyID64 (by omega) (hstack i)
    rw [jsonKeysFrom, List.map_cons, ih _ _ (by omega) hrest, (jsonKey_eq_iff hK hfill (by omega) (hstack i)).2]
    rw [hn, Nat.min_eq_left hhead, List.drop_eq_nil_of_le (Nat.le_of_eq (hstack i)),
      List.drop_eq_nil_of_le (Nat.le_of_eq hfill)]

/-- Over arrays that differ from the fill in all bytes, all strings must be long. -/
theorem long_of_jsonKeysFrom {array : List UInt8} (harray : array.length = 16)
    (hother : ∀ p < 16, array.getD p 0 ≠ filler.getD p 0) (i : Nat) (decodeLength : UInt16)
    (strings : List (List UInt8)) (hn : decodeLength.toNat ≤ 16)
    (h : (jsonKeysFrom (fun _ => array) i decodeLength strings : List (KeyId K)) = strings.map (keyOf decode filler)) :
    ∀ s ∈ strings, 16 ≤ (decode s).length := by
  induction strings generalizing i decodeLength with
  | nil => exact fun s hs => by cases hs
  | cons keyID64 rest ih =>
    have hnext := decodeLength_next hK decodeLength keyID64 hn harray
    rw [jsonKeysFrom, List.map_cons, List.cons.injEq, jsonKey_eq_iff hK hfill hn harray] at h
    exact List.forall_mem_cons.2 ⟨written_long hn harray hfill hother h.1, ih _ _ (by omega) h.2⟩

end

/-- For any list of strings, under what the code relies on. Over arrays that hold the fill, each key is that of its
own string, in any order, exactly if what any string decodes to beyond the length of another one is the fill. Over
arrays that hold anything, exactly if all strings decode to sixteen bytes or more. -/
theorem keys_alone_iff {K : Type} [Thunder K] {decode : List UInt8 → List UInt8} (hK : TextDecoder K decode)
    {filler : List UInt8} (hfill : filler.length = 16) (strings : List (List UInt8)) :
    (KeysAlone K decode filler (fun _ => filler) strings ↔ strings.Pairwise fun a b =>
      FillFrom filler (decode a).length (decode b) ∧ FillFrom filler (decode b).length (decode a)) ∧
    ((∀ stack : Nat → List UInt8, (∀ i, (stack i).length = 16) → KeysAlone K decode filler stack strings) ↔
      ∀ s ∈ strings, 16 ≤ (decode s).length) := by
  have hsixteen : (u16 keyLength).toNat = 16 := rfl
  have hone : ∀ order : List (List UInt8),
      (jsonKeys (fun _ => filler) order : List (KeyId K)) = order.map (keyOf decode filler) ↔
        order.Pairwise fun a b => FillFrom filler (decode a).length (decode b) := by
    intro order
    unfold jsonKeys
    rw [jsonKeysFrom_fill hK hfill 0 _ order (by omega), hsixteen]
    exact and_iff_right fun s _ p hp hlt => absurd hlt (by omega)
  refine ⟨⟨fun h => ?_, fun h order horder => (hone order).2 ?_⟩, ⟨fun h => ?_, fun h stack hstack order horder => ?_⟩⟩
  · -- the strings as they are, and backwards
    have hforwards := (hone strings).1 (h strings (.refl _))
    have hbackwards := (hone strings.reverse).1 (h strings.reverse (List.reverse_perm strings))
    exact hforwards.and (List.pairwise_reverse.1 hbackwards)
  · exact ((horder.pairwise_iff fun hab => ⟨hab.2, hab.1⟩).2 h).imp And.left
  · have harray : (filler.map (· + 1)).length = 16 := by rw [List.length_map, hfill]
    refine long_of_jsonKeysFrom hK hfill harray (fun p hp => ?_) 0 _ strings (Nat.le_of_eq hsixteen)
      (h (fun _ => filler.map (· + 1)) (fun _ => harray) strings (.refl _))
    rw [List.getD_eq_getElem _ 0 (by omega), List.getD_eq_getElem _ 0 (by omega), List.getElem_map]
    intro heq
    have hnat := congrArg UInt8.toNat heq
    have hlt := filler[p].toNat_lt
    rw [UInt8.toNat_add, show (1 : UInt8).toNat = 1 from rfl] at hnat
    omega
  · exact jsonKeysFrom_long hK hfill hstack 0 _ order hsixteen fun s hs => h s (horder.subset hs)

/-! ## A short string in front -/

/-- A `KeyId` as its bytes, with the decoder of `Core::FromString`. -/
structure JsonKid where
  bytes : List UInt8
deriving DecidableEq, Repr

/-- The bytes of a base64 text, up to the first character that is not a digit. -/
def fromBase64 : UInt8 → UInt8 → List UInt8 → List UInt8
  | _, _, [] => []
  | state, lastStuff, current :: text =>
    match base64Digit current with
    | none => []
    | some converted =>
      if state = 0 then fromBase64 1 (converted <<< 2) text
      else if state = 1 then (((converted &&& 0x30) >>> 4) ||| lastStuff) :: fromBase64 2 ((converted &&& 0x0F) <<< 4) text
      else if state = 2 then (((converted &&& 0x3C) >>> 2) ||| lastStuff) :: fromBase64 3 ((converted &&& 0x03) <<< 6) text
      else ((converted &&& 0x3F) ||| lastStuff) :: fromBase64 0 0 text

instance : Thunder JsonKid where
  keyId bytes := ⟨bytes⟩
  keyIdOfParts a b c d := ⟨Thunder.keyIdOfParts (K := Kid) a b c d⟩
  same a b := a.bytes == b.bytes
  isValid a := a.bytes.any (· ≠ 0)
  kids _ := []
  fromString text object length :=
    let bytes := (fromBase64 0 0 text).take length.toNat
    (bytes ++ object.drop bytes.length, UInt16.ofNat bytes.length)
  fill := 0

theorem jsonKid_decodes : TextDecoder JsonKid (fromBase64 0 0) where
  writes text object length _ := by
    show (fromBase64 0 0 text).take length.toNat ++ object.drop ((fromBase64 0 0 text).take length.toNat).length = _
    rw [List.length_take]
  counts text object length _ := by
    show (UInt16.ofNat ((fromBase64 0 0 text).take length.toNat).length).toNat = _
    have hlt := length.toNat_lt
    rw [List.length_take, UInt16.toNat_ofNat']
    exact Nat.mod_eq_of_lt (by omega)
  holds a b _ _ h := congrArg JsonKid.bytes h

/-- One byte: `AQ==`. -/
def shortKid : List UInt8 := [0x41, 0x51, 0x3d, 0x3d]

/-- The bytes 1, 2 and so on: `AQIDBAUGBwgJCgsMDQ4PEA==`. -/
def fullKid : List UInt8 :=
  [0x41, 0x51, 0x49, 0x44, 0x42, 0x41, 0x55, 0x47, 0x42, 0x77, 0x67, 0x4a, 0x43, 0x67, 0x73, 0x4d, 0x44, 0x51, 0x34,
    0x50, 0x45, 0x41, 0x3d, 0x3d]

theorem keys_alone_full :
    KeysAlone JsonKid (fromBase64 0 0) (List.replicate 16 0) (fun _ => List.replicate 16 0) [fullKid, fullKid] ∧
    ∀ stack : Nat → List UInt8, (∀ i, (stack i).length = 16) →
      KeysAlone JsonKid (fromBase64 0 0) (List.replicate 16 0) stack [fullKid, fullKid] := by
  have hfill : (List.replicate 16 (0 : UInt8)).length = 16 := rfl
  have hiff := keys_alone_iff jsonKid_decodes hfill [fullKid, fullKid]
  have hlong : ∀ s ∈ [fullKid, fullKid], 16 ≤ (fromBase64 0 0 s).length := by decide
  have hfull : (fromBase64 0 0 fullKid).length = 16 := by decide
  have hbeyond : FillFrom (List.replicate 16 0) (fromBase64 0 0 fullKid).length (fromBase64 0 0 fullKid) :=
    fun p hp hlt => absurd hlt (by omega)
  exact ⟨hiff.1.2 (.cons (fun s hs => by rw [List.mem_singleton.1 hs]; exact ⟨hbeyond, hbeyond⟩) (.cons (fun s hs =>
    by cases hs) .nil)), hiff.2.2 hlong⟩

/-- Behind the string of one byte, the other one gives its first byte only. -/
theorem full_after_short : ¬ ∀ strings, KeysAlone JsonKid (fromBase64 0 0) (List.replicate 16 0)
    (fun _ => List.replicate 16 0) strings := by
  intro h
  have hkeys := h [shortKid, fullKid] _ (.refl _)
  exact absurd hkeys (by decide)

end Ocdm.Cenc
