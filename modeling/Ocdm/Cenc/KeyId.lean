/-
The key list of `CommonEncryptionData` (CENCParser.h): its `KeyId` (Thunder's `Exchange::KeyId`
with a mask of DRM systems), `AddKeyId`, `UpdateKeyStatus` and the lookups. `Thunder` is what the
code relies on of the Thunder framework: how a `KeyId` is built and compared, the JSON array of
kids and the decoder of its strings.
-/
import Ocdm.Lib.Upsert

namespace Ocdm

/-- `Exchange::ISession::KeyStatus` -/
inductive KeyStatus where
  | usable
  | expired
  | released
  | outputRestricted
  | outputRestrictedHDCP22
  | outputDownscaled
  | statusPending
  | internalError
  | hwError
deriving DecidableEq, Repr

/-- The part of Thunder the parser and the sessions use; `K` is the identity of an
`Exchange::KeyId`. -/
class Thunder (K : Type) where
  /-- `KeyId(kid, length)`, from the `length` bytes at `kid` -/
  keyId : List UInt8 → K
  /-- `KeyId(a, b, c, d)`, from the eight bytes at `d` -/
  keyIdOfParts : UInt32 → UInt16 → UInt16 → List UInt8 → K
  /-- `operator==` -/
  same : K → K → Bool
  /-- `IsValid()` -/
  isValid : K → Bool
  /-- the elements of the array `kids` after `FromString` on a text -/
  kids : List UInt8 → List (List UInt8)
  /-- `Core::FromString(text, object, length)`: the object and the length it leaves -/
  fromString : List UInt8 → List UInt8 → UInt16 → List UInt8 × UInt16
  /-- what a byte of an array on the stack holds before it is written -/
  fill : UInt8

namespace Cenc

/-- `CommonEncryptionData::systemType` -/
inductive SystemType where
  | common
  | clearKey
  | playReady
  | wideVine
deriving DecidableEq, Repr

def SystemType.mask : SystemType → UInt32
  | .common => 0x0001
  | .clearKey => 0x0002
  | .playReady => 0x0004
  | .wideVine => 0x0008

/-- `CommonEncryptionData::KeyId`; a fresh one is pending. -/
structure KeyId (K : Type) where
  id : K
  systems : UInt32
  status : KeyStatus := .statusPending
deriving DecidableEq, Repr

/-- `KeyId::Length()` -/
def keyLength : Nat := 16

section

variable {K : Type} [Thunder K]

open Thunder (same)

/-- `KeyId::Flag` -/
def KeyId.flag (key : KeyId K) (systems : UInt32) : KeyId K := { key with systems := key.systems ||| systems }

def addKeyId (keys : List (KeyId K)) (key : KeyId K) : List (KeyId K) :=
  Upsert.upsert (fun e => same e.id key.id) (fun e => e.flag key.systems) key keys

/-- The key list after `UpdateKeyStatus`, and the entry it returns. -/
def updateKeyStatus (keys : List (KeyId K)) (status : KeyStatus) (key : KeyId K) : List (KeyId K) × KeyId K :=
  (Upsert.upsert (fun e => same e.id key.id) (fun e => { e with status := status }) { key with status := status } keys,
    match keys.find? fun e => same e.id key.id with
    | some e => { e with status := status }
    | none => { key with status := status })

def hasKeyId (keys : List (KeyId K)) (key : K) : Bool := keys.any fun e => same e.id key

/-- `Status(key)` -/
def statusOf (keys : List (KeyId K)) (key : K) : KeyStatus :=
  if Thunder.isValid key then
    match keys.find? fun e => same e.id key with
    | some e => e.status
    | none => .statusPending
  else .statusPending

omit [Thunder K] in
@[simp] theorem KeyId.flag_id (key : KeyId K) (systems : UInt32) : (key.flag systems).id = key.id := rfl

/-- The list after `AddKeyId` for each of `adds` in turn. -/
def addAll (keys adds : List (KeyId K)) : List (KeyId K) := adds.foldl addKeyId keys

@[simp] theorem addAll_cons (keys adds : List (KeyId K)) (a : KeyId K) :
    addAll keys (a :: adds) = addAll (addKeyId keys a) adds := rfl

theorem addAll_append (keys xs ys : List (KeyId K)) : addAll keys (xs ++ ys) = addAll (addAll keys xs) ys :=
  List.foldl_append

/-- What a key list holds after adding `adds` to an empty one: the keys in the order of their
first appearance, no two of them equal, each with the systems of all the keys equal to it. -/
structure Collected (adds keys : List (KeyId K)) : Prop where
  order : keys.map KeyId.id = (adds.map KeyId.id).eraseDupsBy same
  distinct : keys.Pairwise fun a b => same a.id b.id = false
  systems : ∀ k ∈ keys, k.systems =
    ((adds.filter fun a => same k.id a.id).map KeyId.systems).foldl (· ||| ·) 0

omit [Thunder K] in
theorem foldl_flag (a : KeyId K) (l : List (KeyId K)) :
    (l.foldl (fun x b => x.flag b.systems) a).systems = (l.map KeyId.systems).foldl (· ||| ·) a.systems := by
  induction l generalizing a with
  | nil => rfl
  | cons b l ih => exact ih (a.flag b.systems)

theorem addAll_collected (hr : Upsert.Equiv (same (K := K))) (adds : List (KeyId K)) :
    Collected adds (addAll [] adds) := by
  have hm : ∀ x a : KeyId K, (x.flag a.systems).id = x.id := fun x a => x.flag_id a.systems
  refine ⟨Upsert.collect_keys hr hm adds, Upsert.collect_distinct hm adds, fun k hk => ?_⟩
  obtain ⟨a, rest, hrows, -, hx⟩ := Upsert.collect_merged hr hm adds k hk
  have hrows' : adds.filter (fun b => same k.id b.id) = a :: rest := hrows
  rw [hrows', hx, foldl_flag]
  simp

end

end Cenc

/-! ## Keys as byte strings -/

/-- A `KeyId` as the bytes it stores. -/
abbrev Kid := List UInt8

/-- Keys compared byte by byte; the parts are stored with their low bytes first. -/
instance : Thunder Kid where
  keyId bytes := bytes
  keyIdOfParts a b c d :=
    [a.toUInt8, (a >>> 8).toUInt8, (a >>> 16).toUInt8, (a >>> 24).toUInt8, b.toUInt8, (b >>> 8).toUInt8,
      c.toUInt8, (c >>> 8).toUInt8] ++ d
  same a b := a == b
  isValid a := a.any (· ≠ 0)
  kids _ := []
  fromString _ object length := (object, length)
  fill := 0

theorem Kid.same_equiv : Upsert.Equiv (Thunder.same (K := Kid)) where
  refl a := beq_self_eq_true a
  symm a b := Bool.beq_comm
  trans h1 h2 := by
    rw [eq_of_beq h1]; exact h2

end Ocdm
