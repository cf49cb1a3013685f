/-
`StringToAllocatedBuffer` (open_cdm.cpp), behind the metadata calls: it copies a string to a buffer of the caller, or
tells how large one has to be. Both sizes are sixteen bits wide and the one needed is capped there, so a string that
is too long for any buffer counts as stored in the largest one, and an empty buffer is written far outside. Everywhere
else a call does what it should, and the size it tells is enough (`stringToAllocatedBuffer_iff`).
-/
import Mathlib.Data.List.TakeWhile
import Ocdm.Adapter.Subsamples

namespace Ocdm.Client

open Adapter (OpenCDMError errorNone)

def errorMoreDataAvailable : OpenCDMError := 2

theorem moreDataAvailable_ne_none : errorMoreDataAvailable ≠ errorNone := by decide

/-! ## The copy -/

/-- Conversion to `size_t`. -/
def sizeT (z : Int) : Nat := (z % 2 ^ 64).toNat

/-- What is written through the pointer: `strncpy(destinationBuffer, source, count)`, and a zero at an index. -/
inductive Store where
  | strncpy (source : List UInt8) (count : Nat)
  | terminate (index : Int)
deriving DecidableEq, Repr

/-- The store writes at the index. -/
def Store.Writes : Store → Int → Prop
  | .strncpy _ count, i => 0 ≤ i ∧ i < count
  | .terminate index, i => i = index

/-- The memory after a store, by the indices of the pointer; `strncpy` fills up with zeros. -/
def Store.apply (mem : Int → UInt8) : Store → Int → UInt8
  | .strncpy source count => fun i =>
    if 0 ≤ i ∧ i < count then (source.takeWhile (· ≠ 0)).getD i.toNat 0 else mem i
  | .terminate index => fun i => if i = index then 0 else mem i

/-- The result, the size left in `bufferSize`, and what was written. -/
structure Stored where
  result : OpenCDMError
  bufferSize : UInt16
  stores : List Store
deriving DecidableEq, Repr

def sizeNeeded (source : List UInt8) : UInt16 :=
  if source.length + 1 > 65535 then 65535 else UInt16.ofNat (source.length + 1)

/-- `StringToAllocatedBuffer<uint16_t>`; the buffer may be null. The sizes less one are of type `int`. -/
def stringToAllocatedBuffer (source : List UInt8) (destinationBuffer : Option (Int → UInt8)) (bufferSize : UInt16) :
    Stored :=
  let sizeneeded := sizeNeeded source
  match destinationBuffer with
  | none => ⟨errorMoreDataAvailable, sizeneeded, []⟩
  | some _ =>
    if bufferSize < sizeneeded then
      ⟨errorMoreDataAvailable, sizeneeded,
        [.strncpy source (sizeT ((bufferSize.toNat : Int) - 1)), .terminate ((bufferSize.toNat : Int) - 1)]⟩
    else
      ⟨errorNone, sizeneeded,
        [.strncpy source (sizeT ((sizeneeded.toNat : Int) - 1)), .terminate ((sizeneeded.toNat : Int) - 1)]⟩

/-! ## What a call has to do -/

/-- The memory after a call. -/
def Stored.memory (r : Stored) (mem : Int → UInt8) : Int → UInt8 := r.stores.foldl Store.apply mem

/-- The memory from the pointer on is this text, and a zero. -/
def HoldsText (mem : Int → UInt8) (text : List UInt8) : Prop :=
  (∀ i : Nat, ∀ h : i < text.length, mem i = text[i]) ∧ mem text.length = 0

/-- The whole string and its terminator are in the buffer. -/
def WholeStored (source : List UInt8) (destinationBuffer : Option (Int → UInt8)) (bufferSize : UInt16)
    (r : Stored) : Prop :=
  ∃ mem, destinationBuffer = some mem ∧ source.length + 1 ≤ bufferSize.toNat ∧ HoldsText (r.memory mem) source

/-- One call: it writes inside the buffer, leaves a buffer that is not empty with the longest prefix that fits, and
succeeds exactly when the whole string is stored. -/
structure Delivers (source : List UInt8) (destinationBuffer : Option (Int → UInt8)) (bufferSize : UInt16)
    (r : Stored) : Prop where
  inside : ∀ store ∈ r.stores, ∀ i, store.Writes i → destinationBuffer.isSome ∧ 0 ≤ i ∧ i < bufferSize.toNat
  terminated : ∀ mem, destinationBuffer = some mem → 0 < bufferSize.toNat →
    HoldsText (r.memory mem) (source.take (bufferSize.toNat - 1))
  success : r.result = errorNone ↔ WholeStored source destinationBuffer bufferSize r

/-- A call without a buffer, and one with a buffer of the size it told: this one stores the whole string, or says
that there is more. -/
def ProbeDelivers (source : List UInt8) : Prop :=
  ∀ (bufferSize : UInt16) (mem : Int → UInt8),
    let size := (stringToAllocatedBuffer source none bufferSize).bufferSize
    let r := stringToAllocatedBuffer source (some mem) size
    (r.result = errorNone ∧ WholeStored source (some mem) size r) ∨ r.result = errorMoreDataAvailable

/-! ## The two stores -/

theorem toNat_sizeNeeded (source : List UInt8) : (sizeNeeded source).toNat = min (source.length + 1) 65535 := by
  unfold sizeNeeded
  split
  · rw [Nat.min_eq_right (by omega)]
    rfl
  · rw [UInt16.toNat_ofNat_of_lt' (by show _ < 65536; omega), Nat.min_eq_left (by omega)]

theorem sizeT_pred {n : Nat} (hpos : 0 < n) (hlt : n < 65536) : sizeT ((n : Int) - 1) = n - 1 := by
  unfold sizeT
  omega

/-- Copying some characters of a string and a zero behind them, inside a buffer. -/
theorem holdsText_stores {source : List UInt8} (hsource : 0 ∉ source) (mem : Int → UInt8) {n : Nat} (hpos : 0 < n)
    (hlt : n < 65536) (hn : n ≤ source.length + 1) :
    HoldsText ([Store.strncpy source (sizeT ((n : Int) - 1)), .terminate ((n : Int) - 1)].foldl Store.apply mem)
      (source.take (n - 1)) := by
  have hno : source.takeWhile (· ≠ 0) = source := by
    rw [List.takeWhile_eq_self_iff]
    intro c hc
    exact decide_eq_true fun heq => hsource (heq ▸ hc)
  have hlength : (source.take (n - 1)).length = n - 1 := by
    rw [List.length_take]
    omega
  rw [sizeT_pred hpos hlt]
  refine ⟨fun i hi => ?_, ?_⟩
  · rw [hlength] at hi
    show (if (i : Int) = (n : Int) - 1 then 0 else if (0 : Int) ≤ i ∧ (i : Int) < (n - 1 : Nat) then
      (source.takeWhile (· ≠ 0)).getD (i : Int).toNat 0 else mem i) = _
    rw [if_neg (by omega), if_pos (by omega), hno, Int.toNat_natCast, List.getElem_take,
      List.getD_eq_getElem _ _ (by omega)]
  · rw [hlength]
    exact if_pos (by omega)

theorem inside_stores {source : List UInt8} {n : Nat} (hpos : 0 < n) (hlt : n < 65536) :
    ∀ store ∈ [Store.strncpy source (sizeT ((n : Int) - 1)), .terminate ((n : Int) - 1)], ∀ i, store.Writes i →
      0 ≤ i ∧ i < n := by
  rw [sizeT_pred hpos hlt]
  intro store hstore i hi
  simp only [List.mem_cons, List.not_mem_nil, or_false] at hstore
  rcases hstore with rfl | rfl
  · have hrange : 0 ≤ i ∧ i < ((n - 1 : Nat) : Int) := hi
    omega
  · have hlast : i = (n : Int) - 1 := hi
    omega

/-! ## Calls -/

theorem call_success (source : List UInt8) (mem : Int → UInt8) (bufferSize : UInt16) :
    (stringToAllocatedBuffer source (some mem) bufferSize).result = errorNone ↔
      min (source.length + 1) 65535 ≤ bufferSize.toNat := by
  rw [← toNat_sizeNeeded]
  unfold stringToAllocatedBuffer
  dsimp only
  by_cases hfits : bufferSize < sizeNeeded source
  · rw [if_pos hfits]
    rw [UInt16.lt_iff_toNat_lt] at hfits
    exact iff_of_false moreDataAvailable_ne_none (by omega)
  · rw [if_neg hfits]
    rw [UInt16.lt_iff_toNat_lt] at hfits
    exact iff_of_true rfl (by omega)

section

variable {source : List UInt8} (hsource : 0 ∉ source)
include hsource

/-- A call that has enough room, or not. -/
theorem call_memory (mem : Int → UInt8) {bufferSize : UInt16} (hpos : 0 < bufferSize.toNat) :
    (∀ store ∈ (stringToAllocatedBuffer source (some mem) bufferSize).stores, ∀ i, store.Writes i →
      0 ≤ i ∧ i < bufferSize.toNat) ∧
    HoldsText ((stringToAllocatedBuffer source (some mem) bufferSize).memory mem)
      (source.take (bufferSize.toNat - 1)) := by
  have hneeded := toNat_sizeNeeded source
  have hlt := bufferSize.toNat_lt
  unfold stringToAllocatedBuffer Stored.memory
  dsimp only
  by_cases hfits : bufferSize < sizeNeeded source
  · rw [if_pos hfits]
    rw [UInt16.lt_iff_toNat_lt] at hfits
    exact ⟨inside_stores hpos hlt, holdsText_stores hsource mem hpos hlt (by omega)⟩
  · rw [if_neg hfits]
    rw [UInt16.lt_iff_toNat_lt] at hfits
    refine ⟨fun store hstore i hi => ?_, ?_⟩
    · have hinside := inside_stores (by omega) (sizeNeeded source).toNat_lt store hstore i hi
      omega
    · have htake : source.take (bufferSize.toNat - 1) = source.take ((sizeNeeded source).toNat - 1) := by
        by_cases hlong : source.length + 1 ≤ 65535
        · rw [List.take_of_length_le (by omega), List.take_of_length_le (by omega)]
        · rw [show bufferSize.toNat = (sizeNeeded source).toNat by omega]
      rw [htake]
      exact holdsText_stores hsource mem (by omega) (sizeNeeded source).toNat_lt (by omega)

theorem wholeStored_iff (mem : Int → UInt8) (bufferSize : UInt16) :
    WholeStored source (some mem) bufferSize (stringToAllocatedBuffer source (some mem) bufferSize) ↔
      source.length + 1 ≤ bufferSize.toNat := by
  constructor
  · rintro ⟨-, -, hfits, -⟩
    exact hfits
  · intro hfits
    obtain ⟨-, hholds⟩ := call_memory hsource mem (Nat.lt_of_lt_of_le (Nat.succ_pos _) hfits)
    rw [List.take_of_length_le (by omega)] at hholds
    exact ⟨mem, rfl, hfits, hholds⟩

/-- A call does what it has to, when there is no buffer, or one that is not empty, and not the largest one for a string
that is longer. -/
theorem delivers_iff (destinationBuffer : Option (Int → UInt8)) (bufferSize : UInt16) :
    Delivers source destinationBuffer bufferSize (stringToAllocatedBuffer source destinationBuffer bufferSize) ↔
      (destinationBuffer.isSome = true →
        0 < bufferSize.toNat ∧ (source.length + 1 ≤ 65535 ∨ bufferSize.toNat < 65535)) := by
  have hlt := bufferSize.toNat_lt
  cases destinationBuffer with
  | none =>
    refine iff_of_true ⟨nofun, nofun, iff_of_false moreDataAvailable_ne_none ?_⟩ nofun
    rintro ⟨mem, hnull, -⟩
    cases hnull
  | some mem =>
    have hsuccess := call_success source mem bufferSize
    have hwhole := wholeStored_iff hsource mem bufferSize
    constructor
    · rintro ⟨hinside, -, hresult⟩ -
      have hpos : 0 < bufferSize.toNat := by
        by_contra hzero
        -- the last index of an empty buffer is in front of it
        have hfirst : bufferSize = 0 := UInt16.toNat_inj.1 (by rw [UInt16.toNat_zero]; omega)
        subst hfirst
        have hneeded := toNat_sizeNeeded source
        have hfits : (0 : UInt16) < sizeNeeded source := by
          rw [UInt16.lt_iff_toNat_lt, UInt16.toNat_zero]
          omega
        have hstores : (stringToAllocatedBuffer source (some mem) 0).stores =
            [.strncpy source (sizeT (-1)), .terminate (-1)] :=
          congrArg Stored.stores (if_pos hfits)
        have hout := hinside (.terminate (-1)) (by rw [hstores]; simp) (-1) rfl
        exact absurd hout.2.1 (by decide)
      rw [hsuccess, hwhole] at hresult
      exact ⟨hpos, by omega⟩
    · intro h
      obtain ⟨hpos, hroom⟩ := h rfl
      obtain ⟨hinside, hholds⟩ := call_memory hsource mem hpos
      refine ⟨fun store hstore i hi => ⟨rfl, hinside store hstore i hi⟩, ?_, ?_⟩
      · rintro _ ⟨⟩ _
        exact hholds
      · rw [hsuccess, hwhole]
        omega

theorem probeDelivers_iff : ProbeDelivers source ↔ source.length + 1 ≤ 65535 := by
  have hneeded := toNat_sizeNeeded source
  unfold ProbeDelivers
  dsimp only
  have hsize : ∀ bufferSize, (stringToAllocatedBuffer source none bufferSize).bufferSize = sizeNeeded source :=
    fun _ => rfl
  simp only [hsize, wholeStored_iff hsource]
  have hresult : ∀ mem, (stringToAllocatedBuffer source (some mem) (sizeNeeded source)).result = errorNone :=
    fun mem => (call_success source mem _).2 (by omega)
  constructor
  · intro h
    rcases h 0 (fun _ => 0) with ⟨-, hfits⟩ | hmore
    · omega
    · rw [hresult] at hmore
      exact absurd hmore.symm moreDataAvailable_ne_none
  · intro hshort _ mem
    exact .inl ⟨hresult mem, by omega⟩

/-- For every string without zeros: each call does what it has to exactly when it is given no buffer, or one that is
not empty and not the largest one for a longer string; and the size that is told is enough exactly when the string with
its terminator is not longer than sixteen bits count. -/
theorem stringToAllocatedBuffer_iff :
    (∀ (destinationBuffer : Option (Int → UInt8)) (bufferSize : UInt16),
      Delivers source destinationBuffer bufferSize (stringToAllocatedBuffer source destinationBuffer bufferSize) ↔
        (destinationBuffer.isSome = true →
          0 < bufferSize.toNat ∧ (source.length + 1 ≤ 65535 ∨ bufferSize.toNat < 65535))) ∧
    (ProbeDelivers source ↔ source.length + 1 ≤ 65535) :=
  ⟨delivers_iff hsource, probeDelivers_iff hsource⟩

end

/-- The metadata of the unit test. -/
theorem stringToAllocatedBuffer_meta :
    (∀ (destinationBuffer : Option (Int → UInt8)) (bufferSize : UInt16),
      Delivers [109, 101, 116, 97] destinationBuffer bufferSize
          (stringToAllocatedBuffer [109, 101, 116, 97] destinationBuffer bufferSize) ↔
        (destinationBuffer.isSome = true →
          0 < bufferSize.toNat ∧ (([109, 101, 116, 97] : List UInt8).length + 1 ≤ 65535 ∨ bufferSize.toNat < 65535))) ∧
    (ProbeDelivers [109, 101, 116, 97] ↔ ([109, 101, 116, 97] : List UInt8).length + 1 ≤ 65535) :=
  stringToAllocatedBuffer_iff (by decide)

/-- An empty buffer is written in front of its start. -/
theorem empty_buffer_written :
    ¬ Delivers [109] (some fun _ => 0) 0 (stringToAllocatedBuffer [109] (some fun _ => 0) 0) := by
  intro h
  have hout := h.inside (.terminate (-1)) (by decide) (-1) rfl
  exact absurd hout.2.1 (by decide)

end Ocdm.Client
