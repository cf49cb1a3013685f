/-
Bytes in memory and C's conversions between integer types. A `Memory` gives the byte at every
address; `Holds mem a bs` says that the bytes from `a` on are `bs`, whatever surrounds them.
Reading an integer the way C programs assemble it, with shifts and `|`, gives the number whose
big- or little-endian bytes are there.
-/
import Mathlib.Data.Nat.Bitwise
import Mathlib.Tactic.Common

namespace Bytes

/-! ## Conversions -/

/-- Conversion to `uint8_t`. -/
def u8 (z : Int) : UInt8 := UInt8.ofInt z
/-- Conversion to `uint16_t`. -/
def u16 (z : Int) : UInt16 := UInt16.ofInt z
/-- Conversion to `uint32_t`. -/
def u32 (z : Int) : UInt32 := UInt32.ofInt z

theorem toNat_u8 (z : Int) : ((u8 z).toNat : Int) = z % 256 := by
  simp only [u8, UInt8.ofInt, UInt8.toNat_ofNat']; omega

theorem toNat_u16 (z : Int) : ((u16 z).toNat : Int) = z % 65536 := by
  simp only [u16, UInt16.ofInt, UInt16.toNat_ofNat']; omega

theorem toNat_u32 (z : Int) : ((u32 z).toNat : Int) = z % 4294967296 := by
  simp only [u32, UInt32.ofInt, UInt32.toNat_ofNat']; omega

theorem u8_eq {z : Int} {n : Nat} (h : z = n) (hn : n < 256) : (u8 z).toNat = n := by
  have := toNat_u8 z; omega

theorem u16_eq {z : Int} {n : Nat} (h : z = n) (hn : n < 65536) : (u16 z).toNat = n := by
  have := toNat_u16 z; omega

theorem u32_eq {z : Int} {n : Nat} (h : z = n) (hn : n < 4294967296) : (u32 z).toNat = n := by
  have := toNat_u32 z; omega

/-- A sum that fits. -/
theorem u8_add {a b : UInt8} {n : Nat} (h : a.toNat + b.toNat = n) (hn : n < 256) : (a + b).toNat = n := by
  rw [UInt8.toNat_add, h]
  exact Nat.mod_eq_of_lt hn

/-! ## Memory -/

/-- The byte at every address. -/
abbrev Memory := Nat → UInt8

/-- The bytes from `a` on are `bs`. -/
def Holds (mem : Memory) : Nat → List UInt8 → Prop
  | _, [] => True
  | a, b :: bs => mem a = b ∧ Holds mem (a + 1) bs

instance decidableHolds (mem : Memory) : (a : Nat) → (bs : List UInt8) → Decidable (Holds mem a bs)
  | _, [] => .isTrue trivial
  | a, b :: bs =>
    have := decidableHolds mem (a + 1) bs
    inferInstanceAs (Decidable (mem a = b ∧ Holds mem (a + 1) bs))

/-- The `n` bytes from `a` on. -/
def slice (mem : Memory) (a : Nat) (n : Nat) : List UInt8 := (List.range n).map fun i => mem (a + i)

/-- The memory that holds `bs` at `a` and `fill` everywhere else. -/
def place (a : Nat) (bs : List UInt8) (fill : UInt8) : Memory := fun i => if a ≤ i then bs.getD (i - a) fill else fill

section Holds

variable {mem : Memory}

@[simp] theorem holds_nil (a : Nat) : Holds mem a [] := trivial

@[simp] theorem holds_cons (a : Nat) (b : UInt8) (bs : List UInt8) :
    Holds mem a (b :: bs) ↔ mem a = b ∧ Holds mem (a + 1) bs := Iff.rfl

@[simp] theorem holds_append (a : Nat) (xs ys : List UInt8) :
    Holds mem a (xs ++ ys) ↔ Holds mem a xs ∧ Holds mem (a + xs.length) ys := by
  induction xs generalizing a with
  | nil => simp
  | cons x xs ih =>
    simp only [List.cons_append, holds_cons, ih, List.length_cons, and_assoc]
    rw [show a + 1 + xs.length = a + (xs.length + 1) by omega]

theorem Holds.get {a : Nat} {bs : List UInt8} (h : Holds mem a bs) {i : Nat} (hi : i < bs.length) :
    mem (a + i) = bs[i] := by
  induction bs generalizing a i with
  | nil => cases hi
  | cons b bs ih =>
    cases i with
    | zero => exact h.1
    | succ i =>
      rw [show a + (i + 1) = a + 1 + i by omega, ih h.2 (Nat.lt_of_succ_lt_succ hi), List.getElem_cons_succ]

theorem holds_of_get {a : Nat} : ∀ {bs : List UInt8}, (∀ i (hi : i < bs.length), mem (a + i) = bs[i]) → Holds mem a bs
  | [], _ => trivial
  | b :: bs, h => by
    refine ⟨h 0 (Nat.zero_lt_succ _), holds_of_get fun i hi => ?_⟩
    have := h (i + 1) (Nat.succ_lt_succ hi)
    rw [show a + 1 + i = a + (i + 1) by omega, this, List.getElem_cons_succ]

/-- Two places that hold the same bytes agree on them. -/
theorem Holds.agree {mem' : Memory} {a a' : Nat} {bs : List UInt8} (h : Holds mem a bs) (h' : Holds mem' a' bs) :
    ∀ i < bs.length, mem' (a' + i) = mem (a + i) :=
  fun i hi => by rw [h.get hi, h'.get hi]

theorem Holds.slice_eq {a : Nat} {bs : List UInt8} (h : Holds mem a bs) : slice mem a bs.length = bs := by
  refine List.ext_getElem (by simp [slice]) fun i h1 h2 => ?_
  simp only [slice, List.getElem_map, List.getElem_range]
  exact h.get h2

end Holds

@[simp] theorem slice_length (mem : Memory) (a n : Nat) : (slice mem a n).length = n := by simp [slice]

theorem holds_slice (mem : Memory) (a n : Nat) : Holds mem a (slice mem a n) :=
  holds_of_get fun i hi => by simp [slice]

theorem Holds.slice_append {a : Nat} {bs : List UInt8} (h : Holds mem a bs) (n : Nat) :
    slice mem a (bs.length + n) = bs ++ slice mem (a + bs.length) n := by
  have hbs := h.slice_eq
  simp only [slice, List.range_add, List.map_append, List.map_map] at hbs ⊢
  rw [hbs]
  congr 1
  exact List.map_congr_left fun i _ => congrArg mem (Nat.add_assoc ..).symm

/-- Of two lists of bytes at one address the shorter begins the longer. -/
theorem Holds.begins {mem : Memory} {a : Nat} {xs ys : List UInt8} (hx : Holds mem a xs) (hy : Holds mem a ys)
    (hle : xs.length ≤ ys.length) : xs <+: ys := by
  obtain ⟨n, hn⟩ := Nat.exists_eq_add_of_le hle
  refine ⟨slice mem (a + xs.length) n, ?_⟩
  rw [← hx.slice_append, ← hn, hy.slice_eq]

theorem holds_place (a : Nat) (bs : List UInt8) (fill : UInt8) : Holds (place a bs fill) a bs :=
  holds_of_get fun i hi => by simp [place, hi]

theorem Holds.eq_iff {mem : Memory} {a : Nat} {xs ys : List UInt8} (h : Holds mem a xs)
    (hl : xs.length = ys.length) : Holds mem a ys ↔ xs = ys := by
  constructor
  · intro hy
    rw [← h.slice_eq, hl, hy.slice_eq]
  · rintro rfl; exact h

/-! ## Occurrences of a key -/

section Occurrences

variable {mem : Memory} {a p : Nat} {xs key : List UInt8}

/-- A key held inside the bytes `xs` is a part of them. -/
theorem Holds.isInfix (h : Holds mem a xs) (hp : a ≤ p) (hend : p + key.length ≤ a + xs.length) (hk : Holds mem p key) :
    key <:+: xs := by
  obtain ⟨i, rfl⟩ := Nat.exists_eq_add_of_le hp
  have hdrop : xs = xs.take i ++ ((xs.drop i).take key.length ++ (xs.drop i).drop key.length) := by
    rw [List.take_append_drop, List.take_append_drop]
  have hlen : (xs.take i).length = i := by rw [List.length_take]; omega
  rw [hdrop, holds_append, holds_append, hlen] at h
  have heq : (xs.drop i).take key.length = key :=
    (Holds.eq_iff h.2.1 (by rw [List.length_take, List.length_drop]; omega)).1 hk
  rw [heq] at hdrop
  exact ⟨xs.take i, (xs.drop i).drop key.length, by rw [List.append_assoc]; exact hdrop.symm⟩

/-- No key begins among bytes that its first byte is not one of. -/
theorem Holds.not_of_head {c : UInt8} (h : Holds mem a xs) (hc : c ∉ xs) (hp : a ≤ p) (hlt : p < a + xs.length) :
    ¬ Holds mem p (c :: key) := by
  rintro ⟨hmem, -⟩
  obtain ⟨i, rfl⟩ := Nat.exists_eq_add_of_le hp
  rw [h.get (show i < xs.length by omega)] at hmem
  exact hc (hmem ▸ List.getElem_mem _)

/-- No key begins before a byte that only its first byte can be, unless it is a part of what is before. -/
theorem Holds.not_before {c : UInt8} (h : Holds mem a (xs ++ [c])) (hc : c ∉ key.tail) (hno : ¬ key <:+: xs)
    (hp : a ≤ p) (hlt : p < a + xs.length) : ¬ Holds mem p key := by
  intro hk
  rw [holds_append] at h
  by_cases hend : p + key.length ≤ a + xs.length
  · exact hno (h.1.isInfix hp hend hk)
  · -- the key reaches the byte `c`, behind its first byte
    obtain ⟨i, hi⟩ := Nat.exists_eq_add_of_lt hlt
    have hik : i + 1 < key.length := by omega
    have hget : mem (p + (i + 1)) = key[i + 1] := hk.get hik
    rw [show p + (i + 1) = a + xs.length by omega, h.2.1] at hget
    refine hc (List.mem_iff_getElem.2 ⟨i, by rw [List.length_tail]; omega, ?_⟩)
    rw [List.getElem_tail, ← hget]

/-- No key begins in blocks that do not contain it, each ended by a byte the key does not have. -/
theorem Holds.not_in_blocks (hne : key ≠ []) : ∀ {a : Nat} (blocks : List (List UInt8 × UInt8)),
    Holds mem a (blocks.flatMap fun b => b.1 ++ [b.2]) → (∀ b ∈ blocks, ¬ key <:+: b.1 ∧ b.2 ∉ key) →
    ∀ {p : Nat}, a ≤ p → p < a + (blocks.flatMap fun b => b.1 ++ [b.2]).length → ¬ Holds mem p key
  | a, [], _, _, p, hp, hlt, _ => by simp at hlt; omega
  | a, (xs, c) :: blocks, h, hb, p, hp, hlt, hk => by
    obtain ⟨hno, hc⟩ := hb (xs, c) (List.mem_cons_self ..)
    simp only [List.flatMap_cons, List.length_append, List.length_singleton] at h hlt
    rw [holds_append] at h
    rcases Nat.lt_trichotomy p (a + xs.length) with hlt' | rfl | hgt
    · exact Holds.not_before h.1 (fun ht => hc (List.mem_of_mem_tail ht)) hno hp hlt' hk
    · obtain ⟨k, ks, rfl⟩ := List.exists_cons_of_ne_nil hne
      have hlast : Holds mem (a + xs.length) [c] := ((holds_append _ _ _).1 h.1).2
      refine hlast.not_of_head ?_ (Nat.le_refl _) (by simp) hk
      intro hk0
      exact hc (by rw [List.mem_singleton.1 hk0]; exact List.mem_cons_self ..)
    · exact Holds.not_in_blocks hne blocks h.2 (fun b hm => hb b (List.mem_cons_of_mem _ hm))
        (by simp only [List.length_append, List.length_singleton]; omega)
        (by simp only [List.length_append, List.length_singleton]; omega) hk

end Occurrences

/-! ## Every other byte -/

/-- Every other byte from `a` on. -/
def wide (mem : Memory) (a : Nat) : Memory := fun i => mem (a + 2 * i)

/-- The UTF-16LE bytes of characters below 256. -/
def utf16 (cs : List UInt8) : List UInt8 := cs.flatMap fun c => [c, 0]

theorem utf16_cons (c : UInt8) (cs : List UInt8) : utf16 (c :: cs) = c :: 0 :: utf16 cs := rfl

theorem utf16_length (cs : List UInt8) : (utf16 cs).length = 2 * cs.length := by
  induction cs with
  | nil => rfl
  | cons c cs ih => rw [utf16_cons, List.length_cons, List.length_cons, ih, List.length_cons]; omega

theorem holds_wide {mem : Memory} {a k : Nat} {cs : List UInt8} (h : Holds mem (a + 2 * k) (utf16 cs)) :
    Holds (wide mem a) k cs := by
  induction cs generalizing k with
  | nil => trivial
  | cons c cs ih =>
    obtain ⟨hc, -, hcs⟩ := h
    exact ⟨hc, ih hcs⟩

theorem holds_wide_add {mem : Memory} {a m : Nat} (k : Nat) (cs : List UInt8) :
    Holds (wide mem (a + 2 * m)) k cs ↔ Holds (wide mem a) (m + k) cs := by
  induction cs generalizing k with
  | nil => exact Iff.rfl
  | cons c cs ih =>
    have hget : wide mem (a + 2 * m) k = wide mem a (m + k) := congrArg mem (by omega)
    rw [holds_cons, holds_cons, hget, ih, Nat.add_assoc]

/-! ## Integers in memory -/

theorem or_eq_add_of_dvd {x y : Nat} (k : Nat) (hx : 2 ^ k ∣ x) (hy : y < 2 ^ k) : x ||| y = x + y := by
  obtain ⟨c, rfl⟩ := hx
  exact (Nat.two_pow_add_eq_or_of_lt hy c).symm

/-- `(ptr[0] << 24) | (ptr[1] << 16) | (ptr[2] << 8) | ptr[3]` -/
def read32BE (mem : Memory) (a : Nat) : UInt32 :=
  (mem a).toUInt32 <<< 24 ||| (mem (a + 1)).toUInt32 <<< 16 ||| (mem (a + 2)).toUInt32 <<< 8 |||
    (mem (a + 3)).toUInt32

/-- `ptr[0] | (ptr[1] << 8) | (ptr[2] << 16) | (ptr[3] << 24)` -/
def read32LE (mem : Memory) (a : Nat) : UInt32 :=
  (mem a).toUInt32 ||| (mem (a + 1)).toUInt32 <<< 8 ||| (mem (a + 2)).toUInt32 <<< 16 |||
    (mem (a + 3)).toUInt32 <<< 24

/-- `ptr[0] | (ptr[1] << 8)` -/
def read16LE (mem : Memory) (a : Nat) : UInt16 := (mem a).toUInt16 ||| (mem (a + 1)).toUInt16 <<< 8

/-- The big-endian bytes of a 32-bit number. -/
def be32 (n : Nat) : List UInt8 :=
  [UInt8.ofNat (n / 16777216), UInt8.ofNat (n / 65536), UInt8.ofNat (n / 256), UInt8.ofNat n]

/-- The little-endian bytes of a 32-bit number. -/
def le32 (n : Nat) : List UInt8 :=
  [UInt8.ofNat n, UInt8.ofNat (n / 256), UInt8.ofNat (n / 65536), UInt8.ofNat (n / 16777216)]

/-- The little-endian bytes of a 16-bit number. -/
def le16 (n : Nat) : List UInt8 := [UInt8.ofNat n, UInt8.ofNat (n / 256)]

@[simp] theorem be32_length (n : Nat) : (be32 n).length = 4 := rfl
@[simp] theorem le32_length (n : Nat) : (le32 n).length = 4 := rfl
@[simp] theorem le16_length (n : Nat) : (le16 n).length = 2 := rfl

theorem read32BE_toNat (mem : Memory) (a : Nat) :
    (read32BE mem a).toNat = (mem a).toNat * 16777216 + (mem (a + 1)).toNat * 65536 +
      (mem (a + 2)).toNat * 256 + (mem (a + 3)).toNat := by
  have h0 := (mem a).toNat_lt
  have h1 := (mem (a + 1)).toNat_lt
  have h2 := (mem (a + 2)).toNat_lt
  have h3 := (mem (a + 3)).toNat_lt
  simp only [read32BE, UInt32.toNat_or, UInt32.toNat_shiftLeft, UInt8.toNat_toUInt32, Nat.shiftLeft_eq]
  generalize (mem a).toNat = x0 at *
  generalize (mem (a + 1)).toNat = x1 at *
  generalize (mem (a + 2)).toNat = x2 at *
  generalize (mem (a + 3)).toNat = x3 at *
  have e0 : x0 * 2 ^ ((24 : UInt32).toNat % 32) % 2 ^ 32 = 2 ^ 24 * x0 := by
    rw [show (24 : UInt32).toNat % 32 = 24 from rfl]; omega
  have e1 : x1 * 2 ^ ((16 : UInt32).toNat % 32) % 2 ^ 32 = 2 ^ 16 * x1 := by
    rw [show (16 : UInt32).toNat % 32 = 16 from rfl]; omega
  have e2 : x2 * 2 ^ ((8 : UInt32).toNat % 32) % 2 ^ 32 = 2 ^ 8 * x2 := by
    rw [show (8 : UInt32).toNat % 32 = 8 from rfl]; omega
  have o1 : 2 ^ 24 * x0 ||| 2 ^ 16 * x1 = 2 ^ 24 * x0 + 2 ^ 16 * x1 := or_eq_add_of_dvd 24 (by omega) (by omega)
  have o2 := or_eq_add_of_dvd (x := 2 ^ 24 * x0 + 2 ^ 16 * x1) (y := 2 ^ 8 * x2) 16 (by omega) (by omega)
  have o3 := or_eq_add_of_dvd (x := 2 ^ 24 * x0 + 2 ^ 16 * x1 + 2 ^ 8 * x2) (y := x3) 8 (by omega) (by omega)
  rw [e0, e1, e2, o1, o2, o3]
  omega

theorem read32LE_toNat (mem : Memory) (a : Nat) :
    (read32LE mem a).toNat = (mem a).toNat + (mem (a + 1)).toNat * 256 +
      (mem (a + 2)).toNat * 65536 + (mem (a + 3)).toNat * 16777216 := by
  have h0 := (mem a).toNat_lt
  have h1 := (mem (a + 1)).toNat_lt
  have h2 := (mem (a + 2)).toNat_lt
  have h3 := (mem (a + 3)).toNat_lt
  simp only [read32LE, UInt32.toNat_or, UInt32.toNat_shiftLeft, UInt8.toNat_toUInt32, Nat.shiftLeft_eq]
  generalize (mem a).toNat = x0 at *
  generalize (mem (a + 1)).toNat = x1 at *
  generalize (mem (a + 2)).toNat = x2 at *
  generalize (mem (a + 3)).toNat = x3 at *
  have e1 : x1 * 2 ^ ((8 : UInt32).toNat % 32) % 2 ^ 32 = 2 ^ 8 * x1 := by
    rw [show (8 : UInt32).toNat % 32 = 8 from rfl]; omega
  have e2 : x2 * 2 ^ ((16 : UInt32).toNat % 32) % 2 ^ 32 = 2 ^ 16 * x2 := by
    rw [show (16 : UInt32).toNat % 32 = 16 from rfl]; omega
  have e3 : x3 * 2 ^ ((24 : UInt32).toNat % 32) % 2 ^ 32 = 2 ^ 24 * x3 := by
    rw [show (24 : UInt32).toNat % 32 = 24 from rfl]; omega
  have o1 : 2 ^ 8 * x1 ||| x0 = 2 ^ 8 * x1 + x0 := or_eq_add_of_dvd 8 (by omega) (by omega)
  have o2 := or_eq_add_of_dvd (x := 2 ^ 16 * x2) (y := 2 ^ 8 * x1 + x0) 16 (by omega) (by omega)
  have o3 := or_eq_add_of_dvd (x := 2 ^ 24 * x3) (y := 2 ^ 16 * x2 + (2 ^ 8 * x1 + x0)) 24 (by omega) (by omega)
  rw [e1, e2, e3, Nat.or_comm x0, o1, Nat.or_comm _ (2 ^ 16 * x2), o2, Nat.or_comm _ (2 ^ 24 * x3), o3]
  omega

theorem read16LE_toNat (mem : Memory) (a : Nat) :
    (read16LE mem a).toNat = (mem a).toNat + (mem (a + 1)).toNat * 256 := by
  have h0 := (mem a).toNat_lt
  have h1 := (mem (a + 1)).toNat_lt
  simp only [read16LE, UInt16.toNat_or, UInt16.toNat_shiftLeft, UInt8.toNat_toUInt16, Nat.shiftLeft_eq]
  generalize (mem a).toNat = x0 at *
  generalize (mem (a + 1)).toNat = x1 at *
  have e1 : x1 * 2 ^ ((8 : UInt16).toNat % 16) % 2 ^ 16 = 2 ^ 8 * x1 := by
    rw [show (8 : UInt16).toNat % 16 = 8 from rfl]; omega
  have o1 : 2 ^ 8 * x1 ||| x0 = 2 ^ 8 * x1 + x0 := or_eq_add_of_dvd 8 (by omega) (by omega)
  rw [e1, Nat.or_comm x0, o1]
  omega

theorem Holds.read32BE {mem : Memory} {a : Nat} {n : Nat} (h : Holds mem a (be32 n)) (hn : n < 4294967296) :
    (read32BE mem a).toNat = n := by
  obtain ⟨h0, h1, h2, h3, -⟩ := h
  rw [read32BE_toNat, h0, h1, h2, h3]
  simp only [UInt8.toNat_ofNat']
  omega

theorem Holds.read32LE {mem : Memory} {a : Nat} {n : Nat} (h : Holds mem a (le32 n)) (hn : n < 4294967296) :
    (read32LE mem a).toNat = n := by
  obtain ⟨h0, h1, h2, h3, -⟩ := h
  rw [read32LE_toNat, h0, h1, h2, h3]
  simp only [UInt8.toNat_ofNat']
  omega

theorem Holds.read16LE {mem : Memory} {a : Nat} {n : Nat} (h : Holds mem a (le16 n)) (hn : n < 65536) :
    (read16LE mem a).toNat = n := by
  obtain ⟨h0, h1, -⟩ := h
  rw [read16LE_toNat, h0, h1]
  simp only [UInt8.toNat_ofNat']
  omega

end Bytes
