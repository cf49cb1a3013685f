/-
What `Base64` decodes (CENCParser.h): the digits of a text are a number, and its bits are written from the highest on,
eight at a time. It always ends, and when it has written sixteen bytes they are the first 128 bits of exactly 22 digits
(`base64_sixteen`).
-/
import Ocdm.Cenc.XmlText

namespace Ocdm.Cenc

open Bytes Comp Thunder

/-! ## Numbers in base 64 and 256 -/

def digitsValue (ds : List UInt8) : Nat := ds.foldl (fun v d => 64 * v + d.toNat) 0

def bytesValue (bs : List UInt8) : Nat := bs.foldl (fun v b => 256 * v + b.toNat) 0

theorem digitsValue_concat (ds : List UInt8) (d : UInt8) : digitsValue (ds ++ [d]) = 64 * digitsValue ds + d.toNat :=
  List.foldl_concat ..

theorem bytesValue_concat (bs : List UInt8) (b : UInt8) : bytesValue (bs ++ [b]) = 256 * bytesValue bs + b.toNat :=
  List.foldl_concat ..

theorem base64Digit_lt {c d : UInt8} (h : base64Digit c = some d) : d.toNat < 64 := by
  have hall := (by decide +kernel : ∀ m : Fin 256, ∀ d ∈ base64Digit (UInt8.ofNat m), d.toNat < 64)
    ⟨c.toNat, c.toNat_lt⟩
  rw [UInt8.ofNat_toNat] at hall
  exact hall d h

/-! The bits of a digit behind `x` pending ones: those that finish the byte, and those that are pending then. -/

theorem put_6_2 {x d : UInt8} (hx : x.toNat < 64) (hd : d.toNat < 64) :
    ((d &&& 0x30) >>> 4 ||| x <<< 2).toNat = 4 * x.toNat + d.toNat / 16 ∧ (d &&& 0x0F).toNat = d.toNat % 16 := by
  have hall := (by decide +kernel : ∀ m n : Fin 64,
    ((UInt8.ofNat n &&& 0x30) >>> 4 ||| UInt8.ofNat m <<< 2).toNat = 4 * m.val + n.val / 16 ∧
      (UInt8.ofNat n &&& 0x0F).toNat = n.val % 16) ⟨x.toNat, hx⟩ ⟨d.toNat, hd⟩
  rwa [UInt8.ofNat_toNat, UInt8.ofNat_toNat] at hall

theorem put_4_4 {x d : UInt8} (hx : x.toNat < 16) (hd : d.toNat < 64) :
    ((d &&& 0x3C) >>> 2 ||| x <<< 4).toNat = 16 * x.toNat + d.toNat / 4 ∧ (d &&& 0x03).toNat = d.toNat % 4 := by
  have hall := (by decide +kernel : ∀ m : Fin 16, ∀ n : Fin 64,
    ((UInt8.ofNat n &&& 0x3C) >>> 2 ||| UInt8.ofNat m <<< 4).toNat = 16 * m.val + n.val / 4 ∧
      (UInt8.ofNat n &&& 0x03).toNat = n.val % 4) ⟨x.toNat, hx⟩ ⟨d.toNat, hd⟩
  rwa [UInt8.ofNat_toNat, UInt8.ofNat_toNat] at hall

theorem put_2_6 {x d : UInt8} (hx : x.toNat < 4) (hd : d.toNat < 64) :
    ((d &&& (0x3F : UInt8)) ||| x <<< 6).toNat = 64 * x.toNat + d.toNat := by
  have hall := (by decide +kernel : ∀ m : Fin 4, ∀ n : Fin 64,
    ((UInt8.ofNat n &&& (0x3F : UInt8)) ||| UInt8.ofNat m <<< 6).toNat = 64 * m.val + n.val) ⟨x.toNat, hx⟩ ⟨d.toNat, hd⟩
  rwa [UInt8.ofNat_toNat, UInt8.ofNat_toNat] at hall

/-! ## The decoder -/

/-- The bits of `n` digits that are not among the `f` bytes yet: none, six, four or two, left of the last byte. -/
def PendingBits (state lastStuff : UInt8) (n f digits bytes : Nat) : Prop :=
  (state = 0 ∧ 6 * n = 8 * f ∧ digits = bytes) ∨
    (∃ x : UInt8, state = 1 ∧ 6 * n = 8 * f + 6 ∧ x.toNat < 64 ∧ lastStuff = x <<< 2 ∧ digits = 64 * bytes + x.toNat) ∨
    (∃ x : UInt8, state = 2 ∧ 6 * n = 8 * f + 4 ∧ x.toNat < 16 ∧ lastStuff = x <<< 4 ∧ digits = 16 * bytes + x.toNat) ∨
    ∃ x : UInt8, state = 3 ∧ 6 * n = 8 * f + 2 ∧ x.toNat < 4 ∧ lastStuff = x <<< 6 ∧ digits = 4 * bytes + x.toNat

/-- The decoder has read the digits `ds` of the text. -/
structure Decoding (mem : Memory) (value : Nat) (sourceLength : UInt8) (ds : List UInt8) (s : Base64State) : Prop where
  digits : ∀ i (hi : i < ds.length), base64Digit (wide mem value i) = some ds[i] ∧ 2 * i < sourceLength.toNat
  index : s.index.toNat = 2 * ds.length
  filler : s.filler.toNat ≤ 32
  pending : PendingBits s.state s.lastStuff ds.length s.filler.toNat (digitsValue ds)
    (bytesValue (slice s.object 0 s.filler.toNat))

section

variable {mem : Memory} {value : Nat} {sourceLength : UInt8} {ds : List UInt8} {s : Base64State}

theorem Decoding.start (mem : Memory) (value : Nat) (sourceLength lastStuff : UInt8) (object : Memory) :
    Decoding mem value sourceLength [] ⟨0, 0, 0, lastStuff, object⟩ :=
  ⟨fun i hi => absurd hi (Nat.not_lt_zero i), rfl, Nat.zero_le _, .inl ⟨rfl, rfl, rfl⟩⟩

/-- Six bits are more than eight only fourfold. -/
theorem Decoding.length_le (h : Decoding mem value sourceLength ds s) :
    8 * s.filler.toNat ≤ 6 * ds.length ∧ 6 * ds.length ≤ 8 * s.filler.toNat + 6 := by
  rcases h.pending with ⟨-, hn, -⟩ | ⟨x, -, hn, -⟩ | ⟨x, -, hn, -⟩ | ⟨x, -, hn, -⟩ <;> omega

/-- A byte is written. -/
theorem bytesValue_update (object : Memory) {filler : UInt8} (hf : filler.toNat < 32) (b : UInt8) :
    (filler + 1).toNat = filler.toNat + 1 ∧
      bytesValue (slice (Function.update object filler.toNat b) 0 (filler + 1).toNat) =
        256 * bytesValue (slice object 0 filler.toNat) + b.toNat := by
  have hadd : (filler + 1).toNat = filler.toNat + 1 := u8_add rfl (by omega)
  exact ⟨hadd, by rw [hadd, slice_update, bytesValue_concat]⟩

/-- What is written of `n` digits, and what is pending. -/
structure Written (s : Base64State) (n digits : Nat) : Prop where
  filler : s.filler.toNat ≤ 32
  pending : PendingBits s.state s.lastStuff n s.filler.toNat digits (bytesValue (slice s.object 0 s.filler.toNat))

/-- A byte more is written. -/
theorem written_byte {n digits : Nat} (hf : s.filler.toNat < 32) {state lastStuff b : UInt8}
    (h : PendingBits state lastStuff n (s.filler.toNat + 1) digits
      (256 * bytesValue (slice s.object 0 s.filler.toNat) + b.toNat)) :
    Written ⟨state, s.index, s.filler + 1, lastStuff, Function.update s.object s.filler.toNat b⟩ n digits := by
  obtain ⟨hfiller, hbytes⟩ := bytesValue_update s.object hf b
  refine ⟨?_, ?_⟩
  · show (s.filler + 1).toNat ≤ 32
    omega
  · show PendingBits state lastStuff n (s.filler + 1).toNat digits
      (bytesValue (slice (Function.update s.object s.filler.toNat b) 0 (s.filler + 1).toNat))
    rw [hbytes, hfiller]
    exact h

/-- One more digit is written, or pending. -/
theorem Written.put {n digits : Nat} (h : Written s n digits) (hf : s.filler.toNat < 32) {d : UInt8}
    (hd : d.toNat < 64) : Written (base64Put s d) (n + 1) (64 * digits + d.toNat) := by
  rcases h.pending with ⟨hstate, hbits, heq⟩ | ⟨x, hstate, hbits, hx, hlast, heq⟩ |
    ⟨x, hstate, hbits, hx, hlast, heq⟩ | ⟨x, hstate, hbits, hx, hlast, heq⟩
  · rw [base64Put_first d hstate]
    refine ⟨h.filler, .inr (.inl ⟨d, rfl, ?_, hd, rfl, by rw [heq]⟩)⟩
    show 6 * (n + 1) = 8 * s.filler.toNat + 6
    omega
  · obtain ⟨hbyte, hrest⟩ := put_6_2 hx hd
    rw [base64Put_second d hstate, hlast]
    exact written_byte hf
      (.inr (.inr (.inl ⟨d &&& 0x0F, rfl, by omega, by omega, rfl, by rw [hbyte, hrest, heq]; omega⟩)))
  · obtain ⟨hbyte, hrest⟩ := put_4_4 hx hd
    rw [base64Put_third d hstate, hlast]
    exact written_byte hf
      (.inr (.inr (.inr ⟨d &&& 0x03, rfl, by omega, by omega, rfl, by rw [hbyte, hrest, heq]; omega⟩)))
  · have hbyte := put_2_6 hx hd
    rw [base64Put_fourth d hstate]
    exact written_byte hf (.inl ⟨rfl, by omega, by rw [hlast, hbyte, heq]; omega⟩)

/-- One more digit. -/
theorem Decoding.put (h : Decoding mem value sourceLength ds s) (hin : s.index < sourceLength)
    (hf : s.filler.toNat < 32) {d : UInt8} (hd : base64Digit (mem (value + s.index.toNat)) = some d) :
    Decoding mem value sourceLength (ds ++ [d]) { base64Put s d with index := s.index + 2 } := by
  have hlength := h.length_le
  have hindex := h.index
  have hin := UInt8.lt_iff_toNat_lt.1 hin
  have hput : Written (base64Put s d) (ds.length + 1) (64 * digitsValue ds + d.toNat) :=
    Written.put ⟨h.filler, h.pending⟩ hf (base64Digit_lt hd)
  refine ⟨fun i hi => ?_, ?_, hput.filler, ?_⟩
  · rw [List.length_append, List.length_singleton] at hi
    by_cases hids : i < ds.length
    · rw [List.getElem_append_left hids]
      exact h.digits i hids
    · obtain rfl : i = ds.length := by omega
      rw [List.getElem_concat_length rfl]
      rw [hindex] at hd hin
      exact ⟨hd, hin⟩
  · show (s.index + 2).toNat = _
    rw [UInt8.toNat_add, List.length_append, List.length_singleton, hindex]
    show (2 * ds.length + 2) % 256 = _
    omega
  · rw [digitsValue_concat, List.length_append, List.length_singleton]
    exact hput.pending

/-- One pass: another digit, or the end. -/
theorem base64Pass_step (h : Decoding mem value sourceLength ds s) :
    (∃ d s', (base64Pass mem value sourceLength 32 s).Returns (.again s') ∧
      Decoding mem value sourceLength (ds ++ [d]) s' ∧ s.filler.toNat < 32) ∨
    (base64Pass mem value sourceLength 32 s).Returns (.done (s.filler, s.object)) := by
  by_cases hin : s.index < sourceLength ∧ s.filler < 32
  · cases hd : base64Digit (mem (value + s.index.toNat)) with
    | some d =>
      have hf : s.filler.toNat < 32 := UInt8.lt_iff_toNat_lt.1 hin.2
      refine .inl ⟨d, _, ?_, h.put hin.1 hf hd, hf⟩
      rw [base64Pass, if_pos hin, hd]
      exact returns_pure.2 rfl
    | none =>
      right
      rw [base64Pass, if_pos hin, hd]
      exact returns_pure.2 rfl
  · right
    rw [base64Pass, if_neg hin]
    exact returns_pure.2 rfl

/-- The decoder ends, and has read some digits then. -/
theorem base64_decodes (mem : Memory) (value : Nat) (sourceLength : UInt8) (object : Memory) :
    ∃ r, (base64 mem value sourceLength object 32).Returns r ∧
      ∃ ds s, Decoding mem value sourceLength ds s ∧ r = (s.filler, s.object) := by
  refine loop_variant (fun s => ∃ ds, Decoding mem value sourceLength ds s)
    (fun r => ∃ ds s, Decoding mem value sourceLength ds s ∧ r = (s.filler, s.object))
    (fun s => 128 - s.index.toNat) ?_ ⟨[], .start mem value sourceLength 0 object⟩
  rintro s ⟨ds, hs⟩
  rcases base64Pass_step hs with ⟨d, s', hagain, hs', hf⟩ | hdone
  · refine .inl ⟨s', hagain, ⟨_, hs'⟩, ?_⟩
    have hindex := hs.index
    have hindex' := hs'.index
    have hlength := hs.length_le
    rw [List.length_append, List.length_singleton] at hindex'
    omega
  · exact .inr ⟨_, hdone, ds, s, hs, rfl⟩

/-- The sixteen bytes `kid` are decoded from the 22 digits of the text at `value`: their first 128 bits. -/
structure DecodedFrom (mem : Memory) (value : Nat) (sourceLength : UInt8) (ds kid : List UInt8) : Prop where
  digits : ∀ i (hi : i < ds.length), base64Digit (wide mem value i) = some ds[i] ∧ 2 * i < sourceLength.toNat
  number : ds.length = 22
  bytes : kid.length = 16
  value : bytesValue kid = digitsValue ds / 16

theorem base64_sixteen {object : Memory} {r : UInt8 × Memory}
    (hr : (base64 mem value sourceLength object 32).Returns r) (hsixteen : r.1.toNat = 16) :
    ∃ ds, DecodedFrom mem value sourceLength ds (slice r.2 0 16) := by
  obtain ⟨r', hr', ds, s, hs, rfl⟩ := base64_decodes mem value sourceLength object
  obtain rfl := hr'.unique hr
  have hfiller : s.filler.toNat = 16 := hsixteen
  refine ⟨ds, hs.digits, ?_, slice_length .., ?_⟩
  · rcases hs.pending with ⟨-, hn, -⟩ | ⟨x, -, hn, -⟩ | ⟨x, -, hn, -⟩ | ⟨x, -, hn, -⟩ <;> omega
  · have htake : slice s.object 0 16 = slice s.object 0 s.filler.toNat := by rw [hfiller]
    show bytesValue (slice s.object 0 16) = _
    rw [htake]
    -- 22 digits leave four bits
    rcases hs.pending with ⟨-, hn, -⟩ | ⟨x, -, hn, -⟩ | ⟨x, -, hn, hx, -, heq⟩ | ⟨x, -, hn, -⟩
    · omega
    · omega
    · rw [heq]
      omega
    · omega

end

section

variable {K : Type} [Thunder K] {mem : Memory} {text : Nat} {length : UInt8}

/-- A text that decodes to sixteen bytes adds their key, and any other none. -/
theorem addXMLKey_adds (mem : Memory) (text : Nat) (length : UInt8) (keys : List (KeyId K)) :
    ∃ keys', (addXMLKey mem text length keys).Returns keys' ∧
      (keys' = keys ∨ ∃ ds kid, DecodedFrom mem text length ds kid ∧ keys' = addKeyId keys (playReadyKey kid)) := by
  obtain ⟨r, hr, -⟩ := base64_decodes mem text length (byteArray K)
  by_cases hsixteen : r.1.toNat = keyLength
  · obtain ⟨ds, hds⟩ := base64_sixteen hr hsixteen
    refine ⟨_, hr.bind ?_, .inr ⟨ds, _, hds, rfl⟩⟩
    rw [if_pos hsixteen]
    exact returns_pure.2 rfl
  · refine ⟨keys, hr.bind ?_, .inl rfl⟩
    rw [if_neg hsixteen]
    exact returns_pure.2 rfl

end

end Ocdm.Cenc
