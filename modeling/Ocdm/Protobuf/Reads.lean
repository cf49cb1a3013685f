/-
What the decoder's value elements read of memory (Protobuf.h). Beside each `Deserialize` stand the addresses it reads:
they are inside the bytes it was given, and two memories that agree on them give the same result, wherever the bytes lie
(`Scalar.deserialize_local`). A payload that is taken whole is taken so in every place that has room for it
(`Scalar.deserialize_moved`).
-/
import Ocdm.Protobuf.Consumes

namespace Ocdm.Protobuf

open Bytes
open Wire (Varint IsPayload)

/-! ## Varints -/

/-- The loop of `ReadVarint` reads the byte at `a`. -/
def VarintLoopTouches (mem : Memory) (stop : Nat) : Nat → Nat → Nat → Prop
  | 0, _, _ => False
  | size + 1, ptr, a =>
    ptr < stop ∧ (a = ptr ∨ ¬ mem ptr &&& 0x80 = 0 ∧ VarintLoopTouches mem stop size (ptr + 1) a)

/-- `ReadVarint` reads the byte at `a`. -/
def VarintTouches (mem : Memory) (data : Nat) (length : UInt32) (a : Nat) : Prop :=
  VarintLoopTouches mem (data + length.toNat) 8 data a

theorem VarintLoopTouches.inside {mem : Memory} {stop : Nat} {size : Nat} :
    ∀ {ptr a : Nat}, VarintLoopTouches mem stop size ptr a → ptr ≤ a ∧ a < stop := by
  induction size with
  | zero => exact nofun
  | succ size ih =>
    rintro ptr a ⟨hlt, rfl | ⟨-, hrest⟩⟩
    · exact ⟨Nat.le_refl _, hlt⟩
    · obtain ⟨hle, hstop⟩ := ih hrest
      exact ⟨Nat.le_of_succ_le hle, hstop⟩

theorem readVarintLoop_local {mem mem' : Memory} {size : Nat} :
    ∀ (room ptr ptr' : Nat) (shift : UInt8) (value : UInt64),
      (∀ i, VarintLoopTouches mem (ptr + room) size ptr (ptr + i) → mem' (ptr' + i) = mem (ptr + i)) →
      (readVarintLoop mem' (ptr' + room) size ptr' shift value).map (fun r => (r.1, (r.2 : Int) - ptr')) =
        (readVarintLoop mem (ptr + room) size ptr shift value).map fun r => (r.1, (r.2 : Int) - ptr) := by
  induction size with
  | zero => intros; rfl
  | succ size ih =>
    intro room ptr ptr' shift value hagree
    cases room with
    | zero => simp [readVarintLoop]
    | succ room =>
      have hlt : ptr < ptr + (room + 1) := by omega
      have hfirst : mem' ptr' = mem ptr := hagree 0 ⟨hlt, .inl rfl⟩
      rw [readVarintLoop, readVarintLoop, if_pos hlt, if_pos (by omega), hfirst]
      by_cases hlast : mem ptr &&& 0x80 = 0
      · rw [if_pos hlast, if_pos hlast]
        simp
      · -- the bytes behind the first one
        have hrest := ih room (ptr + 1) (ptr' + 1) (shift + 7)
          (value ||| (mem ptr &&& 0x7F).toUInt64 <<< shift.toUInt64) fun i hi => by
            rw [show ptr' + 1 + i = ptr' + (i + 1) by omega, show ptr + 1 + i = ptr + (i + 1) by omega]
            refine hagree (i + 1) ⟨hlt, .inr ⟨hlast, ?_⟩⟩
            rwa [show ptr + (room + 1) = ptr + 1 + room by omega, show ptr + (i + 1) = ptr + 1 + i by omega]
        have hback := congrArg (Option.map fun r : UInt64 × Int => (r.1, r.2 + 1)) hrest
        simp only [Option.map_map, Function.comp_def, Nat.cast_add, Nat.cast_one] at hback
        rw [if_neg hlast, if_neg hlast, show ptr' + (room + 1) = ptr' + 1 + room by omega,
          show ptr + (room + 1) = ptr + 1 + room by omega]
        calc _ = _ := by congr 1; funext r; rw [Prod.mk.injEq]; exact ⟨rfl, by omega⟩
          _ = _ := hback
          _ = _ := by congr 1; funext r; rw [Prod.mk.injEq]; exact ⟨rfl, by omega⟩

section

variable {mem mem' : Memory} {p p' : Nat} {available available' : UInt32}

theorem VarintTouches.inside {a : Nat} (h : VarintTouches mem p available a) : p ≤ a ∧ a < p + available.toNat :=
  VarintLoopTouches.inside h

theorem readVarint_local (hagree : ∀ i, VarintTouches mem p available (p + i) → mem' (p' + i) = mem (p + i)) :
    readVarint mem' p' available = readVarint mem p available := by
  have hloop := congrArg (Option.map fun r : UInt64 × Int => (r.1, u8 r.2)) (readVarintLoop_local _ _ _ 0 0 hagree)
  simp only [Option.map_map, Function.comp_def] at hloop
  exact hloop

/-- A varint is read in every place that has room for it. -/
theorem readVarint_moved {v : UInt64} {k : UInt8} (h : readVarint mem p available = some (v, k))
    (hagree : ∀ i < k.toNat, mem' (p' + i) = mem (p + i)) (hroom : k.toNat ≤ available'.toNat) :
    readVarint mem' p' available' = some (v, k) := by
  obtain ⟨bs, hbs, hholds, hlen, height, -⟩ := readVarint_varint h
  have hholds' : Holds mem' p' bs := holds_of_get fun i hi => by rw [hagree i (by omega), hholds.get hi]
  obtain ⟨v', k', hread, hv, hk⟩ := readVarint_of_varint available' hbs hholds' height (by omega)
  rw [hread, UInt64.toNat_inj.1 hv, UInt8.toNat_inj.1 (hk.trans hlen)]

end

/-! ## Scalars -/

/-- `BytesType::Deserialize` reads the byte at `a`: one of the length prefix, or one of those it appends. -/
def BytesTouches (mem : Memory) (data : Nat) (length : UInt32) (a : Nat) : Prop :=
  VarintTouches mem data length a ∨
    ∃ size result, readVarint mem data length = some (size, result) ∧ u32 size.toNat ≤ length ∧
      data + result.toNat + (u32 size.toNat).toNat ≤ data + length.toNat ∧
      data + result.toNat ≤ a ∧ a < data + result.toNat + (u32 size.toNat).toNat

/-- `Deserialize` reads the byte at `a`. -/
def Scalar.Touches (mem : Memory) (data : Nat) (length : UInt32) : Scalar → Nat → Prop
  | .varint .., a => VarintTouches mem data length a
  | .boolean .., a => VarintTouches mem data length a
  | .fixed size .., a => size ≤ length.toNat ∧ data ≤ a ∧ a < data + size
  | .bytes .., a => BytesTouches mem data length a

def Element.Touches (mem : Memory) (data : Nat) (length : UInt32) : Element → Nat → Prop
  | .single value => value.Touches mem data length
  | .repeated fresh _ => fresh.Touches mem data length

/-- `Skip` reads the byte at `a`. -/
def SkipTouches (mem : Memory) (data : Nat) (length : UInt32) : WireType → Nat → Prop
  | .varint => (Scalar.varint 64 0 false).Touches mem data length
  | .fixed64 => (Scalar.fixed 8 [] false).Touches mem data length
  | .lengthDelimited => (Scalar.bytes [] false).Touches mem data length
  | .fixed32 => (Scalar.fixed 4 [] false).Touches mem data length
  | .groupStart | .groupEnd | .unnamed => fun _ => False

theorem slice_congr {mem mem' : Memory} {a a' n : Nat} (h : ∀ i < n, mem' (a' + i) = mem (a + i)) :
    slice mem' a' n = slice mem a n :=
  List.map_congr_left fun i hi => h i (List.mem_range.1 hi)

section

variable {mem mem' : Memory} {p p' : Nat} {available available' : UInt32} {a : Nat}

theorem BytesTouches.inside (h : BytesTouches mem p available a) : p ≤ a ∧ a < p + available.toNat := by
  rcases h with h | ⟨size, result, -, -, hroom, hle, hlt⟩
  · exact h.inside
  · omega

theorem Scalar.Touches.inside {s : Scalar} (h : s.Touches mem p available a) : p ≤ a ∧ a < p + available.toNat := by
  cases s with
  | varint bits value set => exact VarintTouches.inside h
  | boolean value set => exact VarintTouches.inside h
  | fixed size value set =>
    obtain ⟨hroom, hle, hlt⟩ := h
    omega
  | bytes value set => exact BytesTouches.inside h

theorem SkipTouches.inside {type : WireType} (h : SkipTouches mem p available type a) :
    p ≤ a ∧ a < p + available.toNat := by
  cases type with
  | varint => exact (show (Scalar.varint 64 0 false).Touches mem p available a from h).inside
  | fixed64 => exact (show (Scalar.fixed 8 [] false).Touches mem p available a from h).inside
  | lengthDelimited => exact (show (Scalar.bytes [] false).Touches mem p available a from h).inside
  | fixed32 => exact (show (Scalar.fixed 4 [] false).Touches mem p available a from h).inside
  | groupStart => exact h.elim
  | groupEnd => exact h.elim
  | unnamed => exact h.elim

theorem Scalar.deserializeBytes_local (h : ∀ i, BytesTouches mem p available (p + i) → mem' (p' + i) = mem (p + i)) :
    deserializeBytes mem' p' available = deserializeBytes mem p available := by
  have hread : readVarint mem' p' available = readVarint mem p available := readVarint_local fun i hi => h i (.inl hi)
  unfold deserializeBytes
  rw [hread]
  cases hsize : readVarint mem p available with
  | none => rfl
  | some r =>
    obtain ⟨size, result⟩ := r
    dsimp only
    by_cases hfit : u32 size.toNat ≠ 0 ∧ u32 size.toNat ≤ available ∧
        p + result.toNat + (u32 size.toNat).toNat ≤ p + available.toNat
    · have hbody : slice mem' (p' + result.toNat) (u32 size.toNat).toNat =
          slice mem (p + result.toNat) (u32 size.toNat).toNat := slice_congr fun i hi => by
        rw [Nat.add_assoc, Nat.add_assoc]
        exact h _ (.inr ⟨size, result, hsize, hfit.2.1, hfit.2.2, by omega, by omega⟩)
      rw [if_pos hfit, if_pos ⟨hfit.1, hfit.2.1, by omega⟩, hbody]
    · rw [if_neg hfit, if_neg fun hfit' => hfit ⟨hfit'.1, hfit'.2.1, by omega⟩]

theorem Scalar.deserialize_local {s : Scalar}
    (h : ∀ i, s.Touches mem p available (p + i) → mem' (p' + i) = mem (p + i)) :
    s.deserialize mem' p' available = s.deserialize mem p available := by
  cases s with
  | varint bits value set => rw [deserialize, deserialize, readVarint_local h]
  | boolean value set => rw [deserialize, deserialize, readVarint_local h]
  | fixed size value set =>
    rw [deserialize, deserialize]
    by_cases hroom : size ≤ available.toNat
    · have hvalue : slice mem' p' size = slice mem p size :=
        slice_congr fun i hi => h i ⟨hroom, Nat.le_add_right _ _, by omega⟩
      rw [if_pos hroom, if_pos hroom, hvalue]
    · rw [if_neg hroom, if_neg hroom]
  | bytes value set => rw [deserialize, deserialize, deserializeBytes_local h]

theorem Element.deserialize_local {e : Element}
    (h : ∀ i, e.Touches mem p available (p + i) → mem' (p' + i) = mem (p + i)) :
    e.deserialize mem' p' available = e.deserialize mem p available := by
  cases e with
  | single value => rw [deserialize, deserialize, Scalar.deserialize_local h]
  | repeated fresh elements => rw [deserialize, deserialize, Scalar.deserialize_local h]

theorem skip_local {type : WireType} (h : ∀ i, SkipTouches mem p available type (p + i) → mem' (p' + i) = mem (p + i)) :
    skip mem' p' available type = skip mem p available type := by
  cases type with
  | varint => exact congrArg Prod.snd (Scalar.deserialize_local (s := .varint 64 0 false) h)
  | fixed64 => exact congrArg Prod.snd (Scalar.deserialize_local (s := .fixed 8 [] false) h)
  | lengthDelimited => exact congrArg Prod.snd (Scalar.deserialize_local (s := .bytes [] false) h)
  | fixed32 => exact congrArg Prod.snd (Scalar.deserialize_local (s := .fixed 4 [] false) h)
  | groupStart => rfl
  | groupEnd => rfl
  | unnamed => rfl

/-- What a length-delimited payload that is taken whole says of its size. -/
theorem readVarint_delimited {size body : List UInt8} (hsize : Varint size body.length)
    (hholds : Holds mem p (size ++ body)) (hroom : (size ++ body).length ≤ available.toNat) {v : UInt64} {k : UInt8}
    (hread : readVarint mem p available = some (v, k)) :
    k.toNat = size.length ∧ v.toNat = body.length ∧ (u32 v.toNat).toNat = body.length := by
  have hlt := available.toNat_lt
  obtain ⟨bs, hbs, hbsHolds, hlen, -, -⟩ := readVarint_varint hread
  obtain ⟨rfl, hvalue⟩ := varint_unique hbs hsize hbsHolds ((holds_append _ _ _).1 hholds).1
  rw [List.length_append] at hroom
  exact ⟨hlen.symm, hvalue, u32_eq (by omega) (by omega)⟩

/-- Bytes that are taken whole are so in every place that has room for them. -/
theorem Scalar.deserializeBytes_moved {limit : Nat} {payload : List UInt8} (hpayload : IsPayload limit 2 payload)
    (hholds : Holds mem p payload) (hholds' : Holds mem' p' payload) (hroom : payload.length ≤ available.toNat)
    (hroom' : payload.length ≤ available'.toNat) (htaken : (deserializeBytes mem p available).2 ≠ 0) :
    deserializeBytes mem' p' available' = deserializeBytes mem p available := by
  obtain _ | _ | @⟨size, body, hsize, -⟩ := hpayload
  unfold deserializeBytes at htaken ⊢
  cases hread : readVarint mem p available with
  | none => rw [hread] at htaken; exact absurd rfl htaken
  | some r =>
    obtain ⟨v, k⟩ := r
    obtain ⟨hk, -, hv⟩ := readVarint_delimited hsize hholds hroom hread
    have hagree := hholds.agree hholds'
    rw [List.length_append] at hroom hroom' hagree
    rw [readVarint_moved hread (fun i hi => hagree i (by omega)) (by omega)]
    dsimp only
    by_cases hzero : u32 v.toNat = 0
    · rw [if_neg fun hfit => hfit.1 hzero, if_neg fun hfit => hfit.1 hzero]
    · have hbody : slice mem' (p' + k.toNat) (u32 v.toNat).toNat = slice mem (p + k.toNat) (u32 v.toNat).toNat :=
        slice_congr fun i hi => by
          rw [Nat.add_assoc, Nat.add_assoc]
          exact hagree _ (by omega)
      rw [if_pos ⟨hzero, UInt32.le_iff_toNat_le.2 (by omega), by omega⟩,
        if_pos ⟨hzero, UInt32.le_iff_toNat_le.2 (by omega), by omega⟩, hbody]

theorem Scalar.deserialize_moved {limit : Nat} {s : Scalar} (hsized : s.Sized) {payload : List UInt8}
    (hpayload : IsPayload limit s.type.code payload) (hholds : Holds mem p payload) (hholds' : Holds mem' p' payload)
    (hroom : payload.length ≤ available.toNat) (hroom' : payload.length ≤ available'.toNat)
    (htaken : (s.deserialize mem p available).2.toNat = payload.length) :
    s.deserialize mem' p' available' = s.deserialize mem p available := by
  have hpos := hpayload.length_pos
  have hvarint : ∀ {v k}, readVarint mem p available = some (v, k) → k.toNat = payload.length →
      readVarint mem' p' available' = some (v, k) := fun hread hk =>
    readVarint_moved hread (fun i hi => hholds.agree hholds' i (by omega)) (by omega)
  cases s with
  | varint bits value set =>
    rw [deserialize] at htaken ⊢
    rw [deserialize]
    cases hread : readVarint mem p available with
    | none =>
      rw [hread] at htaken
      exact absurd htaken.symm (Nat.ne_of_gt hpos)
    | some r =>
      rw [hread] at htaken
      rw [hvarint hread (by simpa using htaken)]
  | boolean value set =>
    rw [deserialize] at htaken ⊢
    rw [deserialize]
    cases hread : readVarint mem p available with
    | none =>
      rw [hread] at htaken
      exact absurd htaken.symm (Nat.ne_of_gt hpos)
    | some r =>
      rw [hread] at htaken
      rw [hvarint hread (by simpa using htaken)]
  | fixed size value set =>
    have hlength : payload.length = size := by
      rcases hsized with rfl | rfl
      · obtain _ | _ | _ | hlength := hpayload
        exact hlength
      · obtain _ | hlength := hpayload
        exact hlength
    rw [deserialize, deserialize, if_pos (by omega), if_pos (by omega), ← hlength, hholds.slice_eq, hholds'.slice_eq]
  | bytes value set =>
    have hne : (deserializeBytes mem p available).2 ≠ 0 :=
      u32_ne_zero (by rw [deserialize] at htaken; dsimp only at htaken; omega)
    rw [deserialize, deserialize, deserializeBytes_moved hpayload hholds hholds' hroom hroom' hne]

theorem Element.deserialize_moved {limit : Nat} {e : Element} (hsized : e.Sized) {payload : List UInt8}
    (hpayload : IsPayload limit (IElement.type e).code payload) (hholds : Holds mem p payload)
    (hholds' : Holds mem' p' payload) (hroom : payload.length ≤ available.toNat)
    (hroom' : payload.length ≤ available'.toNat) (htaken : (e.deserialize mem p available).2.toNat = payload.length) :
    e.deserialize mem' p' available' = e.deserialize mem p available := by
  cases e with
  | single value =>
    rw [deserialize, deserialize,
      Scalar.deserialize_moved (s := value) hsized hpayload hholds hholds' hroom hroom' htaken]
  | repeated fresh elements =>
    have htaken' : (fresh.deserialize mem p available).2.toNat = payload.length := by
      rw [deserialize] at htaken
      split at htaken <;> exact htaken
    rw [deserialize, deserialize,
      Scalar.deserialize_moved (s := fresh) hsized hpayload hholds hholds' hroom hroom' htaken']

/-- A payload that is skipped whole is so in every place that has room for it. -/
theorem skip_moved {limit : Nat} {type : WireType} {payload : List UInt8} (hpayload : IsPayload limit type.code payload)
    (hholds : Holds mem p payload) (hholds' : Holds mem' p' payload) (hroom : payload.length ≤ available.toNat)
    (hroom' : payload.length ≤ available'.toNat) (htaken : (skip mem p available type).toNat = payload.length) :
    skip mem' p' available' type = skip mem p available type := by
  have hskipped : ∀ {s : Scalar}, s.Sized → s.type = type → (s.deserialize mem p available).2.toNat = payload.length →
      (s.deserialize mem' p' available').2 = (s.deserialize mem p available).2 := by
    rintro s hsized rfl htaken
    rw [Scalar.deserialize_moved hsized hpayload hholds hholds' hroom hroom' htaken]
  cases type with
  | varint => exact hskipped (s := .varint 64 0 false) trivial rfl htaken
  | fixed64 => exact hskipped (s := .fixed 8 [] false) (.inr rfl) rfl htaken
  | lengthDelimited => exact hskipped (s := .bytes [] false) trivial rfl htaken
  | fixed32 => exact hskipped (s := .fixed 4 [] false) (.inl rfl) rfl htaken
  | groupStart => rfl
  | groupEnd => rfl
  | unnamed => rfl

end

end Ocdm.Protobuf
