/-
What `FromBuffer` reads of memory (Protobuf.h). A message of elements that read only what they were given, and
whose result depends on nothing else, is itself such an element (`LocalElement`), so that messages nested to
any depth are; and every call `FromBuffer` makes stays inside its buffer (`fromBuffer_inside`).
-/
import Ocdm.Protobuf.Reads
import Ocdm.Protobuf.Walk

namespace Ocdm.Protobuf

open Bytes Comp
open Wire (Varint IsPayload)

/-! ## Local elements -/

/-- Elements that read only bytes they were given: the result depends on no others, nor on where they lie. -/
class LocalElement (E : Type) [IElement E] [LawfulElement E] where
  /-- `Deserialize` reads the byte at the last address. -/
  touches : E → Memory → Nat → UInt32 → Nat → Prop
  inside {e : E} {mem : Memory} {p : Nat} {available : UInt32} {a : Nat} :
    touches e mem p available a → p ≤ a ∧ a < p + available.toNat
  moves {e : E} {mem mem' : Memory} {p p' : Nat} {available : UInt32} {r : E × UInt32} :
    (∀ i, touches e mem p available (p + i) → mem' (p' + i) = mem (p + i)) →
      (IElement.deserialize mem p available e).Returns r → (IElement.deserialize mem' p' available e).Returns r
  /-- A payload that is taken whole is taken so in every place that has room for it. -/
  moved {limit : Nat} {e : E} {mem mem' : Memory} {p p' : Nat} {available available' : UInt32} {payload : List UInt8}
      {r : E × UInt32} :
    IsPayload limit (IElement.type e).code payload → Holds mem p payload → Holds mem' p' payload →
      payload.length ≤ available.toNat → payload.length ≤ available'.toNat →
      (IElement.deserialize mem p available e).Returns r → r.2.toNat = payload.length →
      (IElement.deserialize mem' p' available' e).Returns r
  reads_moves {e : E} {mem mem' : Memory} {p p' n : Nat} : n < 2 ^ 32 → (∀ i < n, mem' (p' + i) = mem (p + i)) →
    LawfulElement.reads e mem p (p + n) → LawfulElement.reads e mem' p' (p' + n)

instance : LocalElement ScalarElement where
  touches e mem p available := e.element.Touches mem p available
  inside {e _ _ _ _} h := by
    cases he : e.element with
    | single value => rw [he] at h; exact Scalar.Touches.inside h
    | repeated fresh elements => rw [he] at h; exact Scalar.Touches.inside h
  moves {e mem mem' p p' available r} hagree h := by
    have hsame : e.deserialize mem' p' available = e.deserialize mem p available := by
      unfold ScalarElement.deserialize
      simp only [Element.deserialize_local hagree]
    rw [← returns_pure.1 h, ← hsame]
    exact returns_pure.2 rfl
  moved {_ e mem mem' p p' available available' _ _} hpayload hholds hholds' hroom hroom' h htaken := by
    obtain rfl := returns_pure.1 h
    have hsame : e.deserialize mem' p' available' = e.deserialize mem p available := by
      unfold ScalarElement.deserialize
      simp only [Element.deserialize_moved e.sized hpayload hholds hholds' hroom hroom' htaken]
    rw [← hsame]
    exact returns_pure.2 rfl
  reads_moves _ _ _ := trivial

/-! ## Messages -/

section

variable {E : Type} [IElement E] [LawfulElement E] [LocalElement E]

/-- What is read behind a tag. -/
def FieldTouches (mem : Memory) (ptr : Nat) (available : UInt32) (type : WireType) (key : UInt32) (m : Message E)
    (a : Nat) : Prop :=
  key ≠ 0 ∧
    match m.lookup (u8 key.toNat) with
    | some entry => type = IElement.type entry.element ∧ LocalElement.touches entry.element mem ptr available a
    | none => SkipTouches mem ptr available type a

/-- What one pass of `FromBuffer` reads. -/
def PassTouches (mem : Memory) (stop : Nat) (s : Scan E) (a : Nat) : Prop :=
  s.ptr < stop ∧
    (VarintTouches mem s.ptr (u32 (stop - s.ptr)) a ∨
      ∃ tag tagSize, readVarint mem s.ptr (u32 (stop - s.ptr)) = some (tag, tagSize) ∧
        FieldTouches mem (s.ptr + tagSize.toNat) (u32 (stop - s.ptr - tagSize.toNat)) (WireType.ofTag tag)
          (u32 (tag >>> 3).toNat) s.message a)

/-- What `FromBuffer` reads. -/
def BufferTouches (mem : Memory) (data : Nat) (length : UInt32) (m : Message E) (a : Nat) : Prop :=
  ∃ s, Passes (fromBufferPass mem (data + length.toNat)) ⟨data, m⟩ s ∧ PassTouches mem (data + length.toNat) s a

/-- What `Message::Deserialize` reads. -/
def MessageTouches (mem : Memory) (data : Nat) (length : UInt32) (m : Message E) (a : Nat) : Prop :=
  VarintTouches mem data length a ∨
    ∃ size result, readVarint mem data length = some (size, result) ∧ u32 size.toNat ≤ length - result.toUInt32 ∧
      BufferTouches mem (data + result.toNat) (u32 size.toNat) m a

variable {mem mem' : Memory} {p p' : Nat} {available available' : UInt32} {a : Nat} {m : Message E}

theorem FieldTouches.inside {type : WireType} {key : UInt32} (h : FieldTouches mem p available type key m a) :
    p ≤ a ∧ a < p + available.toNat := by
  obtain ⟨-, h⟩ := h
  split at h
  · exact LocalElement.inside h.2
  · exact SkipTouches.inside h

theorem PassTouches.inside {stop : Nat} {s : Scan E} (hbig : stop - s.ptr < 2 ^ 32) (h : PassTouches mem stop s a) :
    s.ptr ≤ a ∧ a < stop := by
  obtain ⟨hlt, hvarint | ⟨tag, tagSize, hread, hfield⟩⟩ := h
  · have hinside := hvarint.inside
    rw [u32_eq (n := stop - s.ptr) (by omega) (by omega)] at hinside
    omega
  · have hinside := hfield.inside
    obtain ⟨bs, -, -, hlen, -, hroom⟩ := readVarint_varint hread
    rw [u32_eq (n := stop - s.ptr) (by omega) (by omega)] at hroom
    rw [u32_eq (n := stop - s.ptr - tagSize.toNat) (by omega) (by omega)] at hinside
    omega

omit [LocalElement E] in
/-- The cursor stays inside the buffer, and a pass that goes on takes a tag and something behind it. -/
theorem goes_bounds {stop : Nat} {s s' : Scan E} (hbig : stop - s.ptr < 2 ^ 32)
    (h : Goes (fromBufferPass mem stop) s s') : s.ptr + 2 ≤ s'.ptr ∧ s'.ptr ≤ stop := by
  obtain ⟨whole, hfield⟩ := (fromBufferPass_again hbig h s'.ptr).1 ⟨s'.message, rfl⟩
  refine ⟨?_, hfield.bounds.2⟩
  rcases fromBufferPass_cases h with ⟨-, hp⟩ | ⟨-, -, hp⟩ | ⟨tag, tagSize, r, -, hread, -, hp⟩
  · cases hp
  · cases hp
  · split at hp
    · cases hp
    · rename_i hne
      obtain ⟨bs, hbs, -, hlen, -⟩ := readVarint_varint hread
      have htag := hbs.length_pos
      have hpayload : r.2.toNat ≠ 0 := fun hzero => hne (UInt32.toNat_inj.1 hzero)
      cases hp
      dsimp only
      omega

omit [LocalElement E] in
theorem passes_inside {data stop : Nat} {s : Scan E} (hle : data ≤ stop) (hbig : stop - data < 2 ^ 32)
    (h : Passes (fromBufferPass mem stop) ⟨data, m⟩ s) : data ≤ s.ptr ∧ s.ptr ≤ stop := by
  induction h with
  | refl => exact ⟨Nat.le_refl _, hle⟩
  | tail _ hgoes ih =>
    have hbounds := goes_bounds (by omega) hgoes
    omega

theorem BufferTouches.inside {length : UInt32} (h : BufferTouches mem p length m a) : p ≤ a ∧ a < p + length.toNat := by
  have hlt := length.toNat_lt
  obtain ⟨s, hpasses, htouches⟩ := h
  have hscan := passes_inside (Nat.le_add_right _ _) (by omega) hpasses
  have hinside := htouches.inside (by omega)
  omega

theorem MessageTouches.inside (h : MessageTouches mem p available m a) : p ≤ a ∧ a < p + available.toNat := by
  rcases h with h | ⟨size, result, hread, hfit, hbuffer⟩
  · exact h.inside
  · have hinside := hbuffer.inside
    obtain ⟨bs, -, -, hlen, -, hroom⟩ := readVarint_varint hread
    have hresult : result.toUInt32.toNat = result.toNat := by simp
    rw [UInt32.le_iff_toNat_le, UInt32.toNat_sub_of_le _ _ (UInt32.le_iff_toNat_le.2 (by omega)), hresult] at hfit
    omega

/-! ## The result depends on what is read -/

theorem fromField_moves {type : WireType} {key : UInt32} {r : Message E × UInt32}
    (hagree : ∀ i, FieldTouches mem p available type key m (p + i) → mem' (p' + i) = mem (p + i))
    (h : (fromField mem p available type key m).Returns r) : (fromField mem' p' available type key m).Returns r := by
  unfold FieldTouches at hagree
  unfold fromField at h ⊢
  by_cases hkey : key ≠ 0
  · rw [if_pos hkey] at h ⊢
    cases hentry : m.lookup (u8 key.toNat) with
    | none =>
      rw [hentry] at h
      dsimp only at h ⊢
      rw [skip_local fun i hi => hagree i ⟨hkey, by rw [hentry]; exact hi⟩]
      exact h
    | some entry =>
      rw [hentry] at h
      dsimp only at h ⊢
      by_cases htype : type = IElement.type entry.element
      · rw [if_pos htype] at h ⊢
        obtain ⟨w, hw, hr⟩ := returns_bind.1 h
        exact (LocalElement.moves (fun i hi => hagree i ⟨hkey, by rw [hentry]; exact ⟨htype, hi⟩⟩) hw).bind hr
      · rw [if_neg htype] at h ⊢
        exact h
  · rw [if_neg hkey] at h ⊢
    exact h

omit [LawfulElement E] [LocalElement E] in
/-- A pass that reads a tag does what its field does. -/
theorem fromBufferPass_returns {stop : Nat} {s : Scan E} {tag : UInt64} {tagSize : UInt8} {r : Message E × UInt32}
    (hlt : s.ptr < stop) (hread : readVarint mem s.ptr (u32 (stop - s.ptr)) = some (tag, tagSize))
    (h : (fromField mem (s.ptr + tagSize.toNat) (u32 (stop - s.ptr - tagSize.toNat)) (WireType.ofTag tag)
      (u32 (tag >>> 3).toNat) s.message).Returns r) :
    (fromBufferPass mem stop s).Returns
      (if r.2 = 0 then .done (false, r.1) else .again ⟨s.ptr + tagSize.toNat + r.2.toNat, r.1⟩) := by
  unfold fromBufferPass
  rw [if_pos hlt, hread]
  refine h.bind ?_
  split <;> exact returns_pure.2 rfl

theorem fromBufferPass_moves {room : Nat} {pass : Pass (Scan E) (Bool × Message E)}
    (hagree : ∀ i, PassTouches mem (p + room) ⟨p, m⟩ (p + i) → mem' (p' + i) = mem (p + i))
    (h : (fromBufferPass mem (p + room) ⟨p, m⟩).Returns pass) :
    (∃ b, pass = .done b ∧ (fromBufferPass mem' (p' + room) ⟨p', m⟩).Returns (.done b)) ∨
      ∃ taken m', pass = .again ⟨p + taken, m'⟩ ∧
        (fromBufferPass mem' (p' + room) ⟨p', m⟩).Returns (.again ⟨p' + taken, m'⟩) := by
  have hroom : ∀ q : Nat, ((q + room : Nat) : Int) - q = room := fun q => by omega
  unfold PassTouches at hagree
  dsimp only at hagree
  rcases fromBufferPass_cases h with ⟨hend, rfl⟩ | ⟨hlt, hnone, rfl⟩ | ⟨tag, tagSize, r, hlt, hread, hr, rfl⟩
  · refine .inl ⟨_, rfl, ?_⟩
    unfold fromBufferPass
    rw [if_neg (by dsimp only at hend ⊢; omega)]
    exact returns_pure.2 rfl
  · dsimp only at hlt hnone
    have hread' := readVarint_local fun i hi => hagree i ⟨hlt, .inl hi⟩
    rw [hnone, hroom p, ← hroom p'] at hread'
    refine .inl ⟨_, rfl, ?_⟩
    unfold fromBufferPass
    rw [if_pos (by dsimp only; omega), hread']
    exact returns_pure.2 rfl
  · dsimp only at hlt hread hr ⊢
    have hread' := readVarint_local fun i hi => hagree i ⟨hlt, .inl hi⟩
    rw [hread, hroom p, ← hroom p'] at hread'
    have hr' : (fromField mem' (p' + tagSize.toNat) (u32 ((p + room : Nat) - p - tagSize.toNat)) (WireType.ofTag tag)
        (u32 (tag >>> 3).toNat) m).Returns r := fromField_moves (fun i hi => by
      rw [Nat.add_assoc p] at hi
      rw [Nat.add_assoc, Nat.add_assoc]
      exact hagree (tagSize.toNat + i) ⟨hlt, .inr ⟨tag, tagSize, hread, hi⟩⟩) hr
    rw [hroom p, ← hroom p'] at hr'
    have hpass := fromBufferPass_returns (s := ⟨p', m⟩) (by dsimp only; omega) hread' hr'
    by_cases hzero : r.2 = 0
    · rw [if_pos hzero] at hpass ⊢
      exact .inl ⟨_, rfl, hpass⟩
    · rw [if_neg hzero] at hpass ⊢
      refine .inr ⟨tagSize.toNat + r.2.toNat, r.1, ?_, ?_⟩
      · rw [Nat.add_assoc]
      · rw [← Nat.add_assoc]
        exact hpass

theorem fromBuffer_moves {length : UInt32} {r : Bool × Message E}
    (hagree : ∀ i, BufferTouches mem p length m (p + i) → mem' (p' + i) = mem (p + i))
    (h : (fromBuffer mem p length m).Returns r) : (fromBuffer mem' p' length m).Returns r := by
  have hlt := length.toNat_lt
  -- the two scans are as far behind the beginnings of their buffers and have the same message
  let R (s t : Scan E) : Prop := Passes (fromBufferPass mem (p + length.toNat)) ⟨p, m⟩ s ∧
    ∃ o room, o + room = length.toNat ∧ s.ptr = p + o ∧ t = ⟨p' + o, s.message⟩
  have hpass : ∀ {s t : Scan E} {pass}, R s t → (fromBufferPass mem (p + length.toNat) s).Returns pass →
      (∃ b, pass = .done b ∧ (fromBufferPass mem' (p' + length.toNat) t).Returns (.done b)) ∨
        ∃ s' t', pass = .again s' ∧ (fromBufferPass mem' (p' + length.toNat) t).Returns (.again t') ∧ R s' t' := by
    rintro ⟨ptr, mine⟩ t pass ⟨hpasses, o, room, hsum, rfl, rfl⟩ hp
    have hstop : ∀ q, q + length.toNat = q + o + room := fun q => by omega
    have hlocal : ∀ i, PassTouches mem (p + o + room) ⟨p + o, mine⟩ (p + o + i) → mem' (p' + o + i) = mem (p + o + i) :=
      fun i hi => by
        rw [Nat.add_assoc, Nat.add_assoc]
        rw [← hstop, Nat.add_assoc] at hi
        exact hagree _ ⟨_, hpasses, hi⟩
    have hp' := hp
    rw [hstop] at hp'
    rcases fromBufferPass_moves hlocal hp' with ⟨b, rfl, hb⟩ | ⟨taken, m', rfl, hb⟩
    · exact .inl ⟨b, rfl, by rw [hstop]; exact hb⟩
    · have hbounds := goes_bounds (by dsimp only; omega) hp
      dsimp only at hbounds
      refine .inr ⟨_, _, rfl, by rw [hstop]; exact hb, hpasses.tail hp, o + taken, room - taken, by omega, ?_, ?_⟩
      · exact Nat.add_assoc ..
      · rw [Nat.add_assoc]
  refine loop_simulation R (fun s t s' hR hs => ?_) (fun s t b hR hs => ?_)
    (show R ⟨p, m⟩ ⟨p', m⟩ from ⟨.refl, 0, length.toNat, Nat.zero_add _, rfl, rfl⟩) h
  · rcases hpass hR hs with ⟨b, hb, -⟩ | ⟨s'', t', hs', ht, hR'⟩
    · cases hb
    · cases hs'
      exact ⟨t', ht, hR'⟩
  · rcases hpass hR hs with ⟨b, hb, ht⟩ | ⟨s', t', hs', -⟩
    · cases hb
      exact ht
    · cases hs'

theorem deserializeMessage_moves {r : Message E × UInt32}
    (hagree : ∀ i, MessageTouches mem p available m (p + i) → mem' (p' + i) = mem (p + i))
    (h : (deserializeMessage mem p available m).Returns r) : (deserializeMessage mem' p' available m).Returns r := by
  have hread' : readVarint mem' p' available = readVarint mem p available :=
    readVarint_local fun i hi => hagree i (.inl hi)
  unfold deserializeMessage
  rcases deserializeMessage_cases h with
    ⟨hnone, rfl⟩ | ⟨size, result, hread, ⟨hno, rfl⟩ | ⟨hfit, read, hreturns, rfl⟩⟩
  · rw [hread', hnone]
    exact returns_pure.2 rfl
  · rw [hread', hread]
    dsimp only
    rw [if_neg hno]
    exact returns_pure.2 rfl
  · rw [hread', hread]
    dsimp only
    rw [if_pos hfit]
    refine (fromBuffer_moves (fun i hi => ?_) hreturns).bind (returns_pure.2 rfl)
    rw [Nat.add_assoc] at hi
    rw [Nat.add_assoc, Nat.add_assoc]
    exact hagree _ (.inr ⟨size, result, hread, hfit.2, hi⟩)

theorem fromBuffer_same {length : UInt32} {r : Bool × Message E}
    (hagree : ∀ i < length.toNat, mem' (p' + i) = mem (p + i))
    (h : (fromBuffer mem p length m).Returns r) : (fromBuffer mem' p' length m).Returns r :=
  fromBuffer_moves (fun i hi => hagree i (by have := hi.inside; omega)) h

theorem deserializeMessage_moved {limit : Nat} {payload : List UInt8} {r : Message E × UInt32}
    (hpayload : IsPayload limit 2 payload) (hholds : Holds mem p payload) (hholds' : Holds mem' p' payload)
    (hroom : payload.length ≤ available.toNat) (hroom' : payload.length ≤ available'.toNat)
    (h : (deserializeMessage mem p available m).Returns r) (htaken : r.2 ≠ 0) :
    (deserializeMessage mem' p' available' m).Returns r := by
  obtain _ | _ | @⟨size, body, hsize, -⟩ := hpayload
  rcases deserializeMessage_cases h with ⟨hnone, rfl⟩ | ⟨v, k, hread, hr⟩
  · exact absurd rfl htaken
  · obtain ⟨hk, -, hv⟩ := readVarint_delimited hsize hholds hroom hread
    have hagree := hholds.agree hholds'
    rw [List.length_append] at hroom hroom' hagree
    have hread' : readVarint mem' p' available' = some (v, k) :=
      readVarint_moved hread (fun i hi => hagree i (by omega)) (by omega)
    have hsize32 : k.toUInt32.toNat = k.toNat := by simp
    have hleft : ∀ {room : UInt32}, size.length + body.length ≤ room.toNat →
        (u32 v.toNat > 0 ∧ u32 v.toNat ≤ room - k.toUInt32 ↔ 0 < body.length) := by
      intro room hroom
      rw [gt_iff_lt, UInt32.lt_iff_toNat_lt, UInt32.le_iff_toNat_le,
        UInt32.toNat_sub_of_le _ _ (UInt32.le_iff_toNat_le.2 (by omega)), hv, hsize32]
      exact ⟨fun hfit => hfit.1, fun hpos => ⟨hpos, by omega⟩⟩
    unfold deserializeMessage
    rw [hread']
    dsimp only
    rcases hr with ⟨hno, rfl⟩ | ⟨hfit, read, hreturns, rfl⟩
    · rw [if_neg fun hfit => hno ((hleft hroom).2 ((hleft hroom').1 hfit))]
      exact returns_pure.2 rfl
    · rw [if_pos ((hleft hroom').2 ((hleft hroom).1 hfit))]
      refine (fromBuffer_same (fun i hi => ?_) hreturns).bind (returns_pure.2 rfl)
      rw [Nat.add_assoc, Nat.add_assoc]
      exact hagree _ (by omega)

theorem Message.reads_moves {n : Nat} (hn : n < 2 ^ 32) (hagree : ∀ i < n, mem' (p' + i) = mem (p + i))
    (h : m.reads mem p (p + n)) : m.reads mem' p' (p' + n) := by
  have hlength : (UInt32.ofNat n).toNat = n := by
    rw [UInt32.toNat_ofNat']
    omega
  obtain ⟨r, hr⟩ := fromBuffer_total mem p (UInt32.ofNat n) m
  have hr' : (fromBuffer mem' p' (UInt32.ofNat n) m).Returns r :=
    fromBuffer_same (fun i hi => hagree i (by rwa [hlength] at hi)) hr
  rw [← hlength] at h ⊢
  exact (fromBuffer_iff hr').1 ((fromBuffer_iff hr).2 h)

/-! ## Nested messages are local -/

def NestedElement.Touches : NestedElement E → Memory → Nat → UInt32 → Nat → Prop
  | .scalar e => LocalElement.touches e
  | .message m => fun mem data length => MessageTouches mem data length m
  | .repeated fresh _ => fun mem data length => MessageTouches mem data length fresh

variable {e : NestedElement E} {r : NestedElement E × UInt32}

theorem NestedElement.inside (h : e.Touches mem p available a) : p ≤ a ∧ a < p + available.toNat := by
  cases e with
  | scalar e => exact LocalElement.inside (e := e) h
  | message m => exact MessageTouches.inside h
  | repeated fresh elements => exact MessageTouches.inside h

theorem NestedElement.moves (hagree : ∀ i, e.Touches mem p available (p + i) → mem' (p' + i) = mem (p + i))
    (h : (IElement.deserialize mem p available e).Returns r) :
    (IElement.deserialize mem' p' available e).Returns r := by
  cases e with
  | scalar e =>
    obtain rfl := returns_pure.1 h
    have hsame := returns_pure.1 (LocalElement.moves (e := e) hagree (returns_pure.2 rfl))
    exact returns_pure.2 (by rw [hsame])
  | message m =>
    obtain ⟨w, hw, hr⟩ := returns_bind.1 h
    exact (deserializeMessage_moves hagree hw).bind hr
  | repeated fresh elements =>
    obtain ⟨w, hw, hr⟩ := returns_bind.1 h
    exact (deserializeMessage_moves hagree hw).bind hr

theorem NestedElement.moved {limit : Nat} {payload : List UInt8}
    (hpayload : IsPayload limit (IElement.type e).code payload)
    (hholds : Holds mem p payload) (hholds' : Holds mem' p' payload) (hroom : payload.length ≤ available.toNat)
    (hroom' : payload.length ≤ available'.toNat) (h : (IElement.deserialize mem p available e).Returns r)
    (htaken : r.2.toNat = payload.length) : (IElement.deserialize mem' p' available' e).Returns r := by
  have hne : r.2 ≠ 0 := u32_ne_zero (by rw [htaken]; exact hpayload.length_pos)
  cases e with
  | scalar e =>
    obtain rfl := returns_pure.1 h
    have hsame := returns_pure.1
      (LocalElement.moved (e := e) hpayload hholds hholds' hroom hroom' (returns_pure.2 rfl) htaken)
    exact returns_pure.2 (by rw [hsame])
  | message m =>
    obtain ⟨w, hw, hr⟩ := returns_bind.1 h
    obtain rfl := returns_pure.1 hr
    exact (deserializeMessage_moved hpayload hholds hholds' hroom hroom' hw hne).bind (returns_pure.2 rfl)
  | repeated fresh elements =>
    obtain ⟨w, hw, hr⟩ := returns_bind.1 h
    obtain rfl := returns_pure.1 hr
    exact (deserializeMessage_moved hpayload hholds hholds' hroom hroom' hw hne).bind (returns_pure.2 rfl)

theorem NestedElement.reads_moves {n : Nat} (hn : n < 2 ^ 32) (hagree : ∀ i < n, mem' (p' + i) = mem (p + i))
    (h : e.reads mem p (p + n)) : e.reads mem' p' (p' + n) := by
  cases e with
  | scalar e => trivial
  | message m => exact Message.reads_moves hn hagree h
  | repeated fresh elements => exact Message.reads_moves hn hagree h

instance : LocalElement (NestedElement E) where
  touches := NestedElement.Touches
  inside := NestedElement.inside
  moves := NestedElement.moves
  moved := NestedElement.moved
  reads_moves := NestedElement.reads_moves

end

instance instLocalNested : (depth : Nat) → LocalElement (Nested depth)
  | 0 => inferInstanceAs (LocalElement ScalarElement)
  | depth + 1 =>
    have := instLocalNested depth
    inferInstanceAs (LocalElement (NestedElement (Nested depth)))

/-! ## Every call stays inside the buffer -/

section

variable {E : Type} [IElement E] [LawfulElement E] [LocalElement E]

/-- A `Deserialize` call that a pass of `FromBuffer` makes: on the bytes from `p` on that are `available` to it, which
addresses it reads and how many bytes it returns. -/
inductive Calls (mem : Memory) (stop : Nat) (s : Scan E) : (p : Nat) → (available : UInt32) → (touches : Nat → Prop) →
    (returned : Nat) → Prop where
  | tag : s.ptr < stop →
      Calls mem stop s s.ptr (u32 (stop - s.ptr)) (VarintTouches mem s.ptr (u32 (stop - s.ptr)))
        ((readVarint mem s.ptr (u32 (stop - s.ptr))).elim 0 fun r => r.2.toNat)
  | element {tag : UInt64} {tagSize : UInt8} {entry : Entry E} {r : E × UInt32} :
      s.ptr < stop → readVarint mem s.ptr (u32 (stop - s.ptr)) = some (tag, tagSize) → u32 (tag >>> 3).toNat ≠ 0 →
      s.message.lookup (u8 (u32 (tag >>> 3).toNat).toNat) = some entry →
        WireType.ofTag tag = IElement.type entry.element →
      (IElement.deserialize mem (s.ptr + tagSize.toNat) (u32 (stop - s.ptr - tagSize.toNat)) entry.element).Returns r →
      Calls mem stop s (s.ptr + tagSize.toNat) (u32 (stop - s.ptr - tagSize.toNat))
        (LocalElement.touches entry.element mem (s.ptr + tagSize.toNat) (u32 (stop - s.ptr - tagSize.toNat))) r.2.toNat
  | skipped {tag : UInt64} {tagSize : UInt8} :
      s.ptr < stop → readVarint mem s.ptr (u32 (stop - s.ptr)) = some (tag, tagSize) → u32 (tag >>> 3).toNat ≠ 0 →
      s.message.lookup (u8 (u32 (tag >>> 3).toNat).toNat) = none →
      Calls mem stop s (s.ptr + tagSize.toNat) (u32 (stop - s.ptr - tagSize.toNat))
        (SkipTouches mem (s.ptr + tagSize.toNat) (u32 (stop - s.ptr - tagSize.toNat)) (WireType.ofTag tag))
        (skip mem (s.ptr + tagSize.toNat) (u32 (stop - s.ptr - tagSize.toNat)) (WireType.ofTag tag)).toNat

variable {mem : Memory} {stop : Nat}

theorem ConsumesExactly.le {reads : Nat → Nat → Prop} {p : Nat} {available consumed : UInt32} {type : WireType}
    (h : ConsumesExactly mem reads p available type consumed) : consumed.toNat ≤ available.toNat := by
  by_cases hzero : consumed = 0
  · rw [hzero]
    exact Nat.zero_le _
  · obtain ⟨whole, hconsumes⟩ := (h _).2 ⟨hzero, rfl⟩
    have hle := hconsumes.le
    omega

theorem Calls.inside {s : Scan E} {p : Nat} {available : UInt32} {touches : Nat → Prop} {returned : Nat}
    (hbig : stop - s.ptr < 2 ^ 32) (h : Calls mem stop s p available touches returned) :
    s.ptr ≤ p ∧ p + available.toNat = stop ∧ returned ≤ available.toNat ∧
      ∀ a, touches a → p ≤ a ∧ a < p + available.toNat := by
  have hbehind : ∀ {tag tagSize}, s.ptr < stop → readVarint mem s.ptr (u32 (stop - s.ptr)) = some (tag, tagSize) →
      s.ptr + tagSize.toNat + (u32 (stop - s.ptr - tagSize.toNat)).toNat = stop := by
    intro tag tagSize hlt hread
    obtain ⟨bs, -, -, hlen, -, hroom⟩ := readVarint_varint hread
    rw [u32_eq (n := stop - s.ptr) (by omega) (by omega)] at hroom
    rw [u32_eq (n := stop - s.ptr - tagSize.toNat) (by omega) (by omega)]
    omega
  cases h with
  | tag hlt =>
    have hleft : (u32 (stop - s.ptr)).toNat = stop - s.ptr := u32_eq (by omega) (by omega)
    refine ⟨Nat.le_refl _, by omega, ?_, fun a ha => ha.inside⟩
    cases hread : readVarint mem s.ptr (u32 (stop - s.ptr)) with
    | none => exact Nat.zero_le _
    | some r =>
      obtain ⟨bs, -, -, hlen, -, hroom⟩ := readVarint_varint hread
      rw [hlen] at hroom
      exact hroom
  | element hlt hread _ _ _ hreturns =>
    exact ⟨Nat.le_add_right _ _, hbehind hlt hread, (LawfulElement.consumes hreturns).le,
      fun a ha => LocalElement.inside ha⟩
  | skipped hlt hread _ _ =>
    exact ⟨Nat.le_add_right _ _, hbehind hlt hread, (skip_consumes _ _ _ _).le, fun a ha => SkipTouches.inside ha⟩

end

/-- `FromBuffer` ends on every buffer, whatever the message, nested to any depth: its cursor stays inside the buffer and
a pass that goes on takes at least two bytes, and every `Deserialize` call it makes is given what is left of the buffer,
reads nothing else and returns no more. -/
theorem fromBuffer_inside {depth : Nat} (mem : Memory) (data : Nat) (length : UInt32) (m : Message (Nested depth)) :
    (fromBuffer mem data length m).Terminates ∧
      ∀ s, Passes (fromBufferPass mem (data + length.toNat)) ⟨data, m⟩ s →
        data ≤ s.ptr ∧ s.ptr ≤ data + length.toNat ∧
        (∀ s', Goes (fromBufferPass mem (data + length.toNat)) s s' → s.ptr + 2 ≤ s'.ptr) ∧
        ∀ p available touches returned, Calls mem (data + length.toNat) s p available touches returned →
          data ≤ p ∧ p + available.toNat = data + length.toNat ∧ returned ≤ available.toNat ∧
          ∀ a, touches a → p ≤ a ∧ a < p + available.toNat := by
  have hlt := length.toNat_lt
  refine ⟨fromBuffer_total mem data length m, fun s hpasses => ?_⟩
  obtain ⟨hdata, hstop⟩ := passes_inside (Nat.le_add_right _ _) (by omega) hpasses
  refine ⟨hdata, hstop, fun s' hgoes => (goes_bounds (by omega) hgoes).1, fun p available touches returned hcall => ?_⟩
  obtain ⟨hp, hend, hreturned, htouches⟩ := hcall.inside (by omega)
  exact ⟨Nat.le_trans hdata hp, hend, hreturned, htouches⟩

end Ocdm.Protobuf
