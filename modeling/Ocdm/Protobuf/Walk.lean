/-
How `Message::FromBuffer` walks over a buffer (Protobuf.h): a pass of its loop takes one field, whole or not, and the
buffer is accepted when the fields come to its end (`fromBuffer_iff`). A message whose elements consume what their
definition says does so itself as an element, so that this holds for messages nested to any depth.
-/
import Ocdm.Protobuf.Consumes

namespace Ocdm.Protobuf

open Bytes Comp
open Wire (Varint)

/-! ## Messages of lawful elements -/

section

variable {E : Type} [IElement E] [LawfulElement E]

/-- What is registered under each index. -/
def Message.definition (m : Message E) (index : UInt8) : Option (LawfulElement.Definition E) :=
  (m.lookup index).map fun entry => LawfulElement.definition entry.element

/-- What the payload of a length-delimited field under an index can be; one that is skipped can be anything. -/
def Message.payload (m : Message E) (index : UInt8) (mem : Memory) : Nat → Nat → Prop :=
  match m.lookup index with
  | some entry => LawfulElement.reads entry.element mem
  | none => fun _ _ => True

/-- A tag at `p` with a number that is not 0 in 32 bits, no element of another type under it, and behind the
tag a payload that is consumed up to `q`. -/
def Message.Field (m : Message E) (mem : Memory) (stop p : Nat) (whole : Bool) (q : Nat) : Prop :=
  ∃ tag number type, Varint tag (number * 8 + WireType.code type) ∧ tag.length ≤ 8 ∧ Holds mem p tag ∧
    number % 2 ^ 32 ≠ 0 ∧
    (∀ entry, m.lookup (UInt8.ofNat number) = some entry → IElement.type entry.element = type) ∧
    Consumes mem (m.payload (UInt8.ofNat number) mem) (p + tag.length) stop type whole q

/-- From `p` the fields, taken one after another whole or not, come to `q`. -/
def Message.Walks (m : Message E) (mem : Memory) (stop : Nat) : Nat → Nat → Prop :=
  Relation.ReflTransGen fun p q => ∃ whole, m.Field mem stop p whole q

/-- The message can read these bytes. -/
def Message.reads (m : Message E) (mem : Memory) (p stop : Nat) : Prop := m.Walks mem stop p stop

theorem Message.definition_set {m : Message E} {index : UInt8} {entry : Entry E} (hentry : m.lookup index = some entry)
    {e : E} (he : LawfulElement.definition e = LawfulElement.definition entry.element) :
    (m.set index e).definition = m.definition := by
  funext k
  unfold definition
  rw [lookup_set]
  split
  · rename_i hk
    rw [hk, hentry]
    exact congrArg some he
  · rfl

theorem Message.definition_lookup {m m' : Message E} (h : m.definition = m'.definition) (index : UInt8) :
    (m.lookup index = none ∧ m'.lookup index = none) ∨
    ∃ entry entry', m.lookup index = some entry ∧ m'.lookup index = some entry' ∧
      LawfulElement.definition entry.element = LawfulElement.definition entry'.element := by
  have hindex := congrFun h index
  unfold definition at hindex
  cases hm : m.lookup index with
  | none =>
    rw [hm] at hindex
    exact .inl ⟨rfl, Option.map_eq_none_iff.1 hindex.symm⟩
  | some entry =>
    rw [hm] at hindex
    obtain ⟨entry', hm', heq⟩ := Option.map_eq_some_iff.1 hindex.symm
    exact .inr ⟨entry, entry', rfl, hm', heq.symm⟩

theorem Message.payload_same {m m' : Message E} (hm : m.definition = m'.definition) : m.payload = m'.payload := by
  funext index
  unfold payload
  rcases definition_lookup hm index with ⟨hnone, hnone'⟩ | ⟨entry, entry', hentry, hentry', heq⟩
  · rw [hnone, hnone']
  · rw [hentry, hentry']
    dsimp only
    rw [LawfulElement.reads_same heq]

theorem Message.Field.same {m m' : Message E} (hm : m.definition = m'.definition) {mem : Memory} {stop p : Nat}
    {whole : Bool} {q : Nat} (h : m.Field mem stop p whole q) : m'.Field mem stop p whole q := by
  obtain ⟨tag, number, type, htag, height, hholds, hnumber, htype, hconsumes⟩ := h
  rw [payload_same hm] at hconsumes
  refine ⟨tag, number, type, htag, height, hholds, hnumber, fun entry' hentry' => ?_, hconsumes⟩
  rcases definition_lookup hm (UInt8.ofNat number) with ⟨-, hnone'⟩ | ⟨entry, mine, hentry, hmine, heq⟩
  · rw [hnone'] at hentry'
    cases hentry'
  · rw [hmine] at hentry'
    cases hentry'
    exact (LawfulElement.type_same heq).symm.trans (htype entry hentry)

/-- Messages of one definition read the same bytes. -/
theorem Message.reads_same {m m' : Message E} (hm : m.definition = m'.definition) : m.reads = m'.reads := by
  have hfield : m.Field = m'.Field := by
    funext mem stop p whole q
    exact propext ⟨.same hm, .same hm.symm⟩
  unfold reads Walks
  rw [hfield]

variable {mem : Memory} {ptr : Nat} {available : UInt32} {type : WireType} {key : UInt32} {m m' : Message E}

omit [LawfulElement E] in
theorem fromField_total [TotalElement E] (mem : Memory) (ptr : Nat) (available : UInt32) (type : WireType)
    (key : UInt32) (m : Message E) : ∃ r, (fromField mem ptr available type key m).Returns r := by
  unfold fromField
  split
  · split
    · rename_i entry _
      split
      · obtain ⟨r, hr⟩ := TotalElement.total mem ptr available entry.element
        exact ⟨_, hr.bind (returns_pure.2 rfl)⟩
      · exact ⟨_, returns_pure.2 rfl⟩
    · exact ⟨_, returns_pure.2 rfl⟩
  · exact ⟨_, returns_pure.2 rfl⟩

omit [LawfulElement E] in
/-- A field of which something was taken: its number is not 0, and it is one of an element of its type, or one
skipped. -/
theorem fromField_cases {r : Message E × UInt32} (h : (fromField mem ptr available type key m).Returns r) :
    (r.1 = m ∧ r.2 = 0) ∨
    (key ≠ 0 ∧ m.lookup (u8 key.toNat) = none ∧ r = (m, skip mem ptr available type)) ∨
    ∃ entry e, key ≠ 0 ∧ m.lookup (u8 key.toNat) = some entry ∧ type = IElement.type entry.element ∧
      (IElement.deserialize mem ptr available entry.element).Returns (e, r.2) ∧ r.1 = m.set (u8 key.toNat) e := by
  unfold fromField at h
  split at h
  · rename_i hkey
    split at h
    · rename_i entry hentry
      split at h
      · rename_i htype
        obtain ⟨⟨e, taken⟩, he, hr⟩ := returns_bind.1 h
        cases returns_pure.1 hr
        exact .inr (.inr ⟨entry, e, hkey, hentry, htype, he, rfl⟩)
      · cases returns_pure.1 h
        exact .inl ⟨rfl, rfl⟩
    · rename_i hnone
      cases returns_pure.1 h
      exact .inr (.inl ⟨hkey, hnone, rfl⟩)
  · cases returns_pure.1 h
    exact .inl ⟨rfl, rfl⟩

theorem fromField_keeps {r : Message E × UInt32} (h : (fromField mem ptr available type key m).Returns r) :
    r.1.definition = m.definition := by
  rcases fromField_cases h with ⟨hm, -⟩ | ⟨-, -, rfl⟩ | ⟨entry, e, -, hentry, -, he, hm⟩
  · rw [hm]
  · rfl
  · rw [hm]
    exact Message.definition_set hentry (LawfulElement.keeps he)

/-- What a field takes is what is consumed behind its tag. -/
theorem fromField_consumes {r : Message E × UInt32} (h : (fromField mem ptr available type key m).Returns r) (q : Nat) :
    (r.2 ≠ 0 ∧ q = ptr + r.2.toNat) ↔
      key ≠ 0 ∧ (∀ entry, m.lookup (u8 key.toNat) = some entry → IElement.type entry.element = type) ∧
        ∃ whole, Consumes mem (m.payload (u8 key.toNat) mem) ptr (ptr + available.toNat) type whole q := by
  unfold fromField at h
  split at h
  · rename_i hkey
    unfold Message.payload
    split at h
    · rename_i entry hentry
      rw [hentry]
      split at h
      · rename_i htype
        obtain ⟨w, he, hr⟩ := returns_bind.1 h
        cases returns_pure.1 hr
        rw [← LawfulElement.consumes he q, htype]
        exact ⟨fun hc => ⟨hkey, fun _ heq => by cases heq; rfl, hc⟩, fun hc => hc.2.2⟩
      · rename_i htype
        cases returns_pure.1 h
        exact ⟨fun hne => absurd rfl hne.1, fun hc => absurd (hc.2.1 entry rfl).symm htype⟩
    · rename_i hnone
      cases returns_pure.1 h
      rw [hnone, ← skip_consumes mem ptr available type q]
      exact ⟨fun hc => ⟨hkey, nofun, hc⟩, fun hc => hc.2.2⟩
  · rename_i hkey
    cases returns_pure.1 h
    exact ⟨fun hne => absurd rfl hne.1, fun hc => absurd hc.1 hkey⟩

omit [LawfulElement E] in
/-- What one pass does: it leaves when the tag or the field fails or the end is reached, and else takes both. -/
theorem fromBufferPass_cases {stop : Nat} {s : Scan E} {p : Pass (Scan E) (Bool × Message E)}
    (h : (fromBufferPass mem stop s).Returns p) :
    (¬ s.ptr < stop ∧ p = .done (true, s.message)) ∨
    (s.ptr < stop ∧ readVarint mem s.ptr (u32 (stop - s.ptr)) = none ∧ p = .done (false, s.message)) ∨
    ∃ tag tagSize r, s.ptr < stop ∧ readVarint mem s.ptr (u32 (stop - s.ptr)) = some (tag, tagSize) ∧
      (fromField mem (s.ptr + tagSize.toNat) (u32 (stop - s.ptr - tagSize.toNat)) (WireType.ofTag tag)
        (u32 (tag >>> 3).toNat) s.message).Returns r ∧
      p = if r.2 = 0 then .done (false, r.1) else .again ⟨s.ptr + tagSize.toNat + r.2.toNat, r.1⟩ := by
  unfold fromBufferPass at h
  split at h
  · rename_i hlt
    split at h
    · rename_i tag tagSize hread
      obtain ⟨r, hr, hp⟩ := returns_bind.1 h
      refine .inr (.inr ⟨tag, tagSize, r, hlt, hread, hr, ?_⟩)
      split at hp
      · rename_i hzero
        rw [if_pos hzero]
        exact (returns_pure.1 hp).symm
      · rename_i hzero
        rw [if_neg hzero]
        exact (returns_pure.1 hp).symm
    · rename_i hread
      exact .inr (.inl ⟨hlt, hread, (returns_pure.1 h).symm⟩)
  · rename_i hend
    exact .inl ⟨hend, (returns_pure.1 h).symm⟩

omit [LawfulElement E] in
theorem fromBufferPass_end (mem : Memory) (stop : Nat) (m : Message E) :
    (fromBufferPass mem stop ⟨stop, m⟩).Returns (.done (true, m)) := by
  unfold fromBufferPass
  rw [if_neg (Nat.lt_irrefl _)]
  exact returns_pure.2 rfl

omit [LawfulElement E] in
theorem fromBufferPass_total [TotalElement E] (mem : Memory) (stop : Nat) (s : Scan E) :
    (fromBufferPass mem stop s).Terminates := by
  unfold fromBufferPass
  split
  · split
    · rename_i tag tagSize _
      obtain ⟨r, hr⟩ := fromField_total mem (s.ptr + tagSize.toNat) (u32 (stop - s.ptr - tagSize.toNat))
        (WireType.ofTag tag) (u32 (tag >>> 3).toNat) s.message
      by_cases hzero : r.2 = 0
      · exact ⟨_, hr.bind (by rw [if_pos hzero]; exact returns_pure.2 rfl)⟩
      · exact ⟨_, hr.bind (by rw [if_neg hzero]; exact returns_pure.2 rfl)⟩
    · exact ⟨_, returns_pure.2 rfl⟩
  · exact ⟨_, returns_pure.2 rfl⟩

/-- A pass goes on where a field is taken, and comes to where that is. -/
theorem fromBufferPass_again {stop : Nat} {s : Scan E} {p : Pass (Scan E) (Bool × Message E)}
    (hbig : stop - s.ptr < 2 ^ 32) (h : (fromBufferPass mem stop s).Returns p) (q : Nat) :
    (∃ m', p = .again ⟨q, m'⟩) ↔ ∃ whole, s.message.Field mem stop s.ptr whole q := by
  constructor
  · rintro ⟨m', rfl⟩
    rcases fromBufferPass_cases h with ⟨-, hp⟩ | ⟨-, -, hp⟩ | ⟨tag, tagSize, r, hlt, hread, hr, hp⟩
    · cases hp
    · cases hp
    · split at hp
      · cases hp
      · rename_i hne
        -- the bytes the tag was read from, and what was taken behind them
        obtain ⟨tagBytes, htag, hholds, hlen, height, hroom⟩ := readVarint_varint hread
        rw [u32_eq (n := stop - s.ptr) (by omega) (by omega), hlen] at hroom
        have havailable : (u32 (stop - s.ptr - tagSize.toNat)).toNat = stop - s.ptr - tagSize.toNat :=
          u32_eq (by omega) (by omega)
        obtain ⟨hkey, htype, whole, hconsumes⟩ := (fromField_consumes hr q).1 ⟨hne, by cases hp; rfl⟩
        rw [tag_number, key_ne_zero] at hkey
        rw [tag_number, key_index] at htype hconsumes
        have hcode := (WireType.ofTag_eq hconsumes.type_ne).1 rfl
        rw [havailable, ← hlen, show s.ptr + tagBytes.length + (stop - s.ptr - tagBytes.length) = stop by omega]
          at hconsumes
        refine ⟨whole, tagBytes, tag.toNat / 8, WireType.ofTag tag, ?_, height, hholds, hkey, htype, hconsumes⟩
        rw [← hcode, show tag.toNat / 8 * 8 + tag.toNat % 8 = tag.toNat by omega]
        exact htag
  · rintro ⟨whole, tagBytes, number, type, htag, height, hholds, hnumber, htype, hconsumes⟩
    have hle := hconsumes.le
    have hpos := htag.length_pos
    have hcode := type.code_lt
    -- the pass reads the tag of the field, so it takes the payload behind it
    have hleft : (u32 (stop - s.ptr)).toNat = stop - s.ptr := u32_eq (by omega) (by omega)
    obtain ⟨tag, tagSize, hread, hvalue, hsize⟩ :=
      readVarint_of_varint (u32 (stop - s.ptr)) htag hholds height (by omega)
    have hofTag : WireType.ofTag tag = type := (WireType.ofTag_eq hconsumes.type_ne).2 (by omega)
    rcases fromBufferPass_cases h with ⟨hend, -⟩ | ⟨-, hnone, -⟩ | ⟨tag', tagSize', r, -, hread', hr, hp⟩
    · omega
    · rw [hread] at hnone
      cases hnone
    · rw [hread] at hread'
      cases hread'
      have havailable : (u32 (stop - s.ptr - tagSize.toNat)).toNat = stop - s.ptr - tagSize.toNat :=
        u32_eq (by omega) (by omega)
      have hnumberTag : tag.toNat / 8 = number := by omega
      rw [tag_number, hnumberTag, hofTag, hsize] at hr
      rw [hsize] at havailable
      obtain ⟨hne, hq⟩ := (fromField_consumes hr q).2 ⟨(key_ne_zero number).2 hnumber, by rwa [key_index], whole, by
        rw [key_index, havailable,
          show s.ptr + tagBytes.length + (stop - s.ptr - tagBytes.length) = stop by omega]
        exact hconsumes⟩
      exact ⟨r.1, by rw [hp, if_neg hne, hq, hsize]⟩

theorem fromBufferPass_keeps {stop : Nat} {s : Scan E} {p : Pass (Scan E) (Bool × Message E)}
    (h : (fromBufferPass mem stop s).Returns p) :
    (∀ s', p = .again s' → s'.message.definition = s.message.definition) ∧
    ∀ r, p = .done r → r.2.definition = s.message.definition := by
  rcases fromBufferPass_cases h with ⟨-, rfl⟩ | ⟨-, -, rfl⟩ | ⟨tag, tagSize, r, -, -, hr, rfl⟩
  · exact ⟨nofun, fun r hr => by cases hr; rfl⟩
  · exact ⟨nofun, fun r hr => by cases hr; rfl⟩
  · split
    · exact ⟨nofun, fun r' hr' => by cases hr'; exact fromField_keeps hr⟩
    · exact ⟨fun s' hs' => by cases hs'; exact fromField_keeps hr, nofun⟩

/-! ## What `FromBuffer` accepts -/

theorem Message.Field.bounds {stop p q : Nat} {whole : Bool} (h : m.Field mem stop p whole q) : p < q ∧ q ≤ stop := by
  obtain ⟨tag, number, type, htag, -, -, -, -, hconsumes⟩ := h
  have hpos := htag.length_pos
  have hle := hconsumes.le
  omega

theorem Message.Walks.le {stop p q : Nat} (h : m.Walks mem stop p q) : p ≤ q := by
  induction h with
  | refl => exact Nat.le_refl _
  | tail _ hfield ih =>
    obtain ⟨whole, hfield⟩ := hfield
    have := hfield.bounds
    omega

/-- The loop passes through where the walk comes to. -/
theorem Message.Walks.passes {stop data q : Nat} (hbig : stop - data < 2 ^ 32) (h : m.Walks mem stop data q) :
    ∃ m', Passes (fromBufferPass mem stop) ⟨data, m⟩ ⟨q, m'⟩ ∧ m'.definition = m.definition := by
  induction h with
  | refl => exact ⟨m, .refl, rfl⟩
  | @tail q q' hwalks hfield ih =>
    obtain ⟨m', hpasses, hdefinition⟩ := ih
    obtain ⟨whole, hfield⟩ := hfield
    obtain ⟨p, hp⟩ := fromBufferPass_total mem stop ⟨q, m'⟩
    have hle : data ≤ q := le hwalks
    have hbehind : stop - (Scan.mk q m').ptr < 2 ^ 32 := by
      dsimp only
      omega
    obtain ⟨m'', rfl⟩ := (fromBufferPass_again hbehind hp q').2 ⟨whole, hfield.same hdefinition.symm⟩
    exact ⟨m'', hpasses.tail hp, ((fromBufferPass_keeps hp).1 _ rfl).trans hdefinition⟩

omit [LawfulElement E] in
/-- `FromBuffer` ends. -/
theorem fromBuffer_total [TotalElement E] (mem : Memory) (data : Nat) (length : UInt32) (m : Message E) :
    (fromBuffer mem data length m).Terminates := by
  have hloop : ∃ b, (fromBuffer mem data length m).Returns b ∧ True := by
    -- each pass that goes on comes closer to the end
    refine loop_variant (fun _ : Scan E => True) (fun _ => True) (fun s => data + length.toNat - s.ptr)
      (fun s _ => ?_) trivial
    obtain ⟨p, hp⟩ := fromBufferPass_total mem (data + length.toNat) s
    rcases fromBufferPass_cases hp with ⟨-, rfl⟩ | ⟨-, -, rfl⟩ | ⟨tag, tagSize, r, hlt, -, -, rfl⟩
    · exact .inr ⟨_, hp, trivial⟩
    · exact .inr ⟨_, hp, trivial⟩
    · by_cases hzero : r.2 = 0
      · rw [if_pos hzero] at hp
        exact .inr ⟨_, hp, trivial⟩
      · rw [if_neg hzero] at hp
        have htaken : r.2.toNat ≠ 0 := fun h => hzero (UInt32.toNat_inj.1 h)
        exact .inl ⟨_, hp, trivial, by dsimp only; omega⟩
  obtain ⟨b, hb, -⟩ := hloop
  exact ⟨b, hb⟩

theorem fromBuffer_keeps {mem : Memory} {data : Nat} {length : UInt32} {m : Message E} {r : Bool × Message E}
    (h : (fromBuffer mem data length m).Returns r) : r.2.definition = m.definition :=
  loop_post (fun s : Scan E => s.message.definition = m.definition)
    (fun r : Bool × Message E => r.2.definition = m.definition)
    (fun _ _ hs hp => ((fromBufferPass_keeps hp).1 _ rfl).trans hs)
    (fun _ _ hs hp => ((fromBufferPass_keeps hp).2 _ rfl).trans hs) rfl h

/-- `FromBuffer` accepts exactly the buffers the message can read. -/
theorem fromBuffer_iff {mem : Memory} {data : Nat} {length : UInt32} {m : Message E} {r : Bool × Message E}
    (h : (fromBuffer mem data length m).Returns r) : r.1 = true ↔ m.reads mem data (data + length.toNat) := by
  have hlt := length.toNat_lt
  constructor
  · have hstart : m.Walks mem (data + length.toNat) data data := .refl
    -- the invariant: the fields taken so far are a walk to the pointer, by the definition the message began with
    refine loop_post
      (fun s : Scan E => m.Walks mem (data + length.toNat) data s.ptr ∧ s.ptr ≤ data + length.toNat ∧
        s.message.definition = m.definition)
      (fun r : Bool × Message E => r.1 = true → m.reads mem data (data + length.toNat)) (fun s s' hs hp => ?_)
      (fun s r hs hp => ?_) ⟨hstart, Nat.le_add_right _ _, rfl⟩ h
    · obtain ⟨hwalks, -, hdefinition⟩ := hs
      obtain ⟨q, m'⟩ := s'
      have hle := hwalks.le
      obtain ⟨whole, hfield⟩ := (fromBufferPass_again (by omega) hp q).1 ⟨m', rfl⟩
      exact ⟨hwalks.tail ⟨whole, hfield.same hdefinition⟩, hfield.bounds.2,
        ((fromBufferPass_keeps hp).1 _ rfl).trans hdefinition⟩
    · obtain ⟨hwalks, hinside, -⟩ := hs
      rcases fromBufferPass_cases hp with ⟨hend, -⟩ | ⟨-, -, hp⟩ | ⟨tag, tagSize, r', -, -, -, hp⟩
      · intro _
        rw [show s.ptr = data + length.toNat by omega] at hwalks
        exact hwalks
      · cases hp
        exact nofun
      · split at hp <;> cases hp
        exact nofun
  · intro hreads
    obtain ⟨m', hpasses, -⟩ := Message.Walks.passes (by omega) hreads
    have htrue : (fromBuffer mem data length m).Returns (true, m') :=
      hpasses.returns_iff.2 (loop_done (fromBufferPass_end ..))
    rw [h.unique htrue]

omit [LawfulElement E] in
/-- What `Message::Deserialize` does: without a payload it takes the prefix, and with one it reads it. -/
theorem deserializeMessage_cases {r : Message E × UInt32} (h : (deserializeMessage mem ptr available m).Returns r) :
    (readVarint mem ptr available = none ∧ r = (m, 0)) ∨
    ∃ size result, readVarint mem ptr available = some (size, result) ∧
      ((¬ (u32 size.toNat > 0 ∧ u32 size.toNat ≤ available - result.toUInt32) ∧ r = (m, result.toUInt32)) ∨
        ((u32 size.toNat > 0 ∧ u32 size.toNat ≤ available - result.toUInt32) ∧
          ∃ read, (fromBuffer mem (ptr + result.toNat) (u32 size.toNat) m).Returns read ∧
            r = (read.2, if read.1 then u32 (result.toNat + (u32 size.toNat).toNat) else result.toUInt32))) := by
  unfold deserializeMessage at h
  split at h
  · rename_i hnone
    exact .inl ⟨hnone, (returns_pure.1 h).symm⟩
  · rename_i size result hread
    refine .inr ⟨size, result, hread, ?_⟩
    dsimp only at h
    split at h
    · rename_i hfit
      obtain ⟨read, hr, hpure⟩ := returns_bind.1 h
      exact .inr ⟨hfit, read, hr, (returns_pure.1 hpure).symm⟩
    · rename_i hfit
      exact .inl ⟨hfit, (returns_pure.1 h).symm⟩

theorem deserializeMessage_total (mem : Memory) (ptr : Nat) (available : UInt32) (m : Message E) :
    (deserializeMessage mem ptr available m).Terminates := by
  unfold deserializeMessage
  split
  · exact ⟨_, returns_pure.2 rfl⟩
  · rename_i size result _
    dsimp only
    split
    · obtain ⟨r, hr⟩ := fromBuffer_total mem (ptr + result.toNat) (u32 size.toNat) m
      exact ⟨_, hr.bind (returns_pure.2 rfl)⟩
    · exact ⟨_, returns_pure.2 rfl⟩

theorem deserializeMessage_keeps {r : Message E × UInt32} (h : (deserializeMessage mem ptr available m).Returns r) :
    r.1.definition = m.definition := by
  rcases deserializeMessage_cases h with ⟨-, rfl⟩ | ⟨size, result, -, ⟨-, rfl⟩ | ⟨-, read, hread, rfl⟩⟩
  · rfl
  · rfl
  · exact fromBuffer_keeps hread

theorem deserializeMessage_consumes {r : Message E × UInt32} (h : (deserializeMessage mem ptr available m).Returns r) :
    ConsumesExactly mem (m.reads mem) ptr available .lengthDelimited r.2 := by
  have hlt := available.toNat_lt
  rcases deserializeMessage_cases h with ⟨hnone, rfl⟩ | ⟨size, result, hread, hr⟩
  · exact consumesExactly_delimited (fun _ => rfl) fun size result hread => by rw [hnone] at hread; cases hread
  · refine consumesExactly_delimited (fun hnone => by rw [hnone] at hread; cases hread) fun size' result' hread' => ?_
    rw [hread] at hread'
    cases hread'
    obtain ⟨bs, hbs, hholds, hlen, height, hle⟩ := readVarint_varint hread
    have hsize := u32_mod size.toNat
    have hresult : result.toUInt32.toNat = result.toNat := by simp
    have hleft : (available - result.toUInt32).toNat = available.toNat - result.toNat := by
      rw [UInt32.toNat_sub_of_le _ _ (UInt32.le_iff_toNat_le.2 (by omega)), hresult]
    rw [gt_iff_lt, UInt32.lt_iff_toNat_lt, UInt32.le_iff_toNat_le, hsize, hleft] at hr
    rcases hr with ⟨hno, rfl⟩ | ⟨⟨hpos, hfit⟩, read, hreturns, rfl⟩
    · -- no size is kept, or it does not fit
      refine ⟨fun hannounced => ?_, fun _ => hresult⟩
      have hroom := hannounced.1
      have hzero : size.toNat % 2 ^ 32 = 0 := by
        by_contra hne
        exact hno ⟨Nat.pos_of_ne_zero hne, by omega⟩
      rw [hzero]
      exact hresult
    · have hreads := fromBuffer_iff hreturns
      rw [hsize] at hreads
      refine ⟨fun hannounced => ?_, fun hno => ?_⟩
      · rw [if_pos (hreads.2 hannounced.2)]
        exact u32_eq (by omega) (by omega)
      · have hfalse : ¬ read.1 = true := fun htrue => hno ⟨by omega, hreads.1 htrue⟩
        rw [if_neg hfalse]
        exact hresult

end

/-! ## Nested messages are lawful -/

/-- The definition of an element over definitions of those below it. -/
inductive NestedDefinition (D : Type) where
  | scalar (e : Element)
  | message (m : UInt8 → Option D)
  | repeated (m : UInt8 → Option D)

section

variable {E : Type} [IElement E] [LawfulElement E]

def NestedElement.definition : NestedElement E → NestedDefinition (LawfulElement.Definition E)
  | .scalar e => .scalar e.element.definition
  | .message m => .message m.definition
  | .repeated fresh _ => .repeated fresh.definition

def NestedElement.reads : NestedElement E → Memory → Nat → Nat → Prop
  | .scalar _ => fun _ _ _ => True
  | .message m => m.reads
  | .repeated fresh _ => fresh.reads

variable {mem : Memory} {p : Nat} {available : UInt32}

theorem NestedElement.total (mem : Memory) (p : Nat) (available : UInt32) (e : NestedElement E) :
    (IElement.deserialize mem p available e).Terminates := by
  cases e with
  | scalar e => exact ⟨_, returns_pure.2 rfl⟩
  | message m =>
    obtain ⟨r, hr⟩ := deserializeMessage_total mem p available m
    exact ⟨_, hr.bind (returns_pure.2 rfl)⟩
  | repeated fresh elements =>
    obtain ⟨r, hr⟩ := deserializeMessage_total mem p available fresh
    exact ⟨_, hr.bind (returns_pure.2 rfl)⟩

theorem NestedElement.keeps {e : NestedElement E} {r : NestedElement E × UInt32}
    (h : (IElement.deserialize mem p available e).Returns r) : r.1.definition = e.definition := by
  cases e with
  | scalar e =>
    rw [← returns_pure.1 h]
    exact congrArg NestedDefinition.scalar (Element.deserialize_definition _ _ _ _)
  | message m =>
    obtain ⟨r', hr, hpure⟩ := returns_bind.1 h
    rw [← returns_pure.1 hpure]
    exact congrArg NestedDefinition.message (deserializeMessage_keeps hr)
  | repeated fresh elements =>
    obtain ⟨r', hr, hpure⟩ := returns_bind.1 h
    rw [← returns_pure.1 hpure]
    rfl

theorem NestedElement.consumes {e : NestedElement E} {r : NestedElement E × UInt32}
    (h : (IElement.deserialize mem p available e).Returns r) :
    ConsumesExactly mem (e.reads mem) p available (IElement.type e) r.2 := by
  cases e with
  | scalar e =>
    rw [← returns_pure.1 h]
    exact Element.deserialize_consumes e.sized _ _ _
  | message m =>
    obtain ⟨w, hw, hpure⟩ := returns_bind.1 h
    rw [← returns_pure.1 hpure]
    exact deserializeMessage_consumes hw
  | repeated fresh elements =>
    obtain ⟨w, hw, hpure⟩ := returns_bind.1 h
    rw [← returns_pure.1 hpure]
    exact deserializeMessage_consumes hw

theorem NestedElement.type_same {e e' : NestedElement E} (heq : e.definition = e'.definition) :
    IElement.type e = IElement.type e' := by
  cases e <;> cases e' <;> first
    | rfl
    | cases heq
    | exact LawfulElement.type_same (E := ScalarElement) (NestedDefinition.scalar.inj heq)

theorem NestedElement.reads_same {e e' : NestedElement E} (heq : e.definition = e'.definition) :
    e.reads = e'.reads := by
  cases e <;> cases e' <;> first
    | rfl
    | cases heq
    | exact Message.reads_same (NestedDefinition.message.inj heq)
    | exact Message.reads_same (NestedDefinition.repeated.inj heq)

instance : LawfulElement (NestedElement E) where
  Definition := NestedDefinition (LawfulElement.Definition E)
  definition := NestedElement.definition
  reads := NestedElement.reads
  total := NestedElement.total
  keeps := NestedElement.keeps
  type_same := NestedElement.type_same
  reads_same := NestedElement.reads_same
  consumes := NestedElement.consumes

end

instance instLawfulNested : (depth : Nat) → LawfulElement (Nested depth)
  | 0 => inferInstanceAs (LawfulElement ScalarElement)
  | depth + 1 =>
    have := instLawfulNested depth
    inferInstanceAs (LawfulElement (NestedElement (Nested depth)))

end Ocdm.Protobuf
