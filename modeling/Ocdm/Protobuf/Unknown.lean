/-
Fields with numbers that are not registered (Protobuf.h). The wire's numbers go up to `2 ^ 29 - 1`, and elements are
registered under 8-bit indices: `FromBuffer` looks a number up by its low 8 bits. Fields whose low 8 bits are registered
nowhere can be inserted and removed between fields without a trace, and those of no other number can
(`unknown_invisible_iff`).
-/
import Ocdm.Protobuf.Whole
import Ocdm.Protobuf.Encode
import Ocdm.Protobuf.Accept
import Mathlib.Logic.Relation

namespace Ocdm.Protobuf

open Bytes Comp
open Wire (Varint IsPayload FieldOf)

section

variable {E : Type} [IElement E] [LawfulElement E] [LocalElement E] {m : Message E}

/-! ## Inserting and removing -/

/-- A field of the kind `P` is inserted behind fields that are taken whole; anything can follow. -/
def Inserts (m : Message E) (P : List UInt8 → Prop) (bytes bytes' : List UInt8) : Prop :=
  ∃ before f after, bytes = before ++ after ∧ bytes' = before ++ (f ++ after) ∧ m.ReadsWhole before ∧ P f ∧
    bytes'.length < 2 ^ 32

/-- Inserting and removing fields of the kind `P`, any number of times, changes neither whether a buffer is accepted nor
the message that `FromBuffer` fills from it. -/
def Invisible (m : Message E) (P : List UInt8 → Prop) : Prop :=
  ∀ bytes bytes', Relation.EqvGen (Inserts m P) bytes bytes' →
    ∀ (mem mem' : Memory) (data data' : Nat) (length length' : UInt32), Holds mem data bytes →
      length.toNat = bytes.length → Holds mem' data' bytes' → length'.toNat = bytes'.length →
      ∀ m', (fromBuffer mem data length m).Returns (true, m') ↔ (fromBuffer mem' data' length' m).Returns (true, m')

/-! ## What is skipped is invisible -/

/-- A field whose low 8 bits are not registered changes nothing. -/
theorem Message.takes_unknown {number code : Nat} {f : List UInt8} (hpos : 0 < number) (hlt : number < 2 ^ 29)
    (hf : FieldOf 8 number code f) (hsmall : f.length < 2 ^ 32) (hunknown : m.lookup (UInt8.ofNat number) = none) :
    m.Takes f m := by
  obtain ⟨htag, height, hpayload⟩ := hf
  rename_i tag payload
  obtain ⟨type, rfl⟩ := code_type hpayload
  rw [List.length_append] at hsmall
  have hroom : payload.length ≤ (u32 payload.length).toNat := by rw [u32_eq rfl (by omega)]
  have hholds := holds_place 0 payload 0
  refine Message.takes_of htag height hpayload hholds hroom
    (n := skip (place 0 payload 0) 0 (u32 payload.length) type) ?_
    (skip_payload hpayload hholds hroom)
  unfold fromField
  rw [if_pos ((key_ne_zero number).2 (by omega)), key_index, hunknown]
  exact returns_pure.2 rfl

/-- Inserting one field that is taken without a change. -/
theorem fromBuffer_inserted {before f after : List UInt8} (hbefore : m.ReadsWhole before)
    (hf : ∀ m' : Message E, m'.definition = m.definition → m'.Takes f m') {mem mem' : Memory} {data data' : Nat}
    {length length' : UInt32} (hholds : Holds mem data (before ++ after))
    (hlength : length.toNat = (before ++ after).length)
    (hholds' : Holds mem' data' (before ++ (f ++ after))) (hlength' : length'.toNat = (before ++ (f ++ after)).length)
    (r : Bool × Message E) : (fromBuffer mem data length m).Returns r ↔
    (fromBuffer mem' data' length' m).Returns r := by
  have hlt' := length'.toNat_lt
  simp only [List.length_append] at hlength hlength'
  rw [holds_append] at hholds hholds'
  rw [holds_append] at hholds'
  obtain ⟨m', hdefinition, hpasses⟩ := hbefore.passes (by omega)
  have hfirst := hpasses mem data (data + length.toNat) hholds.1 (by omega) (by omega)
  have hfirst' := hpasses mem' data' (data' + length'.toNat) hholds'.1 (by omega) (by omega)
  have hinserted : Passes (fromBufferPass mem' (data' + length'.toNat)) ⟨data', m⟩
    ⟨data' + before.length + f.length, m'⟩ :=
    hfirst'.tail (hf m' hdefinition mem' _ _ hholds'.2.1 (by omega) (by omega))
  -- the two scans are in front of the same bytes, with the same message
  have hrest : (u32 after.length).toNat = after.length := u32_eq rfl (by omega)
  have hleft : fromBuffer mem (data + before.length) (u32 after.length) m' =
      loop (fromBufferPass mem (data + length.toNat)) ⟨data + before.length, m'⟩ := by
    unfold fromBuffer
    rw [hrest, show data + before.length + after.length = data + length.toNat by omega]
  have hright : fromBuffer mem' (data' + before.length + f.length) (u32 after.length) m' =
      loop (fromBufferPass mem' (data' + length'.toNat)) ⟨data' + before.length + f.length, m'⟩ := by
    unfold fromBuffer
    rw [hrest, show data' + before.length + f.length + after.length = data' + length'.toNat by omega]
  have hagree := hholds.2.agree hholds'.2.2
  unfold fromBuffer
  rw [hfirst.returns_iff, hinserted.returns_iff, ← hleft, ← hright]
  constructor
  · exact fromBuffer_same fun i hi => hagree i (by omega)
  · exact fromBuffer_same fun i hi => (hagree i (by omega)).symm

omit [LocalElement E] in
theorem inserts_small {P : List UInt8 → Prop} {bytes bytes' : List UInt8}
    (h : Relation.EqvGen (Inserts m P) bytes bytes') : bytes.length < 2 ^ 32 ↔ bytes'.length < 2 ^ 32 := by
  induction h with
  | rel bytes bytes' h =>
    obtain ⟨before, f, after, rfl, rfl, -, -, hsmall⟩ := h
    refine ⟨fun _ => hsmall, fun _ => ?_⟩
    simp only [List.length_append] at hsmall ⊢
    omega
  | refl => exact Iff.rfl
  | symm _ _ _ ih => exact ih.symm
  | trans _ _ _ _ _ ih ih' => exact ih.trans ih'

/-- Kinds of fields that are taken without a change are invisible. -/
theorem invisible_of_takes {P : List UInt8 → Prop}
    (hP : ∀ f, P f → f.length < 2 ^ 32 → ∀ m' : Message E, m'.definition = m.definition → m'.Takes f m') :
    Invisible m P := by
  intro bytes bytes' hedits
  induction hedits with
  | rel bytes bytes' h =>
    obtain ⟨before, f, after, rfl, rfl, hbefore, hf, hsmall⟩ := h
    intro mem mem' data data' length length' hholds hlength hholds' hlength' m'
    simp only [List.length_append] at hsmall
    exact fromBuffer_inserted hbefore (hP f hf (by omega)) hholds hlength hholds' hlength' (true, m')
  | refl bytes =>
    intro mem mem' data data' length length' hholds hlength hholds' hlength' m'
    obtain rfl : length = length' := UInt32.toNat_inj.1 (hlength.trans hlength'.symm)
    have hagree := hholds.agree hholds'
    rw [← hlength] at hagree
    exact ⟨fromBuffer_same hagree, fromBuffer_same fun i hi => (hagree i hi).symm⟩
  | symm bytes bytes' _ ih =>
    intro mem mem' data data' length length' hholds hlength hholds' hlength' m'
    exact (ih mem' mem data' data length' length hholds' hlength' hholds hlength m').symm
  | trans bytes middle bytes' hedits _ ih ih' =>
    intro mem mem' data data' length length' hholds hlength hholds' hlength' m'
    have hmiddle : (u32 middle.length).toNat = middle.length :=
      u32_eq rfl ((inserts_small hedits).1 (by rw [← hlength]; exact length.toNat_lt))
    have hplace := holds_place 0 middle 0
    exact (ih mem _ data 0 length _ hholds hlength hplace hmiddle m').trans
      (ih' _ mem' 0 data' _ length' hplace hmiddle hholds' hlength' m')

/-! ## What is not skipped is seen -/

theorem Consumes.short {limit : Nat} {mem : Memory} {reads : Nat → Nat → Prop} {p stop q : Nat} {type : WireType}
    {whole : Bool} {payload : List UInt8} (h : Consumes mem reads p stop type whole q)
    (hpayload : IsPayload limit type.code payload) (hholds : Holds mem p payload) : IsPayload 8 type.code payload := by
  have hsize : ∀ {size size' : List UInt8} {n n' : Nat}, Varint size n → Varint size' n' → Holds mem p size →
      Holds mem p size' → size.length ≤ 8 → size'.length ≤ 8 := fun hs hs' hh hh' height => by
    obtain ⟨rfl, -⟩ := varint_unique hs hs' hh hh'
    exact height
  cases h with
  | varint hbs height hbsHolds _ =>
    obtain ⟨hpayload, -⟩ := hpayload
    exact .varint hpayload (hsize hbs hpayload hbsHolds hholds height)
  | fixed64 _ =>
    obtain _ | hlength := hpayload
    exact .fixed64 hlength
  | fixed32 _ =>
    obtain _ | _ | _ | hlength := hpayload
    exact .fixed32 hlength
  | delimited hs height hsHolds _ _ =>
    obtain _ | _ | ⟨hpayload, -⟩ := hpayload
    exact .delimited hpayload (hsize hs hpayload hsHolds ((holds_append ..).1 hholds).1 height)
  | dropped hs height hsHolds _ _ =>
    obtain _ | _ | ⟨hpayload, -⟩ := hpayload
    exact .delimited hpayload (hsize hs hpayload hsHolds ((holds_append ..).1 hholds).1 height)
  | wrapped hs height hsHolds _ _ _ =>
    obtain _ | _ | ⟨hpayload, -⟩ := hpayload
    exact .delimited hpayload (hsize hs hpayload hsHolds ((holds_append ..).1 hholds).1 height)

omit [LocalElement E] in
/-- A buffer of one field that is accepted: its varints are short, and an element under its low 8 bits is of
its type. -/
theorem accepted_field {limit number code : Nat} {f : List UInt8} (hf : FieldOf limit number code f) {mem : Memory}
    {data : Nat} {length : UInt32} {m' : Message E} (hholds : Holds mem data f) (hlength : length.toNat = f.length)
    (h : (fromBuffer mem data length m).Returns (true, m')) :
    FieldOf 8 number code f ∧
      ∀ entry, m.lookup (UInt8.ofNat number) = some entry → (IElement.type entry.element).code = code := by
  have hpos := hf.length_pos
  have hreads := (fromBuffer_iff h).1 rfl
  rcases Relation.ReflTransGen.cases_head hreads with hend | ⟨q, ⟨whole, hfield⟩, -⟩
  · omega
  · obtain ⟨tag', number', type, htag', height', htagHolds, -, htype, hconsumes⟩ := hfield
    obtain ⟨htag, -, hpayload⟩ := hf
    rw [holds_append] at hholds
    obtain ⟨rfl, hvalue⟩ := varint_unique htag' htag htagHolds hholds.1
    have hcode := type.code_lt
    have hcode' := hpayload.code_lt
    obtain rfl : type.code = code := by omega
    obtain rfl : number' = number := by omega
    exact ⟨.mk htag height' (hconsumes.short hpayload hholds.2),
      fun entry hentry => congrArg WireType.code (htype entry hentry)⟩

omit [LocalElement E] in
/-- What is invisible is accepted on its own. -/
theorem Invisible.accepted {P : List UInt8 → Prop} (h : Invisible m P) {f : List UInt8} (hf : P f)
    (hsmall : f.length < 2 ^ 32) : (fromBuffer (place 0 f 0) 0 (u32 f.length) m).Returns (true, m) := by
  have hinserts : Inserts m P [] f :=
    ⟨[], f, [], rfl, by rw [List.nil_append, List.append_nil], .refl, hf, hsmall⟩
  refine (h [] f (.rel _ _ hinserts) (place 0 [] 0) (place 0 f 0) 0 0 0 (u32 f.length) trivial rfl (holds_place ..)
    (u32_eq rfl (by omega)) m).1 ?_
  exact loop_done (fromBufferPass_end (place 0 [] 0) 0 m)

/-- There is a field of every number and of two wire types. -/
theorem exists_field {number : Nat} (hlt : number < 2 ^ 29) (type : WireType) :
    ∃ code f, code ≠ type.code ∧ FieldOf 8 number code f ∧ f.length < 2 ^ 32 := by
  have htag : ∀ code, code < 8 → (encodeVarint (number * 8 + code)).length ≤ 5 := fun code hcode =>
    encodeVarint_length (k := 4) (by omega)
  by_cases htype : type.code = 0
  · refine ⟨5, encodeVarint (number * 8 + 5) ++ [0, 0, 0, 0], by omega,
      .mk (encodeVarint_varint _) (Nat.le_trans (htag 5 (by decide)) (by decide)) (.fixed32 rfl), ?_⟩
    have := htag 5 (by decide)
    rw [List.length_append, show [(0 : UInt8), 0, 0, 0].length = 4 from rfl]
    omega
  · refine ⟨0, encodeVarint (number * 8 + 0) ++ [0], fun h => htype h.symm,
      .mk (encodeVarint_varint _) (Nat.le_trans (htag 0 (by decide)) (by decide))
        (.varint (.last (b := 0) (by decide)) (by decide)), ?_⟩
    have := htag 0 (by decide)
    rw [List.length_append, List.length_singleton]
    omega

end

/-- For every message, nested to any depth, and every set of numbers: the fields of these numbers, with varints of at
most the eight bytes that are read, can be inserted and removed without a trace exactly when no element is registered
under the low 8 bits of one of them. A longer varint in such a field is seen. -/
theorem unknown_invisible_iff {depth : Nat} (m : Message (Nested depth)) (numbers : Nat → Prop)
    (hnumbers : ∀ number, numbers number → 0 < number ∧ number < 2 ^ 29) :
    (Invisible m (fun f => ∃ number code, numbers number ∧ FieldOf 8 number code f) ↔
      ∀ number, numbers number → m.lookup (UInt8.ofNat number) = none) ∧
    ∀ number code f, numbers number → m.lookup (UInt8.ofNat number) = none → FieldOf 10 number code f →
      f.length < 2 ^ 32 → (Invisible m (· = f) ↔ FieldOf 8 number code f) := by
  have htakes : ∀ {number code f}, numbers number → m.lookup (UInt8.ofNat number) = none → FieldOf 8 number code f →
      f.length < 2 ^ 32 → ∀ m' : Message (Nested depth), m'.definition = m.definition → m'.Takes f m' := by
    intro number code f hnumber hunknown hf hsmall m' hdefinition
    obtain ⟨hpos, hlt⟩ := hnumbers number hnumber
    refine Message.takes_unknown hpos hlt hf hsmall ?_
    rcases Message.definition_lookup hdefinition (UInt8.ofNat number) with ⟨hnone, -⟩ | ⟨_, entry, _, hentry, _⟩
    · exact hnone
    · rw [hunknown] at hentry
      cases hentry
  refine ⟨⟨fun h number hnumber => ?_, fun h => ?_⟩,
    fun number code f hnumber hunknown hf hsmall => ⟨fun h => ?_, fun hshort => ?_⟩⟩
  · -- a field of another wire type is refused
    cases hentry : m.lookup (UInt8.ofNat number) with
    | none => rfl
    | some entry =>
      obtain ⟨code, f, hcode, hf, hsmall⟩ := exists_field (hnumbers number hnumber).2 (IElement.type entry.element)
      have haccepted := h.accepted ⟨number, code, hnumber, hf⟩ hsmall
      have htype := (accepted_field hf (holds_place ..) (u32_eq rfl (by omega)) haccepted).2 entry hentry
      exact absurd htype.symm hcode
  · refine invisible_of_takes ?_
    rintro f ⟨number, code, hnumber, hf⟩ hsmall
    exact htakes hnumber (h number hnumber) hf hsmall
  · exact (accepted_field hf (holds_place ..) (u32_eq rfl (by omega)) (h.accepted rfl hsmall)).1
  · refine invisible_of_takes ?_
    rintro _ rfl hsmall
    exact htakes hnumber hunknown hshort hsmall

theorem two_invisible : Invisible oneString (fun f => ∃ number code, number = 2 ∧ FieldOf 8 number code f) :=
  (unknown_invisible_iff oneString (· = 2) (by rintro _ rfl; decide)).1.2 (by rintro _ rfl; rfl)

/-- Field 257 is looked up under 1: what it brings is appended to the string registered there. -/
theorem unregistered_seen : ¬ Invisible oneString (fun f => ∃ number code, 0 < number ∧ number < 2 ^ 29 ∧
    (∀ index, (oneString.lookup index).isSome → index.toNat ≠ number) ∧ FieldOf 10 number code f) := by
  intro h
  have hfield : FieldOf 10 257 2 [0x8a, 0x10, 0x01, 0x41] :=
    @FieldOf.mk 10 257 2 [0x8a, 0x10] [0x01, 0x41] (.more (by decide) (.last (by decide))) (by decide)
      (@IsPayload.delimited 10 [0x01] [0x41] (.last (by decide)) (by decide))
  have hunregistered : ∀ index, (oneString.lookup index).isSome → index.toNat ≠ 257 := fun index _ => by
    have := index.toNat_lt
    omega
  have haccepted := h.accepted ⟨257, 2, by decide, by decide, hunregistered, hfield⟩ (by decide)
  have hread : (fromBuffer (place 0 [0x8a, 0x10, 0x01, 0x41] 0) 0 4 oneString).Returns
      (true, [(1, ⟨⟨.single (.bytes [0x41] false), trivial⟩, false⟩)]) := ⟨3, by rfl⟩
  have hmessage := congrArg Prod.snd (hread.unique haccepted)
  cases hmessage

end Ocdm.Protobuf
