/-
What `Message::FromBuffer` accepts (Protobuf.h). A pass of its loop takes one complete field, except for a
length-delimited field that promises more than there is, or more than 32 bits can hold, and for a nested message that
cannot be read: there it goes on behind the length prefix. A buffer that is accepted is well-formed unless the loop
comes to its end through such a field (`fromBuffer_accepts_iff`).
-/
import Ocdm.Protobuf.Walk

namespace Ocdm.Protobuf

open Bytes Comp
open Wire (Varint IsPayload IsField WellFormed Overlong)

/-- An accepted buffer is well-formed, and one whose fields are followed by one that announces more bytes than there
are is not accepted. A varint has at most ten bytes. -/
structure AcceptOK (bytes : List UInt8) (accepted : Bool) : Prop where
  wellFormed : accepted = true → WellFormed 10 bytes
  overlong : ∀ (fields : List (List UInt8)) (rest : List UInt8), (∀ f ∈ fields, IsField 10 f) →
    bytes = fields.flatten ++ rest → Overlong rest → accepted = false

theorem acceptOK_iff {bytes : List UInt8} {accepted : Bool} :
    AcceptOK bytes accepted ↔ (accepted = true → WellFormed 10 bytes) := by
  refine ⟨AcceptOK.wellFormed, fun hwell => ⟨hwell, fun fields rest hfields hbytes hoverlong => ?_⟩⟩
  cases haccepted : accepted with
  | false => rfl
  | true =>
    have hbad := hwell haccepted
    rw [hbytes] at hbad
    exact absurd hbad (hoverlong.not_wellFormed hfields)

/-! ## Whole fields and others -/

section

variable {E : Type} [IElement E] [LawfulElement E] {mem : Memory} {stop p q : Nat} {m : Message E}

/-- A field that is taken whole is a complete one. -/
theorem Message.Field.isField (h : m.Field mem stop p true q) :
    ∃ f, IsField 10 f ∧ Holds mem p f ∧ p + f.length = q := by
  obtain ⟨tag, number, type, htag, height, hholds, hnumber, -, hconsumes⟩ := h
  obtain ⟨payload, hpayload, hpayloadHolds, hq, -⟩ := hconsumes.payload
  refine ⟨tag ++ payload, .mk htag (Nat.le_trans height (by decide)) (fun hzero => hnumber (by rw [hzero]; rfl))
    (hpayload.mono (by decide)), ?_, ?_⟩
  · rw [holds_append]
    exact ⟨hholds, hpayloadHolds⟩
  · rw [List.length_append, ← Nat.add_assoc]
    exact hq

/-- From `p` the fields come to the end of the buffer, and one of them is not taken whole. -/
def Message.Misreads (m : Message E) (mem : Memory) (p stop : Nat) : Prop :=
  ∃ a b, m.Walks mem stop p a ∧ m.Field mem stop a false b ∧ m.Walks mem stop b stop

theorem Message.Misreads.reads (h : m.Misreads mem p stop) : m.reads mem p stop := by
  obtain ⟨a, b, hfirst, hfield, hlast⟩ := h
  exact (hfirst.tail ⟨false, hfield⟩).trans hlast

/-- The bytes a message reads without a misread field are complete fields. -/
theorem Message.reads.fields (h : m.reads mem p stop) (hno : ¬ m.Misreads mem p stop) :
    ∃ fields : List (List UInt8), (∀ f ∈ fields, IsField 10 f) ∧ Holds mem p fields.flatten ∧
      p + fields.flatten.length = stop := by
  unfold reads Walks at h
  induction h using Relation.ReflTransGen.head_induction_on with
  | refl => exact ⟨[], fun f hf => (by cases hf), trivial, rfl⟩
  | @head p q hfield hrest ih =>
    obtain ⟨whole, hfield⟩ := hfield
    cases whole with
    | false => exact absurd ⟨p, q, .refl, hfield, hrest⟩ hno
    | true =>
      obtain ⟨f, hf, hholds, rfl⟩ := hfield.isField
      obtain ⟨fields, hfields, hfieldsHolds, hstop⟩ := ih fun ⟨a, b, hfirst, hbad, hlast⟩ =>
        hno ⟨a, b, .head ⟨true, hfield⟩ hfirst, hbad, hlast⟩
      refine ⟨f :: fields, ?_, ?_, ?_⟩
      · rintro g (_ | ⟨_, hg⟩)
        · exact hf
        · exact hfields g hg
      · rw [List.flatten_cons, holds_append]
        exact ⟨hholds, hfieldsHolds⟩
      · rw [List.flatten_cons, List.length_append, ← Nat.add_assoc]
        exact hstop

end

/-- For every definition of a message, nested to any depth, and every buffer `FromBuffer` returns, and what it
answers is right exactly when the buffer is well-formed or is not read to its end through a misread field. -/
theorem fromBuffer_accepts_iff {depth : Nat} (mem : Memory) (data : Nat) (length : UInt32)
    (m : Message (Nested depth)) :
    (∃ r, (fromBuffer mem data length m).Returns r ∧ AcceptOK (slice mem data length.toNat) r.1) ↔
      WellFormed 10 (slice mem data length.toNat) ∨ ¬ m.Misreads mem data (data + length.toNat) := by
  obtain ⟨r, hr⟩ := fromBuffer_total mem data length m
  have haccepts := fromBuffer_iff hr
  constructor
  · rintro ⟨r', hr', hok⟩
    rw [← hr.unique hr', acceptOK_iff] at hok
    by_cases hmisreads : m.Misreads mem data (data + length.toNat)
    · exact .inl (hok (haccepts.2 hmisreads.reads))
    · exact .inr hmisreads
  · intro hwell
    refine ⟨r, hr, acceptOK_iff.2 fun haccepted => ?_⟩
    rcases hwell with hwell | hno
    · exact hwell
    · obtain ⟨fields, hfields, hholds, hstop⟩ := (haccepts.1 haccepted).fields hno
      refine ⟨fields, hfields, ?_⟩
      rw [← hholds.slice_eq, show fields.flatten.length = length.toNat by omega]

/-- A message of one string under index 1. -/
def oneString : Message (Nested 0) := Message.add [] 1 (⟨.single .string, trivial⟩ : ScalarElement) false

/-- Five bytes are announced and none are there: the buffer is accepted. -/
theorem overlong_accepted :
    ∃ r, (fromBuffer (place 0 [0x0a, 0x05] 0) 0 2 oneString).Returns r ∧
      ¬ AcceptOK (slice (place 0 [0x0a, 0x05] 0) 0 2) r.1 := by
  refine ⟨(true, oneString), ⟨3, by rfl⟩, fun hok => ?_⟩
  have hoverlong : Overlong [0x0a, 0x05] :=
    ⟨[0x0a], [0x05], [], 1, 5, rfl, .last (by decide), by decide, .last (by decide), by decide⟩
  cases hok.overlong [] [0x0a, 0x05] (fun f hf => by cases hf) (by decide) hoverlong

end Ocdm.Protobuf
