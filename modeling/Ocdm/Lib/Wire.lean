/-
The protobuf wire format on lists of bytes: varints, payloads by the code of their wire type, complete fields and
their concatenations, with varints of at most `limit` bytes. Each of them is told from what follows it
(`Varint.unique`, `IsPayload.unique`, `IsField.unique`), so that there is one way to walk over the fields of a buffer,
and none past a field that announces more bytes than there are.
-/
import Mathlib.Tactic.Ring

namespace Wire

/-! ## Varints -/

/-- The bytes of a base-128 varint and its value: seven bits a byte, the lowest first, the high bit for more. -/
inductive Varint : List UInt8 → Nat → Prop where
  | last {b : UInt8} : b.toNat < 128 → Varint [b] b.toNat
  | more {b : UInt8} {bs : List UInt8} {v : Nat} :
      128 ≤ b.toNat → Varint bs v → Varint (b :: bs) (b.toNat % 128 + 128 * v)

theorem Varint.length_pos {bs : List UInt8} {v : Nat} (h : Varint bs v) : 0 < bs.length := by
  cases h <;> exact Nat.succ_pos _

/-- Seven bits a byte. -/
theorem Varint.lt {bs : List UInt8} {v : Nat} (h : Varint bs v) : v < 2 ^ (7 * bs.length) := by
  induction h with
  | last hb => exact hb
  | @more b bs v _ _ ih =>
    have hpow : 2 ^ (7 * (b :: bs).length) = 2 ^ (7 * bs.length) * 128 := by
      rw [List.length_cons, show 7 * (bs.length + 1) = 7 * bs.length + 7 by omega, Nat.pow_add]
    omega

/-- A varint ends where it says itself. -/
theorem Varint.unique {xs ys as bs : List UInt8} {v w : Nat} (hx : Varint xs v) (hy : Varint ys w)
    (h : xs ++ as = ys ++ bs) : xs = ys ∧ v = w := by
  induction hx generalizing ys w with
  | last hb =>
    cases hy with
    | last _ => cases h; exact ⟨rfl, rfl⟩
    | more hb' _ => cases h; omega
  | more hb _ ih =>
    cases hy with
    | last hb' => cases h; omega
    | more hb' hy =>
      obtain ⟨rfl, hrest⟩ := List.cons.inj h
      obtain ⟨rfl, rfl⟩ := ih hy hrest
      exact ⟨rfl, rfl⟩

theorem Varint.value_unique {bs : List UInt8} {v w : Nat} (hv : Varint bs v) (hw : Varint bs w) : v = w :=
  (hv.unique hw (List.append_nil bs ▸ rfl : bs ++ [] = bs ++ [])).2

/-! ## Fields -/

/-- The bytes of a payload of the wire type with a code. -/
inductive IsPayload (limit : Nat) : Nat → List UInt8 → Prop where
  | varint {bs : List UInt8} {v : Nat} : Varint bs v → bs.length ≤ limit → IsPayload limit 0 bs
  | fixed64 {bs : List UInt8} : bs.length = 8 → IsPayload limit 1 bs
  | delimited {size body : List UInt8} :
      Varint size body.length → size.length ≤ limit → IsPayload limit 2 (size ++ body)
  | fixed32 {bs : List UInt8} : bs.length = 4 → IsPayload limit 5 bs

/-- The bytes of a complete field with a number and a wire type's code. -/
inductive FieldOf (limit number code : Nat) : List UInt8 → Prop where
  | mk {tag payload : List UInt8} :
      Varint tag (number * 8 + code) → tag.length ≤ limit → IsPayload limit code payload →
      FieldOf limit number code (tag ++ payload)

/-- A complete field: a tag with a number that is not zero, and a payload of its wire type. -/
inductive IsField (limit : Nat) : List UInt8 → Prop where
  | mk {tag payload : List UInt8} {number code : Nat} :
      Varint tag (number * 8 + code) → tag.length ≤ limit → number ≠ 0 → IsPayload limit code payload →
      IsField limit (tag ++ payload)

/-- A concatenation of complete fields. -/
def WellFormed (limit : Nat) (bytes : List UInt8) : Prop :=
  ∃ fields : List (List UInt8), (∀ f ∈ fields, IsField limit f) ∧ fields.flatten = bytes

/-- The bytes begin with a length-delimited field that announces more bytes than there are. -/
def Overlong (bytes : List UInt8) : Prop :=
  ∃ tag size body number n, bytes = tag ++ (size ++ body) ∧ Varint tag (number * 8 + 2) ∧ number ≠ 0 ∧
    Varint size n ∧ body.length < n

variable {limit limit' : Nat}

theorem IsPayload.code_lt {code : Nat} {bs : List UInt8} (h : IsPayload limit code bs) : code < 8 := by
  cases h <;> decide

theorem IsPayload.mono {code : Nat} {bs : List UInt8} (hle : limit ≤ limit') (h : IsPayload limit code bs) :
    IsPayload limit' code bs := by
  cases h with
  | varint hbs height => exact .varint hbs (Nat.le_trans height hle)
  | fixed64 hlength => exact .fixed64 hlength
  | delimited hsize height => exact .delimited hsize (Nat.le_trans height hle)
  | fixed32 hlength => exact .fixed32 hlength

theorem IsPayload.length_pos {code : Nat} {bs : List UInt8} (h : IsPayload limit code bs) : 0 < bs.length := by
  cases h with
  | varint hbs _ => exact hbs.length_pos
  | fixed64 hlength => omega
  | delimited hsize _ =>
    have := hsize.length_pos
    rw [List.length_append]
    omega
  | fixed32 hlength => omega

theorem IsPayload.unique {code : Nat} {xs ys as bs : List UInt8} (hx : IsPayload limit code xs)
    (hy : IsPayload limit' code ys) (h : xs ++ as = ys ++ bs) : xs = ys := by
  cases hx with
  | varint hx _ =>
    cases hy with
    | varint hy _ => exact (hx.unique hy h).1
  | fixed64 hx =>
    cases hy with
    | fixed64 hy => exact (List.append_inj h (hx.trans hy.symm)).1
  | delimited hx _ =>
    cases hy with
    | delimited hy _ =>
      rw [List.append_assoc, List.append_assoc] at h
      obtain ⟨rfl, hlength⟩ := hx.unique hy h
      rw [(List.append_inj (List.append_cancel_left h) hlength).1]
  | fixed32 hx =>
    cases hy with
    | fixed32 hy => exact (List.append_inj h (hx.trans hy.symm)).1

theorem IsField.length_pos {f : List UInt8} (h : IsField limit f) : 0 < f.length := by
  obtain ⟨htag, -, -, -⟩ := h
  have := htag.length_pos
  rw [List.length_append]
  omega

theorem FieldOf.length_pos {number code : Nat} {f : List UInt8} (h : FieldOf limit number code f) : 0 < f.length := by
  obtain ⟨htag, -, -⟩ := h
  have := htag.length_pos
  rw [List.length_append]
  omega

/-- Fields that begin the same bytes are the same. -/
theorem IsField.unique {f g as bs : List UInt8} (hf : IsField limit f) (hg : IsField limit' g) (h : f ++ as = g ++ bs) :
    f = g := by
  cases hf with
  | @mk tag payload number code htag _ _ hpayload =>
    cases hg with
    | @mk tag' payload' number' code' htag' _ _ hpayload' =>
      rw [List.append_assoc, List.append_assoc] at h
      obtain ⟨rfl, hvalue⟩ := htag.unique htag' h
      have hcode := hpayload.code_lt
      have hcode' := hpayload'.code_lt
      obtain rfl : code = code' := by omega
      rw [hpayload.unique hpayload' (List.append_cancel_left h)]

/-- A complete field does not announce more bytes than there are. -/
theorem IsField.not_overlong {f rest : List UInt8} (hf : IsField limit f) : ¬ Overlong (f ++ rest) := by
  rintro ⟨tag, size, body, number, n, heq, htag, -, hsize, hlt⟩
  cases hf with
  | @mk tag' payload number' code htag' _ _ hpayload =>
    rw [List.append_assoc] at heq
    obtain ⟨rfl, hvalue⟩ := htag'.unique htag heq
    have hcode := hpayload.code_lt
    obtain rfl : code = 2 := by omega
    cases hpayload with
    | delimited hsize' _ =>
      rw [List.append_assoc] at heq
      have hbody := List.append_cancel_left heq
      obtain ⟨rfl, rfl⟩ := hsize'.unique hsize hbody
      rw [← List.append_cancel_left hbody, List.length_append] at hlt
      omega

/-- Past a field that announces more bytes than there are no fields follow. -/
theorem Overlong.not_wellFormed {rest : List UInt8} (h : Overlong rest) :
    ∀ {fields : List (List UInt8)}, (∀ f ∈ fields, IsField limit f) → ¬ WellFormed limit' (fields.flatten ++ rest) := by
  intro fields
  induction fields with
  | nil =>
    rintro - ⟨fields', hfields', heq⟩
    cases fields' with
    | nil =>
      obtain ⟨tag, size, body, number, n, rfl, htag, -⟩ := h
      have hpos := htag.length_pos
      rw [List.flatten_nil, List.nil_append] at heq
      rw [(List.append_eq_nil_iff.1 heq.symm).1] at hpos
      cases hpos
    | cons f fields' =>
      rw [List.flatten_cons, List.flatten_nil, List.nil_append] at heq
      rw [← heq] at h
      exact (hfields' f List.mem_cons_self).not_overlong h
  | cons f fields ih =>
    rintro hfields ⟨fields', hfields', heq⟩
    have hf := hfields f List.mem_cons_self
    rw [List.flatten_cons, List.append_assoc] at heq
    cases fields' with
    | nil =>
      have hpos := hf.length_pos
      rw [List.flatten_nil] at heq
      rw [(List.append_eq_nil_iff.1 heq.symm).1] at hpos
      cases hpos
    | cons g fields' =>
      rw [List.flatten_cons] at heq
      obtain rfl := (hfields' g List.mem_cons_self).unique hf heq
      exact ih (fun x hx => hfields x (List.mem_cons_of_mem _ hx))
        ⟨fields', fun x hx => hfields' x (List.mem_cons_of_mem _ hx), List.append_cancel_left heq⟩

end Wire
