/-
The `BufferAdministrator` (FrameworkRPC.cpp) over any sequence of calls: the bits of its mask are the names handed out
and not given back, although numbers travel as text and `ReleaseBuffer` lets one number through that has no bit. So
`AquireBuffer` hands out the lowest name that is not outstanding, and `ReleaseBuffer` takes a name back exactly when it
is (`administrator_run`).
-/
import Mathlib.Data.List.Induction
import Ocdm.Lib.Effects
import Ocdm.Server.Buffers

namespace Ocdm.Server

namespace Administrator

/-! ## Calls and names -/

/-- A call of the administrator; `ReleaseBuffer` gets the name of a number, which need not be one of a buffer. -/
inductive Call where
  | aquire
  | release (number : UInt8)
deriving DecidableEq, Repr

/-- What a call gave back. -/
inductive Event where
  | aquired (locator : Option Text)
  | released (locator : Text) (result : Bool)
deriving DecidableEq, Repr

section

variable [NumberType]

def call (admin : BufferAdministrator) : Call → BufferAdministrator × Event
  | .aquire => (admin.aquireBuffer.1, .aquired admin.aquireBuffer.2)
  | .release number =>
    let locator := locatorOf admin.basePath number.toNat
    ((admin.releaseBuffer locator).1, .released locator (admin.releaseBuffer locator).2)

/-- The calls one after the other. -/
def run (admin : BufferAdministrator) (calls : List Call) : BufferAdministrator × List Event :=
  Effects.run (fun admin c => ((call admin c).1, [(call admin c).2])) admin calls

end

/-- One event's part in the names that are outstanding. -/
def account (names : List Text) : Event → List Text
  | .aquired (some locator) => locator :: names
  | .aquired none => names
  | .released locator true => names.erase locator
  | .released _ false => names

/-- The names handed out and not taken back. -/
def outstanding (events : List Event) : List Text := events.foldl account []

theorem outstanding_append (events : List Event) (event : Event) :
    outstanding (events ++ [event]) = account (outstanding events) event := by
  unfold outstanding
  rw [List.foldl_append]
  rfl

section

variable [NumberType] {basePath : Text} {admin : BufferAdministrator} {names : List Text}

/-- What a call has to give back while these names are outstanding, and what it has to do to the mask. -/
def Answers (basePath : Text) (names : List Text) (occupation occupation' : UInt16) : Event → Prop
  | .aquired locator =>
    (locator = none ↔ ∀ index < occupationBits, locatorOf basePath index ∈ names) ∧
    ∀ name, locator = some name → ∃ index < occupationBits, name = locatorOf basePath index ∧ name ∉ names ∧
      ∀ j < index, locatorOf basePath j ∈ names
  | .released locator result =>
    (result = true ↔ locator ∈ names) ∧
    (result = true → ∀ index, occupied occupation' index =
      (occupied occupation index && decide (locatorOf basePath index ≠ locator))) ∧
    (result = false → occupation' = occupation)

/-- The mask of the administrator and the names that are outstanding. -/
structure Keeps (basePath : Text) (admin : BufferAdministrator) (names : List Text) : Prop where
  base : admin.basePath = basePath
  nodup : names.Nodup
  occupied_iff : ∀ index < occupationBits, occupied admin.occupation index = true ↔ locatorOf basePath index ∈ names
  numbered : ∀ name ∈ names, ∃ index < occupationBits, name = locatorOf basePath index

/-! ## AquireBuffer -/

/-- The lowest free number, or nothing when all are taken. -/
theorem aquireBuffer_cases (admin : BufferAdministrator) :
    (∃ index < occupationBits, occupied admin.occupation index = false ∧
      (∀ j < index, occupied admin.occupation j = true) ∧
      admin.aquireBuffer.2 = some (locatorOf admin.basePath index) ∧
      admin.aquireBuffer.1.basePath = admin.basePath ∧
      ∀ j, occupied admin.aquireBuffer.1.occupation j = (occupied admin.occupation j || decide (index = j))) ∨
    ((∀ j < occupationBits, occupied admin.occupation j = true) ∧ admin.aquireBuffer = (admin, none)) := by
  obtain ⟨-, hle, hpassed, hfree⟩ := scan_spec admin.occupation occupationBits 0
  unfold BufferAdministrator.aquireBuffer
  dsimp only
  by_cases hlt : scan admin.occupation occupationBits 0 < occupationBits
  · rw [if_pos hlt]
    exact .inl ⟨_, hlt, hfree (by omega), fun j hj => hpassed j (Nat.zero_le j) hj, rfl, rfl,
      occupied_set admin.occupation hlt⟩
  · rw [if_neg hlt]
    exact .inr ⟨fun j hj => hpassed j (Nat.zero_le j) (by omega), rfl⟩

theorem Keeps.aquire (h : Keeps basePath admin names) :
    Answers basePath names admin.occupation admin.aquireBuffer.1.occupation (.aquired admin.aquireBuffer.2) ∧
    Keeps basePath admin.aquireBuffer.1 (account names (.aquired admin.aquireBuffer.2)) := by
  rcases aquireBuffer_cases admin with ⟨index, hlt, hfree, hbelow, hlocator, hbase, hocc⟩ | ⟨hall, heq⟩
  · have hnew : locatorOf basePath index ∉ names := by
      rw [← h.occupied_iff index hlt, hfree]
      exact Bool.false_ne_true
    rw [hlocator, h.base]
    refine ⟨⟨iff_of_false nofun fun hall => hnew (hall index hlt), ?_⟩, ?_⟩
    · rintro name ⟨⟩
      exact ⟨index, hlt, rfl, hnew, fun j hj => (h.occupied_iff j (by omega)).1 (hbelow j hj)⟩
    · refine ⟨hbase.trans h.base, List.nodup_cons.2 ⟨hnew, h.nodup⟩, fun j hj => ?_, ?_⟩
      · rw [hocc, Bool.or_eq_true, decide_eq_true_eq, h.occupied_iff j hj]
        show _ ↔ _ ∈ locatorOf basePath index :: names
        rw [List.mem_cons, or_comm]
        refine or_congr_left ⟨fun heq => by rw [heq], fun heq => (locatorOf_inj hj hlt heq).symm⟩
      · intro name hname
        rcases List.mem_cons.1 hname with rfl | hname
        · exact ⟨index, hlt, rfl⟩
        · exact h.numbered name hname
  · rw [heq]
    exact ⟨⟨iff_of_true rfl fun j hj => (h.occupied_iff j hj).1 (hall j hj), nofun⟩, h⟩

/-! ## ReleaseBuffer -/

theorem Keeps.release (h : Keeps basePath admin names) {number : Nat} (hnumber : number < 256) :
    Answers basePath names admin.occupation (admin.releaseBuffer (locatorOf basePath number)).1.occupation
      (.released (locatorOf basePath number) (admin.releaseBuffer (locatorOf basePath number)).2) ∧
    Keeps basePath (admin.releaseBuffer (locatorOf basePath number)).1
      (account names (.released (locatorOf basePath number) (admin.releaseBuffer (locatorOf basePath number)).2)) := by
  obtain rfl := h.base
  -- a name is outstanding when its number has a bit, and numbers from sixteen on have none
  have hmem : occupied admin.occupation number = true ↔ locatorOf admin.basePath number ∈ names := by
    refine ⟨fun hocc => (h.occupied_iff number (occupied_lt hocc)).1 hocc, fun hname => ?_⟩
    obtain ⟨index, hlt, heq⟩ := h.numbered _ hname
    obtain rfl := locatorOf_inj_byte hnumber (lt_trans hlt (by decide)) heq
    exact (h.occupied_iff _ hlt).2 hname
  rw [releaseBuffer_eq admin hnumber]
  by_cases hocc : occupied admin.occupation number = true
  · rw [if_pos hocc]
    have hclear := occupied_clear admin.occupation hocc
    have hlt := occupied_lt hocc
    have hsame : ∀ {j}, j < occupationBits →
        (number = j ↔ locatorOf admin.basePath j = locatorOf admin.basePath number) :=
      fun hj => ⟨fun heq => by rw [heq], fun heq => (locatorOf_inj hj hlt heq).symm⟩
    refine ⟨⟨iff_of_true rfl (hmem.1 hocc), fun _ j => ?_, nofun⟩, rfl, h.nodup.erase _, fun j hj => ?_, ?_⟩
    · rw [hclear]
      cases hj : occupied admin.occupation j with
      | false => rfl
      | true =>
        rw [Bool.true_and, Bool.true_and]
        exact decide_eq_decide.2 (not_congr (hsame (occupied_lt hj)))
    · rw [hclear, Bool.and_eq_true, decide_eq_true_eq, h.occupied_iff j hj]
      show _ ↔ _ ∈ names.erase _
      rw [h.nodup.mem_erase_iff, and_comm]
      exact and_congr_left fun _ => not_congr (hsame hj)
    · exact fun name hname => h.numbered name (List.mem_of_mem_erase hname)
  · rw [if_neg hocc]
    exact ⟨⟨iff_of_false nofun (mt hmem.2 hocc), nofun, fun _ => rfl⟩, h⟩

/-! ## Runs -/

theorem Keeps.step (h : Keeps basePath admin names) (c : Call) :
    Answers basePath names admin.occupation (call admin c).1.occupation (call admin c).2 ∧
    Keeps basePath (call admin c).1 (account names (call admin c).2) := by
  cases c with
  | aquire => exact h.aquire
  | release number =>
    unfold call
    rw [h.base]
    exact h.release number.toNat_lt

theorem run_keeps (basePath : Text) (calls : List Call) :
    Keeps basePath (run ⟨basePath, 0⟩ calls).1 (outstanding (run ⟨basePath, 0⟩ calls).2) := by
  induction calls using List.reverseRecOn with
  | nil =>
    refine ⟨rfl, List.nodup_nil, fun index _ => ?_, nofun⟩
    show occupied 0 index = true ↔ locatorOf basePath index ∈ []
    rw [occupied_eq]
    simp
  | append_singleton calls c ih =>
    unfold run at ih ⊢
    rw [Effects.run_concat, outstanding_append]
    exact (ih.step c).2

/-- For every base path and after every sequence of calls: no name is outstanding twice, the mask has the names that
are, and the next call gives back what it has to. -/
theorem administrator_run (basePath : Text) (calls : List Call) (c : Call) :
    (outstanding (run ⟨basePath, 0⟩ calls).2).Nodup ∧
    (∀ index < occupationBits, occupied (run ⟨basePath, 0⟩ calls).1.occupation index = true ↔
      locatorOf basePath index ∈ outstanding (run ⟨basePath, 0⟩ calls).2) ∧
    Answers basePath (outstanding (run ⟨basePath, 0⟩ calls).2) (run ⟨basePath, 0⟩ calls).1.occupation
      (call (run ⟨basePath, 0⟩ calls).1 c).1.occupation (call (run ⟨basePath, 0⟩ calls).1 c).2 :=
  have h := run_keeps basePath calls
  ⟨h.nodup, h.occupied_iff, (h.step c).1⟩

end

end Administrator

end Ocdm.Server
