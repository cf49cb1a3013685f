/-
The shared buffers of the server (FrameworkRPC.cpp): `BufferAdministrator` hands out sixteen numbered
names, `CreateSessionBuffer` takes one for a session and constructs its `DataExchange`, and the
destructor of the session gives the name back in `Remove` before it deletes the `DataExchange`. Every
occupied number belongs to exactly one session that has it (`Inv`), in every interleaving; but a
number given back is handed out again while the object of that name still exists, so the names in
use are distinct in the runs that never construct an object in that window (`names_distinct`).
-/
import Ocdm.Lib.Trace
import Mathlib.Data.Nat.Bitwise

namespace Ocdm.Server

/-- Texts of the source, character by character. -/
abbrev Text := List Char

/-- `Core::NumberType<uint8_t>`: it reads the text it prints. -/
class NumberType where
  text : UInt8 → Text
  value : Text → UInt8
  value_text : ∀ n, value (text n) = n

/-! ## The buffer administrator -/

/-- `BufferFileName` -/
def bufferFileName : Text := "ocdmbuffer.".toList

/-- `sizeof(_occupation) * 8` -/
def occupationBits : Nat := 16

structure BufferAdministrator where
  basePath : Text
  occupation : UInt16
deriving DecidableEq, Repr

/-- `(_occupation & (1 << index)) != 0` -/
def occupied (occupation : UInt16) (index : Nat) : Bool := occupation.toNat &&& (1 <<< index) != 0

/-- The loop of `AquireBuffer` from `index` on, with `left` numbers left. -/
def scan (occupation : UInt16) : Nat → Nat → Nat
  | 0, index => index
  | left + 1, index => if occupied occupation index then scan occupation left (index + 1) else index

section

variable [NumberType]

/-- The locator of a buffer. -/
def locatorOf (basePath : Text) (index : Nat) : Text :=
  basePath ++ bufferFileName ++ NumberType.text (UInt8.ofNat index)

/-- `AquireBuffer`: the administrator afterwards and the locator, if there is one. -/
def BufferAdministrator.aquireBuffer (admin : BufferAdministrator) : BufferAdministrator × Option Text :=
  let index := scan admin.occupation occupationBits 0
  if index < occupationBits then
    ({ admin with occupation := UInt16.ofNat (admin.occupation.toNat ||| (1 <<< index)) },
      some (locatorOf admin.basePath index))
  else (admin, none)

/-- `ReleaseBuffer`: the administrator afterwards and whether a buffer was released. -/
def BufferAdministrator.releaseBuffer (admin : BufferAdministrator) (locator : Text) : BufferAdministrator × Bool :=
  if locator.take admin.basePath.length = admin.basePath then
    let actualFile := locator.drop admin.basePath.length
    if actualFile.take bufferFileName.length = bufferFileName then
      let number := (NumberType.value (actualFile.drop bufferFileName.length)).toNat
      -- the source lets 16 through; its bit is never set
      if number ≤ occupationBits then
        if occupied admin.occupation number then
          ({ admin with occupation := UInt16.ofNat (admin.occupation.toNat ^^^ (1 <<< number)) }, true)
        else (admin, false)
      else (admin, false)
    else (admin, false)
  else (admin, false)

end

/-! ## Bits -/

theorem occupied_eq (occupation : UInt16) (index : Nat) :
    occupied occupation index = occupation.toNat.testBit index := by
  unfold occupied
  rw [Nat.one_shiftLeft, Nat.and_two_pow]
  cases occupation.toNat.testBit index
  · simp
  · simp

theorem occupied_lt {occupation : UInt16} {index : Nat} (h : occupied occupation index = true) :
    index < occupationBits := by
  rw [occupied_eq] at h
  by_contra hge
  have hlt : occupation.toNat < 2 ^ index :=
    lt_of_lt_of_le occupation.toNat_lt (Nat.pow_le_pow_right (by decide) (not_lt.1 hge))
  rw [Nat.testBit_lt_two_pow hlt] at h
  cases h

theorem occupied_set (occupation : UInt16) {index : Nat} (hi : index < occupationBits) (j : Nat) :
    occupied (UInt16.ofNat (occupation.toNat ||| (1 <<< index))) j = (occupied occupation j || decide (index = j)) := by
  have hlt : occupation.toNat ||| (1 <<< index) < 2 ^ 16 := by
    rw [Nat.one_shiftLeft]
    exact Nat.or_lt_two_pow occupation.toNat_lt (Nat.pow_lt_pow_right (by decide) hi)
  rw [occupied_eq, occupied_eq, UInt16.toNat_ofNat_of_lt' hlt, Nat.testBit_or, Nat.one_shiftLeft, Nat.testBit_two_pow]

theorem occupied_clear (occupation : UInt16) {index : Nat} (hi : occupied occupation index = true) (j : Nat) :
    occupied (UInt16.ofNat (occupation.toNat ^^^ (1 <<< index))) j = (occupied occupation j && decide (index ≠ j)) := by
  have hlt : occupation.toNat ^^^ (1 <<< index) < 2 ^ 16 := by
    rw [Nat.one_shiftLeft]
    exact Nat.xor_lt_two_pow occupation.toNat_lt (Nat.pow_lt_pow_right (by decide) (occupied_lt hi))
  rw [occupied_eq, occupied_eq, UInt16.toNat_ofNat_of_lt' hlt, Nat.testBit_xor, Nat.one_shiftLeft, Nat.testBit_two_pow]
  rw [occupied_eq] at hi
  by_cases hj : index = j
  · subst hj; simp [hi]
  · simp [hj]

/-- The scan stops at a number that is free, or at the end, and everything it passed is occupied. -/
theorem scan_spec (occupation : UInt16) (left index : Nat) :
    index ≤ scan occupation left index ∧ scan occupation left index ≤ index + left ∧
    (∀ j, index ≤ j → j < scan occupation left index → occupied occupation j = true) ∧
    (scan occupation left index < index + left → occupied occupation (scan occupation left index) = false) := by
  induction left generalizing index with
  | zero => exact ⟨le_refl _, le_refl _, fun j h1 h2 => absurd h2 (not_lt.2 h1), fun h => absurd h (lt_irrefl _)⟩
  | succ left ih =>
    rw [scan]
    cases hocc : occupied occupation index with
    | true =>
      obtain ⟨h1, h2, h3, h4⟩ := ih (index + 1)
      rw [if_pos rfl]
      refine ⟨by omega, by omega, fun j hj hlt => ?_, fun h => h4 (by omega)⟩
      rcases Nat.eq_or_lt_of_le hj with rfl | hj
      · exact hocc
      · exact h3 j hj hlt
    | false =>
      rw [if_neg (by simp)]
      exact ⟨le_refl _, by omega, fun j h1 h2 => absurd h2 (not_lt.2 h1), fun _ => hocc⟩

/-! ## Locators -/

section

variable [NumberType]

theorem value_locator {index : Nat} (h : index < 256) :
    (NumberType.value (NumberType.text (UInt8.ofNat index))).toNat = index := by
  rw [NumberType.value_text, UInt8.toNat_ofNat']
  omega

/-- The numbers of the text apart, whether there is a buffer of that number or not. -/
theorem locatorOf_inj_byte {basePath : Text} {i j : Nat} (hi : i < 256) (hj : j < 256)
    (h : locatorOf basePath i = locatorOf basePath j) : i = j := by
  rw [← value_locator hi, List.append_cancel_left h, value_locator hj]

theorem locatorOf_inj {basePath : Text} {i j : Nat} (hi : i < occupationBits) (hj : j < occupationBits)
    (h : locatorOf basePath i = locatorOf basePath j) : i = j :=
  locatorOf_inj_byte (lt_trans hi (by decide)) (lt_trans hj (by decide)) h

theorem aquireBuffer_some {admin admin' : BufferAdministrator} {locator : Text}
    (h : admin.aquireBuffer = (admin', some locator)) :
    ∃ index, index < occupationBits ∧ occupied admin.occupation index = false ∧
      locator = locatorOf admin.basePath index ∧ admin'.basePath = admin.basePath ∧
      ∀ j, occupied admin'.occupation j = (occupied admin.occupation j || decide (index = j)) := by
  unfold BufferAdministrator.aquireBuffer at h
  dsimp only at h
  split at h
  · rename_i hlt
    cases h
    obtain ⟨-, -, -, hfree⟩ := scan_spec admin.occupation occupationBits 0
    exact ⟨_, hlt, hfree (by omega), rfl, rfl, occupied_set admin.occupation hlt⟩
  · cases h

theorem aquireBuffer_none {admin admin' : BufferAdministrator} (h : admin.aquireBuffer = (admin', none)) :
    admin' = admin := by
  unfold BufferAdministrator.aquireBuffer at h
  dsimp only at h
  split at h
  · cases h
  · cases h; rfl

/-- Releasing a locator takes the bit of its number away, if it is set. -/
theorem releaseBuffer_eq (admin : BufferAdministrator) {index : Nat} (h : index < 256) :
    admin.releaseBuffer (locatorOf admin.basePath index) =
      if occupied admin.occupation index then
        ({ admin with occupation := UInt16.ofNat (admin.occupation.toNat ^^^ (1 <<< index)) }, true)
      else (admin, false) := by
  unfold BufferAdministrator.releaseBuffer locatorOf
  rw [List.append_assoc, if_pos (List.take_left' rfl), List.drop_left' rfl]
  dsimp only
  rw [if_pos (List.take_left' rfl), List.drop_left' rfl, value_locator h]
  split
  · rfl
  · rename_i hge
    rw [if_neg]
    exact fun hocc => hge (le_of_lt (occupied_lt hocc))

/-- Releasing the locator of an occupied number frees that number. -/
theorem releaseBuffer_locatorOf (admin : BufferAdministrator) {index : Nat}
    (hocc : occupied admin.occupation index = true) :
    (admin.releaseBuffer (locatorOf admin.basePath index)).1.basePath = admin.basePath ∧
    ∀ j, occupied (admin.releaseBuffer (locatorOf admin.basePath index)).1.occupation j =
      (occupied admin.occupation j && decide (index ≠ j)) := by
  rw [releaseBuffer_eq admin (lt_trans (occupied_lt hocc) (by decide)), if_pos hocc]
  exact ⟨rfl, occupied_clear admin.occupation hocc⟩

end

/-! ## Sessions and their buffers -/

/-- Where a session is: it lives, with its `DataExchange` if it has one; `CreateSessionBuffer` has
acquired a locator and not yet constructed the `DataExchange`; `Remove` is done and the
`DataExchange` is not yet deleted; or it is gone. A buffer is the name of its `DataExchange`. -/
inductive Phase where
  | live (buffer : Option Text)
  | acquired (locator : Text)
  | removed (buffer : Option Text)
  | gone
deriving DecidableEq, Repr

/-- The `DataExchange` of a session, by its name. -/
def Phase.exchange : Phase → Option Text
  | .live buffer => buffer
  | .removed buffer => buffer
  | .acquired _ => none
  | .gone => none

/-- The name a session has been given and has not given back. -/
def Phase.holds : Phase → Option Text
  | .live buffer => buffer
  | .acquired locator => some locator
  | .removed _ => none
  | .gone => none

/-- The sessions of one `AccessorOCDM`, by their identity, and its administrator. -/
structure Accessor (S : Type) where
  admin : BufferAdministrator
  phase : S → Phase

/-- The atomic steps. -/
inductive Act (S : Type) where
  | aquire (s : S)
  | construct (s : S)
  | remove (s : S)
  | delete (s : S)
deriving DecidableEq, Repr

section

variable [NumberType] {S : Type} [DecidableEq S]

def Accessor.set (a : Accessor S) (s : S) (p : Phase) : Accessor S :=
  { a with phase := fun t => if t = s then p else a.phase t }

/-- One step. A `DataExchange` is constructed under the locator acquired for it, `Remove` releases the
name of the session's buffer, and the destructor deletes the buffer after that. -/
def step (a : Accessor S) : Act S → Option (Accessor S)
  | .aquire s =>
    match a.phase s with
    | .live none =>
      match a.admin.aquireBuffer with
      | (admin, some locator) => some ({ a with admin := admin }.set s (.acquired locator))
      | (admin, none) => some { a with admin := admin }
    | _ => none
  | .construct s =>
    match a.phase s with
    | .acquired locator => some (a.set s (.live (some locator)))
    | _ => none
  | .remove s =>
    match a.phase s with
    | .live none => some (a.set s (.removed none))
    | .live (some name) =>
      some ({ a with admin := (a.admin.releaseBuffer name).1 }.set s (.removed (some name)))
    | _ => none
  | .delete s =>
    match a.phase s with
    | .removed _ => some (a.set s .gone)
    | _ => none

/-- An accessor at the start: no number occupied, no session with a buffer. -/
def Accessor.fresh (basePath : Text) : Accessor S := ⟨⟨basePath, 0⟩, fun _ => .live none⟩

/-! ## What holds in every interleaving -/

/-- Every name held is the locator of an occupied number, held by one session alone, and every
occupied number is held. -/
structure Inv (a : Accessor S) : Prop where
  numbered : ∀ s name, (a.phase s).holds = some name →
    ∃ index, occupied a.admin.occupation index = true ∧ name = locatorOf a.admin.basePath index
  unique : ∀ s t name, (a.phase s).holds = some name → (a.phase t).holds = some name → s = t
  held : ∀ index, occupied a.admin.occupation index = true →
    ∃ s, (a.phase s).holds = some (locatorOf a.admin.basePath index)

omit [NumberType] in
@[simp] theorem set_phase_self (a : Accessor S) (s : S) (p : Phase) : (a.set s p).phase s = p := if_pos rfl

omit [NumberType] in
theorem set_phase_ne (a : Accessor S) {s t : S} (p : Phase) (h : t ≠ s) : (a.set s p).phase t = a.phase t := if_neg h

omit [NumberType] in
@[simp] theorem set_admin (a : Accessor S) (s : S) (p : Phase) : (a.set s p).admin = a.admin := rfl

omit [NumberType] [DecidableEq S] in
/-- One session given a name nobody else has: each name still has one session. -/
theorem unique_give {f g : S → Option Text} {s : S} {given : Text}
    (hf : ∀ t u name, f t = some name → f u = some name → t = u) (hs : g s = some given)
    (hg : ∀ t, t ≠ s → g t = f t) (hno : ∀ t, t ≠ s → f t ≠ some given) :
    ∀ t u name, g t = some name → g u = some name → t = u := by
  have hself : ∀ u, g u = some given → u = s := by
    intro u hu
    by_contra hus
    exact hno u hus (by rw [← hg u hus]; exact hu)
  intro t u name ht hu
  by_cases hts : t = s
  · subst hts
    rw [hs] at ht
    exact (hself u (hu.trans ht.symm)).symm
  · by_cases hus : u = s
    · subst hus
      rw [hs] at hu
      exact hself t (ht.trans hu.symm)
    · rw [hg t hts] at ht
      rw [hg u hus] at hu
      exact hf t u name ht hu

/-- What is held is what matters: a step that changes no administrator and nothing held keeps `Inv`. -/
theorem Inv.set_same {a : Accessor S} (h : Inv a) {s : S} {p : Phase} (hp : p.holds = (a.phase s).holds) :
    Inv (a.set s p) := by
  have hholds : ∀ t, ((a.set s p).phase t).holds = (a.phase t).holds := by
    intro t
    by_cases ht : t = s
    · subst ht; rw [set_phase_self, hp]
    · rw [set_phase_ne a p ht]
  refine ⟨fun t name ht => ?_, fun t u name ht hu => ?_, fun index hi => ?_⟩
  · rw [hholds] at ht
    exact h.numbered t name ht
  · rw [hholds] at ht hu
    exact h.unique t u name ht hu
  · obtain ⟨t, ht⟩ := h.held index hi
    exact ⟨t, by rw [hholds]; exact ht⟩

/-- Acquiring gives a session that holds nothing a number that was free. -/
theorem Inv.aquire {a : Accessor S} (h : Inv a) {s : S} (hs : (a.phase s).holds = none) {admin : BufferAdministrator}
    {locator : Text} (ha : a.admin.aquireBuffer = (admin, some locator)) :
    Inv ({ a with admin := admin }.set s (.acquired locator)) := by
  obtain ⟨index, hlt, hfree, rfl, hbase, hocc⟩ := aquireBuffer_some ha
  have hself : ∀ j, occupied a.admin.occupation j = true → occupied admin.occupation j = true := by
    intro j hj; rw [hocc, hj]; rfl
  -- a name held before is not the new one, whose number was free
  have hnew : ∀ t, (a.phase t).holds ≠ some (locatorOf a.admin.basePath index) := by
    intro t ht
    obtain ⟨j, hj, he⟩ := h.numbered t _ ht
    rw [locatorOf_inj hlt (occupied_lt hj) he, hj] at hfree
    cases hfree
  refine ⟨fun t name ht => ?_,
    unique_give h.unique (by rw [set_phase_self]; rfl) (fun t hts => by rw [set_phase_ne _ _ hts]) fun t _ => hnew t,
    fun j hj => ?_⟩
  · by_cases hts : t = s
    · subst hts
      rw [set_phase_self] at ht
      cases ht
      exact ⟨index, by simp [hocc], by rw [set_admin, hbase]⟩
    · rw [set_phase_ne _ _ hts] at ht
      obtain ⟨j, hj, he⟩ := h.numbered t name ht
      exact ⟨j, hself j hj, by rw [set_admin, hbase]; exact he⟩
  · rw [set_admin, hocc] at hj
    rw [set_admin, hbase]
    by_cases hij : index = j
    · subst hij
      exact ⟨s, by rw [set_phase_self]; rfl⟩
    · obtain ⟨t, ht⟩ := h.held j (by simpa [hij] using hj)
      refine ⟨t, ?_⟩
      rw [set_phase_ne _ _ (fun hts => by rw [hts, hs] at ht; cases ht)]
      exact ht

/-- `Remove` takes the name from the session and frees its number. -/
theorem Inv.remove {a : Accessor S} (h : Inv a) {s : S} {name : Text} (hs : a.phase s = .live (some name)) :
    Inv ({ a with admin := (a.admin.releaseBuffer name).1 }.set s (.removed (some name))) := by
  have hholds : (a.phase s).holds = some name := by rw [hs]; rfl
  obtain ⟨index, hocc, rfl⟩ := h.numbered s name hholds
  obtain ⟨hbase, hrel⟩ := releaseBuffer_locatorOf a.admin hocc
  have hother : ∀ t, t ≠ s → (a.phase t).holds ≠ some (locatorOf a.admin.basePath index) :=
    fun t hts ht => hts (h.unique t s _ ht hholds)
  refine ⟨fun t name ht => ?_, fun t u name ht hu => ?_, fun j hj => ?_⟩
  · by_cases hts : t = s
    · rw [hts, set_phase_self] at ht; cases ht
    · rw [set_phase_ne _ _ hts] at ht
      obtain ⟨j, hj, rfl⟩ := h.numbered t name ht
      refine ⟨j, ?_, by rw [set_admin, hbase]⟩
      rw [set_admin, hrel, hj]
      have hij : index ≠ j := fun hij => hother t hts (by rw [hij]; exact ht)
      simp [hij]
  · by_cases hts : t = s
    · rw [hts, set_phase_self] at ht; cases ht
    · by_cases hus : u = s
      · rw [hus, set_phase_self] at hu; cases hu
      · rw [set_phase_ne _ _ hts] at ht
        rw [set_phase_ne _ _ hus] at hu
        exact h.unique t u name ht hu
  · rw [set_admin, hrel, Bool.and_eq_true, decide_eq_true_eq] at hj
    obtain ⟨t, ht⟩ := h.held j hj.1
    refine ⟨t, ?_⟩
    have hts : t ≠ s := by
      rintro rfl
      rw [hholds] at ht
      exact hj.2 (locatorOf_inj (occupied_lt hocc) (occupied_lt hj.1) (Option.some.inj ht))
    rw [set_phase_ne _ _ hts, set_admin, hbase]
    exact ht

theorem step_inv {a a' : Accessor S} {act : Act S} (h : Inv a) (hstep : step a act = some a') : Inv a' := by
  cases act with
  | aquire s =>
    simp only [step] at hstep
    split at hstep
    · rename_i hs
      split at hstep
      · rename_i admin locator ha
        cases hstep
        exact h.aquire (by rw [hs]; rfl) ha
      · rename_i admin ha
        cases hstep
        rw [aquireBuffer_none ha]
        exact h
    · cases hstep
  | construct s =>
    simp only [step] at hstep
    split at hstep
    · rename_i locator hs
      cases hstep
      exact h.set_same (by rw [hs]; rfl)
    · cases hstep
  | remove s =>
    simp only [step] at hstep
    split at hstep
    · rename_i hs
      cases hstep
      exact h.set_same (by rw [hs]; rfl)
    · rename_i name hs
      cases hstep
      exact h.remove hs
    · cases hstep
  | delete s =>
    simp only [step] at hstep
    split at hstep
    · rename_i buffer hs
      cases hstep
      exact h.set_same (by rw [hs]; rfl)
    · cases hstep

omit [DecidableEq S] in
theorem inv_fresh (basePath : Text) : Inv (Accessor.fresh basePath : Accessor S) := by
  refine ⟨fun s name hs => ?_, fun s t name hs _ => ?_, fun index hi => ?_⟩
  · cases hs
  · cases hs
  · rw [occupied_eq] at hi
    simp [Accessor.fresh] at hi

/-! ## The names of the objects that exist -/

/-- Nothing is half done: no locator waits for its `DataExchange`, no removed session for its end. -/
def Accessor.Quiet (a : Accessor S) : Prop :=
  ∀ s, (∃ buffer, a.phase s = .live buffer) ∨ a.phase s = .gone

/-- No two `DataExchange` objects that exist have the same name. -/
def Distinct (a : Accessor S) : Prop :=
  ∀ s t name, (a.phase s).exchange = some name → (a.phase t).exchange = some name → s = t

/-- The names in use are distinct, and with nothing half done the occupied numbers are theirs. -/
structure NamesOK (a : Accessor S) : Prop where
  distinct : Distinct a
  occupied : a.Quiet → ∀ index < occupationBits,
    occupied a.admin.occupation index = true ↔ ∃ s, (a.phase s).exchange = some (locatorOf a.admin.basePath index)

/-- The step does not construct an object under a name that a removed session's object still has. -/
def ConstructsClear (a : Accessor S) : Act S → Prop
  | .construct s => ∀ locator, a.phase s = .acquired locator → ∀ t, a.phase t ≠ .removed (some locator)
  | _ => True

omit [DecidableEq S] in
/-- In every interleaving, with nothing half done, the occupied numbers are those of the objects that exist. -/
theorem Inv.occupied_iff {a : Accessor S} (h : Inv a) (hq : a.Quiet) {index : Nat} (hi : index < occupationBits) :
    occupied a.admin.occupation index = true ↔ ∃ s, (a.phase s).exchange = some (locatorOf a.admin.basePath index) := by
  have hholds : ∀ s, (a.phase s).holds = (a.phase s).exchange := by
    intro s
    rcases hq s with ⟨buffer, hs⟩ | hs <;> rw [hs] <;> rfl
  constructor
  · intro hocc
    obtain ⟨s, hs⟩ := h.held index hocc
    exact ⟨s, by rw [← hholds]; exact hs⟩
  · rintro ⟨s, hs⟩
    rw [← hholds] at hs
    obtain ⟨j, hj, he⟩ := h.numbered s _ hs
    rw [locatorOf_inj hi (occupied_lt hj) he]
    exact hj

omit [NumberType] in
/-- A step that leaves a session's object as it is, or deletes it, keeps the names distinct. -/
theorem Distinct.set {a : Accessor S} (h : Distinct a) {s : S} {p : Phase} {admin : BufferAdministrator}
    (hp : p.exchange = none ∨ p.exchange = (a.phase s).exchange) : Distinct ({ a with admin := admin }.set s p) := by
  have hsub : ∀ t name, (({ a with admin := admin }.set s p).phase t).exchange = some name →
      (a.phase t).exchange = some name := by
    intro t name ht
    by_cases hts : t = s
    · subst hts
      rw [set_phase_self] at ht
      rcases hp with hp | hp
      · rw [hp] at ht; cases ht
      · rw [← hp]; exact ht
    · rw [set_phase_ne _ _ hts] at ht; exact ht
  intro t u name ht hu
  exact h t u name (hsub t name ht) (hsub u name hu)

/-- A new object has a name of its own: no live session holds it, and no removed one still has it. -/
theorem Distinct.construct {a : Accessor S} (h : Distinct a) (hi : Inv a) {s : S} {locator : Text}
    (hs : a.phase s = .acquired locator) (hclear : ∀ t, a.phase t ≠ .removed (some locator)) :
    Distinct (a.set s (.live (some locator))) := by
  have hno : ∀ t, t ≠ s → (a.phase t).exchange ≠ some locator := by
    intro t hts ht
    cases hp : a.phase t with
    | live buffer =>
      rw [hp] at ht
      exact hts (hi.unique t s locator (by rw [hp]; exact ht) (by rw [hs]; rfl))
    | removed buffer =>
      rw [hp] at ht
      exact hclear t (by rw [hp]; exact congrArg Phase.removed ht)
    | acquired => rw [hp] at ht; cases ht
    | gone => rw [hp] at ht; cases ht
  refine unique_give h ?_ (fun t hts => by rw [set_phase_ne _ _ hts]) hno
  rw [set_phase_self]
  rfl

theorem step_distinct {a a' : Accessor S} {act : Act S} (hi : Inv a) (h : Distinct a) (hok : ConstructsClear a act)
    (hstep : step a act = some a') : Distinct a' := by
  cases act with
  | aquire s =>
    simp only [step] at hstep
    split at hstep
    · split at hstep
      · cases hstep; exact h.set (.inl rfl)
      · cases hstep; exact h
    · cases hstep
  | construct s =>
    simp only [step] at hstep
    split at hstep
    · rename_i locator hs
      cases hstep
      exact h.construct hi hs (hok locator hs)
    · cases hstep
  | remove s =>
    simp only [step] at hstep
    split at hstep
    · cases hstep; exact h.set (.inl rfl)
    · rename_i name hs
      cases hstep
      exact h.set (.inr (by rw [hs]; rfl))
    · cases hstep
  | delete s =>
    simp only [step] at hstep
    split at hstep
    · cases hstep; exact h.set (.inl rfl)
    · cases hstep

/-- In every run that constructs no object under a name still in use by a removed session, the names
in use are distinct, and the occupied numbers are theirs once nothing is half done. -/
theorem names_distinct (basePath : Text) (acts : List (Act S)) (a : Accessor S)
    (h : Trace.Run step ConstructsClear (Accessor.fresh basePath) acts a) : NamesOK a := by
  have hinv : Inv a ∧ Distinct a := by
    refine h.invariant (fun a => Inv a ∧ Distinct a) ?_ ⟨inv_fresh basePath, fun s t name hs => by cases hs⟩
    intro a act a' ⟨hi, hd⟩ hok hstep
    exact ⟨step_inv hi hstep, step_distinct hi hd hok hstep⟩
  exact ⟨hinv.2, fun hq index hi => hinv.1.occupied_iff hq hi⟩

end

/-! ## Decimal numbers -/

/-- Numbers in decimal. -/
instance decimal : NumberType where
  text n := Nat.toDigits 10 n.toNat
  value t := UInt8.ofNat (t.foldl (fun v c => v * 10 + (c.toNat - 48)) 0)
  value_text n := by
    have h : ∀ n : Fin 256, UInt8.ofNat ((Nat.toDigits 10 n.val).foldl (fun v c => v * 10 + (c.toNat - 48)) 0) =
        UInt8.ofNat n.val := by decide +kernel
    have := h ⟨n.toNat, n.toNat_lt⟩
    rw [this, UInt8.ofNat_toNat]

/-- A number is used again after its first object is deleted. -/
theorem names_distinct_reuse : ∃ a : Accessor Nat,
    Trace.Run step ConstructsClear (Accessor.fresh "/tmp/".toList)
      [.aquire 0, .construct 0, .remove 0, .delete 0, .aquire 1, .construct 1] a ∧ NamesOK a := by
  have h : ∃ a : Accessor Nat, Trace.Run step ConstructsClear (Accessor.fresh "/tmp/".toList)
      [.aquire 0, .construct 0, .remove 0, .delete 0, .aquire 1, .construct 1] a := by
    refine ⟨_, .cons trivial rfl (.cons ?_ rfl (.cons trivial rfl (.cons trivial rfl (.cons trivial rfl
      (.cons ?_ rfl (.nil _))))))⟩
    all_goals
      rintro locator - (_ | _ | t) ht
      all_goals cases ht
  exact h.imp fun a ha => ⟨ha, names_distinct _ _ a ha⟩

/-- The first session has removed its buffer and not yet deleted it when the second one gets a buffer:
two objects of one name. -/
theorem name_reused : ∃ a : Accessor Nat,
    Trace.Run step (fun _ _ => True) (Accessor.fresh "/tmp/".toList)
      [.aquire 0, .construct 0, .remove 0, .aquire 1, .construct 1] a ∧
    (a.phase 0).exchange = some "/tmp/ocdmbuffer.0".toList ∧ (a.phase 1).exchange = some "/tmp/ocdmbuffer.0".toList ∧
    ¬ NamesOK a := by
  have h : (Trace.exec step (fun _ _ => True) (Accessor.fresh "/tmp/".toList : Accessor Nat)
      [.aquire 0, .construct 0, .remove 0, .aquire 1, .construct 1]).map
        (fun a => ((a.phase 0).exchange, (a.phase 1).exchange)) =
      some (some "/tmp/ocdmbuffer.0".toList, some "/tmp/ocdmbuffer.0".toList) := by decide +kernel
  obtain ⟨a, ha, he⟩ := Option.map_eq_some_iff.1 h
  obtain ⟨h0, h1⟩ := Prod.mk.inj he
  refine ⟨a, Trace.exec_run ha, h0, h1, fun hok => ?_⟩
  exact absurd (hok.distinct 0 1 _ h0 h1) (by decide)

end Ocdm.Server
