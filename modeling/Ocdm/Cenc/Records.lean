/-
PlayReady objects on any bytes (CENCParser.h). `ParsePlayReadyPSSHData` takes its end from behind the size field, which
the length counts too, so that it is four bytes behind the object, and never tests that there is a header. It reads and
parses inside the object, and accepts exactly the objects that hold the records they announce, when no header and no
record reaches into these four bytes (`objectInside_iff`).
-/
import Ocdm.Cenc.XmlWalk

namespace Ocdm.Cenc

open Bytes Comp Thunder

/-! ## The keys do not matter to where the scans go -/

section

variable {K : Type} [Thunder K] {mem : Memory}

def SamePlace (c c' : XmlCursor K) : Prop := c'.slot = c.slot ∧ c'.size = c.size

/-- Both passes go on, or both leave the loop, at the same place. -/
inductive SamePass : Pass (XmlCursor K) (XmlCursor K) → Pass (XmlCursor K) (XmlCursor K) → Prop where
  | again {c c' : XmlCursor K} : SamePlace c c' → SamePass (.again c) (.again c')
  | done {c c' : XmlCursor K} : SamePlace c c' → SamePass (.done c) (.done c')

/-- The end of a pass. -/
theorem closed_same {closed : Prop} [Decidable closed] {text slot slot' : Nat} {length : UInt8} {size : UInt16}
    {keys keys' : List (KeyId K)} {p : Pass (XmlCursor K) (XmlCursor K)}
    (hp : (if closed then do
        let keys ← addXMLKey mem text length keys
        return .again ⟨slot, size, keys⟩
      else return .again ⟨slot', 0, keys⟩ : Comp (Pass (XmlCursor K) (XmlCursor K))).Returns p) :
    ∃ p', (if closed then do
        let keys ← addXMLKey mem text length keys'
        return .again ⟨slot, size, keys⟩
      else return .again ⟨slot', 0, keys'⟩ : Comp (Pass (XmlCursor K) (XmlCursor K))).Returns p' ∧ SamePass p p' := by
  by_cases hclosed : closed
  · rw [if_pos hclosed] at hp ⊢
    obtain ⟨added, -, hp⟩ := returns_bind.1 hp
    obtain ⟨added', hadded, -⟩ := addXMLKey_adds mem text length keys'
    cases returns_pure.1 hp
    exact ⟨_, hadded.bind (returns_pure.2 rfl), .again ⟨rfl, rfl⟩⟩
  · rw [if_neg hclosed] at hp ⊢
    cases returns_pure.1 hp
    exact ⟨_, returns_pure.2 rfl, .again ⟨rfl, rfl⟩⟩

theorem parseKidPass_same {c c' : XmlCursor K} (h : SamePlace c c') {p : Pass (XmlCursor K) (XmlCursor K)}
    (hp : (parseKidPass mem c).Returns p) : ∃ p', (parseKidPass mem c').Returns p' ∧ SamePass p p' := by
  obtain ⟨slot, size, keys⟩ := c
  obtain ⟨slot', size', keys'⟩ := c'
  obtain ⟨rfl, rfl⟩ := h
  unfold parseKidPass at hp ⊢
  split at hp
  · rename_i hpos
    rw [if_pos hpos]
    refine bind_relates SamePass hp fun b p hp => ?_
    split at hp
    · rename_i hlt
      rw [if_pos hlt]
      exact bind_relates SamePass hp fun e p hp => closed_same hp
    · rename_i hlt
      rw [if_neg hlt]
      cases returns_pure.1 hp
      exact ⟨_, returns_pure.2 rfl, .done ⟨rfl, rfl⟩⟩
  · rename_i hpos
    rw [if_neg hpos]
    cases returns_pure.1 hp
    exact ⟨_, returns_pure.2 rfl, .done ⟨rfl, rfl⟩⟩

theorem parseKidValuePass_same {c c' : XmlCursor K} (h : SamePlace c c') {p : Pass (XmlCursor K) (XmlCursor K)}
    (hp : (parseKidValuePass mem c).Returns p) : ∃ p', (parseKidValuePass mem c').Returns p' ∧ SamePass p p' := by
  obtain ⟨slot, size, keys⟩ := c
  obtain ⟨slot', size', keys'⟩ := c'
  obtain ⟨rfl, rfl⟩ := h
  unfold parseKidValuePass at hp ⊢
  split at hp
  · rename_i hpos
    rw [if_pos hpos]
    refine bind_relates SamePass hp fun b p hp => ?_
    split at hp
    · rename_i hlt
      rw [if_pos hlt]
      refine bind_relates SamePass hp fun e p hp => ?_
      refine bind_relates SamePass hp fun keyValue p hp => ?_
      refine bind_relates SamePass hp fun quote p hp => ?_
      exact bind_relates SamePass hp fun closing p hp => closed_same hp
    · rename_i hlt
      rw [if_neg hlt]
      cases returns_pure.1 hp
      exact ⟨_, returns_pure.2 rfl, .done ⟨rfl, rfl⟩⟩
  · rename_i hpos
    rw [if_neg hpos]
    cases returns_pure.1 hp
    exact ⟨_, returns_pure.2 rfl, .done ⟨rfl, rfl⟩⟩

omit [Thunder K] in
/-- Loops of such passes end at the same place. -/
theorem loop_same {pass : XmlCursor K → Comp (Pass (XmlCursor K) (XmlCursor K))}
    (hpass : ∀ c c' : XmlCursor K, SamePlace c c' → ∀ p, (pass c).Returns p →
      ∃ p', (pass c').Returns p' ∧ SamePass p p') {c c' d : XmlCursor K} (h : SamePlace c c')
        (hd : (loop pass c).Returns d) :
    ∃ d', (loop pass c').Returns d' ∧ SamePlace d d' := by
  refine loop_relates SamePlace SamePlace (fun c c' c₁ h hc => ?_) (fun c c' d h hc => ?_) h hd
  · obtain ⟨p', hp', hsame⟩ := hpass _ _ h _ hc
    cases hsame with
    | again hsame => exact ⟨_, hp', hsame⟩
  · obtain ⟨p', hp', hsame⟩ := hpass _ _ h _ hc
    cases hsame with
    | done hsame => exact ⟨_, hp', hsame⟩

theorem parseXMLBox_same {data : Nat} {length : UInt16} {keys : List (KeyId K)}
    (h : (parseXMLBox mem data length keys).Terminates) (keys' : List (KeyId K)) :
    (parseXMLBox mem data length keys').Terminates := by
  obtain ⟨r, hr⟩ := h
  obtain ⟨c₁, hc₁, hr⟩ := returns_bind.1 hr
  obtain ⟨c₂, hc₂, -⟩ := returns_bind.1 hr
  have hstart : SamePlace (⟨data, length, keys⟩ : XmlCursor K) ⟨data, length, keys'⟩ := ⟨rfl, rfl⟩
  obtain ⟨d₁, hd₁, hsame₁⟩ := loop_same (fun _ _ h _ hp => parseKidPass_same h hp) hstart hc₁
  obtain ⟨d₂, hd₂, -⟩ := loop_same (fun _ _ h _ hp => parseKidValuePass_same h hp) hsame₁ hc₂
  exact ⟨d₂.keys, hd₁.bind (hd₂.bind (returns_pure.2 rfl))⟩

end

/-! ## Objects -/

/-- A record: its type, and its content, whose length has sixteen bits. -/
structure ObjectRecord where
  type : UInt16
  content : List UInt8
  short : content.length < 65536

def ObjectRecord.bytes (r : ObjectRecord) : List UInt8 := le16 r.type.toNat ++ le16 r.content.length ++ r.content

section

variable (mem : Memory) (data : Nat) (length : UInt16)

/-- From `a` on, `n` records lie one after another up to `stop` at most. -/
def RecordsLie (stop n a : Nat) : Prop :=
  ∃ records : List ObjectRecord, records.length = n ∧ Holds mem a (records.flatMap ObjectRecord.bytes) ∧
    a + (records.flatMap ObjectRecord.bytes).length ≤ stop

/-- An object of the announced size with the announced records. -/
def IsObject : Prop :=
  read32LE mem data = length.toUInt32 ∧ RecordsLie mem (data + length.toNat) (read16LE mem (data + 4)).toNat (data + 6)

/-- Where a record ends. -/
def recordEnd (a : Nat) : Nat := a + 4 + (read16LE mem (a + 2)).toNat

variable {mem data length}

theorem ObjectRecord.bytes_length (r : ObjectRecord) : r.bytes.length = 4 + r.content.length := by
  simp only [bytes, List.length_append, le16_length]

theorem holds_le16 (mem : Memory) (a : Nat) : Holds mem a (le16 (read16LE mem a).toNat) := by
  have h0 := (mem a).toNat_lt
  have h1 := (mem (a + 1)).toNat_lt
  refine ⟨UInt8.toNat_inj.1 ?_, UInt8.toNat_inj.1 ?_, trivial⟩
  · rw [UInt8.toNat_ofNat', read16LE_toNat]
    omega
  · rw [UInt8.toNat_ofNat', read16LE_toNat]
    omega

/-- The length field of a record says where it ends. -/
theorem ObjectRecord.recordEnd_eq (r : ObjectRecord) {a : Nat} (h : Holds mem a r.bytes) :
    recordEnd mem a = a + r.bytes.length := by
  have hlength := r.bytes_length
  rw [bytes, holds_append, holds_append] at h
  have hfield : (read16LE mem (a + 2)).toNat = r.content.length := h.1.2.read16LE r.short
  unfold recordEnd
  omega

/-- Any bytes are a record's, up to the end of what its length field announces. -/
theorem exists_record (mem : Memory) (a : Nat) : ∃ r : ObjectRecord, Holds mem a r.bytes := by
  have hlength := slice_length mem (a + 4) (read16LE mem (a + 2)).toNat
  refine ⟨⟨read16LE mem a, slice mem (a + 4) (read16LE mem (a + 2)).toNat, ?_⟩, ?_⟩
  · rw [hlength]
    exact (read16LE mem (a + 2)).toNat_lt
  · rw [ObjectRecord.bytes, holds_append, holds_append]
    refine ⟨⟨holds_le16 mem a, ?_⟩, holds_slice mem (a + 4) _⟩
    show Holds mem (a + 2) (le16 (slice mem (a + 4) (read16LE mem (a + 2)).toNat).length)
    rw [hlength]
    exact holds_le16 mem (a + 2)

theorem recordsLie_zero (stop a : Nat) : RecordsLie mem stop 0 a ↔ a ≤ stop := by
  constructor
  · rintro ⟨records, hlength, -, hstop⟩
    omega
  · exact fun h => ⟨[], rfl, trivial, h⟩

theorem recordsLie_succ (stop n a : Nat) :
    RecordsLie mem stop (n + 1) a ↔ recordEnd mem a ≤ stop ∧ RecordsLie mem stop n (recordEnd mem a) := by
  constructor
  · rintro ⟨records, hlength, hholds, hstop⟩
    match records, hlength with
    | r :: rest, hlength =>
      rw [List.flatMap_cons, holds_append] at hholds
      rw [List.flatMap_cons, List.length_append] at hstop
      have hend := r.recordEnd_eq hholds.1
      refine ⟨by omega, rest, Nat.succ.inj hlength, ?_, by omega⟩
      rw [hend]
      exact hholds.2
  · rintro ⟨-, rest, hlength, hholds, hstop⟩
    obtain ⟨r, hr⟩ := exists_record mem a
    have hend := r.recordEnd_eq hr
    refine ⟨r :: rest, by rw [List.length_cons, hlength], ?_, ?_⟩
    · rw [List.flatMap_cons, holds_append, ← hend]
      exact ⟨hr, hholds⟩
    · rw [List.flatMap_cons, List.length_append]
      omega

end

/-! ## What is read, parsed and returned -/

section

variable (K : Type) [Thunder K] (mem : Memory) (data : Nat) (length : UInt16)

/-- The states of the record loop, when it is entered. -/
def RecordReached (keys : List (KeyId K)) (c : RecordCursor K) : Prop :=
  read32LE mem data = length.toUInt32 ∧ read16LE mem (data + 4) > 0 ∧
    Passes (parseRecordPass mem (data + 4 + length.toNat)) ⟨data + 6, read16LE mem (data + 4), keys⟩ c

/-- The size is in the object, and the count where it is read; so is the header of every record that a pass
reads, and the content of every one it parses; and the result says whether this is an object. -/
structure ObjectInside : Prop where
  size : 4 ≤ length.toNat
  count : read32LE mem data = length.toUInt32 → 6 ≤ length.toNat
  header : ∀ (keys : List (KeyId K)) c, RecordReached K mem data length keys c → c.data + 4 < data + 4 + length.toNat →
    data ≤ c.data ∧ c.data + 4 ≤ data + length.toNat
  parsed : ∀ (keys : List (KeyId K)) c, RecordReached K mem data length keys c → c.data + 4 < data + 4 + length.toNat →
    recordEnd mem c.data < data + 4 + length.toNat → read16LE mem c.data = 1 →
    recordEnd mem c.data ≤ data + length.toNat
  result : ∀ keys : List (KeyId K), ∃ r keys', (parsePlayReadyPSSHData mem data length keys).Returns (r, keys') ∧
    (r = true ↔ IsObject mem data length)

/-- `ParseXMLBox` ends. -/
def XmlEnds (a : Nat) (recordLength : UInt16) : Prop :=
  ∀ keys : List (KeyId K), (parseXMLBox mem a recordLength keys).Terminates

/-- Among `n` records from `a` on: a header that begins in the object ends there, and a record that ends one
to three bytes behind it is not of type 1 and not the last; and `ParseXMLBox` ends on those of type 1. -/
def RecordsFit (stop : Nat) : Nat → Nat → Prop
  | 0, _ => True
  | n + 1, a => a < stop → a + 4 ≤ stop ∧ (recordEnd mem a < stop + 4 →
      if recordEnd mem a ≤ stop then
        (read16LE mem a = 1 → XmlEnds K mem (a + 4) (read16LE mem (a + 2))) ∧ RecordsFit stop n (recordEnd mem a)
      else read16LE mem a ≠ 1 ∧ n ≠ 0)

/-- There is a header where one is read, and the records fit. -/
def ObjectFits : Prop :=
  4 ≤ length.toNat ∧ (read32LE mem data = length.toUInt32 →
    6 ≤ length.toNat ∧ RecordsFit K mem (data + length.toNat) (read16LE mem (data + 4)).toNat (data + 6))

end

section

variable {K : Type} [Thunder K] {mem : Memory} {stop : Nat} {c : RecordCursor K}

/-! ## One record -/

theorem parseRecordPass_end (h : stop ≤ c.data) : (parseRecordPass mem (stop + 4) c).Returns (.done c) := by
  rw [parseRecordPass, if_neg (by omega)]
  exact returns_pure.2 rfl

theorem parseRecordPass_over (h : c.data < stop) (hover : stop + 4 ≤ recordEnd mem c.data) :
    (parseRecordPass mem (stop + 4) c).Returns (.done { c with data := c.data + 4 }) := by
  unfold recordEnd at hover
  rw [parseRecordPass, if_pos (by omega)]
  dsimp only
  rw [if_pos (by omega)]
  exact returns_pure.2 rfl

theorem parseRecordPass_record (h : c.data < stop) (hin : recordEnd mem c.data < stop + 4) {keys : List (KeyId K)}
    (hkeys : (parseRecord mem (read16LE mem c.data) (read16LE mem (c.data + 2)) (c.data + 4) c.keys).Returns keys) :
    (parseRecordPass mem (stop + 4) c).Returns
      (if c.count - 1 = 0 then .done ⟨recordEnd mem c.data, c.count - 1, keys⟩
        else .again ⟨recordEnd mem c.data, c.count - 1, keys⟩) := by
  unfold recordEnd at hin
  rw [parseRecordPass, if_pos (by omega)]
  dsimp only
  rw [if_neg (by omega)]
  refine hkeys.bind ?_
  split <;> exact returns_pure.2 rfl

/-- A pass over a record needs its result. -/
theorem parseRecord_of_pass (h : c.data < stop) (hin : recordEnd mem c.data < stop + 4)
    {p : Pass (RecordCursor K) (RecordCursor K)} (hp : (parseRecordPass mem (stop + 4) c).Returns p) :
    (parseRecord mem (read16LE mem c.data) (read16LE mem (c.data + 2)) (c.data + 4) c.keys).Terminates := by
  unfold recordEnd at hin
  rw [parseRecordPass, if_pos (by omega)] at hp
  dsimp only at hp
  rw [if_neg (by omega)] at hp
  obtain ⟨keys, hkeys, -⟩ := returns_bind.1 hp
  exact ⟨keys, hkeys⟩

/-- A loop over a record needs its result. -/
theorem parseRecord_of_loop (h : c.data < stop) (hin : recordEnd mem c.data < stop + 4) {c' : RecordCursor K}
    (hloop : (loop (parseRecordPass mem (stop + 4)) c).Returns c') :
    (parseRecord mem (read16LE mem c.data) (read16LE mem (c.data + 2)) (c.data + 4) c.keys).Terminates := by
  rcases returns_loop.1 hloop with hdone | ⟨c₁, hagain, -⟩
  · exact parseRecord_of_pass h hin hdone
  · exact parseRecord_of_pass h hin hagain

theorem parseRecord_ends (hxml : read16LE mem c.data = 1 → XmlEnds K mem (c.data + 4) (read16LE mem (c.data + 2))) :
    (parseRecord mem (read16LE mem c.data) (read16LE mem (c.data + 2)) (c.data + 4) c.keys).Terminates := by
  unfold parseRecord
  split
  · rename_i htype
    exact hxml htype c.keys
  · exact ⟨c.keys, returns_pure.2 rfl⟩

theorem count_pred {count : UInt16} {n : Nat} (h : count.toNat = n + 1) : (count - 1).toNat = n := by
  rw [UInt16.toNat_sub, h]
  have := count.toNat_lt
  show (2 ^ 16 - 1 + (n + 1)) % 2 ^ 16 = n
  omega

theorem count_zero {count : UInt16} {n : Nat} (h : count.toNat = n) : count = 0 ↔ n = 0 := by
  rw [← UInt16.toNat_inj, h]
  rfl

/-! ## The records -/

theorem le_recordEnd (mem : Memory) (a : Nat) : a + 4 ≤ recordEnd mem a := by
  unfold recordEnd
  omega

/-- Behind the object no records lie. -/
theorem not_recordsLie {n a : Nat} (h : stop < a) : ¬ RecordsLie mem stop n a := by
  rintro ⟨records, -, -, hstop⟩
  omega

theorem RecordsFit.inside {n a : Nat} (h : RecordsFit K mem stop (n + 1) a) (ha : a < stop) :
    a + 4 ≤ stop ∧ (recordEnd mem a < stop + 4 → read16LE mem a = 1 → recordEnd mem a ≤ stop) := by
  obtain ⟨hheader, hrecord⟩ := h ha
  refine ⟨hheader, fun hin htype => ?_⟩
  have hrecord := hrecord hin
  split at hrecord
  · assumption
  · exact absurd htype hrecord.1

/-- The record at `a` is passed over: `ParseXMLBox` ends on it, the others fit, and these all lie in the
object if and only if it does with them. -/
theorem RecordsFit.next {n a : Nat} (h : RecordsFit K mem stop (n + 1) a) (ha : a < stop)
    (hin : recordEnd mem a < stop + 4) :
    (read16LE mem a = 1 → XmlEnds K mem (a + 4) (read16LE mem (a + 2))) ∧ RecordsFit K mem stop n (recordEnd mem a) ∧
      (RecordsLie mem stop (n + 1) a ↔ RecordsLie mem stop n (recordEnd mem a)) ∧ (n = 0 → recordEnd mem a ≤ stop) := by
  have hrecord := (h ha).2 hin
  rw [recordsLie_succ]
  split at hrecord
  · rename_i hend
    exact ⟨hrecord.1, hrecord.2, and_iff_right hend, fun _ => hend⟩
  · rename_i hend
    -- it ends behind the object, and nothing is read there
    have hbehind : stop < recordEnd mem a := Nat.lt_of_not_le hend
    refine ⟨fun htype => absurd htype hrecord.1, ?_, ?_, fun hn => absurd hn hrecord.2⟩
    · cases n with
      | zero => trivial
      | succ n => exact fun hlt => absurd hlt (Nat.lt_asymm hbehind)
    · exact iff_of_false (fun hlie => hend hlie.1) (not_recordsLie hbehind)

/-- Records that fit: the loop ends, with a count of zero when they all lie in the object; and wherever it
comes, it reads and parses inside. -/
theorem loop_records_fit {n : Nat} (hcount : c.count.toNat = n + 1) (hfit : RecordsFit K mem stop (n + 1) c.data) :
    (∃ c', (loop (parseRecordPass mem (stop + 4)) c).Returns c' ∧ (c'.count = 0 ↔ RecordsLie mem stop (n + 1) c.data)) ∧
      ∀ c', Passes (parseRecordPass mem (stop + 4)) c c' → c.data ≤ c'.data ∧ (c'.data < stop → c'.data + 4 ≤ stop ∧
        (recordEnd mem c'.data < stop + 4 → read16LE mem c'.data = 1 → recordEnd mem c'.data ≤ stop)) := by
  induction n using Nat.strongRecOn generalizing c with
  | ind n ih =>
  have hzero : ¬ c.count = 0 := fun hz => by rw [count_zero hcount] at hz; omega
  by_cases ha : c.data < stop
  · by_cases hin : recordEnd mem c.data < stop + 4
    · obtain ⟨hxml, hrest, hlie, hlast⟩ := hfit.next ha hin
      obtain ⟨keys, hkeys⟩ := parseRecord_ends hxml
      have hpass := parseRecordPass_record ha hin hkeys
      have hpred := count_pred hcount
      cases n with
      | zero =>
        rw [if_pos ((count_zero hpred).2 rfl)] at hpass
        refine ⟨⟨_, loop_done hpass, ?_⟩, fun c' hpasses => ?_⟩
        · rw [hlie, recordsLie_zero]
          exact iff_of_true ((count_zero hpred).2 rfl) (hlast rfl)
        · rw [hpasses.of_done hpass]
          exact ⟨Nat.le_refl _, fun ha => hfit.inside ha⟩
      | succ n =>
        rw [if_neg fun hz => by rw [count_zero hpred] at hz; omega] at hpass
        obtain ⟨⟨c', hloop, hresult⟩, hinside⟩ := ih n (Nat.lt_succ_self n)
          (c := ⟨recordEnd mem c.data, c.count - 1, keys⟩) hpred hrest
        refine ⟨⟨c', loop_again hpass hloop, hresult.trans hlie.symm⟩, fun c' hpasses => ?_⟩
        rcases hpasses.cases_head with rfl | ⟨c₁, hgoes, hpasses⟩
        · exact ⟨Nat.le_refl _, fun ha => hfit.inside ha⟩
        · cases hgoes.unique hpass
          obtain ⟨hle, hinside⟩ := hinside c' hpasses
          exact ⟨Nat.le_trans (Nat.le_trans (Nat.le_add_right _ 4) (le_recordEnd mem c.data)) hle, hinside⟩
    · have hpass := parseRecordPass_over ha (Nat.le_of_not_lt hin)
      refine ⟨⟨_, loop_done hpass, iff_of_false hzero fun hlie => ?_⟩, fun c' hpasses => ?_⟩
      · have := ((recordsLie_succ _ _ _).1 hlie).1
        omega
      · rw [hpasses.of_done hpass]
        exact ⟨Nat.le_refl _, fun ha => hfit.inside ha⟩
  · have hpass : (parseRecordPass mem (stop + 4) c).Returns (.done c) := parseRecordPass_end (Nat.le_of_not_lt ha)
    refine ⟨⟨_, loop_done hpass, iff_of_false hzero fun hlie => ?_⟩, fun c' hpasses => ?_⟩
    · have := ((recordsLie_succ _ _ _).1 hlie).1
      have := le_recordEnd mem c.data
      omega
    · rw [hpasses.of_done hpass]
      exact ⟨Nat.le_refl _, fun ha => hfit.inside ha⟩

/-- A loop that reads and parses inside, and ends with a count of zero when the records all lie in the object:
they fit. -/
theorem recordsFit_of_loop {n : Nat} (hcount : c.count.toNat = n + 1)
    (hinside : ∀ c', Passes (parseRecordPass mem (stop + 4)) c c' → c'.data < stop → c'.data + 4 ≤ stop ∧
      (recordEnd mem c'.data < stop + 4 → read16LE mem c'.data = 1 → recordEnd mem c'.data ≤ stop))
    (hresult : ∃ c', (loop (parseRecordPass mem (stop + 4)) c).Returns c' ∧
      (c'.count = 0 ↔ RecordsLie mem stop (n + 1) c.data)) : RecordsFit K mem stop (n + 1) c.data := by
  induction n using Nat.strongRecOn generalizing c with
  | ind n ih =>
  intro ha
  obtain ⟨hheader, hparsed⟩ := hinside c .refl ha
  refine ⟨hheader, fun hin => ?_⟩
  obtain ⟨c', hloop, hcount'⟩ := hresult
  have hpred := count_pred hcount
  obtain ⟨keys, hkeys⟩ := parseRecord_of_loop ha hin hloop
  have hpass := parseRecordPass_record ha hin hkeys
  split
  · rename_i hend
    refine ⟨fun htype keys' => ?_, ?_⟩
    · rw [parseRecord, if_pos htype] at hkeys
      exact parseXMLBox_same ⟨keys, hkeys⟩ keys'
    · cases n with
      | zero => trivial
      | succ n =>
        rw [if_neg fun hz => by rw [count_zero hpred] at hz; omega] at hpass
        refine ih n (Nat.lt_succ_self n) (c := ⟨recordEnd mem c.data, c.count - 1, keys⟩) hpred
          (fun c'' hpasses => hinside c'' (.head hpass hpasses)) ⟨c', ?_, ?_⟩
        · exact (Passes.returns_iff (.single hpass)).1 hloop
        · rw [hcount', recordsLie_succ, and_iff_right hend]
  · rename_i hend
    refine ⟨fun htype => hend (hparsed hin htype), fun hn => ?_⟩
    -- the last record is counted, though it ends behind the object
    subst hn
    rw [if_pos ((count_zero hpred).2 rfl)] at hpass
    cases (loop_done hpass).unique hloop
    exact hend ((recordsLie_succ _ _ _).1 (hcount'.1 ((count_zero hpred).2 rfl))).1

/-! ## The object -/

section

variable {data : Nat} {length : UInt16} {keys : List (KeyId K)}

theorem parsePlayReadyPSSHData_mismatch (h : read32LE mem data ≠ length.toUInt32) :
    (parsePlayReadyPSSHData mem data length keys).Returns (false, keys) := by
  unfold parsePlayReadyPSSHData
  dsimp only
  rw [if_neg h]
  exact returns_pure.2 rfl

theorem parsePlayReadyPSSHData_empty (h : read32LE mem data = length.toUInt32) (hcount : read16LE mem (data + 4) = 0) :
    (parsePlayReadyPSSHData mem data length keys).Returns (true, keys) := by
  unfold parsePlayReadyPSSHData
  dsimp only
  rw [if_pos h, hcount]
  exact returns_pure.2 rfl

theorem parsePlayReadyPSSHData_loop (h : read32LE mem data = length.toUInt32) (hcount : read16LE mem (data + 4) > 0)
    {r : Bool} {keys' : List (KeyId K)} :
    (parsePlayReadyPSSHData mem data length keys).Returns (r, keys') ↔
      ∃ c', (loop (parseRecordPass mem (data + length.toNat + 4))
        ⟨data + 6, read16LE mem (data + 4), keys⟩).Returns c' ∧ r = decide (c'.count = 0) ∧ keys' = c'.keys := by
  unfold parsePlayReadyPSSHData
  dsimp only
  rw [if_pos h, if_pos hcount, Nat.add_right_comm data 4, returns_bind]
  refine exists_congr fun c' => and_congr_right fun _ => ?_
  rw [returns_pure, Prod.mk.injEq, eq_comm, @eq_comm _ c'.keys]

/-- Slices read and parsed inside have records that fit. -/
theorem ObjectInside.object_fits (h : ObjectInside K mem data length) : ObjectFits K mem data length := by
  have hend : data + 4 + length.toNat = data + length.toNat + 4 := Nat.add_right_comm ..
  refine ⟨h.size, fun hsize => ⟨h.count hsize, ?_⟩⟩
  cases hn : (read16LE mem (data + 4)).toNat with
  | zero => trivial
  | succ n =>
    have hpos : read16LE mem (data + 4) > 0 := UInt16.lt_iff_toNat_lt.2 (show 0 < _ by omega)
    refine recordsFit_of_loop (c := ⟨data + 6, read16LE mem (data + 4), []⟩) hn (fun c' hpasses ha => ?_) ?_
    · rw [← hend] at hpasses
      have hreached : RecordReached K mem data length [] c' := ⟨hsize, hpos, hpasses⟩
      refine ⟨(h.header [] c' hreached (by omega)).2, fun hin htype => ?_⟩
      exact h.parsed [] c' hreached (by omega) (by omega) htype
    · obtain ⟨r, keys', hreturns, hr⟩ := h.result []
      obtain ⟨c', hloop, rfl, -⟩ := (parsePlayReadyPSSHData_loop hsize hpos).1 hreturns
      refine ⟨c', hloop, ?_⟩
      rw [decide_eq_true_eq, IsObject, and_iff_right hsize, hn] at hr
      exact hr

/-- A slice whose first number is not its length is refused before its records. -/
theorem objectInside_mismatch (hsize : 4 ≤ length.toNat) (h : read32LE mem data ≠ length.toUInt32) :
    ObjectInside K mem data length := by
  have hno : ∀ {keys c}, ¬ RecordReached K mem data length keys c := fun hreached => h hreached.1
  exact ⟨hsize, fun heq => absurd heq h, fun _ _ hreached => absurd hreached hno,
    fun _ _ hreached => absurd hreached hno,
    fun keys => ⟨false, keys, parsePlayReadyPSSHData_mismatch h,
      iff_of_false Bool.false_ne_true fun hobject => h hobject.1⟩⟩

/-- An object without records is its header. -/
theorem objectInside_empty (hsize : 4 ≤ length.toNat) (h : read32LE mem data = length.toUInt32)
    (hheader : 6 ≤ length.toNat) (hcount : read16LE mem (data + 4) = 0) : ObjectInside K mem data length := by
  have hno : ∀ {keys c}, ¬ RecordReached K mem data length keys c := fun hreached => by
    have := UInt16.lt_iff_toNat_lt.1 hreached.2.1
    rw [hcount] at this
    exact absurd this (Nat.lt_irrefl 0)
  refine ⟨hsize, fun _ => hheader, fun _ _ hreached => absurd hreached hno,
    fun _ _ hreached => absurd hreached hno,
    fun keys => ⟨true, keys, parsePlayReadyPSSHData_empty h hcount, iff_of_true rfl ⟨h, ?_⟩⟩⟩
  have hnone : (read16LE mem (data + 4)).toNat = 0 := by rw [hcount]; rfl
  rw [hnone, recordsLie_zero]
  omega

/-- An object whose records fit is read and parsed inside. -/
theorem objectInside_records (hsize : 4 ≤ length.toNat) (h : read32LE mem data = length.toUInt32)
    (hheader : 6 ≤ length.toNat) {n : Nat} (hn : (read16LE mem (data + 4)).toNat = n + 1)
    (hfit : RecordsFit K mem (data + length.toNat) (n + 1) (data + 6)) : ObjectInside K mem data length := by
  have hend : data + 4 + length.toNat = data + length.toNat + 4 := Nat.add_right_comm ..
  have hpos : read16LE mem (data + 4) > 0 := UInt16.lt_iff_toNat_lt.2 (show 0 < _ by omega)
  have hloop := fun keys : List (KeyId K) =>
    loop_records_fit (c := ⟨data + 6, read16LE mem (data + 4), keys⟩) hn hfit
  refine ⟨hsize, fun _ => hheader, fun keys c hreached ha => ?_, fun keys c hreached ha hin htype => ?_,
    fun keys => ?_⟩
  · have hpasses := hreached.2.2
    rw [hend] at hpasses
    obtain ⟨hle, hinside⟩ := (hloop keys).2 c hpasses
    exact ⟨Nat.le_trans (Nat.le_add_right _ 6) hle, (hinside (by omega)).1⟩
  · have hpasses := hreached.2.2
    rw [hend] at hpasses
    exact (((hloop keys).2 c hpasses).2 (by omega)).2 (by omega) htype
  · obtain ⟨c', hreturns, hcount⟩ := (hloop keys).1
    refine ⟨_, _, (parsePlayReadyPSSHData_loop h hpos).2 ⟨c', hreturns, rfl, rfl⟩, ?_⟩
    rw [decide_eq_true_eq, IsObject, and_iff_right h, hn]
    exact hcount

end

/-- For every slice: the object is read and parsed inside, and the result says whether it is one, exactly when
there is a header and the records fit. -/
theorem objectInside_iff (K : Type) [Thunder K] (mem : Memory) (data : Nat) (length : UInt16) :
    ObjectInside K mem data length ↔ ObjectFits K mem data length := by
  constructor
  · intro h
    exact h.object_fits
  · rintro ⟨hsize, hrest⟩
    by_cases heq : read32LE mem data = length.toUInt32
    · obtain ⟨hheader, hfit⟩ := hrest heq
      cases hn : (read16LE mem (data + 4)).toNat with
      | zero => exact objectInside_empty hsize heq hheader (UInt16.toNat_inj.1 hn)
      | succ n =>
        rw [hn] at hfit
        exact objectInside_records hsize heq hheader hn hfit
    · exact objectInside_mismatch hsize heq

end

/-- An object of ten bytes with one record of two, which ends two bytes behind it. -/
def overlongRecord : Memory := place 4096 (le32 10 ++ le16 1 ++ le16 3 ++ le16 2) 0

theorem overlongRecord_accepted : ¬ ObjectInside Kid overlongRecord 4096 10 := by
  intro h
  obtain ⟨r, keys, hreturns, hr⟩ := h.result []
  have haccepted : (parsePlayReadyPSSHData overlongRecord 4096 10 ([] : List (KeyId Kid))).Returns (true, []) :=
    ⟨5, by decide +kernel⟩
  cases hreturns.unique haccepted
  obtain ⟨-, hlie⟩ := hr.1 rfl
  have hone : (read16LE overlongRecord (4096 + 4)).toNat = 0 + 1 := by decide +kernel
  rw [hone, recordsLie_succ] at hlie
  have hend : recordEnd overlongRecord (4096 + 6) = 4108 := by decide +kernel
  rw [hend] at hlie
  exact absurd hlie.1 (by decide)

end Ocdm.Cenc
