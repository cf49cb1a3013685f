/-
The parser touches its key list through `AddKeyId` alone, and only with fresh keys. So whatever holds
of the empty list and is kept by adding a fresh key holds of every list `Parse` returns
(`parse_induction`), whichever parsers the data goes through; in particular every key of parsed init
data is pending (`parse_pending`).
-/
import Ocdm.Cenc.Parser

namespace Ocdm.Cenc

open Bytes Comp

variable {K : Type} [Thunder K]

/-- A property of key lists that adding a fresh key keeps. -/
def KeptByAdd (P : List (KeyId K) → Prop) : Prop :=
  ∀ keys (id : K) (system : SystemType), P keys → P (addKeyId keys { id := id, systems := system.mask })

/-- A computation that keeps `P` from the list it is given to the list it returns. -/
def Keeps {β : Type} (P : List (KeyId K) → Prop) (keysOf : β → List (KeyId K)) (c : Comp β) : Prop :=
  ∀ b, c.Returns b → P (keysOf b)

section

variable {P : List (KeyId K) → Prop} (hP : KeptByAdd P) {mem : Memory}

include hP

theorem addXMLKey_keeps {text : Nat} {length : UInt8} {keys : List (KeyId K)} (h : P keys) :
    Keeps P id (addXMLKey mem text length keys) := by
  intro b hb
  obtain ⟨r, -, hb⟩ := returns_bind.1 hb
  split at hb
  · rw [← returns_pure.1 hb]
    exact hP keys _ .playReady h
  · rw [← returns_pure.1 hb]
    exact h

theorem parseKidPass_keeps {c : XmlCursor K} (h : P c.keys) :
    Keeps P (fun p => match p with | .again c' => c'.keys | .done c' => c'.keys) (parseKidPass mem c) := by
  intro p hp
  unfold parseKidPass at hp
  split at hp
  · obtain ⟨begin_, -, hp⟩ := returns_bind.1 hp
    split at hp
    · obtain ⟨end_, -, hp⟩ := returns_bind.1 hp
      split at hp
      · obtain ⟨keys, hk, hp⟩ := returns_bind.1 hp
        rw [← returns_pure.1 hp]
        exact addXMLKey_keeps hP h keys hk
      · rw [← returns_pure.1 hp]; exact h
    · rw [← returns_pure.1 hp]; exact h
  · rw [← returns_pure.1 hp]; exact h

theorem parseKidValuePass_keeps {c : XmlCursor K} (h : P c.keys) :
    Keeps P (fun p => match p with | .again c' => c'.keys | .done c' => c'.keys) (parseKidValuePass mem c) := by
  intro p hp
  unfold parseKidValuePass at hp
  split at hp
  · obtain ⟨begin_, -, hp⟩ := returns_bind.1 hp
    split at hp
    · obtain ⟨end_, -, hp⟩ := returns_bind.1 hp
      obtain ⟨keyValue, -, hp⟩ := returns_bind.1 hp
      obtain ⟨quote, -, hp⟩ := returns_bind.1 hp
      obtain ⟨closing, -, hp⟩ := returns_bind.1 hp
      split at hp
      · obtain ⟨keys, hk, hp⟩ := returns_bind.1 hp
        rw [← returns_pure.1 hp]
        exact addXMLKey_keeps hP h keys hk
      · rw [← returns_pure.1 hp]; exact h
    · rw [← returns_pure.1 hp]; exact h
  · rw [← returns_pure.1 hp]; exact h

theorem parseXMLBox_keeps {data : Nat} {length : UInt16} {keys : List (KeyId K)} (h : P keys) :
    Keeps P id (parseXMLBox mem data length keys) := by
  intro b hb
  obtain ⟨c1, h1, hb⟩ := returns_bind.1 hb
  obtain ⟨c2, h2, hb⟩ := returns_bind.1 hb
  rw [← returns_pure.1 hb]
  have hc1 : P c1.keys := loop_post (fun c => P c.keys) (fun c => P c.keys)
    (fun _ _ hs hp => parseKidPass_keeps hP hs _ hp) (fun _ _ hs hp => parseKidPass_keeps hP hs _ hp) h h1
  exact loop_post (fun c => P c.keys) (fun c => P c.keys)
    (fun _ _ hs hp => parseKidValuePass_keeps hP hs _ hp) (fun _ _ hs hp => parseKidValuePass_keeps hP hs _ hp) hc1 h2

theorem parseRecord_keeps {recordType recordLength : UInt16} {data : Nat} {keys : List (KeyId K)} (h : P keys) :
    Keeps P id (parseRecord mem recordType recordLength data keys) := by
  intro b hb
  unfold parseRecord at hb
  split at hb
  · exact parseXMLBox_keeps hP h b hb
  · rw [← returns_pure.1 hb]; exact h

theorem parseRecordPass_keeps {dataEnd : Nat} {c : RecordCursor K} (h : P c.keys) :
    Keeps P (fun p => match p with | .again c' => c'.keys | .done c' => c'.keys) (parseRecordPass mem dataEnd c) := by
  intro p hp
  unfold parseRecordPass at hp
  split at hp
  · dsimp only at hp
    split at hp
    · rw [← returns_pure.1 hp]; exact h
    · obtain ⟨keys, hk, hp⟩ := returns_bind.1 hp
      have hkeys : P keys := parseRecord_keeps hP h keys hk
      split at hp
      · rw [← returns_pure.1 hp]; exact hkeys
      · rw [← returns_pure.1 hp]; exact hkeys
  · rw [← returns_pure.1 hp]; exact h

theorem parsePlayReadyPSSHData_keeps {data : Nat} {length : UInt16} {keys : List (KeyId K)} (h : P keys) :
    Keeps P Prod.snd (parsePlayReadyPSSHData mem data length keys) := by
  intro b hb
  unfold parsePlayReadyPSSHData at hb
  dsimp only at hb
  split at hb
  · split at hb
    · obtain ⟨c, hc, hb⟩ := returns_bind.1 hb
      rw [← returns_pure.1 hb]
      exact loop_post (fun c => P c.keys) (fun c => P c.keys)
        (fun _ _ hs hp => parseRecordPass_keeps hP hs _ hp) (fun _ _ hs hp => parseRecordPass_keeps hP hs _ hp) h hc
    · rw [← returns_pure.1 hb]; exact h
  · rw [← returns_pure.1 hb]; exact h

theorem addAll_ofValue_keeps {keys : List (KeyId K)} (h : P keys) (values : List (List UInt8)) (system : SystemType) :
    P (addAll keys (values.map (KeyId.ofValue system))) := by
  induction values generalizing keys with
  | nil => exact h
  | cons value values ih => exact ih (hP keys _ system h)

theorem parseWidevinePSSHData_keeps {data : Nat} {length : UInt16} {keys : List (KeyId K)} (h : P keys) :
    Keeps P Prod.snd (parseWidevinePSSHData mem data length keys) := by
  intro b hb
  obtain ⟨r, -, hb⟩ := returns_bind.1 hb
  split at hb
  · rw [← returns_pure.1 hb]
    exact addAll_ofValue_keeps hP h _ .wideVine
  · rw [← returns_pure.1 hb]; exact h

theorem parsePayload_keeps {system : SystemType} {payload : Option (Nat × UInt32)} {keys : List (KeyId K)}
    (h : P keys) : Keeps P id (parsePayload mem system payload keys) := by
  intro b hb
  unfold parsePayload at hb
  split at hb
  · obtain ⟨r, hr, hb⟩ := returns_bind.1 hb
    rw [← returns_pure.1 hb]
    exact parsePlayReadyPSSHData_keeps hP h r hr
  · obtain ⟨r, hr, hb⟩ := returns_bind.1 hb
    rw [← returns_pure.1 hb]
    exact parseWidevinePSSHData_keeps hP h r hr
  · rw [← returns_pure.1 hb]; exact h

theorem addTable_keeps (system : SystemType) (count : Nat) {keyIdData : Nat} {keys : List (KeyId K)} (h : P keys) :
    P (addTable mem system count keyIdData keys) := by
  induction count generalizing keyIdData keys with
  | zero => exact h
  | succ count ih => exact ih (hP keys _ system h)

theorem parsePSSHBox_keeps {data : Nat} {length : UInt16} {keys : List (KeyId K)} (h : P keys) :
    Keeps P id (parsePSSHBox mem data length keys) := by
  intro b hb
  unfold parsePSSHBox at hb
  split at hb
  · dsimp only at hb
    split at hb
    · obtain ⟨keys', hk, hb⟩ := returns_bind.1 hb
      have hkeys : P keys' := parsePayload_keeps hP h keys' hk
      split at hb
      · rw [← returns_pure.1 hb]
        exact addTable_keeps hP _ _ hkeys
      · rw [← returns_pure.1 hb]; exact hkeys
    · rw [← returns_pure.1 hb]; exact h
  · rw [← returns_pure.1 hb]; exact h

theorem parseJSONInitData_keeps {data : Nat} {length : UInt16} {keys : List (KeyId K)} (h : P keys) :
    P (parseJSONInitData mem data length keys) := by
  unfold parseJSONInitData
  generalize Thunder.kids K (slice mem data length.toNat) = kids
  generalize u16 keyLength = decodeLength
  induction kids generalizing decodeLength keys with
  | nil => exact h
  | cons kid kids ih => exact ih (hP keys _ .clearKey h) _

theorem parseUnboxed_keeps {data : Nat} {length : UInt16} {keys : List (KeyId K)} (h : P keys) :
    Keeps P id (parseUnboxed mem data length keys) := by
  intro b hb
  unfold parseUnboxed at hb
  dsimp only at hb
  split at hb
  · exact parseXMLBox_keeps hP h b hb
  · split at hb
    · rw [← returns_pure.1 hb]
      exact parseJSONInitData_keeps hP h
    · split at hb
      · obtain ⟨r, hr, hb⟩ := returns_bind.1 hb
        rw [← returns_pure.1 hb]
        exact parsePlayReadyPSSHData_keeps hP h r hr
      · rw [← returns_pure.1 hb]; exact h

theorem parsePass_keeps {data : Nat} {length : UInt16} {c : BoxCursor K} (h : P c.keys) :
    Keeps P (fun p => match p with | .again c' => c'.keys | .done keys => keys) (parsePass mem data length c) := by
  intro p hp
  unfold parsePass at hp
  split at hp
  · obtain ⟨keys, hk, hp⟩ := returns_bind.1 hp
    have hkeys := parsePSSHBox_keeps hP h keys hk
    dsimp only at hp
    split at hp
    · rw [← returns_pure.1 hp]; exact hkeys
    · rw [← returns_pure.1 hp]; exact hkeys
  · split at hp
    · obtain ⟨keys, hk, hp⟩ := returns_bind.1 hp
      rw [← returns_pure.1 hp]
      exact parseUnboxed_keeps hP h keys hk
    · rw [← returns_pure.1 hp]; exact h

/-- What holds of the empty list and is kept by adding a fresh key holds of the keys of init data. -/
theorem parse_induction (h0 : P []) {data : Nat} {length : UInt16} {keys : List (KeyId K)}
    (h : (parse mem data length).Returns keys) : P keys := by
  unfold parse at h
  split at h
  · rw [← returns_pure.1 h]; exact h0
  · exact loop_post (fun c => P c.keys) P
      (fun _ _ hs hp => parsePass_keeps hP hs _ hp) (fun _ _ hs hp => parsePass_keeps hP hs _ hp) h0 h

end

/-- Every key of the list is pending. -/
def Pending (keys : List (KeyId K)) : Prop := ∀ e ∈ keys, e.status = .statusPending

theorem pending_keptByAdd : KeptByAdd (K := K) Pending := by
  intro keys id system h e he
  by_cases hmem : ∃ x ∈ keys, Thunder.same x.id id = true
  · obtain ⟨pre, x, post, hkeys, -, -, hu⟩ := Upsert.upsert_of_mem (f := fun e : KeyId K => e.flag system.mask)
      (a := { id := id, systems := system.mask }) hmem
    have he : e ∈ pre ++ x.flag system.mask :: post := hu ▸ he
    have hx := h x (by rw [hkeys]; simp)
    rcases List.mem_append.1 he with he | he
    · exact h e (by rw [hkeys]; exact List.mem_append_left _ he)
    · rcases List.mem_cons.1 he with rfl | he
      · exact hx
      · exact h e (by rw [hkeys]; exact List.mem_append_right _ (List.mem_cons_of_mem _ he))
  · have hno : ∀ x ∈ keys, Thunder.same x.id id = false := fun x hx => by
      cases hb : Thunder.same x.id id with
      | false => rfl
      | true => exact absurd ⟨x, hx, hb⟩ hmem
    have he : e ∈ keys ++ [{ id := id, systems := system.mask }] := Upsert.upsert_of_none hno ▸ he
    rcases List.mem_append.1 he with he | he
    · exact h e he
    · rw [List.mem_singleton.1 he]

/-- The keys of init data are pending. -/
theorem parse_pending {mem : Memory} {data : Nat} {length : UInt16} {keys : List (KeyId K)}
    (h : (parse mem data length).Returns keys) : Pending keys :=
  parse_induction pending_keptByAdd (fun _ he => by cases he) h

end Ocdm.Cenc
