/-
When `Parse` ends (CENCParser.h). The loop over the boxes comes forward when no box has a size field of zero, and each
pass then needs the parser that it calls: that of Widevine messages always ends, that of PlayReady objects when
`ParseXMLBox` ends on the records that it comes to (`objectEnds_iff`). So the box loop is as it should be exactly when
the walk meets no box of size zero and the `ParseXMLBox` calls that `Parse` comes to end (`boxLoop_iff`).
-/
import Ocdm.Cenc.BoxLoop
import Ocdm.Cenc.Records
import Ocdm.Protobuf.Walk

namespace Ocdm.Cenc

open Bytes Comp

/-! ## The calls of `ParseXMLBox` -/

section

variable (K : Type) [Thunder K] (mem : Memory)

/-- `ParseXMLBox` ends on the records that the record loop comes to, `n` of them from `a` on: those that begin in front
of `stop` and end at most three bytes behind it. -/
def RecordsEnd (stop : Nat) : Nat → Nat → Prop
  | 0, _ => True
  | n + 1, a => a < stop → recordEnd mem a < stop + 4 →
      (read16LE mem a = 1 → XmlEnds K mem (a + 4) (read16LE mem (a + 2))) ∧ RecordsEnd stop n (recordEnd mem a)

/-- The records of an object of the announced size. -/
def ObjectEnds (data : Nat) (length : UInt16) : Prop :=
  read32LE mem data = length.toUInt32 →
    RecordsEnd K mem (data + length.toNat) (read16LE mem (data + 4)).toNat (data + 6)

/-- The payload of a PlayReady box, if it has one. -/
def BoxEnds (data : Nat) (length : UInt16) : Prop :=
  length ≥ 24 → systemOf mem (data + 4) = .playReady →
    ∀ p, (psshLayout mem data length).payload = some p → ObjectEnds K mem p.1 (u16 p.2.toNat)

/-- Data that starts with no box: a text, or an object. -/
def UnboxedEnds (data : Nat) (length : UInt16) : Prop :=
  if startsWRM mem data then XmlEnds K mem data length
  else ¬ jsonKeyIds <:+: slice mem data length.toNat → ObjectEnds K mem data length

/-- `ParseXMLBox` ends wherever `Parse` comes to call it: on the boxes of the walk, and on data without a box. -/
structure ParsersEnd (data : Nat) (length : UInt16) : Prop where
  boxes : ∀ offset, Walk mem data length offset → acceptsBox mem data length offset = true →
    BoxEnds K mem (data + (offset.toNat + 4 + 4)) (u16 (read32BE mem (data + offset.toNat) - 4 - 4).toNat)
  unboxed : data ≠ nullptr → length ≠ 0 → acceptsBox mem data length 0 = false → UnboxedEnds K mem data length

/-- The box loop as it should be: each pass that accepts a box moves the offset forward, the offset stays within the
length, no run of the loop is infinite, and `Parse` ends. -/
structure BoxLoopOK (data : Nat) (length : UInt16) : Prop where
  advances : ∀ offset, Walk mem data length offset → acceptsBox mem data length offset = true →
    offset < nextOffset mem data offset
  bounded : ∀ offset, Walk mem data length offset → offset ≤ length ∧
    (acceptsBox mem data length offset = true → nextOffset mem data offset ≤ length)
  finite : ¬ ∃ run : Nat → BoxCursor K, Passes (parsePass mem data length) ⟨0, []⟩ (run 0) ∧
    data ≠ nullptr ∧ length ≠ 0 ∧ ∀ n, Goes (parsePass mem data length) (run n) (run (n + 1))
  terminates : (parse mem data length : Comp (List (KeyId K))).Terminates

end

section

variable {K : Type} [Thunder K] {mem : Memory}

/-! ## Objects -/

/-- The record loop ends when `ParseXMLBox` does on its records. -/
theorem RecordsEnd.loop_ends {stop : Nat} {c : RecordCursor K} {n : Nat} (hcount : c.count.toNat = n + 1)
    (h : RecordsEnd K mem stop (n + 1) c.data) : (loop (parseRecordPass mem (stop + 4)) c).Terminates := by
  induction n using Nat.strongRecOn generalizing c with
  | ind n ih =>
  by_cases ha : c.data < stop
  · by_cases hin : recordEnd mem c.data < stop + 4
    · obtain ⟨hxml, hrest⟩ := h ha hin
      obtain ⟨keys, hkeys⟩ := parseRecord_ends hxml
      have hpass := parseRecordPass_record ha hin hkeys
      have hpred := count_pred hcount
      cases n with
      | zero =>
        rw [if_pos ((count_zero hpred).2 rfl)] at hpass
        exact ⟨_, loop_done hpass⟩
      | succ n =>
        rw [if_neg fun hz => by rw [count_zero hpred] at hz; omega] at hpass
        obtain ⟨c', hc'⟩ := ih n (Nat.lt_succ_self n) (c := ⟨recordEnd mem c.data, c.count - 1, keys⟩) hpred hrest
        exact ⟨c', loop_again hpass hc'⟩
    · exact ⟨_, loop_done (parseRecordPass_over ha (Nat.le_of_not_lt hin))⟩
  · exact ⟨_, loop_done (parseRecordPass_end (Nat.le_of_not_lt ha))⟩

/-- A record loop that ends has ended on every record. -/
theorem recordsEnd_of_loop {stop : Nat} {c : RecordCursor K} {n : Nat} (hcount : c.count.toNat = n + 1)
    (h : (loop (parseRecordPass mem (stop + 4)) c).Terminates) : RecordsEnd K mem stop (n + 1) c.data := by
  induction n using Nat.strongRecOn generalizing c with
  | ind n ih =>
  intro ha hin
  obtain ⟨c', hloop⟩ := h
  have hpred := count_pred hcount
  obtain ⟨keys, hkeys⟩ := parseRecord_of_loop ha hin hloop
  have hpass := parseRecordPass_record ha hin hkeys
  refine ⟨fun htype keys' => ?_, ?_⟩
  · rw [parseRecord, if_pos htype] at hkeys
    exact parseXMLBox_same ⟨keys, hkeys⟩ keys'
  · cases n with
    | zero => trivial
    | succ n =>
      rw [if_neg fun hz => by rw [count_zero hpred] at hz; omega] at hpass
      exact ih n (Nat.lt_succ_self n) (c := ⟨recordEnd mem c.data, c.count - 1, keys⟩) hpred
        ⟨c', (Passes.returns_iff (.single hpass)).1 hloop⟩

/-- `ParsePlayReadyPSSHData` ends, whatever the keys, exactly when `ParseXMLBox` does on its records. -/
theorem objectEnds_iff {data : Nat} {length : UInt16} (keys : List (KeyId K)) :
    (parsePlayReadyPSSHData mem data length keys).Terminates ↔ ObjectEnds K mem data length := by
  by_cases hsize : read32LE mem data = length.toUInt32
  · cases hn : (read16LE mem (data + 4)).toNat with
    | zero =>
      refine iff_of_true ⟨_, parsePlayReadyPSSHData_empty hsize (UInt16.toNat_inj.1 hn)⟩ fun _ => ?_
      rw [hn]
      trivial
    | succ n =>
      have hpos : read16LE mem (data + 4) > 0 := UInt16.lt_iff_toNat_lt.2 (show 0 < _ by omega)
      constructor
      · rintro ⟨⟨r, keys'⟩, hreturns⟩ -
        obtain ⟨c', hloop, -, -⟩ := (parsePlayReadyPSSHData_loop hsize hpos).1 hreturns
        rw [hn]
        exact recordsEnd_of_loop (c := ⟨data + 6, read16LE mem (data + 4), keys⟩) hn ⟨c', hloop⟩
      · intro h
        have hrecords := h hsize
        rw [hn] at hrecords
        obtain ⟨c', hloop⟩ := hrecords.loop_ends (c := ⟨data + 6, read16LE mem (data + 4), keys⟩) hn
        exact ⟨_, (parsePlayReadyPSSHData_loop hsize hpos).2 ⟨c', hloop, rfl, rfl⟩⟩
  · exact iff_of_true ⟨_, parsePlayReadyPSSHData_mismatch hsize⟩ fun h => absurd h hsize

/-! ## Boxes and data without a box -/

theorem parseWidevinePSSHData_ends (data : Nat) (length : UInt16) (keys : List (KeyId K)) :
    (parseWidevinePSSHData mem data length keys).Terminates := by
  refine (terminates_bind fun _ => ?_).2 (Protobuf.fromBuffer_total mem data length.toUInt32 widevinePsshPB2)
  split <;> exact terminates_pure _

/-- Only the payload of a PlayReady box can keep its decoder. -/
theorem parsePayload_ends_iff (system : SystemType) (payload : Option (Nat × UInt32)) (keys : List (KeyId K)) :
    (parsePayload mem system payload keys).Terminates ↔
      (system = .playReady → ∀ p, payload = some p → ObjectEnds K mem p.1 (u16 p.2.toNat)) := by
  unfold parsePayload
  split
  · rename_i psshData psshDataSize
    rw [terminates_map, objectEnds_iff]
    constructor
    · intro h _ p hp
      obtain rfl := Option.some.inj hp
      exact h
    · exact fun h => h rfl (psshData, psshDataSize) rfl
  · rename_i psshData psshDataSize
    rw [terminates_map]
    have hends : (parseWidevinePSSHData mem psshData (u16 psshDataSize.toNat) keys).Terminates :=
      parseWidevinePSSHData_ends ..
    exact iff_of_true hends fun hsystem => absurd hsystem (by decide)
  · rename_i hother _
    refine iff_of_true (terminates_pure _) fun hsystem p hp => ?_
    obtain ⟨psshData, psshDataSize⟩ := p
    exact absurd hp (hother psshData psshDataSize hsystem)

theorem parsePSSHBox_ends_iff (data : Nat) (length : UInt16) (keys : List (KeyId K)) :
    (parsePSSHBox mem data length keys).Terminates ↔ BoxEnds K mem data length := by
  unfold parsePSSHBox
  split
  · rename_i hlength
    dsimp only
    split
    · rw [terminates_bind fun keys => by split <;> exact terminates_pure _, parsePayload_ends_iff]
      exact ⟨fun h _ => h, fun h => h hlength⟩
    · rename_i hnone
      rw [not_or, Bool.not_eq_true, Bool.not_eq_true, Option.isSome_eq_false_iff, Option.isSome_eq_false_iff] at hnone
      refine iff_of_true (terminates_pure _) fun _ _ p hp => ?_
      rw [hp] at hnone
      exact absurd hnone.2 Bool.false_ne_true
  · rename_i hlength
    exact iff_of_true (terminates_pure _) fun h => absurd h hlength

theorem parseUnboxed_ends_iff (data : Nat) (length : UInt16) (keys : List (KeyId K)) :
    (parseUnboxed mem data length keys).Terminates ↔ UnboxedEnds K mem data length := by
  unfold parseUnboxed UnboxedEnds
  dsimp only
  split
  · exact ⟨fun h keys' => parseXMLBox_same h keys', fun h => h keys⟩
  · split
    · rename_i hjson
      exact iff_of_true (terminates_pure _) fun h => absurd hjson h
    · rename_i hjson
      split
      · rw [terminates_map, objectEnds_iff]
        exact ⟨fun h _ => h, fun h => h hjson⟩
      · rename_i hsize
        exact iff_of_true (terminates_pure _) fun _ heq => absurd heq hsize

/-! ## The loop -/

variable {data : Nat} {length : UInt16}

theorem boxCall_ends_iff (offset : UInt16) (keys : List (KeyId K)) :
    (boxCall mem data offset keys).Terminates ↔
      BoxEnds K mem (data + (offset.toNat + 4 + 4)) (u16 (read32BE mem (data + offset.toNat) - 4 - 4).toNat) :=
  parsePSSHBox_ends_iff _ _ keys

theorem parse_eq_loop (hd : data ≠ nullptr) (hl : length ≠ 0) :
    (parse mem data length : Comp (List (KeyId K))) = loop (parsePass mem data length) ⟨0, []⟩ := by
  unfold parse
  rw [if_neg (not_or.2 ⟨hd, hl⟩)]

/-- Without a box of size zero `Parse` ends when the parsers do that it calls. -/
theorem parse_terminates (h : NoZeroBox mem data length) (hends : ParsersEnd K mem data length) :
    (parse mem data length : Comp (List (KeyId K))).Terminates := by
  by_cases hnone : data = nullptr ∨ length = 0
  · unfold parse
    rw [if_pos hnone]
    exact terminates_pure _
  obtain ⟨hd, hl⟩ := not_or.1 hnone
  rw [parse_eq_loop hd hl]
  -- the distance to the end goes down on every pass that goes on
  refine (loop_variant (fun c => Walk mem data length c.offset) (fun _ => True)
    (fun c => length.toNat - c.offset.toNat) ?_ (.start hd hl)).imp fun _ h => h.1
  intro c hw
  have hlt := walk_lt hw
  cases ha : acceptsBox mem data length c.offset with
  | true =>
    obtain ⟨keys, hk⟩ := (boxCall_ends_iff c.offset c.keys).2 (hends.boxes c.offset hw ha)
    have hp := parsePass_accepts ha hk
    split at hp
    · rename_i hnext
      refine .inl ⟨_, hp, .skip hw ha hnext, ?_⟩
      have := (lt_nextOffset_iff hlt ha).2 (h _ hw ha)
      rw [UInt16.lt_iff_toNat_lt] at this hnext
      show length.toNat - (nextOffset mem data c.offset).toNat < _
      omega
    · exact .inr ⟨keys, hp, trivial⟩
  | false =>
    right
    unfold parsePass
    rw [if_neg (by rw [ha]; simp)]
    split
    · rename_i hzero
      rw [hzero] at ha
      obtain ⟨keys, hk⟩ := (parseUnboxed_ends_iff data length c.keys).2 (hends.unboxed hd hl ha)
      exact ⟨keys, Returns.bind hk (returns_pure.2 rfl), trivial⟩
    · exact ⟨c.keys, returns_pure.2 rfl, trivial⟩

/-- A pass over a box needs the result of its parser. -/
theorem boxCall_of_loop {c : BoxCursor K} (ha : acceptsBox mem data length c.offset = true)
    (h : (loop (parsePass mem data length) c).Terminates) : (boxCall mem data c.offset c.keys).Terminates := by
  obtain ⟨keys, hkeys⟩ := h
  rcases returns_loop.1 hkeys with hp | ⟨c', hp, -⟩
  · unfold parsePass at hp
    rw [if_pos ha] at hp
    obtain ⟨keys', hk, -⟩ := returns_bind.1 hp
    exact ⟨keys', hk⟩
  · exact ⟨c'.keys, (parsePass_again hp).2.2.2⟩

/-- When `Parse` ends, it has come to every offset of the walk. -/
theorem passes_of_walk (hterm : (parse mem data length : Comp (List (KeyId K))).Terminates) {offset : UInt16}
    (hw : Walk mem data length offset) :
    ∃ keys, Passes (parsePass mem data length) (⟨0, []⟩ : BoxCursor K) ⟨offset, keys⟩ ∧
      (loop (parsePass mem data length) ⟨offset, keys⟩).Terminates := by
  induction hw with
  | start hd hl =>
    rw [parse_eq_loop hd hl] at hterm
    exact ⟨[], .refl, hterm⟩
  | @skip offset _ ha hlt ih =>
    obtain ⟨keys, hpasses, hloop⟩ := ih
    obtain ⟨keys', hk⟩ := boxCall_of_loop (c := ⟨offset, keys⟩) ha hloop
    have hp := parsePass_accepts (c := ⟨offset, keys⟩) ha hk
    rw [if_pos hlt] at hp
    exact ⟨keys', hpasses.tail hp, hloop.imp fun _ hkeys => (Passes.returns_iff (.single hp)).1 hkeys⟩

/-- When `Parse` ends, the parsers do that it calls. -/
theorem parsersEnd_of_parse (hterm : (parse mem data length : Comp (List (KeyId K))).Terminates) :
    ParsersEnd K mem data length := by
  refine ⟨fun offset hw ha => ?_, fun hd hl ha => ?_⟩
  · obtain ⟨keys, -, hloop⟩ := passes_of_walk hterm hw
    have hcall := boxCall_of_loop (c := ⟨offset, keys⟩) ha hloop
    exact (boxCall_ends_iff offset keys).1 hcall
  · rw [parse_eq_loop hd hl] at hterm
    obtain ⟨keys, hkeys⟩ := hterm
    refine (parseUnboxed_ends_iff data length ([] : List (KeyId K))).1 ?_
    rcases returns_loop.1 hkeys with hp | ⟨c', hp, -⟩
    · unfold parsePass at hp
      rw [if_neg (by rw [ha]; exact Bool.false_ne_true), if_pos rfl] at hp
      obtain ⟨keys', hk, -⟩ := returns_bind.1 hp
      exact ⟨keys', hk⟩
    · have haccepts : acceptsBox mem data length 0 = true := (parsePass_again hp).1
      rw [ha] at haccepts
      cases haccepts

end

/-- The box loop is as it should be exactly when the walk meets no box of size zero and the `ParseXMLBox` calls that
`Parse` comes to end. -/
theorem boxLoop_iff (K : Type) [Thunder K] (mem : Memory) (data : Nat) (length : UInt16) :
    BoxLoopOK K mem data length ↔ NoZeroBox mem data length ∧ ParsersEnd K mem data length := by
  constructor
  · intro h
    exact ⟨fun offset hw ha => (lt_nextOffset_iff (walk_lt hw) ha).1 (h.advances offset hw ha),
      parsersEnd_of_parse h.terminates⟩
  · rintro ⟨h, hends⟩
    refine ⟨fun offset hw ha => (lt_nextOffset_iff (walk_lt hw) ha).2 (h offset hw ha), fun offset hw => ?_,
      no_infinite_run h, parse_terminates h hends⟩
    exact ⟨UInt16.le_of_lt (walk_lt hw), nextOffset_le (walk_lt hw)⟩

/-! ## A box of size zero, and a tag at the end -/

/-- A box of size zero, of a version that is not supported: nine bytes. -/
def zeroBox : Memory := place 1 [0, 0, 0, 0, 0x70, 0x73, 0x73, 0x68, 2] 0

/-- The walk over `zeroBox` never leaves its start. -/
theorem zeroBox_walk {offset : UInt16} (h : Walk zeroBox 1 9 offset) : offset = 0 := by
  induction h with
  | start => rfl
  | skip _ _ _ ih => rw [ih]; decide

theorem zeroBox_parsers_end : ParsersEnd Kid zeroBox 1 9 := by
  refine ⟨fun offset hw _ _ hsystem => ?_, fun _ _ ha => absurd ha (by decide)⟩
  rw [zeroBox_walk hw] at hsystem
  exact absurd hsystem (by decide)

/-- `<WRM<KID>` in UTF-16. In 17 of its 18 bytes the tag ends one byte behind the text, and the search for the tag that
closes it has a length of 65535. -/
def openKid : Memory := place 1 (utf16 (ascii "<WRM<KID>")) 0

theorem openKid_walk {offset : UInt16} (h : Walk openKid 1 17 offset) : offset = 0 := by
  induction h with
  | start => rfl
  | skip _ ha _ ih =>
    rw [ih] at ha
    exact absurd ha (by decide)

theorem openKid_no_zeroBox : NoZeroBox openKid 1 17 := by
  intro offset hw ha
  rw [openKid_walk hw] at ha
  exact absurd ha (by decide)

/-- Behind `openKid` there is no tag. -/
theorem openKid_not_closed (p : Nat) : ¬ Holds (ring openKid 19) p (ascii "</KID>") := by
  intro h
  have hbehind : ring openKid 19 p = 0 := by
    unfold ring openKid place
    rw [if_pos (by omega)]
    refine List.getD_eq_default _ _ ?_
    have hlength : (utf16 (ascii "<WRM<KID>")).length = 18 := by decide
    omega
  have hfirst : ring openKid 19 p = 0x3c := h.1
  rw [hbehind] at hfirst
  exact absurd hfirst (by decide)

theorem openKid_not_ended : ¬ ParsersEnd Kid openKid 1 17 := by
  intro h
  have hunboxed := h.unboxed (by decide) (by decide) (by decide)
  rw [UnboxedEnds, if_pos (by decide)] at hunboxed
  obtain ⟨keys, hkeys⟩ := hunboxed []
  obtain ⟨c, hloop, -⟩ := returns_bind.1 hkeys
  have hopens : (findInXML openKid 1 17 (ascii "<KID>") 5).Returns 8 := ⟨20, by decide +kernel⟩
  have hpass : (parseKidPass openKid (⟨1, 17, []⟩ : XmlCursor Kid)).Terminates := by
    rcases returns_loop.1 hloop with hp | ⟨c', hp, -⟩
    · exact ⟨_, hp⟩
    · exact ⟨_, hp⟩
  obtain ⟨p, hp⟩ := hpass
  rw [parseKidPass, if_pos (by decide), hopens.bind_iff, if_pos (by decide)] at hp
  obtain ⟨closing, hcloses, -⟩ := returns_bind.1 hp
  exact findInXML_endless (by decide) (by decide) openKid_not_closed ⟨closing, hcloses⟩

/-- On `zeroBox` every parser called ends, and on `openKid` there is no box of size zero; `Parse` ends on neither. -/
theorem zeroBox_never_ends :
    (ParsersEnd Kid zeroBox 1 9 ∧ ¬ (parse zeroBox 1 9 : Comp (List (KeyId Kid))).Terminates) ∧
      (NoZeroBox openKid 1 17 ∧ ¬ (parse openKid 1 17 : Comp (List (KeyId Kid))).Terminates) ∧
      ¬ BoxLoopOK Kid zeroBox 1 9 := by
  have hloop : ¬ (parse zeroBox 1 9 : Comp (List (KeyId Kid))).Terminates := by
    rw [parse_eq_loop (by decide) (by decide)]
    exact loop_diverges_of_zero (.start (by decide) (by decide)) (by decide) (by decide)
  exact ⟨⟨zeroBox_parsers_end, hloop⟩, ⟨openKid_no_zeroBox, fun h => openKid_not_ended (parsersEnd_of_parse h)⟩,
    fun hok => hloop hok.terminates⟩

end Ocdm.Cenc
