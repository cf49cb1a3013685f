/-
Sequences of decrypt requests on one session: what the worker reads for a request, after any requests
before it. Between requests the sample length is zero (`run_sampleLength`), so the worker takes the
branch of the request at hand; but `SetMediaProperties` is not called without properties, and
`DecryptMulti` without samples sets no other parameter, so that what an earlier request left is read
(`determined_iff`).
-/
import Ocdm.Exchange.Client
import Ocdm.Exchange.Worker

namespace Ocdm.Exchange

/-! ## Runs -/

/-- A request, what its two calls of `RequestProduce` return, and what the CDM makes of it. -/
structure Turn where
  request : Request
  first : UInt32
  second : UInt32
  cdm : Cdm

def Turn.outcome (batch : Bool) (t : Turn) : Outcome := ⟨t.first, t.second, fun b => (workerPass batch t.cdm b).1⟩

/-- The block after a request. -/
def Turn.step (batch : Bool) (b : Block) (t : Turn) : Block := (t.request.perform (t.outcome batch) b).block

/-- The block after a sequence of requests. -/
def run (batch : Bool) (b : Block) (turns : List Turn) : Block := turns.foldl (Turn.step batch) b

/-- What the worker reads for a request made after `earlier`. -/
def paramsAfter (batch : Bool) (b : Block) (earlier : List Turn) (r : Request) : Params :=
  workerParams batch (r.fill (run batch b earlier))

/-- What the worker reads for the request does not depend on the requests before it. -/
def Determined (batch : Bool) (b : Block) (r : Request) : Prop :=
  ∀ earlier earlier' : List Turn, paramsAfter batch b earlier r = paramsAfter batch b earlier' r

/-- The request sets everything the worker reads for it: it has media properties (unless it is refused
before they are read), and samples if it is a `DecryptMulti`. -/
def SetsAll (batch : Bool) : Request → Prop
  | .decrypt _ _ _ _ properties => properties ≠ none
  | .decryptMulti _ _ sampleInfo sampleInfoLength properties =>
    sampleInfo ≠ none ∧ sampleInfoLength > 0 ∧ (batch = true → properties ≠ none)

/-! ## The sample length between requests -/

@[simp] theorem fillProperties_sampleLength (b : Block) (properties : Option MediaProperties) :
    (fillProperties b properties).sampleLength = b.sampleLength := by
  cases properties <;> rfl

theorem fillDecrypt_sampleLength (data : List UInt8) (length : UInt32) (sampleInfo : Option SampleInfo)
    (initWithLast15 : UInt32) (properties : Option MediaProperties) (b : Block) :
    (fillDecrypt data length sampleInfo initWithLast15 properties b).sampleLength = b.sampleLength := by
  cases properties <;> rfl

theorem workerPass_sampleLength (batch : Bool) (cdm : Cdm) (b : Block) :
    (workerPass batch cdm b).1.sampleLength = b.sampleLength := by
  obtain ⟨buffer, size, h⟩ := workerPass_frame batch cdm b
  rw [h]

theorem step_sampleLength (batch : Bool) (t : Turn) {b : Block} (hb : b.sampleLength = 0) :
    (t.step batch b).sampleLength = 0 := by
  obtain ⟨request, first, second, cdm⟩ := t
  cases request with
  | decrypt data length sampleInfo initWithLast15 properties =>
    have hfill := fillDecrypt_sampleLength data length sampleInfo initWithLast15 properties b
    have hserve := workerPass_sampleLength batch cdm (fillDecrypt data length sampleInfo initWithLast15 properties b)
    simp only [Turn.step, Turn.outcome, Request.perform, decrypt, handshake_block]
    split
    · exact hserve.trans (hfill.trans hb)
    · exact hb
  | decryptMulti data length sampleInfo sampleInfoLength properties =>
    simp only [Turn.step, Turn.outcome, Request.perform, decryptMulti, handshake_block]
    split
    · rfl
    · exact hb

theorem run_sampleLength (batch : Bool) (turns : List Turn) {b : Block} (hb : b.sampleLength = 0) :
    (run batch b turns).sampleLength = 0 := by
  induction turns generalizing b with
  | nil => exact hb
  | cons t turns ih => exact ih (step_sampleLength batch t hb)

/-! ## Requests that set everything -/

/-- The loop of `SetSample` touches the samples alone, and sets the first `count` of them. -/
theorem fillSamples_eq (sampleInfo : Nat → SampleInfo) (count : Nat) (b : Block) :
    ∃ samples, fillSamples sampleInfo count b = { b with samples := samples } ∧
      ∀ i < count, samples i = ⟨(sampleInfo i).iv, (sampleInfo i).subSample⟩ := by
  induction count with
  | zero => exact ⟨b.samples, rfl, fun i hi => absurd hi (Nat.not_lt_zero i)⟩
  | succ idx ih =>
    obtain ⟨samples, he, hs⟩ := ih
    refine ⟨_, by rw [fillSamples, he]; rfl, fun i hi => ?_⟩
    dsimp only
    split
    · rename_i h; rw [h]
    · exact hs i (by omega)

/-- What the worker reads for a `DecryptMulti` with samples. -/
theorem params_decryptMulti (batch : Bool) (data : List UInt8) (length : UInt32) (sampleInfo : Nat → SampleInfo)
    {sampleInfoLength : UInt16} (hlen : sampleInfoLength > 0) (properties : Option MediaProperties) (b : Block) :
    workerParams batch (fillDecryptMulti data length (some sampleInfo) sampleInfoLength properties b) =
      if batch then
        .decryptMulti ((List.range sampleInfoLength.toNat).map fun i => ⟨(sampleInfo 0).scheme.code,
          (sampleInfo 0).pattern, (sampleInfo i).iv, (sampleInfo 0).keyId, (sampleInfo i).subSample⟩)
          (properties.getD b.mediaProperties)
      else .notImplemented := by
  obtain ⟨samples, he, hs⟩ := fillSamples_eq sampleInfo sampleInfoLength.toNat
    (((((b.setKeyId (sampleInfo 0).keyId).setEncScheme (sampleInfo 0).scheme.code).setEncPattern
      (sampleInfo 0).pattern).setSubSample ⟨0, none⟩).setSampleLength sampleInfoLength)
  have hfill : fillDecryptMulti data length (some sampleInfo) sampleInfoLength properties b =
      (fillProperties (fillSamples sampleInfo sampleInfoLength.toNat
        (((((b.setKeyId (sampleInfo 0).keyId).setEncScheme (sampleInfo 0).scheme.code).setEncPattern
          (sampleInfo 0).pattern).setSubSample ⟨0, none⟩).setSampleLength sampleInfoLength)) properties).write
        length data := by
    simp only [fillDecryptMulti, if_pos hlen]
  rw [hfill, he]
  have hsamples : ∀ p : Blob × SubSampleMap → SampleParams,
      (List.range sampleInfoLength.toNat).map (fun i => p ((samples i).iv, (samples i).subSample)) =
      (List.range sampleInfoLength.toNat).map fun i => p ((sampleInfo i).iv, (sampleInfo i).subSample) := by
    intro p
    refine List.map_congr_left fun i hi => ?_
    rw [hs i (List.mem_range.1 hi)]
  have hmap := hsamples fun p =>
    ⟨(sampleInfo 0).scheme.code, (sampleInfo 0).pattern, p.1, (sampleInfo 0).keyId, p.2⟩
  cases properties with
  | none =>
    show (if sampleInfoLength > 0 then _ else _) = _
    rw [if_pos hlen]
    exact congrArg (fun l => if batch then Params.decryptMulti l b.mediaProperties else .notImplemented) hmap
  | some properties =>
    show (if sampleInfoLength > 0 then _ else _) = _
    rw [if_pos hlen]
    exact congrArg (fun l => if batch then Params.decryptMulti l properties else .notImplemented) hmap

/-- What the worker reads for a `Decrypt`, when the sample length is zero. -/
theorem params_decrypt (batch : Bool) (data : List UInt8) (length : UInt32) (sampleInfo : Option SampleInfo)
    (initWithLast15 : UInt32) (properties : Option MediaProperties) {b : Block} (hb : b.sampleLength = 0) :
    workerParams batch (fillDecrypt data length sampleInfo initWithLast15 properties b) =
      let sample := sampleInfo.getD noSampleInfo
      .decrypt ⟨sample.scheme.code, sample.pattern, sample.iv, sample.keyId, sample.subSample⟩
        (properties.getD b.mediaProperties) := by
  have h := fillDecrypt_sampleLength data length sampleInfo initWithLast15 properties b
  unfold workerParams
  rw [h, hb, if_neg (by decide)]
  cases properties <;> rfl

theorem params_of_setsAll {batch : Bool} {r : Request} (hr : SetsAll batch r) {b b' : Block}
    (hb : b.sampleLength = 0) (hb' : b'.sampleLength = 0) :
    workerParams batch (r.fill b) = workerParams batch (r.fill b') := by
  cases r with
  | decrypt data length sampleInfo initWithLast15 properties =>
    obtain ⟨properties, rfl⟩ := Option.ne_none_iff_exists'.1 hr
    simp only [Request.fill, params_decrypt _ _ _ _ _ _ hb, params_decrypt _ _ _ _ _ _ hb', Option.getD_some]
  | decryptMulti data length sampleInfo sampleInfoLength properties =>
    obtain ⟨hs, hlen, hp⟩ := hr
    obtain ⟨sampleInfo, rfl⟩ := Option.ne_none_iff_exists'.1 hs
    simp only [Request.fill, params_decryptMulti _ _ _ _ hlen]
    cases batch with
    | false => rfl
    | true =>
      obtain ⟨properties, rfl⟩ := Option.ne_none_iff_exists'.1 (hp rfl)
      rfl

/-! ## Requests that leave something -/

/-- A `Decrypt` that succeeds, with its scheme and properties. -/
def leaving (scheme : EncryptionScheme) (properties : MediaProperties) : Turn where
  request := .decrypt [] 0 (some { noSampleInfo with scheme := scheme }) 0 (some properties)
  first := 0
  second := 0
  cdm _ buffer _ := ⟨0, buffer, 0, none⟩

theorem run_leaving (batch : Bool) (b : Block) (scheme : EncryptionScheme) (properties : MediaProperties) :
    (run batch b [leaving scheme properties]).encScheme = scheme.code ∧
    (run batch b [leaving scheme properties]).mediaProperties = properties := by
  have he : run batch b [leaving scheme properties] = (workerPass batch (leaving scheme properties).cdm
      (fillDecrypt [] 0 (some { noSampleInfo with scheme := scheme }) 0 (some properties) b)).1 := rfl
  obtain ⟨buffer, size, h⟩ := workerPass_frame batch (leaving scheme properties).cdm
    (fillDecrypt [] 0 (some { noSampleInfo with scheme := scheme }) 0 (some properties) b)
  rw [he, h]
  exact ⟨rfl, rfl⟩

/-- Without samples, `DecryptMulti` leaves the sample length and the scheme as they are. -/
theorem params_noSamples (batch : Bool) (data : List UInt8) (length : UInt32)
    {sampleInfo : Option (Nat → SampleInfo)} {sampleInfoLength : UInt16}
    (hno : sampleInfo = none ∨ ¬ sampleInfoLength > 0) (properties : Option MediaProperties) {b : Block}
    (hb : b.sampleLength = 0) :
    workerParams batch (fillDecryptMulti data length sampleInfo sampleInfoLength properties b) =
      .decrypt ⟨b.encScheme, b.encPattern, b.iv, b.keyId, b.subSample⟩ (properties.getD b.mediaProperties) := by
  have hfill : fillDecryptMulti data length sampleInfo sampleInfoLength properties b =
      (fillProperties b properties).write length data := by
    rcases hno with rfl | hlen
    · rfl
    · cases sampleInfo with
      | none => rfl
      | some sampleInfo => simp only [fillDecryptMulti, if_neg hlen]
  rw [hfill]
  unfold workerParams
  have hlen : ((fillProperties b properties).write length data).sampleLength = 0 :=
    (fillProperties_sampleLength b properties).trans hb
  rw [hlen, if_neg (by decide)]
  cases properties <;> rfl

theorem not_determined (batch : Bool) {b : Block} (hb : b.sampleLength = 0) {r : Request} (hr : ¬ SetsAll batch r) :
    ¬ Determined batch b r := by
  intro hd
  -- two turns before it, told apart by their scheme and by their height
  let p0 : MediaProperties := ⟨0, 0, .unknown⟩
  let p1 : MediaProperties := ⟨1, 0, .unknown⟩
  have hd := hd [leaving .clear p0] [leaving .aesCbcCbcs p1]
  obtain ⟨hs0, hm0⟩ := run_leaving batch b .clear p0
  obtain ⟨hs1, hm1⟩ := run_leaving batch b .aesCbcCbcs p1
  have hb0 := run_sampleLength batch [leaving .clear p0] hb
  have hb1 := run_sampleLength batch [leaving .aesCbcCbcs p1] hb
  have hp : p0 ≠ p1 := by decide
  unfold paramsAfter at hd
  cases r with
  | decrypt data length sampleInfo initWithLast15 properties =>
    have hn : properties = none := not_not.1 hr
    subst hn
    simp only [Request.fill, params_decrypt _ _ _ _ _ _ hb0, params_decrypt _ _ _ _ _ _ hb1, Option.getD_none, hm0,
      hm1, Params.decrypt.injEq] at hd
    exact hp hd.2
  | decryptMulti data length sampleInfo sampleInfoLength properties =>
    by_cases hno : sampleInfo = none ∨ ¬ sampleInfoLength > 0
    · simp only [Request.fill, params_noSamples _ _ _ hno _ hb0, params_noSamples _ _ _ hno _ hb1, hs0, hs1,
        Params.decrypt.injEq, SampleParams.mk.injEq] at hd
      exact absurd hd.1.1 (by decide)
    · obtain ⟨hsome, hlen⟩ := not_or.1 hno
      obtain ⟨sampleInfo, rfl⟩ := Option.ne_none_iff_exists'.1 hsome
      have hlen := not_not.1 hlen
      have hbn : batch = true ∧ properties = none := by
        refine ⟨?_, ?_⟩
        · by_contra hb
          exact hr ⟨hsome, hlen, fun h => absurd h hb⟩
        · by_contra hp
          exact hr ⟨hsome, hlen, fun _ => hp⟩
      obtain ⟨rfl, rfl⟩ := hbn
      simp only [Request.fill, params_decryptMulti _ _ _ _ hlen, if_true, Option.getD_none, hm0, hm1,
        Params.decryptMulti.injEq] at hd
      exact hp hd.2

/-- The worker's parameters for a request are determined by the request exactly when it sets them all. -/
theorem determined_iff (batch : Bool) (b : Block) (hb : b.sampleLength = 0) (r : Request) :
    Determined batch b r ↔ SetsAll batch r := by
  constructor
  · intro hd
    by_contra hr
    exact not_determined batch hb hr hd
  · intro hr earlier earlier'
    exact params_of_setsAll hr (run_sampleLength batch earlier hb) (run_sampleLength batch earlier' hb)

/-- A block whose sample length is zero, as the one with every field zero. -/
theorem determined_iff_zero : Block.zero.sampleLength = 0 ∧
    (Determined true Block.zero (.decrypt [0xAB] 1 none 0 none) ↔
      SetsAll true (.decrypt [0xAB] 1 none 0 none)) :=
  ⟨rfl, determined_iff true Block.zero rfl (.decrypt [0xAB] 1 none 0 none)⟩

/-- After a request with the properties of a 1080p video, a `Decrypt` without properties is read with
those of the video. -/
theorem stale_properties :
    paramsAfter true Block.zero [leaving .aesCtrCenc ⟨1080, 1920, .video⟩] (.decrypt [0xAB] 1 none 0 none) =
      .decrypt ⟨1, ⟨0, 0⟩, ⟨0, none⟩, ⟨0, none⟩, ⟨0, none⟩⟩ ⟨1080, 1920, .video⟩ ∧
    paramsAfter true Block.zero [] (.decrypt [0xAB] 1 none 0 none) =
      .decrypt ⟨1, ⟨0, 0⟩, ⟨0, none⟩, ⟨0, none⟩, ⟨0, none⟩⟩ ⟨0, 0, .unknown⟩ ∧
    ¬ Determined true Block.zero (.decrypt [0xAB] 1 none 0 none) := by
  refine ⟨by decide, by decide, fun hd => ?_⟩
  have h := hd [leaving .aesCtrCenc ⟨1080, 1920, .video⟩] []
  exact absurd h (by decide)

end Ocdm.Exchange
