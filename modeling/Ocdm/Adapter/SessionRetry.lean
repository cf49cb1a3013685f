/-
`opencdm_gstreamer_session_decrypt` of the RDK adapter (open_cdm_decrypt.cpp). Its attempts are those of
`opencdm_gstreamer_session_decrypt_once`, which hands over a copy of what is encrypted and has the frame transformed
only when that was decrypted. So an attempt finds the frame as the first one did: a run that succeeds is one attempt on
the frame as it came, any other leaves it so (`attempts_fresh`), and the attempts of a run make one call of
`opencdm_session_decrypt` over and over (`calls_one`).
-/
import Ocdm.Adapter.GStreamer
import Ocdm.Adapter.RetryTrace

namespace Ocdm.Adapter

open Exchange (SubSampleInfo)

/-! ## The function -/

/-- What an attempt meets: the SVP library, with what its transform makes of the bytes of a frame, and
`opencdm_session_decrypt`. -/
structure OnceEnv extends OnceSvp where
  transformed : SvpTransform → List UInt8 → List UInt8
  decrypt : SessionCall → OpenCDMError × List UInt8

/-- What the attempts change: the bytes of the frame, and the calls and the transforms made so far. -/
structure OnceAttempts where
  data : List UInt8
  calls : List SessionCall
  transforms : List SvpTransform
deriving DecidableEq, Repr

/-- The arguments of `opencdm_gstreamer_session_decrypt`. -/
structure SessionArguments where
  session : Bool
  buffer : DataBuffer
  subSample : Option SizedBuffer
  subSampleCount : UInt32
  IV : Option GstBuffer
  keyID : Option GstBuffer
  initWithLast15 : UInt32

/-- `opencdm_gstreamer_session_decrypt_once` with the bytes the frame has. -/
def SessionArguments.once (args : SessionArguments) (env : OnceEnv) (data : List UInt8) : SessionOutcome :=
  gstreamerSessionDecryptOnce env.toOnceSvp env.decrypt args.session { args.buffer with bytes := data } args.subSample
    args.subSampleCount args.IV args.keyID args.initWithLast15

/-- An attempt of `opencdm_gstreamer_session_decrypt`. -/
def attemptOnce (args : SessionArguments) (env : OnceEnv) (s : OnceAttempts) : OpenCDMError × OnceAttempts :=
  let o := args.once env s.data
  (o.result, ⟨o.transform.elim o.data fun t => env.transformed t o.data, s.calls ++ o.call.toList,
    s.transforms ++ o.transform.toList⟩)

/-- The frame as it came. -/
def SessionArguments.untouched (args : SessionArguments) : OnceAttempts := ⟨args.buffer.bytes, [], []⟩

/-- `opencdm_gstreamer_session_decrypt`, entered at `start`, after a number of rounds. -/
def sessionDecryptAfter (args : SessionArguments) (start : Nat) (tape : Nat → Round OnceEnv) :
    Nat → Retry OnceAttempts :=
  retryAfter args.session ((copyKeyId args.keyID).getD []) (attemptOnce args) args.untouched start tape

/-! ## Attempts that fail -/

section

variable {E σ : Type} {session : Bool} {keyId : List UInt8} {decryptOnce : E → σ → OpenCDMError × σ}

/-- A round makes no attempt, or makes one and succeeds exactly when that does. -/
theorem retryStep_attempt {deadline : Nat} {s s' : Retry σ} {r : Round E}
    (h : retryStep session keyId deadline decryptOnce s r = some s') : s.result = none ∧
    (s'.input = s.input ∧ (s'.result = some errorNone → s.lastResult = errorNone) ∧
        (s'.result = none → s'.lastResult = s.lastResult) ∨
      s'.input = (decryptOnce r.env s.input).2 ∧
        (s'.result = some errorNone ↔ (decryptOnce r.env s.input).1 = errorNone) ∧
        (s'.result = none → s'.lastResult ≠ errorNone)) := by
  have hfail : some errorFail ≠ some errorNone := by decide
  unfold retryStep at h
  split at h
  · cases h
  · rename_i hresult
    refine ⟨hresult, ?_⟩
    dsimp only at h
    split at h
    · cases h
      exact .inr ⟨rfl, Option.some_inj, fun hnone => by cases hnone⟩
    · split at h
      · split at h
        · cases h
          refine .inl ⟨rfl, fun hsome => ?_, fun _ => rfl⟩
          cases hresult.symm.trans hsome
        · split at h
          · split at h
            · rename_i hnone
              cases h
              exact .inr ⟨rfl, iff_of_true (congrArg some hnone) hnone, fun hgoes => by cases hgoes⟩
            · rename_i hne
              split at h
              · cases h
                exact .inr ⟨rfl, iff_of_false (fun hsome => by cases hsome) hne, fun _ => hne⟩
              · cases h
                exact .inr ⟨rfl, Option.some_inj, fun hnone => by cases hnone⟩
          · cases h
            exact .inl ⟨rfl, fun hsome => absurd hsome hfail, fun hnone => by cases hnone⟩
      · cases h
        exact .inl ⟨rfl, Option.some.inj, fun hnone => by cases hnone⟩

variable {input : σ} {start : Nat} {tape : Nat → Round E} {P : σ → Prop}

/-- What a run has made of something that holds of its input and that no attempt that fails undoes. -/
structure Kept (decryptOnce : E → σ → OpenCDMError × σ) (tape : Nat → Round E) (P : σ → Prop) (n : Nat)
    (s : Retry σ) : Prop where
  last : s.result = none → s.lastResult ≠ errorNone
  failed : s.result ≠ some errorNone → P s.input
  succeeded : s.result = some errorNone → ∃ i < n, ∃ x, P x ∧ (decryptOnce (tape i).env x).1 = errorNone ∧
    s.input = (decryptOnce (tape i).env x).2

theorem Kept.succ {n : Nat} {s : Retry σ} (h : Kept decryptOnce tape P n s) : Kept decryptOnce tape P (n + 1) s where
  last := h.last
  failed := h.failed
  succeeded := by
    intro hsome
    obtain ⟨i, hi, hx⟩ := h.succeeded hsome
    exact ⟨i, Nat.lt_succ_of_lt hi, hx⟩

theorem Kept.step {deadline n : Nat} {s s' : Retry σ}
    (hfailed : ∀ i x, P x → (decryptOnce (tape i).env x).1 ≠ errorNone → P (decryptOnce (tape i).env x).2)
    (h : Kept decryptOnce tape P n s) (hstep : retryStep session keyId deadline decryptOnce s (tape n) = some s') :
    Kept decryptOnce tape P (n + 1) s' := by
  obtain ⟨hnone, hround⟩ := retryStep_attempt hstep
  have hkept : P s.input := h.failed (by rw [hnone]; exact fun hsome => by cases hsome)
  rcases hround with ⟨hinput, hsome, hlast⟩ | ⟨hinput, hsome, hlast⟩
  · constructor
    · intro hgoes
      rw [hlast hgoes]
      exact h.last hnone
    · intro _
      rwa [hinput]
    · -- success is not reported behind a failure
      intro hresult
      exact absurd (hsome hresult) (h.last hnone)
  · constructor
    · exact hlast
    · intro hne
      rw [hinput]
      exact hfailed n s.input hkept fun heq => hne (hsome.2 heq)
    · intro hresult
      exact ⟨n, Nat.lt_succ_self n, s.input, hkept, hsome.1 hresult, hinput⟩

/-- Over a run, what no attempt that fails undoes still holds, unless one has succeeded, and held before that one. -/
theorem retryAfter_kept (hinput : P input)
    (hfailed : ∀ i x, P x → (decryptOnce (tape i).env x).1 ≠ errorNone → P (decryptOnce (tape i).env x).2) (n : Nat) :
    Kept decryptOnce tape P n (retryAfter session keyId decryptOnce input start tape n) := by
  induction n with
  | zero =>
    constructor
    · intro _
      show errorFail ≠ errorNone
      decide
    · exact fun _ => hinput
    · exact fun hsome => by cases hsome
  | succ n ih =>
    rw [retryAfter]
    cases hstep : retryStep session keyId (start + kOutputRestrictedRetryTimeout) decryptOnce
        (retryAfter session keyId decryptOnce input start tape n) (tape n) with
    | none => exact ih.succ
    | some s' => exact ih.step hfailed hstep

end

/-! ## An attempt -/

section

variable {session : Bool} {buffer : DataBuffer} {subSample : Option SizedBuffer} {subSampleCount : UInt32}
  {IV keyID : Option GstBuffer} {initWithLast15 : UInt32}

/-- The frame is transformed when it was decrypted, or when there was nothing to decrypt, and only then. -/
def TransformedIfDecrypted (buffer : DataBuffer) (o : SessionOutcome) : Prop :=
  o.data = buffer.bytes ∧ (o.transform.isSome = true ↔ o.result = errorNone)

theorem transformed_fails {e : OpenCDMError} (he : e ≠ errorNone) :
    TransformedIfDecrypted buffer { result := e, data := buffer.bytes } :=
  ⟨rfl, iff_of_false Bool.false_ne_true he⟩

/-- The transform that stands behind a decryption. -/
theorem transform_decrypted {result : OpenCDMError} {t : SvpTransform} :
    (if result = errorNone then some t else none).isSome = true ↔ result = errorNone := by
  split
  · rename_i h
    exact iff_of_true rfl h
  · rename_i h
    exact iff_of_false Bool.false_ne_true h

theorem decryptSubSamplesOnce_transformed (svp : OnceSvp) (decrypt : SessionCall → OpenCDMError × List UInt8)
    (call : List UInt8 → UInt32 → SessionCall) (table : SizedBuffer) :
    TransformedIfDecrypted buffer (decryptSubSamplesOnce svp decrypt call buffer table subSampleCount) := by
  unfold decryptSubSamplesOnce
  dsimp only
  split
  · exact ⟨rfl, transform_decrypted⟩
  · exact ⟨rfl, iff_of_true rfl rfl⟩

theorem once_transformed (svp : OnceSvp) (decrypt : SessionCall → OpenCDMError × List UInt8) :
    TransformedIfDecrypted buffer (gstreamerSessionDecryptOnce svp decrypt session buffer subSample subSampleCount IV
      keyID initWithLast15) := by
  have hinvalid : errorInvalidDecryptBuffer ≠ errorNone := by decide
  unfold gstreamerSessionDecryptOnce
  split
  · exact transformed_fails (by decide)
  · split
    · exact transformed_fails hinvalid
    · split
      · exact ⟨rfl, iff_of_true rfl rfl⟩
      · split
        · exact transformed_fails hinvalid
        · split
          · exact transformed_fails hinvalid
          · dsimp only
            split
            · split
              · exact decryptSubSamplesOnce_transformed ..
              · exact transformed_fails hinvalid
            · exact ⟨rfl, transform_decrypted⟩

end

section

variable {args : SessionArguments} {tape : Nat → Round OnceEnv}

/-- An attempt on the frame as it came does what a first one does. -/
theorem attemptOnce_fresh (env : OnceEnv) {s : OnceAttempts} (h : s.data = args.buffer.bytes) :
    attemptOnce args env s = ((attemptOnce args env args.untouched).1,
      ⟨(attemptOnce args env args.untouched).2.data, s.calls ++ (attemptOnce args env args.untouched).2.calls,
        s.transforms ++ (attemptOnce args env args.untouched).2.transforms⟩) := by
  obtain ⟨data, calls, transforms⟩ := s
  obtain rfl : data = args.buffer.bytes := h
  rfl

/-- A first attempt fails and leaves the frame as it came, or succeeds and has it transformed once. -/
theorem firstAttempt_cases (args : SessionArguments) (env : OnceEnv) :
    let first := attemptOnce args env args.untouched
    first.1 ≠ errorNone ∧ first.2.data = args.buffer.bytes ∧ first.2.transforms = [] ∨
      first.1 = errorNone ∧ ∃ t, first.2.transforms = [t] ∧ first.2.data = env.transformed t args.buffer.bytes := by
  have houtcome : TransformedIfDecrypted args.buffer (args.once env args.buffer.bytes) := once_transformed ..
  obtain ⟨hdata, htransform⟩ := houtcome
  unfold attemptOnce SessionArguments.untouched
  dsimp only
  cases ht : (args.once env args.buffer.bytes).transform with
  | none =>
    rw [ht] at htransform
    exact .inl ⟨fun h => Bool.false_ne_true (htransform.2 h), hdata, rfl⟩
  | some t =>
    rw [ht] at htransform
    exact .inr ⟨htransform.1 rfl, t, rfl, congrArg (env.transformed t) hdata⟩

/-! ## Runs -/

/-- As an attempt finds it: the frame as it came, and the calls so far those of first attempts. -/
structure AsItCame (args : SessionArguments) (tape : Nat → Round OnceEnv) (s : OnceAttempts) : Prop where
  data : s.data = args.buffer.bytes
  transforms : s.transforms = []
  calls : ∀ call ∈ s.calls, ∃ i, call ∈ (attemptOnce args (tape i).env args.untouched).2.calls

theorem AsItCame.untouched : AsItCame args tape args.untouched where
  data := rfl
  transforms := rfl
  calls := by
    intro call hcall
    cases hcall

theorem AsItCame.calls_attempt {s : OnceAttempts} (h : AsItCame args tape s) (i : Nat) :
    ∀ call ∈ (attemptOnce args (tape i).env s).2.calls,
      ∃ i, call ∈ (attemptOnce args (tape i).env args.untouched).2.calls := by
  rw [attemptOnce_fresh (tape i).env h.data]
  intro call hcall
  rcases List.mem_append.1 hcall with hcall | hcall
  · exact h.calls call hcall
  · exact ⟨i, hcall⟩

theorem AsItCame.failed {s : OnceAttempts} (h : AsItCame args tape s) {i : Nat}
    (hfail : (attemptOnce args (tape i).env s).1 ≠ errorNone) :
    AsItCame args tape (attemptOnce args (tape i).env s).2 := by
  have hcalls := h.calls_attempt i
  rw [attemptOnce_fresh (tape i).env h.data] at hfail hcalls ⊢
  rcases firstAttempt_cases args (tape i).env with ⟨-, hdata, htransforms⟩ | ⟨hnone, -⟩
  · constructor
    · exact hdata
    · show s.transforms ++ _ = []
      rw [h.transforms, htransforms]
      rfl
    · exact hcalls
  · exact absurd hnone hfail

theorem sessionDecryptAfter_kept (args : SessionArguments) (start : Nat) (tape : Nat → Round OnceEnv) (n : Nat) :
    Kept (attemptOnce args) tape (AsItCame args tape) n (sessionDecryptAfter args start tape n) :=
  retryAfter_kept .untouched (fun _ _ h hfail => h.failed hfail) n

theorem calls_fresh (args : SessionArguments) (start : Nat) (tape : Nat → Round OnceEnv) (n : Nat) :
    ∀ call ∈ (sessionDecryptAfter args start tape n).input.calls,
      ∃ i, call ∈ (attemptOnce args (tape i).env args.untouched).2.calls := by
  have hkept := sessionDecryptAfter_kept args start tape n
  by_cases hsome : (sessionDecryptAfter args start tape n).result = some errorNone
  · obtain ⟨i, -, x, hx, -, hinput⟩ := hkept.succeeded hsome
    rw [hinput]
    exact hx.calls_attempt i
  · exact (hkept.failed hsome).calls

/-- In every run, whatever the statuses and the attempts: unless it has succeeded, the frame is as it came. When it
has, the frame is as one attempt of the run would have left it without the others, transformed once. -/
theorem attempts_fresh (args : SessionArguments) (start : Nat) (tape : Nat → Round OnceEnv) (n : Nat) :
    let s := sessionDecryptAfter args start tape n
    (s.result ≠ some errorNone → s.input.data = args.buffer.bytes ∧ s.input.transforms = []) ∧
    (s.result = some errorNone → ∃ i < n, ∃ t, (attemptOnce args (tape i).env args.untouched).1 = errorNone ∧
      (attemptOnce args (tape i).env args.untouched).2.transforms = [t] ∧ s.input.transforms = [t] ∧
      s.input.data = (tape i).env.transformed t args.buffer.bytes) := by
  intro s
  have hkept := sessionDecryptAfter_kept args start tape n
  constructor
  · intro hne
    exact ⟨(hkept.failed hne).data, (hkept.failed hne).transforms⟩
  · intro hsome
    obtain ⟨i, hi, x, hx, hnone, hinput⟩ := hkept.succeeded hsome
    rw [attemptOnce_fresh (tape i).env hx.data] at hnone hinput
    rcases firstAttempt_cases args (tape i).env with ⟨hne, -⟩ | ⟨-, t, htransforms, hdata⟩
    · exact absurd hnone hne
    · refine ⟨i, hi, t, hnone, htransforms, ?_, ?_⟩
      · show (sessionDecryptAfter args start tape n).input.transforms = [t]
        rw [hinput, hx.transforms, htransforms]
        rfl
      · show (sessionDecryptAfter args start tape n).input.data = _
        rw [hinput]
        exact hdata

end

/-! ## The calls -/

/-- The SVP library gives an area of the size it is asked for, in a block whose size depends on nothing else. -/
structure Allocates (svp : OnceSvp) (dataBlockSize : UInt32 → UInt32) : Prop where
  area : ∀ size, ((svp.allocate size).getD []).length = size.toNat
  block : svp.dataBlockSize = dataBlockSize

/-- The ranges of the table lie in the frame, and their offsets fit in 32 bits. -/
def InFrame (args : SessionArguments) : Prop :=
  ∀ table ∈ args.subSample, total (entriesRead table.readable args.subSampleCount) ≤ args.buffer.bytes.length ∧
    total (entriesRead table.readable args.subSampleCount) < 4294967296

/-- What is handed over: the encrypted ranges of the frame one behind the other, or without a table the frame. -/
def SessionArguments.call (args : SessionArguments) (dataBlockSize : UInt32 → UInt32) : SessionCall :=
  let call := sessionCall onceScheme args.buffer.info args.IV args.keyID args.initWithLast15
  match args.subSample with
  | some table =>
    let es := entriesRead table.readable args.subSampleCount
    call (Gather.gather (rangesOf es) args.buffer.bytes) (dataBlockSize (totalEncrypted es))
  | none =>
    let mappedDataSize := UInt32.ofNat args.buffer.bytes.length
    call (args.buffer.bytes.take mappedDataSize.toNat) (dataBlockSize mappedDataSize)

section

variable {svp : OnceSvp} {dataBlockSize : UInt32 → UInt32} {decrypt : SessionCall → OpenCDMError × List UInt8}

theorem decryptSubSamplesOnce_call (halloc : Allocates svp dataBlockSize) {call : List UInt8 → UInt32 → SessionCall}
    {buffer : DataBuffer} {table : SizedBuffer} {subSampleCount : UInt32}
    (hfit : total (entriesRead table.readable subSampleCount) ≤ buffer.bytes.length)
    (hsum : total (entriesRead table.readable subSampleCount) < 4294967296) :
    let es := entriesRead table.readable subSampleCount
    ∀ c ∈ (decryptSubSamplesOnce svp decrypt call buffer table subSampleCount).call,
      c = call (Gather.gather (rangesOf es) buffer.bytes) (dataBlockSize (totalEncrypted es)) := by
  intro es c hc
  have hfirst : readVars table.readable subSampleCount.toNat 0 ⟨0, 0⟩ = es := rfl
  have hsecond : readVars table.readable subSampleCount.toNat 0 (lastVars es ⟨0, 0⟩) = es :=
    readVars_again table.readable subSampleCount (unset_zero _)
  have htotal : (totalEncrypted es).toNat = encryptedSum es := by
    rw [totalEncrypted_toNat]
    exact Nat.mod_eq_of_lt (Nat.lt_of_le_of_lt (encryptedSum_le_total es) hsum)
  unfold decryptSubSamplesOnce at hc
  dsimp only at hc
  rw [hfirst, hsecond, loop_gathers hfit hsum ((halloc.area _).trans htotal), halloc.block] at hc
  split at hc
  · exact (Option.some.inj hc).symm
  · cases hc

theorem once_call (halloc : Allocates svp dataBlockSize) {args : SessionArguments} (hin : InFrame args) :
    ∀ c ∈ (gstreamerSessionDecryptOnce svp decrypt args.session args.buffer args.subSample args.subSampleCount args.IV
      args.keyID args.initWithLast15).call, c = args.call dataBlockSize := by
  intro c hc
  unfold gstreamerSessionDecryptOnce at hc
  unfold SessionArguments.call
  split at hc
  · cases hc
  · split at hc
    · cases hc
    · split at hc
      · cases hc
      · split at hc
        · cases hc
        · split at hc
          · cases hc
          · dsimp only at hc
            cases htable : args.subSample with
            | some table =>
              rw [htable] at hc
              dsimp only at hc
              split at hc
              · obtain ⟨hfit, hsum⟩ := hin table htable
                exact decryptSubSamplesOnce_call halloc hfit hsum c hc
              · cases hc
            | none =>
              rw [htable] at hc
              -- the copy fills the area
              have hfull : Gather.splice ((svp.allocate (UInt32.ofNat args.buffer.bytes.length)).getD []) 0
                  (args.buffer.bytes.take (UInt32.ofNat args.buffer.bytes.length).toNat) =
                  args.buffer.bytes.take (UInt32.ofNat args.buffer.bytes.length).toNat := by
                refine Gather.splice_whole ?_
                rw [halloc.area, List.length_take, Nat.min_eq_left]
                rw [UInt32.toNat_ofNat']
                exact Nat.mod_le _ _
              dsimp only at hc ⊢
              rw [hfull, halloc.block] at hc
              exact (Option.some.inj hc).symm

end

/-- In every run, whatever the statuses and the attempts, all calls of `opencdm_session_decrypt` are the same one. -/
theorem calls_one (args : SessionArguments) (hin : InFrame args) {dataBlockSize : UInt32 → UInt32} (start : Nat)
    {tape : Nat → Round OnceEnv} (halloc : ∀ i, Allocates (tape i).env.toOnceSvp dataBlockSize) (n : Nat) :
    ∀ call ∈ (sessionDecryptAfter args start tape n).input.calls, call = args.call dataBlockSize := by
  intro call hcall
  obtain ⟨i, hfirst⟩ := calls_fresh args start tape n call hcall
  exact once_call (halloc i) hin call (Option.mem_toList.1 hfirst)

/-- A first attempt that fails because the output is restricted meanwhile, and then one that succeeds. -/
def onceTape (n : Nat) : Round OnceEnv where
  now := n * kOutputRestrictedRetryInterval
  before := .usable
  env := { exampleSvp with
    transformed := fun _ data => data
    decrypt := fun call => (if n = 0 then errorFail else errorNone, call.data) }
  after := .outputRestricted

/-- Two encrypted bytes behind a clear one. -/
def onceArguments : SessionArguments :=
  ⟨true, exampleFrame [10, 20, 30, 40], some (exampleTable [0, 1, 0, 0, 0, 2]), 1, some exampleIV, some exampleIV, 0⟩

theorem calls_one_twice : (sessionDecryptAfter onceArguments 0 onceTape 2).input.calls.map SessionCall.data =
      [[20, 30], [20, 30]] ∧
    ∀ call ∈ (sessionDecryptAfter onceArguments 0 onceTape 2).input.calls, call = onceArguments.call id := by
  have hin : InFrame onceArguments := by
    intro table htable
    cases htable
    decide +kernel
  have halloc : ∀ i, Allocates (onceTape i).env.toOnceSvp id := fun _ => ⟨fun _ => List.length_replicate, rfl⟩
  exact ⟨by decide +kernel, calls_one onceArguments hin 0 halloc 2⟩

end Ocdm.Adapter
