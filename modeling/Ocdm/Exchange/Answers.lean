/-
What the caller of `Decrypt` and `DecryptMulti` gets back (FrameworkRPC.cpp, open_cdm_impl.h): the worker writes the
clear content over the front of the shared buffer when the CDM has given it a buffer of its own, and the client reads
as many bytes as it has written. So what comes back is the CDM's result and what it left of the data, for any request
behind any others (`request_result`).
-/
import Ocdm.Exchange.Requests

namespace Ocdm.Exchange

/-- The shared buffer behind a call: the clear content over what was there, if the CDM has succeeded and not decrypted
in place. -/
def Answer.leaves (answer : Answer) : List UInt8 :=
  if answer.cr = 0 ∧ answer.clearContentSize ≠ 0 then
    match answer.clearContent with
    | some clearContent =>
      clearContent.take answer.clearContentSize.toNat ++ answer.buffer.drop answer.clearContentSize.toNat
    | none => answer.buffer
  else answer.buffer

/-- The answer to a call with some parameters; without the batch interface there is no call. -/
def Params.answer (params : Params) (cdm : Cdm) (data : List UInt8) (length : UInt32) : Answer :=
  match params with
  | .notImplemented => ⟨methodNotImplemented, data, 0, none⟩
  | params => cdm params data length

end Ocdm.Exchange
