/-
`opencdm_system_get_drm_time` (open_cdm_ext.cpp) with `GetDrmSystemTime` of the client's accessor (open_cdm_impl.h) and
of the server's (FrameworkRPC.cpp). Behind the first layer there are no errors: each one has a time of its own for a
failure, and the server casts the CDM's time to a result. So a time that comes without an error is the one the CDM
reports exactly when a CDM is asked, and its time fits the cast (`drmTime_exact_iff`).
-/
import Ocdm.Client.Lengths
import Ocdm.Server.KeySystems

namespace Ocdm.Client

namespace DrmTime

open Adapter (OpenCDMError errorNone)
open Lengths (errorInvalidArg ocdmSFalse)
open Server (OCDMImplementation Text)

/-! ## The layers -/

/-- The server's accessor: what is registered, and the time that the `IMediaKeysExt` of a factory's instance reports;
nothing for an instance without one. -/
structure AccessorOCDM where
  parent : OCDMImplementation
  drmSystemTime : Nat → Option UInt64

/-- The time the CDM of a key system reports. -/
def AccessorOCDM.reported (server : AccessorOCDM) (keySystem : Text) : Option UInt64 :=
  (server.parent.keySystem keySystem).bind server.drmSystemTime

/-- `GetDrmSystemTime` of the server. `Exchange::OCDM_RESULT`, which the time is cast to, has 32 bits. -/
def AccessorOCDM.getDrmSystemTime (server : AccessorOCDM) (keySystem : Text) : UInt64 :=
  match server.reported keySystem with
  | some time => time.toUInt32.toUInt64
  | none => ocdmSFalse.toUInt64

/-- The server's accessor behind its proxy. When the channel is lost, the proxy has a value of its own. -/
inductive Remote where
  | connected (server : AccessorOCDM)
  | lost (value : UInt64)

def Remote.getDrmSystemTime (remote : Remote) (keySystem : Text) : UInt64 :=
  match remote with
  | .connected server => server.getDrmSystemTime keySystem
  | .lost value => value

/-- The client's accessor, with `_remote`. -/
structure OpenCDMAccessor where
  remote : Option Remote

/-- `GetDrmSystemTime` of the client. -/
def OpenCDMAccessor.getDrmSystemTime (accessor : OpenCDMAccessor) (keySystem : Text) : UInt64 :=
  match accessor.remote with
  | none => 0
  | some remote => remote.getDrmSystemTime keySystem

/-- `opencdm_system_get_drm_time`: the result, and what `time` points to afterwards. -/
def systemGetDrmTime (accessor : Option OpenCDMAccessor) (system : Option Text) (time : Option UInt64) :
    OpenCDMError × Option UInt64 :=
  match accessor with
  | none => (Lengths.errorInvalidAccessor, time)
  | some accessor =>
    match system, time with
    | some keySystem, some _ => (errorNone, some (accessor.getDrmSystemTime keySystem))
    | _, _ => (errorInvalidArg, time)

/-! ## What the time has to be -/

/-- The time that the CDM of a key system reports, as far as the accessor is connected to it. -/
def OpenCDMAccessor.reported (accessor : OpenCDMAccessor) (keySystem : Text) : Option UInt64 :=
  match accessor.remote with
  | some (.connected server) => server.reported keySystem
  | _ => none

/-- A time that comes without an error is the one reported by the CDM. -/
def Exact (accessor : Option OpenCDMAccessor) (system : Option Text) (r : OpenCDMError × Option UInt64) : Prop :=
  r.1 = errorNone → ∃ a ∈ accessor, ∃ keySystem ∈ system, ∃ time, a.reported keySystem = some time ∧ r.2 = some time

/-- The cast keeps what fits it. -/
theorem cast_iff (time : UInt64) : time.toUInt32.toUInt64 = time ↔ time.toNat < UInt32.size := by
  rw [← UInt64.toNat_inj, UInt32.toNat_toUInt64, UInt64.toNat_toUInt32]
  exact Nat.mod_eq_iff_lt (by decide)

/-- A CDM that is asked has its time cast. -/
theorem OpenCDMAccessor.getDrmSystemTime_of_reported {accessor : OpenCDMAccessor} {keySystem : Text} {time : UInt64}
    (h : accessor.reported keySystem = some time) :
    accessor.getDrmSystemTime keySystem = time.toUInt32.toUInt64 := by
  unfold OpenCDMAccessor.reported at h
  split at h
  · rename_i server hremote
    rw [OpenCDMAccessor.getDrmSystemTime, hremote]
    show server.getDrmSystemTime keySystem = _
    rw [AccessorOCDM.getDrmSystemTime, h]
  · cases h

/-- For every connection, every key system and every time: without an error the time is the one the CDM reports exactly
when one reports a time that fits 32 bits. -/
theorem drmTime_exact_iff (accessor : Option OpenCDMAccessor) (system : Option Text) (time : Option UInt64) :
    Exact accessor system (systemGetDrmTime accessor system time) ↔
      accessor = none ∨ system = none ∨ time = none ∨
        ∃ a ∈ accessor, ∃ keySystem ∈ system, ∃ reported, a.reported keySystem = some reported ∧
          reported.toNat < UInt32.size := by
  have haccessor : Lengths.errorInvalidAccessor ≠ errorNone := by decide
  have harg : errorInvalidArg ≠ errorNone := by decide
  cases accessor with
  | none => exact iff_of_true (fun h => absurd h haccessor) (.inl rfl)
  | some a =>
    cases system with
    | none => exact iff_of_true (fun h => absurd h harg) (.inr (.inl rfl))
    | some keySystem =>
      cases time with
      | none => exact iff_of_true (fun h => absurd h harg) (.inr (.inr (.inl rfl)))
      | some before =>
        unfold Exact systemGetDrmTime
        simp only [forall_const, Option.mem_some, exists_eq_left', Option.some.injEq, reduceCtorEq, false_or]
        constructor
        · rintro ⟨reported, hreported, heq⟩
          rw [OpenCDMAccessor.getDrmSystemTime_of_reported hreported, cast_iff] at heq
          exact ⟨reported, hreported, heq⟩
        · rintro ⟨reported, hreported, hfits⟩
          refine ⟨reported, hreported, ?_⟩
          rw [OpenCDMAccessor.getDrmSystemTime_of_reported hreported, cast_iff]
          exact hfits

/-! ## What goes wrong -/

/-- One key system, with a CDM that reports a time. -/
def clock (time : UInt64) : OpenCDMAccessor :=
  ⟨some (.connected ⟨Server.initializeAsync (fun _ => "a".toList) [1] false [Server.entryOf "a" ["d"]],
    fun _ => some time⟩)⟩

/-- A time of 2 to the 32 comes as 0, and for a key system nobody serves the result of the server comes as a time. -/
theorem drmTime_not_exact :
    ¬ Exact (some (clock 4294967296)) (some "d".toList)
        (systemGetDrmTime (some (clock 4294967296)) (some "d".toList) (some 0)) ∧
      ¬ Exact (some (clock 5)) (some "e".toList) (systemGetDrmTime (some (clock 5)) (some "e".toList) (some 0)) := by
  constructor
  · intro h
    obtain ⟨_, ⟨⟩, _, ⟨⟩, time, hreported, hstored⟩ := h rfl
    rw [show (clock 4294967296).reported "d".toList = some 4294967296 by decide +kernel] at hreported
    cases hreported
    exact absurd hstored (by decide +kernel)
  · intro h
    obtain ⟨_, ⟨⟩, _, ⟨⟩, time, hreported, -⟩ := h rfl
    rw [show (clock 5).reported "e".toList = none by decide +kernel] at hreported
    cases hreported

end DrmTime

end Ocdm.Client
