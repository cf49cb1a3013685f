/-
`opencdm_system_supported_robustness` (open_cdm.cpp) with `GetSupportedRobustness` of the client's accessor
(open_cdm_impl.h) and of the server's (FrameworkRPC.cpp). The server hands the levels of the CDM on as an iterator, and
the client counts them in sixteen bits and copies each as far as its first zero. So an answer without an error is the
CDM's exactly when there are not too many levels and none has a zero in it, and the iterator is given up in any case
(`robustness_exact_iff`).
-/
import Ocdm.Client.Lengths
import Ocdm.Lib.Pairing
import Ocdm.Server.KeySystems

namespace Ocdm.Client

namespace Robustness

open Adapter (OpenCDMError errorNone)
open Lengths (errorInvalidArg ocdmInvalidAccessor)
open Server (OCDMImplementation Text)

def errorInterfaceNotImplemented : UInt32 := 3

/-! ## The layers -/

/-- The characters of a robustness level. -/
abbrev Level := List UInt8

/-- The server's accessor: what is registered, and what the `IRobustnessExtension` of a factory's instance answers;
nothing for an instance without one. -/
structure AccessorOCDM where
  parent : OCDMImplementation
  supportedRobustness : Nat → Option (UInt32 × List Level)

/-- What the CDM of a key system answers. -/
def AccessorOCDM.reported (server : AccessorOCDM) (keySystem : Text) : Option (UInt32 × List Level) :=
  (server.parent.keySystem keySystem).bind server.supportedRobustness

/-- `GetSupportedRobustness` of the server: the result, and the iterator if one is created. -/
def AccessorOCDM.getSupportedRobustness (server : AccessorOCDM) (keySystem : Text) : UInt32 × Option (List Level) :=
  match server.reported keySystem with
  | some (result, levels) => (result, if result = errorNone ∧ levels ≠ [] then some levels else none)
  | none => (errorInterfaceNotImplemented, none)

/-- The server's accessor behind its proxy. When the channel is lost, the proxy has a result of its own. -/
inductive Remote where
  | connected (server : AccessorOCDM)
  | lost (result : UInt32)

/-- The client's accessor, with `_remote`. -/
structure OpenCDMAccessor where
  remote : Option Remote

/-- `GetSupportedRobustness` of the client. -/
def OpenCDMAccessor.getSupportedRobustness (accessor : OpenCDMAccessor) (keySystem : Text) :
    UInt32 × Option (List Level) :=
  match accessor.remote with
  | none => (ocdmInvalidAccessor, none)
  | some (.connected server) => server.getSupportedRobustness keySystem
  | some (.lost result) => (result, none)

/-- `strdup` of what `c_str` points to. -/
def duplicate (level : Level) : Level := level.takeWhile (· != 0)

/-- What a call leaves: its result, what `robustness` and `count` point to, and what was done with the iterator. -/
structure Supported where
  result : OpenCDMError
  robustness : Option (Option (List Level))
  count : Option UInt16
  iterator : List (Pairing.Op Unit)
deriving DecidableEq, Repr

/-- The loop over the iterator. -/
def copied (result : OpenCDMError) (levels : List Level) : Supported :=
  let size := UInt16.ofNat levels.length
  { result := result
    robustness := some (if size > 0 then some ((levels.take size.toNat).map duplicate) else none)
    count := some (if size > 0 then size else 0)
    iterator := [.acquire (), .release ()] }

/-- `opencdm_system_supported_robustness` -/
def systemSupportedRobustness (accessor : Option OpenCDMAccessor) (system : Option Text)
    (robustness : Option (Option (List Level))) (count : Option UInt16) : Supported :=
  match system, robustness, count with
  | some keySystem, some _, some _ =>
    match accessor with
    | none => ⟨Lengths.errorInvalidAccessor, some none, some 0, []⟩
    | some accessor =>
      match accessor.getSupportedRobustness keySystem with
      | (result, none) => ⟨result, some none, some 0, []⟩
      | (result, some levels) =>
        if result = errorNone then copied result levels else ⟨result, some none, some 0, [.acquire ()]⟩
  | _, _, _ => ⟨errorInvalidArg, robustness, count, []⟩

/-! ## What comes back -/

/-- What the CDM of a key system answers, as far as the accessor is connected to it. -/
def OpenCDMAccessor.reported (accessor : OpenCDMAccessor) (keySystem : Text) : Option (UInt32 × List Level) :=
  match accessor.remote with
  | some (.connected server) => server.reported keySystem
  | _ => none

/-- The levels as they are documented to come: all of them and their number, or no array and no number. -/
def Tells (levels : List Level) (r : Supported) : Prop :=
  r.robustness = some (if levels = [] then none else some levels) ∧ ∃ count, r.count = some count ∧
    count.toNat = levels.length

/-- Levels that come without an error are those of the CDM. -/
def Exact (accessor : Option OpenCDMAccessor) (system : Option Text) (r : Supported) : Prop :=
  r.result = errorNone → ∃ a ∈ accessor, ∃ keySystem ∈ system, ∃ levels,
    a.reported keySystem = some (errorNone, levels) ∧ Tells levels r

/-- Not more than `count` can say, and no zero in any of them. -/
structure Tellable (levels : List Level) : Prop where
  count : levels.length < UInt16.size
  zero : ∀ level ∈ levels, 0 ∉ level

theorem duplicate_eq_iff {level : Level} : duplicate level = level ↔ 0 ∉ level := by
  unfold duplicate
  rw [List.takeWhile_eq_self_iff]
  constructor
  · intro h hzero
    exact absurd (h 0 hzero) (by decide)
  · intro h x hx
    exact bne_iff_ne.2 fun hx0 => h (hx0 ▸ hx)

theorem map_duplicate_eq_iff {levels : List Level} :
    levels.map duplicate = levels ↔ ∀ level ∈ levels, 0 ∉ level :=
  calc levels.map duplicate = levels
      ↔ levels.map duplicate = levels.map id := by rw [List.map_id]
    _ ↔ ∀ level ∈ levels, duplicate level = level := List.map_inj_left
    _ ↔ ∀ level ∈ levels, 0 ∉ level := forall₂_congr fun _ _ => duplicate_eq_iff

/-- The loop over the iterator tells the levels exactly when it can. -/
theorem tells_copied_iff {levels : List Level} (hne : levels ≠ []) (result : OpenCDMError) :
    Tells levels (copied result levels) ↔ Tellable levels := by
  have hpos : 0 < levels.length := List.length_pos_iff.2 hne
  have hsize : (UInt16.ofNat levels.length).toNat = levels.length % UInt16.size := UInt16.toNat_ofNat'
  have hgt : UInt16.ofNat levels.length > 0 ↔ 0 < levels.length % UInt16.size := by
    rw [gt_iff_lt, UInt16.lt_iff_toNat_lt, hsize]
    rfl
  unfold Tells copied
  dsimp only
  rw [if_neg hne]
  constructor
  · rintro ⟨hlevels, count, hcount, hlength⟩
    obtain rfl := Option.some.inj hcount
    split at hlength
    · rename_i hsome
      rw [hsize] at hlength
      rw [if_pos hsome, hsize, hlength, List.take_length] at hlevels
      exact ⟨(Nat.mod_eq_iff_lt (by decide)).1 hlength,
        map_duplicate_eq_iff.1 (Option.some.inj (Option.some.inj hlevels))⟩
    · -- a count of none for some levels
      exact absurd hlength (Nat.ne_of_lt hpos)
  · rintro ⟨hcount, hzero⟩
    have hmod : levels.length % UInt16.size = levels.length := Nat.mod_eq_of_lt hcount
    have hsome : UInt16.ofNat levels.length > 0 := by
      rw [hgt, hmod]
      exact hpos
    rw [if_pos hsome, if_pos hsome, hsize, hmod, List.take_length, map_duplicate_eq_iff.2 hzero]
    exact ⟨rfl, _, rfl, hsize.trans hmod⟩

example : (copied errorNone [[0x61, 0, 0x62], [0x63]]).robustness = some (some [[0x61], [0x63]]) := by decide +kernel

/-- The client's accessor answers with the levels of the CDM, or without any. -/
theorem answer_cases (a : OpenCDMAccessor) (keySystem : Text) :
    (∃ levels, a.reported keySystem = some (errorNone, levels) ∧
      a.getSupportedRobustness keySystem = (errorNone, if levels = [] then none else some levels)) ∨
    (∀ levels, a.reported keySystem ≠ some (errorNone, levels)) ∧
      ∃ result, a.getSupportedRobustness keySystem = (result, none) := by
  unfold OpenCDMAccessor.reported OpenCDMAccessor.getSupportedRobustness
  cases a.remote with
  | none => exact .inr ⟨(fun _ h => by cases h), _, rfl⟩
  | some remote =>
    cases remote with
    | lost result => exact .inr ⟨(fun _ h => by cases h), _, rfl⟩
    | connected server =>
      dsimp only
      unfold AccessorOCDM.getSupportedRobustness
      cases hreported : server.reported keySystem with
      | none => exact .inr ⟨(fun _ h => by cases h), _, rfl⟩
      | some answer =>
        obtain ⟨result, levels⟩ := answer
        dsimp only
        by_cases hnone : result = errorNone
        · subst hnone
          refine .inl ⟨levels, rfl, ?_⟩
          by_cases hempty : levels = []
          · rw [if_pos hempty, if_neg fun h => h.2 hempty]
          · rw [if_neg hempty, if_pos ⟨rfl, hempty⟩]
        · refine .inr ⟨fun _ h => hnone (congrArg Prod.fst (Option.some.inj h)), result, ?_⟩
          rw [if_neg fun h => hnone h.1]

/-- For every connection, every key system and all levels: the iterator is released when there is one. Without an error
the levels that come are those of the CDM exactly when the CDM has answered, with levels that can be told. -/
theorem robustness_exact_iff (accessor : Option OpenCDMAccessor) (system : Option Text)
    (robustness : Option (Option (List Level))) (count : Option UInt16) :
    let r := systemSupportedRobustness accessor system robustness count
    Pairing.Matched r.iterator ∧
      (Exact accessor system r ↔ ∀ a ∈ accessor, ∀ keySystem ∈ system, robustness ≠ none → count ≠ none →
        (a.getSupportedRobustness keySystem).1 = errorNone →
          ∃ levels, a.reported keySystem = some (errorNone, levels) ∧ Tellable levels) := by
  have haccessor : Lengths.errorInvalidAccessor ≠ errorNone := by decide
  have harg : errorInvalidArg ≠ errorNone := by decide
  intro r
  cases system with
  | none => exact ⟨.nil, iff_of_true (fun h => absurd h harg) fun _ _ _ h => by cases h⟩
  | some keySystem =>
    cases robustness with
    | none => exact ⟨.nil, iff_of_true (fun h => absurd h harg) fun _ _ _ _ h => absurd rfl h⟩
    | some before =>
      cases count with
      | none => exact ⟨.nil, iff_of_true (fun h => absurd h harg) fun _ _ _ _ _ h => absurd rfl h⟩
      | some _ =>
        cases accessor with
        | none => exact ⟨.nil, iff_of_true (fun h => absurd h haccessor) fun _ h => by cases h⟩
        | some a =>
          unfold Exact
          simp only [Option.mem_some, exists_eq_left', forall_eq', ne_eq, reduceCtorEq, not_false_eq_true,
            forall_const]
          have hr : r = match a.getSupportedRobustness keySystem with
            | (result, none) => ⟨result, some none, some 0, []⟩
            | (result, some levels) =>
              if result = errorNone then copied result levels else ⟨result, some none, some 0, [.acquire ()]⟩ := rfl
          rcases answer_cases a keySystem with ⟨levels, hreported, hanswer⟩ | ⟨hnone, result, hanswer⟩
          · rw [hanswer] at hr ⊢
            rw [hreported]
            simp only [Option.some.injEq, Prod.mk.injEq, true_and, exists_eq_left', forall_const]
            by_cases hempty : levels = []
            · subst hempty
              rw [hr]
              exact ⟨.nil, iff_of_true (fun _ => ⟨rfl, 0, rfl, rfl⟩) ⟨by decide, fun _ h => by cases h⟩⟩
            · rw [if_neg hempty] at hr
              replace hr : r = copied errorNone levels := hr
              rw [hr]
              exact ⟨Pairing.matched_self [()], (forall_prop_of_true rfl).trans (tells_copied_iff hempty _)⟩
          · -- without an answer of the CDM there are no levels, on either side
            have hneither (p : List Level → Prop) :
                ¬ ∃ levels, a.reported keySystem = some (errorNone, levels) ∧ p levels := by
              rintro ⟨levels, hreported, -⟩
              exact hnone levels hreported
            rw [hanswer] at hr ⊢
            rw [hr]
            refine ⟨.nil, imp_congr_right fun _ => ?_⟩
            exact iff_of_false (hneither _) (hneither _)

end Robustness

end Ocdm.Client
