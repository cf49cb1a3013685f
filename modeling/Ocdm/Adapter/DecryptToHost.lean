/-
The value of `decryptToHost` in the SVP context, which a session caches (`NeedsDecryptToHostUpdate`, open_cdm_impl.h)
and the two decrypt functions of the RDK adapter write (open_cdm_adapter.cpp). The cache is changed before the hook
has accepted the value, so a refused write is not made again: a skipped update is right exactly as long as every write
has been accepted, or was of the value there already (`skips_right_iff`).
-/
import Ocdm.Adapter.MultiDecrypt
import Ocdm.Lib.Trace

namespace Ocdm.Adapter

open Exchange (MediaProperties MediaType)

/-! ## Calls on a session -/

/-- A decrypt call on a session, with the surroundings it meets. -/
inductive HostCall where
  | once (svp : Svp) (buffer : GstBuffer) (info : Option ProtectionMeta) (caps : Option ParsedCaps)
  | multiOnce (svp : MultiSvp) (buffers : Option (List (Option Frame))) (caps : Option (Option ParsedCaps))

def GstEvent.write? : GstEvent → Option (Bool × Bool)
  | .setDecryptToHost value ok => some (value, ok)
  | _ => none

def MultiEvent.write? : MultiEvent → Option (Bool × Bool)
  | .setDecryptToHost value ok => some (value, ok)
  | _ => none

/-- The session a call leaves, and the writes of `decryptToHost` it makes, each with the answer of the hook. -/
def HostCall.run (session : Session) : HostCall → Option Session × List (Bool × Bool)
  | .once svp buffer info caps =>
    let o := decryptBufferOnce svp (some session) buffer info caps
    (o.session, o.events.filterMap GstEvent.write?)
  | .multiOnce svp buffers caps =>
    let o := decryptBufferMultiOnce svp (some session) buffers caps
    (o.session, o.events.filterMap MultiEvent.write?)

/-- The hook a call meets. -/
def HostCall.setValue : HostCall → Option (Bool → Bool)
  | .once svp _ _ _ => svp.setValue
  | .multiOnce svp _ _ => svp.setValue

/-- The value for which a call asks `NeedsDecryptToHostUpdate`, if it comes to that. -/
def HostCall.asked : HostCall → Option Bool
  | .once svp buffer info caps =>
    if svp.setValue.isSome ∧ buffer.mappable then
      info.bind fun info => (mapInputs buffer info).toOption.map fun _ =>
        (caps.getD (.none svp.garbage)).secureMemoryDisabled
    else none
  | .multiOnce svp buffers caps =>
    if svp.setValue.isSome then
      (entriesOf buffers).bind fun frames =>
        if (extractProtectionMetaMulti frames).1 = errorNone then some (mediaInfoMulti caps).2.1 else none
    else none

/-- A session and the value in its SVP context, if there is one. -/
structure HostState where
  session : Session
  context : Option Bool

/-- A write changes the context if the hook accepts it. -/
def written (context : Option Bool) (write : Bool × Bool) : Option Bool := if write.2 then some write.1 else context

/-- A call. -/
def hostStep (s : HostState) (c : HostCall) : Option HostState :=
  (c.run s.session).1.map fun session => ⟨session, (c.run s.session).2.foldl written s.context⟩

/-- A new session, whatever its context holds. -/
def hostStart (context : Option Bool) : HostState := ⟨⟨false, false⟩, context⟩

/-- If the next call skips the update, the value in the context is the one it asks for. -/
def SkipsRight (s : HostState) : Prop :=
  ∀ (c : HostCall) (value : Bool), c.asked = some value → (s.session.needsDecryptToHostUpdate value).1 = false →
    s.context = some value

/-- The write a call has to make is accepted, or of the value there already. -/
def WriteAccepted (s : HostState) (c : HostCall) : Prop :=
  ∀ (value : Bool) (setValue : Bool → Bool), c.asked = some value → c.setValue = some setValue →
    (s.session.needsDecryptToHostUpdate value).1 = true → setValue value = true ∨ s.context = some value

/-! ## The writes of a call -/

/-- Mapping writes nothing. -/
theorem OnlyMaps.writes {events : List GstEvent} (h : OnlyMaps events) : events.filterMap GstEvent.write? = [] := by
  refine List.filterMap_eq_nil_iff.2 fun e he => ?_
  have hmaps := h e he
  cases e <;> first | rfl | cases hmaps

theorem OnlyMapsMulti.writes {events : List MultiEvent} (h : OnlyMapsMulti events) :
    events.filterMap MultiEvent.write? = [] := by
  refine List.filterMap_eq_nil_iff.2 fun e he => ?_
  have hmaps := h e he
  cases e <;> first | rfl | cases hmaps

theorem callDecrypt_writes (svp : Svp) (caps : ParsedCaps) (call : DecryptCall) :
    (callDecrypt svp caps call).2.filterMap GstEvent.write? = [] := by
  unfold callDecrypt
  dsimp only
  split
  · rfl
  · split <;> rfl

theorem decryptMapped_writes (svp : Svp) (buffer : GstBuffer) (inputs : Inputs) (caps : ParsedCaps) :
    (decryptMapped svp buffer inputs caps).2.filterMap GstEvent.write? = [] := by
  have hunmap : ∀ bs : List (Option GstBuffer), (bs.map unmapOf).filterMap GstEvent.write? = [] := by
    intro bs
    rw [List.filterMap_map]
    exact List.filterMap_eq_nil_iff.2 fun b _ => rfl
  unfold decryptMapped
  split
  · rfl
  · dsimp only
    split
    · rw [List.filterMap_append, List.filterMap_append, callDecrypt_writes, List.filterMap_cons, hunmap]
      split <;> rfl
    · rw [List.filterMap_cons, List.filterMap_cons, hunmap]
      rfl

theorem decryptPrepared_writes (svp : MultiSvp) (p : Prepared) (stream : MediaProperties) (disabled : Bool) :
    (decryptPrepared svp p stream disabled).2.filterMap MultiEvent.write? = [] := by
  have hcall : ∀ call, (callDecryptV3 svp disabled call).2.filterMap MultiEvent.write? = [] := by
    intro call
    unfold callDecryptV3
    dsimp only
    split
    · rfl
    · split <;> rfl
  unfold decryptPrepared
  split
  · dsimp only
    split
    · rw [List.filterMap_append, hcall]
      rfl
    · exact hcall _
  · rfl

theorem transformClear_writes (buffers : List GstBuffer) (infos : List ProtectionMetaInfo) (mediaType : MediaType) :
    (transformClear buffers infos mediaType).filterMap MultiEvent.write? = [] := by
  refine List.filterMap_eq_nil_iff.2 fun e he => ?_
  obtain ⟨entry, -, rfl⟩ := List.mem_map.1 he
  rfl

/-- What a call leaves that asks for a value, and what it writes. -/
def Updates (session : Session) (value : Bool) (setValue : Bool → Bool) : Option Session × List (Bool × Bool) :=
  (some (session.needsDecryptToHostUpdate value).2,
    if (session.needsDecryptToHostUpdate value).1 then [(value, setValue value)] else [])

theorem updateDecryptToHost_writes {svp : Svp} {setValue : Bool → Bool} (hset : svp.setValue = some setValue)
    (session : Session) (caps : ParsedCaps) :
    (some (updateDecryptToHost svp session caps).1,
      (updateDecryptToHost svp session caps).2.filterMap GstEvent.write?) =
      Updates session caps.secureMemoryDisabled setValue := by
  rw [updateDecryptToHost, hset, Updates]
  dsimp only
  split <;> rfl

theorem updateDecryptToHostMulti_writes {svp : MultiSvp} {setValue : Bool → Bool} (hset : svp.setValue = some setValue)
    (session : Session) (disabled : Bool) :
    (some (updateDecryptToHostMulti svp session disabled).1,
      (updateDecryptToHostMulti svp session disabled).2.filterMap MultiEvent.write?) =
      Updates session disabled setValue := by
  rw [updateDecryptToHostMulti, hset, Updates]
  dsimp only
  split <;> rfl

theorem once_run (svp : Svp) (buffer : GstBuffer) (info : Option ProtectionMeta) (caps : Option ParsedCaps)
    (session : Session) :
    ((HostCall.once svp buffer info caps).asked = none →
      (HostCall.once svp buffer info caps).run session = (some session, [])) ∧
    ∀ value, (HostCall.once svp buffer info caps).asked = some value → ∃ setValue, svp.setValue = some setValue ∧
      (HostCall.once svp buffer info caps).run session = Updates session value setValue := by
  unfold HostCall.asked HostCall.run decryptBufferOnce
  dsimp only
  by_cases hmappable : buffer.mappable = true
  · simp only [hmappable, and_true, if_true]
    cases info with
    | none =>
      refine ⟨fun _ => rfl, fun value h => ?_⟩
      split at h <;> cases h
    | some info =>
      dsimp only [Option.bind_some]
      cases hmap : mapInputs buffer info with
      | error r =>
        refine ⟨fun _ => Prod.ext rfl (mapInputs_error hmap).writes, fun value h => ?_⟩
        split at h <;> cases h
      | ok inputs =>
        have hinputs := (mapInputs_ok hmap).2.2.writes
        have hclear : [GstEvent.transformFromClear buffer.id (svpMediaType (caps.getD (.none svp.garbage))),
            .unmap (some buffer.id)].filterMap GstEvent.write? = [] := rfl
        cases hset : svp.setValue with
        | none =>
          refine ⟨fun _ => ?_, fun value h => by cases h⟩
          rw [updateDecryptToHost, hset]
          dsimp only
          split
          · simp only [List.filterMap_append, hinputs, hclear, List.append_nil]
          · simp only [List.filterMap_append, hinputs, decryptMapped_writes, List.append_nil]
        | some setValue =>
          refine ⟨fun h => (by cases h), fun value h => ⟨setValue, rfl, ?_⟩⟩
          cases h
          have hupdate := updateDecryptToHost_writes hset session (caps.getD (.none svp.garbage))
          generalize updateDecryptToHost svp session (caps.getD (.none svp.garbage)) = r at hupdate ⊢
          obtain ⟨session', update⟩ := r
          rw [← hupdate]
          dsimp only
          split
          · simp only [List.filterMap_append, hinputs, hclear, List.append_nil, List.nil_append]
          · simp only [List.filterMap_append, hinputs, decryptMapped_writes, List.append_nil, List.nil_append]
  · rw [if_neg hmappable, if_neg fun h => hmappable h.2]
    exact ⟨fun _ => rfl, fun value h => by cases h⟩

theorem multiOnce_run (svp : MultiSvp) (buffers : Option (List (Option Frame))) (caps : Option (Option ParsedCaps))
    (session : Session) :
    ((HostCall.multiOnce svp buffers caps).asked = none →
      (HostCall.multiOnce svp buffers caps).run session = (some session, [])) ∧
    ∀ value, (HostCall.multiOnce svp buffers caps).asked = some value → ∃ setValue, svp.setValue = some setValue ∧
      (HostCall.multiOnce svp buffers caps).run session = Updates session value setValue := by
  have hclear : ∀ (r : OpenCDMError) bs infos mediaType,
      (if r = errorNone then transformClear bs infos mediaType else []).filterMap MultiEvent.write? = [] := by
    intro r bs infos mediaType
    split
    · exact transformClear_writes bs infos mediaType
    · rfl
  have hdecrypt : ∀ (p : Prepared) stream disabled, (if p.totalBytesToDecrypt > 0 then
      decryptPrepared svp p stream disabled else (errorNone, [])).2.filterMap MultiEvent.write? = [] := by
    intro p stream disabled
    split
    · exact decryptPrepared_writes svp p stream disabled
    · rfl
  have hunmap := fun infos => (unmapEntries_maps svp.hasMemory infos).writes
  unfold HostCall.asked HostCall.run decryptBufferMultiOnce
  dsimp only
  cases hframes : entriesOf buffers with
  | none =>
    refine ⟨fun _ => rfl, fun value h => ?_⟩
    split at h <;> cases h
  | some frames =>
    have hmaps := (extractMulti_maps frames).writes
    dsimp only [Option.bind_some]
    by_cases hok : (extractProtectionMetaMulti frames).1 = errorNone
    · simp only [hok, if_true]
      cases hset : svp.setValue with
      | none =>
        refine ⟨fun _ => ?_, fun value h => by cases h⟩
        rw [updateDecryptToHostMulti, hset]
        dsimp only
        split
        · simp only [List.filterMap_append, hmaps, hunmap, List.append_nil]
        · simp only [List.filterMap_append, hmaps, hunmap, hclear, hdecrypt, List.append_nil]
      | some setValue =>
        refine ⟨fun h => (by cases h), fun value h => ⟨setValue, rfl, ?_⟩⟩
        cases h
        have hupdate := updateDecryptToHostMulti_writes hset session (mediaInfoMulti caps).2.1
        generalize updateDecryptToHostMulti svp session (mediaInfoMulti caps).2.1 = r at hupdate ⊢
        obtain ⟨session', update⟩ := r
        rw [← hupdate]
        dsimp only
        split
        · simp only [List.filterMap_append, hmaps, hunmap, List.append_nil, List.nil_append]
        · simp only [List.filterMap_append, hmaps, hunmap, hclear, hdecrypt, List.append_nil, List.nil_append]
    · simp only [hok, if_false]
      refine ⟨fun _ => ?_, fun value h => ?_⟩
      · simp only [List.filterMap_append, hmaps, hunmap, List.append_nil]
      · split at h <;> cases h

/-- A call that asks for no value changes nothing. -/
theorem HostCall.run_none {c : HostCall} (session : Session) (h : c.asked = none) :
    c.run session = (some session, []) := by
  cases c with
  | once svp buffer info caps => exact (once_run svp buffer info caps session).1 h
  | multiOnce svp buffers caps => exact (multiOnce_run svp buffers caps session).1 h

theorem HostCall.run_some {c : HostCall} {value : Bool} (session : Session) (h : c.asked = some value) :
    ∃ setValue, c.setValue = some setValue ∧ c.run session = Updates session value setValue := by
  cases c with
  | once svp buffer info caps => exact (once_run svp buffer info caps session).2 value h
  | multiOnce svp buffers caps => exact (multiOnce_run svp buffers caps session).2 value h

/-! ## A step -/

theorem hostStep_none {s : HostState} {c : HostCall} (h : c.asked = none) : hostStep s c = some s := by
  rw [hostStep, c.run_none s.session h]
  rfl

theorem hostStep_some {s : HostState} {c : HostCall} {value : Bool} (h : c.asked = some value) :
    ∃ setValue, c.setValue = some setValue ∧ hostStep s c = some ⟨(s.session.needsDecryptToHostUpdate value).2,
      if (s.session.needsDecryptToHostUpdate value).1 then written s.context (value, setValue value) else s.context⟩ := by
  obtain ⟨setValue, hset, hrun⟩ := c.run_some s.session h
  refine ⟨setValue, hset, ?_⟩
  rw [hostStep, hrun, Updates]
  dsimp only
  split <;> rfl

/-- Behind a call that asks for a value, an update is skipped for this value only. -/
theorem needs_again (session : Session) (value value' : Bool) :
    ((session.needsDecryptToHostUpdate value).2.needsDecryptToHostUpdate value').1 = false ↔ value' = value := by
  obtain ⟨set, cached⟩ := session
  revert set cached value value'
  decide

theorem SkipsRight.step {s s' : HostState} {c : HostCall} (h : SkipsRight s) (haccepted : WriteAccepted s c)
    (hstep : hostStep s c = some s') : SkipsRight s' := by
  cases hasked : c.asked with
  | none =>
    rw [hostStep_none hasked] at hstep
    cases hstep
    exact h
  | some value =>
    obtain ⟨setValue, hset, hnext⟩ := hostStep_some (s := s) hasked
    rw [hnext] at hstep
    cases hstep
    intro c' value' _ hskip
    obtain rfl := (needs_again s.session value value').1 hskip
    cases hneeds : (s.session.needsDecryptToHostUpdate value').1 with
    | false => exact h c value' hasked hneeds
    | true =>
      show written s.context (value', setValue value') = some value'
      rw [written]
      rcases haccepted value' setValue hasked hset hneeds with htrue | hcontext
      · rw [if_pos htrue]
      · rw [hcontext, ite_self]

/-- A write that is refused, with another value in the context: the next call for this value skips it. -/
theorem SkipsRight.accepted {s s' : HostState} {c : HostCall} (hstep : hostStep s c = some s') (h : SkipsRight s') :
    WriteAccepted s c := by
  intro value setValue hasked hset hneeds
  obtain ⟨setValue', hset', hnext⟩ := hostStep_some (s := s) hasked
  rw [hset] at hset'
  cases hset'
  rw [hnext, hneeds] at hstep
  cases hstep
  have hright : written s.context (value, setValue value) = some value :=
    h c value hasked ((needs_again s.session value value).2 rfl)
  cases htrue : setValue value with
  | true => exact .inl rfl
  | false =>
    rw [htrue] at hright
    exact .inr hright

/-! ## Runs -/

theorem skips_right_start (context : Option Bool) : SkipsRight (hostStart context) := fun _ _ _ hskip => by cases hskip

/-- In every run of calls on a new session, whatever each asks for and whatever the hook answers: a skipped update is
right in all its states exactly if every write it makes is accepted or changes nothing. -/
theorem skips_right_iff (context : Option Bool) (calls : List HostCall) (s : HostState)
    (h : Trace.Run hostStep (fun _ _ => True) (hostStart context) calls s) :
    (∀ pre s', pre <+: calls → Trace.Run hostStep (fun _ _ => True) (hostStart context) pre s' → SkipsRight s') ↔
      Trace.Run hostStep WriteAccepted (hostStart context) calls s := by
  constructor
  · intro hall
    generalize hostStart context = start at h hall
    induction h with
    | nil s => exact .nil s
    | cons _ hstep _ ih =>
      refine .cons (SkipsRight.accepted hstep (hall _ _ (List.prefix_append [_] _) (.cons trivial hstep (.nil _))))
        hstep (ih fun pre s' hpre hrun => hall _ s' (List.cons_prefix_cons.2 ⟨rfl, hpre⟩) (.cons trivial hstep hrun))
  · intro haccepted
    have hstart := skips_right_start context
    generalize hostStart context = start at haccepted hstart
    clear h
    induction haccepted with
    | nil s =>
      intro pre s' hpre hrun
      rw [List.prefix_nil.1 hpre] at hrun
      cases hrun
      exact hstart
    | cons hok hstep _ ih =>
      intro pre s' hpre hrun
      cases hrun with
      | nil => exact hstart
      | cons _ hstep' hrun =>
        obtain ⟨rfl, hrest⟩ := List.cons_prefix_cons.1 hpre
        rw [hstep] at hstep'
        cases hstep'
        exact ih (hstart.step hok hstep) _ _ hrest hrun

/-! ## A refused write -/

/-- Caps of a video that is to be decrypted to the host. -/
def hostVideo : ParsedCaps := ⟨720, 1280, .video, true⟩

/-- A frame of such a video, with a hook that answers as given. -/
def hostCall (ok : Bool) : HostCall :=
  .once { plainSvp with setValue := some fun _ => ok } frame (some (infoOf 1 goodTable)) (some hostVideo)

theorem skips_right_twice : ∃ s,
    Trace.Run hostStep (fun _ _ => True) (hostStart none) [hostCall true, hostCall false] s ∧
    ((∀ pre s', pre <+: [hostCall true, hostCall false] →
      Trace.Run hostStep (fun _ _ => True) (hostStart none) pre s' → SkipsRight s') ↔
      Trace.Run hostStep WriteAccepted (hostStart none) [hostCall true, hostCall false] s) := by
  have hrun : Trace.Run hostStep (fun _ _ => True) (hostStart none) [hostCall true, hostCall false]
      ⟨⟨true, true⟩, some true⟩ := .cons trivial (by rfl) (.cons trivial (by rfl) (.nil _))
  exact ⟨_, hrun, skips_right_iff none [hostCall true, hostCall false] _ hrun⟩

/-- The first write is refused, and the second call skips it. -/
theorem refused_write_skipped : ¬ ∀ context calls s,
    Trace.Run hostStep (fun _ _ => True) (hostStart context) calls s → SkipsRight s := by
  intro h
  have hright := h none [hostCall false] ⟨⟨true, true⟩, none⟩ (.cons trivial (by rfl) (.nil _)) (hostCall false) true
    (by rfl) (by rfl)
  cases hright

end Ocdm.Adapter
