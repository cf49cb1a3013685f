/-
`AddKeyId` and `UpdateKeyStatus` in any order on one key list (CENCParser.h). Both look an equal key up and change its
entry, or append their own key object; so the list is the calls collected by key, and systems and status of an entry
are those of the calls for its key (`key_list`). `Status(key)` says pending for a key that is not valid, whatever the
list holds for it.
-/
import Ocdm.Cenc.KeyId

namespace Ocdm.Cenc

open Thunder (same)

/-- A call on the key list. -/
inductive KeyCall (K : Type) where
  | addKeyId (key : KeyId K)
  | updateKeyStatus (status : KeyStatus) (key : KeyId K)

section

variable {K : Type}

/-- The entry a call appends if there is none with an equal key. -/
def KeyCall.entry : KeyCall K → KeyId K
  | .addKeyId key => key
  | .updateKeyStatus status key => { key with status := status }

/-- The key a call is for. -/
def KeyCall.id (c : KeyCall K) : K := c.entry.id

/-- What a call makes of an entry with an equal key. -/
def KeyCall.change : KeyCall K → KeyId K → KeyId K
  | .addKeyId key, e => e.flag key.systems
  | .updateKeyStatus status _, e => { e with status := status }

/-- The systems an `AddKeyId` brings. -/
def KeyCall.added : KeyCall K → Option UInt32
  | .addKeyId key => some key.systems
  | .updateKeyStatus .. => none

/-- The status an `UpdateKeyStatus` brings. -/
def KeyCall.updated : KeyCall K → Option KeyStatus
  | .addKeyId _ => none
  | .updateKeyStatus status _ => some status

@[simp] theorem KeyCall.change_id (c : KeyCall K) (e : KeyId K) : (c.change e).id = e.id := by cases c <;> rfl

variable [Thunder K]

/-- The key list after a call. -/
def KeyCall.run (keys : List (KeyId K)) : KeyCall K → List (KeyId K)
  | .addKeyId key => Cenc.addKeyId keys key
  | .updateKeyStatus status key => (Cenc.updateKeyStatus keys status key).1

/-- The key list after calls on an empty one. -/
def keyListOf (calls : List (KeyCall K)) : List (KeyId K) := calls.foldl KeyCall.run []

/-- The calls for keys equal to `k`. -/
def callsFor (calls : List (KeyCall K)) (k : K) : List (KeyCall K) := calls.filter fun c => same k c.id

/-- The status of the last `UpdateKeyStatus` for a key equal to `k`, that of the key object first added if there is
none, and pending without any. -/
def lastStatus (calls : List (KeyCall K)) (k : K) : KeyStatus :=
  ((callsFor calls k).filterMap KeyCall.updated).getLast?.getD
    (((callsFor calls k).head?.map fun c => c.entry.status).getD .statusPending)

/-- What the list holds after the calls. -/
structure KeyList (calls : List (KeyCall K)) (keys : List (KeyId K)) : Prop where
  distinct : keys.Pairwise fun a b => same a.id b.id = false
  order : keys.map KeyId.id = (calls.map KeyCall.id).eraseDupsBy same
  systems : ∀ k ∈ keys, ∃ first later, callsFor calls k.id = first :: later ∧
    k.systems = (later.filterMap KeyCall.added).foldl (· ||| ·) first.entry.systems
  kept : ∀ status key, hasKeyId keys key.id = true →
    (Cenc.updateKeyStatus keys status key).1.map KeyId.systems = keys.map KeyId.systems
  status : ∀ k, statusOf keys k = if Thunder.isValid k then lastStatus calls k else .statusPending

/-! ## The list as the calls collected -/

/-- An entry that a later call for its key has changed, as a call. -/
def KeyCall.merge (c later : KeyCall K) : KeyCall K := .addKeyId (later.change c.entry)

omit [Thunder K] in
@[simp] theorem KeyCall.merge_id (c later : KeyCall K) : (c.merge later).id = c.id := later.change_id c.entry

theorem run_upsert (keys : List (KeyId K)) (c : KeyCall K) :
    c.run keys = Upsert.upsert (fun e => same e.id c.id) c.change c.entry keys := by cases c <;> rfl

/-- The rows collected so far, by the key ids of their entries. -/
def collected (calls : List (KeyCall K)) : List (KeyCall K) :=
  Upsert.collect same KeyCall.id KeyCall.merge calls

theorem collected_entries (calls : List (KeyCall K)) : (collected calls).map KeyCall.entry = keyListOf calls := by
  induction calls using List.reverseRecOn with
  | nil => rfl
  | append_singleton calls c ih =>
    rw [collected, Upsert.collect_concat, keyListOf, List.foldl_append, List.foldl_cons, List.foldl_nil, run_upsert]
    have hmap : (Upsert.upsert (fun x : KeyCall K => same x.id c.id) (fun x => x.merge c) c (collected calls)).map
        KeyCall.entry = Upsert.upsert (fun e : KeyId K => same e.id c.id) c.change c.entry
        ((collected calls).map KeyCall.entry) :=
      Upsert.map_upsert_hom (fun x => show same x.id c.id = same x.entry.id c.id from rfl)
        (fun x => show (x.merge c).entry = c.change x.entry from rfl) _
    rw [ih] at hmap
    exact hmap

omit [Thunder K] in
theorem foldl_merge (c : KeyCall K) (later : List (KeyCall K)) :
    (later.foldl KeyCall.merge c).entry = later.foldl (fun e o => o.change e) c.entry := by
  induction later generalizing c with
  | nil => rfl
  | cons o later ih => exact ih (c.merge o)

omit [Thunder K] in
/-- The systems of an entry after the calls for its key. -/
theorem foldl_change_systems (e : KeyId K) (later : List (KeyCall K)) :
    (later.foldl (fun e o => o.change e) e).systems = (later.filterMap KeyCall.added).foldl (· ||| ·) e.systems := by
  induction later generalizing e with
  | nil => rfl
  | cons o later ih =>
    rw [List.foldl_cons, ih]
    cases o <;> rfl

omit [Thunder K] in
/-- The status of an entry after the calls for its key. -/
theorem foldl_change_status (e : KeyId K) (later : List (KeyCall K)) :
    (later.foldl (fun e o => o.change e) e).status = (later.filterMap KeyCall.updated).getLast?.getD e.status := by
  induction later generalizing e with
  | nil => rfl
  | cons o later ih =>
    rw [List.foldl_cons, ih]
    cases o with
    | addKeyId key => rfl
    | updateKeyStatus status key =>
      rw [List.filterMap_cons, KeyCall.updated, List.getLast?_cons]
      rfl

/-! ## The list after the calls -/

section

variable (hr : Upsert.Equiv (same (K := K)))

include hr

/-- Calls for equal keys are the same ones. -/
theorem callsFor_congr {a b : K} (h : same a b = true) (calls : List (KeyCall K)) :
    callsFor calls a = callsFor calls b := by
  unfold callsFor
  exact List.filter_congr fun c _ => hr.congr h c.id

/-- An entry is made by the first call for its key, and changed by the later ones. -/
theorem keyListOf_entry {calls : List (KeyCall K)} {k : KeyId K} (hk : k ∈ keyListOf calls) :
    ∃ first later, callsFor calls k.id = first :: later ∧
      k = later.foldl (fun e o => o.change e) first.entry := by
  rw [← collected_entries] at hk
  obtain ⟨c, hc, rfl⟩ := List.mem_map.1 hk
  obtain ⟨first, later, hrows, -, hfold⟩ := Upsert.collect_merged hr KeyCall.merge_id calls c hc
  refine ⟨first, later, hrows, ?_⟩
  conv_lhs => rw [hfold]
  exact foldl_merge first later

/-- The status that the list holds for a key. -/
theorem find?_status (calls : List (KeyCall K)) (k : K) :
    (((keyListOf calls).find? fun e => same e.id k).map KeyId.status).getD .statusPending = lastStatus calls k := by
  cases hfind : (keyListOf calls).find? fun e => same e.id k with
  | some e =>
    obtain ⟨first, later, hcalls, hentry⟩ := keyListOf_entry hr (List.mem_of_find?_eq_some hfind)
    have hsame : same e.id k = true := List.find?_some (p := fun e : KeyId K => same e.id k) hfind
    rw [lastStatus, ← callsFor_congr hr hsame, hcalls, Option.map_some, Option.getD_some, hentry, foldl_change_status]
    cases first with
    | addKeyId key => rfl
    | updateKeyStatus status key =>
      rw [List.filterMap_cons, KeyCall.updated, List.getLast?_cons]
      rfl
  | none =>
    -- no call is for an equal key
    have hnone : callsFor calls k = [] := by
      refine List.filter_eq_nil_iff.2 fun c hc hsame => ?_
      obtain ⟨x, hx, hxc⟩ := Upsert.exists_collect hr KeyCall.merge_id calls c hc
      have hentry : x.entry ∈ keyListOf calls := by
        rw [← collected_entries]
        exact List.mem_map_of_mem hx
      have hxk : same x.id k = true := hr.trans hxc (by rw [hr.symm]; exact hsame)
      exact List.find?_eq_none.1 hfind x.entry hentry hxk
    rw [lastStatus, hnone]
    rfl

end

/-- An update of an entry leaves the systems as they are. -/
theorem updateKeyStatus_systems {keys : List (KeyId K)} {key : KeyId K} (status : KeyStatus)
    (h : hasKeyId keys key.id = true) :
    (updateKeyStatus keys status key).1.map KeyId.systems = keys.map KeyId.systems := by
  unfold hasKeyId at h
  have hmap : (Upsert.upsert (fun e => same e.id key.id) (fun e : KeyId K => { e with status := status })
      { key with status := status } keys).map KeyId.systems = if keys.any fun e => same e.id key.id then
      keys.map KeyId.systems else keys.map KeyId.systems ++ [key.systems] :=
    Upsert.map_upsert (fun e => show ({ e with status := status } : KeyId K).systems = e.systems from rfl) keys
  rw [if_pos h] at hmap
  exact hmap

/-- After any calls on an empty list, for an equality that is an equivalence relation. -/
theorem key_list (hr : Upsert.Equiv (same (K := K))) (calls : List (KeyCall K)) : KeyList calls (keyListOf calls) := by
  have hentries := collected_entries calls
  refine ⟨?_, ?_, fun k hk => ?_, fun status key => updateKeyStatus_systems status, fun k => ?_⟩
  · have hdistinct := Upsert.collect_distinct (r := same) KeyCall.merge_id calls
    rw [← hentries]
    exact List.pairwise_map.2 hdistinct
  · have hkeys := Upsert.collect_keys hr KeyCall.merge_id calls
    rw [← hentries, List.map_map]
    exact hkeys
  · obtain ⟨first, later, hcalls, hentry⟩ := keyListOf_entry hr hk
    refine ⟨first, later, hcalls, ?_⟩
    conv_lhs => rw [hentry]
    exact foldl_change_systems first.entry later
  · rw [← find?_status hr]
    unfold statusOf
    split
    · split
      · rename_i he
        rw [he]
        rfl
      · rename_i he
        rw [he]
        rfl
    · rfl

end

/-! ## A key that is not valid -/

theorem key_list_kid : KeyList [.addKeyId ⟨([1] : Kid), 1, .statusPending⟩, .updateKeyStatus .usable ⟨[1], 2, .expired⟩,
      .addKeyId ⟨[2], 4, .released⟩, .addKeyId ⟨[1], 8, .expired⟩]
    (keyListOf [.addKeyId ⟨([1] : Kid), 1, .statusPending⟩, .updateKeyStatus .usable ⟨[1], 2, .expired⟩,
      .addKeyId ⟨[2], 4, .released⟩, .addKeyId ⟨[1], 8, .expired⟩]) :=
  key_list Kid.same_equiv _

/-- A key object that is not valid and not pending is added, and `Status` says pending. -/
theorem status_of_invalid :
    ¬ ∀ (calls : List (KeyCall Kid)) (k : Kid), statusOf (keyListOf calls) k = lastStatus calls k :=
  fun h => absurd (h [.addKeyId ⟨[0], 1, .usable⟩] [0]) (by decide)

end Ocdm.Cenc
