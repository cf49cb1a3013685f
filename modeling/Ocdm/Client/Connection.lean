/-
The client's connection to the server: `OpenCDMAccessor` with its channel and its remote accessor
(open_cdm_impl.h). `Reconnect` opens a channel when there is none or the one there is was closed;
`IsTypeSupported` always calls it, some methods only when there is no remote accessor, and the others
never. The calls are made one at a time: nothing in the accessor guards the connection against two of
them. Over the life of the accessor every remote is released once and is called only before that
(`accessor_references`). A remote whose channel was closed is called by every method until
`IsTypeSupported` replaces it (`stale_until_isTypeSupported`).
-/
import Ocdm.Lib.Effects
import Ocdm.Lib.Pairing

namespace Ocdm.Client.Connection

/-! ## The methods -/

/-- The methods of `IAccessorOCDM`. -/
inductive Method where
  | isTypeSupported
  | metadata
  | createMovieSession
  | destroyMovieSession
  | generateChallengeWithVersionList
  | destroyServerExchange
  | initLibrary
  | processLicense
  | destroyCryptor
  | metricdata
  | getSupportedRobustness
  | createSession
  | setServerCertificate
  | getDrmSystemTime
  | getVersionExt
  | getLdlSessionLimit
  | isSecureStopEnabled
  | enableSecureStop
  | resetSecureStops
  | getSecureStopIds
  | getSecureStop
  | commitSecureStop
  | deleteKeyStore
  | deleteSecureStore
  | getKeyStoreHash
  | getSecureStoreHash
deriving DecidableEq, Repr

/-- When a method calls `Reconnect`. -/
inductive Connects where
  | always
  | whenMissing
  | never
deriving DecidableEq, Repr

/-- What a method returns when there is no remote accessor. -/
inductive Unconnected where
  | sFalse
  | invalidAccessor
  | zero
  | empty
  | no
deriving DecidableEq, Repr

def Method.connects : Method → Connects
  | .isTypeSupported => .always
  | .metadata | .createMovieSession | .destroyMovieSession | .generateChallengeWithVersionList
  | .destroyServerExchange | .initLibrary | .processLicense | .destroyCryptor => .whenMissing
  | _ => .never

def Method.unconnected : Method → Unconnected
  | .isTypeSupported => .no
  | .metadata | .createMovieSession | .destroyMovieSession | .generateChallengeWithVersionList
  | .destroyServerExchange | .initLibrary | .processLicense | .destroyCryptor => .sFalse
  | .getDrmSystemTime | .getLdlSessionLimit | .resetSecureStops => .zero
  | .getVersionExt => .empty
  | .isSecureStopEnabled => .no
  | _ => .invalidAccessor

/-! ## The accessor -/

/-- The accessor. `client` is `_client` with its `IsOpen`, `none` when it is not valid; a remote is the
number of the `Open` that gave it, and `opened` counts these. -/
structure Accessor where
  client : Option Bool
  remote : Option Nat
  opened : Nat
deriving DecidableEq, Repr

/-- What happens to remotes; a call says whether the channel of its remote is open. -/
inductive Event where
  | opened (remote : Nat)
  | released (remote : Nat)
  | called (m : Method) (remote : Nat) (isOpen : Bool)
  | unconnected (m : Method) (value : Unconnected)
deriving DecidableEq, Repr

/-- `Reconnect`; `opens` says whether `Open` gives a remote. -/
def reconnect (opens : Bool) (a : Accessor) : Accessor × List Event :=
  -- a client that is not valid is created first, and is not open
  if a.client.getD false = false then
    let released := a.remote.toList.map Event.released
    if opens then
      ({ client := some true, remote := some a.opened, opened := a.opened + 1 }, released ++ [.opened a.opened])
    else ({ a with client := none, remote := none }, released)
  else (a, [])

/-- The `Reconnect` at the start of a method. -/
def connect (m : Method) (opens : Bool) (a : Accessor) : Accessor × List Event :=
  match m.connects with
  | .always => reconnect opens a
  | .whenMissing => if a.remote = none then reconnect opens a else (a, [])
  | .never => (a, [])

/-- A call of a method. -/
def call (m : Method) (opens : Bool) (a : Accessor) : Accessor × List Event :=
  let (a, events) := connect m opens a
  match a.remote with
  | some remote => (a, events ++ [.called m remote (a.client.getD false)])
  | none => (a, events ++ [.unconnected m m.unconnected])

/-- What the accessor meets: a call of a method, or that the channel is closed from the other side. -/
inductive Input where
  | call (m : Method) (opens : Bool)
  | closes
deriving DecidableEq, Repr

def step (a : Accessor) : Input → Accessor × List Event
  | .call m opens => call m opens a
  | .closes => ({ a with client := a.client.map fun _ => false }, [])

/-- The constructor, which calls `Reconnect`. -/
def construct (opens : Bool) : Accessor × List Event := reconnect opens ⟨none, none, 0⟩

/-- The destructor. -/
def destruct (a : Accessor) : List Event := a.remote.toList.map Event.released

/-- The accessor after its construction and some inputs. -/
def after (opens : Bool) (inputs : List Input) : Accessor := (Effects.run step (construct opens).1 inputs).1

/-- All events until then. -/
def events (opens : Bool) (inputs : List Input) : List Event :=
  (construct opens).2 ++ (Effects.run step (construct opens).1 inputs).2

/-! ## References -/

/-- What an event does to the references to remotes. -/
def Event.op : Event → Option (Pairing.Op Nat)
  | .opened remote => some (.acquire remote)
  | .released remote => some (.release remote)
  | .called _ _ _ => none
  | .unconnected _ _ => none

def references (events : List Event) : List (Pairing.Op Nat) := events.filterMap Event.op

/-- How many references there are to a remote. -/
def Referenced (events : List Event) (remote count : Nat) : Prop :=
  (references events).count (.acquire remote) = (references events).count (.release remote) + count

/-- The references are those of the accessor: when it gave up its own, they would be matched. -/
def Owned (a : Accessor) (events : List Event) : Prop :=
  Pairing.Matched (references (events ++ destruct a))

theorem references_append (events events' : List Event) :
    references (events ++ events') = references events ++ references events' :=
  List.filterMap_append ..

theorem Owned.referenced {a : Accessor} {events : List Event} (h : Owned a events) (remote : Nat) :
    Referenced events remote (if a.remote = some remote then 1 else 0) := by
  have hr := h.released remote
  unfold Referenced
  rw [references_append, List.count_append, List.count_append] at hr
  have hown : (references (destruct a)).count (.acquire remote) = 0 ∧
      (references (destruct a)).count (.release remote) = if a.remote = some remote then 1 else 0 := by
    unfold destruct
    cases ha : a.remote with
    | none => exact ⟨rfl, rfl⟩
    | some r =>
      refine ⟨rfl, ?_⟩
      by_cases he : r = remote
      · subst he; simp [references, Event.op]
      · simp [references, Event.op, he]
  rw [hown.1, hown.2] at hr
  omega

theorem Owned.append {a : Accessor} {events : List Event} (h : Owned a events) {more : List Event}
    (hmore : references more = []) : Owned a (events ++ more) := by
  unfold Owned at *
  rw [references_append, references_append, hmore, List.append_nil, ← references_append]
  exact h

/-- The remote there was is given up for another one, or for none. -/
theorem Owned.replace {a a' : Accessor} {events : List Event} (h : Owned a events) :
    Owned a' (events ++ (destruct a ++ a'.remote.toList.map Event.opened)) := by
  unfold Owned at *
  rw [← List.append_assoc, List.append_assoc _ _ (destruct a'), references_append]
  refine h.append ?_
  unfold destruct
  cases a'.remote with
  | none => exact .nil
  | some remote => exact Pairing.matched_self [remote]

theorem reconnect_owned {a : Accessor} {events : List Event} (h : Owned a events) (opens : Bool) :
    Owned (reconnect opens a).1 (events ++ (reconnect opens a).2) := by
  unfold reconnect
  split
  · cases opens with
    | true => exact h.replace
    | false =>
      have hgone : Owned { a with client := none, remote := none } (events ++ (destruct a ++ [])) :=
        h.replace
      rwa [List.append_nil] at hgone
  · rw [List.append_nil]; exact h

theorem connect_owned {a : Accessor} {events : List Event} (h : Owned a events) (m : Method) (opens : Bool) :
    Owned (connect m opens a).1 (events ++ (connect m opens a).2) := by
  have hsame : Owned a (events ++ []) := by rw [List.append_nil]; exact h
  unfold connect
  split
  · exact reconnect_owned h opens
  · split
    · exact reconnect_owned h opens
    · exact hsame
  · exact hsame

/-- What a method does behind its `Reconnect`. -/
theorem call_eq (m : Method) (opens : Bool) (a : Accessor) :
    (call m opens a).1 = (connect m opens a).1 ∧
    ∃ e, (call m opens a).2 = (connect m opens a).2 ++ [e] ∧ e.op = none ∧
      ∀ m' remote isOpen, e = .called m' remote isOpen → (connect m opens a).1.remote = some remote := by
  unfold call
  dsimp only
  cases hr : (connect m opens a).1.remote with
  | some remote => exact ⟨rfl, _, rfl, rfl, fun _ _ _ he => by cases he; rfl⟩
  | none => exact ⟨rfl, _, rfl, rfl, nofun⟩

theorem step_owned {a : Accessor} {events : List Event} (h : Owned a events) (input : Input) :
    Owned (step a input).1 (events ++ (step a input).2) := by
  cases input with
  | call m opens =>
    obtain ⟨ha, e, he, hop, -⟩ := call_eq m opens a
    show Owned (call m opens a).1 (events ++ (call m opens a).2)
    rw [ha, he, ← List.append_assoc]
    exact (connect_owned h m opens).append (by simp [references, hop])
  | closes =>
    show Owned _ (events ++ [])
    rw [List.append_nil]
    exact h

theorem construct_owned (opens : Bool) : Owned (construct opens).1 (construct opens).2 :=
  reconnect_owned (show Owned ⟨none, none, 0⟩ [] from .nil) opens

theorem after_concat (opens : Bool) (inputs : List Input) (input : Input) :
    after opens (inputs ++ [input]) = (step (after opens inputs) input).1 ∧
    events opens (inputs ++ [input]) = events opens inputs ++ (step (after opens inputs) input).2 := by
  unfold after events
  rw [Effects.run_concat]
  exact ⟨rfl, (List.append_assoc ..).symm⟩

theorem events_owned (opens : Bool) (inputs : List Input) : Owned (after opens inputs) (events opens inputs) := by
  induction inputs using List.reverseRecOn with
  | nil =>
    show Owned _ ((construct opens).2 ++ [])
    rw [List.append_nil]
    exact construct_owned opens
  | append_singleton inputs input ih =>
    obtain ⟨ha, he⟩ := after_concat opens inputs input
    rw [ha, he]
    exact step_owned ih input

theorem connect_no_call (m : Method) (opens : Bool) (a : Accessor) (m' : Method) (remote : Nat) (isOpen : Bool) :
    .called m' remote isOpen ∉ (connect m opens a).2 := by
  have hreconnect : .called m' remote isOpen ∉ (reconnect opens a).2 := by
    unfold reconnect
    split
    · cases a.remote <;> cases opens <;> simp
    · exact List.not_mem_nil
  unfold connect
  split
  · exact hreconnect
  · split
    · exact hreconnect
    · exact List.not_mem_nil
  · exact List.not_mem_nil

/-- A method is called on the only remote there is a reference to. -/
theorem step_referenced {a : Accessor} {before : List Event} (h : Owned a before) {input : Input}
    {pre post : List Event} {m : Method} {remote : Nat} {isOpen : Bool}
    (hsplit : (step a input).2 = pre ++ .called m remote isOpen :: post) (r : Nat) :
    Referenced (before ++ pre) r (if r = remote then 1 else 0) := by
  cases input with
  | call m' opens =>
    obtain ⟨-, e, he, -, hremote⟩ := call_eq m' opens a
    rcases Effects.append_split (he.symm.trans hsplit) with ⟨post', hconnect⟩ | ⟨pre', rfl, hlast⟩
    · exact absurd (hconnect ▸ List.mem_append_right _ (List.mem_cons_self ..))
        (connect_no_call m' opens a m remote isOpen)
    · -- the call stands behind the `Reconnect`
      cases pre' with
      | cons x pre' => simp at hlast
      | nil =>
        obtain ⟨rfl, -⟩ := List.cons.inj hlast
        have hown := (connect_owned h m' opens).referenced r
        rw [hremote _ _ _ rfl] at hown
        rw [List.append_nil]
        simp only [Option.some.injEq, eq_comm (a := remote)] at hown
        exact hown
  | closes => simp [step] at hsplit

/-- Over the life of the accessor, whatever is called and whenever channels close or cannot be opened: every remote
that was opened is released once, and behind its opening; and a method is called on a remote that was opened and not
yet released, the only one there is. -/
theorem accessor_references (opens : Bool) (inputs : List Input) :
    Pairing.Matched (references (events opens inputs ++ destruct (after opens inputs))) ∧
    ∀ pre m remote isOpen post, events opens inputs = pre ++ .called m remote isOpen :: post →
      ∀ r, Referenced pre r (if r = remote then 1 else 0) := by
  refine ⟨events_owned opens inputs, ?_⟩
  induction inputs using List.reverseRecOn with
  | nil =>
    intro pre m remote isOpen post h r
    have hnil : events opens [] = (construct opens).2 := List.append_nil _
    cases opens <;> simp [hnil, construct, reconnect, List.singleton_eq_append_iff] at h
  | append_singleton inputs input ih =>
    intro pre m remote isOpen post h r
    rw [(after_concat opens inputs input).2] at h
    rcases Effects.append_split h with ⟨post', hold⟩ | ⟨pre', rfl, hnew⟩
    · exact ih pre m remote isOpen post' hold r
    · exact step_referenced (events_owned opens inputs) hnew r

/-! ## A closed channel -/

/-- A remote is older than the next one. -/
def Fresh (a : Accessor) : Prop := ∀ r, a.remote = some r → r < a.opened

theorem reconnect_fresh {a : Accessor} (h : Fresh a) (opens : Bool) : Fresh (reconnect opens a).1 := by
  unfold reconnect
  split
  · cases opens with
    | true =>
      intro r hr
      cases hr
      exact Nat.lt_succ_self _
    | false => exact fun r hr => nomatch hr
  · exact h

theorem step_fresh {a : Accessor} (h : Fresh a) (input : Input) : Fresh (step a input).1 := by
  cases input with
  | call m opens =>
    show Fresh (call m opens a).1
    rw [(call_eq m opens a).1]
    unfold connect
    split
    · exact reconnect_fresh h opens
    · split
      · exact reconnect_fresh h opens
      · exact h
    · exact h
  | closes => exact h

theorem after_fresh (opens : Bool) (inputs : List Input) : Fresh (after opens inputs) := by
  induction inputs using List.reverseRecOn with
  | nil => exact reconnect_fresh (a := ⟨none, none, 0⟩) nofun opens
  | append_singleton inputs input ih =>
    rw [(after_concat opens inputs input).1]
    exact step_fresh ih input

/-- The accessor has a remote, and its channel is not open. -/
def Stale (a : Accessor) (remote : Nat) : Prop := a.client.getD false = false ∧ a.remote = some remote

/-- What a method other than `IsTypeSupported` does then. -/
theorem call_stale {a : Accessor} {remote : Nat} (h : Stale a remote) {m : Method} (hm : m ≠ .isTypeSupported)
    (opens : Bool) : call m opens a = (a, [.called m remote false]) := by
  have hconnect : connect m opens a = (a, []) := by
    unfold connect
    split
    · rename_i halways
      cases m <;> first | exact absurd rfl hm | cases halways
    · rw [if_neg (by rw [h.2]; nofun)]
    · rfl
  unfold call
  rw [hconnect]
  dsimp only
  rw [h.2]
  dsimp only
  rw [h.1]
  rfl

/-- What `IsTypeSupported` does then. -/
theorem isTypeSupported_stale {a : Accessor} {remote : Nat} (h : Stale a remote) :
    (call .isTypeSupported true a).2 =
      [.released remote, .opened a.opened, .called .isTypeSupported a.opened true] := by
  have hconnect : connect .isTypeSupported true a =
      (⟨some true, some a.opened, a.opened + 1⟩, [.released remote, .opened a.opened]) := by
    show reconnect true a = _
    unfold reconnect
    rw [if_pos h.1, h.2]
    rfl
  unfold call
  rw [hconnect]
  rfl

/-- The call an input makes on a remote whose channel is closed. -/
def staleCall (remote : Nat) : Input → Option Event
  | .call m _ => some (.called m remote false)
  | .closes => none

theorem run_stale {a : Accessor} {remote : Nat} (h : Stale a remote) {later : List Input}
    (hlater : ∀ m opens, .call m opens ∈ later → m ≠ .isTypeSupported) :
    Stale (Effects.run step a later).1 remote ∧ (Effects.run step a later).1.opened = a.opened ∧
    (Effects.run step a later).2 = later.filterMap (staleCall remote) := by
  induction later generalizing a with
  | nil => exact ⟨h, rfl, rfl⟩
  | cons input later ih =>
    have hrest : ∀ m opens, .call m opens ∈ later → m ≠ .isTypeSupported := fun m opens hin =>
      hlater m opens (List.mem_cons_of_mem _ hin)
    rw [Effects.run_cons]
    cases input with
    | call m opens =>
      have hcall : step a (.call m opens) = (a, [.called m remote false]) :=
        call_stale h (hlater m opens (List.mem_cons_self ..)) opens
      rw [hcall]
      obtain ⟨hs, ho, he⟩ := ih h hrest
      exact ⟨hs, ho, congrArg _ he⟩
    | closes =>
      have hclosed : Stale (step a .closes).1 remote := by
        refine ⟨?_, h.2⟩
        show (a.client.map fun _ => false).getD false = false
        cases a.client <;> rfl
      exact ih hclosed hrest

/-- The server went away while the accessor had a remote: every method but `IsTypeSupported` is called on that remote
over the closed channel, however often and whether or not the server is back, and only `IsTypeSupported` replaces it,
by a new one. -/
theorem stale_until_isTypeSupported (opens : Bool) (inputs : List Input) (remote : Nat)
    (hremote : (after opens inputs).remote = some remote) (later : List Input)
    (hlater : ∀ m opens, .call m opens ∈ later → m ≠ .isTypeSupported) :
    events opens (inputs ++ .closes :: later) = events opens inputs ++ later.filterMap (staleCall remote) ∧
    ∃ fresh, remote < fresh ∧ events opens (inputs ++ .closes :: later ++ [.call .isTypeSupported true]) =
      events opens inputs ++ later.filterMap (staleCall remote) ++
        [.released remote, .opened fresh, .called .isTypeSupported fresh true] := by
  have hclosed : Stale (after opens (inputs ++ [.closes])) remote := by
    rw [(after_concat opens inputs .closes).1]
    refine ⟨?_, hremote⟩
    show ((after opens inputs).client.map fun _ => false).getD false = false
    cases (after opens inputs).client <;> rfl
  have hfresh := after_fresh opens (inputs ++ [.closes]) remote hclosed.2
  obtain ⟨hstale, hopened, hevents⟩ := run_stale hclosed hlater
  have hall : events opens (inputs ++ .closes :: later) =
      events opens inputs ++ later.filterMap (staleCall remote) := by
    rw [List.append_cons, ← hevents]
    show (construct opens).2 ++ (Effects.run step _ (inputs ++ [.closes] ++ later)).2 = _
    rw [Effects.run_append, ← List.append_assoc]
    exact congrArg (fun es => es ++ (Effects.run step (after opens (inputs ++ [.closes])) later).2)
      ((after_concat opens inputs .closes).2.trans (List.append_nil _))
  refine ⟨hall, _, hfresh, ?_⟩
  rw [(after_concat opens _ _).2, hall]
  refine congrArg (fun es => events opens inputs ++ later.filterMap (staleCall remote) ++ es) ?_
  have hafter : after opens (inputs ++ .closes :: later) =
      (Effects.run step (after opens (inputs ++ [.closes])) later).1 := by
    rw [List.append_cons]
    show (Effects.run step _ (inputs ++ [.closes] ++ later)).1 = _
    rw [Effects.run_append]
    rfl
  rw [← hafter] at hstale hopened
  show (call .isTypeSupported true _).2 = _
  rw [isTypeSupported_stale hstale, hopened]

/-- A session is created on a remote whose server is gone, after the server is back; then a type is asked for. -/
theorem stale_createSession : (after true []).remote = some 0 ∧
    events true ([] ++ .closes :: [.call .createSession true]) = events true [] ++ [.called .createSession 0 false] ∧
    ∃ fresh, 0 < fresh ∧
      events true ([] ++ .closes :: [.call .createSession true] ++ [.call .isTypeSupported true]) =
      events true [] ++ [.called .createSession 0 false] ++
        [.released 0, .opened fresh, .called .isTypeSupported fresh true] :=
  ⟨rfl, stale_until_isTypeSupported true [] 0 rfl [.call .createSession true]
    fun m opens hin => by cases List.mem_singleton.1 hin; decide⟩

end Ocdm.Client.Connection
