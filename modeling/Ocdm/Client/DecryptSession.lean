/-
The lazy buffer of a client session (open_cdm_impl.h, FrameworkRPC.cpp). `Decrypt`, `DecryptMulti` and
`Decrypt_fps` test `_decryptSession` without a lock and call `CreateSessionBuffer` when it is null; the server
creates one buffer for the session and tells the callers that come later that it exists, and these spin until
the first one has published its `DataExchange`. However many threads call, and however their steps fall, there
is one buffer on either side (`one_exchange`).
-/
import Ocdm.Server.Buffers

namespace Ocdm.Client

open Server (BufferAdministrator NumberType Text)

/-! ## The server's session -/

/-- What `CreateSessionBuffer` answers: `OCDM_SUCCESS`, `OCDM_S_FALSE` and `OCDM_INVALID_DECRYPT_BUFFER`,
which the client tests as 0, 1 and anything else. -/
inductive Answer where
  | created
  | existing
  | noBuffer
deriving DecidableEq, Repr

/-- The server's session: the administrator it shares with the others, and the name of its `_buffer`. -/
structure ServerSession where
  admin : BufferAdministrator
  buffer : Option Text
deriving DecidableEq, Repr

/-- `CreateSessionBuffer`, under `_adminLock`: the session afterwards, the answer and the buffer's id. -/
def createSessionBuffer [NumberType] (s : ServerSession) : ServerSession × Answer × Text :=
  match s.buffer with
  | none =>
    match s.admin.aquireBuffer with
    | (admin, some bufferId) => (⟨admin, some bufferId⟩, .created, bufferId)
    | (admin, none) => (⟨admin, none⟩, .noBuffer, [])
  | some name => (s, .existing, name)

/-! ## The client's threads -/

/-- The calls that need the buffer. Up to its use they do the same. -/
inductive Call where
  | decrypt
  | decryptMulti
  | decryptFps
deriving DecidableEq, Repr

/-- Where a thread is in a call: it has found `_decryptSession` null; the server has created a buffer and the client's
`DataExchange` is not yet constructed, or not yet published; it spins; it is about to read the pointer; or it has read
one and goes on to decrypt. -/
inductive Stage where
  | idle
  | creating (call : Call)
  | constructing (call : Call) (bufferId : Text)
  | publishing (call : Call) (exchange : Nat)
  | spinning (call : Call)
  | loading (call : Call)
  | decrypting (call : Call) (exchange : Nat)
deriving DecidableEq, Repr

/-- A client session and its server session. `exchanges` are the names of the client's `DataExchange` objects
by their addresses, and `created` those of the server's; `uses` are the calls that went on to decrypt, with
the object they used. -/
structure LazySession (T : Type) where
  server : ServerSession
  created : List Text
  exchanges : List Text
  decryptSession : Option Nat
  stage : T → Stage
  uses : List (T × Call × Nat)

/-- The atomic steps. Other sessions of the server take and give back buffers. -/
inductive LazyAction (T : Type) where
  | enter (t : T) (call : Call)
  | create (t : T)
  | construct (t : T)
  | publish (t : T)
  | spin (t : T)
  | load (t : T)
  | decrypt (t : T)
  | others (admin : BufferAdministrator)
deriving DecidableEq, Repr

section

variable {T : Type} [DecidableEq T]

def LazySession.goTo (s : LazySession T) (t : T) (stage : Stage) : LazySession T :=
  { s with stage := fun u => if u = t then stage else s.stage u }

/-- One step. -/
def lazyStep [NumberType] (s : LazySession T) : LazyAction T → Option (LazySession T)
  | .enter t call =>
    match s.stage t with
    | .idle => some (s.goTo t (if s.decryptSession = none then .creating call else .loading call))
    | _ => none
  | .create t =>
    match s.stage t with
    | .creating call =>
      match createSessionBuffer s.server with
      | (server, .created, bufferId) =>
        some ({ s with server := server, created := s.created ++ [bufferId] }.goTo t (.constructing call bufferId))
      | (server, .existing, _) => some ({ s with server := server }.goTo t (.spinning call))
      | (server, .noBuffer, _) => some ({ s with server := server }.goTo t (.loading call))
    | _ => none
  | .construct t =>
    match s.stage t with
    | .constructing call bufferId =>
      some ({ s with exchanges := s.exchanges ++ [bufferId] }.goTo t (.publishing call s.exchanges.length))
    | _ => none
  | .publish t =>
    match s.stage t with
    | .publishing call exchange => some ({ s with decryptSession := some exchange }.goTo t (.loading call))
    | _ => none
  | .spin t =>
    match s.stage t with
    | .spinning call => some (s.goTo t (if s.decryptSession = none then .spinning call else .loading call))
    | _ => none
  | .load t =>
    match s.stage t with
    | .loading call =>
      -- without an object the call returns ERROR_INVALID_DECRYPT_BUFFER
      some (s.goTo t (s.decryptSession.elim .idle (.decrypting call)))
    | _ => none
  | .decrypt t =>
    match s.stage t with
    | .decrypting call exchange => some ({ s with uses := s.uses ++ [(t, call, exchange)] }.goTo t .idle)
    | _ => none
  | .others admin => some { s with server := { s.server with admin := admin } }

/-- A session as it is constructed: no buffer on either side, and nobody in a call. -/
def LazySession.start (admin : BufferAdministrator) : LazySession T := ⟨⟨admin, none⟩, [], [], none, fun _ => .idle, []⟩

/-! ## What holds in every interleaving -/

/-- The stage holds the address of an object. -/
def Stage.exchange : Stage → Option Nat
  | .publishing _ exchange => some exchange
  | .decrypting _ exchange => some exchange
  | _ => none

/-- The one who constructs is the one the server created the buffer for, and until then there is no object. -/
structure LazyInv (s : LazySession T) : Prop where
  created : s.created = s.server.buffer.toList
  named : ∀ name ∈ s.exchanges, s.server.buffer = some name
  single : s.exchanges.length ≤ 1
  constructing : ∀ t call bufferId, s.stage t = .constructing call bufferId →
    s.server.buffer = some bufferId ∧ s.exchanges = []
  alone : ∀ t u call call' bufferId bufferId', s.stage t = .constructing call bufferId →
    s.stage u = .constructing call' bufferId' → t = u
  held : ∀ t exchange, (s.stage t).exchange = some exchange → exchange = 0 ∧ s.exchanges ≠ []
  published : ∀ exchange, s.decryptSession = some exchange → exchange = 0 ∧ s.exchanges ≠ []
  used : ∀ use ∈ s.uses, use.2.2 = 0 ∧ s.exchanges ≠ []

omit [DecidableEq T] in
theorem LazyInv.start (admin : BufferAdministrator) : LazyInv (LazySession.start admin : LazySession T) := by
  constructor
  · rfl
  · exact fun name hname => by cases hname
  · exact Nat.zero_le _
  all_goals intros; contradiction

@[simp] theorem goTo_self (s : LazySession T) (t : T) (stage : Stage) : (s.goTo t stage).stage t = stage := if_pos rfl

theorem goTo_ne (s : LazySession T) {t u : T} (stage : Stage) (h : u ≠ t) :
    (s.goTo t stage).stage u = s.stage u := if_neg h

/-- A thread that goes on without constructing, with no object or with the one there is. -/
theorem LazyInv.goTo {s : LazySession T} (h : LazyInv s) (t : T) {stage : Stage}
    (hconstructing : ∀ call bufferId, stage ≠ .constructing call bufferId)
    (hheld : ∀ exchange, stage.exchange = some exchange → exchange = 0 ∧ s.exchanges ≠ []) :
    LazyInv (s.goTo t stage) := by
  have hother : ∀ {u call bufferId}, (s.goTo t stage).stage u = .constructing call bufferId →
      s.stage u = .constructing call bufferId := by
    intro u call bufferId hu
    by_cases hut : u = t
    · subst hut
      rw [goTo_self] at hu
      exact absurd hu (hconstructing call bufferId)
    · rwa [goTo_ne s stage hut] at hu
  refine ⟨h.created, h.named, h.single, fun u call bufferId hu => h.constructing u call bufferId (hother hu),
    fun u v call call' bufferId bufferId' hu hv => h.alone u v call call' bufferId bufferId' (hother hu) (hother hv),
    fun u exchange hu => ?_, h.published, h.used⟩
  by_cases hut : u = t
  · subst hut
    rw [goTo_self] at hu
    exact hheld exchange hu
  · rw [goTo_ne s stage hut] at hu
    exact h.held u exchange hu

omit [DecidableEq T] in
/-- The administrator is the others' business. -/
theorem LazyInv.withAdmin {s : LazySession T} (h : LazyInv s) {server : ServerSession}
    (hbuffer : server.buffer = s.server.buffer) : LazyInv { s with server := server } := by
  refine ⟨?_, fun name hname => ?_, h.single, fun t call bufferId ht => ?_, h.alone, h.held, h.published, h.used⟩
  · rw [hbuffer]
    exact h.created
  · rw [hbuffer]
    exact h.named name hname
  · rw [hbuffer]
    exact h.constructing t call bufferId ht

/-- A thread that holds no object and constructs none. -/
theorem LazyInv.quiet {s : LazySession T} (h : LazyInv s) (t : T) {stage : Stage}
    (hconstructing : ∀ call bufferId, stage ≠ .constructing call bufferId) (hnone : stage.exchange = none) :
    LazyInv (s.goTo t stage) :=
  h.goTo t hconstructing fun exchange hsome => by
    rw [hnone] at hsome
    cases hsome

/-- The member variable is set to an object that a thread holds. -/
theorem LazyInv.publish {s : LazySession T} (h : LazyInv s) {t : T} {call : Call} {exchange : Nat}
    (ht : s.stage t = .publishing call exchange) (stage : Stage)
    (hconstructing : ∀ call bufferId, stage ≠ .constructing call bufferId) (hnone : stage.exchange = none) :
    LazyInv ({ s with decryptSession := some exchange }.goTo t stage) := by
  have hheld := h.held t exchange (by rw [ht]; rfl)
  have hpublished : LazyInv { s with decryptSession := some exchange } :=
    ⟨h.created, h.named, h.single, h.constructing, h.alone, h.held, fun _ hp => by cases hp; exact hheld, h.used⟩
  exact hpublished.quiet t hconstructing hnone

/-- A call decrypts with the object that it holds. -/
theorem LazyInv.use {s : LazySession T} (h : LazyInv s) {t : T} {call : Call} {exchange : Nat}
    (ht : s.stage t = .decrypting call exchange) :
    LazyInv ({ s with uses := s.uses ++ [(t, call, exchange)] }.goTo t .idle) := by
  have hheld := h.held t exchange (by rw [ht]; rfl)
  have hused : LazyInv { s with uses := s.uses ++ [(t, call, exchange)] } := by
    refine ⟨h.created, h.named, h.single, h.constructing, h.alone, h.held, h.published, fun use huse => ?_⟩
    rcases List.mem_append.1 huse with huse | huse
    · exact h.used use huse
    · rw [List.mem_singleton.1 huse]
      exact hheld
  exact hused.quiet t nofun rfl

/-- The first one to ask. -/
theorem LazyInv.create {s : LazySession T} (h : LazyInv s) (hnone : s.server.buffer = none) (t : T) (call : Call)
    (admin : BufferAdministrator) (bufferId : Text) :
    LazyInv ({ s with server := ⟨admin, some bufferId⟩, created := s.created ++ [bufferId] }.goTo t
      (.constructing call bufferId)) := by
  have hempty : s.exchanges = [] := List.eq_nil_iff_forall_not_mem.2 fun name hname => by
    have hname := h.named name hname
    rw [hnone] at hname
    cases hname
  -- nobody constructs yet: the server has no buffer
  have hnobody : ∀ {u call' id}, s.stage u ≠ .constructing call' id := fun hu => by
    have hbuffer := (h.constructing _ _ _ hu).1
    rw [hnone] at hbuffer
    cases hbuffer
  have honly : ∀ {u call' id}, ({ s with server := ⟨admin, some bufferId⟩, created := s.created ++ [bufferId] }.goTo t
      (.constructing call bufferId)).stage u = .constructing call' id → u = t := fun {u} _ _ hu => by
    by_contra hut
    rw [goTo_ne _ _ hut] at hu
    exact hnobody hu
  refine ⟨?_, fun name hname => ?_, h.single, fun u call' id hu => ?_, fun u v _ _ _ _ hu hv => ?_,
    fun u exchange hu => ?_,
    h.published, h.used⟩
  · show s.created ++ [bufferId] = [bufferId]
    rw [h.created, hnone]
    rfl
  · have hname' : name ∈ s.exchanges := hname
    rw [hempty] at hname'
    cases hname'
  · obtain rfl := honly hu
    rw [goTo_self] at hu
    cases hu
    exact ⟨rfl, hempty⟩
  · rw [honly hu, honly hv]
  · by_cases hut : u = t
    · subst hut
      rw [goTo_self] at hu
      cases hu
    · rw [goTo_ne _ _ hut] at hu
      exact h.held u exchange hu

/-- The one the server created the buffer for constructs the object of its name. -/
theorem LazyInv.construct {s : LazySession T} (h : LazyInv s) {t : T} {call : Call} {bufferId : Text}
    (ht : s.stage t = .constructing call bufferId) :
    LazyInv ({ s with exchanges := s.exchanges ++ [bufferId] }.goTo t (.publishing call s.exchanges.length)) := by
  obtain ⟨hbuffer, hempty⟩ := h.constructing t call bufferId ht
  have hnobody : ∀ {u call' id}, ({ s with exchanges := s.exchanges ++ [bufferId] }.goTo t
      (.publishing call s.exchanges.length)).stage u ≠ .constructing call' id := fun {u} _ _ hu => by
    by_cases hut : u = t
    · subst hut
      rw [goTo_self] at hu
      cases hu
    · rw [goTo_ne _ _ hut] at hu
      exact hut (h.alone _ _ _ _ _ _ hu ht)
  have hne : s.exchanges ++ [bufferId] ≠ [] := by simp
  refine ⟨h.created, fun name hname => ?_, ?_, fun u _ _ hu => absurd hu hnobody,
    fun u _ _ _ _ _ hu => absurd hu hnobody,
    fun u exchange hu => ⟨?_, hne⟩, fun exchange hp => ⟨(h.published exchange hp).1, hne⟩,
    fun use huse => ⟨(h.used use huse).1, hne⟩⟩
  · have hname' : name ∈ s.exchanges ++ [bufferId] := hname
    rw [hempty, List.nil_append, List.mem_singleton] at hname'
    rw [hname']
    exact hbuffer
  · show (s.exchanges ++ [bufferId]).length ≤ 1
    rw [hempty]
    exact Nat.le_refl _
  · by_cases hut : u = t
    · subst hut
      rw [goTo_self, hempty] at hu
      cases hu
      rfl
    · rw [goTo_ne _ _ hut] at hu
      exact (h.held u exchange hu).1

section

variable [NumberType]

theorem createSessionBuffer_cases (s : ServerSession) :
    (∃ admin bufferId, s.buffer = none ∧ createSessionBuffer s = (⟨admin, some bufferId⟩, .created, bufferId)) ∨
      (∃ admin, s.buffer = none ∧ createSessionBuffer s = (⟨admin, none⟩, .noBuffer, [])) ∨
      ∃ name, s.buffer = some name ∧ createSessionBuffer s = (s, .existing, name) := by
  unfold createSessionBuffer
  cases hbuffer : s.buffer with
  | some name => exact .inr (.inr ⟨name, rfl, rfl⟩)
  | none =>
    obtain ⟨admin, locator⟩ := s.admin.aquireBuffer
    cases locator with
    | some bufferId => exact .inl ⟨admin, bufferId, rfl, rfl⟩
    | none => exact .inr (.inl ⟨admin, rfl, rfl⟩)

theorem LazyInv.step {s s' : LazySession T} {action : LazyAction T} (h : LazyInv s)
    (hstep : lazyStep s action = some s') : LazyInv s' := by
  cases action with
  | enter t call =>
    simp only [lazyStep] at hstep
    split at hstep
    · cases hstep
      split <;> exact h.quiet t nofun rfl
    · cases hstep
  | create t =>
    simp only [lazyStep] at hstep
    split at hstep
    · rename_i call _
      rcases createSessionBuffer_cases s.server with
        ⟨admin, bufferId, hnone, hcreate⟩ | ⟨admin, hnone, hcreate⟩ | ⟨name, -, hcreate⟩
      · rw [hcreate] at hstep
        cases hstep
        exact h.create hnone t call admin bufferId
      · rw [hcreate] at hstep
        cases hstep
        exact (h.withAdmin (show ServerSession.buffer ⟨admin, none⟩ = _ from hnone.symm)).quiet t nofun rfl
      · rw [hcreate] at hstep
        cases hstep
        exact h.quiet t nofun rfl
    · cases hstep
  | construct t =>
    simp only [lazyStep] at hstep
    split at hstep
    · rename_i call bufferId ht
      cases hstep
      exact h.construct ht
    · cases hstep
  | publish t =>
    simp only [lazyStep] at hstep
    split at hstep
    · rename_i call exchange ht
      cases hstep
      exact h.publish ht _ nofun rfl
    · cases hstep
  | spin t =>
    simp only [lazyStep] at hstep
    split at hstep
    · cases hstep
      split <;> exact h.quiet t nofun rfl
    · cases hstep
  | load t =>
    simp only [lazyStep] at hstep
    split at hstep
    · cases hstep
      cases hpointer : s.decryptSession with
      | none => exact h.quiet t nofun rfl
      | some exchange => exact h.goTo t nofun fun _ he => by cases he; exact h.published exchange hpointer
    · cases hstep
  | decrypt t =>
    simp only [lazyStep] at hstep
    split at hstep
    · rename_i call exchange ht
      cases hstep
      exact h.use ht
    · cases hstep
  | others admin =>
    cases hstep
    exact h.withAdmin (show ServerSession.buffer { s.server with admin := admin } = _ from rfl)

/-- However many threads call, in every interleaving: the server creates at most one buffer for the session and the
client at most one `DataExchange`, of the same name, and every call that goes on to decrypt uses this one. -/
theorem one_exchange (admin : BufferAdministrator) (actions : List (LazyAction T)) (s : LazySession T)
    (h : Trace.Run lazyStep (fun _ _ => True) (LazySession.start admin) actions s) :
    s.created.length ≤ 1 ∧ (s.exchanges = [] ∨ s.exchanges = s.created) ∧
      ∀ use ∈ s.uses, ∃ name, s.exchanges = [name] ∧ use.2.2 = 0 := by
  have hinv : LazyInv s := h.invariant LazyInv (fun _ _ _ hs _ hstep => hs.step hstep) (.start admin)
  have hexchanges : s.exchanges = [] ∨ ∃ name, s.exchanges = [name] ∧ s.created = [name] := by
    have hsingle := hinv.single
    match hlist : s.exchanges with
    | [] => exact .inl rfl
    | [name] =>
      refine .inr ⟨name, rfl, ?_⟩
      rw [hinv.created, hinv.named name (by rw [hlist]; exact List.mem_cons_self)]
      rfl
    | _ :: _ :: _ =>
      rw [hlist] at hsingle
      simp at hsingle
  refine ⟨?_, ?_, fun use huse => ?_⟩
  · rw [hinv.created]
    cases s.server.buffer <;> simp
  · rcases hexchanges with hnil | ⟨name, hname, hcreated⟩
    · exact .inl hnil
    · exact .inr (hname.trans hcreated.symm)
  · obtain ⟨hzero, hne⟩ := hinv.used use huse
    rcases hexchanges with hnil | ⟨name, hname, -⟩
    · exact absurd hnil hne
    · exact ⟨name, hname, hzero⟩

end

end

/-- Two threads that both find the pointer null: the second one spins until the first has published. -/
theorem one_exchange_two : ∃ s : LazySession Nat,
    Trace.Run lazyStep (fun _ _ => True) (LazySession.start ⟨"/tmp/".toList, 0⟩)
      [.enter 0 .decrypt, .enter 1 .decryptMulti, .create 0, .create 1, .spin 1, .construct 0, .publish 0,
        .spin 1, .load 1,
        .decrypt 1, .load 0, .decrypt 0] s ∧
    s.uses.length = 2 ∧ s.created.length ≤ 1 ∧ (s.exchanges = [] ∨ s.exchanges = s.created) ∧
      ∀ use ∈ s.uses, ∃ name, s.exchanges = [name] ∧ use.2.2 = 0 := by
  have h : (Trace.exec lazyStep (fun _ _ => True) (LazySession.start ⟨"/tmp/".toList, 0⟩ : LazySession Nat)
      [.enter 0 .decrypt, .enter 1 .decryptMulti, .create 0, .create 1, .spin 1, .construct 0, .publish 0,
        .spin 1, .load 1,
        .decrypt 1, .load 0, .decrypt 0]).map (fun s => s.uses.length) = some 2 := by decide +kernel
  obtain ⟨s, hs, hlength⟩ := Option.map_eq_some_iff.1 h
  exact ⟨s, Trace.exec_run hs, hlength, one_exchange _ _ s (Trace.exec_run hs)⟩

end Ocdm.Client
