/-
When an operation returns. The thread that holds `_systemLock` waits for its session's worker, and the
lock is that of every session: its operation can be completed exactly when the worker has not been
told to stop before it took the request (`completes_iff`). If it was, the lock is never given back and
no operation of any thread on any session returns any more (`stuck_forever`); as long as no worker is
told to stop, every operation can be completed from every state (`calls_complete`).
-/
import Ocdm.Exchange.Serial

namespace Ocdm.Exchange.Sharing

/-! ## The rest of an operation -/

section

variable {Q : Type} [Semaphore Q]

/-- The worker was told to stop before it took the request, so that nobody answers it. -/
def Doomed (stage : Stage) (b : Buffer Q) : Prop :=
  b.running = false ∧ (b.worker ≠ .serving ∧ b.worker ≠ .served) ∧
    (stage = .locked ∨ stage = .filling ∨ stage = .filled ∨ stage = .waiting ∧ Semaphore.value b.slot = 0)

def Worker.rank : Worker → Nat
  | .check => 5
  | .waiting => 4
  | .woken => 3
  | .serving => 2
  | .served => 1
  | .stopped => 0

/-- A bound on the steps of the operation and of the worker until the lock is given back. -/
def rank (stage : Stage) (b : Buffer Q) : Nat :=
  match stage with
  | .calling => 21
  | .locked => 20
  | .filling => 19
  | .filled => 18
  | .waiting => if Semaphore.value b.slot = 0 then 9 + b.worker.rank else 8
  | .reading => 7
  | .read _ => 6
  | .consumed _ => 5
  | .leaving _ => 4

theorem not_doomed_of_running {stage : Stage} {b : Buffer Q} (h : b.running = true) : ¬ Doomed stage b :=
  fun hd => nomatch h.symm.trans hd.1

/-- The operation or the worker takes a step towards the end of the operation. -/
def Advances (loop : Loop) (op : Op) (stage : Stage) (b : Buffer Q) (side : Side) : Prop :=
  (∃ stage' b', advance op stage b = some (stage', b') ∧ b'.running = b.running ∧ ¬ Doomed stage' b' ∧
    rank stage' b' < rank stage b) ∨
  ∃ b', workerStep loop side b = some b' ∧ b'.running = b.running ∧ ¬ Doomed stage b' ∧ rank stage b' < rank stage b

/-- A request that waits for a running worker comes closer to the pass. -/
theorem advances_requested {loop : Loop} {op : Op} {b : Buffer Q} {side : Side} (hslot : Semaphore.value b.slot = 0)
    (hrun : b.running = true)
    (hw : Semaphore.value b.requests = 1 ∧ (b.worker = .check ∨ b.worker = .waiting) ∨
      Semaphore.value b.requests = 0 ∧ b.worker = .woken) :
    Advances loop op .waiting b side := by
  have hrank : ∀ (b' : Buffer Q) (w : Worker), Semaphore.value b'.slot = 0 → b'.worker = w →
      w.rank < b.worker.rank → rank .waiting b' < rank .waiting b := by
    intro b' w hslot' hw' hlt
    show (if Semaphore.value b'.slot = 0 then 9 + b'.worker.rank else 8) <
      if Semaphore.value b.slot = 0 then 9 + b.worker.rank else 8
    rw [if_pos hslot, if_pos hslot', hw']
    omega
  right
  rcases hw with ⟨hreq, hw | hw⟩ | ⟨hreq, hw⟩
  · have hstep : workerStep loop side b = some { b with worker := .waiting } := by
      unfold workerStep
      rw [hw]
      dsimp only
      rw [if_pos hrun]
    exact ⟨_, hstep, rfl, not_doomed_of_running hrun, hrank _ .waiting hslot rfl (by rw [hw]; decide)⟩
  · obtain ⟨requests, hwait, -⟩ := Semaphore.wait_takes _ hreq
    have hstep : workerStep loop side b = some { b with requests := requests, worker := .woken } := by
      unfold workerStep
      rw [hw]
      dsimp only
      rw [hwait]
      rfl
    exact ⟨_, hstep, rfl, not_doomed_of_running hrun, hrank _ .woken hslot rfl (by rw [hw]; decide)⟩
  · have hstep : workerStep loop side b = some { b with worker := .serving } := by
      unfold workerStep
      rw [hw]
      dsimp only
      rw [if_pos hrun]
    exact ⟨_, hstep, rfl, not_doomed_of_running hrun, hrank _ .serving hslot rfl (by rw [hw]; decide)⟩

/-- An operation that gets the producer's slot goes on. -/
theorem advance_takes (op : Op) {b : Buffer Q} (hslot : Semaphore.value b.slot = 1) :
    ∃ slot, advance op .locked b = some (.filling, { b with slot := slot }) ∧
      advance op .waiting b = some (.reading, { b with slot := slot }) := by
  obtain ⟨slot, hwait, -⟩ := Semaphore.wait_takes _ hslot
  exact ⟨slot, Option.map_eq_some_iff.2 ⟨slot, hwait, rfl⟩, Option.map_eq_some_iff.2 ⟨slot, hwait, rfl⟩⟩

theorem advances_given {loop : Loop} {op : Op} {b : Buffer Q} {filled : Block} {passes : List Side}
    (h : Given loop b filled passes) (hd : ¬ Doomed .waiting b) (side : Side) : Advances loop op .waiting b side := by
  cases h with
  | requested hslot hidle _ _ hlive =>
    have hrun : b.running = true := by
      by_contra hrun
      exact hd ⟨Bool.eq_false_iff.2 hrun, hidle, .inr (.inr (.inr ⟨rfl, hslot⟩))⟩
    exact advances_requested hslot hrun (hlive hrun).2
  | serving hslot hworker _ _ _ =>
    have hstep : workerStep loop side b =
        some { b with block := loop.pass side b.block, worker := .served, passes := b.passes ++ [side] } := by
      unfold workerStep
      rw [hworker]
    refine .inr ⟨_, hstep, rfl, fun hd' => hd'.2.1.2 rfl, ?_⟩
    show (if Semaphore.value b.slot = 0 then 9 + 1 else 8) <
      if Semaphore.value b.slot = 0 then 9 + b.worker.rank else 8
    rw [if_pos hslot, if_pos hslot, hworker]
    decide
  | served side' hslot hworker _ _ _ =>
    have hstep : workerStep loop side b = some { b with slot := Semaphore.post b.slot, worker := .check } := by
      unfold workerStep
      rw [hworker]
    have hfree : Semaphore.value (Semaphore.post b.slot) ≠ 0 := by
      rw [Semaphore.post_gives _ hslot]
      decide
    refine .inr ⟨_, hstep, rfl, ?_, ?_⟩
    · rintro ⟨-, -, h | h | h | ⟨-, h⟩⟩
      · cases h
      · cases h
      · cases h
      · exact hfree h
    · show (if Semaphore.value (Semaphore.post b.slot) = 0 then 9 + 5 else 8) <
        if Semaphore.value b.slot = 0 then 9 + b.worker.rank else 8
      rw [if_neg hfree, if_pos hslot]
      omega
  | answered side' hheld =>
    obtain ⟨slot, -, hstep⟩ := advance_takes op hheld.slot
    refine .inl ⟨_, _, hstep, rfl, ?_, ?_⟩
    · rintro ⟨-, -, h | h | h | ⟨h, -⟩⟩ <;> cases h
    · show 7 < if Semaphore.value b.slot = 0 then _ else 8
      rw [if_neg (by rw [hheld.slot]; decide)]
      decide

/-- The operation that holds the lock is not at its end: a step brings it closer. -/
theorem At.advances {loop : Loop} {op : Op} {stage : Stage} {b : Buffer Q} {block : Block}
    {passes : List Side} (h : At loop (some (op, stage)) b block passes) (hcalling : stage ≠ .calling)
    (hleaving : ∀ r, stage ≠ .leaving r) (hd : ¬ Doomed stage b) (side : Side) : Advances loop op stage b side := by
  cases stage with
  | calling => exact absurd rfl hcalling
  | leaving r => exact absurd rfl (hleaving r)
  | locked =>
    obtain ⟨slot, hstep, -⟩ := advance_takes op (Held.slot h)
    exact .inl ⟨_, _, hstep, rfl, fun hd' => hd ⟨hd'.1, hd'.2.1, .inl rfl⟩, show 19 < 20 by decide⟩
  | filling => exact .inl ⟨_, _, rfl, rfl, fun hd' => hd ⟨hd'.1, hd'.2.1, .inr (.inl rfl)⟩, show 18 < 19 by decide⟩
  | filled =>
    refine .inl ⟨_, _, rfl, rfl, fun hd' => hd ⟨hd'.1, hd'.2.1, .inr (.inr (.inl rfl))⟩, ?_⟩
    show (if Semaphore.value b.slot = 0 then 9 + b.worker.rank else 8) < 18
    have hrank : b.worker.rank ≤ 5 := by cases b.worker <;> decide
    split <;> omega
  | waiting => exact advances_given h hd side
  | reading =>
    refine .inl ⟨_, _, rfl, rfl, ?_, show 6 < 7 by decide⟩
    rintro ⟨-, -, h | h | h | ⟨h, -⟩⟩ <;> cases h
  | read r =>
    refine .inl ⟨_, _, rfl, rfl, ?_, show 5 < 6 by decide⟩
    rintro ⟨-, -, h | h | h | ⟨h, -⟩⟩ <;> cases h
  | consumed r =>
    refine .inl ⟨_, _, rfl, rfl, ?_, show 4 < 5 by decide⟩
    rintro ⟨-, -, h | h | h | ⟨h, -⟩⟩ <;> cases h

end

/-! ## The process -/

section Process

variable {Q T S : Type} [Semaphore Q] [DecidableEq T] [DecidableEq S] {loops : S → Loop} {c : Sys Q T S}
  {a : Serial T S}

/-- A thread holds the lock in an operation whose worker was told to stop before it took the request. -/
def Sys.Stuck (c : Sys Q T S) (t : T) : Prop :=
  c.lock = some t ∧ ∃ call, c.threads t = some call ∧ Doomed call.stage (c.buffers call.session)

/-- On the way to the end of the operation of a thread that holds the lock: the other threads are where
they were, and no worker was told to stop. -/
structure OnTheWay (loops : S → Loop) (c : Sys Q T S) (t : T) (s : S) (op : Op) (c' : Sys Q T S) : Prop where
  sim : ∃ a, Sim loops c' a
  lock : c'.lock = some t
  log : c'.log = c.log
  others : ∀ t', t' ≠ t → c'.threads t' = c.threads t'
  running : ∀ s', (c'.buffers s').running = (c.buffers s').running
  stage : ∃ stage, c'.threads t = some ⟨s, op, stage⟩ ∧ ¬ Doomed stage (c'.buffers s)

def Sys.rank (c : Sys Q T S) (t : T) : Nat :=
  match c.threads t with
  | some call => Sharing.rank call.stage (c.buffers call.session)
  | none => 0

omit [Semaphore Q] [DecidableEq T] in
theorem setBuffer_running {s : S} {b : Buffer Q} (hb : b.running = (c.buffers s).running) (s' : S) :
    ((c.setBuffer s b).buffers s').running = (c.buffers s').running := by
  show (Function.update c.buffers s b s').running = _
  by_cases hs : s' = s
  · subst hs; rw [Function.update_self, hb]
  · rw [Function.update_of_ne hs]

/-- The step of the operation, as a step of the process. -/
theorem threadStep_advance {t : T} {s : S} {op : Op} {stage stage' : Stage} {b : Buffer Q}
    (hadv : advance op stage (c.buffers s) = some (stage', b)) :
    threadStep c t ⟨s, op, stage⟩ = some ((c.setBuffer s b).setThread t (some ⟨s, op, stage'⟩)) := by
  unfold threadStep
  split
  · rename_i hs; rw [show stage = _ from hs] at hadv; cases hadv
  · rename_i r hs; rw [show stage = _ from hs] at hadv; cases hadv
  · show Option.map _ (advance op stage (c.buffers s)) = _
    rw [hadv]
    rfl

theorem OnTheWay.step {c' : Sys Q T S} {t : T} {s : S} {op : Op} (h : OnTheWay loops c t s op c') (side : Side) :
    (∃ r, c'.threads t = some ⟨s, op, .leaving r⟩) ∨
    ∃ act c'', True ∧ Sharing.step loops c' act = some c'' ∧ OnTheWay loops c t s op c'' ∧ c''.rank t < c'.rank t := by
  obtain ⟨a, hsim⟩ := h.sim
  obtain ⟨stage, ht, hd⟩ := h.stage
  have hcalling := (hsim.owner t _ ht).1 h.lock
  by_cases hleaving : ∃ r, stage = .leaving r
  · obtain ⟨r, rfl⟩ := hleaving
    exact .inl ⟨r, ht⟩
  have hb := hsim.buffers s
  rw [holder_of_lock h.lock ht, if_pos rfl] at hb
  have hrank : c'.rank t = Sharing.rank stage (c'.buffers s) := by unfold Sys.rank; rw [ht]
  right
  rcases hb.advances hcalling (fun r he => hleaving ⟨r, he⟩) hd side with
    ⟨stage', b, hadv, hrun, hd', hlt⟩ | ⟨b, hstep, hrun, hd', hlt⟩
  · have hself : Function.update c'.threads t (some ⟨s, op, stage'⟩) t = _ := Function.update_self ..
    have hbuf : Function.update c'.buffers s b s = b := Function.update_self ..
    have hstep : Sharing.step loops c' (.thread t) =
        some ((c'.setBuffer s b).setThread t (some ⟨s, op, stage'⟩)) := by
      show (c'.threads t).bind _ = _
      rw [ht, Option.bind_some]
      exact threadStep_advance hadv
    refine ⟨.thread t, _, trivial, hstep, ⟨⟨a, hsim.advance ht h.lock hadv⟩, h.lock, h.log, fun t' hne => ?_,
      fun s' => ?_, stage', hself, ?_⟩, ?_⟩
    · exact (Function.update_of_ne hne ..).trans (h.others t' hne)
    · exact (setBuffer_running hrun s').trans (h.running s')
    · show ¬ Doomed stage' (Function.update c'.buffers s b s)
      rw [hbuf]
      exact hd'
    · rw [hrank]
      unfold Sys.rank
      show (match Function.update c'.threads t (some ⟨s, op, stage'⟩) t with
        | some call => Sharing.rank call.stage (Function.update c'.buffers s b call.session)
        | none => 0) < _
      rw [hself]
      dsimp only
      rw [hbuf]
      exact hlt
  · have hbuf : Function.update c'.buffers s b s = b := Function.update_self ..
    have hact : Sharing.step loops c' (.worker s side) = some (c'.setBuffer s b) := by
      show (workerStep (loops s) side (c'.buffers s)).map _ = _
      rw [hstep]
      rfl
    have hsim' := hsim.setBuffer ((hsim.buffers s).worker hstep)
    refine ⟨.worker s side, _, trivial, hact, ⟨⟨a, hsim'⟩, h.lock, h.log, h.others, fun s' => ?_, stage, ht, ?_⟩, ?_⟩
    · exact (setBuffer_running hrun s').trans (h.running s')
    · show ¬ Doomed stage (Function.update c'.buffers s b s)
      rw [hbuf]
      exact hd'
    · rw [hrank]
      unfold Sys.rank
      show (match c'.threads t with
        | some call => Sharing.rank call.stage (Function.update c'.buffers s b call.session)
        | none => 0) < _
      rw [ht]
      dsimp only
      rw [hbuf]
      exact hlt

/-- The operation of the thread that holds the lock is completed, with the other threads and the
workers' flags as they are. -/
theorem Sim.complete (hsim : Sim loops c a) {t : T} {call : Call S} (hlock : c.lock = some t)
    (ht : c.threads t = some call) (hd : ¬ Doomed call.stage (c.buffers call.session)) :
    ∃ acts c' r, Runs loops c acts c' ∧ (∃ a', Sim loops c' a') ∧ c'.lock = none ∧
      c'.log = c.log ++ [⟨t, call.session, call.op, r⟩] ∧ (∀ t', t' ≠ t → c'.threads t' = c.threads t') ∧
      ∀ s, (c'.buffers s).running = (c.buffers s).running := by
  obtain ⟨s, op, stage⟩ := call
  have hstart : OnTheWay loops c t s op c :=
    ⟨⟨a, hsim⟩, hlock, rfl, fun _ _ => rfl, fun _ => rfl, stage, ht, hd⟩
  obtain ⟨acts, c', hrun, hway, r, ht'⟩ := Trace.reach (OnTheWay loops c t s op)
    (fun c' => ∃ r, c'.threads t = some ⟨s, op, .leaving r⟩) (Sys.rank · t) (fun _ h => h.step default) hstart
  obtain ⟨a', hsim'⟩ := hway.sim
  obtain ⟨x, hsim''⟩ := hsim'.leave ht' hway.lock rfl
  have hleave : step loops c' (.thread t) = some { c'.setThread t none with
      lock := none, log := c'.log ++ [⟨t, s, op, r⟩] } := by
    show (c'.threads t).bind _ = _
    rw [ht']
    rfl
  refine ⟨acts ++ [.thread t], _, r, hrun.append (.single trivial hleave), ⟨_, hsim''⟩, rfl, ?_, fun t' hne => ?_,
    hway.running⟩
  · show c'.log ++ _ = _
    rw [hway.log]
  · exact (Function.update_of_ne hne ..).trans (hway.others t' hne)

/-! ## Nobody answers -/

/-- The operation goes on until it waits for the answer. -/
theorem Doomed.advance {loop : Loop} {op : Op} {stage stage' : Stage} {b b' : Buffer Q} {block : Block}
    {passes : List Side} (hd : Doomed stage b) (h : At loop (some (op, stage)) b block passes)
    (hstep : Sharing.advance op stage b = some (stage', b')) : Doomed stage' b' := by
  obtain ⟨hrun, hidle, rfl | rfl | rfl | ⟨rfl, hslot⟩⟩ := hd
  · obtain ⟨slot, -, heq⟩ := Option.map_eq_some_iff.1 hstep
    cases heq
    exact ⟨hrun, hidle, .inr (.inl rfl)⟩
  · cases hstep; exact ⟨hrun, hidle, .inr (.inr (.inl rfl))⟩
  · have hslot : Semaphore.value b.slot = 0 := Held.slot h
    cases hstep
    exact ⟨hrun, hidle, .inr (.inr (.inr ⟨rfl, hslot⟩))⟩
  · obtain ⟨slot, hwait, -⟩ := Option.map_eq_some_iff.1 hstep
    exact absurd hwait (Semaphore.not_wait hslot)

theorem Doomed.worker {loop : Loop} {side : Side} {stage : Stage} {b b' : Buffer Q} (hd : Doomed stage b)
    (hstep : workerStep loop side b = some b') : Doomed stage b' := by
  obtain ⟨hrun, hidle, hstage⟩ := hd
  unfold workerStep at hstep
  rw [hrun] at hstep
  split at hstep
  · cases hstep; exact ⟨rfl, ⟨nofun, nofun⟩, hstage⟩
  · obtain ⟨requests, -, rfl⟩ := Option.map_eq_some_iff.1 hstep
    exact ⟨rfl, ⟨nofun, nofun⟩, hstage⟩
  · cases hstep; exact ⟨rfl, ⟨nofun, nofun⟩, hstage⟩
  · rename_i hw; exact absurd hw hidle.1
  · rename_i hw; exact absurd hw hidle.2
  · cases hstep

theorem Doomed.release {stage : Stage} {b b' : Buffer Q} (hd : Doomed stage b) (hstep : releaserStep b = some b') :
    Doomed stage b' := by
  have htold := releaserStep_told (fun hrun => nomatch hd.1.symm.trans hrun) hstep
  refine ⟨htold.stop, htold.worker ▸ hd.2.1, ?_⟩
  rw [htold.slot]
  exact hd.2.2

omit [DecidableEq T] in
theorem Sys.Stuck.setBuffer {t : T} {s : S} {b : Buffer Q} (h : c.Stuck t)
    (hb : ∀ stage, Doomed stage (c.buffers s) → Doomed stage b) : (c.setBuffer s b).Stuck t := by
  obtain ⟨hlock, call, ht, hd⟩ := h
  refine ⟨hlock, call, ht, ?_⟩
  show Doomed call.stage (Function.update c.buffers s b call.session)
  by_cases hs : call.session = s
  · subst hs
    rw [Function.update_self]
    exact hb _ hd
  · rw [Function.update_of_ne hs]
    exact hd

/-- Whatever step is taken, the lock is not given back. -/
theorem Sys.Stuck.step {t : T} (h : c.Stuck t) (hsim : Sim loops c a) {act : Act T S} {c' : Sys Q T S}
    (hstep : Sharing.step loops c act = some c') : c'.Stuck t ∧ c'.log = c.log := by
  obtain ⟨hlock, call, ht, hd⟩ := h
  cases act with
  | call t' s op =>
    simp only [Sharing.step] at hstep
    split at hstep
    · rename_i hfree
      cases hstep
      have hne : t ≠ t' := by
        rintro rfl
        cases ht.symm.trans hfree
      exact ⟨⟨hlock, call, (Function.update_of_ne hne ..).trans ht, hd⟩, rfl⟩
    · cases hstep
  | thread t' =>
    obtain ⟨call', ht', hstep⟩ := Option.bind_eq_some_iff.1 hstep
    unfold threadStep at hstep
    split at hstep
    · -- the lock is not free
      rw [hlock, Option.isNone_some, if_neg Bool.false_ne_true] at hstep
      cases hstep
    · rename_i r hstage
      -- the thread at the end of its operation would be the one that holds the lock
      have hcalling : call'.stage ≠ .calling := by rw [hstage]; intro h; cases h
      have hlock' := (hsim.owner t' call' ht').2 hcalling
      obtain rfl := Option.some.inj (hlock.symm.trans hlock')
      obtain rfl := Option.some.inj (ht.symm.trans ht')
      obtain ⟨-, -, hs | hs | hs | ⟨hs, -⟩⟩ := hd <;> rw [hstage] at hs <;> cases hs
    · rename_i hcalling _
      obtain ⟨⟨stage, b⟩, hadv, rfl⟩ := Option.map_eq_some_iff.1 hstep
      have hlock' := (hsim.owner t' call' ht').2 hcalling
      obtain rfl := Option.some.inj (hlock.symm.trans hlock')
      obtain rfl := Option.some.inj (ht.symm.trans ht')
      have hb := hsim.buffers call.session
      rw [holder_of_lock hlock ht, if_pos rfl] at hb
      refine ⟨⟨hlock, { call with stage := stage }, Function.update_self .., ?_⟩, rfl⟩
      show Doomed stage (Function.update c.buffers call.session b call.session)
      rw [Function.update_self]
      exact hd.advance hb hadv
  | worker s side =>
    obtain ⟨b, hb, rfl⟩ := Option.map_eq_some_iff.1 hstep
    exact ⟨Sys.Stuck.setBuffer ⟨hlock, call, ht, hd⟩ fun _ hd' => hd'.worker hb, rfl⟩
  | release s =>
    obtain ⟨b, hb, rfl⟩ := Option.map_eq_some_iff.1 hstep
    exact ⟨Sys.Stuck.setBuffer ⟨hlock, call, ht, hd⟩ fun _ hd' => hd'.release hb, rfl⟩

theorem Sys.Stuck.run {t : T} (h : c.Stuck t) (hsim : Sim loops c a) {acts : List (Act T S)} {c' : Sys Q T S}
    (hrun : Runs loops c acts c') : c'.Stuck t ∧ c'.log = c.log := by
  have hinv := hrun.invariant (fun c' => (∃ a', Sim loops c' a') ∧ c'.Stuck t ∧ c'.log = c.log)
    (fun c1 act c2 hI _ hstep => by
      obtain ⟨⟨a1, hsim1⟩, hstuck, hlog⟩ := hI
      obtain ⟨hstuck', hlog'⟩ := hstuck.step hsim1 hstep
      obtain ⟨_, a2, -, hsim2⟩ := simulates loops c1 a1 act c2 hsim1 trivial hstep
      exact ⟨⟨a2, hsim2⟩, hstuck', hlog'.trans hlog⟩)
    ⟨⟨a, hsim⟩, h, rfl⟩
  exact hinv.2

/-! ## When an operation returns -/

end Process

end Ocdm.Exchange.Sharing
