/-
Any interleaving of the threads, the workers and the destructors is a serial run: the operations that
have returned gave what they give when they are made one after the other, each alone on its session
(`runs_serial`), because `_systemLock` and the two semaphores let one party at a time at a block
(`exclusive_access`). The relation behind it says for each session what its buffer is at the stage of
the operation that holds the lock.
-/
import Ocdm.Exchange.Sharing

namespace Ocdm.Exchange.Sharing

/-! ## The buffer at a stage -/

section

variable {Q : Type} [Semaphore Q]

/-- The worker has no request in hand and none to take: as long as it is not told to stop nothing was
produced, and afterwards it takes none to the CDM. -/
structure Quiet (b : Buffer Q) : Prop where
  idle : b.worker ≠ .serving ∧ b.worker ≠ .served
  live : b.running = true →
    b.releaser = .alive ∧ Semaphore.value b.requests = 0 ∧ (b.worker = .check ∨ b.worker = .waiting)

/-- The worker is quiet, with the slot free or taken, and the block and the passes are as given. -/
structure Held (slot : Nat) (b : Buffer Q) (block : Block) (passes : List Side) : Prop where
  slot : Semaphore.value b.slot = slot
  quiet : Quiet b
  block : b.block = block
  passes : b.passes = passes

/-- The block was handed over, filled as given: it waits for the worker, is in a pass, was served, or
was handed back. A worker that is told to stop before it takes the request leaves it where it is. -/
inductive Given (loop : Loop) (b : Buffer Q) (filled : Block) (passes : List Side) : Prop where
  | requested (slot : Semaphore.value b.slot = 0) (idle : b.worker ≠ .serving ∧ b.worker ≠ .served)
      (block : b.block = filled) (met : b.passes = passes)
      (live : b.running = true → b.releaser = .alive ∧
        (Semaphore.value b.requests = 1 ∧ (b.worker = .check ∨ b.worker = .waiting) ∨
          Semaphore.value b.requests = 0 ∧ b.worker = .woken))
  | serving (slot : Semaphore.value b.slot = 0) (worker : b.worker = .serving) (block : b.block = filled)
      (met : b.passes = passes) (live : b.running = true → b.releaser = .alive ∧ Semaphore.value b.requests = 0)
  | served (side : Side) (slot : Semaphore.value b.slot = 0) (worker : b.worker = .served)
      (block : b.block = loop.pass side filled) (met : b.passes = passes ++ [side])
      (live : b.running = true → b.releaser = .alive ∧ Semaphore.value b.requests = 0)
  | answered (side : Side) (held : Held 1 b (loop.pass side filled) (passes ++ [side]))

/-- What an operation gives when its answer is the given block. -/
def resultOf (op : Op) (answer : Block) : Result := ⟨answer.status, op.reads.map answer.read⟩

/-- The buffer of a session whose block is `block` between operations, after the given passes, by the
operation that holds the lock on it. -/
def At (loop : Loop) : Option (Op × Stage) → Buffer Q → Block → List Side → Prop
  | none, b, block, passes => Held 1 b block passes
  | some (_, .calling), b, block, passes => Held 1 b block passes
  | some (_, .locked), b, block, passes => Held 1 b block passes
  | some (_, .filling), b, block, passes => Held 0 b block passes
  | some (op, .filled), b, block, passes => Held 0 b (op.fill block) passes
  | some (op, .waiting), b, block, passes => Given loop b (op.fill block) passes
  | some (op, .reading), b, block, passes =>
    ∃ side, Held 0 b (loop.pass side (op.fill block)) (passes ++ [side])
  | some (op, .read r), b, block, passes =>
    ∃ side, Held 0 b (loop.pass side (op.fill block)) (passes ++ [side]) ∧
      r = resultOf op (loop.pass side (op.fill block))
  | some (op, .consumed r), b, block, passes =>
    ∃ side, Held 1 b (loop.pass side (op.fill block)) (passes ++ [side]) ∧
      r = resultOf op (loop.pass side (op.fill block))
  | some (op, .leaving r), b, block, passes =>
    ∃ side, Held 1 b (op.finish (loop.pass side (op.fill block))) (passes ++ [side]) ∧
      r = resultOf op (loop.pass side (op.fill block))

/-! ## The worker and the destructor -/

theorem Held.worker {slot : Nat} {b b' : Buffer Q} {block : Block} {passes : List Side} (h : Held slot b block passes)
    {loop : Loop} {side : Side} (hstep : workerStep loop side b = some b') : Held slot b' block passes := by
  unfold workerStep at hstep
  split at hstep
  · cases hstep
    refine ⟨h.slot, ⟨?_, fun hrun => ?_⟩, h.block, h.passes⟩
    · dsimp only
      split <;> exact ⟨nofun, nofun⟩
    · obtain ⟨halive, hreq, -⟩ := h.quiet.live hrun
      exact ⟨halive, hreq, .inr (if_pos hrun)⟩
  · obtain ⟨requests, hwait, rfl⟩ := Option.map_eq_some_iff.1 hstep
    refine ⟨h.slot, ⟨⟨nofun, nofun⟩, fun hrun => ?_⟩, h.block, h.passes⟩
    obtain ⟨-, hreq, -⟩ := h.quiet.live hrun
    exact absurd hwait (Semaphore.not_wait hreq)
  · rename_i hw
    cases hstep
    -- the worker is awake for the signal of the destructor alone
    have hstop : b.running = false := by
      cases hrun : b.running with
      | false => rfl
      | true =>
        obtain ⟨-, -, hw' | hw'⟩ := h.quiet.live hrun <;> rw [hw] at hw' <;> cases hw'
    refine ⟨h.slot, ⟨?_, fun hrun => ?_⟩, h.block, h.passes⟩
    · rw [hstop]; exact ⟨nofun, nofun⟩
    · rw [hstop] at hrun; cases hrun
  · rename_i hw; exact absurd hw h.quiet.idle.1
  · rename_i hw; exact absurd hw h.quiet.idle.2
  · cases hstep

/-- Every step of the destructor leaves the worker told to stop, and the block, the slot and the passes as
they are. -/
structure Told (b b' : Buffer Q) : Prop where
  slot : b'.slot = b.slot
  worker : b'.worker = b.worker
  block : b'.block = b.block
  passes : b'.passes = b.passes
  stop : b'.running = false

theorem releaserStep_told {b b' : Buffer Q} (halive : b.running = true → b.releaser = .alive)
    (hstep : releaserStep b = some b') : Told b b' := by
  have hstop : b.releaser ≠ .alive → b.running = false := fun hr =>
    Bool.eq_false_iff.2 fun hrun => hr (halive hrun)
  unfold releaserStep at hstep
  split at hstep
  · cases hstep; exact ⟨rfl, rfl, rfl, rfl, rfl⟩
  · rename_i hr
    cases hstep
    exact ⟨rfl, rfl, rfl, rfl, hstop (by rw [hr]; nofun)⟩
  · rename_i hr
    split at hstep
    · cases hstep
      exact ⟨rfl, rfl, rfl, rfl, hstop (by rw [hr]; nofun)⟩
    · cases hstep
  · cases hstep

omit [Semaphore Q] in
theorem Told.not_running {b b' : Buffer Q} (h : Told b b') {P : Prop} (hrun : b'.running = true) : P :=
  nomatch h.stop.symm.trans hrun

theorem Told.slot_value {b b' : Buffer Q} (h : Told b b') {n : Nat} (hslot : Semaphore.value b.slot = n) :
    Semaphore.value b'.slot = n := by
  rw [h.slot]
  exact hslot

theorem Held.release {slot : Nat} {b b' : Buffer Q} {block : Block} {passes : List Side}
    (h : Held slot b block passes) (hstep : releaserStep b = some b') : Held slot b' block passes := by
  have htold := releaserStep_told (fun hrun => (h.quiet.live hrun).1) hstep
  refine ⟨htold.slot_value h.slot, ⟨?_, htold.not_running⟩, htold.block.trans h.block, htold.passes.trans h.passes⟩
  rw [htold.worker]
  exact h.quiet.idle

theorem Given.worker {loop : Loop} {b b' : Buffer Q} {filled : Block} {passes : List Side}
    (h : Given loop b filled passes) {side : Side} (hstep : workerStep loop side b = some b') :
    Given loop b' filled passes := by
  cases h with
  | requested hslot hidle hblock hmet hlive =>
    unfold workerStep at hstep
    split at hstep
    · rename_i hw
      cases hstep
      refine .requested hslot ?_ hblock hmet fun hrun => ?_
      · dsimp only
        split <;> exact ⟨nofun, nofun⟩
      · obtain ⟨halive, ⟨hreq, -⟩ | ⟨-, hw'⟩⟩ := hlive hrun
        · exact ⟨halive, .inl ⟨hreq, .inr (if_pos hrun)⟩⟩
        · rw [hw] at hw'; cases hw'
    · obtain ⟨requests, hwait, rfl⟩ := Option.map_eq_some_iff.1 hstep
      refine .requested hslot ⟨nofun, nofun⟩ hblock hmet fun hrun => ?_
      obtain ⟨halive, ⟨hreq, -⟩ | ⟨hreq, -⟩⟩ := hlive hrun
      · exact ⟨halive, .inr ⟨Semaphore.value_wait hreq hwait, rfl⟩⟩
      · exact absurd hwait (Semaphore.not_wait hreq)
    · rename_i hw
      cases hstep
      cases hrun : b.running with
      | true =>
        refine .serving hslot rfl hblock hmet fun _ => ?_
        obtain ⟨halive, ⟨-, hw' | hw'⟩ | ⟨hreq, -⟩⟩ := hlive hrun
        · rw [hw] at hw'; cases hw'
        · rw [hw] at hw'; cases hw'
        · exact ⟨halive, hreq⟩
      | false => exact .requested hslot ⟨nofun, nofun⟩ hblock hmet nofun
    · rename_i hw; exact absurd hw hidle.1
    · rename_i hw; exact absurd hw hidle.2
    · cases hstep
  | serving hslot hworker hblock hmet hlive =>
    unfold workerStep at hstep
    rw [hworker] at hstep
    cases hstep
    exact .served side hslot rfl (congrArg (loop.pass side) hblock) (congrArg (· ++ [side]) hmet) hlive
  | served side' hslot hworker hblock hmet hlive =>
    unfold workerStep at hstep
    rw [hworker] at hstep
    cases hstep
    refine .answered side' ⟨Semaphore.post_gives _ hslot, ⟨⟨nofun, nofun⟩, fun hrun => ?_⟩, hblock, hmet⟩
    obtain ⟨halive, hreq⟩ := hlive hrun
    exact ⟨halive, hreq, .inl rfl⟩
  | answered side' hheld => exact .answered side' (hheld.worker hstep)

theorem Given.release {loop : Loop} {b b' : Buffer Q} {filled : Block} {passes : List Side}
    (h : Given loop b filled passes) (hstep : releaserStep b = some b') : Given loop b' filled passes := by
  have halive : b.running = true → b.releaser = .alive := fun hrun => by
    cases h with
    | requested _ _ _ _ hlive => exact (hlive hrun).1
    | serving _ _ _ _ hlive => exact (hlive hrun).1
    | served _ _ _ _ _ hlive => exact (hlive hrun).1
    | answered _ hheld => exact (hheld.quiet.live hrun).1
  have htold := releaserStep_told halive hstep
  cases h with
  | requested hslot hidle hblock hmet _ =>
    exact .requested (htold.slot_value hslot) (htold.worker ▸ hidle) (htold.block.trans hblock)
      (htold.passes.trans hmet) htold.not_running
  | serving hslot hworker hblock hmet _ =>
    exact .serving (htold.slot_value hslot) (htold.worker.trans hworker) (htold.block.trans hblock)
      (htold.passes.trans hmet) htold.not_running
  | served side hslot hworker hblock hmet _ =>
    exact .served side (htold.slot_value hslot) (htold.worker.trans hworker) (htold.block.trans hblock)
      (htold.passes.trans hmet) htold.not_running
  | answered side hheld => exact .answered side (hheld.release hstep)

/-- A step of the worker or the destructor that keeps `Held` and `Given` keeps a buffer at its stage. -/
theorem At.of_kept {loop : Loop} {v : Option (Op × Stage)} {b b' : Buffer Q} {block : Block} {passes : List Side}
    (h : At loop v b block passes)
    (hheld : ∀ slot block passes, Held slot b block passes → Held slot b' block passes)
    (hgiven : ∀ filled, Given loop b filled passes → Given loop b' filled passes) : At loop v b' block passes := by
  rcases v with _ | ⟨op, stage⟩
  · exact hheld _ _ _ h
  · cases stage with
    | calling => exact hheld _ _ _ h
    | locked => exact hheld _ _ _ h
    | filling => exact hheld _ _ _ h
    | filled => exact hheld _ _ _ h
    | waiting => exact hgiven _ h
    | reading => obtain ⟨side, h⟩ := h; exact ⟨side, hheld _ _ _ h⟩
    | read r => obtain ⟨side, h, hr⟩ := h; exact ⟨side, hheld _ _ _ h, hr⟩
    | consumed r => obtain ⟨side, h, hr⟩ := h; exact ⟨side, hheld _ _ _ h, hr⟩
    | leaving r => obtain ⟨side, h, hr⟩ := h; exact ⟨side, hheld _ _ _ h, hr⟩

theorem At.worker {loop : Loop} {v : Option (Op × Stage)} {b b' : Buffer Q} {block : Block} {passes : List Side}
    (h : At loop v b block passes) {side : Side} (hstep : workerStep loop side b = some b') :
    At loop v b' block passes :=
  h.of_kept (fun _ _ _ hheld => hheld.worker hstep) fun _ hgiven => hgiven.worker hstep

theorem At.release {loop : Loop} {v : Option (Op × Stage)} {b b' : Buffer Q} {block : Block} {passes : List Side}
    (h : At loop v b block passes) (hstep : releaserStep b = some b') : At loop v b' block passes :=
  h.of_kept (fun _ _ _ hheld => hheld.release hstep) fun _ hgiven => hgiven.release hstep

/-! ## The operation -/

variable {block filled : Block} {passes : List Side}

theorem Held.setBlock {slot : Nat} {b : Buffer Q} (h : Held slot b block passes) (f : Block → Block) :
    Held slot { b with block := f b.block } (f block) passes :=
  ⟨h.slot, ⟨h.quiet.idle, h.quiet.live⟩, congrArg f h.block, h.passes⟩

theorem Held.setSlot {slot slot' : Nat} {b : Buffer Q} (h : Held slot b block passes) {q : Q}
    (hq : Semaphore.value q = slot') : Held slot' { b with slot := q } block passes :=
  ⟨hq, ⟨h.quiet.idle, h.quiet.live⟩, h.block, h.passes⟩

theorem Held.take {b : Buffer Q} (h : Held 1 b block passes) {slot : Q} (hwait : Semaphore.wait b.slot = some slot) :
    Held 0 { b with slot := slot } block passes :=
  h.setSlot (Semaphore.value_wait h.slot hwait)

theorem Held.give {b : Buffer Q} (h : Held 0 b block passes) :
    Held 1 { b with slot := Semaphore.post b.slot } block passes :=
  h.setSlot (Semaphore.post_gives _ h.slot)

/-- The block is handed over by `Produced`. -/
theorem Held.produce {b : Buffer Q} (h : Held 0 b filled passes) (loop : Loop) :
    Given loop { b with requests := Semaphore.post b.requests } filled passes := by
  refine .requested h.slot h.quiet.idle h.block h.passes fun hrun => ?_
  obtain ⟨halive, hreq, hw⟩ := h.quiet.live hrun
  exact ⟨halive, .inl ⟨Semaphore.post_gives _ hreq, hw⟩⟩

/-- The producer's slot comes back only when the request was answered. -/
theorem Given.answered_of_slot {loop : Loop} {b : Buffer Q} (h : Given loop b filled passes) {slot : Q}
    (hwait : Semaphore.wait b.slot = some slot) : ∃ side, Held 1 b (loop.pass side filled) (passes ++ [side]) := by
  cases h with
  | requested hslot => exact absurd hwait (Semaphore.not_wait hslot)
  | serving hslot => exact absurd hwait (Semaphore.not_wait hslot)
  | served _ hslot => exact absurd hwait (Semaphore.not_wait hslot)
  | answered side hheld => exact ⟨side, hheld⟩

theorem At.advance {loop : Loop} {op : Op} {stage stage' : Stage} {b b' : Buffer Q}
    (h : At loop (some (op, stage)) b block passes) (hstep : advance op stage b = some (stage', b')) :
    At loop (some (op, stage')) b' block passes := by
  unfold Sharing.advance at hstep
  split at hstep
  · obtain ⟨slot, hwait, heq⟩ := Option.map_eq_some_iff.1 hstep
    cases heq
    exact Held.take h hwait
  · cases hstep; exact Held.setBlock h op.fill
  · cases hstep; exact Held.produce h loop
  · obtain ⟨slot, hwait, heq⟩ := Option.map_eq_some_iff.1 hstep
    cases heq
    obtain ⟨side, hheld⟩ := Given.answered_of_slot h hwait
    exact ⟨side, hheld.take hwait⟩
  · cases hstep
    obtain ⟨side, hheld⟩ := h
    exact ⟨side, hheld, by rw [hheld.block]; rfl⟩
  · cases hstep
    obtain ⟨side, hheld, hr⟩ := h
    exact ⟨side, hheld.give, hr⟩
  · cases hstep
    obtain ⟨side, hheld, hr⟩ := h
    exact ⟨side, hheld.setBlock op.finish, hr⟩
  · cases hstep
  · cases hstep

end

/-! ## The process -/

/-- The operation that holds the lock, where it is on the session. -/
def Sys.holder {Q T S : Type} [DecidableEq S] (c : Sys Q T S) (s : S) : Option (Op × Stage) :=
  (c.lock.bind c.threads).bind fun call => if call.session = s then some (call.op, call.stage) else none

/-- The state of a process is that of one in which the operations are made one after the other: the
same have returned, with the same results, and the buffer of each session is what it is at the stage
of the operation under way. -/
structure Sim {Q T S : Type} [Semaphore Q] [DecidableEq S] (loops : S → Loop) (c : Sys Q T S) (a : Serial T S) :
    Prop where
  log : c.log = a.log
  owner : ∀ t call, c.threads t = some call → (c.lock = some t ↔ call.stage ≠ .calling)
  held : ∀ t, c.lock = some t → c.threads t ≠ none
  buffers : ∀ s, At (loops s) (c.holder s) (c.buffers s) (a.blocks s) (a.passes s)

section Process

variable {Q T S : Type} [Semaphore Q] [DecidableEq T] [DecidableEq S] {loops : S → Loop} {c : Sys Q T S}
  {a : Serial T S}

omit [Semaphore Q] [DecidableEq T] in
theorem holder_of_lock {t : T} {call : Call S} (hlock : c.lock = some t) (ht : c.threads t = some call) (s : S) :
    c.holder s = if call.session = s then some (call.op, call.stage) else none := by
  unfold Sys.holder
  rw [hlock, Option.bind_some, ht, Option.bind_some]

omit [Semaphore Q] [DecidableEq T] in
theorem holder_of_free (hlock : c.lock = none) (s : S) : c.holder s = none := by
  unfold Sys.holder
  rw [hlock, Option.bind_none, Option.bind_none]

omit [Semaphore Q] in
theorem holder_setThread {t : T} (hlock : c.lock ≠ some t) (call : Option (Call S)) (s : S) :
    (c.setThread t call).holder s = c.holder s := by
  unfold Sys.holder
  show (c.lock.bind (Function.update c.threads t call)).bind _ = _
  cases hl : c.lock with
  | none => rfl
  | some t' =>
    have hne : t' ≠ t := fun he => hlock (he ▸ hl)
    rw [Option.bind_some, Option.bind_some, Function.update_of_ne hne]

theorem Sim.call (h : Sim loops c a) {t : T} (ht : c.threads t = none) (s : S) (op : Op) :
    Sim loops (c.setThread t (some ⟨s, op, .calling⟩)) a := by
  have hlock : c.lock ≠ some t := fun hl => h.held t hl ht
  have hself : Function.update c.threads t (some ⟨s, op, .calling⟩) t = _ := Function.update_self ..
  refine ⟨h.log, fun t' call' ht' => ?_, fun t' hl => ?_, fun s' => ?_⟩
  · by_cases he : t' = t
    · subst he
      rw [← Option.some.inj (hself.symm.trans ht')]
      exact iff_of_false hlock fun hne => hne rfl
    · exact h.owner t' call' ((Function.update_of_ne he ..).symm.trans ht')
  · have he : t' ≠ t := fun he => hlock (he ▸ hl)
    exact fun hn => h.held t' hl ((Function.update_of_ne he ..).symm.trans hn)
  · rw [holder_setThread hlock]
    exact h.buffers s'

/-- The lock is taken. -/
theorem Sim.lock (h : Sim loops c a) {t : T} {call : Call S} (ht : c.threads t = some call) (hlock : c.lock = none) :
    Sim loops { c.setThread t (some { call with stage := .locked }) with lock := some t } a := by
  have hself : Function.update c.threads t (some { call with stage := .locked }) t = _ := Function.update_self ..
  refine ⟨h.log, fun t' call' ht' => ?_, fun t' hl => ?_, fun s => ?_⟩
  · by_cases he : t' = t
    · subst he
      rw [← Option.some.inj (hself.symm.trans ht')]
      exact iff_of_true rfl nofun
    · have hold := h.owner t' call' ((Function.update_of_ne he ..).symm.trans ht')
      rw [hlock] at hold
      exact iff_of_false (fun hl => he (Option.some.inj hl).symm) fun hne => nomatch hold.2 hne
  · rw [← Option.some.inj hl]
    exact fun hn => nomatch hself.symm.trans hn
  · have hb := h.buffers s
    rw [holder_of_free hlock] at hb
    rw [holder_of_lock (c := { c.setThread t _ with lock := some t }) rfl hself]
    split
    · exact hb
    · exact hb

omit [DecidableEq T] [DecidableEq S] in
theorem advance_ne_calling {op : Op} {stage stage' : Stage} {b b' : Buffer Q}
    (hstep : advance op stage b = some (stage', b')) : stage' ≠ .calling := by
  unfold advance at hstep
  split at hstep
  · obtain ⟨slot, -, heq⟩ := Option.map_eq_some_iff.1 hstep
    cases heq; nofun
  · cases hstep; nofun
  · cases hstep; nofun
  · obtain ⟨slot, -, heq⟩ := Option.map_eq_some_iff.1 hstep
    cases heq; nofun
  · cases hstep; nofun
  · cases hstep; nofun
  · cases hstep; nofun
  · cases hstep
  · cases hstep

theorem Sim.advance (h : Sim loops c a) {t : T} {call : Call S} (ht : c.threads t = some call)
    (hlock : c.lock = some t) {stage : Stage} {b : Buffer Q}
    (hstep : Sharing.advance call.op call.stage (c.buffers call.session) = some (stage, b)) :
    Sim loops ((c.setBuffer call.session b).setThread t (some { call with stage := stage })) a := by
  have hself : Function.update c.threads t (some { call with stage := stage }) t = _ := Function.update_self ..
  refine ⟨h.log, fun t' call' ht' => ?_, fun t' hl => ?_, fun s => ?_⟩
  · by_cases he : t' = t
    · subst he
      rw [← Option.some.inj (hself.symm.trans ht')]
      exact iff_of_true hlock (advance_ne_calling hstep)
    · exact h.owner t' call' ((Function.update_of_ne he ..).symm.trans ht')
  · have he : t' = t := Option.some.inj (hl.symm.trans hlock)
    rw [he]
    exact fun hn => nomatch hself.symm.trans hn
  · have hb := h.buffers s
    rw [holder_of_lock hlock ht] at hb
    rw [holder_of_lock (c := (c.setBuffer call.session b).setThread t _) hlock hself]
    show At _ _ (Function.update c.buffers call.session b s) _ _
    by_cases hs : call.session = s
    · subst hs
      rw [if_pos rfl] at hb
      rw [if_pos rfl, Function.update_self]
      exact hb.advance hstep
    · rw [if_neg hs] at hb
      rw [if_neg hs, Function.update_of_ne fun he => hs he.symm]
      exact hb

/-- The lock is given back: the operation is made as a whole. -/
theorem Sim.leave (h : Sim loops c a) {t : T} {call : Call S} (ht : c.threads t = some call)
    (hlock : c.lock = some t) {r : Result} (hstage : call.stage = .leaving r) :
    ∃ x, Sim loops
      { c.setThread t none with lock := none, log := c.log ++ [⟨t, call.session, call.op, r⟩] }
      (a.step loops x) := by
  have hb := h.buffers call.session
  rw [holder_of_lock hlock ht, if_pos rfl, hstage] at hb
  obtain ⟨side, hheld, rfl⟩ := hb
  refine ⟨⟨t, call.session, call.op, side⟩, ?_, fun t' call' ht' => ?_, fun _ => nofun, fun s => ?_⟩
  · show c.log ++ _ = a.log ++ _
    rw [h.log]
    unfold SerialCall.reply
    rw [Op.perform_result, if_pos ⟨rfl, rfl⟩]
    rfl
  · have he : t' ≠ t := by
      rintro rfl
      exact nomatch (Function.update_self ..).symm.trans ht'
    have hold := h.owner t' call' ((Function.update_of_ne he ..).symm.trans ht')
    refine iff_of_false nofun fun hne => ?_
    exact he (Option.some.inj ((hold.2 hne).symm.trans hlock))
  · rw [holder_of_free rfl]
    show Held 1 (c.buffers s) (Function.update a.blocks call.session _ s)
      (Function.update a.passes call.session _ s)
    by_cases hs : call.session = s
    · subst hs
      rw [Function.update_self, Function.update_self]
      unfold SerialCall.reply
      rw [Op.perform_block, if_pos rfl]
      exact hheld
    · have hb := h.buffers s
      rw [holder_of_lock hlock ht, if_neg hs] at hb
      rw [Function.update_of_ne fun he => hs he.symm, Function.update_of_ne fun he => hs he.symm]
      exact hb

omit [DecidableEq T] in
/-- A step of a session's worker or of its destructor. -/
theorem Sim.setBuffer (h : Sim loops c a) {s : S} {b : Buffer Q}
    (hb : At (loops s) (c.holder s) b (a.blocks s) (a.passes s)) : Sim loops (c.setBuffer s b) a := by
  refine ⟨h.log, h.owner, h.held, fun s' => ?_⟩
  show At _ (c.holder s') (Function.update c.buffers s b s') _ _
  by_cases hs : s' = s
  · subst hs
    rw [Function.update_self]
    exact hb
  · rw [Function.update_of_ne hs]
    exact h.buffers s'

theorem Sim.thread (h : Sim loops c a) {t : T} {call : Call S} (ht : c.threads t = some call) {c' : Sys Q T S}
    (hstep : threadStep c t call = some c') : Sim loops c' a ∨ ∃ x, Sim loops c' (a.step loops x) := by
  have howner := h.owner t call ht
  unfold threadStep at hstep
  split at hstep
  · split at hstep
    · rename_i hfree
      cases hstep
      exact .inl (h.lock ht (Option.isNone_iff_eq_none.1 hfree))
    · cases hstep
  · rename_i r hstage
    cases hstep
    exact .inr (h.leave ht (howner.2 (by rw [hstage]; nofun)) hstage)
  · rename_i hcalling _
    obtain ⟨⟨stage, b⟩, hadv, rfl⟩ := Option.map_eq_some_iff.1 hstep
    exact .inl (h.advance ht (howner.2 hcalling) hadv)

/-- Every step of the process is none of the serial one, or a whole operation. -/
theorem simulates (loops : S → Loop) :
    Refine.Simulates (step loops : Sys Q T S → Act T S → Option (Sys Q T S)) (fun _ _ => True)
      (fun (a : Serial T S) x => some (a.step loops x)) (fun _ _ => True) (Sim loops) := by
  refine Refine.simulates_of_steps fun c a act c' h _ hstep => ?_
  cases act with
  | call t s op =>
    simp only [step] at hstep
    split at hstep
    · rename_i ht
      cases hstep
      exact .inl (h.call ht s op)
    · cases hstep
  | thread t =>
    obtain ⟨call, ht, hstep⟩ := Option.bind_eq_some_iff.1 hstep
    rcases h.thread ht hstep with h' | ⟨x, h'⟩
    · exact .inl h'
    · exact .inr ⟨x, _, trivial, rfl, h'⟩
  | worker s side =>
    obtain ⟨b, hb, rfl⟩ := Option.map_eq_some_iff.1 hstep
    exact .inl (h.setBuffer ((h.buffers s).worker hb))
  | release s =>
    obtain ⟨b, hb, rfl⟩ := Option.map_eq_some_iff.1 hstep
    exact .inl (h.setBuffer ((h.buffers s).release hb))

/-- What the passes on a session have met: that of the operations that have returned and, if one is under way,
at most one more. -/
theorem At.passes {loop : Loop} {v : Option (Op × Stage)} {b : Buffer Q} {block : Block} {passes : List Side}
    (h : At loop v b block passes) : b.passes = passes ∨ ∃ side, b.passes = passes ++ [side] := by
  rcases v with _ | ⟨op, stage⟩
  · exact .inl (Held.passes h)
  · cases stage with
    | calling => exact .inl (Held.passes h)
    | locked => exact .inl (Held.passes h)
    | filling => exact .inl (Held.passes h)
    | filled => exact .inl (Held.passes h)
    | waiting =>
      cases h with
      | requested _ _ _ hmet _ => exact .inl hmet
      | serving _ _ _ hmet _ => exact .inl hmet
      | served side _ _ _ hmet _ => exact .inr ⟨side, hmet⟩
      | answered side hheld => exact .inr ⟨side, hheld.passes⟩
    | reading => obtain ⟨side, hheld⟩ := h; exact .inr ⟨side, hheld.passes⟩
    | read r => obtain ⟨side, hheld, -⟩ := h; exact .inr ⟨side, hheld.passes⟩
    | consumed r => obtain ⟨side, hheld, -⟩ := h; exact .inr ⟨side, hheld.passes⟩
    | leaving r => obtain ⟨side, hheld, -⟩ := h; exact .inr ⟨side, hheld.passes⟩

/-- Who accesses blocks. -/
inductive Party (T : Type) where
  | thread (t : T)
  | worker
deriving DecidableEq, Repr

/-- The stages at which an operation writes or reads the block. -/
def Stage.accesses : Stage → Bool
  | .filling => true
  | .reading => true
  | .consumed _ => true
  | _ => false

/-- A party is about to write or read the block of a session. -/
def Accesses (c : Sys Q T S) (s : S) : Party T → Prop
  | .thread t => ∃ call, c.threads t = some call ∧ call.session = s ∧ call.stage.accesses = true
  | .worker => (c.buffers s).worker = .serving

theorem At.quiet {loop : Loop} {op : Op} {stage : Stage} {b : Buffer Q} {block : Block}
    {passes : List Side} (h : At loop (some (op, stage)) b block passes) (hstage : stage.accesses = true) :
    b.worker ≠ .serving := by
  cases stage with
  | filling => exact (Held.quiet h).idle.1
  | reading => obtain ⟨_, hheld⟩ := h; exact hheld.quiet.idle.1
  | consumed r => obtain ⟨_, hheld, -⟩ := h; exact hheld.quiet.idle.1
  | _ => cases hstage

omit [DecidableEq T] in
theorem Sim.holds (h : Sim loops c a) {s : S} {t : T} (ht : Accesses c s (.thread t)) :
    c.lock = some t ∧ (c.buffers s).worker ≠ .serving := by
  obtain ⟨call, ht, rfl, hstage⟩ := ht
  have hlock := (h.owner t call ht).2 fun hcalling => by rw [hcalling] at hstage; cases hstage
  have hb := h.buffers call.session
  rw [holder_of_lock hlock ht, if_pos rfl] at hb
  exact ⟨hlock, hb.quiet hstage⟩

end Process

end Ocdm.Exchange.Sharing
