/-
The decrypt operations of any number of threads on any number of sessions (open_cdm_impl.h,
`Decrypt`, `DecryptMulti`, `Decrypt_fps`; FrameworkRPC.cpp, the worker and the destructor of the
server's `DataExchange`). All operations of a process share `_systemLock`; each session has its own
buffer, with a semaphore for the producer and one for the consumer, and its own worker. The semaphores
are Thunder's: what is relied on of them are the laws of `Semaphore`. A `RequestProduce` or
`RequestConsume` waits without a limit, so it ends only when it has the semaphore.
-/
import Ocdm.Exchange.Fps
import Ocdm.Exchange.Worker
import Ocdm.Lib.Refine
import Ocdm.Lib.Semaphore
import Mathlib.Logic.Function.Basic

namespace Ocdm.Exchange.Sharing

/-! ## A session's buffer and its worker -/

/-- The loop a worker runs, by the name of the key system; `batch` says whether the CDM session has
the batch interface. -/
inductive Loop where
  | fps
  | plain (batch : Bool)
deriving DecidableEq, Repr

/-- What a pass of the worker meets: the CDM, and what `calloc` returns. -/
structure Side where
  cdm : Cdm
  fpsCdm : FpsCdm
  memory : Option Nat

/-- A CDM that leaves everything as it is. -/
instance : Inhabited Side where
  default := ⟨fun _ buffer _ => ⟨0, buffer, 0, none⟩,
    fun p => ⟨0, p.payload, List.replicate p.dataSize.toNat 0, List.length_replicate⟩, none⟩

/-- What a pass makes of the block. -/
def Loop.pass : Loop → Side → Block → Block
  | .fps, side, b => (fpsPass side.memory side.fpsCdm b).1
  | .plain batch, side, b => (workerPass batch side.cdm b).1

/-- Where the worker is: at the `while` test, in `RequestConsume`, at the test after it, in a pass,
before `Consumed`, or out of the loop. -/
inductive Worker where
  | check
  | waiting
  | woken
  | serving
  | served
  | stopped
deriving DecidableEq, Repr

/-- The destructor of the server's `DataExchange`: the thread is told to stop, signalled and waited for. -/
inductive Releaser where
  | alive
  | stopping
  | signalled
  | joined
deriving DecidableEq, Repr

/-- A session's buffer. `slot` and `requests` are the producer's and the consumer's semaphore; `passes` is what the
passes of the worker have met so far. -/
structure Buffer (Q : Type) where
  block : Block
  slot : Q
  requests : Q
  worker : Worker
  running : Bool
  releaser : Releaser
  passes : List Side

section

variable {Q : Type} [Semaphore Q]

def workerStep (loop : Loop) (side : Side) (b : Buffer Q) : Option (Buffer Q) :=
  match b.worker with
  | .check => some { b with worker := if b.running then .waiting else .stopped }
  -- `RequestConsume`
  | .waiting => (Semaphore.wait b.requests).map fun requests => { b with requests := requests, worker := .woken }
  | .woken => some { b with worker := if b.running then .serving else .check }
  | .serving => some { b with block := loop.pass side b.block, worker := .served, passes := b.passes ++ [side] }
  -- `Consumed`
  | .served => some { b with slot := Semaphore.post b.slot, worker := .check }
  | .stopped => none

def releaserStep (b : Buffer Q) : Option (Buffer Q) :=
  match b.releaser with
  | .alive => some { b with running := false, releaser := .stopping }
  | .stopping => some { b with requests := Semaphore.post b.requests, releaser := .signalled }
  | .signalled => if b.worker = .stopped then some { b with releaser := .joined } else none
  | .joined => none

end

/-! ## An operation -/

/-- Where a thread is in an operation: before `_systemLock`, before the first `RequestProduce`, at the
setters, before `Produced`, before the second `RequestProduce`, at `Read` and `Status`, before
`Consumed`, at what is written after it, and before the lock is given back. -/
inductive Stage where
  | calling
  | locked
  | filling
  | filled
  | waiting
  | reading
  | read (r : Result)
  | consumed (r : Result)
  | leaving (r : Result)
deriving DecidableEq, Repr

/-- The next step of an operation that holds the lock. -/
def advance {Q : Type} [Semaphore Q] (op : Op) : Stage → Buffer Q → Option (Stage × Buffer Q)
  | .locked, b => (Semaphore.wait b.slot).map fun slot => (.filling, { b with slot := slot })
  | .filling, b => some (.filled, { b with block := op.fill b.block })
  | .filled, b => some (.waiting, { b with requests := Semaphore.post b.requests })
  | .waiting, b => (Semaphore.wait b.slot).map fun slot => (.reading, { b with slot := slot })
  | .reading, b => some (.read ⟨b.block.status, op.reads.map b.block.read⟩, b)
  | .read r, b => some (.consumed r, { b with slot := Semaphore.post b.slot })
  | .consumed r, b => some (.leaving r, { b with block := op.finish b.block })
  | .calling, _ => none
  | .leaving _, _ => none

/-! ## The process -/

/-- An operation a thread is in. -/
structure Call (S : Type) where
  session : S
  op : Op
  stage : Stage

/-- An operation that has returned. -/
structure Completed (T S : Type) where
  thread : T
  session : S
  op : Op
  result : Result

/-- The threads by their identity, the thread that holds `_systemLock`, the sessions, and the
operations that have returned, in order. -/
structure Sys (Q T S : Type) where
  threads : T → Option (Call S)
  lock : Option T
  buffers : S → Buffer Q
  log : List (Completed T S)

inductive Act (T S : Type) where
  /-- a thread that is in no operation enters one -/
  | call (t : T) (s : S) (op : Op)
  /-- the next step of the operation a thread is in -/
  | thread (t : T)
  /-- the next step of a session's worker -/
  | worker (s : S) (side : Side)
  /-- the next step of the destructor of a session's buffer -/
  | release (s : S)

variable {Q T S : Type} [DecidableEq T] [DecidableEq S]

def Sys.setThread (c : Sys Q T S) (t : T) (call : Option (Call S)) : Sys Q T S :=
  { c with threads := Function.update c.threads t call }

def Sys.setBuffer (c : Sys Q T S) (s : S) (b : Buffer Q) : Sys Q T S :=
  { c with buffers := Function.update c.buffers s b }

def threadStep [Semaphore Q] (c : Sys Q T S) (t : T) (call : Call S) : Option (Sys Q T S) :=
  match call.stage with
  | .calling =>
    if c.lock.isNone then some { c.setThread t (some { call with stage := .locked }) with lock := some t } else none
  | .leaving r =>
    some { c.setThread t none with lock := none, log := c.log ++ [⟨t, call.session, call.op, r⟩] }
  | stage =>
    (advance call.op stage (c.buffers call.session)).map fun (stage, b) =>
      (c.setBuffer call.session b).setThread t (some { call with stage := stage })

def step [Semaphore Q] (loops : S → Loop) (c : Sys Q T S) : Act T S → Option (Sys Q T S)
  | .call t s op =>
    match c.threads t with
    | none => some (c.setThread t (some ⟨s, op, .calling⟩))
    | some _ => none
  | .thread t => (c.threads t).bind (threadStep c t)
  | .worker s side => (workerStep (loops s) side (c.buffers s)).map (c.setBuffer s)
  | .release s => (releaserStep (c.buffers s)).map (c.setBuffer s)

/-- Sessions whose workers have been started, with what is in their blocks, and no operation. -/
def start [Semaphore Q] (blocks : S → Block) : Sys Q T S :=
  ⟨fun _ => none, none,
    fun s => ⟨blocks s, Semaphore.create true, Semaphore.create false, .check, true, .alive, []⟩, []⟩

/-- A run in any order of steps. -/
abbrev Runs [Semaphore Q] (loops : S → Loop) (c : Sys Q T S) (acts : List (Act T S)) (c' : Sys Q T S) : Prop :=
  Trace.Run (step loops) (fun _ _ => True) c acts c'

/-! ## One operation after the other -/

/-- The process as its callers are to see it: the blocks, what the passes have met, and the operations made. -/
structure Serial (T S : Type) where
  blocks : S → Block
  passes : S → List Side
  log : List (Completed T S)

/-- An operation of a thread, and what the pass for it meets. -/
structure SerialCall (T S : Type) where
  thread : T
  session : S
  op : Op
  side : Side

/-- A whole operation at once. -/
def SerialCall.reply (loops : S → Loop) (x : SerialCall T S) (b : Block) : Reply :=
  x.op.perform ⟨errorNone, errorNone, (loops x.session).pass x.side⟩ b

def Serial.step (loops : S → Loop) (a : Serial T S) (x : SerialCall T S) : Serial T S where
  blocks := Function.update a.blocks x.session (x.reply loops (a.blocks x.session)).block
  passes := Function.update a.passes x.session (a.passes x.session ++ [x.side])
  log := a.log ++ [⟨x.thread, x.session, x.op, (x.reply loops (a.blocks x.session)).result⟩]

end Ocdm.Exchange.Sharing
