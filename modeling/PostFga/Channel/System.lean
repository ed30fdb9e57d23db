import PostFga.Channel.Queue
import PostFga.Channel.Wait
import PostFga.Client.Batch
import PostFga.Lib.Transition
import PostFga.Sql.Request
/-
# The channel as a whole: backends, the worker and its RPCs

Every access to a slot's state or pid, every section under `pool_lock` or `queue_lock`, every write
to a payload by a backend, and each of the three things a completion handler does for a slot are a
step of their own. A label says who moves; the steps of different parties come in any order.

| here | there |
| --- | --- |
| `Stage`, `St.advance` | the five functions from `fga_channel_acquire_slot` on (`func_fga.c:129`–`:328`), `fga_channel_acquire_slot` after the pop and `fga_channel_execute_slot` (`channel.c:125`, `:165`) |
| `Raised`              | where the ERROR came from that the function's `PG_CATCH` has caught; `fga_check` has none |
| `WorkerPc`, `St.stepWorker` | `Worker::process` (`worker.cpp:92`) and `Processor::execute` (`processor.cpp:31`) to `wakeBackend` (`:170`) |
| `Rpc`, `St.stepHandler` | an issued call and its completion handler, which writes the response of each of its slots and calls `enqueueCompleted` (`processor.cpp:101`): an append, then `SetLatch` |
| `Act.acquire`         | `acquire_slot` in `fga_channel_acquire_slot`; with an empty pool the call ends by an ERROR |

Of a lone drained slot `execute` makes a `process` and of several a `process_batch`, which hands a
lone item on to the same `handle_request` (`processBatch_one`). Reloads of the settings are left out,
and so is a backend's own latch (`waitStep`).

Three fields are not the program's: `author`, the call whose handler has written a slot's response
last, and `acquired` and `released`, how often a slot has left and entered the free list.
-/

namespace PostFga

inductive Raised where
  /-- Before `fga_channel_execute_slot`. -/
  | before
  /-- In `fga_channel_execute_slot`. -/
  | execute
  /-- After it, before the release. -/
  | response
  /-- After the release. -/
  | formTuple
deriving DecidableEq, Repr

inductive Stage where
  | setPid
  | resetPayload
  | nextRequestId
  /-- The writes to come, and the ERROR after them; `[]` and `none` is before `queue_enqueue`. -/
  | fill (todo : List FieldWrite) (err : Option SqlError)
  /-- The release after a full queue (`channel.c:178`). -/
  | queueFull
  | wakeBgw
  | wait (pc : WaitPc)
  /-- The release of a slot seen CANCELED (`:193`). -/
  | canceled
  /-- `fga_channel_execute_slot` has returned. -/
  | response
  | release
  | formTuple
  /-- The function's `PG_CATCH`, before its release. -/
  | catchBlock (raised : Raised)
deriving DecidableEq, Repr

/-- One call that has taken a slot. -/
structure Job where
  config : FgaConfig
  call : SqlCall
  slot : Nat
  /-- 0 until `nextRequestId`. -/
  requestId : UInt64
deriving DecidableEq, Repr

inductive Backend where
  | idle
  | running (job : Job) (stage : Stage)
  /-- The process has ended. -/
  | gone
deriving DecidableEq, Repr

inductive WorkerPc where
  | waitLatch
  | resetLatch
  | drain
  /-- The drained slots not yet looked at, and those begun. With none left: the hand-over. -/
  | begin (todo begun : List Nat)
  | releaseCanceled (slot : Nat) (todo begun : List Nat)
  | swap
  | handle (slot : Nat) (pc : HandlePc) (rest : List Nat)
deriving DecidableEq, Repr

inductive RpcPc where
  | issued
  | write (o : RpcOutcome)
  | append (o : RpcOutcome)
  | setLatch (o : RpcOutcome)

structure Rpc where
  call : Call
  pc : RpcPc
  /-- The slots not yet appended to the completed queue. -/
  todo : List Nat

structure St where
  pool : FgaChannelSlotPool
  queue : FgaChannelSlotQueue
  requestId : UInt64
  backends : Nat → Backend
  /-- The worker's. -/
  latch : Bool
  worker : WorkerPc
  completed : List Nat
  rpcs : List Rpc
  author : Nat → Option (Call × RpcOutcome)
  acquired : Nat → Nat
  released : Nat → Nat

inductive Act where
  | acquire (pid : Nat) (config : FgaConfig) (call : SqlCall)
  /-- `fails`: an interrupt in `wait_response`, or an ERROR while the result row is built. -/
  | backend (pid : Nat) (fails : Bool)
  | exit (pid : Nat)
  | worker
  /-- The `k`-th call issued completes. -/
  | complete (k : Nat) (o : RpcOutcome)
  | handler (k : Nat)

def SqlCall.isCheck : SqlCall → Bool
  | .check _ => true
  | _ => false

def SqlCall.isCreateStore : SqlCall → Bool
  | .createStore _ => true
  | _ => false

namespace St

def mem (s : St) (i : Nat) : FgaPayload := (s.pool.slots i).payload

def setPayload (s : St) (i : Nat) (p : FgaPayload) : St := { s with pool := s.pool.setPayload i p }

def write (s : St) (i : Nat) (w : FieldWrite) : St := s.setPayload i (w.apply (s.mem i))

def apply (s : St) (e : SlotEffect) (i : Nat) : St :=
  { s with
    pool := e.on i s.pool
    released := match e with
      | .release => Function.update s.released i (s.released i + 1)
      | _ => s.released }

def setBackend (s : St) (b : Nat) (backend : Backend) : St :=
  { s with backends := Function.update s.backends b backend }

def goto (s : St) (b : Nat) (job : Job) (stage : Stage) : St := s.setBackend b (.running job stage)

def finish (s : St) (b : Nat) : St := s.setBackend b .idle

/-- An ERROR: caught by the function, or the end of the call. -/
def raise (s : St) (b : Nat) (job : Job) (raised : Raised) : St :=
  if job.call.isCheck then s.finish b else s.goto b job (.catchBlock raised)

def acquire (s : St) (b : Nat) (config : FgaConfig) (call : SqlCall) : St :=
  match acquireSlot s.pool with
  | none => s
  | some (i, pool) =>
    { s with pool := pool, acquired := Function.update s.acquired i (s.acquired i + 1) }.goto b
      ⟨config, call, i, 0⟩ .setPid

def afterWait (s : St) (b : Nat) (job : Job) : WaitNext → St
  | .goto pc => s.goto b job (.wait pc)
  | .returned .canceled => s.goto b job .canceled
  | .returned _ => s.goto b job .response
  | .rethrown => s.raise b job .execute

/-- The next step of the call `job` of backend `b`. -/
def advance (s : St) (b : Nat) (job : Job) (fails : Bool) : Stage → St
  | .setPid => { s with pool := s.pool.setPid job.slot (some b) }.goto b job .resetPayload
  | .resetPayload => (s.write job.slot .reset).goto b job .nextRequestId
  | .nextRequestId =>
    let n := s.requestId + 1
    let (ws, err) := job.call.writes job.config
    { s with requestId := n }.goto b { job with requestId := n } (.fill (.requestId n :: ws) err)
  | .fill (w :: todo) err => (s.write job.slot w).goto b job (.fill todo err)
  | .fill [] (some _) => s.raise b job .before
  | .fill [] none =>
    match queueEnqueue s.queue (.ofNat job.slot) with
    | none => s.goto b job .queueFull
    | some queue => { s with queue := queue }.goto b job .wakeBgw
  | .queueFull => (s.apply .release job.slot).raise b job .execute
  | .wakeBgw => { s with latch := true }.goto b job (.wait .readState)
  | .wait pc =>
    let (e, next) := waitStep (s.pool.slots job.slot).state fails pc
    (s.apply e job.slot).afterWait b job next
  | .canceled => (s.apply .release job.slot).raise b job .execute
  | .response =>
    -- of the five only `fga_check` goes on after a response that is not OK
    if job.call.isCheck then s.goto b job .release
    else if (s.mem job.slot).response.status ≠ .ok ∨ job.call.isCreateStore ∧ fails then
      s.raise b job .response
    else s.goto b job .release
  | .release =>
    let s := s.apply .release job.slot
    if job.call.isCreateStore then s.goto b job .formTuple else s.finish b
  | .formTuple => if fails then s.raise b job .formTuple else s.finish b
  | .catchBlock _ => (s.apply .release job.slot).finish b

/-- `BackendPidGetProc(slot->backend_pid)`. -/
def found (s : St) (i : Nat) : Bool :=
  match (s.pool.slots i).backendPid with
  | none => false
  | some b => s.backends b != .gone

/-- The next completed slot, or the end of the pass. -/
def handleNext : List Nat → WorkerPc
  | [] => .waitLatch
  | i :: rest => .handle i .readState rest

def issue (c : Call) : Rpc := ⟨c, .issued, c.slots⟩

def stepWorker (s : St) : Option St :=
  match s.worker with
  | .waitLatch => if s.latch then some { s with worker := .resetLatch } else none
  | .resetLatch => some { s with latch := false, worker := .drain }
  | .drain =>
    let (slots, queue) := queueDrain 50 s.queue
    some { s with queue := queue, worker := .begin (slots.map UInt16.toNat) [] }
  | .begin (i :: todo) begun =>
    let (e, next) := beginCas (s.pool.slots i).state
    some { s.apply e i with
      worker := match next with
        | .begun => .begin todo (begun ++ [i])
        | .cancelled => .releaseCanceled i todo begun
        | .unexpected => .begin todo begun }
  | .releaseCanceled i todo begun => some { s.apply .release i with worker := .begin todo begun }
  | .begin [] begun => some { s with rpcs := s.rpcs ++ (processBatch s.mem begun).map issue, worker := .swap }
  | .swap => some { s with completed := [], worker := handleNext s.completed }
  | .handle i pc rest =>
    let (e, next) := handleStep (s.pool.slots i).state (s.found i) pc
    some { s.apply e i with
      worker := match next with
        | some pc => .handle i pc rest
        | none => handleNext rest }

def setRpc (s : St) (k : Nat) (r : Rpc) : St := { s with rpcs := s.rpcs.set k r }

def stepHandler (s : St) (k : Nat) (r : Rpc) : Option St :=
  match r.pc, r.todo with
  | .write o, i :: _ =>
    let s := { s.setPayload i (r.call.complete o (s.mem i)) with
      author := Function.update s.author i (some (r.call, o)) }
    some (s.setRpc k { r with pc := .append o })
  | .append o, i :: todo =>
    some ({ s with completed := s.completed ++ [i] }.setRpc k ⟨r.call, .setLatch o, todo⟩)
  | .setLatch o, _ => some ({ s with latch := true }.setRpc k { r with pc := .write o })
  | _, _ => none

def step (s : St) : Act → Option St
  | .acquire b config call =>
    match s.backends b with
    | .idle => some (s.acquire b config call)
    | _ => none
  | .backend b fails =>
    match s.backends b with
    | .running job stage => some (s.advance b job fails stage)
    | _ => none
  | .exit b =>
    match s.backends b with
    | .idle => some (s.setBackend b .gone)
    | _ => none
  | .worker => s.stepWorker
  | .complete k o =>
    match s.rpcs[k]? with
    | some r =>
      match r.pc with
      | .issued => some (s.setRpc k { r with pc := .write o })
      | _ => none
    | none => none
  | .handler k => (s.rpcs[k]?).bind (s.stepHandler k)

/-- Before the first call, with `n` slots and a ring of capacity `2^k`; `mem` and `values` are what
the segment held. -/
def init (n k : Nat) (mem : Nat → FgaChannelSlot) (values : Nat → UInt16) : St where
  pool := poolInit mem n
  queue := queueInit (.ofNat (2 ^ k)) values
  requestId := 0
  backends _ := .idle
  latch := false
  worker := .waitLatch
  completed := []
  rpcs := []
  author _ := none
  acquired _ := 0
  released _ := 0

end St

def freshSlot (_ : Nat) : FgaChannelSlot := ⟨.empty, none, .zero⟩

/-- The least number of slots, and their ring. -/
def start : St := .init 1024 10 freshSlot fun _ => 0

/-- `m` steps of a backend to which nothing happens. -/
def goOn (b m : Nat) : List Act := List.replicate m (.backend b false)

def checkViewer : SqlCall := .check ⟨.lit "doc", .lit "1", .lit "user", .lit "ann", .lit "viewer"⟩

def storeCreated : RpcOutcome := ⟨.ok, false, fun _ => none, .lit "01H", .lit "docs"⟩

def allowedOutcome : RpcOutcome := ⟨.ok, true, fun _ => none, .empty, .empty⟩

/-- A response ends the call by the ERROR that the function raises for it, or lets the call go on. -/
theorem advance_failure (s : St) (b : Nat) (job : Job) (fails : Bool) : s.advance b job fails .response =
    if (job.call.failure (s.mem job.slot).response fails).isSome then s.raise b job .response
    else s.goto b job .release := by
  cases hcall : job.call with
  | check args => simp [St.advance, SqlCall.failure, SqlCall.isCheck, hcall]
  | writeTuple args | deleteTuple args | createStore name | deleteStore storeId =>
    cases hs : (s.mem job.slot).response.status <;> cases fails <;>
      simp [St.advance, SqlCall.failure, SqlCall.isCheck, SqlCall.isCreateStore, hcall, hs]

theorem processBatch_one (mem : Nat → FgaPayload) (i : Nat) : processBatch mem [i] = process mem i := rfl

end PostFga
