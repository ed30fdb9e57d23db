import PostFga.Channel.Slot
/-
# The steps of the two parties on one slot (`channel.c`, `bgw/processor.cpp`)

Each definition takes what the step reads and answers what it does to the slot and where the
program goes on.

| here | there |
| --- | --- |
| `WaitPc`, `waitStep`     | `wait_response` (`channel.c:55`): the loop (`:66`) and the `PG_CATCH` block (`:80`) |
| `BeginNext`, `beginCas`  | the compare-and-swap of `Processor::beginProcessing` (`processor.cpp:78`); the release after a CANCELED is a step of its own |
| `HandlePc`, `handleStep` | `Processor::handleResponse` (`:130`) and `Processor::wakeBackend` (`:170`) |

`WaitLatch`, `ResetLatch` and `CHECK_FOR_INTERRUPTS` of one turn are one step, which may be taken at
any time: a backend's own latch is not modelled.
-/

namespace PostFga

inductive WaitPc where
  | readState
  | waitLatch
  /-- `PG_CATCH`: the read of `cur`. -/
  | catchReadState
  | catchCancel
  | catchRelease
  | catchWritePid
deriving DecidableEq, Repr

inductive WaitNext where
  | goto (pc : WaitPc)
  | returned (st : FgaChannelSlotState)
  /-- `PG_RE_THROW`. -/
  | rethrown
deriving DecidableEq, Repr

/-- `interrupt`: `CHECK_FOR_INTERRUPTS` raises an ERROR. -/
def waitStep (st : FgaChannelSlotState) (interrupt : Bool) : WaitPc → SlotEffect × WaitNext
  | .readState =>
    (.none, if st = .done ∨ st = .canceled then .returned st else .goto .waitLatch)
  | .waitLatch => (.none, .goto (if interrupt then .catchReadState else .readState))
  | .catchReadState =>
    (.none, match st with
      | .pending | .processing => .goto .catchCancel
      | .done => .goto .catchRelease
      | .empty | .canceled => .goto .catchWritePid)
  | .catchCancel => (.writeState .canceled, .goto .catchWritePid)
  | .catchRelease => (.release, .goto .catchWritePid)
  | .catchWritePid => (.writePid none, .rethrown)

inductive BeginNext where
  | begun
  /-- The worker releases the slot. -/
  | cancelled
  /-- A WARNING, and nothing else. -/
  | unexpected
deriving DecidableEq, Repr

def beginCas : FgaChannelSlotState → SlotEffect × BeginNext
  | .pending => (.writeState .processing, .begun)
  | .canceled => (.none, .cancelled)
  | .empty | .processing | .done => (.none, .unexpected)

inductive HandlePc where
  | readState
  | releaseCanceled
  | writeDone
  /-- `BackendPidGetProc(slot->backend_pid)`. -/
  | lookup
  | releaseUnfound
deriving DecidableEq, Repr

/-- `found`: the process of `backend_pid` exists. -/
def handleStep (st : FgaChannelSlotState) (found : Bool) : HandlePc → SlotEffect × Option HandlePc
  | .readState => (.none, some (if st = .canceled then .releaseCanceled else .writeDone))
  | .releaseCanceled => (.release, none)
  | .writeDone => (.writeState .done, some .lookup)
  | .lookup => (.none, if found then none else some .releaseUnfound)
  | .releaseUnfound => (.release, none)

end PostFga
