import PostFga.Lib.SList
import PostFga.Payload
/-
# Slots and their pool (`channel.h:26`, `channel_slot.h`)

| here | there |
| --- | --- |
| `FgaChannelSlotState`, `FgaChannelSlot`, `FgaChannelSlotPool` | `channel.h:26`–`:47`; the nodes of all slots are the pointers of `free`, a process that is `none` is `InvalidPid` |
| `poolInit`    | `pool_init` (`channel_slot.h:18`): pushes slot 0 first |
| `acquireSlot` | `acquire_slot` (`:152`); `none` is an empty list |
| `releaseSlot` | `release_slot` (`:167`) |

`acquireSlot` and `releaseSlot` run under `pool_lock`. The other accesses to a slot do not; they are
the `SlotEffect`s.
-/

namespace PostFga

inductive FgaChannelSlotState where
  | empty | canceled | pending | processing | done
deriving DecidableEq, Repr

structure FgaChannelSlot where
  state : FgaChannelSlotState
  backendPid : Option Nat
  payload : FgaPayload
deriving DecidableEq, Repr

structure FgaChannelSlotPool where
  free : SList
  slots : Nat → FgaChannelSlot

namespace FgaChannelSlotPool

def modify (pool : FgaChannelSlotPool) (i : Nat) (f : FgaChannelSlot → FgaChannelSlot) : FgaChannelSlotPool :=
  { pool with slots := Function.update pool.slots i (f (pool.slots i)) }

def setState (pool : FgaChannelSlotPool) (i : Nat) (st : FgaChannelSlotState) : FgaChannelSlotPool :=
  pool.modify i fun slot => { slot with state := st }

def setPid (pool : FgaChannelSlotPool) (i : Nat) (pid : Option Nat) : FgaChannelSlotPool :=
  pool.modify i fun slot => { slot with backendPid := pid }

def setPayload (pool : FgaChannelSlotPool) (i : Nat) (p : FgaPayload) : FgaChannelSlotPool :=
  pool.modify i fun slot => { slot with payload := p }

end FgaChannelSlotPool

def acquireSlot (pool : FgaChannelSlotPool) : Option (Nat × FgaChannelSlotPool) :=
  pool.free.popHead.map fun (i, free) => (i, { pool with free := free }.setState i .pending)

def releaseSlot (pool : FgaChannelSlotPool) (i : Nat) : FgaChannelSlotPool :=
  { pool.setState i .empty with free := pool.free.pushHead i }

/-- Slots 0 to `maxSlots - 1`; the segment's other memory is `mem`. -/
def poolInit (mem : Nat → FgaChannelSlot) : Nat → FgaChannelSlotPool
  | 0 => ⟨.empty, mem⟩
  | n + 1 =>
    let pool := poolInit mem n
    { free := pool.free.pushHead n, slots := Function.update pool.slots n ⟨.empty, none, .zero⟩ }

/-- What one step does to a slot. -/
inductive SlotEffect where
  | none
  | writeState (st : FgaChannelSlotState)
  | writePid (pid : Option Nat)
  | release
deriving DecidableEq, Repr

def SlotEffect.on : SlotEffect → Nat → FgaChannelSlotPool → FgaChannelSlotPool
  | .none, _, pool => pool
  | .writeState st, i, pool => pool.setState i st
  | .writePid pid, i, pool => pool.setPid i pid
  | .release, i, pool => releaseSlot pool i

/-! ## Field lemmas -/

section
variable (pool : FgaChannelSlotPool) (i : Nat)

theorem modify_slots (f : FgaChannelSlot → FgaChannelSlot) (j : Nat) :
    (pool.modify i f).slots j = if j = i then f (pool.slots i) else pool.slots j := by
  unfold FgaChannelSlotPool.modify
  by_cases h : j = i
  · subst h; simp
  · simp [h]

@[simp] theorem setState_self (st : FgaChannelSlotState) : ((pool.setState i st).slots i).state = st := by
  simp [FgaChannelSlotPool.setState, modify_slots]
@[simp] theorem setState_payload (st : FgaChannelSlotState) (j : Nat) :
    ((pool.setState i st).slots j).payload = (pool.slots j).payload := by
  simp only [FgaChannelSlotPool.setState, modify_slots]; split <;> simp_all
@[simp] theorem setPid_state (pid : Option Nat) (j : Nat) :
    ((pool.setPid i pid).slots j).state = (pool.slots j).state := by
  simp only [FgaChannelSlotPool.setPid, modify_slots]; split <;> simp_all
@[simp] theorem setPid_payload (pid : Option Nat) (j : Nat) :
    ((pool.setPid i pid).slots j).payload = (pool.slots j).payload := by
  simp only [FgaChannelSlotPool.setPid, modify_slots]; split <;> simp_all
@[simp] theorem setPayload_state (p : FgaPayload) (j : Nat) :
    ((pool.setPayload i p).slots j).state = (pool.slots j).state := by
  simp only [FgaChannelSlotPool.setPayload, modify_slots]; split <;> simp_all
@[simp] theorem setPayload_self (p : FgaPayload) : ((pool.setPayload i p).slots i).payload = p := by
  simp [FgaChannelSlotPool.setPayload, modify_slots]
@[simp] theorem releaseSlot_self : ((releaseSlot pool i).slots i).state = .empty :=
  setState_self pool i .empty
@[simp] theorem releaseSlot_payload (j : Nat) :
    ((releaseSlot pool i).slots j).payload = (pool.slots j).payload := setState_payload pool i .empty j

variable {i} {j : Nat}

theorem setState_ne (st : FgaChannelSlotState) (h : j ≠ i) : (pool.setState i st).slots j = pool.slots j := by
  simp [FgaChannelSlotPool.setState, modify_slots, h]
theorem setPid_ne (pid : Option Nat) (h : j ≠ i) : (pool.setPid i pid).slots j = pool.slots j := by
  simp [FgaChannelSlotPool.setPid, modify_slots, h]
theorem setPayload_ne (p : FgaPayload) (h : j ≠ i) : (pool.setPayload i p).slots j = pool.slots j := by
  simp [FgaChannelSlotPool.setPayload, modify_slots, h]
theorem releaseSlot_ne (h : j ≠ i) : (releaseSlot pool i).slots j = pool.slots j :=
  setState_ne pool .empty h

end

/-- The initial free list, the slot pushed last first. -/
def initFree : Nat → List Nat
  | 0 => []
  | n + 1 => n :: initFree n

theorem mem_initFree {i n : Nat} : i ∈ initFree n ↔ i < n := by
  induction n with
  | zero => simp [initFree]
  | succ n ih => rw [initFree, List.mem_cons, ih]; omega

theorem nodup_initFree (n : Nat) : (initFree n).Nodup := by
  induction n with
  | zero => exact List.nodup_nil
  | succ n ih =>
    refine List.nodup_cons.2 ⟨fun h => ?_, ih⟩
    have := mem_initFree.1 h
    omega

/-- **`pool_init`**: every slot is on the free list, EMPTY. -/
theorem poolInit_spec (mem : Nat → FgaChannelSlot) (n : Nat) : (poolInit mem n).free.Spells (initFree n) ∧
    ∀ i, i < n → ((poolInit mem n).slots i).state = .empty := by
  induction n with
  | zero => exact ⟨SList.spells_empty, fun i h => by omega⟩
  | succ n ih =>
    obtain ⟨hs, he⟩ := ih
    refine ⟨hs.pushHead fun h => by have := mem_initFree.1 h; omega, fun i hi => ?_⟩
    by_cases h : i = n
    · subst h; simp [poolInit]
    · have := he i (by omega)
      simpa [poolInit, h] using this

end PostFga
