import FairKernel.Kernel.Mappings
import FairKernel.Kernel.Sleep

/-!
# Parents and children

A process forks into a copy of itself, which starts with the virtual time of its parent. A process
that exits stays as a zombie until its parent takes note of its status; its own children pass to the
root process.
-/

namespace FairKernel

namespace Kernel

/-! ### Forking -/

/-- Copies memory, mappings, registers and open files of a parent for its child. The child sees 0
as the answer of the call that made it. -/
def copyProcess (parent child : Handle) : KernelM (Except ProcessError Unit) := do
  let source ← getSlot parent
  match source.space with
  | none => throw .forkWithoutMemory
  | some space =>
    match ← onMemory child fun m => m.copyRange space.table 0 source.size with
    | .error e => return .error (.memory e)
    | .ok () =>
      modifySlot child fun s => { s with size := source.size }
      match ← copyMappings parent child space.table with
      | .error e => return .error (.mapping e)
      | .ok () =>
        modifyRegisters child fun _ => space.registers.set .a0 0
        modifySlot child fun s => { s with files := source.files, name := source.name }
        return .ok ()

/-- Makes a copy of a process. Answers the number of the child. A failed attempt leaves nothing but
a used up process number. -/
def fork (h : Handle) : KernelM (Except ProcessError Pid) := do
  let inherited := (← getSlot h).entity
  match ← claim with
  | .error e => return .error e
  | .ok child =>
    match ← copyProcess h child with
    | .error e =>
      vacate child
      return .error e
    | .ok () =>
      let entity ← inherited.forked
      modifySlot child fun s => { s with entity, parent := some h, state := .runnable }
      note (.forked h.pid child.pid inherited.vruntime)
      return .ok child.pid

/-! ### Exiting -/

/-- Passes the children of a process to the root process, which is told of it. -/
def adoptOut (h : Handle) : KernelM Unit := do
  let k ← get
  match k.root with
  | none => return ()
  | some root =>
    if k.slots.any fun (s : Slot) => s.parent == some h then
      modify fun k => { k with slots := k.slots.map fun s => s.passedOn h root }
      wake (.process root)

/-- Ends a process with a status. Its files are closed, its children pass to the root process and
its parent is told; the process itself never goes on. The root process must not end. -/
def exit (h : Handle) (status : Int) : KernelM Unit := do
  if (← get).root = some h then
    note (.rootExiting h.pid)
    throw .rootExited
  modifySlot h Slot.closeAll
  adoptOut h
  match (← getSlot h).parent with
  | none => pure ()
  | some parent => wake (.process parent)
  modifySlot h fun s => { s with exitStatus := status, state := .zombie }
  note (.exited h.pid status)
  leaveCpu h

/-! ### Reaping -/

/-- Whether a slot holds a child of `h`, and the one asked for if one is. -/
def isChild (h : Handle) (target : Option Pid) (s : Slot) : Bool :=
  s.parent == some h && s.isLive && target.all fun pid => s.pid == pid

/-- Takes a zombie out of the process table, once its status is written to the memory of its parent
at an address other than 0. -/
def reapZombie (h : Handle) (address : Nat) (slot : Fin slotCount) :
    KernelM (Except ProcessError Pid) := do
  let zombie := (← get).slot slot
  let written ←
    if address = 0 then pure (.ok ()) else storeUser h address (intBytes zombie.exitStatus)
  match written with
  | .error e => return .error (.memory e)
  | .ok () =>
    let child : Handle := ⟨slot, zombie.pid⟩
    vacate child
    modifySlot child fun s => { s with parent := none }
    note (.reaped h.pid zombie.pid)
    return .ok zombie.pid

/-- Looks for a child that has exited and reaps the first one. Answers nothing if the caller has to
wait for that, and an error if waiting is no use. -/
def reap? (h : Handle) (target : Option Pid) (address : Nat) :
    KernelM (Option (Except ProcessError Pid)) := do
  let k ← get
  let children := allSlots.filter fun i => isChild h target (k.slot i)
  match children.find? fun i => (k.slot i).state == .zombie with
  | some i => return some (← reapZombie h address i)
  | none =>
    if children.isEmpty then return some (.error .noChildren)
    else if ← isKilled h then return some (.error .killed)
    else return none

/-- One round of waiting for a child: either something comes of it, or the caller falls asleep
until there is news of a child. -/
def awaitRound (h : Handle) (target : Option Pid) (address : Nat) :
    KernelM (Option (Except ProcessError Pid)) := do
  match ← reap? h target address with
  | none =>
    fallAsleep h (.process h)
    return none
  | some result => return some result

end Kernel

end FairKernel
