import FairKernel.Kernel.Basic

/-!
# Taking and giving up process slots

A new process gets a number, a trap frame and a page table that maps only the pages through which it
enters the kernel. Giving a slot up returns every page that the process has, below its size and in
its mappings. The root process is made from an image that is loaded at address 0.
-/

namespace FairKernel

/-- A page table that maps the trampoline and the trap frame, out of the reach of user code. -/
def AddressSpace.entryTable (framePage : Nat) :
    Except Panic (Except MemoryError Unit × PageTable) := do
  match ← PageTable.empty.map trampolineAddress pageSize (.outside trampolinePage)
      { readable := true, executable := true } with
  | (.error e, t) => return (.error e, t)
  | (.ok (), t) =>
    t.map frameAddress pageSize (.pooled framePage) { readable := true, writable := true }

/-- Takes the memory of a process apart and gives its pages back: the trap frame, the pages of the
mappings that it still had, and everything below its size. -/
def AddressSpace.release (space : AddressSpace) (pool : Pool) (mappings : List Mapping)
    (size : Nat) : Except Panic Pool := do
  let pool ← pool.release space.framePage
  let (_, table) ← space.table.unmap trampolineAddress 1
  let (_, table) ← table.unmap frameAddress 1
  let m ← mappings.foldlM
    (fun (m : UserMemory) r => return (← m.unmap r.base r.pageCount).2) ⟨table, pool⟩
  return (← m.clear size).pool

namespace Kernel

/-- The mapping records of a process, in table order. -/
def mappingsOf (k : Kernel) (h : Handle) : List Mapping :=
  k.mappings.toList.filterMap fun record => record.filter fun r => r.owner == h

/-- The lowest slot that belongs to nobody. -/
def freeSlot? (k : Kernel) : Option (Fin slotCount) :=
  k.slots.findFinIdx? fun s => !s.isLive

/-- Hands out the next process number. -/
def takePid : KernelM Pid := do
  let pid := (← get).nextPid
  if pid = maxPid then throw .addOverflow
  modify fun k => { k with nextPid := pid + 1 }
  return pid

/-- Gives a new process its trap frame and its page table. -/
def buildSpace (h : Handle) : KernelM (Except MemoryError Unit) := do
  match (← get).pool.alloc with
  | none => return .error .outOfMemory
  | some (framePage, pool) =>
    let registers := Registers.zero.set .kernelStack
      (UInt64.ofNat (stackBase h.slot + stackPages * pageSize))
    modify fun k => { k with pool := pool.setContents Page.zero (.pooled framePage) }
    let (result, table) ← AddressSpace.entryTable framePage
    modifySlot h fun s => { s with space := some { table, framePage, registers } }
    return result

/-- Empties a slot and gives back everything that its process had. Mapping records stay in the
table, only their pages go. -/
def vacate (h : Handle) : KernelM Unit := do
  let k ← get
  let s := k.slotOf h
  let mappings := k.mappingsOf h
  let pool ← match s.space with
    | none => pure k.pool
    | some space => liftM (space.release k.pool mappings s.size)
  modify fun k => { k with pool }
  if !mappings.isEmpty then note (.leftMappings h.pid mappings.length)
  modifySlot h Slot.vacated

/-- Takes the lowest free slot for a new process. If there is no memory for it the slot is free
again, but the process number is gone. -/
def claim : KernelM (Except ProcessError Handle) := do
  match (← get).freeSlot? with
  | none => return .error .noFreeSlot
  | some slot =>
    let pid ← takePid
    let h : Handle := { slot, pid }
    modifySlot h fun s => { s with state := .used, pid, entity := Entity.initial }
    match ← buildSpace h with
    | .ok () => return .ok h
    | .error e =>
      vacate h
      return .error (.memory e)

/-- Loads an image at address 0 of memory of the given size. -/
def loadImage (image : Bytes) (size : Nat) (m : UserMemory) :
    Except Panic (Except MemoryError Unit × UserMemory) := do
  match ← m.grow 0 size { writable := true, executable := true } with
  | (.error e, m) => return (.error e, m)
  | (.ok _, m) => return m.store 0 image

/-- Makes the root process from an image. There is only one. -/
def startRoot (image : Bytes) : KernelM (Except ProcessError Handle) := do
  if (← get).root.isSome then throw .rootExists
  match ← claim with
  | .error e => return .error e
  | .ok h =>
    let size := max (← pageUp image.length) pageSize
    match ← onMemory h (loadImage image size) with
    | .error e =>
      vacate h
      return .error (.memory e)
    | .ok () =>
      modifyRegisters h fun f => (f.set .pc 0).set .sp (UInt64.ofNat size)
      modifySlot h fun s => { s with size, name := "initcode", state := .runnable }
      modify fun k => { k with root := some h }
      note (.rootStarted h.pid)
      return .ok h

/-- Grows or shrinks the user memory of a slot below the mapping window. Answers the old size. -/
def resize (h : Handle) (change : Int) : KernelM (Except ProcessError Nat) := do
  let size := (← getSlot h).size
  if 0 < change then
    let target := size + change.toNat
    if windowBase < target then return .error (.memory (.badAddress size))
    match ← onMemory h fun m => m.grow size target { writable := true } with
    | .error e => return .error (.memory e)
    | .ok new =>
      modifySlot h fun s => { s with size := new }
      return .ok size
  else if change < 0 then
    let new ← onMemory h fun m => m.shrink size (size - change.natAbs)
    modifySlot h fun s => { s with size := new }
    return .ok size
  else
    return .ok size

end Kernel

end FairKernel
