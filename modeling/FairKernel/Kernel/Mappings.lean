import FairKernel.Kernel.Slots

/-!
# Mappings

Mappings are made in the mapping window of a process, filled page by page when they are touched or
all at once, and removed as a whole or from their base on. A mapping that cannot be filled at once
is removed again. Forking copies the records of a process and the pages that they have so far.
-/

namespace FairKernel

namespace Kernel

/-! ### Records -/

/-- The record for a request of a process, if the request is sound in itself. -/
def recordFor (k : Kernel) (h : Handle) (request : MappingRequest) :
    Except MappingError Mapping := do
  if request.address % pageSize ≠ 0 ∨ request.length % pageSize ≠ 0 then throw .misaligned
  if request.length = 0 then throw .badLength
  let base := windowBase + request.address
  if windowEnd < base + request.length then throw .outOfRange
  if request.protection ≠ .readOnly ∧ request.protection ≠ .readWrite then throw .badProtection
  let file ←
    if request.options.anonymous then
      if request.descriptor ≠ noDescriptor ∨ request.offset ≠ 0 then throw .badFlags
      else pure none
    else
      match request.descriptor with
      | .negSucc _ => throw .badDescriptor
      | .ofNat descriptor =>
        match (k.slotOf h).file? descriptor with
        | none => throw .badDescriptor
        | some file =>
          if (request.protection.allowsWrite && !file.writable)
              || (request.protection.allowsRead && !file.readable) then throw .filePermission
          if request.offset % pageSize ≠ 0 then throw .misaligned
          pure (some file)
  return {
    owner := h, file, base, length := request.length, offset := request.offset,
    protection := request.protection, options := request.options }

/-- A record of the mapping table. -/
def record (k : Kernel) (i : Fin mappingLimit) : Option Mapping := k.mappings.get i

/-- Replaces a record of the mapping table. -/
def withRecord (k : Kernel) (i : Fin mappingLimit) (r : Option Mapping) : Kernel :=
  { k with mappings := k.mappings.set i r }

/-- The lowest free record of the mapping table. -/
def freeRecord? (k : Kernel) : Option (Fin mappingLimit) :=
  k.mappings.findFinIdx? Option.isNone

/-- The first record of a process that satisfies a condition. -/
def findRecord? (k : Kernel) (h : Handle) (condition : Mapping → Bool) :
    Option (Fin mappingLimit × Mapping) :=
  (List.finRange mappingLimit).findSome? fun i =>
    ((k.record i).filter fun r => r.owner == h && condition r).map fun r => (i, r)

/-- Replaces a record of the mapping table. -/
def setRecord (i : Fin mappingLimit) (record : Option Mapping) : KernelM Unit :=
  modify fun k => k.withRecord i record

/-! ### Pages -/

/-- Gives a page back to the pool. -/
def releasePage (address : Nat) : KernelM Unit := do
  let pool ← (← get).pool.release address
  modify fun k => { k with pool }

/-- Gives a mapping its page at an address. A page that is there already stays. -/
def installPage (h : Handle) (r : Mapping) (page : Nat) : KernelM (Except MappingError Unit) := do
  match (← get).pool.alloc with
  | none => return .error (.memory .outOfMemory)
  | some (address, pool) =>
    modify fun k => { k with pool }
    match ← r.initialPage page with
    | .error e =>
      releasePage address
      return .error e
    | .ok contents =>
      modify fun k => { k with pool := k.pool.setContents contents (.pooled address) }
      if (← memoryOf h).table.isMapped page then
        releasePage address
        return .ok ()
      else
        match ← onMemory h fun m => m.adopt page address r.permissions with
        | .error e => return .error (.memory e)
        | .ok () =>
          flushTlb
          return .ok ()

/-- Gives a mapping `count` pages from an address on, up to the first that cannot be had. -/
def installPages (h : Handle) (r : Mapping) (page : Nat) :
    Nat → KernelM (Except MappingError Unit)
  | 0 => return .ok ()
  | count + 1 => do
    match ← installPage h r page with
    | .error e => return .error e
    | .ok () => installPages h r (page + pageSize) count

/-! ### Making and removing -/

/-- Maps what a process asks for. Answers the first address. -/
def map (h : Handle) (request : MappingRequest) : KernelM (Except MappingError Nat) := do
  let k ← get
  match k.recordFor h request with
  | .error e => return .error e
  | .ok r =>
    if (k.findRecord? h fun other => other.meets r.base r.stop).isSome then
      return .error .overlap
    match k.freeRecord? with
    | none => return .error .tableFull
    | some i =>
      setRecord i (some r)
      let filled ←
        if r.options.populate then installPages h r r.base r.pageCount else pure (.ok ())
      match filled with
      | .error e =>
        let _ ← onMemory h fun m => m.unmap r.base r.pageCount
        flushTlb
        setRecord i none
        note (.populateFailed h.pid e)
        return .error e
      | .ok () =>
        note (.mapped h.pid r.base r.stop r.protection r.options)
        return .ok r.base

/-- Removes the first `length` bytes of the mapping of a process that starts at `address`. -/
def unmap (h : Handle) (address length : Nat) : KernelM (Except MappingError Unit) := do
  if length = 0 then return .error .badLength
  if address % pageSize ≠ 0 ∨ length % pageSize ≠ 0 then return .error .misaligned
  if address < windowBase ∨ windowEnd < address + length then return .error .outOfRange
  match (← get).findRecord? h fun r => r.base == address with
  | none => return .error .noMatch
  | some (i, r) =>
    if r.length < length then return .error .noMatch
    let rest ← r.dropFirst length
    setRecord i rest
    let freed ← onMemory h fun m => m.unmap address (length / pageSize)
    flushTlb
    note (.unmapped h.pid address length freed)
    return .ok ()

/-- Answers an access to an address of the mapping window whose page may be missing. -/
def touch (h : Handle) (address : Nat) (access : Access) : KernelM (Except MappingError Unit) := do
  match (← get).findRecord? h fun r => r.covers address with
  | none => return .error (.noMapping address)
  | some (_, r) =>
    if access = .write ∧ !r.protection.allowsWrite then return .error (.writeProtected address)
    if (← memoryOf h).table.isMapped (pageDown address) then return .ok ()
    note (.pageTouched h.pid access address)
    installPage h r (pageDown address)

/-! ### Copying -/

/-- Removes all mappings of a process together with their pages. -/
def dropMappings (h : Handle) : List (Fin mappingLimit) → KernelM Unit
  | [] => return ()
  | i :: rest => do
    match ((← get).record i).filter fun r => r.owner == h with
    | none => dropMappings h rest
    | some r =>
      let _ ← onMemory h fun m => m.unmap r.base r.pageCount
      setRecord i none
      dropMappings h rest

/-- Copies the records in a list for a child, with the pages that they have in the table of the
parent. -/
def copyRecords (child : Handle) (parentTable : PageTable) :
    List Mapping → KernelM (Except MappingError Unit)
  | [] => return .ok ()
  | r :: rest => do
    match (← get).freeRecord? with
    | none => return .error .tableFull
    | some i =>
      match ← onMemory child fun m => m.copyRange parentTable r.base r.stop with
      | .error e => return .error (.memory e)
      | .ok () =>
        setRecord i (some { r with owner := child })
        copyRecords child parentTable rest

/-- Copies all mappings of a parent for its child. If that fails the child has none. -/
def copyMappings (parent child : Handle) (parentTable : PageTable) :
    KernelM (Except MappingError Unit) := do
  match ← copyRecords child parentTable ((← get).mappingsOf parent) with
  | .ok () => return .ok ()
  | .error e =>
    dropMappings child (List.finRange mappingLimit)
    return .error e

end Kernel

end FairKernel
