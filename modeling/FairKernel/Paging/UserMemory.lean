import FairKernel.Memory.Pool
import FairKernel.Paging.Table

/-!
# User memory

A page table together with the pool that its pages come from. Memory is grown and shrunk at its
end, copied page by page into another table, and written and read through the permissions of each
page. Growing and copying are undone as a whole when they fail part of the way.
-/

namespace FairKernel

/-- A page table and the pool behind it. -/
structure UserMemory where
  table : PageTable
  pool : Pool

namespace UserMemory

variable (m : UserMemory)

/-! ### Removing pages -/

/-- Unmaps `count` pages from `base` on and gives them back. Answers how many of them there
were. -/
def unmap (base count : Nat) : Except Panic (Nat × UserMemory) := do
  let (removed, table) ← m.table.unmap base count
  let pool ← m.pool.reclaimAll removed
  return (removed.length, { table, pool })

/-- Shrinks memory of `old` bytes to `new` bytes. Answers the size that it has afterwards. -/
def shrink (old new : Nat) : Except Panic (Nat × UserMemory) := do
  if old ≤ new then return (old, m)
  let low ← pageUp new
  let high ← pageUp old
  if low < high then
    let (_, m) ← m.unmap low ((high - low) / pageSize)
    return (new, m)
  else
    return (new, m)

/-- Gives back all pages below `size`. -/
def clear (size : Nat) : Except Panic UserMemory := do
  if size = 0 then return m
  let stop ← pageUp size
  return (← m.unmap 0 (stop / pageSize)).2

/-! ### Adding pages -/

/-- Maps the page from `virtual` on to a page of the pool, or gives that page back if that
fails. -/
def adopt (virtual address : Nat) (permissions : Permissions) :
    Except Panic (Except MemoryError Unit × UserMemory) := do
  match ← m.table.map virtual pageSize (.pooled address) permissions with
  | (.ok (), table) => return (.ok (), { m with table })
  | (.error e, table) => return (.error e, { table, pool := ← m.pool.release address })

/-- Adds `count` pages of zeros from `virtual` on. On failure answers also the page that could not
be added; the pages before it stay. -/
def addPages (m : UserMemory) (virtual : Nat) (permissions : Permissions) :
    Nat → Except Panic (Except (Nat × MemoryError) Unit × UserMemory)
  | 0 => .ok (.ok (), m)
  | count + 1 =>
    match m.pool.alloc with
    | none => .ok (.error (virtual, .outOfMemory), m)
    | some (address, pool) => do
      let pool := pool.setContents Page.zero (.pooled address)
      match ← { m with pool }.adopt virtual address permissions with
      | (.ok (), m) => addPages m (virtual + pageSize) permissions count
      | (.error e, m) => return (.error (virtual, e), m)

/-- What every page of user memory may be used for. -/
def basePermissions : Permissions := { readable := true, user := true }

/-- Grows memory of `old` bytes to `new` bytes with pages of zeros that user code may read and,
as far as `extra` says, use otherwise. Answers the size that it has afterwards. On failure the
pages added are removed again. -/
def grow (old new : Nat) (extra : Permissions) :
    Except Panic (Except MemoryError Nat × UserMemory) := do
  if new < old then return (.ok old, m)
  let start ← pageUp old
  match ← m.addPages start (basePermissions.union extra) (pagesIn (new - start)) with
  | (.ok (), m) => return (.ok new, m)
  | (.error (virtual, e), m) => return (.error e, (← m.shrink virtual old).2)

/-! ### Copying pages -/

/-- Copies `count` pages of `parent` from `virtual` on into fresh pages, keeping permissions and
skipping pages that `parent` does not have. On failure answers also the page that could not be
copied; the pages before it stay. -/
def copyPages (m : UserMemory) (parent : PageTable) (virtual : Nat) :
    Nat → Except Panic (Except (Nat × MemoryError) Unit × UserMemory)
  | 0 => .ok (.ok (), m)
  | count + 1 =>
    match parent.lookup virtual with
    | none => copyPages m parent (virtual + pageSize) count
    | some (source, permissions) =>
      match m.pool.alloc with
      | none => .ok (.error (virtual, .outOfMemory), m)
      | some (address, pool) => do
        let pool := pool.setContents (pool.contents source) (.pooled address)
        match ← { m with pool }.adopt virtual address permissions with
        | (.ok (), m) => copyPages m parent (virtual + pageSize) count
        | (.error e, m) => return (.error (virtual, e), m)

/-- Copies the pages of `parent` from `start` up to `stop` into fresh pages. On failure the
pages of the range up to the failing one are unmapped again. -/
def copyRange (parent : PageTable) (start stop : Nat) :
    Except Panic (Except MemoryError Unit × UserMemory) := do
  match ← m.copyPages parent start (pagesIn (stop - start)) with
  | (.ok (), m) => return (.ok (), m)
  | (.error (virtual, e), m) =>
    return (.error e, (← m.unmap start ((virtual - start) / pageSize)).2)

/-! ### Access to bytes -/

/-- The physical page behind a page that user code may use in the way that `allowed` tests. -/
def access (page : Nat) (allowed : Permissions → Bool) : Except MemoryError Physical :=
  match m.table.lookup page with
  | none => .error (.notMapped page)
  | some (physical, permissions) =>
    if allowed permissions then .ok physical else .error (.permissionDenied page)

/-- Writes bytes to user memory from `address` on, one page after the other. The first page that
cannot be written stops it; the bytes before that page are written. -/
def store (m : UserMemory) (address : Nat) (bytes : Bytes) : Except MemoryError Unit × UserMemory :=
  if _h : bytes = [] then (.ok (), m)
  else
    match m.access (pageDown address) Permissions.userWritable with
    | .error e => (.error e, m)
    | .ok physical =>
      let offset := address % pageSize
      let page := (m.pool.contents physical).write offset (bytes.take (pageSize - offset))
      store { m with pool := m.pool.setContents page physical } (pageDown address + pageSize)
        (bytes.drop (pageSize - offset))
termination_by bytes.length
decreasing_by
  have : address % pageSize < pageSize := Nat.mod_lt _ (by decide)
  have : 0 < bytes.length := List.length_pos_iff.2 _h
  simp only [List.length_drop]
  omega

/-- Reads `count` bytes of user memory from `address` on, one page after the other. The first page
that cannot be read stops it; the bytes before that page are answered in any case. -/
def load (m : UserMemory) (address count : Nat) : Bytes × Except MemoryError Unit :=
  if _h : count = 0 then ([], .ok ())
  else
    match m.access (pageDown address) Permissions.user with
    | .error e => ([], .error e)
    | .ok physical =>
      let offset := address % pageSize
      let piece := (m.pool.contents physical).read offset (min (pageSize - offset) count)
      let (rest, result) := load m (pageDown address + pageSize) (count - (pageSize - offset))
      (piece ++ rest, result)
termination_by count
decreasing_by
  have : address % pageSize < pageSize := Nat.mod_lt _ (by decide)
  omega

/-- Reads `count` bytes of user memory, or says why that is not possible. -/
def load? (address count : Nat) : Except MemoryError Bytes :=
  let (bytes, result) := m.load address count
  result.map fun () => bytes

end UserMemory

end FairKernel
