import FairKernel.Paging.UserMemory

/-!
# A workbench of page tables

Any number of page tables that draw from one pool, driven by commands. A command that names a table
that is not there is refused. So is one that would touch the contents of mapped pages once some
entry was pointed outside the pool.
-/

namespace FairKernel

/-- Page tables over one pool. -/
structure Workbench where
  tables : Array PageTable
  pool : Pool
  /-- Whether some entry was ever pointed outside the pool. -/
  pointsOutside : Bool := false

namespace Workbench

open Pool (Place)

/-- What can be asked of a workbench. -/
inductive Command
  /-- A new table. -/
  | create
  /-- A page from the pool. -/
  | alloc
  | map (table virtual size : Nat) (physical : Place) (permissions : Permissions)
  | unmap (table base count : Nat) (release : Bool)
  | lookup (table virtual : Nat)
  /-- Show the entry of an address. -/
  | inspect (table virtual : Nat)
  /-- Change the entry of an address, creating missing tables if asked to, and show it. -/
  | edit (table virtual : Nat) (create : Bool) (physical : Option Place) (change : EntryEdit)
  | grow (table old new : Nat) (extra : Permissions)
  | shrink (table old new : Nat)
  | clear (table size : Nat)
  /-- Copy the pages of a range into another table. -/
  | copy (table into start stop : Nat)
  | store (table address : Nat) (bytes : Bytes)
  | load (table address count : Nat)

/-- What a workbench answers. -/
inductive Answer
  | done
  | number (n : Nat)
  | place (place : Option Place)
  | mapped (found : Option (Place × Permissions))
  | result (result : Except MemoryError Unit)
  | size (result : Except MemoryError Nat)
  | entry (result : Except MemoryError (Entry × Place))
  /-- The bytes read, all of them or those before the error. -/
  | bytes (read : Bytes) (result : Except MemoryError Unit)
  | refused

variable (bench : Workbench)

/-- The memory made of one table and the pool. -/
def memory? (table : Nat) : Option UserMemory :=
  bench.tables[table]?.map fun t => ⟨t, bench.pool⟩

/-- Puts a memory back that was taken with `memory?`. -/
def putMemory (table : Nat) (m : UserMemory) : Workbench :=
  { bench with tables := bench.tables.setIfInBounds table m.table, pool := m.pool }

/-- Notes whether a place lies outside the pool. -/
def notePlace : Place → Workbench
  | .pooled _ => bench
  | .outside _ => { bench with pointsOutside := true }

/-- Runs an operation on the memory of a table; without the table it is refused. -/
def onMemory (table : Nat) (action : UserMemory → Except Panic (Answer × UserMemory)) :
    Except Panic (Answer × Workbench) :=
  match bench.memory? table with
  | none => .ok (.refused, bench)
  | some m => do
    let (answer, m) ← action m
    return (answer, bench.putMemory table m)

/-- Runs an operation that touches the contents of pages, which all have to be in the pool. -/
def onContents (table : Nat) (action : UserMemory → Except Panic (Answer × UserMemory)) :
    Except Panic (Answer × Workbench) :=
  if bench.pointsOutside then .ok (.refused, bench) else bench.onMemory table action

/-- Shows the entry of an address. -/
def show? (m : UserMemory) (virtual : Nat) : Except MemoryError (Entry × Place) :=
  (m.table.entry virtual).map fun e => (e, m.pool.place e.page)

/-- Carries out one command. -/
def run : Command → Except Panic (Answer × Workbench)
  | .create =>
    .ok (.number bench.tables.size, { bench with tables := bench.tables.push PageTable.empty })
  | .alloc =>
    match bench.pool.alloc with
    | none => .ok (.place none, bench)
    | some (address, pool) =>
      .ok (.place (some (pool.place (.pooled address))), { bench with pool })
  | .map table virtual size physical permissions =>
    (bench.notePlace physical).onMemory table fun m => do
      let (result, t) ← m.table.map virtual size (m.pool.addressOf physical) permissions
      return (.result result, { m with table := t })
  | .unmap table base count release =>
    bench.onMemory table fun m => do
      if release then
        let (removed, m) ← m.unmap base count
        return (.number removed, m)
      else
        let (removed, t) ← m.table.unmap base count
        return (.number removed.length, { m with table := t })
  | .lookup table virtual =>
    bench.onMemory table fun m =>
      return (.mapped ((m.table.lookup virtual).map fun (physical, permissions) =>
        (m.pool.place physical, permissions)), m)
  | .inspect table virtual =>
    bench.onMemory table fun m => return (.entry (show? m virtual), m)
  | .edit table virtual create physical change =>
    (physical.elim bench bench.notePlace).onMemory table fun m =>
      let change := { change with physical := physical.map m.pool.addressOf }
      let t := if create then m.table.reserve virtual else m.table
      match t.entry virtual with
      | .error e => return (.entry (.error e), { m with table := t })
      | .ok e =>
        let m := { m with table := t.setEntry virtual (change.apply e) }
        return (.entry (show? m virtual), m)
  | .grow table old new extra =>
    bench.onContents table fun m => do
      let (result, m) ← m.grow old new extra
      return (.size result, m)
  | .shrink table old new =>
    bench.onMemory table fun m => do
      let (size, m) ← m.shrink old new
      return (.number size, m)
  | .clear table size =>
    bench.onMemory table fun m => return (.done, ← m.clear size)
  | .copy table into start stop =>
    match bench.tables[table]? with
    | none => .ok (.refused, bench)
    | some parent =>
      if into = table then .ok (.refused, bench)
      else
        bench.onContents into fun m => do
          let (result, m) ← m.copyRange parent start stop
          return (.result result, m)
  | .store table address bytes =>
    bench.onContents table fun m =>
      let (result, m) := m.store address bytes
      return (.result result, m)
  | .load table address count =>
    bench.onContents table fun m =>
      let (bytes, result) := m.load address count
      return (.bytes bytes result, m)

/-- Carries out commands one after the other, up to the first that panics. Answers for each what it
came to, with the workbench after it. -/
def replay (bench : Workbench) : List Command → List (Except Panic (Answer × Workbench))
  | [] => []
  | c :: rest =>
    match bench.run c with
    | .error cause => [.error cause]
    | .ok (answer, bench) => .ok (answer, bench) :: replay bench rest

/-- A workbench without tables over a pool of the given number of pages. -/
def ofPages (pages : Nat) : Except Panic Workbench :=
  (Pool.ofPages pages).map fun pool => { tables := #[], pool }

end Workbench

end FairKernel
