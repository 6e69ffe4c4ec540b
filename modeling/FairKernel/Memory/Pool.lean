import FairKernel.Memory.Page
import FairKernel.Memory.Physical

/-!
# The page pool

A `Pool` hands out the pages of one range of its addresses, last returned first. Free pages are
kept as a list, and each of them also carries in its first bytes the address of the page below it
in the list (0 for the last one). A page that is handed out is filled with a fixed byte and a page
that is given back with another one, so stale contents never look like zeros. A pool also keeps a
trail of what was asked of it, newest first, and what the pages outside of its range hold.
-/

namespace FairKernel

/-- What happens to a page of a pool. -/
inductive PageEvent
  /-- It is handed out. -/
  | handedOut (address : Nat)
  /-- It is given back. -/
  | takenBack (address : Nat)
  deriving DecidableEq, Repr

/-- A range of pages with their contents, and those of them that are free. -/
structure Pool where
  /-- Address of the first page. -/
  start : Nat
  /-- One past the last byte of the last page. -/
  stop : Nat
  /-- The contents of the pages, in ascending order. -/
  pages : Array Page
  /-- Addresses of the free pages, next one to hand out first. -/
  free : List Nat
  /-- What was asked of the pool, newest first. -/
  trail : List PageEvent := []
  /-- The contents of the pages that lie outside of the pool, by their addresses. -/
  rest : Nat → Page := fun _ => Page.zero

namespace Pool

/-- What a page holds when it is handed out. -/
def freshPage : Page := Page.filled 5

/-- What a page holds when it is given back, up to its link. -/
def idlePage : Page := Page.filled 1

variable (pool : Pool)

/-! ### Contents -/

/-- The position in the pool of the page at an address. -/
def index? (address : Nat) : Option Nat :=
  if pool.start ≤ address ∧ address < pool.stop then some ((address - pool.start) / pageSize)
  else none

/-- The contents of the page at an address. -/
def contents : Physical → Page
  | .pooled address => ((pool.index? address).bind fun i => pool.pages[i]?).getD Page.zero
  | .outside address => pool.rest address

/-- Replaces the contents of the page at an address. -/
def setContents (page : Page) : Physical → Pool
  | .pooled address =>
    match pool.index? address with
    | none => pool
    | some i => { pool with pages := pool.pages.setIfInBounds i page }
  | .outside address =>
    { pool with rest := fun a => if a = address then page else pool.rest a }

/-! ### Allocation -/

/-- How many pages are free. -/
def freeCount : Nat := pool.free.length

/-- Hands out the page that was given back last, if any is free. -/
def alloc : Option (Nat × Pool) :=
  match pool.free with
  | [] => none
  | address :: free =>
    let pool := { pool with free, trail := .handedOut address :: pool.trail }
    some (address, pool.setContents freshPage (.pooled address))

/-- Whether an address is that of a page of the pool. -/
def owns (address : Nat) : Bool :=
  address % pageSize == 0 && decide (pool.start ≤ address) && decide (address < pool.stop)

/-- Takes a page back. Only a page of the pool can be given back. -/
def release (address : Nat) : Except Panic Pool :=
  if pool.owns address then
    let linked := idlePage.write 0 (wordBytes (pool.free.head?.getD 0))
    let pool := pool.setContents linked (.pooled address)
    .ok { pool with free := address :: pool.free, trail := .takenBack address :: pool.trail }
  else
    .error .foreignPage

/-- Takes back the page at a physical address. -/
def reclaim : Physical → Except Panic Pool
  | .pooled address => pool.release address
  | .outside _ => .error .foreignPage

/-- Takes pages back, one after the other. -/
def reclaimAll (pool : Pool) (pages : List Physical) : Except Panic Pool :=
  pages.foldlM reclaim pool

/-! ### Places -/

/-- A physical page, by its position in the pool or by its address outside of it. -/
inductive Place
  | pooled (index : Nat)
  | outside (address : Nat)
  deriving DecidableEq, Repr

/-- The place of a physical address. -/
def place : Physical → Place
  | .pooled address => .pooled ((address - pool.start) / pageSize)
  | .outside address => .outside address

/-- The address of a place. -/
def addressOf : Place → Physical
  | .pooled i => .pooled (pool.start + i * pageSize)
  | .outside address => .outside address

/-! ### Creation -/

/-- The pool of all whole pages between two addresses. They are given back in ascending order, so
the highest one is handed out first. -/
def ofRange (first last : Nat) : Except Panic Pool := do
  let start ← pageUp first
  let stop := pageDown last
  let count := (stop - start) / pageSize
  let empty : Pool := { start, stop, pages := Array.replicate count Page.zero, free := [] }
  empty.reclaimAll ((List.range count).map fun i => .pooled (start + i * pageSize))

/-- The pool of a number of pages from `poolBase` on. -/
def ofPages (pages : Nat) : Except Panic Pool := ofRange poolBase (poolBase + pages * pageSize)

end Pool

end FairKernel
