import FairKernel.Errors
import FairKernel.Paging.Entry
import FairKernel.Panic

/-!
# Page tables

A page table is a tree of three levels, each of which is indexed by nine bits of the virtual
address. Interior tables appear when a page is first mapped below them and stay from then on. To the
outside a table is a finite map from page addresses to physical pages with permissions, which
`PageTable.lookup` reads off; `PageTable.entry` shows the entry itself, blank ones included.
-/

namespace FairKernel

/-- Entries in a table of any level. -/
def fanout : Nat := 512

/-- A table of the lowest level. -/
abbrev LeafTable := Vector Entry fanout

/-- A table of the middle level. -/
abbrev MiddleTable := Vector (Option LeafTable) fanout

/-- A page table, given by its topmost level. -/
structure PageTable where
  root : Vector (Option MiddleTable) fanout

namespace PageTable

/-- A lowest table that maps no page. -/
def blankLeaf : LeafTable := Vector.replicate fanout Entry.blank

/-- A middle table without a table below it. -/
def blankMiddle : MiddleTable := Vector.replicate fanout none

/-- The table that maps no page. -/
def empty : PageTable := ⟨Vector.replicate fanout none⟩

instance : Inhabited PageTable := ⟨empty⟩

/-- Bytes of the address space that one entry of a table of the given level covers, lowest
level 0. -/
def span : Nat → Nat
  | 0 => pageSize
  | level + 1 => fanout * span level

/-- The index of a virtual address in a table of the given level. -/
def index (level virtual : Nat) : Fin fanout :=
  ⟨virtual / span level % fanout, Nat.mod_lt _ (by decide)⟩

variable (t : PageTable)

/-! ### Entries -/

/-- The lowest table that covers a virtual address, if it exists yet. -/
def leaf? (virtual : Nat) : Option LeafTable :=
  (t.root.get (index 2 virtual)).bind fun middle => middle.get (index 1 virtual)

/-- The entry of a virtual address. Without the tables on the way to it the address is not mapped;
beyond the address space there is no way at all. -/
def entry (virtual : Nat) : Except MemoryError Entry :=
  if addressLimit ≤ virtual then .error (.badAddress virtual)
  else
    match t.leaf? virtual with
    | none => .error (.notMapped virtual)
    | some leaf => .ok (leaf.get (index 0 virtual))

/-- Creates the tables that are missing on the way to the entry of a virtual address. -/
def reserve (virtual : Nat) : PageTable :=
  if addressLimit ≤ virtual then t
  else
    let middle := (t.root.get (index 2 virtual)).getD blankMiddle
    let leaf := (middle.get (index 1 virtual)).getD blankLeaf
    let middle := middle.set (index 1 virtual) (some leaf)
    ⟨t.root.set (index 2 virtual) (some middle)⟩

/-- Replaces the entry of a virtual address, if the tables on the way to it exist. -/
def setEntry (virtual : Nat) (e : Entry) : PageTable :=
  if addressLimit ≤ virtual then t
  else
    match t.root.get (index 2 virtual) with
    | none => t
    | some middle =>
      match middle.get (index 1 virtual) with
      | none => t
      | some leaf =>
        let leaf := leaf.set (index 0 virtual) e
        let middle := middle.set (index 1 virtual) (some leaf)
        ⟨t.root.set (index 2 virtual) (some middle)⟩

/-! ### Mapped pages -/

/-- The physical page behind a virtual address, with its permissions. -/
def lookup (virtual : Nat) : Option (Physical × Permissions) :=
  match t.entry (pageDown virtual) with
  | .error _ => none
  | .ok e => if e.permissions.valid then some (e.page, e.permissions) else none

/-- Whether the page of a virtual address is mapped. -/
def isMapped (virtual : Nat) : Bool := (t.lookup virtual).isSome

/-- Maps `count` pages from `base` on to the physical pages from `physical` on, leaving out the
first `offset` bytes of both. Stops at the first page that is mapped already or out of range; the
pages before it stay. -/
def mapPages (t : PageTable) (base : Nat) (physical : Physical) (permissions : Permissions)
    (offset : Nat) : Nat → Except Panic (Except MemoryError Unit × PageTable)
  | 0 => .ok (.ok (), t)
  | count + 1 =>
    let page := base + offset
    let reserved := t.reserve page
    match reserved.entry page with
    | .error e => .ok (.error e, t)
    | .ok e =>
      if e.permissions.valid then
        .ok (.error (.alreadyMapped page), t)
      else do
        let target ← physical.advance offset
        mapPages (reserved.setEntry page (Entry.mapping target permissions)) base physical
          permissions (offset + pageSize) count

/-- Maps every page that meets the `size` bytes from `virtual` on to consecutive physical
pages from `physical` on. -/
def map (virtual size : Nat) (physical : Physical) (permissions : Permissions) :
    Except Panic (Except MemoryError Unit × PageTable) := do
  if size = 0 then throw .emptyRegion
  let stop ← addWord virtual size
  let first := pageDown virtual
  let last := pageDown (stop - 1)
  t.mapPages first physical permissions 0 ((last - first) / pageSize + 1)

/-- Unmaps one page. Answers the physical page that was behind it. -/
def unmapPage (page : Nat) : Option Physical × PageTable :=
  match t.entry page with
  | .error _ => (none, t)
  | .ok e =>
    if e.permissions.valid then (some e.page, t.setEntry page Entry.blank) else (none, t)

/-- Unmaps `count` pages from `base` on, skipping those that are not mapped. Answers the physical
pages that were behind them, in reverse. -/
def unmapPages (base count : Nat) : List Physical × PageTable :=
  count.fold (fun i _ (removed, t) =>
    let (physical, t) := unmapPage t (base + i * pageSize)
    (physical.toList ++ removed, t)) ([], t)

/-- Unmaps `count` pages from the page boundary `base` on, skipping those that are not mapped.
Answers the physical pages that were behind them, in ascending order of their virtual addresses. -/
def unmap (base count : Nat) : Except Panic (List Physical × PageTable) := do
  if base % pageSize ≠ 0 then throw .unalignedUnmap
  let size ← mulWord count pageSize
  discard <| addWord base size
  let (removed, t) := t.unmapPages base count
  return (removed.reverse, t)

end PageTable

end FairKernel
