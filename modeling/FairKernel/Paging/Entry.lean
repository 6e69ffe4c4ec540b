import FairKernel.Memory.Physical
import FairKernel.Paging.Permissions

/-!
# Page table entries

An entry holds flag bits and the address of a physical page. An address is stored without its page
offset and without the bits that an entry has no room for.
-/

namespace FairKernel

/-- An entry of the lowest level of a page table. -/
structure Entry where
  /-- The flag bits. -/
  permissions : Permissions
  /-- The address of the physical page. -/
  page : Physical
  deriving DecidableEq, Repr

namespace Entry

/-- The entry without any bit set. -/
def blank : Entry := ⟨{}, .outside 0⟩

instance : Inhabited Entry := ⟨blank⟩

/-- The same flag bits, pointing to the page at a physical address. -/
def pointingTo (e : Entry) (physical : Physical) : Entry := { e with page := physical.page }

/-- Whether an entry allows some access to memory. -/
def isLeaf (e : Entry) : Bool :=
  e.permissions.readable || e.permissions.writable || e.permissions.executable

/-- The valid entry for the page at a physical address. -/
def mapping (physical : Physical) (permissions : Permissions) : Entry :=
  ⟨permissions.validated, physical.page⟩

end Entry

/-- A change to some parts of an entry. -/
structure EntryEdit where
  executable : Option Bool := none
  permissions : Option Permissions := none
  physical : Option Physical := none
  readable : Option Bool := none
  user : Option Bool := none
  valid : Option Bool := none
  writable : Option Bool := none

/-- Applies a change. The flag bits as a whole come before each single one but `executable`. -/
def EntryEdit.apply (edit : EntryEdit) (e : Entry) : Entry :=
  let p := e.permissions
  let p := { p with executable := edit.executable.getD p.executable }
  let p := edit.permissions.getD p
  let p := { p with
    readable := edit.readable.getD p.readable
    user := edit.user.getD p.user
    valid := edit.valid.getD p.valid
    writable := edit.writable.getD p.writable }
  let e := { e with permissions := p }
  match edit.physical with
  | none => e
  | some physical => e.pointingTo physical

end FairKernel
