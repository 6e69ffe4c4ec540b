import FairKernel.Panic

/-!
# Physical addresses

Physical memory has two parts: the page pool, and everything outside of it, such as the trampoline
page. An address names its part, and the two parts count on their own, so no address outside the
pool is ever that of a page of the pool.
-/

namespace FairKernel

/-- An address of physical memory. -/
inductive Physical
  /-- In the page pool. -/
  | pooled (address : Nat)
  /-- Outside the page pool. -/
  | outside (address : Nat)
  deriving DecidableEq, Repr

namespace Physical

/-- The address `offset` bytes further on. Outside the pool it has to be a word. -/
def advance (offset : Nat) : Physical → Except Panic Physical
  | pooled address => .ok (pooled (address + offset))
  | outside address => (addWord offset address).map outside

/-- The address of a page as a page table holds it: without its page offset, and outside the pool
with 56 bits. -/
def page : Physical → Physical
  | pooled address => pooled (pageDown address)
  | outside address => outside (pageDown address % (1 <<< 56))

end Physical

end FairKernel
