/-!
# Fixed parameters

The sizes that the kernel is built with: how many processes, processors, descriptors and mapping
records there are, how long a quantum lasts and how virtual time is scaled, and where the
address space of a process places its pages.
-/

namespace FairKernel

/-! ### Table sizes -/

/-- Process slots in the process table. -/
def slotCount : Nat := 64

/-- Processors that the processor table has room for. -/
def cpuLimit : Nat := 8

/-- Open files that one process may hold. -/
def descriptorLimit : Nat := 16

/-- Records in the mapping table, which all processes share. -/
def mappingLimit : Nat := 64

/-! ### Scheduling -/

/-- Ticks in one quantum. -/
def quantum : Nat := 5

/-- The nice value of a new process. -/
def defaultNice : Int := 20

/-- The weight of a process of default nice value, to which all weights are relative. -/
def weightUnit : Nat := 1024

/-- Virtual time units in one tick of a process of unit weight. -/
def tickScale : Nat := 1000

/-! ### Address space -/

/-- Bytes in a page. -/
def pageSize : Nat := 4096

/-- One past the highest virtual address: three index fields of nine bits and a page offset, less
the one bit that would call for sign extension. -/
def addressLimit : Nat := 1 <<< 38

/-- The page through which every process enters and leaves the kernel. -/
def trampolineAddress : Nat := addressLimit - pageSize

/-- The page that holds the saved registers of a process. -/
def frameAddress : Nat := trampolineAddress - pageSize

/-- Pages in the kernel stack of one slot. -/
def stackPages : Nat := 1

/-- Lowest address of the kernel stack of a slot; a guard page lies above each stack. -/
def stackBase (slot : Nat) : Nat := trampolineAddress - (slot + 1) * ((stackPages + 1) * pageSize)

/-- Base of the window in which all mappings lie. -/
def windowBase : Nat := 0x40000000

/-- Bytes in the mapping window. -/
def windowSize : Nat := 0x10000000

/-- One past the last address of the mapping window. -/
def windowEnd : Nat := windowBase + windowSize

/-- The descriptor that an anonymous mapping names. -/
def noDescriptor : Int := -1

/-- What the mapping system call answers when it fails. -/
def mapFailed : Nat := 0

/-- Address in the page pool of its first page. The page at address 0 is left out, so that 0 is the
address of no page. -/
def poolBase : Nat := pageSize

/-- Address of the trampoline page, which lies outside the page pool. -/
def trampolinePage : Nat := 0x80000000

end FairKernel
