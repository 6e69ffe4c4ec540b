/-!
# Recoverable failures

Three families of errors, one for each layer that can refuse: user memory (`MemoryError`), mappings
(`MappingError`) and the process table (`ProcessError`). A higher layer wraps the error of a lower
one. Each family has a written form (`text`) and a coarse class (`kind`); wrapping an error changes
its text and keeps its class.
-/

namespace FairKernel

/-- The coarse class of an error. -/
inductive ErrorKind
  /-- Nothing of what was asked for is left. -/
  | resourceExhausted
  /-- The arguments make no sense. -/
  | invalidArgument
  /-- What was asked for is there and not allowed. -/
  | permissionDenied
  /-- What was asked for is not there. -/
  | notFound
  deriving DecidableEq, Repr

/-- The name of an error class. -/
def ErrorKind.text : ErrorKind → String
  | resourceExhausted => "ResourceExhausted"
  | invalidArgument => "InvalidArgument"
  | permissionDenied => "PermissionDenied"
  | notFound => "NotFound"

/-! ### User memory -/

/-- Why an operation on user memory failed. -/
inductive MemoryError
  /-- The page pool is empty. -/
  | outOfMemory
  /-- The page at this address is mapped already. -/
  | alreadyMapped (address : Nat)
  /-- The page at this address is not mapped. -/
  | notMapped (address : Nat)
  /-- The address lies beyond the address space. -/
  | badAddress (address : Nat)
  /-- The page at this address does not allow the access. -/
  | permissionDenied (address : Nat)
  deriving DecidableEq, Repr

namespace MemoryError

/-- The written form of an error of user memory. -/
def text : MemoryError → String
  | outOfMemory => "OutOfMemory"
  | alreadyMapped address => s!"Remap({address})"
  | notMapped address => s!"NotMapped({address})"
  | badAddress address => s!"BadAddress({address})"
  | permissionDenied address => s!"PermissionDenied({address})"

/-- The class of an error of user memory. -/
def kind : MemoryError → ErrorKind
  | outOfMemory => .resourceExhausted
  | alreadyMapped _ | badAddress _ => .invalidArgument
  | notMapped _ => .notFound
  | permissionDenied _ => .permissionDenied

end MemoryError

/-! ### Mappings -/

/-- Why an operation on a mapping failed. -/
inductive MappingError
  /-- An address, length or offset is not a multiple of the page size. -/
  | misaligned
  /-- The length is zero. -/
  | badLength
  /-- The protection is neither read-only nor read and write. -/
  | badProtection
  /-- An anonymous mapping names a file or an offset. -/
  | badFlags
  /-- The range leaves the mapping window. -/
  | outOfRange
  /-- The descriptor is not open. -/
  | badDescriptor
  /-- The open file does not allow the access asked for. -/
  | filePermission
  /-- The range meets another mapping of the process. -/
  | overlap
  /-- Every record of the mapping table is taken. -/
  | tableFull
  /-- No mapping of the process has this base and at least this length. -/
  | noMatch
  /-- No mapping of the process covers this address. -/
  | noMapping (address : Nat)
  /-- A write met a mapping that is read-only at this address. -/
  | writeProtected (address : Nat)
  /-- The file could not be read. -/
  | readFailed
  /-- User memory refused. -/
  | memory (cause : MemoryError)
  deriving DecidableEq, Repr

namespace MappingError

/-- The written form of an error of a mapping. -/
def text : MappingError → String
  | misaligned => "Misaligned"
  | badLength => "BadLength"
  | badProtection => "BadProt"
  | badFlags => "BadFlags"
  | outOfRange => "OutOfRange"
  | badDescriptor => "BadFd"
  | filePermission => "FilePermission"
  | overlap => "Overlap"
  | tableFull => "TableFull"
  | noMatch => "NoMatch"
  | noMapping address => s!"NoMapping({address})"
  | writeProtected address => s!"WriteProtected({address})"
  | readFailed => "Io(IoError)"
  | memory cause => s!"Vm({cause.text})"

/-- The class of an error of a mapping. -/
def kind : MappingError → ErrorKind
  | tableFull => .resourceExhausted
  | filePermission | writeProtected _ => .permissionDenied
  | noMapping _ => .notFound
  | memory cause => cause.kind
  | _ => .invalidArgument

end MappingError

/-! ### Processes -/

/-- Why an operation on the process table failed. -/
inductive ProcessError
  /-- Every process slot is taken. -/
  | noFreeSlot
  /-- Every descriptor of the process is open. -/
  | noFreeDescriptor
  /-- The descriptor is not open. -/
  | badDescriptor (descriptor : Nat)
  /-- No live process has this number. -/
  | noSuchProcess (pid : Int)
  /-- There is no child to wait for. -/
  | noChildren
  /-- The process was killed while it waited. -/
  | killed
  /-- No weight belongs to this nice value. -/
  | invalidNice (nice : Int)
  /-- User memory refused. -/
  | memory (cause : MemoryError)
  /-- A mapping refused. -/
  | mapping (cause : MappingError)
  deriving DecidableEq, Repr

namespace ProcessError

/-- The written form of an error of the process table. -/
def text : ProcessError → String
  | noFreeSlot => "NoFreeSlot"
  | noFreeDescriptor => "NoFreeFd"
  | badDescriptor descriptor => s!"BadFd({descriptor})"
  | noSuchProcess pid => s!"NoSuchProcess({pid})"
  | noChildren => "NoChildren"
  | killed => "Killed"
  | invalidNice nice => s!"InvalidNice({nice})"
  | memory cause => s!"Vm({cause.text})"
  | mapping cause => s!"Mmap({cause.text})"

/-- The class of an error of the process table. -/
def kind : ProcessError → ErrorKind
  | noFreeSlot | noFreeDescriptor => .resourceExhausted
  | badDescriptor _ | invalidNice _ => .invalidArgument
  | noSuchProcess _ | noChildren => .notFound
  | killed => .permissionDenied
  | memory cause => cause.kind
  | mapping cause => cause.kind

end ProcessError

/-! ### Any layer -/

/-- An error of any of the three layers. -/
inductive Failure
  | ofMemory (cause : MemoryError)
  | ofMapping (cause : MappingError)
  | ofProcess (cause : ProcessError)
  deriving DecidableEq, Repr

namespace Failure

/-- The written form of an error, as its own layer writes it. -/
def text : Failure → String
  | ofMemory cause => cause.text
  | ofMapping cause => cause.text
  | ofProcess cause => cause.text

/-- The class of an error. -/
def kind : Failure → ErrorKind
  | ofMemory cause => cause.kind
  | ofMapping cause => cause.kind
  | ofProcess cause => cause.kind

end Failure

end FairKernel
