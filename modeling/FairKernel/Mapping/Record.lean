import FairKernel.Errors
import FairKernel.File
import FairKernel.Flags
import FairKernel.Panic
import FairKernel.Paging.Permissions
import FairKernel.Process.Handle

/-!
# Mapping records

A record says that a range of the mapping window of one process shows a file, or memory that starts
as zeros. Pages of the range appear only when they are first touched, unless all of them are asked
for at once.
-/

namespace FairKernel

/-- What a mapping may be used for, as a flag word. -/
structure Protection where
  bits : Nat
  deriving DecidableEq, Repr

namespace Protection

/-- The named protections. -/
def family : FlagFamily := ⟨"Prot", [("READ", 1), ("WRITE", 2)]⟩

/-- Reading only. -/
def readOnly : Protection := ⟨1⟩

/-- Reading and writing. -/
def readWrite : Protection := ⟨3⟩

/-- Whether reading is allowed. -/
def allowsRead (p : Protection) : Bool := p.bits.testBit 0

/-- Whether writing is allowed. -/
def allowsWrite (p : Protection) : Bool := p.bits.testBit 1

/-- The written form of a protection. -/
def text (p : Protection) : String := family.text p.bits

end Protection

/-- How a mapping is made, as a flag word. -/
structure MappingOptions where
  bits : Nat
  deriving DecidableEq, Repr

namespace MappingOptions

/-- The named options. -/
def family : FlagFamily := ⟨"MapFlags", [("ANONYMOUS", 1), ("POPULATE", 2)]⟩

/-- Whether the mapping shows no file. -/
def anonymous (o : MappingOptions) : Bool := o.bits.testBit 0

/-- Whether all pages are asked for at once. -/
def populate (o : MappingOptions) : Bool := o.bits.testBit 1

/-- The written form of options. -/
def text (o : MappingOptions) : String := family.text o.bits

end MappingOptions

/-- The kind of access that met a missing page. -/
inductive Access
  | read
  | write
  deriving DecidableEq, Repr

/-- The name of a kind of access. -/
def Access.text : Access → String
  | read => "Read"
  | write => "Write"

/-- A record of the mapping table. -/
structure Mapping where
  /-- The process that the mapping belongs to. -/
  owner : Handle
  /-- The file that the mapping shows. -/
  file : Option OpenFile
  /-- First address. -/
  base : Nat
  /-- Bytes. -/
  length : Nat
  /-- Offset in the file that the first address shows. -/
  offset : Nat
  protection : Protection
  options : MappingOptions
  deriving DecidableEq

namespace Mapping

variable (r : Mapping)

/-- One past the last address. -/
def stop : Nat := r.base + r.length

/-- Pages in the range. -/
def pageCount : Nat := r.length / pageSize

/-- Whether the range meets the addresses from `first` up to `stop`. -/
def meets (first stop : Nat) : Bool := decide (first < r.stop) && decide (r.base < stop)

/-- Whether an address lies in the range. -/
def covers (address : Nat) : Bool := decide (r.base ≤ address) && decide (address < r.stop)

/-- What the pages of the mapping may be used for. -/
def permissions : Permissions :=
  { readable := true, writable := r.protection.allowsWrite, user := true }

/-- What the page at an address of the range shows at first: the bytes of the file, followed by
zeros. -/
def initialPage (page : Nat) : Except Panic (Except MappingError Page) :=
  match r.file with
  | none => .ok (.ok Page.zero)
  | some file => do
    let offset ← addWord r.offset (page - r.base)
    match file.readAt? offset pageSize with
    | none => return .error .readFailed
    | some bytes => return .ok (Page.zero.write 0 bytes)

/-- A mapping without its first `length` bytes, if any are left. -/
def dropFirst (length : Nat) : Except Panic (Option Mapping) :=
  if length = r.length then .ok none
  else do
    let offset ← addWord r.offset length
    return some { r with base := r.base + length, offset, length := r.length - length }

end Mapping

/-- What a process asks for when it makes a mapping. -/
structure MappingRequest where
  /-- Distance of the first address from the base of the mapping window. -/
  address : Nat
  length : Nat
  protection : Protection
  options : MappingOptions
  /-- The descriptor of the file to show. -/
  descriptor : Int := noDescriptor
  /-- Offset in the file. -/
  offset : Nat := 0

end FairKernel
