import FairKernel.Memory.Page

/-!
# Open files

An open file is what descriptors and mappings refer to. It says what it may be used for and what its
contents are; reads may fail from some offset on and may be cut short.
-/

namespace FairKernel

/-- An open file. Two of them are the same exactly if their identities are. -/
structure OpenFile where
  /-- What tells this open file from all others. -/
  identity : Nat
  /-- Whether it may be read. -/
  readable : Bool
  /-- Whether it may be written. -/
  writable : Bool
  /-- Its contents. -/
  data : Bytes
  /-- The offset from which on reads fail. -/
  failFrom : Option Nat := none
  /-- The most bytes that one read yields. -/
  maxRead : Option Nat := none
  deriving DecidableEq

namespace OpenFile

variable (file : OpenFile)

/-- Whether a read at an offset fails. -/
def failsAt (offset : Nat) : Bool := file.failFrom.any fun first => decide (first ≤ offset)

/-- Reads at most `count` bytes at an offset; past the end there are none. A failing read yields
nothing at all. -/
def readAt? (offset count : Nat) : Option Bytes :=
  if file.failsAt offset then none
  else some ((file.data.drop offset).take (file.maxRead.elim count (min count)))

/-- The written form of an open file. -/
def text : String :=
  "File \x7b readable: " ++ toString file.readable ++ ", writable: " ++ toString file.writable ++
    ", .. \x7d"

end OpenFile

end FairKernel
