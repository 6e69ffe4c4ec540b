import FairKernel.Params

/-!
# Pages of memory

A page is `pageSize` bytes. Bytes are written and read at an offset; what would fall off the end of
the page is dropped.
-/

namespace FairKernel

/-- A string of bytes. -/
abbrev Bytes := List UInt8

/-- The contents of one page of memory. -/
abbrev Page := Vector UInt8 pageSize

namespace Page

/-- The page whose bytes are all equal to `byte`. -/
def filled (byte : UInt8) : Page := Vector.replicate pageSize byte

/-- The page of zeros. -/
def zero : Page := filled 0

/-- Writes bytes into a page from `offset` on. -/
def write (page : Page) (offset : Nat) : Bytes → Page
  | [] => page
  | byte :: rest => write (page.setIfInBounds offset byte) (offset + 1) rest

/-- Reads `count` bytes of a page from `offset` on. -/
def read (page : Page) (offset count : Nat) : Bytes :=
  (page.toArray.extract offset (offset + count)).toList

end Page

/-- The eight bytes of a 64-bit word, lowest first. -/
def wordBytes (n : Nat) : Bytes :=
  (List.range 8).map fun i => UInt8.ofNat (n >>> (8 * i))

/-- The four bytes of a 32-bit number in two's complement, lowest first. -/
def intBytes (n : Int) : Bytes :=
  (List.range 4).map fun (i : Nat) => UInt8.ofNat (n >>> (8 * i) % 256).toNat

end FairKernel
