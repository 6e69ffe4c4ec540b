import FairKernel.Flags

/-!
# Permissions

The five low bits of a page table entry: whether it is valid at all, and what the page may be used
for. A set of permissions is written as the letters of the bits it has, in the order `vrwxu`.
-/

namespace FairKernel

/-- The flag bits of a page table entry. -/
structure Permissions where
  /-- The entry maps a page at all. -/
  valid : Bool := false
  /-- The page may be read. -/
  readable : Bool := false
  /-- The page may be written. -/
  writable : Bool := false
  /-- Code in the page may be run. -/
  executable : Bool := false
  /-- User code may use the page. -/
  user : Bool := false
  deriving DecidableEq, Repr

namespace Permissions

/-- The flag bits as named flags of a word. -/
def family : FlagFamily := ⟨"PteFlags", [("V", 1), ("R", 2), ("W", 4), ("X", 8), ("U", 16)]⟩

/-- Everything that either of two sets allows. -/
def union (a b : Permissions) : Permissions where
  valid := a.valid || b.valid
  readable := a.readable || b.readable
  writable := a.writable || b.writable
  executable := a.executable || b.executable
  user := a.user || b.user

/-- The same permissions in an entry that maps a page. -/
def validated (p : Permissions) : Permissions := { p with valid := true }

/-- Whether user code may write the page. -/
def userWritable (p : Permissions) : Bool := p.user && p.writable

/-- The letters of the bits that are set. -/
def letters (p : Permissions) : String :=
  String.ofList <| [(p.valid, 'v'), (p.readable, 'r'), (p.writable, 'w'), (p.executable, 'x'),
    (p.user, 'u')].filterMap fun (bit, letter) => if bit then some letter else none

/-- The bits whose letters occur in a text. -/
def ofLetters (text : String) : Permissions where
  valid := text.toList.contains 'v'
  readable := text.toList.contains 'r'
  writable := text.toList.contains 'w'
  executable := text.toList.contains 'x'
  user := text.toList.contains 'u'

end Permissions

end FairKernel
