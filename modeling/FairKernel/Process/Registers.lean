import FairKernel.Params

/-!
# Saved registers

What the trap frame of a process holds: its user registers and program counter, and the words that
the entry path needs to find the kernel again.
-/

namespace FairKernel

/-- The words of a trap frame, in the order in which they lie in memory. -/
inductive Register
  | kernelTable | kernelStack | kernelEntry | pc | kernelCpu
  | ra | sp | gp | tp | t0 | t1 | t2 | s0 | s1
  | a0 | a1 | a2 | a3 | a4 | a5 | a6 | a7
  | s2 | s3 | s4 | s5 | s6 | s7 | s8 | s9 | s10 | s11
  | t3 | t4 | t5 | t6
  deriving DecidableEq, Repr

namespace Register

/-- All words of a trap frame, in order. -/
def all : List Register :=
  [kernelTable, kernelStack, kernelEntry, pc, kernelCpu,
    ra, sp, gp, tp, t0, t1, t2, s0, s1,
    a0, a1, a2, a3, a4, a5, a6, a7,
    s2, s3, s4, s5, s6, s7, s8, s9, s10, s11,
    t3, t4, t5, t6]

/-- The position of a word in the trap frame. -/
def index : Register → Fin 36
  | kernelTable => 0 | kernelStack => 1 | kernelEntry => 2 | pc => 3 | kernelCpu => 4
  | ra => 5 | sp => 6 | gp => 7 | tp => 8 | t0 => 9 | t1 => 10 | t2 => 11 | s0 => 12 | s1 => 13
  | a0 => 14 | a1 => 15 | a2 => 16 | a3 => 17 | a4 => 18 | a5 => 19 | a6 => 20 | a7 => 21
  | s2 => 22 | s3 => 23 | s4 => 24 | s5 => 25 | s6 => 26 | s7 => 27 | s8 => 28 | s9 => 29
  | s10 => 30 | s11 => 31 | t3 => 32 | t4 => 33 | t5 => 34 | t6 => 35

theorem getElem?_all_index (r : Register) : all[r.index.val]? = some r := by
  cases r <;> rfl

theorem index_inj {r s : Register} : r.index = s.index ↔ r = s := by
  refine ⟨fun h => ?_, fun h => h ▸ rfl⟩
  have := getElem?_all_index r
  rw [h, getElem?_all_index s] at this
  exact (Option.some.inj this).symm

/-- The name of a word. -/
def name : Register → String
  | kernelTable => "kernel_satp" | kernelStack => "kernel_sp" | kernelEntry => "kernel_trap"
  | pc => "epc" | kernelCpu => "kernel_hartid"
  | ra => "ra" | sp => "sp" | gp => "gp" | tp => "tp" | t0 => "t0" | t1 => "t1" | t2 => "t2"
  | s0 => "s0" | s1 => "s1"
  | a0 => "a0" | a1 => "a1" | a2 => "a2" | a3 => "a3" | a4 => "a4" | a5 => "a5" | a6 => "a6"
  | a7 => "a7"
  | s2 => "s2" | s3 => "s3" | s4 => "s4" | s5 => "s5" | s6 => "s6" | s7 => "s7" | s8 => "s8"
  | s9 => "s9" | s10 => "s10" | s11 => "s11"
  | t3 => "t3" | t4 => "t4" | t5 => "t5" | t6 => "t6"

/-- The word of a name. -/
def ofName? (name : String) : Option Register := all.find? fun r => r.name == name

/-- The register that carries argument `i` of a system call. -/
def argument : Nat → Register
  | 0 => a0
  | 1 => a1
  | 2 => a2
  | 3 => a3
  | 4 => a4
  | 5 => a5
  | 6 => a6
  | _ => a7

end Register

/-- The contents of a trap frame. -/
structure Registers where
  words : Vector UInt64 36
  deriving DecidableEq

namespace Registers

/-- The trap frame in which every word is zero. -/
def zero : Registers := ⟨Vector.replicate 36 0⟩

/-- The word of a register. -/
def get (f : Registers) (r : Register) : UInt64 := f.words[r.index]

/-- Replaces the word of a register. -/
def set (f : Registers) (r : Register) (word : UInt64) : Registers :=
  ⟨f.words.set r.index word⟩

theorem get_set (f : Registers) (r s : Register) (word : UInt64) :
    (f.set r word).get s = if r = s then word else f.get s := by
  simp only [get, set, Fin.getElem_fin, Vector.getElem_set, Fin.val_inj, Register.index_inj]

/-- The registers that are not zero, in order. -/
def nonzero (f : Registers) : List (Register × UInt64) :=
  Register.all.filterMap fun r => if f.get r = 0 then none else some (r, f.get r)

end Registers

end FairKernel
