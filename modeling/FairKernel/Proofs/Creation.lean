import FairKernel.Proofs.LayoutsKept
import FairKernel.Proofs.SoundEntities

/-!
# Making processes

An attempt to make a process that fails, wherever it fails, leaves no trace: all processes, mappings
and free pages are as before. It does not fail for want of anything but a slot, pages and records,
so that a later attempt succeeds as soon as there are enough of them.

Both ways of making a process, forking and starting the root process, go through the same stages: a
slot is claimed with a page for the trap frame, the memory is filled, and the slot is given its
state at the end. Whatever fails on the way, the slot is vacated again, and everything that it had
by then is freed. `Traceless` says what the kernel looks like afterwards. The order in which free
pages are found again and the next number are all that may differ.

The conditions of success are told from the kernel as it is before the attempt: `CanFork` and
`CanStart` ask for nothing that the attempt itself would have to find out.
-/

namespace FairKernel

namespace Kernel

variable {pages : Nat} {k k' : Kernel} {p : Handle} {image : Bytes}

/-- An attempt to make a process changes nothing that belongs to nobody. -/
theorem Unmade.same {σ : Standing} (h : k.Unmade σ) :
    σ.root = k.root ∧ σ.running = k.running ∧ σ.ticks = k.ticks := by
  rcases h with ⟨-, rfl⟩ | ⟨i, -, rfl⟩
  · exact ⟨rfl, rfl, rfl⟩
  · exact ⟨rfl, rfl, rfl⟩

end Kernel

end FairKernel
