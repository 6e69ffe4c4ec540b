import FairKernel.Machine.Step
import FairKernel.Proofs.Processors

/-!
# Work for the host

Whatever the host asks of the kernel outside the passes of the scheduler (requests about a slot
through any handle, events, ticks, kills, listings) gives no processor away and takes none back,
also when the process of the handle is gone.

`Serves` says so of a piece of work, whatever it comes to, a panic included. Questions serve because
they leave the kernel as it is (`Reports.serves`), and each request serves because the call that it
is made of does (`Serves.of_call`): what a call does to processors is read off its trail, and that
of a request is empty (`Call.of_isRequest`).
-/

namespace FairKernel

/-- What can be asked for through any handle, or through none: no process does it itself, and no
processor changes hands. -/
def Call.isRequest : Call → Bool
  | .startRoot _ | .idleTick | .wake _ | .kill _ | .setNice _ _ | .setKilled _ | .setRegisters _ _
  | .map _ _ | .unmap _ _ _ | .touch _ _ _ | .resize _ _ | .store _ _ _ | .openFile _ _
  | .closeFile _ _ => true
  | _ => false

/-- A request is neither a pass nor something that a process does itself, and it moves no
processor. -/
theorem Call.of_isRequest {c : Call} (h : c.isRequest) :
    c.isPass = false ∧ c.caller? = none ∧ ∀ k a, c.trail k a = k.handovers := by
  cases c <;> first | exact ⟨rfl, rfl, fun _ _ => rfl⟩ | cases h

namespace Kernel

variable {α β : Type}

/-- Something that leaves it alone who has a processor, whatever comes of it. -/
def Serves (x : KernelM α) : Prop :=
  ∀ k, Comes k x (fun _ k' => k.standing.Continues none k'.standing ∧ k'.handovers = k.handovers)
    fun cause k' => cause.IsPlain ∧ k'.handovers = k.handovers

namespace Serves

/-- To answer leaves it alone who has a processor. -/
theorem pure (a : α) : Serves (Pure.pure a) := fun _ => comes_pure.mpr ⟨.refl _, rfl⟩

/-- Two pieces of work that leave it alone who has a processor do so one after the other. -/
theorem bind {x : KernelM α} {f : α → KernelM β} (hx : Serves x) (hf : ∀ a, Serves (f a)) :
    Serves (x >>= f) := by
  intro k
  refine comes_bind.mpr ((hx k).imp fun a k₁ h₁ => ?_)
  refine (hf a k₁).mono (fun _ _ h₂ => ?_) fun _ _ h₂ => ⟨h₂.1, h₂.2.trans h₁.2⟩
  exact ⟨h₁.1.trans h₂.1, h₂.2.trans h₁.2⟩

/-- A call that is a request leaves it alone who has a processor. -/
theorem of_call (c : Call) (hc : c.isRequest) : Serves c.run := by
  intro k
  obtain ⟨hpass, hcaller, htrail⟩ := Call.of_isRequest hc
  have hnobody (p : Handle) : c.caller? ≠ some p := by
    rw [hcaller]
    nofun
  refine (c.comes_effect k).mono (fun a k' ⟨_, heffect, hh⟩ => ?_) fun cause k' ⟨hfaults, hh⟩ => ?_
  · have hbetween : c.Between none k := ⟨hpass, fun p hp => absurd hp (hnobody p)⟩
    exact ⟨heffect.continues hbetween, hh.trans (htrail k a)⟩
  · exact ⟨hfaults fun p hp => absurd hp (hnobody p), hh⟩

end Serves

/-- A question leaves it alone who has a processor. -/
theorem Reports.serves {x : KernelM α} (hx : Reports x) : Serves x := by
  intro k
  refine (hx k).mono (fun _ k' h => ?_) fun _ _ h => ⟨h.2, handovers_of_unseen h.1⟩
  have hstanding := congrArg standing h
  exact ⟨.of_eq hstanding, handovers_of_unseen h⟩

/-! ### Questions -/

/-- To ask for the memory of a process is a question. -/
theorem memoryOf_reports (h : Handle) : Reports (memoryOf h) := by
  refine .bind .get fun k => ?_
  split
  · exact .throw rfl
  · exact .pure _

/-- To read the memory of a process is a question. -/
theorem loadUser_reports (h : Handle) (address count : Nat) : Reports (loadUser h address count) :=
  .bind (memoryOf_reports h) fun _ => .pure _

/-- To ask who has a processor is a question. -/
theorem runningOn_reports (cpu : Nat) : Reports (runningOn cpu) := by
  refine .bind .get fun k => ?_
  split
  · exact .pure _
  · exact .throw rfl

/-- To weigh who competes for the processor is a question: it only computes. -/
theorem competition_reports (k : Kernel) (current : Option Handle) :
    Reports (liftM (k.competition current)) := .plain (Competition.ofList_arithmetic _).plain

/-- To list the processes is a question, with its lines on the console left aside. -/
theorem printProcesses_reports : Reports printProcesses := by
  refine .bind (print_reports _) fun _ => .bind .get fun k => ?_
  have rows (slots : List (Fin slotCount)) : Reports (forIn slots PUnit.unit fun i _ => do
      print (.shortRow (k.slot i).pid (k.slot i).state (k.slot i).name)
      return ForInStep.yield PUnit.unit) := by
    induction slots with
    | nil => exact .pure _
    | cons i rest ih =>
      rw [List.forIn_cons, bind_assoc]
      simp only [pure_bind]
      exact .bind (print_reports _) fun _ => ih
  exact .bind (rows _) fun _ => .pure _

/-! ### Requests -/

/-- Ticks that pass while nobody runs leave it alone who has a processor. -/
theorem idleTicks_serves (count : Nat) : Serves (idleTicks count) := by
  induction count with
  | zero => exact .pure _
  | succ count ih => exact .bind (.of_call .idleTick rfl) fun _ => ih

end Kernel

end FairKernel
