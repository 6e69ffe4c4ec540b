import FairKernel.Proofs.SavedRegisters

/-!
# Kernel stacks

A trap frame names the stack on which its process enters the kernel. A new process is given the
stack of its slot, but a child takes the whole trap frame of its parent over, the name of the stack
included. The root process lives in the first slot, so the stack of the first slot is the one that
every process enters the kernel on, however it descends from the root process.

Which stacks are named can change in three ways only (`Derives`): a trap frame is emptied, a child
takes over what its parent has, or the root process is made, in the slot that is free first. Along a
run in which nobody writes this part of a trap frame, it follows that no other stack than that of
the first slot is ever named (`Run.oneStack`).
-/

namespace FairKernel

/-- The top of the kernel stack of a slot. -/
@[irreducible]
def stackTop (i : Fin slotCount) : UInt64 :=
  UInt64.ofNat (stackBase i + stackPages * pageSize)

/-- Each slot has a kernel stack of its own. -/
theorem stackTop_injective : Function.Injective stackTop := by decide +kernel

/-- The slot that the first process takes. -/
def firstSlot : Fin slotCount := ⟨0, by decide⟩

/-- The kernel stack that the trap frame in a slot names, if there is one. -/
def Slot.stack? (s : Slot) : Option UInt64 :=
  s.space.map fun space => space.registers.get .kernelStack

/-- The stack is one of the saved registers. -/
theorem Slot.stack?_eq (s : Slot) : s.stack? = s.registers?.map fun f => f.get .kernelStack :=
  (Option.map_map (fun f : Registers => f.get .kernelStack) AddressSpace.registers s.space).symm

namespace Kernel

/-- The kernel stacks that the trap frames in all slots name. -/
def stackWords (k : Kernel) (i : Fin slotCount) : Option UInt64 := (k.slot i).stack?

section Views

variable {α : Type} {E : Panic → Prop} {k k' : Kernel}

/-- The stacks after one slot is written. -/
theorem stacks_withSlot (k : Kernel) (i : Fin slotCount) (s : Slot) :
    (k.withSlot i s).stackWords = Function.update k.stackWords i s.stack? := by
  funext j
  by_cases h : j = i
  · subst h
    rw [Function.update_self, stackWords, slot_withSlot, if_pos rfl]
  · rw [Function.update_of_ne h, stackWords, slot_withSlot, if_neg (Ne.symm h), stackWords]

/-- To write a slot without touching its stack leaves all of them. -/
theorem stacks_withSlot_of_eq {h : Handle} {s : Slot} (hs : s.stack? = (k.slotOf h).stack?) :
    (k.withSlot h.slot s).stackWords = k.stackWords := by
  rw [stacks_withSlot, hs]
  exact Function.update_eq_self h.slot k.stackWords

/-- The stacks are found in the saved registers. -/
theorem stackWords_eq (k : Kernel) (i : Fin slotCount) :
    k.stackWords i = (k.frames i).map fun f => f.get .kernelStack := Slot.stack?_eq _

/-- Stacks are told by the saved registers. -/
theorem keeps_stacks {x : KernelM α} (hx : Keeps frames E x) : Keeps stackWords E x := by
  have hview : stackWords = fun k i => (k.frames i).map fun f => f.get .kernelStack := by
    funext k i
    exact stackWords_eq k i
  rw [hview]
  exact hx.comp fun frames i => (frames i).map fun f => f.get .kernelStack

/-- No trap frame names a stack that it did not name before. -/
def Sheds (k k' : Kernel) : Prop := ∀ i w, k'.stackWords i = some w → k.stackWords i = some w

/-- The same stacks are named. -/
theorem Sheds.of_eq (h : k'.stackWords = k.stackWords) : k.Sheds k' := fun i _ hw =>
  (congrFun h i).symm.trans hw

/-- A trap frame that is emptied names no stack. -/
theorem Forgets.sheds (h : k.Forgets k') : k.Sheds k' := by
  intro i w hw
  rw [stackWords_eq] at hw ⊢
  obtain ⟨f, hf, rfl⟩ := Option.map_eq_some_iff.mp hw
  rw [h i f hf]
  rfl

/-- A trap frame is emptied. -/
theorem Sheds.of_update {i : Fin slotCount}
    (h : k'.stackWords = Function.update k.stackWords i none) :
    k.Sheds k' := by
  intro j w hw
  rw [h] at hw
  by_cases hj : j = i
  · subst hj
    rw [Function.update_self] at hw
    cases hw
  · rwa [Function.update_of_ne hj] at hw

/-- Every stack that a trap frame names is one that a trap frame named before, or that of the slot
in which the root process is made. -/
def Derives (k k' : Kernel) : Prop := ∀ i w, k'.stackWords i = some w →
  (∃ j, k.stackWords j = some w) ∨ k.root = none ∧ ∃ j, k.freeSlot? = some j ∧ w = stackTop j

/-- No new stack is named. -/
theorem Sheds.derives (h : k.Sheds k') : k.Derives k' := fun i w hw => .inl ⟨i, h i w hw⟩

/-- One slot gets a stack that was named before, or that of a new root process. -/
theorem Derives.of_update {i : Fin slotCount} {stack : Option UInt64}
    (h : k'.stackWords = Function.update k.stackWords i stack)
    (hstack : ∀ w, stack = some w → (∃ j, k.stackWords j = some w) ∨
      k.root = none ∧ ∃ j, k.freeSlot? = some j ∧ w = stackTop j) : k.Derives k' := by
  intro j w hw
  rw [h] at hw
  by_cases hj : j = i
  · subst hj
    rw [Function.update_self] at hw
    exact hstack w hw
  · rw [Function.update_of_ne hj] at hw
    exact .inl ⟨j, hw⟩

end Views

variable {k : Kernel}

/-! ### Making and unmaking processes -/

/-- Registers are changed without the stack. -/
theorem modifyRegisters_keeps_stacks (h : Handle) {f : Registers → Registers}
    (hf : ∀ registers, (f registers).get .kernelStack = registers.get .kernelStack) :
    Keeps stackWords (fun _ => True) (modifyRegisters h f) := by
  intro k
  unfold modifyRegisters getSlot
  simp only [comes_bind, comes_get, comes_pure]
  split
  · exact ⟨rfl, trivial⟩
  · next space hspace =>
    refine stacks_withSlot_of_eq (k := k) ?_
    unfold Slot.stack?
    rw [hspace]
    exact congrArg some (hf space.registers)

/-- Vacating a slot leaves it without a stack. -/
theorem vacate_stacks (h : Handle) : Leads k (vacate h)
    (fun _ k' => k'.stackWords = Function.update k.stackWords h.slot none) fun _ => True := by
  refine (vacate_frames h).imp fun _ k' hframes => funext fun i => ?_
  rw [stackWords_eq, hframes]
  by_cases hi : i = h.slot
  · rw [hi, Function.update_self, Function.update_self, Option.map_none]
  · rw [Function.update_of_ne hi, Function.update_of_ne hi, stackWords_eq]

/-- A new process gets the stack of its slot. -/
theorem buildSpace_stacks (h : Handle) : Leads k (buildSpace h) (fun r k' =>
    r = .error .outOfMemory ∧ k'.stackWords = k.stackWords ∨
      k'.stackWords = Function.update k.stackWords h.slot (some (stackTop h.slot))) fun _ => True := by
  have hstack (w : UInt64) : (Registers.zero.set .kernelStack w).get .kernelStack = w := by
    rw [Registers.get_set, if_pos rfl]
  unfold buildSpace stackTop
  simp only [leads_bind, leads_get]
  split
  · exact .inl ⟨rfl, rfl⟩
  · simp only [leads_bind, leads_modify, leads_liftM, leads_modifySlot, leads_pure]
    refine ⟨fun (_, table) _ => .inr ?_, fun _ _ => trivial⟩
    rw [stacks_withSlot]
    exact congrArg (fun w => Function.update k.stackWords h.slot (some w)) (hstack _)

/-- A slot that is claimed gets its own stack. -/
theorem claim_stacks : Leads k claim (fun r k' => match r with
    | .error _ => k.Sheds k'
    | .ok h => k.freeSlot? = some h.slot ∧
      k'.stackWords = Function.update k.stackWords h.slot (some (stackTop h.slot))) fun _ => True := by
  unfold claim
  simp only [leads_bind, leads_get]
  split
  · exact .of_eq rfl
  -- a number and an address space are given to the first free slot
  · next i hfree =>
    unfold takePid
    simp only [leads_bind, leads_get]
    split
    · exact trivial
    simp only [leads_bind, leads_modify, leads_pure, leads_modifySlot]
    refine (buildSpace_stacks _).imp fun built k₂ h₂ => ?_
    have hsame : (Kernel.withSlot { k with nextPid := k.nextPid + 1 } i { k.slot i with
        state := .used, pid := k.nextPid, entity := Entity.initial }).stackWords = k.stackWords :=
      stacks_withSlot_of_eq (k := { k with nextPid := k.nextPid + 1 }) (h := ⟨i, k.nextPid⟩) rfl
    replace h₂ : built = .error .outOfMemory ∧ k₂.stackWords = k.stackWords ∨
        k₂.stackWords = Function.update k.stackWords i (some (stackTop i)) := hsame ▸ h₂
    split
    · rcases h₂ with ⟨hr, -⟩ | h₂
      · cases hr
      · exact leads_pure.mpr ⟨hfree, h₂⟩
    · -- without memory the slot is given up again, and with it the stack that it may have got
      rw [leads_bind]
      refine (vacate_stacks _).imp fun _ k₃ h₃ => ?_
      rw [leads_pure]
      refine Sheds.of_update (i := i) (h₃.trans ?_)
      rcases h₂ with ⟨-, h₂⟩ | h₂
      · rw [h₂]
      · rw [h₂, Function.update_idem]

/-- The root process keeps the stack that it was given. -/
theorem startRoot_stacks (image : Bytes) : Leads k (startRoot image) (fun r k' => match r with
    | .error _ => k.Sheds k'
    | .ok h => k.root = none ∧ k.freeSlot? = some h.slot ∧
      k'.stackWords = Function.update k.stackWords h.slot (some (stackTop h.slot))) fun _ => True := by
  unfold startRoot
  simp only [leads_bind, leads_get]
  split
  · exact trivial
  next hroot =>
  -- there is no root process yet, so one may be made
  have hroot : k.root = none := by simpa using hroot
  rw [leads_bind]
  refine claim_stacks.imp fun claimed k₁ h₁ => ?_
  cases claimed with
  | error e => exact leads_pure.mpr h₁
  | ok h =>
    have hfree : k.freeSlot? = some h.slot := h₁.1
    replace h₁ : k₁.stackWords =
        Function.update k.stackWords h.slot (some (stackTop h.slot)) := h₁.2
    simp only [leads_bind, leads_liftM]
    refine ⟨fun next _ => ?_, fun _ _ => trivial⟩
    have hloads := onMemory_keeps h (loadImage_plain image (max next pageSize))
    refine ((keeps_stacks (keeps_frames hloads)).leads k₁).mono
      (fun loaded k₂ h₂ => ?_) fun _ _ => trivial
    rw [h₁] at h₂
    split
    · -- the image does not fit: the slot is given up again
      rw [leads_bind]
      refine (vacate_stacks h).imp fun _ k₃ h₃ => ?_
      rw [leads_pure]
      refine Sheds.of_update (i := h.slot) (h₃.trans ?_)
      rw [h₂, Function.update_idem]
    · rw [leads_bind]
      -- the first instruction and the user stack are set, and not the kernel stack
      refine ((modifyRegisters_keeps_stacks h fun _ => ?_).leads k₂).imp fun _ k₃ h₃ => ?_
      · rw [Registers.get_set, if_neg (by decide), Registers.get_set, if_neg (by decide)]
      · simp only [leads_bind, leads_modifySlot, leads_modify, leads_note, leads_pure]
        refine ⟨hroot, hfree, Eq.trans ?_ (h₃.trans h₂)⟩
        exact stacks_withSlot_of_eq (k := k₃) (h := h) rfl

/-- A copy takes the stack of its original over. -/
theorem copyProcess_stacks (parent child : Handle) : Leads k (copyProcess parent child)
    (fun r k' => match r with
      | .error _ => k'.stackWords = k.stackWords
      | .ok () =>
        k'.stackWords = Function.update k.stackWords child.slot (k.stackWords parent.slot))
    fun _ => True := by
  unfold copyProcess
  simp only [leads_bind, leads_getSlot]
  split
  · exact trivial
  · next space hspace =>
    rw [leads_bind]
    have hcopies := onMemory_keeps child fun m => m.copyRange_plain space.table 0
      (k.slotOf parent).size
    -- the pages are copied, which touches no trap frame
    refine ((keeps_stacks (keeps_frames hcopies)).leads k).mono
      (fun copied k₁ h₁ => ?_) fun _ _ => trivial
    split
    · exact leads_pure.mpr h₁
    simp only [leads_bind, leads_modifySlot]
    refine ((keeps_stacks (keeps_frames (copyMappings_keeps parent child _))).leads _).mono
      (fun copied k₂ h₂ => ?_)
      fun _ _ => trivial
    -- its size is set, and then the mappings are copied
    have hsized : (k₁.withSlot child.slot { k₁.slotOf child with
        size := (k.slotOf parent).size }).stackWords = k₁.stackWords := stacks_withSlot_of_eq rfl
    rw [hsized, h₁] at h₂
    split
    · exact leads_pure.mpr h₂
    rw [leads_bind]
    refine leads_modifyRegisters trivial fun own _ => ?_
    simp only [leads_bind, leads_modifySlot, leads_pure]
    -- the trap frame is copied whole, and then only the answer register is set
    have hstack : (space.registers.set .a0 0).get .kernelStack =
        space.registers.get .kernelStack := by rw [Registers.get_set, if_neg nofun]
    have hparent : k.stackWords parent.slot = some (space.registers.get .kernelStack) := by
      change Option.map _ (k.slotOf parent).space = _
      rw [hspace]
      rfl
    rw [stacks_withSlot, stacks_withSlot, slotOf_withSlot_self, Function.update_idem, h₂, hparent]
    exact congrArg (fun w => Function.update k.stackWords child.slot (some w)) hstack

/-- A child has the stack of its parent. -/
theorem fork_stacks {h : Handle} (hlive : k.IsLive h) : Leads k (fork h) (fun r k' => match r with
    | .error _ => k.Sheds k'
    | .ok _ => ∃ i, k'.stackWords = Function.update k.stackWords i (k.stackWords h.slot))
    fun _ => True := by
  unfold fork
  simp only [leads_bind, leads_getSlot]
  refine claim_stacks.imp fun claimed k₁ h₁ => ?_
  split
  · exact h₁
  · next child =>
    obtain ⟨hfree, h₁⟩ := h₁
    -- the child got a slot that was free, so it is not that of its parent
    have hne : h.slot ≠ child.slot := fun heq =>
      not_isLive_of_freeSlot? hfree (heq ▸ hlive.1)
    rw [leads_bind]
    refine (copyProcess_stacks h child).imp fun copied k₂ h₂ => ?_
    split
    -- the copy failed, so the slot of the child is vacated
    · rw [leads_bind]
      refine (vacate_stacks child).imp fun _ k₃ h₃ => ?_
      rw [leads_pure]
      refine Sheds.of_update (i := child.slot) (h₃.trans ?_)
      rw [show k₂.stackWords = k₁.stackWords from h₂, h₁, Function.update_idem]
    -- what the child was given with its slot is overwritten with what its parent has
    · have h₂ : k₂.stackWords = Function.update k₁.stackWords child.slot (k₁.stackWords h.slot) := h₂
      rw [h₁, Function.update_of_ne hne, Function.update_idem] at h₂
      simp only [leads_bind, leads_liftM, leads_modifySlot, leads_note, leads_pure]
      refine ⟨fun entity _ => ⟨child.slot, Eq.trans ?_ h₂⟩, fun _ _ => trivial⟩
      exact stacks_withSlot_of_eq (k := k₂) (h := child) rfl

end Kernel

open Kernel

/-- A call that a process makes itself, or that is made through no handle, sets no registers. -/
theorem Call.sparesKernelWords_of_handle? {c : Call} (h : c.handle? = c.caller?) :
    c.SparesKernelWords := by
  cases c with
  | setRegisters p change => cases h
  | _ => trivial

/-- A stack that a trap frame names after a call is one that a trap frame named before it, unless
the call made the root process. -/
theorem Call.leads_stacks {k : Kernel} {c : Call} (hc : c.ThroughLive k)
    (hspares : c.SparesKernelWords) : Leads k c.run (fun _ k' => k.Derives k') fun _ => True := by
  -- most calls leave all trap frames
  by_cases hleaves : c.leavesFrames
  · refine ((keeps_stacks (Call.keeps_frames hleaves)).leads k).imp fun _ k' h' => ?_
    exact Sheds.derives (.of_eq h')
  cases c with
  -- the root process has the stack of the first free slot
  | startRoot image =>
    refine (startRoot_stacks image).imp fun r k' h' => ?_
    cases r with
    | error e => exact Sheds.derives h'
    | ok h =>
      obtain ⟨hroot, hfree, h'⟩ := h'
      refine .of_update h' fun w hw => .inr ⟨hroot, h.slot, hfree, ?_⟩
      exact (Option.some.inj hw).symm
  -- a child has the stack of its parent
  | fork h =>
    refine (fork_stacks (hc h rfl)).imp fun r k' h' => ?_
    cases r with
    | error e => exact Sheds.derives h'
    | ok pid =>
      obtain ⟨j, h'⟩ := h'
      exact .of_update h' fun w hw => .inl ⟨h.slot, hw⟩
  -- a child that is reaped has none any more
  | awaitChild h target address =>
    exact (awaitRound_forgets h target address).imp fun _ _ h' => h'.sheds.derives
  -- whoever sets registers leaves this one
  | setRegisters h change =>
    have hkeeps := modifyRegisters_keeps_stacks h fun registers => hspares registers _ rfl
    exact (hkeeps.leads k).imp fun _ _ h' => Sheds.derives (.of_eq h')
  | _ => exact absurd rfl hleaves

/-! ### Along a run -/

/-- What is called through a handle is called through that of a live process, and nobody writes the
words of a trap frame that are the kernel's own. -/
def Call.Discreet (k : Kernel) (c : Call) : Prop := c.ThroughLive k ∧ c.SparesKernelWords

section Runs

variable {pages : Nat} {boot k : Kernel} {past : List Transition}

/-- Every trap frame names the stack of the first slot. -/
structure Kernel.OneStack (k : Kernel) : Prop where
  stack_eq : ∀ i w, k.stackWords i = some w → w = stackTop firstSlot
  /-- Nobody lives before the root process does. -/
  root_ne_none : ∀ i, (k.slot i).isLive → k.root ≠ none

/-- A call leaves one stack. -/
theorem Kernel.OneStack.leads_call {c : Call} (h : k.OneStack) (hc : c.Discreet k) :
    Leads k c.run (fun _ k' => k'.OneStack) fun _ => True := by
  refine ((Call.leads_stacks hc.1 hc.2).also (c.leads_effect k)).imp
    fun a k' ⟨hstacks, heffect⟩ => ⟨fun i w hw => ?_, fun i hlive => ?_⟩
  · rcases hstacks i w hw with ⟨j, hj⟩ | ⟨hroot, j, hfree, rfl⟩
    · exact h.stack_eq j w hj
    · -- before the root process lives every slot is free, the first one too
      have hdead : !(k.slot firstSlot).isLive := by
        rw [Bool.not_eq_true', ← Bool.not_eq_true]
        exact fun hlive => h.root_ne_none firstSlot hlive hroot
      have hle : j ≤ firstSlot := le_of_findFinIdx? hfree hdead
      rw [Fin.le_zero_iff.mp hle]
      rfl
  · exact heffect.root_ne_none hc.1 h.root_ne_none hlive

/-- No process has a trap frame when the kernel has booted. -/
theorem Kernel.Booted.oneStack (h : boot.Booted pages) : boot.OneStack := by
  refine ⟨fun i w hw => ?_, fun i hlive => absurd hlive (h.not_isLive i)⟩
  rw [stackWords, h.slot_eq] at hw
  cases hw

/-- In a run there is one stack all the time. -/
theorem Run.oneStack (hrun : Run Call.Discreet boot past k) (hboot : boot.OneStack) :
    k.OneStack :=
  hrun.induct hboot fun _ h hc => h.leads_call hc

/-- **One stack.** In every state between calls every live process enters the kernel on the stack of
the first slot, whoever it descends from. So only the process in the first slot has a stack of its
own. -/
theorem live_processes_share_stack (hboot : boot.Booted pages)
    (hrun : Run Call.Discreet boot past k) {i : Fin slotCount} (hlive : (k.slot i).isLive) :
    (k.slot i).stack? = some (stackTop firstSlot) ∧
      ((k.slot i).stack? = some (stackTop i) ↔ i = firstSlot) := by
  have hk : k.Kempt pages := (hrun.mono fun _ _ hc => hc.1).kempt hboot.kempt
  obtain ⟨space, hspace⟩ := hk.space_of_isLive hlive
  have hstack : (k.slot i).stack? = some (space.registers.get .kernelStack) :=
    congrArg (Option.map fun space : AddressSpace => space.registers.get .kernelStack) hspace
  have hfirst := (hrun.oneStack hboot.oneStack).stack_eq i _ hstack
  rw [hstack, hfirst]
  refine ⟨rfl, fun heq => ?_, fun heq => heq ▸ rfl⟩
  exact (stackTop_injective (Option.some.inj heq)).symm

/-- A child that the root process forked has the stack of the root process. -/
theorem live_processes_share_stack_fork : ∃ (boot k : Kernel) (past : List Transition)
    (i : Fin slotCount), boot.Booted 6 ∧ Run Call.Discreet boot past k ∧ (k.slot i).isLive ∧
      i ≠ firstSlot ∧ (k.slot i).stack? = some (stackTop firstSlot) := by
  obtain ⟨boot, past, k, hboot, hrun, hcheck⟩ := Run.of_rehearse
    (fun k c => c.ThroughLive k ∧ c.handle? = c.caller?) 6 (Call.family.take 3)
    (fun _ k => (k.slotOf .second).isLive) (by decide +kernel)
  have hdiscreet : Run Call.Discreet boot past k := hrun.mono fun k c hc =>
    ⟨hc.1, Call.sparesKernelWords_of_handle? hc.2⟩
  exact ⟨boot, k, past, Handle.second.slot, hboot, hdiscreet, hcheck, by decide,
    (live_processes_share_stack hboot hdiscreet hcheck).1⟩

/-- So a child does not have the stack of its slot, and it shares one with its parent. -/
theorem stack_shared_by_fork : ∃ (boot k : Kernel) (past : List Transition) (p q : Handle),
    boot.Booted 6 ∧ Run Call.Discreet boot past k ∧ k.IsLive p ∧ k.IsLive q ∧ p ≠ q ∧
      (k.slotOf q).stack? ≠ some (stackTop q.slot) ∧
      (k.slotOf p).stack? = (k.slotOf q).stack? := by
  obtain ⟨boot, past, k, hboot, hrun, hcheck⟩ := Run.of_rehearse
    (fun k c => c.ThroughLive k ∧ c.handle? = c.caller?) 6 (Call.family.take 3)
    (fun _ k => decide (k.IsLive .eldest ∧ k.IsLive .second ∧
      (k.slotOf .second).stack? ≠ some (stackTop Handle.second.slot) ∧
      (k.slotOf .eldest).stack? = (k.slotOf .second).stack?)) (by decide +kernel)
  obtain ⟨hp, hq, hne, hsame⟩ := of_decide_eq_true hcheck
  exact ⟨boot, k, past, .eldest, .second, hboot, hrun.mono fun k c hc =>
    ⟨hc.1, Call.sparesKernelWords_of_handle? hc.2⟩, hp, hq, by decide, hne, hsame⟩

end Runs

end FairKernel
