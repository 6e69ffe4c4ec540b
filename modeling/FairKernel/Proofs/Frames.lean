import FairKernel.Proofs.Calls
import FairKernel.Proofs.Causes
import FairKernel.Proofs.Outcomes

/-!
# What calls leave alone

What the scheduler and the relatives of a process look at (its state, number, channel, kill flag,
exit status, entity and parent) is its *standing*; memory, saved registers, name and open files are
its *holdings*. Its *outline* is everything but the page table. A *handover* is a request to the
machine by which a processor changes hands. Work on the memory of a process changes nobody's
outline, and building, copying or resizing a process changes nobody's standing; neither is a
handover. None of this work panics because of a switch, and what it leaves alone it leaves alone in
a panic also.

`Keeps view E x` says all of this at once, for any view of the kernel: whatever comes of `x`, the
view is as before, and a panic has a cause that satisfies `E`. It is closed under the ways in which
actions are put together, so most proofs here only follow the text of the function.

Three views are used. `Kernel.outline` is the finest, for work on memory; `Kernel.bearing` forgets
all holdings, for work on a whole process; `Kernel.standing` forgets the handovers also. Whoever
keeps a finer view keeps a coarser one (`keeps_bearing`, `keeps_standing`).
-/

namespace FairKernel

/-! ### Actions that do not change a view -/

section Keeps

variable {α β γ : Type} {view : Kernel → γ} {E : Panic → Prop}

/-- Whatever comes of an action, the kernel looks the same in a view as before. -/
def Keeps (view : Kernel → γ) (E : Panic → Prop) (x : KernelM α) : Prop :=
  ∀ k, Comes k x (fun _ k' => view k' = view k) fun c k' => view k' = view k ∧ E c

/-- Every answer comes with a kernel that looks the same. -/
theorem Keeps.leads {x : KernelM α} (hx : Keeps view E x) (k : Kernel) :
    Leads k x (fun _ k' => view k' = view k) E :=
  .of_outcomes (fun _ _ hran => (hx k).of_run_ok hran) fun _ _ hran => ((hx k).of_run_error hran).2

/-- To answer changes nothing. -/
theorem Keeps.pure (a : α) : Keeps view E (Pure.pure a) := fun _ => comes_pure.mpr rfl

/-- To look at the kernel changes nothing. -/
theorem Keeps.get : Keeps view E MonadState.get := fun _ => comes_get.mpr rfl

/-- A panic changes nothing. -/
theorem Keeps.throw {c : Panic} (hc : E c) :
    Keeps view E (MonadExcept.throw c : KernelM α) := fun _ => comes_throw.mpr ⟨rfl, hc⟩

/-- What would follow a panic does not matter. -/
theorem Keeps.throw_bind {c : Panic} (hc : E c) (f : β → KernelM α) :
    Keeps view E ((MonadExcept.throw c : KernelM β) >>= f) := fun _ =>
  comes_bind.mpr (comes_throw.mpr ⟨rfl, hc⟩)

/-- Checked work changes nothing. -/
theorem Keeps.lift {x : Except Panic α} (hx : ∀ c, x = .error c → E c) :
    Keeps view E (liftM x) := by
  cases x with
  | ok a =>
    have hpure : Keeps view E (Pure.pure a) := .pure a
    exact hpure
  | error c =>
    have hthrow : Keeps view E (MonadExcept.throw c : KernelM α) := .throw (hx c rfl)
    exact hthrow

/-- What only depends on a view that is kept is kept. -/
theorem Keeps.comp {x : KernelM α} (hx : Keeps view E x) (f : γ → β) :
    Keeps (fun k => f (view k)) E x := fun k =>
  (hx k).mono (fun _ _ h => congrArg f h) fun _ _ h => ⟨congrArg f h.1, h.2⟩

/-- Checked work does not change a view. -/
theorem Keeps.plain {x : Except Panic α} (hx : Plain x) : Keeps view Panic.IsPlain (liftM x) :=
  .lift hx.isPlain

/-- A chain of actions that keep a view keeps it. -/
theorem Keeps.bind {x : KernelM α} {f : α → KernelM β} (hx : Keeps view E x)
    (hf : ∀ a, Keeps view E (f a)) : Keeps view E (x >>= f) := by
  intro k
  refine comes_bind.mpr ((hx k).imp fun a k₁ h₁ => ?_)
  exact (hf a k₁).mono (fun _ _ h₂ => h₂.trans h₁) fun _ _ h₂ => ⟨h₂.1.trans h₁, h₂.2⟩

/-- A change of something else is not seen in a view. -/
theorem Keeps.change {f : Kernel → Kernel} (hf : ∀ k, view (f k) = view k) :
    Keeps view E (modify f : KernelM PUnit) := fun k => comes_modify.mpr (hf k)

/-- A notice only shows on the console. -/
theorem Keeps.note (hview : ∀ (k : Kernel) console, view { k with console } = view k) (n : Notice) :
    Keeps view E (Kernel.note n) := by
  refine .bind .get fun k => ?_
  split
  · exact .change fun k => hview k _
  · exact .pure _

end Keeps

/-! ### Standing and outline -/

/-- The memory of a process without its page table. -/
def AddressSpace.outline (space : AddressSpace) : AddressSpace := { space with table := .empty }

/-- A slot without the page table of its process. -/
def Slot.outline (s : Slot) : Slot := { s with space := s.space.map AddressSpace.outline }

/-- No page table makes a difference to an outline. -/
theorem Slot.outline_withTable {s : Slot} {space : AddressSpace} (h : s.space = some space)
    (table : PageTable) : { s with space := some { space with table } }.outline = s.outline := by
  unfold outline
  rw [h]
  rfl

/-- A slot without the holdings of its process. -/
def Slot.standing (s : Slot) : Slot :=
  { s with size := 0, space := none, name := "", files := Vector.replicate descriptorLimit none }

/-- How all processes stand, with what the kernel notes of them as a whole. -/
structure Standing where
  slots : Fin slotCount → Slot
  nextPid : Pid
  root : Option Handle
  running : Vector (Option Handle) cpuLimit
  ticks : Nat

/-- Whether a request gives a processor to a process, or takes a process off one. -/
def MachineCall.isHandover : MachineCall → Bool
  | .run _ _ | .switch _ => true
  | _ => false

namespace Kernel

variable {α : Type} {E : Panic → Prop}

/-- The requests by which processors changed hands, newest first. -/
def handovers (k : Kernel) : List MachineCall := k.calls.filter MachineCall.isHandover

/-- How the processes of a kernel stand. -/
def standing (k : Kernel) : Standing where
  slots i := (k.slot i).standing
  nextPid := k.nextPid
  root := k.root
  running := k.running
  ticks := k.ticks

/-- The processes of a kernel without their page tables, with the handovers so far. -/
def outline (k : Kernel) : Standing × List MachineCall :=
  ({ k.standing with slots := fun i => (k.slot i).outline }, k.handovers)

/-- How the processes of a kernel stand, with the handovers so far. -/
def bearing (k : Kernel) : Standing × List MachineCall := (k.standing, k.handovers)

/-- Who keeps all outlines keeps all standings. -/
theorem keeps_bearing {x : KernelM α} (hx : Keeps outline E x) : Keeps bearing E x :=
  hx.comp fun (σ, handovers) =>
    ({ σ with slots := fun i => (σ.slots i).standing }, handovers)

/-- Who keeps the bearing of all processes keeps how they stand. -/
theorem keeps_standing {x : KernelM α} (hx : Keeps bearing E x) : Keeps standing E x :=
  hx.comp Prod.fst

/-- A slot is replaced by one with the same outline. -/
theorem outline_withSlot {k : Kernel} {h : Handle} {s : Slot}
    (hs : s.outline = (k.slotOf h).outline) : (k.withSlot h.slot s).outline = k.outline := by
  have hslots : (fun i => ((k.withSlot h.slot s).slot i).outline) =
      fun i => (k.slot i).outline := by
    funext i
    rw [slot_withSlot]
    split
    · next e =>
      subst e
      exact hs
    · rfl
  exact congrArg (fun slots => ({ k.standing with slots }, k.handovers)) hslots

/-- A slot is replaced by one that stands the same. -/
theorem standing_withSlot {k : Kernel} {h : Handle} {s : Slot}
    (hs : s.standing = (k.slotOf h).standing) : (k.withSlot h.slot s).standing = k.standing := by
  unfold standing
  congr 1
  funext i
  rw [slot_withSlot]
  split
  · next e =>
    subst e
    exact hs
  · rfl

/-- Work on the holdings of a process is not seen in its bearing. -/
theorem modifySlot_keeps {h : Handle} {f : Slot → Slot} (hf : ∀ s, (f s).standing = s.standing) :
    Keeps bearing E (modifySlot h f) :=
  .change fun k => congrArg (·, k.handovers) (standing_withSlot (hf _))

/-- Work on something else than processes is not seen in their outline. -/
theorem modify_keeps {f : Kernel → Kernel} (hf : ∀ k, (f k).outline = k.outline) :
    Keeps outline E (modify f : KernelM Unit) := .change hf

/-- A notice is not seen in an outline. -/
theorem note_keeps (n : Notice) : Keeps outline E (note n) := .note (fun _ _ => rfl) n

/-- A request that is no handover. -/
theorem call_keeps {request : MachineCall} (h : request.isHandover = false) :
    Keeps outline E (call request) :=
  .change fun _ => congrArg (_, ·) (List.filter_cons_of_neg (Bool.eq_false_iff.mp h))

/-- A flush is no handover. -/
theorem flushTlb_keeps : Keeps outline E flushTlb :=
  .bind (modify_keeps fun _ => rfl) fun _ => call_keeps rfl

/-- To look at a slot changes nothing. -/
theorem getSlot_keeps (h : Handle) : Keeps outline E (getSlot h) := .bind .get fun _ => .pure _

/-- Records are not part of an outline. -/
theorem setRecord_keeps (i : Fin mappingLimit) (r : Option Mapping) :
    Keeps outline E (setRecord i r) := .change fun _ => rfl

/-- To take the memory of a process out changes nothing. -/
theorem memoryOf_keeps (h : Handle) : Keeps outline Panic.IsPlain (memoryOf h) := by
  refine .bind .get fun k => ?_
  split
  · exact .throw rfl
  · exact .pure _

/-- Work on a memory changes the table of its process and the pool, hence no outline. -/
theorem onMemory_keeps (h : Handle) {action : UserMemory → Except Panic (α × UserMemory)}
    (hplain : ∀ m, Plain (action m)) : Keeps outline Panic.IsPlain (onMemory h action) := by
  intro k
  unfold onMemory
  rw [comes_bind, comes_get]
  dsimp only
  split
  · exact comes_throw.mpr ⟨rfl, rfl⟩
  · next space hspace =>
    rw [comes_bind]
    cases hran : action ⟨space.table, k.pool⟩ with
    | ok result => exact outline_withSlot (Slot.outline_withTable hspace result.2.table)
    | error cause => exact ⟨rfl, (hplain _).isPlain cause hran⟩

/-- Bytes that are written are not seen in an outline. -/
theorem storeUser_keeps (h : Handle) (address : Nat) (bytes : Bytes) :
    Keeps outline Panic.IsPlain (storeUser h address bytes) := onMemory_keeps h fun _ => .ok _

/-! ### Work on memory

Pages come and go and records are made and removed, but outlines stay: each function has its lemma,
from those of the functions that it calls.
-/

theorem releasePage_keeps (address : Nat) : Keeps outline Panic.IsPlain (releasePage address) :=
  .bind .get fun _ => .bind (.plain (Pool.release_plain ..)) fun _ => modify_keeps fun _ => rfl

theorem installPage_keeps (h : Handle) (r : Mapping) (page : Nat) :
    Keeps outline Panic.IsPlain (installPage h r page) := by
  refine .bind .get fun k => ?_
  split
  · exact .pure _
  · refine .bind (modify_keeps fun _ => rfl) fun _ => ?_
    refine .bind (.plain (r.initialPage_plain page)) fun filled => ?_
    split
    · exact .bind (releasePage_keeps _) fun _ => .pure _
    · refine .bind (modify_keeps fun _ => rfl) fun _ => .bind (memoryOf_keeps h) fun m => ?_
      split
      · exact .bind (releasePage_keeps _) fun _ => .pure _
      · refine .bind (onMemory_keeps h fun m => m.adopt_plain ..) fun adopted => ?_
        split
        · exact .pure _
        · exact .bind flushTlb_keeps fun _ => .pure _

theorem installPages_keeps (h : Handle) (r : Mapping) (page count : Nat) :
    Keeps outline Panic.IsPlain (installPages h r page count) := by
  induction count generalizing page with
  | zero => exact .pure _
  | succ count ih =>
    refine .bind (installPage_keeps h r page) fun installed => ?_
    split
    · exact .pure _
    · exact ih _

theorem map_keeps (h : Handle) (request : MappingRequest) :
    Keeps outline Panic.IsPlain (map h request) := by
  refine .bind .get fun k => ?_
  split
  · exact .pure _
  · next r _ =>
    split
    · exact .pure _
    split
    · exact .pure _
    · next i _ =>
      -- the way back when the mapping is filled at once and that fails
      have fails (e : MappingError) : Keeps outline Panic.IsPlain (do
          let _ ← onMemory h fun m => m.unmap r.base r.pageCount
          flushTlb
          setRecord i none
          note (.populateFailed h.pid e)
          return .error e : KernelM (Except MappingError Nat)) :=
        .bind (onMemory_keeps h fun m => m.unmap_plain ..) fun _ => .bind flushTlb_keeps fun _ =>
          .bind (setRecord_keeps i _) fun _ => .bind (note_keeps _) fun _ => .pure _
      -- the way on when it is not to be filled, or could be
      have succeeds : Keeps outline Panic.IsPlain (do
          note (.mapped h.pid r.base r.stop r.protection r.options)
          return .ok r.base : KernelM (Except MappingError Nat)) :=
        .bind (note_keeps _) fun _ => .pure _
      refine .bind (setRecord_keeps i _) fun _ => ?_
      dsimp only
      split
      · refine .bind (installPages_keeps h r _ _) fun filled => ?_
        cases filled with
        | error e => exact fails e
        | ok _ => exact succeeds
      · refine .bind (.pure _) fun filled => ?_
        cases filled with
        | error e => exact fails e
        | ok _ => exact succeeds

theorem unmap_keeps (h : Handle) (address length : Nat) :
    Keeps outline Panic.IsPlain (unmap h address length) := by
  unfold unmap
  split
  · exact .pure _
  split
  · exact .pure _
  split
  · exact .pure _
  refine .bind .get fun k => ?_
  split
  · exact .pure _
  · split
    · exact .pure _
    · exact .bind (.plain (Mapping.dropFirst_plain ..)) fun _ => .bind (setRecord_keeps _ _) fun _ =>
        .bind (onMemory_keeps h fun m => m.unmap_plain ..) fun _ => .bind flushTlb_keeps fun _ =>
        .bind (note_keeps _) fun _ => .pure _

theorem touch_keeps (h : Handle) (address : Nat) (access : Access) :
    Keeps outline Panic.IsPlain (touch h address access) := by
  refine .bind .get fun k => ?_
  split
  · exact .pure _
  · split
    · exact .pure _
    refine .bind (memoryOf_keeps h) fun m => ?_
    split
    · exact .pure _
    · exact .bind (note_keeps _) fun _ => installPage_keeps h _ _

theorem dropMappings_keeps (h : Handle) (records : List (Fin mappingLimit)) :
    Keeps outline Panic.IsPlain (dropMappings h records) := by
  induction records with
  | nil => exact .pure _
  | cons i rest ih =>
    refine .bind .get fun k => ?_
    split
    · exact ih
    · exact .bind (onMemory_keeps h fun m => m.unmap_plain ..) fun _ =>
        .bind (setRecord_keeps i _) fun _ => ih

theorem copyRecords_keeps (child : Handle) (t : PageTable) (records : List Mapping) :
    Keeps outline Panic.IsPlain (copyRecords child t records) := by
  induction records with
  | nil => exact .pure _
  | cons r rest ih =>
    refine .bind .get fun k => ?_
    split
    · exact .pure _
    · refine .bind (onMemory_keeps child fun m => m.copyRange_plain ..) fun copied => ?_
      split
      · exact .pure _
      · exact .bind (setRecord_keeps _ _) fun _ => ih

theorem copyMappings_keeps (parent child : Handle) (t : PageTable) :
    Keeps outline Panic.IsPlain (copyMappings parent child t) := by
  refine .bind .get fun k => .bind (copyRecords_keeps child t _) fun copied => ?_
  split
  · exact .pure _
  · exact .bind (dropMappings_keeps child _) fun _ => .pure _

/-! ### Work on one process

What is done to the memory, the registers or the files of a process is not seen in how it stands.
-/

theorem modifyRegisters_keeps (h : Handle) (f : Registers → Registers) :
    Keeps bearing Panic.IsPlain (modifyRegisters h f) := by
  refine .bind (keeps_bearing (getSlot_keeps h)) fun s => ?_
  split
  · exact .throw rfl
  · exact modifySlot_keeps fun _ => rfl

theorem openFile_keeps (h : Handle) (file : OpenFile) :
    Keeps bearing Panic.IsPlain (openFile h file) := by
  refine .bind (keeps_bearing (getSlot_keeps h)) fun s => ?_
  split
  · exact .pure _
  · exact .bind (modifySlot_keeps fun _ => rfl) fun _ => .pure _

theorem closeFile_keeps (h : Handle) (descriptor : Nat) :
    Keeps bearing Panic.IsPlain (closeFile h descriptor) := by
  refine .bind (keeps_bearing (getSlot_keeps h)) fun s => ?_
  split
  · exact .pure _
  · exact .bind (modifySlot_keeps fun _ => rfl) fun _ => .pure _

theorem resize_keeps (h : Handle) (change : Int) :
    Keeps bearing Panic.IsPlain (resize h change) := by
  refine .bind (keeps_bearing (getSlot_keeps h)) fun s => ?_
  dsimp only
  split
  · split
    · exact .pure _
    refine .bind (keeps_bearing (onMemory_keeps h fun m => m.grow_plain ..)) fun grown => ?_
    split
    · exact .pure _
    · exact .bind (modifySlot_keeps fun _ => rfl) fun _ => .pure _
  · split
    · exact .bind (keeps_bearing (onMemory_keeps h fun m => m.shrink_plain ..)) fun _ =>
        .bind (modifySlot_keeps fun _ => rfl) fun _ => .pure _
    · exact .pure _

theorem buildSpace_keeps (h : Handle) : Keeps bearing Panic.IsPlain (buildSpace h) := by
  refine .bind .get fun k => ?_
  split
  · exact .pure _
  · -- the address of the kernel stack is not to be computed
    extract_lets registers
    clear_value registers
    refine Keeps.bind ?_ ?_
    · exact .change fun _ => rfl
    · intro _
      refine Keeps.bind ?_ ?_
      · refine Keeps.plain ?_
        exact AddressSpace.entryTable_plain _
      · rintro ⟨_, _⟩
        exact .bind (modifySlot_keeps fun _ => rfl) fun _ => .pure _

theorem copyProcess_keeps (parent child : Handle) :
    Keeps bearing Panic.IsPlain (copyProcess parent child) := by
  refine .bind (keeps_bearing (getSlot_keeps parent)) fun source => ?_
  split
  · exact .throw rfl
  · refine .bind (keeps_bearing (onMemory_keeps child fun m => m.copyRange_plain ..))
      fun copied => ?_
    split
    · exact .pure _
    · refine .bind (modifySlot_keeps fun _ => rfl) fun _ =>
        .bind (keeps_bearing (copyMappings_keeps parent child _)) fun copied => ?_
      split
      · exact .pure _
      · exact .bind (modifyRegisters_keeps child _) fun _ =>
          .bind (modifySlot_keeps fun _ => rfl) fun _ => .pure _

end Kernel

end FairKernel
