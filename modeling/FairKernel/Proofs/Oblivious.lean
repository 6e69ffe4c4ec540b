import FairKernel.Proofs.Calls
import FairKernel.Proofs.Frames

/-!
# Operations that do not look at the mapping table

What an action comes to can depend on the mapping table only if the action looks into it. Most do
not: over any other table they come to the same, and leave that table as it is. Sleeping, waking,
ticking, scheduling and exiting are of this kind, and so is all work on the memory of one process.

`Ignores` says so by running the action over two tables, with which it composes: what is put
together from such actions is one, by `Ignores.bind` and, where the kernel is looked at,
`Ignores.get_bind`. Hence each action below follows its own text. What is needed of it later is that
the table is as before (`Ignores.keeps`).
-/

namespace FairKernel

variable {α β : Type}

/-- An outcome that leaves another state behind. -/
def leaving {ε σ : Type} (f : σ → σ) : EStateM.Result ε σ α → EStateM.Result ε σ α
  | .ok a s => .ok a (f s)
  | .error e s => .error e (f s)

namespace Kernel

/-- A kernel over another mapping table. -/
def withMappings (k : Kernel) (mappings : Vector (Option Mapping) mappingLimit) : Kernel :=
  { k with mappings }

/-- Over another mapping table an action comes to the same, and it leaves that table as it is. -/
def Ignores (x : KernelM α) : Prop :=
  ∀ k mappings, x.run (k.withMappings mappings) = leaving (withMappings · mappings) (x.run k)

namespace Ignores

variable {x : KernelM α} {f : α → KernelM β}

/-- The table is as before, whatever comes of the action. -/
theorem keeps (hx : Ignores x) : Keeps mappings (fun _ => True) x := by
  intro k
  have hrun : x.run k = leaving (withMappings · k.mappings) (x.run k) := hx k k.mappings
  unfold Comes
  cases hres : x.run k with
  | ok a k' =>
    rw [hres] at hrun
    injection hrun with _ hk
    have hsame := congrArg mappings hk
    exact hsame
  | error c k' =>
    rw [hres] at hrun
    injection hrun with _ hk
    have hsame := congrArg mappings hk
    exact ⟨hsame, trivial⟩

/-- Whatever is answered at once. -/
theorem pure (a : α) : Ignores (Pure.pure a) := fun _ _ => rfl

/-- A panic. -/
theorem throw (c : Panic) : Ignores (MonadExcept.throw c : KernelM α) := fun _ _ => rfl

/-- What would follow a panic does not matter. -/
theorem throw_bind (c : Panic) (f : β → KernelM α) :
    Ignores ((MonadExcept.throw c : KernelM β) >>= f) := fun _ _ => rfl

/-- What does not concern the kernel at all. -/
theorem lift (x : Except Panic α) : Ignores (liftM x) := by
  cases x with
  | ok a => exact .pure a
  | error c => exact .throw c

/-- One after the other. -/
theorem bind (hx : Ignores x) (hf : ∀ a, Ignores (f a)) : Ignores (x >>= f) := by
  intro k mappings
  change EStateM.bind x f _ = leaving _ (EStateM.bind x f k)
  have hrun : x (k.withMappings mappings) = leaving (withMappings · mappings) (x k) := hx k mappings
  unfold EStateM.bind
  rw [hrun]
  cases x k with
  | ok a k' => exact hf a k' mappings
  | error c k' => rfl

/-- The kernel may be looked at as long as its mapping table does not matter. -/
theorem get_bind {f : Kernel → KernelM β} (hsame : ∀ k mappings, f (k.withMappings mappings) = f k)
    (hf : ∀ k, Ignores (f k)) : Ignores (MonadState.get >>= f) := by
  intro k mappings
  change (f (k.withMappings mappings)).run (k.withMappings mappings) = leaving _ ((f k).run k)
  rw [hsame]
  exact hf k k mappings

/-- A change of the kernel that is the same over another table. -/
theorem change {f : Kernel → Kernel}
    (hf : ∀ k mappings, f (k.withMappings mappings) = (f k).withMappings mappings) :
    Ignores (modify f : KernelM PUnit) := fun k mappings =>
  congrArg (EStateM.Result.ok PUnit.unit) (hf k mappings)

end Ignores

/-! ### The machine, slots and memory

None of these knows that there is a mapping table.
-/

variable {h : Handle}

theorem call_ignores (request : MachineCall) : Ignores (call request) := .change fun _ _ => rfl

theorem flushTlb_ignores : Ignores flushTlb :=
  .bind (.change fun _ _ => rfl) fun _ => call_ignores _

theorem print_ignores (line : Line) : Ignores (print line) := .change fun _ _ => rfl

theorem note_ignores (n : Notice) : Ignores (note n) := by
  refine .get_bind (fun _ _ => rfl) fun k => ?_
  split
  · exact print_ignores _
  · exact .pure _

theorem getSlot_ignores (h : Handle) : Ignores (getSlot h) :=
  .get_bind (fun _ _ => rfl) fun _ => .pure _

theorem modifySlot_ignores (h : Handle) (f : Slot → Slot) : Ignores (modifySlot h f) :=
  .change fun _ _ => rfl

theorem isKilled_ignores (h : Handle) : Ignores (isKilled h) :=
  .bind (getSlot_ignores h) fun _ => .pure _

theorem setKilled_ignores (h : Handle) : Ignores (setKilled h) := modifySlot_ignores h _

theorem memoryOf_ignores (h : Handle) : Ignores (memoryOf h) := by
  refine .get_bind (fun _ _ => rfl) fun k => ?_
  split
  · exact .throw _
  · exact .pure _

/-- Work on the memory of a process reads the pool and the page table, and writes them back. -/
theorem onMemory_ignores (h : Handle) (action : UserMemory → Except Panic (α × UserMemory)) :
    Ignores (onMemory h action) := by
  intro k mappings
  have hslot : (k.withMappings mappings).slotOf h = k.slotOf h := rfl
  have hpool : (k.withMappings mappings).pool = k.pool := rfl
  unfold onMemory
  simp only [bind, EStateM.bind, EStateM.run, get, getThe, MonadStateOf.get]
  delta EStateM.get
  dsimp only
  rw [hslot, hpool]
  cases (k.slotOf h).space with
  | none => rfl
  | some space =>
    dsimp only
    cases action ⟨space.table, k.pool⟩ with
    | ok result => rfl
    | error c => rfl

theorem modifyRegisters_ignores (h : Handle) (f : Registers → Registers) :
    Ignores (modifyRegisters h f) := by
  refine .bind (getSlot_ignores h) fun s => ?_
  split
  · exact .throw _
  · exact modifySlot_ignores h _

theorem storeUser_ignores (h : Handle) (address : Nat) (bytes : Bytes) :
    Ignores (storeUser h address bytes) := onMemory_ignores h _

theorem kill_ignores (pid : Pid) : Ignores (kill pid) := by
  refine .get_bind (fun _ _ => rfl) fun k => ?_
  split
  · exact .pure _
  · exact .bind (modifySlot_ignores _ _) fun _ => .bind (note_ignores _) fun _ => .pure _

theorem openFile_ignores (h : Handle) (file : OpenFile) : Ignores (openFile h file) := by
  refine .bind (getSlot_ignores h) fun s => ?_
  split
  · exact .pure _
  · exact .bind (modifySlot_ignores h _) fun _ => .pure _

theorem closeFile_ignores (h : Handle) (descriptor : Nat) : Ignores (closeFile h descriptor) := by
  refine .bind (getSlot_ignores h) fun s => ?_
  split
  · exact .pure _
  · exact .bind (modifySlot_ignores h _) fun _ => .pure _

/-! ### Sleeping and the clock

Who sleeps, is woken or is charged is a matter of the slots alone.
-/

theorem leaveCpu_ignores (h : Handle) : Ignores (leaveCpu h) := by
  refine .bind (getSlot_ignores h) fun s => ?_
  dsimp only
  split
  · exact .throw_bind _ _
  split
  · exact .throw_bind _ _
  · exact call_ignores _

theorem fallAsleep_ignores (h : Handle) (channel : Channel) : Ignores (fallAsleep h channel) :=
  .bind (modifySlot_ignores h _) fun _ => leaveCpu_ignores h

theorem getUp_ignores (h : Handle) : Ignores (getUp h) := modifySlot_ignores h _

theorem wake_ignores (channel : Channel) : Ignores (wake channel) :=
  .get_bind (fun _ _ => rfl) fun _ => .bind (.lift _) fun _ => .change fun _ _ => rfl

theorem giveUpCpu_ignores (h : Handle) : Ignores (giveUpCpu h) := by
  have rest (entity : Entity) : Ignores (do
      modifySlot h fun s => { s with entity, state := .runnable }
      leaveCpu h) :=
    .bind (modifySlot_ignores h _) fun _ => leaveCpu_ignores h
  refine .bind (getSlot_ignores h) fun s => ?_
  split
  · exact .bind (.lift _) rest
  · exact .bind (.pure _) rest

theorem advanceClock_ignores : Ignores advanceClock :=
  .get_bind (fun _ _ => rfl) fun _ => .bind (.lift _) fun _ =>
    .bind (.change fun _ _ => rfl) fun _ => wake_ignores _

theorem chargeTick_ignores (h : Handle) : Ignores (chargeTick h) := by
  refine .bind (getSlot_ignores h) fun s => ?_
  split
  · exact .bind (.lift _) fun _ => .bind (modifySlot_ignores h _) fun _ => .pure _
  · exact .pure _

theorem tick_ignores (h : Handle) : Ignores (tick h) := by
  refine .bind advanceClock_ignores fun _ => .bind (chargeTick_ignores h) fun used => ?_
  split
  · exact .bind (note_ignores _) fun _ => .bind (giveUpCpu_ignores h) fun _ => .pure _
  · exact .pure _

theorem napRound_ignores (h : Handle) (start count : Nat) : Ignores (napRound h start count) := by
  have ends : Ignores (napOver? h start count) := by
    refine .get_bind (fun _ _ => rfl) fun k => ?_
    split
    · exact .pure _
    · refine .bind (isKilled_ignores h) fun killed => ?_
      split <;> exact .pure _
  refine .bind ends fun result => ?_
  split
  · exact .bind (fallAsleep_ignores h _) fun _ => .pure _
  · exact .pure _

/-! ### Scheduling

Who is due is told by the entities of those that are runnable.
-/

theorem setRunning_ignores (cpu : Nat) (process : Option Handle) :
    Ignores (setRunning cpu process) := by
  unfold setRunning
  split
  · exact .change fun _ _ => rfl
  · exact .throw _

/-- Whom the scheduler chooses does not depend on the mapping table. -/
theorem choose_withMappings (k : Kernel) (mappings : Vector (Option Mapping) mappingLimit) :
    (k.withMappings mappings).choose = k.choose := by
  have hearliest (l : List (Fin slotCount)) :
      (k.withMappings mappings).earliest l = k.earliest l := by
    induction l with
    | nil => rfl
    | cons i l ih =>
      unfold earliest
      rw [ih]
      rfl
  unfold choose
  simp only [hearliest]
  rfl

theorem dispatch_ignores (cpu : Nat) : Ignores (dispatch cpu) := by
  refine .get_bind (fun k mappings => ?_) fun k => .bind (.lift _) fun chosen => ?_
  · rw [choose_withMappings]
    rfl
  · split
    · exact .pure _
    · exact .bind (modifySlot_ignores _ _) fun _ => .bind (note_ignores _) fun _ =>
        .bind (setRunning_ignores _ _) fun _ => .bind (call_ignores _) fun _ => .pure _

theorem setNice_ignores (target : Pid) (nice : Int) : Ignores (setNice target nice) := by
  unfold setNice
  split
  · exact .pure _
  refine .get_bind (fun _ _ => rfl) fun k => ?_
  split
  · exact .pure _
  · exact .bind (getSlot_ignores _) fun _ => .bind (.lift _) fun _ =>
      .bind (modifySlot_ignores _ _) fun _ => .pure _

/-! ### Exits

Children pass to the root process and whoever waits is woken; the mappings stay in the table.
-/

theorem adoptOut_ignores (h : Handle) : Ignores (adoptOut h) := by
  refine .get_bind (fun _ _ => rfl) fun k => ?_
  split
  · exact .pure _
  · split
    · exact .bind (.change fun _ _ => rfl) fun _ => wake_ignores _
    · exact .pure _

theorem exit_ignores (h : Handle) (status : Int) : Ignores (exit h status) := by
  refine .get_bind (fun _ _ => rfl) fun k => ?_
  split
  · exact .bind (note_ignores _) fun _ => .throw_bind _ _
  · refine .bind (modifySlot_ignores h _) fun _ => .bind (adoptOut_ignores h) fun _ =>
      .bind (getSlot_ignores h) fun s => ?_
    have rest : Ignores (do
        modifySlot h fun s => { s with exitStatus := status, state := .zombie }
        note (.exited h.pid status)
        leaveCpu h) :=
      .bind (modifySlot_ignores h _) fun _ => .bind (note_ignores _) fun _ => leaveCpu_ignores h
    split
    · exact rest
    · exact .bind (wake_ignores _) fun _ => rest

/-! ### Memory of one process

Installing pages is done for a record that was found before, so the table is not looked at again.
-/

theorem releasePage_ignores (address : Nat) : Ignores (releasePage address) :=
  .get_bind (fun _ _ => rfl) fun _ => .bind (.lift _) fun _ => .change fun _ _ => rfl

theorem installPage_ignores (h : Handle) (r : Mapping) (page : Nat) :
    Ignores (installPage h r page) := by
  refine .get_bind (fun _ _ => rfl) fun k => ?_
  split
  · exact .pure _
  · refine .bind (.change fun _ _ => rfl) fun _ => .bind (.lift _) fun filled => ?_
    split
    · exact .bind (releasePage_ignores _) fun _ => .pure _
    · refine .bind (.change fun _ _ => rfl) fun _ => .bind (memoryOf_ignores h) fun m => ?_
      split
      · exact .bind (releasePage_ignores _) fun _ => .pure _
      · refine .bind (onMemory_ignores h _) fun adopted => ?_
        split
        · exact .pure _
        · exact .bind flushTlb_ignores fun _ => .pure _

/-- One page after the other. -/
theorem installPages_ignores (h : Handle) (r : Mapping) (page count : Nat) :
    Ignores (installPages h r page count) := by
  induction count generalizing page with
  | zero => exact .pure _
  | succ count ih =>
    refine .bind (installPage_ignores h r page) fun installed => ?_
    split
    · exact .pure _
    · exact ih _

theorem resize_ignores (h : Handle) (change : Int) : Ignores (resize h change) := by
  refine .bind (getSlot_ignores h) fun s => ?_
  dsimp only
  split
  · split
    · exact .pure _
    refine .bind (onMemory_ignores h _) fun grown => ?_
    split
    · exact .pure _
    · exact .bind (modifySlot_ignores h _) fun _ => .pure _
  · split
    · exact .bind (onMemory_ignores h _) fun _ => .bind (modifySlot_ignores h _) fun _ => .pure _
    · exact .pure _

/-! ### New processes

A number and an address space are taken before anything is mapped.
-/

theorem takePid_ignores : Ignores takePid := by
  refine .get_bind (fun _ _ => rfl) fun k => ?_
  dsimp only
  split
  · exact .throw_bind _ _
  · exact .bind (.change fun _ _ => rfl) fun _ => .pure _

theorem buildSpace_ignores (h : Handle) : Ignores (buildSpace h) := by
  refine .get_bind (fun _ _ => rfl) fun k => ?_
  split
  · exact .pure _
  · -- the address of the kernel stack is not to be computed
    extract_lets registers
    clear_value registers
    exact .bind (.change fun _ _ => rfl) fun _ => .bind (.lift _) fun _ =>
      .bind (modifySlot_ignores h _) fun _ => .pure _

end Kernel

end FairKernel
