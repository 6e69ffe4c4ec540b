import FairKernel.Proofs.Effects
import FairKernel.Proofs.Eligibility
import FairKernel.Proofs.PageAccounts

/-!
# Estates

The *estate* of a slot is what accounts are kept of in it: whether and with which number a process
lives there, its size, its table and its trap frame page. A kernel is *partitioned* if it is
accounted for and all that user addresses of a live process map is covered. Whatever moves processes
about without touching their memory changes no estate, so it keeps a kernel partitioned.

Coverage is what makes an exit complete: the pages that are freed with a process are those below its
size and those of its mappings, so a page that is mapped elsewhere would be lost. `Partitioned` is
the account of all pages together with coverage.

Sleeping, waking, ticking, dispatching, exiting, killing, and setting registers, files and nice
values have no part in this. Each of them is a *move* (`Moves`): it leads to a kernel that is
`Alike`, with the same estates, records and pool, and it does not panic over a page that is not of
the pool. The lemmas about them end in `_moves`.
-/

namespace FairKernel

/-- What accounts are kept of in a slot. -/
structure Estate where
  isLive : Bool
  pid : Pid
  size : Nat
  /-- The table and the trap frame page. -/
  space : Option (PageTable × Nat)

namespace Slot

/-- The estate of a slot. -/
def estate (s : Slot) : Estate where
  isLive := s.isLive
  pid := s.pid
  size := s.size
  space := s.space.map fun a => (a.table, a.framePage)

variable {s s' : Slot}

/-- The same estate means the same table. -/
theorem table_eq_of_estate (h : s'.estate = s.estate) : s'.table = s.table := by
  have table_eq (s : Slot) : s.table = s.estate.space.elim PageTable.empty Prod.fst := by
    cases hspace : s.space with
    | none => rw [table_of_none hspace, estate, hspace, Option.map_none, Option.elim_none]
    | some space => rw [table_of_space hspace, estate, hspace, Option.map_some, Option.elim_some]
  rw [table_eq, h, ← table_eq]

/-- The same estate means the same pages. -/
theorem pages_eq_of_estate (h : s'.estate = s.estate) : s'.pages = s.pages := by
  have pages_eq (s : Slot) : s.pages = s.estate.space.elim 0 fun a => a.2 ::ₘ a.1.residents := by
    cases hspace : s.space with
    | none => rw [pages_of_none hspace, estate, hspace, Option.map_none, Option.elim_none]
    | some space => rw [pages_of_space hspace, estate, hspace, Option.map_some, Option.elim_some]
  rw [pages_eq, h, ← pages_eq]

/-- With the same estate there is a space or there is none. -/
theorem isSome_space_eq_of_estate (h : s'.estate = s.estate) :
    s'.space.isSome = s.space.isSome := by
  have isSome_eq (s : Slot) : s.space.isSome = s.estate.space.isSome := by simp [estate]
  rw [isSome_eq, h, ← isSome_eq]

/-- With the same estate a space has the same table and the same trap frame. -/
theorem exists_space_of_estate (h : s'.estate = s.estate) {space' : AddressSpace}
    (hspace' : s'.space = some space') : ∃ space, s.space = some space ∧
      space.table = space'.table ∧ space.framePage = space'.framePage := by
  have hmap : s.space.map (fun a => (a.table, a.framePage)) =
      some (space'.table, space'.framePage) := by
    have := congrArg Estate.space h
    simp only [estate, hspace', Option.map_some] at this
    exact this.symm
  obtain ⟨space, hspace, heq⟩ := Option.map_eq_some_iff.mp hmap
  rw [Prod.mk.injEq] at heq
  exact ⟨space, hspace, heq⟩

/-- Saved registers do not count. -/
theorem estate_congr' (hlive : s'.isLive = s.isLive) (hpid : s'.pid = s.pid)
    (hsize : s'.size = s.size) (hspace : s'.space.map (fun a => (a.table, a.framePage)) =
      s.space.map fun a => (a.table, a.framePage)) : s'.estate = s.estate := by
  unfold estate
  rw [hlive, hpid, hsize, hspace]

/-- A process that goes from one live state to another keeps its estate. -/
theorem estate_congr (hlive : s'.isLive = s.isLive) (hpid : s'.pid = s.pid)
    (hsize : s'.size = s.size) (hspace : s'.space = s.space) : s'.estate = s.estate :=
  estate_congr' hlive hpid hsize (by rw [hspace])

end Slot

namespace Kernel

variable {pages : Nat} {k k' k'' : Kernel} {p : Handle}

/-- All user addresses of all live processes are covered. -/
structure Partitioned (pages : Nat) (k : Kernel) : Prop extends Accounted pages k where
  covers : ∀ q, k.IsLive q → k.Covers q

/-- The same estates, the same records and the same pool. -/
structure Alike (k k' : Kernel) : Prop where
  pool_eq : k'.pool = k.pool
  mappings_eq : k'.mappings = k.mappings
  estate_eq : ∀ i : Fin slotCount, (k'.slot i).estate = (k.slot i).estate

namespace Alike

/-- Every kernel is like itself. -/
theorem refl (k : Kernel) : k.Alike k := ⟨rfl, rfl, fun _ => rfl⟩

/-- To be alike is passed on. -/
theorem trans (h : k.Alike k') (h' : k'.Alike k'') : k.Alike k'' :=
  ⟨h'.pool_eq.trans h.pool_eq, h'.mappings_eq.trans h.mappings_eq,
    fun i => (h'.estate_eq i).trans (h.estate_eq i)⟩

/-- What is asked of the machine or written to the console does not matter. -/
theorem congr (h : k.Alike k') (hpool : k''.pool = k'.pool) (hslots : k''.slots = k'.slots)
    (hmappings : k''.mappings = k'.mappings) : k.Alike k'' where
  pool_eq := hpool.trans h.pool_eq
  mappings_eq := hmappings.trans h.mappings_eq
  estate_eq i := by
    rw [slot_congr hslots]
    exact h.estate_eq i

/-- The same processes live in kernels that are alike. -/
theorem isLive_iff (h : k.Alike k') (q : Handle) : k'.IsLive q ↔ k.IsLive q := by
  have hestate := h.estate_eq q.slot
  have hlive : (k'.slot q.slot).isLive = (k.slot q.slot).isLive := congrArg Estate.isLive hestate
  have hpid : (k'.slot q.slot).pid = (k.slot q.slot).pid := congrArg Estate.pid hestate
  unfold IsLive slotOf
  rw [hlive, hpid]

/-- The same processes are covered in kernels that are alike. -/
theorem covers_iff (h : k.Alike k') (q : Handle) : k'.Covers q ↔ k.Covers q := by
  have hestate := h.estate_eq q.slot
  have htable : (k'.slot q.slot).table = (k.slot q.slot).table := Slot.table_eq_of_estate hestate
  have hsize : (k'.slot q.slot).size = (k.slot q.slot).size := congrArg Estate.size hestate
  unfold Covers Shows slotOf
  simp only [htable, hsize, record_congr h.mappings_eq]

/-- The same pages are held in kernels that are alike. -/
theorem heldPages_eq (h : k.Alike k') : k'.heldPages = k.heldPages :=
  Finset.sum_congr rfl fun i _ => Slot.pages_eq_of_estate (h.estate_eq i)

/-- Accounts that are kept of a kernel are kept of those that are like it. -/
theorem accounted (h : k.Alike k') (hk : k.Accounted pages) : k'.Accounted pages where
  spans := h.pool_eq ▸ hk.spans
  tidy := h.pool_eq ▸ hk.tidy
  isLive_iff i := by
    have hlive : (k'.slot i).isLive = (k.slot i).isLive := congrArg Estate.isLive (h.estate_eq i)
    rw [hlive, Slot.isSome_space_eq_of_estate (h.estate_eq i)]
    exact hk.isLive_iff i
  pooled i := by
    rw [Slot.table_eq_of_estate (h.estate_eq i)]
    exact hk.pooled i
  entered i space' hspace' := by
    obtain ⟨space, hspace, htable, hframe⟩ := Slot.exists_space_of_estate (h.estate_eq i) hspace'
    rw [← htable, ← hframe]
    exact hk.entered i space hspace
  size_le i := by
    have hsize : (k'.slot i).size = (k.slot i).size := congrArg Estate.size (h.estate_eq i)
    rw [hsize]
    exact hk.size_le i
  inWindow j := by
    rw [record_congr h.mappings_eq]
    exact hk.inWindow j
  whole := by
    rw [h.heldPages_eq, h.pool_eq]
    exact hk.whole

/-- The pool is divided up in kernels that are like one in which it is. -/
theorem partitioned (h : k.Alike k') (hk : k.Partitioned pages) : k'.Partitioned pages where
  toAccounted := h.accounted hk.toAccounted
  covers q hq := (h.covers_iff q).mpr (hk.covers q ((h.isLive_iff q).mp hq))

/-- One slot is replaced by one with the same estate. -/
theorem withSlot {i : Fin slotCount} {s : Slot} (hs : s.estate = (k.slot i).estate) :
    k.Alike (k.withSlot i s) where
  pool_eq := rfl
  mappings_eq := rfl
  estate_eq j := by
    rw [slot_withSlot]
    split
    · next hij =>
      subst hij
      exact hs
    · rfl

/-- The process in a live slot goes on to another live state. -/
theorem withState (hlive : k.IsLive p) {s : Slot} (hs : s.isLive) (hpid : s.pid = (k.slotOf p).pid)
    (hsize : s.size = (k.slotOf p).size) (hspace : s.space = (k.slotOf p).space) :
    k.Alike (k.withSlot p.slot s) :=
  withSlot (Slot.estate_congr (hs.trans hlive.1.symm) hpid hsize hspace)

end Alike

/-! ### Waking and ticking

Whoever sleeps, wakes, runs or waits for a processor keeps what it has.
-/

/-- An operation that leaves all estates alone, and does not give back a page that is not of the
pool. -/
def Moves {α : Type} (x : KernelM α) (k : Kernel) : Prop :=
  Leads k x (fun _ k' => k.Alike k') (· ≠ .foreignPage)

/-- An event moves processes about at most. -/
theorem wake_moves (channel : Channel) (k : Kernel) : Moves (wake channel) k := by
  refine leads_wake (fun slots hslots => ⟨rfl, rfl, fun i => ?_⟩) fun i c hc heq => ?_
  · have hi : Kernel.slot { k with slots } i = slots.get i := rfl
    rw [hi]
    rcases Slot.wokenBy_eq_ok.mp (hslots i) with ⟨e, ⟨hstate, -⟩, -, hs⟩ | ⟨-, hs⟩
    · rw [hs]
      refine Slot.estate_congr ?_ rfl rfl rfl
      exact (Slot.isLive_of_state_eq hstate nofun).symm
    · rw [hs]
  · subst heq
    exact ((k.slot i).wokenBy_arithmetic channel).ne_error rfl hc

/-- A tick of the clock moves processes about at most. -/
theorem advanceClock_moves (k : Kernel) : Moves advanceClock k := by
  unfold Moves advanceClock
  simp only [leads_bind, leads_get]
  refine leads_liftM_of_ne ((addWord_arithmetic ..).ne_error rfl) fun ticks _ => ?_
  simp only [leads_modify]
  exact (wake_moves _ { k with ticks }).imp fun _ k' h => ⟨h.pool_eq, h.mappings_eq, h.estate_eq⟩

/-- To leave a processor touches no memory. -/
theorem leaveCpu_moves (p : Handle) (k : Kernel) : Moves (leaveCpu p) k := by
  unfold Moves leaveCpu
  simp only [leads_bind, leads_getSlot]
  split
  · exact leads_bind.mpr (leads_throw.mpr nofun)
  split
  · exact leads_bind.mpr (leads_throw.mpr nofun)
  · exact (Alike.refl k).congr rfl rfl rfl

/-- Whoever leaves its processor panics at most because of the switch, ... -/
theorem leads_leaveCpu_isSwitch (p : Handle) :
    Leads k (leaveCpu p) (fun _ _ => True) fun c => c.isSwitch := by
  unfold leaveCpu
  simp only [leads_bind, leads_getSlot]
  split
  · rfl
  split
  · rfl
  · trivial

/-- ... and so does whoever falls asleep. -/
theorem leads_fallAsleep_isSwitch (p : Handle) (channel : Channel) :
    Leads k (fallAsleep p channel) (fun _ _ => True) fun c => c.isSwitch := by
  unfold fallAsleep
  simp only [leads_bind, leads_modifySlot]
  exact leads_leaveCpu_isSwitch p

/-- To fall asleep touches no memory. -/
theorem fallAsleep_moves (hlive : k.IsLive p) (channel : Channel) :
    Moves (fallAsleep p channel) k := by
  unfold Moves fallAsleep
  simp only [leads_bind, leads_modifySlot]
  have h := Alike.withState hlive (s := { k.slotOf p with
    channel := some channel, state := .sleeping }) rfl rfl rfl rfl
  exact (leaveCpu_moves p _).imp fun _ _ h' => h.trans h'

/-- To get up touches no memory. -/
theorem getUp_moves (p : Handle) (k : Kernel) : Moves (getUp p) k := by
  have h : k.Alike (k.withSlot p.slot { k.slotOf p with channel := none }) := .withSlot rfl
  exact h

/-- To give up a processor touches no memory. -/
theorem giveUpCpu_moves (hlive : k.IsLive p) : Moves (giveUpCpu p) k := by
  have rest (entity : Entity) : Leads k (do
      modifySlot p fun s => { s with entity, state := .runnable }
      leaveCpu p) (fun _ k' => k.Alike k') (· ≠ .foreignPage) := by
    simp only [leads_bind, leads_modifySlot]
    have h := Alike.withState hlive (s := { k.slotOf p with
      entity, state := .runnable }) rfl rfl rfl rfl
    exact (leaveCpu_moves p _).imp fun _ _ h' => h.trans h'
  unfold Moves giveUpCpu
  simp only [leads_bind, leads_getSlot]
  split
  · exact leads_bind.mpr (leads_liftM_of_ne ((Entity.refresh_arithmetic _).ne_error rfl) fun entity _ =>
      leads_bind.mp (rest entity))
  · exact leads_bind.mpr (leads_pure.mpr (leads_bind.mp (rest _)))

/-- To charge a tick touches no memory. -/
theorem chargeTick_moves (p : Handle) (k : Kernel) : Moves (chargeTick p) k := by
  unfold Moves chargeTick
  simp only [leads_bind, leads_getSlot]
  split
  · rw [leads_bind]
    refine leads_liftM_of_ne ((Entity.chargeTick_arithmetic _).ne_error rfl) fun (used, entity) _ => ?_
    simp only [leads_bind, leads_modifySlot, leads_pure]
    exact .withSlot rfl
  · exact .refl k

/-- A tick of a process touches no memory. -/
theorem tick_moves (hlive : k.IsLive p) : Moves (tick p) k := by
  unfold Moves tick
  rw [leads_bind]
  refine (advanceClock_moves k).imp fun _ k₁ h₁ => ?_
  rw [leads_bind]
  refine (chargeTick_moves p k₁).imp fun used k₂ h₂ => ?_
  split
  · simp only [leads_bind, leads_note]
    have h₃ : k.Alike { k₂ with console := k₂.consoleAfter (.quantumUsed p.pid) } :=
      (h₁.trans h₂).congr rfl rfl rfl
    exact (giveUpCpu_moves ((h₃.isLive_iff p).mpr hlive)).imp fun _ _ h₄ =>
      leads_pure.mpr (h₃.trans h₄)
  · exact h₁.trans h₂

/-- A round of a nap touches no memory. -/
theorem napRound_moves (hlive : k.IsLive p) (start count : Nat) :
    Moves (napRound p start count) k := by
  unfold Moves napRound napOver? isKilled
  simp only [leads_bind, leads_get]
  split
  · exact .refl k
  simp only [leads_bind, leads_getSlot, leads_pure]
  split
  · exact .refl k
  simp only [leads_pure, leads_bind]
  exact (fallAsleep_moves hlive _).imp fun _ _ h => h

/-! ### Exiting -/

/-- To pass children on touches no memory. -/
theorem adoptOut_moves (p : Handle) (k : Kernel) : Moves (adoptOut p) k := by
  unfold Moves adoptOut
  simp only [leads_bind, leads_get]
  split
  · exact .refl k
  · split
    · next root _ _ =>
      rw [leads_bind, leads_modify]
      have h₀ : k.Alike { k with slots := k.slots.map fun s => s.passedOn p root } := by
        refine ⟨rfl, rfl, fun i => ?_⟩
        have hi : Kernel.slot { k with slots := k.slots.map fun s => s.passedOn p root } i =
            (k.slot i).passedOn p root := get_map k.slots _ i
        rw [hi, Slot.passedOn]
        split <;> rfl
      exact (wake_moves _ _).imp fun _ k' h => h₀.trans h
    · exact .refl k

/-- An exit touches no memory: what a process has is freed when it is reaped. -/
theorem exit_moves (hlive : k.IsLive p) (status : Int) : Moves (exit p status) k := by
  unfold Moves exit
  simp only [leads_bind, leads_get]
  split
  · simp only [leads_bind, leads_note, leads_throw]
    nofun
  simp only [leads_bind, leads_modifySlot]
  -- closing files, waking and becoming a zombie change no estate
  have h₀ : k.Alike (k.withSlot p.slot (k.slotOf p).closeAll) := .withSlot rfl
  refine (adoptOut_moves p _).imp fun _ k₁ h₁ => ?_
  replace h₁ := h₀.trans h₁
  simp only [leads_getSlot]
  have rest (k₂ : Kernel) (h₂ : k.Alike k₂) : Leads k₂ (do
      modifySlot p fun s => { s with exitStatus := status, state := .zombie }
      note (.exited p.pid status)
      leaveCpu p) (fun _ k' => k.Alike k') (· ≠ .foreignPage) := by
    simp only [leads_bind, leads_modifySlot, leads_note]
    have h₃ := h₂.trans (Alike.withState ((h₂.isLive_iff p).mpr hlive) (s := { k₂.slotOf p with
      exitStatus := status, state := .zombie }) rfl rfl rfl rfl)
    refine (leaveCpu_moves p _).imp fun _ _ h₄ => Alike.trans ?_ h₄
    exact h₃.congr rfl rfl rfl
  split
  · exact rest k₁ h₁
  · rw [leads_bind]
    exact (wake_moves _ k₁).imp fun _ k₂ h₂ => rest k₂ (h₁.trans h₂)

/-! ### The scheduler and the host -/

/-- To note who runs touches no memory. -/
theorem setRunning_moves (cpu : Nat) (process : Option Handle) (k : Kernel) :
    Moves (setRunning cpu process) k := by
  unfold Moves setRunning
  split
  · exact ⟨rfl, rfl, fun _ => rfl⟩
  · nofun

/-- A pass of the scheduler touches no memory. -/
theorem dispatch_moves (cpu : Nat) (k : Kernel) : Moves (dispatch cpu) k := by
  unfold Moves dispatch
  simp only [leads_bind, leads_get]
  refine leads_liftM_of_ne (k.choose_arithmetic.ne_error rfl) fun chosen hchosen => ?_
  split
  · exact .refl k
  · next i =>
    obtain ⟨-, -, hstate, -⟩ := of_choose hchosen
    simp only [leads_bind, leads_modifySlot, leads_note]
    have hlive : k.IsLive ⟨i, (k.slot i).pid⟩ :=
      ⟨Slot.isLive_of_state_eq hstate nofun, rfl⟩
    have h₁ := Alike.withState hlive (s := { (k.slot i) with state := .running }) rfl rfl rfl rfl
    refine (setRunning_moves cpu _ _).imp fun _ k' h₂ => ?_
    simp only [leads_call, leads_pure]
    refine Alike.congr (Alike.trans ?_ h₂) rfl rfl rfl
    exact h₁.congr rfl rfl rfl

/-- A kill touches no memory. -/
theorem kill_moves (target : Pid) (k : Kernel) : Moves (kill target) k := by
  unfold Moves kill
  simp only [leads_bind, leads_get]
  split
  · exact .refl k
  · next p _ =>
    simp only [leads_bind, leads_modifySlot, leads_note, leads_pure]
    set s : Slot := { k.slotOf p with
      killed := true
      state := if (k.slotOf p).state = .sleeping then .runnable else (k.slotOf p).state } with hs
    have hlive : s.isLive = (k.slotOf p).isLive := by
      unfold Slot.isLive
      rw [hs]
      dsimp only
      split
      · next hstate =>
        rw [hstate]
        rfl
      · rfl
    have h : k.Alike (k.withSlot p.slot s) := .withSlot (Slot.estate_congr hlive rfl rfl rfl)
    exact h.congr rfl rfl rfl

/-- To set a kill flag touches no memory. -/
theorem setKilled_moves (p : Handle) (k : Kernel) : Moves (setKilled p) k := by
  have h : k.Alike (k.withSlot p.slot { k.slotOf p with killed := true }) := .withSlot rfl
  exact h

/-- To set a nice value touches no memory. -/
theorem setNice_moves (target : Pid) (nice : Int) (k : Kernel) : Moves (setNice target nice) k := by
  unfold Moves setNice
  split
  · exact .refl k
  simp only [leads_bind, leads_get]
  split
  · exact .refl k
  · simp only [leads_bind, leads_getSlot]
    refine leads_liftM_of_ne ((Entity.setNice_arithmetic ..).ne_error rfl) fun (old, entity) _ => ?_
    simp only [leads_modifySlot, leads_pure]
    exact .withSlot rfl

/-! ### Registers and files -/

/-- Saved registers are in a page that stays where it is. -/
theorem modifyRegisters_moves (p : Handle) (f : Registers → Registers) (k : Kernel) :
    Moves (modifyRegisters p f) k := by
  unfold Moves modifyRegisters
  simp only [leads_bind, leads_getSlot]
  split
  · exact nofun
  · next space hspace =>
    refine Alike.withSlot ?_
    unfold slotOf at hspace ⊢
    unfold Slot.estate
    rw [hspace]
    rfl

/-- Open files are no memory. -/
theorem openFile_moves (p : Handle) (file : OpenFile) (k : Kernel) : Moves (openFile p file) k := by
  unfold Moves openFile
  simp only [leads_bind, leads_getSlot]
  split
  · exact .refl k
  · simp only [leads_bind, leads_modifySlot, leads_pure]
    exact .withSlot rfl

/-- To close a file touches no memory. -/
theorem closeFile_moves (p : Handle) (descriptor : Nat) (k : Kernel) :
    Moves (closeFile p descriptor) k := by
  unfold Moves closeFile
  simp only [leads_bind, leads_getSlot]
  split
  · exact .refl k
  · simp only [leads_bind, leads_modifySlot, leads_pure]
    exact .withSlot rfl

end Kernel

end FairKernel
