import FairKernel.Proofs.Fates
import FairKernel.Proofs.Holdings
import FairKernel.Proofs.Lifetimes
import FairKernel.Proofs.UserBytes

/-!
# Reaping

A parent that waits looks for a child that has exited. The status of the child is written to the
memory of the parent first; only if that succeeds the slot of the child is vacated, and then all
pages of the child are free. Nobody else takes part in it.

The order matters: a parent that gives an address where it cannot write gets an error, and its child
is still there to be asked for again. `Written` says what is left after the writing alone, and
`Reaped` what is left after both. The pages of the child are found by the account of who holds what,
so that they are free afterwards follows from the account being kept (`Reaped.free_eq`).
-/

namespace FairKernel

namespace Kernel

variable {pages : Nat} {k k' k'' : Kernel} {p : Handle}

/-! ### Writing to user memory -/

/-- What comes of writing bytes to the memory of a process: only contents of its pages change. -/
structure Written (pages : Nat) (p : Handle) (k k' : Kernel) : Prop extends Tabled pages p k k' where
  slots_same : k'.slots = k.slots
  free_same : k'.pool.free = k.pool.free

/-- To write nothing is to write. -/
theorem Written.refl (h : k.Accounted pages) (hlive : k.IsLive p) : k.Written pages p k :=
  ⟨.refl h hlive, rfl, rfl⟩

/-- The pool is still divided up after a write. -/
theorem Written.partitioned (h : k.Written pages p k') (hk : k.Partitioned pages) :
    k'.Partitioned pages where
  toAccounted := h.accounted
  covers q hq := by
    have hlive : k.IsLive q := by
      unfold IsLive slotOf at hq ⊢
      rwa [slot_congr h.slots_same] at hq
    exact (hk.covers q hlive).congr h.slots_same h.mappings_same

/-- A write is work for one process. -/
theorem Written.arranged (h : k.Written pages p k') : k.Arranged pages p k' where
  toReworked := h.toReworked
  covers_of_covers hcovers := hcovers.congr h.slots_same h.mappings_same
  laidOut_of_laidOut hl := hl.congr h.slots_same h.mappings_same
  lookup_of_shows _ n found _ _ hfound := by
    rw [slotOf, slot_congr h.slots_same]
    exact hfound

/-- A write takes no page from the process. -/
theorem Written.retains (h : k.Written pages p k') : k.Retains p k' :=
  retains_of_table_eq (congrArg Slot.table (slot_congr h.slots_same p.slot))

/-- Bytes that are written can be read back afterwards. -/
theorem Accounted.leads_store (h : k.Accounted pages) (hlive : k.IsLive p) (address : Nat)
    (bytes : Bytes) {E : Panic → Prop} : Leads k (storeUser p address bytes) (fun r k' =>
      k.Written pages p k' ∧ (r = .ok () →
        (k'.memory p).load? address bytes.length = .ok bytes)) E := by
  obtain ⟨space, hspace⟩ := h.space_of_handle hlive
  rw [leads_storeUser hspace]
  refine ⟨⟨h.tabled_store hlive hspace address bytes, rfl, UserMemory.free_store _ _ _⟩,
    fun hok => ?_⟩
  have hload := ((h.sound hspace).separate (h.entered p.slot space hspace).isPrivate).load_store
    address bytes hok
  have hmemory : Kernel.memory { k with
      pool := (UserMemory.store ⟨space.table, k.pool⟩ address bytes).2.pool } p =
        (UserMemory.store ⟨space.table, k.pool⟩ address bytes).2 := by
    have htable := UserMemory.table_store ⟨space.table, k.pool⟩ address bytes
    have hself : (Kernel.slotOf { k with
        pool := (UserMemory.store ⟨space.table, k.pool⟩ address bytes).2.pool } p).table =
          space.table := Slot.table_of_space hspace
    unfold memory
    rw [hself]
    generalize UserMemory.store ⟨space.table, k.pool⟩ address bytes = stored at htable ⊢
    exact congrArg (UserMemory.mk · stored.2.pool) htable.symm
  rw [hmemory, UserMemory.load?, hload]
  rfl

/-- Nobody reads anything else after another process was worked on. -/
theorem Apart.load?_eq {q : Handle} (h : k.Apart p k') (hk : k.Accounted pages)
    (hq : q.slot ≠ p.slot) (address count : Nat) :
    (k'.memory q).load? address count = (k.memory q).load? address count := by
  have hmemory : (k'.memory q).table = (k.memory q).table :=
    congrArg Slot.table (h.slots_eq q.slot hq)
  have hload : (k'.memory q).load address count = (k.memory q).load address count := by
    refine UserMemory.load_congr hmemory (fun n physical permissions hlookup huser => ?_) ..
    have hn := hk.lt_userPages_of_lookup hlookup huser
    obtain ⟨a, ha, rfl⟩ := hk.mem_pages_of_lookup hn hlookup
    exact h.contents_eq q.slot hq a ha
  unfold UserMemory.load?
  rw [hload]

/-! ### Reaping -/

/-- A child was reaped: its status was written, if that was asked for, and its slot vacated. -/
structure Reaped (pages : Nat) (p : Handle) (address : Nat) (i : Fin slotCount) (k k' : Kernel) :
    Prop where
  exists_written : ∃ k₁, k.Written pages p k₁ ∧ k₁.Vacated pages ⟨i, (k.slot i).pid⟩ k' ∧
    (address ≠ 0 → (k₁.memory p).load? address 4 = .ok (intBytes (k.slot i).exitStatus))
  live : (k.slot i).isLive
  mappings_same : k'.mappings = k.mappings

namespace Reaped

variable {address : Nat} {i : Fin slotCount}

/-- The pool is still divided up after a child is reaped. -/
theorem partitioned (h : k.Reaped pages p address i k') (hk : k.Partitioned pages) :
    k'.Partitioned pages := by
  obtain ⟨k₁, hwritten, hvacated, -⟩ := h.exists_written
  exact hvacated.partitioned fun q _ hq => (hwritten.partitioned hk).covers q hq

/-- All pages of the child are free. -/
theorem free_eq (h : k.Reaped pages p address i k') :
    (k'.pool.free : Multiset Nat) = (k.slot i).pages + k.pool.free := by
  obtain ⟨k₁, hwritten, hvacated, -⟩ := h.exists_written
  rw [hvacated.free_eq hwritten.accounted, hwritten.free_same, slotOf,
    slot_congr hwritten.slots_same]

/-- The status can be read where it was asked for. -/
theorem load?_eq (h : k.Reaped pages p address i k') (hp : p.slot ≠ i) (haddress : address ≠ 0) :
    (k'.memory p).load? address 4 = .ok (intBytes (k.slot i).exitStatus) := by
  obtain ⟨k₁, hwritten, hvacated, hload⟩ := h.exists_written
  rw [hvacated.apart.load?_eq hwritten.accounted hp]
  exact hload haddress

end Reaped

/-- A zombie that is reaped leaves all its pages free; if its status cannot be written it stays. -/
theorem Partitioned.leads_reapZombie (h : k.Partitioned pages) (hlive : k.IsLive p)
    (address : Nat) {i : Fin slotCount} (hzombie : (k.slot i).isLive) {E : Panic → Prop} :
    Leads k (reapZombie p address i) (fun r k' => match r with
      | .error _ => k.Written pages p k' ∧ address ≠ 0
      | .ok pid => (k.slot i).pid = pid ∧ k.Reaped pages p address i k') E := by
  -- the slot is vacated after the status is written, if it was asked for
  have reap (k₁ : Kernel) (hwritten : k.Written pages p k₁) (hload : address ≠ 0 →
        (k₁.memory p).load? address 4 = .ok (intBytes (k.slot i).exitStatus)) :
      Leads k₁ (do
        vacate ⟨i, (k.slot i).pid⟩
        modifySlot ⟨i, (k.slot i).pid⟩ fun s => { s with parent := none }
        note (.reaped p.pid (k.slot i).pid)
        return .ok (k.slot i).pid : KernelM (Except ProcessError Pid)) (fun r k' => match r with
        | .error _ => k.Written pages p k' ∧ address ≠ 0
        | .ok pid => (k.slot i).pid = pid ∧ k.Reaped pages p address i k') E := by
    set q : Handle := ⟨i, (k.slot i).pid⟩ with hq
    have hslot : k₁.slotOf q = k.slot i := by
      rw [slotOf, slot_congr hwritten.slots_same]
    have hqlive : k₁.IsLive q := by
      unfold IsLive
      rw [hslot]
      exact ⟨hzombie, rfl⟩
    have h₁ := hwritten.partitioned h
    simp only [leads_bind]
    refine (h₁.toAccounted.leads_vacate hqlive (h₁.covers q hqlive)).imp fun _ k₂ hvacated => ?_
    obtain ⟨h₂, hmappings₂⟩ := hvacated
    simp only [leads_modifySlot, leads_note, leads_pure]
    set s : Slot := { k₂.slotOf q with parent := none } with hs
    have halike : k₂.Alike (k₂.withSlot q.slot s) := .withSlot rfl
    have hdead : ¬ ((k₂.withSlot q.slot s).slotOf q).isLive := by
      rw [slotOf_withSlot_self]
      exact h₂.not_isLive
    have hswept : ((k₂.withSlot q.slot s).slotOf q).IsSwept := by
      rw [slotOf_withSlot_self]
      -- nothing is left in the slot: neither memory nor files
      exact ⟨h₂.swept.size_eq, h₂.swept.files_eq⟩
    have h₃ : k₁.Vacated pages q (k₂.withSlot q.slot s) :=
      ⟨halike.accounted h₂.accounted, hdead, h₂.apart.trans (.withSlot q k₂ s fun _ _ => rfl), hswept⟩
    refine ⟨trivial, ⟨k₁, hwritten, ⟨h₃.accounted.congr rfl rfl rfl, h₃.not_isLive,
      h₃.apart.congr rfl rfl rfl, h₃.swept⟩, hload⟩, hzombie, ?_⟩
    exact hmappings₂.trans hwritten.mappings_same
  unfold reapZombie
  simp only [leads_bind, leads_get]
  split
  · next hzero =>
    -- the status is not asked for, ...
    refine leads_bind.mpr (leads_pure.mpr (reap k (.refl h.toAccounted hlive) ?_))
    exact fun hne => absurd hzero hne
  · next hne =>
    -- ... or it is written first, and if that fails the child is left alone
    rw [leads_bind]
    refine (h.leads_store hlive address _).imp fun written k₁ hstored => ?_
    obtain ⟨hwritten, hload⟩ := hstored
    cases written with
    | error e => exact ⟨hwritten, hne⟩
    | ok _ => exact reap k₁ hwritten fun _ => hload rfl

/-- A round of waiting reaps a child, or says why not, or falls asleep; it panics at most because of
the switch. -/
theorem Partitioned.leads_awaitRound (h : k.Partitioned pages) (hlive : k.IsLive p)
    (target : Option Pid) (address : Nat) : Leads k (awaitRound p target address)
      (fun r k' => match r with
        | none => k.Alike k' ∧ k'.holdingsBeside none = k.holdingsBeside none
        | some (.error _) => k.Written pages p k'
        | some (.ok pid) => ∃ i : Fin slotCount, isChild p target (k.slot i) ∧
            (k.slot i).state = .zombie ∧ (k.slot i).pid = pid ∧ k.Reaped pages p address i k')
      (fun c => c.isSwitch) := by
  unfold awaitRound reap?
  simp only [leads_bind, leads_get]
  split
  · next i hi =>
    obtain ⟨hstate, -⟩ := List.find?_eq_some_iff_append.mp hi
    have hchild := (List.mem_filter.mp (List.mem_of_find?_eq_some hi)).2
    have hzombie : (k.slot i).isLive := Slot.isLive_of_state_eq (beq_iff_eq.mp hstate) nofun
    -- a child that has exited was found, ...
    rw [leads_bind]
    refine (h.leads_reapZombie hlive address hzombie).imp fun r k' h' => ?_
    cases r with
    | error e => exact h'.1
    | ok pid => exact ⟨i, hchild, beq_iff_eq.mp hstate, h'⟩
  · split
    -- ... or there is no child, ...
    · exact .refl h.toAccounted hlive
    · unfold isKilled
      simp only [leads_bind, leads_getSlot, leads_pure]
      split
      -- ... or the caller was killed, ...
      · exact .refl h.toAccounted hlive
      -- ... or it falls asleep
      · simp only [leads_pure, leads_bind]
        exact ((leads_fallAsleep_isSwitch p _).also (fallAsleep_moves hlive _)).also
          ((fallAsleep_spares p _).leads k) |>.imp fun _ _ h' => ⟨h'.1.2, h'.2⟩

/-- A zombie that its parent asks for is reaped at once, if its status is not asked for. -/
theorem Partitioned.leads_awaitRound_zombie (h : k.Partitioned pages) (hlive : k.IsLive p)
    {pid : Pid} {i : Fin slotCount} (hchild : isChild p (some pid) (k.slot i))
    (hzombie : (k.slot i).state = .zombie) :
    Leads k (awaitRound p (some pid) 0) (fun r _ => r = some (.ok pid)) fun _ => False := by
  unfold awaitRound reap?
  simp only [leads_bind, leads_get]
  split
  -- pids tell the children apart, so the zombie that is found is the one asked for
  · next j hj =>
    obtain ⟨hstate, -⟩ := List.find?_eq_some_iff_append.mp hj
    have hchild := (List.mem_filter.mp (List.mem_of_find?_eq_some hj)).2
    have hpid := (isChild_iff.mp hchild).2.2 pid rfl
    have hj : (k.slot j).isLive := Slot.isLive_of_state_eq (beq_iff_eq.mp hstate) nofun
    rw [leads_bind]
    refine (h.leads_reapZombie hlive 0 hj).imp fun r k' h' => ?_
    cases r with
    | error e => exact absurd rfl h'.2
    | ok pid' => exact congrArg (some ∘ Except.ok) (h'.1.symm.trans hpid)
  · next hnone =>
    have hi : i ∈ allSlots.filter fun i => isChild p (some pid) (k.slot i) :=
      List.mem_filter.mpr ⟨List.mem_finRange i, hchild⟩
    exact absurd (beq_iff_eq.mpr hzombie) (List.find?_eq_none.mp hnone i hi)

end Kernel

end FairKernel
