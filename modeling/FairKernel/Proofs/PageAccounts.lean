import FairKernel.Proofs.AddressSpaces
import FairKernel.Proofs.Frames

/-!
# Accounts of all pages

The pages that the processes have and those that are free are, all together, the pages of the pool,
each of them once. A kernel is *accounted* for if that is so and the space of each live process is
well made. Work on the memory of one process keeps it so, and so does a change of its slot that
neither gains nor loses a page.

The account is one equation between multisets (`Accounted.whole`), from which everything else about
ownership follows: what a process has is not free, nobody else has it, and no process has it twice.
For work on one process the pages of all others are put aside (`othersOf`), which makes its memory
sound in the sense of user memories, so that whatever is known of those applies (`Accounted.sound`,
`Accounted.rework`).

What such work leaves alone is said by `Apart`: the slots, the records and the contents of the pages
of all others. `Reworked` is that together with the account, `Tabled` asks in addition that only the
table of the process changed. Both are closed under doing one thing after the other.
-/

namespace FairKernel

/-- The pages of the process in a slot: its trap frame and its residents. -/
def Slot.pages (s : Slot) : Multiset Nat :=
  s.space.elim 0 fun space => space.framePage ::ₘ space.table.residents

/-- The table of the process in a slot, which maps nothing if there is none. -/
def Slot.table (s : Slot) : PageTable := s.space.elim PageTable.empty AddressSpace.table

/-- A slot whose process has another table. -/
def Slot.withTable (s : Slot) (t : PageTable) : Slot :=
  { s with space := s.space.map fun space => { space with table := t } }

namespace Slot

variable {s : Slot} {space : AddressSpace}

/-- A process has its trap frame and its residents. -/
theorem pages_of_space (h : s.space = some space) :
    s.pages = space.framePage ::ₘ space.table.residents := by
  rw [pages, h, Option.elim_some]

/-- Without a space a process has no page. -/
theorem pages_of_none (h : s.space = none) : s.pages = 0 := by
  rw [pages, h, Option.elim_none]

/-- The table of a process is that of its space. -/
theorem table_of_space (h : s.space = some space) : s.table = space.table := by
  rw [table, h, Option.elim_some]

/-- Without a space there is nothing mapped. -/
theorem table_of_none (h : s.space = none) : s.table = PageTable.empty := by
  rw [table, h, Option.elim_none]

/-- To give a process another table is to give its space another one. -/
theorem withTable_of_space (h : s.space = some space) (t : PageTable) :
    s.withTable t = { s with space := some { space with table := t } } := by
  rw [withTable, h, Option.map_some]

/-- A process with its own table is as before. -/
theorem withTable_self (s : Slot) : s.withTable s.table = s := by
  cases hspace : s.space with
  | none =>
    rw [withTable, hspace, Option.map_none, ← hspace]
  | some space =>
    rw [withTable_of_space hspace, table_of_space hspace, ← hspace]

/-- Of two tables that a process is given the last one counts. -/
theorem withTable_withTable (s : Slot) (t t' : PageTable) :
    (s.withTable t).withTable t' = s.withTable t' := by
  unfold withTable
  rw [Option.map_map]
  rfl

end Slot

namespace Kernel

/-- The pages of all processes. -/
def heldPages (k : Kernel) : Multiset Nat := ∑ i : Fin slotCount, (k.slot i).pages

/-- The pages of all processes but one. -/
def othersOf (k : Kernel) (i : Fin slotCount) : Multiset Nat :=
  ∑ j ∈ Finset.univ.erase i, (k.slot j).pages

variable {pages : Nat} {k k' k'' : Kernel}

/-- The pages of one process and those of all others are the pages of all. -/
theorem pages_add_othersOf (k : Kernel) (i : Fin slotCount) :
    (k.slot i).pages + k.othersOf i = k.heldPages :=
  Finset.add_sum_erase Finset.univ (fun j : Fin slotCount => (k.slot j).pages) (Finset.mem_univ i)

/-- What the others have does not depend on the slot. -/
theorem othersOf_withSlot (k : Kernel) (i : Fin slotCount) (s : Slot) :
    (k.withSlot i s).othersOf i = k.othersOf i :=
  Finset.sum_congr rfl fun j hj => by
    rw [slot_withSlot, if_neg (Finset.ne_of_mem_erase hj).symm]

/-- The pages of all processes after a slot is replaced. -/
theorem heldPages_withSlot (k : Kernel) (i : Fin slotCount) (s : Slot) :
    (k.withSlot i s).heldPages = s.pages + k.othersOf i := by
  rw [← pages_add_othersOf _ i, othersOf_withSlot, slot_withSlot, if_pos rfl]

/-- Every page has exactly one place, and every live process has a space that is well made. -/
structure Accounted (pages : Nat) (k : Kernel) : Prop where
  spans : k.pool.Spans pages
  tidy : k.pool.Tidy
  isLive_iff : ∀ i : Fin slotCount, (k.slot i).isLive ↔ (k.slot i).space.isSome
  pooled : ∀ i : Fin slotCount, (k.slot i).table.IsPooled
  entered : ∀ (i : Fin slotCount) space, (k.slot i).space = some space →
    AddressSpace.Entered space.framePage space.table
  size_le : ∀ i : Fin slotCount, pagesIn (k.slot i).size ≤ userPages
  inWindow : ∀ (j : Fin mappingLimit) r, k.record j = some r → r.InWindow
  whole : k.heldPages + k.pool.free = (poolPages pages).val

namespace Accounted

/-- Accounts are kept of the pool, the slots and the records only. -/
theorem congr (h : k.Accounted pages) (hpool : k'.pool = k.pool) (hslots : k'.slots = k.slots)
    (hmappings : k'.mappings = k.mappings) : k'.Accounted pages where
  spans := hpool ▸ h.spans
  tidy := hpool ▸ h.tidy
  isLive_iff i := by
    rw [slot_congr hslots]
    exact h.isLive_iff i
  pooled i := by
    rw [slot_congr hslots]
    exact h.pooled i
  entered i := by
    rw [slot_congr hslots]
    exact h.entered i
  size_le i := by
    rw [slot_congr hslots]
    exact h.size_le i
  inWindow j := by
    rw [record_congr hmappings]
    exact h.inWindow j
  whole := by
    unfold heldPages
    simp only [hpool, slot_congr hslots]
    exact h.whole

/-- Whoever lives has a space. -/
theorem space_of_isLive (h : k.Accounted pages) {i : Fin slotCount} (hlive : (k.slot i).isLive) :
    ∃ space, (k.slot i).space = some space :=
  Option.isSome_iff_exists.mp ((h.isLive_iff i).mp hlive)

/-- A slot that is free has none. -/
theorem space_of_not_isLive (h : k.Accounted pages) {i : Fin slotCount}
    (hlive : ¬ (k.slot i).isLive) : (k.slot i).space = none :=
  Option.not_isSome_iff_eq_none.mp (mt (h.isLive_iff i).mpr hlive)

/-- The memory of a process is sound. -/
theorem sound (h : k.Accounted pages) {i : Fin slotCount} {space : AddressSpace}
    (hspace : (k.slot i).space = some space) :
    UserMemory.Sound pages (space.framePage ::ₘ k.othersOf i) ⟨space.table, k.pool⟩ where
  spans := h.spans
  tidy := h.tidy
  pooled := Slot.table_of_space hspace ▸ h.pooled i
  fits := by
    refine le_of_eq ?_
    rw [← h.whole, ← pages_add_othersOf k i, Slot.pages_of_space hspace, UserMemory.pagesOf,
      ← Multiset.singleton_add, ← Multiset.singleton_add]
    abel

/-- The trap frame of a process is mapped. -/
theorem isMapped_frame (h : k.Accounted pages) {i : Fin slotCount} {space : AddressSpace}
    (hspace : (k.slot i).space = some space) : space.table.isMapped (userPages * pageSize) := by
  rw [PageTable.isMapped, (h.entered i space hspace).lookup_frame]
  rfl

/-- No page is held and free at once, or twice. -/
theorem nodup_heldPages_add_free (h : k.Accounted pages) :
    (k.heldPages + k.pool.free : Multiset Nat).Nodup := h.whole ▸ (poolPages pages).nodup

/-- What a process has is not free. -/
theorem not_mem_pages_of_free (h : k.Accounted pages) {page : Nat} {i : Fin slotCount}
    (hfree : page ∈ k.pool.free) : page ∉ (k.slot i).pages := fun hmem => by
  have hnodup := (Multiset.nodup_add.mp h.nodup_heldPages_add_free).2.2
  refine Multiset.disjoint_left.mp hnodup ?_ (Multiset.mem_coe.mpr hfree)
  rw [← pages_add_othersOf k i]
  exact Multiset.mem_add.mpr (.inl hmem)

/-- What a process has nobody else has. -/
theorem eq_of_mem_pages (h : k.Accounted pages) {page : Nat} {i j : Fin slotCount}
    (hi : page ∈ (k.slot i).pages) (hj : page ∈ (k.slot j).pages) : i = j :=
  eq_of_mem_of_nodup_sum (f := fun i : Fin slotCount => (k.slot i).pages)
    (Multiset.nodup_add.mp h.nodup_heldPages_add_free).1 (Finset.mem_univ i) (Finset.mem_univ j)
    hi hj

/-- No process has a page twice. -/
theorem nodup_pages (h : k.Accounted pages) (i : Fin slotCount) : (k.slot i).pages.Nodup := by
  have hheld := (Multiset.nodup_add.mp h.nodup_heldPages_add_free).1
  rw [← pages_add_othersOf k i] at hheld
  exact (Multiset.nodup_add.mp hheld).1

/-- A slot is replaced by one that is well made and has, with the new pool, the pages of the old
one. -/
theorem replace (h : k.Accounted pages) {i : Fin slotCount} {s : Slot} {pool : Pool}
    (hspans : pool.Spans pages) (htidy : pool.Tidy) (hlive : s.isLive ↔ s.space.isSome)
    (hpooled : s.table.IsPooled)
    (hentered : ∀ space, s.space = some space → AddressSpace.Entered space.framePage space.table)
    (hsize : pagesIn s.size ≤ userPages)
    (hwhole : s.pages + pool.free = (k.slot i).pages + k.pool.free) :
    ({ k with pool }.withSlot i s).Accounted pages where
  spans := hspans
  tidy := htidy
  -- one clause after the other holds in the new slot and, as before, in all others
  isLive_iff j := by
    rw [slot_withSlot]
    split
    · exact hlive
    · exact h.isLive_iff j
  pooled j := by
    rw [slot_withSlot]
    split
    · exact hpooled
    · exact h.pooled j
  entered j := by
    rw [slot_withSlot]
    split
    · exact hentered
    · exact h.entered j
  size_le j := by
    rw [slot_withSlot]
    split
    · exact hsize
    · exact h.size_le j
  inWindow := h.inWindow
  whole := by
    have hothers : Kernel.othersOf { k with pool } i = k.othersOf i := rfl
    rw [heldPages_withSlot, hothers, ← h.whole, ← pages_add_othersOf k i]
    calc s.pages + k.othersOf i + pool.free = s.pages + pool.free + k.othersOf i := by abel
      _ = (k.slot i).pages + k.pool.free + k.othersOf i := by rw [hwhole]
      _ = (k.slot i).pages + k.othersOf i + k.pool.free := by abel

/-- A record is replaced by one that lies in the window, or taken away. -/
theorem setRecord (h : k.Accounted pages) (j : Fin mappingLimit) (record : Option Mapping)
    (hrecord : ∀ r, record = some r → r.InWindow) :
    Accounted pages (k.withRecord j record) where
  spans := h.spans
  tidy := h.tidy
  isLive_iff := h.isLive_iff
  pooled := h.pooled
  entered := h.entered
  size_le := h.size_le
  inWindow j' r hr := by
    rw [record_withRecord] at hr
    split at hr
    · exact hrecord r hr
    · exact h.inWindow j' r hr
  whole := h.whole

end Accounted

/-! ### Work on one process -/

/-- What work on one process leaves alone: the slots, the records and the pages of all others. -/
structure Apart (p : Handle) (k k' : Kernel) : Prop where
  slots_eq : ∀ j, j ≠ p.slot → (k'.slot j) = k.slot j
  record_iff : ∀ (j : Fin mappingLimit) (r : Mapping), r.owner ≠ p →
    (k'.record j = some r ↔ k.record j = some r)
  contents_eq : ∀ j, j ≠ p.slot → ∀ a ∈ (k.slot j).pages,
    k'.pool.contents (.pooled a) = k.pool.contents (.pooled a)

namespace Apart

variable {p : Handle}

/-- Nothing was touched yet. -/
theorem refl (p : Handle) (k : Kernel) : k.Apart p k :=
  ⟨fun _ _ => rfl, fun _ _ _ => Iff.rfl, fun _ _ _ _ => rfl⟩

/-- What leaves the others alone does so again. -/
theorem trans (h : Apart p k k') (h' : Apart p k' k'') : Apart p k k'' where
  slots_eq j hj := (h'.slots_eq j hj).trans (h.slots_eq j hj)
  record_iff j r howner := (h'.record_iff j r howner).trans (h.record_iff j r howner)
  contents_eq j hj a ha := by
    have ha' : a ∈ (k'.slot j).pages := by
      rw [h.slots_eq j hj]
      exact ha
    exact (h'.contents_eq j hj a ha').trans (h.contents_eq j hj a ha)

/-- Only the pool, the slots and the records matter. -/
theorem congr (h : Apart p k k') (hpool : k''.pool = k'.pool) (hslots : k''.slots = k'.slots)
    (hmappings : k''.mappings = k'.mappings) : Apart p k k'' where
  slots_eq j hj := by
    rw [slot_congr hslots]
    exact h.slots_eq j hj
  record_iff j r howner := by
    rw [record_congr hmappings]
    exact h.record_iff j r howner
  contents_eq j hj a ha := by
    rw [hpool]
    exact h.contents_eq j hj a ha

/-- Everybody else has their pages among those that are not of the slot. -/
theorem mem_othersOf {i j : Fin slotCount} (hj : j ≠ i) {a : Nat} (ha : a ∈ (k.slot j).pages) :
    a ∈ k.othersOf i :=
  Multiset.mem_sum.mpr ⟨j, Finset.mem_erase.mpr ⟨hj, Finset.mem_univ j⟩, ha⟩

/-- The slot of the process is replaced, and the pages of others still hold what they held. -/
theorem withSlot (p : Handle) (k : Kernel) (s : Slot) {pool : Pool}
    (hcontents : ∀ a ∈ k.othersOf p.slot,
      pool.contents (.pooled a) = k.pool.contents (.pooled a)) :
    k.Apart p ({ k with pool }.withSlot p.slot s) where
  slots_eq j hj := by
    rw [slot_withSlot, if_neg hj.symm]
    rfl
  record_iff _ _ _ := Iff.rfl
  contents_eq _ hj a ha := hcontents a (mem_othersOf hj ha)

/-- A record of the process is made, changed or removed. -/
theorem withRecord {i : Fin mappingLimit} {record : Option Mapping}
    (hold : ∀ r, k.record i = some r → r.owner = p) (hnew : ∀ r, record = some r → r.owner = p) :
    k.Apart p (k.withRecord i record) where
  slots_eq _ _ := rfl
  record_iff j r howner := by
    rw [record_withRecord]
    split
    · next hij =>
      subst hij
      exact ⟨fun hr => absurd (hnew r hr) howner, fun hr => absurd (hold r hr) howner⟩
    · rfl
  contents_eq _ _ _ _ := rfl

end Apart

/-- The pages of a process and those that are free are, together, the same before and after. -/
theorem Apart.pages_add_free {p : Handle} (h : Apart p k k') (hk : k.Accounted pages)
    (hk' : k'.Accounted pages) : ((k'.slotOf p).pages + k'.pool.free : Multiset Nat) =
      (k.slotOf p).pages + k.pool.free := by
  have hothers : k'.othersOf p.slot = k.othersOf p.slot :=
    Finset.sum_congr rfl fun j hj => by rw [h.slots_eq j (Finset.ne_of_mem_erase hj)]
  have hwhole := hk'.whole
  rw [← hk.whole, ← pages_add_othersOf k p.slot, ← pages_add_othersOf k' p.slot, hothers] at hwhole
  refine add_left_cancel (a := k.othersOf p.slot) ?_
  calc k.othersOf p.slot + ((k'.slot p.slot).pages + k'.pool.free)
      = (k'.slot p.slot).pages + k.othersOf p.slot + k'.pool.free := by abel
    _ = (k.slot p.slot).pages + k.othersOf p.slot + k.pool.free := hwhole
    _ = k.othersOf p.slot + ((k.slot p.slot).pages + k.pool.free) := by abel

/-- What comes of work on the memory of one live process. -/
structure Reworked (pages : Nat) (p : Handle) (k k' : Kernel) : Prop where
  accounted : k'.Accounted pages
  isLive : k'.IsLive p
  apart : k.Apart p k'

namespace Reworked

variable {p : Handle}

/-- Nothing was worked on yet. -/
theorem refl (h : k.Accounted pages) (hlive : k.IsLive p) : k.Reworked pages p k :=
  ⟨h, hlive, .refl p k⟩

/-- Work on a process, and more of it. -/
theorem trans (h : Reworked pages p k k') (h' : Reworked pages p k' k'') :
    Reworked pages p k k'' :=
  ⟨h'.accounted, h'.isLive, h.apart.trans h'.apart⟩

/-- What is asked of the machine or written to the console does not matter. -/
theorem congr (h : Reworked pages p k k') (hpool : k''.pool = k'.pool)
    (hslots : k''.slots = k'.slots) (hmappings : k''.mappings = k'.mappings) :
    Reworked pages p k k'' where
  accounted := h.accounted.congr hpool hslots hmappings
  isLive := by
    unfold IsLive slotOf
    rw [slot_congr hslots]
    exact h.isLive
  apart := h.apart.congr hpool hslots hmappings

end Reworked

namespace Accounted

variable {p : Handle} {space : AddressSpace}

/-- Whoever a live process is has a space. -/
theorem space_of_handle (h : k.Accounted pages) (hlive : k.IsLive p) :
    ∃ space, (k.slotOf p).space = some space := h.space_of_isLive hlive.1

/-- A memory that was kept is put back in the place of the one it came of. -/
theorem rework (h : k.Accounted pages) (hlive : k.IsLive p)
    (hspace : (k.slotOf p).space = some space) {m : UserMemory}
    (hkept : UserMemory.Kept pages (space.framePage ::ₘ k.othersOf p.slot)
      ⟨space.table, k.pool⟩ m) {s : Slot} {registers : Registers}
    (hs : s.space = some ⟨m.table, space.framePage, registers⟩)
    (hslive : s.isLive = (k.slotOf p).isLive) (hpid : s.pid = (k.slotOf p).pid)
    (hsize : pagesIn s.size ≤ userPages) :
    k.Reworked pages p ({ k with pool := m.pool }.withSlot p.slot s) := by
  refine ⟨h.replace hkept.sound.spans hkept.sound.tidy ?_ ?_ ?_ hsize ?_, ?_,
    .withSlot p k s fun a ha => hkept.contents_eq a (Multiset.mem_cons_of_mem ha)⟩
  · rw [hslive, hs, hlive.1]
    rfl
  · rw [Slot.table_of_space hs]
    exact hkept.sound.pooled
  · intro space' hspace'
    rw [hs] at hspace'
    cases hspace'
    obtain ⟨hframe, htrampoline⟩ := h.entered p.slot space hspace
    exact ⟨(hkept.above _ (Nat.le_refl _)).trans hframe,
      (hkept.above _ (Nat.le_add_right _ 1)).trans htrampoline⟩
  -- together, its pages and the free ones are the same as before
  · have hpages := hkept.pagesOf_eq
    unfold UserMemory.pagesOf at hpages
    have hold : (k.slot p.slot).pages = _ := Slot.pages_of_space hspace
    rw [Slot.pages_of_space hs, hold, Multiset.cons_add, Multiset.cons_add, hpages]
  · unfold IsLive
    rw [slotOf_withSlot_self, hslive, hpid]
    exact hlive

/-- What user code reaches lies below the trap frame. -/
theorem lt_userPages_of_lookup (h : k.Accounted pages) {i : Fin slotCount} {n : Nat}
    {physical : Physical} {permissions : Permissions}
    (hlookup : (k.slot i).table.lookup (n * pageSize) = some (physical, permissions))
    (huser : permissions.user) : n < userPages := by
  cases hspace : (k.slot i).space with
  | none =>
    rw [Slot.table_of_none hspace, PageTable.lookup_empty] at hlookup
    cases hlookup
  | some space =>
    rw [Slot.table_of_space hspace] at hlookup
    exact (h.entered i space hspace).isPrivate.lt_userPages hlookup huser

/-- The page behind a user address of a process is one of its pages. -/
theorem mem_pages_of_lookup (h : k.Accounted pages) {i : Fin slotCount} {n : Nat}
    (hn : n < userPages) {physical : Physical} {permissions : Permissions}
    (hlookup : (k.slot i).table.lookup (n * pageSize) = some (physical, permissions)) :
    ∃ a ∈ (k.slot i).pages, physical = .pooled a := by
  obtain ⟨a, rfl⟩ := h.pooled i n hn physical permissions hlookup
  refine ⟨a, ?_, rfl⟩
  cases hspace : (k.slot i).space with
  | none =>
    rw [Slot.table_of_none hspace, PageTable.lookup_empty] at hlookup
    cases hlookup
  | some space =>
    rw [Slot.pages_of_space hspace, Multiset.mem_cons]
    rw [Slot.table_of_space hspace] at hlookup
    exact .inr (PageTable.mem_residents_of_lookup hn hlookup)

end Accounted

section Memory

variable {α : Type} {p : Handle} {space : AddressSpace} {E : Panic → Prop}

/-- Work on a memory that is there. -/
theorem leads_onMemory_of_ok (action : UserMemory → Except Panic (α × UserMemory)) {a : α}
    {m : UserMemory} {Q : α → Kernel → Prop} (hspace : (k.slotOf p).space = some space)
    (haction : action ⟨space.table, k.pool⟩ = .ok (a, m)) : Leads k (onMemory p action) Q E ↔
      Q a ({ k with pool := m.pool }.withSlot p.slot
        { k.slotOf p with space := some { space with table := m.table } }) := by
  unfold onMemory
  simp only [leads_bind, leads_get, hspace, leads_liftM, haction]
  refine ⟨fun h => ?_, fun h => ⟨fun _ heq => ?_, nofun⟩⟩
  · exact h.1 _ rfl
  · cases heq
    exact h

/-- The memory of a process that has one is its table and the pool. -/
theorem leads_memoryOf {Q : UserMemory → Kernel → Prop} (hspace : (k.slotOf p).space = some space) :
    Leads k (memoryOf p) Q E ↔ Q ⟨space.table, k.pool⟩ k := by
  unfold memoryOf
  simp only [leads_bind, leads_get, hspace, leads_pure]

/-- The user memory of a process, which maps nothing if there is none. -/
def memory (k : Kernel) (p : Handle) : UserMemory := ⟨(k.slotOf p).table, k.pool⟩

/-- The memory of a process that has a space. -/
theorem memory_of_space (hspace : (k.slotOf p).space = some space) :
    k.memory p = ⟨space.table, k.pool⟩ := by
  rw [memory, Slot.table_of_space hspace]

/-- A memory depends on the pool and the slots only. -/
theorem memory_congr (hpool : k'.pool = k.pool) (hslots : k'.slots = k.slots) :
    k'.memory p = k.memory p := by
  unfold memory slotOf
  rw [hpool, slot_congr hslots]

/-- The memory that is put back in the place of the one it came of. -/
theorem memory_withSlot (m : UserMemory) (s : Slot) {framePage : Nat} {registers : Registers}
    (hs : s.space = some ⟨m.table, framePage, registers⟩) :
    ({ k with pool := m.pool }.withSlot p.slot s).memory p = m := by
  have hslot : ({ k with pool := m.pool }.withSlot p.slot s).slotOf p = s :=
    slotOf_withSlot_self ..
  rw [memory, hslot, Slot.table_of_space hs]
  rfl

/-- What comes of work on the memory of a process, which may change its table but no record and
nothing else in its slot. -/
structure Tabled (pages : Nat) (p : Handle) (k k' : Kernel) : Prop extends
    Reworked pages p k k' where
  slot_eq : k'.slotOf p = (k.slotOf p).withTable (k'.slotOf p).table
  mappings_same : k'.mappings = k.mappings
  above : ∀ n, userPages ≤ n →
    (k'.slotOf p).table.lookup (n * pageSize) = (k.slotOf p).table.lookup (n * pageSize)
  pagesOf_eq : (k'.memory p).pagesOf = (k.memory p).pagesOf

/-- Nothing was worked on yet. -/
theorem Tabled.refl (h : k.Accounted pages) (hlive : k.IsLive p) : k.Tabled pages p k :=
  ⟨.refl h hlive, (Slot.withTable_self _).symm, rfl, fun _ _ => rfl, rfl⟩

/-- Work on the table of a process does not change its size. -/
theorem Tabled.size_eq (h : k.Tabled pages p k') : (k'.slotOf p).size = (k.slotOf p).size := by
  rw [h.slot_eq]
  rfl

/-- Only the pool, the slots and the records matter. -/
theorem Tabled.congr (h : Tabled pages p k k') (hpool : k''.pool = k'.pool)
    (hslots : k''.slots = k'.slots) (hmappings : k''.mappings = k'.mappings) :
    Tabled pages p k k'' where
  toReworked := h.toReworked.congr hpool hslots hmappings
  slot_eq := by
    unfold slotOf
    rw [slot_congr hslots]
    exact h.slot_eq
  mappings_same := hmappings.trans h.mappings_same
  above := by
    unfold slotOf
    rw [slot_congr hslots]
    exact h.above
  pagesOf_eq := by
    rw [memory_congr hpool hslots]
    exact h.pagesOf_eq

/-- Work on the table of a process, and more of it. -/
theorem Tabled.trans (h : Tabled pages p k k') (h' : Tabled pages p k' k'') :
    Tabled pages p k k'' :=
  ⟨h.toReworked.trans h'.toReworked,
    h'.slot_eq.trans ((congrArg (Slot.withTable · _) h.slot_eq).trans
      (Slot.withTable_withTable ..)),
    h'.mappings_same.trans h.mappings_same, fun n hn => (h'.above n hn).trans (h.above n hn),
    h'.pagesOf_eq.trans h.pagesOf_eq⟩

/-- A memory that was kept is put back into a slot that is otherwise the same. -/
theorem Accounted.tabled_of_kept (h : k.Accounted pages) (hlive : k.IsLive p)
    (hspace : (k.slotOf p).space = some space) {m : UserMemory}
    (hkept : UserMemory.Kept pages (space.framePage ::ₘ k.othersOf p.slot)
      ⟨space.table, k.pool⟩ m) :
    k.Tabled pages p ({ k with pool := m.pool }.withSlot p.slot
      { k.slotOf p with space := some { space with table := m.table } }) := by
  refine ⟨h.rework hlive hspace hkept rfl rfl rfl (h.size_le p.slot), ?_, rfl, fun n hn => ?_, ?_⟩
  · rw [slotOf_withSlot_self, Slot.table_of_space rfl, Slot.withTable_of_space hspace]
  · rw [slotOf_withSlot_self, Slot.table_of_space rfl, Slot.table_of_space hspace]
    exact hkept.above n hn
  · rw [memory_withSlot m _ rfl, memory_of_space hspace]
    exact hkept.pagesOf_eq

/-- The pool is replaced by one with the same free pages. -/
theorem Accounted.repool (h : k.Accounted pages) (hlive : k.IsLive p)
    (hspace : (k.slotOf p).space = some space) {pool : Pool}
    (hkept : UserMemory.Kept pages (space.framePage ::ₘ k.othersOf p.slot)
      ⟨space.table, k.pool⟩ ⟨space.table, pool⟩) : k.Tabled pages p { k with pool } := by
  have hrework := h.rework hlive hspace hkept hspace rfl rfl (h.size_le p.slot)
  refine ⟨hrework.congr rfl (congrArg Kernel.slots (withSlot_slot k p.slot)).symm rfl,
    (Slot.withTable_self _).symm, rfl, fun _ _ => rfl, ?_⟩
  have hmemory : Kernel.memory { k with pool } p = ⟨space.table, pool⟩ := memory_of_space hspace
  rw [hmemory, memory_of_space hspace]
  exact hkept.pagesOf_eq

/-- Work on the memory of a live process never panics if it keeps that memory sound. -/
theorem Accounted.leads_onMemory (h : k.Accounted pages) (hlive : k.IsLive p)
    {action : UserMemory → Except Panic (α × UserMemory)} (P : α → UserMemory → Prop)
    (haction : ∀ others, (k.memory p).Sound pages others →
      (k.memory p).table.isMapped (userPages * pageSize) → (k.memory p).table.IsPrivate →
      ∃ a m', action (k.memory p) = .ok (a, m') ∧
        UserMemory.Kept pages others (k.memory p) m' ∧ P a m') :
    Leads k (onMemory p action) (fun a k' => k.Tabled pages p k' ∧ P a (k'.memory p)) E := by
  obtain ⟨space, hspace⟩ := h.space_of_handle hlive
  rw [memory_of_space hspace] at haction
  obtain ⟨a, m, hm, hkept, hP⟩ := haction _ (h.sound hspace) (h.isMapped_frame hspace)
    (h.entered p.slot space hspace).isPrivate
  rw [leads_onMemory_of_ok action hspace hm]
  refine ⟨h.tabled_of_kept hlive hspace hkept, ?_⟩
  rw [memory_withSlot m _ rfl]
  exact hP

end Memory

/-! ### Coverage -/

/-- Whether a page number lies in a mapping of the process with this handle. -/
def Shows (k : Kernel) (p : Handle) (n : Nat) : Prop :=
  ∃ (j : Fin mappingLimit) (r : Mapping), k.record j = some r ∧ r.owner = p ∧
    r.covers (n * pageSize)

/-- Everything behind user addresses of a process lies below its size or in its mappings. -/
def Covers (k : Kernel) (p : Handle) : Prop :=
  ∀ n < userPages, (k.slotOf p).table.isMapped (n * pageSize) →
    n < pagesIn (k.slotOf p).size ∨ k.Shows p n

variable {p : Handle}

/-- Coverage lasts if what is new in a table is covered, and what was covered still is. -/
theorem Covers.of_imp (h : k.Covers p)
    (hnew : ∀ n < userPages, (k'.slotOf p).table.isMapped (n * pageSize) →
      (k.slotOf p).table.isMapped (n * pageSize) ∨ n < pagesIn (k'.slotOf p).size ∨ k'.Shows p n)
    (hsize : ∀ n < userPages, (k'.slotOf p).table.isMapped (n * pageSize) →
      n < pagesIn (k.slotOf p).size → n < pagesIn (k'.slotOf p).size ∨ k'.Shows p n)
    (hshows : ∀ n < userPages, (k'.slotOf p).table.isMapped (n * pageSize) → k.Shows p n →
      n < pagesIn (k'.slotOf p).size ∨ k'.Shows p n) : k'.Covers p := by
  intro n hn hmapped
  rcases hnew n hn hmapped with hold | hcovered
  · rcases h n hn hold with hlt | hshow
    · exact hsize n hn hmapped hlt
    · exact hshows n hn hmapped hshow
  · exact hcovered

/-- Who does not take part in the work of another process stays covered. -/
theorem Apart.covers {q : Handle} (h : Apart p k k') (hq : q.slot ≠ p.slot)
    (hcovers : k.Covers q) : k'.Covers q := by
  have hslot : k'.slotOf q = k.slotOf q := h.slots_eq q.slot hq
  refine hcovers.of_imp (fun n _ hmapped => ?_) (fun n _ _ hlt => ?_) fun n _ _ hshow => ?_
  · rw [hslot] at hmapped
    exact .inl hmapped
  · rw [hslot]
    exact .inl hlt
  · obtain ⟨j, r, hr, howner, hcover⟩ := hshow
    have hother : r.owner ≠ p := fun heq => hq (by rw [← howner, heq])
    exact .inr ⟨j, r, (h.record_iff j r hother).mpr hr, howner, hcover⟩

end Kernel

end FairKernel
