import FairKernel.Proofs.Estates
import FairKernel.Proofs.NewMappings

/-!
# Lifetimes of processes

A process that is made takes a trap frame page and has no user memory yet; a process that is unmade
gives back all that it has. If a process cannot be made after all, nothing is left of the attempt
but the number that it would have had.

A process has three stages here. It is *claimed* with a slot, a number and a trap frame (`Claimed`);
it is filled, which is work on one process like any other; and one day it is *vacated* (`Vacated`),
when all that its size and its records cover is freed. Vacating cannot fail for a process whose
memory is covered (`Accounted.leads_vacate`), so whatever goes wrong while a process is made can be
undone (`Partitioned.leads_undo`). `Restored` says what that leaves: the same processes, pages and
contents, the same free pages in some order, and the same records, given that no record had been
left under the number of the process that was not made.

The root process is the simplest one that is made: its image is loaded into memory that is grown for
it (`Claimed.rooted`), and its slot is made ready (`Partitioned.leads_startRoot`).
-/

namespace FairKernel

/-- A slot in which nobody has left memory or open files behind. -/
structure Slot.IsSwept (s : Slot) : Prop where
  size_eq : s.size = 0
  files_eq : s.files = Vector.replicate descriptorLimit none

namespace Kernel

variable {pages : Nat} {k k' k'' : Kernel} {p : Handle}

/-! ### One process at a time -/

/-- Work on one process keeps a kernel partitioned if that process is covered afterwards. -/
theorem Apart.partitioned (h : k.Apart p k') (haccounted : k'.Accounted pages)
    (hothers : ∀ q, q.slot ≠ p.slot → k.IsLive q → k.Covers q)
    (hself : ∀ q, q.slot = p.slot → k'.IsLive q → k'.Covers q) : k'.Partitioned pages where
  toAccounted := haccounted
  covers q hq := by
    by_cases hslot : q.slot = p.slot
    · exact hself q hslot hq
    · refine h.covers hslot (hothers q hslot ?_)
      have hsame : k'.slotOf q = k.slotOf q := h.slots_eq q.slot hslot
      unfold IsLive at hq ⊢
      rwa [← hsame]

/-- In one slot lives one process. -/
theorem IsLive.eq {q : Handle} (hp : k.IsLive p) (hq : k.IsLive q) (hslot : q.slot = p.slot) :
    q = p := by
  have hpid : q.pid = p.pid := by
    rw [← hp.2, ← hq.2, slotOf_congr hslot]
  exact Handle.ext hslot hpid

/-- The pool is divided up after work on one process that leaves it covered. -/
theorem Reworked.partitioned (h : k.Reworked pages p k')
    (hothers : ∀ q, q.slot ≠ p.slot → k.IsLive q → k.Covers q) (hcovers : k'.Covers p) :
    k'.Partitioned pages :=
  h.apart.partitioned h.accounted hothers fun _ hslot hq => h.isLive.eq hq hslot ▸ hcovers

/-- The pool is divided up after settled work. -/
theorem Settled.partitioned (h : k.Settled pages p k') (hk : k.Partitioned pages)
    (hlive : k.IsLive p) : k'.Partitioned pages :=
  h.toReworked.partitioned (fun q _ => hk.covers q) (h.covers_of_covers (hk.covers p hlive))

/-- A process of which nothing is left. -/
structure Vacated (pages : Nat) (p : Handle) (k k' : Kernel) : Prop where
  accounted : k'.Accounted pages
  not_isLive : ¬ (k'.slotOf p).isLive
  apart : k.Apart p k'
  swept : (k'.slotOf p).IsSwept

/-- The pool is divided up when nothing is left of a process. -/
theorem Vacated.partitioned (h : k.Vacated pages p k')
    (hothers : ∀ q, q.slot ≠ p.slot → k.IsLive q → k.Covers q) : k'.Partitioned pages := by
  refine h.apart.partitioned h.accounted hothers fun q hslot hq => absurd hq.1 ?_
  rw [slotOf_congr hslot]
  exact h.not_isLive

/-- All pages of a process of which nothing is left are free. -/
theorem Vacated.free_eq (h : k.Vacated pages p k') (hk : k.Accounted pages) :
    (k'.pool.free : Multiset Nat) = (k.slotOf p).pages + k.pool.free := by
  have hnone : (k'.slotOf p).pages = 0 :=
    Slot.pages_of_none (h.accounted.space_of_not_isLive h.not_isLive)
  rw [← h.apart.pages_add_free hk h.accounted, hnone, zero_add]

/-- Nothing is left of an attempt to make a process but the number that it would have had. -/
structure Restored (pages : Nat) (k k' : Kernel) : Prop extends Partitioned pages k' where
  slot_eq : ∀ j, (k.slot j).isLive → k'.slot j = k.slot j
  slot_eq_or_swept : ∀ j, k'.slot j = k.slot j ∨ (k'.slot j).IsSwept
  isLive_eq : ∀ j, (k'.slot j).isLive = (k.slot j).isLive
  contents_eq : ∀ j, ∀ a ∈ (k.slot j).pages,
    k'.pool.contents (.pooled a) = k.pool.contents (.pooled a)
  free_eq : (k'.pool.free : Multiset Nat) = k.pool.free
  /-- A new process has a number that no owner of a record has. -/
  mappings_eq : (∀ (j : Fin mappingLimit) r, k.record j = some r → r.owner.pid ≠ k.nextPid) →
    k'.mappings = k.mappings

/-- Nothing was attempted yet. -/
theorem Partitioned.restored (h : k.Partitioned pages) : k.Restored pages k :=
  ⟨h, fun _ _ => rfl, fun _ => .inl rfl, fun _ => rfl, fun _ _ _ => rfl, rfl, fun _ => rfl⟩

/-- Mapping tables with the same records are the same. -/
theorem mappings_ext (h : ∀ j : Fin mappingLimit, k'.record j = k.record j) :
    k'.mappings = k.mappings :=
  Vector.ext fun i hi => h ⟨i, hi⟩

/-- A process that is made and unmade leaves no trace. -/
theorem Vacated.restored (h : k.Vacated pages p k') (hk : k.Partitioned pages)
    (hdead : ¬ (k.slotOf p).isLive) (hnumber : p.pid = k.nextPid)
    (hgone : ∀ (j : Fin mappingLimit) r, k'.record j = some r → r.owner = p →
      k.record j = some r) : k.Restored pages k' where
  toPartitioned := h.partitioned fun q _ => hk.covers q
  slot_eq j hlive := h.apart.slots_eq j fun heq => by
    subst heq
    exact hdead hlive
  -- only the slot of the process is another one, and it was free
  slot_eq_or_swept j := by
    by_cases hj : j = p.slot
    · subst hj
      exact .inr h.swept
    · exact .inl (h.apart.slots_eq j hj)
  isLive_eq j := by
    by_cases hj : j = p.slot
    · have hlive := Bool.eq_false_of_not_eq_true h.not_isLive
      have hlive₀ := Bool.eq_false_of_not_eq_true hdead
      unfold slotOf at hlive hlive₀
      rw [hj, hlive, hlive₀]
    · rw [h.apart.slots_eq j hj]
  -- nobody had pages in that slot, so all pages that are held lie elsewhere
  contents_eq j a ha := by
    refine h.apart.contents_eq j (fun heq => ?_) a ha
    have hnone : (k.slot j).pages = 0 :=
      Slot.pages_of_none (hk.space_of_not_isLive (heq ▸ hdead))
    rw [hnone] at ha
    exact absurd ha (Multiset.notMem_zero a)
  -- what the process had was free before it was made
  free_eq := by
    have hnone : (k.slotOf p).pages = 0 := Slot.pages_of_none (hk.space_of_not_isLive hdead)
    rw [h.free_eq hk.toAccounted, hnone, zero_add]
  -- a record that is there now and was not before would be one of the process, which has none left
  mappings_eq hfresh := mappings_ext fun j => by
    have hforeign (r : Mapping) (hr : k.record j = some r) : r.owner ≠ p := fun heq =>
      hfresh j r hr (heq ▸ hnumber)
    cases hr' : k'.record j with
    | some r =>
      by_cases howner : r.owner = p
      · exact (hgone j r hr' howner).symm
      · exact ((h.apart.record_iff j r howner).mp hr').symm
    | none =>
      cases hr : k.record j with
      | none => rfl
      | some r =>
        rw [(h.apart.record_iff j r (hforeign r hr)).mpr hr] at hr'
        cases hr'

/-! ### Vacating a slot -/

/-- Whoever is vacated does not live any more. -/
theorem Slot.not_isLive_vacated (s : Slot) : ¬ s.vacated.isLive := nofun

/-- The records of a process are those that name it as their owner. -/
theorem mem_mappingsOf {r : Mapping} : r ∈ k.mappingsOf p ↔
    ∃ j : Fin mappingLimit, k.record j = some r ∧ r.owner = p := by
  simp only [mappingsOf, List.mem_filterMap, Option.filter_eq_some_iff, beq_iff_eq]
  constructor
  · rintro ⟨record, hmem, hrecord, howner⟩
    obtain ⟨j, hj, hget⟩ := List.getElem_of_mem hmem
    rw [Vector.length_toList] at hj
    refine ⟨⟨j, hj⟩, ?_, howner⟩
    rw [← hrecord, ← hget, Vector.getElem_toList]
    rfl
  · rintro ⟨j, hj, howner⟩
    refine ⟨some r, ?_, rfl, howner⟩
    rw [← hj, Vector.mem_toList_iff]
    exact Vector.getElem_mem j.isLt

/-- What is left of a slot and the pool when a process is vacated. -/
theorem leads_vacate (pool : Pool) {E : Panic → Prop}
    (hpool : (match (k.slotOf p).space with
      | none => .ok k.pool
      | some space => space.release k.pool (k.mappingsOf p) (k.slotOf p).size) = Except.ok pool) :
    Leads k (vacate p) (fun _ k' => k'.pool = pool ∧
      k'.slots = (k.withSlot p.slot (k.slotOf p).vacated).slots ∧ k'.mappings = k.mappings) E := by
  have rest : Leads { k with pool } (do
      if !(k.mappingsOf p).isEmpty then note (.leftMappings p.pid (k.mappingsOf p).length)
      modifySlot p Slot.vacated) (fun _ k' => k'.pool = pool ∧
        k'.slots = (k.withSlot p.slot (k.slotOf p).vacated).slots ∧ k'.mappings = k.mappings) E := by
    split
    · simp only [leads_bind, leads_note, leads_modifySlot]
      exact ⟨rfl, rfl, rfl⟩
    · exact ⟨rfl, rfl, rfl⟩
  unfold vacate
  simp only [leads_bind, leads_get]
  cases hspace : (k.slotOf p).space with
  | none =>
    simp only [hspace, Except.ok.injEq] at hpool
    subst hpool
    simp only [leads_bind, leads_pure, leads_modify]
    exact rest
  | some space =>
    simp only [hspace] at hpool
    simp only [leads_bind, leads_liftM, leads_modify]
    rw [hpool]
    exact ⟨fun _ heq => by cases heq; exact rest, nofun⟩

/-- A slot is vacated and its pages are free. -/
theorem Accounted.vacated (h : k.Accounted pages) {pool : Pool} (hspans : pool.Spans pages)
    (htidy : pool.Tidy) (hfree : (pool.free : Multiset Nat) = (k.slot p.slot).pages + k.pool.free)
    (hcontents : ∀ a ∈ k.othersOf p.slot,
      pool.contents (.pooled a) = k.pool.contents (.pooled a))
    {s : Slot} (hpool : k'.pool = pool) (hslots : k'.slots = (k.withSlot p.slot s.vacated).slots)
    (hmappings : k'.mappings = k.mappings) : k.Vacated pages p k' := by
  have hsize : s.vacated.size = 0 := rfl
  have haccounted : ({ k with pool }.withSlot p.slot s.vacated).Accounted pages := by
    refine h.replace hspans htidy ?_ ?_ nofun (hsize ▸ Nat.zero_le _) ?_
    · exact ⟨fun hv => absurd hv (Slot.not_isLive_vacated _), nofun⟩
    · intro n _ physical permissions hlookup
      rw [Slot.table_of_none rfl, PageTable.lookup_empty] at hlookup
      cases hlookup
    · rw [Slot.pages_of_none rfl, zero_add, hfree]
  have hslot : k'.slotOf p = s.vacated := by
    rw [slotOf, slot_congr hslots, slot_withSlot, if_pos rfl]
  refine ⟨haccounted.congr hpool hslots hmappings, ?_, ?_, ?_⟩
  · rw [hslot]
    exact Slot.not_isLive_vacated _
  · exact (Apart.withSlot p k _ hcontents).congr hpool hslots hmappings
  · rw [hslot]
    exact ⟨rfl, rfl⟩

/-- Nothing stands in the way of vacating the slot of a live process whose memory is covered. -/
theorem Accounted.leads_vacate (h : k.Accounted pages) (hlive : k.IsLive p) (hcovers : k.Covers p)
    {E : Panic → Prop} : Leads k (vacate p)
      (fun _ k' => k.Vacated pages p k' ∧ k'.mappings = k.mappings) E := by
  obtain ⟨space, hspace⟩ := h.space_of_handle hlive
  have hrecords : ∀ r ∈ k.mappingsOf p, r.InWindow := fun r hr => by
    obtain ⟨j, hj, -⟩ := mem_mappingsOf.mp hr
    exact h.inWindow j r hj
  obtain ⟨pool, left, hrelease, hspans, htidy, hpages, hleft, hcontents⟩ :=
    AddressSpace.release_eq_ok (h.sound hspace) hrecords (h.size_le p.slot)
  -- the release leaves only pages behind that neither the size nor a record covers
  have hzero : left = 0 := hleft fun n hn hmapped => by
    have hcover := hcovers n hn
    rw [Slot.table_of_space hspace] at hcover
    refine (hcover hmapped).imp_right fun ⟨j, r, hj, howner, hc⟩ => ?_
    exact ⟨r, mem_mappingsOf.mpr ⟨j, hj, howner⟩, hc⟩
  rw [hzero, zero_add] at hpages
  refine (Kernel.leads_vacate pool ?_).imp fun _ k' ⟨hpool, hslots, hmappings⟩ => ⟨?_, hmappings⟩
  · rw [hspace]
    exact hrelease
  · refine h.vacated hspans htidy ?_ hcontents hpool hslots hmappings
    have hold : (k.slot p.slot).pages = _ := Slot.pages_of_space hspace
    rw [hpages, hold, UserMemory.pagesOf, Multiset.cons_add]

/-- A new process, whatever became of it meanwhile, is vacated without a trace. -/
theorem Partitioned.leads_undo (h : k.Partitioned pages) (hdead : ¬ (k.slotOf p).isLive)
    (hnumber : p.pid = k.nextPid) (h' : k.Reworked pages p k') (hcovers : k'.Covers p)
    (hgone : ∀ (j : Fin mappingLimit) r, k'.record j = some r → r.owner = p →
      k.record j = some r) {E : Panic → Prop} :
    Leads k' (vacate p) (fun _ k'' => k.Restored pages k'') E := by
  refine (h'.accounted.leads_vacate h'.isLive hcovers).imp fun _ k'' ⟨h'', hmappings⟩ => ?_
  have hvacated : k.Vacated pages p k'' :=
    ⟨h''.accounted, h''.not_isLive, h'.apart.trans h''.apart, h''.swept⟩
  refine hvacated.restored h hdead hnumber fun j r hr => ?_
  rw [record_congr hmappings] at hr
  exact hgone j r hr

/-! ### Claiming a slot -/

/-- A process that has just been made: it has a trap frame and no user memory. -/
structure Claimed (pages : Nat) (p : Handle) (k k' : Kernel) : Prop extends
    Reworked pages p k k' where
  dead : ¬ (k.slotOf p).isLive
  blank : ∀ n < userPages, ¬ (k'.slotOf p).table.isMapped (n * pageSize)
  slot_eq : ∃ space, k'.slotOf p = { k.slotOf p with
    state := .used, pid := p.pid, entity := .initial, space := some space }
  mappings_same : k'.mappings = k.mappings
  free_length : k'.pool.free.length + 1 = k.pool.free.length

/-- A new process has no user page that had to be covered. -/
theorem Claimed.covers (h : k.Claimed pages p k') : k'.Covers p := fun n hn hm =>
  absurd hm (h.blank n hn)

/-- Only the pool, the slots and the records matter. -/
theorem Claimed.congr (h : k.Claimed pages p k') (hpool : k''.pool = k'.pool)
    (hslots : k''.slots = k'.slots) (hmappings : k''.mappings = k'.mappings) :
    k.Claimed pages p k'' where
  toReworked := h.toReworked.congr hpool hslots hmappings
  dead := h.dead
  blank := by
    unfold slotOf
    rw [slot_congr hslots]
    exact h.blank
  slot_eq := by
    unfold slotOf
    rw [slot_congr hslots]
    exact h.slot_eq
  mappings_same := hmappings.trans h.mappings_same
  free_length := hpool ▸ h.free_length

/-- The pages of a new process and those that are free. -/
theorem Claimed.card_pagesOf (h : k.Claimed pages p k') :
    (k'.memory p).pagesOf.card = k'.pool.free.length := by
  have hzero : (k'.memory p).table.residents = 0 := PageTable.residents_eq_zero fun n hn => by
    have hnot := h.blank n hn
    unfold PageTable.isMapped at hnot
    exact Option.not_isSome_iff_eq_none.mp hnot
  rw [UserMemory.pagesOf, hzero, zero_add]
  exact Multiset.coe_card _

/-- A page and a table for a process whose slot belonged to nobody. -/
theorem Accounted.claimed (h : k.Accounted pages) (hfree : ¬ (k.slotOf p).isLive) {address : Nat}
    {pool : Pool} (halloc : k.pool.alloc = some (address, pool)) {table : PageTable}
    (hentered : AddressSpace.Entered address table)
    (hblank : ∀ n < userPages, table.lookup (n * pageSize) = none) (registers : Registers)
    {s : Slot} (hs : s = { k.slotOf p with state := .used, pid := p.pid, entity := .initial
                                           space := some ⟨table, address, registers⟩ })
    (contents : Page) : k.Claimed pages p
      ({ k with pool := pool.setContents contents (.pooled address) }.withSlot p.slot s) := by
  have hspans := (h.spans.alloc halloc).setContents contents (.pooled address)
  have htidy := (h.tidy.alloc halloc).setContents contents (.pooled address)
  have hspace : s.space = some ⟨table, address, registers⟩ := by rw [hs]
  have hlive : s.isLive := by
    rw [hs]
    rfl
  -- the page was free, so it is one of the pool that nobody holds
  have hmem : address ∈ poolPages pages := by
    refine Finset.mem_def.mpr (h.whole ▸ Multiset.mem_add.mpr (.inr ?_))
    rw [Pool.free_eq_of_alloc halloc]
    exact List.mem_cons_self
  have hheld : (address ::ₘ k.heldPages).Nodup := by
    have hnodup : (k.heldPages + k.pool.free : Multiset Nat).Nodup :=
      h.whole ▸ (poolPages pages).nodup
    refine Multiset.nodup_of_le ?_ hnodup
    rw [Pool.free_eq_of_alloc halloc, ← Multiset.cons_coe, Multiset.add_cons]
    exact Multiset.cons_le_cons address (Multiset.le_add_right _ _)
  -- with the page in the slot and not in the pool the account is as before
  have haccounted := h.replace (i := p.slot) (s := s) hspans htidy
    ⟨fun _ => by rw [hspace]; rfl, fun _ => hlive⟩ ?_ ?_ ?_ ?_
  · have hslot : Kernel.slotOf ({ k with
        pool := pool.setContents contents (.pooled address) }.withSlot p.slot s) p = s :=
      slotOf_withSlot_self _ p s
    refine ⟨⟨haccounted, ?_, .withSlot p k s fun a ha => ?_⟩, hfree, fun n hn hm => ?_, ?_, rfl, ?_⟩
    · unfold IsLive
      rw [hslot, hs]
      exact ⟨rfl, rfl⟩
    -- the pages of all others are different ones, and were not written
    · have hle : a ∈ k.heldPages := by
        rw [← pages_add_othersOf k p.slot]
        exact Multiset.mem_add.mpr (.inr ha)
      have hne : address ≠ a := fun heq => (Multiset.nodup_cons.mp hheld).1 (heq ▸ hle)
      have hpool : a ∈ poolPages pages := by
        refine Finset.mem_def.mpr (h.whole ▸ Multiset.mem_add.mpr (.inl hle))
      rw [Pool.contents_setContents_of_ne (h.spans.alloc halloc) hmem hpool hne,
        Pool.contents_of_alloc h.spans halloc hmem hpool hne]
    · rw [hslot, Slot.table_of_space hspace, PageTable.isMapped, hblank n hn] at hm
      cases hm
    · rw [hslot]
      exact ⟨_, hs⟩
    · rw [Pool.free_eq_of_alloc halloc]
      exact congrArg (· + 1) (congrArg List.length (Pool.free_setContents ..))
  -- the new space is well made: nothing but the trap frame and the trampoline is mapped
  · intro n hn physical permissions hlookup
    rw [Slot.table_of_space hspace, hblank n hn] at hlookup
    cases hlookup
  · intro space hspace'
    rw [hspace] at hspace'
    cases hspace'
    exact hentered
  · rw [hs]
    exact h.size_le p.slot
  · rw [Slot.pages_of_space hspace, Slot.pages_of_none (h.space_of_not_isLive hfree),
      Pool.free_setContents, Pool.free_eq_of_alloc halloc, PageTable.residents_eq_zero hblank,
      ← Multiset.cons_coe, Multiset.cons_add, zero_add, zero_add]

/-- Building a space fails without a trace, or makes a new process. -/
theorem Accounted.leads_buildSpace (h : k.Accounted pages) (hfree : ¬ (k.slotOf p).isLive)
    (hpool : k'.pool = k.pool) (hslots : k'.slots = (k.withSlot p.slot { k.slotOf p with
      state := .used, pid := p.pid, entity := .initial }).slots)
    (hmappings : k'.mappings = k.mappings) {E : Panic → Prop} : Leads k' (buildSpace p)
      (fun r k'' => match r with
        | .error e => k'' = k' ∧ e = .outOfMemory ∧ k.pool.free = []
        | .ok _ => k.Claimed pages p k'') E := by
  have hslot : k'.slotOf p = { k.slotOf p with
      state := .used, pid := p.pid, entity := .initial } := by
    rw [slotOf, slot_congr hslots, slot_withSlot, if_pos rfl]
  -- without a free page there is no space; with one there is nothing else that could fail
  cases halloc : k.pool.alloc with
  | none =>
    unfold buildSpace
    simp only [leads_bind, leads_get, hpool, halloc, leads_pure]
    exact ⟨trivial, trivial, Pool.alloc_eq_none_iff.mp halloc⟩
  | some taken =>
  obtain ⟨address, pool⟩ := taken
  have hpooled : address ∈ poolPages pages := by
    refine Finset.mem_def.mpr (h.whole ▸ Multiset.mem_add.mpr (.inr ?_))
    rw [Pool.free_eq_of_alloc halloc]
    exact List.mem_cons_self
  obtain ⟨table, htable, hentered, hblank⟩ :=
    AddressSpace.entryTable_eq_ok (mem_poolPages.mp hpooled).1
  unfold buildSpace
  simp only [leads_bind, leads_get, hpool, halloc]
  -- the address of the kernel stack is not to be computed
  generalize Registers.zero.set .kernelStack
    (UInt64.ofNat (stackBase p.slot + stackPages * pageSize)) = registers
  simp only [leads_modify, leads_liftM, htable]
  refine ⟨fun built hbuilt => ?_, nofun⟩
  obtain rfl := Except.ok.inj hbuilt
  simp only [leads_modifySlot, leads_pure]
  have hclaimed := h.claimed hfree halloc hentered hblank registers rfl Page.zero
  refine hclaimed.congr rfl ?_ hmappings
  change k'.slots.set p.slot { k'.slotOf p with space := some ⟨table, address, registers⟩ } = _
  rw [hslot, hslots, withSlot, Vector.set_set]
  rfl

/-- A process is made, or nothing is left of the attempt but the number that it would have had. It
is made if there is a slot and a page, and panics only when no number is left. -/
theorem Partitioned.leads_claim (h : k.Partitioned pages) : Leads k claim
    (fun r k' => match r with
      | .error e => k.Restored pages k' ∧ (e = .noFreeSlot ∧ k.freeSlot? = none ∨
          e = .memory .outOfMemory ∧ k.freeSlot? ≠ none ∧ k.nextPid ≠ maxPid ∧ k.pool.free = [])
      | .ok p => k.Claimed pages p k' ∧ k.freeSlot? = some p.slot ∧ p.pid = k.nextPid ∧
          k.nextPid ≠ maxPid)
    (fun c => c = .addOverflow ∧ k.freeSlot? ≠ none ∧ k.nextPid = maxPid) := by
  unfold claim
  simp only [leads_bind, leads_get]
  -- every slot is taken, ...
  split
  · next hnone => exact ⟨h.restored, .inl ⟨rfl, hnone⟩⟩
  next i hfreeSlot =>
  have hfree := not_isLive_of_freeSlot? hfreeSlot
  have hsome : k.freeSlot? ≠ none := Option.ne_none_iff_exists'.mpr ⟨i, hfreeSlot⟩
  unfold takePid
  simp only [leads_bind, leads_get]
  -- ... or no number is left, ...
  split
  · next hmax => exact leads_bind.mpr (leads_throw.mpr ⟨rfl, hsome, hmax⟩)
  next hnumber =>
  simp only [leads_bind, leads_modify, leads_pure, leads_modifySlot]
  set p : Handle := ⟨i, k.nextPid⟩ with hp
  set s : Slot := { k.slot i with state := .used, pid := k.nextPid, entity := Entity.initial }
    with hs
  -- ... or a slot is marked as used and a space is built for it
  set k₁ : Kernel := { k with nextPid := k.nextPid + 1 }.withSlot i s with hk₁
  change Leads k₁ (buildSpace p) _ _
  have hspace : s.space = none := h.space_of_not_isLive hfree
  refine (h.leads_buildSpace (p := p) hfree (show k₁.pool = k.pool from rfl) rfl rfl).imp
    fun built k₂ h₂ => ?_
  cases built with
  | ok _ => exact ⟨h₂, hfreeSlot, rfl, hnumber⟩
  | error e =>
    obtain ⟨h₂, rfl, hempty⟩ := h₂
    subst h₂
    have hslot : k₁.slotOf p = s := slotOf_withSlot_self { k with nextPid := k.nextPid + 1 } p s
    -- without a page the slot is vacated again, which frees nothing: it had no space yet
    rw [leads_bind]
    refine (Kernel.leads_vacate k.pool ?_).imp fun _ k₃ ⟨hpool, hslots, hmappings⟩ => ?_
    · rw [hslot, hspace]
      rfl
    · rw [leads_pure]
      have hslots₃ : k₃.slots = (k.withSlot i s.vacated).slots := by
        rw [hslots, hslot, hk₁, withSlot_withSlot]
        rfl
      have hpages : (k.slot p.slot).pages = 0 :=
        Slot.pages_of_none (h.space_of_not_isLive hfree)
      have hvacated : k.Vacated pages p k₃ := by
        refine h.vacated h.spans h.tidy ?_ (fun _ _ => rfl) hpool hslots₃ hmappings
        rw [hpages, zero_add]
      refine ⟨hvacated.restored h hfree rfl fun j r hr _ => ?_, .inr ⟨rfl, hsome, hnumber, hempty⟩⟩
      rwa [record_congr hmappings] at hr

/-! ### The root process -/

/-- A slot is replaced by one with the same estate. -/
theorem Accounted.settled_withSlot (h : k.Accounted pages) (hlive : k.IsLive p) {s : Slot}
    (hs : s.estate = (k.slotOf p).estate) : k.Settled pages p (k.withSlot p.slot s) := by
  have halike : k.Alike (k.withSlot p.slot s) := .withSlot hs
  exact ⟨⟨halike.accounted h, (halike.isLive_iff p).mpr hlive, .withSlot p k s fun _ _ => rfl⟩,
    (halike.covers_iff p).mpr⟩

/-- What the pages of a new root process may be used for. -/
def rootPermissions : Permissions :=
  UserMemory.basePermissions.union { writable := true, executable := true }

/-- An image is loaded below the new size, or nothing new is mapped because there are not enough
pages. -/
theorem Accounted.leads_loadImage (h : k.Accounted pages) (hlive : k.IsLive p) {image : Bytes}
    {size : Nat} (hfits : image.length ≤ size) {E : Panic → Prop} :
    Leads k (onMemory p (loadImage image size)) (fun result k' => k.Tabled pages p k' ∧
      (result = .ok () → pagesIn size ≤ userPages ∧ UserMemory.Extended 0 (pagesIn size)
        rootPermissions (k.slotOf p).table (k'.slotOf p).table) ∧
      ∀ e, result = .error e → (∀ n, (k'.slotOf p).table.lookup (n * pageSize) =
          (k.slotOf p).table.lookup (n * pageSize)) ∧
        ∃ stop < pagesIn size, (k.slotOf p).table.isMapped (stop * pageSize) ∨
          ((∀ n < userPages, ¬ (k.slotOf p).table.isMapped (n * pageSize)) →
            (k.memory p).pagesOf.card ≤ stop)) E := by
  refine h.leads_onMemory hlive (fun (result : Except MemoryError Unit) m =>
    (result = .ok () → pagesIn size ≤ userPages ∧ UserMemory.Extended 0 (pagesIn size)
      rootPermissions (k.slotOf p).table m.table) ∧
    ∀ e, result = .error e → (∀ n, m.table.lookup (n * pageSize) =
        (k.slotOf p).table.lookup (n * pageSize)) ∧
      ∃ stop < pagesIn size, (k.slotOf p).table.isMapped (stop * pageSize) ∨
        ((∀ n < userPages, ¬ (k.slotOf p).table.isMapped (n * pageSize)) →
          (k.memory p).pagesOf.card ≤ stop))
    fun others hm hframe hprivate => ?_
  exact hm.loadImage hprivate hframe hfits

/-- What is known of the root process when it was made. -/
structure Rooted (pages : Nat) (image : Bytes) (p : Handle) (k k' : Kernel) : Prop extends
    Reworked pages p k k' where
  dead : ¬ (k.slotOf p).isLive
  number : p.pid = k.nextPid
  covers : k'.Covers p
  mappings_same : k'.mappings = k.mappings
  /-- If its image lies below the window it is laid out as it should be. -/
  laidOut : image.length ≤ windowBase →
    (∀ (j : Fin mappingLimit) r, k.record j = some r → r.owner.pid ≠ k.nextPid) → k'.LaidOut p

/-- The pages of a new root process are open to it. -/
theorem isOpen_root : rootPermissions.validated.IsOpen := ⟨rfl, rfl, rfl, rfl⟩

/-- Only the pool, the slots and the records matter. -/
theorem Rooted.congr {image : Bytes} (h : k.Rooted pages image p k') (hpool : k''.pool = k'.pool)
    (hslots : k''.slots = k'.slots) (hmappings : k''.mappings = k'.mappings) :
    k.Rooted pages image p k'' where
  toReworked := h.toReworked.congr hpool hslots hmappings
  dead := h.dead
  number := h.number
  covers := h.covers.congr hslots hmappings
  mappings_same := hmappings.trans h.mappings_same
  laidOut himage hfresh := (h.laidOut himage hfresh).congr hslots hmappings

section Images

variable {image : Bytes} {stop : Nat}

/-- Bytes that a root process has of an image. -/
theorem rootSize_le (hstop : pageUp image.length = .ok stop) (himage : image.length ≤ windowBase) :
    max stop pageSize ≤ windowBase := by
  obtain ⟨-, rfl⟩ := pageUp_eq_ok.mp hstop
  unfold pagesIn windowBase at *
  unfold pageSize
  omega

/-- The pages that a root process has of an image. -/
theorem pagesIn_rootSize (hstop : pageUp image.length = .ok stop) :
    pagesIn (max stop pageSize) = max (pagesIn image.length) 1 := by
  obtain ⟨-, rfl⟩ := pageUp_eq_ok.mp hstop
  unfold pagesIn pageSize
  omega

/-- An image below the window has a size that is a word. -/
theorem windowBase_lt_of_pageUp {c : Panic} (h : pageUp image.length = .error c) :
    windowBase < image.length := by
  by_contra hle
  have hok : pageUp image.length = .ok (pagesIn image.length * pageSize) := by
    refine pageUp_eq_ok.mpr ⟨?_, rfl⟩
    have hbound : image.length ≤ windowBase := Nat.le_of_not_lt hle
    unfold windowBase at hbound
    unfold wordLimit pageSize
    omega
  rw [hok] at h
  cases h

/-- If an image cannot be loaded below the window there are too few pages. -/
theorem Claimed.freeCount_lt (h : k.Claimed pages p k') (hstop : pageUp image.length = .ok stop)
    (himage : image.length ≤ windowBase) {last : Nat} (hlast : last < pagesIn (max stop pageSize))
    (hcause : (k'.slotOf p).table.isMapped (last * pageSize) ∨
      ((∀ n < userPages, ¬ (k'.slotOf p).table.isMapped (n * pageSize)) →
        (k'.memory p).pagesOf.card ≤ last)) :
    k.pool.freeCount < 1 + max (pagesIn image.length) 1 := by
  -- the page that is missing would have been below the trap frame
  have huser : last < userPages := hlast.trans_le
    ((UserMemory.pagesIn_le_pagesIn (rootSize_le hstop himage)).trans
      pagesIn_windowBase_le_userPages)
  have hcard := (hcause.resolve_left (h.blank last huser)) h.blank
  rw [h.card_pagesOf] at hcard
  rw [pagesIn_rootSize hstop] at hlast
  have hfree := h.free_length
  unfold Pool.freeCount
  omega

/-- The slot of a root process that is ready to run its image. -/
def rootSlot (s : Slot) (space : AddressSpace) (size : Nat) : Slot :=
  { s with
    space := some { space with
      registers := (space.registers.set .pc 0).set .sp (UInt64.ofNat size) }
    size, name := "initcode", state := .runnable }

/-- A new process with an image in its memory is ready to run it. -/
theorem Claimed.rooted (h : k.Claimed pages p k') (hnumber : p.pid = k.nextPid)
    (hstop : pageUp image.length = .ok stop) (h' : k'.Tabled pages p k'')
    (hsize : pagesIn (max stop pageSize) ≤ userPages)
    (hext : UserMemory.Extended 0 (pagesIn (max stop pageSize)) rootPermissions
      (k'.slotOf p).table (k''.slotOf p).table)
    {space : AddressSpace} (hspace : (k''.slotOf p).space = some space) :
    k.Rooted pages image p
      (k''.withSlot p.slot (rootSlot (k''.slotOf p) space (max stop pageSize))) := by
  set size := max stop pageSize with hsizeDef
  have hmappings : k''.mappings = k.mappings := h'.mappings_same.trans h.mappings_same
  -- the new size covers all that was mapped for it
  have h₃ := h'.setSize hsize fun n hn hm => .inr (by
    by_contra hout
    unfold PageTable.isMapped at hm
    rw [hext.same n fun hin => hout hin.2] at hm
    exact h.blank n hn hm)
  set k₃ := k''.withSlot p.slot { k''.slotOf p with size }
  have hslot : k₃.slotOf p = { k''.slotOf p with size } := slotOf_withSlot_self ..
  set s := rootSlot (k''.slotOf p) space size with hs
  have htable : s.table = (k''.slotOf p).table := by
    rw [Slot.table_of_space rfl, Slot.table_of_space hspace]
  have hestate : s.estate = (k₃.slotOf p).estate := by
    rw [hslot]
    refine Slot.estate_congr' h'.isLive.1.symm rfl rfl ?_
    rw [hspace]
    rfl
  have h₄ := h₃.accounted.settled_withSlot h₃.isLive hestate
  rw [withSlot_withSlot] at h₄
  have hcovers := (h₃.trans h₄).covers_of_covers h.covers
  refine ⟨h.toReworked.trans (h₃.trans h₄).toReworked, h.dead, hnumber, hcovers, hmappings,
    fun himage hfresh => ?_⟩
  have hslot₄ : (k''.withSlot p.slot s).slotOf p = s := slotOf_withSlot_self ..
  -- a process with a new number has no records
  have hnone (j : Fin mappingLimit) (r : Mapping)
      (hr : (k''.withSlot p.slot s).record j = some r) : r.owner ≠ p := fun heq => by
    have hr : k''.record j = some r := hr
    rw [record_congr hmappings] at hr
    exact hfresh j r hr (heq ▸ hnumber)
  refine ⟨?_, ?_, fun i j r r' hr _ howner => absurd howner (hnone i r hr),
    fun j r hr howner => absurd howner (hnone j r hr), hcovers⟩
  -- the layout: the size, the pages below it, and no records
  · rw [hslot₄]
    exact rootSize_le hstop himage
  · rw [hslot₄, htable]
    intro n hn
    obtain ⟨-, address, hlookup⟩ := hext.fresh n (Nat.zero_le n) hn
    exact ⟨_, _, hlookup, isOpen_root⟩

end Images

/-- The root process is made, or nothing is left of the attempt. It is made if there is a slot and
there are enough pages, and panics only if there is a root process already, when no number is left,
or on an image that no memory could hold. -/
theorem Partitioned.leads_startRoot (h : k.Partitioned pages) (image : Bytes) :
    Leads k (startRoot image) (fun r k' => match r with
      | .error _ => k.Restored pages k' ∧ (image.length ≤ windowBase → k.freeSlot? = none ∨
          k.pool.freeCount < 1 + max (pagesIn image.length) 1)
      | .ok p => k.Rooted pages image p k')
      (fun c => c ≠ .foreignPage ∧ (k.root = none → k.nextPid ≠ maxPid →
        windowBase < image.length)) := by
  unfold startRoot
  simp only [leads_bind, leads_get]
  -- there is a root process already, ...
  split
  · next hroot =>
    refine leads_bind.mpr (leads_throw.mpr ⟨by rintro ⟨⟩, fun hnone => ?_⟩)
    rw [hnone] at hroot
    cases hroot
  -- ... or a process is claimed and its image loaded
  rw [leads_bind]
  refine h.leads_claim.mono (fun claimed k₁ h₁ => ?_) fun c hc =>
    ⟨hc.1 ▸ by decide, fun _ hne => absurd hc.2.2 hne⟩
  cases claimed with
  | error e =>
    obtain ⟨hrestored, ⟨-, hfull⟩ | ⟨-, -, -, hempty⟩⟩ := h₁
    · exact ⟨hrestored, fun _ => .inl hfull⟩
    · refine ⟨hrestored, fun _ => .inr ?_⟩
      rw [Pool.freeCount, hempty]
      exact Nat.lt_of_lt_of_le Nat.zero_lt_one (Nat.le_add_right 1 _)
  | ok p =>
    have hnumber := h₁.2.2.1
    replace h₁ := h₁.1
    simp only [leads_bind]
    rw [leads_liftM]
    refine ⟨fun stop hstop => ?_, fun c hc => ⟨fun heq => (pageUp_arithmetic _).ne_error rfl (heq ▸ hc),
      fun _ _ => windowBase_lt_of_pageUp hc⟩⟩
    have hfits : image.length ≤ max stop pageSize :=
      (le_of_pageUp hstop).trans (Nat.le_max_left _ _)
    refine (h₁.accounted.leads_loadImage h₁.isLive hfits).imp fun loaded k₂ hloaded => ?_
    obtain ⟨h₂, hok, herror⟩ := hloaded
    cases loaded with
    -- the image could not be loaded: the process is vacated, and nothing of it is left
    | error e =>
      obtain ⟨hsame, last, hlast, hcause⟩ := herror e rfl
      have hcovers : k₂.Covers p := fun n hn hm => by
        unfold PageTable.isMapped at hm
        rw [hsame n] at hm
        exact absurd hm (h₁.blank n hn)
      rw [leads_bind]
      refine (h.leads_undo h₁.dead hnumber (h₁.toReworked.trans h₂.toReworked) hcovers
        fun j r hr _ => ?_).imp fun _ k₃ h₃ =>
          ⟨h₃, fun himage => .inr (h₁.freeCount_lt hstop himage hlast hcause)⟩
      rwa [record_congr (h₂.mappings_same.trans h₁.mappings_same)] at hr
    -- the image is there, and the registers and the state are all that is missing
    | ok _ =>
      obtain ⟨hsize, hext⟩ := hok rfl
      obtain ⟨space, hspace⟩ := h₂.accounted.space_of_handle h₂.isLive
      unfold modifyRegisters
      simp only [leads_bind, leads_getSlot, hspace, leads_modifySlot, leads_modify, leads_note,
        leads_pure]
      rw [slotOf_withSlot_self, withSlot_withSlot]
      exact (h₁.rooted hnumber hstop h₂ hsize hext hspace).congr rfl rfl rfl

end Kernel

end FairKernel
