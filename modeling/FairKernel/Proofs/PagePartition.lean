import FairKernel.Proofs.MemoryEffects

/-!
# The pages are partitioned

Between any two calls of any run every page of the pool has exactly one holder: the list of free
pages, the trap frame of one live process, or one page address of one live process that its size or
its mappings cover. No call ever gives a page back that is not of the pool or that is free already,
and a child that is reaped gives back all that it had.

The account of the pages (`Accounted`) says that the free pages and those of all slots are together
the pages of the pool, each counted once. Here this is read as a statement about holders: what a
slot counts is what its process holds (`mem_pages`), and a page that is counted once has one holder
(`holder_eq`).
-/

namespace FairKernel

/-! ### Holders -/

/-- Who may hold a page of the pool. -/
inductive Holder
  | freeList
  /-- The process in a slot, as its trap frame. -/
  | trapFrame (i : Fin slotCount)
  /-- The process in a slot, at a page address. -/
  | memory (i : Fin slotCount) (address : Nat)

namespace Kernel

/-- What it means to hold a page. Below its trap frame a process holds the pages that its table
maps; the trap frame is in its table, too, but is not counted twice. -/
def Holds (k : Kernel) : Holder → Nat → Prop
  | .freeList, page => page ∈ k.pool.free
  | .trapFrame i, page =>
    (k.slot i).isLive ∧ ∃ space, (k.slot i).space = some space ∧ space.framePage = page
  | .memory i address, page =>
    (k.slot i).isLive ∧ address % pageSize = 0 ∧ address ≠ frameAddress ∧
      ∃ permissions, (k.slot i).table.lookup address = some (.pooled page, permissions)

variable {pages page : Nat} {k k' : Kernel} {i : Fin slotCount}

namespace Accounted

/-- What a process holds in its memory are its residents. -/
theorem holds_memory_iff (h : k.Accounted pages) {address : Nat} :
    k.Holds (.memory i address) page ↔ (k.slot i).isLive ∧
      ∃ n < userPages, address = n * pageSize ∧ page ∈ (k.slot i).table.pooledAt n := by
  constructor
  -- it lies below the trap frame: the trampoline is no page of the pool, and the frame is left out
  · rintro ⟨hlive, halign, hne, permissions, hlookup⟩
    obtain ⟨n, rfl⟩ := exists_page halign
    refine ⟨hlive, n, ?_, rfl, PageTable.mem_pooledAt.mpr ⟨permissions, hlookup⟩⟩
    obtain ⟨space, hspace⟩ := h.space_of_isLive hlive
    have hentered := h.entered i space hspace
    rw [Slot.table_of_space hspace] at hlookup
    have hlast := PageTable.lt_of_lookup hlookup
    have htrampoline : n ≠ userPages + 1 := by
      rintro rfl
      rw [hentered.lookup_trampoline] at hlookup
      cases hlookup
    have hframe : n ≠ userPages := fun heq => hne (heq ▸ frameAddress_eq.symm)
    omega
  -- the residents are what the table has below the trap frame
  · rintro ⟨hlive, n, hn, rfl, hmem⟩
    refine ⟨hlive, Nat.mul_mod_left .., ?_, PageTable.mem_pooledAt.mp hmem⟩
    exact (mul_pageSize_lt_frameAddress.mpr hn).ne

/-- The pages of a slot are those that its process holds, one way or the other. -/
theorem mem_pages (h : k.Accounted pages) : page ∈ (k.slot i).pages ↔
    k.Holds (.trapFrame i) page ∨ ∃ address, k.Holds (.memory i address) page := by
  by_cases hlive : (k.slot i).isLive
  · obtain ⟨space, hspace⟩ := h.space_of_isLive hlive
    rw [Slot.pages_of_space hspace, Multiset.mem_cons, PageTable.mem_residents,
      ← Slot.table_of_space hspace]
    -- the first page is the trap frame, and the others are the residents
    refine or_congr ⟨?_, ?_⟩ ⟨?_, ?_⟩
    · rintro rfl
      exact ⟨hlive, space, hspace, rfl⟩
    · rintro ⟨-, space', hspace', rfl⟩
      rw [hspace] at hspace'
      cases hspace'
      rfl
    · rintro ⟨n, hn, hmem⟩
      exact ⟨n * pageSize, h.holds_memory_iff.mpr ⟨hlive, n, hn, rfl, hmem⟩⟩
    · rintro ⟨address, hholds⟩
      obtain ⟨-, n, hn, -, hmem⟩ := h.holds_memory_iff.mp hholds
      exact ⟨n, hn, hmem⟩
  -- a slot that belongs to nobody has no pages
  · rw [Slot.pages_of_none (h.space_of_not_isLive hlive)]
    refine ⟨fun hmem => absurd hmem (Multiset.notMem_zero _), ?_⟩
    rintro (⟨hlive', -⟩ | ⟨_, hlive', -⟩) <;> exact absurd hlive' hlive

/-- A process does not hold a page in two ways. -/
theorem holder_eq_of_slot (h : k.Accounted pages) {address : Nat}
    (hm : k.Holds (.memory i address) page) : ¬ k.Holds (.trapFrame i) page ∧
      ∀ address', k.Holds (.memory i address') page → address = address' := by
  obtain ⟨hlive, n, hn, rfl, hmem⟩ := h.holds_memory_iff.mp hm
  obtain ⟨space, hspace⟩ := h.space_of_isLive hlive
  have hnodup := h.nodup_pages i
  rw [Slot.pages_of_space hspace, Multiset.nodup_cons] at hnodup
  rw [Slot.table_of_space hspace] at hmem
  refine ⟨?_, fun address' hm' => ?_⟩
  -- the trap frame is counted besides the residents
  · rintro ⟨-, space', hspace', rfl⟩
    rw [hspace] at hspace'
    cases hspace'
    exact hnodup.1 (PageTable.mem_residents.mpr ⟨n, hn, hmem⟩)
  -- each resident is counted at one address
  · obtain ⟨-, n', hn', rfl, hmem'⟩ := h.holds_memory_iff.mp hm'
    rw [Slot.table_of_space hspace] at hmem'
    have heq := eq_of_mem_of_nodup_sum hnodup.2 (Finset.mem_range.mpr hn)
      (Finset.mem_range.mpr hn') hmem hmem'
    rw [heq]

/-- Every page of the pool has a holder. -/
theorem exists_holds (h : k.Accounted pages) (hpage : page ∈ poolPages pages) :
    ∃ holder, k.Holds holder page := by
  have hmem : page ∈ (k.heldPages + k.pool.free : Multiset Nat) := h.whole ▸ Finset.mem_def.mp hpage
  rcases Multiset.mem_add.mp hmem with hheld | hfree
  · obtain ⟨i, -, hi⟩ := Multiset.mem_sum.mp hheld
    rcases h.mem_pages.mp hi with hframe | ⟨address, hmemory⟩
    · exact ⟨.trapFrame i, hframe⟩
    · exact ⟨.memory i address, hmemory⟩
  · exact ⟨.freeList, Multiset.mem_coe.mp hfree⟩

/-- No page has two holders. -/
theorem holder_eq (h : k.Accounted pages) {holder holder' : Holder}
    (hh : k.Holds holder page) (hh' : k.Holds holder' page) : holder = holder' := by
  have frame {i : Fin slotCount} (hf : k.Holds (.trapFrame i) page) :
      page ∈ (k.slot i).pages := h.mem_pages.mpr (.inl hf)
  have memory {i : Fin slotCount} {a : Nat} (hm : k.Holds (.memory i a) page) :
      page ∈ (k.slot i).pages := h.mem_pages.mpr (.inr ⟨a, hm⟩)
  -- free, held by one process, or held by another: the pages of these are counted apart
  cases holder with
  | freeList =>
    cases holder' with
    | freeList => rfl
    | trapFrame j => exact absurd (frame hh') (h.not_mem_pages_of_free hh)
    | memory j b => exact absurd (memory hh') (h.not_mem_pages_of_free hh)
  | trapFrame i =>
    cases holder' with
    | freeList => exact absurd (frame hh) (h.not_mem_pages_of_free hh')
    | trapFrame j => rw [h.eq_of_mem_pages (frame hh) (frame hh')]
    | memory j b =>
      obtain rfl := h.eq_of_mem_pages (frame hh) (memory hh')
      exact absurd hh (h.holder_eq_of_slot hh').1
  | memory i a =>
    cases holder' with
    | freeList => exact absurd (memory hh) (h.not_mem_pages_of_free hh')
    | trapFrame j =>
      obtain rfl := h.eq_of_mem_pages (memory hh) (frame hh')
      exact absurd hh' (h.holder_eq_of_slot hh).1
    | memory j b =>
      obtain rfl := h.eq_of_mem_pages (memory hh) (memory hh')
      rw [(h.holder_eq_of_slot hh).2 _ hh']

/-- Only pages of the pool are held. -/
theorem mem_poolPages_of_holds (h : k.Accounted pages) {holder : Holder}
    (hh : k.Holds holder page) : page ∈ poolPages pages := by
  have held {i : Fin slotCount} (hi : page ∈ (k.slot i).pages) : page ∈ poolPages pages := by
    refine Finset.mem_def.mpr (h.whole ▸ Multiset.mem_add.mpr (.inl ?_))
    exact Multiset.mem_sum.mpr ⟨i, Finset.mem_univ i, hi⟩
  cases holder with
  | freeList =>
    exact Finset.mem_def.mpr (h.whole ▸ Multiset.mem_add.mpr (.inr (Multiset.mem_coe.mpr hh)))
  | trapFrame i => exact held (h.mem_pages.mpr (.inl hh))
  | memory i a => exact held (h.mem_pages.mpr (.inr ⟨a, hh⟩))

/-- Free pages, trap frames and resident pages add up. -/
theorem freeCount_add_sum (h : k.Accounted pages) : k.pool.freeCount +
    ∑ i : Fin slotCount with (k.slot i).isLive, (1 + (k.slot i).table.residentCount) = pages := by
  -- a live process has its trap frame and its residents, and nobody else has any
  have hsum : ∑ i : Fin slotCount with (k.slot i).isLive,
      (1 + (k.slot i).table.residentCount) = k.heldPages.card := by
    rw [Finset.sum_filter, heldPages, Multiset.card_sum]
    refine Finset.sum_congr rfl fun i _ => ?_
    split
    · next hlive =>
      obtain ⟨space, hspace⟩ := h.space_of_isLive hlive
      have hpooled := h.pooled i
      rw [Slot.table_of_space hspace] at hpooled ⊢
      rw [Slot.pages_of_space hspace, Multiset.card_cons, PageTable.card_residents hpooled,
        add_comm]
    · next hlive =>
      rw [Slot.pages_of_none (h.space_of_not_isLive hlive), Multiset.card_zero]
  have hcard := congrArg Multiset.card h.whole
  rw [Multiset.card_add, Finset.card_val, card_poolPages, Multiset.coe_card] at hcard
  rw [hsum, Pool.freeCount, add_comm]
  exact hcard

end Accounted

/-! ### Runs -/

/-- Every page of the pool has exactly one holder. -/
structure PagesHeldOnce (pages : Nat) (k : Kernel) : Prop where
  existsUnique : ∀ page ∈ poolPages pages, ∃! holder, k.Holds holder page
  mem_poolPages : ∀ holder page, k.Holds holder page → page ∈ poolPages pages
  free_nodup : k.pool.free.Nodup
  /-- What a process holds in its memory lies below its size or in a mapping of it. -/
  covered : ∀ i address page, k.Holds (.memory i address) page →
    address < pagesIn (k.slot i).size * pageSize ∨
      ∃ r ∈ k.mappingsOf ⟨i, (k.slot i).pid⟩, r.covers address
  count : k.pool.freeCount +
    ∑ i : Fin slotCount with (k.slot i).isLive, (1 + (k.slot i).table.residentCount) = pages
  /-- The trail of the pool tells which pages are free, ... -/
  free_eq : k.pool.free = freeAfter k.pool.trail
  /-- ... and a page was only ever taken back if it is one of the pool and was not free. -/
  orderly : ∀ later page earlier, k.pool.trail = later ++ .takenBack page :: earlier →
    page ∈ poolPages pages ∧ page ∉ freeAfter earlier

/-- A kernel whose pages are accounted for holds each page once. -/
theorem Partitioned.pagesHeldOnce (h : k.Partitioned pages) : k.PagesHeldOnce pages where
  existsUnique page hpage := by
    obtain ⟨holder, hholder⟩ := h.exists_holds hpage
    exact ⟨holder, hholder, fun holder' hholder' => h.holder_eq hholder' hholder⟩
  mem_poolPages _ _ hholds := h.mem_poolPages_of_holds hholds
  free_nodup := Multiset.coe_nodup.mp (Multiset.nodup_add.mp h.nodup_heldPages_add_free).2.1
  covered i address page hholds := by
    obtain ⟨hlive, n, hn, rfl, hmem⟩ := h.holds_memory_iff.mp hholds
    obtain ⟨permissions, hlookup⟩ := PageTable.mem_pooledAt.mp hmem
    -- the process has the page in its table, so its size or one of its mappings covers it
    have hmapped : (k.slotOf ⟨i, (k.slot i).pid⟩).table.isMapped (n * pageSize) := by
      have hsome : ((k.slot i).table.lookup (n * pageSize)).isSome := by
        rw [hlookup]
        rfl
      exact hsome
    rcases h.covers ⟨i, (k.slot i).pid⟩ ⟨hlive, rfl⟩ n hn hmapped with hlt | ⟨j, r, hr, howner, hc⟩
    · exact .inl (Nat.mul_lt_mul_of_pos_right hlt (by decide))
    · exact .inr ⟨r, mem_mappingsOf.mpr ⟨j, hr, howner⟩, hc⟩
  count := h.freeCount_add_sum
  free_eq := h.tidy.free_eq
  orderly later page earlier htrail := by
    obtain ⟨howns, hfree⟩ := h.tidy.orderly later page earlier htrail
    exact ⟨(Pool.owns_iff h.spans).mp howns, hfree⟩

end Kernel

/-- **The pages are partitioned.** After any run of calls, each through the handle of a live
process, every page of the pool has exactly one holder; no further call gives a page back that is
not of the pool; and whenever a child was reaped, all that it had became free. -/
theorem pages_held_once {pages : Nat} {boot k : Kernel} {past : List Transition}
    (hboot : boot.Booted pages) (hrun : Run Call.ThroughLive boot past k) :
    k.PagesHeldOnce pages ∧
    (∀ c : Call, c.ThroughLive k → ∀ k', c.run.run k ≠ .error .foreignPage k') ∧
    ∀ k₁ p target address pid k₂,
      ⟨k₁, .awaitChild p target address, some (.ok pid), k₂⟩ ∈ past →
        ∃ i : Fin slotCount, Kernel.isChild p target (k₁.slot i) ∧ (k₁.slot i).state = .zombie ∧
          (k₁.slot i).pid = pid ∧
          (k₂.pool.free : Multiset Nat) = (k₁.slot i).pages + k₁.pool.free := by
  have h := hrun.partitioned hboot.partitioned
  refine ⟨h.pagesHeldOnce, fun c hc k' hpanic => ?_, fun k₁ p target address pid k₂ hmem => ?_⟩
  -- no call panics because it was given back what was not of the pool
  · exact (h.leads_work hc).of_run_error hpanic rfl
  -- the child had all its pages in the account, and they became free
  · obtain ⟨earlier, hearlier, hallowed, hran⟩ := hrun.of_mem hmem
    have h₁ := hearlier.partitioned hboot.partitioned
    obtain ⟨i, hchild, hzombie, hpid, hreaped⟩ :=
      (h₁.leads_awaitRound (hallowed p rfl) target address).of_run_ok hran
    exact ⟨i, hchild, hzombie, hpid, hreaped.free_eq⟩

/-- A family of two on six pages: when the child was reaped, its pages were free again. -/
theorem pages_held_once_family : ∃ boot past k, Kernel.Booted 6 boot ∧
    Run Call.ThroughLive boot past k ∧ past.length = 10 ∧ k.pool.freeCount = 4 ∧
    k.PagesHeldOnce 6 := by
  obtain ⟨boot, past, k, hboot, hrun, hcheck⟩ := Run.of_rehearse Call.ThroughLive 6
    Call.family (fun past k => past.length == 10 && k.pool.freeCount == 4) (by decide +kernel)
  rw [Bool.and_eq_true, beq_iff_eq, beq_iff_eq] at hcheck
  exact ⟨boot, past, k, hboot, hrun, hcheck.1, hcheck.2, (pages_held_once hboot hrun).1⟩

end FairKernel
