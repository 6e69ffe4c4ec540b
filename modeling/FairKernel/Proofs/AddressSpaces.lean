import FairKernel.Proofs.MemoryCopies

/-!
# Address spaces, made and taken apart

A new address space maps the trampoline and the trap frame and nothing below them. Taking one apart
gives back the trap frame, what its mappings have and what lies below its size; nothing of it is
left if that covers all of its residents.

The two pages at the end of the address space are the kernel's, and they are there from the first to
the last moment of a process (`Entered`). The trampoline is not a page of the pool, so only the trap
frame is accounted for. To take a space apart is a row of steps that all remove pages, and none of
them can fail on a sound memory (`release_eq_ok`). Whether a page is left behind is a question of
what the size and the records of the process cover, and is asked of every live process elsewhere.
-/

namespace FairKernel

/-- The trap frame is behind the first number that is not a user page. -/
theorem frameAddress_eq : frameAddress = userPages * pageSize := by
  unfold userPages frameAddress trampolineAddress addressLimit pageSize
  omega

/-- The trampoline is behind the last number of all. -/
theorem trampolineAddress_eq : trampolineAddress = (userPages + 1) * pageSize := by
  unfold userPages frameAddress trampolineAddress addressLimit pageSize
  omega

/-! ### Records -/

namespace Mapping

variable {r : Mapping}

/-- A range of whole pages in the mapping window. -/
structure InWindow (r : Mapping) : Prop where
  base_mod : r.base % pageSize = 0
  length_mod : r.length % pageSize = 0
  windowBase_le : windowBase ≤ r.base
  stop_le : r.stop ≤ windowEnd

/-- The number of the first page of the range. -/
def firstPage (r : Mapping) : Nat := r.base / pageSize

/-- A range in the window starts at the address of its first page. -/
theorem InWindow.base_eq (h : r.InWindow) : r.base = r.firstPage * pageSize :=
  (Nat.div_mul_cancel (Nat.dvd_of_mod_eq_zero h.base_mod)).symm

/-- A range in the window is as long as its pages. -/
theorem InWindow.length_eq (h : r.InWindow) : r.length = r.pageCount * pageSize :=
  (Nat.div_mul_cancel (Nat.dvd_of_mod_eq_zero h.length_mod)).symm

/-- A range in the window ends where its last page does. -/
theorem InWindow.stop_eq (h : r.InWindow) : r.stop = (r.firstPage + r.pageCount) * pageSize := by
  rw [stop, h.base_eq, h.length_eq, Nat.add_mul]

/-- A range in the window lies below the trap frame. -/
theorem InWindow.le_userPages (h : r.InWindow) : r.firstPage + r.pageCount ≤ userPages := by
  have hle := h.stop_eq ▸ h.stop_le
  unfold windowEnd windowBase windowSize at hle
  unfold userPages frameAddress trampolineAddress addressLimit
  unfold pageSize at hle ⊢
  omega

/-- A range in the window covers a page if it is one of those from its first page on. -/
theorem InWindow.covers_page (h : r.InWindow) (k : Nat) :
    r.covers (k * pageSize) ↔ r.firstPage ≤ k ∧ k < r.firstPage + r.pageCount := by
  rw [covers, h.stop_eq, h.base_eq]
  have hpos : 0 < pageSize := by decide
  simp only [Bool.and_eq_true, decide_eq_true_eq, Nat.mul_le_mul_right_iff hpos,
    Nat.mul_lt_mul_right hpos, firstPage]

end Mapping

/-! ### A new address space -/

/-- There is no page beyond the trampoline. -/
theorem PageTable.lt_of_lookup {t : PageTable} {n : Nat} {found : Physical × Permissions}
    (hfound : t.lookup (n * pageSize) = some found) : n < userPages + 2 := by
  have hlimit : n * pageSize < addressLimit := by
    by_contra hle
    rw [lookup_eq_none_of_le (Nat.le_of_not_lt hle)] at hfound
    cases hfound
  unfold userPages frameAddress trampolineAddress
  unfold addressLimit at hlimit ⊢
  unfold pageSize at hlimit ⊢
  omega

/-- The empty table maps nothing. -/
theorem PageTable.lookup_empty (v : Nat) : PageTable.empty.lookup v = none := by
  have hpeek : PageTable.empty.peek (pageDown v) = Entry.blank := by
    rw [peek, leaf?_empty, Option.elim_none]
  rw [lookup_eq, hpeek]
  simp [Entry.blank]

namespace AddressSpace

/-- The table that a process starts with. -/
structure Entered (framePage : Nat) (t : PageTable) : Prop where
  lookup_frame : t.lookup (userPages * pageSize) =
    some (.pooled framePage, { valid := true, readable := true, writable := true })
  lookup_trampoline : t.lookup ((userPages + 1) * pageSize) =
    some (.outside trampolinePage, { valid := true, readable := true, executable := true })

/-- From the trap frame on only the trap frame and the trampoline are mapped. -/
theorem Entered.isPrivate {framePage : Nat} {t : PageTable} (h : Entered framePage t) :
    t.IsPrivate := by
  intro n hn physical permissions hlookup
  have hlast := PageTable.lt_of_lookup hlookup
  have hcases : n = userPages ∨ n = userPages + 1 := by omega
  rcases hcases with rfl | rfl
  · rw [h.lookup_frame] at hlookup
    cases hlookup
    rfl
  · rw [h.lookup_trampoline] at hlookup
    cases hlookup
    rfl

/-- Mapping the trap frame or the trampoline is seen at its own page number only. -/
theorem lookup_withPage_high {t : PageTable} {n : Nat} (hn : n ≤ userPages + 1)
    (physical : Physical) (permissions : Permissions) (k : Nat) :
    (t.withPage (n * pageSize) physical permissions).lookup (k * pageSize) =
      if k = n then some (physical.page, permissions.validated) else t.lookup (k * pageSize) := by
  have hlt : n * pageSize < addressLimit := by
    unfold userPages frameAddress trampolineAddress at hn
    unfold addressLimit at hn ⊢
    unfold pageSize at hn ⊢
    omega
  rw [PageTable.lookup_withPage (Nat.mul_mod_left ..) hlt, pageDown_page]
  simp only [page_inj]

/-- The trap frame and the trampoline can be mapped where nothing is. -/
theorem map_high {t : PageTable} {n : Nat} (hn : n ≤ userPages + 1) {physical : Physical}
    (hp : physical.advance 0 = .ok physical) (permissions : Permissions)
    (hnone : t.lookup (n * pageSize) = none) :
    t.map (n * pageSize) pageSize physical permissions =
      .ok (.ok (), t.withPage (n * pageSize) physical permissions) := by
  have hword : n * pageSize + pageSize < wordLimit ∧ ¬ addressLimit ≤ n * pageSize := by
    unfold userPages frameAddress trampolineAddress at hn
    unfold addressLimit at hn ⊢
    unfold wordLimit
    unfold pageSize at hn ⊢
    omega
  have hmapped : ¬ t.isMapped (n * pageSize) := by
    rw [PageTable.isMapped, hnone]
    decide
  rw [PageTable.map_page (Nat.mul_mod_left ..) hword.1 hp, if_neg hword.2, if_neg hmapped]

/-- The first table of a process is made by mapping the trampoline and then the trap frame. -/
theorem entryTable_eq {framePage : Nat} {t₁ t₂ : PageTable}
    (h₁ : PageTable.empty.map trampolineAddress pageSize (.outside trampolinePage)
      { readable := true, executable := true } = .ok (.ok (), t₁))
    (h₂ : t₁.map frameAddress pageSize (.pooled framePage) { readable := true, writable := true } =
      .ok (.ok (), t₂)) : entryTable framePage = .ok (.ok (), t₂) := by
  unfold entryTable
  rw [h₁]
  exact h₂

/-- There is always room for the trampoline and the trap frame. -/
theorem entryTable_eq_ok {framePage : Nat} (hframe : framePage % pageSize = 0) :
    ∃ t, entryTable framePage = .ok (.ok (), t) ∧ Entered framePage t ∧
      ∀ k, k < userPages → t.lookup (k * pageSize) = none := by
  set t₁ := PageTable.empty.withPage ((userPages + 1) * pageSize) (.outside trampolinePage)
    { readable := true, executable := true } with ht₁
  -- only the trampoline is mapped so far
  have hlookup₁ (k : Nat) : t₁.lookup (k * pageSize) = if k = userPages + 1 then
      some (Physical.page (.outside trampolinePage),
        { valid := true, readable := true, executable := true }) else none := by
    rw [ht₁, lookup_withPage_high (Nat.le_refl _), PageTable.lookup_empty]
    rfl
  have hmap₁ : PageTable.empty.map trampolineAddress pageSize (.outside trampolinePage)
      { readable := true, executable := true } = .ok (.ok (), t₁) := by
    rw [trampolineAddress_eq]
    exact map_high (Nat.le_refl _) (by decide) _ (PageTable.lookup_empty _)
  have hnone : t₁.lookup (userPages * pageSize) = none := by
    rw [hlookup₁, if_neg]
    omega
  have hmap₂ : t₁.map frameAddress pageSize (.pooled framePage)
      { readable := true, writable := true } =
      .ok (.ok (), t₁.withPage (userPages * pageSize) (.pooled framePage)
        { readable := true, writable := true }) := by
    rw [frameAddress_eq]
    exact map_high (Nat.le_add_right userPages 1) rfl _ hnone
  refine ⟨_, entryTable_eq hmap₁ hmap₂, ⟨?_, ?_⟩, fun k hk => ?_⟩
  · rw [lookup_withPage_high (Nat.le_add_right userPages 1), if_pos rfl, Physical.page,
      pageDown_of_aligned hframe]
    rfl
  · rw [lookup_withPage_high (Nat.le_add_right userPages 1), if_neg (by omega), hlookup₁,
      if_pos rfl]
    rfl
  · rw [lookup_withPage_high (Nat.le_add_right userPages 1), if_neg (by omega), hlookup₁,
      if_neg (by omega)]

/-! ### Taking an address space apart -/

open UserMemory in
/-- Unmapping the ranges of records, one after the other. -/
theorem unmapRecords {pages : Nat} {others : Multiset Nat} {m : UserMemory}
    (h : m.Sound pages others) {records : List Mapping} (hrecords : ∀ r ∈ records, r.InWindow) :
    ∃ m', records.foldlM (fun (m : UserMemory) r => return (← m.unmap r.base r.pageCount).2) m =
        .ok m' ∧ Kept pages others m m' ∧ ∀ k, m'.table.lookup (k * pageSize) =
          if ∃ r ∈ records, r.covers (k * pageSize) then none
          else m.table.lookup (k * pageSize) := by
  -- by records: what an earlier one had in common with a later one is gone already
  induction records generalizing m with
  | nil => exact ⟨m, rfl, h.kept, fun k => by simp⟩
  | cons r records ih =>
    have hr := hrecords r List.mem_cons_self
    obtain ⟨removed, m₁, hunmap, hkept, hlookup, -⟩ := h.unmap hr.le_userPages
    rw [← hr.base_eq] at hunmap
    obtain ⟨m', hrest, hkept', hlookup'⟩ :=
      ih hkept.sound fun r' hr' => hrecords r' (List.mem_cons_of_mem r hr')
    refine ⟨m', ?_, hkept.trans hkept', fun k => ?_⟩
    · rw [List.foldlM_cons]
      simp only [hunmap, bind, Except.bind]
      exact hrest
    · rw [hlookup', hlookup]
      simp only [← hr.covers_page, List.mem_cons, exists_eq_or_imp]
      split
      · next hex => rw [if_pos (.inr hex)]
      · next hex =>
        split
        · next hr => rw [if_pos (.inl hr)]
        · next hr => rw [if_neg (not_or.mpr ⟨hr, hex⟩)]

/-- Unmapping one page is the end of that page only. -/
theorem unmapPages_one_page {t : PageTable} (n k : Nat) :
    (t.unmapPages (n * pageSize) 1).2.lookup (k * pageSize) =
      if k = n then none else t.lookup (k * pageSize) := by
  have hone : (n ≤ k ∧ k < n + 1) ↔ k = n := by omega
  rw [PageTable.lookup_unmapPages_page]
  simp only [hone]

open UserMemory in
/-- Nothing stands in the way of taking an address space apart. All pages that the trap frame, the
records and the size cover are given back. -/
theorem release_eq_ok {pages : Nat} {others : Multiset Nat} {space : AddressSpace} {pool : Pool}
    (h : UserMemory.Sound pages (space.framePage ::ₘ others) ⟨space.table, pool⟩)
    {records : List Mapping} (hrecords : ∀ r ∈ records, r.InWindow) {size : Nat}
    (hsize : pagesIn size ≤ userPages) :
    ∃ pool' left, space.release pool records size = .ok pool' ∧ pool'.Spans pages ∧ pool'.Tidy ∧
      left + pool'.free = space.framePage ::ₘ UserMemory.pagesOf ⟨space.table, pool⟩ ∧
      ((∀ k < userPages, (space.table.lookup (k * pageSize)).isSome →
        k < pagesIn size ∨ ∃ r ∈ records, r.covers (k * pageSize)) → left = 0) ∧
      ∀ a ∈ others, pool'.contents (.pooled a) = pool.contents (.pooled a) := by
  -- the frame is given back first, then the two pages at the end are unmapped, which frees nothing
  obtain ⟨pool₁, hrelease, hsound, hpages, hcontents⟩ := h.release
  set t₁ := (space.table.unmapPages ((userPages + 1) * pageSize) 1).2 with ht₁
  set t₂ := (t₁.unmapPages (userPages * pageSize) 1).2 with ht₂
  have hlookup₂ (k : Nat) (hk : k < userPages) :
      t₂.lookup (k * pageSize) = space.table.lookup (k * pageSize) := by
    rw [ht₂, unmapPages_one_page, if_neg (by omega), ht₁, unmapPages_one_page, if_neg (by omega)]
  obtain ⟨removed₁, hunmap₁⟩ : ∃ l, space.table.unmap trampolineAddress 1 = .ok (l, t₁) := by
    rw [trampolineAddress_eq]
    exact ⟨_, unmap_page (by omega)⟩
  obtain ⟨removed₂, hunmap₂⟩ : ∃ l, t₁.unmap frameAddress 1 = .ok (l, t₂) := by
    rw [frameAddress_eq]
    exact ⟨_, unmap_page (by omega)⟩
  clear_value t₂ t₁
  have hpages₂ : UserMemory.pagesOf ⟨t₂, pool₁⟩ = UserMemory.pagesOf ⟨space.table, pool₁⟩ := by
    unfold pagesOf
    rw [PageTable.residents_congr hlookup₂]
  have hsound₂ : UserMemory.Sound pages others ⟨t₂, pool₁⟩ :=
    { spans := hsound.spans
      tidy := hsound.tidy
      pooled := hsound.pooled.of_lookup fun k hk => .inr (hlookup₂ k hk)
      fits := by
        rw [hpages₂]
        exact hsound.fits }
  -- then the pages of the records, then those below the size
  obtain ⟨m₃, hfold, hkept₃, hlookup₃⟩ := unmapRecords hsound₂ hrecords
  obtain ⟨m₄, hclear, hkept₄, hlookup₄⟩ := hkept₃.sound.clear hsize
  refine ⟨m₄.pool, m₄.table.residents, ?_, hkept₄.sound.spans, hkept₄.sound.tidy, ?_,
    fun hcovered => ?_, fun a ha => ?_⟩
  · unfold AddressSpace.release
    simp only [hrelease, hunmap₁, hunmap₂, bind, Except.bind] at hfold ⊢
    rw [hfold]
    simp only [hclear]
    rfl
  · calc m₄.table.residents + m₄.pool.free = m₃.pagesOf := hkept₄.pagesOf_eq
      _ = UserMemory.pagesOf ⟨space.table, pool₁⟩ := hkept₃.pagesOf_eq.trans hpages₂
      _ = _ := hpages
  -- whatever was resident was covered by the size or by a record, hence is gone
  · refine PageTable.residents_eq_zero fun k hk => ?_
    rw [hlookup₄]
    split
    · rfl
    · next hk' =>
      rw [hlookup₃]
      split
      · rfl
      · next hk'' =>
        rw [hlookup₂ k hk, ← Option.not_isSome_iff_eq_none]
        exact fun hsome => (hcovered k hk hsome).elim hk' hk''
  · obtain ⟨hpool, hnot⟩ := hsound.of_mem_others ha
    have hne : a ≠ space.framePage := fun heq => hnot (by
      rw [hpages, heq]
      exact Multiset.mem_cons_self _ _)
    calc m₄.pool.contents (.pooled a) = m₃.pool.contents (.pooled a) := hkept₄.contents_eq a ha
      _ = pool₁.contents (.pooled a) := hkept₃.contents_eq a ha
      _ = pool.contents (.pooled a) := hcontents a hpool hne

end AddressSpace

end FairKernel
