import FairKernel.Proofs.Pools

/-!
# Pools anywhere in memory

A *stocked* pool may lie anywhere in memory and have handed out any of its pages. It is enough for
handing a page out, for taking pages back and for writing one to be told by what they do to the list
of free pages and to what the pages of the pool hold.

Pages are addressed here, as the program does, so each operation needs to know that different pages
of the pool have different places in it (`Laid.place_ne`). Whatever an operation does is then one
structure: `Dispensed` and `Filled` when a page is handed out, `Restocked` and `Replenished` when
pages are taken back.
-/

namespace FairKernel

namespace Pool

/-- The pages of the pool fill its range. -/
structure Laid (pool : Pool) : Prop where
  start_mod : pool.start % pageSize = 0
  size_mul : pool.pages.size * pageSize = pool.stop - pool.start

/-- Besides, the free pages are different pages of the pool. -/
structure Stocked (pool : Pool) : Prop extends pool.Laid where
  owns_of_free : ∀ a ∈ pool.free, pool.owns a
  nodup : pool.free.Nodup

/-- A page of physical memory, as the pool has it: one of its own, or one outside of it. -/
def Has (pool : Pool) : Physical → Prop
  | .pooled a => pool.owns a
  | .outside _ => True

variable {pool pool' : Pool} {a b : Nat} {page : Page}

/-- A pool owns the pages that are aligned and in its range. -/
theorem owns_iff_le : pool.owns a ↔ a % pageSize = 0 ∧ pool.start ≤ a ∧ a < pool.stop := by
  simp [owns, and_assoc]

/-- Which pages a pool has depends on its range only. -/
theorem has_congr (hstart : pool'.start = pool.start) (hstop : pool'.stop = pool.stop)
    (physical : Physical) : pool'.Has physical ↔ pool.Has physical := by
  cases physical with
  | pooled a => rw [Has, Has, owns_congr hstart hstop]
  | outside a => exact Iff.rfl

/-! ### Writing -/

namespace Laid

/-- Every page of the pool has a place in it. -/
theorem index?_eq (hl : pool.Laid) (ha : pool.owns a) :
    pool.index? a = some ((a - pool.start) / pageSize) ∧
      (a - pool.start) / pageSize < pool.pages.size := by
  obtain ⟨hmod, hle, hlt⟩ := owns_iff_le.mp ha
  have hstart := hl.start_mod
  have hsize := hl.size_mul
  rw [index?, if_pos ⟨hle, hlt⟩]
  unfold pageSize at *
  exact ⟨rfl, by omega⟩

/-- Different pages of the pool have different places. -/
theorem place_ne (hl : pool.Laid) (ha : pool.owns a) (hb : pool.owns b) (hne : a ≠ b) :
    (a - pool.start) / pageSize ≠ (b - pool.start) / pageSize := by
  obtain ⟨hmod, hle, -⟩ := owns_iff_le.mp ha
  obtain ⟨hmod', hle', -⟩ := owns_iff_le.mp hb
  have hstart := hl.start_mod
  unfold pageSize at *
  omega

/-- What one page of memory holds after one page of the pool is written. -/
theorem contents_setContents (hl : pool.Laid) (ha : pool.owns a) (other : Physical)
    (ho : pool.Has other) (page : Page) : (pool.setContents page (.pooled a)).contents other =
      if other = .pooled a then page else pool.contents other := by
  obtain ⟨hindex, hlt⟩ := hl.index?_eq ha
  simp only [Pool.setContents, hindex]
  cases other with
  -- a page outside of the pool is not the page that was written
  | outside b =>
    have hne : Physical.outside b ≠ .pooled a := by rintro ⟨⟩
    exact (if_neg hne).symm
  -- two pages of the pool are the same page exactly if they have the same place
  | pooled b =>
    obtain ⟨hindex', -⟩ := hl.index?_eq ho
    have hindex'' : index? { pool with
        pages := pool.pages.setIfInBounds ((a - pool.start) / pageSize) page } b =
          some ((b - pool.start) / pageSize) := hindex'
    rw [contents_pooled, contents_pooled, hindex'', hindex', Option.bind_some, Option.bind_some]
    by_cases hba : b = a
    · rw [hba, if_pos rfl, Array.getElem?_setIfInBounds_self_of_lt hlt, Option.getD_some]
    · rw [if_neg (mt Physical.pooled.inj hba),
        Array.getElem?_setIfInBounds_ne (hl.place_ne ha ho (Ne.symm hba))]

end Laid

/-- Writing a page takes none out of stock. -/
theorem Stocked.setContents (hs : pool.Stocked) (page : Page) (physical : Physical) :
    (pool.setContents page physical).Stocked where
  start_mod := by rw [start_setContents, hs.start_mod]
  size_mul := by rw [size_setContents, start_setContents, stop_setContents, hs.size_mul]
  owns_of_free b hb := by
    rw [free_setContents] at hb
    rw [owns_congr (start_setContents ..) (stop_setContents ..), hs.owns_of_free b hb]
  nodup := by rw [free_setContents]; exact hs.nodup

/-! ### Handing out -/

/-- The first free page is taken off the list and filled afresh. -/
structure Dispensed (pool : Pool) (a : Nat) (pool' : Pool) : Prop where
  stocked : pool'.Stocked
  start_eq : pool'.start = pool.start
  stop_eq : pool'.stop = pool.stop
  owns : pool.owns a
  free_eq : pool.free = a :: pool'.free
  contents_eq : ∀ other, pool.Has other →
    pool'.contents other = if other = .pooled a then freshPage else pool.contents other

/-- Handing out takes the first free page. -/
theorem Stocked.of_alloc (hs : pool.Stocked) (h : pool.alloc = some (a, pool')) :
    Dispensed pool a pool' := by
  have hfree := free_eq_of_alloc h
  have hnodup : (a :: pool'.free).Nodup := hfree ▸ hs.nodup
  have howns : pool.owns a := hs.owns_of_free a (hfree ▸ List.mem_cons_self)
  have hkept : ∀ b ∈ pool'.free, pool.owns b := fun b hb =>
    hs.owns_of_free b (hfree ▸ List.mem_cons_of_mem a hb)
  unfold Pool.alloc at h
  split at h
  -- the list is empty, so nothing is handed out
  · cases h
  -- the page is taken off the list, and what is left is a stock to write it in
  · next c free heq =>
    simp only [Option.some.injEq, Prod.mk.injEq] at h
    obtain ⟨rfl, rfl⟩ := h
    rw [free_setContents] at hkept hnodup
    have hs' : Stocked { pool with free, trail := .handedOut c :: pool.trail } :=
      ⟨⟨hs.start_mod, hs.size_mul⟩, hkept, (List.nodup_cons.mp hnodup).2⟩
    exact ⟨hs'.setContents .., start_setContents .., stop_setContents .., howns, hfree,
      fun other ho => hs'.contents_setContents howns other ho freshPage⟩

/-- A page was handed out and holds `page` now. -/
structure Filled (pool : Pool) (a : Nat) (page : Page) (pool' : Pool) : Prop where
  stocked : pool'.Stocked
  start_eq : pool'.start = pool.start
  stop_eq : pool'.stop = pool.stop
  owns : pool'.owns a
  free_eq : pool.free = a :: pool'.free
  not_mem : a ∉ pool'.free
  page_eq : pool'.contents (.pooled a) = page
  contents_eq : ∀ other, pool.Has other → other ≠ .pooled a →
    pool'.contents other = pool.contents other

/-- The page that was handed out can be written like any other. -/
theorem Stocked.filled (hs : pool.Stocked) (h : pool.alloc = some (a, pool')) (page : Page) :
    Filled pool a page (pool'.setContents page (.pooled a)) := by
  have hd := hs.of_alloc h
  have hnodup : (a :: pool'.free).Nodup := hd.free_eq ▸ hs.nodup
  have howns : pool'.owns a := (owns_congr hd.start_eq hd.stop_eq a).trans hd.owns
  have hfree : (pool'.setContents page (.pooled a)).free = pool'.free := free_setContents ..
  have hstart := start_setContents pool' page (.pooled a)
  have hstop := stop_setContents pool' page (.pooled a)
  exact {
    stocked := hd.stocked.setContents ..
    start_eq := hstart.trans hd.start_eq
    stop_eq := hstop.trans hd.stop_eq
    owns := (owns_congr hstart hstop a).trans howns
    free_eq := by rw [hfree, hd.free_eq]
    not_mem := by
      rw [hfree]
      exact (List.nodup_cons.mp hnodup).1
    page_eq := by rw [hd.stocked.contents_setContents howns (.pooled a) howns, if_pos rfl]
    contents_eq := fun other hhas hne => by
      have hhas' := (has_congr hd.start_eq hd.stop_eq other).mpr hhas
      rw [hd.stocked.contents_setContents howns other hhas', if_neg hne, hd.contents_eq other hhas,
        if_neg hne] }

/-! ### Taking back -/

/-- What a page holds once it is taken back while `head` is the first free page. -/
def linkedPage (head : Option Nat) : Page := idlePage.write 0 (wordBytes (head.getD 0))

/-- A page of the pool becomes the first free page and holds the address of the one before. -/
structure Restocked (pool : Pool) (a : Nat) (pool' : Pool) : Prop where
  laid : pool'.Laid
  start_eq : pool'.start = pool.start
  stop_eq : pool'.stop = pool.stop
  owns : pool.owns a
  free_eq : pool'.free = a :: pool.free
  contents_eq : ∀ other, pool.Has other → pool'.contents other =
    if other = .pooled a then linkedPage pool.free.head? else pool.contents other

/-- Taking a page back puts it first. -/
theorem Laid.of_release (hl : pool.Laid) (h : pool.release a = .ok pool') :
    Restocked pool a pool' := by
  obtain ⟨howns, hstart, hstop, hfree, -⟩ := Pool.of_release h
  obtain ⟨page, hpages⟩ := pages_of_release h
  have hsize : pool'.pages.size = pool.pages.size := by rw [hpages, size_setContents]
  refine ⟨⟨?_, ?_⟩, hstart, hstop, howns, hfree, fun other ho => ?_⟩
  · rw [hstart, hl.start_mod]
  · rw [hsize, hstart, hstop, hl.size_mul]
  · unfold release at h
    rw [if_pos howns] at h
    cases h
    exact hl.contents_setContents howns other ho _

/-- A page that is not free can be taken back. -/
theorem Restocked.stocked (h : Restocked pool a pool') (hs : pool.Stocked) (ha : a ∉ pool.free) :
    pool'.Stocked where
  toLaid := h.laid
  owns_of_free b hb := by
    rw [owns_congr h.start_eq h.stop_eq]
    rw [h.free_eq] at hb
    obtain rfl | hmem := List.mem_cons.mp hb
    · exact h.owns
    · exact hs.owns_of_free b hmem
  nodup := by rw [h.free_eq]; exact List.nodup_cons.mpr ⟨ha, hs.nodup⟩

/-- Pages of the pool, one after the other, become free pages, and all other pages keep what they
hold. -/
structure Replenished (pool : Pool) (addresses : List Nat) (pool' : Pool) : Prop where
  laid : pool'.Laid
  start_eq : pool'.start = pool.start
  stop_eq : pool'.stop = pool.stop
  owns : ∀ a ∈ addresses, pool.owns a
  free_eq : pool'.free = addresses.reverse ++ pool.free
  contents_eq : ∀ other, pool.Has other → (∀ a ∈ addresses, other ≠ .pooled a) →
    pool'.contents other = pool.contents other

/-- Taking pages back puts them first, one after the other. -/
theorem Laid.of_reclaimAll (hl : pool.Laid) {addresses : List Nat}
    (h : pool.reclaimAll (addresses.map .pooled) = .ok pool') :
    Replenished pool addresses pool' := by
  -- by addresses: whatever is given back later comes before what was given back earlier
  induction addresses generalizing pool with
  | nil =>
    cases h
    exact ⟨hl, rfl, rfl, nofun, rfl, fun _ _ _ => rfl⟩
  | cons a addresses ih =>
    rw [reclaimAll_cons] at h
    obtain ⟨pool₁, hrelease, hrest⟩ := bind_eq_ok.mp h
    have hr := hl.of_release hrelease
    have hrest := ih hr.laid hrest
    refine ⟨hrest.laid, hrest.start_eq.trans hr.start_eq, hrest.stop_eq.trans hr.stop_eq,
      -- the pages that were given back, the list that they are in, and what all other pages hold
      fun b hb => ?_, ?_, fun other ho hother => ?_⟩
    · obtain rfl | hmem := List.mem_cons.mp hb
      · exact hr.owns
      · rw [← owns_congr hr.start_eq hr.stop_eq]
        exact hrest.owns b hmem
    · rw [hrest.free_eq, hr.free_eq, List.reverse_cons, List.append_assoc, List.singleton_append]
    · rw [hrest.contents_eq other ((has_congr hr.start_eq hr.stop_eq other).mpr ho)
        fun b hb => hother b (List.mem_cons_of_mem a hb), hr.contents_eq other ho,
        if_neg (hother a List.mem_cons_self)]

/-- Only pages of the pool can be taken back. -/
theorem exists_map_of_reclaimAll {removed : List Physical}
    (h : pool.reclaimAll removed = .ok pool') :
    ∃ addresses : List Nat, removed = addresses.map .pooled := by
  induction removed generalizing pool with
  | nil => exact ⟨[], rfl⟩
  | cons physical removed ih =>
    obtain ⟨pool₁, hreclaim, hrest⟩ := bind_eq_ok.mp h
    obtain ⟨addresses, rfl⟩ := ih hrest
    cases physical with
    | pooled a => exact ⟨a :: addresses, rfl⟩
    | outside a => cases hreclaim

/-- Pages of the pool can be taken back together. -/
theorem exists_reclaimAll {removed : List Physical}
    (howns : ∀ physical ∈ removed, ∃ a, physical = .pooled a ∧ pool.owns a) :
    ∃ pool', pool.reclaimAll removed = .ok pool' := by
  induction removed generalizing pool with
  | nil => exact ⟨pool, rfl⟩
  | cons physical removed ih =>
    obtain ⟨a, rfl, ha⟩ := howns physical List.mem_cons_self
    obtain ⟨pool₁, hrelease⟩ := release_of_owns ha
    obtain ⟨-, hstart, hstop, -⟩ := Pool.of_release hrelease
    -- the pool has the range of before, so it owns the other pages still
    obtain ⟨pool', hrest⟩ := @ih pool₁ fun other hother => by
      obtain ⟨b, rfl, hb⟩ := howns other (List.mem_cons_of_mem _ hother)
      exact ⟨b, rfl, (owns_congr hstart hstop b).trans hb⟩
    refine ⟨pool', ?_⟩
    change (pool.release a >>= fun pool => pool.reclaimAll removed) = _
    rw [hrelease]
    exact hrest

/-! ### Creation -/

/-- A pool that was just made is stocked. -/
theorem stocked_of_ofPages {pages : Nat} (h : ofPages pages = .ok pool) : pool.Stocked := by
  obtain ⟨hspans, -, hfree⟩ := of_ofPages h
  have hstart := hspans.start_eq
  have hstop := hspans.stop_eq
  refine ⟨⟨?_, ?_⟩, fun a ha => (owns_iff hspans).mpr ?_, ?_⟩
  · rw [hstart]
    decide
  · rw [hspans.size_eq, hstop, hstart, Nat.add_sub_cancel_left]
  · exact Finset.mem_def.mpr (hfree ▸ Multiset.mem_coe.mpr ha)
  · exact Multiset.coe_nodup.mp (hfree ▸ (poolPages pages).nodup)

end Pool

end FairKernel
