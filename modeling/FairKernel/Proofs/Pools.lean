import Mathlib.Data.Finset.Image
import Mathlib.Data.Finset.Card
import Mathlib.Data.Finset.Range
import Mathlib.Data.Multiset.AddSub
import Mathlib.Tactic.Set
import FairKernel.Memory.Pool
import FairKernel.Proofs.PageTables

/-!
# The page pool keeps account

A pool spans a fixed range of pages. Handing a page out and taking one back move one page between
its list of free pages and the outside, and the trail of a pool tells at every moment which pages
are free. A pool is *tidy* if it never took back a page that was free already.

The trail is a history that only grows: each page that is handed out or taken back leaves an event.
What is free is determined by it (`freeAfter`), and so is what a tidy pool means. `Spans` and `Tidy`
are kept by every operation, as long as no page is released that is free (`Tidy.release`); that
nobody releases such a page is what the account of all pages shows later.

Pages are named by their addresses. What a page holds is looked up by the address
(`contents_setContents`), and neither handing out nor taking back changes what the other pages hold
(`contents_of_alloc`, `contents_of_release`).
-/

namespace FairKernel

/-- The addresses of the pages of a pool of so many pages. -/
def poolPages (pages : Nat) : Finset Nat :=
  (Finset.range pages).image fun i => poolBase + i * pageSize

/-- The pages of a pool start at page boundaries within its range. -/
theorem mem_poolPages {pages address : Nat} : address ∈ poolPages pages ↔
    address % pageSize = 0 ∧ poolBase ≤ address ∧ address < poolBase + pages * pageSize := by
  simp only [poolPages, Finset.mem_image, Finset.mem_range]
  unfold poolBase pageSize
  refine ⟨fun ⟨i, hi, he⟩ => by omega, fun h => ⟨(address - 4096) / 4096, by omega, by omega⟩⟩

/-- Different pages of a pool have different addresses. -/
theorem pageAddress_injective : Function.Injective fun i : Nat => poolBase + i * pageSize := by
  intro i j h
  simp only [pageSize] at h
  omega

/-- A pool of so many pages has so many. -/
theorem card_poolPages (pages : Nat) : (poolPages pages).card = pages := by
  rw [poolPages, Finset.card_image_of_injective _ pageAddress_injective, Finset.card_range]

/-- The pages of a pool, in the order of their addresses. -/
theorem val_poolPages (pages : Nat) : (poolPages pages).val =
    ((List.range pages).map fun i => poolBase + i * pageSize : List Nat) := by
  rw [poolPages, Finset.image_val_of_injOn pageAddress_injective.injOn]
  rfl

/-- The pages that are free after what happened to them, newest first. -/
def freeAfter : List PageEvent → List Nat
  | [] => []
  | .handedOut address :: past => (freeAfter past).erase address
  | .takenBack address :: past => address :: freeAfter past

namespace Pool

variable {pool pool' : Pool} {pages address : Nat}

/-- The pool has these pages. -/
structure Spans (pages : Nat) (pool : Pool) : Prop where
  start_eq : pool.start = poolBase
  stop_eq : pool.stop = poolBase + pages * pageSize
  size_eq : pool.pages.size = pages

/-- The trail accounts for the free pages, and only pages of the pool that were not free were ever
taken back. -/
structure Tidy (pool : Pool) : Prop where
  free_eq : pool.free = freeAfter pool.trail
  orderly : ∀ later address earlier, pool.trail = later ++ .takenBack address :: earlier →
    pool.owns address ∧ address ∉ freeAfter earlier

/-- A pool owns the pages that it spans. -/
theorem owns_iff (h : pool.Spans pages) : pool.owns address ↔ address ∈ poolPages pages := by
  rw [mem_poolPages, owns, h.start_eq, h.stop_eq]
  simp [and_assoc]

/-- Which pages a pool owns depends on its range only. -/
theorem owns_congr (hstart : pool'.start = pool.start) (hstop : pool'.stop = pool.stop)
    (address : Nat) : pool'.owns address = pool.owns address := by
  unfold owns
  rw [hstart, hstop]

/-! ### Contents -/

section Contents

variable (pool) (page : Page) (physical : Physical)

/-- Writing a page frees none and takes none. -/
@[simp]
theorem free_setContents : (pool.setContents page physical).free = pool.free := by
  unfold setContents
  split
  · split <;> rfl
  · rfl

/-- Writing a page does not move the start of the pool. -/
@[simp]
theorem start_setContents : (pool.setContents page physical).start = pool.start := by
  unfold setContents
  split
  · split <;> rfl
  · rfl

/-- Writing a page does not move the end of the pool. -/
@[simp]
theorem stop_setContents : (pool.setContents page physical).stop = pool.stop := by
  unfold setContents
  split
  · split <;> rfl
  · rfl

/-- Writing a page adds none. -/
@[simp]
theorem size_setContents : (pool.setContents page physical).pages.size = pool.pages.size := by
  unfold setContents
  split
  · split
    · rfl
    · exact Array.size_setIfInBounds ..
  · rfl

/-- Writing a page is no event. -/
@[simp]
theorem trail_setContents : (pool.setContents page physical).trail = pool.trail := by
  unfold setContents
  split
  · split <;> rfl
  · rfl

/-- Writing a page changes nothing but what pages hold. -/
theorem exists_setContents_eq : ∃ held rest,
    pool.setContents page physical = { pool with pages := held, rest } := by
  unfold setContents
  split
  · split
    · exact ⟨_, _, rfl⟩
    · exact ⟨_, _, rfl⟩
  · exact ⟨_, _, rfl⟩

/-- A pool spans the same pages after one of them is written. -/
theorem Spans.setContents {pool : Pool} (h : pool.Spans pages) :
    (pool.setContents page physical).Spans pages :=
  ⟨(start_setContents ..).trans h.start_eq, (stop_setContents ..).trans h.stop_eq,
    (size_setContents ..).trans h.size_eq⟩

/-- A pool stays tidy when one of its pages is written. -/
theorem Tidy.setContents {pool : Pool} (h : pool.Tidy) :
    (pool.setContents page physical).Tidy where
  free_eq := by rw [free_setContents, trail_setContents, h.free_eq]
  orderly later address earlier heq := by
    rw [trail_setContents] at heq
    rw [owns_congr (start_setContents ..) (stop_setContents ..)]
    exact h.orderly later address earlier heq

/-- A page of the pool has a place in it. -/
theorem index?_of_mem {pool : Pool} (hs : pool.Spans pages) {a : Nat} (ha : a ∈ poolPages pages) :
    pool.index? a = some ((a - poolBase) / pageSize) := by
  obtain ⟨-, hle, hlt⟩ := mem_poolPages.mp ha
  have hrange : pool.start ≤ a ∧ a < pool.stop := by
    rw [hs.start_eq, hs.stop_eq]
    exact ⟨hle, hlt⟩
  rw [index?, if_pos hrange, hs.start_eq]

/-- What a page of the pool holds, by its place. -/
theorem contents_pooled (pool : Pool) (a : Nat) : pool.contents (.pooled a) =
    ((pool.index? a).bind fun i => pool.pages[i]?).getD Page.zero := rfl

/-- What a page that the pool spans holds, by its place. -/
theorem contents_of_mem {pool : Pool} (hs : pool.Spans pages) {a : Nat} (ha : a ∈ poolPages pages) :
    pool.contents (.pooled a) = (pool.pages[(a - poolBase) / pageSize]?).getD Page.zero := by
  rw [contents_pooled, index?_of_mem hs ha, Option.bind_some]

/-- Writing a page of the pool writes to its place. -/
theorem pages_setContents {pool : Pool} (hs : pool.Spans pages) {a : Nat} (ha : a ∈ poolPages pages)
    (page : Page) : (pool.setContents page (.pooled a)).pages =
      pool.pages.setIfInBounds ((a - poolBase) / pageSize) page := by
  simp only [setContents, index?_of_mem hs ha]

/-- Writing one page leaves every other page as it is. -/
theorem contents_setContents_of_ne {pool : Pool} (hs : pool.Spans pages) {a b : Nat}
    (ha : a ∈ poolPages pages) (hb : b ∈ poolPages pages) (hne : a ≠ b) (page : Page) :
    (pool.setContents page (.pooled a)).contents (.pooled b) = pool.contents (.pooled b) := by
  have hdiff : (a - poolBase) / pageSize ≠ (b - poolBase) / pageSize := by
    have hpa := mem_poolPages.mp ha
    have hpb := mem_poolPages.mp hb
    unfold poolBase pageSize at *
    omega
  rw [contents_of_mem (hs.setContents ..) hb, contents_of_mem hs hb, pages_setContents hs ha,
    Array.getElem?_setIfInBounds_ne hdiff]

/-- A page that is written holds what was written. -/
theorem contents_setContents_self {pool : Pool} (hs : pool.Spans pages) {a : Nat}
    (ha : a ∈ poolPages pages) (page : Page) :
    (pool.setContents page (.pooled a)).contents (.pooled a) = page := by
  have hlt : (a - poolBase) / pageSize < pool.pages.size := by
    have hpa := mem_poolPages.mp ha
    rw [hs.size_eq]
    unfold poolBase pageSize at *
    omega
  rw [contents_of_mem (hs.setContents ..) ha, pages_setContents hs ha,
    Array.getElem?_setIfInBounds_self_of_lt hlt, Option.getD_some]

/-- A page of physical memory: one of the pool, or one outside of it. -/
def IsPage (pages : Nat) : Physical → Prop
  | .pooled a => a ∈ poolPages pages
  | .outside _ => True

/-- What one page of physical memory holds after one of them is written. -/
theorem contents_setContents {pool : Pool} (hs : pool.Spans pages) {target other : Physical}
    (ht : IsPage pages target) (ho : IsPage pages other) (page : Page) :
    (pool.setContents page target).contents other =
      if other = target then page else pool.contents other := by
  cases target with
  | pooled a =>
    cases other with
    | pooled b =>
      by_cases hab : b = a
      · rw [hab, if_pos rfl, contents_setContents_self hs ht]
      · rw [if_neg (mt Physical.pooled.inj hab), contents_setContents_of_ne hs ht ho (Ne.symm hab)]
    | outside b =>
      rw [if_neg nofun]
      unfold setContents
      dsimp only
      split <;> rfl
  | outside a =>
    cases other with
    | pooled b => exact (if_neg nofun).symm
    | outside b =>
      by_cases hab : b = a
      · rw [hab, if_pos rfl]
        exact if_pos rfl
      · rw [if_neg (mt Physical.outside.inj hab)]
        exact if_neg hab

end Contents

/-! ### Handing out and taking back -/

/-- No page can be handed out exactly if none is free. -/
theorem alloc_eq_none_iff : pool.alloc = none ↔ pool.free = [] := by
  unfold alloc
  split
  · next h => simp [h]
  · next h => simp [h]

/-- Handing out a page takes it off the list of free pages. -/
theorem free_eq_of_alloc (h : pool.alloc = some (address, pool')) :
    pool.free = address :: pool'.free := by
  unfold alloc at h
  split at h
  · cases h
  · next hfree =>
    simp only [Option.some.injEq, Prod.mk.injEq] at h
    obtain ⟨rfl, rfl⟩ := h
    rw [hfree, free_setContents]

/-- A pool spans the same pages after one of them is handed out. -/
theorem Spans.alloc (hs : pool.Spans pages) (h : pool.alloc = some (address, pool')) :
    pool'.Spans pages := by
  unfold Pool.alloc at h
  split at h
  · cases h
  · simp only [Option.some.injEq, Prod.mk.injEq] at h
    obtain ⟨rfl, rfl⟩ := h
    exact Spans.setContents _ _ ⟨hs.start_eq, hs.stop_eq, hs.size_eq⟩

/-- A pool stays tidy when it hands a page out. -/
theorem Tidy.alloc (ht : pool.Tidy) (h : pool.alloc = some (address, pool')) : pool'.Tidy := by
  unfold Pool.alloc at h
  split at h
  · cases h
  · next free hfree =>
    simp only [Option.some.injEq, Prod.mk.injEq] at h
    obtain ⟨rfl, rfl⟩ := h
    refine Tidy.setContents _ _ ⟨?_, fun later a earlier heq => ?_⟩
    · change free = (freeAfter pool.trail).erase _
      rw [← ht.free_eq, hfree, List.erase_cons_head]
    · cases later with
      | nil => cases heq
      | cons e later => exact ht.orderly later a earlier (List.cons.inj heq).2

/-- A page of the pool can be given back. -/
theorem release_of_owns (h : pool.owns address) : ∃ pool', pool.release address = .ok pool' := by
  unfold release
  rw [if_pos h]
  exact ⟨_, rfl⟩

/-- Taking back a page puts it on the list of free pages. -/
theorem of_release (h : pool.release address = .ok pool') : pool.owns address ∧
    pool'.start = pool.start ∧ pool'.stop = pool.stop ∧ pool'.free = address :: pool.free ∧
    pool'.trail = .takenBack address :: pool.trail := by
  unfold release at h
  split at h
  · next howns =>
    cases h
    exact ⟨howns, start_setContents .., stop_setContents ..,
      congrArg (address :: ·) (free_setContents ..), congrArg (_ :: ·) (trail_setContents ..)⟩
  · cases h

/-- The contents of the pages after one of them is taken back. -/
theorem pages_of_release (h : pool.release address = .ok pool') :
    ∃ page, pool'.pages = (pool.setContents page (.pooled address)).pages := by
  unfold release at h
  split at h
  · cases h
    exact ⟨_, rfl⟩
  · cases h

/-- A pool spans the same pages after one of them is taken back. -/
theorem Spans.release (hs : pool.Spans pages) (h : pool.release address = .ok pool') :
    pool'.Spans pages := by
  obtain ⟨-, hstart, hstop, -⟩ := of_release h
  obtain ⟨page, hpages⟩ := pages_of_release h
  refine ⟨hstart.trans hs.start_eq, hstop.trans hs.stop_eq, ?_⟩
  rw [hpages, size_setContents, hs.size_eq]

/-- Handing out a page leaves the contents of every other page alone. -/
theorem contents_of_alloc (hs : pool.Spans pages) (h : pool.alloc = some (address, pool'))
    (ha : address ∈ poolPages pages) {b : Nat} (hb : b ∈ poolPages pages) (hne : address ≠ b) :
    pool'.contents (.pooled b) = pool.contents (.pooled b) := by
  unfold Pool.alloc at h
  split at h
  · cases h
  · next page free _ =>
    simp only [Option.some.injEq, Prod.mk.injEq] at h
    obtain ⟨rfl, rfl⟩ := h
    have hspans : Spans pages { pool with free, trail := .handedOut page :: pool.trail } :=
      ⟨hs.start_eq, hs.stop_eq, hs.size_eq⟩
    exact contents_setContents_of_ne hspans ha hb hne freshPage

/-- Taking a page back leaves the contents of every other page alone. -/
theorem contents_of_release (hs : pool.Spans pages) (h : pool.release address = .ok pool')
    {b : Nat} (hb : b ∈ poolPages pages) (hne : address ≠ b) :
    pool'.contents (.pooled b) = pool.contents (.pooled b) := by
  have ha : address ∈ poolPages pages := (owns_iff hs).mp (of_release h).1
  obtain ⟨page, hpages⟩ := pages_of_release h
  rw [← contents_setContents_of_ne hs ha hb hne page, contents_of_mem (hs.release h) hb,
    contents_of_mem (hs.setContents ..) hb, hpages]

/-- A pool stays tidy when it takes a page back that was not free. -/
theorem Tidy.release (ht : pool.Tidy) (hfree : address ∉ pool.free)
    (h : pool.release address = .ok pool') : pool'.Tidy := by
  obtain ⟨howns, hstart, hstop, hfree', htrail⟩ := of_release h
  refine ⟨?_, fun later a earlier heq => ?_⟩
  · rw [hfree', htrail, freeAfter, ht.free_eq]
  · rw [owns_congr hstart hstop]
    rw [htrail] at heq
    cases later with
    | nil =>
      cases heq
      exact ⟨howns, ht.free_eq ▸ hfree⟩
    | cons e later => exact ht.orderly later a earlier (List.cons.inj heq).2

/-- Pages are given back one after the other. -/
theorem reclaimAll_cons (pool : Pool) (address : Nat) (addresses : List Nat) :
    pool.reclaimAll ((address :: addresses).map .pooled) =
      (pool.release address >>= fun pool => pool.reclaimAll (addresses.map .pooled)) := rfl

/-- Pages of the pool, none of which is free, can be given back together. -/
theorem reclaimAll_of_owns {addresses : List Nat} (hs : pool.Spans pages) (ht : pool.Tidy)
    (howns : ∀ a ∈ addresses, a ∈ poolPages pages)
    (hnodup : ((addresses : Multiset Nat) + pool.free).Nodup) :
    ∃ pool', pool.reclaimAll (addresses.map .pooled) = .ok pool' ∧ pool'.Spans pages ∧
      pool'.Tidy ∧ (pool'.free : Multiset Nat) = addresses + pool.free ∧
      ∀ b ∈ poolPages pages, b ∉ addresses →
        pool'.contents (.pooled b) = pool.contents (.pooled b) := by
  -- by addresses: the one given back is free then, and the rest are still not
  induction addresses generalizing pool with
  | nil => exact ⟨pool, rfl, hs, ht, (Multiset.zero_add _).symm, fun _ _ _ => rfl⟩
  | cons a addresses ih =>
    obtain ⟨pool₁, hrelease⟩ :=
      release_of_owns ((owns_iff hs).mpr (howns a List.mem_cons_self))
    have hfree := (of_release hrelease).2.2.2.1
    have hcons : ((a :: addresses : List Nat) : Multiset Nat) + pool.free =
        addresses + pool₁.free := by
      rw [hfree, ← Multiset.cons_coe, ← Multiset.cons_coe, Multiset.cons_add, Multiset.add_cons]
    have ha : a ∉ pool.free := fun hmem => by
      rw [← Multiset.cons_coe, Multiset.cons_add] at hnodup
      exact (Multiset.nodup_cons.mp hnodup).1 (Multiset.mem_add.mpr (.inr hmem))
    obtain ⟨pool', hreclaim, hs', ht', hfree', hcontents⟩ := ih (hs.release hrelease)
      (ht.release ha hrelease) (fun b hb => howns b (List.mem_cons_of_mem a hb)) (hcons ▸ hnodup)
    refine ⟨pool', ?_, hs', ht', hfree'.trans hcons.symm, fun b hb hnot => ?_⟩
    · rw [reclaimAll_cons, hrelease]
      exact hreclaim
    · obtain ⟨hne, hnot'⟩ := not_or.mp (mt List.mem_cons.mpr hnot)
      rw [hcontents b hb hnot', contents_of_release hs hrelease hb (Ne.symm hne)]

/-! ### Creation -/

/-- A pool over a range of pages takes them in one by one, and their contents are zero. -/
theorem ofRange_eq {first last count : Nat} (hfirst : pageUp first = .ok first)
    (hlast : pageDown last = last) (hcount : (last - first) / pageSize = count) :
    ofRange first last = Pool.reclaimAll
      { start := first, stop := last, pages := Array.replicate count Page.zero, free := [] }
      (((List.range count).map fun i => first + i * pageSize).map .pooled) := by
  unfold ofRange
  rw [hfirst, List.map_map, ← hcount]
  simp only [bind, Except.bind, hlast]
  rfl

/-- A new pool takes all of its pages in. -/
theorem ofPages_eq (pages : Nat) : ofPages pages =
    Pool.reclaimAll
      { start := poolBase, stop := poolBase + pages * pageSize,
        pages := Array.replicate pages Page.zero, free := [] }
      (((List.range pages).map fun i => poolBase + i * pageSize).map .pooled) := by
  refine ofRange_eq (by decide) (pageDown_of_aligned (Nat.add_mul_mod_self_right ..)) ?_
  rw [Nat.add_sub_cancel_left, Nat.mul_div_cancel _ (by decide)]

/-- At first all pages are free. -/
theorem of_ofPages (h : ofPages pages = .ok pool) :
    pool.Spans pages ∧ pool.Tidy ∧ (pool.free : Multiset Nat) = (poolPages pages).val := by
  rw [ofPages_eq] at h
  set empty : Pool :=
    { start := poolBase, stop := poolBase + pages * pageSize,
      pages := Array.replicate pages Page.zero, free := [] } with hempty
  set addresses := (List.range pages).map fun i => poolBase + i * pageSize
  have hval : (addresses : Multiset Nat) = (poolPages pages).val := (val_poolPages pages).symm
  have hmem : ∀ a ∈ addresses, a ∈ poolPages pages := fun a ha =>
    Finset.mem_def.mpr (hval ▸ Multiset.mem_coe.mpr ha)
  have hnodup : ((addresses : Multiset Nat) + empty.free).Nodup := by
    rw [hval]
    exact (Multiset.add_zero _).symm ▸ (poolPages pages).nodup
  obtain ⟨pool', hreclaim, hs, ht, hfree, -⟩ := reclaimAll_of_owns
    (show empty.Spans pages from ⟨rfl, rfl, Array.size_replicate⟩)
    ⟨rfl, fun later a earlier heq => absurd heq (by simp [hempty])⟩ hmem hnodup
  rw [hreclaim] at h
  cases h
  exact ⟨hs, ht, hfree.trans ((Multiset.add_zero _).trans hval)⟩

end Pool

end FairKernel
