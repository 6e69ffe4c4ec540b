import Mathlib.Data.Finset.Sort
import FairKernel.Proofs.StockedPools
import FairKernel.Proofs.UserBytes

/-!
# The free list lives in the free pages

Who holds a page may write anything into it, and the list of free pages runs through the pages
themselves. An allocator is followed from its creation through any calls whose callers give back
only what they hold: it hands out the page that was given back last, it runs dry exactly when all
pages are held, following the links in memory counts the free pages, and nobody's page is touched
but the one that is given back.

Two things are kept by every call. The free pages are linked in memory in the order of the list
(`Threaded`), since only pages that are held are written by others; and the list is a stack of the
pages that were taken back (`Stacked`). Together with which pages are held they make up `InUse`,
from which all answers follow (`InUse.supply`).
-/

namespace FairKernel

/-! ### Words in memory -/

/-- The number that bytes make up, lowest first. -/
def wordOf (bytes : Bytes) : Nat := bytes.foldr (fun byte n => byte.toNat + 256 * n) 0

/-- A word is read back from its bytes. -/
theorem wordOf_wordBytes {n : Nat} (h : n < wordLimit) : wordOf (wordBytes n) = n := by
  simp [wordOf, wordBytes, List.range_succ, Nat.shiftRight_eq_div_pow]
  unfold wordLimit at h
  omega

/-- A word has eight bytes. -/
theorem length_wordBytes (n : Nat) : (wordBytes n).length = 8 := by
  rw [wordBytes, List.length_map, List.length_range]

/-- What was written to a page is read back from it. -/
theorem Page.read_write (page : Page) {offset : Nat} {bytes : Bytes}
    (h : offset + bytes.length ≤ pageSize) :
    (page.write offset bytes).read offset bytes.length = bytes := by
  refine List.ext_getElem ?_ fun i hi hi' => ?_
  · simp only [read, Array.length_toList, Array.size_extract, Vector.size_toArray]
    omega
  · simp only [read, Array.getElem_toList, Array.getElem_extract, Vector.getElem_toArray]
    rw [getElem_write page offset bytes (by omega), dif_pos (by omega)]
    simp only [Nat.add_sub_cancel_left]

/-! ### Histories -/

/-- The pages that lie wholly between two addresses. -/
def wholePages (first last : Nat) : Finset Nat :=
  (Finset.range last).filter fun a => a % pageSize = 0 ∧ first ≤ a ∧ a + pageSize ≤ last

/-- The pages that are handed out and not given back yet. -/
def outstanding : List PageEvent → Finset Nat
  | [] => ∅
  | .handedOut a :: past => insert a (outstanding past)
  | .takenBack a :: past => (outstanding past).erase a

/-- At its creation an allocator takes its pages in, in ascending order. -/
def intake (first last : Nat) : List PageEvent :=
  ((wholePages first last).sort.map .takenBack).reverse

/-- Of the free pages, `a` is the one that was taken back last: it was not handed out since, and
whatever was taken back later was handed out again. -/
def LastFreed (past : List PageEvent) (a : Nat) : Prop :=
  ∃ later earlier, past = later ++ .takenBack a :: earlier ∧ .handedOut a ∉ later ∧
    ∀ newer b older, later = newer ++ .takenBack b :: older → .handedOut b ∈ newer

namespace Pool

/-- The pools that come of one allocator, with what happened to its pages, latest first. Only pages
that are outstanding are given back, and these may be written. -/
inductive Use (first last : Nat) : List PageEvent → Pool → Prop
  | made {pool} : ofRange first last = .ok pool → Use first last (intake first last) pool
  | alloc {past pool a pool'} : Use first last past pool → pool.alloc = some (a, pool') →
      Use first last (.handedOut a :: past) pool'
  | release {past pool a pool'} : Use first last past pool → a ∈ outstanding past →
      pool.release a = .ok pool' → Use first last (.takenBack a :: past) pool'
  | write {past pool a} (page : Page) : Use first last past pool → a ∈ outstanding past →
      Use first last past (pool.setContents page (.pooled a))

/-! ### Links -/

variable {pool pool' : Pool} {a b : Nat} {free addresses above below : List Nat}
  {past : List PageEvent}

/-- The address of the first free page, 0 if there is none. -/
def head (pool : Pool) : Nat := pool.free.head?.getD 0

/-- The address that the first bytes of a page make up. -/
def link (pool : Pool) (a : Nat) : Nat := wordOf ((pool.contents (.pooled a)).read 0 8)

/-- Counting a chain of pages from an address on, with `seen` pages counted before: as long as the
address is not 0, the next one is read from the page. -/
inductive Counts (pool : Pool) : Nat → Nat → Nat → Prop
  | done {seen} : Counts pool 0 seen seen
  | next {a seen total} : a ≠ 0 → Counts pool (pool.link a) (seen + 1) total →
      Counts pool a seen total

/-- Each page of the list holds the address of the next one, and the last one holds 0. -/
def Linked (pool : Pool) : List Nat → Prop
  | [] => True
  | a :: free => pool.link a = free.head?.getD 0 ∧ Linked pool free

/-- The link of a page is in the page. -/
theorem link_congr (h : pool'.contents (.pooled a) = pool.contents (.pooled a)) :
    pool'.link a = pool.link a := by
  rw [link, link, h]

/-- Pages that are not written stay linked. -/
theorem Linked.congr (h : pool.Linked free)
    (hsame : ∀ a ∈ free, pool'.contents (.pooled a) = pool.contents (.pooled a)) :
    pool'.Linked free := by
  induction free with
  | nil => trivial
  | cons a free ih =>
    refine ⟨(link_congr (hsame a List.mem_cons_self)).trans h.1, ?_⟩
    exact ih h.2 fun b hb => hsame b (List.mem_cons_of_mem a hb)

/-- Counting a linked list ends with its length. -/
theorem Linked.counts_iff (h : pool.Linked free) (hpos : ∀ a ∈ free, a ≠ 0) {seen total : Nat} :
    Counts pool (free.head?.getD 0) seen total ↔ total = seen + free.length := by
  -- by the list: a count goes on as long as the link is not 0, which is the end of the list
  induction free generalizing seen with
  | nil =>
    constructor
    · intro hcounts
      cases hcounts with
      | done => rfl
      | next hne => exact absurd rfl hne
    · rintro rfl
      exact .done
  | cons a free ih =>
    -- the chain begins at a page, which is not address 0, so there is one more to count
    have hne : a ≠ 0 := hpos a List.mem_cons_self
    have hrest := @ih h.2 (fun b hb => hpos b (List.mem_cons_of_mem a hb)) (seen + 1)
    have hlength : seen + 1 + free.length = seen + (a :: free).length := by
      rw [List.length_cons]
      omega
    rw [← h.1, hlength] at hrest
    rw [← hrest]
    constructor
    · intro hcounts
      cases hcounts with
      | done => exact absurd rfl hne
      | next _ hcounts => exact hcounts
    · exact .next hne

/-- A stocked pool whose list of free pages is the one that runs through them. -/
structure Threaded (pool : Pool) : Prop extends pool.Stocked where
  stop_le : pool.stop ≤ wordLimit
  linked : pool.Linked pool.free

namespace Threaded

/-- A page that is taken back leads to the page that was the first free one. -/
theorem link_eq (ht : pool.Threaded) (hr : Restocked pool a pool') : pool'.link a = pool.head := by
  have hlt : pool.head < wordLimit := by
    unfold head
    cases hfree : pool.free with
    | nil => decide
    | cons b free =>
      have howns := ht.owns_of_free b (hfree ▸ List.mem_cons_self)
      exact Nat.lt_of_lt_of_le (owns_iff_le.mp howns).2.2 ht.stop_le
  have hfits : 0 + (wordBytes pool.head).length ≤ pageSize := by
    rw [length_wordBytes]
    decide
  have hread : (linkedPage pool.free.head?).read 0 8 = wordBytes pool.head :=
    length_wordBytes pool.head ▸ Page.read_write idlePage hfits
  rw [link, hr.contents_eq (.pooled a) hr.owns, if_pos rfl, hread, wordOf_wordBytes hlt]

/-- The page that is handed out was the first one, so the rest is linked. -/
protected theorem alloc (ht : pool.Threaded) (h : pool.alloc = some (a, pool')) :
    pool'.Threaded := by
  have hd := ht.of_alloc h
  have hlinked := ht.linked
  have hnodup := ht.nodup
  rw [hd.free_eq] at hlinked hnodup
  refine ⟨hd.stocked, hd.stop_eq ▸ ht.stop_le, hlinked.2.congr fun b hb => ?_⟩
  have hne : b ≠ a := fun heq => (List.nodup_cons.mp hnodup).1 (heq ▸ hb)
  have howns : pool.owns b := ht.owns_of_free b (hd.free_eq ▸ List.mem_cons_of_mem a hb)
  rw [hd.contents_eq (.pooled b) howns, if_neg (mt Physical.pooled.inj hne)]

/-- The page that is taken back is linked to what was the first one. -/
protected theorem release (ht : pool.Threaded) (ha : a ∉ pool.free)
    (h : pool.release a = .ok pool') : pool'.Threaded := by
  have hr := ht.of_release h
  refine ⟨hr.stocked ht.toStocked ha, hr.stop_eq ▸ ht.stop_le, ?_⟩
  rw [hr.free_eq]
  refine ⟨ht.link_eq hr, ht.linked.congr fun b hb => ?_⟩
  have hne : b ≠ a := fun heq => ha (heq ▸ hb)
  rw [hr.contents_eq (.pooled b) (ht.owns_of_free b hb), if_neg (mt Physical.pooled.inj hne)]

/-- Pages that are taken back are linked one to the other. -/
protected theorem reclaimAll (ht : pool.Threaded) (hnodup : (addresses ++ pool.free).Nodup)
    (h : pool.reclaimAll (addresses.map .pooled) = .ok pool') : pool'.Threaded := by
  -- by addresses: each is linked to the page that was given back before it
  induction addresses generalizing pool with
  | nil =>
    cases h
    exact ht
  | cons a addresses ih =>
    rw [reclaimAll_cons] at h
    obtain ⟨pool₁, hrelease, hrest⟩ := bind_eq_ok.mp h
    have hfree := (ht.of_release hrelease).free_eq
    -- the page moves from those to come to those that are free, so all are different still
    have hperm : ((a :: addresses) ++ pool.free).Perm (addresses ++ pool₁.free) := by
      rw [hfree]
      exact List.perm_middle.symm
    have ha : a ∉ pool.free := fun hmem =>
      (List.nodup_cons.mp hnodup).1 (List.mem_append_right addresses hmem)
    exact ih (ht.release ha hrelease) (hperm.nodup_iff.mp hnodup) hrest

/-- Writing a page that is not free leaves the links alone. -/
protected theorem setContents (ht : pool.Threaded) (howns : pool.owns a) (ha : a ∉ pool.free)
    (page : Page) : (pool.setContents page (.pooled a)).Threaded where
  toStocked := ht.toStocked.setContents ..
  stop_le := by rw [stop_setContents]; exact ht.stop_le
  linked := by
    rw [free_setContents]
    refine ht.linked.congr fun b hb => ?_
    have hne : b ≠ a := fun heq => ha (heq ▸ hb)
    rw [ht.contents_setContents howns (.pooled b) (ht.owns_of_free b hb),
      if_neg (mt Physical.pooled.inj hne)]

end Threaded

/-! ### Last in, first out -/

/-- The free page `a` was taken back, was not handed out since, and whatever was taken back later
was handed out again or lies `above` it. -/
def FreedUnder (past : List PageEvent) (above : List Nat) (a : Nat) : Prop :=
  ∃ later earlier, past = later ++ .takenBack a :: earlier ∧ .handedOut a ∉ later ∧
    ∀ newer b older, later = newer ++ .takenBack b :: older → .handedOut b ∈ newer ∨ b ∈ above

/-- The free pages lie in the order in which they were taken back. -/
def Stacked (past : List PageEvent) (free : List Nat) : Prop :=
  ∀ above a below, free = above ++ a :: below → FreedUnder past above a

/-- The first free page is the one that was taken back last. -/
theorem Stacked.lastFreed (h : Stacked past (a :: free)) : LastFreed past a := by
  obtain ⟨later, earlier, hpast, hnot, hnewer⟩ := h [] a free rfl
  refine ⟨later, earlier, hpast, hnot, fun newer b older heq => ?_⟩
  exact (hnewer newer b older heq).resolve_right List.not_mem_nil

/-- What is left when the first free page is handed out lies in order. -/
theorem Stacked.handedOut (h : Stacked past (a :: free)) (hnodup : (a :: free).Nodup) :
    Stacked (.handedOut a :: past) free := by
  intro above b below hfree
  obtain ⟨later, earlier, hpast, hnot, hnewer⟩ := h (a :: above) b below (by rw [hfree]; rfl)
  have hmem : b ∈ free := hfree ▸ List.mem_append_right above List.mem_cons_self
  have hne : b ≠ a := fun heq => (List.nodup_cons.mp hnodup).1 (heq ▸ hmem)
  refine ⟨.handedOut a :: later, earlier, by rw [hpast]; rfl, ?_, fun newer c older heq => ?_⟩
  -- it was not handed out before, nor now
  · rw [List.mem_cons, PageEvent.handedOut.injEq]
    exact not_or.mpr ⟨hne, hnot⟩
  · -- the page that leaves is the only one that no longer lies above
    obtain ⟨newer, rfl, hlater⟩ : ∃ newer', newer = .handedOut a :: newer' ∧
        later = newer' ++ .takenBack c :: older := by
      cases newer with
      | nil => cases heq
      | cons event newer =>
        obtain ⟨rfl, hlater⟩ := List.cons.inj heq
        exact ⟨newer, rfl, hlater⟩
    obtain hmem | hmem := hnewer newer c older hlater
    · exact .inl (List.mem_cons_of_mem _ hmem)
    · obtain rfl | hmem := List.mem_cons.mp hmem
      · exact .inl List.mem_cons_self
      · exact .inr hmem

/-- A page that is taken back lies on top. -/
theorem Stacked.takenBack (h : Stacked past free) (a : Nat) :
    Stacked (.takenBack a :: past) (a :: free) := by
  intro above b below hfree
  cases above with
  | nil =>
    -- it is the newest, and nothing was taken back after it
    obtain ⟨rfl, rfl⟩ := List.cons.inj hfree
    exact ⟨[], past, rfl, List.not_mem_nil, fun newer c older heq => by simp at heq⟩
  | cons c above =>
    obtain ⟨rfl, hrest⟩ := List.cons.inj hfree
    obtain ⟨later, earlier, hpast, hnot, hnewer⟩ := h above b below hrest
    -- it was taken back before, and one more page lies above it now
    refine ⟨.takenBack a :: later, earlier, by rw [hpast]; rfl, ?_, fun newer c older heq => ?_⟩
    · rw [List.mem_cons]
      exact not_or.mpr ⟨nofun, hnot⟩
    · cases newer with
      | nil =>
        obtain ⟨heq, -⟩ := List.cons.inj heq
        exact .inr (PageEvent.takenBack.inj heq ▸ List.mem_cons_self)
      | cons event newer =>
        obtain ⟨-, hlater⟩ := List.cons.inj heq
        exact (hnewer newer c older hlater).imp (List.mem_cons_of_mem event)
          (List.mem_cons_of_mem a)

/-- The first pages lie in the order in which they were taken in. -/
theorem stacked_intake (addresses : List Nat) :
    Stacked (addresses.map .takenBack).reverse addresses.reverse := by
  induction addresses using List.reverseRecOn with
  | nil =>
    intro above a below h
    simp at h
  | append_singleton addresses a ih =>
    rw [List.map_append, List.reverse_append, List.reverse_append]
    exact ih.takenBack a

/-! ### Creation -/

variable {first last : Nat}

/-- A page lies wholly between two addresses. -/
theorem mem_wholePages :
    a ∈ wholePages first last ↔ a % pageSize = 0 ∧ first ≤ a ∧ a + pageSize ≤ last := by
  rw [wholePages, Finset.mem_filter, Finset.mem_range]
  refine and_iff_right_of_imp fun h => ?_
  have hpos : 0 < pageSize := by decide
  omega

/-- The range of a pool before it has taken in a page. -/
def vacant (first last : Nat) : Pool where
  start := pagesIn first * pageSize
  stop := pageDown last
  pages := Array.replicate ((pageDown last - pagesIn first * pageSize) / pageSize) Page.zero
  free := []

/-- A pool owns the whole pages of its range. -/
theorem owns_vacant : (vacant first last).owns a ↔ a ∈ wholePages first last := by
  rw [owns_iff_le, mem_wholePages]
  refine and_congr_right fun hmod => ?_
  change pagesIn first * pageSize ≤ a ∧ a < pageDown last ↔ _
  unfold pagesIn pageDown pageSize at *
  omega

/-- There is nothing to link yet. -/
theorem threaded_vacant (first : Nat) (hlast : last < wordLimit) : (vacant first last).Threaded where
  start_mod := Nat.mul_mod_left ..
  size_mul := by
    change (Array.replicate _ _).size * pageSize = pageDown last - pagesIn first * pageSize
    rw [Array.size_replicate]
    unfold pageDown pageSize
    omega
  owns_of_free := nofun
  nodup := List.nodup_nil
  stop_le := Nat.le_of_lt (Nat.lt_of_le_of_lt (Nat.div_mul_le_self last pageSize) hlast)
  linked := trivial

/-- An allocator is made by taking in the whole pages of its range, lowest first. -/
theorem ofRange_eq_reclaimAll (h : first + pageSize < wordLimit) : ofRange first last =
    (vacant first last).reclaimAll ((wholePages first last).sort.map .pooled) := by
  have hup : pageUp first = .ok (pagesIn first * pageSize) := pageUp_eq_ok.mpr ⟨h, rfl⟩
  have hmono : StrictMono fun i : Nat => pagesIn first * pageSize + i * pageSize := by
    intro i j hij
    simp only [pageSize]
    omega
  -- the pages of the range, in ascending order, are numbered from the first whole page on
  have hsort : (wholePages first last).sort =
      (List.range ((pageDown last - pagesIn first * pageSize) / pageSize)).map
        fun i => pagesIn first * pageSize + i * pageSize := by
    have hpages : wholePages first last =
        (Finset.range ((pageDown last - pagesIn first * pageSize) / pageSize)).map
          ⟨_, hmono.injective⟩ := by
      ext a
      simp only [mem_wholePages, Finset.mem_map, Finset.mem_range, Function.Embedding.coeFn_mk]
      unfold pagesIn pageDown pageSize
      refine ⟨fun h => ⟨a / 4096 - (first + 4095) / 4096, by omega, by omega⟩, ?_⟩
      rintro ⟨i, hi, rfl⟩
      omega
    rw [hpages, ← Finset.sort_range]
    exact (hmono.strictMonoOn _).map_finsetSort.symm
  rw [hsort, List.map_map]
  unfold ofRange
  rw [hup]
  rfl

/-- An allocator can be made exactly if rounding its first address up is no overflow. -/
theorem exists_ofRange_iff :
    (∃ pool, ofRange first last = .ok pool) ↔ first + pageSize < wordLimit := by
  constructor
  · rintro ⟨pool, h⟩
    obtain ⟨start, hstart, -⟩ := bind_eq_ok.mp h
    exact (pageUp_eq_ok.mp hstart).1
  · intro h
    rw [ofRange_eq_reclaimAll h]
    refine exists_reclaimAll fun physical hmem => ?_
    obtain ⟨a, ha, rfl⟩ := List.mem_map.mp hmem
    exact ⟨a, rfl, owns_vacant.mpr ((Finset.mem_sort _).mp ha)⟩

/-- Nothing is held at first. -/
theorem outstanding_intake (first last : Nat) : outstanding (intake first last) = ∅ := by
  rw [intake, ← List.map_reverse]
  generalize (wholePages first last).sort.reverse = addresses
  induction addresses with
  | nil => rfl
  | cons a addresses ih => rw [List.map_cons, outstanding, ih, Finset.erase_empty]

/-! ### Use -/

/-- What holds of a pool in use: its free pages are the whole pages of the range that are not
outstanding, linked to each other and in the order in which they were taken back. -/
structure InUse (first last : Nat) (past : List PageEvent) (pool : Pool) : Prop
    extends pool.Threaded where
  owns_iff : ∀ a, pool.owns a ↔ a ∈ wholePages first last
  mem_free : ∀ a, a ∈ pool.free ↔ a ∈ wholePages first last ∧ a ∉ outstanding past
  outstanding_subset : outstanding past ⊆ wholePages first last
  stacked : Stacked past pool.free

namespace InUse

/-- When an allocator is made all of its pages are free. -/
theorem made (hlast : last < wordLimit) (h : ofRange first last = .ok pool) :
    InUse first last (intake first last) pool := by
  rw [ofRange_eq_reclaimAll (exists_ofRange_iff.mp ⟨pool, h⟩)] at h
  have ht := threaded_vacant first hlast
  have hr := ht.of_reclaimAll h
  have hfree : pool.free = (wholePages first last).sort.reverse :=
    hr.free_eq.trans (List.append_nil _)
  have hnodup : ((wholePages first last).sort ++ (vacant first last).free).Nodup := by
    exact (List.append_nil _).symm ▸ Finset.sort_nodup _ _
  refine ⟨ht.reclaimAll hnodup h, fun a => ?_, fun a => ?_, ?_, ?_⟩
  · rw [owns_congr hr.start_eq hr.stop_eq, owns_vacant]
  · rw [hfree, outstanding_intake, List.mem_reverse, Finset.mem_sort]
    exact (and_iff_left (Finset.notMem_empty a)).symm
  · rw [outstanding_intake]
    exact Finset.empty_subset _
  · rw [hfree]
    exact stacked_intake _

/-- Whatever is held is not free. -/
theorem not_mem_free (hs : InUse first last past pool) (ha : a ∈ outstanding past) :
    a ∉ pool.free := fun hmem => ((hs.mem_free a).mp hmem).2 ha

/-- What is handed out is held from then on. -/
theorem alloc (hs : InUse first last past pool) (h : pool.alloc = some (a, pool')) :
    InUse first last (.handedOut a :: past) pool' := by
  have hd := hs.of_alloc h
  have hstacked := hs.stacked
  have hnodup := hs.nodup
  rw [hd.free_eq] at hstacked hnodup
  refine ⟨hs.toThreaded.alloc h, fun b => ?_, fun b => ?_, ?_, hstacked.handedOut hnodup⟩
  · rw [owns_congr hd.start_eq hd.stop_eq, hs.owns_iff]
  -- a page is free now exactly if it was free before and is not the one that was handed out
  · have hmem := hs.mem_free b
    rw [hd.free_eq, List.mem_cons] at hmem
    rw [outstanding, Finset.mem_insert, not_or, and_left_comm, ← hmem]
    constructor
    · intro hb
      exact ⟨fun heq => (List.nodup_cons.mp hnodup).1 (heq ▸ hb), .inr hb⟩
    · rintro ⟨hne, hb⟩
      exact hb.resolve_left hne
  · exact Finset.insert_subset ((hs.owns_iff a).mp hd.owns) hs.outstanding_subset

/-- What is given back is held no more. -/
theorem release (hs : InUse first last past pool) (ha : a ∈ outstanding past)
    (h : pool.release a = .ok pool') : InUse first last (.takenBack a :: past) pool' := by
  have hr := hs.of_release h
  refine ⟨hs.toThreaded.release (hs.not_mem_free ha) h, fun b => ?_, fun b => ?_, ?_, ?_⟩
  · rw [owns_congr hr.start_eq hr.stop_eq, hs.owns_iff]
  · rw [hr.free_eq, List.mem_cons, hs.mem_free, outstanding, Finset.mem_erase, not_and_or, not_not,
      and_or_left]
    refine or_congr_left ⟨fun heq => ⟨heq ▸ hs.outstanding_subset ha, heq⟩, And.right⟩
  · exact (Finset.erase_subset ..).trans hs.outstanding_subset
  · rw [hr.free_eq]
    exact hs.stacked.takenBack a

/-- Whoever holds a page may write it. -/
theorem write (hs : InUse first last past pool) (ha : a ∈ outstanding past) (page : Page) :
    InUse first last past (pool.setContents page (.pooled a)) := by
  have howns := (hs.owns_iff a).mpr (hs.outstanding_subset ha)
  refine ⟨hs.toThreaded.setContents howns (hs.not_mem_free ha) page, fun b => ?_, fun b => ?_,
    hs.outstanding_subset, ?_⟩
  · rw [owns_congr (start_setContents ..) (stop_setContents ..), hs.owns_iff]
  · rw [free_setContents, hs.mem_free]
  · rw [free_setContents]
    exact hs.stacked

end InUse

/-- A pool that comes of an allocator supplies the pages of its range. -/
theorem Use.inUse (hlast : last < wordLimit) (h : Use first last past pool) :
    InUse first last past pool := by
  induction h with
  | made h => exact .made hlast h
  | alloc _ h ih => exact ih.alloc h
  | release _ ha h ih => exact ih.release ha h
  | write page _ ha ih => exact ih.write ha page

/-! ### What is supplied -/

/-- What an allocator answers and does next, after so much has happened to the pages of its
range. -/
structure Supply (first last : Nat) (past : List PageEvent) (pool : Pool) : Prop where
  /-- It has no page to hand out exactly when all are held. -/
  runs_dry : pool.alloc = none ↔ outstanding past = wholePages first last
  /-- It hands out the whole page that was taken back last and reads from it which one is next. -/
  hands_out : ∀ a pool', pool.alloc = some (a, pool') → a ∈ wholePages first last ∧
    a ∉ outstanding past ∧ LastFreed past a ∧ a = pool.head ∧ pool'.head = pool.link a ∧
    ∀ b ∈ outstanding past, pool'.contents (.pooled b) = pool.contents (.pooled b)
  /-- It takes back every page that is held and writes to it which one was the first. -/
  takes_back : ∀ a ∈ outstanding past, ∃ pool', pool.release a = .ok pool' ∧ pool'.head = a ∧
    pool'.link a = pool.head ∧
    ∀ b ∈ outstanding past, b ≠ a → pool'.contents (.pooled b) = pool.contents (.pooled b)
  /-- Counting along the links ends, with the number of free pages. -/
  counts : ∀ total, Counts pool pool.head 0 total ↔ total = pool.freeCount
  /-- Every page of the range is either free or held. -/
  adds_up : pool.freeCount + (outstanding past).card = (wholePages first last).card

/-- What a pool in use answers and does next. -/
theorem InUse.supply (hfirst : 0 < first) (hs : InUse first last past pool) :
    Supply first last past pool where
  -- there is no free page exactly if every page is held
  runs_dry := by
    rw [alloc_eq_none_iff, List.eq_nil_iff_forall_not_mem]
    simp only [hs.mem_free, not_and_not_right]
    exact ⟨fun h => hs.outstanding_subset.antisymm h, fun h => h.ge⟩
  hands_out a pool' h := by
    have hd := hs.of_alloc h
    have hstacked := hs.stacked
    have hlinked := hs.linked
    have hmem := (hs.mem_free a).mp (hd.free_eq ▸ List.mem_cons_self)
    rw [hd.free_eq] at hstacked hlinked
    refine ⟨hmem.1, hmem.2, hstacked.lastFreed, ?_, hlinked.1.symm, fun b hb => ?_⟩
    · rw [head, hd.free_eq]
      rfl
    -- the page is held, so it is not the one that was handed out
    · have hne : b ≠ a := fun heq => hmem.2 (heq ▸ hb)
      rw [hd.contents_eq (.pooled b) ((hs.owns_iff b).mpr (hs.outstanding_subset hb)),
        if_neg (mt Physical.pooled.inj hne)]
  takes_back a ha := by
    obtain ⟨pool', h⟩ := release_of_owns ((hs.owns_iff a).mpr (hs.outstanding_subset ha))
    have hr := hs.of_release h
    refine ⟨pool', h, ?_, hs.link_eq hr, fun b hb hne => ?_⟩
    · rw [head, hr.free_eq]
      rfl
    · rw [hr.contents_eq (.pooled b) ((hs.owns_iff b).mpr (hs.outstanding_subset hb)),
        if_neg (mt Physical.pooled.inj hne)]
  -- no page of the range lies at address 0, so the count ends at the end of the list
  counts total := by
    have hpos : ∀ a ∈ pool.free, a ≠ 0 := fun a ha => by
      have hle := (mem_wholePages.mp ((hs.mem_free a).mp ha).1).2.1
      omega
    rw [head, hs.linked.counts_iff hpos, Nat.zero_add]
    rfl
  adds_up := by
    -- every page is free or held
    have hfree : pool.free.toFinset = wholePages first last \ outstanding past := by
      ext a
      rw [List.mem_toFinset, hs.mem_free, Finset.mem_sdiff]
    have hcard : pool.freeCount = pool.free.toFinset.card :=
      (List.toFinset_card_of_nodup hs.nodup).symm
    rw [hcard, hfree, Finset.card_sdiff_add_card_eq_card hs.outstanding_subset]

/-- An allocator for a range that does not begin at 0 is a stack of its whole pages, whatever the
holders of pages write into them. It can be made unless rounding up the start overflows. -/
theorem lifo_supply {first last : Nat} (hfirst : 0 < first) (hlast : last < wordLimit) :
    ((∃ pool, ofRange first last = .ok pool) ↔ first + pageSize < wordLimit) ∧
      ∀ past pool, Use first last past pool → Supply first last past pool :=
  ⟨exists_ofRange_iff, fun _ _ h => (h.inUse hlast).supply hfirst⟩

/-- A range with two whole pages, both of which were handed out: one of them was overwritten and
given back, and the other one is still held. -/
theorem lifo_supply_two_pages :
    (0 < 1 ∧ 12298 < wordLimit) ∧ 1 + pageSize < wordLimit ∧
      ∃ past pool, past = .takenBack 8192 :: .handedOut 4096 :: .handedOut 8192 :: intake 1 12298 ∧
        Use 1 12298 past pool ∧ pool.head = 8192 ∧ Supply 1 12298 past pool := by
  have hlifo := @lifo_supply 1 12298 (by decide) (by decide)
  obtain ⟨pool, hmade⟩ := hlifo.1.mpr (by decide)
  obtain ⟨pool₁, hfirst⟩ : ∃ pool₁, pool.alloc = some (8192, pool₁) := by
    cases hmade
    exact ⟨_, rfl⟩
  obtain ⟨pool₂, hsecond⟩ : ∃ pool₂, pool₁.alloc = some (4096, pool₂) := by
    cases hmade
    cases hfirst
    exact ⟨_, rfl⟩
  have huse := ((Use.made hmade).alloc hfirst).alloc hsecond
  have hheld : 8192 ∈ outstanding (.handedOut 4096 :: .handedOut 8192 :: intake 1 12298) := by
    simp [outstanding]
  obtain ⟨pool₃, hrelease, hhead, -⟩ := (hlifo.2 _ _ (huse.write idlePage hheld)).takes_back 8192 hheld
  have huse' := (huse.write idlePage hheld).release hheld hrelease
  exact ⟨by decide, by decide, _, pool₃, rfl, huse', hhead, hlifo.2 _ _ huse'⟩

end Pool

end FairKernel
