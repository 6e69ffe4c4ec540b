import FairKernel.Proofs.PageMaps
import FairKernel.Proofs.StockedPools
import FairKernel.Proofs.UserMemories

/-!
# Pages that are added and taken away again

Growing user memory and copying pages into it add pages from the pool, one after the other, and both
take them away again when they fail part of the way. This module says what a number of *added* pages
comes to, for any table and any pool, and what is left once the range that they lie in is unmapped:
the memory as it was, less the pages of the range that were mapped before.

`Added` lists the pages that were added, each with the page of the pool behind it. One page is added
or there is a reason why not (`adopt_of_alloc`), and what was added in two stretches was added
(`Added.trans`). Unmapping gives back what is mapped in the range, and that is what was added and
what was there before (`Added.unmap_perm`).
-/

namespace FairKernel

namespace PageTable

/-- What the pages of a table, by their numbers, are mapped to. -/
def pageMap (t : PageTable) : PageMap := fun n => t.lookup (n * pageSize)

/-- A table refines the map of what can be looked up in it. -/
theorem refines_pageMap (t : PageTable) : t.Refines t.pageMap := fun virtual =>
  (t.lookup_pageDown virtual).symm

end PageTable

/-- What is unmapped is found page by page. -/
theorem PageMap.unmap_fst_eq (M : PageMap) (n count : Nat) :
    (M.unmap n count).1 = (List.range' n count).filterMap fun k => (M k).map Prod.fst := by
  rw [List.range'_eq_map_range, List.filterMap_map]
  rfl

namespace UserMemory

variable {m m' m'' : UserMemory} {permit : Nat → Permissions} {placed placed' : List (Nat × Nat)}
  {n count a : Nat}

/-! ### Alike memories -/

/-- The same translations, the same free pages, and all other pages of memory hold what they
held. -/
structure Alike (m m' : UserMemory) : Prop where
  lookup_eq : ∀ virtual, m'.table.lookup virtual = m.table.lookup virtual
  free_perm : m'.pool.free.Perm m.pool.free
  contents_eq : ∀ physical, m.pool.Has physical → (∀ a ∈ m.pool.free, physical ≠ .pooled a) →
    m'.pool.contents physical = m.pool.contents physical

/-! ### Added pages -/

/-- The listed pages, each with the address of a page of the pool, were not mapped before and are
now. They are the first that were free, and nothing else changed. -/
structure Added (permit : Nat → Permissions) (placed : List (Nat × Nat)) (m m' : UserMemory) :
    Prop where
  stocked : m'.pool.Stocked
  start_eq : m'.pool.start = m.pool.start
  stop_eq : m'.pool.stop = m.pool.stop
  free_eq : m.pool.free = placed.map Prod.snd ++ m'.pool.free
  isFree : ∀ n a, (n, a) ∈ placed → m.table.pageMap.isFree n
  lookup_eq : ∀ n a, (n, a) ∈ placed →
    m'.table.pageMap n = some (.pooled a, (permit n).validated)
  same : ∀ n, (∀ a, (n, a) ∉ placed) → m'.table.pageMap n = m.table.pageMap n
  contents_eq : ∀ physical, m.pool.Has physical → (∀ a ∈ m.pool.free, physical ≠ .pooled a) →
    m'.pool.contents physical = m.pool.contents physical

namespace Added

/-- Nothing was added yet. -/
theorem refl (permit : Nat → Permissions) (hs : m.pool.Stocked) : Added permit [] m m :=
  ⟨hs, rfl, rfl, rfl, nofun, nofun, fun _ _ => rfl, fun _ _ _ => rfl⟩

/-- Pages that were added were free before. -/
theorem mem_free (h : Added permit placed m m') (ha : (n, a) ∈ placed) : a ∈ m.pool.free := by
  rw [h.free_eq]
  exact List.mem_append_left _ (List.mem_map.mpr ⟨(n, a), ha, rfl⟩)

/-- Pages that were added are not free now. -/
theorem not_mem_free (h : Added permit placed m m') (hs : m.pool.Stocked) (ha : (n, a) ∈ placed) :
    a ∉ m'.pool.free := by
  have hnodup := hs.nodup
  rw [h.free_eq] at hnodup
  have hdisjoint := (List.nodup_append.mp hnodup).2.2
  exact fun hmem => hdisjoint a (List.mem_map.mpr ⟨(n, a), ha, rfl⟩) a hmem rfl

/-- What is mapped already is none of the added pages. -/
theorem not_mem (h : Added permit placed m m') {found : Physical × Permissions}
    (hmapped : m.table.pageMap n = some found) (a : Nat) : (n, a) ∉ placed := fun hmem => by
  have hnone := (PageMap.isFree_iff.mp (h.isFree n a hmem)).2
  rw [hmapped] at hnone
  cases hnone

/-- Pages are added after others. -/
theorem trans (h : Added permit placed m m') (h' : Added permit placed' m' m'') :
    Added permit (placed ++ placed') m m'' where
  stocked := h'.stocked
  start_eq := h'.start_eq.trans h.start_eq
  stop_eq := h'.stop_eq.trans h.stop_eq
  free_eq := by rw [List.map_append, List.append_assoc, ← h'.free_eq, h.free_eq]
  isFree n a hmem := by
    obtain hmem | hmem := List.mem_append.mp hmem
    · exact h.isFree n a hmem
    · -- a page that is added later was not added before
      have hfree := PageMap.isFree_iff.mp (h'.isFree n a hmem)
      have hnot : ∀ b, (n, b) ∉ placed := fun b hb => by
        rw [h.lookup_eq n b hb] at hfree
        cases hfree.2
      rw [h.same n hnot] at hfree
      exact PageMap.isFree_iff.mpr hfree
  lookup_eq n a hmem := by
    obtain hmem | hmem := List.mem_append.mp hmem
    · rw [h'.same n (h'.not_mem (h.lookup_eq n a hmem)), h.lookup_eq n a hmem]
    · exact h'.lookup_eq n a hmem
  same n hnot := by
    rw [h'.same n fun a ha => hnot a (List.mem_append_right _ ha),
      h.same n fun a ha => hnot a (List.mem_append_left _ ha)]
  contents_eq physical hhas hnot := by
    rw [h'.contents_eq physical ((Pool.has_congr h.start_eq h.stop_eq physical).mpr hhas),
      h.contents_eq physical hhas hnot]
    intro a ha
    refine hnot a ?_
    rw [h.free_eq]
    exact List.mem_append_right _ ha

end Added

/-! ### One page -/

/-- Page `n` cannot be added after so many other pages: there is no page left in the pool, or the
table has no room for it. -/
def Stops (m : UserMemory) (n before : Nat) (e : MemoryError) : Prop :=
  m.pool.freeCount = before ∧ e = .outOfMemory ∨
    before < m.pool.freeCount ∧ ¬ m.table.pageMap.isFree n ∧ e = PageMap.obstacle n

/-- When the pool is empty no page can be added. -/
theorem stops_of_alloc_eq_none (h : m.pool.alloc = none) (n : Nat) :
    m.Stops n 0 .outOfMemory :=
  .inl ⟨List.length_eq_zero_iff.mpr (Pool.alloc_eq_none_iff.mp h), rfl⟩

/-- A page that stops what comes after one added page does so after one page more. -/
theorem Added.stops {k before : Nat} {e : MemoryError} (h : Added permit [(n, a)] m m')
    (hstops : m'.Stops k before e) (hne : k ≠ n) : m.Stops k (before + 1) e := by
  have hfree : m.pool.freeCount = m'.pool.freeCount + 1 := congrArg List.length h.free_eq
  have hsame := h.same k fun b hb => hne (Prod.mk.inj (List.mem_singleton.mp hb)).1
  rw [Stops, hfree]
  obtain ⟨hdry, he⟩ | ⟨hmore, hfull, he⟩ := hstops
  · exact .inl ⟨congrArg (· + 1) hdry, he⟩
  · rw [PageMap.isFree, hsame] at hfull
    exact .inr ⟨Nat.succ_lt_succ hmore, hfull, he⟩

/-- The page before the end of a range of words is one that can be mapped. -/
theorem page_lt_wordLimit (hw : (n + (count + 1)) * pageSize < wordLimit) :
    n * pageSize + pageSize < wordLimit := by
  rw [← Nat.add_one_mul]
  exact Nat.lt_of_le_of_lt (Nat.mul_le_mul_right pageSize (by omega)) hw

/-- A page of the pool is mapped if the table has room for it. -/
theorem map_pooled (m : UserMemory) (hw : n * pageSize + pageSize < wordLimit)
    (permissions : Permissions) :
    m.table.map (n * pageSize) pageSize (.pooled a) permissions = .ok (
      if m.table.pageMap.isFree n then
        (.ok (), m.table.withPage (n * pageSize) (.pooled a) permissions)
      else (.error (PageMap.obstacle n), m.table)) := by
  have hstays : (Physical.pooled a).advance 0 = .ok (.pooled a) := rfl
  -- the table has room for a page that is one of the address space and is not mapped
  have hroom : m.table.pageMap.isFree n ↔
      ¬ addressLimit ≤ n * pageSize ∧ ¬ m.table.isMapped (n * pageSize) := by
    rw [PageMap.isFree_iff, Nat.not_le, PageTable.isMapped, Option.not_isSome_iff_eq_none]
    rfl
  rw [PageTable.map_page (Nat.mul_mod_left n pageSize) hw hstays, PageMap.obstacle]
  by_cases hlimit : addressLimit ≤ n * pageSize
  · rw [if_pos hlimit, if_neg fun hfree => (hroom.mp hfree).1 hlimit, if_pos hlimit]
  by_cases hmapped : m.table.isMapped (n * pageSize)
  · rw [if_neg hlimit, if_pos hmapped, if_neg fun hfree => (hroom.mp hfree).2 hmapped, if_neg hlimit]
  · rw [if_neg hlimit, if_neg hmapped, if_pos (hroom.mpr ⟨hlimit, hmapped⟩)]

/-- A page that was filled and is mapped now was added, ... -/
theorem added_of_filled {page : Page} {pool : Pool} (h : m.pool.Filled a page pool)
    (hfree : m.table.pageMap.isFree n) (permissions : Permissions) :
    Added (fun _ => permissions) [(n, a)] m
      ⟨m.table.withPage (n * pageSize) (.pooled a) permissions, pool⟩ := by
  have hlimit := (PageMap.isFree_iff.mp hfree).1
  have hmod : a % pageSize = 0 := (Pool.owns_iff_le.mp h.owns).1
  refine ⟨h.stocked, h.start_eq, h.stop_eq, h.free_eq, fun k b hmem => ?_, fun k b hmem => ?_,
    fun k hnot => ?_, fun physical hhas hnot => ?_⟩
  · obtain ⟨rfl, rfl⟩ := Prod.mk.inj (List.mem_singleton.mp hmem)
    exact hfree
  · obtain ⟨rfl, rfl⟩ := Prod.mk.inj (List.mem_singleton.mp hmem)
    rw [PageTable.pageMap, PageTable.lookup_withPage (Nat.mul_mod_left ..) hlimit,
      pageDown_of_aligned (Nat.mul_mod_left ..), if_pos rfl, Physical.page, pageDown_of_aligned hmod]
  · have hne : k ≠ n := fun heq => hnot a (heq ▸ List.mem_singleton_self _)
    rw [PageTable.pageMap, PageTable.lookup_withPage (Nat.mul_mod_left ..) hlimit,
      pageDown_of_aligned (Nat.mul_mod_left ..), if_neg]
    · rfl
    · exact fun heq => hne (Nat.eq_of_mul_eq_mul_right (by decide) heq)
  · exact h.contents_eq physical hhas (hnot a (h.free_eq ▸ List.mem_cons_self))

/-- ... and nothing was if it is given back instead. -/
theorem added_nil_of_filled {page : Page} {pool pool' : Pool} (h : m.pool.Filled a page pool)
    (hrelease : pool.release a = .ok pool') (permissions : Permissions) :
    Added (fun _ => permissions) [] m ⟨m.table, pool'⟩ := by
  have hr := h.stocked.of_release hrelease
  refine ⟨hr.stocked h.stocked h.not_mem, hr.start_eq.trans h.start_eq, hr.stop_eq.trans h.stop_eq, ?_,
    fun _ _ hmem => absurd hmem List.not_mem_nil, fun _ _ hmem => absurd hmem List.not_mem_nil,
    fun _ _ => rfl, fun physical hhas hnot => ?_⟩
  · exact h.free_eq.trans hr.free_eq.symm
  · have hne := hnot a (h.free_eq ▸ List.mem_cons_self)
    have hhas' := (Pool.has_congr h.start_eq h.stop_eq physical).mpr hhas
    rw [← h.contents_eq physical hhas hne]
    exact (hr.contents_eq physical hhas').trans (if_neg hne)

/-- A page from the pool is filled and mapped, or given back if the table has no room for it. -/
theorem adopt_of_alloc {pool : Pool} (hs : m.pool.Stocked)
    (hw : n * pageSize + pageSize < wordLimit)
    (halloc : m.pool.alloc = some (a, pool)) (page : Page) (permissions : Permissions) :
    ∃ result m', adopt { m with pool := pool.setContents page (.pooled a) } (n * pageSize) a
        permissions = .ok (result, m') ∧
      (result = .ok () ∧ Added (fun _ => permissions) [(n, a)] m m' ∧
          m'.pool.contents (.pooled a) = page ∨
        ∃ e, result = .error e ∧ m.Stops n 0 e ∧ Added (fun _ => permissions) [] m m') := by
  have hfilled := hs.filled halloc page
  unfold adopt
  rw [m.map_pooled hw permissions]
  by_cases hfree : m.table.pageMap.isFree n
  · rw [if_pos hfree]
    exact ⟨_, _, rfl, .inl ⟨rfl, added_of_filled hfilled hfree permissions, hfilled.page_eq⟩⟩
  -- there is no room, so the page is given back to the pool, which owns it
  · obtain ⟨pool', hrelease⟩ := Pool.release_of_owns hfilled.owns
    have hmore : 0 < m.pool.freeCount := by
      rw [Pool.freeCount, hfilled.free_eq]
      exact Nat.succ_pos _
    rw [if_neg hfree]
    simp only [bind, Except.bind, hrelease]
    exact ⟨_, _, rfl, .inr ⟨_, rfl, .inr ⟨hmore, hfree, rfl⟩,
      added_nil_of_filled hfilled hrelease permissions⟩⟩

/-! ### Taking pages away -/

/-- What unmapping comes to: the pages that were mapped are given back. -/
theorem unmap_eq (m : UserMemory) (hw : (n + count) * pageSize < wordLimit) :
    ∃ t : PageTable, t.Refines (m.table.pageMap.unmap n count).2 ∧
      m.unmap (n * pageSize) count = (m.pool.reclaimAll (m.table.pageMap.unmap n count).1).map
        fun pool => ((m.table.pageMap.unmap n count).1.length, { table := t, pool }) := by
  have hsound : (PageTable.Request.unmap (n * pageSize) count).IsSound := by
    change n * pageSize + count * pageSize < wordLimit
    rwa [← Nat.add_mul]
  have hpage : n * pageSize / pageSize = n := Nat.mul_div_cancel _ (by decide)
  obtain ⟨t, hunmap, ht⟩ := PageTable.unmap_refines m.table.refines_pageMap hsound
    (Nat.mul_mod_left ..)
  rw [hpage] at hunmap ht
  refine ⟨t, ht, ?_⟩
  rw [UserMemory.unmap, hunmap]
  rfl

namespace Added

/-- Of a range in which pages were added, those are mapped and the ones that were before. -/
theorem unmap_perm (h : Added permit placed m m') {p : Nat → Bool}
    (hplaced : placed.map Prod.fst = (List.range' n count).filter p) :
    (m'.table.pageMap.unmap n count).1.Perm
      ((m.table.pageMap.unmap n count).1 ++ (placed.map Prod.snd).map .pooled) := by
  rw [PageMap.unmap_fst_eq, PageMap.unmap_fst_eq]
  set range := List.range' n count
  have hmem (k : Nat) : (∃ a, (k, a) ∈ placed) ↔ k ∈ range.filter p := by
    rw [← hplaced]
    simp
  -- of the range, those that were added are mapped to the pages they were given, ...
  have hadded : (range.filter p).filterMap (fun k => (m'.table.pageMap k).map Prod.fst) =
      (placed.map Prod.snd).map .pooled := by
    rw [← hplaced, List.filterMap_map, List.map_map]
    refine List.filterMap_eq_map_iff_forall_eq_some.mpr ?_
    rintro ⟨k, a⟩ hka
    exact congrArg (Option.map Prod.fst) (h.lookup_eq k a hka)
  -- ... which were not mapped before, ...
  have hbefore : (range.filter p).filterMap (fun k => (m.table.pageMap k).map Prod.fst) = [] := by
    refine List.filterMap_eq_nil_iff.mpr fun k hk => ?_
    obtain ⟨a, ha⟩ := (hmem k).mpr hk
    rw [(PageMap.isFree_iff.mp (h.isFree k a ha)).2]
    rfl
  -- ... and those that were not added are mapped to what they were
  have hothers : (range.filter fun k => !p k).filterMap
      (fun k => (m'.table.pageMap k).map Prod.fst) =
        (range.filter fun k => !p k).filterMap fun k => (m.table.pageMap k).map Prod.fst := by
    refine List.filterMap_congr fun k hk => ?_
    have hnot : ∀ a, (k, a) ∉ placed := fun a ha => by
      have hp := (List.mem_filter.mp ((hmem k).mp ⟨a, ha⟩)).2
      have hnp := (List.mem_filter.mp hk).2
      rw [hp] at hnp
      cases hnp
    rw [h.same k hnot]
  -- so both sides can be split by whether a page was added
  have hsplit (f : Nat → Option Physical) : (range.filterMap f).Perm
      ((range.filter p).filterMap f ++ (range.filter fun k => !p k).filterMap f) := by
    rw [← List.filterMap_append]
    exact (List.filter_append_perm p range).symm.filterMap f
  refine (hsplit _).trans ?_
  rw [hadded, hothers]
  refine List.perm_append_comm.trans (List.Perm.append_right _ ?_)
  refine List.Perm.symm ((hsplit _).trans ?_)
  rw [hbefore, List.nil_append]

/-- Pages added in a range are given back when it is unmapped, and so are those of its pages that
were mapped before. -/
theorem of_unmap (h : Added permit placed m m') {p : Nat → Bool}
    (hplaced : placed.map Prod.fst = (List.range' n count).filter p)
    (hw : (n + count) * pageSize < wordLimit) {removed : Nat}
    (hunmap : m'.unmap (n * pageSize) count = .ok (removed, m'')) :
    ∃ own : List Nat, (m.table.pageMap.unmap n count).1 = own.map .pooled ∧
      m''.pool.free.Perm (own ++ m.pool.free) ∧
      m''.table.Refines (m.table.pageMap.unmap n count).2 ∧
      ∀ physical, m.pool.Has physical → (∀ a ∈ own ++ m.pool.free, physical ≠ .pooled a) →
        m''.pool.contents physical = m.pool.contents physical := by
  obtain ⟨t, ht, hresult⟩ := m'.unmap_eq hw
  obtain ⟨pool, hreclaim, heq⟩ := map_eq_ok.mp (hresult.symm.trans hunmap)
  obtain ⟨-, rfl⟩ := Prod.mk.inj heq
  obtain ⟨addresses, haddresses⟩ := Pool.exists_map_of_reclaimAll hreclaim
  have hperm := h.unmap_perm hplaced
  rw [haddresses] at hreclaim hperm
  have hr := h.stocked.of_reclaimAll hreclaim
  -- whatever was mapped there before is given back too, so it came from the pool
  obtain ⟨own, hown⟩ : (m.table.pageMap.unmap n count).1 ∈ Set.range (List.map Physical.pooled) := by
    rw [Set.range_list_map]
    intro physical hmem
    obtain ⟨a, -, heq⟩ := List.mem_map.mp (hperm.mem_iff.mpr (List.mem_append_left _ hmem))
    exact ⟨a, heq⟩
  have hinj : Function.Injective Physical.pooled := fun _ _ => Physical.pooled.inj
  rw [← hown, ← List.map_append, List.map_perm_map_iff hinj] at hperm
  refine ⟨own, hown.symm, ?_, fun virtual => ?_, fun physical hhas hnot => ?_⟩
  -- free is what was given back and what was free, and so all that was free at first
  · calc pool.free
      _ = addresses.reverse ++ m'.pool.free := hr.free_eq
      _ |>.Perm ((own ++ placed.map Prod.snd) ++ m'.pool.free) :=
        ((List.reverse_perm addresses).trans hperm).append_right _
      _ = own ++ m.pool.free := by rw [List.append_assoc, ← h.free_eq]
  -- outside of the range nothing was added, so the translations are those of before
  · rw [ht virtual]
    simp only [PageMap.unmap]
    split
    · rfl
    · next hout =>
      refine h.same _ fun a ha => hout ?_
      have hmem : virtual / pageSize ∈ (List.range' n count).filter p :=
        hplaced ▸ List.mem_map.mpr ⟨_, ha, rfl⟩
      exact List.mem_range'_1.mp (List.mem_filter.mp hmem).1
  · have hhas' := (Pool.has_congr h.start_eq h.stop_eq physical).mpr hhas
    have hfree : ∀ a ∈ m.pool.free, physical ≠ .pooled a := fun a ha =>
      hnot a (List.mem_append_right _ ha)
    rw [hr.contents_eq physical hhas', h.contents_eq physical hhas hfree]
    -- what is written is only what becomes free
    intro a ha
    obtain hmem | hmem := List.mem_append.mp (hperm.mem_iff.mp ha)
    · exact hnot a (List.mem_append_left _ hmem)
    · refine hfree a ?_
      rw [h.free_eq]
      exact List.mem_append_left _ hmem

/-- A range can be unmapped if all its pages come from the pool. -/
theorem exists_unmap (h : Added permit placed m m') (hs : m.pool.Stocked) {p : Nat → Bool}
    (hplaced : placed.map Prod.fst = (List.range' n count).filter p)
    (hw : (n + count) * pageSize < wordLimit)
    (hown : ∀ k physical permissions, n ≤ k → k < n + count →
      m.table.pageMap k = some (physical, permissions) →
        ∃ a, physical = .pooled a ∧ m.pool.owns a) :
    ∃ removed m'', m'.unmap (n * pageSize) count = .ok (removed, m'') := by
  obtain ⟨t, -, hresult⟩ := m'.unmap_eq hw
  obtain ⟨pool, hreclaim⟩ : ∃ pool,
      m'.pool.reclaimAll (m'.table.pageMap.unmap n count).1 = .ok pool := by
    refine Pool.exists_reclaimAll fun physical hmem => ?_
    simp only [Pool.owns_congr h.start_eq h.stop_eq]
    -- to be given back are pages that were there before, and pages that were added
    obtain hmem | hmem := List.mem_append.mp ((h.unmap_perm hplaced).mem_iff.mp hmem)
    · rw [PageMap.unmap_fst_eq] at hmem
      obtain ⟨k, hk, hfound⟩ := List.mem_filterMap.mp hmem
      obtain ⟨⟨_, permissions⟩, hlookup, rfl⟩ := Option.map_eq_some_iff.mp hfound
      obtain ⟨hle, hlt⟩ := List.mem_range'_1.mp hk
      exact hown k _ permissions hle hlt hlookup
    · obtain ⟨a, ha, rfl⟩ := List.mem_map.mp hmem
      obtain ⟨⟨k, a⟩, hka, rfl⟩ := List.mem_map.mp ha
      exact ⟨a, rfl, hs.owns_of_free a (h.mem_free hka)⟩
  rw [hreclaim] at hresult
  exact ⟨_, _, hresult⟩

/-- Where pages fill a range, unmapping the range leaves the memory as it was. -/
theorem unmap_range (h : Added permit placed m m') (hs : m.pool.Stocked)
    (hplaced : placed.map Prod.fst = List.range' n count)
    (hw : (n + count) * pageSize < wordLimit) :
    ∃ removed m'', m'.unmap (n * pageSize) count = .ok (removed, m'') ∧ Alike m m'' := by
  -- each page of the range was added, so none of them was mapped before
  have hfresh : ∀ k, n ≤ k → k < n + count → m.table.pageMap k = none := fun k hle hlt => by
    have hk := List.mem_range'_1.mpr ⟨hle, hlt⟩
    rw [← hplaced] at hk
    obtain ⟨⟨_, a⟩, hmem, rfl⟩ := List.mem_map.mp hk
    exact (PageMap.isFree_iff.mp (h.isFree _ a hmem)).2
  have hplaced' : placed.map Prod.fst = (List.range' n count).filter fun _ => true := by
    rw [hplaced, List.filter_true]
  obtain ⟨removed, m'', hunmap⟩ := h.exists_unmap hs hplaced' hw
    fun k physical permissions hle hlt hlookup => by
      rw [hfresh k hle hlt] at hlookup
      cases hlookup
  obtain ⟨own, hown, hfree, hrefines, hcontents⟩ := h.of_unmap hplaced' hw hunmap
  -- nothing but what was added is given back
  obtain rfl : own = [] := by
    refine List.map_eq_nil_iff.mp (hown.symm.trans ?_)
    rw [PageMap.unmap_fst_eq]
    refine List.filterMap_eq_nil_iff.mpr fun k hk => ?_
    obtain ⟨hle, hlt⟩ := List.mem_range'_1.mp hk
    rw [hfresh k hle hlt]
    rfl
  refine ⟨removed, m'', hunmap, fun virtual => ?_, hfree, hcontents⟩
  rw [hrefines virtual, m.table.refines_pageMap virtual]
  simp only [PageMap.unmap]
  split
  · next hin => exact (hfresh _ hin.1 hin.2).symm
  · rfl

end Added

end UserMemory

end FairKernel
