import FairKernel.Paging.UserMemory
import FairKernel.Proofs.Residents

/-!
# User memory keeps its pages

Every operation on user memory moves pages between a table and the pool behind it. A memory is
*sound* if the residents of its table, the free pages of its pool and the pages that others have are
distinct pages of the pool; each operation comes to an answer, leaves a sound memory with the same
pages, and changes the table where it should.

What others have is a parameter: a memory is looked at with everything that is not its own or free
kept aside, so that an operation on it is seen not to touch that. `Kept` says that no page is lost
or gained and that others keep theirs as they were, `Spared` that only free pages were written.

Each operation has one lemma here, which says that it answers and what the answer means:
`Sound.unmap`, `Sound.shrink` and `Sound.clear` for removing pages, `Sound.addPages` and
`Sound.grow` for adding some. Adding takes a page in hand, fills it and maps it
(`Sound.adopt_fresh`); while it is in hand it counts among what others have, so that nothing is
forgotten when the mapping fails and the page has to be given back.
-/

namespace FairKernel

/-- From the trap frame on nothing is within reach of user code. -/
def PageTable.IsPrivate (t : PageTable) : Prop :=
  ∀ n, userPages ≤ n → ∀ physical permissions,
    t.lookup (n * pageSize) = some (physical, permissions) → permissions.user = false

/-- What user code may use lies below the trap frame. -/
theorem PageTable.IsPrivate.lt_userPages {t : PageTable} (h : t.IsPrivate) {n : Nat}
    {physical : Physical} {permissions : Permissions}
    (hlookup : t.lookup (n * pageSize) = some (physical, permissions))
    (huser : permissions.user) : n < userPages := by
  by_contra hle
  rw [h n (Nat.le_of_not_lt hle) physical permissions hlookup] at huser
  cases huser

namespace UserMemory

variable {pages : Nat} {others : Multiset Nat} {m m' : UserMemory}

/-- The resident and the free pages. -/
def pagesOf (m : UserMemory) : Multiset Nat := m.table.residents + m.pool.free

/-- The pages of a memory are resident or free. -/
theorem mem_pagesOf {address : Nat} :
    address ∈ m.pagesOf ↔ address ∈ m.table.residents ∨ address ∈ m.pool.free := by
  rw [pagesOf, Multiset.mem_add, Multiset.mem_coe]

/-- The residents, the free pages and those that others have are distinct pages of the pool. -/
structure Sound (pages : Nat) (others : Multiset Nat) (m : UserMemory) : Prop where
  spans : m.pool.Spans pages
  tidy : m.pool.Tidy
  pooled : m.table.IsPooled
  fits : others + m.pagesOf ≤ (poolPages pages).val

/-- No page is there twice. -/
theorem Sound.nodup (h : m.Sound pages others) : (others + m.pagesOf).Nodup :=
  Multiset.nodup_of_le h.fits (poolPages pages).nodup

/-- All pages that are accounted for are pages of the pool. -/
theorem Sound.mem_pool (h : m.Sound pages others) {address : Nat}
    (ha : address ∈ others + m.pagesOf) : address ∈ poolPages pages :=
  Finset.mem_def.mpr (Multiset.mem_of_le h.fits ha)

/-- What others have is neither resident nor free. -/
theorem Sound.of_mem_others (h : m.Sound pages others) {address : Nat} (ha : address ∈ others) :
    address ∈ poolPages pages ∧ address ∉ m.pagesOf :=
  ⟨h.mem_pool (Multiset.mem_add.mpr (.inl ha)),
    Multiset.disjoint_left.mp (Multiset.nodup_add.mp h.nodup).2.2 ha⟩

/-- A sound memory that came of another one without losing or gaining a page. -/
structure Kept (pages : Nat) (others : Multiset Nat) (m m' : UserMemory) : Prop where
  sound : m'.Sound pages others
  pagesOf_eq : m'.pagesOf = m.pagesOf
  /-- From the trap frame on nothing changes. -/
  above : ∀ n, userPages ≤ n → m'.table.lookup (n * pageSize) = m.table.lookup (n * pageSize)
  /-- Nobody wrote to the pages that others have. -/
  contents_eq : ∀ a ∈ others, m'.pool.contents (.pooled a) = m.pool.contents (.pooled a)

/-- A sound memory has all the pages that it has. -/
theorem Sound.kept (h : m.Sound pages others) : Kept pages others m m :=
  ⟨h, rfl, fun _ _ => rfl, fun _ _ => rfl⟩

/-- What is mapped from the trap frame on stays mapped. -/
theorem Kept.isMapped_above (h : Kept pages others m m') {n : Nat} (hn : userPages ≤ n)
    (hm : m.table.isMapped (n * pageSize)) : m'.table.isMapped (n * pageSize) := by
  unfold PageTable.isMapped at hm ⊢
  rw [h.above n hn]
  exact hm

/-- What keeps all pages does so again. -/
theorem Kept.trans {m'' : UserMemory} (h : Kept pages others m m')
    (h' : Kept pages others m' m'') : Kept pages others m m'' :=
  ⟨h'.sound, h'.pagesOf_eq.trans h.pagesOf_eq, fun n hn => (h'.above n hn).trans (h.above n hn),
    fun a ha => (h'.contents_eq a ha).trans (h.contents_eq a ha)⟩

/-- Only free pages were written, and no page is free that was not. -/
structure Spared (pages : Nat) (m m' : UserMemory) : Prop where
  free_subset : ∀ a ∈ m'.pool.free, a ∈ m.pool.free
  contents_same : ∀ a ∈ poolPages pages, a ∉ m.pool.free →
    m'.pool.contents (.pooled a) = m.pool.contents (.pooled a)

/-- Nothing was written yet. -/
theorem Spared.refl (pages : Nat) (m : UserMemory) : Spared pages m m :=
  ⟨fun _ => id, fun _ _ _ => rfl⟩

/-- What writes free pages only does so again. -/
theorem Spared.trans {m'' : UserMemory} (h : Spared pages m m') (h' : Spared pages m' m'') :
    Spared pages m m'' where
  free_subset a ha := h.free_subset a (h'.free_subset a ha)
  contents_same a ha hfree := by
    have hfree' : a ∉ m'.pool.free := fun hmem => hfree (h.free_subset a hmem)
    exact (h'.contents_same a ha hfree').trans (h.contents_same a ha hfree)

/-- Who writes to free pages only does not write to those that others have. -/
theorem Spared.contents_others (h : Spared pages m m') (hsound : m.Sound pages others) :
    ∀ a ∈ others, m'.pool.contents (.pooled a) = m.pool.contents (.pooled a) := fun a ha => by
  obtain ⟨hpool, hpages⟩ := hsound.of_mem_others ha
  exact h.contents_same a hpool fun hfree => hpages (mem_pagesOf.mpr (.inr hfree))

/-! ### Contents -/

/-- Writing a page moves none. -/
theorem pagesOf_setContents (m : UserMemory) (page : Page) (physical : Physical) :
    UserMemory.pagesOf { m with pool := m.pool.setContents page physical } = m.pagesOf := by
  unfold pagesOf
  rw [Pool.free_setContents]

/-- A memory is sound after a page is written. -/
theorem Sound.setContents (h : m.Sound pages others) (page : Page) (physical : Physical) :
    Sound pages others { m with pool := m.pool.setContents page physical } where
  spans := h.spans.setContents ..
  tidy := h.tidy.setContents ..
  pooled := h.pooled
  fits := by
    rw [pagesOf_setContents]
    exact h.fits

/-- An access that is allowed goes to a page that is mapped with permission. -/
theorem lookup_of_access {allowed : Permissions → Bool} {page : Nat} {physical : Physical}
    (h : m.access page allowed = .ok physical) : ∃ permissions, allowed permissions ∧
      m.table.lookup page = some (physical, permissions) := by
  unfold access at h
  split at h
  · cases h
  next found permissions hlookup =>
  split at h
  · next hallowed =>
    cases h
    exact ⟨permissions, hallowed, hlookup⟩
  · cases h

/-- What user code may use is a page of the pool behind a page number below the trap frame. -/
theorem Sound.of_access (h : m.Sound pages others) (hprivate : m.table.IsPrivate)
    {n : Nat} {physical : Physical} {allowed : Permissions → Bool}
    (hallowed : ∀ p, allowed p → p.user)
    (haccess : m.access (n * pageSize) allowed = .ok physical) :
    n < userPages ∧ ∃ a permissions, physical = .pooled a ∧ allowed permissions ∧
      m.table.lookup (n * pageSize) = some (.pooled a, permissions) := by
  obtain ⟨permissions, hok, hlookup⟩ := lookup_of_access haccess
  have hn := hprivate.lt_userPages hlookup (hallowed permissions hok)
  obtain ⟨a, rfl⟩ := h.pooled n hn _ _ hlookup
  exact ⟨hn, a, permissions, rfl, hok, hlookup⟩

/-- Whatever user code may write it may use. -/
theorem user_of_userWritable (p : Permissions) (h : p.userWritable) : p.user :=
  (Bool.and_eq_true_iff.mp h).1

/-- Writing bytes changes neither the table nor which pages are free. -/
theorem table_store (m : UserMemory) (address : Nat) (bytes : Bytes) :
    (m.store address bytes).2.table = m.table := by
  fun_induction UserMemory.store m address bytes with
  | case1 => rfl
  | case2 => rfl
  | case3 m address bytes _ physical _ offset page ih => exact ih

/-- Writing bytes frees no page and takes none. -/
theorem free_store (m : UserMemory) (address : Nat) (bytes : Bytes) :
    (m.store address bytes).2.pool.free = m.pool.free := by
  fun_induction UserMemory.store m address bytes with
  | case1 => rfl
  | case2 => rfl
  | case3 m address bytes _ physical _ offset page ih => rw [ih, Pool.free_setContents]

/-- Bytes that are written go to residents. -/
theorem Sound.store (h : m.Sound pages others) (hprivate : m.table.IsPrivate) (address : Nat)
    (bytes : Bytes) : Kept pages others m (m.store address bytes).2 := by
  fun_induction UserMemory.store m address bytes with
  | case1 => exact h.kept
  | case2 => exact h.kept
  | case3 m address bytes _ physical haccess offset page ih =>
    have hsound := h.setContents page physical
    refine Kept.trans ⟨hsound, pagesOf_setContents .., fun _ _ => rfl, fun b hb => ?_⟩
      (ih hsound hprivate)
    obtain ⟨n, hpage⟩ := exists_page (pageDown_mod address)
    rw [hpage] at haccess
    obtain ⟨hn, a, permissions, rfl, -, hlookup⟩ :=
      h.of_access hprivate user_of_userWritable haccess
    have ha := PageTable.mem_residents_of_lookup hn hlookup
    obtain ⟨hpool, hpages⟩ := h.of_mem_others hb
    have hne : a ≠ b := fun heq => hpages (mem_pagesOf.mpr (.inl (heq ▸ ha)))
    have hmem : a ∈ poolPages pages :=
      h.mem_pool (Multiset.mem_add.mpr (.inr (mem_pagesOf.mpr (.inl ha))))
    exact Pool.contents_setContents_of_ne h.spans hmem hpool hne page

/-! ### Removing pages -/

/-- The pages of an address space can be addressed by words. -/
theorem wordLimit_bound {base count : Nat} (h : base + count ≤ userPages + 2) :
    count * pageSize < wordLimit ∧ base * pageSize + count * pageSize < wordLimit := by
  unfold userPages frameAddress trampolineAddress addressLimit at h
  unfold wordLimit
  unfold pageSize at h ⊢
  omega

/-- Unmapping pages that are in the address space cannot fail. -/
theorem unmap_page {t : PageTable} {base count : Nat} (h : base + count ≤ userPages + 2) :
    t.unmap (base * pageSize) count =
      .ok ((t.unmapPages (base * pageSize) count).1.reverse,
        (t.unmapPages (base * pageSize) count).2) := by
  obtain ⟨hsize, hsum⟩ := wordLimit_bound h
  have halign : ¬ (base * pageSize % pageSize ≠ 0) := not_not.mpr (Nat.mul_mod_left ..)
  unfold PageTable.unmap
  rw [if_neg halign, mulWord_eq_ok.mpr ⟨hsize, rfl⟩]
  simp only [bind, Except.bind, addWord_eq_ok.mpr ⟨hsum, rfl⟩]
  rfl

/-- Unmapping pages gives those back that were there, and does not touch what stays. -/
theorem Sound.unmap (h : m.Sound pages others) {base count : Nat}
    (hle : base + count ≤ userPages) :
    ∃ removed m', m.unmap (base * pageSize) count = .ok (removed, m') ∧ Kept pages others m m' ∧
      (∀ n, m'.table.lookup (n * pageSize) =
        if base ≤ n ∧ n < base + count then none else m.table.lookup (n * pageSize)) ∧
      ∀ a ∈ m'.table.residents, m'.pool.contents (.pooled a) = m.pool.contents (.pooled a) := by
  obtain ⟨addresses, hremoved, hresidents⟩ := PageTable.residents_unmapPages h.pooled hle
  set t' := (m.table.unmapPages (base * pageSize) count).2 with ht'
  have hlookup (n : Nat) : t'.lookup (n * pageSize) =
      if base ≤ n ∧ n < base + count then none else m.table.lookup (n * pageSize) :=
    PageTable.lookup_unmapPages_page ..
  -- what was removed, what was free and what is still resident are all the pages that there were
  have hmoved : (addresses.reverse : Multiset Nat) + m.pool.free + t'.residents = m.pagesOf := by
    rw [pagesOf, ← hresidents, Multiset.coe_reverse]
    abel
  have hall : ∀ a ∈ addresses.reverse, a ∈ poolPages pages := by
    intro a ha
    refine h.mem_pool ?_
    rw [← hmoved]
    simp only [Multiset.mem_add, Multiset.mem_coe]
    exact .inr (.inl (.inl ha))
  have hnodup : ((addresses.reverse : Multiset Nat) + m.pool.free).Nodup := by
    refine Multiset.nodup_of_le ?_ h.nodup
    rw [← hmoved]
    exact (Multiset.le_add_right _ _).trans (Multiset.le_add_left _ _)
  -- hence the pool can take the removed pages back: they are distinct, its own, and not free
  obtain ⟨pool', hreclaim, hspans, htidy, hfree, hcontents⟩ :=
    Pool.reclaimAll_of_owns h.spans h.tidy hall hnodup
  have hpages : UserMemory.pagesOf ⟨t', pool'⟩ = m.pagesOf := by
    rw [← hmoved, ← hfree]
    exact add_comm _ _
  have hmem {a : Nat} (ha : a ∈ t'.residents) : a ∈ m.pagesOf := by
    rw [← hmoved]
    exact Multiset.mem_add.mpr (.inr ha)
  refine ⟨addresses.length, ⟨t', pool'⟩, ?_, ⟨⟨hspans, htidy, ?_, ?_⟩, hpages, ?_, ?_⟩, hlookup,
    fun a ha => hcontents a (h.mem_pool (Multiset.mem_add.mpr (.inr (hmem ha)))) fun hgone => ?_⟩
  · unfold UserMemory.unmap
    rw [unmap_page (hle.trans (Nat.le_add_right _ 2)), hremoved, ← List.map_reverse]
    simp only [bind, Except.bind, hreclaim]
    simp [pure, Except.pure, ht']
  · exact h.pooled.unmapPages base count
  · rw [hpages]
    exact h.fits
  · intro n hn
    rw [hlookup, if_neg]
    omega
  · intro a ha
    obtain ⟨hpool, hnot⟩ := h.of_mem_others ha
    refine hcontents a hpool fun hmem => hnot ?_
    rw [← hmoved]
    simp only [Multiset.mem_add, Multiset.mem_coe]
    exact .inl (.inl hmem)
  · -- what was given back is not resident any more
    have hnodup := (Multiset.nodup_add.mp h.nodup).2.1
    rw [← hmoved] at hnodup
    refine Multiset.disjoint_left.mp (Multiset.nodup_add.mp hnodup).2.2 ?_ ha
    exact Multiset.mem_add.mpr (.inl (Multiset.mem_coe.mpr hgone))

/-- A size within the user pages can be rounded up to a page. -/
theorem pageUp_of_le {size : Nat} (h : pagesIn size ≤ userPages) :
    pageUp size = .ok (pagesIn size * pageSize) := by
  refine pageUp_eq_ok.mpr ⟨?_, rfl⟩
  unfold pagesIn userPages frameAddress trampolineAddress addressLimit pageSize at h
  unfold wordLimit pageSize
  omega

/-- More bytes do not fill fewer pages. -/
theorem pagesIn_le_pagesIn {a b : Nat} (h : a ≤ b) : pagesIn a ≤ pagesIn b :=
  Nat.div_le_div_right (Nat.add_le_add_right h _)

/-- Shrinking gives the pages between the new and the old size back. -/
theorem Sound.shrink (h : m.Sound pages others) {old : Nat} (hold : pagesIn old ≤ userPages)
    (new : Nat) :
    ∃ m', m.shrink old new = .ok (min old new, m') ∧ Kept pages others m m' ∧
      ∀ n, m'.table.lookup (n * pageSize) =
        if pagesIn new ≤ n ∧ n < pagesIn old then none else m.table.lookup (n * pageSize) := by
  have hnone (hle : pagesIn old ≤ pagesIn new) (n : Nat) : m.table.lookup (n * pageSize) =
      if pagesIn new ≤ n ∧ n < pagesIn old then none else m.table.lookup (n * pageSize) := by
    rw [if_neg]
    omega
  unfold UserMemory.shrink
  by_cases hsize : old ≤ new
  · rw [if_pos hsize, Nat.min_eq_left hsize]
    exact ⟨m, rfl, h.kept, hnone (pagesIn_le_pagesIn hsize)⟩
  have hnew : new ≤ old := Nat.le_of_not_le hsize
  rw [if_neg hsize, Nat.min_eq_right hnew,
    pageUp_of_le ((pagesIn_le_pagesIn hnew).trans hold), pageUp_of_le hold]
  simp only [bind, Except.bind]
  -- there are pages between the two sizes, or both sizes fill the same
  by_cases hlt : pagesIn new * pageSize < pagesIn old * pageSize
  · have hnum : pagesIn new < pagesIn old := Nat.lt_of_mul_lt_mul_right hlt
    have hcount : (pagesIn old * pageSize - pagesIn new * pageSize) / pageSize =
        pagesIn old - pagesIn new := by
      rw [← Nat.sub_mul, Nat.mul_div_cancel _ (by decide)]
    have hstop : pagesIn new + (pagesIn old - pagesIn new) = pagesIn old := by omega
    obtain ⟨removed, m', hunmap, hkept, hlookup, -⟩ :=
      h.unmap (show pagesIn new + (pagesIn old - pagesIn new) ≤ userPages from hstop.symm ▸ hold)
    rw [if_pos hlt, hcount, hunmap]
    refine ⟨m', rfl, hkept, fun n => ?_⟩
    rw [hlookup, hstop]
  · rw [if_neg hlt]
    exact ⟨m, rfl, h.kept, hnone (Nat.le_of_mul_le_mul_right (Nat.not_lt.mp hlt) (by decide))⟩

/-- Clearing gives all pages below a size back. -/
theorem Sound.clear (h : m.Sound pages others) {size : Nat} (hsize : pagesIn size ≤ userPages) :
    ∃ m', m.clear size = .ok m' ∧ Kept pages others m m' ∧
      ∀ n, m'.table.lookup (n * pageSize) =
        if n < pagesIn size then none else m.table.lookup (n * pageSize) := by
  unfold UserMemory.clear
  by_cases hzero : size = 0
  · rw [if_pos hzero, hzero]
    exact ⟨m, rfl, h.kept, fun n => (if_neg (Nat.not_lt_zero n)).symm⟩
  obtain ⟨removed, m', hunmap, hkept, hlookup, -⟩ :=
    h.unmap (show 0 + pagesIn size ≤ userPages from (Nat.zero_add _).symm ▸ hsize)
  rw [Nat.zero_mul] at hunmap
  rw [if_neg hzero, pageUp_of_le hsize]
  simp only [bind, Except.bind, Nat.mul_div_cancel (pagesIn size) (show 0 < pageSize by decide),
    hunmap]
  refine ⟨m', rfl, hkept, fun n => ?_⟩
  rw [hlookup]
  simp only [Nat.zero_le, true_and, Nat.zero_add]

/-! ### Adding pages -/

/-- What comes of a page that is in hand: it is mapped where nothing was, or given back. -/
structure Adopted (pages : Nat) (others : Multiset Nat) (address n : Nat)
    (permissions : Permissions) (m : UserMemory) (result : Except MemoryError Unit)
    (m' : UserMemory) : Prop where
  sound : m'.Sound pages others
  pagesOf_eq : m'.pagesOf = address ::ₘ m.pagesOf
  of_ok : result = .ok () → n < userPages ∧ m.table.lookup (n * pageSize) = none ∧
    ∀ k, m'.table.lookup (k * pageSize) =
      if k = n then some (.pooled address, permissions.validated) else m.table.lookup (k * pageSize)
  of_error : ∀ e, result = .error e → m'.table = m.table ∧ m.table.isMapped (n * pageSize)
  /-- Only the page in hand may have been written. -/
  contents_eq : ∀ a ∈ poolPages pages, a ≠ address →
    m'.pool.contents (.pooled a) = m.pool.contents (.pooled a)
  pool_of_ok : result = .ok () → m'.pool = m.pool

/-- A page in hand is one of the pool that is not free. -/
theorem Sound.mem_of_hand {address : Nat} (h : m.Sound pages (address ::ₘ others)) :
    address ∈ poolPages pages ∧ address ∉ m.pool.free := by
  refine ⟨h.mem_pool (Multiset.mem_add.mpr (.inl (Multiset.mem_cons_self _ _))), fun hmem => ?_⟩
  have hnodup := h.nodup
  rw [Multiset.cons_add] at hnodup
  refine (Multiset.nodup_cons.mp hnodup).1 ?_
  rw [Multiset.mem_add, mem_pagesOf]
  exact .inr (.inr hmem)

/-- Giving back a page that is in hand. -/
theorem Sound.release {address : Nat} (h : m.Sound pages (address ::ₘ others)) :
    ∃ pool, m.pool.release address = .ok pool ∧
      UserMemory.Sound pages others ⟨m.table, pool⟩ ∧
      UserMemory.pagesOf ⟨m.table, pool⟩ = address ::ₘ m.pagesOf ∧
      ∀ a ∈ poolPages pages, a ≠ address →
        pool.contents (.pooled a) = m.pool.contents (.pooled a) := by
  obtain ⟨hmem, hfree⟩ := h.mem_of_hand
  obtain ⟨pool, hrelease⟩ := Pool.release_of_owns ((Pool.owns_iff h.spans).mpr hmem)
  have hpages : UserMemory.pagesOf ⟨m.table, pool⟩ = address ::ₘ m.pagesOf := by
    unfold pagesOf
    rw [(Pool.of_release hrelease).2.2.2.1, ← Multiset.cons_coe, Multiset.add_cons]
  refine ⟨pool, hrelease, ⟨h.spans.release hrelease, h.tidy.release hfree hrelease, h.pooled, ?_⟩,
    hpages, fun a ha hne => Pool.contents_of_release h.spans hrelease ha hne.symm⟩
  rw [hpages, Multiset.add_cons, ← Multiset.cons_add]
  exact h.fits

/-- A page in hand is mapped where nothing was, or given back if something is mapped there. -/
theorem Sound.adopt {address n : Nat} (h : m.Sound pages (address ::ₘ others))
    (hn : n ≤ userPages) (hmapped : n = userPages → m.table.isMapped (n * pageSize))
    (permissions : Permissions) :
    ∃ result m', m.adopt (n * pageSize) address permissions = .ok (result, m') ∧
      Adopted pages others address n permissions m result m' := by
  obtain ⟨hmem, hfree⟩ := h.mem_of_hand
  have halign : address % pageSize = 0 := (mem_poolPages.mp hmem).1
  have hword : n * pageSize + pageSize < wordLimit := by
    unfold userPages frameAddress trampolineAddress addressLimit at hn
    unfold wordLimit
    unfold pageSize at hn ⊢
    omega
  have hlimit : ¬ addressLimit ≤ n * pageSize := by
    unfold userPages frameAddress trampolineAddress at hn
    unfold addressLimit at hn ⊢
    unfold pageSize at hn ⊢
    omega
  have hmap := PageTable.map_page (t := m.table) (Nat.mul_mod_left n pageSize) hword
    (show (Physical.pooled address).advance 0 = .ok (.pooled address) from rfl) permissions
  -- neither the address nor the page can be at fault: only whether something is mapped there
  -- matters
  rw [if_neg hlimit] at hmap
  unfold UserMemory.adopt
  rw [hmap]
  simp only [bind, Except.bind]
  by_cases hm : m.table.isMapped (n * pageSize)
  · rw [if_pos hm]
    obtain ⟨pool, hrelease, hsound, hpages, hcontents⟩ := h.release
    simp only [hrelease]
    exact ⟨_, _, rfl, hsound, hpages, by rintro ⟨⟩, fun _ _ => ⟨rfl, hm⟩, hcontents, by rintro ⟨⟩⟩
  · have hlt : n < userPages := lt_of_le_of_ne hn fun heq => hm (hmapped heq)
    have hnone : m.table.lookup (n * pageSize) = none := by
      simpa [PageTable.isMapped] using hm
    rw [if_neg hm]
    have hpages : UserMemory.pagesOf ⟨m.table.withPage (n * pageSize) (.pooled address) permissions,
        m.pool⟩ = address ::ₘ m.pagesOf := by
      unfold pagesOf
      rw [PageTable.residents_withPage hlt hnone halign, Multiset.cons_add]
    refine ⟨_, _, rfl, ⟨h.spans, h.tidy, h.pooled.withPage hlt, ?_⟩, hpages,
      fun _ => ⟨hlt, hnone, fun k => ?_⟩, by rintro _ ⟨⟩, fun _ _ _ => rfl, fun _ => rfl⟩
    · rw [hpages, Multiset.add_cons, ← Multiset.cons_add]
      exact h.fits
    · rw [PageTable.lookup_withPage_page hlt, Physical.page, pageDown_of_aligned halign]

/-- Taking a page in hand. -/
theorem Sound.alloc {address : Nat} {pool : Pool} (h : m.Sound pages others)
    (halloc : m.pool.alloc = some (address, pool)) :
    UserMemory.Sound pages (address ::ₘ others) ⟨m.table, pool⟩ ∧
      address ::ₘ UserMemory.pagesOf ⟨m.table, pool⟩ = m.pagesOf := by
  have hpages : address ::ₘ UserMemory.pagesOf ⟨m.table, pool⟩ = m.pagesOf := by
    unfold pagesOf
    rw [Pool.free_eq_of_alloc halloc, ← Multiset.cons_coe, Multiset.add_cons]
  refine ⟨⟨h.spans.alloc halloc, h.tidy.alloc halloc, h.pooled, ?_⟩, hpages⟩
  rw [Multiset.cons_add, ← Multiset.add_cons, hpages]
  exact h.fits

/-- A page that is taken in hand was free, and is not any more. -/
theorem Sound.of_alloc {address : Nat} {pool : Pool} (h : m.Sound pages others)
    (halloc : m.pool.alloc = some (address, pool)) :
    address ∈ poolPages pages ∧ address ∈ m.pool.free ∧ (∀ a ∈ pool.free, a ∈ m.pool.free) ∧
      ∀ a ∈ poolPages pages, a ∉ m.pool.free →
        pool.contents (.pooled a) = m.pool.contents (.pooled a) := by
  have hfree := Pool.free_eq_of_alloc halloc
  have hmem : address ∈ m.pool.free := hfree ▸ List.mem_cons_self
  have hpool : address ∈ poolPages pages :=
    h.mem_pool (Multiset.mem_add.mpr (.inr (mem_pagesOf.mpr (.inr hmem))))
  refine ⟨hpool, hmem, fun a ha => hfree ▸ List.mem_cons_of_mem address ha, fun a ha hnot => ?_⟩
  exact Pool.contents_of_alloc h.spans halloc hpool ha fun heq => hnot (heq ▸ hmem)

/-- A page from the pool that is given back after all, filled or not. -/
theorem Sound.put_back {address : Nat} {pool filled : Pool} (h : m.Sound pages others)
    (halloc : m.pool.alloc = some (address, pool))
    (hsound : Sound pages (address ::ₘ others) ⟨m.table, filled⟩)
    (hpages : UserMemory.pagesOf ⟨m.table, filled⟩ = UserMemory.pagesOf ⟨m.table, pool⟩)
    (hcontents : ∀ a ∈ poolPages pages, a ≠ address →
      filled.contents (.pooled a) = pool.contents (.pooled a)) :
    ∃ pool', filled.release address = .ok pool' ∧ Kept pages others m ⟨m.table, pool'⟩ ∧
      Spared pages m ⟨m.table, pool'⟩ := by
  obtain ⟨-, hmoved⟩ := h.alloc halloc
  obtain ⟨hpool, hfree, -, htaken⟩ := h.of_alloc halloc
  obtain ⟨pool', hrelease, hsound', hpages', hreleased⟩ := hsound.release
  have hsame : UserMemory.pagesOf ⟨m.table, pool'⟩ = m.pagesOf := by rw [hpages', hpages, hmoved]
  have hspared : Spared pages m ⟨m.table, pool'⟩ := by
    refine ⟨fun a ha => ?_, fun a ha hnot => ?_⟩
    · have heq : m.table.residents + pool'.free = m.table.residents + m.pool.free := hsame
      rw [add_right_inj, Multiset.coe_eq_coe] at heq
      exact heq.mem_iff.mp ha
    · have hne : a ≠ address := fun heq => hnot (heq ▸ hfree)
      rw [hreleased a ha hne, hcontents a ha hne, htaken a ha hnot]
  exact ⟨pool', hrelease, ⟨hsound', hsame, fun _ _ => rfl, hspared.contents_others h⟩, hspared⟩

/-- What comes of a page from the pool that is filled and mapped: nothing is lost whatever comes of
it. -/
structure Placed (pages : Nat) (others : Multiset Nat) (address n : Nat) (page : Page)
    (permissions : Permissions) (m : UserMemory) (result : Except MemoryError Unit)
    (m' : UserMemory) : Prop extends Kept pages others m m', Spared pages m m' where
  mem_free : address ∈ m.pool.free
  of_ok : result = .ok () → n < userPages ∧ m.table.lookup (n * pageSize) = none ∧
    (∀ k, m'.table.lookup (k * pageSize) = if k = n then
      some (.pooled address, permissions.validated) else m.table.lookup (k * pageSize)) ∧
    m'.pool.contents (.pooled address) = page ∧ address ∉ m'.pool.free
  of_error : ∀ e, result = .error e → m'.table = m.table ∧ m.table.isMapped (n * pageSize)

/-- A page from the pool, filled and mapped. -/
theorem Sound.adopt_fresh {address n : Nat} {pool : Pool} (h : m.Sound pages others)
    (halloc : m.pool.alloc = some (address, pool)) (page : Page) (hn : n ≤ userPages)
    (hmapped : n = userPages → m.table.isMapped (n * pageSize)) (permissions : Permissions) :
    ∃ result m', UserMemory.adopt { m with pool := pool.setContents page (.pooled address) }
        (n * pageSize) address permissions = .ok (result, m') ∧
      Placed pages others address n page permissions m result m' := by
  obtain ⟨hsound, hmoved⟩ := h.alloc halloc
  obtain ⟨hpool, hmem, hsubset, htaken⟩ := h.of_alloc halloc
  have hset := hsound.setContents page (.pooled address)
  have hfilled : (pool.setContents page (.pooled address)).contents (.pooled address) = page :=
    Pool.contents_setContents_self hsound.spans hpool page
  have hfree := hset.mem_of_hand.2
  obtain ⟨result, m', hadopt, hadopted⟩ := hset.adopt hn hmapped permissions
  have hpages : m'.pagesOf = m.pagesOf := by
    rw [hadopted.pagesOf_eq, pagesOf_setContents, hmoved]
  -- whatever became of the page, only a free one was written
  have hspared : Spared pages m m' := by
    refine ⟨fun a ha => ?_, fun a ha hnot => ?_⟩
    · cases result with
      | ok _ =>
        rw [hadopted.pool_of_ok rfl, Pool.free_setContents] at ha
        exact hsubset a ha
      | error e =>
        have heq : m'.table.residents + m'.pool.free = m.table.residents + m.pool.free := hpages
        rw [(hadopted.of_error e rfl).1, add_right_inj, Multiset.coe_eq_coe] at heq
        exact heq.mem_iff.mp ha
    · have hne : a ≠ address := fun heq => hnot (heq ▸ hmem)
      rw [hadopted.contents_eq a ha hne, ← htaken a ha hnot]
      exact Pool.contents_setContents_of_ne hsound.spans hpool ha hne.symm page
  refine ⟨result, m', hadopt, ⟨hadopted.sound, hpages, fun k hk => ?_,
    hspared.contents_others h⟩, hspared, hmem, fun hok => ?_, hadopted.of_error⟩
  · cases result with
    | error e => rw [(hadopted.of_error e rfl).1]
    | ok _ =>
      obtain ⟨hlt, -, hlookup⟩ := hadopted.of_ok rfl
      rw [hlookup, if_neg]
      omega
  · obtain ⟨hlt, hnone, hlookup⟩ := hadopted.of_ok hok
    rw [hadopted.pool_of_ok hok]
    exact ⟨hlt, hnone, hlookup, hfilled, hfree⟩

/-- From page `n` up to page `stop` a table has new pages, elsewhere nothing changed. -/
structure Extended (n stop : Nat) (permissions : Permissions) (t t' : PageTable) : Prop where
  le : n ≤ stop
  fresh : ∀ k, n ≤ k → k < stop → t.lookup (k * pageSize) = none ∧
    ∃ address, t'.lookup (k * pageSize) = some (.pooled address, permissions.validated)
  same : ∀ k, ¬ (n ≤ k ∧ k < stop) → t'.lookup (k * pageSize) = t.lookup (k * pageSize)

/-- No page was added yet. -/
theorem Extended.refl (n : Nat) (permissions : Permissions) (t : PageTable) :
    Extended n n permissions t t :=
  ⟨Nat.le_refl n, fun _ hle hlt => absurd hle (Nat.not_le.mpr hlt), fun _ _ => rfl⟩

/-- One new page, and then those that follow it. -/
theorem Extended.cons {n stop address : Nat} {permissions : Permissions} {t t₁ t' : PageTable}
    (hnone : t.lookup (n * pageSize) = none)
    (hlookup : ∀ k, t₁.lookup (k * pageSize) = if k = n then
      some (.pooled address, permissions.validated) else t.lookup (k * pageSize))
    (h : Extended (n + 1) stop permissions t₁ t') : Extended n stop permissions t t' where
  le := Nat.le_of_succ_le h.le
  fresh k hle hlt := by
    by_cases hk : k = n
    · subst hk
      refine ⟨hnone, address, ?_⟩
      rw [h.same k (by omega), hlookup, if_pos rfl]
    · obtain ⟨hfresh, hmapped⟩ := h.fresh k (by omega) hlt
      rw [hlookup, if_neg hk] at hfresh
      exact ⟨hfresh, hmapped⟩
  same k hk := by
    have hle := h.le
    rw [h.same k (by omega), hlookup, if_neg (by omega)]

/-- Adding pages gets as far as there is room and memory. -/
theorem Sound.addPages (h : m.Sound pages others) {n : Nat} (hn : n ≤ userPages)
    (hframe : m.table.isMapped (userPages * pageSize)) (permissions : Permissions) (count : Nat) :
    ∃ result m', m.addPages (n * pageSize) permissions count = .ok (result, m') ∧
      Kept pages others m m' ∧ ∃ stop ≤ userPages, Extended n stop permissions m.table m'.table ∧
        (result = .ok () → stop = n + count) ∧
        ∀ virtual e, result = .error (virtual, e) → virtual = stop * pageSize ∧
          stop < n + count ∧ (m.table.isMapped (stop * pageSize) ∨ m'.pool.free = []) := by
  -- by pages: the table is extended by one, and then up to where the rest stops
  induction count generalizing n m with
  | zero =>
    exact ⟨_, m, rfl, h.kept, n, hn, .refl .., fun _ => rfl, nofun⟩
  | succ count ih =>
    unfold UserMemory.addPages
    cases halloc : m.pool.alloc with
    | none =>
      refine ⟨_, m, rfl, h.kept, n, hn, .refl .., nofun, fun v e heq => ?_⟩
      cases heq
      exact ⟨rfl, by omega, .inr (Pool.alloc_eq_none_iff.mp halloc)⟩
    -- a page is there: it is filled, mapped, and the rest follows, or the attempt ends with it
    | some taken =>
      obtain ⟨address, pool⟩ := taken
      obtain ⟨result, m₁, hadopt, hplaced⟩ := h.adopt_fresh halloc Page.zero hn
        (fun heq => heq ▸ hframe) permissions
      have hkept := hplaced.toKept
      simp only [hadopt, bind, Except.bind]
      cases result with
      | error e =>
        obtain ⟨htable, hmapped⟩ := hplaced.of_error e rfl
        refine ⟨_, m₁, rfl, hkept, n, hn, htable ▸ .refl .., nofun, fun v e heq => ?_⟩
        cases heq
        exact ⟨rfl, by omega, .inl hmapped⟩
      | ok _ =>
        obtain ⟨hlt, hnone, hlookup, -⟩ := hplaced.of_ok rfl
        have hframe₁ := hkept.isMapped_above (Nat.le_refl userPages) hframe
        -- the rest begins one page further on, with the trap frame still mapped above it
        obtain ⟨result, m', hadd, hkept', stop, hstop, hext, hok', herror'⟩ :=
          ih hkept.sound hlt hframe₁
        rw [Nat.add_one_mul] at hadd
        refine ⟨result, m', hadd, hkept.trans hkept', stop, hstop, hext.cons hnone hlookup,
          fun heq => by rw [hok' heq]; omega, fun v e heq => ?_⟩
        obtain ⟨hv, hlast, hcause⟩ := herror' v e heq
        refine ⟨hv, by omega, hcause.imp_left fun hm => ?_⟩
        have hle := hext.le
        unfold PageTable.isMapped at hm ⊢
        rwa [hlookup, if_neg (by omega)] at hm

/-- Growing adds all pages up to the new size, or none. -/
theorem Sound.grow (h : m.Sound pages others) {old : Nat} (hold : pagesIn old ≤ userPages)
    (hframe : m.table.isMapped (userPages * pageSize)) (new : Nat) (extra : Permissions) :
    ∃ result m', m.grow old new extra = .ok (result, m') ∧ Kept pages others m m' ∧
      (∀ size, result = .ok size → size = max old new ∧ pagesIn new ≤ userPages ∧
        Extended (pagesIn old) (max (pagesIn old) (pagesIn new)) (basePermissions.union extra)
          m.table m'.table) ∧
      ∀ e, result = .error e →
        (∀ k, m'.table.lookup (k * pageSize) = m.table.lookup (k * pageSize)) ∧
        ∃ stop, pagesIn old ≤ stop ∧ stop < pagesIn new ∧ (m.table.isMapped (stop * pageSize) ∨
          ((∀ k < userPages, m.table.isMapped (k * pageSize) → k < pagesIn old) →
            m.pagesOf.card ≤ stop)) := by
  unfold UserMemory.grow
  by_cases hlt : new < old
  · rw [if_pos hlt]
    have hnew := pagesIn_le_pagesIn hlt.le
    refine ⟨_, m, rfl, h.kept, fun size heq => ?_, nofun⟩
    cases heq
    rw [Nat.max_eq_left hlt.le, Nat.max_eq_left hnew]
    exact ⟨rfl, hnew.trans hold, .refl ..⟩
  · have hle := Nat.not_lt.mp hlt
    have hnew := pagesIn_le_pagesIn hle
    have hcount : pagesIn (new - pagesIn old * pageSize) = pagesIn new - pagesIn old := by
      unfold pagesIn pageSize
      omega
    rw [if_neg hlt, pageUp_of_le hold]
    -- the pages are added; if that stops before the end, what was added is removed again
    obtain ⟨result, m₁, hadd, hkept, stop, hstop, hext, hok, herror⟩ :=
      h.addPages hold hframe (basePermissions.union extra) (pagesIn new - pagesIn old)
    simp only [bind, Except.bind, hcount, hadd]
    cases result with
    | ok _ =>
      have hstop' : stop = pagesIn new := by
        rw [hok rfl]
        omega
      subst hstop'
      refine ⟨_, m₁, rfl, hkept, fun size heq => ?_, nofun⟩
      cases heq
      rw [Nat.max_eq_right hle, Nat.max_eq_right hnew]
      exact ⟨rfl, hstop, hext⟩
    | error failure =>
      obtain ⟨virtual, e⟩ := failure
      obtain ⟨rfl, hlt', hcause⟩ := herror virtual e rfl
      have hpagesIn : pagesIn (stop * pageSize) = stop := by
        unfold pagesIn pageSize
        omega
      obtain ⟨m₂, hshrink, hkept', hlookup⟩ :=
        hkept.sound.shrink (show pagesIn (stop * pageSize) ≤ userPages from hpagesIn.symm ▸ hstop) old
      simp only [hshrink]
      refine ⟨_, m₂, rfl, hkept.trans hkept', nofun, fun _ _ => ⟨fun k => ?_, stop, hext.le,
        by omega, hcause.imp_right fun hfree hbelow => ?_⟩⟩
      · rw [hlookup, hpagesIn]
        split
        · next hk => exact (hext.fresh k hk.1 hk.2).1.symm
        · next hk => exact hext.same k hk
      · -- all pages that there are were added, below the page that is missing
        have hcard : m.pagesOf.card = m₁.table.residentCount := by
          rw [← hkept.pagesOf_eq, pagesOf, hfree, ← PageTable.card_residents hkept.sound.pooled]
          exact congrArg Multiset.card (add_zero m₁.table.residents)
        rw [hcard]
        refine PageTable.residentCount_le fun k hk hm => ?_
        by_cases hk' : pagesIn old ≤ k ∧ k < stop
        · exact hk'.2
        · unfold PageTable.isMapped at hm
          rw [hext.same k hk'] at hm
          exact (hbelow k hk hm).trans_le hext.le

end UserMemory

end FairKernel
