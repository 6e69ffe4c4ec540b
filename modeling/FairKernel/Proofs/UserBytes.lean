import FairKernel.Proofs.UserMemories

/-!
# Bytes of user memory

What is written to user memory is read back from it. Bytes may lie in several pages; no two of these
are one page of memory, so what is written later does not touch what was written before.

The program reads and writes page by page, and each page through the table of the process. Here both
are told byte by byte: `UserMemory.byte?` is the byte at an address, if there is a page, and
`UserMemory.Reaches` whether user code may get at it. A load answers the bytes up to where it gets
(`exists_load`), a store leaves a memory that differs from the one before in exactly the bytes that
it got to (`Separate.exists_store`, by way of `Overlaid`).

What makes bytes separate is that no page of the pool lies behind two page numbers. A sound memory
has this for the pages below the trap frame (`Sound.separate`); the frame itself is a page of its
own, and `Separate` leaves it open which page numbers are looked at.
-/

namespace FairKernel

/-! ### Bytes of a page -/

namespace Page

/-- The byte at an offset after bytes are written to a page. -/
theorem getElem_write (page : Page) (offset : Nat) (bytes : Bytes) {i : Nat} (hi : i < pageSize) :
    (page.write offset bytes)[i] =
      if h : offset ≤ i ∧ i < offset + bytes.length then bytes[i - offset] else page[i] := by
  induction bytes generalizing page offset with
  | nil =>
    rw [dif_neg fun h => absurd h.2 (Nat.not_lt.mpr h.1)]
    rfl
  | cons byte rest ih =>
    rw [write, ih]
    rcases Nat.lt_trichotomy i offset with hlt | heq | hgt
    · rw [dif_neg (by omega), dif_neg (by omega), Vector.getElem_setIfInBounds_ne hi (by omega)]
    · subst heq
      have hself : (page.setIfInBounds i byte)[i] = byte := Vector.getElem_setIfInBounds_self hi
      rw [dif_neg (by omega), dif_pos ⟨Nat.le_refl i, by rw [List.length_cons]; omega⟩, hself]
      simp only [Nat.sub_self, List.getElem_cons_zero]
    · have hne : (page.setIfInBounds offset byte)[i] = page[i] :=
        Vector.getElem_setIfInBounds_ne hi (by omega)
      have hsub : i - offset = i - (offset + 1) + 1 := by omega
      simp only [hne, List.length_cons, hsub, List.getElem_cons_succ]
      by_cases hin : i < offset + 1 + rest.length
      · rw [dif_pos ⟨by omega, hin⟩, dif_pos ⟨by omega, by omega⟩]
      · rw [dif_neg (by omega), dif_neg (by omega)]

/-- An offset in a page is less than the size of one. -/
theorem mod_pageSize_lt (x : Nat) : x % pageSize < pageSize := Nat.mod_lt x (by decide)

/-- The byte of a page that lies behind an address. -/
def byteAt (page : Page) (x : Nat) : UInt8 := page.get ⟨x % pageSize, mod_pageSize_lt x⟩

/-- What is read of a page that lies behind an address. -/
theorem map_read (page : Page) {x count : Nat} (h : x % pageSize + count ≤ pageSize) :
    (page.read (x % pageSize) count).map some =
      (List.range count).map fun j => some (page.byteAt (x + j)) := by
  refine List.ext_getElem ?_ fun i hi hi' => ?_
  · simp only [read, List.length_map, Array.length_toList, Array.size_extract, Vector.size_toArray,
      List.length_range]
    omega
  · rw [List.length_map, List.length_range] at hi'
    have hindex : x % pageSize + i = (x + i) % pageSize := by
      unfold pageSize at *
      omega
    simp only [List.getElem_map, List.getElem_range, read, Array.getElem_toList,
      Array.getElem_extract, Vector.getElem_toArray, hindex]
    rfl

/-- Bytes that lie in one page are all read. -/
theorem length_read (page : Page) {x count : Nat} (h : x % pageSize + count ≤ pageSize) :
    (page.read (x % pageSize) count).length = count := by
  have hlength := congrArg List.length (page.map_read h)
  rwa [List.length_map, List.length_map, List.length_range] at hlength

/-- The byte behind an address after bytes are written to its page. -/
theorem byteAt_write (page : Page) (offset : Nat) (bytes : Bytes) (x : Nat) :
    some ((page.write offset bytes).byteAt x) =
      if offset ≤ x % pageSize ∧ x % pageSize < offset + bytes.length
      then bytes[x % pageSize - offset]? else some (page.byteAt x) := by
  have hget := getElem_write page offset bytes (mod_pageSize_lt x)
  split at hget
  · next hin =>
    rw [if_pos hin, List.getElem?_eq_getElem (by omega)]
    exact congrArg some hget
  · next hout =>
    rw [if_neg hout]
    exact congrArg some hget

end Page

/-! ### Bytes of several pages -/

namespace UserMemory

variable {pages : Nat} {others : Multiset Nat} {S : Nat → Prop} {m m' : UserMemory} {n : Nat}
  {physical : Physical}

/-- No page of the pool lies behind two page numbers. -/
theorem Sound.page_eq (h : m.Sound pages others) {n' a : Nat}
    {permissions permissions' : Permissions} (hn : n < userPages) (hn' : n' < userPages)
    (hlookup : m.table.lookup (n * pageSize) = some (.pooled a, permissions))
    (hlookup' : m.table.lookup (n' * pageSize) = some (.pooled a, permissions')) : n = n' := by
  have hnodup : (∑ i ∈ Finset.range userPages, m.table.pooledAt i).Nodup :=
    (Multiset.nodup_add.mp (Multiset.nodup_add.mp h.nodup).2.1).1
  exact eq_of_mem_of_nodup_sum hnodup (Finset.mem_range.mpr hn) (Finset.mem_range.mpr hn')
    (PageTable.mem_pooledAt.mpr ⟨_, hlookup⟩) (PageTable.mem_pooledAt.mpr ⟨_, hlookup'⟩)

/-- What is mapped below the trap frame is a page of the pool. -/
theorem Sound.mem_pool_of_lookup (h : m.Sound pages others) {a : Nat} {permissions : Permissions}
    (hn : n < userPages) (hlookup : m.table.lookup (n * pageSize) = some (.pooled a, permissions)) :
    a ∈ poolPages pages := by
  refine h.mem_pool (Multiset.mem_add.mpr (.inr (mem_pagesOf.mpr (.inl ?_))))
  exact PageTable.mem_residents_of_lookup hn hlookup

/-- Among the page numbers of `S`, which are all that user code may use, distinct ones that are
mapped have distinct physical pages. -/
structure Separate (S : Nat → Prop) (pages : Nat) (m : UserMemory) : Prop where
  spans : m.pool.Spans pages
  covers : ∀ n physical permissions, m.table.lookup (n * pageSize) = some (physical, permissions) →
    permissions.user → S n
  isPage : ∀ n physical permissions, S n →
    m.table.lookup (n * pageSize) = some (physical, permissions) → Pool.IsPage pages physical
  distinct : ∀ n n' physical permissions permissions', S n → S n' →
    m.table.lookup (n * pageSize) = some (physical, permissions) →
    m.table.lookup (n' * pageSize) = some (physical, permissions') → n = n'

/-- The pages below the trap frame of a sound memory are separate. -/
theorem Sound.separate (h : m.Sound pages others) (hprivate : m.table.IsPrivate) :
    m.Separate (· < userPages) pages where
  spans := h.spans
  covers n physical permissions := hprivate.lt_userPages
  isPage n physical permissions hn hlookup := by
    obtain ⟨a, rfl⟩ := h.pooled n hn _ _ hlookup
    exact h.mem_pool_of_lookup hn hlookup
  distinct n n' physical permissions permissions' hn hn' hlookup hlookup' := by
    obtain ⟨a, rfl⟩ := h.pooled n hn _ _ hlookup
    exact h.page_eq hn hn' hlookup hlookup'

/-- Pages are still separate when one of them is written. -/
theorem Separate.setContents (h : m.Separate S pages) (page : Page) (physical : Physical) :
    Separate S pages { m with pool := m.pool.setContents page physical } :=
  ⟨h.spans.setContents .., h.covers, h.isPage, h.distinct⟩

/-- What user code may use lies behind a page number of `S`. -/
theorem Separate.of_access (h : m.Separate S pages) {x : Nat} {allowed : Permissions → Bool}
    (hallowed : ∀ p, allowed p → p.user) (haccess : m.access (pageDown x) allowed = .ok physical) :
    S (x / pageSize) ∧ ∃ permissions, allowed permissions ∧
      m.table.lookup (pageDown x) = some (physical, permissions) := by
  obtain ⟨permissions, hok, hlookup⟩ := lookup_of_access haccess
  exact ⟨h.covers _ _ _ hlookup (hallowed permissions hok), permissions, hok, hlookup⟩

/-- The page after that of an address. -/
theorem pageDown_add_pageSize (x : Nat) :
    pageDown x + pageSize = x + (pageSize - x % pageSize) := by
  have hmod := Page.mod_pageSize_lt x
  have hsplit := Nat.div_add_mod' x pageSize
  unfold pageDown
  omega

/-- What is read depends on the table and on the contents of residents only. -/
theorem load_congr (htable : m'.table = m.table)
    (hcontents : ∀ n permissions physical,
      m.table.lookup (n * pageSize) = some (physical, permissions) → permissions.user →
        m'.pool.contents physical = m.pool.contents physical) (address count : Nat) :
    m'.load address count = m.load address count := by
  -- both loads run through the same pages, and each page answers alike
  fun_induction UserMemory.load m address count with
  | case1 =>
    unfold load
    rfl
  | case2 address count hne e haccess =>
    unfold load
    have haccess' : m'.access (pageDown address) Permissions.user = .error e := by
      unfold access at haccess ⊢
      rwa [htable]
    rw [dif_neg hne, haccess']
  | case3 address count hne physical haccess offset piece rest result hload ih =>
    have haccess' : m'.access (pageDown address) Permissions.user = .ok physical := by
      unfold access at haccess ⊢
      rwa [htable]
    have hsame : m'.pool.contents physical = m.pool.contents physical := by
      obtain ⟨permissions, huser, hlookup⟩ := lookup_of_access haccess
      exact hcontents (address / pageSize) permissions physical hlookup huser
    rw [load, dif_neg hne, haccess']
    dsimp only
    rw [hsame, ih, hload]

/-! ### Byte by byte -/

/-- The byte that a memory has at an address, if there is a page. -/
def byte? (m : UserMemory) (x : Nat) : Option UInt8 :=
  (m.table.lookup (pageDown x)).map fun found => (m.pool.contents found.1).byteAt x

/-- The byte at an address is that of the page that lies there. -/
theorem byte?_of_lookup {x : Nat} {physical : Physical} {permissions : Permissions}
    (h : m.table.lookup (pageDown x) = some (physical, permissions)) :
    m.byte? x = some ((m.pool.contents physical).byteAt x) := by
  rw [byte?, h, Option.map_some]

/-- There is a byte at an address exactly if there is a page. -/
theorem byte?_eq_none_iff {x : Nat} : m.byte? x = none ↔ m.table.lookup (pageDown x) = none :=
  Option.map_eq_none_iff

/-- Bytes are told by the pages that lie at the same place in two tables. -/
theorem byte?_congr {x : Nat} (hlookup : m'.table.lookup (pageDown x) = m.table.lookup (pageDown x))
    (hcontents : ∀ physical permissions,
      m.table.lookup (pageDown x) = some (physical, permissions) →
        m'.pool.contents physical = m.pool.contents physical) : m'.byte? x = m.byte? x := by
  unfold byte?
  rw [hlookup]
  cases hfound : m.table.lookup (pageDown x) with
  | none => rfl
  | some found => rw [Option.map_some, Option.map_some, hcontents _ _ hfound]

/-- A page that stays where it is was not free, so it keeps its bytes while only free pages are
written. -/
theorem Sound.byte?_of_spared (h : m.Sound pages others) (hspared : Spared pages m m') {x : Nat}
    (hx : x / pageSize < userPages)
    (hlookup : m'.table.lookup (pageDown x) = m.table.lookup (pageDown x)) :
    m'.byte? x = m.byte? x := by
  refine byte?_congr hlookup fun physical permissions hfound => ?_
  obtain ⟨a, rfl⟩ := h.pooled _ hx _ _ hfound
  refine hspared.contents_same a (h.mem_pool_of_lookup hx hfound) fun hfree => ?_
  have hnodup := (Multiset.nodup_add.mp h.nodup).2.1
  exact Multiset.disjoint_left.mp (Multiset.nodup_add.mp hnodup).2.2
    (PageTable.mem_residents_of_lookup hx hfound) (Multiset.mem_coe.mpr hfree)

/-- Whether user code gets at an address in the way that `allowed` tests. -/
def Reaches (m : UserMemory) (allowed : Permissions → Bool) (x : Nat) : Prop :=
  ∃ physical, m.access (pageDown x) allowed = .ok physical

/-- User code gets at an address if its page is mapped and may be used so. -/
theorem reaches_iff {allowed : Permissions → Bool} {x : Nat} : m.Reaches allowed x ↔
    ∃ physical permissions, m.table.lookup (pageDown x) = some (physical, permissions) ∧
      allowed permissions := by
  constructor
  · rintro ⟨physical, haccess⟩
    obtain ⟨permissions, hallowed, hlookup⟩ := lookup_of_access haccess
    exact ⟨physical, permissions, hlookup, hallowed⟩
  · rintro ⟨physical, permissions, hlookup, hallowed⟩
    refine ⟨physical, ?_⟩
    unfold access
    rw [hlookup]
    exact if_pos hallowed

/-- How far an access from address `x` on to `count` bytes gets: to the end, or to the first page
that cannot be used. -/
def GetsTo (m : UserMemory) (allowed : Permissions → Bool) (x count i : Nat)
    (result : Except MemoryError Unit) : Prop :=
  (∀ j < i, m.Reaches allowed (x + j)) ∧
    ((result = .ok () ∧ i = count) ∨
      ∃ e, result = .error e ∧ i < count ∧ m.access (pageDown (x + i)) allowed = .error e)

/-- Addresses in one page have the same page. -/
theorem pageDown_eq_of_lt {x j : Nat} (h : j < pageSize - x % pageSize) :
    pageDown (x + j) = pageDown x := by
  unfold pageDown
  unfold pageSize at *
  omega

/-- An access gets no further than it goes. -/
theorem GetsTo.le {allowed : Permissions → Bool} {x count i : Nat}
    {result : Except MemoryError Unit} (h : m.GetsTo allowed x count i result) : i ≤ count := by
  rcases h.2 with ⟨-, heq⟩ | ⟨-, -, hlt, -⟩
  · exact heq.le
  · exact hlt.le

/-- An access to a first page that may not be used so gets nowhere. -/
theorem GetsTo.of_error {allowed : Permissions → Bool} {x count : Nat} {e : MemoryError}
    (hcount : 0 < count) (h : m.access (pageDown x) allowed = .error e) :
    m.GetsTo allowed x count 0 (.error e) :=
  ⟨fun _ hj => absurd hj (Nat.not_lt_zero _), .inr ⟨e, rfl, hcount, h⟩⟩

/-- An access goes on in the next page. -/
theorem GetsTo.next {allowed : Permissions → Bool} {x count i : Nat}
    {result : Except MemoryError Unit} {physical : Physical}
    (hfirst : m.access (pageDown x) allowed = .ok physical)
    (h : m.GetsTo allowed (pageDown x + pageSize) (count - (pageSize - x % pageSize)) i result) :
    m.GetsTo allowed x count (min (pageSize - x % pageSize) count + i) result := by
  have hmod := Page.mod_pageSize_lt x
  have hbase := pageDown_add_pageSize x
  have hcount := h.le
  refine ⟨fun j hj => ?_, ?_⟩
  · by_cases hin : j < pageSize - x % pageSize
    · exact ⟨physical, (congrArg (m.access · allowed) (pageDown_eq_of_lt hin)).trans hfirst⟩
    · have hreach := h.1 (j - (pageSize - x % pageSize)) (by omega)
      rwa [hbase, Nat.add_assoc, Nat.add_sub_cancel' (Nat.le_of_not_lt hin)] at hreach
  · refine h.2.imp (fun ⟨hok, heq⟩ => ⟨hok, by omega⟩) fun ⟨e, herror, hlt, hstuck⟩ => ?_
    have hle : pageSize - x % pageSize ≤ count := by omega
    refine ⟨e, herror, by omega, ?_⟩
    rwa [Nat.min_eq_left hle, ← Nat.add_assoc, ← hbase]

/-- **Loads, byte by byte.** -/
theorem exists_load (m : UserMemory) (x count : Nat) : ∃ i,
    m.GetsTo Permissions.user x count i (m.load x count).2 ∧
      (m.load x count).1.map some = (List.range i).map fun j => m.byte? (x + j) := by
  fun_induction UserMemory.load m x count with
  | case1 => exact ⟨0, ⟨fun _ hj => absurd hj (Nat.not_lt_zero _), .inl ⟨rfl, rfl⟩⟩, rfl⟩
  | case2 x count hne e haccess =>
    exact ⟨0, .of_error (Nat.pos_of_ne_zero hne) haccess, rfl⟩
  | case3 x count hne physical haccess offset piece rest result hload ih =>
    obtain ⟨i, hgets, hbytes⟩ := ih
    rw [hload] at hgets hbytes
    refine ⟨_, hgets.next haccess, ?_⟩
    have hlookup := lookup_of_access haccess
    have hpiece : piece.map some = (List.range (min (pageSize - x % pageSize) count)).map
        fun j => m.byte? (x + j) := by
      have hmod := Page.mod_pageSize_lt x
      have hfits : x % pageSize + min (pageSize - x % pageSize) count ≤ pageSize := by omega
      rw [Page.map_read _ hfits]
      refine List.map_congr_left fun j hj => ?_
      have hpage := pageDown_eq_of_lt ((List.mem_range.mp hj).trans_le (Nat.min_le_left _ _))
      obtain ⟨permissions, -, hfound⟩ := hlookup
      rw [← hpage] at hfound
      exact (byte?_of_lookup hfound).symm
    rw [List.map_append, hpiece, hbytes, List.range_add, List.map_append, List.map_map]
    refine congrArg _ (List.map_congr_left fun j hj => ?_)
    have hlt : j < i := List.mem_range.mp hj
    have hle := hgets.le
    rw [Function.comp_apply, Nat.min_eq_left (by omega), ← Nat.add_assoc, ← pageDown_add_pageSize]

/-- The memory after bytes are written to a page from an offset on. -/
def writePage (m : UserMemory) (physical : Physical) (offset : Nat) (bytes : Bytes) : UserMemory :=
  { m with pool := m.pool.setContents ((m.pool.contents physical).write offset bytes) physical }

/-- After bytes are written to one page, those of that page are as written, and all others as
before. -/
theorem Separate.byte?_writePage (h : m.Separate S pages) {x : Nat} {permissions : Permissions}
    (hx : S (x / pageSize)) (hlookup : m.table.lookup (pageDown x) = some (physical, permissions))
    (bytes : Bytes) {y : Nat} (hy : S (y / pageSize)) :
    (m.writePage physical (x % pageSize) (bytes.take (pageSize - x % pageSize))).byte? y =
      if x ≤ y ∧ y < x + min (pageSize - x % pageSize) bytes.length then bytes[y - x]?
      else m.byte? y := by
  have hmod := Page.mod_pageSize_lt x
  have hpage := h.isPage _ _ _ hx hlookup
  have hsplit := Nat.div_add_mod' y pageSize
  have hsplit' := Nat.div_add_mod' x pageSize
  by_cases hnum : y / pageSize = x / pageSize
  · have hdown : pageDown y = pageDown x := congrArg (· * pageSize) hnum
    rw [← hdown] at hlookup
    rw [byte?_of_lookup (m := m.writePage physical (x % pageSize) _) hlookup,
      byte?_of_lookup hlookup, writePage, Pool.contents_setContents h.spans hpage hpage,
      if_pos rfl, Page.byteAt_write, List.length_take]
    rw [hnum] at hsplit
    by_cases hin : x % pageSize ≤ y % pageSize ∧
        y % pageSize < x % pageSize + min (pageSize - x % pageSize) bytes.length
    · have hindex : y % pageSize - x % pageSize = y - x := by omega
      rw [if_pos hin, if_pos (by omega), hindex, List.getElem?_take_of_lt (by omega)]
    · rw [if_neg hin, if_neg (by omega)]
  · rw [if_neg fun hin => hnum ?_]
    -- no page has two addresses, so the other one is not written
    · refine byte?_congr rfl fun other permissions' hfound => ?_
      rw [writePage, Pool.contents_setContents h.spans hpage (h.isPage _ _ _ hy hfound), if_neg]
      rintro rfl
      exact hnum (h.distinct _ _ _ _ _ hy hx hfound hlookup)
    · unfold pageSize at *
      omega

/-- What is left of a memory after the bytes from `x` on up to `stop` were written to it. -/
structure Overlaid (S : Nat → Prop) (pages : Nat) (m : UserMemory) (x : Nat) (bytes : Bytes)
    (stop : Nat) (m' : UserMemory) : Prop where
  table_eq : m'.table = m.table
  /-- Of the pool nothing has changed but what pages hold. -/
  pool_eq : ∃ held rest, m'.pool = { m.pool with pages := held, rest }
  byte?_eq : ∀ y, S (y / pageSize) →
    m'.byte? y = if x ≤ y ∧ y < stop then bytes[y - x]? else m.byte? y
  /-- Pages that lie behind none of the bytes hold what they held. -/
  contents_eq : ∀ physical, Pool.IsPage pages physical →
    (∀ y, x ≤ y → y < stop → ∀ permissions,
      m.table.lookup (pageDown y) ≠ some (physical, permissions)) →
    m'.pool.contents physical = m.pool.contents physical

/-- Nothing was written yet. -/
theorem Overlaid.refl (S : Nat → Prop) (pages : Nat) (m : UserMemory) (x : Nat) (bytes : Bytes) :
    m.Overlaid S pages x bytes (x + 0) m :=
  ⟨rfl, ⟨_, _, rfl⟩, fun _ _ => (if_neg (by omega)).symm, fun _ _ _ => rfl⟩

/-- Bytes are written to one page, and then the others from the next page on. -/
theorem Separate.overlaid_next (h : m.Separate S pages) {x : Nat} {permissions : Permissions}
    (hx : S (x / pageSize)) (hlookup : m.table.lookup (pageDown x) = some (physical, permissions))
    {bytes : Bytes} (hne : bytes ≠ []) {i : Nat}
    (hi : i ≤ bytes.length - (pageSize - x % pageSize))
    (hnext : (m.writePage physical (x % pageSize) (bytes.take (pageSize - x % pageSize))).Overlaid
      S pages (pageDown x + pageSize) (bytes.drop (pageSize - x % pageSize))
      (pageDown x + pageSize + i) m') :
    m.Overlaid S pages x bytes (x + (min (pageSize - x % pageSize) bytes.length + i)) m' where
  table_eq := hnext.table_eq
  pool_eq := by
    obtain ⟨held, rest, heq⟩ := hnext.pool_eq
    obtain ⟨held', rest', heq'⟩ := Pool.exists_setContents_eq m.pool
      ((m.pool.contents physical).write (x % pageSize) (bytes.take (pageSize - x % pageSize)))
      physical
    refine ⟨held, rest, ?_⟩
    rw [heq, writePage]
    dsimp only
    rw [heq']
  byte?_eq y hy := by
    have hmod := Page.mod_pageSize_lt x
    -- a byte beyond the first page is written later, or it is one of the first page, or none at all
    rw [hnext.byte?_eq y hy, pageDown_add_pageSize, h.byte?_writePage hx hlookup bytes hy,
      List.getElem?_drop]
    by_cases hlater : x + (pageSize - x % pageSize) ≤ y ∧ y < x + (pageSize - x % pageSize) + i
    · rw [if_pos hlater, if_pos (by omega)]
      exact congrArg (bytes[·]?) (by omega)
    · rw [if_neg hlater]
      by_cases hin : x ≤ y ∧ y < x + min (pageSize - x % pageSize) bytes.length
      · rw [if_pos hin, if_pos (by omega)]
      · rw [if_neg hin, if_neg (by omega)]
  contents_eq other hother hout := by
    have hmod := Page.mod_pageSize_lt x
    have hpos := List.length_pos_iff.mpr hne
    -- a page without any of the addresses is neither the first one nor written later
    rw [hnext.contents_eq other hother fun y hlow hhigh => hout y ?_ ?_,
      writePage, Pool.contents_setContents h.spans (h.isPage _ _ _ hx hlookup) hother, if_neg]
    · rintro rfl
      exact hout x (Nat.le_refl x) (by omega) _ hlookup
    · rw [pageDown_add_pageSize] at hlow
      omega
    · rw [pageDown_add_pageSize] at hlow hhigh
      omega

/-- **Stores, byte by byte.** -/
theorem Separate.exists_store (h : m.Separate S pages) (x : Nat) (bytes : Bytes) : ∃ i,
    m.GetsTo Permissions.userWritable x bytes.length i (m.store x bytes).1 ∧
      m.Overlaid S pages x bytes (x + i) (m.store x bytes).2 := by
  fun_induction UserMemory.store m x bytes with
  | case1 => exact ⟨0, ⟨fun _ hj => absurd hj (Nat.not_lt_zero _), .inl ⟨rfl, rfl⟩⟩, .refl ..⟩
  | case2 m x bytes hne e haccess =>
    exact ⟨0, .of_error (List.length_pos_iff.mpr hne) haccess, .refl ..⟩
  | case3 m x bytes hne physical haccess offset page ih =>
    obtain ⟨hx, permissions, -, hlookup⟩ := h.of_access user_of_userWritable haccess
    obtain ⟨i, hgets, hnext⟩ := ih (h.setContents page physical)
    rw [List.length_drop] at hgets
    exact ⟨_, GetsTo.next haccess hgets, h.overlaid_next hx hlookup hne hgets.le hnext⟩

/-- **Bytes that were written are read back.** -/
theorem Separate.load_store (h : m.Separate S pages) (x : Nat) (bytes : Bytes)
    (hok : (m.store x bytes).1 = .ok ()) :
    (m.store x bytes).2.load x bytes.length = (bytes, .ok ()) := by
  obtain ⟨i, hgets, hoverlaid⟩ := h.exists_store x bytes
  obtain ⟨i', hgets', hbytes⟩ := (m.store x bytes).2.exists_load x bytes.length
  obtain ⟨hreach, ⟨-, rfl⟩ | ⟨e, herror, -⟩⟩ := hgets
  swap
  · cases hok.symm.trans herror
  -- every page that was written can be read
  have hreach' : ∀ j < bytes.length, (m.store x bytes).2.Reaches Permissions.user (x + j) := by
    intro j hj
    obtain ⟨physical, permissions, hlookup, hwritable⟩ := reaches_iff.mp (hreach j hj)
    refine reaches_iff.mpr ⟨physical, permissions, ?_, user_of_userWritable _ hwritable⟩
    rwa [hoverlaid.table_eq]
  obtain ⟨-, ⟨hload, rfl⟩ | ⟨e, -, hlt, hstuck⟩⟩ := hgets'
  swap
  · obtain ⟨physical, haccess⟩ := hreach' i' hlt
    cases haccess.symm.trans hstuck
  refine Prod.ext (List.map_injective_iff.mpr (Option.some_injective _) ?_) hload
  rw [hbytes]
  refine List.ext_getElem (by simp) fun j hj _ => ?_
  rw [List.length_map, List.length_range] at hj
  obtain ⟨physical, permissions, hlookup, hwritable⟩ := reaches_iff.mp (hreach j hj)
  have hmem := h.covers _ _ _ hlookup (user_of_userWritable _ hwritable)
  rw [List.getElem_map, List.getElem_range, List.getElem_map, hoverlaid.byte?_eq _ hmem,
    if_pos (by omega), Nat.add_sub_cancel_left, List.getElem?_eq_getElem hj]

end UserMemory

end FairKernel
