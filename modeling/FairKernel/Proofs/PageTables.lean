import FairKernel.Paging.Table
import FairKernel.Proofs.Results

/-!
# Page tables as finite maps

A page table is looked at through `PageTable.lookup` only. Reserving the tables on the way to an
entry changes no lookup, mapping a page changes the lookups of its own addresses, and unmapping
pages changes the lookups of theirs.

A table is a tree of three levels, and an address finds its entry by one index for each. Two pages
of the address space differ in one of these indices (`sameWay_iff`), so that writing the entry of
one does not disturb the other. To speak of entries where tables are still missing there is
`PageTable.peek`, which is blank there: reserving tables does not change it (`peek_reserve`), and
what it says decides a lookup (`lookup_eq`).

The results that everybody else uses are about whole operations: `lookup_withPage` and `map_page`
for mapping a page, `lookup_unmapPage` and `lookup_unmapPages` for removing some.
-/

namespace FairKernel

/-! ### Page boundaries -/

/-- A page boundary is the start of its own page. -/
theorem pageDown_of_aligned {v : Nat} (h : v % pageSize = 0) : pageDown v = v :=
  Nat.div_mul_cancel (Nat.dvd_of_mod_eq_zero h)

/-- Pages start at multiples of their size. -/
theorem pageDown_mod (v : Nat) : pageDown v % pageSize = 0 := Nat.mul_mod_left _ _

/-- An address is within the address space if its page is. -/
theorem pageDown_lt_addressLimit {v : Nat} : pageDown v < addressLimit ↔ v < addressLimit := by
  unfold pageDown addressLimit pageSize
  omega

/-- The next page boundary is found exactly if it can be reckoned in a word. -/
theorem pageUp_eq_ok {v stop : Nat} :
    pageUp v = .ok stop ↔ v + pageSize < wordLimit ∧ stop = pagesIn v * pageSize := by
  unfold pageUp
  by_cases h : v + pageSize < wordLimit
  · have hv : v + pageSize - 1 = v + (pageSize - 1) := rfl
    simp [addWord, h, Except.map, pageDown, pagesIn, hv, eq_comm]
  · simp [addWord, h, Except.map]

/-- The next page boundary does not lie below. -/
theorem le_of_pageUp {v stop : Nat} (h : pageUp v = .ok stop) : v ≤ stop := by
  rw [(pageUp_eq_ok.mp h).2]
  unfold pagesIn pageSize
  omega

namespace PageTable

/-! ### Ways to an entry -/

/-- Whether two virtual addresses have their entry in the same place. -/
def SameWay (a b : Nat) : Prop :=
  index 2 a = index 2 b ∧ index 1 a = index 1 b ∧ index 0 a = index 0 b

/-- Two pages of the address space have their entries in different places. -/
theorem sameWay_iff {a b : Nat} (ha : a % pageSize = 0) (hb : b % pageSize = 0)
    (ha' : a < addressLimit) (hb' : b < addressLimit) : SameWay a b ↔ a = b := by
  refine ⟨fun ⟨h₂, h₁, h₀⟩ => ?_, fun h => h ▸ ⟨rfl, rfl, rfl⟩⟩
  have h₂ := congrArg Fin.val h₂
  have h₁ := congrArg Fin.val h₁
  have h₀ := congrArg Fin.val h₀
  simp only [index, span, fanout, pageSize, addressLimit] at *
  omega

/-- What a table holds for a virtual address, blank where tables are missing on the way. -/
def peek (t : PageTable) (virtual : Nat) : Entry :=
  (t.leaf? virtual).elim Entry.blank fun leaf => leaf.get (index 0 virtual)

variable {t : PageTable} {a b : Nat} {e : Entry}

/-- A lookup answers what the entry of the page says, if the address is one and the entry is
valid. -/
theorem lookup_eq (t : PageTable) (virtual : Nat) : t.lookup virtual =
    if virtual < addressLimit ∧ (t.peek (pageDown virtual)).permissions.valid then
      some ((t.peek (pageDown virtual)).page, (t.peek (pageDown virtual)).permissions)
    else none := by
  unfold lookup entry peek
  by_cases h : virtual < addressLimit
  · rw [if_neg (Nat.not_le.mpr (pageDown_lt_addressLimit.mpr h))]
    cases t.leaf? (pageDown virtual) with
    | none => simp [h, Entry.blank]
    | some leaf => simp [h]
  · rw [if_pos (Nat.not_lt.mp (mt pageDown_lt_addressLimit.mp h))]
    simp [h]

/-- All addresses of a page look the same. -/
theorem lookup_pageDown (t : PageTable) (virtual : Nat) :
    t.lookup (pageDown virtual) = t.lookup virtual := by
  rw [lookup_eq, lookup_eq, pageDown_of_aligned (pageDown_mod virtual)]
  simp only [pageDown_lt_addressLimit]

/-- Beyond the address space nothing is mapped. -/
theorem lookup_eq_none_of_le (h : addressLimit ≤ a) : t.lookup a = none := by
  rw [lookup_eq, if_neg fun h' => absurd h'.1 (Nat.not_lt.mpr h)]

/-- What is found is mapped. -/
theorem isMapped_of_lookup {found : Physical × Permissions} (h : t.lookup a = some found) :
    t.isMapped a := by
  rw [isMapped, h]
  rfl

/-- What is not found is not mapped. -/
theorem not_isMapped_of_lookup (h : t.lookup a = none) : ¬ t.isMapped a := by
  rw [isMapped, h]
  nofun

/-- What a table maps is valid. -/
theorem valid_of_lookup {physical : Physical} {permissions : Permissions}
    (h : t.lookup a = some (physical, permissions)) : permissions.validated = permissions := by
  rw [lookup_eq] at h
  split at h
  · next hvalid =>
    cases h
    simp only [Permissions.validated, ← hvalid.2]
  · cases h

/-! ### Tables that hold nothing -/

/-- No entry of a blank table maps a page. -/
theorem get_blankLeaf (i : Fin fanout) : blankLeaf.get i = Entry.blank := get_replicate _ i

/-- No table lies below a blank one. -/
theorem get_blankMiddle (i : Fin fanout) : blankMiddle.get i = none := get_replicate _ i

/-- What a table made up for a missing one holds for a page is what the missing one held. -/
theorem get_getD_blankLeaf (leaf : Option LeafTable) (i : Fin fanout) :
    (leaf.getD blankLeaf).get i = leaf.elim Entry.blank fun leaf => leaf.get i := by
  cases leaf with
  | none => exact get_blankLeaf i
  | some leaf => rfl

/-- Below a table made up for a missing one there is no more than below the missing one. -/
theorem get_getD_blankMiddle (middle : Option MiddleTable) (i : Fin fanout) :
    (middle.getD blankMiddle).get i = middle.bind fun middle => middle.get i := by
  cases middle with
  | none => exact get_blankMiddle i
  | some middle => rfl

/-- There is no way to an entry in the table that maps no page. -/
theorem leaf?_empty (a : Nat) : empty.leaf? a = none := by
  rw [leaf?, empty, get_replicate, Option.bind_none]

/-! ### Reserving tables -/

/-- Reserving tables makes those on the way to one entry, and blank ones where there were none. -/
theorem leaf?_reserve (h : a < addressLimit) (b : Nat) : (t.reserve a).leaf? b =
    if index 2 a = index 2 b ∧ index 1 a = index 1 b then some ((t.leaf? a).getD blankLeaf)
    else t.leaf? b := by
  unfold reserve leaf?
  rw [if_neg (Nat.not_le.mpr h)]
  -- the ways part at the second level, at the first level, or not at all
  simp only [get_set]
  by_cases h₂ : index 2 a = index 2 b
  · by_cases h₁ : index 1 a = index 1 b
    · simp only [h₂, h₁, and_self, if_true, Option.bind_some, get_set, get_getD_blankMiddle]
    · simp only [h₂, h₁, and_false, if_true, if_false, Option.bind_some, get_set,
        get_getD_blankMiddle]
  · simp only [h₂, false_and, if_false]

/-- Reserving tables changes no entry. -/
theorem peek_reserve (t : PageTable) (a b : Nat) : (t.reserve a).peek b = t.peek b := by
  by_cases h : a < addressLimit
  · unfold peek
    rw [leaf?_reserve h]
    split
    · next hab =>
      have hleaf : t.leaf? a = t.leaf? b := by
        simp only [leaf?, hab.1, hab.2]
      rw [hleaf, Option.elim_some, get_getD_blankLeaf]
    · rfl
  · unfold reserve
    rw [if_pos (Nat.not_lt.mp h)]

/-- Once the way to an entry is reserved there is one. -/
theorem isSome_leaf?_reserve (h : a < addressLimit) : ((t.reserve a).leaf? a).isSome := by
  rw [leaf?_reserve h, if_pos ⟨rfl, rfl⟩]
  rfl

/-! ### Replacing an entry -/

/-- Replacing an entry changes what is held for the addresses that share it. -/
theorem peek_setEntry (h : a < addressLimit) (hleaf : (t.leaf? a).isSome) (b : Nat)
    [Decidable (SameWay a b)] :
    (t.setEntry a e).peek b = if SameWay a b then e else t.peek b := by
  obtain ⟨leaf, hleaf⟩ := Option.isSome_iff_exists.mp hleaf
  obtain ⟨middle, hmiddle, hleaf'⟩ := Option.bind_eq_some_iff.mp hleaf
  unfold setEntry
  rw [if_neg (Nat.not_le.mpr h)]
  simp only [hmiddle, hleaf']
  unfold peek leaf? SameWay
  simp only [get_set]
  -- level by level: ways that part at one level have parted
  by_cases h₂ : index 2 a = index 2 b
  · by_cases h₁ : index 1 a = index 1 b
    · by_cases h₀ : index 0 a = index 0 b
      · simp [h₂, h₁, h₀, get_set]
      · simp only [h₂, h₁, if_true, Option.bind_some, get_set, Option.elim_some, h₀, and_false,
          if_false]
        simp only [← h₂, hmiddle, ← h₁, Option.bind_some, hleaf', Option.elim_some]
    · simp only [h₂, h₁, if_true, if_false, Option.bind_some, get_set, false_and, and_false]
      simp only [← h₂, hmiddle, Option.bind_some]
  · simp only [h₂, if_false, false_and]

/-- Replacing the entry of a page changes the lookups of its addresses. -/
theorem lookup_setEntry (ha : a % pageSize = 0) (h : a < addressLimit)
    (hleaf : (t.leaf? a).isSome) (b : Nat) : (t.setEntry a e).lookup b =
      if pageDown b = a then
        if e.permissions.valid then some (e.page, e.permissions) else none
      else t.lookup b := by
  classical
  rw [lookup_eq, lookup_eq, peek_setEntry h hleaf]
  by_cases hb : b < addressLimit
  · have hway := sameWay_iff ha (pageDown_mod b) h (pageDown_lt_addressLimit.mpr hb)
    by_cases hab : pageDown b = a
    · rw [if_pos (hway.mpr hab.symm)]
      simp [hab, hb]
    · rw [if_neg hab, if_neg fun hw => hab (hway.mp hw).symm]
  · have hab : pageDown b ≠ a := fun hab => hb (pageDown_lt_addressLimit.mp (hab ▸ h))
    simp [hab, hb]

/-! ### Mapping a page -/

/-- A table in which a page is mapped that was not. -/
def withPage (t : PageTable) (a : Nat) (physical : Physical) (permissions : Permissions) :
    PageTable :=
  (t.reserve a).setEntry a (Entry.mapping physical permissions)

/-- A page that is mapped is found at its addresses, and nothing else changes. -/
theorem lookup_withPage (ha : a % pageSize = 0) (h : a < addressLimit) (physical : Physical)
    (permissions : Permissions) (b : Nat) : (t.withPage a physical permissions).lookup b =
      if pageDown b = a then some (physical.page, permissions.validated) else t.lookup b := by
  have hreserve : (t.reserve a).lookup b = t.lookup b := by
    rw [lookup_eq, lookup_eq, peek_reserve]
  rw [withPage, lookup_setEntry ha h (isSome_leaf?_reserve h), hreserve]
  rfl

/-- Once the way to an entry is reserved the entry is what the table held for it before. -/
theorem entry_reserve (h : a < addressLimit) : (t.reserve a).entry a = .ok (t.peek a) := by
  obtain ⟨leaf, hleaf⟩ := Option.isSome_iff_exists.mp (isSome_leaf?_reserve (t := t) h)
  rw [← peek_reserve t a a]
  unfold entry peek
  rw [if_neg (Nat.not_le.mpr h), hleaf]
  rfl

/-- A page is mapped if its entry is valid. -/
theorem isMapped_iff_valid (ha : a % pageSize = 0) (h : a < addressLimit) :
    t.isMapped a = (t.peek a).permissions.valid := by
  rw [isMapped, lookup_eq, pageDown_of_aligned ha]
  by_cases hv : (t.peek a).permissions.valid <;> simp [h, hv]

/-- What mapping one page comes to. -/
theorem map_page (ha : a % pageSize = 0) (hw : a + pageSize < wordLimit) {physical : Physical}
    (hp : physical.advance 0 = .ok physical) (permissions : Permissions) :
    t.map a pageSize physical permissions = .ok (
      if addressLimit ≤ a then (.error (.badAddress a), t)
      else if t.isMapped a then (.error (.alreadyMapped a), t)
      else (.ok (), t.withPage a physical permissions)) := by
  -- one page has one entry, so the walk is over after its first step
  have hstop : addWord a pageSize = .ok (a + pageSize) := addWord_eq_ok.mpr ⟨hw, rfl⟩
  have hlast : pageDown (a + pageSize - 1) = a := by
    unfold pageDown
    unfold pageSize at ha ⊢
    omega
  have hmap : t.map a pageSize physical permissions = t.mapPages a physical permissions 0 1 := by
    unfold map
    rw [if_neg (by decide), hstop]
    change t.mapPages (pageDown a) physical permissions 0
      ((pageDown (a + pageSize - 1) - pageDown a) / pageSize + 1) = _
    rw [hlast, pageDown_of_aligned ha, Nat.sub_self, Nat.zero_div]
  rw [hmap, mapPages, Nat.add_zero]
  by_cases h : a < addressLimit
  · rw [if_neg (Nat.not_le.mpr h), isMapped_iff_valid ha h]
    simp only [entry_reserve h]
    by_cases hv : (t.peek a).permissions.valid
    · rw [if_pos hv, if_pos hv]
    · rw [if_neg hv, if_neg hv, hp]
      rfl
  · have hentry : (t.reserve a).entry a = .error (.badAddress a) := by
      rw [entry, if_pos (Nat.not_lt.mp h)]
    rw [if_pos (Nat.not_lt.mp h)]
    simp only [hentry]

/-! ### Unmapping pages -/

/-- Unmapping a page answers the physical page that was there. -/
theorem fst_unmapPage (ha : a % pageSize = 0) :
    (t.unmapPage a).1 = (t.lookup a).map Prod.fst := by
  unfold unmapPage lookup
  rw [pageDown_of_aligned ha]
  cases t.entry a with
  | error e => rfl
  | ok e => by_cases hv : e.permissions.valid <;> simp [hv]

/-- Unmapping a page is the end of it, and leaves the others mapped. -/
theorem lookup_unmapPage (ha : a % pageSize = 0) (b : Nat) :
    (t.unmapPage a).2.lookup b = if pageDown b = a then none else t.lookup b := by
  have hsame (hnone : t.lookup a = none) :
      t.lookup b = if pageDown b = a then none else t.lookup b := by
    split
    · next hab => rw [← lookup_pageDown, hab, hnone]
    · rfl
  unfold unmapPage
  cases hentry : t.entry a with
  -- an address without an entry, ...
  | error e =>
    have hlookup : t.lookup a = none := by
      simp only [lookup, pageDown_of_aligned ha, hentry]
    exact hsame hlookup
  -- ... or one whose entry is valid, or blank
  | ok e =>
    have hlookup : t.lookup a =
        if e.permissions.valid then some (e.page, e.permissions) else none := by
      simp only [lookup, pageDown_of_aligned ha, hentry]
    by_cases hv : e.permissions.valid
    · have h : a < addressLimit := by
        by_contra hle
        rw [entry, if_pos (Nat.not_lt.mp hle)] at hentry
        cases hentry
      have hleaf : (t.leaf? a).isSome := by
        rw [entry, if_neg (Nat.not_le.mpr h)] at hentry
        cases hl : t.leaf? a with
        | none => simp [hl] at hentry
        | some leaf => rfl
      simp only [if_pos hv]
      rw [lookup_setEntry ha h hleaf]
      rfl
    · simp only [if_neg hv] at hlookup ⊢
      exact hsame hlookup

/-- To unmap no pages does nothing. -/
theorem unmapPages_zero (t : PageTable) (base : Nat) : t.unmapPages base 0 = ([], t) := rfl

/-- Pages are unmapped one after the other, and what is answered is what was there. -/
theorem unmapPages_succ (t : PageTable) (base count : Nat) : t.unmapPages base (count + 1) =
    (((t.unmapPages base count).2.unmapPage (base + count * pageSize)).1.toList ++
        (t.unmapPages base count).1,
      ((t.unmapPages base count).2.unmapPage (base + count * pageSize)).2) := by
  rw [unmapPages, Nat.fold_succ]
  rfl

/-- Unmapping pages is the end of each of them, and leaves the others mapped. -/
theorem lookup_unmapPages {base : Nat} (hbase : base % pageSize = 0) (count b : Nat) :
    (t.unmapPages base count).2.lookup b =
      if base ≤ pageDown b ∧ pageDown b < base + count * pageSize then none else t.lookup b := by
  induction count with
  | zero =>
    have hempty : ¬ (base ≤ pageDown b ∧ pageDown b < base + 0 * pageSize) := by omega
    rw [unmapPages_zero, if_neg hempty]
  | succ count ih =>
    have halign : (base + count * pageSize) % pageSize = 0 := by
      rw [Nat.add_mul_mod_self_right, hbase]
    have hrange : (base ≤ pageDown b ∧ pageDown b < base + (count + 1) * pageSize) ↔
        pageDown b = base + count * pageSize ∨
          (base ≤ pageDown b ∧ pageDown b < base + count * pageSize) := by
      have hb := pageDown_mod b
      unfold pageSize at hb halign hbase ⊢
      omega
    rw [unmapPages_succ, lookup_unmapPage halign, ih]
    simp only [hrange]
    by_cases hlast : pageDown b = base + count * pageSize
    · rw [if_pos hlast, if_pos (.inl hlast)]
    · simp only [hlast, if_false, false_or]

end PageTable

end FairKernel
