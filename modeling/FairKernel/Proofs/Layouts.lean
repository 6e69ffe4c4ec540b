import FairKernel.Proofs.PageAccounts

/-!
# Layouts of address spaces

Below its size a process has pages that user code may read and write; in the mapping window it has
pages of its mapping records, with the permissions that the records say. Work on the memory of a
process is *settled* if everything it leaves behind is covered, and *arranged* if it also keeps this
layout and takes no page away that a mapping still shows.

Records are in the window (`InWindow`), start and end at page boundaries, and those of one process
do not meet; so a page of the window belongs to one record at most, and the permissions that it must
have are determined. The size of a process stays below the window, so heap and mappings do not get
in each other's way (`page_lt_windowBase`).

There are few ways in which work on memory changes tables and records together, and each has one
theorem from which the operations are arranged: pages are added for records that are there
(`Tabled.arranged`), a record is added with its pages (`Reworked.arranged_of_added`), the first
bytes of a record are dropped with their pages (`Reworked.arranged_of_shortened`), a range that no
record shows is cleared (`Reworked.arranged_of_cleared`), and the size is changed
(`Tabled.arranged_setSize`).
-/

namespace FairKernel

/-- User code may read and write the page. -/
structure Permissions.IsOpen (p : Permissions) : Prop where
  valid : p.valid
  readable : p.readable
  writable : p.writable
  user : p.user

/-- A page that user code may read and write lies within reach of the size of a process only below
the window. -/
theorem page_lt_windowBase {size n : Nat} (hsize : size ≤ windowBase) (hn : n < pagesIn size) :
    n * pageSize < windowBase := by
  unfold pagesIn windowBase at *
  unfold pageSize at hn ⊢
  omega

/-- The window begins below the trap frame. -/
theorem pagesIn_windowBase_le_userPages : pagesIn windowBase ≤ userPages := by
  unfold userPages
  decide

/-! ### Records -/

namespace Mapping

variable {r : Mapping}

/-- A record covers the addresses from its base up to its end. -/
theorem covers_iff {address : Nat} :
    r.covers address ↔ r.base ≤ address ∧ address < r.base + r.length := by
  rw [covers, Bool.and_eq_true, decide_eq_true_eq, decide_eq_true_eq]
  rfl

/-- Records that cover one address meet. -/
theorem meets_of_covers {r' : Mapping} {address : Nat} (h : r.covers address)
    (h' : r'.covers address) : r'.meets r.base r.stop := by
  have hr := covers_iff.mp h
  have hr' := covers_iff.mp h'
  rw [meets, Bool.and_eq_true, decide_eq_true_eq, decide_eq_true_eq, stop, stop]
  omega

namespace InWindow

/-- What a record in the window covers lies in the window. -/
theorem windowBase_le_of_covers (h : r.InWindow) {address : Nat} (hc : r.covers address) :
    windowBase ≤ address := h.windowBase_le.trans (covers_iff.mp hc).1

/-- What a record in the window covers lies below the trap frame. -/
theorem lt_userPages_of_covers (h : r.InWindow) {n : Nat} (hc : r.covers (n * pageSize)) :
    n < userPages := ((h.covers_page n).mp hc).2.trans_le h.le_userPages

/-- The whole page of an address in the window is covered. -/
theorem covers_pageDown (h : r.InWindow) {address : Nat} (ha : r.covers address) :
    r.covers (pageDown address) := by
  have hbase := h.base_mod
  have hlength := h.length_mod
  rw [covers_iff] at ha ⊢
  unfold pageDown
  unfold pageSize at hbase hlength ⊢
  omega

/-- A record in the window is as long as its whole pages. -/
theorem pagesIn_eq (h : r.InWindow) : pagesIn (r.stop - r.base) = r.pageCount := by
  have hlength := h.length_mod
  rw [stop, Nat.add_sub_cancel_left]
  unfold pagesIn pageCount
  unfold pageSize at hlength ⊢
  omega

/-- Whether a page lies among the first pages of a record. -/
theorem first_pages (h : r.InWindow) {length : Nat} (hlength : length % pageSize = 0) (n : Nat) :
    (r.firstPage ≤ n ∧ n < r.firstPage + length / pageSize) ↔
      r.base ≤ n * pageSize ∧ n * pageSize < r.base + length := by
  have hbase := h.base_mod
  unfold firstPage
  unfold pageSize at hbase hlength ⊢
  omega

end InWindow

/-- What is left of a record without its first bytes. -/
structure Shortened (r : Mapping) (length : Nat) (rest : Option Mapping) : Prop where
  inWindow : ∀ r', rest = some r' → r'.InWindow
  owner_eq : ∀ r', rest = some r' → r'.owner = r.owner
  permissions_eq : ∀ r', rest = some r' → r'.permissions = r.permissions
  covers_iff : ∀ address, (∃ r', rest = some r' ∧ r'.covers address) ↔
    r.covers address ∧ r.base + length ≤ address

/-- What is left of a record is a record in the window, or nothing if all of it is dropped. -/
theorem InWindow.shortened (h : r.InWindow) {length : Nat} {rest : Option Mapping}
    (hle : length ≤ r.length) (hlength : length % pageSize = 0)
    (hrest : r.dropFirst length = .ok rest) : r.Shortened length rest := by
  have hmod := h.length_mod
  have hbase := h.base_mod
  have hwindow := h.windowBase_le
  have hstop := h.stop_le
  unfold stop at hstop
  unfold dropFirst at hrest
  split at hrest
  -- the whole record is dropped, ...
  · next heq =>
    cases hrest
    refine ⟨nofun, nofun, nofun, fun address => ⟨nofun, fun ⟨hcovers, hbeyond⟩ => ?_⟩⟩
    rw [covers_iff] at hcovers
    omega
  -- ... or the rest begins so much later, with whatever belongs there in the file
  · next hne =>
    obtain ⟨offset, -, hr'⟩ := bind_eq_ok.mp hrest
    cases hr'
    refine ⟨?_, ?_, ?_, fun address => ?_⟩
    · rintro r' ⟨⟩
      refine ⟨?_, ?_, Nat.le_add_right_of_le hwindow, ?_⟩
      · exact (Nat.add_mod ..).trans (by rw [hbase, hlength]; rfl)
      · exact Nat.mod_eq_zero_of_dvd (Nat.dvd_sub (Nat.dvd_of_mod_eq_zero hmod)
          (Nat.dvd_of_mod_eq_zero hlength))
      · unfold stop
        dsimp only
        omega
    · rintro r' ⟨⟩
      rfl
    · rintro r' ⟨⟩
      rfl
    · simp only [Option.some.injEq, exists_eq_left', covers_iff]
      omega

end Mapping

/-! ### Tables that gain pages -/

namespace PageTable

/-- Where a table maps more than another one did. -/
def MapsOnly (S : Nat → Prop) (t t' : PageTable) : Prop :=
  ∀ n < userPages, t'.isMapped (n * pageSize) → t.isMapped (n * pageSize) ∨ S n

/-- Where a table maps more is told less exactly. -/
theorem MapsOnly.mono {S S' : Nat → Prop} {t t' : PageTable} (h : MapsOnly S t t')
    (hS : ∀ n, S n → S' n) : MapsOnly S' t t' := fun n hn hm => (h n hn hm).imp_right (hS n)

/-- A table that lost nothing, with new pages where there were none. -/
def Gains (S : Nat → Permissions → Prop) (t t' : PageTable) : Prop :=
  ∀ n < userPages, t'.lookup (n * pageSize) = t.lookup (n * pageSize) ∨
    t.lookup (n * pageSize) = none ∧ ∃ physical permissions,
      t'.lookup (n * pageSize) = some (physical, permissions) ∧ S n permissions

namespace Gains

variable {S S' : Nat → Permissions → Prop} {t t' t'' : PageTable}

/-- A table that is the same has gained nothing. -/
theorem refl (S : Nat → Permissions → Prop) (t : PageTable) : Gains S t t := fun _ _ => .inl rfl

/-- What is gained is told less exactly. -/
theorem mono (h : Gains S t t') (hS : ∀ n permissions, S n permissions → S' n permissions) :
    Gains S' t t' := fun n hn => (h n hn).imp_right
  fun ⟨hnone, physical, permissions, hnew, hn⟩ =>
    ⟨hnone, physical, permissions, hnew, hS n permissions hn⟩

/-- What is gained in two steps was gained in one of them. -/
theorem trans (h : Gains S t t') (h' : Gains S t' t'') : Gains S t t'' := by
  intro n hn
  rcases h' n hn with hsame' | ⟨hnone', hnew'⟩
  · rw [hsame']
    exact h n hn
  · rcases h n hn with hsame | ⟨-, physical, permissions, hnew, -⟩
    · exact .inr ⟨hsame ▸ hnone', hnew'⟩
    · rw [hnew] at hnone'
      cases hnone'

/-- What was mapped is mapped as before. -/
theorem lookup_of_some (h : Gains S t t') {n : Nat} (hn : n < userPages)
    {found : Physical × Permissions} (hfound : t.lookup (n * pageSize) = some found) :
    t'.lookup (n * pageSize) = some found := by
  rcases h n hn with hsame | ⟨hnone, -⟩
  · rw [hsame, hfound]
  · rw [hnone] at hfound
    cases hfound

/-- A table that gains pages maps only these besides what it mapped. -/
theorem mapsOnly (h : Gains S t t') : MapsOnly (fun n => ∃ permissions, S n permissions) t t' := by
  intro n hn hm
  rcases h n hn with hsame | ⟨-, _, permissions, -, hS⟩
  · unfold isMapped at hm ⊢
    rw [hsame] at hm
    exact .inl hm
  · exact .inr ⟨permissions, hS⟩

end Gains

end PageTable

open PageTable (MapsOnly Gains)

namespace Kernel

variable {pages : Nat} {k k' k'' : Kernel} {p : Handle} {r : Mapping}

/-! ### Settled work -/

/-- What a whole call about the memory of a live process comes to: accounts are kept, and what its
table maps is covered if it was before. -/
structure Settled (pages : Nat) (p : Handle) (k k' : Kernel) : Prop extends
    Reworked pages p k k' where
  covers_of_covers : k.Covers p → k'.Covers p

/-- Nothing was done yet. -/
theorem Settled.refl (h : k.Accounted pages) (hlive : k.IsLive p) : k.Settled pages p k :=
  ⟨.refl h hlive, id⟩

/-- Settled work, and more of it. -/
theorem Settled.trans (h : Settled pages p k k') (h' : Settled pages p k' k'') :
    Settled pages p k k'' :=
  ⟨h.toReworked.trans h'.toReworked, fun hcovers =>
    h'.covers_of_covers (h.covers_of_covers hcovers)⟩

/-- Coverage depends on the slots and the records only. -/
theorem Covers.congr (h : k.Covers p) (hslots : k'.slots = k.slots)
    (hmappings : k'.mappings = k.mappings) : k'.Covers p := by
  unfold Covers Shows slotOf at h ⊢
  simp only [slot_congr hslots, record_congr hmappings]
  exact h

/-- Only the pool, the slots and the records matter. -/
theorem Settled.congr (h : Settled pages p k k') (hpool : k''.pool = k'.pool)
    (hslots : k''.slots = k'.slots) (hmappings : k''.mappings = k'.mappings) :
    Settled pages p k k'' where
  toReworked := h.toReworked.congr hpool hslots hmappings
  covers_of_covers hcovers := (h.covers_of_covers hcovers).congr hslots hmappings

/-- What a process shows depends on the records only. -/
theorem Shows.congr {n : Nat} (h : k.Shows p n) (hmappings : k'.mappings = k.mappings) :
    k'.Shows p n := by
  unfold Shows at h ⊢
  simp only [record_congr hmappings]
  exact h

/-- All that is new in the table lies in mappings. -/
theorem Tabled.settled {S : Nat → Prop} (h : k.Tabled pages p k')
    (hmaps : MapsOnly S (k.slotOf p).table (k'.slotOf p).table) (hS : ∀ n, S n → k.Shows p n) :
    k.Settled pages p k' where
  toReworked := h.toReworked
  covers_of_covers hcovers := by
    refine hcovers.of_imp (fun n hn hm => ?_) (fun n _ _ hlt => .inl ?_)
      fun n _ _ hn => .inr (hn.congr h.mappings_same)
    · exact (hmaps n hn hm).imp_right fun hSn => .inr ((hS n hSn).congr h.mappings_same)
    · rw [h.size_eq]
      exact hlt

/-- A record is added for what is new in the table. -/
theorem Reworked.settled_of_added (h : k.Reworked pages p k') {i : Fin mappingLimit}
    (hnone : k.record i = none) (hmappings : k'.mappings = (k.withRecord i (some r)).mappings)
    (howner : r.owner = p) (hsize : (k'.slotOf p).size = (k.slotOf p).size)
    (hmaps : MapsOnly (fun n => r.covers (n * pageSize)) (k.slotOf p).table (k'.slotOf p).table) :
    k.Settled pages p k' where
  toReworked := h
  covers_of_covers hcovers := by
    refine hcovers.of_imp (fun n hn hm => ?_) (fun n _ _ hlt => .inl ?_) fun n _ _ hshow => .inr ?_
    · refine (hmaps n hn hm).imp_right fun hc => .inr ⟨i, r, ?_, howner, hc⟩
      rw [record_congr hmappings, record_withRecord, if_pos rfl]
    · rw [hsize]
      exact hlt
    · obtain ⟨j, r', hr', howner', hc⟩ := hshow
      refine ⟨j, r', ?_, howner', hc⟩
      rw [record_congr hmappings, record_withRecord, if_neg]
      · exact hr'
      · rintro rfl
        rw [hnone] at hr'
        cases hr'

/-- A record is shortened or removed once nothing is mapped any more that it covered alone. -/
theorem Reworked.settled_of_removed (h : k.Reworked pages p k') {i : Fin mappingLimit}
    {rest : Option Mapping} (hr : k.record i = some r)
    (hmappings : k'.mappings = (k.withRecord i rest).mappings)
    (hsize : (k'.slotOf p).size = (k.slotOf p).size)
    (hmapped : ∀ n < userPages, (k'.slotOf p).table.isMapped (n * pageSize) →
      (k.slotOf p).table.isMapped (n * pageSize) ∧ (r.covers (n * pageSize) →
        ∃ r', rest = some r' ∧ r'.owner = r.owner ∧ r'.covers (n * pageSize))) :
    k.Settled pages p k' where
  toReworked := h
  covers_of_covers hcovers := by
    -- a page that is mapped was mapped before, and so it was below the size or shown
    refine hcovers.of_imp (fun n hn hm => .inl (hmapped n hn hm).1) (fun n _ _ hlt => .inl ?_)
      fun n hn hm hshow => .inr ?_
    · rw [hsize]
      exact hlt
    · obtain ⟨j, r', hr', howner', hc⟩ := hshow
      unfold Shows
      simp only [record_congr hmappings]
      by_cases hij : i = j
      · subst hij
        rw [hr] at hr'
        cases hr'
        obtain ⟨r'', hr'', howner'', hc''⟩ := (hmapped n hn hm).2 hc
        refine ⟨i, r'', ?_, howner''.trans howner', hc''⟩
        rw [record_withRecord, if_pos rfl]
        exact hr''
      · refine ⟨j, r', ?_, howner', hc⟩
        rw [record_withRecord, if_neg hij]
        exact hr'

/-- A new size that covers what it has to. -/
theorem Tabled.setSize (h : k.Tabled pages p k') {size : Nat} (hsize : pagesIn size ≤ userPages)
    (hnew : ∀ n < userPages, (k'.slotOf p).table.isMapped (n * pageSize) →
      (k.slotOf p).table.isMapped (n * pageSize) ∧ (n < pagesIn (k.slotOf p).size →
        n < pagesIn size) ∨ n < pagesIn size) :
    k.Settled pages p (k'.withSlot p.slot { k'.slotOf p with size }) := by
  obtain ⟨space, hspace⟩ := h.accounted.space_of_handle h.isLive
  have hslot : (k'.withSlot p.slot { k'.slotOf p with size }).slotOf p =
      { k'.slotOf p with size } := slotOf_withSlot_self ..
  refine ⟨h.toReworked.trans (h.accounted.rework h.isLive hspace
    (h.accounted.sound hspace).kept hspace rfl rfl hsize), fun hcovers => ?_⟩
  intro n hn hm
  rw [hslot] at hm ⊢
  rcases hnew n hn hm with ⟨hold, hlt⟩ | hlt
  · exact (hcovers n hn hold).imp hlt fun hshow => hshow.congr h.mappings_same
  · exact .inl hlt

/-! ### Layouts -/

/-- How the address space of a process is laid out. -/
structure LaidOut (k : Kernel) (p : Handle) : Prop where
  size_le : (k.slotOf p).size ≤ windowBase
  /-- Everything below the size is there, and user code may read and write it. -/
  heap : ∀ n < pagesIn (k.slotOf p).size, ∃ physical permissions,
    (k.slotOf p).table.lookup (n * pageSize) = some (physical, permissions) ∧ permissions.IsOpen
  /-- No address lies in two mappings. -/
  disjoint : ∀ (i j : Fin mappingLimit) (r r' : Mapping), k.record i = some r →
    k.record j = some r' → r.owner = p → r'.owner = p →
    ∀ address, r.covers address → r'.covers address → i = j
  /-- A page that lies in a mapping has the permissions of that mapping. -/
  shown : ∀ (j : Fin mappingLimit) (r : Mapping), k.record j = some r → r.owner = p →
    ∀ n, r.covers (n * pageSize) → ∀ physical permissions,
      (k.slotOf p).table.lookup (n * pageSize) = some (physical, permissions) →
        permissions = r.permissions.validated
  covers : k.Covers p

/-- A layout is one of the slot and the records. -/
theorem LaidOut.congr (h : k.LaidOut p) (hslots : k'.slots = k.slots)
    (hmappings : k'.mappings = k.mappings) : k'.LaidOut p where
  size_le := by
    unfold slotOf
    rw [slot_congr hslots]
    exact h.size_le
  heap := by
    unfold slotOf
    rw [slot_congr hslots]
    exact h.heap
  disjoint := by
    simp only [record_congr hmappings]
    exact h.disjoint
  shown := by
    unfold slotOf
    simp only [slot_congr hslots, record_congr hmappings]
    exact h.shown
  covers := h.covers.congr hslots hmappings

/-- Work that also keeps the layout, and leaves every page in place that a mapping went on to
show. -/
structure Arranged (pages : Nat) (p : Handle) (k k' : Kernel) : Prop extends
    Settled pages p k k' where
  laidOut_of_laidOut : k.LaidOut p → k'.LaidOut p
  lookup_of_shows : k.LaidOut p → ∀ n found, k.Shows p n → k'.Shows p n →
    (k.slotOf p).table.lookup (n * pageSize) = some found →
      (k'.slotOf p).table.lookup (n * pageSize) = some found

/-- Nothing was done yet. -/
theorem Arranged.refl (h : k.Accounted pages) (hlive : k.IsLive p) : k.Arranged pages p k :=
  ⟨.refl h hlive, id, fun _ _ _ _ _ => id⟩

/-- Only the pool, the slots and the records matter. -/
theorem Arranged.congr (h : Arranged pages p k k') (hpool : k''.pool = k'.pool)
    (hslots : k''.slots = k'.slots) (hmappings : k''.mappings = k'.mappings) :
    Arranged pages p k k'' where
  toSettled := h.toSettled.congr hpool hslots hmappings
  laidOut_of_laidOut hl := (h.laidOut_of_laidOut hl).congr hslots hmappings
  lookup_of_shows hl n found hshow hshow' := by
    unfold slotOf
    rw [slot_congr hslots]
    exact h.lookup_of_shows hl n found hshow (hshow'.congr hmappings.symm)

namespace Accounted

/-- What a mapping shows lies below the trap frame. -/
theorem lt_userPages_of_shows (h : k.Accounted pages) {n : Nat} (hshow : k.Shows p n) :
    n < userPages := by
  obtain ⟨j, r, hr, -, hc⟩ := hshow
  exact (h.inWindow j r hr).lt_userPages_of_covers hc

/-- What a mapping shows lies in the window. -/
theorem windowBase_le_of_shows (h : k.Accounted pages) {n : Nat} (hshow : k.Shows p n) :
    windowBase ≤ n * pageSize := by
  obtain ⟨j, r, hr, -, hc⟩ := hshow
  exact (h.inWindow j r hr).windowBase_le_of_covers hc

end Accounted

/-- A page below the size. -/
theorem LaidOut.lt_userPages (h : k.LaidOut p) {n : Nat} (hn : n < pagesIn (k.slotOf p).size) :
    n < userPages :=
  hn.trans_le ((UserMemory.pagesIn_le_pagesIn h.size_le).trans pagesIn_windowBase_le_userPages)

/-- All that is new in the table are pages of mappings, with their permissions. -/
theorem Tabled.arranged {S : Nat → Permissions → Prop} (h : k.Tabled pages p k')
    (hgains : Gains S (k.slotOf p).table (k'.slotOf p).table)
    (hS : ∀ n permissions, S n permissions → ∃ (j : Fin mappingLimit) (r : Mapping),
      k.record j = some r ∧ r.owner = p ∧ r.covers (n * pageSize) ∧
        permissions = r.permissions.validated) : k.Arranged pages p k' := by
  have hsettled := h.settled hgains.mapsOnly fun n ⟨permissions, hn⟩ => by
    obtain ⟨j, r, hr, howner, hc, -⟩ := hS n permissions hn
    exact ⟨j, r, hr, howner, hc⟩
  refine ⟨hsettled, fun hl => ⟨?_, fun n hn => ?_, ?_, ?_, hsettled.covers_of_covers hl.covers⟩,
    fun _ n found hshow hshow' hfound => ?_⟩
  -- the size, the heap and the records are as they were
  · rw [h.size_eq]
    exact hl.size_le
  · rw [h.size_eq] at hn
    obtain ⟨physical, permissions, hlookup, hopen⟩ := hl.heap n hn
    exact ⟨physical, permissions, hgains.lookup_of_some (hl.lt_userPages hn) hlookup, hopen⟩
  · simp only [record_congr h.mappings_same]
    exact hl.disjoint
  · simp only [record_congr h.mappings_same]
    intro j r hr howner n hc physical permissions hlookup
    -- a page was there before, with its permissions, or it is new, and belongs to the one record
    -- that covers it
    rcases hgains n ((h.accounted.inWindow j r (record_congr h.mappings_same j ▸ hr)
      ).lt_userPages_of_covers hc) with hsame | ⟨-, physical', permissions', hnew, hn⟩
    · exact hl.shown j r hr howner n hc physical permissions (hsame ▸ hlookup)
    · rw [hnew] at hlookup
      cases hlookup
      obtain ⟨i, r', hr', howner', hc', hperm⟩ := hS n permissions hn
      obtain rfl := hl.disjoint i j r' r hr' hr howner' howner _ hc' hc
      rw [hr] at hr'
      cases hr'
      exact hperm
  · exact hgains.lookup_of_some (h.accounted.lt_userPages_of_shows hshow') hfound

/-- A record is added that meets no other one of the process, for what is new in the table. -/
theorem Reworked.arranged_of_added (h : k.Reworked pages p k') {i : Fin mappingLimit}
    (hnone : k.record i = none) (hmappings : k'.mappings = (k.withRecord i (some r)).mappings)
    (howner : r.owner = p) (hsize : (k'.slotOf p).size = (k.slotOf p).size)
    (hwindow : r.InWindow)
    (hdisjoint : ∀ (j : Fin mappingLimit) (r' : Mapping), k.record j = some r' → r'.owner = p →
      ∀ address, r.covers address → ¬ r'.covers address)
    (hgains : Gains (fun n permissions => r.covers (n * pageSize) ∧
      permissions = r.permissions.validated) (k.slotOf p).table (k'.slotOf p).table) :
    k.Arranged pages p k' := by
  have hsettled := h.settled_of_added hnone hmappings howner hsize
    (hgains.mapsOnly.mono fun n ⟨_, hc, _⟩ => hc)
  refine ⟨hsettled, fun hl => ⟨?_, fun n hn => ?_, ?_, ?_, hsettled.covers_of_covers hl.covers⟩,
    fun _ n found _ hshow' hfound => ?_⟩
  -- the size and the heap are as they were
  · rw [hsize]
    exact hl.size_le
  · rw [hsize] at hn
    obtain ⟨physical, permissions, hlookup, hopen⟩ := hl.heap n hn
    exact ⟨physical, permissions, hgains.lookup_of_some (hl.lt_userPages hn) hlookup, hopen⟩
  -- records meet only if they are the same: the new one meets no other
  · simp only [record_congr hmappings, record_withRecord]
    intro j j' r₁ r₂ hr₁ hr₂ howner₁ howner₂ address hc₁ hc₂
    split at hr₁
    · next hij =>
      cases hr₁
      split at hr₂
      · next hij' => exact hij.symm.trans hij'
      · exact absurd hc₂ (hdisjoint j' r₂ hr₂ howner₂ address hc₁)
    · split at hr₂
      · cases hr₂
        exact absurd hc₁ (hdisjoint j r₁ hr₁ howner₁ address hc₂)
      · exact hl.disjoint j j' r₁ r₂ hr₁ hr₂ howner₁ howner₂ address hc₁ hc₂
  -- the pages of a record: they were there before, or they are new and belong to the new record
  · simp only [record_congr hmappings, record_withRecord]
    intro j r' hr' howner' n hc physical permissions hlookup
    have hin : r'.InWindow := by
      split at hr'
      · cases hr'
        exact hwindow
      · refine h.accounted.inWindow j r' ?_
        rw [record_congr hmappings, record_withRecord, if_neg ‹_›]
        exact hr'
    have hn := hin.lt_userPages_of_covers hc
    rcases hgains n hn with hsame | ⟨-, physical', permissions', hnew, hc', hperm⟩
    · rw [hsame] at hlookup
      split at hr'
      · -- nothing was mapped where the new record lies
        cases hr'
        have hmapped := PageTable.isMapped_of_lookup hlookup
        rcases hl.covers n hn hmapped with hlt | ⟨j', r₂, hr₂, howner₂, hc₂⟩
        · have hlt := page_lt_windowBase hl.size_le hlt
          exact absurd (hwindow.windowBase_le_of_covers hc) (Nat.not_le.mpr hlt)
        · exact absurd hc₂ (hdisjoint j' r₂ hr₂ howner₂ _ hc)
      · exact hl.shown j r' hr' howner' n hc physical permissions hlookup
    · rw [hnew] at hlookup
      cases hlookup
      split at hr'
      · cases hr'
        exact hperm
      · exact absurd hc (hdisjoint j r' hr' howner' _ hc')
  · exact hgains.lookup_of_some (h.accounted.lt_userPages_of_shows hshow') hfound

/-- The heap stays where it is if only pages of the window went. -/
theorem LaidOut.heap_of_removed (hl : k.LaidOut p) (hsize : (k'.slotOf p).size = (k.slotOf p).size)
    {first stop : Nat} (hfirst : windowBase ≤ first)
    (hlookup : ∀ n, (k'.slotOf p).table.lookup (n * pageSize) =
      if first ≤ n * pageSize ∧ n * pageSize < stop then none
      else (k.slotOf p).table.lookup (n * pageSize)) :
    ∀ n < pagesIn (k'.slotOf p).size, ∃ physical permissions,
      (k'.slotOf p).table.lookup (n * pageSize) = some (physical, permissions) ∧
        permissions.IsOpen := by
  intro n hn
  rw [hsize] at hn
  have hlt := page_lt_windowBase hl.size_le hn
  rw [hlookup, if_neg (by omega)]
  exact hl.heap n hn

/-- The first bytes of a record are dropped, and their pages with them. -/
theorem Reworked.arranged_of_shortened (h : k.Reworked pages p k') {i : Fin mappingLimit}
    {length : Nat} {rest : Option Mapping} (hr : k.record i = some r) (howner : r.owner = p)
    (hwindow : r.InWindow) (hrest : r.Shortened length rest) (hle : length ≤ r.length)
    (hmappings : k'.mappings = (k.withRecord i rest).mappings)
    (hsize : (k'.slotOf p).size = (k.slotOf p).size)
    (hlookup : ∀ n, (k'.slotOf p).table.lookup (n * pageSize) =
      if r.base ≤ n * pageSize ∧ n * pageSize < r.base + length then none
      else (k.slotOf p).table.lookup (n * pageSize)) : k.Arranged pages p k' := by
  -- what is left of the record stands in its place, and each other record in its own
  have hold {j : Fin mappingLimit} {r' : Mapping} (hr' : k'.record j = some r')
      (howner' : r'.owner = p) : ∃ r₀, k.record j = some r₀ ∧ r₀.owner = p ∧
        r'.permissions = r₀.permissions ∧ ∀ address, r'.covers address →
          r₀.covers address ∧ (i = j → r.base + length ≤ address) := by
    rw [record_congr hmappings, record_withRecord] at hr'
    split at hr'
    · next hij =>
      subst hij
      refine ⟨r, hr, howner, hrest.permissions_eq r' hr', fun address hc => ?_⟩
      obtain ⟨hc, hbeyond⟩ := (hrest.covers_iff address).mp ⟨r', hr', hc⟩
      exact ⟨hc, fun _ => hbeyond⟩
    · next hij => exact ⟨r', hr', howner', rfl, fun _ hc => ⟨hc, fun heq => absurd heq hij⟩⟩
  have hsettled : k.Settled pages p k' := by
    refine h.settled_of_removed hr hmappings hsize fun n _ hm => ?_
    have hout : ¬ (r.base ≤ n * pageSize ∧ n * pageSize < r.base + length) := fun hin =>
      PageTable.not_isMapped_of_lookup ((hlookup n).trans (if_pos hin)) hm
    unfold PageTable.isMapped at hm ⊢
    rw [hlookup, if_neg hout] at hm
    refine ⟨hm, fun hc => ?_⟩
    have hin := Mapping.covers_iff.mp hc
    obtain ⟨r', hr', hc'⟩ := (hrest.covers_iff _).mpr ⟨hc, by omega⟩
    exact ⟨r', hr', hrest.owner_eq r' hr', hc'⟩
  refine ⟨hsettled, fun hl => ⟨?_, hl.heap_of_removed hsize hwindow.windowBase_le hlookup, ?_, ?_,
    hsettled.covers_of_covers hl.covers⟩, fun hl n found _ hshow' hfound => ?_⟩
  -- the size is as it was, and what is left of records meets no more than the records did
  · rw [hsize]
    exact hl.size_le
  · intro j j' r₁ r₂ hr₁ hr₂ howner₁ howner₂ address hc₁ hc₂
    obtain ⟨r₁', hr₁', howner₁', -, hsub₁⟩ := hold hr₁ howner₁
    obtain ⟨r₂', hr₂', howner₂', -, hsub₂⟩ := hold hr₂ howner₂
    exact hl.disjoint j j' r₁' r₂' hr₁' hr₂' howner₁' howner₂' address (hsub₁ _ hc₁).1
      (hsub₂ _ hc₂).1
  -- a page that is still there was not dropped, and has the permissions of its record
  · intro j r' hr' howner' n hc physical permissions hfound
    obtain ⟨r₀, hr₀, howner₀, hperm, hsub⟩ := hold hr' howner'
    rw [hlookup] at hfound
    split at hfound
    · cases hfound
    · rw [hperm]
      exact hl.shown j r₀ hr₀ howner₀ n (hsub _ hc).1 physical permissions hfound
  -- a page that a mapping still shows was not dropped, since no other record covers it
  · obtain ⟨j, r', hr', howner', hc⟩ := hshow'
    obtain ⟨r₀, hr₀, howner₀, -, hsub⟩ := hold hr' howner'
    rw [hlookup, if_neg]
    · exact hfound
    · intro ⟨hlow, hhigh⟩
      have hin : r.covers (n * pageSize) := Mapping.covers_iff.mpr ⟨hlow, by omega⟩
      have hij := hl.disjoint i j r r₀ hr hr₀ howner howner₀ _ hin (hsub _ hc).1
      exact absurd ((hsub _ hc).2 hij) (Nat.not_le.mpr hhigh)

/-- A range that no mapping shows is cleared. -/
theorem Reworked.arranged_of_cleared (h : k.Reworked pages p k')
    (hmappings : k'.mappings = k.mappings) (hsize : (k'.slotOf p).size = (k.slotOf p).size)
    (hwindow : r.InWindow)
    (hdisjoint : ∀ (j : Fin mappingLimit) (r' : Mapping), k.record j = some r' → r'.owner = p →
      ∀ address, r.covers address → ¬ r'.covers address)
    (hlookup : ∀ n, (k'.slotOf p).table.lookup (n * pageSize) =
      if r.base ≤ n * pageSize ∧ n * pageSize < r.base + r.length then none
      else (k.slotOf p).table.lookup (n * pageSize)) : k.Arranged pages p k' := by
  have hsettled : k.Settled pages p k' := by
    refine ⟨h, fun hcovers => hcovers.of_imp (fun n _ hm => .inl ?_) (fun n _ _ hlt => .inl ?_)
      fun n _ _ hshow => .inr (hshow.congr hmappings)⟩
    · unfold PageTable.isMapped at hm ⊢
      rw [hlookup] at hm
      split at hm
      · cases hm
      · exact hm
    · rw [hsize]
      exact hlt
  refine ⟨hsettled, fun hl => ⟨?_, hl.heap_of_removed hsize hwindow.windowBase_le hlookup, ?_, ?_,
    hsettled.covers_of_covers hl.covers⟩, fun hl n found hshow _ hfound => ?_⟩
  -- the size and the records are as they were
  · rw [hsize]
    exact hl.size_le
  · simp only [record_congr hmappings]
    exact hl.disjoint
  -- a page that is still there has the permissions of its record
  · simp only [record_congr hmappings]
    intro j r' hr' howner' n hc physical permissions hfound
    rw [hlookup] at hfound
    split at hfound
    · cases hfound
    · exact hl.shown j r' hr' howner' n hc physical permissions hfound
  -- a page that a mapping shows does not lie in the range
  · obtain ⟨j, r', hr', howner', hc⟩ := hshow
    rw [hlookup, if_neg]
    · exact hfound
    · exact fun hin => hdisjoint j r' hr' howner' _ (Mapping.covers_iff.mpr hin) hc

/-- The pages below a new size are there, and the window is as it was. -/
theorem Tabled.arranged_setSize (h : k.Tabled pages p k') {size : Nat}
    (hsettled : k.Settled pages p (k'.withSlot p.slot { k'.slotOf p with size }))
    (hsize : k.LaidOut p → size ≤ windowBase)
    (hheap : k.LaidOut p → ∀ n < pagesIn size, ∃ physical permissions,
      (k'.slotOf p).table.lookup (n * pageSize) = some (physical, permissions) ∧ permissions.IsOpen)
    (hsame : k.LaidOut p → ∀ n, windowBase ≤ n * pageSize →
      (k'.slotOf p).table.lookup (n * pageSize) = (k.slotOf p).table.lookup (n * pageSize)) :
    k.Arranged pages p (k'.withSlot p.slot { k'.slotOf p with size }) := by
  have hmappings : (k'.withSlot p.slot { k'.slotOf p with size }).mappings = k.mappings :=
    h.mappings_same
  have hslot : (k'.withSlot p.slot { k'.slotOf p with size }).slotOf p =
      { k'.slotOf p with size } := slotOf_withSlot_self ..
  have htable : ({ k'.slotOf p with size } : Slot).table = (k'.slotOf p).table := rfl
  refine ⟨hsettled, fun hl => ⟨?_, ?_, ?_, ?_, hsettled.covers_of_covers hl.covers⟩,
    fun hl n found _ hshow' hfound => ?_⟩
  · rw [hslot]
    exact hsize hl
  · rw [hslot, htable]
    exact hheap hl
  · simp only [record_congr hmappings]
    exact hl.disjoint
  · rw [hslot, htable]
    simp only [record_congr hmappings]
    intro j r hr howner n hc physical permissions hfound
    have hin : r.InWindow := h.accounted.inWindow j r (record_congr h.mappings_same j ▸ hr)
    rw [hsame hl n (hin.windowBase_le_of_covers hc)] at hfound
    exact hl.shown j r hr howner n hc physical permissions hfound
  · rw [hslot, htable, hsame hl n (hsettled.accounted.windowBase_le_of_shows hshow')]
    exact hfound

end Kernel

end FairKernel
