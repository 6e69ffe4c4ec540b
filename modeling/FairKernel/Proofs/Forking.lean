import FairKernel.Proofs.Lifetimes

/-!
# Forking

A child takes over the memory of its parent in two ways: what lies below the size is copied as one
range, what lies in the mapping window is copied mapping by mapping. Together these are all pages of
the parent, and no page is met twice. If the child cannot have all of them it is unmade, and that
only happens when there is no slot, too few pages or too few records.

A fork goes through four stages, each with a theorem that its successor cites.

* The child is claimed like any other process (`Partitioned.leads_claim`).

* The pages below the size of the parent and the ranges of its records are copied, with a record for
  each (`Accounted.leads_copyRecords`). `CopiedAlong` grows along the way; in the end it names all
  pages of the parent, since a live process has no others. The records are entered in the lowest
  free places, so they come in the order of those of the parent (`MappedFirst`).

* The slot of the child is filled in (`Claimed.leads_copyProcess`, with `TookOver` for the result),
  or the records that it has by then are dropped together with their pages
  (`Accounted.leads_dropMappings`).

* The child gets its entity and its state, or is unmade (`Partitioned.leads_fork`). What there was
  to be had decides how a fork ends, unless the pool runs dry: `forkVerdict` tells the end in
  advance.
-/

namespace FairKernel

/-- Whether a mapping could not be made, or filled, because the pool ran dry. -/
def MappingError.IsDry (e : MappingError) : Prop := e = .memory .outOfMemory

/-- Whether a process could not be made because the pool ran dry. -/
def ProcessError.IsDry (e : ProcessError) : Prop :=
  e = .memory .outOfMemory ∨ ∃ e' : MappingError, e'.IsDry ∧ e = .mapping e'

/-- Two records of which no address lies in both. -/
def Mapping.Avoids (r r' : Mapping) : Prop := ∀ address, r.covers address → ¬ r'.covers address

open UserMemory (Copied Hindered MirrorOf Spared)

namespace Kernel

variable {pages : Nat} {k k' k'' : Kernel} {p parent : Handle} {r : Mapping}

/-! ### The records of one process -/

/-- The records of a process depend on the mapping table only. -/
theorem mappingsOf_congr (h : k'.mappings = k.mappings) (q : Handle) :
    k'.mappingsOf q = k.mappingsOf q := by
  unfold mappingsOf
  rw [h]

/-- The records of a process avoid each other if no address lies in two of them. -/
theorem pairwise_mappingsOf : (k.mappingsOf p).Pairwise Mapping.Avoids ↔
    ∀ (i j : Fin mappingLimit) (r r' : Mapping), k.record i = some r → k.record j = some r' →
      r.owner = p → r'.owner = p → ∀ address, r.covers address → r'.covers address → i = j := by
  have hlength : k.mappings.toList.length = mappingLimit := Vector.length_toList
  have hget (i : Fin mappingLimit) (hi : i < k.mappings.toList.length) :
      k.mappings.toList[i.val] = k.record i := Vector.getElem_toList hi
  have filter_iff (i : Fin mappingLimit) (r : Mapping) :
      (k.record i).filter (fun r => r.owner == p) = some r ↔ k.record i = some r ∧ r.owner = p := by
    rw [Option.filter_eq_some_iff, beq_iff_eq]
  have bound (i : Fin mappingLimit) : i < k.mappings.toList.length := i.isLt.trans_eq hlength.symm
  rw [mappingsOf, List.pairwise_filterMap, List.pairwise_iff_getElem]
  constructor
  -- two places with records that share an address: neither of them can come before the other
  · intro h i j r r' hr hr' howner howner' address hc hc'
    have avoids {i j : Fin mappingLimit} (hij : i < j) {r r' : Mapping} (hr : k.record i = some r)
        (hr' : k.record j = some r') (howner : r.owner = p) (howner' : r'.owner = p) :
        r.Avoids r' := by
      refine h i j (bound i) (bound j) hij r ?_ r' ?_
      · rw [hget i]
        exact (filter_iff i r).mpr ⟨hr, howner⟩
      · rw [hget j]
        exact (filter_iff j r').mpr ⟨hr', howner'⟩
    rcases lt_trichotomy i j with hij | hij | hij
    · exact absurd hc' (avoids hij hr hr' howner howner' address hc)
    · exact hij
    · exact absurd hc (avoids hij hr' hr howner' howner address hc')
  -- two members of the list that share an address lie in one place
  · intro h i j hi hj hij r hr r' hr' address hc hc'
    have hi' : i < mappingLimit := hi.trans_eq hlength
    have hj' : j < mappingLimit := hj.trans_eq hlength
    rw [hget ⟨i, hi'⟩] at hr
    rw [hget ⟨j, hj'⟩] at hr'
    obtain ⟨hr, howner⟩ := (filter_iff _ r).mp hr
    obtain ⟨hr', howner'⟩ := (filter_iff _ r').mp hr'
    have heq := h _ _ r r' hr hr' howner howner' address hc hc'
    exact absurd (congrArg Fin.val heq) hij.ne

/-- A record after all others of its process comes last among them. -/
theorem mappingsOf_withRecord {i : Fin mappingLimit} (hnone : k.record i = none)
    (howner : r.owner = p) (hlast : ∀ (j : Fin mappingLimit) (r' : Mapping), i < j →
      k.record j = some r' → r'.owner ≠ p) :
    (k.withRecord i (some r)).mappingsOf p = k.mappingsOf p ++ [r] := by
  have hlength : k.mappings.toList.length = mappingLimit := Vector.length_toList
  have hi : i < k.mappings.toList.length := i.isLt.trans_eq hlength.symm
  have hget : k.mappings.toList[i.val] = none := (Vector.getElem_toList hi).trans hnone
  have hsplit : k.mappings.toList = k.mappings.toList.take i ++ none ::
      k.mappings.toList.drop (i + 1) := by
    conv_lhs => rw [← List.take_append_drop i k.mappings.toList, List.drop_eq_getElem_cons hi, hget]
  -- no record of the process follows
  have hrest : (k.mappings.toList.drop (i + 1)).filterMap
      (fun record => record.filter fun r => r.owner == p) = [] := by
    rw [List.filterMap_eq_nil_iff]
    intro record hmem
    obtain ⟨j, hj, rfl⟩ := List.mem_drop_iff_getElem.mp hmem
    have hj' : i + 1 + j < mappingLimit := by omega
    have hrecord : k.mappings.toList[i + 1 + j] = k.record ⟨i + 1 + j, hj'⟩ :=
      Vector.getElem_toList _
    rw [hrecord, Option.filter_eq_none_iff]
    intro r' hr'
    rw [Bool.not_eq_true, beq_eq_false_iff_ne]
    refine hlast _ r' ?_ hr'
    exact Fin.lt_def.mpr (by dsimp only; omega)
  -- the new record is one of the process, and stands where the last part of the list begins
  have hnew : (some r).filter (fun r : Mapping => r.owner == p) = some r := by
    rw [Option.filter_eq_some_iff, beq_iff_eq]
    exact ⟨rfl, howner⟩
  have hset : (k.withRecord i (some r)).mappings.toList = k.mappings.toList.take i ++ some r ::
      k.mappings.toList.drop (i + 1) := by
    rw [withRecord, Vector.toList_set, List.set_eq_take_append_cons_drop, if_pos hi]
  have hold : k.mappingsOf p = (k.mappings.toList.take i).filterMap
      fun record => record.filter fun r => r.owner == p := by
    rw [mappingsOf]
    conv_lhs => rw [hsplit]
    rw [List.filterMap_append, List.filterMap_cons_none rfl, hrest, List.append_nil]
  rw [hold, mappingsOf, hset, List.filterMap_append, List.filterMap_cons_some hnew, hrest]

/-- Records that nobody has. -/
def freeRecordCount (k : Kernel) : Nat :=
  (Finset.univ.filter fun j : Fin mappingLimit => (k.record j).isNone).card

/-- How many records nobody has depends on the mapping table only. -/
theorem freeRecordCount_congr (h : k'.mappings = k.mappings) :
    k'.freeRecordCount = k.freeRecordCount := by
  unfold freeRecordCount
  simp only [record_congr h]

/-- One record less is free after one is entered. -/
theorem freeRecordCount_withRecord {i : Fin mappingLimit} (hnone : k.record i = none) :
    (k.withRecord i (some r)).freeRecordCount + 1 = k.freeRecordCount := by
  have hmem : i ∈ Finset.univ.filter fun j : Fin mappingLimit => (k.record j).isNone := by
    rw [Finset.mem_filter, hnone]
    exact ⟨Finset.mem_univ i, rfl⟩
  have herase : (Finset.univ.filter fun j : Fin mappingLimit =>
      ((k.withRecord i (some r)).record j).isNone) =
        (Finset.univ.filter fun j : Fin mappingLimit => (k.record j).isNone).erase i := by
    ext j
    rw [Finset.mem_erase, Finset.mem_filter, Finset.mem_filter, record_withRecord]
    by_cases hij : i = j
    · rw [if_pos hij]
      exact ⟨fun h => absurd h.2 Bool.false_ne_true, fun h => absurd hij.symm h.1⟩
    · rw [if_neg hij]
      exact ⟨fun h => ⟨fun heq => hij heq.symm, h⟩, fun h => h.2⟩
  rw [freeRecordCount, herase, Finset.card_erase_add_one hmem, freeRecordCount]

/-- Without a free place every record is somebody's. -/
theorem freeRecordCount_eq_zero (h : k.freeRecord? = none) : k.freeRecordCount = 0 := by
  rw [freeRecordCount, Finset.card_eq_zero, Finset.filter_eq_empty_iff]
  exact fun j _ => not_of_findFinIdx? h j

/-- Whether all records of a process come before those that nobody has. -/
def MappedFirst (k : Kernel) (p : Handle) : Prop :=
  ∀ (i j : Fin mappingLimit) (r : Mapping), k.record i = some r → r.owner = p →
    k.record j = none → i < j

/-- In which order the records of a process lie depends on the mapping table only. -/
theorem MappedFirst.congr (h : k.MappedFirst p) (hmappings : k'.mappings = k.mappings) :
    k'.MappedFirst p := by
  unfold MappedFirst
  simp only [record_congr hmappings]
  exact h

/-- A record in the lowest free place keeps those of its process first. -/
theorem MappedFirst.withRecord (h : k.MappedFirst p) {i : Fin mappingLimit}
    (hi : k.freeRecord? = some i) : (k.withRecord i (some r)).MappedFirst p := by
  intro i' j r' hr' howner hj
  rw [record_withRecord] at hr' hj
  split at hj
  · cases hj
  next hij =>
  split at hr'
  · next hii =>
    subst hii
    have hle := le_of_findFinIdx? hi (j := j) (Option.isNone_iff_eq_none.mpr hj)
    exact lt_of_le_of_ne hle hij
  · exact h i' j r' hr' howner hj

/-! ### Copies of ranges and records -/

/-- A range is copied as a whole, or nothing new is mapped. -/
theorem Accounted.leads_copyRange (h : k.Accounted pages) (hlive : k.IsLive p)
    (table : PageTable) {n last : Nat} (hle : n + pagesIn (last - n * pageSize) ≤ userPages)
    {E : Panic → Prop} :
    Leads k (onMemory p fun m => m.copyRange table (n * pageSize) last)
      (fun result k' => k.Tabled pages p k' ∧
        (result = .ok () → Spared pages (k.memory p) (k'.memory p) ∧
          Copied pages table n (n + pagesIn (last - n * pageSize)) (k.memory p) (k'.memory p)) ∧
        ∀ e, result = .error e → (∀ a, (k'.memory p).table.lookup (a * pageSize) = none ∨
            (k'.memory p).table.lookup (a * pageSize) = (k.memory p).table.lookup (a * pageSize)) ∧
          Hindered table n (n + pagesIn (last - n * pageSize)) (k.memory p) e) E := by
  refine h.leads_onMemory hlive (fun (result : Except MemoryError Unit) m =>
    (result = .ok () → Spared pages (k.memory p) m ∧
      Copied pages table n (n + pagesIn (last - n * pageSize)) (k.memory p) m) ∧
    ∀ e, result = .error e → (∀ a, m.table.lookup (a * pageSize) = none ∨
        m.table.lookup (a * pageSize) = (k.memory p).table.lookup (a * pageSize)) ∧
      Hindered table n (n + pagesIn (last - n * pageSize)) (k.memory p) e) fun others hm _ _ => ?_
  exact hm.copyRange table hle

/-- What comes of work on a child that only maps more for it. -/
structure Inherits (pages : Nat) (p : Handle) (k k' : Kernel) : Prop extends
    Settled pages p k k' where
  slot_eq : k'.slotOf p = (k.slotOf p).withTable (k'.slotOf p).table

/-- Nothing was done yet. -/
theorem Inherits.refl (h : k.Accounted pages) (hlive : k.IsLive p) : k.Inherits pages p k :=
  ⟨.refl h hlive, (Slot.withTable_self _).symm⟩

/-- Work that only maps more, and more of it. -/
theorem Inherits.trans (h : k.Inherits pages p k') (h' : k'.Inherits pages p k'') :
    k.Inherits pages p k'' :=
  ⟨h.toSettled.trans h'.toSettled,
    h'.slot_eq.trans ((congrArg (Slot.withTable · _) h.slot_eq).trans
      (Slot.withTable_withTable ..))⟩

/-- What failed to be copied left nothing behind. -/
theorem Tabled.inherits_of_removed (h : k.Tabled pages p k')
    (hlookup : ∀ a, (k'.memory p).table.lookup (a * pageSize) = none ∨
      (k'.memory p).table.lookup (a * pageSize) = (k.memory p).table.lookup (a * pageSize)) :
    k.Inherits pages p k' := by
  refine ⟨h.settled (S := fun _ => False) (fun n _ hm => .inl ?_) nofun, h.slot_eq⟩
  change (k'.memory p).table.isMapped (n * pageSize) at hm
  unfold PageTable.isMapped at hm
  rcases hlookup n with hnone | hsame
  · rw [hnone] at hm
    cases hm
  · rw [hsame] at hm
    exact hm

/-- Nothing was copied yet where some mappings lie that are to be copied. -/
structure Clear (S : Nat → Prop) (records : List Mapping) : Prop where
  fresh : ∀ r ∈ records, ∀ n, r.covers (n * pageSize) → ¬ S n
  disjoint : records.Pairwise Mapping.Avoids

/-- Why mappings cannot be copied: there are too few records for them, or the pool ran dry before
all pages of a table were copied. -/
def Lacks (p : Handle) (table : PageTable) (records : List Mapping) (k : Kernel)
    (e : MappingError) : Prop :=
  e = .tableFull ∧ k.freeRecordCount < records.length ∨
    e = .memory .outOfMemory ∧ (k.memory p).pagesOf.card < table.residentCount

/-- What is copied along with some records. -/
def CopiedAlong (S : Nat → Prop) (records : List Mapping) (n : Nat) : Prop :=
  S n ∨ ∃ r ∈ records, r.covers (n * pageSize)

/-- What is copied along with a record and the rest is copied along with all of them. -/
theorem copiedAlong_cons {S : Nat → Prop} {records : List Mapping} {n : Nat} :
    CopiedAlong (fun a => S a ∨ r.covers (a * pageSize)) records n ↔
      CopiedAlong S (r :: records) n := by
  unfold CopiedAlong
  rw [List.exists_mem_cons_iff, or_assoc]

/-- After one record is copied nothing is in the way of those that remain. -/
theorem Clear.tail {S : Nat → Prop} {records : List Mapping} (h : Clear S (r :: records)) :
    Clear (fun a => S a ∨ r.covers (a * pageSize)) records where
  fresh r' hr' n hc := by
    rintro (hSn | hc')
    · exact h.fresh r' (List.mem_cons_of_mem r hr') n hc hSn
    · exact (List.pairwise_cons.mp h.disjoint).1 r' hr' _ hc' hc
  disjoint := (List.pairwise_cons.mp h.disjoint).2

/-- What is lacking after one record is copied was lacking before. -/
theorem Lacks.cons {table : PageTable} {records : List Mapping} {e : MappingError}
    (h : k'.Lacks p table records e) (hcount : k'.freeRecordCount + 1 = k.freeRecordCount)
    (hpages : (k'.memory p).pagesOf = (k.memory p).pagesOf) :
    k.Lacks p table (r :: records) e := by
  refine h.imp (fun ⟨he, hlt⟩ => ⟨he, ?_⟩) fun ⟨he, hlt⟩ => ⟨he, hpages ▸ hlt⟩
  rw [List.length_cons, ← hcount]
  exact Nat.succ_lt_succ hlt

/-- Once the record for a range that was copied is there, nothing new lies outside of the
records. -/
theorem Tabled.inherits_of_copied (h : k.Tabled pages p k') {i : Fin mappingLimit}
    (hnone : k.record i = none) (hr : r.InWindow) {table : PageTable}
    (hcopied : Copied pages table r.firstPage (r.firstPage + r.pageCount) (k.memory p)
      (k'.memory p)) : k.Inherits pages p (k'.withRecord i (some { r with owner := p })) := by
  have hmappings : (k'.withRecord i (some { r with owner := p })).mappings =
      (k.withRecord i (some { r with owner := p })).mappings :=
    congrArg (fun v : Vector (Option Mapping) mappingLimit => v.set i (some { r with owner := p }))
      h.mappings_same
  have hreworked : k.Reworked pages p (k'.withRecord i (some { r with owner := p })) := by
    refine ⟨h.accounted.setRecord i _ ?_, h.isLive,
      h.apart.trans (.withRecord (fun r' hr' => ?_) ?_)⟩
    · rintro _ ⟨⟩
      exact ⟨hr.base_mod, hr.length_mod, hr.windowBase_le, hr.stop_le⟩
    · rw [record_congr h.mappings_same, hnone] at hr'
      cases hr'
    · rintro _ ⟨⟩
      rfl
  refine ⟨hreworked.settled_of_added hnone hmappings rfl h.size_eq fun n _ hm => ?_, h.slot_eq⟩
  by_cases hin : r.firstPage ≤ n ∧ n < r.firstPage + r.pageCount
  · exact .inr ((hr.covers_page n).mpr hin)
  · change (k'.memory p).table.isMapped (n * pageSize) at hm
    unfold PageTable.isMapped at hm
    rw [hcopied.same n fun hex => hin ⟨hex.1, hex.2.1⟩] at hm
    exact .inl hm

/-- A record in the lowest free place comes after all others of a process that are mapped first. -/
theorem MappedFirst.mappingsOf_withRecord (h : k.MappedFirst p) {i : Fin mappingLimit}
    (hnone : k.record i = none) (howner : r.owner = p) :
    (k.withRecord i (some r)).mappingsOf p = k.mappingsOf p ++ [r] :=
  Kernel.mappingsOf_withRecord hnone howner fun j r' hij hr' howner' =>
    absurd (h j i r' hr' howner' hnone) (lt_asymm hij)

/-- Copied pages lie in copied records, in the order of these. All are copied unless something is
lacking. -/
theorem Accounted.leads_copyRecords (h : k.Accounted pages) (hlive : k.IsLive p)
    {table : PageTable} {records : List Mapping} (hrecords : ∀ r ∈ records, r.InWindow)
    {S : Nat → Prop} {m₀ : UserMemory} (hm₀ : ∀ a ∈ m₀.pool.free, a ∈ poolPages pages)
    (hmirror : MirrorOf pages table S m₀ (k.memory p)) {E : Panic → Prop} :
    Leads k (copyRecords p table records) (fun result k' => k.Inherits pages p k' ∧
      (result = .ok () → MirrorOf pages table (CopiedAlong S records) m₀ (k'.memory p) ∧
        (k.MappedFirst p → k'.mappingsOf p =
          k.mappingsOf p ++ records.map fun r => { r with owner := p }) ∧
        k'.freeRecordCount + records.length = k.freeRecordCount) ∧
      ∀ e, result = .error e → Clear S records → k.Lacks p table records e) E := by
  -- by records: with each of them `S` grows by the pages of that record
  induction records generalizing k S with
  | nil =>
    refine ⟨.refl h hlive, fun _ => ⟨hmirror.congr fun n _ => ?_, fun _ => ?_, rfl⟩, nofun⟩
    · exact (or_iff_left fun ⟨_, hmem, _⟩ => absurd hmem List.not_mem_nil).symm
    · rw [List.map_nil, List.append_nil]
  | cons r rest ih =>
    have hwindow := hrecords r List.mem_cons_self
    unfold copyRecords
    simp only [leads_bind, leads_get]
    -- no record is left for this one, ...
    split
    · next hfull =>
      refine ⟨.refl h hlive, nofun, fun e he _ => .inl ⟨(Except.error.inj he).symm, ?_⟩⟩
      rw [freeRecordCount_eq_zero hfull]
      exact Nat.zero_lt_succ _
    next i hfree =>
    have hnone := record_of_freeRecord? hfree
    have hle : r.firstPage + pagesIn (r.stop - r.firstPage * pageSize) ≤ userPages := by
      rw [← hwindow.base_eq, hwindow.pagesIn_eq]
      exact hwindow.le_userPages
    have hcopy := h.leads_copyRange (E := E) hlive table hle
    rw [← hwindow.base_eq, hwindow.pagesIn_eq] at hcopy
    rw [leads_bind]
    refine hcopy.imp fun copied k₁ ⟨h₁, hok, herror⟩ => ?_
    -- ... or its pages could not all be copied, ...
    cases copied with
    | error e =>
      obtain ⟨hremoved, hhindered⟩ := herror e rfl
      refine ⟨h₁.inherits_of_removed hremoved, nofun, fun e' he hclear => .inr ?_⟩
      obtain ⟨rfl, hlt⟩ := hmirror.dry_of_hindered hwindow.le_userPages (fun a hle hlt =>
        hclear.fresh r List.mem_cons_self a ((hwindow.covers_page a).mpr ⟨hle, hlt⟩)) hhindered
      exact ⟨(Except.error.inj he).symm, hlt⟩
    -- ... or they are there, and the record is entered for them
    | ok _ =>
      obtain ⟨hspared, hcopied⟩ := hok rfl
      simp only [leads_bind, leads_setRecord]
      set k₂ : Kernel := k₁.withRecord i (some { r with owner := p }) with hk₂
      have h₂ : k.Inherits pages p k₂ := h₁.inherits_of_copied hnone hwindow hcopied
      have hmappings : k₂.mappings = (k.withRecord i (some { r with owner := p })).mappings :=
        congrArg (fun v : Vector (Option Mapping) mappingLimit =>
          v.set i (some { r with owner := p })) h₁.mappings_same
      -- the mirror now has the pages of this record besides those before
      have hmirror₂ : MirrorOf pages table (fun a => S a ∨ r.covers (a * pageSize)) m₀
          (k₂.memory p) :=
        (hmirror.extend hm₀ hspared hcopied).congr fun a _ => by rw [hwindow.covers_page a]
      have hcount : k₂.freeRecordCount + 1 = k.freeRecordCount :=
        (congrArg (· + 1) (freeRecordCount_congr hmappings)).trans
          (freeRecordCount_withRecord hnone)
      refine (ih h₂.accounted h₂.isLive (fun r' hr' => hrecords r' (List.mem_cons_of_mem r hr'))
        hmirror₂).imp fun result k₃ ⟨h₃, hok₃, herror₃⟩ => ⟨h₂.trans h₃, fun heq => ?_,
          fun e heq hclear => (herror₃ e heq hclear.tail).cons hcount h₁.pagesOf_eq⟩
      obtain ⟨hmirror₃, hlist, hcount₃⟩ := hok₃ heq
      refine ⟨hmirror₃.congr fun a _ => copiedAlong_cons, fun hfirst => ?_, ?_⟩
      · rw [hlist ((hfirst.withRecord hfree).congr hmappings), mappingsOf_congr hmappings,
          hfirst.mappingsOf_withRecord hnone rfl, List.append_assoc, List.map_cons,
          List.singleton_append]
      · rw [List.length_cons, ← hcount, ← hcount₃, Nat.add_assoc]

/-- Records are dropped together with their pages, and none of the process is left. -/
theorem Accounted.leads_dropMappings (h : k.Accounted pages) (hlive : k.IsLive p)
    (indices : List (Fin mappingLimit)) {E : Panic → Prop} :
    Leads k (dropMappings p indices) (fun _ k' => k.Inherits pages p k' ∧
      ∀ (j : Fin mappingLimit) (r : Mapping), k'.record j = some r → r.owner = p →
        j ∉ indices ∧ k.record j = some r) E := by
  -- by indices: no record is made on the way, so those that are dropped stay away
  induction indices generalizing k with
  | nil => exact ⟨.refl h hlive, fun j r hr _ => ⟨List.not_mem_nil, hr⟩⟩
  | cons i rest ih =>
    unfold dropMappings
    simp only [leads_bind, leads_get]
    -- the place is empty or somebody else's, ...
    split
    · next hfilter =>
      refine (ih h hlive).imp fun _ k' hrest => ⟨hrest.1, fun j r hr howner => ?_⟩
      obtain ⟨hj, hold⟩ := hrest.2 j r hr howner
      refine ⟨fun hmem => ?_, hold⟩
      rcases List.mem_cons.mp hmem with rfl | hmem
      · rw [hold, Option.filter_eq_none_iff] at hfilter
        exact hfilter r rfl (beq_iff_eq.mpr howner)
      · exact hj hmem
    -- ... or the record there is dropped with its pages
    next r hfilter =>
    obtain ⟨hr, howner⟩ := Option.filter_eq_some_iff.mp hfilter
    have howner : r.owner = p := beq_iff_eq.mp howner
    have hwindow := h.inWindow i r hr
    rw [leads_bind, hwindow.base_eq]
    refine (h.leads_unmapRange hlive hwindow.le_userPages).imp fun _ k₁ hunmapped => ?_
    obtain ⟨h₁, hlookup, -⟩ := hunmapped
    simp only [leads_bind, leads_setRecord]
    set k₂ : Kernel := k₁.withRecord i none
    have hmappings : k₂.mappings = (k.withRecord i none).mappings :=
      congrArg (fun v : Vector (Option Mapping) mappingLimit => v.set i none) h₁.mappings_same
    have hone : k.Apart p k₂ := by
      refine h₁.apart.trans (.withRecord (fun r' hr' => ?_) (by rintro _ ⟨⟩))
      rw [record_congr h₁.mappings_same, hr] at hr'
      cases hr'
      exact howner
    have h₂ : k.Inherits pages p k₂ := by
      refine ⟨Reworked.settled_of_removed
        ⟨h₁.accounted.setRecord i none (by rintro _ ⟨⟩), h₁.isLive, hone⟩
        hr hmappings h₁.size_eq fun n _ hm => ?_, h₁.slot_eq⟩
      obtain ⟨hout, hm⟩ := isMapped_of_removed (hlookup n) hm
      exact ⟨hm, fun hc => absurd ((hwindow.covers_page n).mp hc) hout⟩
    refine (ih h₂.accounted h₂.isLive).imp fun _ k₃ hrest =>
      ⟨h₂.trans hrest.1, fun j r' hr' howner' => ?_⟩
    obtain ⟨hj, hold⟩ := hrest.2 j r' hr' howner'
    rw [record_congr hmappings, record_withRecord] at hold
    split at hold
    · cases hold
    next hij =>
    -- what is there in the end is neither the record just dropped nor one of the rest
    refine ⟨fun hmem => ?_, hold⟩
    rcases List.mem_cons.mp hmem with rfl | hmem
    · exact hij rfl
    · exact hj hmem

/-- Mappings of one process are copied for another one, or that one has no mapping any more. -/
theorem Accounted.leads_copyMappings (h : k.Accounted pages) (hlive : k.IsLive p)
    {table : PageTable} {S : Nat → Prop} {m₀ : UserMemory}
    (hm₀ : ∀ a ∈ m₀.pool.free, a ∈ poolPages pages)
    (hmirror : MirrorOf pages table S m₀ (k.memory p)) {E : Panic → Prop} :
    Leads k (copyMappings parent p table) (fun result k' => k.Inherits pages p k' ∧
      (result = .ok () →
        MirrorOf pages table (CopiedAlong S (k.mappingsOf parent)) m₀ (k'.memory p) ∧
        (k.MappedFirst p → k'.mappingsOf p = k.mappingsOf p ++
          (k.mappingsOf parent).map fun r => { r with owner := p }) ∧
        k'.freeRecordCount + (k.mappingsOf parent).length = k.freeRecordCount) ∧
      ∀ e, result = .error e →
        (Clear S (k.mappingsOf parent) → k.Lacks p table (k.mappingsOf parent) e) ∧
        ∀ (j : Fin mappingLimit) (r : Mapping), k'.record j = some r → r.owner ≠ p) E := by
  have hrecords : ∀ r ∈ k.mappingsOf parent, r.InWindow := fun r hr => by
    obtain ⟨j, hj, -⟩ := mem_mappingsOf.mp hr
    exact h.inWindow j r hj
  unfold copyMappings
  simp only [leads_bind, leads_get]
  refine (h.leads_copyRecords hlive hrecords hm₀ hmirror).imp
    fun copied k₁ ⟨h₁, hok, herror⟩ => ?_
  cases copied with
  -- a mapping fails to be copied: the child's records are dropped, and none of them is left
  | ok _ => exact ⟨h₁, hok, nofun⟩
  | error e =>
    simp only [leads_bind, leads_pure]
    refine (h₁.accounted.leads_dropMappings h₁.isLive _).imp fun _ k₂ ⟨h₂, hleft⟩ => ?_
    refine ⟨h₁.trans h₂, nofun, fun e' he => ⟨herror e' he, fun j r hr howner => ?_⟩⟩
    exact (hleft j r hr howner).1 (List.mem_finRange j)

/-! ### Children -/

/-- What a child took over from its parent: all but the registers that are copied is in its slot. -/
structure TookOver (pages : Nat) (parent p : Handle) (k k' k'' : Kernel) : Prop where
  slot_eq : ∃ space, k''.slotOf p = { k'.slotOf p with
      size := (k.slotOf parent).size, files := (k.slotOf parent).files
      name := (k.slotOf parent).name, space := some space } ∧
    (k.slotOf parent).space.map (fun source => source.registers.set .a0 0) = some space.registers
  mirror : MirrorOf pages (k.slotOf parent).table
    (CopiedAlong (fun n => n < pagesIn (k.slotOf parent).size) (k.mappingsOf parent))
    (k'.memory p) (k''.memory p)
  mappings_eq : k.MappedFirst p → k''.mappingsOf p =
    k.mappingsOf p ++ (k.mappingsOf parent).map fun r => { r with owner := p }
  records_eq : k''.freeRecordCount + (k.mappingsOf parent).length = k.freeRecordCount

/-- Why a new process cannot become a copy of its parent: there are too few records for it, or the
pool ran dry. -/
def LacksForChild (parent : Handle) (k : Kernel) (e : ProcessError) : Prop :=
  e = .mapping .tableFull ∧ k.freeRecordCount < (k.mappingsOf parent).length ∨
    e.IsDry ∧ k.pool.freeCount < 1 + (k.slotOf parent).table.residentCount

theorem Claimed.free_subset (h : k.Claimed pages p k') (hk : k.Accounted pages) :
    ∀ a ∈ k'.pool.free, a ∈ k.pool.free := by
  intro a ha
  have hadd := h.apart.pages_add_free hk h.accounted
  have hnone : (k.slotOf p).pages = 0 := Slot.pages_of_none (hk.space_of_not_isLive h.dead)
  rw [hnone, zero_add] at hadd
  rw [← Multiset.mem_coe, ← hadd]
  exact Multiset.mem_add.mpr (.inr (Multiset.mem_coe.mpr ha))

/-- The slot of a live process is not the one in which a new process is made. -/
theorem Claimed.slot_ne (h : k.Claimed pages p k') (hparent : k.IsLive parent) :
    parent.slot ≠ p.slot := fun heq => by
  have hlive := hparent.1
  rw [slotOf_congr heq] at hlive
  exact h.dead hlive

/-- One page of a new process went into its trap frame. -/
theorem Claimed.freeCount_lt_of_card (h : k.Claimed pages p k') {table : PageTable}
    (hlt : (k'.memory p).pagesOf.card < table.residentCount) :
    k.pool.freeCount < 1 + table.residentCount := by
  have hlength := h.free_length
  rw [h.card_pagesOf] at hlt
  unfold Pool.freeCount
  omega

/-- Nothing of a parent has been copied to a new process yet. -/
theorem Claimed.mirrorOf (h : k.Claimed pages p k') (table : PageTable) :
    MirrorOf pages table (fun _ => False) (k'.memory p) (k'.memory p) := by
  refine .of_blank fun n hn => ?_
  have hnot := h.blank n hn
  unfold PageTable.isMapped at hnot
  exact Option.not_isSome_iff_eq_none.mp hnot

/-- The mappings of a process lie above what it has below its size. -/
theorem LaidOut.clear (h : k.LaidOut p) (hk : k.Accounted pages) :
    Clear (fun n => n < pagesIn (k.slotOf p).size) (k.mappingsOf p) := by
  refine ⟨fun r hr n hc hn => ?_, pairwise_mappingsOf.mpr h.disjoint⟩
  obtain ⟨j, hj, -⟩ := mem_mappingsOf.mp hr
  have hle := (hk.inWindow j r hj).windowBase_le_of_covers hc
  exact absurd hle (Nat.not_le.mpr (page_lt_windowBase h.size_le hn))

/-- The slot of a child that has its memory: it enters user space as `source` does, but for what the
fork answers. -/
def childSlot (s parent : Slot) (space source : AddressSpace) : Slot :=
  { s with
    space := some { space with registers := source.registers.set .a0 0 }
    files := parent.files
    name := parent.name }

/-- Everything but the memory of a child leaves its memory alone. -/
theorem Accounted.settled_childSlot (h : k.Accounted pages) (hlive : k.IsLive p) (s : Slot)
    {space : AddressSpace} (hspace : (k.slotOf p).space = some space) (source : AddressSpace) :
    k.Settled pages p (k.withSlot p.slot (childSlot (k.slotOf p) s space source)) ∧
      (k.withSlot p.slot (childSlot (k.slotOf p) s space source)).memory p = k.memory p := by
  have hslot : (k.withSlot p.slot (childSlot (k.slotOf p) s space source)).slotOf p =
    childSlot (k.slotOf p) s space source := slotOf_withSlot_self ..
  refine ⟨h.settled_withSlot hlive (Slot.estate_congr' rfl rfl rfl ?_), ?_⟩
  · rw [hspace]
    rfl
  · unfold memory
    rw [hslot, Slot.table_of_space hspace, Slot.table_of_space rfl]
    rfl

/-- A new process becomes a copy of its parent, or it has no mappings and there was no room. -/
theorem Claimed.leads_copyProcess (h : k.Claimed pages p k') (hk : k.Accounted pages)
    (hparent : k.IsLive parent) {E : Panic → Prop} :
    Leads k' (copyProcess parent p) (fun result k'' => k'.Settled pages p k'' ∧
      (result = .ok () → TookOver pages parent p k k' k'') ∧
      ∀ e, result = .error e →
        (∀ (j : Fin mappingLimit) (r : Mapping), k''.record j = some r → r.owner = p →
          k.record j = some r) ∧
        (k.LaidOut parent → k.LacksForChild parent e)) E := by
  have hsource : k'.slotOf parent = k.slotOf parent :=
    h.apart.slots_eq parent.slot (h.slot_ne hparent)
  obtain ⟨space, hspace⟩ := hk.space_of_handle hparent
  have htable : (k.slotOf parent).table = space.table := Slot.table_of_space hspace
  have hsize : pagesIn (k.slotOf parent).size ≤ userPages := hk.size_le parent.slot
  have hm₀ : ∀ a ∈ (k'.memory p).pool.free, a ∈ poolPages pages := fun a ha =>
    Finset.mem_def.mpr (h.accounted.whole ▸ Multiset.mem_add.mpr (.inr (Multiset.mem_coe.mpr ha)))
  have hblank := h.mirrorOf space.table
  -- one page went into the trap frame of the child, so it has one less to copy to
  have few (hlt : (k'.memory p).pagesOf.card < space.table.residentCount) :
      k.pool.freeCount < 1 + (k.slotOf parent).table.residentCount :=
    htable ▸ h.freeCount_lt_of_card hlt
  unfold copyProcess
  simp only [leads_bind, leads_getSlot, hsource, hspace]
  have hle : 0 + pagesIn ((k.slotOf parent).size - 0 * pageSize) ≤ userPages := by
    rwa [Nat.zero_mul, Nat.sub_zero, Nat.zero_add]
  have hcopy := h.accounted.leads_copyRange (E := E) h.isLive space.table hle
  rw [Nat.zero_mul, Nat.sub_zero, Nat.zero_add] at hcopy
  -- the range below the size is copied, ...
  refine hcopy.imp fun copied k₁ hcopied => ?_
  obtain ⟨h₁, hok, herror⟩ := hcopied
  have hmappings₁ : k₁.mappings = k.mappings := h₁.mappings_same.trans h.mappings_same
  cases copied with
  | error e =>
    obtain ⟨hremoved, hhindered⟩ := herror e rfl
    refine ⟨(h₁.inherits_of_removed hremoved).toSettled, by rintro ⟨⟩,
      fun e' he => ⟨fun j r hr _ => ?_, fun _ => .inr ?_⟩⟩
    · rwa [record_congr hmappings₁] at hr
    · obtain ⟨rfl, hlt⟩ := hblank.dry_of_hindered hsize (fun _ _ _ => id) hhindered
      exact ⟨.inl (Except.error.inj he).symm, few hlt⟩
  | ok _ =>
    obtain ⟨hspared, hcopied⟩ := hok rfl
    simp only [leads_bind, leads_modifySlot]
    -- ... then the size is set, which the copies cover, ...
    have hmirror₁ : MirrorOf pages space.table (fun n => n < pagesIn (k.slotOf parent).size)
        (k'.memory p) (k₁.memory p) := by
      refine (hblank.extend hm₀ hspared hcopied).congr fun n _ => ?_
      simp only [false_or, Nat.zero_le, true_and]
    have h₂ := h₁.setSize hsize fun n hn hm => .inr (hmirror₁.of_isMapped hn hm).1
    set k₂ : Kernel := k₁.withSlot p.slot { k₁.slotOf p with size := (k.slotOf parent).size }
    have hslot₂ : k₂.slotOf p = { k₁.slotOf p with size := (k.slotOf parent).size } :=
      slotOf_withSlot_self ..
    have hmemory₂ : k₂.memory p = k₁.memory p := by
      unfold memory
      rw [hslot₂]
      rfl
    have hmappings₂ : k₂.mappings = k.mappings := hmappings₁
    -- ... and then the mappings are copied, in addition to what is there
    refine (h₂.accounted.leads_copyMappings h₂.isLive hm₀ (hmemory₂ ▸ hmirror₁)).imp
      fun copied k₃ hcopied₃ => ?_
    obtain ⟨h₃, hok₃, herror₃⟩ := hcopied₃
    rw [mappingsOf_congr hmappings₂ parent] at hok₃ herror₃
    cases copied with
    | error e =>
      obtain ⟨hlacks, hgone⟩ := herror₃ e rfl
      refine ⟨h₂.trans h₃.toSettled, by rintro ⟨⟩,
        fun e' he => ⟨fun j r hr howner => absurd howner (hgone j r hr), fun hl => ?_⟩⟩
      obtain rfl : .mapping e = e' := Except.error.inj he
      rcases hlacks (hl.clear hk) with ⟨rfl, hlt⟩ | ⟨rfl, hlt⟩
      · rw [freeRecordCount_congr hmappings₂] at hlt
        exact .inl ⟨rfl, hlt⟩
      · rw [hmemory₂, h₁.pagesOf_eq] at hlt
        exact .inr ⟨.inr ⟨_, rfl, rfl⟩, few hlt⟩
    | ok _ =>
      obtain ⟨hmirror₃, hlist, hcount⟩ := hok₃ rfl
      obtain ⟨space₃, hspace₃⟩ := h₃.accounted.space_of_handle h₃.isLive
      unfold modifyRegisters
      simp only [leads_bind, leads_getSlot, hspace₃, leads_modifySlot, leads_pure]
      rw [slotOf_withSlot_self, withSlot_withSlot]
      -- the rest is the slot of the child itself, which leaves its memory alone
      obtain ⟨h₄, hmemory₄⟩ :=
        h₃.accounted.settled_childSlot h₃.isLive (k.slotOf parent) hspace₃ space
      refine ⟨(h₂.trans h₃.toSettled).trans h₄, fun _ => ⟨
        ⟨{ space₃ with registers := space.registers.set .a0 0 }, ?_, ?_⟩, ?_, fun hfirst => ?_,
        hcount.trans (freeRecordCount_congr hmappings₂)⟩, by rintro _ ⟨⟩⟩
      · rw [slotOf_withSlot_self, h₃.slot_eq, hslot₂, h₁.slot_eq]
        rfl
      · rw [hspace, Option.map_some]
      · rw [htable]
        exact hmemory₄ ▸ hmirror₃
      · have hlist := hlist (hfirst.congr hmappings₂)
        rw [mappingsOf_congr hmappings₂] at hlist
        exact hlist

/-- What comes of a fork as long as the pool does not run dry. -/
def forkVerdict (k : Kernel) (parent : Handle) : Except Panic (Except ProcessError Pid) :=
  if k.freeSlot? = none then .ok (.error .noFreeSlot)
  else if k.nextPid = maxPid then .error .addOverflow
  else if k.freeRecordCount < (k.mappingsOf parent).length then .ok (.error (.mapping .tableFull))
  else (k.slotOf parent).entity.forked.map fun _ => .ok k.nextPid

/-- A child as it was made: a copy of its parent in all that it may use itself. -/
structure Copies (pages : Nat) (parent p : Handle) (k k' : Kernel) : Prop extends
    Reworked pages p k k' where
  dead : ¬ (k.slotOf p).isLive
  number : p.pid = k.nextPid
  verdict : k.forkVerdict parent = .ok (.ok p.pid)
  covers : k'.Covers p
  slot_eq : ∃ space entity, k'.slotOf p = { k.slotOf p with
      state := .runnable, pid := p.pid, entity, parent := some parent
      size := (k.slotOf parent).size, files := (k.slotOf parent).files
      name := (k.slotOf parent).name, space := some space } ∧
    (k.slotOf parent).entity.forked = .ok entity ∧
    (k.slotOf parent).space.map (fun source => source.registers.set .a0 0) = some space.registers
  absent : ∀ n < userPages, (k.slotOf parent).table.lookup (n * pageSize) = none →
    (k'.slotOf p).table.lookup (n * pageSize) = none
  copied : ∀ n < userPages, ∀ b permissions,
    (k.slotOf parent).table.lookup (n * pageSize) = some (.pooled b, permissions) →
      ∃ a ∈ k.pool.free, (k'.slotOf p).table.lookup (n * pageSize) =
        some (.pooled a, permissions) ∧
          k'.pool.contents (.pooled a) = k.pool.contents (.pooled b)
  /-- A new process has a number that no owner of a record has. -/
  mappings_eq : (∀ (j : Fin mappingLimit) r, k.record j = some r → r.owner.pid ≠ k.nextPid) →
    k'.mappingsOf p = (k.mappingsOf parent).map fun r => { r with owner := p }
  records_eq : k'.freeRecordCount + (k.mappingsOf parent).length = k.freeRecordCount

/-- Nothing that a process has lies outside of its size and its mappings, so all of it was
copied. -/
theorem TookOver.copied (h : TookOver pages parent p k k' k'') (hk : k.Partitioned pages)
    (hparent : k.IsLive parent) (hclaimed : k.Claimed pages p k') {n : Nat} (hn : n < userPages)
    {b : Nat} {permissions : Permissions}
    (hlookup : (k.slotOf parent).table.lookup (n * pageSize) = some (.pooled b, permissions)) :
    ∃ a ∈ k.pool.free, (k''.slotOf p).table.lookup (n * pageSize) =
      some (.pooled a, permissions) ∧
        k''.pool.contents (.pooled a) = k.pool.contents (.pooled b) := by
  -- what the parent has lies below its size or in its mappings, and both were copied
  have hcovered : CopiedAlong (fun n => n < pagesIn (k.slotOf parent).size)
      (k.mappingsOf parent) n := by
    refine (hk.covers parent hparent n hn (PageTable.isMapped_of_lookup hlookup)).imp_right ?_
    rintro ⟨j, r, hr, howner, hc⟩
    exact ⟨r, mem_mappingsOf.mpr ⟨j, hr, howner⟩, hc⟩
  obtain ⟨a, ha, hfound, -, hcopy⟩ := h.mirror.copied n hn hcovered _ _ hlookup
  have ha : a ∈ k.pool.free := hclaimed.free_subset hk.toAccounted a ha
  rw [PageTable.valid_of_lookup hlookup] at hfound
  refine ⟨a, ha, hfound, ?_⟩
  -- the parent has its page, so that page was not free
  have hb : b ∈ (k.slot parent.slot).pages := by
    obtain ⟨space, hspace⟩ := hk.space_of_handle hparent
    have hspace' : (k.slot parent.slot).space = some space := hspace
    rw [Slot.table_of_space hspace] at hlookup
    rw [Slot.pages_of_space hspace', Multiset.mem_cons]
    exact .inr (PageTable.mem_residents_of_lookup hn hlookup)
  have hnotFree : b ∉ (k'.memory p).pool.free := fun hmem =>
    hk.not_mem_pages_of_free (hclaimed.free_subset hk.toAccounted b hmem) hb
  have hpool : b ∈ poolPages pages := by
    refine Finset.mem_def.mpr (hk.whole ▸ Multiset.mem_add.mpr (.inl ?_))
    exact Multiset.mem_sum.mpr ⟨parent.slot, Finset.mem_univ _, hb⟩
  calc k''.pool.contents (.pooled a) = k'.pool.contents (.pooled b) := hcopy b hpool hnotFree rfl
    _ = k.pool.contents (.pooled b) :=
      hclaimed.apart.contents_eq parent.slot (hclaimed.slot_ne hparent) b hb

section Verdict

variable (hslot : k.freeSlot? ≠ none) (hnumber : k.nextPid ≠ maxPid)

/-- Without a slot there is no child. -/
theorem forkVerdict_of_noFreeSlot (h : k.freeSlot? = none) :
    k.forkVerdict parent = .ok (.error .noFreeSlot) := if_pos h

include hslot in
/-- Without a number there is no child, and the kernel panics. -/
theorem forkVerdict_of_maxPid (h : k.nextPid = maxPid) :
    k.forkVerdict parent = .error .addOverflow :=
  (if_neg hslot).trans (if_pos h)

include hslot hnumber in
/-- Without enough records there is no child. -/
theorem forkVerdict_of_tableFull (h : k.freeRecordCount < (k.mappingsOf parent).length) :
    k.forkVerdict parent = .ok (.error (.mapping .tableFull)) :=
  (if_neg hslot).trans ((if_neg hnumber).trans (if_pos h))

include hslot hnumber in
/-- With a slot, a number and enough records there is a child if its deadline fits a word. -/
theorem forkVerdict_of_le (h : (k.mappingsOf parent).length ≤ k.freeRecordCount) :
    k.forkVerdict parent = (k.slotOf parent).entity.forked.map fun _ => .ok k.nextPid :=
  (if_neg hslot).trans ((if_neg hnumber).trans (if_neg (Nat.not_lt.mpr h)))

end Verdict

/-- A fork panics only when no number is left or no deadline. -/
theorem of_forkVerdict_eq_error {c : Panic} (h : k.forkVerdict parent = .error c) :
    c ≠ .foreignPage ∧
      (k.nextPid ≠ maxPid → ∀ e, (k.slotOf parent).entity.forked ≠ .ok e) := by
  unfold forkVerdict at h
  split at h
  · cases h
  split at h
  · next hmax =>
    cases h
    exact ⟨nofun, fun hne => absurd hmax hne⟩
  split at h
  · cases h
  cases hentity : (k.slotOf parent).entity.forked with
  | ok e =>
    rw [hentity] at h
    cases h
  | error c' =>
    rw [hentity] at h
    cases h
    exact ⟨fun heq => (Entity.forked_arithmetic _).ne_error rfl (heq ▸ hentity), fun _ _ => nofun⟩

/-- Nothing of a copy depends on anything but the pool, the slots and the records. -/
theorem Copies.congr (h : k.Copies pages parent p k') (hpool : k''.pool = k'.pool)
    (hslots : k''.slots = k'.slots) (hmappings : k''.mappings = k'.mappings) :
    k.Copies pages parent p k'' := by
  have hslot : k''.slotOf p = k'.slotOf p := slot_congr hslots p.slot
  exact {
    toReworked := h.toReworked.congr hpool hslots hmappings
    dead := h.dead
    number := h.number
    verdict := h.verdict
    covers := h.covers.congr hslots hmappings
    slot_eq := hslot ▸ h.slot_eq
    absent := hslot ▸ h.absent
    copied := hslot ▸ hpool ▸ h.copied
    mappings_eq := fun hfresh => (mappingsOf_congr hmappings p).trans (h.mappings_eq hfresh)
    records_eq := (freeRecordCount_congr hmappings).symm ▸ h.records_eq }

/-- Under a new number there are no mappings but those of the parent. -/
theorem TookOver.mappings_of_fresh (h : TookOver pages parent p k k' k'')
    (hnumber : p.pid = k.nextPid)
    (hfresh : ∀ (j : Fin mappingLimit) r, k.record j = some r → r.owner.pid ≠ k.nextPid) :
    k''.mappingsOf p = (k.mappingsOf parent).map fun r => { r with owner := p } := by
  have hforeign (j : Fin mappingLimit) (r : Mapping) (hr : k.record j = some r) : r.owner ≠ p :=
    fun heq => hfresh j r hr (heq ▸ hnumber)
  have hnone : k.mappingsOf p = [] := List.eq_nil_iff_forall_not_mem.mpr fun r hr => by
    obtain ⟨j, hj, howner⟩ := mem_mappingsOf.mp hr
    exact hforeign j r hj howner
  have hlist := h.mappings_eq fun i j r hr howner _ => absurd howner (hforeign i r hr)
  rwa [hnone, List.nil_append] at hlist

/-- Whoever took over from its parent in a claimed slot is a copy of it, once it has its entity. -/
theorem Claimed.copies (h₁ : k.Claimed pages p k') (h₂ : k'.Settled pages p k'')
    (htook : TookOver pages parent p k k' k'') (hk : k.Partitioned pages)
    (hparent : k.IsLive parent) (hnumber : p.pid = k.nextPid)
    (hverdict : k.forkVerdict parent = .ok (.ok k.nextPid)) {entity : Entity}
    (hentity : (k.slotOf parent).entity.forked = .ok entity) :
    k.Copies pages parent p (k''.withSlot p.slot
      { k''.slotOf p with entity, parent := some parent, state := .runnable }) := by
  obtain ⟨space, hslot₂, hregisters⟩ := htook.slot_eq
  obtain ⟨space₁, hslot₁⟩ := h₁.slot_eq
  set s : Slot := { k''.slotOf p with entity, parent := some parent, state := .runnable } with hs
  have h₃ := h₂.accounted.settled_withSlot h₂.isLive (s := s)
    (Slot.estate_congr h₂.isLive.1.symm rfl rfl rfl)
  have hslot₃ : (k''.withSlot p.slot s).slotOf p = s := slotOf_withSlot_self ..
  -- readying the child does not change its table
  have htable : ((k''.withSlot p.slot s).slotOf p).table = (k''.slotOf p).table := by
    rw [hslot₃]
    rfl
  refine ⟨(h₁.toReworked.trans h₂.toReworked).trans h₃.toReworked, h₁.dead, hnumber,
    hverdict.trans (hnumber ▸ rfl), h₃.covers_of_covers (h₂.covers_of_covers h₁.covers),
    ⟨space, entity, ?_, hentity, hregisters⟩, fun n hn hnone => ?_,
    fun n hn b permissions hlookup => ?_, htook.mappings_of_fresh hnumber, htook.records_eq⟩
  · rw [hslot₃, hs, hslot₂, hslot₁]
  · rw [htable]
    refine htook.mirror.absent n hn fun hmapped => ?_
    exact PageTable.not_isMapped_of_lookup hnone hmapped.2
  · rw [htable]
    exact htook.copied hk hparent h₁ hn hlookup

/-- A process forks into two that share no page, or nothing is left of the attempt. What comes of it
is told by the slots, the number, the records and the deadline that are there for the child, unless
the pool runs dry. -/
theorem Partitioned.leads_fork (h : k.Partitioned pages) (hparent : k.IsLive parent) :
    Leads k (fork parent) (fun r k' => match r with
      | .error e => k.Restored pages k' ∧ (k.LaidOut parent →
          k.forkVerdict parent = .ok (.error e) ∨
          e.IsDry ∧ k.pool.freeCount < 1 + (k.slotOf parent).table.residentCount)
      | .ok pid => ∃ i : Fin slotCount, k.Copies pages parent ⟨i, pid⟩ k')
      (fun c => k.forkVerdict parent = .error c) := by
  unfold fork
  simp only [leads_bind, leads_getSlot]
  refine h.leads_claim.mono (fun claimed k₁ h₁ => ?_) fun c hc =>
    hc.1 ▸ forkVerdict_of_maxPid hc.2.1 hc.2.2
  -- there is no slot, no number or no page for the trap frame, ...
  cases claimed with
  | error e =>
    obtain ⟨hrestored, hcause⟩ := h₁
    refine ⟨hrestored, fun _ => ?_⟩
    rcases hcause with ⟨rfl, hnone⟩ | ⟨rfl, -, -, hempty⟩
    · exact .inl (forkVerdict_of_noFreeSlot hnone)
    · refine .inr ⟨.inl rfl, ?_⟩
      rw [Pool.freeCount, hempty, List.length_nil]
      omega
  | ok p =>
    obtain ⟨h₁, hfree, hnumber, hmax⟩ := h₁
    have hslot : k.freeSlot? ≠ none := Option.ne_none_iff_exists'.mpr ⟨_, hfree⟩
    rw [leads_bind]
    refine (h₁.leads_copyProcess h.toAccounted hparent).imp fun copied k₂ hcopy => ?_
    obtain ⟨h₂, hok, herror⟩ := hcopy
    -- ... or the memory could not be copied, and the child is unmade, ...
    cases copied with
    | error e =>
      obtain ⟨hgone, hcause⟩ := herror e rfl
      rw [leads_bind]
      refine (h.leads_undo h₁.dead hnumber (h₁.toReworked.trans h₂.toReworked)
        (h₂.covers_of_covers h₁.covers) hgone).imp fun _ _ h₃ => ⟨h₃, fun hl => ?_⟩
      rcases hcause hl with ⟨rfl, hlt⟩ | hdry
      · exact .inl (forkVerdict_of_tableFull hslot hmax hlt)
      · exact .inr hdry
    -- ... or the child is complete but for its entity
    | ok _ =>
      have htook := hok rfl
      have hverdict : k.forkVerdict parent =
          (k.slotOf parent).entity.forked.map fun _ => .ok k.nextPid :=
        forkVerdict_of_le hslot hmax (Nat.le_of_add_left_le htook.records_eq.le)
      rw [leads_bind, leads_liftM]
      refine ⟨fun entity hentity => ?_, fun c hc => ?_⟩
      · rw [hentity] at hverdict
        simp only [leads_bind, leads_modifySlot, leads_note, leads_pure]
        exact ⟨p.slot, (h₁.copies h₂ htook h hparent hnumber hverdict hentity).congr rfl rfl rfl⟩
      · rw [hverdict, hc]
        rfl

/-! ### The layout of a child -/

/-- A child is laid out as its parent is. -/
theorem Copies.laidOut (h : k.Copies pages parent p k') (hk : k.Accounted pages)
    (hl : k.LaidOut parent)
    (hfresh : ∀ (j : Fin mappingLimit) r, k.record j = some r → r.owner.pid ≠ k.nextPid) :
    k'.LaidOut p := by
  obtain ⟨space, entity, hslot, -⟩ := h.slot_eq
  have hsize : (k'.slotOf p).size = (k.slotOf parent).size := by rw [hslot]
  have hlist := h.mappings_eq hfresh
  -- what the parent has is found in the child with the same permissions
  have hsame {n : Nat} (hn : n < userPages) {physical : Physical} {permissions : Permissions}
      (hlookup : (k.slotOf parent).table.lookup (n * pageSize) = some (physical, permissions)) :
      ∃ a, (k'.slotOf p).table.lookup (n * pageSize) = some (.pooled a, permissions) := by
    obtain ⟨b, rfl⟩ := hk.pooled parent.slot n hn _ _ hlookup
    obtain ⟨a, -, hfound, -⟩ := h.copied n hn b permissions hlookup
    exact ⟨a, hfound⟩
  refine ⟨?_, fun n hn => ?_, pairwise_mappingsOf.mp ?_, fun j r hr howner n hc physical permissions
    hfound => ?_, h.covers⟩
  -- the size and the pages below it are those of the parent
  · rw [hsize]
    exact hl.size_le
  · rw [hsize] at hn
    obtain ⟨physical, permissions, hlookup, hopen⟩ := hl.heap n hn
    obtain ⟨a, hfound⟩ := hsame (hl.lt_userPages hn) hlookup
    exact ⟨_, _, hfound, hopen⟩
  -- so are the ranges of the records, under the name of the child
  · rw [hlist, List.pairwise_map]
    exact pairwise_mappingsOf.mpr hl.disjoint
  · have hmem : r ∈ k'.mappingsOf p := mem_mappingsOf.mpr ⟨j, hr, howner⟩
    rw [hlist, List.mem_map] at hmem
    obtain ⟨r₀, hr₀, rfl⟩ := hmem
    obtain ⟨i, hi, howner₀⟩ := mem_mappingsOf.mp hr₀
    have hn := (hk.inWindow i r₀ hi).lt_userPages_of_covers hc
    cases hlookup : (k.slotOf parent).table.lookup (n * pageSize) with
    | none =>
      rw [h.absent n hn hlookup] at hfound
      cases hfound
    | some found =>
      obtain ⟨source, permissions₀⟩ := found
      obtain ⟨a, hfound₀⟩ := hsame hn hlookup
      rw [hfound₀] at hfound
      cases hfound
      exact hl.shown i r₀ hi howner₀ n hc source permissions hlookup

end Kernel

end FairKernel
