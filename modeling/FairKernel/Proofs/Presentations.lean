import FairKernel.Proofs.LayoutsKept
import FairKernel.Proofs.MappingTable

/-!
# How mappings look to user code

A mapping shows a file, or zeros, until something is stored in it. Its pages come one by one when
they are touched, or all at once when it is made; its first pages may be removed, and a fork gives
the child what its parent sees. `Presents` says which bytes a process is to find in a mapping: where
there is a page it holds them, and where there is none yet they are those that the mapping showed at
first. It does not matter then whether a page is there.

What a mapping shows at first is a function of the address (`Mapping.byteAt`), which is the same for
what is left of the mapping when pages were removed from its beginning (`Mapping.Rest`). With this
each operation is one lemma: installing pages keeps what the process sees (`Presents.of_fills`),
removing pages moves the beginning on (`Presents.of_removed`), a child sees what its parent sees
(`Copies.presents`), and a new mapping shows what it is to show (`Admits.presents`).
-/

namespace FairKernel

/-- Whether reads yield all that is asked for, up to the end of the file. -/
structure OpenFile.ReadsInFull (file : OpenFile) : Prop where
  failFrom_eq : file.failFrom = none
  pageSize_le : ∀ most, file.maxRead = some most → pageSize ≤ most

/-- A read yields what the file has from the offset on, up to a page. -/
theorem OpenFile.ReadsInFull.readAt?_eq {file : OpenFile} (h : file.ReadsInFull) (offset : Nat) :
    file.readAt? offset pageSize = some ((file.data.drop offset).take pageSize) := by
  have hmost : file.maxRead.elim pageSize (min pageSize) = pageSize := by
    cases hmax : file.maxRead with
    | none => rfl
    | some most => exact Nat.min_eq_left (h.pageSize_le most hmax)
  rw [readAt?, failsAt, h.failFrom_eq, hmost]
  rfl

/-! ### What a mapping shows at first -/

namespace Mapping

variable {r r' : Mapping} {first x : Nat}

/-- The byte at an address of the range before anything is stored there. -/
def byteAt (r : Mapping) (x : Nat) : UInt8 :=
  r.file.elim 0 fun file => file.data.getD (r.offset + (x - r.base)) 0

/-- Whether a mapping shows the same bytes whenever it is asked for them. -/
structure IsSteady (r : Mapping) : Prop extends InWindow r where
  offsetsFit : r.OffsetsFit
  readsInFull : ∀ file, r.file = some file → file.ReadsInFull

/-- What is left of a mapping without the pages before `first`. -/
structure Rest (r : Mapping) (first : Nat) (r' : Mapping) : Prop where
  base_eq : r'.base = first
  stop_eq : r'.stop = r.stop
  offset_eq : r'.offset = r.offset + (first - r.base)
  file_eq : r'.file = r.file
  protection_eq : r'.protection = r.protection

/-- A page of zeros has zeros. -/
theorem byteAt_zero (x : Nat) : Page.zero.byteAt x = 0 := get_replicate _ _

/-- A page of a mapping starts with what the mapping shows there. -/
theorem initialPage_eq_ok (hfit : r.OffsetsFit)
    (hfile : ∀ file, r.file = some file → file.ReadsInFull) {page : Nat} (hc : r.covers page) :
    ∃ contents, r.initialPage page = .ok (.ok contents) ∧
      ∀ x, pageDown x = page → contents.byteAt x = r.byteAt x := by
  unfold initialPage byteAt
  cases hshown : r.file with
  | none => exact ⟨_, rfl, fun x _ => byteAt_zero x⟩
  | some file =>
    -- the page is filled with the file from its own offset on, which is a word
    have hin := covers_iff.mp hc
    have hword : r.offset + (page - r.base) < wordLimit :=
      (Nat.add_lt_add_left (by omega) _).trans hfit
    simp only [addWord_eq_ok.mpr ⟨hword, rfl⟩, bind, Except.bind,
      (hfile file hshown).readAt?_eq, Option.elim_some]
    refine ⟨_, rfl, fun x hx => ?_⟩
    have hsplit : r.offset + (page - r.base) + x % pageSize = r.offset + (x - r.base) := by
      have hdown := Nat.div_add_mod' x pageSize
      unfold pageDown at hx
      omega
    have hmod := Page.mod_pageSize_lt x
    refine Option.some.inj ((Page.byteAt_write Page.zero 0 _ x).trans ?_)
    rw [List.getD_eq_getElem?_getD, ← hsplit, byteAt_zero, List.length_take, List.length_drop]
    split
    · next hlt =>
      rw [Nat.sub_zero, List.getElem?_take_of_lt hmod, List.getElem?_drop,
        List.getElem?_eq_getElem (by omega), Option.getD_some]
    · next hge =>
      -- the file ends before this byte
      rw [List.getElem?_eq_none (by omega), Option.getD_none]

namespace Rest

/-- Nothing was removed yet. -/
theorem refl (r : Mapping) : r.Rest r.base r :=
  ⟨rfl, rfl, by rw [Nat.sub_self, Nat.add_zero], rfl, rfl⟩

/-- What is left lies from where it starts to the end of the mapping. -/
theorem covers_iff (h : r.Rest first r') : r'.covers x ↔ first ≤ x ∧ x < r.stop := by
  have hstop := h.stop_eq
  rw [Mapping.covers_iff, h.base_eq]
  unfold stop at hstop ⊢
  rw [h.base_eq] at hstop
  omega

/-- What is removed from the beginning is not more than there is. -/
theorem le_length (h : r.Rest first r') {length : Nat} (hle : first + length ≤ r.stop) :
    length ≤ r'.length := by
  have hstop := h.stop_eq
  unfold stop at hstop hle
  rw [h.base_eq] at hstop
  omega

/-- What is left shows what the whole mapping shows there. -/
theorem byteAt_eq (h : r.Rest first r') (hbase : r.base ≤ first) (hx : first ≤ x) :
    r'.byteAt x = r.byteAt x := by
  have hoffset : r.offset + (first - r.base) + (x - first) = r.offset + (x - r.base) := by omega
  rw [byteAt, byteAt, h.file_eq, h.offset_eq, h.base_eq, hoffset]

/-- What is left has the permissions of the mapping. -/
theorem permissions_eq (h : r.Rest first r') : r'.permissions = r.permissions := by
  rw [permissions, permissions, h.protection_eq]

/-- The offsets of what is left are offsets of the mapping. -/
theorem offsetsFit (h : r.Rest first r') (hbase : r.base ≤ first) (hfit : r.OffsetsFit) :
    r'.OffsetsFit := by
  have hstop' := h.stop_eq
  unfold OffsetsFit stop at *
  rw [h.offset_eq]
  rw [h.base_eq] at hstop'
  omega

/-- A page of what is left starts with what the whole mapping shows there. -/
theorem initialPage_eq_ok (h : r.Rest first r') (hr : r.IsSteady) (hbase : r.base ≤ first)
    {page : Nat} (hc : r'.covers page) : ∃ contents, r'.initialPage page = .ok (.ok contents) ∧
      ∀ x, pageDown x = page → contents.byteAt x = r.byteAt x := by
  have hin := h.covers_iff.mp hc
  have hfit := h.offsetsFit hbase hr.offsetsFit
  obtain ⟨contents, hcontents, hbytes⟩ :=
    Mapping.initialPage_eq_ok hfit (h.file_eq ▸ hr.readsInFull) hc
  refine ⟨contents, hcontents, fun x hx => ?_⟩
  have hle : first ≤ x := by
    have hdown := Nat.div_add_mod' x pageSize
    unfold pageDown at hx
    omega
  rw [hbytes x hx, h.byteAt_eq hbase hle]

end Rest

/-- Dropping more pages leaves what is left from further on, or nothing at all. -/
theorem Rest.exists_dropFirst (h : r.Rest first r') {length : Nat} (hbase : r.base ≤ first)
    (hlength : first + length ≤ r.stop) (hfit : r.OffsetsFit) :
    ∃ rest, r'.dropFirst length = .ok rest ∧ (rest = none ↔ first + length = r.stop) ∧
      ∀ r'', rest = some r'' → r.Rest (first + length) r'' := by
  have hstop := h.stop_eq
  have hfit' := h.offsetsFit hbase hfit
  unfold stop OffsetsFit at *
  rw [h.base_eq] at hstop
  unfold Mapping.dropFirst
  split
  -- nothing is left
  · next hall => exact ⟨none, rfl, iff_of_true rfl (by omega), nofun⟩
  next hpart =>
  have hword : r'.offset + length < wordLimit := lt_of_le_of_lt (by omega) hfit'
  simp only [addWord_eq_ok.mpr ⟨hword, rfl⟩, bind, Except.bind]
  -- what is left starts further on, and so does what it shows of the file
  refine ⟨_, rfl, iff_of_false nofun (by omega), ?_⟩
  rintro _ ⟨⟩
  refine ⟨by rw [h.base_eq], ?_, ?_, h.file_eq, h.protection_eq⟩
  · unfold stop
    dsimp only
    rw [h.base_eq]
    omega
  · dsimp only
    rw [h.offset_eq]
    omega

end Mapping

/-- Why pages at an address cannot be removed from a mapping that has its pages from `first` on. -/
def Mapping.refusal? (first address length : Nat) : Option MappingError :=
  if length = 0 then some .badLength
  else if address % pageSize ≠ 0 ∨ length % pageSize ≠ 0 then some .misaligned
  else if address ≠ first then some .noMatch
  else none

/-- An address of a mapping lies below the trap frame. -/
theorem Mapping.InWindow.div_lt_userPages {r : Mapping} (h : r.InWindow) {x : Nat}
    (hx : x < r.stop) : x / pageSize < userPages := by
  rw [h.stop_eq, Nat.mul_comm] at hx
  exact (Nat.div_lt_of_lt_mul hx).trans_le h.le_userPages

open PageTable (Gains)

namespace Kernel

variable {pages : Nat} {k k' : Kernel} {p q : Handle} {r r' : Mapping} {first x : Nat}
  {f : Nat → UInt8}

/-! ### Between calls -/

/-- What is true between any two calls of a run whose root process starts below the mapping
window. -/
structure Trim (pages : Nat) (k : Kernel) : Prop extends Kempt pages k, Charted k where
  laidOut : ∀ q, k.IsLive q → k.LaidOut q

/-- Every call keeps a kernel trim. -/
theorem Trim.leads_call {c : Call} (h : k.Trim pages) (hc : c.Proper k) : Leads k c.run
    (fun a k' => c.Work pages k a k' ∧ c.Effect k a k'.standing ∧ k'.Trim pages)
    (· ≠ .foreignPage) :=
  ((h.toKempt.leads_call hc.1).also (h.toKempt.leads_redrawn hc.1)).imp
    fun _ _ ⟨⟨hwork, heffect, hk'⟩, hredrawn⟩ => ⟨hwork, heffect, hk',
      hredrawn.charted h.toCharted, fun _ hq => hwork.laidOut h.toKempt hc heffect h.laidOut hq⟩

/-- Whoever lives stands the same in kernels that stand the same. -/
theorem isLive_congr (h : k'.standing = k.standing) (q : Handle) : k'.IsLive q ↔ k.IsLive q := by
  have hslot : (k'.slotOf q).standing = (k.slotOf q).standing :=
    congrFun (congrArg Standing.slots h) q.slot
  have hlive := congrArg Slot.isLive hslot
  have hpid := congrArg Slot.pid hslot
  exact and_congr (Bool.eq_iff_iff.mp hlive) (by rw [show (k'.slotOf q).pid = _ from hpid]; rfl)

/-- What comes of work for a process that leaves it to everybody how they stand: all others are as
they were. -/
structure Served (pages : Nat) (p : Handle) (k k' : Kernel) : Prop where
  trim : k'.Trim pages
  others : ∀ q, k.IsLive q → q ≠ p → k.Undisturbed q k'
  standing_eq : k'.standing = k.standing

/-- Work for a process keeps everybody alive. -/
theorem Served.isLive_iff (h : k.Served pages p k') (q : Handle) : k'.IsLive q ↔ k.IsLive q :=
  isLive_congr h.standing_eq q

/-- What comes of accesses of a process to its memory: nothing but its own pages may change. -/
structure Accessed (pages : Nat) (p : Handle) (k k' : Kernel) : Prop extends
    Served pages p k k' where
  mappings_eq : k'.mappings = k.mappings

namespace Accessed

/-- Nothing was accessed yet. -/
theorem refl (h : k.Trim pages) : k.Accessed pages p k :=
  ⟨⟨h, fun _ hq _ => .refl hq, rfl⟩, rfl⟩

/-- Accesses of a process come one after the other. -/
theorem trans {k'' : Kernel} (h : k.Accessed pages p k') (h' : k'.Accessed pages p k'') :
    k.Accessed pages p k'' where
  trim := h'.trim
  others q hq hne := by
    have hq' := h.others q hq hne
    exact hq'.trans (h'.others q hq'.isLive hne)
  standing_eq := h'.standing_eq.trans h.standing_eq
  mappings_eq := h'.mappings_eq.trans h.mappings_eq

end Accessed

/-- A call that leaves everybody's standing alone serves its caller. -/
theorem Trim.leads_served {c : Call} (h : k.Trim pages) (hlive : k.IsLive p)
    (hhandle : c.handle? = some p) (hbelow : c.StartsBelowWindow)
    (heffect : ∀ a σ, c.Effect k a σ → σ = k.standing) :
    Leads k c.run (fun _ k' => k.Served pages p k') (· ≠ .foreignPage) := by
  have hc : c.ThroughLive k := fun q hq => Option.some.inj (hhandle.symm.trans hq) ▸ hlive
  refine (h.leads_call ⟨hc, hbelow⟩).imp fun a k' ⟨hwork, hstands, hk'⟩ => ?_
  have hstanding := heffect a k'.standing hstands
  refine ⟨hk', fun q hq hne => ?_, hstanding⟩
  refine hwork.undisturbed h.toKempt hc (fun p' hp' => ?_) hq ((isLive_congr hstanding q).mpr hq)
  exact Option.some.inj (hhandle.symm.trans hp') ▸ hne.symm

/-- A touch is an access. -/
theorem Trim.leads_touch_accessed (h : k.Trim pages) (hlive : k.IsLive p) (address : Nat)
    (access : Access) :
    Leads k (touch p address access) (fun _ k' => k.Accessed pages p k') (· ≠ .foreignPage) :=
  ((h.leads_served (c := .touch p address access) hlive rfl trivial fun _ _ => id).also
    (h.toAccounted.leads_touch hlive address access)).imp fun _ _ ⟨hserved, _, hsame, _⟩ =>
      ⟨hserved, hsame⟩

/-- A store is an access. -/
theorem Trim.leads_store_accessed (h : k.Trim pages) (hlive : k.IsLive p) (address : Nat)
    (bytes : Bytes) :
    Leads k (storeUser p address bytes) (fun _ k' => k.Accessed pages p k') (· ≠ .foreignPage) :=
  ((h.leads_served (c := .store p address bytes) hlive rfl trivial fun _ _ => id).also
    ((storeUser_ignores p address bytes).keeps.leads k)).imp fun _ _ ⟨hserved, hsame⟩ =>
      ⟨hserved, hsame⟩

/-- A removal serves its caller. -/
theorem Trim.leads_unmap_served (h : k.Trim pages) (hlive : k.IsLive p) (address length : Nat) :
    Leads k (unmap p address length) (fun _ k' => k.Served pages p k') (· ≠ .foreignPage) :=
  h.leads_served (c := .unmap p address length) hlive rfl trivial fun _ _ => id

/-! ### Records that become free -/

/-- The records of a process before and after one record of the table, whatever that is. -/
theorem exists_mappingsOf_withRecord (k : Kernel) (i : Fin mappingLimit) (p : Handle) :
    ∃ before after : List Mapping, ∀ record, (k.withRecord i record).mappingsOf p =
      before ++ ((record.filter fun r => r.owner == p).toList ++ after) := by
  have hi : i < k.mappings.toList.length := i.isLt.trans_eq Vector.length_toList.symm
  refine ⟨(k.mappings.toList.take i).filterMap fun record => record.filter fun r => r.owner == p,
    (k.mappings.toList.drop (i + 1)).filterMap fun record => record.filter fun r => r.owner == p,
    fun record => ?_⟩
  have hset : (k.withRecord i record).mappings.toList = k.mappings.toList.take i ++ record ::
      k.mappings.toList.drop (i + 1) := by
    rw [withRecord, Vector.toList_set, List.set_eq_take_append_cons_drop, if_pos hi]
  rw [mappingsOf, hset, List.filterMap_append, List.filterMap_cons]
  split
  · next hnone => rw [hnone, Option.toList_none, List.nil_append]
  · next hsome => rw [hsome, Option.toList_some, List.singleton_append]

/-- A record is put where it was. -/
theorem withRecord_self {i : Fin mappingLimit} {record : Option Mapping}
    (hi : k.record i = record) : k.withRecord i record = k := by
  unfold withRecord
  rw [← hi]
  exact congrArg (fun mappings => { k with mappings }) (set_get k.mappings i)

/-- Whether `n` records of a process have become free. -/
structure GivesUp (k : Kernel) (p : Handle) (n : Nat) (k' : Kernel) : Prop where
  freeRecordCount_eq : k'.freeRecordCount = k.freeRecordCount + n
  length_mappingsOf : (k'.mappingsOf p).length + n = (k.mappingsOf p).length
  others : ∀ q, q ≠ p → k'.mappingsOf q = k.mappingsOf q

/-- Which records are free is a matter of the table. -/
theorem GivesUp.congr {k'' : Kernel} {n : Nat} (h : k.GivesUp p n k')
    (hmappings : k''.mappings = k'.mappings) : k.GivesUp p n k'' where
  freeRecordCount_eq := (freeRecordCount_congr hmappings).trans h.freeRecordCount_eq
  length_mappingsOf := mappingsOf_congr hmappings p ▸ h.length_mappingsOf
  others q hq := (mappingsOf_congr hmappings q).trans (h.others q hq)

/-- A record of a process becomes free if nothing takes its place. -/
theorem givesUp_withRecord {i : Fin mappingLimit} (hi : k.record i = some r) (howner : r.owner = p)
    {rest : Option Mapping} (hrest : ∀ r', rest = some r' → r'.owner = p) :
    k.GivesUp p (if rest = none then 1 else 0) (k.withRecord i rest) := by
  -- whatever becomes of this record, it is none of another owner's
  have hothers (q : Handle) (hq : q ≠ p) : (k.withRecord i rest).mappingsOf q = k.mappingsOf q := by
    obtain ⟨before, after, hlist⟩ := k.exists_mappingsOf_withRecord i q
    have hold := hlist (some r)
    have hnot {record : Option Mapping} (hrecord : ∀ r', record = some r' → r'.owner = p) :
        record.filter (fun r => r.owner == q) = none := by
      refine Option.filter_eq_none_iff.mpr fun r' hr' => ?_
      rw [Bool.not_eq_true, beq_eq_false_iff_ne, hrecord r' hr']
      exact hq.symm
    rw [withRecord_self hi, hnot fun r' hr' => Option.some.inj hr' ▸ howner] at hold
    rw [hlist, hnot hrest, hold]
  have hfree : (k.withRecord i none).freeRecordCount = k.freeRecordCount + 1 := by
    have hcount := freeRecordCount_withRecord (k := k.withRecord i none) (r := r) (i := i)
      (by rw [record_withRecord, if_pos rfl])
    rw [← hcount, freeRecordCount_congr (k := k)]
    unfold withRecord
    rw [Vector.set_set]
    exact congrArg Kernel.mappings (withRecord_self hi)
  -- with the record in its place the records of the process are those before it, itself, those
  -- after
  obtain ⟨before, after, hlist⟩ := k.exists_mappingsOf_withRecord i p
  have hold := hlist (some r)
  rw [withRecord_self hi, Option.filter_some, if_pos (beq_iff_eq.mpr howner)] at hold
  cases rest with
  | none =>
    refine ⟨hfree, ?_, hothers⟩
    rw [hlist, hold]
    simp only [Option.filter_none, Option.toList, List.length_append, List.length_nil, if_pos,
      List.length_singleton]
    omega
  | some r' =>
    refine ⟨?_, ?_, hothers⟩
    · have hcount := freeRecordCount_withRecord (k := k.withRecord i none) (r := r') (i := i)
        (by rw [record_withRecord, if_pos rfl])
      rw [hfree] at hcount
      rw [if_neg nofun, Nat.add_zero, ← Nat.succ.inj hcount]
      refine freeRecordCount_congr ?_
      unfold withRecord
      rw [Vector.set_set]
    · rw [hlist, hold, Option.filter_some, if_pos (beq_iff_eq.mpr (hrest r' rfl)), if_neg nofun]
      simp only [Option.toList, List.length_append, List.length_singleton, Nat.add_zero]

/-! ### What a process sees -/

/-- How the mapping that was made as `r` looks to a process once its pages before `first` are
removed. The process is to find the bytes of `f` in it. -/
structure Presents (k : Kernel) (r : Mapping) (p : Handle) (first : Nat) (f : Nat → UInt8) :
    Prop where
  base_le : r.base ≤ first
  le_stop : first ≤ r.stop
  first_mod : first % pageSize = 0
  rest : first < r.stop → ∃ r' ∈ k.mappingsOf p, r.Rest first r'
  /-- No mapping lies where pages were removed. -/
  gone : ∀ r' ∈ k.mappingsOf p, ∀ x, r.base ≤ x → x < first → ¬ r'.covers x
  /-- A page that is there holds the bytes. -/
  present : ∀ x v, r.base ≤ x → x < r.stop → (k.memory p).byte? x = some v → first ≤ x ∧ f x = v
  /-- Where there is no page yet nothing was stored. -/
  absent : ∀ x, first ≤ x → x < r.stop → (k.memory p).byte? x = none → f x = r.byteAt x

/-- A process that is not disturbed keeps its bytes. -/
theorem Undisturbed.byte?_eq (h : k.Undisturbed q k') (hx : x / pageSize < userPages) :
    (k'.memory q).byte? x = (k.memory q).byte? x :=
  UserMemory.byte?_congr (congrArg (PageTable.lookup · (pageDown x)) h.sameLayout.table_eq)
    fun physical permissions hfound => h.contents_eq _ hx physical permissions hfound

namespace Presents

/-- What a process sees depends on its records and its bytes. -/
theorem congr (h : k.Presents r p first f) (hmappings : k'.mappingsOf p = k.mappingsOf p)
    (hbytes : ∀ x < r.stop, (k'.memory p).byte? x = (k.memory p).byte? x) :
    k'.Presents r p first f where
  base_le := h.base_le
  le_stop := h.le_stop
  first_mod := h.first_mod
  rest := by
    rw [hmappings]
    exact h.rest
  gone := by
    rw [hmappings]
    exact h.gone
  present x v hlow hhigh hv := h.present x v hlow hhigh (hbytes x hhigh ▸ hv)
  absent x hlow hhigh hnone := h.absent x hlow hhigh (hbytes x hhigh ▸ hnone)

/-- Whoever is not disturbed sees what it saw. -/
theorem of_undisturbed (h : k.Presents r p first f) (hr : r.InWindow) (h' : k.Undisturbed p k') :
    k'.Presents r p first f :=
  h.congr h'.mappings_eq fun _ hx => h'.byte?_eq (hr.div_lt_userPages hx)

/-- The first page that is left begins at a page boundary. -/
theorem first_le_pageDown (h : k.Presents r p first f) (hx : first ≤ x) : first ≤ pageDown x := by
  have hmod := h.first_mod
  unfold pageDown
  unfold pageSize at *
  omega

/-- A record in which an address of the mapping lies is what is left of it. -/
theorem rest_of_covers (h : k.Presents r p first f) (hl : k.LaidOut p)
    (hr' : r' ∈ k.mappingsOf p) (hlow : r.base ≤ x) (hhigh : x < r.stop) (hc : r'.covers x) :
    first ≤ x ∧ r.Rest first r' := by
  have hle : first ≤ x := Nat.le_of_not_lt fun hlt => h.gone r' hr' x hlow hlt hc
  obtain ⟨r'', hr'', hrest⟩ := h.rest (hle.trans_lt hhigh)
  obtain ⟨i, hi, howner⟩ := mem_mappingsOf.mp hr'
  obtain ⟨j, hj, howner'⟩ := mem_mappingsOf.mp hr''
  obtain rfl := hl.disjoint i j r' r'' hi hj howner howner' x hc
    (hrest.covers_iff.mpr ⟨hle, hhigh⟩)
  rw [hi] at hj
  cases hj
  exact ⟨hle, hrest⟩

/-- A page of the mapping has the permissions of the mapping. -/
theorem permissions_eq (h : k.Presents r p first f) (hk : k.Trim pages) (hlive : k.IsLive p)
    (hlow : r.base ≤ x) (hhigh : x < r.stop) {physical : Physical} {permissions : Permissions}
    (hlookup : (k.memory p).table.lookup (pageDown x) = some (physical, permissions)) :
    first ≤ x ∧ permissions = r.permissions.validated := by
  have hle : first ≤ x := (h.present x _ hlow hhigh (UserMemory.byte?_of_lookup hlookup)).1
  obtain ⟨r', hr', hrest⟩ := h.rest (hle.trans_lt hhigh)
  obtain ⟨j, hj, howner⟩ := mem_mappingsOf.mp hr'
  have hc := (hk.inWindow j r' hj).covers_pageDown (hrest.covers_iff.mpr ⟨hle, hhigh⟩)
  refine ⟨hle, ?_⟩
  rw [← hrest.permissions_eq]
  exact (hk.laidOut p hlive).shown j r' hj howner (x / pageSize) hc physical permissions hlookup

/-- Pages that are installed for what is left of the mapping show what it showed at first. -/
theorem of_fills (h : k.Presents r p first f) (hr : r.IsSteady) (hrest : r.Rest first r')
    {S : Nat → Prop} (hin : ∀ m, S m → r'.covers (m * pageSize))
    (hmappings : k'.mappings = k.mappings) (hfills : Fills r' S (k.memory p) (k'.memory p)) :
      k'.Presents r p first f := by
  have hmappings := mappingsOf_congr hmappings p
  refine ⟨h.base_le, h.le_stop, h.first_mod, fun hlt => hmappings ▸ h.rest hlt,
    fun r'' hr'' => h.gone r'' (hmappings ▸ hr''), fun x v hlow hhigh hv => ?_,
    fun x hlow hhigh hnone => ?_⟩
  -- a byte that is there was there before, or its page was installed and shows what is shown first
  · rcases hfills x (hr.div_lt_userPages hhigh) with
      hsame | ⟨hnone, hpage, contents, hcontents, hnew⟩
    · exact h.present x v hlow hhigh (hsame ▸ hv)
    · have hc : r'.covers (pageDown x) := hin _ hpage
      obtain ⟨contents', hfirst, hbytes⟩ := hrest.initialPage_eq_ok hr h.base_le hc
      rw [hfirst] at hcontents
      cases hcontents
      have hle : first ≤ x := (hrest.covers_iff.mp hc).1.trans (Nat.div_mul_le_self x pageSize)
      refine ⟨hle, ?_⟩
      rw [h.absent x hle hhigh hnone, ← hbytes x rfl]
      exact Option.some.inj (hnew.symm.trans hv)
  -- a byte that is not there was not there before either
  · rcases hfills x (hr.div_lt_userPages hhigh) with
      hsame | ⟨-, -, contents, -, hnew⟩
    · exact h.absent x hlow hhigh (hsame ▸ hnone)
    · rw [hnew] at hnone
      cases hnone

/-- What comes of a touch: it fails where there is no mapping any more and where the mapping may not
be written, and otherwise the page is there afterwards unless the pool has run dry. -/
theorem leads_touch (h : k.Presents r p first f) (hk : k.Trim pages) (hlive : k.IsLive p)
    (hr : r.IsSteady) (hlow : r.base ≤ x) (hhigh : x < r.stop) (access : Access) :
    Leads k (touch p x access) (fun result k' =>
      (x < first ∧ result = .error (.noMapping x) ∧ k' = k) ∨
      first ≤ x ∧ (access = .write ∧ !r.protection.allowsWrite) ∧
        result = .error (.writeProtected x) ∧ k' = k ∨
      first ≤ x ∧ ¬ (access = .write ∧ !r.protection.allowsWrite) ∧ k'.Presents r p first f ∧
        Gains (fun _ _ => True) (k.memory p).table (k'.memory p).table ∧
        (result = .ok () ∧ (k'.memory p).table.isMapped (pageDown x) ∨
          result = .error (.memory .outOfMemory))) fun _ => False := by
  obtain ⟨space, hspace⟩ := hk.space_of_handle hlive
  -- what covers the address is the rest of the mapping
  have rest {i : Fin mappingLimit} {r' : Mapping} (hi : k.record i = some r')
      (howner : r'.owner = p) (hc : r'.covers x) : first ≤ x ∧ r.Rest first r' :=
    h.rest_of_covers (hk.laidOut p hlive) (mem_mappingsOf.mpr ⟨i, hi, howner⟩) hlow hhigh hc
  refine leads_touch_of hspace (fun hnone => ?_) (fun i r' hi howner hc hwrite => ?_)
    (fun i r' hi howner hc hwrite hmapped => ?_) fun i r' hi howner hc hwrite _ => ?_
  -- the touch found no mapping, so this page of it was removed
  · refine .inl ⟨Nat.lt_of_not_le fun hle => ?_, rfl, rfl⟩
    obtain ⟨r', hr', hrest⟩ := h.rest (hle.trans_lt hhigh)
    obtain ⟨j, hj, howner⟩ := mem_mappingsOf.mp hr'
    exact hnone j r' hj howner (hrest.covers_iff.mpr ⟨hle, hhigh⟩)
  -- the touch was a write, which the mapping does not allow
  · obtain ⟨hle, hrest⟩ := rest hi howner hc
    rw [hrest.protection_eq] at hwrite
    exact .inr (.inl ⟨hle, hwrite, rfl, rfl⟩)
  -- the page was there
  · obtain ⟨hle, hrest⟩ := rest hi howner hc
    rw [hrest.protection_eq] at hwrite
    exact .inr (.inr ⟨hle, hwrite, h, .refl _ _, .inl ⟨rfl, hmapped⟩⟩)
  -- the page was not there, and is installed now
  obtain ⟨hle, hrest⟩ := rest hi howner hc
  rw [hrest.protection_eq] at hwrite
  have hcpage : r'.covers (x / pageSize * pageSize) := (hk.inWindow i r' hi).covers_pageDown hc
  set k₁ : Kernel := { k with console := k.consoleAfter (.pageTouched p.pid access x) } with hk₁
  have h₁ : k₁.Presents r p first f := h.congr rfl fun _ _ => rfl
  have hacc₁ : k₁.Accounted pages := hk.toAccounted.congr rfl rfl rfl
  refine (hacc₁.leads_installPage hlive r' (hr.div_lt_userPages hhigh)).mono
    (fun result k' hinstalled => ?_) fun c hc => ?_
  · have h' := h₁.of_fills hr hrest (fun m hm => ?_) hinstalled.mappings_same hinstalled.fills
    · refine .inr (.inr ⟨hle, hwrite, h', hinstalled.gains.mono fun _ _ _ => trivial, ?_⟩)
      cases result with
      | ok _ => exact .inl ⟨rfl, hinstalled.mapped rfl _ (Nat.le_refl _) (Nat.lt_succ_self _)⟩
      | error e =>
        rcases hinstalled.cause e rfl with ⟨rfl, -⟩ | ⟨m, hm, hfailed⟩
        · exact .inr rfl
        · -- the page can be read
          obtain rfl : m = x / pageSize := by omega
          obtain ⟨contents, hok, -⟩ := hrest.initialPage_eq_ok hr h.base_le hcpage
          rw [hok] at hfailed
          cases hfailed
    · obtain rfl : m = x / pageSize := by omega
      exact hcpage
  · obtain ⟨contents, hok, -⟩ := hrest.initialPage_eq_ok hr h.base_le hcpage
    rw [hok] at hc
    cases hc

/-- What is left of a mapping is as it was once its first pages are gone. -/
theorem of_removed (h : k.Presents r p first f) (hl : k.LaidOut p) (hr : r.InWindow)
    {i : Fin mappingLimit} (hi : k.record i = some r') (howner : r'.owner = p)
    (hrest : r.Rest first r') {length : Nat} (hle : first + length ≤ r.stop)
    (hmod : length % pageSize = 0) {rest : Option Mapping}
    (hnone : rest = none ↔ first + length = r.stop)
    (hrests : ∀ r'', rest = some r'' → r''.owner = p ∧ r.Rest (first + length) r'')
    (hmappings : k'.mappings = (k.withRecord i rest).mappings)
    (hbytes : ∀ x, x / pageSize < userPages → (k'.memory p).byte? x =
      if first ≤ x ∧ x < first + length then none else (k.memory p).byte? x) :
    k'.Presents r p (first + length) f where
  base_le := h.base_le.trans (Nat.le_add_right _ _)
  le_stop := hle
  first_mod := by
    have hfirst := h.first_mod
    unfold pageSize at *
    omega
  -- the record that is left in the table is the rest of the rest
  rest := by
    intro hlt
    cases hsome : rest with
    | none => exact absurd (hnone.mp hsome) hlt.ne
    | some r'' =>
      obtain ⟨howner', hrest'⟩ := hrests r'' hsome
      refine ⟨r'', mem_mappingsOf.mpr ⟨i, ?_, howner'⟩, hrest'⟩
      rw [record_congr hmappings, record_withRecord, if_pos rfl, hsome]
  gone := by
    intro r'' hr'' x hlow hhigh hc
    obtain ⟨j, hj, howner'⟩ := mem_mappingsOf.mp hr''
    rw [record_congr hmappings, record_withRecord] at hj
    split at hj
    · exact absurd (((hrests r'' hj).2.covers_iff.mp hc).1) (Nat.not_le.mpr hhigh)
    next hij =>
    by_cases hx : x < first
    · exact h.gone r'' (mem_mappingsOf.mpr ⟨j, hj, howner'⟩) x hlow hx hc
    · -- the removed pages lay in one record only
      refine hij (hl.disjoint i j r' r'' hi hj howner howner' x (hrest.covers_iff.mpr ?_) hc)
      exact ⟨Nat.le_of_not_lt hx, hhigh.trans_le hle⟩
  -- what is there still was there, and was not removed
  present := by
    intro x v hlow hhigh hv
    rw [hbytes x (hr.div_lt_userPages hhigh)] at hv
    split at hv
    · cases hv
    next hout =>
    obtain ⟨hfirst, hfx⟩ := h.present x v hlow hhigh hv
    exact ⟨Nat.le_of_not_lt fun hlt => hout ⟨hfirst, hlt⟩, hfx⟩
  -- what is not there was not there before, as it was not removed
  absent := by
    intro x hlow hhigh hgone
    rw [hbytes x (hr.div_lt_userPages hhigh), if_neg fun hin => absurd hlow (Nat.not_le.mpr hin.2)]
      at hgone
    exact h.absent x ((Nat.le_add_right _ _).trans hlow) hhigh hgone

section Removals

variable {address length : Nat}

/-- No other record starts in the range of the mapping. -/
theorem rest_of_base (h : k.Presents r p first f) (hk : k.Trim pages) (hlive : k.IsLive p)
    (hlow : r.base ≤ address) (hhigh : address < r.stop) {i : Fin mappingLimit}
    (hi : k.record i = some r') (howner : r'.owner = p) (hbase : r'.base = address) :
    first = address ∧ r.Rest first r' := by
  have hlength := (hk.sound i r' hi).length_pos
  obtain ⟨-, hrest⟩ := h.rest_of_covers (hk.laidOut p hlive) (mem_mappingsOf.mpr ⟨i, hi, howner⟩)
    hlow hhigh (Mapping.covers_iff.mpr (by omega))
  exact ⟨hrest.base_eq.symm.trans hbase, hrest⟩

/-- A removal in the range of the mapping is refused for no other reason, ... -/
theorem refusal?_of_refuses (h : k.Presents r p first f) (hk : k.Trim pages) (hlive : k.IsLive p)
    (hr : r.InWindow) (hlow : r.base ≤ address) (hhigh : address + length ≤ r.stop)
    {e : MappingError} (hrefuses : k.RefusesRemoval p address length e) :
    Mapping.refusal? first address length = some e := by
  unfold Mapping.refusal?
  cases hrefuses with
  | empty hzero => rw [if_pos hzero]
  | misaligned hpos hnot => rw [if_neg hpos.ne', if_pos hnot]
  -- nothing of the window is outside of the range that the mapping lies in
  | outside hwhole hout =>
    have hbaseWindow := hr.windowBase_le
    have hstopWindow := hr.stop_le
    omega
  -- as long as there is something left of the mapping, a record starts where it starts
  | unmatched hwhole hnone =>
    have hfirst : address ≠ first := by
      rintro rfl
      obtain ⟨r', hr', hrest⟩ := h.rest
        ((Nat.lt_add_of_pos_right hwhole.length_pos).trans_le hhigh)
      obtain ⟨j, hj, howner⟩ := mem_mappingsOf.mp hr'
      exact hnone j r' hj howner hrest.base_eq
    rw [if_neg hwhole.length_pos.ne', if_neg hwhole.aligned, if_pos hfirst]
  -- the record that starts there is what is left of the mapping, which is long enough
  | short hwhole hi howner hbase hlt =>
    have hpos := hwhole.length_pos
    obtain ⟨rfl, hrest⟩ := h.rest_of_base hk hlive hlow (by omega) hi howner hbase
    exact absurd hlt (Nat.not_lt.mpr (hrest.le_length hhigh))

/-- ... and is not refused where what is left of it starts. -/
theorem refusal?_self (hwhole : IsWhole first length) :
    Mapping.refusal? first first length = none := by
  unfold Mapping.refusal?
  rw [if_neg hwhole.length_pos.ne', if_neg hwhole.aligned, if_neg (not_not.mpr rfl)]

/-- What comes of removing pages at the beginning of what is left: it is refused, or these pages are
gone. -/
theorem leads_unmap (h : k.Presents r p first f) (hk : k.Trim pages) (hlive : k.IsLive p)
    (hr : r.IsSteady) (hlow : r.base ≤ address) (hhigh : address + length ≤ r.stop) :
    Leads k (unmap p address length) (fun result k' =>
      match Mapping.refusal? first address length with
      | some e => result = .error e ∧ k' = k
      | none => result = .ok () ∧ k'.Presents r p (first + length) f ∧
        k.GivesUp p (if first + length = r.stop then 1 else 0) k') fun _ => False := by
  have rest_of_starts {i : Fin mappingLimit} {r' : Mapping}
      (hstarts : k.Starts p address length i r') : first = address ∧ r.Rest first r' := by
    have hpos := hstarts.length_pos
    exact h.rest_of_base hk hlive hlow (by omega) hstarts.record_eq hstarts.owner_eq hstarts.base_eq
  refine leads_unmap_of (fun e hrefuses => ?_) (fun i r' hstarts c hc => ?_)
    fun i r' hstarts rest hdrop => ?_
  -- the removal is refused
  · rw [h.refusal?_of_refuses hk hlive hr.toInWindow hlow hhigh hrefuses]
    exact ⟨rfl, rfl⟩
  -- dropping pages from the record is no overflow, as its offsets fit
  · obtain ⟨rfl, hrest⟩ := rest_of_starts hstarts
    obtain ⟨rest, hdrop, -⟩ := hrest.exists_dropFirst h.base_le hhigh hr.offsetsFit
    rw [hdrop] at hc
    cases hc
  -- the record is shortened and its pages are unmapped
  · obtain ⟨rfl, hrest⟩ := rest_of_starts hstarts
    obtain ⟨rest', hdrop', hnone, hrests⟩ := hrest.exists_dropFirst h.base_le hhigh hr.offsetsFit
    obtain rfl := Except.ok.inj (hdrop.symm.trans hdrop')
    have h₁ := hstarts.reworked hk.toAccounted hlive hdrop
    have howners : ∀ r'', rest = some r'' → r''.owner = p := fun r'' hr'' =>
      ((hstarts.shortened hk.toAccounted hdrop).owner_eq r'' hr'').trans hstarts.owner_eq
    have hunmapped := h₁.accounted.leads_unmapRange (E := fun _ => False) h₁.isLive
      (hstarts.le_userPages hk.toAccounted)
    rw [← (hk.inWindow i r' hstarts.record_eq).base_eq] at hunmapped
    refine hunmapped.imp fun _ k₂ ⟨h₂, _, hbytes⟩ => ?_
    have hgives := givesUp_withRecord hstarts.record_eq hstarts.owner_eq howners
    simp only [hnone] at hgives
    rw [refusal?_self hstarts.toIsWhole]
    refine ⟨rfl, ?_, hgives.congr h₂.mappings_same⟩
    refine h.of_removed (hk.laidOut p hlive) hr.toInWindow hstarts.record_eq hstarts.owner_eq hrest
      hhigh hstarts.length_mod hnone (fun r'' hr'' => ⟨howners r'' hr'', hrests r'' hr''⟩)
      h₂.mappings_same fun x hx => ?_
    refine (hbytes x hx).trans (if_congr ?_ rfl rfl)
    have hfirst := h.first_mod
    have hmod := hstarts.length_mod
    rw [Mapping.firstPage, hrest.base_eq]
    unfold pageSize at *
    omega

end Removals

end Presents

/-! ### Children -/

/-- A child has the bytes of its parent. -/
theorem Copies.byte?_eq {parent : Handle} (h : k.Copies pages parent p k') (hk : k.Accounted pages)
    (hx : x / pageSize < userPages) : (k'.memory p).byte? x = (k.memory parent).byte? x := by
  cases hfound : (k.memory parent).table.lookup (pageDown x) with
  | none =>
    rw [UserMemory.byte?_eq_none_iff.mpr hfound]
    exact UserMemory.byte?_eq_none_iff.mpr (h.absent _ hx hfound)
  | some found =>
    obtain ⟨physical, permissions⟩ := found
    obtain ⟨b, -, rfl⟩ := hk.mem_pages_of_lookup hx hfound
    obtain ⟨a, -, hlookup, hcontents⟩ := h.copied _ hx b permissions hfound
    have hlookup : (k'.memory p).table.lookup (pageDown x) = some (.pooled a, permissions) :=
      hlookup
    rw [UserMemory.byte?_of_lookup hlookup, UserMemory.byte?_of_lookup hfound]
    exact congrArg (fun page => some (Page.byteAt page x)) hcontents

/-- A child sees in a mapping what its parent sees. -/
theorem Copies.presents {parent : Handle} (h : k.Copies pages parent p k') (hk : k.Trim pages)
    (hr : r.InWindow) (hp : k.Presents r parent first f) : k'.Presents r p first f := by
  have hmappings := h.mappings_eq hk.owner_ne
  have hbytes (x : Nat) (hx : x < r.stop) :=
    h.byte?_eq hk.toAccounted (hr.div_lt_userPages hx)
  refine ⟨hp.base_le, hp.le_stop, hp.first_mod, fun hlt => ?_, fun r' hr' => ?_,
    fun x v hlow hhigh hv => hp.present x v hlow hhigh (hbytes x hhigh ▸ hv),
    fun x hlow hhigh hnone => hp.absent x hlow hhigh (hbytes x hhigh ▸ hnone)⟩
  · obtain ⟨r', hr', hrest⟩ := hp.rest hlt
    refine ⟨{ r' with owner := p }, hmappings ▸ List.mem_map_of_mem hr', ?_⟩
    exact ⟨hrest.base_eq, hrest.stop_eq, hrest.offset_eq, hrest.file_eq, hrest.protection_eq⟩
  · rw [hmappings] at hr'
    obtain ⟨r₀, hr₀, rfl⟩ := List.mem_map.mp hr'
    exact hp.gone r₀ hr₀

/-! ### New mappings -/

/-- Where a process has no mapping, no page of the window is mapped. -/
theorem LaidOut.lookup_eq_none (h : k.LaidOut p) (hr : r.InWindow)
    (hapart : ∀ r' ∈ k.mappingsOf p, ¬ r'.meets r.base r.stop) {n : Nat}
    (hc : r.covers (n * pageSize)) : (k.slotOf p).table.lookup (n * pageSize) = none := by
  refine Option.eq_none_iff_forall_ne_some.mpr fun found hfound => ?_
  rcases h.covers n (hr.lt_userPages_of_covers hc) (PageTable.isMapped_of_lookup hfound) with
    hsize | ⟨j, r', hj, howner, hc'⟩
  · refine absurd (hr.windowBase_le_of_covers hc) (Nat.not_le.mpr ?_)
    exact page_lt_windowBase h.size_le hsize
  · exact hapart r' (mem_mappingsOf.mpr ⟨j, hj, howner⟩) (Mapping.meets_of_covers hc hc')

/-- Where a new mapping is to lie the process has no other mapping. -/
theorem Admits.apart_mappingsOf {request : MappingRequest} {i : Fin mappingLimit}
    (h : k.Admits p request r i) : ∀ r' ∈ k.mappingsOf p, ¬ r'.meets r.base r.stop := by
  intro r' hr'
  obtain ⟨j, hj, howner⟩ := mem_mappingsOf.mp hr'
  exact h.apart j r' hj howner

/-- Where a new mapping is to lie no page is mapped yet, ... -/
theorem Admits.lookup_eq_none {request : MappingRequest} {i : Fin mappingLimit}
    (h : k.Admits p request r i) (hl : k.LaidOut p) {n : Nat} (hc : r.covers (n * pageSize)) :
    (k.slotOf p).table.lookup (n * pageSize) = none :=
  hl.lookup_eq_none h.recordFor.inWindow h.apart_mappingsOf hc

/-- ... so that it shows what it is to show. -/
theorem Admits.presents {request : MappingRequest} {i : Fin mappingLimit}
    (h : k.Admits p request r i) (hl : k.LaidOut p) :
    (k.withRecord i (some r)).Presents r p r.base r.byteAt := by
  have hwindow := h.recordFor.inWindow
  refine ⟨Nat.le_refl _, Nat.le_add_right _ _, hwindow.base_mod, fun _ => ⟨r, ?_, .refl r⟩,
    fun _ _ x hlow hhigh => absurd hlow (Nat.not_le.mpr hhigh), fun x v hlow hhigh hv => ?_,
    fun _ _ _ _ => rfl⟩
  · exact mem_mappingsOf.mpr ⟨i, by rw [record_withRecord, if_pos rfl], h.recordFor.owner_eq⟩
  · have hc := hwindow.covers_pageDown (Mapping.covers_iff.mpr ⟨hlow, hhigh⟩)
    have hnone : (k.memory p).byte? x = none :=
      UserMemory.byte?_eq_none_iff.mpr (h.lookup_eq_none hl hc)
    rw [show ((k.withRecord i (some r)).memory p).byte? x = _ from hnone] at hv
    cases hv

/-- A mapping that is made takes a free record, gains pages of the pool in its range only, and shows
the process what it is to show. -/
theorem Trim.leads_map_presents (h : k.Trim pages) (hlive : k.IsLive p) {request : MappingRequest}
    (hr : k.recordFor p request = .ok r) :
    Leads k (map p request) (fun result k' => ∀ base, result = .ok base → base = r.base ∧
      (∃ i, k.freeRecord? = some i ∧ k'.mappings = (k.withRecord i (some r)).mappings) ∧
      Gains (fun n _ => r.covers (n * pageSize)) (k.slotOf p).table (k'.slotOf p).table ∧
      (k'.memory p).pagesOf = (k.memory p).pagesOf ∧
      (r.IsSteady → k'.Presents r p r.base r.byteAt)) fun _ => True := by
  refine leads_map_of (fun _ _ => nofun) fun r' i hadmits => ?_
  obtain rfl := Except.ok.inj (hr.symm.trans hadmits.recordFor_eq)
  have hacc := (hadmits.reworked h.toAccounted hlive).accounted
  refine (hacc.leads_populate hlive hadmits.recordFor.inWindow).mono
    (fun result k' hpopulated => ⟨?_, ?_⟩) fun _ _ => trivial
  -- a failed population is withdrawn
  · rintro e -
    refine (leads_withdraw_error k' p i r e).imp fun result _ herror base hok => ?_
    rw [herror] at hok
    cases hok
  -- otherwise the record is there and the pages that are filled hold what it says
  · rintro - _ ⟨⟩
    refine ⟨rfl, ⟨i, hadmits.freeRecord?_eq, hpopulated.mappings_same⟩,
      hpopulated.gains.mono fun _ _ hn => hn.1, hpopulated.pagesOf_eq, fun hsteady => ?_⟩
    have h' := (hadmits.presents (h.laidOut p hlive)).of_fills hsteady (.refl r)
      (fun _ hc => hc) hpopulated.mappings_same hpopulated.fills
    exact h'.congr rfl fun _ _ => rfl

end Kernel

/-- In every run whose root process starts below the mapping window the kernel is trim. -/
theorem Run.trim {pages : Nat} {boot k : Kernel} {past : List Transition}
    (hrun : Run Call.Proper boot past k) (hboot : boot.Booted pages) : k.Trim pages := by
  refine ⟨hrun.throughLive.kempt hboot.kempt, hrun.throughLive.charted hboot,
    hrun.laidOut hboot.kempt fun q hq => ?_⟩
  exact absurd hq.1 (hboot.not_isLive q.slot)

end FairKernel
