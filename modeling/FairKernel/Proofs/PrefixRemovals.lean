import FairKernel.Proofs.Presentations
import FairKernel.Proofs.Sanity

/-!
# Prefix removals

A process removes a mapping from its base on, in as many pieces as it likes. Each piece takes the
pages that are resident there and the first bytes of the record, and nothing else of anybody; the
record itself goes with the last piece. What the pieces of a mapping give back to the pool is, all
together, what was installed for it, whatever else is called in between.

One piece is `RemovedPrefix`, and which pieces can be removed is `Removable`
(`Trim.leads_unmap_exact`). For all pieces together a ledger is kept of a record: the bytes that
were dropped, the pages that were installed in its range and those that were given back. A call
either leaves the record, and then pages in its range stay, or it removes a piece of it
(`Kernel.Trim.record_of_call`); so the ledger is right after one call (`Kernel.Trim.ledger_of_call`)
and, as ledgers continue each other (`Ledger.trans`), after any run (`Run.ledger`).
-/

namespace FairKernel

/-! ### What is left of a record -/

namespace Mapping

variable {r r' : Mapping} {length : Nat} {rest : Option Mapping}

/-- A record without its first bytes, if anything is left of it. -/
def without (r : Mapping) (length : Nat) : Option Mapping :=
  if length = r.length then none
  else some { r with
    base := r.base + length, offset := r.offset + length, length := r.length - length }

/-- What is left if not all is dropped. -/
theorem without_eq_some_iff : r.without length = some r' ↔ length ≠ r.length ∧ { r with
    base := r.base + length, offset := r.offset + length, length := r.length - length } = r' := by
  rw [without, Option.ite_none_left_eq_some, Option.some.injEq]

/-- Nothing is left exactly if all is dropped. -/
theorem without_eq_none_iff : r.without length = none ↔ length = r.length := by
  rw [without]
  split
  · next hall => exact iff_of_true rfl hall
  · next hpart => exact iff_of_false nofun hpart

/-- Dropping bytes leaves the record without them. -/
theorem without_of_dropFirst (h : r.dropFirst length = .ok rest) : rest = r.without length := by
  cases rest with
  | none =>
    refine (without_eq_none_iff.mpr ?_).symm
    unfold dropFirst at h
    split at h
    · next hall => exact hall
    · obtain ⟨_, -, hsome⟩ := bind_eq_ok.mp h
      cases hsome
  | some r' =>
    refine (without_eq_some_iff.mpr ⟨fun hall => ?_, (eq_of_dropFirst h).symm⟩).symm
    unfold dropFirst at h
    rw [if_pos hall] at h
    cases h

/-- A record without nothing is the record. -/
theorem without_zero (h : 0 < r.length) : r.without 0 = some r :=
  without_eq_some_iff.mpr ⟨h.ne, rfl⟩

/-- Bytes are dropped from what is left. -/
theorem without_add (hle : length ≤ r.length) (hr' : r.without length = some r')
    (length' : Nat) : r'.without length' = r.without (length + length') := by
  obtain ⟨-, rfl⟩ := without_eq_some_iff.mp hr'
  unfold without
  dsimp only
  simp only [Nat.add_assoc, Nat.sub_sub]
  exact if_congr (by omega) rfl rfl

/-- What is left has the owner of the record. -/
theorem owner_of_without (hr' : r.without length = some r') : r'.owner = r.owner := by
  obtain ⟨-, rfl⟩ := without_eq_some_iff.mp hr'
  rfl

/-- What is left is shorter. -/
theorem length_of_without (hr' : r.without length = some r') : r'.length = r.length - length := by
  obtain ⟨-, rfl⟩ := without_eq_some_iff.mp hr'
  rfl

/-- What is left ends where the record ended, and its addresses have the offsets that they had. -/
theorem rest_of_without (hle : length ≤ r.length) (hr' : r.without length = some r') :
    r.Rest (r.base + length) r' := by
  obtain ⟨-, rfl⟩ := without_eq_some_iff.mp hr'
  refine ⟨rfl, ?_, ?_, rfl, rfl⟩
  · unfold stop
    dsimp only
    omega
  · dsimp only
    omega

/-- What is left shows each address with the offset that it had. -/
theorem Rest.offset_eq_of_covers {first x : Nat} (h : r.Rest first r') (hbase : r.base ≤ first)
    (hc : r'.covers x) : r'.offset + (x - r'.base) = r.offset + (x - r.base) := by
  have hin := h.covers_iff.mp hc
  rw [h.offset_eq, h.base_eq]
  omega

/-- Offsets that are no higher than the addresses of the window are words. -/
theorem InWindow.offsetsFit (h : r.InWindow) (hle : r.offset ≤ r.base) : r.OffsetsFit := by
  have hend : windowEnd < wordLimit := by decide
  exact (Nat.add_le_add_right hle _).trans_lt (h.stop_le.trans_lt hend)

end Mapping

namespace Kernel

variable {pages : Nat} {k k' : Kernel} {p : Handle} {i : Fin mappingLimit} {r : Mapping}
  {address length : Nat}

/-! ### One piece -/

/-- Whether a process may remove so many bytes at an address: they are whole pages, and a record of
the process starts with them. -/
structure Removable (k : Kernel) (p : Handle) (address length : Nat) : Prop where
  address_mod : address % pageSize = 0
  length_mod : length % pageSize = 0
  length_pos : 0 < length
  starts : ∃ r ∈ k.mappingsOf p, r.base = address ∧ length ≤ r.length

/-- What comes of the first bytes of a record being removed: everybody else has what they had, and
the process has lost the pages in the range and the beginning of the record. -/
structure RemovedPrefix (p : Handle) (i : Fin mappingLimit) (r : Mapping) (length : Nat)
    (k k' : Kernel) : Prop extends Apart p k k' where
  length_le : length ≤ r.length
  record_eq : ∀ j, k'.record j = if j = i then r.without length else k.record j
  /-- What is left of the record ends where it ended, with the offset of every address. -/
  rest : ∀ r', k'.record i = some r' → r'.stop = r.stop ∧
    ∀ x, r'.covers x → r'.offset + (x - r'.base) = r.offset + (x - r.base)
  /-- Only the table of the process is another one. -/
  slot_eq : k'.slotOf p = (k.slotOf p).withTable (k'.slotOf p).table
  lookup_eq : ∀ n, (k'.slotOf p).table.lookup (n * pageSize) =
    if r.base ≤ n * pageSize ∧ n * pageSize < r.base + length then none
    else (k.slotOf p).table.lookup (n * pageSize)
  byte?_eq : ∀ x, x / pageSize < userPages → (k'.memory p).byte? x =
    if r.base ≤ x ∧ x < r.base + length then none else (k.memory p).byte? x
  /-- The pages that were resident in the range are free now, and no others. -/
  free_eq : (k'.pool.free : Multiset Nat) =
    (k.slotOf p).table.residentsIn r.base (r.base + length) + k.pool.free

/-- What one of two memories with the same pages has more behind its addresses is free in the other
one. -/
theorem free_eq_of_residents_eq (hpages : (k'.memory p).pagesOf = (k.memory p).pagesOf)
    {surplus : Multiset Nat}
    (hresidents : (k.slotOf p).table.residents = surplus + (k'.slotOf p).table.residents) :
    (k'.pool.free : Multiset Nat) = surplus + k.pool.free := by
  have hpages : (k'.slotOf p).table.residents + (k'.pool.free : Multiset Nat) =
      (k.slotOf p).table.residents + k.pool.free := hpages
  refine add_left_cancel (a := (k'.slotOf p).table.residents) ?_
  rw [hpages, hresidents]
  abel

/-- Two records of one process with the same base are the same one. -/
theorem Trim.eq_of_base_eq (h : k.Trim pages) {j : Fin mappingLimit} {r' : Mapping}
    (hr : k.record i = some r) (hr' : k.record j = some r') (howner : r'.owner = r.owner)
    (hbase : r'.base = r.base) : i = j := by
  have hpos := (h.sound i r hr).length_pos
  have hpos' := (h.sound j r' hr').length_pos
  have hc : r.covers r.base := Mapping.covers_iff.mpr (by omega)
  have hc' : r'.covers r.base := Mapping.covers_iff.mpr (by omega)
  exact h.eq_of_covers hr hr' howner hc hc'

/-- The pages of a piece go, and the beginning of its record. -/
theorem Accounted.leads_removePrefix {address : Nat} (h : k.Accounted pages) (hlive : k.IsLive p)
    (hstarts : k.Starts p address length i r) {rest : Option Mapping}
    (hdrop : r.dropFirst length = .ok rest) {E : Panic → Prop} :
    Leads (k.withRecord i rest) (onMemory p fun m => m.unmap r.base (length / pageSize))
      (fun _ k' => k.RemovedPrefix p i r length k') E := by
  have hwindow := h.inWindow i r hstarts.record_eq
  have hmod := hstarts.length_mod
  have h₁ := hstarts.reworked h hlive hdrop
  have hunmapped := h₁.accounted.leads_unmapRange (E := E) h₁.isLive (hstarts.le_userPages h)
  rw [← hwindow.base_eq] at hunmapped
  refine hunmapped.imp fun _ k' ⟨h', hlookup, hbyte⟩ => ?_
  have hlookup (n : Nat) : (k'.slotOf p).table.lookup (n * pageSize) =
      if r.base ≤ n * pageSize ∧ n * pageSize < r.base + length then none
      else (k.slotOf p).table.lookup (n * pageSize) :=
    (hlookup n).trans (if_congr (hwindow.first_pages hmod n) rfl rfl)
  have hrecord (j : Fin mappingLimit) :
      k'.record j = if j = i then r.without length else k.record j := by
    rw [record_congr h'.mappings_same, record_withRecord, Mapping.without_of_dropFirst hdrop]
    exact if_congr eq_comm rfl rfl
  refine ⟨h₁.apart.trans h'.apart, hstarts.length_le, hrecord, fun r' hr' => ?_, h'.slot_eq,
    hlookup, fun x hx => ?_, free_eq_of_residents_eq h'.pagesOf_eq ?_⟩
  -- what is left of the record ends where it ended
  · rw [hrecord, if_pos rfl] at hr'
    have hrest := Mapping.rest_of_without hstarts.length_le hr'
    exact ⟨hrest.stop_eq, fun x hc => hrest.offset_eq_of_covers (Nat.le_add_right _ _) hc⟩
  -- the bytes that are gone are those in the range
  · refine (hbyte x hx).trans (if_congr ?_ rfl rfl)
    have hbase := hwindow.base_mod
    unfold Mapping.firstPage
    unfold pageSize at *
    omega
  -- the resident pages that are gone are those in the range, so they are free now
  · exact PageTable.residents_eq_residentsIn_add
      (fun n _ hlow hhigh => (hlookup n).trans (if_pos ⟨hlow, hhigh⟩))
      fun n _ hout => (hlookup n).trans (if_neg hout)

/-- What can be removed starts with a record, ... -/
theorem Starts.removable {address : Nat} (h : k.Starts p address length i r) :
    k.Removable p address length :=
  ⟨h.address_mod, h.length_mod, h.length_pos, r, mem_mappingsOf.mpr ⟨i, h.record_eq, h.owner_eq⟩,
    h.base_eq, h.length_le⟩

/-- ... and its removal is not refused. -/
theorem Removable.not_refuses {address : Nat} (hrem : k.Removable p address length)
    (h : k.Trim pages) (e : MappingError) : ¬ k.RefusesRemoval p address length e := by
  intro hrefuses
  obtain ⟨r, hr, hbase, hle⟩ := hrem.starts
  obtain ⟨j, hj, howner⟩ := mem_mappingsOf.mp hr
  cases hrefuses with
  | empty hzero => exact hrem.length_pos.ne' hzero
  | misaligned _ hnot => exact hnot.elim (· hrem.address_mod) (· hrem.length_mod)
  -- a record lies in the window, so what it starts with does
  | outside _ hout =>
    have hlow := (h.inWindow j r hj).windowBase_le
    have hhigh := (h.inWindow j r hj).stop_le
    unfold Mapping.stop at hhigh
    omega
  | unmatched _ hnone => exact hnone j r hj howner hbase
  | short _ hr' howner' hbase' hlt =>
    -- no other record starts at the address
    obtain rfl := h.eq_of_base_eq hr' hj (howner.trans howner'.symm) (hbase.trans hbase'.symm)
    obtain rfl := Option.some.inj (hr'.symm.trans hj)
    exact absurd hle (Nat.not_le.mpr hlt)

/-- A removal takes a prefix of a record, or it is refused, or the offset of what is left of the
record is not a word. -/
theorem Trim.leads_unmap_exact (h : k.Trim pages) (hlive : k.IsLive p) (address length : Nat) :
    Leads k (unmap p address length)
      (fun result k' =>
        (result = .ok () ∧ k.Removable p address length ∧ ∃ i r, k.record i = some r ∧
          r.owner = p ∧ r.base = address ∧ k.RemovedPrefix p i r length k') ∨
        (∃ e, result = .error e) ∧ ¬ k.Removable p address length ∧ k' = k)
      (fun c => c = .addOverflow ∧ ∃ r ∈ k.mappingsOf p, r.base = address ∧ length < r.length ∧
        wordLimit ≤ r.offset + length) := by
  refine leads_unmap_of (fun e hrefuses => ?_) (fun i r hstarts c hc => ?_)
    fun i r hstarts rest hdrop => ?_
  -- a removal that is refused changes nothing
  · exact .inr ⟨⟨e, rfl⟩, fun hrem => hrem.not_refuses h e hrefuses, rfl⟩
  -- what is left would start at an offset that is not a word
  · obtain ⟨hcause, hpart, hover⟩ := Mapping.dropFirst_eq_error_iff.mp hc
    exact ⟨hcause, r, mem_mappingsOf.mpr ⟨i, hstarts.record_eq, hstarts.owner_eq⟩, hstarts.base_eq,
      Nat.lt_of_le_of_ne hstarts.length_le hpart, hover⟩
  -- the record is shortened and the pages of the piece are unmapped
  · refine (h.toAccounted.leads_removePrefix hlive hstarts hdrop).imp fun freed k' hremoved => ?_
    exact .inl ⟨rfl, hstarts.removable, i, r, hstarts.record_eq, hstarts.owner_eq, hstarts.base_eq,
      { hremoved with }⟩

/-- A removal takes a prefix of a record, or it is refused, as long as offsets are words. -/
theorem Trim.leads_unmap_prefix (h : k.Trim pages) (hlive : k.IsLive p) (address length : Nat) :
    Leads k (unmap p address length)
      (fun result k' =>
        (result = .ok () ∧ k.Removable p address length ∧ ∃ i r, k.record i = some r ∧
          r.owner = p ∧ r.base = address ∧ k.RemovedPrefix p i r length k') ∨
        (∃ e, result = .error e) ∧ ¬ k.Removable p address length ∧ k' = k)
      (fun _ => ∃ r ∈ k.mappingsOf p, ¬ r.OffsetsFit) := by
  refine (h.leads_unmap_exact hlive address length).mono (fun _ _ => id)
    fun c ⟨_, r, hr, _, hlt, hover⟩ => ⟨r, hr, fun hfit => ?_⟩
  unfold Mapping.OffsetsFit at hfit
  omega

/-! ### Records without a file -/

/-- A mapping without a file starts at offset 0. -/
theorem offset_eq_zero_of_recordFor {request : MappingRequest} (h : k.recordFor p request = .ok r)
    (hfile : r.file = none) : r.offset = 0 := by
  obtain ⟨-, file, hgrants, rfl⟩ := recordFor_eq_ok_iff.mp h
  obtain rfl : file = none := hfile
  exact hgrants.2.2

end Kernel

/-- The offset of a record without a file only grows together with its base. -/
theorem Run.offset_le_base {pages : Nat} {boot k : Kernel} {past : List Transition}
    (hrun : Run Call.ThroughLive boot past k) (hboot : boot.Booted pages) :
    ∀ (j : Fin mappingLimit) r, k.record j = some r → r.file = none → r.offset ≤ r.base := by
  refine (hrun.induct (P := fun k => k.Kempt pages ∧
    ∀ (j : Fin mappingLimit) r, k.record j = some r → r.file = none → r.offset ≤ r.base)
    ⟨hboot.kempt, fun j r hr => ?_⟩ fun c h hc => ?_).2
  · rw [hboot.record_eq] at hr
    cases hr
  refine ((h.1.leads_call hc).also (h.1.leads_redrawn hc)).mono (fun _ _ hcall => ?_)
    fun _ _ => trivial
  refine ⟨hcall.1.2.2, hcall.2.forall_record h.2 (fun p request r _ made hfile => ?_)
    (fun r length r' hr _ hrest hfile => ?_) fun _ _ => id⟩
  · rw [Kernel.offset_eq_zero_of_recordFor made hfile]
    exact Nat.zero_le _
  · have heq := Mapping.eq_of_dropFirst hrest
    subst heq
    exact Nat.add_le_add_right (hr hfile) length

open Kernel

/-! ### Piece by piece -/

/-- The pages that the owner of a record has in its range. -/
def Kernel.heldBy (k : Kernel) (i : Fin mappingLimit) : Multiset Nat :=
  (k.record i).elim 0 fun r => (k.slotOf r.owner).table.residentsIn r.base r.stop

/-- How many bytes a call removes from a record. -/
def Call.dropped (k : Kernel) (i : Fin mappingLimit) : (c : Call) → c.Answer → Nat
  | .unmap p address length, .ok () =>
    if (k.record i).any fun r => r.owner == p && r.base == address then length else 0
  | _, _ => 0

/-- A removal drops bytes from the record of its process that starts at its address. -/
theorem Call.dropped_unmap (k : Kernel) (i : Fin mappingLimit) (p : Handle) (address length : Nat) :
    (Call.unmap p address length).dropped k i (.ok ()) =
      if (k.record i).any fun r => r.owner == p && r.base == address then length else 0 := rfl

/-- Calls that are made while there is a record. -/
def Call.Under (i : Fin mappingLimit) (k : Kernel) (c : Call) : Prop :=
  c.Proper k ∧ (k.record i).isSome

instance (i : Fin mappingLimit) (k : Kernel) (c : Call) : Decidable (c.Under i k) :=
  inferInstanceAs (Decidable (_ ∧ _))

namespace Transition

variable (i : Fin mappingLimit) (t : Transition)

/-- How many bytes of a record were removed. -/
def dropped : Nat := t.call.dropped t.before i t.answer

/-- The pages that were installed in the range of a record. -/
def installed : Multiset Nat :=
  if t.dropped i = 0 then t.after.heldBy i - t.before.heldBy i else 0

/-- The pages that the removal of a piece of a record gave back to the pool. -/
def givenBack : Multiset Nat :=
  if t.dropped i = 0 then 0 else (t.after.pool.free : Multiset Nat) - t.before.pool.free

end Transition

/-- How many bytes of a record were removed in all, ... -/
def totalDropped (i : Fin mappingLimit) (later : List Transition) : Nat :=
  (later.map fun t => t.dropped i).sum

/-- ... the pages that were installed for it, ... -/
def totalInstalled (i : Fin mappingLimit) (later : List Transition) : Multiset Nat :=
  (later.map fun t => t.installed i).sum

/-- ... and those that the pieces gave back. -/
def totalGivenBack (i : Fin mappingLimit) (later : List Transition) : Multiset Nat :=
  (later.map fun t => t.givenBack i).sum

/-- How a record and its pages come out of a run. -/
structure Ledger (i : Fin mappingLimit) (r : Mapping) (k : Kernel) (later : List Transition)
    (k' : Kernel) : Prop where
  dropped_le : totalDropped i later ≤ r.length
  record_eq : k'.record i = r.without (totalDropped i later)
  pages_eq : k.heldBy i + totalInstalled i later = k'.heldBy i + totalGivenBack i later

section Pieces

variable {pages : Nat} {k k' : Kernel} {i : Fin mappingLimit} {r : Mapping} {c : Call}
  {a : c.Answer}

/-- A record has the pages in its range that its owner has there. -/
theorem Kernel.heldBy_of_record (hr : k.record i = some r) :
    k.heldBy i = (k.slotOf r.owner).table.residentsIn r.base r.stop := by
  rw [heldBy, hr, Option.elim_some]

/-- Without a record there are no pages. -/
theorem Kernel.heldBy_of_none (hr : k.record i = none) : k.heldBy i = 0 := by
  rw [heldBy, hr, Option.elim_none]

/-- A call leaves a record of a live process alone, or removes a piece of it. -/
theorem Kernel.Trim.record_of_call (h : k.Trim pages) (hc : c.Proper k)
    (ran : c.run.run k = .ok a k') (hr : k.record i = some r) (hlive : k.IsLive r.owner) :
    c.dropped k i a = 0 ∧ k'.record i = some r ∨
      0 < c.dropped k i a ∧ k.RemovedPrefix r.owner i r (c.dropped k i a) k' := by
  cases c with
  | unmap p address length =>
    rcases (h.leads_unmap_prefix (hc.1 p rfl) address length).of_run_ok ran with
      ⟨rfl, hremovable, j, r', hj, rfl, rfl, hremoved⟩ | ⟨⟨e, rfl⟩, -, rfl⟩
    -- some record lost its first bytes, and only one of this owner starts at the address
    · rw [Call.dropped_unmap]
      split
      · next hown =>
        rw [hr, Option.any_some, Bool.and_eq_true, beq_iff_eq, beq_iff_eq] at hown
        obtain rfl := h.eq_of_base_eq hr hj hown.1.symm hown.2.symm
        rw [hr] at hj
        cases hj
        exact .inr ⟨hremovable.length_pos, hremoved⟩
      · next hown =>
        refine .inl ⟨rfl, ?_⟩
        rw [hremoved.record_eq, if_neg]
        · exact hr
        · rintro rfl
          rw [hr] at hj
          cases hj
          simp [hr] at hown
    -- the removal was refused
    · exact .inl ⟨rfl, hr⟩
  -- no other call touches a record of a live process
  | _ =>
    refine .inl ⟨rfl, ?_⟩
    exact ((h.toKempt.leads_redrawn hc.1).of_run_ok ran).record_eq hr hlive fun _ _ _ => nofun

/-- Pages in the range of a record stay there as long as the record does. -/
theorem Kernel.Trim.heldBy_le (h : k.Trim pages) (hc : c.Proper k) (ran : c.run.run k = .ok a k')
    (hr : k.record i = some r) (hr' : k'.record i = some r) (hlive : k.IsLive r.owner)
    (hlive' : k'.IsLive r.owner) : k.heldBy i ≤ k'.heldBy i := by
  have hwork := ((h.leads_call hc).of_run_ok ran).1
  rw [heldBy_of_record hr, heldBy_of_record hr']
  refine PageTable.residentsIn_le fun n _ hlow hhigh found hfound => ?_
  have hcovers : r.covers (n * pageSize) := Mapping.covers_iff.mpr ⟨hlow, hhigh⟩
  -- either its owner was worked on, which keeps pages that are shown before and after, ...
  rcases hwork.arranged_or_sameLayout h.toKempt hc.1 hlive hlive' with ⟨-, harranged, -⟩ | hsame
  · exact harranged.lookup_of_shows (h.laidOut r.owner hlive) n found
      ⟨i, r, hr, rfl, hcovers⟩ ⟨i, r, hr', rfl, hcovers⟩ hfound
  -- ... or it was not, and has the table of before
  · rw [hsame.table_eq]
    exact hfound

/-- The pages of a record are those of the piece that is removed and those of what is left. -/
theorem Kernel.RemovedPrefix.heldBy_eq {length : Nat} (h : k.RemovedPrefix r.owner i r length k')
    (hr : k.record i = some r) : k.heldBy i =
      k'.heldBy i + ((k'.pool.free : Multiset Nat) - k.pool.free) := by
  have hle : r.base + length ≤ r.stop := Nat.add_le_add_left h.length_le _
  have hrest : k'.heldBy i = (k.slotOf r.owner).table.residentsIn (r.base + length) r.stop := by
    have hrecord := (h.record_eq i).trans (if_pos rfl)
    cases hsome : r.without length with
    -- all of it was removed, so nothing is left
    | none =>
      rw [hsome] at hrecord
      rw [heldBy_of_none hrecord, Mapping.without_eq_none_iff.mp hsome, ← Mapping.stop,
        PageTable.residentsIn_self]
    -- what is left lies after the piece, where nothing was unmapped
    | some r' =>
      rw [hsome] at hrecord
      have hrest := Mapping.rest_of_without h.length_le hsome
      rw [heldBy_of_record hrecord, hrest.stop_eq, hrest.base_eq, Mapping.owner_of_without hsome]
      refine PageTable.residentsIn_congr fun n _ hlow _ => (h.lookup_eq n).trans (if_neg ?_)
      exact fun hin => Nat.not_le.mpr hin.2 hlow
  rw [heldBy_of_record hr, hrest, h.free_eq, add_tsub_cancel_right, add_comm,
    PageTable.residentsIn_add _ (Nat.le_add_right _ _) hle]

/-- One call under a record. -/
theorem Kernel.Trim.ledger_of_call (h : k.Trim pages) (hc : c.Proper k)
    (ran : c.run.run k = .ok a k') (hr : k.record i = some r) (hlive : k.IsLive r.owner)
    (hlive' : k'.IsLive r.owner) : Ledger i r k [⟨k, c, a, k'⟩] k' := by
  have hdropped : totalDropped i [⟨k, c, a, k'⟩] = c.dropped k i a := Nat.add_zero _
  have hinstalled : totalInstalled i [⟨k, c, a, k'⟩] =
      if c.dropped k i a = 0 then k'.heldBy i - k.heldBy i else 0 := add_zero _
  have hgiven : totalGivenBack i [⟨k, c, a, k'⟩] =
      if c.dropped k i a = 0 then 0 else (k'.pool.free : Multiset Nat) - k.pool.free := add_zero _
  rcases h.record_of_call hc ran hr hlive with ⟨hzero, hr'⟩ | ⟨hpos, hremoved⟩
  -- nothing was dropped, so whatever is new in the range was installed
  · refine ⟨?_, ?_, ?_⟩
    · rw [hdropped, hzero]
      exact Nat.zero_le _
    · rw [hdropped, hzero, Mapping.without_zero (h.sound i r hr).length_pos]
      exact hr'
    · rw [hinstalled, hgiven, if_pos hzero, if_pos hzero, add_zero]
      exact add_tsub_cancel_of_le (h.heldBy_le hc ran hr hr' hlive hlive')
  -- a piece was dropped, and its pages are those that became free
  · refine ⟨hdropped ▸ hremoved.length_le, ?_, ?_⟩
    · rw [hdropped]
      exact (hremoved.record_eq i).trans (if_pos rfl)
    · rw [hinstalled, hgiven, if_neg hpos.ne', if_neg hpos.ne', add_zero]
      exact hremoved.heldBy_eq hr

/-- The ledger of a record is continued by that of what is left of it. -/
theorem Ledger.trans {k₁ : Kernel} {r₁ : Mapping} {past later : List Transition}
    (h : Ledger i r k past k₁) (hr₁ : k₁.record i = some r₁) (h' : Ledger i r₁ k₁ later k') :
    Ledger i r k (later ++ past) k' := by
  have hwithout : r.without (totalDropped i past) = some r₁ := h.record_eq.symm.trans hr₁
  have hlength := Mapping.length_of_without hwithout
  have hdropped : totalDropped i (later ++ past) = totalDropped i past + totalDropped i later := by
    rw [totalDropped, List.map_append, List.sum_append_nat, Nat.add_comm]
    rfl
  have hinstalled : totalInstalled i (later ++ past) =
      totalInstalled i later + totalInstalled i past := by
    rw [totalInstalled, List.map_append, List.sum_append]
    rfl
  have hgiven : totalGivenBack i (later ++ past) =
      totalGivenBack i later + totalGivenBack i past := by
    rw [totalGivenBack, List.map_append, List.sum_append]
    rfl
  refine ⟨?_, ?_, ?_⟩
  · have hle := h.dropped_le
    have hle' := h'.dropped_le
    omega
  · rw [h'.record_eq, hdropped]
    exact Mapping.without_add h.dropped_le hwithout _
  · rw [hinstalled, hgiven]
    -- what is given back later comes from what was there or was installed in between
    calc k.heldBy i + (totalInstalled i later + totalInstalled i past)
        = k.heldBy i + totalInstalled i past + totalInstalled i later := by abel
      _ = k₁.heldBy i + totalInstalled i later + totalGivenBack i past := by
          rw [h.pages_eq]
          abel
      _ = k'.heldBy i + (totalGivenBack i later + totalGivenBack i past) := by
          rw [h'.pages_eq]
          abel

/-- **Ledgers.** Whatever is called while there is a record, its ledger is right. -/
theorem Run.ledger {later : List Transition} (hrun : Run (Call.Under i) k later k')
    (hk : k.Trim pages) (hr : k.record i = some r) (hlive : k.IsLive r.owner)
    (hlive' : k'.IsLive r.owner) : Ledger i r k later k' := by
  -- nobody comes to life as the owner meanwhile
  suffices h : k'.Trim pages ∧ r.owner.pid < k'.nextPid ∧
      (k'.IsLive r.owner → Ledger i r k later k') from h.2.2 hlive'
  clear hlive'
  induction hrun with
  | refl =>
    refine ⟨hk, hlive.2 ▸ hk.numbered.pid_lt r.owner.slot hlive.1, fun _ => ?_⟩
    exact ⟨Nat.zero_le _, hr.trans (Mapping.without_zero (hk.sound i r hr).length_pos).symm, rfl⟩
  | @call later k₁ k₂ c a earlier allowed ran ih =>
    obtain ⟨hk₁, hpid, hledger⟩ := ih
    obtain ⟨-, heffect, hk₂⟩ := (hk₁.leads_call allowed.1).of_run_ok ran
    -- its owner lives after the call, so it lived before it
    refine ⟨hk₂, hpid.trans_le heffect.nextPid_le, fun hlive₂ => ?_⟩
    have hlive₁ := heffect.isLive_of_isLive allowed.1.1 hpid hlive₂
    obtain ⟨r₁, hr₁⟩ := Option.isSome_iff_exists.mp allowed.2
    have howner := Mapping.owner_of_without ((hledger hlive₁).record_eq.symm.trans hr₁)
    rw [← howner] at hlive₁ hlive₂
    exact (hledger (howner ▸ hlive₁)).trans hr₁
      (hk₁.ledger_of_call allowed.1 ran hr₁ hlive₁ hlive₂)

/-- A request for which there is no record is refused. -/
theorem Kernel.leads_map_of_refused {p : Handle} {request : MappingRequest} {e : MappingError}
    (h : k.recordFor p request = .error e) :
    Leads k (Kernel.map p request) (fun result _ => result = .error e) fun _ => False := by
  unfold Kernel.map
  simp only [leads_bind, leads_get, h, leads_pure]

/-- What a mapping has when it is made was taken from the pool for it. -/
theorem Kernel.Trim.free_eq_of_map {p : Handle} {request : MappingRequest} {base : Nat}
    (h : k.Trim pages) (hlive : k.IsLive p)
    (ran : (Kernel.map p request).run k = .ok (.ok base) k') : ∃ i r, k.record i = none ∧
      k'.record i = some r ∧ r.owner = p ∧ r.base = base ∧
        (k.pool.free : Multiset Nat) = k'.heldBy i + k'.pool.free := by
  cases hmade : k.recordFor p request with
  | error e => cases (leads_map_of_refused hmade).of_run_ok ran
  | ok r =>
    obtain ⟨rfl, ⟨i, hfree, hmappings⟩, hgains, hpages, -⟩ :=
      (h.leads_map_presents hlive hmade).of_run_ok ran base rfl
    have hproper : (Call.map p request).Proper k :=
      ⟨fun q hq => Option.some.inj (show some p = some q from hq) ▸ hlive, trivial⟩
    have hk' := ((h.leads_call hproper).of_run_ok ran).2.2
    have howner := (of_recordFor hmade).owner_eq
    have hnone := record_of_freeRecord? hfree
    have hrecord (j : Fin mappingLimit) :
        k'.record j = if i = j then some r else k.record j := by
      rw [record_congr hmappings, record_withRecord]
    have hr : k'.record i = some r := (hrecord i).trans (if_pos rfl)
    refine ⟨i, r, hnone, hr, howner, rfl, ?_⟩
    -- there was nothing in the range before
    have hempty (n : Nat) (hn : n < userPages) (hc : r.covers (n * pageSize)) :
        (k.slotOf p).table.lookup (n * pageSize) = none := by
      refine Option.eq_none_iff_forall_ne_some.mpr fun found hfound => ?_
      rcases (h.laidOut p hlive).covers n hn (PageTable.isMapped_of_lookup hfound) with
        hsize | ⟨j, r', hj, howner', hc'⟩
      · refine absurd ((hk'.inWindow i r hr).windowBase_le_of_covers hc) (Nat.not_le.mpr ?_)
        exact page_lt_windowBase (h.laidOut p hlive).size_le hsize
      · have hij : i ≠ j := by
          rintro rfl
          rw [hnone] at hj
          cases hj
        exact hij (hk'.eq_of_covers hr ((hrecord j).trans ((if_neg hij).trans hj))
          (howner'.trans howner.symm) hc hc')
    rw [heldBy_of_record hr, howner]
    refine free_eq_of_residents_eq hpages.symm
      (PageTable.residents_eq_residentsIn_add (fun n hn hlow hhigh => ?_) fun n hn hout => ?_)
    · exact hempty n hn (Mapping.covers_iff.mpr ⟨hlow, hhigh⟩)
    · rcases hgains n hn with hsame | ⟨-, _, _, -, hc⟩
      · exact hsame.symm
      · exact absurd (Mapping.covers_iff.mp hc) hout

end Pieces

/-- **Removals.** In every kernel that is reached, a live process whose mappings of files have
offsets that are words removes memory at an address if and only if these are whole pages that a
record of it starts with; otherwise nothing changes at all. A removal takes the pages that were
resident there, which become free, and the beginning of the record, or all of it, and leaves
everything else as it was. So the pieces of a record give back, whatever else is called between
them, exactly what was installed for it, from the pages that were taken when the mapping was made to
those of the last fault; and with the last piece the record is free. -/
theorem removals_take_prefixes {pages : Nat} {boot k : Kernel} {past : List Transition} {p : Handle}
    (hboot : boot.Booted pages) (hrun : Run Call.Proper boot past k) (hp : k.IsLive p)
    (hfit : ∀ r ∈ k.mappingsOf p, r.file ≠ none → r.OffsetsFit) :
    (∀ (j : Fin mappingLimit) r, k.record j = some r → r.InWindow) ∧
    (∀ address length, ∃ result k', (Kernel.unmap p address length).run k = .ok result k' ∧
      (result = .ok () ↔ k.Removable p address length) ∧ (result ≠ .ok () → k' = k) ∧
      (result = .ok () → ∃ i r, k.record i = some r ∧ r.owner = p ∧ r.base = address ∧
        k.RemovedPrefix p i r length k')) ∧
    (∀ i r later k', k.record i = some r → r.owner = p → Run (Call.Under i) k later k' →
      k'.IsLive p → Ledger i r k later k' ∧ (totalDropped i later = r.length →
        k'.record i = none ∧ k.heldBy i + totalInstalled i later = totalGivenBack i later)) ∧
    ∀ request base k', (Kernel.map p request).run k = .ok (.ok base) k' → ∃ i r,
      k.record i = none ∧ k'.record i = some r ∧ r.owner = p ∧ r.base = base ∧
        (k.pool.free : Multiset Nat) = k'.heldBy i + k'.pool.free := by
  -- offsets of files are words by hypothesis, and without a file they are small
  have hk := hrun.trim hboot
  have hfits (r : Mapping) (hr : r ∈ k.mappingsOf p) : r.OffsetsFit := by
    by_cases hfile : r.file = none
    · obtain ⟨j, hj, -⟩ := mem_mappingsOf.mp hr
      exact (hk.inWindow j r hj).offsetsFit (hrun.throughLive.offset_le_base hboot j r hj hfile)
    · exact hfit r hr hfile
  refine ⟨hk.inWindow, fun address length => ?_, fun i r later k' hr howner hlater hlive' => ?_,
    fun request base k' ran => hk.free_eq_of_map hp ran⟩
  · have hprefix := hk.leads_unmap_prefix hp address length
    cases ran : (Kernel.unmap p address length).run k with
    | error c k' =>
      obtain ⟨r, hr, hnot⟩ := hprefix.of_run_error ran
      exact absurd (hfits r hr) hnot
    | ok result k' =>
      refine ⟨result, k', rfl, ?_⟩
      rcases hprefix.of_run_ok ran with ⟨rfl, hremovable, hremoved⟩ | ⟨⟨e, rfl⟩, hnot, rfl⟩
      · exact ⟨iff_of_true rfl hremovable, fun hne => absurd rfl hne, fun _ => hremoved⟩
      · exact ⟨iff_of_false nofun hnot, fun _ => rfl, nofun⟩
  -- after the last piece there is no record, so the ledger has no pages left
  · subst howner
    have hledger := hlater.ledger hk hr hp hlive'
    refine ⟨hledger, fun hall => ?_⟩
    have hnone : k'.record i = none :=
      hledger.record_eq.trans (Mapping.without_eq_none_iff.mpr hall)
    refine ⟨hnone, hledger.pages_eq.trans ?_⟩
    rw [heldBy_of_none hnone, zero_add]

/-- The root process maps three pages and touches the first one. It removes that page, touches the
next one, and removes the two pages that are left, of which one was never touched: two pages come
back, and the record is free. -/
theorem removals_take_prefixes_lazy : ∃ (boot k k' : Kernel) (past later : List Transition)
    (i : Fin mappingLimit) (r : Mapping), boot.Booted 40 ∧ Run Call.Proper boot past k ∧
    k.IsLive .eldest ∧ k.mappingsOf .eldest = [r] ∧ k.record i = some r ∧ r.InWindow ∧
    (∃ k₁, (Kernel.unmap .eldest windowBase pageSize).run k = .ok (.ok ()) k₁ ∧
      k.RemovedPrefix .eldest i r pageSize k₁) ∧
    (∃ e, (Kernel.unmap .eldest (windowBase + pageSize) pageSize).run k = .ok (.error e) k) ∧
    Run (Call.Under i) k later k' ∧ later.length = 3 ∧ totalDropped i later = 3 * pageSize ∧
    k'.record i = none ∧ k.heldBy i + totalInstalled i later = totalGivenBack i later ∧
    (totalGivenBack i later).card = 2 := by
  set i : Fin mappingLimit := ⟨0, by decide⟩
  set r : Mapping := ⟨.eldest, none, windowBase, 3 * pageSize, 0, .readWrite, ⟨1⟩⟩
  obtain ⟨boot, past, k, hboot, hrun, hcheck⟩ := Run.of_rehearse Call.Proper 40
    [.startRoot [], .dispatch 0, .map .eldest ⟨0, 3 * pageSize, .readWrite, ⟨1⟩, noDescriptor, 0⟩,
      .touch .eldest windowBase .write]
    (fun _ k => k.record i == some r && (k.mappingsOf .eldest == [r] &&
      (decide (k.IsLive .eldest) && (Run.attempt (Call.Under i) [.unmap .eldest windowBase pageSize,
        .touch .eldest (windowBase + pageSize) .read,
        .unmap .eldest (windowBase + pageSize) (2 * pageSize)] ([], k)).any
          fun (s : List Transition × Kernel) => decide (s.2.IsLive .eldest ∧ s.1.length = 3 ∧
            totalDropped i s.1 = 3 * pageSize ∧ (totalGivenBack i s.1).card = 2))))
    (by decide +kernel)
  obtain ⟨hr, hcheck⟩ := Bool.and_eq_true_iff.mp hcheck
  obtain ⟨hall, hcheck⟩ := Bool.and_eq_true_iff.mp hcheck
  obtain ⟨hlive, hcheck⟩ := Bool.and_eq_true_iff.mp hcheck
  obtain ⟨⟨later, k'⟩, hattempt, hcheck⟩ := (Option.any_eq_true _ _).mp hcheck
  have hr : k.record i = some r := beq_iff_eq.mp hr
  have hall : k.mappingsOf .eldest = [r] := beq_iff_eq.mp hall
  have hlive : k.IsLive .eldest := of_decide_eq_true hlive
  obtain ⟨hlive', hlength, hdropped, hcard⟩ := of_decide_eq_true hcheck
  have hlater : Run (Call.Under i) k later k' := Run.of_attempt .refl hattempt
  have hanonymous : ∀ r' ∈ k.mappingsOf .eldest, r'.file ≠ none → r'.OffsetsFit := by
    intro r' hr' hfile
    rw [hall, List.mem_singleton] at hr'
    exact absurd (congrArg Mapping.file hr') hfile
  obtain ⟨hwindow, hunmap, hledger, -⟩ := removals_take_prefixes hboot hrun hlive hanonymous
  obtain ⟨-, hfreed⟩ := hledger i r later k' hr rfl hlater hlive'
  obtain ⟨hnone, hpages⟩ := hfreed hdropped
  have hsome : k.Removable .eldest windowBase pageSize := by
    refine ⟨by decide, by decide, by decide, r, ?_, rfl, by decide⟩
    rw [hall]
    exact List.mem_singleton_self r
  have hnot : ¬ k.Removable .eldest (windowBase + pageSize) pageSize := by
    rintro ⟨-, -, -, r', hr', hbase, -⟩
    rw [hall, List.mem_singleton] at hr'
    subst hr'
    revert hbase
    decide
  obtain ⟨result, k₁, ran, hok, -, htaken⟩ := hunmap windowBase pageSize
  obtain rfl := hok.mpr hsome
  obtain ⟨j, r', hj, howner, hbase, hremoved⟩ := htaken rfl
  obtain rfl : i = j := (hrun.trim hboot).eq_of_base_eq hr hj howner hbase
  obtain rfl : r = r' := Option.some.inj (hr.symm.trans hj)
  obtain ⟨refused, k₂, hrefused, hok', hsame, -⟩ := hunmap (windowBase + pageSize) pageSize
  have hne : refused ≠ .ok () := fun heq => hnot (hok'.mp heq)
  obtain rfl := hsame hne
  refine ⟨boot, k₂, k', past, later, i, r, hboot, hrun, hlive, hall, hr, hwindow i r hr,
    ⟨k₁, ran, hremoved⟩, ?_, hlater, hlength, hdropped, hnone, hpages, hcard⟩
  cases refused with
  | ok _ => exact absurd rfl hne
  | error e => exact ⟨e, hrefused⟩

end FairKernel
