import FairKernel.Proofs.MappingWork

/-!
# New mappings

A request to map is refused before anything is done, or a record is entered for it. Its pages are
installed next if they were asked for at once, and when they cannot all be had they are removed
again, together with the record. `leads_map_of` takes an attempt apart along these lines, whatever
is to be said of it, so that nothing else has to look into the operation.

The three stages have names: a request is refused (`Refuses`) or admitted (`Admits`), pages are
installed (`populate`, with `Populated` for what comes of it), and a mapping is withdrawn
(`withdraw`, with `Withdrawn`). A mapping that was withdrawn leaves no trace, because in its range
nothing was mapped before and nothing is mapped after it, and outside of it nothing was touched
(`Admits.leads_withdraw`). `Maps` puts the outcomes together, and `Accounted.leads_map` shows that
every attempt comes to one of them.
-/

namespace FairKernel

open PageTable (Gains)

namespace Kernel

variable {pages : Nat} {k k' : Kernel} {p : Handle} {request : MappingRequest} {r : Mapping}
  {i : Fin mappingLimit}

/-! ### Requests -/

/-- Why a request is refused before anything is done. -/
inductive Refuses (k : Kernel) (p : Handle) (request : MappingRequest) : MappingError → Prop
  /-- The request is not sound in itself. -/
  | unsound {e : MappingError} (none : k.recordFor p request = .error e) : Refuses k p request e
  /-- The process has a mapping in the range. -/
  | overlap {j : Fin mappingLimit} {r r' : Mapping} (made : k.recordFor p request = .ok r)
      (found : k.record j = some r') (owner_eq : r'.owner = p) (meets : r'.meets r.base r.stop) :
      Refuses k p request .overlap
  /-- All records are in use. -/
  | full (none : k.freeRecord? = none) : Refuses k p request .tableFull

/-- A request is granted a record that meets no other one of the process, in a free place of the
table. -/
structure Admits (k : Kernel) (p : Handle) (request : MappingRequest) (r : Mapping)
    (i : Fin mappingLimit) : Prop where
  recordFor_eq : k.recordFor p request = .ok r
  apart : ∀ (j : Fin mappingLimit) (r' : Mapping), k.record j = some r' → r'.owner = p →
    ¬ r'.meets r.base r.stop
  freeRecord?_eq : k.freeRecord? = some i

/-- Installs the pages of a new mapping if they were asked for at once. -/
def populate (p : Handle) (r : Mapping) : KernelM (Except MappingError Unit) :=
  if r.options.populate then installPages p r r.base r.pageCount else pure (.ok ())

/-- Removes a new mapping whose pages cannot be had. -/
def withdraw (p : Handle) (i : Fin mappingLimit) (r : Mapping) (e : MappingError) :
    KernelM (Except MappingError Nat) := do
  let _ ← onMemory p fun m => m.unmap r.base r.pageCount
  flushTlb
  setRecord i none
  note (.populateFailed p.pid e)
  return .error e

/-- A mapping that is withdrawn is answered with what was wrong. -/
theorem leads_withdraw_error (k : Kernel) (p : Handle) (i : Fin mappingLimit) (r : Mapping)
    (e : MappingError) : Leads k (withdraw p i r e) (fun result _ => result = .error e)
      fun _ => True := by
  unfold withdraw
  rw [leads_bind]
  refine .of_outcomes (fun _ k₁ _ => ?_) fun _ _ _ => trivial
  simp only [leads_bind, leads_flushTlb, leads_setRecord, leads_note, leads_pure]

/-- **Attempts.** What comes of a request is what comes of its refusal or, once a record is entered,
of installing its pages and of withdrawing it if that fails. -/
theorem leads_map_of {Q : Except MappingError Nat → Kernel → Prop} {E : Panic → Prop}
    (refused : ∀ e, k.Refuses p request e → Q (.error e) k)
    (admitted : ∀ r i, k.Admits p request r i → Leads (k.withRecord i (some r)) (populate p r)
      (fun result k' => (∀ e, result = .error e → Leads k' (withdraw p i r e) Q E) ∧
        (result = .ok () → Q (.ok r.base) { k' with
          console := k'.consoleAfter (.mapped p.pid r.base r.stop r.protection r.options) })) E) :
    Leads k (map p request) Q E := by
  unfold map
  simp only [leads_bind, leads_get]
  split
  -- the request itself is unsound, ...
  · next e hunsound => exact refused e (.unsound hunsound)
  next r hrecord =>
  split
  -- ... or its range meets another one of the process, ...
  · next hmeets =>
    obtain ⟨⟨j, r'⟩, hfound⟩ := Option.isSome_iff_exists.mp hmeets
    obtain ⟨hr', howner, hmeets⟩ := of_findRecord? hfound
    exact refused .overlap (.overlap hrecord hr' howner hmeets)
  next hapart =>
  have hapart : k.findRecord? p (fun other => other.meets r.base r.stop) = none := by
    simpa using hapart
  split
  -- ... or there is no room for one more record
  · next hfull => exact refused .tableFull (.full hfull)
  next i hfree =>
  have hpopulate := admitted r i
    ⟨hrecord, fun j r' hr' howner => not_of_findRecord? hapart hr' howner, hfree⟩
  unfold populate at hpopulate
  simp only [leads_bind, leads_setRecord]
  -- pages are installed at once or later, and what follows is the same
  split
  · next hnow =>
    rw [if_pos hnow] at hpopulate
    rw [leads_bind]
    refine hpopulate.imp fun result k' ⟨hfailed, hmade⟩ => ?_
    cases result with
    | error e => exact hfailed e rfl
    | ok _ =>
      simp only [leads_bind, leads_note, leads_pure]
      exact hmade rfl
  · next hlater =>
    rw [if_neg hlater] at hpopulate
    simp only [leads_bind, leads_note, leads_pure]
    exact hpopulate.2 rfl

namespace Admits

/-- The record that is entered is one for the request. -/
theorem recordFor (h : k.Admits p request r i) : RecordFor p request r :=
  of_recordFor h.recordFor_eq

/-- The record is entered in a free place. -/
theorem record_eq (h : k.Admits p request r i) : k.record i = none :=
  record_of_freeRecord? h.freeRecord?_eq

/-- No address of the new mapping lies in another one of the process. -/
theorem not_covers (h : k.Admits p request r i) {j : Fin mappingLimit} {r' : Mapping}
    (hr' : k.record j = some r') (howner : r'.owner = p) {address : Nat} (hc : r.covers address) :
    ¬ r'.covers address :=
  fun hc' => h.apart j r' hr' howner (Mapping.meets_of_covers hc hc')

/-- Entering the record is work on the process. -/
theorem reworked (h : k.Admits p request r i) (hk : k.Accounted pages) (hlive : k.IsLive p) :
    k.Reworked pages p (k.withRecord i (some r)) := by
  refine ⟨hk.setRecord i _ ?_, hlive, .withRecord (fun r' hr' => ?_) ?_⟩
  · rintro _ ⟨⟩
    exact h.recordFor.inWindow
  · rw [h.record_eq] at hr'
    cases hr'
  · rintro _ ⟨⟩
    exact h.recordFor.owner_eq

/-- Once the record is removed again the table is as it was. -/
theorem mappings_of_cleared (h : k.Admits p request r i)
    (hmappings : k'.mappings = (k.withRecord i (some r)).mappings) :
    (k'.withRecord i none).mappings = k.mappings := by
  unfold withRecord
  rw [hmappings, withRecord, Vector.set_set, ← h.record_eq]
  exact set_get k.mappings i

end Admits

/-! ### Pages of new mappings -/

/-- What comes of the pages of a mapping that were to be installed at once or are to come later. -/
structure Populated (pages : Nat) (p : Handle) (r : Mapping) (k : Kernel)
    (result : Except MappingError Unit) (k' : Kernel) : Prop extends Tabled pages p k k' where
  gains : Gains (fun n permissions => r.covers (n * pageSize) ∧
    permissions = r.permissions.validated) (k.slotOf p).table (k'.slotOf p).table
  fills : Fills r (fun n => r.covers (n * pageSize)) (k.memory p) (k'.memory p)
  mapped : result = .ok () → r.options.populate → ∀ n, r.covers (n * pageSize) →
    (k'.slotOf p).table.isMapped (n * pageSize)
  /-- There were too few free pages, or a page could not be read. -/
  cause : ∀ e, result = .error e → r.options.populate ∧
    (e = .memory .outOfMemory ∧ k.pool.freeCount < r.pageCount ∨
      ∃ n, r.covers (n * pageSize) ∧ r.initialPage (n * pageSize) = .ok (.error e))
  asked : k.calls <:+ k'.calls

/-- Pages that were asked for at once are installed, or there are none to install yet. -/
theorem Accounted.leads_populate (h : k.Accounted pages) (hlive : k.IsLive p) (hr : r.InWindow) :
    Leads k (populate p r) (fun result k' => k.Populated pages p r result k')
      fun c => r.options.populate ∧
        ∃ n, r.covers (n * pageSize) ∧ r.initialPage (n * pageSize) = .error c := by
  have hin (n : Nat) := hr.covers_page n
  unfold populate
  refine leads_ite.mpr ⟨fun hnow => ?_, fun hlater => ?_⟩
  · have hinstall := (h.leads_installPages hlive r hr.le_userPages).also
      (installPages_asks p r _ r.pageCount k)
    rw [← hr.base_eq] at hinstall
    refine hinstall.mono (fun result k' ⟨hinstalled, hasked⟩ => ?_) fun c ⟨n, hn, hc⟩ =>
      ⟨hnow, n, (hin n).mpr hn, hc⟩
    refine ⟨hinstalled.toTabled,
      hinstalled.gains.mono fun n _ ⟨hn, hpermissions⟩ => ⟨(hin n).mpr hn, hpermissions⟩,
      hinstalled.fills.mono fun n => (hin n).mpr, fun hok _ n hc => ?_, fun e he => ⟨hnow, ?_⟩,
      hasked⟩
    · obtain ⟨hlow, hhigh⟩ := (hin n).mp hc
      exact hinstalled.mapped hok n hlow hhigh
    · exact (hinstalled.cause e he).imp_right fun ⟨n, hn, hfailed⟩ => ⟨n, (hin n).mpr hn, hfailed⟩
  · exact ⟨.refl h hlive, .refl _ _, fun _ _ => .inl rfl, fun _ hnow => absurd hnow hlater, nofun,
      List.suffix_rfl⟩

/-- Where a page is now and was not before, the mapping could be filled. -/
theorem Populated.exists_initialPage {result : Except MappingError Unit}
    (h : k.Populated pages p r result k') {n : Nat} (hn : n < userPages)
    (hold : ¬ (k.slotOf p).table.isMapped (n * pageSize))
    (hnew : (k'.slotOf p).table.isMapped (n * pageSize)) :
    ∃ page, r.initialPage (n * pageSize) = .ok (.ok page) := by
  have hdown := pageDown_page n
  have absent {k : Kernel} : (k.memory p).byte? (n * pageSize) = none ↔
      ¬ (k.slotOf p).table.isMapped (n * pageSize) := by
    rw [UserMemory.byte?_eq_none_iff, hdown]
    exact Option.not_isSome_iff_eq_none.symm
  have hdiv : n * pageSize / pageSize < userPages :=
    (Nat.mul_div_cancel n (show 0 < pageSize by decide)).symm ▸ hn
  rcases h.fills (n * pageSize) hdiv with hsame | ⟨-, -, page, hpage, -⟩
  · exact absurd hnew (absent.mp (hsame.trans (absent.mpr hold)))
  · exact ⟨page, hdown ▸ hpage⟩

/-- A mapping was withdrawn: no page is left in its range, and nothing else is new. -/
structure Withdrawn (pages : Nat) (p : Handle) (r : Mapping) (k k' : Kernel) : Prop extends
    Reworked pages p k k' where
  slot_eq : k'.slotOf p = (k.slotOf p).withTable (k'.slotOf p).table
  mappings_eq : k'.mappings = k.mappings
  lookup_eq : ∀ n, (k'.slotOf p).table.lookup (n * pageSize) =
    if r.covers (n * pageSize) then none else (k.slotOf p).table.lookup (n * pageSize)
  byte?_eq : ∀ x, x / pageSize < userPages → (k'.memory p).byte? x =
    if r.covers (pageDown x) then none else (k.memory p).byte? x
  flushes : k.Flushes k'

/-- What is withdrawn takes with it all that came with it. -/
theorem Admits.leads_withdraw (h : k.Admits p request r i) (hk : k.Accounted pages)
    (hlive : k.IsLive p) {e : MappingError}
    (hpopulated : (k.withRecord i (some r)).Populated pages p r (.error e) k') {E : Panic → Prop} :
    Leads k' (withdraw p i r e)
      (fun result k'' => result = .error e ∧ k.Withdrawn pages p r k'') E := by
  have hr := h.recordFor.inWindow
  have hin (n : Nat) := hr.covers_page n
  unfold withdraw
  rw [leads_bind, hr.base_eq]
  have hremoved := (hpopulated.accounted.leads_unmapRange hpopulated.isLive hr.le_userPages
    (E := E)).also ((onMemory_keeps_requests p _).leads k')
  refine hremoved.imp fun _ k₁ ⟨⟨hunmapped, hlookup, hbyte⟩, hrequests⟩ => ?_
  simp only [leads_bind, leads_flushTlb, leads_setRecord, leads_note, leads_pure]
  simp only [← hin] at hlookup hbyte
  -- in the end the process has lost and gained no record, ...
  have h₁ := hpopulated.toTabled.trans hunmapped
  have hcleared : k.Reworked pages p (k₁.withRecord i none) := by
    refine ⟨hunmapped.accounted.setRecord i none nofun, hunmapped.isLive,
      ((h.reworked hk hlive).apart.trans h₁.apart).trans (.withRecord (fun r' hr' => ?_) nofun)⟩
    rw [record_congr h₁.mappings_same, record_withRecord, if_pos rfl] at hr'
    exact Option.some.inj hr' ▸ h.recordFor.owner_eq
  refine ⟨trivial, hcleared.congr rfl rfl rfl, h₁.slot_eq, h.mappings_of_cleared h₁.mappings_same,
    fun n => ?_, fun x hx => ?_, flushes_of_suffix hpopulated.asked ?_ rfl⟩
  -- ... nothing is mapped in the range, and elsewhere what was mapped before, ...
  · refine (hlookup n).trans ?_
    split
    · rfl
    · next hout =>
      by_cases hn : n < userPages
      · exact (hpopulated.gains n hn).resolve_right fun ⟨_, _, _, _, hc, _⟩ => hout hc
      · exact hpopulated.above n (Nat.le_of_not_lt hn)
  -- ... and the bytes of all pages that are still there are as before
  · refine (hbyte x hx).trans ?_
    split
    · next hc => exact (if_pos hc).symm
    · next hout =>
      refine ((hpopulated.fills x hx).resolve_right fun ⟨_, hc, _⟩ => hout hc).trans ?_
      exact (if_neg hout).symm
  · exact congrArg (MachineCall.flushTlb :: ·) (calls_of_requests_eq hrequests)

/-! ### The memory of the process -/

/-- A mapping for a request was made: it is there, and all of its pages are if they were asked
for. -/
def MappedAt (k : Kernel) (p : Handle) (request : MappingRequest) (base : Nat) : Prop :=
  base = windowBase + request.address ∧ ∀ n, base ≤ n * pageSize →
    n * pageSize < base + request.length → k.Shows p n ∧
      (request.options.populate → (k.slotOf p).table.isMapped (n * pageSize))

/-- What comes of a request to map: a mapping that is filled if its pages were asked for, or no new
record. -/
structure Maps (pages : Nat) (p : Handle) (request : MappingRequest) (k : Kernel)
    (result : Except MappingError Nat) (k' : Kernel) : Prop extends Arranged pages p k k' where
  mappedAt : ∀ base, result = .ok base → k'.MappedAt p request base
  shows : ∀ n, k.Shows p n → k'.Shows p n
  mappings_eq : ∀ e, result = .error e → k'.mappings = k.mappings
  retains_or_flushes : k.Retains p k' ∨ k.Flushes k'

/-- A request that is refused changes nothing. -/
theorem Maps.refused (h : k.Accounted pages) (hlive : k.IsLive p) (e : MappingError) :
    k.Maps pages p request (.error e) k :=
  ⟨.refl h hlive, nofun, fun _ => id, fun _ _ => rfl, .inl (.refl p k)⟩

/-- A mapping that was withdrawn leaves no trace. -/
theorem Admits.maps_of_withdrawn (h : k.Admits p request r i) {e : MappingError}
    (hwithdrawn : k.Withdrawn pages p r k') : k.Maps pages p request (.error e) k' := by
  have hsize : (k'.slotOf p).size = (k.slotOf p).size := by
    rw [hwithdrawn.slot_eq]
    rfl
  refine ⟨hwithdrawn.toReworked.arranged_of_cleared hwithdrawn.mappings_eq hsize
    h.recordFor.inWindow (fun j r' hr' howner _ hc => h.not_covers hr' howner hc) ?_, nofun,
    fun n hshow => hshow.congr hwithdrawn.mappings_eq, fun _ _ => hwithdrawn.mappings_eq,
    .inr hwithdrawn.flushes⟩
  simpa only [Mapping.covers_iff] using hwithdrawn.lookup_eq

/-- A mapping that was made is there, beside those that were there before. -/
theorem Admits.maps_of_populated (h : k.Admits p request r i) (hk : k.Accounted pages)
    (hlive : k.IsLive p)
    (hpopulated : (k.withRecord i (some r)).Populated pages p r (.ok ()) k') :
    k.Maps pages p request (.ok r.base) k' := by
  have hfor := h.recordFor
  have hmappings := hpopulated.mappings_same
  have hrecord (j : Fin mappingLimit) : k'.record j = if i = j then some r else k.record j := by
    rw [record_congr hmappings, record_withRecord]
  have hretains : (k.withRecord i (some r)).Retains p k' := hpopulated.retains hpopulated.gains
  refine ⟨((h.reworked hk hlive).trans hpopulated.toReworked).arranged_of_added h.record_eq
    hmappings hfor.owner_eq hpopulated.size_eq hfor.inWindow
    (fun j r' hr' howner _ hc => h.not_covers hr' howner hc) hpopulated.gains, ?_, ?_, nofun,
    .inl hretains⟩
  · rintro _ ⟨⟩
    refine ⟨hfor.base_eq, fun n hlow hhigh => ?_⟩
    have hc : r.covers (n * pageSize) := Mapping.covers_iff.mpr ⟨hlow, hfor.length_eq ▸ hhigh⟩
    exact ⟨⟨i, r, (hrecord i).trans (if_pos rfl), hfor.owner_eq, hc⟩, fun hnow =>
      hpopulated.mapped rfl (hfor.options_eq ▸ hnow) n hc⟩
  · rintro n ⟨j, r', hr', howner, hc⟩
    have hij : i ≠ j := by
      rintro rfl
      rw [h.record_eq] at hr'
      cases hr'
    exact ⟨j, r', (hrecord j).trans ((if_neg hij).trans hr'), howner, hc⟩

/-- What is written to the console does not matter. -/
theorem Maps.print {result : Except MappingError Nat} (h : k.Maps pages p request result k')
    (console : List Line) : k.Maps pages p request result { k' with console } where
  toArranged := h.toArranged.congr rfl rfl rfl
  mappedAt := h.mappedAt
  shows := h.shows
  mappings_eq := h.mappings_eq
  retains_or_flushes := h.retains_or_flushes.imp_right fun hf => ⟨hf.calls_eq, hf.flushedAt_eq⟩

/-- A mapping that is made is filled, or it leaves no trace. -/
theorem Accounted.leads_map (h : k.Accounted pages) (hlive : k.IsLive p)
    (request : MappingRequest) :
    Leads k (map p request) (fun result k' => k.Maps pages p request result k')
      (fun c => c ≠ .foreignPage ∧ wordLimit ≤ request.offset + request.length) := by
  refine leads_map_of (fun e _ => .refused h hlive e) fun r i hadmits => ?_
  have hr := hadmits.recordFor.inWindow
  refine ((hadmits.reworked h hlive).accounted.leads_populate hlive hr).mono
    (fun result k₁ hpopulated => ⟨?_, ?_⟩) fun c ⟨_, n, hc, hfailed⟩ => ⟨?_, ?_⟩
  · rintro e rfl
    refine (hadmits.leads_withdraw h hlive hpopulated).imp ?_
    rintro _ k₂ ⟨rfl, hwithdrawn⟩
    exact hadmits.maps_of_withdrawn hwithdrawn
  · rintro rfl
    exact (hadmits.maps_of_populated h hlive hpopulated).print _
  · rintro rfl
    exact r.initialPage_ne_foreignPage _ hfailed
  · refine Nat.le_of_not_lt fun hfit => ?_
    rw [← hadmits.recordFor.offset_eq, ← hadmits.recordFor.length_eq] at hfit
    exact Mapping.OffsetsFit.initialPage_ne_error hfit hc c hfailed

end Kernel

end FairKernel
