import FairKernel.Proofs.Presentations

/-!
# Mappings that cannot be had

A process that is refused a mapping, or a page of one, has what it had before, and so has everybody
else, however many pages were installed until the attempt failed. A mapping is not refused for want
of anything but a sound request, a range without mappings, a record, pages and contents to fill them
with.

An attempt can fail late: the record is in the table and some pages are installed when the pool runs
dry or the file cannot be read. What was done is then taken back by unmapping the whole range, which
leaves the process as it was only because nothing of the window was mapped there before
(`Trim.intact_of_withdrawn`). The other way round, what it takes (`CanMap`) leaves no reason to fail
at any of these points (`CanMap.not_refuses`, `CanMap.not_populated_error`).
-/

namespace FairKernel

/-! ### What a page shows at first -/

/-- A page can be filled if its offset is a word from which the file can be read. -/
theorem Mapping.exists_initialPage {r : Mapping} {page : Nat} (h : ∀ file, r.file = some file →
    r.offset + (page - r.base) < wordLimit ∧ ¬ file.failsAt (r.offset + (page - r.base))) :
    ∃ contents, r.initialPage page = .ok (.ok contents) := by
  unfold initialPage
  cases hfile : r.file with
  | none => exact ⟨_, rfl⟩
  | some file =>
    obtain ⟨hword, hreads⟩ := h file hfile
    simp only [addWord_eq_ok.mpr ⟨hword, rfl⟩, bind, Except.bind, OpenFile.readAt?, if_neg hreads]
    exact ⟨_, rfl⟩

/-- Whether every page of a mapping can be filled. -/
def Mapping.IsFilled (r : Mapping) : Prop :=
  ∀ n, r.covers (n * pageSize) → ∃ page, r.initialPage (n * pageSize) = .ok (.ok page)

namespace Kernel

variable {pages : Nat} {k k' : Kernel} {p : Handle} {r : Mapping} {request : MappingRequest}

/-! ### Nothing happened -/

/-- A kernel in which nothing has happened to anybody, but for the order of the free pages, what
they contain, and empty tables within the page table of one process. -/
structure Intact (p : Handle) (k k' : Kernel) : Prop extends Apart p k k' where
  /-- What is in the slot of the process is as it was, its registers and descriptors included. -/
  slot_eq : k'.slotOf p = (k.slotOf p).withTable (k'.slotOf p).table
  lookup_eq : ∀ address,
    (k'.slotOf p).table.lookup address = (k.slotOf p).table.lookup address
  byte?_eq : ∀ x, x / pageSize < userPages → (k'.memory p).byte? x = (k.memory p).byte? x
  mappings_eq : k'.mappings = k.mappings
  free_perm : k'.pool.free.Perm k.pool.free
  standing_eq : k'.standing = k.standing

/-- Nothing has happened yet. -/
theorem Intact.refl (p : Handle) (k : Kernel) : k.Intact p k where
  toApart := .refl p k
  slot_eq := (Slot.withTable_self _).symm
  lookup_eq _ := rfl
  byte?_eq _ _ := rfl
  mappings_eq := rfl
  free_perm := .refl _
  standing_eq := rfl

/-- Work on the memory of a process whose table maps what it mapped takes no page from the pool. -/
theorem Reworked.intact (h : k.Reworked pages p k') (hk : k.Accounted pages)
    (hslot : k'.slotOf p = (k.slotOf p).withTable (k'.slotOf p).table)
    (hlookup : ∀ n, (k'.slotOf p).table.lookup (n * pageSize) =
      (k.slotOf p).table.lookup (n * pageSize))
    (hbytes : ∀ x, x / pageSize < userPages → (k'.memory p).byte? x = (k.memory p).byte? x)
    (hmappings : k'.mappings = k.mappings) (hstanding : k'.standing = k.standing) :
    k.Intact p k' where
  toApart := h.apart
  slot_eq := hslot
  lookup_eq address := by
    rw [← PageTable.lookup_pageDown, ← PageTable.lookup_pageDown (k.slotOf p).table]
    exact hlookup (address / pageSize)
  byte?_eq := hbytes
  mappings_eq := hmappings
  -- the same pages are free, since the process has the same pages
  free_perm := by
    obtain ⟨space, hspace⟩ := hk.space_of_handle
      ((isLive_congr hstanding p).mp h.isLive)
    have hspace' : (k'.slotOf p).space = some { space with table := (k'.slotOf p).table } :=
      (congrArg Slot.space hslot).trans (congrArg Slot.space (Slot.withTable_of_space hspace _))
    have hresidents : (k'.slotOf p).table.residents = space.table.residents :=
      Slot.table_of_space hspace ▸ PageTable.residents_congr fun n _ => hlookup n
    have hpages := h.apart.pages_add_free hk h.accounted
    rw [Slot.pages_of_space hspace, Slot.pages_of_space hspace', hresidents,
      add_right_inj] at hpages
    exact Multiset.coe_eq_coe.mp hpages
  standing_eq := hstanding

/-! ### Mapping -/

/-- What it takes to map: a request that is sound, a range without mappings of the process, a free
record, and, if all pages are asked for at once, free pages and contents for them. -/
structure CanMap (p : Handle) (request : MappingRequest) (file : Option OpenFile) (k : Kernel) :
    Prop where
  fit : IsFit request
  grants : k.Grants p request file
  apart : ∀ r ∈ k.mappingsOf p,
    ¬ r.meets (windowBase + request.address) (windowBase + request.address + request.length)
  record : k.freeRecord? ≠ none
  pages_le : request.options.populate → request.length / pageSize ≤ k.pool.freeCount
  readable : request.options.populate → ∀ source, file = some source → ∀ distance < request.length,
    distance % pageSize = 0 →
      request.offset + distance < wordLimit ∧ ¬ source.failsAt (request.offset + distance)

/-- What it takes to map makes a record for the request. -/
theorem CanMap.recordFor_eq {file : Option OpenFile} (h : k.CanMap p request file) :
    k.recordFor p request = .ok (recordOf p request file) :=
  recordFor_eq_ok_iff.mpr ⟨h.fit, file, h.grants, rfl⟩

/-- Who can map can fill every page of the mapping. -/
theorem CanMap.isFilled {file : Option OpenFile} (h : k.CanMap p request file)
    (hpopulate : request.options.populate) : (recordOf p request file).IsFilled := by
  intro n hc
  refine Mapping.exists_initialPage fun source hsource => ?_
  have hbase := (of_recordFor h.recordFor_eq).inWindow.base_mod
  have hin := Mapping.covers_iff.mp hc
  have hdistance : n * pageSize - (recordOf p request file).base < request.length :=
    Nat.sub_lt_left_of_lt_add hin.1 hin.2
  refine h.readable hpopulate source hsource _ hdistance (Nat.mod_eq_zero_of_dvd ?_)
  exact Nat.dvd_sub (Nat.dvd_mul_left pageSize n) (Nat.dvd_of_mod_eq_zero hbase)

/-- Who can map is not refused, and gets the record that was asked for. -/
theorem CanMap.not_refuses {file : Option OpenFile} (h : k.CanMap p request file)
    (e : MappingError) : ¬ k.Refuses p request e := by
  intro hrefuses
  have hrecord := h.recordFor_eq
  cases hrefuses with
  | unsound hnone =>
    rw [hrecord] at hnone
    cases hnone
  | overlap hmade hfound howner hmeets =>
    obtain rfl := Except.ok.inj (hrecord.symm.trans hmade)
    exact h.apart _ (mem_mappingsOf.mpr ⟨_, hfound, howner⟩) hmeets
  | full hnone => exact h.record hnone

/-- A mapping that could not be filled is removed again, with every page that it got. -/
theorem Trim.intact_of_withdrawn {i : Fin mappingLimit} (h : k.Trim pages) (hlive : k.IsLive p)
    (hadmits : k.Admits p request r i) (hwithdrawn : k.Withdrawn pages p r k')
    (hstanding : k'.standing = k.standing) : k.Intact p k' := by
  have hnone (n : Nat) (hc : r.covers (n * pageSize)) :=
    hadmits.lookup_eq_none (h.laidOut p hlive) hc
  refine hwithdrawn.toReworked.intact h.toAccounted hwithdrawn.slot_eq (fun n => ?_)
    (fun x hx => ?_) hwithdrawn.mappings_eq hstanding
  -- a page of the range is gone, and it was not there before
  · refine (hwithdrawn.lookup_eq n).trans ?_
    split
    · next hc => exact (hnone n hc).symm
    · rfl
  · refine (hwithdrawn.byte?_eq x hx).trans ?_
    split
    · next hc => exact (UserMemory.byte?_eq_none_iff.mpr (hnone (x / pageSize) hc)).symm
    · rfl

/-- A mapping that was made with all its pages could be filled. -/
theorem Trim.isFilled_of_populated {i : Fin mappingLimit} (h : k.Trim pages) (hlive : k.IsLive p)
    (hadmits : k.Admits p request r i) (hnow : r.options.populate)
    (hpopulated : (k.withRecord i (some r)).Populated pages p r (.ok ()) k') : r.IsFilled := by
  intro n hc
  refine hpopulated.exists_initialPage (hadmits.recordFor.inWindow.lt_userPages_of_covers hc)
    (fun hmapped => ?_) (hpopulated.mapped rfl hnow n hc)
  exact PageTable.not_isMapped_of_lookup (hadmits.lookup_eq_none (h.laidOut p hlive) hc) hmapped

/-- What it takes to map leaves no reason to fail. -/
theorem CanMap.not_populated_error {file : Option OpenFile} {i : Fin mappingLimit}
    {e : MappingError} (h : k.CanMap p request file) (hadmits : k.Admits p request r i) :
    ¬ (k.withRecord i (some r)).Populated pages p r (.error e) k' := by
  intro hpopulated
  obtain rfl := Except.ok.inj (h.recordFor_eq.symm.trans hadmits.recordFor_eq)
  -- either the pool has too few pages, or a page cannot be filled
  obtain ⟨hnow, ⟨-, hfew⟩ | ⟨n, hc, hfailed⟩⟩ := hpopulated.cause e rfl
  · exact absurd (h.pages_le hnow) (Nat.not_le.mpr hfew)
  · obtain ⟨page, hpage⟩ := h.isFilled hnow n hc
    rw [hpage] at hfailed
    cases hfailed

/-- A mapping is made, or nothing happened; it is made if there is what it takes, and if it is made
with all its pages they could all be filled. Only a sum of offsets makes the attempt panic. -/
theorem Trim.leads_map_intact (h : k.Trim pages) (hlive : k.IsLive p) (request : MappingRequest) :
    Leads k (map p request)
      (fun result k' => (∀ e, result = .error e → k'.standing = k.standing → k.Intact p k') ∧
        (∀ file, k.CanMap p request file → result = .ok (windowBase + request.address)) ∧
        ∀ r base, k.recordFor p request = .ok r → result = .ok base → r.options.populate →
          r.IsFilled)
      (fun c => ∃ r n, k.recordFor p request = .ok r ∧ r.options.populate ∧
        r.covers (n * pageSize) ∧ r.initialPage (n * pageSize) = .error c) := by
  refine leads_map_of (fun e hrefuses => ?_) fun r i hadmits => ?_
  · exact ⟨fun _ _ _ => .refl p k, fun _ hcan => absurd hrefuses (hcan.not_refuses e), nofun⟩
  have hr := hadmits.recordFor.inWindow
  refine ((hadmits.reworked h.toAccounted hlive).accounted.leads_populate hlive hr).mono
    (fun result k₁ hpopulated => ⟨?_, ?_⟩) fun c ⟨hnow, n, hc, hfailed⟩ =>
      ⟨r, n, hadmits.recordFor_eq, hnow, hc, hfailed⟩
  -- not all pages could be had, so the mapping is withdrawn
  · rintro e rfl
    refine (hadmits.leads_withdraw h.toAccounted hlive hpopulated).imp ?_
    rintro _ k₂ ⟨rfl, hwithdrawn⟩
    exact ⟨fun _ _ => h.intact_of_withdrawn hlive hadmits hwithdrawn,
      fun _ hcan => absurd hpopulated (hcan.not_populated_error hadmits), nofun⟩
  -- the mapping is made, with all pages if it was asked for them
  · rintro rfl
    refine ⟨nofun, fun _ _ => by rw [hadmits.recordFor.base_eq], fun r' _ hr' _ hnow => ?_⟩
    obtain rfl := Except.ok.inj (hadmits.recordFor_eq.symm.trans hr')
    exact h.isFilled_of_populated hlive hadmits hnow hpopulated

/-! ### Touching -/

/-- A page of a mapping is there, or nothing happened. -/
theorem Trim.leads_touch_intact (h : k.Trim pages) (hlive : k.IsLive p) (address : Nat)
    (access : Access) : Leads k (touch p address access)
      (fun result k' => ∀ e, result = .error e → k'.standing = k.standing → k.Intact p k')
      (fun c => ∃ r ∈ k.mappingsOf p, r.covers address ∧
        r.initialPage (pageDown address) = .error c) := by
  obtain ⟨space, hspace⟩ := h.space_of_handle hlive
  refine leads_touch_of hspace (fun _ _ _ _ => .refl p k) (fun _ _ _ _ _ _ _ _ _ => .refl p k)
    (fun _ _ _ _ _ _ _ => nofun) fun i r hr howner hcovers _ _ => ?_
  have hwindow := h.inWindow i r hr
  have h₁ : k.Tabled pages p
      { k with console := k.consoleAfter (.pageTouched p.pid access address) } :=
    (Tabled.refl h.toAccounted hlive).congr rfl rfl rfl
  have hn := hwindow.lt_userPages_of_covers (hwindow.covers_pageDown hcovers)
  refine (h₁.accounted.leads_installPage h₁.isLive r hn).mono
    (fun result k' hinstalled e he hstanding => ?_) fun c hc =>
      ⟨r, mem_mappingsOf.mpr ⟨i, hr, howner⟩, hcovers, hc⟩
  have h' := h₁.trans hinstalled.toTabled
  -- one page was asked for, and it is as it was
  have hlookup (m : Nat) : (k'.slotOf p).table.lookup (m * pageSize) =
      (k.slotOf p).table.lookup (m * pageSize) := by
    by_cases hm : m < userPages
    · obtain ⟨n, hin, hstuck⟩ := hinstalled.stuck e he
      rcases hinstalled.gains m hm with hsame | ⟨-, _, _, -, hin', -⟩
      · exact hsame
      · obtain rfl : m = n := by omega
        exact hstuck
    · exact h'.above m (Nat.le_of_not_lt hm)
  refine h'.toReworked.intact h.toAccounted h'.slot_eq hlookup (fun x hx => ?_) h'.mappings_same
    hstanding
  refine (hinstalled.fills x hx).resolve_right fun ⟨hnone, _, page, _, hsome⟩ => ?_
  have hnot : (k'.memory p).byte? x = none :=
    UserMemory.byte?_eq_none_iff.mpr ((hlookup (x / pageSize)).trans
      (UserMemory.byte?_eq_none_iff.mp hnone))
  rw [hnot] at hsome
  cases hsome

end Kernel

/-- **Mappings that cannot be had.** In every kernel that is reached, no live process that is
refused a mapping, or a page of one, nor anybody else has anything less or more than before; and a
live process gets every mapping for which there is what it takes. None of these calls panics unless
an offset in the file that a mapping shows is not a word. -/
theorem failed_mappings_traceless {pages : Nat} {boot k : Kernel} {past : List Transition}
    {p : Handle} (hboot : boot.Booted pages) (hrun : Run Call.Proper boot past k)
    (hp : k.IsLive p) :
    (∀ request e k', (Kernel.map p request).run k = .ok (.error e) k' → k.Intact p k') ∧
    (∀ address access e k', (Kernel.touch p address access).run k = .ok (.error e) k' →
      k.Intact p k') ∧
    (∀ request file, k.CanMap p request file →
      ∃ k', (Kernel.map p request).run k = .ok (.ok (windowBase + request.address)) k') ∧
    (∀ request, request.offset + request.length ≤ wordLimit →
      ∃ result k', (Kernel.map p request).run k = .ok result k') ∧
    ∀ address access, (∀ r ∈ k.mappingsOf p, r.covers address →
      r.offset + (pageDown address - r.base) < wordLimit) →
      ∃ result k', (Kernel.touch p address access).run k = .ok result k' := by
  have hk := hrun.trim hboot
  refine ⟨fun request e k' ran => ?_, fun address access e k' ran => ?_,
    fun request file hcan => ?_, fun request hfit => ?_, fun address access hfit => ?_⟩
  · have hstanding :=
      (Kernel.keeps_standing (Kernel.keeps_bearing (Kernel.map_keeps p request))).leads k
    exact ((hk.leads_map_intact hp request).of_run_ok ran).1 e rfl (hstanding.of_run_ok ran)
  · have hstanding :=
      (Kernel.keeps_standing (Kernel.keeps_bearing (Kernel.touch_keeps p address access))).leads k
    exact (hk.leads_touch_intact hp address access).of_run_ok ran e rfl (hstanding.of_run_ok ran)
  · have hmap := hk.leads_map_intact hp request
    cases ran : (Kernel.map p request).run k with
    | ok result k' =>
      obtain rfl := (hmap.of_run_ok ran).2.1 file hcan
      exact ⟨k', rfl⟩
    -- population has failed at a page of the record, which the promise to fill it excludes
    | error c k' =>
      obtain ⟨r, n, hrecord, hpopulate, hc, hfailed⟩ := hmap.of_run_error ran
      obtain rfl := Except.ok.inj (hcan.recordFor_eq.symm.trans hrecord)
      obtain ⟨page, hpage⟩ := hcan.isFilled hpopulate n hc
      rw [hpage] at hfailed
      cases hfailed
  · cases ran : (Kernel.map p request).run k with
    | ok result k' => exact ⟨result, k', rfl⟩
    | error c k' =>
      -- the offset of some page of the record has overflowed, though the whole record fits
      obtain ⟨r, n, hrecord, -, hc, hfailed⟩ := (hk.leads_map_intact hp request).of_run_error ran
      have hfor := Kernel.of_recordFor hrecord
      have hover := (Mapping.initialPage_eq_error_iff.mp hfailed).2.2
      have hin := Mapping.covers_iff.mp hc
      rw [hfor.offset_eq] at hover
      rw [hfor.length_eq] at hin
      omega
  · cases ran : (Kernel.touch p address access).run k with
    | ok result k' => exact ⟨result, k', rfl⟩
    | error c k' =>
      obtain ⟨r, hr, hc, hfailed⟩ := (hk.leads_touch_intact hp address access).of_run_error ran
      exact absurd (hfit r hr hc)
        (Nat.not_lt.mpr (Mapping.initialPage_eq_error_iff.mp hfailed).2.2)

/-- With two free pages the root process cannot have three pages at once, and it cannot touch what
it has not mapped; two pages it can have. -/
theorem failed_mappings_traceless_root : ∃ (boot k k₁ k₂ k₃ : Kernel) (past : List Transition)
    (e e' : MappingError), boot.Booted 4 ∧ Run Call.Proper boot past k ∧ k.IsLive .eldest ∧
    (Kernel.map .eldest ⟨0, 3 * pageSize, .readWrite, ⟨3⟩, noDescriptor, 0⟩).run k =
      .ok (.error e) k₁ ∧ k.Intact .eldest k₁ ∧
    (Kernel.touch .eldest windowBase .read).run k = .ok (.error e') k₂ ∧ k.Intact .eldest k₂ ∧
    k.CanMap .eldest ⟨0, 2 * pageSize, .readWrite, ⟨3⟩, noDescriptor, 0⟩ none ∧
    (Kernel.map .eldest ⟨0, 2 * pageSize, .readWrite, ⟨3⟩, noDescriptor, 0⟩).run k =
      .ok (.ok windowBase) k₃ := by
  obtain ⟨boot, past, k, hboot, hrun, hcheck⟩ := Run.of_rehearse Call.Proper 4
    [.startRoot [], .dispatch 0]
    (fun _ k => k.mappingsOf .eldest == [] && (k.freeRecord?.isSome && (k.pool.freeCount == 2 &&
      (Run.admits Call.Proper k (.map .eldest ⟨0, 3 * pageSize, .readWrite, ⟨3⟩, noDescriptor, 0⟩)
        (fun answer _ => !Except.isOk answer) &&
      Run.admits Call.Proper k (.touch .eldest windowBase .read)
        fun answer _ => !Except.isOk answer))))
    (by decide +kernel)
  obtain ⟨hnone, hcheck⟩ := Bool.and_eq_true_iff.mp hcheck
  obtain ⟨hrecord, hcheck⟩ := Bool.and_eq_true_iff.mp hcheck
  obtain ⟨hfree, hcheck⟩ := Bool.and_eq_true_iff.mp hcheck
  obtain ⟨hmap, htouch⟩ := Bool.and_eq_true_iff.mp hcheck
  obtain ⟨hproper, answer, k₁, hmap, hfailed⟩ := Run.of_admits hmap
  obtain ⟨-, answer', k₂, htouch, hfailed'⟩ := Run.of_admits htouch
  have hlive : k.IsLive .eldest := hproper.1 .eldest rfl
  obtain ⟨hmaps, htouches, hcan, -⟩ := failed_mappings_traceless hboot hrun hlive
  have hroom : k.CanMap .eldest ⟨0, 2 * pageSize, .readWrite, ⟨3⟩, noDescriptor, 0⟩ none := by
    refine ⟨⟨by decide, by decide, by decide, by decide, .inr rfl⟩, ⟨by decide, rfl, rfl⟩, ?_,
      Option.isSome_iff_ne_none.mp hrecord, fun _ => ?_, nofun⟩
    · rw [beq_iff_eq.mp hnone]
      exact List.forall_mem_nil _
    · rw [beq_iff_eq.mp hfree]
      decide
  obtain ⟨k₃, hmade⟩ := hcan _ none hroom
  cases answer with
  | ok base => cases hfailed
  | error e =>
    cases answer' with
    | ok u => cases hfailed'
    | error e' =>
      exact ⟨boot, k, k₁, k₂, k₃, past, e, e', hboot, hrun, hlive, hmap,
        hmaps ⟨0, 3 * pageSize, .readWrite, ⟨3⟩, noDescriptor, 0⟩ e k₁ hmap, htouch,
        htouches windowBase .read e' k₂ htouch, hroom, hmade⟩

end FairKernel
