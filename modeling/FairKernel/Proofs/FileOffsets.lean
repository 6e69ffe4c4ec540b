import FairKernel.Proofs.FailedMappings
import FairKernel.Proofs.PrefixRemovals

/-!
# Offsets in files

A mapping of a file shows, at a distance from its base, what the file holds at that distance from
its offset. A request is accepted whatever its offset is, and the sum is made only when a page is
filled or when the first pages of the mapping are removed. It overflows exactly for mappings that
reach past the last offset that is a word; how far a mapping reaches is settled when it is made, and
neither removals nor forks change it.

So every record is traced back to the request that made it (`Mapping.GoesBackTo`,
`Run.exists_accepted`), and a sum that is too large is traced to a request that reaches too far.
That such a sum is a panic, and no error that is answered, is shown for removals and for touches
(`Trim.leads_unmap_overflow`, `Trim.leads_touch_overflow`).
-/

namespace FairKernel

open Kernel

/-! ### Where records come from -/

/-- Whether a request was accepted in a run. -/
def Accepted (past : List Transition) (request : MappingRequest) : Prop :=
  ∃ (before after : Kernel) (p : Handle) (base : Nat),
    (⟨before, .map p request, (.ok base : Except MappingError Nat), after⟩ : Transition) ∈ past

/-- Whether an address lies in the range that a request names. -/
def MappingRequest.Spans (request : MappingRequest) (address : Nat) : Prop :=
  windowBase + request.address ≤ address ∧ address < windowBase + request.address + request.length

/-- What is left of the mapping for a request: it ends where that ended, at the same offset. -/
structure Mapping.GoesBackTo (r : Mapping) (request : MappingRequest) : Prop where
  base_le : windowBase + request.address ≤ r.base
  stop_eq : r.stop = windowBase + request.address + request.length
  lastOffset_eq : r.offset + r.length = request.offset + request.length

namespace Mapping

variable {r r' : Mapping} {request : MappingRequest}

/-- What is left of a mapping goes back to its request. -/
theorem GoesBackTo.dropFirst (h : r.GoesBackTo request) {length : Nat} (hle : length ≤ r.length)
    (hdrop : r.dropFirst length = .ok (some r')) : r'.GoesBackTo request := by
  have hbase := h.base_le
  have hstop := h.stop_eq
  have hlast := h.lastOffset_eq
  have heq := eq_of_dropFirst hdrop
  subst heq
  unfold stop at hstop
  refine ⟨?_, ?_, ?_⟩
  · exact Nat.le_add_right_of_le hbase
  · unfold stop
    dsimp only
    omega
  · dsimp only
    omega

/-- A child's mapping goes back to the request of its parent. -/
theorem GoesBackTo.withOwner (h : r.GoesBackTo request) (p : Handle) :
    Mapping.GoesBackTo { r with owner := p } request := ⟨h.base_le, h.stop_eq, h.lastOffset_eq⟩

/-- What a mapping covers lies in the range of its request. -/
theorem GoesBackTo.spans (h : r.GoesBackTo request) {address : Nat} (hc : r.covers address) :
    request.Spans address := by
  have hin := covers_iff.mp hc
  have hstop := h.stop_eq
  have hbase := h.base_le
  unfold stop at hstop
  unfold MappingRequest.Spans
  omega

/-- A record for a request goes back to it. -/
theorem goesBackTo_of_recordFor {k : Kernel} {p : Handle} (h : k.recordFor p request = .ok r) :
    r.GoesBackTo request := by
  have hfor := of_recordFor h
  refine ⟨hfor.base_eq.ge, ?_, ?_⟩
  · rw [stop, hfor.base_eq, hfor.length_eq]
  · rw [hfor.offset_eq, hfor.length_eq]

end Mapping

/-- What was accepted before was accepted. -/
theorem Accepted.cons {past : List Transition} {request : MappingRequest}
    (h : Accepted past request) (t : Transition) : Accepted (t :: past) request := by
  obtain ⟨before, after, p, base, hmem⟩ := h
  exact ⟨before, after, p, base, List.mem_cons_of_mem t hmem⟩

/-- **Origins.** Every record goes back to a request that was accepted. -/
theorem Run.exists_accepted {pages : Nat} {boot k : Kernel} {past : List Transition}
    (hrun : Run Call.ThroughLive boot past k) (hboot : boot.Booted pages) :
    ∀ (j : Fin mappingLimit) r, k.record j = some r →
      ∃ request, Accepted past request ∧ r.GoesBackTo request := by
  induction hrun with
  | refl =>
    intro j r hr
    rw [hboot.record_eq] at hr
    cases hr
  | @call past k k' c a earlier allowed ran ih =>
    have hk := earlier.kempt hboot.kempt
    have hold (j : Fin mappingLimit) (r : Mapping) (hr : k.record j = some r) :
        ∃ request, Accepted (⟨k, c, a, k'⟩ :: past) request ∧ r.GoesBackTo request := by
      obtain ⟨request, haccepted, hback⟩ := ih j r hr
      exact ⟨request, haccepted.cons _, hback⟩
    -- most calls change no record
    by_cases hsame : k'.mappings = k.mappings
    · exact fun j r hr => hold j r (record_congr hsame j ▸ hr)
    refine ((hk.leads_redrawn allowed).of_run_ok ran).forall_record hold
      (fun p request r hcall hmade => ?_) (fun r length r' ⟨request, haccepted, hback⟩ hle hdrop =>
        ⟨request, haccepted, hback.dropFirst hle hdrop⟩)
      fun r p ⟨request, haccepted, hback⟩ => ⟨request, haccepted, hback.withOwner p⟩
    subst hcall
    refine ⟨request, ?_, Mapping.goesBackTo_of_recordFor hmade⟩
    have hmap := (hk.toAccounted.leads_map (allowed p rfl) request).of_run_ok ran
    -- a request that was refused leaves no record, so this one was accepted
    cases a with
    | ok base => exact ⟨k, k', p, base, List.mem_cons_self⟩
    | error e => exact absurd (hmap.mappings_eq e rfl) hsame

/-! ### Sums that overflow -/

namespace Kernel

variable {pages : Nat} {k : Kernel} {p : Handle} {r : Mapping}

/-- A mapping of a file that can be filled does not reach past the last offset that is a word. -/
theorem lastOffset_le_of_isFilled {request : MappingRequest} (hr : k.recordFor p request = .ok r)
    (hfile : ¬ request.options.anonymous) (hfilled : r.IsFilled) :
    request.offset + request.length ≤ wordLimit := by
  obtain ⟨hfit, file, hgrants, heq⟩ := recordFor_eq_ok_iff.mp hr
  have hwindow := (of_recordFor hr).inWindow
  cases file with
  | none => exact absurd hgrants.1 hfile
  | some source =>
    have hoffset := hgrants.2.2.2.2
    have hlength := hfit.length_mod
    have hpos := hfit.length_pos
    -- the last page is the one to look at
    set last := r.firstPage + (r.pageCount - 1) with hlast
    have hcount : 0 < r.pageCount := by
      subst heq
      exact Nat.div_pos (Nat.le_of_dvd hpos (Nat.dvd_of_mod_eq_zero hlength)) (by decide)
    have hc : r.covers (last * pageSize) := (hwindow.covers_page last).mpr (by omega)
    obtain ⟨page, hpage⟩ := hfilled last hc
    -- if that page had no offset it could not be filled
    have hword : r.offset + (last * pageSize - r.base) < wordLimit := by
      by_contra hover
      rw [Mapping.initialPage_eq_error_iff.mpr
        ⟨rfl, heq ▸ Option.some_ne_none source, Nat.le_of_not_lt hover⟩] at hpage
      cases hpage
    have hdistance : last * pageSize - r.base = r.length - pageSize := by
      rw [hwindow.base_eq, hwindow.length_eq, hlast, Nat.add_mul, Nat.add_sub_cancel_left,
        Nat.sub_mul, Nat.one_mul]
    rw [hdistance] at hword
    -- the last page ends a page after its offset, and offset and length are whole pages
    have hoffset' : r.offset = request.offset := heq ▸ rfl
    have hlength' : r.length = request.length := heq ▸ rfl
    rw [hoffset', hlength'] at hword
    unfold wordLimit at hword ⊢
    unfold pageSize at hword hoffset hlength
    omega

/-- The first bytes of a mapping cannot be removed if the next offset is not a word. -/
theorem Trim.leads_unmap_overflow (h : k.Trim pages) (hr : r ∈ k.mappingsOf p) {length : Nat}
    (hpos : 0 < length) (hmod : length % pageSize = 0) (hlt : length < r.length)
    (hover : wordLimit ≤ r.offset + length) :
    Leads k (unmap p r.base length) (fun _ _ => False) (· = .addOverflow) := by
  obtain ⟨j, hj, howner⟩ := mem_mappingsOf.mp hr
  have hwindow := h.inWindow j r hj
  refine leads_unmap_of (fun e hrefuses => ?_) (fun _ _ _ c hc => ?_)
    fun i r' hstarts rest hdrop => ?_
  -- a removal of a proper prefix of the record is not refused
  · cases hrefuses with
    | empty hzero => exact hpos.ne' hzero
    | misaligned _ hnot => exact hnot.elim (· hwindow.base_mod) (· hmod)
    | outside _ hout =>
      have hstop := hwindow.stop_le
      unfold Mapping.stop at hstop
      exact hout.elim (Nat.not_lt.mpr hwindow.windowBase_le) fun hout => by omega
    | unmatched _ hnone => exact hnone j r hj howner rfl
    | short _ hr' howner' hbase hlt' =>
      obtain rfl := h.eq_of_base_eq hr' hj (howner.trans howner'.symm) hbase.symm
      obtain rfl := Option.some.inj (hr'.symm.trans hj)
      exact absurd hlt' (Nat.not_lt.mpr hlt.le)
  -- the only sum is that of the offset and the length
  · exact (Mapping.dropFirst_eq_error_iff.mp hc).1
  -- the record would be shortened, but its offset would be no word
  · obtain rfl := h.eq_of_base_eq hstarts.record_eq hj (howner.trans hstarts.owner_eq.symm)
      hstarts.base_eq.symm
    obtain rfl := Option.some.inj (hstarts.record_eq.symm.trans hj)
    rw [Mapping.dropFirst_eq_error_iff.mpr ⟨rfl, hlt.ne, hover⟩] at hdrop
    cases hdrop

/-- A page of a mapping cannot be filled if its offset is not a word. -/
theorem Trim.leads_touch_overflow (h : k.Trim pages) (hlive : k.IsLive p) (hr : r ∈ k.mappingsOf p)
    {address : Nat} {access : Access} (hc : r.covers address)
    (hallowed : access = .write → r.protection.allowsWrite)
    (hmapped : ¬ (k.slotOf p).table.isMapped (pageDown address)) (hfree : k.pool.free ≠ [])
    (hfile : r.file ≠ none) (hover : wordLimit ≤ r.offset + (pageDown address - r.base)) :
    Leads k (touch p address access) (fun _ _ => False) (· = .addOverflow) := by
  obtain ⟨j, hj, howner⟩ := mem_mappingsOf.mp hr
  obtain ⟨space, hspace⟩ := h.space_of_handle hlive
  -- no other record covers the address
  have same {i : Fin mappingLimit} {r' : Mapping} (hr' : k.record i = some r')
      (howner' : r'.owner = p) (hc' : r'.covers address) : r' = r := by
    obtain rfl := h.eq_of_covers hr' hj (howner.trans howner'.symm) hc' hc
    exact Option.some.inj (hr'.symm.trans hj)
  refine leads_touch_of hspace (fun hnone => hnone j r hj howner hc)
    (fun i r' hr' howner' hc' ⟨hwrite, hno⟩ => ?_) (fun _ _ _ _ _ _ => hmapped)
    fun i r' hr' howner' hc' _ _ => ?_
  -- the touch is not a write that the mapping does not allow
  · rw [same hr' howner' hc', hallowed hwrite] at hno
    cases hno
  obtain rfl := same hr' howner' hc'
  unfold installPage
  simp only [leads_bind, leads_get]
  -- the page is taken from the pool before it is filled, and the pool is not empty
  split
  · next hdry => exact hfree (Pool.alloc_eq_none_iff.mp hdry)
  simp only [leads_bind, leads_modify]
  refine leads_liftM.mpr ⟨fun filled hfilled => ?_, fun c hc =>
    (Mapping.initialPage_eq_error_iff.mp hc).1⟩
  rw [Mapping.initialPage_eq_error_iff.mpr ⟨rfl, hfile, hover⟩] at hfilled
  cases hfilled

end Kernel

/-- **Offsets.** In every kernel that is reached, no mapping reaches past the last address. Work of
a live process on its mappings panics only because an offset is no word: when a mapping that reaches
past the last offset is to be filled at once, when a page is touched in the range of a request that
was accepted although it does, and when a piece is removed there; so a mapping of a file that was
filled at once does not reach that far. A fork makes no such sum at all. And an offset that is no
word does make every removal and every touch panic that needs it. -/
theorem offsets_overflow_past_words {pages : Nat} {boot k : Kernel} {past : List Transition}
    {p : Handle} (hboot : boot.Booted pages) (hrun : Run Call.Proper boot past k)
    (hp : k.IsLive p) :
    (∀ (j : Fin mappingLimit) r, k.record j = some r → r.stop < wordLimit) ∧
    (∀ request c k', (Kernel.map p request).run k = .error c k' →
      c = .addOverflow ∧ request.options.populate ∧ wordLimit < request.offset + request.length) ∧
    (∀ request base k', (Kernel.map p request).run k = .ok (.ok base) k' →
      request.options.populate → ¬ request.options.anonymous →
        request.offset + request.length ≤ wordLimit) ∧
    (∀ address access c k', (Kernel.touch p address access).run k = .error c k' →
      c = .addOverflow ∧ ∃ request, Accepted past request ∧ request.Spans address ∧
        wordLimit < request.offset + request.length) ∧
    (∀ address length c k', (Kernel.unmap p address length).run k = .error c k' →
      c = .addOverflow ∧ ∃ request, Accepted past request ∧ request.Spans address ∧
        wordLimit < request.offset + request.length) ∧
    (∀ c k', (Kernel.fork p).run k = .error c k' →
      k.nextPid = maxPid ∨ ∀ e, (k.slotOf p).entity.forked ≠ .ok e) ∧
    ∀ r ∈ k.mappingsOf p,
      (∀ length, 0 < length → length % pageSize = 0 → length < r.length →
        wordLimit ≤ r.offset + length →
          ∃ k', (Kernel.unmap p r.base length).run k = .error .addOverflow k') ∧
      ∀ address access, r.covers address → (access = .write → r.protection.allowsWrite) →
        ¬ (k.slotOf p).table.isMapped (pageDown address) → k.pool.free ≠ [] → r.file ≠ none →
        wordLimit ≤ r.offset + (pageDown address - r.base) →
          ∃ k', (Kernel.touch p address access).run k = .error .addOverflow k' := by
  have hk := hrun.trim hboot
  have horigin (r : Mapping) (hr : r ∈ k.mappingsOf p) :
      ∃ request, Accepted past request ∧ r.GoesBackTo request := by
    obtain ⟨j, hj, -⟩ := mem_mappingsOf.mp hr
    exact hrun.throughLive.exists_accepted hboot j r hj
  -- whatever reaches too far goes back to a request that does
  have reached {x : Nat} {r : Mapping} (hr : r ∈ k.mappingsOf p) (hc : r.covers x)
      (hover : wordLimit < r.offset + r.length) : ∃ request, Accepted past request ∧
        request.Spans x ∧ wordLimit < request.offset + request.length := by
    obtain ⟨request, haccepted, hback⟩ := horigin r hr
    exact ⟨request, haccepted, hback.spans hc, hback.lastOffset_eq ▸ hover⟩
  refine ⟨fun j r hr => ?_, fun request c k' ran => ?_,
    fun request base k' ran hpopulate hfile => ?_, fun address access c k' ran => ?_,
    fun address length c k' ran => ?_, fun c k' ran => ?_,
    fun r hr => ⟨fun length hpos hmod hlt hover => ?_,
      fun address access hc hallowed hmapped hfree hfile hover => ?_⟩⟩
  -- the window ends far below the last word
  · exact (hk.inWindow j r hr).stop_le.trans_lt (by decide)
  · obtain ⟨r, n, hrecord, hpopulate, hc, hfailed⟩ :=
      (hk.leads_map_intact hp request).of_run_error ran
    obtain ⟨hcause, -, hover⟩ := Mapping.initialPage_eq_error_iff.mp hfailed
    have hfor := of_recordFor hrecord
    have hin := Mapping.covers_iff.mp hc
    rw [hfor.offset_eq] at hover
    rw [hfor.length_eq] at hin
    exact ⟨hcause, hfor.options_eq ▸ hpopulate, by omega⟩
  -- all pages were filled, and so the last one
  · obtain ⟨-, -, hfilled⟩ := (hk.leads_map_intact hp request).of_run_ok ran
    cases hrecord : k.recordFor p request with
    | error e => cases (leads_map_of_refused hrecord).of_run_ok ran
    | ok r =>
      refine lastOffset_le_of_isFilled hrecord hfile (hfilled r base hrecord rfl ?_)
      rwa [(of_recordFor hrecord).options_eq]
  · obtain ⟨r, hr, hc, hfailed⟩ := (hk.leads_touch_intact hp address access).of_run_error ran
    obtain ⟨hcause, -, hover⟩ := Mapping.initialPage_eq_error_iff.mp hfailed
    obtain ⟨j, hj, -⟩ := mem_mappingsOf.mp hr
    have hin := Mapping.covers_iff.mp ((hk.inWindow j r hj).covers_pageDown hc)
    exact ⟨hcause, reached hr hc (by omega)⟩
  · obtain ⟨hcause, r, hr, rfl, hlt, hover⟩ :=
      (hk.leads_unmap_exact hp address length).of_run_error ran
    have hc : r.covers r.base := Mapping.covers_iff.mpr (by omega)
    exact ⟨hcause, reached hr hc (by omega)⟩
  · have hverdict := (hk.leads_fork hp).of_run_error ran
    by_cases hmax : k.nextPid = maxPid
    · exact .inl hmax
    · exact .inr ((of_forkVerdict_eq_error hverdict).2 hmax)
  -- and a sum that overflows does make the call panic
  · obtain ⟨c, k', ran, rfl⟩ := (hk.leads_unmap_overflow hr hpos hmod hlt hover).exists_run_error
    exact ⟨k', ran⟩
  · obtain ⟨c, k', ran, rfl⟩ :=
      (hk.leads_touch_overflow hp hr hc hallowed hmapped hfree hfile hover).exists_run_error
    exact ⟨k', ran⟩

/-- Whether a call panics for a reason. -/
def Call.panics (c : Call) (cause : Panic) (k : Kernel) : Bool :=
  match c.run.run k with
  | .error cause' _ => cause' == cause
  | .ok _ _ => false

/-- What a call panics for can be found by trying. -/
theorem Call.exists_of_panics {c : Call} {cause : Panic} {k : Kernel} (h : c.panics cause k) :
    ∃ k', c.run.run k = .error cause k' := by
  unfold panics at h
  split at h
  · next hran => exact ⟨_, beq_iff_eq.mp h ▸ hran⟩
  · cases h

/-- A file without contents that may be read. -/
def OpenFile.blank : OpenFile := { identity := 0, readable := true, writable := false, data := [] }

/-- Two pages of a file from the last page on whose offset is a word. -/
def MappingRequest.pastWords : MappingRequest where
  address := 0
  length := 2 * pageSize
  protection := .readOnly
  options := ⟨0⟩
  descriptor := 0
  offset := wordLimit - pageSize

/-- The root process maps two pages of a file, of which only the first one has an offset. It panics
when it touches the second one, and the panic goes back to the request. -/
theorem offsets_overflow_past_words_file : ∃ (boot k k' : Kernel) (past : List Transition)
    (c : Panic), boot.Booted 8 ∧ Run Call.Proper boot past k ∧ k.IsLive .eldest ∧
    (Kernel.touch .eldest (windowBase + pageSize) .read).run k = .error c k' ∧ c = .addOverflow ∧
    ∃ request, Accepted past request ∧ request.Spans (windowBase + pageSize) ∧
      wordLimit < request.offset + request.length := by
  obtain ⟨boot, past, k, hboot, hrun, hcheck⟩ := Run.of_rehearse Call.Proper 8
    [.startRoot [], .dispatch 0, .openFile .eldest .blank, .map .eldest .pastWords]
    (fun _ k => decide (k.IsLive .eldest) &&
      Call.panics (.touch .eldest (windowBase + pageSize) .read) .addOverflow k)
    (by decide +kernel)
  obtain ⟨hlive, htouch⟩ := Bool.and_eq_true_iff.mp hcheck
  have hlive : k.IsLive .eldest := of_decide_eq_true hlive
  obtain ⟨k', ran⟩ := Call.exists_of_panics htouch
  obtain ⟨-, -, -, htouches, -⟩ := offsets_overflow_past_words hboot hrun hlive
  exact ⟨boot, k, k', past, .addOverflow, hboot, hrun, hlive, ran,
    htouches (windowBase + pageSize) .read .addOverflow k' ran⟩

/-- A mapping of two pages of a file is accepted, although its second page has no offset: touching
that page panics, and so does removing the first one. Asked for with all its pages, the mapping
panics at once. -/
theorem accepted_mapping_overflows : ∃ (boot k k₁ : Kernel) (past : List Transition),
    boot.Booted 8 ∧ Run Call.Proper boot past k ∧ k.IsLive .eldest ∧
    MappingRequest.pastWords.offset < wordLimit ∧
    (Kernel.map .eldest .pastWords).run k = .ok (.ok windowBase) k₁ ∧
    (∃ k₂, (Kernel.touch .eldest (windowBase + pageSize) .read).run k₁ = .error .addOverflow k₂) ∧
    (∃ k₂, (Kernel.unmap .eldest windowBase pageSize).run k₁ = .error .addOverflow k₂) ∧
    ∃ k₂, (Kernel.map .eldest { MappingRequest.pastWords with options := ⟨2⟩ }).run k =
      .error .addOverflow k₂ := by
  obtain ⟨boot, past, k, hboot, hrun, hcheck⟩ := Run.of_rehearse Call.Proper 8
    [.startRoot [], .dispatch 0, .openFile .eldest .blank]
    (fun _ k => Run.admits Call.Proper k (.map .eldest .pastWords)
        (fun (answer : Except MappingError Nat) k₁ => answer.toOption == some windowBase &&
          (Call.panics (.touch .eldest (windowBase + pageSize) .read) .addOverflow k₁ &&
            Call.panics (.unmap .eldest windowBase pageSize) .addOverflow k₁)) &&
      Call.panics (.map .eldest { MappingRequest.pastWords with options := ⟨2⟩ }) .addOverflow k)
    (by decide +kernel)
  obtain ⟨hmap, hpopulate⟩ := Bool.and_eq_true_iff.mp hcheck
  obtain ⟨hproper, answer, k₁, ran, hcheck⟩ := Run.of_admits hmap
  obtain ⟨hanswer, hcheck⟩ := Bool.and_eq_true_iff.mp hcheck
  obtain ⟨htouch, hunmap⟩ := Bool.and_eq_true_iff.mp hcheck
  obtain rfl := eq_ok_of_toOption (beq_iff_eq.mp hanswer)
  exact ⟨boot, k, k₁, past, hboot, hrun, hproper.1 .eldest rfl, by decide, ran,
    Call.exists_of_panics htouch, Call.exists_of_panics hunmap, Call.exists_of_panics hpopulate⟩

end FairKernel
