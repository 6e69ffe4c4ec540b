import FairKernel.Proofs.Isolation
import FairKernel.Proofs.Oblivious

/-!
# The mapping table

Every record of the mapping table is sound in itself: it stands for whole pages of the window, and
for a file that may be used as the record says. No address lies in two records of one process. A
call leaves the table as it is, adds one record where nothing of its owner lies, drops the first
bytes of one, or copies those of a parent for its child; each of these keeps the table in order.

That there is no other way to change the table (`Redrawn`) is shown once for all calls
(`Kempt.leads_redrawn`), most of which do not look at it. Whatever is to be kept by every call is
then shown for the four ways: order (`Redrawn.charted`), and any property that made, shortened and
copied records have (`Redrawn.forall_record`).
-/

namespace FairKernel

/-! ### Records -/

namespace Mapping

variable {r r' : Mapping}

/-- What is true of every record in the table. -/
structure IsSound (r : Mapping) : Prop extends InWindow r where
  length_pos : 0 < r.length
  offset_mod : r.offset % pageSize = 0
  protection_eq : r.protection = .readOnly ∨ r.protection = .readWrite
  file_eq_none_iff : r.file = none ↔ r.options.anonymous
  readable : ∀ file, r.file = some file → file.readable
  writable : ∀ file, r.file = some file → r.protection.allowsWrite → file.writable

/-- Nothing of this depends on the owner. -/
theorem IsSound.withOwner (h : r.IsSound) (p : Handle) : IsSound { r with owner := p } :=
  { h with
    base_mod := h.base_mod, length_mod := h.length_mod, windowBase_le := h.windowBase_le
    stop_le := h.stop_le }

/-- What is left of a sound record is sound. -/
theorem IsSound.dropFirst (h : r.IsSound) {length : Nat} (hle : length ≤ r.length)
    (hlength : length % pageSize = 0) (hrest : r.dropFirst length = .ok (some r')) :
    r'.IsSound := by
  have hwindow := (h.shortened hle hlength hrest).inWindow r' rfl
  unfold Mapping.dropFirst at hrest
  split at hrest
  · cases hrest
  next hne =>
  obtain ⟨offset, hoffset, heq⟩ := bind_eq_ok.mp hrest
  cases heq
  -- what is dropped is whole pages, so the offset in the file stays one of a page
  have hmod := h.offset_mod
  refine { h with
    toInWindow := hwindow
    length_pos := Nat.sub_pos_of_lt (Nat.lt_of_le_of_ne hle hne), offset_mod := ?_ }
  obtain rfl : r.offset + length = offset := by
    unfold addWord at hoffset
    split at hoffset
    · exact Except.ok.inj hoffset
    · cases hoffset
  exact (Nat.add_mod ..).trans (by rw [hmod, hlength]; rfl)

/-- Two ranges with no address in common. -/
theorem stop_le_or_le_of_avoids (h : r.Avoids r') (hpos : 0 < r.length) (hpos' : 0 < r'.length) :
    r.stop ≤ r'.base ∨ r'.stop ≤ r.base := by
  by_contra hmeet
  -- the higher one of the two first addresses would lie in both
  refine h (max r.base r'.base) (covers_iff.mpr ?_) (covers_iff.mpr ?_) <;>
  · unfold stop at hmeet
    omega

end Mapping

namespace Kernel

variable {pages : Nat} {k k' : Kernel} {p : Handle} {r : Mapping}

/-- A record that is made for a request is sound. -/
theorem isSound_of_recordFor {request : MappingRequest} (h : k.recordFor p request = .ok r) :
    r.IsSound := by
  have hwindow := (of_recordFor h).inWindow
  obtain ⟨hfit, file, hgrants, rfl⟩ := recordFor_eq_ok_iff.mp h
  cases file with
  -- without a file the request is an anonymous one
  | none =>
    obtain ⟨hanonymous, -, hoffset⟩ := hgrants
    refine ⟨hwindow, hfit.length_pos, ?_, hfit.protection, iff_of_true rfl hanonymous, nofun, nofun⟩
    exact (congrArg (· % pageSize) hoffset).trans (Nat.zero_mod pageSize)
  -- with a file the request says so, and asks for no more than the file allows
  | some file =>
    obtain ⟨hnamed, -, hwrite, hread, hoffset⟩ := hgrants
    refine ⟨hwindow, hfit.length_pos, hoffset, hfit.protection, iff_of_false nofun hnamed, ?_, ?_⟩
    · rintro _ ⟨⟩
      -- there is no protection under which the pages cannot be read
      exact hread (by rcases hfit.protection with heq | heq <;> rw [heq] <;> rfl)
    · rintro _ ⟨⟩
      exact hwrite

/-! ### Tables in order -/

/-- A mapping table in order. -/
structure Charted (k : Kernel) : Prop where
  sound : ∀ (j : Fin mappingLimit) r, k.record j = some r → r.IsSound
  avoids : ∀ p, (k.mappingsOf p).Pairwise Mapping.Avoids

/-- How one call may change the mapping table. -/
inductive Redrawn (k : Kernel) (c : Call) (k' : Kernel) : Prop
  | same (eq : k'.mappings = k.mappings)
  | added (i : Fin mappingLimit) (p : Handle) (request : MappingRequest) (r : Mapping)
      (call : c = .map p request) (made : k.recordFor p request = .ok r) (free : k.record i = none)
      (apart : ∀ (j : Fin mappingLimit) r', k.record j = some r' → r'.owner = r.owner →
        r.Avoids r')
      (eq : k'.mappings = (k.withRecord i (some r)).mappings)
  | shortened (i : Fin mappingLimit) (r : Mapping) (address length : Nat) (rest : Option Mapping)
      (call : c = .unmap r.owner address length) (found : k.record i = some r)
      (length_le : length ≤ r.length)
      (length_mod : length % pageSize = 0) (drop : r.dropFirst length = .ok rest)
      (eq : k'.mappings = (k.withRecord i rest).mappings)
  | inherited (parent child : Handle) (dead : ¬ (k.slotOf child).isLive)
      (others : ∀ (j : Fin mappingLimit) r, r.owner ≠ child →
        (k'.record j = some r ↔ k.record j = some r))
      (eq : k'.mappingsOf child = (k.mappingsOf parent).map fun r => { r with owner := child })

/-- Order is a matter of the table only. -/
theorem Charted.congr (h : k.Charted) (hmappings : k'.mappings = k.mappings) : k'.Charted where
  sound j r hr := h.sound j r (record_congr hmappings j ▸ hr)
  avoids p := by
    rw [mappingsOf_congr hmappings]
    exact h.avoids p

/-- Two records of one process in which an address lies are the same one. -/
theorem Charted.eq_of_covers (h : k.Charted) {i j : Fin mappingLimit} {r r' : Mapping}
    (hr : k.record i = some r) (hr' : k.record j = some r') (howner : r'.owner = r.owner)
    {address : Nat} (hc : r.covers address) (hc' : r'.covers address) : i = j :=
  pairwise_mappingsOf.mp (h.avoids r.owner) i j r r' hr hr' rfl howner address hc hc'

/-- A record is put into the table that lies apart from all others of its owner. -/
theorem Charted.withRecord (h : k.Charted) (i : Fin mappingLimit) (record : Option Mapping)
    (hsound : ∀ r, record = some r → r.IsSound)
    (hapart : ∀ r, record = some r → ∀ (j : Fin mappingLimit) r', j ≠ i → k.record j = some r' →
      r'.owner = r.owner → r.Avoids r') : (k.withRecord i record).Charted where
  sound j r hr := by
    rw [record_withRecord] at hr
    split at hr
    · exact hsound r hr
    · exact h.sound j r hr
  avoids p := by
    -- at most one of the two records is the new one, and the others are apart already
    refine pairwise_mappingsOf.mpr fun i₁ i₂ r₁ r₂ h₁ h₂ howner₁ howner₂ address hc₁ hc₂ => ?_
    rw [record_withRecord] at h₁ h₂
    split at h₁ <;> split at h₂
    · next e₁ e₂ => exact e₁.symm.trans e₂
    · next e₁ e₂ =>
      exact absurd hc₂ (hapart r₁ h₁ i₂ r₂ (Ne.symm e₂) h₂ (howner₂.trans howner₁.symm) address hc₁)
    · next e₁ e₂ =>
      exact absurd hc₁ (hapart r₂ h₂ i₁ r₁ (Ne.symm e₁) h₁ (howner₁.trans howner₂.symm) address hc₂)
    · exact h.eq_of_covers h₁ h₂ (howner₂.trans howner₁.symm) hc₁ hc₂

/-- Every change of the table keeps it in order. -/
theorem Redrawn.charted {c : Call} (h : k.Redrawn c k') (hk : k.Charted) : k'.Charted := by
  cases h with
  | same eq => exact hk.congr eq
  | added i p request r call made free apart eq =>
    refine (hk.withRecord i (some r) ?_ ?_).congr eq
    · rintro _ ⟨⟩
      exact isSound_of_recordFor made
    · rintro _ ⟨⟩ j r' - hr' howner
      exact apart j r' hr' howner
  -- what is left of a record lies where the record lay, so it is apart from all others still
  | shortened i r address length rest call found length_le length_mod drop eq =>
    have hsound := hk.sound i r found
    have hshort := hsound.shortened length_le length_mod drop
    refine (hk.withRecord i rest ?_ ?_).congr eq
    · rintro r' rfl
      exact hsound.dropFirst length_le length_mod drop
    · intro r' hr' j s hj hs howner address hc hc'
      have hcovers := ((hshort.covers_iff address).mp ⟨r', hr', hc⟩).1
      exact hj (hk.eq_of_covers hs found (hshort.owner_eq r' hr' ▸ howner.symm) hc' hcovers)
  -- the child had no records, and its parent's are apart from each other
  | inherited parent child dead others eq =>
    refine ⟨fun j r hr => ?_, fun p => ?_⟩
    · by_cases howner : r.owner = child
      · have hmem : r ∈ k'.mappingsOf child := mem_mappingsOf.mpr ⟨j, hr, howner⟩
        rw [eq, List.mem_map] at hmem
        obtain ⟨r₀, hr₀, rfl⟩ := hmem
        obtain ⟨i, hi, -⟩ := mem_mappingsOf.mp hr₀
        exact (hk.sound i r₀ hi).withOwner child
      · exact hk.sound j r ((others j r howner).mp hr)
    · by_cases hp : p = child
      · rw [hp, eq, List.pairwise_map]
        exact hk.avoids parent
      · rw [mappingsOf_congr_of_iff fun j r howner => others j r (howner ▸ hp)]
        exact hk.avoids p

/-- What holds of every record that is made for a request, of what is left of such a record and of
its copies holds of all records. -/
theorem Redrawn.forall_record {c : Call} {P : Mapping → Prop} (h : k.Redrawn c k')
    (hk : ∀ (j : Fin mappingLimit) r, k.record j = some r → P r)
    (hmade : ∀ p request r, c = .map p request → k.recordFor p request = .ok r → P r)
    (hdrop : ∀ r length r', P r → length ≤ r.length → r.dropFirst length = .ok (some r') → P r')
    (hcopy : ∀ r p, P r → P { r with owner := p }) :
    ∀ (j : Fin mappingLimit) r, k'.record j = some r → P r := by
  intro j r hr
  cases h with
  -- the table is as it was
  | same eq => exact hk j r (record_congr eq j ▸ hr)
  -- the new record was made for the request
  | added i p request r₀ call made free apart eq =>
    rw [record_congr eq, record_withRecord] at hr
    split at hr
    · exact hmade p request r call (Option.some.inj hr ▸ made)
    · exact hk j r hr
  -- the record that was shortened had the property
  | shortened i r₀ address length rest call found length_le length_mod drop eq =>
    rw [record_congr eq, record_withRecord] at hr
    split at hr
    · exact hdrop r₀ length r (hk i r₀ found) length_le (hr ▸ drop)
    · exact hk j r hr
  -- the copies are those of records that had it
  | inherited parent child dead others eq =>
    by_cases howner : r.owner = child
    · have hmem : r ∈ k'.mappingsOf child := mem_mappingsOf.mpr ⟨j, hr, howner⟩
      rw [eq, List.mem_map] at hmem
      obtain ⟨r₀, hr₀, rfl⟩ := hmem
      obtain ⟨i, hi, -⟩ := mem_mappingsOf.mp hr₀
      exact hcopy r₀ child (hk i r₀ hi)
    · exact hk j r ((others j r howner).mp hr)

/-- A record of a live process stays until its owner removes pages. -/
theorem Redrawn.record_eq {c : Call} (h : k.Redrawn c k') {i : Fin mappingLimit}
    (hr : k.record i = some r) (hlive : k.IsLive r.owner)
    (hcall : ∀ p address length, c ≠ .unmap p address length) : k'.record i = some r := by
  cases h with
  | same eq => exact (record_congr eq i).trans hr
  | added j p request r' call made free apart eq =>
    -- the new record was put in a place that was free
    rw [record_congr eq, record_withRecord, if_neg]
    · exact hr
    · rintro rfl
      rw [free] at hr
      cases hr
  | shortened j r' address length rest call found length_le length_mod drop eq =>
    exact absurd call (hcall _ _ _)
  | inherited parent child dead others eq =>
    -- a copy for a child replaces nothing of a live process
    refine (others i r ?_).mpr hr
    rintro rfl
    exact dead hlive.1

/-! ### What calls do to the table -/

/-- Populating a mapping is work on the memory of its owner. -/
theorem populate_ignores (p : Handle) (r : Mapping) : Ignores (populate p r) := by
  unfold populate
  split
  · exact installPages_ignores p r _ _
  · exact .pure _

/-- A mapping is added where nothing else of the process lies, or not at all. -/
theorem leads_map_redrawn (k : Kernel) (p : Handle) (request : MappingRequest) :
    Leads k (map p request) (fun _ k' => k.Redrawn (.map p request) k') fun _ => True := by
  refine leads_map_of (fun _ _ => .same rfl) fun r i hadmits => ?_
  -- to install pages leaves the table alone
  refine ((populate_ignores p r).keeps.leads _).imp fun result k₁ h₁ => ⟨fun e _ => ?_, fun _ => ?_⟩
  · unfold withdraw
    rw [leads_bind]
    refine ((onMemory_ignores p _).keeps.leads k₁).imp fun _ k₂ h₂ => ?_
    simp only [leads_bind, leads_flushTlb, leads_setRecord, leads_note, leads_pure]
    exact .same (hadmits.mappings_of_cleared (h₂.trans h₁))
  · refine .added i p request r rfl hadmits.recordFor_eq hadmits.record_eq
      (fun j r' hr' howner _ hc => hadmits.not_covers hr' ?_ hc) h₁
    exact howner.trans hadmits.recordFor.owner_eq

/-- The first bytes of a mapping are dropped, or nothing is. -/
theorem leads_unmap_redrawn (k : Kernel) (p : Handle) (address length : Nat) :
    Leads k (unmap p address length) (fun _ k' => k.Redrawn (.unmap p address length) k')
      fun _ => True := by
  refine leads_unmap_of (fun _ _ => .same rfl) (fun _ _ _ _ _ => trivial)
    fun i r hstarts rest hrest => ?_
  refine ((onMemory_ignores p _).keeps.leads _).imp fun freed k' h' => ?_
  exact .shortened i r address length rest (by rw [hstarts.owner_eq]) hstarts.record_eq
    hstarts.length_le hstarts.length_mod hrest h'

/-- **Changes of the table.** There is no other way in which a call could change the table. -/
theorem Kempt.leads_redrawn {c : Call} (h : k.Kempt pages) (hc : c.ThroughLive k) :
    Leads k c.run (fun _ k' => k.Redrawn c k') fun _ => True := by
  have leaves {c : Call} {α : Type} {x : KernelM α} (hx : Ignores x) :
      Leads k x (fun _ k' => k.Redrawn c k') fun _ => True :=
    -- most calls do not look at the table
    (hx.keeps.leads k).imp fun _ _ => .same
  cases c with
  | startRoot image =>
    refine (h.leads_startRoot image).mono (fun r k' h' => ?_) fun _ _ => trivial
    cases r with
    | error e => exact .same (h'.1.mappings_eq h.owner_ne)
    | ok p => exact .same (Rooted.mappings_same h')
  | dispatch cpu => exact leaves (dispatch_ignores cpu)
  | release cpu => exact leaves (setRunning_ignores cpu none)
  | idleTick => exact leaves advanceClock_ignores
  | wake channel => exact leaves (wake_ignores channel)
  | kill target => exact leaves (kill_ignores target)
  | setNice target nice => exact leaves (setNice_ignores target nice)
  | fork p =>
    refine (h.leads_fork (hc p rfl)).mono (fun r k' h' => ?_) fun _ _ => trivial
    cases r with
    | error e => exact .same (h'.1.mappings_eq h.owner_ne)
    -- only a fork adds the records of a child
    | ok pid =>
      obtain ⟨i, hcopies⟩ := h'
      exact .inherited p ⟨i, pid⟩ hcopies.dead hcopies.apart.record_iff
        (hcopies.mappings_eq h.owner_ne)
  | exit p status => exact leaves (exit_ignores p status)
  | awaitChild p target address =>
    refine (h.leads_awaitRound (hc p rfl) target address).mono (fun r k' h' => ?_)
      fun _ _ => trivial
    -- a wait that reaps leaves the records of the child in the table
    rcases r with _ | e | pid
    · exact .same h'.1.mappings_eq
    · exact .same (Written.toTabled h').mappings_same
    · obtain ⟨i, -, -, -, hreaped⟩ := h'
      exact .same hreaped.mappings_same
  | nap p start count => exact leaves (napRound_ignores p start count)
  | fallAsleep p channel => exact leaves (fallAsleep_ignores p channel)
  | getUp p => exact leaves (getUp_ignores p)
  | giveUpCpu p => exact leaves (giveUpCpu_ignores p)
  | tick p => exact leaves (tick_ignores p)
  | setKilled p => exact leaves (setKilled_ignores p)
  | setRegisters p change => exact leaves (modifyRegisters_ignores p change)
  | map p request => exact k.leads_map_redrawn p request
  | unmap p address length => exact k.leads_unmap_redrawn p address length
  | touch p address access =>
    exact (h.leads_touch (hc p rfl) address access).mono (fun _ _ h' => .same h'.2.1)
      fun _ _ => trivial
  | resize p change => exact leaves (resize_ignores p change)
  | store p address bytes => exact leaves (storeUser_ignores p address bytes)
  | openFile p file => exact leaves (openFile_ignores p file)
  | closeFile p descriptor => exact leaves (closeFile_ignores p descriptor)
  | report calls console => exact .same rfl

/-- The table of a kernel that has just booted is empty. -/
theorem Booted.charted (h : k.Booted pages) : k.Charted where
  sound j r hr := by
    rw [h.record_eq] at hr
    cases hr
  avoids p := by
    have hnone : k.mappingsOf p = [] := List.eq_nil_iff_forall_not_mem.mpr fun r hr => by
      obtain ⟨j, hj, -⟩ := mem_mappingsOf.mp hr
      rw [h.record_eq] at hj
      cases hj
    rw [hnone]
    exact .nil

end Kernel

/-- **Order.** At the end of every run the mapping table is in order. -/
theorem Run.charted {pages : Nat} {boot k : Kernel} {past : List Transition}
    (hrun : Run Call.ThroughLive boot past k) (hboot : boot.Booted pages) : k.Charted :=
  (hrun.induct (P := fun k => k.Kempt pages ∧ k.Charted) ⟨hboot.kempt, hboot.charted⟩
    fun _ h hc => (((h.1.leads_call hc).also (h.1.leads_redrawn hc)).mono
      (fun _ _ hcall => ⟨hcall.1.2.2, hcall.2.charted h.2⟩) fun _ _ => trivial)).2

end FairKernel
