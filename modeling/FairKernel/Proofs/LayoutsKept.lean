import FairKernel.Proofs.Isolation

/-!
# Layouts are kept

In every run whose root process starts below the mapping window, every live process is laid out: its
heap can be read and written from end to end, what is mapped in the window belongs to one mapping
and has the permissions of that mapping, and user code finds nothing else. What was filled when it
was mapped is there until it is unmapped.

Whoever lives before and after a call was worked on, which keeps the layout, or has the table, the
size and the mappings of before (`Call.Work.arranged_or_sameLayout`); whoever comes to life in a
call was made by it (`Call.Work.laidOut_of_made`). Both together make the layout of all live
processes an invariant (`Run.laidOut`). The condition on the root process is needed because the
program would load a larger image into the window.

`LaidOutInFull` says in one place what is known of an address space from its first page to its last,
the trap frame and the trampoline included.
-/

namespace FairKernel

/-- Only an image that ends below the mapping window is started. -/
def Call.StartsBelowWindow : Call → Prop
  | .startRoot image => image.length ≤ windowBase
  | _ => True

instance (c : Call) : Decidable c.StartsBelowWindow := by
  cases c <;> unfold Call.StartsBelowWindow <;> infer_instance

/-- Calls through handles of live processes, in a kernel whose root process starts below the mapping
window. -/
def Call.Proper (k : Kernel) (c : Call) : Prop := c.ThroughLive k ∧ c.StartsBelowWindow

instance (k : Kernel) (c : Call) : Decidable (c.Proper k) := inferInstanceAs (Decidable (_ ∧ _))

/-- Proper calls are made through live processes. -/
theorem Run.throughLive {start k : Kernel} {past : List Transition}
    (h : Run Call.Proper start past k) : Run Call.ThroughLive start past k :=
  h.mono fun _ _ hc => hc.1

namespace Kernel

variable {pages : Nat} {k k' k'' : Kernel} {p q : Handle}

/-! ### The same layout -/

/-- A process whose table, size and mappings are as before. -/
structure SameLayout (q : Handle) (k k' : Kernel) : Prop where
  table_eq : (k'.slotOf q).table = (k.slotOf q).table
  size_eq : (k'.slotOf q).size = (k.slotOf q).size
  mappings_eq : k'.mappingsOf q = k.mappingsOf q

/-- Whoever is not disturbed has the layout of before. -/
theorem Undisturbed.sameLayout (h : k.Undisturbed q k') : k.SameLayout q k' := by
  have htable := congrArg
    (fun space : Option AddressSpace => space.elim PageTable.empty AddressSpace.table) h.space_eq
  exact ⟨htable, h.size_eq, h.mappings_eq⟩

/-- A page is shown by a mapping exactly if one of the mappings covers it. -/
theorem shows_iff {n : Nat} : k.Shows p n ↔ ∃ r ∈ k.mappingsOf p, r.covers (n * pageSize) := by
  constructor
  · rintro ⟨j, r, hr, howner, hc⟩
    exact ⟨r, mem_mappingsOf.mpr ⟨j, hr, howner⟩, hc⟩
  · rintro ⟨r, hr, hc⟩
    obtain ⟨j, hj, howner⟩ := mem_mappingsOf.mp hr
    exact ⟨j, r, hj, howner, hc⟩

namespace SameLayout

/-- To have the layout of before is passed on. -/
theorem trans (h : k.SameLayout q k') (h' : k'.SameLayout q k'') : k.SameLayout q k'' :=
  ⟨h'.table_eq.trans h.table_eq, h'.size_eq.trans h.size_eq, h'.mappings_eq.trans h.mappings_eq⟩

/-- With the same layout the same pages are shown. -/
theorem shows_iff (h : k.SameLayout q k') (n : Nat) : k'.Shows q n ↔ k.Shows q n := by
  rw [Kernel.shows_iff, Kernel.shows_iff, h.mappings_eq]

/-- Whoever has the layout of before is laid out if it was. -/
theorem laidOut (h : k.SameLayout q k') (hl : k.LaidOut q) : k'.LaidOut q := by
  refine ⟨?_, ?_, pairwise_mappingsOf.mp ?_, fun j r hr howner n hc physical permissions hlookup => ?_,
    fun n hn hm => ?_⟩
  · rw [h.size_eq]
    exact hl.size_le
  · rw [h.size_eq, h.table_eq]
    exact hl.heap
  · rw [h.mappings_eq]
    exact pairwise_mappingsOf.mpr hl.disjoint
  · have hmem : r ∈ k'.mappingsOf q := mem_mappingsOf.mpr ⟨j, hr, howner⟩
    rw [h.mappings_eq] at hmem
    obtain ⟨i, hi, -⟩ := mem_mappingsOf.mp hmem
    rw [h.table_eq] at hlookup
    exact hl.shown i r hi howner n hc physical permissions hlookup
  · rw [h.table_eq] at hm
    rw [h.size_eq, h.shows_iff]
    exact hl.covers n hn hm

end SameLayout

/-- Whoever does not take part in work and lives afterwards lived before. -/
theorem Apart.isLive_of_isLive (h : k.Apart p k') (hq : q.slot ≠ p.slot) (hlive : k'.IsLive q) :
    k.IsLive q := by
  have hslot : k'.slotOf q = k.slotOf q := h.slots_eq q.slot hq
  unfold IsLive at hlive ⊢
  rwa [← hslot]

/-- Whoever is alike has the layout of before. -/
theorem Alike.sameLayout (h : k.Alike k') (q : Handle) : k.SameLayout q k' := by
  have hsize := congrArg Estate.size (h.estate_eq q.slot)
  exact ⟨Slot.table_eq_of_estate (h.estate_eq q.slot), hsize, mappingsOf_congr h.mappings_eq q⟩

/-- What is written to memory leaves the layout of before. -/
theorem Written.sameLayout (h : k.Written pages p k') (q : Handle) : k.SameLayout q k' := by
  have hslot : k'.slotOf q = k.slotOf q := slot_congr h.slots_same q.slot
  exact ⟨congrArg Slot.table hslot, congrArg Slot.size hslot, mappingsOf_congr h.mappings_same q⟩

end Kernel

open Kernel

/-! ### What calls do to layouts -/

section Calls

variable {pages : Nat} {k k' : Kernel} {c : Call} {a : c.Answer} {q : Handle}

/-- Whoever lives before and after a call was worked on, or has the layout of before. -/
theorem Call.Work.arranged_or_sameLayout (h : c.Work pages k a k') (hk : k.Kempt pages)
    (hc : c.ThroughLive k) (hlive : k.IsLive q) (hlive' : k'.IsLive q) :
    (c.handle? = some q ∧ k.Arranged pages q k' ∧
        (∀ n, k.Shows q n → k'.Shows q n ∨ c.Unmaps n a) ∧
        (k.Retains q k' ∨ k.Flushes k' ∨ c.Shrinks)) ∨
      k.SameLayout q k' := by
  by_cases hq : c.handle? = some q
  swap
  -- a call that is not made through its handle does not disturb it
  · have hother (p : Handle) (hp : c.handle? = some p) : p ≠ q := fun heq => hq (heq ▸ hp)
    exact .inr (h.undisturbed hk hc hother hlive hlive').sameLayout
  have dead_ne {p : Handle} (hp : ¬ (k.slotOf p).isLive) : q.slot ≠ p.slot := fun heq =>
    hp (slotOf_congr heq ▸ hlive.1)
  cases h with
  | alike same _ => exact .inr (same.sameLayout q)
  | arranged p handle work shows retains =>
    obtain rfl : p = q := Option.some.inj (handle.symm.trans hq)
    exact .inl ⟨hq, work, shows, retains⟩
  | copies parent p _ _ work =>
    exact .inr (work.apart.undisturbed hk.toAccounted (dead_ne work.dead) hlive).sameLayout
  | rooted image p _ _ work =>
    exact .inr (work.apart.undisturbed hk.toAccounted (dead_ne work.dead) hlive).sameLayout
  | restored _ work => exact .inr (work.undisturbed hk hlive).sameLayout
  -- its own child was reaped: both the writing and the vacating leave its layout alone
  | reaped p target address i call _ _ _ work =>
    obtain ⟨k₁, hwritten, hvacated, -⟩ := work.exists_written
    have hi : q.slot ≠ i := fun heq => hvacated.not_isLive (heq ▸ hlive'.1)
    have hlive₁ : k₁.IsLive q := by
      unfold IsLive slotOf at hlive ⊢
      rwa [slot_congr hwritten.slots_same]
    exact .inr ((hwritten.sameLayout q).trans
      (hvacated.apart.undisturbed hwritten.accounted hi hlive₁).sameLayout)

/-- Whoever is there after a call and was not before was made by it. -/
theorem Call.Work.laidOut_of_made (h : c.Work pages k a k') (hk : k.Kempt pages)
    (hc : c.Proper k) (heffect : c.Effect k a k'.standing) (hall : ∀ p, k.IsLive p → k.LaidOut p)
    (hnot : ¬ k.IsLive q) (hlive : k'.IsLive q) : k'.LaidOut q := by
  -- it is new, so the call has made a process
  rcases (heffect.fate q.slot).of_isLive hc.1 hlive.1 with ⟨hlive₀, hpid⟩ | ⟨-, hmade, -⟩
  · exact absurd ⟨hlive₀, hpid.symm.trans hlive.2⟩ hnot
  cases h with
  | alike same _ => exact absurd ((same.isLive_iff q).mp hlive) hnot
  | arranged p handle work _ _ =>
    by_cases hslot : q.slot = p.slot
    · exact absurd (work.isLive.eq hlive hslot ▸ hc.1 p handle) hnot
    · exact absurd (work.apart.isLive_of_isLive hslot hlive) hnot
  | copies parent p call _ work =>
    by_cases hslot : q.slot = p.slot
    · obtain rfl := work.isLive.eq hlive hslot
      have hparent : k.IsLive parent := hc.1 parent (by rw [call]; rfl)
      exact work.laidOut hk.toAccounted (hall parent hparent) hk.owner_ne
    · exact absurd (work.apart.isLive_of_isLive hslot hlive) hnot
  | rooted image p call _ work =>
    by_cases hslot : q.slot = p.slot
    · obtain rfl := work.isLive.eq hlive hslot
      refine work.laidOut ?_ hk.owner_ne
      have hstarts := hc.2
      rw [call] at hstarts
      exact hstarts
    · exact absurd (work.apart.isLive_of_isLive hslot hlive) hnot
  | restored made _ =>
    rw [made] at hmade
    cases hmade
  -- no other call makes one
  | reaped p target address i call _ _ _ _ =>
    subst call
    cases hmade

/-- Every call keeps all live processes laid out. -/
theorem Call.Work.laidOut (h : c.Work pages k a k') (hk : k.Kempt pages) (hc : c.Proper k)
    (heffect : c.Effect k a k'.standing) (hall : ∀ p, k.IsLive p → k.LaidOut p)
    (hlive : k'.IsLive q) : k'.LaidOut q := by
  by_cases hlive₀ : k.IsLive q
  · rcases h.arranged_or_sameLayout hk hc.1 hlive₀ hlive with ⟨-, hwork, -⟩ | hsame
    · exact hwork.laidOut_of_laidOut (hall q hlive₀)
    · exact hsame.laidOut (hall q hlive₀)
  · exact h.laidOut_of_made hk hc heffect hall hlive₀ hlive

end Calls

/-- In every run all live processes are laid out. -/
theorem Run.laidOut {pages : Nat} {boot k : Kernel} {past : List Transition}
    (hrun : Run Call.Proper boot past k) (hboot : boot.Kempt pages)
    (hall : ∀ q, boot.IsLive q → boot.LaidOut q) : ∀ q, k.IsLive q → k.LaidOut q := by
  induction hrun with
  | refl => exact hall
  | @call _ k _ c _ earlier allowed ran ih =>
    have hk := earlier.throughLive.kempt hboot
    obtain ⟨hwork, heffect, -⟩ := (hk.leads_call allowed.1).of_run_ok ran
    exact fun q hq => hwork.laidOut hk allowed heffect ih hq

/-! ### What is mapped stays -/

/-- A page of a mapping stays where it is until the mapping is removed there. -/
theorem Run.lookup_of_shows {pages : Nat} {start k : Kernel} {later : List Transition}
    {p : Handle} {n : Nat} {found : Physical × Permissions}
    (hrun : Run Call.Proper start later k) (hstart : start.Kempt pages)
    (hall : ∀ q, start.IsLive q → start.LaidOut q) (hp : start.IsLive p)
    (hshow : start.Shows p n) (hfound : (start.slotOf p).table.lookup (n * pageSize) = some found)
    (hlive : k.IsLive p) : (∃ t ∈ later, t.call.handle? = some p ∧ t.call.Unmaps n t.answer) ∨
      k.Shows p n ∧ (k.slotOf p).table.lookup (n * pageSize) = some found := by
  -- nobody comes to life as `p` meanwhile
  suffices h : p.pid < k.nextPid ∧ (k.IsLive p →
      (∃ t ∈ later, t.call.handle? = some p ∧ t.call.Unmaps n t.answer) ∨
        k.Shows p n ∧ (k.slotOf p).table.lookup (n * pageSize) = some found) from h.2 hlive
  clear hlive
  induction hrun with
  | refl =>
    exact ⟨hp.2 ▸ hstart.numbered.pid_lt p.slot hp.1, fun _ => .inr ⟨hshow, hfound⟩⟩
  | @call later k₁ k₂ c a earlier allowed ran ih =>
    obtain ⟨hpid, hstays⟩ := ih
    have hk₁ := earlier.throughLive.kempt hstart
    obtain ⟨hwork, heffect, -⟩ := (hk₁.leads_call allowed.1).of_run_ok ran
    refine ⟨hpid.trans_le heffect.nextPid_le, fun hlive₂ => ?_⟩
    have hlive₁ := heffect.isLive_of_isLive allowed.1 hpid hlive₂
    -- it was unmapped before, ...
    rcases hstays hlive₁ with ⟨t, ht, hunmaps⟩ | ⟨hshow₁, hfound₁⟩
    · exact .inl ⟨t, List.mem_cons_of_mem _ ht, hunmaps⟩
    -- ... or it is still there before this call, which may work on the process or leave its layout
    -- alone
    rcases hwork.arranged_or_sameLayout hk₁ allowed.1 hlive₁ hlive₂ with
      ⟨hhandle, harranged, hshows, -⟩ | hsame
    · rcases hshows n hshow₁ with hshow₂ | hunmaps
      · have hl₁ := earlier.laidOut hstart hall p hlive₁
        exact .inr ⟨hshow₂, harranged.lookup_of_shows hl₁ n found hshow₁ hshow₂ hfound₁⟩
      · exact .inl ⟨_, List.mem_cons_self, hhandle, hunmaps⟩
    · refine .inr ⟨(hsame.shows_iff n).mpr hshow₁, ?_⟩
      rw [hsame.table_eq]
      exact hfound₁

/-! ### The layout of every process -/

namespace Kernel

/-- The address space of a process, from its first page to the last. -/
structure LaidOutInFull (k : Kernel) (p : Handle) : Prop where
  size_le : (k.slotOf p).size ≤ windowBase
  /-- Everything below the size is mapped, and user code may read and write it. -/
  heap : ∀ n < pagesIn (k.slotOf p).size, ∃ physical permissions,
    (k.slotOf p).table.lookup (n * pageSize) = some (physical, permissions) ∧ permissions.IsOpen
  /-- What is mapped in the window lies in one mapping, and has its permissions. -/
  window : ∀ n, windowBase ≤ n * pageSize → n * pageSize < windowEnd → ∀ physical permissions,
    (k.slotOf p).table.lookup (n * pageSize) = some (physical, permissions) →
      ∃ (j : Fin mappingLimit) (r : Mapping), k.record j = some r ∧ r.owner = p ∧
        r.covers (n * pageSize) ∧
        permissions = { valid := true, readable := true, user := true
                        writable := r.protection.allowsWrite } ∧
        ∀ (j' : Fin mappingLimit) (r' : Mapping), k.record j' = some r' → r'.owner = p →
          r'.covers (n * pageSize) → j' = j
  frame : ∃ physical permissions,
    (k.slotOf p).table.lookup frameAddress = some (physical, permissions) ∧ ¬ permissions.user
  trampoline : ∃ physical permissions,
    (k.slotOf p).table.lookup trampolineAddress = some (physical, permissions) ∧ ¬ permissions.user
  /-- There is nothing else. -/
  nowhere_else : ∀ n physical permissions,
    (k.slotOf p).table.lookup (n * pageSize) = some (physical, permissions) →
      n < pagesIn (k.slotOf p).size ∨ (windowBase ≤ n * pageSize ∧ n * pageSize < windowEnd) ∨
        n * pageSize = frameAddress ∨ n * pageSize = trampolineAddress
  /-- User code never writes to a page of a mapping that is for reading. -/
  readOnly : ∀ r ∈ k.mappingsOf p, r.protection.allowsWrite = false → ∀ n,
    r.covers (n * pageSize) → ∀ physical permissions,
      (k.slotOf p).table.lookup (n * pageSize) = some (physical, permissions) →
        permissions.writable = false

variable {pages : Nat} {k : Kernel} {p : Handle}

/-- A process that is laid out is so from its first page to the last. -/
theorem LaidOut.inFull (h : k.LaidOut p) (hk : k.Accounted pages) (hlive : k.IsLive p) :
    k.LaidOutInFull p := by
  obtain ⟨space, hspace⟩ := hk.space_of_handle hlive
  have htable : (k.slotOf p).table = space.table := Slot.table_of_space hspace
  have hentered := hk.entered p.slot space hspace
  have mapped {n : Nat} {physical : Physical} {permissions : Permissions}
      (hlookup : (k.slotOf p).table.lookup (n * pageSize) = some (physical, permissions)) :=
    PageTable.isMapped_of_lookup hlookup
  refine ⟨h.size_le, h.heap, fun n hlow hhigh physical permissions hlookup => ?_, ?_, ?_,
    fun n physical permissions hlookup => ?_, fun r hr hwrite n hc physical permissions hlookup => ?_⟩
  -- in the window a page belongs to one mapping, since it is not below the size
  · have hn : n < userPages := by
      refine mul_pageSize_lt_frameAddress.mp (hhigh.trans_le ?_)
      decide
    rcases h.covers n hn (mapped hlookup) with hlt | ⟨j, r, hr, howner, hc⟩
    · exact absurd hlow (Nat.not_le.mpr (page_lt_windowBase h.size_le hlt))
    · refine ⟨j, r, hr, howner, hc, h.shown j r hr howner n hc physical permissions hlookup,
        fun j' r' hr' howner' hc' => ?_⟩
      exact h.disjoint j' j r' r hr' hr howner' howner _ hc' hc
  -- the trap frame and the trampoline are there, and not for user code
  · rw [htable, frameAddress_eq]
    exact ⟨_, _, hentered.lookup_frame, Bool.false_ne_true⟩
  · rw [htable, trampolineAddress_eq]
    exact ⟨_, _, hentered.lookup_trampoline, Bool.false_ne_true⟩
  -- everything else lies below the size or in the window
  · by_cases hn : n < userPages
    · refine (h.covers n hn (mapped hlookup)).imp_right ?_
      rintro ⟨j, r, hr, -, hc⟩
      have hwindow := hk.inWindow j r hr
      have hin := Mapping.covers_iff.mp hc
      exact .inl ⟨hwindow.windowBase_le.trans hin.1, hin.2.trans_le hwindow.stop_le⟩
    · have hlast := PageTable.lt_of_lookup hlookup
      have hcases : n = userPages ∨ n = userPages + 1 := by omega
      rw [frameAddress_eq, trampolineAddress_eq]
      exact .inr (.inr (hcases.imp (congrArg (· * pageSize)) (congrArg (· * pageSize))))
  -- a mapping that may not be written has no page that may
  · obtain ⟨j, hj, howner⟩ := mem_mappingsOf.mp hr
    rw [h.shown j r hj howner n hc physical permissions hlookup]
    exact hwrite

end Kernel

/-- **Layouts are kept.** After any run in which the root process starts below the mapping window,
every live process is laid out; and each page of a mapping that was filled when it was made is there
until its mapping is removed or its process is gone. -/
theorem address_spaces_laid_out {pages : Nat} {boot k : Kernel} {past : List Transition}
    (hboot : boot.Booted pages) (hrun : Run Call.Proper boot past k) :
    (∀ p, k.IsLive p → k.LaidOutInFull p) ∧
    ∀ later k₁ p request base k₂ earlier,
      past = later ++ ⟨k₁, .map p request, .ok base, k₂⟩ :: earlier →
      request.options.populate → k.IsLive p →
      ∀ n, base ≤ n * pageSize → n * pageSize < base + request.length →
        ∃ found, (k₂.slotOf p).table.lookup (n * pageSize) = some found ∧
          ((∃ t ∈ later, t.call.handle? = some p ∧ t.call.Unmaps n t.answer) ∨
            (k.slotOf p).table.lookup (n * pageSize) = some found) := by
  have hkempt := hboot.kempt
  have hall (q : Handle) (hq : boot.IsLive q) : boot.LaidOut q :=
    absurd hq.1 (hboot.not_isLive q.slot)
  have hlaid := hrun.laidOut hkempt hall
  refine ⟨fun p hp => (hlaid p hp).inFull (hrun.throughLive.kempt hkempt).toAccounted hp, ?_⟩
  rintro later k₁ p request base k₂ earlier rfl hpopulate hp n hlow hhigh
  obtain ⟨_, hmapped, hlater⟩ := hrun.split
  cases hmapped with
  | call hearlier allowed ran =>
    have hk₁ := hearlier.throughLive.kempt hkempt
    have hp₁ : k₁.IsLive p := allowed.1 p rfl
    -- the mapping shows the page and finds it filled, and the rest of the run keeps what it shows
    obtain ⟨harranged, hmap, -⟩ := (hk₁.leads_map hp₁ request).of_run_ok ran
    obtain ⟨hshow, hpresent⟩ := (hmap base rfl).2 n hlow hhigh
    obtain ⟨found, hfound⟩ := Option.isSome_iff_exists.mp (hpresent hpopulate)
    have hrun₂ := hearlier.call allowed ran
    refine ⟨found, hfound, ?_⟩
    exact (hlater.lookup_of_shows (hrun₂.throughLive.kempt hkempt) (hrun₂.laidOut hkempt hall)
      harranged.isLive hshow hfound hp).imp_right And.right

/-- The root process maps a page that it may only read, and still has it after it wrote
elsewhere. -/
theorem address_spaces_laid_out_populated : ∃ (boot k : Kernel) (past : List Transition)
    (found : Physical × Permissions), boot.Booted 6 ∧ Run Call.Proper boot past k ∧
    k.IsLive .eldest ∧ k.LaidOutInFull .eldest ∧
    (k.slotOf .eldest).table.lookup windowBase = some found := by
  set request : MappingRequest := ⟨0, pageSize, .readOnly, ⟨3⟩, noDescriptor, 0⟩
  obtain ⟨boot, past, k₁, hboot, hrun, hcheck⟩ := Run.of_rehearse Call.Proper 6
    [.startRoot [], .dispatch 0]
    (fun _ k₁ => Run.admits Call.Proper k₁ (.map .eldest request) fun answer k₂ =>
      Except.toOption answer == some windowBase &&
        Run.admits Call.Proper k₂ (.store .eldest 0 [7]) fun _ k => decide (k.IsLive .eldest))
    (by decide +kernel)
  obtain ⟨hproper, answer, k₂, hmap, hcheck⟩ := Run.of_admits hcheck
  obtain ⟨hbase, hcheck⟩ := Bool.and_eq_true_iff.mp hcheck
  obtain ⟨hproper', answer', k, hstore, hcheck⟩ := Run.of_admits hcheck
  have hlive : k.IsLive .eldest := of_decide_eq_true hcheck
  have hrun' := (hrun.call hproper hmap).call hproper' hstore
  obtain ⟨hlaid, hstays⟩ := address_spaces_laid_out hboot hrun'
  cases answer with
  | ok base =>
    cases Option.some.inj (beq_iff_eq.mp hbase)
    obtain ⟨found, -, hpresent⟩ := hstays [_] _ .eldest request windowBase _ _ rfl (by decide) hlive
      (windowBase / pageSize) (by decide) (by decide)
    rcases hpresent with ⟨t, ht, -, hunmaps⟩ | hfound
    · rw [List.mem_singleton.mp ht] at hunmaps
      exact hunmaps.elim
    · exact ⟨boot, k, _, found, hboot, hrun', hlive, hlaid _ hlive, hfound⟩
  | error e => cases hbase

end FairKernel
