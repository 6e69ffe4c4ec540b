import FairKernel.Proofs.MappingViews

/-!
# Lazy and eager mappings

Whether the pages of a mapping are brought when they are touched or all at once when it is made does
not show, as long as the pool does not run dry. Each kernel by itself answers what the history says
(`Follows`), which does not tell one from the other. What is left is how forks end: that depends on
how the processes stand and on the records, which are the same on both sides (`Abreast`).

So two kernels are followed side by side, in which the mapping was made one way and the other. Each
step answers on both sides what is due, and leaves the kernels abreast (`Abreast.moves`); hence the
histories are the same (`Abreast.replay_eq`). Where the pages of the mapping are plays no part in
any of this.
-/

namespace FairKernel

open Kernel

/-! ### Asking for all pages at once -/

/-- The same options, with all pages asked for at once or not. -/
def MappingOptions.populating (o : MappingOptions) (all : Bool) : MappingOptions :=
  ⟨if all then o.bits ||| 2 else (o.bits ||| 2) ^^^ 2⟩

/-- The same request, with all pages asked for at once or not. -/
def MappingRequest.populating (request : MappingRequest) (all : Bool) : MappingRequest :=
  { request with options := request.options.populating all }

/-- The same mapping, made at once or not. -/
def Mapping.populating (r : Mapping) (all : Bool) : Mapping :=
  { r with options := r.options.populating all }

/-- A set of options so changed asks for what it is changed to. -/
theorem MappingOptions.populate_populating (o : MappingOptions) (all : Bool) :
    (o.populating all).populate = all := by
  have hbit : Nat.testBit 2 1 = true := rfl
  cases all <;> simp [populating, populate, hbit]

/-- That a mapping shows no file does not depend on it. -/
theorem MappingOptions.anonymous_populating (o : MappingOptions) (all : Bool) :
    (o.populating all).anonymous = o.anonymous := by
  cases all <;> simp [populating, anonymous]

namespace Kernel

variable {pages : Nat} {k k' k₁ k₂ k₁' k₂' : Kernel} {r : Mapping} {p : Handle} {pid owner : Pid}
  {first : Nat} {f : Nat → UInt8}

/-- When the pages are to be made is not looked at in making the record. -/
theorem recordFor_populating {request : MappingRequest} (h : k.recordFor p request = .ok r)
    (all : Bool) : k.recordFor p (request.populating all) = .ok (r.populating all) := by
  obtain ⟨hfit, file, hgrants, rfl⟩ := recordFor_eq_ok_iff.mp h
  refine recordFor_eq_ok_iff.mpr ⟨{ hfit with }, file, ?_, rfl⟩
  have hanonymous : (request.populating all).options.anonymous = request.options.anonymous :=
    request.options.anonymous_populating all
  cases file with
  | none => exact ⟨hanonymous.trans hgrants.1, hgrants.2⟩
  | some file => exact ⟨hanonymous ▸ hgrants.1, hgrants.2⟩

/-- What a mapping shows does not depend on its options. -/
theorem Presents.of_populating {all : Bool} (h : k.Presents (r.populating all) p first f) :
    k.Presents r p first f where
  base_le := h.base_le
  le_stop := h.le_stop
  first_mod := h.first_mod
  rest hlt := by
    obtain ⟨r', hr', hrest⟩ := h.rest hlt
    exact ⟨r', hr', hrest.base_eq, hrest.stop_eq, hrest.offset_eq, hrest.file_eq,
      hrest.protection_eq⟩
  gone := h.gone
  present := h.present
  absent := h.absent

/-! ### Kernels side by side -/

/-- Two kernels in which forks end alike: the processes stand the same and have as many records. -/
structure Abreast (k₁ k₂ : Kernel) : Prop where
  standing_eq : k₂.standing = k₁.standing
  freeRecordCount_eq : k₂.freeRecordCount = k₁.freeRecordCount
  length_mappingsOf : ∀ q, (k₂.mappingsOf q).length = (k₁.mappingsOf q).length

/-- Processes that stand the same stand the same slot by slot. -/
theorem standing_slot_eq (h : k₂.standing = k₁.standing) (i : Fin slotCount) :
    (k₂.slot i).standing = (k₁.slot i).standing := congrFun (congrArg Standing.slots h) i

/-- Processes that stand the same have the same numbers. -/
theorem lookup_congr (h : k₂.standing = k₁.standing) (pid : Pid) :
    k₂.lookup pid = k₁.lookup pid := by
  have hholds (i : Fin slotCount) : (k₂.slot i).holds pid = (k₁.slot i).holds pid := by
    have hslot := congrArg (Slot.holds · pid) (standing_slot_eq h i)
    exact hslot
  unfold lookup find?
  simp only [hholds]

/-- The same slot is free. -/
theorem freeSlot?_congr (h : k₂.standing = k₁.standing) : k₂.freeSlot? = k₁.freeSlot? :=
  findFinIdx?_congr fun i => by
    have hlive := congrArg (fun s : Slot => !s.isLive) (standing_slot_eq h i)
    exact hlive

/-- Forks end alike. -/
theorem Abreast.forkVerdict_eq (h : k₁.Abreast k₂) (p : Handle) :
    k₂.forkVerdict p = k₁.forkVerdict p := by
  have hentity : (k₂.slotOf p).entity = (k₁.slotOf p).entity := by
    have hslot := congrArg Slot.entity (standing_slot_eq h.standing_eq p.slot)
    exact hslot
  have hnumber : k₂.nextPid = k₁.nextPid := congrArg Standing.nextPid h.standing_eq
  unfold forkVerdict
  rw [freeSlot?_congr h.standing_eq, hnumber, h.freeRecordCount_eq, h.length_mappingsOf, hentity]

/-- Where a fork ends the same way the processes stand the same afterwards. -/
theorem standing_eq_of_fork (h : k₂.standing = k₁.standing) {a : Except ProcessError Pid}
    {σ₁ σ₂ : Standing} (h₁ : (Call.fork p).Effect k₁ a σ₁) (h₂ : (Call.fork p).Effect k₂ a σ₂) :
    σ₂ = σ₁ := by
  have hfree := freeSlot?_congr h
  cases a with
  | error e =>
    -- no slot is free on either side
    rcases h₁ with ⟨hnone, rfl⟩ | ⟨i, hi, rfl⟩
    · rcases h₂ with ⟨-, rfl⟩ | ⟨j, hj, -⟩
      · exact h
      · rw [hfree, hnone] at hj
        cases hj
    -- the same slot was taken on both sides and left again
    · rcases h₂ with ⟨hnone, -⟩ | ⟨j, hj, rfl⟩
      · rw [hfree, hi] at hnone
        cases hnone
      · rw [hfree, hi] at hj
        cases hj
        rw [h, standing_slot_eq h]
  -- the same slot is the child's, with what the same entity hands on
  | ok child =>
    obtain ⟨i, entity, hentity, hi, -, rfl⟩ := h₁
    obtain ⟨j, entity', hentity', hj, -, rfl⟩ := h₂
    obtain rfl : i = j := Option.some.inj (hi.symm.trans (hfree.symm.trans hj))
    have hsame : (k₂.slotOf p).entity = (k₁.slotOf p).entity := by
      have hslot := congrArg Slot.entity (standing_slot_eq h p.slot)
      exact hslot
    rw [hsame, hentity] at hentity'
    cases hentity'
    rw [h, standing_slot_eq h]

namespace Abreast

/-- The records have not moved. -/
theorem still (h : k₁.Abreast k₂) (hstanding : k₂'.standing = k₁'.standing)
    (h₁ : k₁'.mappings = k₁.mappings) (h₂ : k₂'.mappings = k₂.mappings) : k₁'.Abreast k₂' where
  standing_eq := hstanding
  freeRecordCount_eq := by
    rw [freeRecordCount_congr h₁, freeRecordCount_congr h₂, h.freeRecordCount_eq]
  length_mappingsOf q := by
    rw [mappingsOf_congr h₁, mappingsOf_congr h₂, h.length_mappingsOf]

/-- Equally many records have become free. -/
theorem givenUp (h : k₁.Abreast k₂) (hstanding : k₂'.standing = k₁'.standing) {n : Nat}
    (h₁ : k₁.GivesUp p n k₁') (h₂ : k₂.GivesUp p n k₂') : k₁'.Abreast k₂' where
  standing_eq := hstanding
  freeRecordCount_eq := by
    rw [h₁.freeRecordCount_eq, h₂.freeRecordCount_eq, h.freeRecordCount_eq]
  length_mappingsOf q := by
    by_cases hq : q = p
    · have hlength := h₂.length_mappingsOf
      rw [h.length_mappingsOf, ← h₁.length_mappingsOf] at hlength
      rw [hq]
      exact Nat.add_right_cancel hlength
    · rw [h₁.others q hq, h₂.others q hq, h.length_mappingsOf]

/-- A child has been made in either. -/
theorem forked (h : k₁.Abreast k₂) (hk₁ : k₁.Kempt pages) (hk₂ : k₂.Kempt pages)
    (hk₂' : k₂'.Kempt pages) (hstanding : k₂'.standing = k₁'.standing) {i j : Fin slotCount}
    (h₁ : k₁.Copies pages p ⟨i, pid⟩ k₁') (h₂ : k₂.Copies pages p ⟨j, pid⟩ k₂') :
    k₁'.Abreast k₂' where
  standing_eq := hstanding
  freeRecordCount_eq := by
    have hcount := h₂.records_eq
    rw [h.length_mappingsOf, h.freeRecordCount_eq, ← h₁.records_eq] at hcount
    exact Nat.add_right_cancel hcount
  length_mappingsOf q := by
    -- the child has the same handle, as its number is the same and nobody else lives under it
    have hchild : (⟨i, pid⟩ : Handle) = ⟨j, pid⟩ :=
      hk₂'.eq_of_pid ((isLive_congr hstanding _).mpr h₁.isLive) h₂.isLive rfl
    by_cases hq : q = ⟨j, pid⟩
    -- the child has as many records as its parent, ...
    · rw [hq, h₂.mappings_eq hk₂.owner_ne, ← hchild, h₁.mappings_eq hk₁.owner_ne, List.length_map,
        List.length_map, h.length_mappingsOf]
    -- ... and everybody else has as many as before
    · rw [mappingsOf_congr_of_iff fun l r howner => h₂.apart.record_iff l r (howner ▸ hq),
        mappingsOf_congr_of_iff fun l r howner => h₁.apart.record_iff l r (howner ▸ hchild ▸ hq),
        h.length_mappingsOf]

/-- Steps that end the same way leave kernels abreast. -/
theorem moves (h : k₁.Abreast k₂) (hk₁ : k₁.Kempt pages) (hk₂ : k₂.Kempt pages)
    (hk₂' : k₂'.Kempt pages) {v : View} {s : UserStep} {a : s.Answer}
    (h₁ : s.Moves pages r v k₁ p a k₁') (h₂ : s.Moves pages r v k₂ p a k₂') : k₁'.Abreast k₂' := by
  have stays (h₁ : k₁'.standing = k₁.standing) (h₂ : k₂'.standing = k₂.standing) :
      k₂'.standing = k₁'.standing := h₂.trans (h.standing_eq.trans h₁.symm)
  cases s with
  -- neither loads nor stores touch a record
  | load address count => exact h.still (stays h₁.1 h₂.1) h₁.2 h₂.2
  | store address bytes => exact h.still (stays h₁.1 h₂.1) h₁.2 h₂.2
  -- a removal that is not refused frees a record on both sides or on neither
  | unmap address length =>
    cases a with
    | error e => exact h.still (stays h₁.1 h₂.1) h₁.2 h₂.2
    | ok _ => exact h.givenUp (stays h₁.1.standing_eq h₂.1.standing_eq) h₁.2 h₂.2
  | fork =>
    cases a with
    | error e => exact h.still (standing_eq_of_fork h.standing_eq h₁.1 h₂.1) h₁.2 h₂.2
    | ok child =>
      obtain ⟨heffect₁, i, hcopies₁⟩ := h₁
      obtain ⟨heffect₂, j, hcopies₂⟩ := h₂
      have hstanding := standing_eq_of_fork h.standing_eq heffect₁ heffect₂
      exact h.forked hk₁ hk₂ hk₂' hstanding hcopies₁ hcopies₂

/-- The same steps come to the same in two kernels abreast, unless the pool of one runs dry. -/
theorem replay_eq (h : k₁.Abreast k₂) {past : List UserEvent} (hf₁ : k₁.Follows pages r owner past)
    (hf₂ : k₂.Follows pages r owner past) (hr : r.IsSteady) {acts : List (Pid × UserStep)}
    (hacts : ∀ act ∈ acts, act.2.Within r) (hdry₁ : ∀ e ∈ replay owner acts past k₁, ¬ e.isDry)
    (hdry₂ : ∀ e ∈ replay owner acts past k₂, ¬ e.isDry) :
    replay owner acts past k₂ = replay owner acts past k₁ := by
  -- by steps: both kernels answer what is due, and what is due depends on the past alone
  induction acts generalizing k₁ k₂ past with
  | nil => rfl
  | cons act acts ih =>
    obtain ⟨pid, s⟩ := act
    have hacts' : ∀ act ∈ acts, act.2.Within r := fun act hact =>
      hacts act (List.mem_cons_of_mem _ hact)
    -- the family is the same, and its members have the same handles
    have hmember : k₂.member? owner past pid = k₁.member? owner past pid := by
      unfold member?
      rw [lookup_congr h.standing_eq]
    unfold replay at hdry₁ hdry₂ ⊢
    rw [hmember] at hdry₂ ⊢
    split
    · next hnone =>
      rw [hnone] at hdry₁ hdry₂
      exact ih h hf₁ hf₂ hacts' hdry₁ hdry₂
    next p hfound =>
    rw [hfound] at hdry₁ hdry₂
    obtain ⟨hmem, hlookup⟩ := of_member? hfound
    have hwithin := hacts _ List.mem_cons_self
    have hstep₁ := hf₁.leads_step hr hmem hlookup hwithin
    have hstep₂ := hf₂.leads_step hr hmem ((lookup_congr h.standing_eq pid).trans hlookup) hwithin
    rw [h.forkVerdict_eq] at hstep₂
    cases hran₁ : (s.run p).run k₁ with
    | ok a₁ k₁' =>
      simp only [hran₁] at hdry₁ ⊢
      have hwet₁ : ¬ s.isDry a₁ := hdry₁ _ (mem_replay acts List.mem_cons_self k₁')
      obtain ⟨hdue₁, hf₁', hmoves₁⟩ := (hstep₁.of_run_ok hran₁).resolve_left hwet₁
      cases hran₂ : (s.run p).run k₂ with
      | ok a₂ k₂' =>
        simp only [hran₂] at hdry₂ ⊢
        have hwet₂ : ¬ s.isDry a₂ := hdry₂ _ (mem_replay acts List.mem_cons_self k₂')
        obtain ⟨hdue₂, hf₂', hmoves₂⟩ := (hstep₂.of_run_ok hran₂).resolve_left hwet₂
        obtain rfl : a₁ = a₂ := Except.ok.inj (hdue₁.symm.trans hdue₂)
        exact ih (h.moves hf₁.trim.toKempt hf₂.trim.toKempt hf₂'.trim.toKempt hmoves₁ hmoves₂)
          hf₁' hf₂' hacts' hdry₁ hdry₂
      | error c₂ k₂' =>
        -- what is due cannot be an answer on one side and a panic on the other
        have hdue := hdue₁.symm.trans (hstep₂.of_run_error hran₂)
        cases hdue
    | error c₁ k₁' =>
      simp only [hran₁] at hdry₁ ⊢
      have hdue₁ := hstep₁.of_run_error hran₁
      cases hran₂ : (s.run p).run k₂ with
      | ok a₂ k₂' =>
        simp only [hran₂] at hdry₂ ⊢
        have hwet₂ : ¬ s.isDry a₂ := hdry₂ _ (mem_replay acts List.mem_cons_self k₂')
        have hdue := hdue₁.symm.trans ((hstep₂.of_run_ok hran₂).resolve_left hwet₂).1
        cases hdue
      | error c₂ k₂' =>
        obtain rfl : c₁ = c₂ := Except.error.inj (hdue₁.symm.trans (hstep₂.of_run_error hran₂))
        rfl

end Abreast

/-! ### Made lazily or eagerly -/

/-- A mapping that is made shows its process what it is to show, in a kernel that is trim. -/
theorem Trim.follows_of_map (h : k.Trim pages) (hlive : k.IsLive p) {request : MappingRequest}
    (hr : k.recordFor p request = .ok r) (hsteady : r.IsSteady) {all : Bool} {base : Nat}
    (hmap : (map p (request.populating all)).run k = .ok (.ok base) k') :
    base = r.base ∧ k'.standing = k.standing ∧
      (∃ i, k.freeRecord? = some i ∧
        k'.mappings = (k.withRecord i (some (r.populating all))).mappings) ∧
      k'.Follows pages r p.pid [] := by
  have hproper : (Call.map p (request.populating all)).Proper k := by
    refine ⟨?_, trivial⟩
    rintro _ ⟨⟩
    exact hlive
  have hsteady' : (r.populating all).IsSteady :=
    ⟨⟨hsteady.base_mod, hsteady.length_mod, hsteady.windowBase_le, hsteady.stop_le⟩,
      hsteady.offsetsFit, hsteady.readsInFull⟩
  obtain ⟨-, hstanding, hk'⟩ := (h.leads_call hproper).of_run_ok hmap
  obtain ⟨hbase, hrecord, -, -, hpresents⟩ :=
    (h.leads_map_presents hlive (recordFor_populating hr all)).of_run_ok hmap base rfl
  refine ⟨hbase, hstanding, hrecord, hk', fun pid hpid => ?_⟩
  -- the family is the process alone, as nobody has forked yet
  obtain rfl : pid = p.pid := by
    rcases List.mem_append.mp hpid with hnone | hone
    · cases hnone
    · exact List.mem_singleton.mp hone
  exact ⟨p, rfl, (isLive_congr hstanding p).mpr hlive, (hpresents hsteady').of_populating⟩

/-- The same mapping is made with and without all of its pages. -/
theorem abreast_of_map {kₗ kₑ : Kernel} (hₗ : kₗ.standing = k.standing)
    (hₑ : kₑ.standing = k.standing) {i : Fin mappingLimit}
    (hfree : k.freeRecord? = some i)
    (hmₗ : kₗ.mappings = (k.withRecord i (some (r.populating false))).mappings)
    (hmₑ : kₑ.mappings = (k.withRecord i (some (r.populating true))).mappings) :
    kₗ.Abreast kₑ where
  standing_eq := hₑ.trans hₗ.symm
  freeRecordCount_eq := by
    have hnone := record_of_freeRecord? hfree
    rw [freeRecordCount_congr hmₗ, freeRecordCount_congr hmₑ]
    exact Nat.add_right_cancel
      ((freeRecordCount_withRecord hnone).trans (freeRecordCount_withRecord hnone).symm)
  length_mappingsOf q := by
    obtain ⟨before, after, hlist⟩ := k.exists_mappingsOf_withRecord i q
    have hsame (all : Bool) :
        ((some (r.populating all)).filter fun r => r.owner == q).toList.length =
          if r.owner == q then 1 else 0 := by
      -- whichever way it was made, it counts as one record of its owner
      rw [Option.filter_some]
      split
      · next howner => exact (if_pos howner).symm
      · next howner => exact (if_neg howner).symm
    simp only [mappingsOf_congr hmₗ, mappingsOf_congr hmₑ, hlist, List.length_append, hsame]

end Kernel

/-- **Lazy and eager mappings are alike.** Let a process of any kernel that is reached ask for a
mapping that it gets both with all pages at once and without. Whatever it and its descendants then
load and store in the range, however often they remove its first pages and fork, everybody gets the
same answers in both cases, and is killed by the same faults, as long as the pool does not run dry.
A load answers what was stored last by the process, or by its parent before the fork, and otherwise
what the file has at that place, or zero. -/
theorem lazy_and_eager_alike {pages : Nat} {boot k kₗ kₑ : Kernel} {past : List Transition}
    {p : Handle} {request : MappingRequest} {r : Mapping} {base base' : Nat}
    (hboot : boot.Booted pages) (hrun : Run Call.Proper boot past k) (hp : k.IsLive p)
    (hr : k.recordFor p request = .ok r) (hfit : request.offset + request.length < wordLimit)
    (hfile : ∀ file, r.file = some file → file.ReadsInFull)
    (hlazy : (Kernel.map p (request.populating false)).run k = .ok (.ok base) kₗ)
    (heager : (Kernel.map p (request.populating true)).run k = .ok (.ok base') kₑ) :
    base = r.base ∧ base' = r.base ∧ ∀ acts : List (Pid × UserStep),
      (∀ act ∈ acts, act.2.Within r) →
      (∀ e ∈ replay p.pid acts [] kₗ, ¬ e.isDry) → (∀ e ∈ replay p.pid acts [] kₑ, ¬ e.isDry) →
        replay p.pid acts [] kₑ = replay p.pid acts [] kₗ ∧
          Faithful r (replay p.pid acts [] kₗ) := by
  have hk := hrun.trim hboot
  have hfor := of_recordFor hr
  have hsteady : r.IsSteady := ⟨hfor.inWindow, by rwa [Mapping.OffsetsFit, hfor.offset_eq,
    hfor.length_eq], hfile⟩
  obtain ⟨hbase, hsₗ, ⟨i, hi, hmₗ⟩, hfₗ⟩ := hk.follows_of_map hp hr hsteady hlazy
  obtain ⟨hbase', hsₑ, ⟨j, hj, hmₑ⟩, hfₑ⟩ := hk.follows_of_map hp hr hsteady heager
  obtain rfl : i = j := Option.some.inj (hi.symm.trans hj)
  refine ⟨hbase, hbase', fun acts hacts hdryₗ hdryₑ => ⟨?_, ?_⟩⟩
  -- from there they keep abreast
  · exact (abreast_of_map hsₗ hsₑ hi hmₗ hmₑ).replay_eq hfₗ hfₑ hsteady hacts hdryₗ hdryₑ
  · exact hfₗ.faithful_replay hsteady hacts (faithful_nil r) hdryₗ

/-- The root process maps two pages that show a file. It loads, writes, forks, writes once more and
removes the first page, which kills it when it goes back there; the child loads what was written
before the fork. -/
theorem lazy_and_eager_alike_fork : ∃ (boot k kₗ kₑ : Kernel) (past : List Transition)
    (request : MappingRequest) (r : Mapping) (acts : List (Pid × UserStep)),
    boot.Booted 40 ∧ Run Call.Proper boot past k ∧ k.recordFor .eldest request = .ok r ∧
    (Kernel.map .eldest (request.populating false)).run k = .ok (.ok r.base) kₗ ∧
    (Kernel.map .eldest (request.populating true)).run k = .ok (.ok r.base) kₑ ∧
    (replay 1 acts [] kₗ).length = acts.length ∧ acts.length = 7 ∧
    replay 1 acts [] kₑ = replay 1 acts [] kₗ ∧ Faithful r (replay 1 acts [] kₗ) := by
  set file : OpenFile := ⟨0, true, true, [1, 2, 3], none, none⟩ with hfile
  set request : MappingRequest := ⟨0, 2 * pageSize, .readWrite, ⟨0⟩, 0, 0⟩
  set r : Mapping := ⟨.eldest, some file, windowBase, 2 * pageSize, 0, .readWrite, ⟨0⟩⟩ with hr
  set acts : List (Pid × UserStep) := [(1, .load windowBase 4), (1, .store (windowBase + 1) [9]),
    (1, .fork), (1, .store windowBase [8]), (1, .unmap windowBase pageSize),
    (2, .load windowBase 4), (1, .load windowBase 1)]
  obtain ⟨boot, past, k, hboot, hrun, hcheck⟩ := Run.of_rehearse Call.Proper 40
    [.startRoot [], .dispatch 0, .openFile .eldest file]
    (fun _ k => (k.recordFor .eldest request).toOption == some r &&
      Run.admits Call.Proper k (.map .eldest (request.populating false)) fun answer kₗ =>
        Except.toOption answer == some windowBase &&
        Run.admits Call.Proper k (.map .eldest (request.populating true)) fun answer' kₑ =>
          Except.toOption answer' == some windowBase &&
            ((replay 1 acts [] kₗ).all (!·.isDry) && (replay 1 acts [] kₑ).all (!·.isDry) &&
              (replay 1 acts [] kₗ).length == 7))
    (by decide +kernel)
  obtain ⟨hrecord, hcheck⟩ := Bool.and_eq_true_iff.mp hcheck
  obtain ⟨hproper, answer, kₗ, hlazy, hcheck⟩ := Run.of_admits hcheck
  obtain ⟨hbase, hcheck⟩ := Bool.and_eq_true_iff.mp hcheck
  obtain ⟨-, answer', kₑ, heager, hcheck⟩ := Run.of_admits hcheck
  obtain ⟨hbase', hcheck⟩ := Bool.and_eq_true_iff.mp hcheck
  obtain ⟨hdry, hlength⟩ := Bool.and_eq_true_iff.mp hcheck
  obtain ⟨hdryₗ, hdryₑ⟩ := Bool.and_eq_true_iff.mp hdry
  have hrecord := eq_ok_of_toOption (beq_iff_eq.mp hrecord)
  obtain rfl := eq_ok_of_toOption (beq_iff_eq.mp hbase)
  obtain rfl := eq_ok_of_toOption (beq_iff_eq.mp hbase')
  have hreads : ∀ f, r.file = some f → f.ReadsInFull := by
    rintro _ ⟨⟩
    exact ⟨rfl, nofun⟩
  obtain ⟨-, -, halike⟩ := lazy_and_eager_alike hboot hrun (hproper.1 _ rfl) hrecord (by decide)
    hreads hlazy heager
  have hwithin : ∀ act ∈ acts, act.2.Within r := by decide +kernel
  have hwet (e : UserEvent) {events : List UserEvent} (hall : events.all (!·.isDry))
      (he : e ∈ events) : ¬ e.isDry := by
    simpa using List.all_eq_true.mp hall e he
  obtain ⟨hsame, hfaithful⟩ := halike acts hwithin (fun e => hwet e hdryₗ) fun e => hwet e hdryₑ
  exact ⟨boot, k, kₗ, kₑ, past, request, r, acts, hboot, hrun, hrecord, hlazy, heager,
    beq_iff_eq.mp hlength, rfl, hsame, hfaithful⟩

end FairKernel
