import FairKernel.Proofs.MappingTable
import FairKernel.Proofs.StaleHandles

/-!
# Stale records

A process that is reaped leaves its mapping records behind. They are found by the handle of their
owner and nobody has that handle any more, so no call reads what they say and none changes them:
whatever such a record says, each call comes to the same. All that counts is that it is not free.

An action overlooks a record (`Overlooks`) if it comes to the same with any other record in its
place. Most actions do, because they do not look at the table at all (`Ignores.overlooks`). Those
that do look for records of one owner, or for a free one, and find neither
(`findRecord?_withRecord`, `freeRecord?_withRecord`). In a fork or a reaping the owner is the child,
which is not the owner of the record, as the numbers of those who are gone are never given again.
-/

namespace FairKernel

variable {α β : Type}

namespace Kernel

variable {k k' : Kernel} {i : Fin mappingLimit} {r r' : Mapping} {h : Handle}

/-! ### Another record in its place -/

/-- What an action comes to does not depend on what the record at `i` says, and the record stays as
it is. -/
def Overlooks (i : Fin mappingLimit) (r r' : Mapping) (k : Kernel) (x : KernelM α) : Prop :=
  k.record i = some r →
    x.run (k.withRecord i (some r')) = leaving (withRecord · i (some r')) (x.run k) ∧
      Leads k x (fun _ k' => k'.record i = some r) fun _ => True

namespace Overlooks

variable {x : KernelM α} {f : α → KernelM β}

/-- To do nothing overlooks everything. -/
theorem pure (a : α) : Overlooks i r r' k (Pure.pure a) := fun hr => ⟨rfl, hr⟩

/-- One after the other, as long as the record stays. -/
theorem bind (hx : Overlooks i r r' k x)
    (hf : ∀ a k', x.run k = .ok a k' → k'.record i = some r → Overlooks i r r' k' (f a)) :
    Overlooks i r r' k (x >>= f) := by
  intro hr
  obtain ⟨hrun, hleads⟩ := hx hr
  refine ⟨?_, leads_bind.mpr ?_⟩
  · change EStateM.bind x f _ = leaving _ (EStateM.bind x f k)
    have hrun : x (k.withRecord i (some r')) = leaving (withRecord · i (some r')) (x k) := hrun
    unfold EStateM.bind
    rw [hrun]
    cases hres : x k with
    | ok a k' =>
      have hr' := hleads.of_run_ok hres
      exact (hf a k' hres hr' hr').1
    | error c k' => rfl
  · refine .of_outcomes (fun a k' hres => ?_) fun _ _ _ => trivial
    have hr' := hleads.of_run_ok hres
    exact (hf a k' hres hr' hr').2

/-- The kernel may be looked at as long as the record does not matter. -/
theorem get_bind {f : Kernel → KernelM β}
    (hsame : k.record i = some r → f (k.withRecord i (some r')) = f k)
    (hf : k.record i = some r → Overlooks i r r' k (f k)) :
    Overlooks i r r' k (MonadState.get >>= f) := by
  intro hr
  obtain ⟨hrun, hleads⟩ := hf hr hr
  refine ⟨?_, leads_bind.mpr (leads_get.mpr hleads)⟩
  change (f (k.withRecord i (some r'))).run _ = leaving _ ((f k).run k)
  rw [hsame hr]
  exact hrun

end Overlooks

/-- What does not look at the mapping table overlooks each of its records. -/
theorem Ignores.overlooks {x : KernelM α} (hx : Ignores x) : Overlooks i r r' k x := by
  intro hr
  have hkeeps := hx.keeps.leads k
  refine ⟨(hx k (k.mappings.set i (some r'))).trans ?_, hkeeps.imp fun _ _ h => ?_⟩
  -- the action answers, or panics, with the table that it was given
  · cases hres : x.run k with
    | ok a k' =>
      have hsame := hkeeps.of_run_ok hres
      unfold leaving withRecord withMappings
      dsimp only
      rw [hsame]
    | error c k' =>
      have hsame := ((hx.keeps k).of_run_error hres).1
      unfold leaving withRecord withMappings
      dsimp only
      rw [hsame]
  · rw [record_congr h]
    exact hr

/-! ### Reading the table -/

section Reading

variable (hr : k.record i = some r) (howner : r.owner ≠ h) (howner' : r'.owner ≠ h)

include hr in
/-- Another record is not free either. -/
theorem freeRecord?_withRecord : (k.withRecord i (some r')).freeRecord? = k.freeRecord? := by
  refine findFinIdx?_congr fun j => ?_
  have hrecord := record_withRecord k i j (some r')
  unfold record at hrecord hr
  rw [hrecord]
  split
  · next e => rw [← e, hr]; rfl
  · rfl

include hr in
/-- Who filters out what both records say sees no difference. -/
theorem filter_record_withRecord {f : Mapping → Bool} (hf : f r = false) (hf' : f r' = false)
    (j : Fin mappingLimit) :
    ((k.withRecord i (some r')).record j).filter f = (k.record j).filter f := by
  rw [record_withRecord]
  split
  · next e => rw [← e, hr, Option.filter_some_neg hf, Option.filter_some_neg hf']
  · rfl

include hr howner howner' in
/-- Who owns neither record finds the same records. -/
theorem findRecord?_withRecord (condition : Mapping → Bool) :
    (k.withRecord i (some r')).findRecord? h condition = k.findRecord? h condition := by
  have hout {s : Mapping} (hs : s.owner ≠ h) : (s.owner == h && condition s) = false := by
    simp [hs]
  unfold findRecord?
  congr 1
  funext j
  rw [filter_record_withRecord hr (hout howner) (hout howner')]

include hr howner howner' in
/-- Who owns neither record has the same mappings. -/
theorem mappingsOf_withRecord_of_ne :
    (k.withRecord i (some r')).mappingsOf h = k.mappingsOf h := by
  refine mappingsOf_congr_of_iff fun j s hs => ?_
  rw [record_withRecord]
  split
  · next e =>
    subst e
    rw [hr]
    constructor
    · rintro ⟨⟩
      exact absurd hs howner'
    · rintro ⟨⟩
      exact absurd hs howner
  · rfl

include hr howner in
/-- A record that a process finds is another one. -/
theorem index_ne_of_owner {j : Fin mappingLimit} {s : Mapping} (hs : k.record j = some s)
    (hsowner : s.owner = h) : j ≠ i := by
  rintro rfl
  rw [hr] at hs
  cases hs
  exact howner hsowner

include hr in
/-- So is a record that is free. -/
theorem index_ne_of_free {j : Fin mappingLimit} (hj : k.freeRecord? = some j) : j ≠ i := by
  rintro rfl
  rw [record_of_freeRecord? hj] at hr
  cases hr

end Reading

/-- A record that is not the one at `i` may be replaced. -/
theorem setRecord_overlooks {j : Fin mappingLimit} (record : Option Mapping) (hj : j ≠ i) :
    Overlooks i r r' k (setRecord j record) := by
  intro hr
  have hcomm : (k.withRecord i (some r')).withRecord j record =
      (k.withRecord j record).withRecord i (some r') := by
    unfold withRecord
    dsimp only
    rw [Vector.set_comm _ _ fun h => hj (Fin.ext h).symm]
  refine ⟨congrArg (EStateM.Result.ok ()) hcomm, leads_setRecord.mpr ?_⟩
  rw [record_withRecord, if_neg hj]
  exact hr

/-! ### Work through another handle -/

section Owners

variable (howner : r.owner ≠ h) (howner' : r'.owner ≠ h)

include howner howner' in
/-- Mapping memory overlooks a record of another owner. -/
theorem map_overlooks (request : MappingRequest) : Overlooks i r r' k (map h request) := by
  refine .get_bind (fun hr => ?_) fun hr => ?_
  · have hrecord : (k.withRecord i (some r')).recordFor h request = k.recordFor h request := rfl
    simp only [findRecord?_withRecord hr howner howner', freeRecord?_withRecord hr, hrecord]
  split
  -- there is no sound request, the range is not free, or no record is
  · exact .pure _
  next s _ =>
  split
  · exact .pure _
  split
  · exact .pure _
  next j hfree =>
  have hj := index_ne_of_free hr hfree
  -- the mapping could not be filled, so its own record is taken out again
  have fails (e : MappingError) (k : Kernel) : Overlooks i r r' k (do
      let _ ← onMemory h fun m => m.unmap s.base s.pageCount
      flushTlb
      setRecord j none
      note (.populateFailed h.pid e)
      return .error e : KernelM (Except MappingError Nat)) :=
    .bind (onMemory_ignores h _).overlooks fun _ _ _ _ => .bind flushTlb_ignores.overlooks
      fun _ _ _ _ => .bind (setRecord_overlooks none hj) fun _ _ _ _ =>
        .bind (note_ignores _).overlooks fun _ _ _ _ => .pure _
  -- the mapping is made
  have succeeds (k : Kernel) : Overlooks i r r' k (do
      note (.mapped h.pid s.base s.stop s.protection s.options)
      return .ok s.base : KernelM (Except MappingError Nat)) :=
    .bind (note_ignores _).overlooks fun _ _ _ _ => .pure _
  refine .bind (setRecord_overlooks _ hj) fun _ k₁ _ _ => ?_
  dsimp only
  split
  · refine .bind (installPages_ignores h s _ _).overlooks fun filled k₂ _ _ => ?_
    cases filled with
    | error e => exact fails e k₂
    | ok _ => exact succeeds k₂
  · exact succeeds k₁

include howner howner' in
/-- Removing mappings overlooks a record of another owner. -/
theorem unmap_overlooks (address length : Nat) : Overlooks i r r' k (unmap h address length) := by
  unfold unmap
  -- the request is no range of whole pages in the window
  split
  · exact .pure _
  split
  · exact .pure _
  split
  · exact .pure _
  refine .get_bind (fun hr => ?_) fun hr => ?_
  · rw [findRecord?_withRecord hr howner howner']
  split
  · exact .pure _
  next j s hfound =>
  -- what is found is a record of the owner, and so another one
  obtain ⟨hs, hsowner, -⟩ := of_findRecord? hfound
  have hj := index_ne_of_owner hr howner hs hsowner
  split
  · exact .pure _
  · exact .bind (Ignores.lift _).overlooks fun _ _ _ _ => .bind (setRecord_overlooks _ hj)
      fun _ _ _ _ => Ignores.overlooks <| .bind (onMemory_ignores h _) fun _ =>
        .bind flushTlb_ignores fun _ => .bind (note_ignores _) fun _ => .pure _

include howner howner' in
/-- Touching memory overlooks a record of another owner. -/
theorem touch_overlooks (address : Nat) (access : Access) :
    Overlooks i r r' k (touch h address access) := by
  refine .get_bind (fun hr => ?_) fun _ => ?_
  · rw [findRecord?_withRecord hr howner howner']
  split
  · exact .pure _
  · refine Ignores.overlooks ?_
    split
    · exact .pure _
    · refine .bind (memoryOf_ignores h) fun m => ?_
      split
      · exact .pure _
      · exact .bind (note_ignores _) fun _ => installPage_ignores h _ _

include howner howner' in
/-- Vacating a slot overlooks a record of another owner, as it only counts those of its own. -/
theorem vacate_overlooks : Overlooks i r r' k (vacate h) := by
  refine .get_bind (fun hr => ?_) fun _ => Ignores.overlooks ?_
  · rw [mappingsOf_withRecord_of_ne hr howner howner']
    rfl
  · have rest (pool : Pool) : Ignores (do
        modify fun k => { k with pool }
        if !(k.mappingsOf h).isEmpty then
          note (.leftMappings h.pid (k.mappingsOf h).length)
        modifySlot h Slot.vacated) := by
      refine .bind (.change fun _ _ => rfl) fun _ => ?_
      dsimp only
      split
      · exact .bind (note_ignores _) fun _ => modifySlot_ignores h _
      · exact modifySlot_ignores h _
    dsimp only
    split
    · exact rest _
    · exact .bind (.lift _) rest

include howner howner' in
/-- Mappings of another owner are dropped. -/
theorem dropMappings_overlooks (indices : List (Fin mappingLimit)) :
    Overlooks i r r' k (dropMappings h indices) := by
  have hout {s : Mapping} (hs : s.owner ≠ h) : (s.owner == h) = false := by simpa using hs
  induction indices generalizing k with
  | nil => exact .pure _
  | cons j rest ih =>
    refine .get_bind (fun hr => ?_) fun hr => ?_
    · rw [filter_record_withRecord hr (hout howner) (hout howner')]
    split
    · exact ih
    next s hs =>
    obtain ⟨hs, hsowner⟩ := Option.filter_eq_some_iff.mp hs
    have hj := index_ne_of_owner hr howner hs (beq_iff_eq.mp hsowner)
    exact .bind (onMemory_ignores h _).overlooks fun _ _ _ _ => .bind (setRecord_overlooks none hj)
      fun _ _ _ _ => ih

/-- Mappings are copied for another owner. -/
theorem copyRecords_overlooks (child : Handle) (t : PageTable) (records : List Mapping) :
    Overlooks i r r' k (copyRecords child t records) := by
  induction records generalizing k with
  | nil => exact .pure _
  | cons s rest ih =>
    refine .get_bind (fun hr => ?_) fun hr => ?_
    · rw [freeRecord?_withRecord hr]
    split
    · exact .pure _
    next j hfree =>
    have hj := index_ne_of_free hr hfree
    refine .bind (onMemory_ignores child _).overlooks fun copied _ _ _ => ?_
    split
    · exact .pure _
    · exact .bind (setRecord_overlooks _ hj) fun _ _ _ _ => ih

end Owners

/-! ### Making and reaping processes -/

section Processes

variable {pages : Nat} {child : Handle}

/-- Copying a process overlooks a record of neither parent nor child. -/
theorem copyProcess_overlooks (howner : r.owner ≠ h) (howner' : r'.owner ≠ h)
    (hchild : r.owner ≠ child) (hchild' : r'.owner ≠ child) :
    Overlooks i r r' k (copyProcess h child) := by
  -- the records of the parent are copied, or dropped again if one of them cannot be
  have mappings (t : PageTable) (k : Kernel) : Overlooks i r r' k (copyMappings h child t) := by
    refine .get_bind (fun hr => ?_) fun _ => ?_
    · rw [mappingsOf_withRecord_of_ne hr howner howner']
    refine .bind (copyRecords_overlooks child t _) fun copied _ _ _ => ?_
    split
    · exact .pure _
    · exact .bind (dropMappings_overlooks hchild hchild' _) fun _ _ _ _ => .pure _
  refine .bind (getSlot_ignores h).overlooks fun s _ _ _ => ?_
  split
  · exact (Ignores.throw _).overlooks
  refine .bind (onMemory_ignores child _).overlooks fun copied _ _ _ => ?_
  split
  · exact .pure _
  refine .bind (modifySlot_ignores child _).overlooks fun _ _ _ _ => .bind (mappings _ _)
    fun copied _ _ _ => ?_
  split
  · exact .pure _
  · exact .bind (modifyRegisters_ignores child _).overlooks fun _ _ _ _ =>
      .bind (modifySlot_ignores child _).overlooks fun _ _ _ _ => .pure _

/-- The number of a new process is the next one, ... -/
theorem leads_takePid : Leads k takePid (fun pid _ => pid = k.nextPid) fun _ => True := by
  unfold takePid
  simp only [leads_bind, leads_get]
  split
  · trivial
  · exact rfl

variable (hnext : r.owner.pid ≠ k.nextPid) (hnext' : r'.owner.pid ≠ k.nextPid)

include hnext hnext' in
/-- ... so it owns neither record. -/
theorem claim_overlooks : Overlooks i r r' k claim := by
  refine .get_bind (fun _ => rfl) fun _ => ?_
  split
  · exact .pure _
  refine .bind takePid_ignores.overlooks fun pid _ hran _ => ?_
  obtain rfl : pid = k.nextPid := leads_takePid.of_run_ok hran
  refine .bind (modifySlot_ignores _ _).overlooks fun _ _ _ _ =>
    .bind (buildSpace_ignores _).overlooks fun _ _ _ _ => ?_
  split
  · exact .pure _
  · exact .bind (vacate_overlooks (fun h => hnext (congrArg Handle.pid h))
      fun h => hnext' (congrArg Handle.pid h)) fun _ _ _ _ => .pure _

include hnext hnext' in
/-- A fork overlooks a record whose owner is not its caller and has not the next number. -/
theorem fork_overlooks (hk : k.Partitioned pages) (howner : r.owner ≠ h) (howner' : r'.owner ≠ h) :
    Overlooks i r r' k (fork h) := by
  refine .bind (getSlot_ignores h).overlooks fun s k₁ hread _ => ?_
  cases hread
  refine .bind (claim_overlooks hnext hnext') fun claimed k₂ hran _ => ?_
  split
  · exact .pure _
  next child =>
  -- the child has the next number, so it owns neither record
  have hpid : child.pid = k.nextPid := (hk.leads_claim.of_run_ok hran).2.2.1
  have hchild : r.owner ≠ child := fun h => hnext ((congrArg Handle.pid h).trans hpid)
  have hchild' : r'.owner ≠ child := fun h => hnext' ((congrArg Handle.pid h).trans hpid)
  refine .bind (copyProcess_overlooks howner howner' hchild hchild') fun copied _ _ _ => ?_
  split
  · exact .bind (vacate_overlooks hchild hchild') fun _ _ _ _ => .pure _
  · exact Ignores.overlooks <| .bind (.lift _) fun _ => .bind (modifySlot_ignores _ _) fun _ =>
      .bind (note_ignores _) fun _ => .pure _

include hnext hnext' in
/-- Making the root process overlooks a record whose owner has not the next number. -/
theorem startRoot_overlooks (hk : k.Partitioned pages) (image : Bytes) :
    Overlooks i r r' k (startRoot image) := by
  refine .get_bind (fun _ => rfl) fun _ => ?_
  split
  · exact (Ignores.throw_bind _ _).overlooks
  refine .bind (claim_overlooks hnext hnext') fun claimed k₂ hran _ => ?_
  split
  · exact .pure _
  next p =>
  have hpid : p.pid = k.nextPid := (hk.leads_claim.of_run_ok hran).2.2.1
  have hp : r.owner ≠ p := fun h => hnext ((congrArg Handle.pid h).trans hpid)
  have hp' : r'.owner ≠ p := fun h => hnext' ((congrArg Handle.pid h).trans hpid)
  refine .bind (Ignores.lift _).overlooks fun size _ _ _ =>
    .bind (onMemory_ignores p _).overlooks fun loaded _ _ _ => ?_
  split
  · exact .bind (vacate_overlooks hp hp') fun _ _ _ _ => .pure _
  · exact Ignores.overlooks <| .bind (modifyRegisters_ignores p _) fun _ =>
      .bind (modifySlot_ignores p _) fun _ => .bind (.change fun _ _ => rfl) fun _ =>
        .bind (note_ignores _) fun _ => .pure _

/-- Whoever is reaped lives until then, so it does not own a record of somebody who is gone. -/
theorem awaitRound_overlooks (hgone : ∀ p, k.IsLive p → r.owner ≠ p)
    (hgone' : ∀ p, k.IsLive p → r'.owner ≠ p) (target : Option Pid) (address : Nat) :
    Overlooks i r r' k (awaitRound h target address) := by
  -- the zombie is a child that lives until it is reaped, so it owns neither record
  have reaps (j : Fin slotCount) (hj : (k.slot j).isLive) :
      Overlooks i r r' k (reapZombie h address j) := by
    refine .get_bind (fun _ => rfl) fun _ => ?_
    have hp : k.IsLive ⟨j, (k.slot j).pid⟩ := ⟨hj, rfl⟩
    have frees (k' : Kernel) : Overlooks i r r' k' (do
        vacate ⟨j, (k.slot j).pid⟩
        modifySlot ⟨j, (k.slot j).pid⟩ fun s => { s with parent := none }
        note (.reaped h.pid (k.slot j).pid)
        return .ok (k.slot j).pid : KernelM (Except ProcessError Pid)) :=
      .bind (vacate_overlooks (hgone _ hp) (hgone' _ hp)) fun _ _ _ _ =>
        Ignores.overlooks <| .bind (modifySlot_ignores _ _) fun _ => .bind (note_ignores _)
          fun _ => .pure _
    dsimp only
    split
    · exact .bind (.pure _) fun _ k' _ _ => by split; exacts [.pure _, frees k']
    · exact .bind (storeUser_ignores h _ _).overlooks fun _ k' _ _ => by
        split; exacts [.pure _, frees k']
  -- looking for a child does not look at the table
  have looks : Overlooks i r r' k (reap? h target address) := by
    refine .get_bind (fun _ => rfl) fun _ => ?_
    dsimp only
    split
    · next j hfound =>
      have hzombie : (k.slot j).state = .zombie := by simpa using List.find?_some hfound
      exact .bind (reaps j (Slot.isLive_of_state_eq hzombie nofun)) fun _ _ _ _ => .pure _
    · split
      · exact .pure _
      · refine .bind (isKilled_ignores h).overlooks fun killed _ _ _ => ?_
        split <;> exact .pure _
  refine .bind looks fun result _ _ _ => ?_
  split
  · exact .bind (fallAsleep_ignores h _).overlooks fun _ _ _ _ => .pure _
  · exact .pure _

end Processes

/-! ### Whole calls -/

/-- **Stale records.** If the owners of two records are gone, no call tells one from the other, and
none changes it. -/
theorem Kempt.overlooks {pages : Nat} {c : Call} (hk : k.Kempt pages) (hc : c.ThroughLive k)
    (hgone : k.standing.Departed r.owner.pid) (hgone' : k.standing.Departed r'.owner.pid) :
    Overlooks i r r' k c.run := by
  -- who is gone is nobody that lives, and will not be given the next number
  have absent {r : Mapping} (hgone : k.standing.Departed r.owner.pid) (p : Handle)
      (hp : k.IsLive p) : r.owner ≠ p := fun heq =>
    hgone.pid_ne p.slot hp.1 (hp.2.trans (congrArg Handle.pid heq).symm)
  have hnext : r.owner.pid ≠ k.nextPid := (show r.owner.pid < k.nextPid from hgone.pid_lt).ne
  have hnext' : r'.owner.pid ≠ k.nextPid := (show r'.owner.pid < k.nextPid from hgone'.pid_lt).ne
  have howner {p : Handle} (hp : c.handle? = some p) := absent hgone p (hc p hp)
  have howner' {p : Handle} (hp : c.handle? = some p) := absent hgone' p (hc p hp)
  -- all calls but these do not look at the table
  cases c with
  | startRoot image => exact startRoot_overlooks hnext hnext' hk.toPartitioned image
  | dispatch cpu => exact (dispatch_ignores cpu).overlooks
  | release cpu => exact (setRunning_ignores cpu none).overlooks
  | idleTick => exact advanceClock_ignores.overlooks
  | wake channel => exact (wake_ignores channel).overlooks
  | kill target => exact (kill_ignores target).overlooks
  | setNice target nice => exact (setNice_ignores target nice).overlooks
  | fork p => exact fork_overlooks hnext hnext' hk.toPartitioned (howner rfl) (howner' rfl)
  | exit p status => exact (exit_ignores p status).overlooks
  | awaitChild p target address =>
    exact awaitRound_overlooks (absent hgone) (absent hgone') target address
  | nap p start count => exact (napRound_ignores p start count).overlooks
  | fallAsleep p channel => exact (fallAsleep_ignores p channel).overlooks
  | getUp p => exact (getUp_ignores p).overlooks
  | giveUpCpu p => exact (giveUpCpu_ignores p).overlooks
  | tick p => exact (tick_ignores p).overlooks
  | setKilled p => exact (setKilled_ignores p).overlooks
  | setRegisters p change => exact (modifyRegisters_ignores p change).overlooks
  | map p request => exact map_overlooks (howner rfl) (howner' rfl) request
  | unmap p address length => exact unmap_overlooks (howner rfl) (howner' rfl) address length
  | touch p address access => exact touch_overlooks (howner rfl) (howner' rfl) address access
  | resize p change => exact (resize_ignores p change).overlooks
  | store p address bytes => exact (storeUser_ignores p address bytes).overlooks
  | openFile p file => exact (openFile_ignores p file).overlooks
  | closeFile p descriptor => exact (closeFile_ignores p descriptor).overlooks
  | report calls console => exact Ignores.overlooks (.change fun _ _ => rfl)

end Kernel

/-- A call that was made, with another record in the table before and after it. -/
def Transition.withRecord (i : Fin mappingLimit) (r : Option Mapping) (t : Transition) :
    Transition :=
  { t with before := t.before.withRecord i r, after := t.after.withRecord i r }

open Kernel

section Runs

variable {pages : Nat} {boot start k : Kernel} {past later : List Transition}
  {i : Fin mappingLimit} {r r' : Mapping}

/-- What holds of one call holds of a run: the record stays, and with another one in its place the
same calls come to the same. -/
theorem Run.overlooks (hrun : Run Call.ThroughLive start later k) (hstart : start.Kempt pages)
    (hr : start.record i = some r) (hgone : start.standing.Departed r.owner.pid)
    (hgone' : start.standing.Departed r'.owner.pid) : k.record i = some r ∧
      Run Call.ThroughLive (start.withRecord i (some r')) (later.map (·.withRecord i (some r')))
        (k.withRecord i (some r')) := by
  -- by calls: the owner of the record is gone, so none of them asks for it
  induction hrun with
  | refl => exact ⟨hr, .refl⟩
  | @call later k₁ k₂ c a earlier allowed ran ih =>
    have hoverlooks : Overlooks i r r' k₁ c.run := (earlier.kempt hstart).overlooks allowed
      (earlier.departed hgone).1 (earlier.departed hgone').1
    obtain ⟨hsame, hkept⟩ := hoverlooks ih.1
    refine ⟨hkept.of_run_ok ran, .call ih.2 allowed ?_⟩
    -- with the other record in its place the call answers the same
    rw [hsame, ran]
    rfl

/-- **The mapping table.** At the end of every run each record stands for whole pages of the mapping
window, may be read, and has a file exactly if it is not anonymous, one that may be used as the
record says; the records of one process lie apart. A record whose owner was reaped stays as it is in
every later run, is not among the mappings of anybody who lives then, and is what no fault and no
removal of theirs finds. All calls come to the same with any other such record in its place: all
that counts is that it is not free. -/
theorem mapping_table_in_order (hboot : boot.Booted pages)
    (hrun : Run Call.ThroughLive boot past k) :
    (∀ (j : Fin mappingLimit) r, k.record j = some r → r.IsSound) ∧
    (∀ (i j : Fin mappingLimit) r r', i ≠ j → k.record i = some r → k.record j = some r' →
      r.owner = r'.owner → r.stop ≤ r'.base ∨ r'.stop ≤ r.base) ∧
    ∀ (i : Fin mappingLimit) r, k.record i = some r → Reaped past r.owner →
      ∀ later k', Run Call.ThroughLive k later k' →
        k'.record i = some r ∧
        (∀ q, k'.IsLive q → r ∉ k'.mappingsOf q ∧
          ∀ condition r', k'.findRecord? q condition ≠ some (i, r')) ∧
        ∀ r', Reaped past r'.owner →
          Run Call.ThroughLive (k.withRecord i (some r')) (later.map (·.withRecord i (some r')))
            (k'.withRecord i (some r')) ∧
          ∀ c : Call, c.ThroughLive k' → c.run.run (k'.withRecord i (some r')) =
            leaving (Kernel.withRecord · i (some r')) (c.run.run k') := by
  have hcharted := hrun.charted hboot
  have hkempt := hrun.kempt hboot.kempt
  refine ⟨hcharted.sound, fun i j r r' hij hr hr' howner => ?_,
    fun i r hr hreaped later k' hlater => ?_⟩
  -- records of one process have no address in common, so one ends before the other starts
  · refine Mapping.stop_le_or_le_of_avoids (fun address hc hc' => hij ?_)
      (hcharted.sound i r hr).length_pos (hcharted.sound j r' hr').length_pos
    exact hcharted.eq_of_covers hr hr' howner.symm hc hc'
  have hgone := hrun.departed_of_reaped hboot hreaped
  have hgone₁ := (hlater.departed hgone).1
  have hr₁ := (hlater.overlooks hkempt hr hgone hgone).1
  refine ⟨hr₁, fun q hq => ?_, fun r' hreaped' => ?_⟩
  -- who lives is not the owner of the record, so nothing it looks for is this record
  · have hne : r.owner ≠ q := fun heq => hgone₁.pid_ne q.slot hq.1
      (hq.2.trans (congrArg Handle.pid heq).symm)
    refine ⟨fun hmem => ?_, fun condition r' hfound => ?_⟩
    · obtain ⟨_, -, howner⟩ := mem_mappingsOf.mp hmem
      exact hne howner
    · obtain ⟨hfound, howner, -⟩ := of_findRecord? hfound
      exact index_ne_of_owner hr₁ hne hfound howner rfl
  -- two records whose owners are gone stand for each other
  · have hgone' := hrun.departed_of_reaped hboot hreaped'
    refine ⟨(hlater.overlooks hkempt hr hgone hgone').2, fun c hc => ?_⟩
    exact ((hlater.kempt hkempt).overlooks hc hgone₁ (hlater.departed hgone').1 hr₁).1

/-- A child that had a mapping was reaped, and the next one has its slot but not its mapping. -/
theorem mapping_table_in_order_reaped : ∃ (boot k : Kernel) (past : List Transition)
    (i : Fin mappingLimit) (r : Mapping) (q : Handle), boot.Booted 12 ∧
      Run Call.ThroughLive boot past k ∧ k.record i = some r ∧ Reaped past r.owner ∧
      r.IsSound ∧ k.IsLive q ∧ q.slot = r.owner.slot ∧ r ∉ k.mappingsOf q := by
  let request : MappingRequest :=
    { address := 0, length := pageSize, protection := .readWrite, options := ⟨1⟩ }
  obtain ⟨boot, past, k, hboot, hrun, hcheck⟩ := Run.of_rehearse Call.ThroughLive 12
    [.startRoot [], .fork .eldest, .map .second request, .touch .second windowBase .write,
      .exit .second 7, .awaitChild .eldest none 0, .fork .eldest]
    (fun past k => decide (Reaped past .second ∧ k.IsLive ⟨Handle.second.slot, 3⟩ ∧
      (k.record ⟨0, by decide⟩).map Mapping.owner = some .second)) (by decide +kernel)
  obtain ⟨hreaped, hq, howner⟩ := of_decide_eq_true hcheck
  obtain ⟨r, hr, howner⟩ := Option.map_eq_some_iff.mp howner
  rw [← howner] at hreaped
  obtain ⟨hsound, -, hstale⟩ := mapping_table_in_order hboot hrun
  obtain ⟨-, hothers, -⟩ := hstale _ r hr hreaped [] k .refl
  exact ⟨boot, k, past, _, r, ⟨Handle.second.slot, 3⟩, hboot, hrun, hr, hreaped, hsound _ r hr, hq,
    by rw [howner], (hothers _ hq).1⟩

end Runs

end FairKernel
