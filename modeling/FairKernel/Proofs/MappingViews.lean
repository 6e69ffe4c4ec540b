import FairKernel.Proofs.UserAccesses

/-!
# What a family sees of a mapping

A process and its descendants load and store in a mapping, remove its first pages and fork. The
history of these steps says what each of them is to see: what it stored last, or its parent before
the fork, and otherwise what the mapping showed at first. As long as the pool does not run dry, this
is what the steps answer, however many pages of the mapping were there to begin with.

The history alone says what a step is to answer (`UserStep.due`, `Faithful`), so two kernels in
which the same steps are made answer alike if both answer what is due. That a kernel does is an
invariant (`Follows`): every member of the family lives and sees what the history says, which each
step keeps (`Follows.leads_step`).
-/

namespace FairKernel

/-- What a process may do with a mapping. -/
inductive UserStep
  | load (address count : Nat)
  | store (address : Nat) (bytes : Bytes)
  | unmap (address length : Nat)
  | fork

/-- How much of a mapping a process still has, and the bytes that it is to find there. -/
structure View where
  first : Nat
  bytes : Nat → UInt8

namespace UserStep

/-- What a step answers. -/
abbrev Answer : UserStep → Type
  | load _ _ => Except MappingError Bytes
  | store _ _ => Except MappingError Unit
  | unmap _ _ => Except MappingError Unit
  | fork => Except ProcessError Pid

/-- A step of a process. -/
def run (h : Handle) : (s : UserStep) → KernelM s.Answer
  | load address count => Kernel.userLoad h address count
  | store address bytes => Kernel.userStore h address bytes
  | unmap address length => Kernel.unmap h address length
  | fork => Kernel.fork h

/-- Whether a step stays within the range of a mapping. -/
def Within (r : Mapping) : UserStep → Prop
  | load address count => r.base ≤ address ∧ address + count ≤ r.stop
  | store address bytes => r.base ≤ address ∧ address + bytes.length ≤ r.stop
  | unmap address length => r.base ≤ address ∧ address + length ≤ r.stop
  | fork => True

instance (r : Mapping) : (s : UserStep) → Decidable (s.Within r)
  | load address count => inferInstanceAs (Decidable (r.base ≤ address ∧ address + count ≤ r.stop))
  | store address bytes =>
    inferInstanceAs (Decidable (r.base ≤ address ∧ address + bytes.length ≤ r.stop))
  | unmap address length =>
    inferInstanceAs (Decidable (r.base ≤ address ∧ address + length ≤ r.stop))
  | fork => inferInstanceAs (Decidable True)

/-- Whether the pool ran dry in a step. -/
def isDry : (s : UserStep) → s.Answer → Bool
  | load _ _, .error (.memory .outOfMemory) => true
  | store _ _, .error (.memory .outOfMemory) => true
  | fork, .error (.memory .outOfMemory) => true
  | fork, .error (.mapping (.memory .outOfMemory)) => true
  | _, _ => false

/-- An answer, unless something stands against it. -/
def answerUnless {ε α : Type} (a : α) : Option ε → Except ε α
  | none => .ok a
  | some e => .error e

/-- What a step is to answer, given what comes of a fork. -/
def due (r : Mapping) (v : View) (verdict : Except Panic (Except ProcessError Pid)) :
    (s : UserStep) → Except Panic s.Answer
  | load address count => .ok <|
    answerUnless ((List.range count).map fun j => v.bytes (address + j))
      (r.fault? v.first .read address count)
  | store address bytes => .ok <|
    answerUnless () (r.fault? v.first .write address bytes.length)
  | unmap address length => .ok <| answerUnless () (Mapping.refusal? v.first address length)
  | fork => verdict

/-- How a step changes what forks depend on. -/
def Moves (pages : Nat) (r : Mapping) (v : View) (k : Kernel) (h : Handle) :
    (s : UserStep) → s.Answer → Kernel → Prop
  | unmap _ length, .ok _, k' => k.Served pages h k' ∧
    k.GivesUp h (if v.first + length = r.stop then 1 else 0) k'
  | fork, .ok child, k' => (Call.fork h).Effect k (.ok child) k'.standing ∧
    ∃ i, k.Copies pages h ⟨i, child⟩ k'
  | fork, .error e, k' => (Call.fork h).Effect k (.error e) k'.standing ∧ k'.mappings = k.mappings
  | _, _, k' => k'.standing = k.standing ∧ k'.mappings = k.mappings

end UserStep

/-! ### Histories -/

/-- A step that a process has made. -/
structure UserEvent where
  pid : Pid
  step : UserStep
  answer : Except Panic step.Answer

namespace UserEvent

/-- Whether the pool ran dry. -/
def isDry (e : UserEvent) : Bool :=
  match e.answer with
  | .ok a => e.step.isDry a
  | .error _ => false

/-- The process that was made. -/
def child? : UserEvent → Option Pid
  | ⟨_, .fork, .ok (.ok child)⟩ => some child
  | _ => none

/-- What every process is to see afterwards. -/
def after (v : Pid → View) : UserEvent → Pid → View
  | ⟨pid, .store address bytes, .ok (.ok _)⟩ =>
    Function.update v pid { v pid with bytes := overwritten (v pid).bytes address bytes }
  | ⟨pid, .unmap _ length, .ok (.ok _)⟩ =>
    Function.update v pid { v pid with first := (v pid).first + length }
  | ⟨pid, .fork, .ok (.ok child)⟩ => Function.update v child (v pid)
  | _ => v

end UserEvent

/-- What every process is to see of a mapping after a history, newest step first. -/
def view (r : Mapping) (past : List UserEvent) : Pid → View :=
  past.foldr (fun e v => e.after v) fun _ => ⟨r.base, r.byteAt⟩

/-- A process and its descendants. -/
def family (owner : Pid) (past : List UserEvent) : List Pid :=
  past.filterMap UserEvent.child? ++ [owner]

/-- A child joins the family in the fork that made it. -/
theorem mem_family_cons {owner pid : Pid} {e : UserEvent} {past : List UserEvent} :
    pid ∈ family owner (e :: past) ↔ e.child? = some pid ∨ pid ∈ family owner past := by
  unfold family
  rw [List.filterMap_cons]
  split
  · next hnone => rw [hnone, or_iff_right nofun]
  · next child hsome =>
    rw [hsome, List.cons_append, List.mem_cons, Option.some.injEq, eq_comm]

/-- The live member of a family with a number. -/
def Kernel.member? (k : Kernel) (owner : Pid) (past : List UserEvent) (pid : Pid) : Option Handle :=
  if pid ∈ family owner past then k.lookup pid else none

/-- A member of a family that is found has its number. -/
theorem Kernel.of_member? {k : Kernel} {owner pid : Pid} {past : List UserEvent} {h : Handle}
    (hfound : k.member? owner past pid = some h) :
    pid ∈ family owner past ∧ k.lookup pid = some h := by
  unfold member? at hfound
  split at hfound
  · next hmem => exact ⟨hmem, hfound⟩
  · cases hfound

/-- Steps that the members of a family make one after the other, as a history that goes on from a
given one. Whoever is not a live member of the family is passed over, and a panic ends it all. It is
up to the list whether anybody goes on after a fault that kills. -/
def replay (owner : Pid) : List (Pid × UserStep) → List UserEvent → Kernel → List UserEvent
  | [], past, _ => past
  | (pid, s) :: acts, past, k =>
    match k.member? owner past pid with
    | none => replay owner acts past k
    | some h =>
      match (s.run h).run k with
      | .ok a k' => replay owner acts (⟨pid, s, .ok a⟩ :: past) k'
      | .error cause _ => ⟨pid, s, .error cause⟩ :: past

/-- What has happened is not forgotten. -/
theorem mem_replay {owner : Pid} {e : UserEvent} (acts : List (Pid × UserStep))
    {past : List UserEvent}
    (he : e ∈ past) (k : Kernel) : e ∈ replay owner acts past k := by
  induction acts generalizing past k with
  | nil => exact he
  | cons act acts ih =>
    unfold replay
    split
    · exact ih he k
    · split
      · exact ih (List.mem_cons_of_mem _ he) _
      · exact List.mem_cons_of_mem _ he

/-- Whether every step of a history answered what it was to answer after the steps before it. Forks
may end as they like. -/
def Faithful (r : Mapping) (past : List UserEvent) : Prop :=
  ∀ later e earlier, past = later ++ e :: earlier →
    ∃ verdict, e.answer = e.step.due r (view r earlier e.pid) verdict

/-- Nothing was answered yet. -/
theorem faithful_nil (r : Mapping) : Faithful r [] := by
  intro later e earlier hsplit
  cases later <;> cases hsplit

/-- A history goes on faithfully with an answer that is due. -/
theorem Faithful.cons {r : Mapping} {past : List UserEvent} (h : Faithful r past) {e : UserEvent}
    {verdict : Except Panic (Except ProcessError Pid)}
    (he : e.answer = e.step.due r (view r past e.pid) verdict) : Faithful r (e :: past) := by
  intro later e' earlier hsplit
  cases later with
  | nil =>
    cases hsplit
    exact ⟨verdict, he⟩
  | cons _ later =>
    cases hsplit
    exact h later e' earlier rfl

namespace Kernel

variable {pages : Nat} {k k' : Kernel} {r : Mapping} {owner pid : Pid} {past : List UserEvent}
  {h p q : Handle} {s : UserStep}

/-- Whether every member of a family lives and sees what it is to see. -/
structure Follows (pages : Nat) (r : Mapping) (owner : Pid) (past : List UserEvent) (k : Kernel) :
    Prop where
  trim : k.Trim pages
  member : ∀ pid ∈ family owner past, ∃ h : Handle, h.pid = pid ∧ k.IsLive h ∧
    k.Presents r h (view r past pid).first (view r past pid).bytes

/-- What happens to the processes that live, and that nobody is born, is all that matters. -/
theorem Follows.next (hf : k.Follows pages r owner past) (hk' : k'.Trim pages) {e : UserEvent}
    (hchild : e.child? = none) (hmember : ∀ q, k.IsLive q →
      k.Presents r q (view r past q.pid).first (view r past q.pid).bytes → k'.IsLive q ∧
        k'.Presents r q (e.after (view r past) q.pid).first (e.after (view r past) q.pid).bytes) :
    k'.Follows pages r owner (e :: past) := by
  refine ⟨hk', fun pid hpid => ?_⟩
  rw [mem_family_cons, hchild, or_iff_right nofun] at hpid
  obtain ⟨q, rfl, hq, hpresents⟩ := hf.member pid hpid
  exact ⟨q, rfl, hmember q hq hpresents⟩

/-- A step that serves one process changes what that one sees. -/
theorem Follows.served (hf : k.Follows pages r owner past) (hr : r.InWindow)
    (hserved : k.Served pages h k') (hlive : k.IsLive h) {e : UserEvent} (hchild : e.child? = none)
    {v : View} (hafter : e.after (view r past) = Function.update (view r past) h.pid v)
    (hpresents : k'.Presents r h v.first v.bytes) : k'.Follows pages r owner (e :: past) := by
  refine hf.next hserved.trim hchild fun q hq hold => ?_
  rw [hafter]
  by_cases hqh : q = h
  · subst hqh
    rw [Function.update_self]
    exact ⟨(hserved.isLive_iff q).mpr hlive, hpresents⟩
  · rw [Function.update_of_ne fun heq => hqh (hf.trim.eq_of_pid hq hlive heq)]
    have hother := hserved.others q hq hqh
    exact ⟨hother.isLive, hold.of_undisturbed hr hother⟩

/-- A child joins the family and sees what its parent sees. -/
theorem Follows.forked (hf : k.Follows pages r owner past) (hr : r.InWindow) (hk' : k'.Trim pages)
    {i : Fin slotCount} {child : Pid} (hcopies : k.Copies pages h ⟨i, child⟩ k')
    (hpresents : k.Presents r h (view r past h.pid).first (view r past h.pid).bytes) :
    k'.Follows pages r owner (⟨h.pid, .fork, .ok (.ok child)⟩ :: past) := by
  have hview : view r (⟨h.pid, .fork, .ok (.ok child)⟩ :: past) =
      Function.update (view r past) child (view r past h.pid) := rfl
  refine ⟨hk', fun pid hpid => ?_⟩
  rw [hview]
  rcases mem_family_cons.mp hpid with hborn | hold
  · obtain rfl : child = pid := Option.some.inj hborn
    rw [Function.update_self]
    exact ⟨⟨i, child⟩, rfl, hcopies.isLive, hcopies.presents hf.trim hr hpresents⟩
  · obtain ⟨q, rfl, hq, hold⟩ := hf.member pid hold
    -- the number of the child is new
    have hlt : q.pid < k.nextPid := hq.2 ▸ hf.trim.numbered.pid_lt q.slot hq.1
    have hne : q.pid ≠ child := hlt.ne.trans_eq hcopies.number.symm
    have hslot : q.slot ≠ i := fun heq => hcopies.dead (by rw [← slotOf_congr heq]; exact hq.1)
    have hother := hcopies.apart.undisturbed hf.trim.toAccounted hslot hq
    rw [Function.update_of_ne hne]
    exact ⟨q, rfl, hother.isLive, hold.of_undisturbed hr hother⟩

/-- **One step.** A step answers what it is to answer, and everybody sees afterwards what they are
to see, unless the pool runs dry. -/
theorem Follows.leads_step (hf : k.Follows pages r owner past) (hr : r.IsSteady)
    (hpid : pid ∈ family owner past) (hfound : k.lookup pid = some h) (hs : s.Within r) :
    Leads k (s.run h) (fun a k' => s.isDry a ∨
        s.due r (view r past pid) (k.forkVerdict h) = .ok a ∧
        k'.Follows pages r owner (⟨pid, s, .ok a⟩ :: past) ∧
        s.Moves pages r (view r past pid) k h a k')
      fun c => s.due r (view r past pid) (k.forkVerdict h) = .error c := by
  obtain ⟨hlive, rfl⟩ := isLive_of_lookup hfound
  obtain ⟨q, hpid, hq, hpresents⟩ := hf.member h.pid hpid
  obtain rfl := hf.trim.eq_of_pid hq hlive hpid
  have hself : Function.update (view r past) q.pid (view r past q.pid) = view r past :=
    Function.update_eq_self ..
  cases s with
  -- a load changes what nobody sees
  | load address count =>
    refine (hpresents.leads_userLoad hf.trim hlive hr hs.1 hs.2).mono (fun result k' h' => ?_) nofun
    obtain ⟨haccessed, rfl | hresult⟩ := h'
    · exact .inl rfl
    cases hfault : r.fault? (view r past q.pid).first .read address count <;>
    · rw [hfault] at hresult
      obtain ⟨rfl, h'⟩ := hresult
      refine .inr ⟨by rw [UserStep.due, hfault]; rfl, ?_, haccessed.standing_eq,
        haccessed.mappings_eq⟩
      exact hf.served hr.toInWindow haccessed.toServed hlive rfl hself.symm h'
  -- a store changes what its process sees, unless it kills
  | store address bytes =>
    refine (hpresents.leads_userStore hf.trim hlive hr bytes hs.1 hs.2).mono
      (fun result k' h' => ?_) nofun
    obtain ⟨haccessed, rfl | hresult⟩ := h'
    · exact .inl rfl
    have hserved := haccessed.toServed
    cases hfault : r.fault? (view r past q.pid).first .write address bytes.length with
    | some e =>
      rw [hfault] at hresult
      obtain ⟨rfl, h'⟩ := hresult
      refine .inr ⟨by rw [UserStep.due, hfault]; rfl, ?_, haccessed.standing_eq,
        haccessed.mappings_eq⟩
      exact hf.served hr.toInWindow hserved hlive rfl hself.symm h'
    | none =>
      rw [hfault] at hresult
      obtain ⟨rfl, h'⟩ := hresult
      refine .inr ⟨by rw [UserStep.due, hfault]; rfl, ?_, haccessed.standing_eq,
        haccessed.mappings_eq⟩
      exact hf.served hr.toInWindow hserved hlive rfl rfl h'
  -- a removal moves the beginning of what its process sees on
  | unmap address length =>
    refine ((hpresents.leads_unmap hf.trim hlive hr hs.1 hs.2).also
      (hf.trim.leads_unmap_served hlive address length)).mono
        (fun result k' ⟨hresult, hserved⟩ => .inr ?_) nofun
    cases hrefusal : Mapping.refusal? (view r past q.pid).first address length with
    | some e =>
      rw [hrefusal] at hresult
      obtain ⟨rfl, rfl⟩ := hresult
      refine ⟨by rw [UserStep.due, hrefusal]; rfl, ?_, rfl, rfl⟩
      exact hf.served hr.toInWindow hserved hlive rfl hself.symm hpresents
    | none =>
      rw [hrefusal] at hresult
      obtain ⟨rfl, h', hgives⟩ := hresult
      refine ⟨by rw [UserStep.due, hrefusal]; rfl, ?_, hserved, hgives⟩
      exact hf.served hr.toInWindow hserved hlive rfl rfl h'
  -- a fork lets the child see what its parent sees
  | fork =>
    have hproper : (Call.fork q).Proper k := by
      refine ⟨?_, trivial⟩
      rintro _ ⟨⟩
      exact hlive
    refine ((hf.trim.leads_fork hlive).also (hf.trim.leads_call hproper)).imp
      fun result k' ⟨hresult, _, heffect, hk'⟩ => ?_
    cases result with
    | error e =>
      obtain ⟨hrestored, hcause⟩ := hresult
      rcases hcause (hf.trim.laidOut q hlive) with hverdict | ⟨hdry, -⟩
      -- it fails for a reason that the history tells
      · refine .inr ⟨hverdict, hf.next hk' rfl fun q' hq' hold => ?_, heffect,
          hrestored.mappings_eq hf.trim.owner_ne⟩
        have hother := hrestored.undisturbed hf.trim.toKempt hq'
        exact ⟨hother.isLive, hold.of_undisturbed hr.toInWindow hother⟩
      -- it fails because the pool is empty
      · obtain rfl | ⟨_, rfl, rfl⟩ := hdry
        · exact .inl rfl
        · exact .inl rfl
    | ok child =>
      obtain ⟨i, hcopies⟩ := hresult
      exact .inr ⟨hcopies.verdict, hf.forked hr.toInWindow hk' hcopies hpresents, heffect, i,
        hcopies⟩

/-- **Whole histories.** Every step answers what it is to answer, unless the pool runs dry. -/
theorem Follows.faithful_replay (hf : k.Follows pages r owner past) (hr : r.IsSteady)
    {acts : List (Pid × UserStep)} (hacts : ∀ act ∈ acts, act.2.Within r) (hpast : Faithful r past)
    (hdry : ∀ e ∈ replay owner acts past k, ¬ e.isDry) :
    Faithful r (replay owner acts past k) := by
  -- by steps: after each of them the view moves on with the history
  induction acts generalizing k past with
  | nil => exact hpast
  | cons act acts ih =>
    obtain ⟨pid, s⟩ := act
    have hacts' : ∀ act ∈ acts, act.2.Within r := fun act hact =>
      hacts act (List.mem_cons_of_mem _ hact)
    unfold replay at hdry ⊢
    split
    -- nobody in the family has the number, so nothing happens
    · next hnone =>
      rw [hnone] at hdry
      exact ih hf hacts' hpast hdry
    next h hfound =>
    rw [hfound] at hdry
    obtain ⟨hmem, hlookup⟩ := of_member? hfound
    have hstep := hf.leads_step hr hmem hlookup (hacts _ List.mem_cons_self)
    split
    -- the step answers what is due, and everybody sees afterwards what they are to see
    · next a k' hran =>
      simp only [hran] at hdry
      have hwet : ¬ s.isDry a := hdry _ (mem_replay acts List.mem_cons_self k')
      obtain ⟨hdue, hf', -⟩ := (hstep.of_run_ok hran).resolve_left hwet
      exact ih hf' hacts' (hpast.cons hdue.symm) hdry
    -- the step panics as is due, which ends the history
    · next c k' hran => exact hpast.cons (hstep.of_run_error hran).symm

end Kernel

end FairKernel
