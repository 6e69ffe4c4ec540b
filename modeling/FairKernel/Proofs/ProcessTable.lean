import Mathlib.Logic.Relation
import FairKernel.Proofs.Descent

/-!
# The process table

Between two calls the process table is in order: nobody is half made, a slot that belongs to nobody
is blank, and the links of the live processes to their parents form a tree whose root is the root
process. This takes no more than that calls are made through handles of live processes and that
nobody forks who has exited. The tree rests on the numbers: whoever passes to the root process is
younger than it, and every child is younger than its parent.

What is kept is `Standing.Family`, slot by slot: most calls leave a slot as it is, and the few
things that can happen to one otherwise are the cases of `Fate`. A live process either lived before,
and then keeps its parent or passes to the root process (`Standing.Family.parent_up_of_isLive`), or
it was made just now (`Standing.Family.parent_up_of_made`). From the links and the numbers the tree
follows by going from child to parent until nobody older is left (`Furnished.tree`).
-/

namespace FairKernel

/-- What is called through a handle is called through that of a live process, and nobody forks who
has exited. -/
def Call.Seemly (k : Kernel) (c : Call) : Prop :=
  c.ThroughLive k ∧ ∀ h, c = .fork h → (k.slotOf h).state ≠ .zombie

/-- Who has a processor has not exited. -/
theorem Call.Regular.seemly {k : Kernel} {c : Call} (h : c.Regular k) : c.Seemly k := by
  refine ⟨h.1, fun p hp hzombie => ?_⟩
  subst hp
  have hrunning := (h.2 p rfl).1
  cases hrunning.symm.trans hzombie

/-! ### The family -/

/-- How the processes of a table are related. -/
structure Standing.Family (σ : Standing) : Prop where
  /-- Nobody is half made. -/
  not_used : ∀ i, (σ.slots i).state ≠ .used
  vacant : ∀ i, ¬ (σ.slots i).isLive → (σ.slots i).pid = 0 ∧ (σ.slots i).parent = none
  root_up : ∀ r, σ.root = some r → σ.IsUp r
  root_parent : ∀ r, σ.root = some r → (σ.slots r.slot).parent = none
  root_ne_none : ∀ i, (σ.slots i).isLive → σ.root ≠ none
  /-- Nobody is older than the root process. -/
  root_le : ∀ r i, σ.root = some r → (σ.slots i).isLive → r.pid ≤ (σ.slots i).pid
  parent_up : ∀ i, (σ.slots i).isLive → σ.root ≠ some ⟨i, (σ.slots i).pid⟩ →
    ∃ q, (σ.slots i).parent = some q ∧ σ.IsUp q ∧ q.pid < (σ.slots i).pid

section Steps

variable {k : Kernel} {c : Call} {a : c.Answer} {i : Fin slotCount} {s : Slot} {σ : Standing}

/-- A call that answers leaves nobody half made. -/
theorem Fate.not_used (h : Fate k c a i s) (hk : (k.slot i).state ≠ .used) : s.state ≠ .used := by
  intro hused
  cases h with
  | carriesOn same _ => exact hk (same.state_eq_of_eq hused nofun)
  | killed target _ _ eq =>
    subst eq
    dsimp only at hused
    split at hused
    · cases hused
    · exact hk hused
  | flagged _ _ _ eq =>
    subst eq
    exact hk hused
  | dispatched _ _ _ eq =>
    subst eq
    cases hused
  | made _ _ eq =>
    obtain ⟨entity, rfl⟩ := eq
    -- a fork makes its child runnable, and a root process is made so too
    cases hused
  | unmade _ eq =>
    subst eq
    cases hused
  | reaped _ _ _ _ _ _ eq =>
    subst eq
    cases hused
  | acted _ _ _ _ _ _ _ _ state =>
    -- whoever acts is asleep, runnable or a zombie afterwards, or as it was
    rw [hused] at state
    rcases state with hsame | h | h | h
    · exact hk hsame.symm
    · cases h
    · cases h
    · cases h

/-- Nobody's children pass to anybody. -/
theorem Call.heir_none : c.heir k none = none := by
  unfold heir
  split
  · exact if_neg nofun
  · rfl

/-- A slot that belongs to nobody is blank. -/
theorem Fate.vacant (h : Fate k c a i s) (hc : c.ThroughLive k) (hdead : ¬ s.isLive)
    (hk : ¬ (k.slot i).isLive → (k.slot i).pid = 0 ∧ (k.slot i).parent = none) :
    s.pid = 0 ∧ s.parent = none := by
  -- it was vacated in this call, or it belonged to nobody before
  by_cases hlive : (k.slot i).isLive
  · rcases h.isLive_of_isLive hlive with ⟨hlive', -⟩ | ⟨_, -, -, -, rfl⟩
    · exact absurd hlive' hdead
    · exact ⟨rfl, rfl⟩
  · obtain ⟨hpid, hparent⟩ := hk hlive
    cases h with
    | carriesOn same parent =>
      refine ⟨same.pid_eq.trans hpid, ?_⟩
      -- a slot that belonged to nobody is in the hands of nobody, so no call acts in it
      rw [parent, hparent, Call.heir_none]
    | killed _ _ live _ => exact absurd live hlive
    | flagged p call slot _ =>
      subst call slot
      exact absurd (hc p rfl).1 hlive
    | dispatched _ _ runnable _ =>
      exact absurd (Slot.isLive_of_state_eq runnable nofun) hlive
    | made _ _ eq =>
      obtain ⟨entity, rfl⟩ := eq
      exact absurd rfl hdead
    | unmade _ eq => exact eq ▸ ⟨rfl, hparent⟩
    | reaped _ _ _ _ zombie _ _ =>
      exact absurd (Slot.isLive_of_state_eq zombie nofun) hlive
    | acted p caller slot _ _ _ _ _ _ =>
      subst slot
      exact absurd (hc p (Call.handle?_of_caller? caller)).1 hlive

namespace Standing.Family

/-- The root process has no parent, whether it is new or not. -/
theorem root_parent_step (hk : k.standing.Family) (h : c.Effect k a σ) (hc : c.ThroughLive k)
    {r : Handle} (hr : σ.root = some r) : (σ.slots r.slot).parent = none := by
  by_cases hroot : k.root = none
  · -- it was made in this call, in a slot that was blank
    have hnew : c.newRoot k a = some r := h.outlook.root.symm.trans hr
    cases c with
    | startRoot image =>
      cases a with
      | error e => cases hroot.symm.trans hnew
      | ok p =>
        obtain rfl := Option.some.inj hnew
        obtain ⟨-, σ', ⟨hfree, -, rfl⟩, rfl⟩ := h
        dsimp only
        rw [slots_update_self]
        exact (hk.vacant p.slot (Kernel.not_isLive_of_freeSlot? hfree)).2
    | _ => cases hroot.symm.trans hnew
  · -- who has no parent is adopted by nobody
    have hr₀ : k.root = some r := (h.root_eq hroot).symm.trans hr
    have hup' := h.root_up hc hk.root_up hr
    have hparent : (k.slot r.slot).parent = none := hk.root_parent r hr₀
    rw [(h.fate r.slot).parent_eq (hk.root_up r hr₀).1 hup'.1, hparent, Call.heir_none]

/-- No live process has a smaller number than the root process. -/
theorem root_le_step (hk : k.standing.Family) (hn : k.standing.Numbered) (h : c.Effect k a σ)
    (hc : c.ThroughLive k) {r : Handle} (hr : σ.root = some r) (hlive : (σ.slots i).isLive) :
    r.pid ≤ (σ.slots i).pid := by
  by_cases hroot : k.root = none
  · -- the root process is the only one
    have made {j : Fin slotCount} (hj : (σ.slots j).isLive) : (σ.slots j).pid = k.nextPid := by
      rcases (h.fate j).of_isLive hc hj with ⟨hlive₀, -⟩ | ⟨-, -, hpid⟩
      · exact absurd hroot (hk.root_ne_none j hlive₀)
      · exact hpid
    have hup := h.root_up hc hk.root_up hr
    rw [← hup.2.1, made hup.1, made hlive]
  · have hr₀ : k.root = some r := (h.root_eq hroot).symm.trans hr
    -- it lived before, or has the next number
    rcases (h.fate i).of_isLive hc hlive with ⟨hlive₀, hpid⟩ | ⟨-, -, hpid⟩
    · rw [hpid]
      exact hk.root_le r i hr₀ hlive₀
    · have hup := hk.root_up r hr₀
      rw [hpid, ← hup.2.1]
      exact (hn.pid_lt r.slot hup.1).le

/-- Who lives on keeps its parent, or passes to the root process when that one exits. -/
theorem parent_up_of_isLive (hk : k.standing.Family) (hn : k.standing.Numbered)
    (h : c.Effect k a σ) (hc : c.ThroughLive k) (hlive : (k.slot i).isLive)
    -- it keeps its parent unless that one exits
    (hlive' : (σ.slots i).isLive) (hpid : (σ.slots i).pid = (k.slot i).pid)
    (hne : k.root ≠ some ⟨i, (k.slot i).pid⟩) :
    ∃ q, (σ.slots i).parent = some q ∧ σ.IsUp q ∧ q.pid < (σ.slots i).pid := by
  obtain ⟨q, hparent, hup, hlt⟩ := hk.parent_up i hlive hne
  replace hparent : (k.slot i).parent = some q := hparent
  have hparent' := (h.fate i).parent_eq hlive hlive'
  rw [hparent] at hparent'
  rw [hpid]
  by_cases hexit : ∃ status, c = .exit q status
  · -- its parent exits in this call, and the root process adopts it
    obtain ⟨status, rfl⟩ := hexit
    obtain ⟨r, hr⟩ := Option.ne_none_iff_exists'.mp (hk.root_ne_none i hlive)
    replace hr : k.root = some r := hr
    rw [Call.heir_exit_self, hr] at hparent'
    refine ⟨r, hparent', h.isUp hc (hk.root_up r hr) fun status' heq => ?_, ?_⟩
    · cases heq
      exact h.1 hr
    · refine lt_of_le_of_ne (hk.root_le r i hr hlive) fun heq => hne ?_
      have hup := hk.root_up r hr
      have hslot : r.slot = i := hn.pid_inj r.slot i hup.1 hlive (hup.2.1.trans heq)
      rw [hr, ← heq, ← hslot]
  -- its parent does not exit, and so is there still
  · rw [Call.heir_eq_of_ne fun p status hcall heq => hexit ⟨status, ?_⟩] at hparent'
    · exact ⟨q, hparent', h.isUp hc hup fun status hcall => hexit ⟨status, hcall⟩, hlt⟩
    · rw [hcall, Option.some.inj heq]

/-- Who is made by a fork has the process that forked as its parent. -/
theorem parent_up_of_made (hn : k.standing.Numbered) (h : c.Effect k a σ) (hc : c.Seemly k)
    (hfree : k.freeSlot? = some i) (hmade : c.made? a = some k.nextPid)
    (hpid : (σ.slots i).pid = k.nextPid) (hne : σ.root ≠ some ⟨i, (σ.slots i).pid⟩) :
    ∃ q, (σ.slots i).parent = some q ∧ σ.IsUp q ∧ q.pid < (σ.slots i).pid := by
  cases c with
  -- the root process has no parent
  | startRoot image =>
    cases a with
    | error e => cases hmade
    | ok p =>
      obtain ⟨-, σ', ⟨hfree', hpid', -⟩, rfl⟩ := h
      have hslot : p.slot = i := Option.some.inj (hfree'.symm.trans hfree)
      refine absurd ?_ hne
      rw [hpid, ← hpid', ← hslot]
  -- the parent of a child is the process that forked, which has not exited
  | fork p =>
    cases a with
    | error e => cases hmade
    | ok pid =>
      have hlive := hc.1 p rfl
      have hup : k.standing.IsUp p := ⟨hlive.1, hlive.2, hc.2 p rfl⟩
      refine ⟨p, ?_, h.isUp hc.1 hup nofun, ?_⟩
      · obtain ⟨j, entity, -, hfree', -, rfl⟩ := h
        obtain rfl : j = i := Option.some.inj (hfree'.symm.trans hfree)
        rw [slots_update_self]
      · rw [hpid, ← hup.2.1]
        exact hn.pid_lt p.slot hup.1
  | _ => cases hmade

/-- Every call keeps the family in order. -/
theorem step (hk : k.standing.Family) (hn : k.standing.Numbered) (h : c.Effect k a σ)
    (hc : c.Seemly k) : σ.Family where
  not_used i := (h.fate i).not_used (hk.not_used i)
  vacant i hdead := (h.fate i).vacant hc.1 hdead (hk.vacant i)
  root_up _ hr := h.root_up hc.1 hk.root_up hr
  root_parent _ hr := hk.root_parent_step h hc.1 hr
  root_ne_none _ hlive := h.root_ne_none hc.1 hk.root_ne_none hlive
  root_le _ _ hr hlive := hk.root_le_step hn h hc.1 hr hlive
  parent_up i hlive hne := by
    rcases (h.fate i).of_isLive hc.1 hlive with ⟨hlive₀, hpid⟩ | ⟨hfree, hmade, hpid⟩
    · have hroot : σ.root = k.root := h.root_eq (hk.root_ne_none i hlive₀)
      rw [hroot, hpid] at hne
      exact hk.parent_up_of_isLive hn h hc.1 hlive₀ hlive hpid hne
    · exact parent_up_of_made hn h hc hfree hmade hpid hne

end Standing.Family

end Steps

/-- The table of a kernel that has just booted has no processes. -/
theorem Kernel.Booted.family {pages : Nat} {boot : Kernel} (h : boot.Booted pages) :
    boot.standing.Family := by
  have hslot := h.slot_eq
  have hdead := h.not_isLive
  refine ⟨fun i => ?_, fun i _ => ?_, fun r hr => ?_, fun r hr => ?_, fun i hi => absurd hi (hdead i),
    fun r i _ hi => absurd hi (hdead i), fun i hi => absurd hi (hdead i)⟩
  · rw [Kernel.slots_standing, hslot]
    nofun
  · rw [Kernel.slots_standing, hslot]
    exact ⟨rfl, rfl⟩
  · cases h.root_eq.symm.trans hr
  · cases h.root_eq.symm.trans hr

/-! ### Free slots -/

/-- A call leaves no memory and no open files behind in a slot that belongs to nobody. -/
theorem Call.Work.isSwept {pages : Nat} {k k' : Kernel} {c : Call} {a : c.Answer}
    (h : c.Work pages k a k') (hc : c.ThroughLive k) {i : Fin slotCount}
    (hk : ¬ (k.slot i).isLive → (k.slot i).IsSwept) (hdead : ¬ (k'.slot i).isLive) :
    (k'.slot i).IsSwept := by
  -- work on one process leaves every other slot as it is
  have apart {p : Handle} (hp : k'.IsLive p) (hapart : k.Apart p k') : (k'.slot i).IsSwept := by
    have hi : i ≠ p.slot := fun heq => hdead (heq ▸ hp.1)
    rw [hapart.slots_eq i hi] at hdead ⊢
    exact hk hdead
  cases h with
  -- most calls change nobody's holdings but those of their caller, who lives
  | alike same beside =>
    have hlive : (k'.slot i).isLive = (k.slot i).isLive :=
      congrArg Estate.isLive (same.estate_eq i)
    have hdead₀ : ¬ (k.slot i).isLive := hlive ▸ hdead
    have hnot : c.handle?.map Handle.slot ≠ some i := fun heq => by
      obtain ⟨p, hp, rfl⟩ := Option.map_eq_some_iff.mp heq
      exact hdead₀ (hc p hp).1
    have hholdings := Kernel.holdings_eq beside hnot
    obtain ⟨hsize, hfiles⟩ := hk hdead₀
    exact ⟨(congrArg Slot.size hholdings).trans hsize, (congrArg Slot.files hholdings).trans hfiles⟩
  | arranged p _ work _ _ => exact apart work.isLive work.apart
  | copies parent p _ _ work => exact apart work.isLive work.apart
  | rooted image p _ _ work => exact apart work.isLive work.apart
  -- a slot that was claimed and given up again was swept
  | restored _ work =>
    rcases work.slot_eq_or_swept i with heq | hswept
    · rw [heq] at hdead ⊢
      exact hk hdead
    · exact hswept
  -- so was the slot of a child that was reaped
  | reaped p target address j _ _ _ _ work =>
    obtain ⟨k₁, hwritten, hvacated, -⟩ := work.exists_written
    by_cases hi : i = j
    · subst hi
      exact hvacated.swept
    · rw [hvacated.apart.slots_eq i hi, Kernel.slot_congr hwritten.slots_same] at hdead ⊢
      exact hk hdead

/-! ### The table as a whole -/

/-- The numbers of the processes that were made in a run, newest first. -/
def madePids (past : List Transition) : List Pid := past.filterMap fun t => t.call.made? t.answer

namespace Kernel

/-- Whether a process is linked to a parent. -/
def IsParent (k : Kernel) (q p : Handle) : Prop := (k.slotOf p).parent = some q

/-- A process table in order. -/
structure TableInOrder (k : Kernel) : Prop where
  pid_pos : ∀ p, k.IsLive p → 0 < p.pid
  pid_lt : ∀ p, k.IsLive p → p.pid < k.nextPid
  eq_of_pid : ∀ p q, k.IsLive p → k.IsLive q → p.pid = q.pid → p = q
  not_used : ∀ i, (k.slot i).state ≠ .used
  /-- The space of a process is its page table and its trap frame page. -/
  isLive_iff : ∀ i, (k.slot i).isLive ↔ (k.slot i).space.isSome
  free : ∀ i, ¬ (k.slot i).isLive → (k.slot i).pid = 0 ∧ (k.slot i).killed = false ∧
    (k.slot i).size = 0 ∧ (k.slot i).files = Vector.replicate descriptorLimit none ∧
    (k.slot i).parent = none
  root_up : ∀ r, k.root = some r →
    k.IsLive r ∧ (k.slotOf r).state ≠ .zombie ∧ (k.slotOf r).parent = none
  parent_up : ∀ p, k.IsLive p → k.root ≠ some p →
    ∃ q, k.IsParent q p ∧ k.IsLive q ∧ (k.slotOf q).state ≠ .zombie ∧ q.pid < p.pid
  /-- The links form a tree. -/
  tree : ∀ p, k.IsLive p → ∃ r, k.root = some r ∧ Relation.ReflTransGen k.IsParent r p

section Tables

variable {pages : Nat} {k k' : Kernel} {c : Call}

/-- What is always true of the process table. -/
structure Furnished (pages : Nat) (k : Kernel) : Prop extends Kempt pages k where
  family : k.standing.Family
  swept : ∀ i, ¬ (k.slot i).isLive → (k.slot i).IsSwept

/-- A kernel that has just booted is in order. -/
theorem Booted.furnished (h : k.Booted pages) : k.Furnished pages := by
  refine ⟨h.kempt, h.family, fun i _ => ?_⟩
  rw [h.slot_eq]
  exact ⟨rfl, rfl⟩

/-- Every call keeps the family and the pages in order, and leaves nothing in a slot that it
frees. -/
theorem Furnished.leads_call (h : k.Furnished pages) (hc : c.Seemly k) :
    Leads k c.run (fun _ k' => k'.Furnished pages) fun _ => True := by
  -- how the processes stand is told by the effect of the call, and what is left in slots by its
  -- work
  refine (h.toKempt.leads_call hc.1).mono (fun a k' ⟨hwork, heffect, hkempt⟩ => ?_)
    fun _ _ => trivial
  exact ⟨hkempt, h.family.step h.numbered heffect hc, fun i => hwork.isSwept hc.1 (h.swept i)⟩

/-- Whoever lives descends from the root process: its parent is older than it and lives too, and so
on. -/
theorem Furnished.tree (h : k.Furnished pages) {p : Handle} (hp : k.IsLive p) :
    ∃ r, k.root = some r ∧ Relation.ReflTransGen k.IsParent r p := by
  obtain ⟨r, hr⟩ := Option.ne_none_iff_exists'.mp (h.family.root_ne_none p.slot hp.1)
  refine ⟨r, hr, ?_⟩
  -- numbers are positive and decrease from child to parent
  -- so going from child to parent comes to an end, which is the root process
  induction hn : p.pid.toNat using Nat.strong_induction_on generalizing p with
  | _ n ih =>
    by_cases hroot : k.root = some p
    · obtain rfl := Option.some.inj (hr.symm.trans hroot)
      exact .refl
    · have hne : k.root ≠ some ⟨p.slot, (k.slot p.slot).pid⟩ := by
        rw [show (k.slot p.slot).pid = p.pid from hp.2]
        exact hroot
      obtain ⟨q, hparent, hup, hlt⟩ := h.family.parent_up p.slot hp.1 hne
      replace hlt : q.pid < p.pid := hlt.trans_eq hp.2
      have hpos : 0 < p.pid := hp.2 ▸ h.numbered.pid_pos p.slot hp.1
      have hdescends := ih q.pid.toNat (hn ▸ (Int.toNat_lt_toNat hpos).mpr hlt) ⟨hup.1, hup.2.1⟩ rfl
      exact hdescends.tail hparent

/-- What is always true puts the table in order. -/
theorem Furnished.tableInOrder (h : k.Furnished pages) : k.TableInOrder where
  pid_pos p hp := hp.2 ▸ h.numbered.pid_pos p.slot hp.1
  pid_lt p hp := hp.2 ▸ h.numbered.pid_lt p.slot hp.1
  eq_of_pid _ _ hp hq heq := h.eq_of_pid hp hq heq
  not_used := h.family.not_used
  isLive_iff := h.isLive_iff
  free i hdead := by
    obtain ⟨hpid, hparent⟩ := h.family.vacant i hdead
    obtain ⟨hsize, hfiles⟩ := h.swept i hdead
    exact ⟨hpid, h.numbered.not_killed i hdead, hsize, hfiles, hparent⟩
  root_up r hr := by
    obtain ⟨hlive, hpid, hstate⟩ := h.family.root_up r hr
    exact ⟨⟨hlive, hpid⟩, hstate, h.family.root_parent r hr⟩
  parent_up p hp hroot := by
    have hpid : (k.slot p.slot).pid = p.pid := hp.2
    have hne : k.root ≠ some ⟨p.slot, (k.slot p.slot).pid⟩ := hpid.symm ▸ hroot
    obtain ⟨q, hparent, hup, hlt⟩ := h.family.parent_up p.slot hp.1 hne
    exact ⟨q, hparent, ⟨hup.1, hup.2.1⟩, hup.2.2, hlt.trans_eq hpid⟩
  tree _ hp := h.tree hp

end Tables

end Kernel

open Kernel

section Runs

variable {pages : Nat} {boot k : Kernel} {past : List Transition}

/-- Numbers are handed out in order: each that was given to a new process was the next one, and is
smaller than all that were given later; and nobody has any other number. -/
theorem Run.madePids_pairwise (hboot : boot.Booted pages)
    (hrun : Run Call.ThroughLive boot past k) : (madePids past).Pairwise (· > ·) ∧
      (∀ pid ∈ madePids past, pid < k.nextPid) ∧
      ∀ i, (k.slot i).isLive → (k.slot i).pid ∈ madePids past := by
  induction hrun with
  | refl => exact ⟨.nil, fun _ hpid => absurd hpid List.not_mem_nil,
      fun i hi => absurd hi (hboot.not_isLive i)⟩
  | @call past k₁ k₂ c a _ allowed ran ih =>
    obtain ⟨hpairwise, hlt, hmem⟩ := ih
    have heffect := (c.leads_effect k₁).of_run_ok ran
    have hle : k₁.nextPid ≤ k₂.nextPid := heffect.nextPid_le
    cases hmade : c.made? a with
    | none =>
      -- whoever lives now lived before, under the same number
      have hsame : madePids (⟨k₁, c, a, k₂⟩ :: past) = madePids past := List.filterMap_cons_none hmade
      rw [hsame]
      refine ⟨hpairwise, fun pid hpid => (hlt pid hpid).trans_le hle, fun i hi => ?_⟩
      rcases (heffect.fate i).of_isLive allowed hi with ⟨hlive, hpid⟩ | ⟨-, hsome, -⟩
      · exact (show (k₂.slot i).pid = _ from hpid) ▸ hmem i hlive
      · cases hmade.symm.trans hsome
    | some pid =>
      have hcons : madePids (⟨k₁, c, a, k₂⟩ :: past) = pid :: madePids past :=
        List.filterMap_cons_some hmade
      -- the number was the next one, so it is larger than those that were handed out before
      obtain ⟨rfl, hnext⟩ := heffect.nextPid_of_made hmade
      replace hnext : k₂.nextPid = k₁.nextPid + 1 := hnext
      rw [hcons]
      refine ⟨List.pairwise_cons.mpr ⟨hlt, hpairwise⟩, fun pid hpid => ?_, fun i hi => ?_⟩
      · rcases List.mem_cons.mp hpid with rfl | hold
        · exact (Int.lt_succ k₁.nextPid).trans_eq hnext.symm
        · exact (hlt pid hold).trans_le hle
      · rcases (heffect.fate i).of_isLive allowed hi with ⟨hlive, hpid⟩ | ⟨-, -, hpid⟩
        · exact List.mem_cons_of_mem _ ((show (k₂.slot i).pid = _ from hpid) ▸ hmem i hlive)
        · exact (show (k₂.slot i).pid = _ from hpid) ▸ List.mem_cons_self

/-- In a run in which nobody forks who has exited the table is in order all the time. -/
theorem Run.furnished (hrun : Run Call.Seemly boot past k) (hboot : boot.Furnished pages) :
    k.Furnished pages :=
  hrun.induct hboot fun _ h hc => h.leads_call hc

/-- **The process table.** In every state between calls the process table is in order, and numbers
were given to new processes in strictly increasing order. -/
theorem process_table_in_order (hboot : boot.Booted pages) (hrun : Run Call.Seemly boot past k) :
    k.TableInOrder ∧ (madePids past).Pairwise (· > ·) ∧ (∀ pid ∈ madePids past, pid < k.nextPid) ∧
      ∀ p, k.IsLive p → p.pid ∈ madePids past := by
  have hk := hrun.furnished hboot.furnished
  obtain ⟨hpairwise, hlt, hmem⟩ := (hrun.mono fun _ _ hc => hc.1).madePids_pairwise hboot
  exact ⟨hk.tableInOrder, hpairwise, hlt, fun p hp => hp.2 ▸ hmem p.slot hp.1⟩

/-- A root process and its zombie child. -/
theorem process_table_in_order_family : ∃ (boot k : Kernel) (past : List Transition),
    boot.Booted 6 ∧ Run Call.Seemly boot past k ∧ k.IsParent .eldest .second ∧
      (k.slotOf .second).state = .zombie ∧ madePids past = [2, 1] ∧ k.TableInOrder := by
  obtain ⟨boot, past, k, hboot, hrun, hcheck⟩ := Run.of_rehearse Call.Regular 6
    (Call.family.take 8) (fun past k => decide ((k.slotOf .second).parent = some .eldest ∧
      (k.slotOf .second).state = .zombie ∧ madePids past = [2, 1])) (by decide +kernel)
  obtain ⟨hparent, hzombie, hpids⟩ := of_decide_eq_true hcheck
  have hseemly : Run Call.Seemly boot past k := hrun.mono fun _ _ hc => hc.seemly
  exact ⟨boot, k, past, hboot, hseemly, hparent, hzombie, hpids,
    (process_table_in_order hboot hseemly).1⟩

end Runs

end FairKernel
