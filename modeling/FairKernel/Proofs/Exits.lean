import FairKernel.Proofs.Descent

/-!
# Exits

A process that exits is a zombie until it is reaped, which happens at most once: by the process that
forked it, or by the root process if that one has exited. Whoever reaps it can read its status where
it asked for it, and from then on the process is gone. A wait that fails reaps nothing.

A run after the exit is looked at call by call: a zombie stays a zombie unless the call reaps it,
and who is gone stays gone (`Run.isZombie_or_departed`). Whose child it is follows from who forked
it (`Descent`), which no later call changes (`Run.forked_iff`), and a parent can always reap its
zombie (`Kernel.Kempt.exists_reap`).
-/

namespace FairKernel

/-- Whether the process with a number was reaped. -/
def WasReaped (past : List Transition) (pid : Pid) : Prop :=
  ∃ t ∈ past, ∃ p, t.call.reaped? t.answer = some (p, pid)

/-- A process was reaped in the last call or before. -/
theorem wasReaped_cons {t : Transition} {past : List Transition} {pid : Pid} :
    WasReaped (t :: past) pid ↔
      (∃ p, t.call.reaped? t.answer = some (p, pid)) ∨ WasReaped past pid := by
  simp only [WasReaped, List.mem_cons, exists_eq_or_imp]

section Runs

variable {pages : Nat} {start k : Kernel} {past later : List Transition} {c p : Handle} {pid : Pid}
  {status : Int}

/-- Processes that make their own calls keep the kernel in order. -/
theorem Run.kempt_of_regular (hrun : Run Call.Regular start later k) (hstart : start.Kempt pages) :
    k.Kempt pages :=
  Run.kempt (hrun.mono fun _ _ h => h.1) hstart

/-- From its exit on a process is a zombie, until it was reaped and is gone. -/
theorem Run.isZombie_or_departed (hrun : Run Call.Regular start later k)
    (hstart : start.Kempt pages) (hzombie : start.standing.IsZombie c status) :
    k.standing.IsZombie c status ∧ ¬ WasReaped later c.pid ∨
      k.standing.Departed c.pid ∧ WasReaped later c.pid := by
  induction hrun with
  | refl => exact .inl ⟨hzombie, fun ⟨_, ht, _⟩ => absurd ht List.not_mem_nil⟩
  | @call later k k' call answer earlier allowed ran ih =>
    have heffect := (call.leads_effect k).of_run_ok ran
    have hnumbered := (earlier.kempt_of_regular hstart).numbered
    -- a zombie stays one unless this call reaps it
    rcases ih with ⟨hzombie, hnot⟩ | ⟨hgone, hreaped⟩
    · rcases hzombie.step heffect allowed hnumbered with ⟨hzombie', hnot'⟩ | ⟨hgone, hreaped⟩
      · refine .inl ⟨hzombie', fun hreaped => ?_⟩
        rcases wasReaped_cons.mp hreaped with ⟨p, hp⟩ | hbefore
        · exact hnot' p hp
        · exact hnot hbefore
      · exact .inr ⟨hgone, wasReaped_cons.mpr (.inl hreaped)⟩
    -- who is gone was reaped before, and nobody gets its number
    · exact .inr ⟨heffect.departed allowed.1.byLive hgone, wasReaped_cons.mpr (.inr hreaped)⟩

/-- Who was forked was not forked later. -/
theorem Run.forked_iff {q : Handle} (hrun : Run Call.Regular start later k)
    (hpid : pid < start.nextPid) : Forked (later ++ past) q pid ↔ Forked past q pid := by
  suffices h : start.nextPid ≤ k.nextPid ∧ (Forked (later ++ past) q pid ↔ Forked past q pid) from
    h.2
  induction hrun with
  | refl => exact ⟨le_rfl, .rfl⟩
  | @call later k k' call answer _ _ ran ih =>
    have heffect := (call.leads_effect k).of_run_ok ran
    refine ⟨ih.1.trans heffect.nextPid_le, ?_⟩
    rw [List.cons_append, forked_cons, ← ih.2]
    refine or_iff_right fun hnow => ?_
    have hmade := (heffect.nextPid_of_made (Call.made?_of_forked? hnow)).1
    exact (hpid.trans_le ih.1).ne hmade

/-- A zombie is not the root process, so its parent follows from who forked it. -/
theorem Descent.of_isZombie (hd : Descent past k.standing) (hzombie : k.standing.IsZombie c status) :
    ∃ q, (∀ q', Forked past q' c.pid ↔ q' = q) ∧
      (k.slotOf c).parent = reaper? k.root past q := by
  have hlive : (k.standing.slots c.slot).isLive :=
    Slot.isLive_of_state_eq hzombie.state_eq nofun
  have hne : k.standing.root ≠ some ⟨c.slot, (k.standing.slots c.slot).pid⟩ := fun hroot =>
    (hd.root_up _ hroot).2.2 hzombie.state_eq
  have hforked := hd.forked c.slot hlive hne
  rw [hzombie.pid_eq] at hforked
  exact hforked

/-- The parent of a zombie can reap it. -/
theorem Kernel.Kempt.exists_reap (hk : k.Kempt pages) (hzombie : k.standing.IsZombie c status)
    (hparent : (k.slotOf c).parent = some p) (hlive : k.IsLive p) :
    ∃ k', (Kernel.awaitRound p (some c.pid) 0).run k = .ok (some (.ok c.pid)) k' := by
  have hchild : Kernel.isChild p (some c.pid) (k.slot c.slot) := by
    refine Kernel.isChild_iff.mpr ⟨hparent, Slot.isLive_of_state_eq hzombie.state_eq nofun, ?_⟩
    intro pid hpid
    cases hpid
    exact hzombie.pid_eq
  have hleads := hk.leads_awaitRound_zombie hlive hchild hzombie.state_eq
  cases hrun : (Kernel.awaitRound p (some c.pid) 0).run k with
  | ok r k' => exact ⟨k', congrArg (EStateM.Result.ok · k') (hleads.of_run_ok hrun)⟩
  | error e k' => exact (hleads.of_run_error hrun).elim

/-- What comes of reaping: it is the parent that did it, and it can read the status of the child
where it asked for it. -/
theorem Kernel.Kempt.of_awaitRound {k' : Kernel} {target : Option Pid} {address : Nat}
    (hk : k.Kempt pages) (hzombie : k.standing.IsZombie c status) (hrunning : k.IsRunning p)
    (hran : (Kernel.awaitRound p target address).run k = .ok (some (.ok c.pid)) k') :
    (k.slotOf c).parent = some p ∧
      (address ≠ 0 → (k'.memory p).load? address 4 = .ok (intBytes status)) := by
  obtain ⟨i, hchild, hstate, hpid, hreaped⟩ :=
    (hk.leads_awaitRound hrunning.isLive target address).of_run_ok hran
  obtain ⟨hparent, hlive, -⟩ := Kernel.isChild_iff.mp hchild
  -- the child that was reaped has the number of the zombie, and no two live processes share one
  have hi : i = c.slot :=
    hk.numbered.pid_inj i c.slot hlive (Slot.isLive_of_state_eq hzombie.state_eq nofun)
      (hpid.trans hzombie.pid_eq.symm)
  subst hi
  refine ⟨hparent, fun haddress => ?_⟩
  -- the parent runs and its child does not, so the slot of the parent is not vacated
  have hne : p.slot ≠ c.slot := fun heq => by
    have hrun := hrunning.1
    rw [Kernel.slotOf, heq, hstate] at hrun
    cases hrun
  rw [hreaped.load?_eq hne haddress]
  exact congrArg (Except.ok ∘ intBytes) hzombie.exitStatus_eq

end Runs

/-- **Exits.** A process that has exited was forked by one process. As long as it was not reaped, it
is a zombie with its status, its parent is the process that forked it, or the root process if that
one has exited, and its parent can reap it. When a wait answers its number, it was not reaped
before, it is its parent that waits, the status stands where it was asked for, and from then on no
answer names the process and nobody finds it. When a wait fails, it stays a zombie with the same
parent. -/
theorem exits_reaped_once {pages : Nat} {boot k k₁ k₂ : Kernel}
    {past later earlier : List Transition} {c : Handle} {status : Int}
    {answer : (Call.exit c status).Answer} (hboot : boot.Booted pages)
    (hrun : Run Call.Regular boot past k)
    (hpast : past = later ++ ⟨k₁, .exit c status, answer, k₂⟩ :: earlier) :
    ∃ forker, (∀ q, Forked past q c.pid ↔ q = forker) ∧
      (¬ WasReaped later c.pid → k.standing.IsZombie c status ∧
        (k.slotOf c).parent = reaper? k.root past forker ∧
        ∀ p, (k.slotOf c).parent = some p → Call.Regular k (.awaitChild p (some c.pid) 0) →
          ∃ k', (Kernel.awaitRound p (some c.pid) 0).run k = .ok (some (.ok c.pid)) k') ∧
      (∀ after before k₃ p target address k₄,
        later = after ++ ⟨k₃, .awaitChild p target address, some (.ok c.pid), k₄⟩ :: before →
        ¬ WasReaped before c.pid ∧ k₃.standing.IsZombie c status ∧
        reaper? k₃.root (before ++ ⟨k₁, .exit c status, answer, k₂⟩ :: earlier) forker = some p ∧
        (address ≠ 0 → (k₄.memory p).load? address 4 = .ok (intBytes status)) ∧
        (∀ t ∈ after, t.call.named? t.answer ≠ some c.pid ∧ t.before.lookup c.pid = none) ∧
        k.lookup c.pid = none) ∧
      ∀ after before k₃ p target address e k₄,
        later = after ++ ⟨k₃, .awaitChild p target address, some (.error e), k₄⟩ :: before →
        ¬ WasReaped before c.pid → k₄.standing.IsZombie c status ∧
          (k₄.slotOf c).parent = (k₃.slotOf c).parent := by
  subst hpast
  obtain ⟨k₂', hexit, hlater⟩ := hrun.split
  cases hexit with
  | call hearlier allowed ran =>
    set exit : Transition := ⟨k₁, .exit c status, answer, k₂⟩ with hexit_eq
    have hexit : Run Call.Regular boot (exit :: earlier) k₂ := hearlier.call allowed ran
    have hzombie₂ : k₂.standing.IsZombie c status :=
      Call.Effect.isZombie (((Call.exit c status).leads_effect k₁).of_run_ok ran)
    have hk₂ := hexit.kempt_of_regular hboot.kempt
    have hpid : c.pid < k₂.nextPid := by
      have hlive : (k₂.slot c.slot).isLive := Slot.isLive_of_state_eq hzombie₂.state_eq nofun
      exact hzombie₂.pid_eq ▸ hk₂.numbered.pid_lt c.slot hlive
    obtain ⟨forker, hforker, -⟩ := (hexit.descent hboot).of_isZombie hzombie₂
    -- who forked it does not change, so its parent follows from that at any later time
    have parent_eq {l : List Transition} {k' : Kernel} (hl : Run Call.Regular k₂ l k')
        (hzombie : k'.standing.IsZombie c status) :
        (k'.slotOf c).parent = reaper? k'.root (l ++ exit :: earlier) forker := by
      obtain ⟨q, hq, hparent⟩ := ((hexit.trans hl).descent hboot).of_isZombie hzombie
      have heq : forker = q := (hq forker).mp ((hl.forked_iff hpid).mpr ((hforker forker).mpr rfl))
      exact heq ▸ hparent
    -- as long as it was not reaped it is a zombie
    have isZombie {l : List Transition} {k' : Kernel} (hl : Run Call.Regular k₂ l k')
        (hnot : ¬ WasReaped l c.pid) : k'.standing.IsZombie c status := by
      rcases hl.isZombie_or_departed hk₂ hzombie₂ with ⟨hzombie, -⟩ | ⟨-, hreaped⟩
      · exact hzombie
      · exact absurd hreaped hnot
    refine ⟨forker, fun q => (hlater.forked_iff hpid).trans (hforker q), fun hnot => ?_,
      fun after before k₃ p target address k₄ heq => ?_,
      fun after before k₃ p target address e k₄ heq hnot => ?_⟩
    · have hzombie := isZombie hlater hnot
      refine ⟨hzombie, parent_eq hlater hzombie, fun p hparent hregular => ?_⟩
      exact (hlater.kempt_of_regular hk₂).exists_reap hzombie hparent (hregular.1 p rfl)
    · subst heq
      obtain ⟨k₄', hwait, hafter⟩ := hlater.split
      cases hwait with
      | call hbefore hregular hran =>
        have hk₃ := hbefore.kempt_of_regular hk₂
        have heffect := ((Call.awaitChild p target address).leads_effect k₃).of_run_ok hran
        rcases hbefore.isZombie_or_departed hk₂ hzombie₂ with ⟨hzombie, hnot⟩ | ⟨hgone, -⟩
        · obtain ⟨hparent, hstatus⟩ := hk₃.of_awaitRound hzombie (hregular.2 p rfl) hran
          -- the child that the wait answers is gone after it, and stays gone
          refine ⟨hnot, hzombie, (parent_eq hbefore hzombie).symm.trans hparent, hstatus, ?_⟩
          rcases hzombie.step heffect hregular hk₃.numbered with ⟨-, hnot⟩ | ⟨hgone, -⟩
          · exact absurd rfl (hnot p)
          · obtain ⟨hgone', hnone⟩ := Run.departed (hafter.mono fun _ _ h => h.1) hgone
            exact ⟨hnone, hgone'.lookup_eq_none⟩
        · exact absurd rfl (heffect.named?_ne_of_departed hgone)
    · subst heq
      obtain ⟨k₄', hwait, -⟩ := hlater.split
      cases hwait with
      | call hbefore hregular hran =>
        -- a wait that fails changes nothing of the process table
        have hsame : k₄.standing = k₃.standing :=
          ((Call.awaitChild p target address).leads_effect k₃).of_run_ok hran
        have hzombie := isZombie hbefore hnot
        refine ⟨hsame ▸ hzombie, ?_⟩
        exact congrArg (fun σ : Standing => (σ.slots c.slot).parent) hsame

/-- The root process reaps its child, and can read the status of the child where it asked for it. -/
theorem exits_reaped_once_family : ∃ (boot k k₁ k₂ : Kernel) (past later earlier : List Transition)
    (answer : (Call.exit .second 7).Answer), boot.Booted 6 ∧ Run Call.Regular boot past k ∧
    past = later ++ ⟨k₁, .exit .second 7, answer, k₂⟩ :: earlier ∧
    (k.memory .eldest).load? 16 4 = .ok (intBytes 7) ∧ k.lookup Handle.second.pid = none := by
  obtain ⟨boot, earlier, k₁, hboot, hrun, hcheck⟩ := Run.of_rehearse Call.Regular 6
    (Call.family.take 7)
    (fun _ k₁ => Run.admits Call.Regular k₁ (.exit .second 7) fun _ k₂ =>
      Run.admits Call.Regular k₂ (.release 1) fun _ k₃ =>
        Run.admits Call.Regular k₃ (.awaitChild .eldest none 16) fun answer _ =>
          Option.bind answer Except.toOption == some 2) (by decide +kernel)
  obtain ⟨hregular, answer, k₂, hexit, hcheck⟩ := Run.of_admits hcheck
  obtain ⟨hregular', answer', k₃, hrelease, hcheck⟩ := Run.of_admits hcheck
  obtain ⟨hregular'', answer'', k₄, hwait, hcheck⟩ := Run.of_admits hcheck
  have hrun' := ((hrun.call hregular hexit).call hregular' hrelease).call hregular'' hwait
  obtain ⟨forker, -, -, hreaped, -⟩ := exits_reaped_once hboot hrun'
    (show _ = [_, _] ++ ⟨k₁, .exit .second 7, answer, k₂⟩ :: earlier from rfl)
  rcases answer'' with - | e | pid
  · cases hcheck
  · cases hcheck
  · cases Option.some.inj (beq_iff_eq.mp hcheck)
    obtain ⟨-, -, -, hstatus, -, hgone⟩ := hreaped [] [_] k₃ .eldest none 16 k₄ rfl
    exact ⟨boot, k₄, k₁, k₂, _, [_, _], earlier, answer, hboot, hrun', rfl, hstatus nofun, hgone⟩

end FairKernel
