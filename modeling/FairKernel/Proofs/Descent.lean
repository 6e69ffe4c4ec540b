import FairKernel.Proofs.Numbers
import FairKernel.Proofs.Turns

/-!
# Descent

Who reaps a process is a matter of history: its parent is the process that forked it for as long as
that one has not exited, and the root process from then on. The root process itself neither exits
nor is reaped. So the parents of all live processes can be told from the calls that were made.

The history is the list of calls, so `Forked`, `hasExited` and `reaper?` are read off it and not off
the kernel. `Descent` says how the two go together: every live process but the root one was forked
by exactly one process, its parent is who reaps the children of that one, and whoever has exited is
a zombie or gone. Each call keeps this (`Descent.step`) as long as processes make their own calls
while they have a processor, and so does every run (`Run.descent`).
-/

namespace FairKernel

/-- What is called through a handle is called through that of a live process, and what a process
does itself it does while it has a processor. -/
def Call.Regular (k : Kernel) (c : Call) : Prop := c.ThroughLive k ∧ c.ByRunning k

instance (k : Kernel) (c : Call) : Decidable (c.Regular k) := inferInstanceAs (Decidable (_ ∧ _))

/-! ### History -/

namespace Call

/-- The process that forked in a call, and the number of its child. -/
def forked? : (c : Call) → c.Answer → Option (Handle × Pid)
  | .fork h, .ok pid => some (h, pid)
  | _, _ => none

/-- The process that exited in a call. -/
def exited? : Call → Option Handle
  | .exit h _ => some h
  | _ => none

end Call

/-- Whether a process forked the process with a number. -/
def Forked (past : List Transition) (q : Handle) (pid : Pid) : Prop :=
  ∃ t ∈ past, t.call.forked? t.answer = some (q, pid)

/-- Whether a process exited. -/
def hasExited (past : List Transition) (q : Handle) : Bool :=
  past.any fun t => t.call.exited? == some q

/-- Who reaps the children of a process: itself, or the root process once it has exited. -/
def reaper? (root : Option Handle) (past : List Transition) (q : Handle) : Option Handle :=
  if hasExited past q then root else some q

/-- Who was forked is told by the last call, or by those before it. -/
theorem forked_cons {t : Transition} {past : List Transition} {q : Handle} {pid : Pid} :
    Forked (t :: past) q pid ↔ t.call.forked? t.answer = some (q, pid) ∨ Forked past q pid := by
  simp only [Forked, List.mem_cons, exists_eq_or_imp]

/-- Who has exited is told by the last call, or by those before it. -/
theorem hasExited_cons {t : Transition} {past : List Transition} {q : Handle} :
    hasExited (t :: past) q ↔ t.call.exited? = some q ∨ hasExited past q := by
  unfold hasExited
  rw [List.any_cons, Bool.or_eq_true, beq_iff_eq]

/-! ### Zombies -/

/-- A process that has exited with a status and was not reaped yet. -/
structure Standing.IsZombie (σ : Standing) (q : Handle) (status : Int) : Prop where
  state_eq : (σ.slots q.slot).state = .zombie
  pid_eq : (σ.slots q.slot).pid = q.pid
  exitStatus_eq : (σ.slots q.slot).exitStatus = status

section Calls

variable {k : Kernel} {c : Call} {a : c.Answer} {σ : Standing} {p q : Handle} {pid : Pid}
  {status : Int}

/-- Whoever is forked is made. -/
theorem Call.made?_of_forked? (h : c.forked? a = some (q, pid)) : c.made? a = some pid := by
  cases c with
  | fork p =>
    cases a with
    | error e => cases h
    | ok pid' =>
      cases h
      rfl
  | _ => cases h

/-- A call that reaps a child takes it out of the table. -/
theorem Call.Effect.of_reaped? (h : c.Effect k a σ) (hreaped : c.reaped? a = some (p, pid)) :
    ∃ target address, ∃ i : Fin slotCount, c = .awaitChild p target address ∧
      Kernel.isChild p target (k.slot i) ∧ (k.slot i).state = .zombie ∧ (k.slot i).pid = pid ∧
      σ = k.standing.update i { (k.slot i).standing.vacated with parent := none } := by
  cases c with
  | awaitChild p' target address =>
    rcases a with _ | e | pid'
    · cases hreaped
    · cases hreaped
    · cases hreaped
      obtain ⟨i, hchild, hzombie, hpid, heq⟩ := h
      exact ⟨target, address, i, rfl, hchild, hzombie, hpid, heq⟩
  | _ => cases hreaped

/-- A child that is reaped is gone. -/
theorem Call.Effect.departed_of_reaped? (h : c.Effect k a σ) (hk : k.standing.Distinct)
    (hreaped : c.reaped? a = some (p, pid)) : σ.Departed pid := by
  obtain ⟨_, _, i, -, -, hzombie, hpid, rfl⟩ := h.of_reaped? hreaped
  have hi : (k.slot i).isLive := Slot.isLive_of_state_eq hzombie nofun
  refine ⟨hpid ▸ hk.pid_lt i hi, fun j hj hpid' => ?_⟩
  rw [Standing.slots_update] at hj hpid'
  split at hj
  · cases hj
  · next hne =>
    rw [if_neg hne] at hpid'
    exact hne (hk.pid_inj j i hj hi (hpid'.trans hpid.symm))

/-- A zombie stays one until it is reaped, and then it is gone. -/
theorem Standing.IsZombie.step (hq : k.standing.IsZombie q status) (h : c.Effect k a σ)
    (hc : c.Regular k) (hk : k.standing.Numbered) :
    σ.IsZombie q status ∧ (∀ p, c.reaped? a ≠ some (p, q.pid)) ∨
      σ.Departed q.pid ∧ ∃ p, c.reaped? a = some (p, q.pid) := by
  by_cases hreaped : ∃ p, c.reaped? a = some (p, q.pid)
  · obtain ⟨p, hp⟩ := hreaped
    exact .inr ⟨h.departed_of_reaped? hk.toDistinct hp, p, hp⟩
  · rcases (h.fate q.slot).zombie_or_reaped hc.2 hq.state_eq with ⟨hstate, hpid, hstatus⟩ |
      ⟨⟨p, hp⟩, -⟩
    · exact .inl ⟨⟨hstate, hpid.trans hq.pid_eq, hstatus.trans hq.exitStatus_eq⟩,
        fun p hp => hreaped ⟨p, hp⟩⟩
    · rw [show (k.slot q.slot).pid = q.pid from hq.pid_eq] at hp
      exact absurd ⟨p, hp⟩ hreaped

/-- A process that exits is a zombie. -/
theorem Call.Effect.isZombie {a : (Call.exit q status).Answer}
    (h : (Call.exit q status).Effect k a σ) : σ.IsZombie q status := by
  obtain ⟨-, σ₁, σ₂, -, -, hpid, rfl⟩ := h
  have hself := Standing.slots_update_self σ₂ q.slot
    { σ₂.slots q.slot with exitStatus := status, state := .zombie }
  exact ⟨by rw [hself], by rw [hself, hpid], by rw [hself]⟩

end Calls

/-! ### Parents -/

/-- What history tells of the processes. -/
structure Descent (past : List Transition) (σ : Standing) : Prop where
  /-- The root process is there, and has not exited. -/
  root_up : ∀ r, σ.root = some r → (σ.slots r.slot).isLive ∧ (σ.slots r.slot).pid = r.pid ∧
    (σ.slots r.slot).state ≠ .zombie
  /-- Nobody lives before it is. -/
  root_ne_none : ∀ i, (σ.slots i).isLive → σ.root ≠ none
  forked_lt : ∀ q pid, Forked past q pid → pid < σ.nextPid
  /-- Who exited is a zombie or was reaped. -/
  exited : ∀ q, hasExited past q → (∃ status, σ.IsZombie q status) ∨ σ.Departed q.pid
  /-- Everybody else was forked once, and has the parent that follows from that. -/
  forked : ∀ i, (σ.slots i).isLive → σ.root ≠ some ⟨i, (σ.slots i).pid⟩ →
    ∃ q, (∀ q', Forked past q' (σ.slots i).pid ↔ q' = q) ∧
      (σ.slots i).parent = reaper? σ.root past q

section Steps

variable {past : List Transition} {k k' : Kernel} {c : Call} {a : c.Answer} {σ : Standing}
  {i : Fin slotCount} {q : Handle}

namespace Descent

/-- Who has a processor has not exited. -/
theorem not_hasExited (hd : Descent past k.standing) (hq : k.IsRunning q) :
    hasExited past q = false := by
  rw [← Bool.not_eq_true]
  intro hexited
  rcases hd.exited q hexited with ⟨status, hzombie⟩ | hgone
  · cases hq.1.symm.trans hzombie.state_eq
  · exact hgone.pid_ne q.slot hq.isLive.1 hq.2

/-- Whoever has exited is a zombie afterwards, or gone. -/
theorem exited_step (hd : Descent past k.standing) (h : c.Effect k a σ) (hc : c.Regular k)
    (hk : k.standing.Numbered) (hexited : hasExited (⟨k, c, a, k'⟩ :: past) q) :
    (∃ status, σ.IsZombie q status) ∨ σ.Departed q.pid := by
  rcases hasExited_cons.mp hexited with hnow | hbefore
  · cases c with
    | exit p status =>
      obtain rfl := Option.some.inj hnow
      exact .inl ⟨status, h.isZombie⟩
    | _ => cases hnow
  · rcases hd.exited q hbefore with ⟨status, hzombie⟩ | hgone
    · rcases hzombie.step h hc hk with ⟨hzombie', -⟩ | ⟨hgone, -⟩
      · exact .inl ⟨status, hzombie'⟩
      · exact .inr hgone
    · exact .inr (h.departed hc.1.byLive hgone)

/-- When a process exits its children pass to whoever reaps them from then on. -/
theorem heir_eq (hd : Descent past k.standing) (h : c.Effect k a σ) (hc : c.Regular k)
    (hroot : k.root ≠ none) (q : Handle) :
    c.heir k (reaper? k.root past q) = reaper? k.root (⟨k, c, a, k'⟩ :: past) q := by
  cases c with
  -- the exit of the process itself passes its children to the root, ...
  | exit p status =>
    have hrunning := hc.2 p rfl
    by_cases hp : p = q
    · subst hp
      have hexits : hasExited (⟨k, .exit p status, a, k'⟩ :: past) p :=
        hasExited_cons.mpr (.inl rfl)
      unfold reaper?
      rw [hd.not_hasExited hrunning, hexits, if_neg Bool.false_ne_true, if_pos rfl,
        Call.heir_exit_self]
      cases hk : k.root with
      | none => exact absurd hk hroot
      | some r => rfl
    -- ... that of another one leaves the reaper, which is `q` or the root: the root does not exit
    · have hsame : hasExited (⟨k, .exit p status, a, k'⟩ :: past) q = hasExited past q := by
        rw [Bool.eq_iff_iff, hasExited_cons]
        exact or_iff_right fun heq => hp (Option.some.inj heq)
      have hne : reaper? k.root past q ≠ some p := by
        unfold reaper?
        split
        · exact h.1
        · exact fun heq => hp (Option.some.inj heq).symm
      rw [Call.heir_eq_of_ne fun p' status' hcall => ?_]
      · unfold reaper?
        rw [hsame]
      · cases hcall
        exact hne
  | _ => rfl

/-- Who is forked is forked by the process that called, and is its child. -/
theorem forked_step (hd : Descent past k.standing) (h : c.Effect k a σ) (hc : c.Regular k)
    (hk : k.standing.Numbered) (hlive : (σ.slots i).isLive)
    (hne : σ.root ≠ some ⟨i, (σ.slots i).pid⟩) :
    ∃ q, (∀ q', Forked (⟨k, c, a, k'⟩ :: past) q' (σ.slots i).pid ↔ q' = q) ∧
      (σ.slots i).parent = reaper? σ.root (⟨k, c, a, k'⟩ :: past) q := by
  rcases (h.fate i).of_isLive hc.1 hlive with ⟨hlive₀, hpid⟩ | ⟨hfree, hmade, hpid⟩
  -- it was there before: it was forked then, and its parent changes as that of a child does, ...
  · have hroot := hd.root_ne_none i hlive₀
    have hroot_eq : σ.root = k.root := h.root_eq hroot
    rw [hroot_eq, hpid] at hne
    obtain ⟨q, hforked, hparent⟩ := hd.forked i hlive₀ hne
    refine ⟨q, fun q' => ?_, ?_⟩
    · rw [forked_cons, hpid]
      refine (or_iff_right fun hnow => ?_).trans (hforked q')
      have hlt : (k.slot i).pid < k.nextPid := hk.pid_lt i hlive₀
      exact hlt.ne (h.nextPid_of_made (Call.made?_of_forked? hnow)).1
    · rw [(h.fate i).parent_eq hlive₀ hlive, hroot_eq]
      exact (congrArg (c.heir k) hparent).trans (hd.heir_eq h hc hroot q)
  -- ... or it is new: only a fork makes a process that is not the root one
  · cases c with
    | startRoot image =>
      cases a with
      | error e => cases hmade
      | ok p =>
        obtain ⟨-, σ', ⟨hfree', hpid', -⟩, rfl⟩ := h
        have hslot : p.slot = i := Option.some.inj (hfree'.symm.trans hfree)
        refine absurd ?_ hne
        rw [hpid, ← hpid', ← hslot]
    | fork p =>
      cases a with
      | error e => cases hmade
      | ok pid =>
        obtain ⟨j, entity, -, hfree', hpid', rfl⟩ := h
        obtain rfl : j = i := Option.some.inj (hfree'.symm.trans hfree)
        have hrunning := hc.2 p rfl
        refine ⟨p, fun q' => ?_, ?_⟩
        · rw [forked_cons, hpid]
          refine (or_iff_left fun hbefore => ?_).trans ?_
          · exact (show k.nextPid < k.nextPid from hd.forked_lt q' _ hbefore).false
          · change some (p, pid) = some (q', k.nextPid) ↔ q' = p
            rw [Option.some.injEq, Prod.mk.injEq]
            exact ⟨fun heq => heq.1.symm, fun heq => ⟨heq.symm, hpid'⟩⟩
        · have hup : hasExited (⟨k, .fork p, .ok pid, k'⟩ :: past) p = false :=
            hd.not_hasExited hrunning
          unfold reaper?
          rw [hup, Standing.slots_update_self]
          rfl
    | _ => cases hmade

/-- Every call adds to what history tells. -/
theorem step (hd : Descent past k.standing) (h : c.Effect k a σ) (hc : c.Regular k)
    (hk : k.standing.Numbered) : Descent (⟨k, c, a, k'⟩ :: past) σ where
  root_up _ hr := h.root_up hc.1 hd.root_up hr
  root_ne_none _ hi := h.root_ne_none hc.1 hd.root_ne_none hi
  forked_lt q pid hforked := by
    rcases forked_cons.mp hforked with hnow | hbefore
    · obtain ⟨hpid, hnext⟩ := h.nextPid_of_made (Call.made?_of_forked? hnow)
      exact hpid.trans_lt ((Int.lt_succ k.nextPid).trans_eq hnext.symm)
    · exact (hd.forked_lt q pid hbefore).trans_le h.nextPid_le
  exited _ hexited := hd.exited_step h hc hk hexited
  forked _ hi hne := hd.forked_step h hc hk hi hne

end Descent

end Steps

/-- When the kernel has booted there are no processes. -/
theorem Kernel.Booted.descent {pages : Nat} {boot : Kernel} (hboot : boot.Booted pages) :
    Descent [] boot.standing := by
  refine ⟨fun r hr => ?_, fun i hi => absurd hi (hboot.not_isLive i), fun q pid hforked => ?_,
    fun q hq => ?_, fun i hi => absurd hi (hboot.not_isLive i)⟩
  · cases hboot.root_eq.symm.trans hr
  · obtain ⟨t, ht, -⟩ := hforked
    exact absurd ht List.not_mem_nil
  · cases hq

/-- **Descent.** At the end of every run the parents are as history tells. -/
theorem Run.descent {pages : Nat} {boot k : Kernel} {past : List Transition}
    (hboot : boot.Booted pages) (hrun : Run Call.Regular boot past k) :
    Descent past k.standing := by
  induction hrun with
  | refl => exact hboot.descent
  | @call past k k' c a earlier allowed ran ih =>
    have hk := (earlier.mono fun _ _ h => h.1).kempt hboot.kempt
    exact ih.step ((c.leads_effect k).of_run_ok ran) allowed hk.numbered

end FairKernel
