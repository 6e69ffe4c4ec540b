import FairKernel.Proofs.Descent
import FairKernel.Proofs.Reckonings
import FairKernel.Proofs.SoundEntities

/-!
# Deadlines

A deadline that was ever computed leaves room for the rest of the quantum, and is no further away
than a full quantum: `Entity.IsTimely`. Every way in which an entity changes keeps it so, whatever
the weights are and however the divisions round. Deadlines are computed when a process is forked,
when its quantum is used up, when it is woken and when its nice value changes, and a deadline is not
lost again while the process lives; that its number is not handed out a second time is what this
rests on.

That there is a deadline is told by its not being zero: the virtual time plus a span is never zero
(`IsSound.vdeadline_ne_zero`), and the entity of a new process has zero there until a deadline is
computed. So being punctual (`IsPunctual`), which is a law, asks for a timely deadline only if there
is one.

Who has one is a matter of history. The number of a process identifies it for good
(`Standing.Labelled`), so a deadline that was computed in one call is still that of the same process
later (`Run.vdeadline_ne_zero`). Rounding only helps: a tick costs at most its share of a quantum
(`mul_cost_le_span`), so after each tick the rest of the quantum still fits before the deadline.
-/

namespace FairKernel

namespace Entity

variable {e e' : Entity}

/-- The rest of the quantum fits before the deadline, and the deadline is at most a quantum away. -/
structure IsTimely (e : Entity) : Prop where
  le_vdeadline : e.vruntime + e.timeSlice * e.cost ≤ e.vdeadline
  vdeadline_le : e.vdeadline ≤ e.vruntime + e.span

/-- Ticks cost no more one by one than all at once. -/
theorem mul_cost_le_span {n : Nat} (h : n ≤ quantum) : n * e.cost ≤ e.span := by
  calc n * e.cost ≤ quantum * (tickScale * weightUnit / e.weight) := Nat.mul_le_mul_right _ h
    _ ≤ quantum * (tickScale * weightUnit) / e.weight := Nat.mul_div_le_mul_div_assoc ..
    _ = e.span := by rw [span, Nat.mul_right_comm, Nat.mul_assoc]

/-- A quantum lasts for some time. -/
theorem IsSound.span_pos (h : e.IsSound) : 0 < e.span :=
  h.weight_pos_and_cost_pos.2.trans_le
    ((Nat.one_mul _).symm.trans_le (mul_cost_le_span one_le_quantum))

/-- A deadline that was computed is not zero. -/
theorem IsSound.vdeadline_ne_zero (h : e.IsSound) (hdeadline : e.vdeadline = e.vruntime + e.span) :
    e.vdeadline ≠ 0 := by
  have hspan := h.span_pos
  omega

/-- A sound entity whose deadline has just been moved is timely. -/
theorem isTimely_of_eq (h : e.timeSlice ≤ quantum) (hdeadline : e.vdeadline = e.vruntime + e.span) :
    e.IsTimely := by
  refine ⟨?_, hdeadline.le⟩
  rw [hdeadline]
  exact Nat.add_le_add_left (mul_cost_le_span h) _

/-- A tick that does not use up the quantum moves an entity towards its deadline. -/
theorem IsTimely.ticked (h : e.IsTimely) (hslice : 1 ≤ e.timeSlice) : e.ticked.IsTimely := by
  have hrest : e.cost + (e.timeSlice - 1) * e.cost = e.timeSlice * e.cost := by
    rw [Nat.add_comm, ← Nat.succ_mul, Nat.succ_eq_add_one, Nat.sub_add_cancel hslice]
  refine ⟨?_, ?_⟩
  · calc e.vruntime + e.cost + (e.timeSlice - 1) * e.cost
        = e.vruntime + e.timeSlice * e.cost := by rw [Nat.add_assoc, hrest]
      _ ≤ e.vdeadline := h.le_vdeadline
  · calc e.vdeadline ≤ e.vruntime + e.span := h.vdeadline_le
      _ ≤ e.vruntime + e.cost + e.span := Nat.add_le_add_right (Nat.le_add_right _ _) _

/-- Sound, and timely once there is a deadline. -/
structure IsPunctual (e : Entity) : Prop extends IsSound e where
  isTimely : e.vdeadline ≠ 0 → e.IsTimely

/-- A sound entity whose deadline has just been moved is punctual. -/
theorem IsSound.isPunctual (h : e.IsSound) (hdeadline : e.vdeadline = e.vruntime + e.span) :
    e.IsPunctual := ⟨h, fun _ => isTimely_of_eq h.timeSlice_le hdeadline⟩

/-- To be punctual is a law. -/
theorem isPunctual_law : Entity.Law fun _ => IsPunctual where
  initial _ := ⟨isSound_initial, fun h => absurd rfl h⟩
  later := id
  refresh h hr := (IsSound.refresh h.weightOf?_nice hr).isPunctual (by rw [eq_of_refresh hr]; rfl)
  forked h hf := (h.toIsSound.forked hf).isPunctual (by rw [eq_of_forked hf]; rfl)
  setNice h hs := by
    rcases eq_of_setNice hs with ⟨-, -, rfl⟩ | ⟨weight, -, -, hr⟩
    · exact h
    · exact (h.toIsSound.setNice hs).isPunctual (by rw [eq_of_renewDeadline hr]; rfl)
  chargeTick {_ e e' used} h hc := by
    have hsound := h.toIsSound.chargeTick hc
    rcases eq_of_chargeTick hc with ⟨-, -, rfl⟩ | ⟨-, -, hr⟩
    · exact ⟨hsound, fun hdeadline => (h.isTimely hdeadline).ticked h.timeSlice_pos⟩
    · exact hsound.isPunctual (by rw [eq_of_refresh hr]; rfl)

end Entity

/-! ### When deadlines are computed -/

section Calls

variable {k : Kernel} {c : Call} {a : c.Answer} {σ : Standing} {i : Fin slotCount} {s : Slot}

/-- What becomes of a deadline: it is computed, or left as it is, or there is none as the process is
new. -/
theorem Reckoning.vdeadline_cases (h : Reckoning k c a i s) (hk : k.standing.EntitiesSound) :
    s.entity.vdeadline ≠ 0 ∨
      s.entity.vdeadline = (k.slot i).entity.vdeadline ∧ c.renewed? k a ≠ some i ∧
        ((k.slot i).state = .sleeping → s.state = .runnable → c.Rouses) ∨
      k.freeSlot? = some i ∧ c.renewed? k a = none ∧ (s.pid = 0 ∨ s.pid = k.nextPid) := by
  have hsound (j : Fin slotCount) : (k.slot j).entity.IsSound := hk j
  -- a refreshed deadline lies after the virtual runtime, so it is not zero
  have refreshed (hr : (k.slot i).entity.refresh = .ok s.entity) : s.entity.vdeadline ≠ 0 := by
    have hafter := Entity.IsSound.refresh (hsound i).weightOf?_nice hr
    exact hafter.vdeadline_ne_zero (by rw [Entity.eq_of_refresh hr]; rfl)
  cases h with
  | kept entity own roused _ => exact .inr (.inl ⟨entity ▸ rfl, own, roused⟩)
  | woken _ _ refresh => exact .inl (refreshed refresh)
  | yielded _ _ _ _ refresh => exact .inl (refreshed refresh)
  | niced target nice old _ setNice =>
    have hafter := (hsound i).setNice setNice
    rcases Entity.eq_of_setNice setNice with ⟨-, hold, -⟩ | ⟨_, -, -, hr⟩
    · cases hold
    · exact .inl (hafter.vdeadline_ne_zero (by rw [Entity.eq_of_renewDeadline hr]; rfl))
  | charged p used _ _ running chargeTick own =>
    have hafter := (hsound i).chargeTick chargeTick
    rcases Entity.eq_of_chargeTick chargeTick with ⟨rfl, -, heq⟩ | ⟨rfl, -, hr⟩
    · exact .inr (.inl ⟨heq ▸ rfl, own ▸ nofun, fun hasleep => nomatch hasleep.symm.trans running⟩)
    · exact .inl (hafter.vdeadline_ne_zero (by rw [Entity.eq_of_refresh hr]; rfl))
  | forked p _ _ _ _ forked =>
    have hafter := (hsound p.slot).forked forked
    exact .inl (hafter.vdeadline_ne_zero (by rw [Entity.eq_of_forked forked]; rfl))
  | initial own free pid _ => exact .inr (.inr ⟨free, own, pid⟩)

/-- The number in a slot stays, unless the slot is vacated or a process is made in it. -/
theorem Fate.pid_cases (h : Fate k c a i s) :
    s.pid = (k.slot i).pid ∨ s.pid = 0 ∨ c.made? a = some k.nextPid ∧ s.pid = k.nextPid := by
  cases h with
  | carriesOn same _ => exact .inl same.pid_eq
  | killed _ _ _ eq => exact .inl (eq ▸ rfl)
  | flagged _ _ _ eq => exact .inl (eq ▸ rfl)
  | dispatched _ _ _ eq => exact .inl (eq ▸ rfl)
  | made _ made eq =>
    obtain ⟨entity, rfl⟩ := eq
    exact .inr (.inr ⟨made, rfl⟩)
  | unmade _ eq => exact .inr (.inl (eq ▸ rfl))
  | reaped _ _ _ _ _ _ eq => exact .inr (.inl (eq ▸ rfl))
  | acted _ _ _ pid _ _ _ _ _ => exact .inl pid

/-- What is always true of the numbers in the slots, whoever makes which calls. -/
structure Standing.Labelled (σ : Standing) : Prop where
  nextPid_pos : 0 < σ.nextPid
  pid_lt : ∀ i, (σ.slots i).pid < σ.nextPid
  root_ne : ∀ p, σ.root = some p → p.pid ≠ 0

/-- Numbers stay where they are in every call. -/
theorem Call.Effect.labelled (h : c.Effect k a σ) (hk : k.standing.Labelled) : σ.Labelled := by
  have hle : k.nextPid ≤ σ.nextPid := h.nextPid_le
  have hpos : 0 < k.nextPid := hk.nextPid_pos
  refine ⟨hpos.trans_le hle, fun i => ?_, fun p hp => ?_⟩
  · rcases (h.fate i).pid_cases with hpid | hpid | ⟨hmade, hpid⟩
    · exact hpid ▸ (hk.pid_lt i).trans_le hle
    · exact hpid ▸ hpos.trans_le hle
    · rw [hpid, (h.nextPid_of_made hmade).2]
      exact Int.lt_succ _
  · rw [h.outlook.root] at hp
    cases c with
    | startRoot image =>
      cases a with
      | error e => exact hk.root_ne p hp
      | ok q =>
        obtain rfl := Option.some.inj hp
        obtain ⟨-, σ', ⟨-, hpid, -⟩, -⟩ := h
        exact hpid ▸ hpos.ne'
    | _ => exact hk.root_ne p hp

end Calls

/-- Numbers are in order when the kernel has booted. -/
theorem Kernel.Booted.labelled {pages : Nat} {k : Kernel} (h : k.Booted pages) :
    k.standing.Labelled := by
  have hnext : 0 < k.nextPid := h.nextPid_eq ▸ Int.one_pos
  refine ⟨hnext, fun i => ?_, fun p hp => ?_⟩
  · rw [Kernel.slots_standing, h.slot_eq]
    exact hnext
  · cases h.root_eq.symm.trans hp

namespace Run

variable {permitted : Kernel → Call → Prop} {start k : Kernel} {past : List Transition}

/-- Numbers stay where they are in every run. -/
theorem labelled (hrun : Run permitted start past k) (hstart : start.standing.Labelled) :
    k.standing.Labelled :=
  hrun.induct (P := fun k => k.standing.Labelled) hstart fun {k} c hk _ =>
    (c.leads_effect k).mono (fun _ _ h => h.labelled hk) fun _ _ => trivial

/-- Whoever has a deadline keeps having one, as its number is not handed out again. -/
theorem vdeadline_ne_zero (hrun : Run permitted start past k)
    (hsound : start.standing.EntitiesSound) {i : Fin slotCount} {pid : Pid} (hne : pid ≠ 0)
    (hlt : pid < start.nextPid)
    (hstart : (start.slot i).pid = pid → (start.slot i).entity.vdeadline ≠ 0) :
    (k.slot i).pid = pid → (k.slot i).entity.vdeadline ≠ 0 := by
  have hall : k.standing.EntitiesSound ∧ pid < k.nextPid ∧
      ((k.slot i).pid = pid → (k.slot i).entity.vdeadline ≠ 0) := by
    refine hrun.induct (P := fun k => k.standing.EntitiesSound ∧ pid < k.nextPid ∧
      ((k.slot i).pid = pid → (k.slot i).entity.vdeadline ≠ 0)) ⟨hsound, hlt, hstart⟩
      fun {k} c ⟨hk, hnext, hdeadline⟩ _ => (c.leads_effect k).mono (fun a k' h => ?_)
        fun _ _ => trivial
    refine ⟨h.entitiesSound hk, hnext.trans_le h.nextPid_le, fun hpid => ?_⟩
    have hpid : (k'.standing.slots i).pid = pid := hpid
    rcases (h.reckoning i).vdeadline_cases hk with hcomputed | ⟨heq, -, -⟩ | ⟨-, -, hnew⟩
    · exact hcomputed
    · -- the process was there before, under the same number
      rcases (h.fate i).pid_cases with hsame | hzero | ⟨-, hnew⟩
      · exact heq.trans_ne (hdeadline (hsame.symm.trans hpid))
      · exact absurd (hpid.symm.trans hzero) hne
      · exact absurd (hpid.symm.trans hnew) hnext.ne
    · rcases hnew with hzero | hnew
      · exact absurd (hpid.symm.trans hzero) hne
      · exact absurd (hpid.symm.trans hnew) hnext.ne
  exact hall.2.2

end Run

/-! ### Punctual processes -/

namespace Transition

/-- Whether a call uses up the quantum of a process, changes its nice value, or wakes it. -/
def Renews (t : Transition) (p : Handle) : Prop :=
  (t.before.slotOf p).pid = p.pid ∧
    (t.call.renewed? t.before t.answer = some p.slot ∨
      (t.before.slotOf p).state = .sleeping ∧ (t.after.slotOf p).state = .runnable ∧
        ¬ t.call.Rouses)

variable {t : Transition}

/-- Who was forked has a deadline. -/
theorem vdeadline_of_forked {parent : Handle} {pid : Pid}
    (h : t.call.Effect t.before t.answer t.after.standing) (hk : t.before.standing.EntitiesSound)
    (hlabelled : t.before.standing.Labelled)
    (hforked : t.call.forked? t.answer = some (parent, pid))
    (i : Fin slotCount) (hpid : (t.after.slot i).pid = pid) :
    (t.after.slot i).entity.vdeadline ≠ 0 := by
  obtain ⟨k, c, a, k'⟩ := t
  cases c with
  | fork p =>
    cases a with
    | error e => cases hforked
    | ok child =>
      cases hforked
      obtain ⟨j, entity, hentity, -, hnext, heq⟩ := h
      have hslot : k'.standing.slots i = _ := congrFun (congrArg Standing.slots heq) i
      rw [Standing.slots_update] at hslot
      have hafter := (hk parent.slot).forked hentity
      split at hslot
      · have hnew : (k'.slot i).entity = entity := congrArg Slot.entity hslot
        rw [hnew]
        exact hafter.vdeadline_ne_zero (by rw [Entity.eq_of_forked hentity]; rfl)
      · -- nobody else has the new number
        have hsame : k'.standing.slots i = k.standing.slots i := hslot
        have hold : (k'.standing.slots i).pid = (k.standing.slots i).pid := congrArg Slot.pid hsame
        exact absurd (hold.symm.trans (hpid.trans hnext)) (hlabelled.pid_lt i).ne
  | _ => cases hforked

/-- Who has just been woken, has used up its quantum or has a new nice value has a deadline. -/
theorem vdeadline_of_renews {p : Handle}
    (h : t.call.Effect t.before t.answer t.after.standing) (hk : t.before.standing.EntitiesSound)
    (hrenews : t.Renews p) : (t.after.slot p.slot).entity.vdeadline ≠ 0 := by
  obtain ⟨-, hevent⟩ := hrenews
  rcases (h.reckoning p.slot).vdeadline_cases hk with hcomputed | ⟨-, hown, hroused⟩ |
    ⟨hfree, hnone, -⟩
  · exact hcomputed
  · rcases hevent with hrenewed | ⟨hasleep, hawake, hnot⟩
    · exact absurd hrenewed hown
    · exact absurd (hroused hasleep hawake) hnot
  · rcases hevent with hrenewed | ⟨hasleep, -, -⟩
    · cases hnone.symm.trans hrenewed
    · -- nobody sleeps in a free slot
      exact absurd (Slot.isLive_of_state_eq hasleep nofun) (Kernel.not_isLive_of_freeSlot? hfree)

end Transition

/-- What is known of a call of a run. -/
theorem Run.effect_of_mem {permitted : Kernel → Call → Prop} {pages : Nat} {boot k : Kernel}
    {past : List Transition} (hrun : Run permitted boot past k) (hboot : boot.Booted pages)
    {t : Transition} (ht : t ∈ past) :
    t.call.Effect t.before t.answer t.after.standing ∧ t.before.standing.EntitiesSound ∧
      t.before.standing.Labelled := by
  obtain ⟨earlier, hearlier, -, ran⟩ := hrun.of_mem ht
  exact ⟨(t.call.leads_effect t.before).of_run_ok ran,
    hearlier.entitiesSound hboot.entitiesSound, hearlier.labelled hboot.labelled⟩

/-- **Entities.** In every state that calls lead to, a live process has a nice value from 0 to 39,
the weight of that nice value, and between one tick and all of its quantum left, so neither the cost
of a tick nor the span of a quantum is a division by zero. Whoever was forked, and the root process
once it has used up a quantum, was woken or has another nice value, can spend the rest of its
quantum before its deadline, which is at most a quantum away and not past. -/
theorem entities_in_order {pages : Nat} {boot k : Kernel} {past : List Transition}
    (hboot : boot.Booted pages) (hrun : Run (fun _ _ => True) boot past k) {p : Handle}
    (hlive : k.IsLive p) :
    let e := (k.slotOf p).entity
    (0 ≤ e.nice ∧ e.nice ≤ 39) ∧ weightOf? e.nice = some e.weight ∧
      (1 ≤ e.timeSlice ∧ e.timeSlice ≤ quantum) ∧
      ∃ cost span, e.tickCost = .ok cost ∧ e.quantumSpan = .ok span ∧
        ((∃ parent, Forked past parent p.pid) ∨ (k.root = some p ∧ ∃ t ∈ past, t.Renews p) →
          e.vruntime + e.timeSlice * cost ≤ e.vdeadline ∧ e.vdeadline ≤ e.vruntime + span ∧
            e.vruntime < e.vdeadline) := by
  intro e
  have hpunctual : e.IsPunctual :=
    hrun.obeys Entity.isPunctual_law (hboot.obeys Entity.isPunctual_law) p.slot
  obtain ⟨hweight, hcost⟩ := hpunctual.weight_pos_and_cost_pos
  have hnice := isSome_weightOf?_iff.mp (hpunctual.weightOf?_nice ▸ rfl : (weightOf? e.nice).isSome)
  refine ⟨⟨hnice.1, Int.le_of_lt_add_one hnice.2⟩, hpunctual.weightOf?_nice,
    ⟨hpunctual.timeSlice_pos, hpunctual.timeSlice_le⟩, e.cost, e.span,
    Entity.tickCost_eq_ok.mpr ⟨hweight.ne', rfl⟩, Entity.quantumSpan_eq_ok.mpr ⟨hweight.ne', rfl⟩,
    fun hevent => ?_⟩
  -- it had a deadline when it was forked or when it was renewed, and has not lost it since
  have hdeadline : e.vdeadline ≠ 0 := by
    rcases hevent with ⟨parent, t, ht, hforked⟩ | ⟨hroot, t, ht, hrenews⟩
    · obtain ⟨heffect, hsound, hlabelled⟩ := hrun.effect_of_mem hboot ht
      obtain ⟨hnumber, hnext⟩ := heffect.nextPid_of_made (Call.made?_of_forked? hforked)
      have hne : p.pid ≠ 0 := hnumber ▸ hlabelled.nextPid_pos.ne'
      have hlt : p.pid < t.after.nextPid := hnumber ▸ (Int.lt_succ _).trans_eq hnext.symm
      have hstart := Transition.vdeadline_of_forked heffect hsound hlabelled hforked p.slot
      obtain ⟨later, hlater⟩ := hrun.since ht
      exact hlater.vdeadline_ne_zero (heffect.entitiesSound hsound) hne hlt hstart hlive.2
    · obtain ⟨heffect, hsound, hlabelled⟩ := hrun.effect_of_mem hboot ht
      have hne : p.pid ≠ 0 := (hrun.labelled hboot.labelled).root_ne p hroot
      have hlt : p.pid < t.after.nextPid :=
        (hrenews.1 ▸ hlabelled.pid_lt p.slot).trans_le heffect.nextPid_le
      have hstart := Transition.vdeadline_of_renews heffect hsound hrenews
      obtain ⟨later, hlater⟩ := hrun.since ht
      exact hlater.vdeadline_ne_zero (heffect.entitiesSound hsound) hne hlt (fun _ => hstart)
        hlive.2
  -- the rest follows from a deadline that was computed: room for the quantum, and no more than that
  have htimely := hpunctual.isTimely hdeadline
  refine ⟨htimely.le_vdeadline, htimely.vdeadline_le, ?_⟩
  have hrest : 0 < e.timeSlice * e.cost := Nat.mul_pos hpunctual.timeSlice_pos hcost
  exact (Nat.lt_add_of_pos_right hrest).trans_le htimely.le_vdeadline

/-- A parent that has changed its nice value in mid-quantum, and its child, which it forked before
that. -/
theorem entities_in_order_family : ∃ boot past k, Kernel.Booted 6 boot ∧
    Run (fun _ _ => True) boot past k ∧ k.IsLive .eldest ∧ k.IsLive .second ∧
    ∀ p ∈ [Handle.eldest, Handle.second],
      (k.slotOf p).entity.vruntime < (k.slotOf p).entity.vdeadline := by
  let calls : List Call := [.startRoot [], .dispatch 0, .tick .eldest, .fork .eldest,
    .setNice Handle.eldest.pid 7, .tick .eldest]
  let renewed (t : Transition) : Bool :=
    decide ((t.before.slotOf .eldest).pid = Handle.eldest.pid) &&
      (t.call.renewed? t.before t.answer == some Handle.eldest.slot)
  let forked (t : Transition) : Bool :=
    t.call.forked? t.answer == some (Handle.eldest, Handle.second.pid)
  obtain ⟨boot, past, k, hboot, hrun, hcheck⟩ := Run.of_rehearse (fun _ _ => True) 6 calls
    (fun past k => decide (k.IsLive .eldest ∧ k.IsLive .second ∧ k.root = some .eldest) &&
      (past.any renewed && past.any forked)) (by decide +kernel)
  simp only [Bool.and_eq_true, decide_eq_true_eq, List.any_eq_true] at hcheck
  obtain ⟨⟨hparent, hchild, hroot⟩, ⟨t, ht, hrenewed⟩, ⟨t', ht', hforked⟩⟩ := hcheck
  have hrenews : t.Renews .eldest := by
    simp only [renewed, Bool.and_eq_true, decide_eq_true_eq, beq_iff_eq] at hrenewed
    exact ⟨hrenewed.1, .inl hrenewed.2⟩
  refine ⟨boot, past, k, hboot, hrun, hparent, hchild, fun p hp => ?_⟩
  rcases List.mem_pair.mp hp with rfl | rfl
  · obtain ⟨-, -, -, _, _, -, -, htimely⟩ := entities_in_order hboot hrun hparent
    exact (htimely (.inr ⟨hroot, t, ht, hrenews⟩)).2.2
  · obtain ⟨-, -, -, _, _, -, -, htimely⟩ := entities_in_order hboot hrun hchild
    exact (htimely (.inl ⟨.eldest, t', ht', beq_iff_eq.mp hforked⟩)).2.2

end FairKernel
