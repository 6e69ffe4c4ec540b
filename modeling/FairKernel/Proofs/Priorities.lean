import FairKernel.Proofs.Entities

/-!
# Changing priority

A deadline stands where it was put when it was last computed, a full quantum of virtual time ahead
of the virtual time of that moment, and every tick charged since then has used up some of that. A
change of the nice value computes it anew from the present virtual time, so that the quantum starts
over, even though a process of higher priority has a shorter one. The deadline is pulled in exactly
if the quantum gets shorter by no less than the ticks charged since the last computation have cost.

For this the ticks since the last computation are counted beside the entity (`Operation.since`), and
each operation keeps track of them (`Operation.isDated`). So of every entity that operations lead to
it is known where its deadline stands: the span of its quantum ahead of its virtual time, less what
those ticks have cost.
-/

namespace FairKernel

/-- The lower the nice value, the heavier. -/
theorem niceWeights_antitone :
    ∀ m n : Fin 40, m ≤ n → niceWeights[n] ≤ niceWeights[m] := by decide +kernel

/-- No nice value has more weight than a lower one. -/
theorem weight_le_of_nice_le {low high : Int} {heavy light : Nat} (hle : low ≤ high)
    (hlow : weightOf? low = some heavy) (hhigh : weightOf? high = some light) : light ≤ heavy := by
  cases low with
  | negSucc m => cases hlow
  | ofNat m =>
    cases high with
    | negSucc n => cases hhigh
    | ofNat n =>
      obtain ⟨hm, rfl⟩ := Vector.getElem?_eq_some_iff.mp hlow
      obtain ⟨hn, rfl⟩ := Vector.getElem?_eq_some_iff.mp hhigh
      exact niceWeights_antitone ⟨m, hm⟩ ⟨n, hn⟩ (Int.ofNat_le.mp hle)

namespace Entity

variable {e e' : Entity} {ticks : Nat} {before : Option Nat}

/-! ### What operations lead to -/

/-- What can happen to an entity. -/
inductive Operation
  | chargeTick
  | refresh
  | renewDeadline
  | setNice (nice : Int)
  /-- The entity is that of a child from here on. -/
  | fork

namespace Operation

/-- The entity after an operation. -/
def run (e : Entity) : Operation → Except Panic Entity
  | chargeTick => Prod.snd <$> e.chargeTick
  | refresh => e.refresh
  | renewDeadline => e.renewDeadline
  | setNice nice => Prod.snd <$> e.setNice nice
  | fork => e.forked

/-- The ticks charged since the deadline was last computed, if it was ever, after an operation,
given how many there were before. -/
def since (e : Entity) (before : Option Nat) : Operation → Option Nat
  | chargeTick => if e.timeSlice - 1 = 0 then some 0 else before.map (· + 1)
  | setNice nice => if (weightOf? nice).isSome then some 0 else before
  | refresh | renewDeadline | fork => some 0

end Operation

/-- The entities that operations lead to from that of a new process, with the ticks charged since
the deadline was last computed, if it was ever. -/
inductive Reached : Option Nat → Entity → Prop
  | initial : Reached none .initial
  | step {before : Option Nat} {e e' : Entity} (earlier : Reached before e) (op : Operation)
      (ran : op.run e = .ok e') : Reached (op.since e before) e'

/-! ### Where the deadline stands -/

/-- Ticks were charged since the deadline was put a full quantum ahead, and the rest of the quantum
is no longer than they leave it. -/
structure IsDated (ticks : Nat) (e : Entity) : Prop where
  vdeadline_add : e.vdeadline + ticks * e.cost = e.vruntime + e.span
  vdeadline_lt : e.vdeadline < wordLimit
  ticks_add_le : ticks + e.timeSlice ≤ quantum

/-- A deadline that has just been computed. -/
theorem isDated_of_renewDeadline (h : e.renewDeadline = .ok e') (hslice : e.timeSlice ≤ quantum) :
    e'.IsDated 0 := by
  obtain ⟨-, hfits, rfl⟩ := renewDeadline_eq_ok.mp h
  refine ⟨?_, hfits, ?_⟩
  · rw [Nat.zero_mul, Nat.add_zero]
    rfl
  · rwa [Nat.zero_add]

/-- A tick that leaves some of the quantum leaves the deadline where it stands. -/
theorem IsDated.ticked (h : e.IsDated ticks) (hslice : e.timeSlice - 1 ≠ 0) :
    e.ticked.IsDated (ticks + 1) := by
  refine ⟨?_, h.vdeadline_lt, ?_⟩
  · calc e.vdeadline + (ticks + 1) * e.cost
        = e.vdeadline + ticks * e.cost + e.cost := by rw [Nat.succ_mul, Nat.add_assoc]
      _ = e.vruntime + e.cost + e.span := by rw [h.vdeadline_add, Nat.add_right_comm]
  · have hle := h.ticks_add_le
    change ticks + 1 + (e.timeSlice - 1) ≤ quantum
    omega

/-- No operation loses track of the deadline. -/
theorem Operation.isDated {op : Operation} (hsound : e.IsSound)
    (h : ∀ ticks, before = some ticks → e.IsDated ticks) (ran : op.run e = .ok e') :
    e'.IsSound ∧ ∀ ticks, op.since e before = some ticks → e'.IsDated ticks := by
  -- a deadline that is computed now has no ticks since
  have computed {d : Entity} (hd : d.renewDeadline = .ok e') (hslice : d.timeSlice ≤ quantum)
      (ticks : Nat) (hticks : some 0 = some ticks) : e'.IsDated ticks := by
    obtain rfl := Option.some.inj hticks
    exact isDated_of_renewDeadline hd hslice
  cases op with
  | chargeTick =>
    obtain ⟨⟨used, _⟩, hcharge, rfl⟩ := map_eq_ok.mp ran
    refine ⟨hsound.chargeTick hcharge, fun n hn => ?_⟩
    -- some of the quantum is left, and one more tick has been charged
    rcases eq_of_chargeTick hcharge with ⟨-, hslice, rfl⟩ | ⟨-, hslice, hrefresh⟩
    · rw [since, if_neg hslice] at hn
      obtain ⟨ticks, hticks, rfl⟩ := Option.map_eq_some_iff.mp hn
      exact (h ticks hticks).ticked hslice
    -- the quantum is used up, so the deadline is computed
    · rw [since, if_pos hslice] at hn
      exact computed hrefresh (Nat.le_refl _) n hn
  | refresh => exact ⟨.refresh hsound.weightOf?_nice ran, computed ran (Nat.le_refl _)⟩
  | renewDeadline =>
    have hafter := eq_of_renewDeadline ran
    refine ⟨?_, computed ran hsound.timeSlice_le⟩
    rw [hafter]
    exact ⟨hsound.weightOf?_nice, hsound.timeSlice_pos, hsound.timeSlice_le⟩
  | setNice nice =>
    obtain ⟨⟨old, _⟩, hset, rfl⟩ := map_eq_ok.mp ran
    refine ⟨hsound.setNice hset, fun n hn => ?_⟩
    -- a nice value that has no weight changes nothing
    rcases eq_of_setNice hset with ⟨hnone, -, rfl⟩ | ⟨weight, hweight, -, hrenew⟩
    · rw [since, hnone] at hn
      exact h n hn
    · rw [since, hweight] at hn
      exact computed hrenew hsound.timeSlice_le n hn
  | fork => exact ⟨hsound.forked ran, computed ran (Nat.le_refl _)⟩

/-- Whatever operations lead to, the deadline is where it was put. -/
theorem Reached.isDated (h : Reached before e) :
    e.IsSound ∧ ∀ ticks, before = some ticks → e.IsDated ticks := by
  induction h with
  | initial => exact ⟨isSound_initial, nofun⟩
  | step _ _ ran ih => exact Operation.isDated ih.1 ih.2 ran

/-! ### Higher priorities -/

/-- A nice value that has a weight is accepted, if the deadline it calls for fits a word. -/
theorem setNice_eq {nice : Int} {weight : Nat} (hweight : weightOf? nice = some weight)
    (hpos : weight ≠ 0) :
    let e' : Entity := { e with
      nice, weight, vdeadline := e.vruntime + quantum * weightUnit * tickScale / weight }
    e.setNice nice =
      if e'.vdeadline < wordLimit then .ok (.ok e.nice, e') else .error .addOverflow := by
  intro e'
  have hrenew : Entity.renewDeadline { e with nice, weight } =
      if e'.vdeadline < wordLimit then .ok e' else .error .addOverflow := by
    by_cases hfits : e'.vdeadline < wordLimit
    · exact (renewDeadline_eq_ok.mpr ⟨hpos, hfits, rfl⟩).trans (if_pos hfits).symm
    · rw [renewDeadline, quantumSpan_eq_ok.mpr ⟨hpos, rfl⟩, if_neg hfits]
      exact bind_eq_error.mpr (.inr ⟨_, rfl, bind_eq_error.mpr (.inl (if_neg hfits))⟩)
  simp only [setNice, hweight, hrenew]
  split <;> rfl

/-- **Raising the priority.** Whatever has happened to an entity whose deadline was ever computed, a
nice value that is no higher is accepted if the deadline that it calls for fits a word, it changes
neither the virtual time nor what is left of the quantum, and it puts the deadline one quantum of
the new weight ahead. That is no later than before exactly if the new quantum, together with the
ticks charged since the deadline was last computed, is no longer than the old one: always if there
were none. In any case it is later by no more than these ticks have cost, and what is left of the
quantum leaves room for them. -/
theorem deadline_of_higher_priority {nice : Int} (h : Reached (some ticks) e) (hnonneg : 0 ≤ nice)
    (hle : nice ≤ e.nice) : ∃ weight, weightOf? nice = some weight ∧
      let span := quantum * weightUnit * tickScale / weight
      let e' : Entity := { e with nice, weight, vdeadline := e.vruntime + span }
      e.setNice nice =
          (if e'.vdeadline < wordLimit then .ok (.ok e.nice, e') else .error .addOverflow) ∧
        (e'.vdeadline ≤ e.vdeadline ↔ span + ticks * e.cost ≤ e.span) ∧
        (ticks = 0 → e.setNice nice = .ok (.ok e.nice, e') ∧ e'.vdeadline ≤ e.vdeadline) ∧
        e'.vdeadline ≤ e.vdeadline + ticks * e.cost ∧ ticks + e.timeSlice ≤ quantum := by
  obtain ⟨hsound, hdated⟩ := h.isDated
  obtain ⟨hdeadline, hfits, hticks⟩ := hdated ticks rfl
  have hold := isSome_weightOf?_iff.mp (hsound.weightOf?_nice ▸ rfl : (weightOf? e.nice).isSome)
  obtain ⟨weight, hweight⟩ :=
    Option.isSome_iff_exists.mp (isSome_weightOf?_iff.mpr ⟨hnonneg, Int.lt_of_le_of_lt hle hold.2⟩)
  have hheavier : e.weight ≤ weight := weight_le_of_nice_le hle hweight hsound.weightOf?_nice
  have hpos : 0 < e.weight := hsound.weight_pos_and_cost_pos.1
  have hset := setNice_eq (e := e) hweight
    (Nat.pos_iff_ne_zero.mp (Nat.lt_of_lt_of_le hpos hheavier))
  -- the heavier the entity, the shorter its quantum
  have hshorter : quantum * weightUnit * tickScale / weight ≤ e.span :=
    Nat.div_le_div_left hheavier hpos
  refine ⟨weight, hweight, ?_⟩
  intro span e'
  -- both deadlines are told from the same virtual time
  have hpulled : e'.vdeadline ≤ e.vdeadline ↔ span + ticks * e.cost ≤ e.span := by
    change e.vruntime + span ≤ e.vdeadline ↔ _
    omega
  refine ⟨hset, hpulled, fun hzero => ?_, ?_, hticks⟩
  -- without ticks since, nothing of the old quantum was used up
  · have hno : e'.vdeadline ≤ e.vdeadline := by
      refine hpulled.mpr ?_
      rwa [hzero, Nat.zero_mul, Nat.add_zero]
    exact ⟨hset.trans (if_pos (Nat.lt_of_le_of_lt hno hfits)), hno⟩
  · rw [hdeadline]
    exact Nat.add_le_add_left hshorter _

/-- One tick into a quantum, a priority that is much higher pulls the deadline in. -/
theorem deadline_of_higher_priority_early :
    ∃ e, Reached (some 1) e ∧ e.setNice 0 = .ok (.ok 20, { e with
      nice := 0, weight := 88818, vdeadline := 1057 }) ∧ 1057 ≤ e.vdeadline := by
  have hreached : Reached (some 1) { Entity.initial with
      runtime := 1, vruntime := 1000, vdeadline := 5000, timeSlice := 4 } :=
    (Reached.initial.step .renewDeadline rfl).step .chargeTick rfl
  refine ⟨_, hreached, ?_⟩
  obtain ⟨weight, hweight, hset, hpulled, -⟩ :=
    deadline_of_higher_priority hreached (Int.le_refl 0) (by decide)
  obtain rfl : weight = 88818 := (Option.some.inj hweight).symm
  exact ⟨hset, hpulled.mpr (by decide)⟩

/-- Four ticks into a quantum, a priority that is a little higher postpones the deadline. -/
theorem higher_priority_postpones_deadline : ∃ e e', Reached (some 4) e ∧ (0 : Int) ≤ 19 ∧
    19 ≤ e.nice ∧ e.setNice 19 = .ok (.ok 20, e') ∧ e'.vruntime = e.vruntime ∧
    e.vdeadline = 5000 ∧ e'.vdeadline = 8000 :=
  ⟨_, _, ((((Reached.initial.step .renewDeadline rfl).step .chargeTick rfl).step .chargeTick
    rfl).step .chargeTick rfl).step .chargeTick rfl, by decide, by decide, rfl, rfl, rfl, rfl⟩

end Entity

end FairKernel
