import FairKernel.Proofs.Results
import FairKernel.Sched.Entity

/-!
# Scheduling entities, without panics

What each operation on an entity comes to when it does not panic. An entity is *sound* if its weight
belongs to its nice value and what is left of its quantum is neither nothing nor more than a
quantum; every operation keeps it so.

The program divides by the weight of an entity and adds in words, so each of its operations is
checked, and may fail. Here each has one lemma that reads its answer back into plain arithmetic:
`renewDeadline_eq_ok`, `eq_of_refresh`, `eq_of_forked`, `eq_of_chargeTick` and `eq_of_setNice`. What
a tick and a quantum cost an entity is named for this (`cost`, `span`), without the check.

`IsSound` is what later modules keep of the entities of live processes. It says nothing about
virtual times: how far these can go is a question of how long the machine has run.
-/

namespace FairKernel

namespace Entity

variable {e e' : Entity}

/-- Virtual time that one tick of running costs, for a weight that is not zero. -/
def cost (e : Entity) : Nat := tickScale * weightUnit / e.weight

/-- Virtual time that a full quantum lasts, for a weight that is not zero. -/
def span (e : Entity) : Nat := quantum * weightUnit * tickScale / e.weight

/-- A tick has a cost unless the weight is zero, by which it would have to be divided. -/
theorem tickCost_eq_ok {c : Nat} : e.tickCost = .ok c ↔ e.weight ≠ 0 ∧ c = e.cost :=
  divWord_eq_ok

/-- A quantum has a length unless the weight is zero. -/
theorem quantumSpan_eq_ok {c : Nat} : e.quantumSpan = .ok c ↔ e.weight ≠ 0 ∧ c = e.span :=
  divWord_eq_ok

/-- A deadline is renewed exactly if the entity has a weight and the new deadline fits a word. -/
theorem renewDeadline_eq_ok : e.renewDeadline = .ok e' ↔ e.weight ≠ 0 ∧
    e.vruntime + e.span < wordLimit ∧ e' = { e with vdeadline := e.vruntime + e.span } := by
  simp only [renewDeadline, bind_eq_ok, quantumSpan_eq_ok, addWord_eq_ok, pure_eq_ok]
  constructor
  · rintro ⟨_, ⟨hweight, rfl⟩, _, ⟨hfits, rfl⟩, rfl⟩
    exact ⟨hweight, hfits, rfl⟩
  · rintro ⟨hweight, hfits, rfl⟩
    exact ⟨_, ⟨hweight, rfl⟩, _, ⟨hfits, rfl⟩, rfl⟩

/-- A renewed deadline lies one quantum after the virtual time. -/
theorem eq_of_renewDeadline (h : e.renewDeadline = .ok e') :
    e' = { e with vdeadline := e.vruntime + e.span } := (renewDeadline_eq_ok.mp h).2.2

/-- A deadline that fits a word can be moved to. -/
theorem renewDeadline_of_lt (hweight : e.weight ≠ 0)
    (hdeadline : e.vruntime + e.span < wordLimit) :
    e.renewDeadline = .ok { e with vdeadline := e.vruntime + e.span } :=
  renewDeadline_eq_ok.mpr ⟨hweight, hdeadline, rfl⟩

/-- An entity that is refreshed has a full quantum and a deadline that is one away. -/
theorem eq_of_refresh (h : e.refresh = .ok e') :
    e' = { e with timeSlice := quantum, vdeadline := e.vruntime + e.span } :=
  eq_of_renewDeadline h

/-- The entity of a child has run for no time, and has a full quantum and a deadline that is one
away. -/
theorem eq_of_forked (h : e.forked = .ok e') :
    e' = { e with runtime := 0, timeSlice := quantum, vdeadline := e.vruntime + e.span } :=
  eq_of_renewDeadline h

/-- The entity after a tick of running that does not use up the quantum. -/
def ticked (e : Entity) : Entity :=
  { e with
    runtime := e.runtime + 1, vruntime := e.vruntime + e.cost, timeSlice := e.timeSlice - 1 }

/-- A tick that uses up the quantum starts a fresh one. -/
theorem eq_of_chargeTick {used : Bool} (h : e.chargeTick = .ok (used, e')) :
    (used = false ∧ e.timeSlice - 1 ≠ 0 ∧ e' = e.ticked) ∨
      (used = true ∧ e.timeSlice - 1 = 0 ∧ e.ticked.refresh = .ok e') := by
  simp only [chargeTick, bind_eq_ok, addWord_eq_ok, tickCost_eq_ok] at h
  obtain ⟨_, ⟨_, rfl⟩, _, ⟨_, rfl⟩, _, ⟨_, rfl⟩, h⟩ := h
  split at h
  · next hslice =>
    simp only [bind_eq_ok, pure_eq_ok, Prod.mk.injEq] at h
    obtain ⟨_, hr, rfl, rfl⟩ := h
    exact .inr ⟨rfl, hslice, hr⟩
  · next hslice =>
    simp only [pure_eq_ok, Prod.mk.injEq] at h
    exact .inl ⟨h.1.symm, hslice, h.2.symm⟩

/-- A tick costs the same whether or not it uses up the quantum. -/
theorem charged_of_chargeTick {used : Bool} (h : e.chargeTick = .ok (used, e')) :
    e'.runtime = e.runtime + 1 ∧ e'.vruntime = e.vruntime + e.cost := by
  rcases eq_of_chargeTick h with ⟨-, -, rfl⟩ | ⟨-, -, hr⟩
  · exact ⟨rfl, rfl⟩
  · rw [eq_of_refresh hr]
    exact ⟨rfl, rfl⟩

/-- Only a nice value that has a weight is accepted. -/
theorem eq_of_setNice {nice : Int} {old : Except ProcessError Int}
    (h : e.setNice nice = .ok (old, e')) :
    (weightOf? nice = none ∧ old = .error (.invalidNice nice) ∧ e' = e) ∨
      ∃ weight, weightOf? nice = some weight ∧ old = .ok e.nice ∧
        { e with nice, weight }.renewDeadline = .ok e' := by
  unfold setNice at h
  split at h
  · next hw =>
    simp only [pure_eq_ok, Prod.mk.injEq] at h
    exact .inl ⟨hw, h.1.symm, h.2.symm⟩
  · next weight hw =>
    simp only [bind_eq_ok, pure_eq_ok, Prod.mk.injEq] at h
    obtain ⟨_, hr, rfl, rfl⟩ := h
    exact .inr ⟨weight, hw, rfl, hr⟩

/-! ### Soundness -/

/-- The weight is that of the nice value, and some of the quantum is left. -/
structure IsSound (e : Entity) : Prop where
  weightOf?_nice : weightOf? e.nice = some e.weight
  timeSlice_pos : 1 ≤ e.timeSlice
  timeSlice_le : e.timeSlice ≤ quantum

/-- A quantum is no shorter than a tick. -/
theorem one_le_quantum : 1 ≤ quantum := by decide

/-- The entity that a process starts with is sound. -/
theorem isSound_initial : initial.IsSound where
  weightOf?_nice := weightOf?_defaultNice
  timeSlice_pos := one_le_quantum
  timeSlice_le := Nat.le_refl _

namespace IsSound

/-- To refresh an entity keeps it sound. -/
theorem refresh (h : weightOf? e.nice = some e.weight) (hr : e.refresh = .ok e') : e'.IsSound := by
  obtain rfl := eq_of_refresh hr
  exact ⟨h, one_le_quantum, Nat.le_refl _⟩

/-- The entity of a child is sound if that of its parent is. -/
theorem forked (h : e.IsSound) (hf : e.forked = .ok e') : e'.IsSound := by
  obtain rfl := eq_of_forked hf
  exact ⟨h.weightOf?_nice, one_le_quantum, Nat.le_refl _⟩

/-- To charge a tick keeps an entity sound: a quantum that is used up is followed by a full one. -/
theorem chargeTick {used : Bool} (h : e.IsSound) (hc : e.chargeTick = .ok (used, e')) :
    e'.IsSound := by
  rcases eq_of_chargeTick hc with ⟨-, hslice, rfl⟩ | ⟨-, -, hr⟩
  · have hle := h.timeSlice_le
    refine ⟨h.weightOf?_nice, ?_, ?_⟩
    · change 1 ≤ e.timeSlice - 1
      omega
    · change e.timeSlice - 1 ≤ quantum
      omega
  · exact refresh (e := e.ticked) h.weightOf?_nice hr

/-- To set a nice value keeps an entity sound, whether or not the value is accepted. -/
theorem setNice {nice : Int} {old : Except ProcessError Int} (h : e.IsSound)
    (hs : e.setNice nice = .ok (old, e')) : e'.IsSound := by
  rcases eq_of_setNice hs with ⟨-, -, rfl⟩ | ⟨weight, hw, -, hr⟩
  · exact h
  · obtain rfl := eq_of_renewDeadline hr
    exact ⟨hw, h.timeSlice_pos, h.timeSlice_le⟩

/-- A weight from the table of weights is not zero and leaves a tick some cost. -/
theorem weight_pos_and_cost_pos (h : e.IsSound) : 0 < e.weight ∧ 0 < e.cost := by
  have all : ∀ n : Fin 40, 0 < niceWeights[n] ∧ niceWeights[n] ≤ tickScale * weightUnit := by decide
  have hw := h.weightOf?_nice
  unfold weightOf? at hw
  split at hw
  · obtain ⟨hn, hget⟩ := Vector.getElem?_eq_some_iff.mp hw
    obtain ⟨hpos, hle⟩ := all ⟨_, hn⟩
    simp only [Fin.getElem_fin, hget] at hpos hle
    exact ⟨hpos, Nat.div_pos hle hpos⟩
  · cases hw

end IsSound

end Entity

end FairKernel
