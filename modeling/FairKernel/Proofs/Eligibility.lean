import Mathlib.Algebra.BigOperators.Fin
import Mathlib.Algebra.Order.BigOperators.Group.List
import Mathlib.Tactic.Ring
import FairKernel.Kernel.Schedule
import FairKernel.Proofs.Results

/-!
# Eligibility

A summary of competitors tells whether a virtual time is ahead of the weighted average of all
virtual times: `Competition.eligible` compares distances from the least virtual time, and
`Competition.eligible_iff` says that this is the same as comparing the virtual times themselves.

The program measures from the least virtual time in order to keep its sums small, and multiplies
instead of dividing, so nothing is rounded. `weightSum`, `vruntimeSum` and `lagSum` are those sums
without their bounds; that the program gets them when it does not panic is said by
`Competition.of_ofList`.
-/

namespace FairKernel

namespace Competition

variable {l : List (Nat × Nat)} {c : Competition}

/-! ### Sums -/

/-- The sum of all weights. -/
def weightSum (l : List (Nat × Nat)) : Nat := (l.map Prod.fst).sum

/-- The sum of each weight times its virtual time. -/
def vruntimeSum (l : List (Nat × Nat)) : Nat := (l.map fun p => p.1 * p.2).sum

/-- The sum of each weight times the distance of its virtual time from `floor`. -/
def lagSum (floor : Nat) (l : List (Nat × Nat)) : Nat := (l.map fun p => p.1 * (p.2 - floor)).sum

/-- The weights that are summed up are added to what there was. -/
theorem eq_of_sumWeights {sum total : Nat} (h : sumWeights l sum = .ok total) :
    total = sum + weightSum l := by
  induction l generalizing sum with
  | nil =>
    cases h
    rfl
  | cons p l ih =>
    simp only [sumWeights, bind_eq_ok, addWord_eq_ok] at h
    obtain ⟨_, ⟨-, rfl⟩, hl⟩ := h
    rw [ih hl, weightSum, weightSum, List.map_cons, List.sum_cons, Nat.add_assoc]

/-- The distances that are summed up are added to what there was. -/
theorem eq_of_sumLags {floor sum total : Nat} (h : sumLags floor l sum = .ok total) :
    total = sum + lagSum floor l := by
  induction l generalizing sum with
  | nil =>
    cases h
    rfl
  | cons p l ih =>
    simp only [sumLags, bind_eq_ok] at h
    obtain ⟨next, hnext, hl⟩ := h
    have hnext : next = sum + p.1 * (p.2 - floor) := by
      unfold addWideWord at hnext
      split at hnext
      · exact (Except.ok.inj hnext).symm
      · cases hnext
    rw [ih hl, hnext, lagSum, lagSum, List.map_cons, List.sum_cons, Nat.add_assoc]

/-- What a summary of competitors says. -/
theorem of_ofList (h : ofList l = .ok c) :
    c.totalWeight = weightSum l ∧ (∀ p ∈ l, c.minVruntime ≤ p.2) ∧
      c.weightedLag = lagSum c.minVruntime l := by
  simp only [ofList, bind_eq_ok, pure_eq_ok] at h
  obtain ⟨total, htotal, lag, hlag, rfl⟩ := h
  refine ⟨(eq_of_sumWeights htotal).trans (Nat.zero_add _), fun p hp => ?_,
    (eq_of_sumLags hlag).trans (Nat.zero_add _)⟩
  have hmem : p.2 ∈ l.map Prod.snd := List.mem_map_of_mem hp
  cases hmin : (l.map Prod.snd).min? with
  | none => simp [List.min?_eq_none_iff.mp hmin] at hmem
  | some m => exact (List.min?_eq_some_iff.mp hmin).2 p.2 hmem

/-- Moving the origin of virtual time to a time that nobody is behind. -/
theorem vruntimeSum_eq {floor : Nat} (h : ∀ p ∈ l, floor ≤ p.2) :
    vruntimeSum l = lagSum floor l + weightSum l * floor := by
  induction l with
  | nil => simp [vruntimeSum, lagSum, weightSum]
  | cons p l ih =>
    have hl := ih fun q hq => h q (List.mem_cons_of_mem p hq)
    have hp : p.1 * p.2 = p.1 * (p.2 - floor) + p.1 * floor := by
      rw [← Nat.mul_add, Nat.sub_add_cancel (h p List.mem_cons_self)]
    simp only [vruntimeSum, lagSum, weightSum, List.map_cons, List.sum_cons] at hl ⊢
    rw [hl, hp]
    ring

/-- A virtual time is eligible exactly if it is not ahead of the weighted average. -/
theorem eligible_iff (h : ofList l = .ok c) (vruntime : Nat) :
    c.eligible vruntime ↔ weightSum l * vruntime ≤ vruntimeSum l := by
  obtain ⟨hweight, hmin, hlag⟩ := of_ofList h
  rw [vruntimeSum_eq hmin, ← hlag, ← hweight]
  simp only [eligible, Bool.or_eq_true, beq_iff_eq, decide_eq_true_eq]
  rcases Nat.le_total c.minVruntime vruntime with hle | hle
  · have hsplit : c.totalWeight * vruntime =
        c.totalWeight * (vruntime - c.minVruntime) + c.totalWeight * c.minVruntime := by
      rw [← Nat.mul_add, Nat.sub_add_cancel hle]
    rw [hsplit, Nat.add_le_add_iff_right]
    refine ⟨fun hel => hel.elim (fun h0 => ?_) id, .inr⟩
    rw [h0, Nat.zero_mul]
    exact Nat.zero_le _
  · have hzero : vruntime - c.minVruntime = 0 := Nat.sub_eq_zero_of_le hle
    have hprod := Nat.mul_le_mul_left c.totalWeight hle
    rw [hzero, Nat.mul_zero]
    exact ⟨fun _ => hprod.trans (Nat.le_add_left _ _), fun _ => .inr (Nat.zero_le _)⟩

end Competition

/-! ### The choice of the scheduler -/

namespace Kernel

variable {k : Kernel} {i : Fin slotCount}

/-- Whoever is due first is one of those that were to be chosen from. -/
theorem mem_of_earliest {l : List (Fin slotCount)} (h : k.earliest l = some i) : i ∈ l := by
  induction l with
  | nil => cases h
  | cons j l ih =>
    unfold earliest at h
    split at h
    · cases h
      exact List.mem_cons_self
    · next j' hj' =>
      split at h
      · cases h
        exact List.mem_cons_of_mem j (ih hj')
      · cases h
        exact List.mem_cons_self

/-- Who is chosen waits for a processor and is not ahead of the average. -/
theorem of_choose (h : k.choose = .ok (some i)) :
    ∃ c, k.competition none = .ok c ∧ (k.slot i).state = .runnable ∧
      c.eligible (k.slot i).entity.vruntime := by
  simp only [choose, bind_eq_ok, pure_eq_ok] at h
  obtain ⟨c, hc, hearliest⟩ := h
  have hi := (List.mem_filter.mp (mem_of_earliest hearliest)).2
  simp only [Bool.and_eq_true, beq_iff_eq] at hi
  exact ⟨c, hc, hi⟩

end Kernel

end FairKernel
