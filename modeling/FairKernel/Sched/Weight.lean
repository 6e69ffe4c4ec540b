import FairKernel.Params

/-!
# Weights

A nice value from 0 to 39 stands for a weight, the share of a processor that a process is due; each
step of niceness costs about a fifth of it. The default nice value has the unit weight.
-/

namespace FairKernel

/-- The weight of each nice value, from 0 to 39. -/
def niceWeights : Vector Nat 40 := #v[
  88818, 71054, 56843, 45475, 36380, 29104, 23283, 18626, 14901, 11921,
  9537, 7629, 6104, 4883, 3906, 3125, 2500, 2000, 1600, 1280,
  1024, 819, 655, 524, 419, 336, 268, 215, 172, 137,
  110, 88, 70, 56, 45, 36, 29, 23, 18, 15]

/-- The weight of a nice value, if it has one. -/
def weightOf? : Int → Option Nat
  | .ofNat n => niceWeights[n]?
  | .negSucc _ => none

theorem weightOf?_defaultNice : weightOf? defaultNice = some weightUnit := by decide

/-- Exactly the nice values from 0 to 39 have a weight. -/
theorem isSome_weightOf?_iff {nice : Int} : (weightOf? nice).isSome ↔ 0 ≤ nice ∧ nice < 40 := by
  cases nice with
  | ofNat n =>
    simp only [weightOf?, isSome_getElem?]
    rw [Int.ofNat_eq_natCast]
    omega
  | negSucc n => simp [weightOf?]

end FairKernel
