import Mathlib.Data.List.Forall2
import FairKernel.Panic

/-!
# Results of checked work

When a chain of checked steps comes to an answer, every step of it did, and each is read off the one
before. The same holds of a step that is carried out for every entry of a table.

Most of what the kernel computes is checked arithmetic in `Except`, and proofs about it start from
an answer that was got. The lemmas `bind_eq_ok`, `pure_eq_ok` and `map_eq_ok` turn such an answer
into the answers of the steps it was made of; `of_vector_mapM_eq_ok` does so for all entries of a
table at once. The other lemmas are about the tables themselves, which are vectors of a fixed length
that are read by `Vector.get`: what a replaced entry changes (`get_set`), and what is known of the
entry that a search comes to (`get_of_findFinIdx?`, `le_of_findFinIdx?`), or of all entries when it
comes to none (`not_of_findFinIdx?`).
-/

namespace FairKernel

variable {ε α β : Type} {n : Nat}

/-- A chain of two steps comes to an answer if both of them do. -/
theorem bind_eq_ok {x : Except ε α} {f : α → Except ε β} {b : β} :
    x >>= f = .ok b ↔ ∃ a, x = .ok a ∧ f a = .ok b := by
  cases x <;> simp [bind, Except.bind]

/-- A chain of two steps fails in the first of them, or in the second after the answer of the
first. -/
theorem bind_eq_error {x : Except ε α} {f : α → Except ε β} {e : ε} :
    x >>= f = .error e ↔ x = .error e ∨ ∃ a, x = .ok a ∧ f a = .error e := by
  cases x <;> simp [bind, Except.bind]

/-- A step that only answers comes to its answer. -/
theorem pure_eq_ok {a b : α} : (pure a : Except ε α) = .ok b ↔ a = b := by
  simp [pure, Except.pure]

/-- A step whose answer is worked on comes to an answer if it had one. -/
theorem map_eq_ok {x : Except ε α} {f : α → β} {b : β} :
    f <$> x = .ok b ↔ ∃ a, x = .ok a ∧ f a = b := by
  cases x <;> simp [Functor.map, Except.map]

/-- To work on the answer of a step does not make it fail. -/
theorem map_eq_error {x : Except ε α} {f : α → β} {e : ε} :
    f <$> x = .error e ↔ x = .error e := by
  cases x <;> simp [Functor.map, Except.map]

/-- A step that has an answer when failures are forgotten came to that answer. -/
theorem eq_ok_of_toOption {x : Except ε α} {a : α} (h : x.toOption = some a) : x = .ok a := by
  cases x with
  | error e => cases h
  | ok a' => rw [Option.some.inj h]

/-! ### Tables -/

/-- A table after one of its entries is replaced. -/
theorem get_set (v : Vector α n) (i j : Fin n) (a : α) :
    (v.set i a).get j = if i = j then a else v.get j := by
  change (v.set i a)[j.val] = if i = j then a else v[j.val]
  simp only [Vector.getElem_set, Fin.val_inj]

/-- An entry of a table whose entries are all the same. -/
theorem get_replicate (a : α) (i : Fin n) : (Vector.replicate n a).get i = a :=
  Vector.getElem_replicate i.isLt

/-- The entries of a table that is worked on as a whole are worked on one by one. -/
theorem get_map (v : Vector α n) (f : α → β) (i : Fin n) : (v.map f).get i = f (v.get i) :=
  Vector.getElem_map f i.isLt

/-- A table in which an entry is replaced by itself. -/
theorem set_get (v : Vector α n) (i : Fin n) : v.set i (v.get i) = v :=
  Vector.set_getElem_self i.isLt

/-! ### Work on every entry -/

/-- A list whose entries were all worked on goes with its results, entry by entry. -/
theorem forall₂_of_mapM_eq_ok {f : α → Except ε β} {l : List α} {l' : List β}
    (h : l.mapM f = .ok l') : List.Forall₂ (fun a b => f a = .ok b) l l' := by
  induction l generalizing l' with
  | nil =>
    rw [List.mapM_nil, pure_eq_ok] at h
    subst h
    exact .nil
  | cons a l ih =>
    simp only [List.mapM_cons, bind_eq_ok, pure_eq_ok] at h
    obtain ⟨b, hb, l'', hl, rfl⟩ := h
    exact .cons hb (ih hl)

/-- If the entries of a list could not all be worked on, one of them is to blame. -/
theorem exists_of_mapM_eq_error {f : α → Except ε β} {l : List α} {e : ε}
    (h : l.mapM f = .error e) : ∃ a ∈ l, f a = .error e := by
  induction l with
  | nil => cases h
  | cons a l ih =>
    simp only [List.mapM_cons, bind_eq_error] at h
    rcases h with ha | ⟨_, _, hl | ⟨_, _, hp⟩⟩
    · exact ⟨a, List.mem_cons_self, ha⟩
    · obtain ⟨a', ha', he⟩ := ih hl
      exact ⟨a', List.mem_cons_of_mem a ha', he⟩
    · cases hp

/-- A table whose entries were all worked on, seen as a list. -/
theorem mapM_toList {f : α → Except ε β} (v : Vector α n) :
    v.toList.mapM f = Vector.toList <$> v.mapM f := by
  calc v.toList.mapM f = v.toArray.toList.mapM f := rfl
    _ = Array.toList <$> v.toArray.mapM f := (Array.toList_mapM ..).symm
    _ = Array.toList <$> Vector.toArray <$> v.mapM f := by rw [Vector.toArray_mapM]
    _ = Vector.toList <$> v.mapM f := by cases v.mapM f <;> rfl

/-- A table whose entries were all worked on holds the result of each in its place. -/
theorem of_vector_mapM_eq_ok {f : α → Except ε β} {v : Vector α n} {w : Vector β n}
    (h : v.mapM f = .ok w) (i : Fin n) : f (v.get i) = .ok (w.get i) := by
  have hl : v.toList.mapM f = .ok w.toList := by
    rw [mapM_toList, map_eq_ok]
    exact ⟨w, h, rfl⟩
  have hi := (forall₂_of_mapM_eq_ok hl).get (i := i) (by simp) (by simp)
  rwa [List.get_eq_getElem, List.get_eq_getElem, Vector.getElem_toList, Vector.getElem_toList] at hi

/-- If the entries of a table could not all be worked on, one of them is to blame. -/
theorem of_vector_mapM_eq_error {f : α → Except ε β} {v : Vector α n} {e : ε}
    (h : v.mapM f = .error e) : ∃ i : Fin n, f (v.get i) = .error e := by
  have hl : v.toList.mapM f = .error e := by
    rw [mapM_toList, map_eq_error]
    exact h
  obtain ⟨a, ha, he⟩ := exists_of_mapM_eq_error hl
  obtain ⟨i, hi, rfl⟩ := List.getElem_of_mem ha
  rw [Vector.length_toList] at hi
  rw [Vector.getElem_toList] at he
  exact ⟨⟨i, hi⟩, he⟩

/-- The entry that a search finds satisfies what is searched for. -/
theorem get_of_findFinIdx? {p : α → Bool} {v : Vector α n} {i : Fin n}
    (h : v.findFinIdx? p = some i) : p (v.get i) := by
  rcases v with ⟨xs, rfl⟩
  rw [Vector.findFinIdx?_mk, Option.map_eq_some_iff] at h
  obtain ⟨j, hj, rfl⟩ := h
  exact (Array.findFinIdx?_eq_some_iff.mp hj).1

/-- No entry before the one that a search finds satisfies what is searched for. -/
theorem le_of_findFinIdx? {p : α → Bool} {v : Vector α n} {i j : Fin n}
    (h : v.findFinIdx? p = some i) (hj : p (v.get j)) : i ≤ j := by
  rcases v with ⟨xs, rfl⟩
  rw [Vector.findFinIdx?_mk, Option.map_eq_some_iff] at h
  obtain ⟨l, hl, rfl⟩ := h
  exact Nat.le_of_not_lt fun hlt => (Array.findFinIdx?_eq_some_iff.mp hl).2 j hlt hj

/-- If a search finds nothing, no entry satisfies what is searched for. -/
theorem not_of_findFinIdx? {p : α → Bool} {v : Vector α n} (h : v.findFinIdx? p = none)
    (j : Fin n) : ¬ p (v.get j) := by
  rcases v with ⟨xs, rfl⟩
  rw [Vector.findFinIdx?_mk, Option.map_eq_none_iff, Array.findFinIdx?_eq_none_iff] at h
  exact h xs[j] (Array.getElem_mem j.isLt)

/-- Searches that accept the same entries find the same one. -/
theorem findFinIdx?_congr {p q : α → Bool} {v w : Vector α n}
    (h : ∀ j, p (v.get j) = q (w.get j)) : v.findFinIdx? p = w.findFinIdx? q := by
  cases hv : v.findFinIdx? p with
  | none =>
    cases hw : w.findFinIdx? q with
    | none => rfl
    | some j => exact absurd ((h j).trans (get_of_findFinIdx? hw)) (not_of_findFinIdx? hv j)
  | some i =>
    have hi : q (w.get i) := (h i).symm.trans (get_of_findFinIdx? hv)
    cases hw : w.findFinIdx? q with
    | none => exact absurd hi (not_of_findFinIdx? hw i)
    | some j =>
      have hj : p (v.get j) := (h j).trans (get_of_findFinIdx? hw)
      exact congrArg some (Fin.le_antisymm (le_of_findFinIdx? hv hj) (le_of_findFinIdx? hw hi))

end FairKernel
