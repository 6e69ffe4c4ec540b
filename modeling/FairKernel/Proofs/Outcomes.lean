import Mathlib.Init

/-!
# Outcomes

An action on a state either answers or throws, and leaves a state behind in both cases. `Comes s x Q
E` says so of an action `x` that is carried out on `s`: `Q` holds of the answer and `E` of what is
thrown, each with the state that is left. It is what invariants need that a panic must not break
either.

The kernel and the machine around it are both such actions. Where only the answer matters and a
panic is the end of everything, `Leads` is used instead, which forgets the state that a panic
leaves.

The rules at the end say what each way of making an action comes to. They are equations, so an
action is taken apart by rewriting, and what remains is a statement about its smallest parts.
-/

namespace FairKernel

variable {ε σ α β : Type}

/-- What an action on a state comes to, whether it answers or throws. -/
def Comes (s : σ) (x : EStateM ε σ α) (Q : α → σ → Prop) (E : ε → σ → Prop) : Prop :=
  match x.run s with
  | .ok a s' => Q a s'
  | .error e s' => E e s'

namespace Comes

variable {s s' : σ} {x : EStateM ε σ α} {Q Q' : α → σ → Prop} {E E' : ε → σ → Prop}

/-- Weaker postconditions, of the answer and of what is thrown. -/
theorem mono (h : Comes s x Q E) (hQ : ∀ a s', Q a s' → Q' a s') (hE : ∀ e s', E e s' → E' e s') :
    Comes s x Q' E' := by
  unfold Comes at h ⊢
  split at h
  · exact hQ _ _ h
  · exact hE _ _ h

/-- A weaker postcondition for the same failures. -/
theorem imp (h : Comes s x Q E) (hQ : ∀ a s', Q a s' → Q' a s') : Comes s x Q' E :=
  h.mono hQ fun _ _ => id

/-- What holds of everything an action comes to holds of its answer. -/
theorem of_run_ok {a : α} (h : Comes s x Q E) (hx : x.run s = .ok a s') : Q a s' := by
  simpa only [Comes, hx] using h

/-- What holds of everything an action comes to holds of what it throws. -/
theorem of_run_error {e : ε} (h : Comes s x Q E) (hx : x.run s = .error e s') : E e s' := by
  simpa only [Comes, hx] using h

/-- A postcondition is checked on each outcome on its own. -/
theorem of_outcomes (hQ : ∀ a s', x.run s = .ok a s' → Q a s')
    (hE : ∀ e s', x.run s = .error e s' → E e s') : Comes s x Q E := by
  unfold Comes
  split
  · exact hQ _ _ ‹_›
  · exact hE _ _ ‹_›

end Comes

/-! ### Rules -/

section Rules

variable {s : σ} {Q : α → σ → Prop} {E : ε → σ → Prop}

/-- To answer comes to that answer in the same state. -/
@[simp]
theorem comes_pure {a : α} : Comes s (pure a : EStateM ε σ α) Q E = Q a s := rfl

/-- A chain comes to what its second part comes to, wherever the first one led. -/
@[simp]
theorem comes_bind {x : EStateM ε σ β} {f : β → EStateM ε σ α} :
    Comes s (x >>= f) Q E = Comes s x (fun b s' => Comes s' (f b) Q E) E := by
  change (match EStateM.bind x f s with | .ok a s' => Q a s' | .error e s' => E e s') =
    (match x s with | .ok a s' => Comes s' (f a) Q E | .error e s' => E e s')
  unfold EStateM.bind
  cases x s <;> rfl

/-- To throw comes to what is thrown in the same state. -/
@[simp]
theorem comes_throw {e : ε} : Comes s (throw e : EStateM ε σ α) Q E = E e s := rfl

/-- To look at the state comes to the state, and changes nothing. -/
@[simp]
theorem comes_get {Q : σ → σ → Prop} : Comes s (get : EStateM ε σ σ) Q E = Q s s := rfl

/-- To work on the state comes to the state that was worked on. -/
@[simp]
theorem comes_modify {f : σ → σ} {Q : PUnit → σ → Prop} :
    Comes s (modify f : EStateM ε σ PUnit) Q E = Q ⟨⟩ (f s) := rfl

end Rules

end FairKernel
