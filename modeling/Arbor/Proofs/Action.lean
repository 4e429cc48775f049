/-
# Actions one after another

What an action followed by another ends with, and in which state, from the end of the first.
`Yields` is said of an action that has the same result whenever and wherever it starts, `Ends` of
one that ends in the same way, with a result or a failure, `Gives` of one whose results all have
some property, and `Instantly` of one that takes no time.
-/

import Arbor.Action

namespace Arbor
namespace Action

variable {ε σ α β : Type} {a : Action ε σ α} {f : α → Action ε σ β} {now : Nat} {s : σ}

@[simp] theorem result_later (elapsed : Nat) (b : Ended ε σ β) :
    (later elapsed b).result = b.result := rfl

@[simp] theorem state_later (elapsed : Nat) (b : Ended ε σ β) :
    (later elapsed b).state = b.state := rfl

theorem later_later (elapsed elapsed' : Nat) (b : Ended ε σ β) :
    later elapsed (later elapsed' b) = later (elapsed + elapsed') b := by
  rw [later, later, later, Nat.add_assoc]

/-- After a result, the rest runs from where and when the first action ended. -/
theorem bind_of_result_ok {x : α} (h : (a now s).result = .ok x) :
    (a >>= f) now s =
      later (a now s).elapsed (f x (now + (a now s).elapsed) (a now s).state) := by
  refine bind_of_ok ?_
  rw [← h]

theorem result_bind_of_ok {x : α} (h : (a now s).result = .ok x) :
    ((a >>= f) now s).result = (f x (now + (a now s).elapsed) (a now s).state).result := by
  rw [bind_of_result_ok h, result_later]

theorem state_bind_of_ok {x : α} (h : (a now s).result = .ok x) :
    ((a >>= f) now s).state = (f x (now + (a now s).elapsed) (a now s).state).state := by
  rw [bind_of_result_ok h, state_later]

/-- After a failure nothing follows. -/
theorem bind_of_result_error {e : ε} (h : (a now s).result = .error e) :
    (a >>= f) now s = ⟨.error e, (a now s).elapsed, (a now s).state⟩ := by
  refine bind_of_error ?_
  rw [← h]

theorem result_bind_of_error {e : ε} (h : (a now s).result = .error e) :
    ((a >>= f) now s).result = .error e := by
  rw [bind_of_result_error h]

theorem state_bind_of_error {e : ε} (h : (a now s).result = .error e) :
    ((a >>= f) now s).state = (a now s).state := by
  rw [bind_of_result_error h]

/-- A result can be changed without time passing. -/
theorem bind_pure_apply (a : Action ε σ α) (g : α → β) (now : Nat) (s : σ) :
    (a >>= fun x => pure (g x)) now s =
      ⟨(a now s).result.map g, (a now s).elapsed, (a now s).state⟩ := by
  cases h : (a now s).result with
  | error e => exact bind_of_result_error h
  | ok x => exact bind_of_result_ok h

/-- What follows takes no time away. -/
theorem elapsed_le_bind (a : Action ε σ α) (f : α → Action ε σ β) (now : Nat) (s : σ) :
    (a now s).elapsed ≤ ((a >>= f) now s).elapsed := by
  cases h : (a now s).result with
  | error e => exact Nat.le_of_eq (congrArg Ended.elapsed (bind_of_result_error h)).symm
  | ok x =>
    rw [bind_of_result_ok h]
    exact Nat.le_add_right _ _

/-- Looking at the state takes no time. -/
theorem get_bind (g : σ → Action ε σ β) : (get >>= g) now s = g s now s := by
  show later 0 (g s (now + 0) s) = g s now s
  rw [later, Nat.zero_add]
  rfl

/-- The action ends with the result `x`, whenever and wherever it starts. -/
def Yields (a : Action ε σ α) (x : α) : Prop := ∀ now s, (a now s).result = .ok x

namespace Yields

theorem ret (x : α) : Yields (pure x : Action ε σ α) x := fun _ _ => rfl

theorem modify (g : σ → σ) : Yields (Action.modify g : Action ε σ Unit) () := fun _ _ => rfl

theorem bind {x : α} {y : β} (ha : Yields a x) (hf : Yields (f x) y) : Yields (a >>= f) y := by
  intro now s
  rw [result_bind_of_ok (ha now s)]
  exact hf _ _

theorem forM {γ : Type} {g : γ → Action ε σ Unit} (hg : ∀ c, Yields (g c) ()) (l : List γ) :
    Yields (l.forM g) () := by
  induction l with
  | nil => exact ret ()
  | cons c rest ih => exact bind (hg c) ih

end Yields

/-- Whatever the action results in satisfies `P`, whenever and wherever it starts. -/
def Gives (a : Action ε σ α) (P : α → Prop) : Prop := ∀ now s x, (a now s).result = .ok x → P x

namespace Gives

variable {P : α → Prop} {Q : β → Prop}

theorem ret {x : α} (h : P x) : Gives (pure x : Action ε σ α) P := by
  intro now s y hy
  obtain rfl := Except.ok.inj hy
  exact h

theorem fail (e : ε) : Gives (Action.fail e : Action ε σ α) P :=
  fun _ _ _ h => absurd h (by simp [Action.fail])

theorem ofExcept {r : Except ε α} (h : ∀ x, r = .ok x → P x) :
    Gives (Action.ofExcept r : Action ε σ α) P := by
  cases r with
  | error e => exact fail e
  | ok x => exact ret (h x rfl)

/-- So does the result that is caught, if it is one. -/
theorem caught {a : Action ε σ α} (h : Gives a P) :
    Gives a.caught fun r => ∀ x, r = .ok x → P x := by
  intro now s r hr x hx
  obtain rfl := Except.ok.inj hr
  exact h now s x hx

/-- What is known of the first result can be used for the last. -/
theorem bind {a : Action ε σ α} {f : α → Action ε σ β} (ha : Gives a P)
    (h : ∀ x, P x → Gives (f x) Q) : Gives (a >>= f) Q := by
  intro now s y hy
  cases hx : (a now s).result with
  | error e =>
    rw [result_bind_of_error hx] at hy
    exact absurd hy (by simp)
  | ok x =>
    rw [result_bind_of_ok hx] at hy
    exact h x (ha now s x hx) _ _ y hy

/-- The last action decides. -/
theorem bind_of_forall {a : Action ε σ α} {f : α → Action ε σ β} (h : ∀ x, Gives (f x) Q) :
    Gives (a >>= f) Q :=
  bind (P := fun _ => True) (fun _ _ _ _ => trivial) fun x _ => h x

end Gives

/-- The action ends as `r` says, whenever and wherever it starts. -/
def Ends (a : Action ε σ α) (r : Except ε α) : Prop := ∀ now s, (a now s).result = r

/-- How the first action ends decides how all ends, if only its result matters for the rest. -/
theorem result_bind_of_ends {r : Except ε α} {g : α → Except ε β} (ha : (a now s).result = r)
    (hf : ∀ x, Ends (f x) (g x)) : ((a >>= f) now s).result = r >>= g := by
  cases r with
  | error e => rw [result_bind_of_error ha]; rfl
  | ok x => rw [result_bind_of_ok ha, hf]; rfl

namespace Ends

theorem ret (x : α) : Ends (pure x : Action ε σ α) (.ok x) := fun _ _ => rfl

theorem fail (e : ε) : Ends (Action.fail e : Action ε σ α) (.error e) := fun _ _ => rfl

theorem ofExcept (r : Except ε α) : Ends (Action.ofExcept r : Action ε σ α) r := by
  cases r with
  | error e => exact fail e
  | ok x => exact ret x

theorem bind {r : Except ε α} {g : α → Except ε β} (ha : Ends a r) (hf : ∀ x, Ends (f x) (g x)) :
    Ends (a >>= f) (r >>= g) := fun now s => result_bind_of_ends (ha now s) hf

end Ends

/-- The action takes no time. -/
def Instantly (a : Action ε σ α) : Prop := ∀ now s, (a now s).elapsed = 0

namespace Instantly

theorem eq (h : Instantly a) (now : Nat) (s : σ) :
    a now s = ⟨(a now s).result, 0, (a now s).state⟩ := by
  rw [← h now s]

theorem ret (x : α) : Instantly (pure x : Action ε σ α) := fun _ _ => rfl

theorem fail (e : ε) : Instantly (Action.fail e : Action ε σ α) := fun _ _ => rfl

theorem ofExcept (r : Except ε α) : Instantly (Action.ofExcept r : Action ε σ α) := by
  cases r with
  | error e => exact fail e
  | ok x => exact ret x

theorem get : Instantly (Action.get : Action ε σ σ) := fun _ _ => rfl

theorem modify (g : σ → σ) : Instantly (Action.modify g : Action ε σ Unit) := fun _ _ => rfl

theorem caught (h : Instantly a) : Instantly a.caught := h

theorem bind (ha : Instantly a) (hf : ∀ x, Instantly (f x)) : Instantly (a >>= f) := by
  intro now s
  cases h : (a now s).result with
  | error e => rw [bind_of_result_error h, ha]
  | ok x =>
    rw [bind_of_result_ok h]
    show (a now s).elapsed + _ = 0
    rw [ha, hf]

theorem forM {γ : Type} {g : γ → Action ε σ Unit} (hg : ∀ c, Instantly (g c)) (l : List γ) :
    Instantly (l.forM g) := by
  induction l with
  | nil => exact ret ()
  | cons c rest ih => exact bind (hg c) fun _ => ih

end Instantly

end Action
end Arbor
