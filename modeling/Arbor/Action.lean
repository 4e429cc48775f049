/-
# Actions

The effects of `introspection/backend`, `introspection/session`, `introspection/polling`,
`introspection/proxy` and `config/io`: all that awaits the remote side, the clock or a file.

An action starts at an instant in a state and ends with a result or a failure, some time later, in a
new state.  Instants are nanoseconds since the clock was started.  Time never runs backward because
an action says how long it takes, not when it ends; one action after another takes the sum.
-/

namespace Arbor

/-- How an action ends. -/
structure Ended (ε σ α : Type) where
  result : Except ε α
  /-- Nanoseconds from start to end. -/
  elapsed : Nat
  state : σ

/-- What is done from an instant and a state on. -/
def Action (ε σ α : Type) : Type := (now : Nat) → σ → Ended ε σ α

namespace Action

variable {ε σ α β : Type}

/-- The end of `b` after something that took a while. -/
def later (elapsed : Nat) (b : Ended ε σ β) : Ended ε σ β :=
  { b with elapsed := elapsed + b.elapsed }

/-- Ends at once. -/
def ret (a : α) : Action ε σ α := fun _ s => ⟨.ok a, 0, s⟩

/-- Fails at once. -/
def fail (e : ε) : Action ε σ α := fun _ s => ⟨.error e, 0, s⟩

/-- Goes on with the result, unless there is a failure. -/
def andThen (a : Action ε σ α) (f : α → Action ε σ β) : Action ε σ β := fun now s =>
  match a now s with
  | ⟨.ok x, elapsed, s'⟩ => later elapsed (f x (now + elapsed) s')
  | ⟨.error e, elapsed, s'⟩ => ⟨.error e, elapsed, s'⟩

instance : Monad (Action ε σ) where
  pure := ret
  bind := andThen

/-- After a result, the rest runs from where and when the first action ended. -/
theorem bind_of_ok {a : Action ε σ α} {f : α → Action ε σ β} {now elapsed : Nat} {s s' : σ} {x : α}
    (h : a now s = ⟨.ok x, elapsed, s'⟩) :
    (a >>= f) now s = later elapsed (f x (now + elapsed) s') := by
  show andThen a f now s = _
  simp [andThen, h]

/-- After a failure nothing follows. -/
theorem bind_of_error {a : Action ε σ α} {f : α → Action ε σ β} {now elapsed : Nat} {s s' : σ}
    {e : ε} (h : a now s = ⟨.error e, elapsed, s'⟩) :
    (a >>= f) now s = ⟨.error e, elapsed, s'⟩ := by
  show andThen a f now s = _
  simp [andThen, h]

/-- Going on with what is already there changes nothing. -/
theorem andThen_ret (a : Action ε σ α) : andThen a (fun x => ret x) = a := by
  funext now s
  rcases h : a now s with ⟨_ | x, elapsed, s'⟩ <;> simp [andThen, h, later, ret]

/-- Starting from what is already there takes nothing. -/
theorem ret_andThen (x : α) (f : α → Action ε σ β) : andThen (ret x) f = f x := by
  funext now s
  simp [andThen, ret, later]

/-- It does not matter which of two steps is taken together with the one between them. -/
theorem andThen_assoc {γ : Type} (a : Action ε σ α) (f : α → Action ε σ β)
    (g : β → Action ε σ γ) :
    andThen (andThen a f) g = andThen a (fun x => andThen (f x) g) := by
  funext now s
  rcases h : a now s with ⟨_ | x, elapsed, s'⟩
  · simp [andThen, h]
  · rcases h' : f x (now + elapsed) s' with ⟨_ | y, elapsed', s''⟩
    · simp [andThen, h, later, h']
    · simp [andThen, h, later, h', Nat.add_assoc]

instance : LawfulMonad (Action ε σ) :=
  LawfulMonad.mk' (Action ε σ) andThen_ret ret_andThen andThen_assoc

/-- The result of something that takes no time. -/
def ofExcept : Except ε α → Action ε σ α
  | .ok a => ret a
  | .error e => fail e

/-- The failure as a result. -/
def caught (a : Action ε σ α) : Action ε σ (Except ε α) := fun now s =>
  let e := a now s
  ⟨.ok e.result, e.elapsed, e.state⟩

/-- Changes the state. -/
def modify (f : σ → σ) : Action ε σ Unit := fun _ s => ⟨.ok (), 0, f s⟩

/-- The state. -/
def get : Action ε σ σ := fun _ s => ⟨.ok s, 0, s⟩

/-- Lets time pass. -/
def sleep (nanos : Nat) : Action ε σ Unit := fun _ s => ⟨.ok (), nanos, s⟩

end Action
end Arbor
