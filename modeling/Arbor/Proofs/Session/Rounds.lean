/-
# Operations as rounds of queries

Whatever is done with a session, the remote side is only ever reached by `Exchange.execute`.  One
run of it is a `Round`; a `Course` leads from one state of a connection to another by rounds, with
nothing but quiet stretches before, between and after them.  Every exchange that a session offers
follows a plan, the list of its rounds (`Follows`):

| exchange | plan |
| --- | --- |
| a selection | one round |
| a wait | one round for every attempt |
| over a query that breaks the grammar | no round |
-/

import Arbor.Proofs.Session.Wire
import Arbor.Proxy.Sorting

namespace Arbor

open Arbor.Action

variable {σ α β : Type}

/-! ## Rounds -/

/-- One run of `Exchange.execute`: for which query, from when on, and over which connection. -/
structure Round (σ : Type) where
  query : Query
  now : Nat
  link : Link σ

/-- How a round ends. -/
def Round.ended (s : Session σ) (x : Round σ) : Ended Failure (Link σ) (List Node) :=
  Exchange.execute s.remote s.options x.query x.now x.link

/-- How a connection gets from one state to another by rounds, one after another. -/
inductive Course (s : Session σ) : Link σ → List (Round σ) → Link σ → Prop
  | quiet {l l' : Link σ} : l.Quiet l' → Course s l [] l'
  | round {l l' : Link σ} {x : Round σ} {rounds : List (Round σ)} : l.Quiet x.link →
      Course s (x.ended s).state rounds l' → Course s l (x :: rounds) l'

namespace Course

variable {s : Session σ} {l l' l'' : Link σ} {rounds rounds' : List (Round σ)}

theorem of_quiet (h : l.Quiet l') (h' : Course s l' rounds l'') : Course s l rounds l'' := by
  cases h' with
  | quiet h' => exact quiet (h.trans h')
  | round h' hrest => exact round (h.trans h') hrest

/-- One course after another. -/
theorem append (h : Course s l rounds l') (h' : Course s l' rounds' l'') :
    Course s l (rounds ++ rounds') l'' := by
  induction h with
  | quiet hquiet => exact of_quiet hquiet h'
  | round hquiet _ ih => exact round hquiet (ih h')

theorem append_quiet (h : Course s l rounds l') (h' : l'.Quiet l'') : Course s l rounds l'' := by
  rw [← List.append_nil rounds]
  exact h.append (quiet h')

end Course

/-! ## Plans -/

/-- The rounds of an exchange, by when and over which connection it starts. -/
abbrev Plan (σ : Type) : Type := Nat → Link σ → List (Round σ)

namespace Plan

/-- No round. -/
def none : Plan σ := fun _ _ => []

/-- One round at once. -/
def once (q : Query) : Plan σ := fun now l => [⟨q, now, l⟩]

/-- The plan for a query, if it is one. -/
def ofQuery (q : Except Query.Fault Query) (plan : Query → Plan σ) : Plan σ :=
  match q with
  | .ok q => plan q
  | .error _ => none

end Plan

/-- When and over which connection the attempts of a poller start. -/
def Poller.startsFrom (p : Poller) (attempt : Action Failure σ (Progress β α))
    (deadline : Option Nat) (now : Nat) (s : σ) : List (Nat × σ) :=
  (now, s) :: match (attempt now s).result with
  | .ok (.pending _) =>
    if h : now + (attempt now s).elapsed < limit deadline then
      have : limit deadline - p.next deadline (now + (attempt now s).elapsed) <
          limit deadline - now := by
        have := p.lt_next h
        omega
      p.startsFrom attempt deadline (p.next deadline (now + (attempt now s).elapsed))
        (attempt now s).state
    else []
  | _ => []
termination_by limit deadline - now

namespace Poller

variable {p : Poller} {attempt : Action Failure σ (Progress β α)} {deadline : Option Nat}
  {now elapsed : Nat} {s s' : σ} {b : β}

/-- After an attempt that came to nothing there is another, if there is time. -/
theorem startsFrom_of_pending (hattempt : attempt now s = ⟨.ok (.pending b), elapsed, s'⟩)
    (hlimit : now + elapsed < limit deadline) :
    p.startsFrom attempt deadline now s =
      (now, s) :: p.startsFrom attempt deadline (p.next deadline (now + elapsed)) s' := by
  rw [startsFrom]
  simp only [hattempt, dif_pos hlimit]

/-- There is none when time is up. -/
theorem startsFrom_of_late (hattempt : attempt now s = ⟨.ok (.pending b), elapsed, s'⟩)
    (hlimit : ¬now + elapsed < limit deadline) :
    p.startsFrom attempt deadline now s = [(now, s)] := by
  rw [startsFrom]
  simp only [hattempt, dif_neg hlimit]

/-- Nor is there one after an attempt that came to something. -/
theorem startsFrom_of_ended (h : ∀ b, (attempt now s).result ≠ .ok (.pending b)) :
    p.startsFrom attempt deadline now s = [(now, s)] := by
  rw [startsFrom]
  split
  · next b hb => exact absurd hb (h b)
  · rfl

end Poller

/-- One round at the start of every attempt. -/
def Poller.plan (p : Poller) (attempt : Exchange σ (Progress β α)) (q : Query) : Plan σ :=
  fun now l => (p.startsFrom attempt (p.deadline now) now l).map fun start => ⟨q, start.1, start.2⟩

/-- An exchange that reaches the remote side by the rounds of a plan and in no other way. -/
def Follows (s : Session σ) (a : Exchange σ α) (plan : Plan σ) : Prop :=
  ∀ now l, Course s l (plan now l) (a now l).state

namespace Follows

variable {s : Session σ} {a : Exchange σ α} {plan : Plan σ}

theorem of_quietly (h : Quietly a) : Follows s a .none := fun now l => .quiet (h now l)

theorem execute (q : Query) : Follows s (Exchange.execute s.remote s.options q) (.once q) :=
  fun _ _ => .round (.refl _) (.quiet (.refl _))

theorem caught (h : Follows s a plan) : Follows s a.caught plan := h

theorem bind {f : α → Exchange σ β} (h : Follows s a plan) (hf : ∀ x, Quietly (f x)) :
    Follows s (a >>= f) plan :=
  fun now l => (h now l).append_quiet (Quietly.after hf now l)

theorem withQuery {q : Except Query.Fault Query} {f : Query → Exchange σ α}
    {plan : Query → Plan σ} (h : ∀ q, Follows s (f q) (plan q)) :
    Follows s (Proxy.withQuery q f) (.ofQuery q plan) := by
  intro now l
  cases q with
  | error fault => exact .quiet (.refl l)
  | ok q => exact h q now l

/-- The attempts of a wait, from any of them on. -/
theorem runFrom {p : Poller} {attempt : Exchange σ (Progress β α)} {q : Query}
    (h : Follows s attempt (.once q)) (deadline : Option Nat) (now : Nat) (l : Link σ) :
    Course s l ((p.startsFrom attempt deadline now l).map fun start => ⟨q, start.1, start.2⟩)
      (p.runFrom attempt deadline now l).state := by
  -- the attempts start where the poller goes on, so the two recursions go in step
  have hfirst := h now l
  fun_induction Poller.runFrom p attempt deadline now l with
  | case1 now l b elapsed l' hattempt hlimit start hfall ih =>
    rw [Poller.startsFrom_of_pending hattempt hlimit]
    rw [hattempt] at hfirst
    exact hfirst.append (ih (h _ _))
  | case2 now l b elapsed l' hattempt hlimit =>
    rw [Poller.startsFrom_of_late hattempt hlimit]
    rw [hattempt] at hfirst
    exact hfirst
  | case3 now l hdone =>
    rw [Poller.startsFrom_of_ended fun b hb => hdone b _ _ (by rw [← hb])]
    exact hfirst

end Follows

end Arbor
