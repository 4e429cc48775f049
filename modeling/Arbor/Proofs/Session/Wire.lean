/-
# What goes over the wire

An exchange is quiet if it makes no call: events may be reported, and nothing else changes on the
connection (`Quietly`).  All of a query is quiet but the handshake and one call for objects, and
`execute_cases` says what becomes of the calls and of the version in each case:

| version of the remote side | calls | result |
| --- | --- | --- |
| asked for, no answer | the one for the version | the failure of the call |
| not the expected one | one for the version, if it was not known | the two versions |
| the expected one | the same, then one for objects | |
-/

import Arbor.Proofs.Action
import Arbor.Session.Basic

namespace Arbor

open Arbor.Action

variable {σ α β : Type}

/-- Nothing has gone over the connection between two moments. -/
structure Link.Quiet (l l' : Link σ) : Prop where
  remote : l'.remote = l.remote
  version : l'.version = l.version
  calls : l'.calls = l.calls

namespace Link.Quiet

variable {l l' l'' : Link σ}

theorem refl (l : Link σ) : Quiet l l := ⟨rfl, rfl, rfl⟩

theorem trans (h : Quiet l l') (h' : Quiet l' l'') : Quiet l l'' :=
  ⟨h'.remote.trans h.remote, h'.version.trans h.version, h'.calls.trans h.calls⟩

end Link.Quiet

/-! ## Quiet exchanges -/

/-- An exchange that makes no call. -/
def Quietly (a : Exchange σ α) : Prop := ∀ now l, Link.Quiet l (a now l).state

namespace Quietly

theorem ret (x : α) : Quietly (pure x : Exchange σ α) := fun _ l => .refl l

theorem fail (e : Failure) : Quietly (Action.fail e : Exchange σ α) := fun _ l => .refl l

theorem sleep (nanos : Nat) : Quietly (Action.sleep nanos : Exchange σ Unit) := fun _ l => .refl l

theorem report (e : Event) : Quietly (report e : Exchange σ Unit) := fun _ _ => ⟨rfl, rfl, rfl⟩

theorem ofExcept (x : Except Failure α) : Quietly (Action.ofExcept x : Exchange σ α) := by
  cases x with
  | error e => exact fail e
  | ok a => exact ret a

/-- What is quiet adds nothing to what came before. -/
theorem after {a : Exchange σ α} {f : α → Exchange σ β} (hf : ∀ x, Quietly (f x)) (now : Nat)
    (l : Link σ) : Link.Quiet (a now l).state ((a >>= f) now l).state := by
  cases h : (a now l).result with
  | error e =>
    rw [bind_of_result_error h]
    exact .refl _
  | ok x =>
    rw [state_bind_of_ok h]
    exact hf x _ _

theorem bind {a : Exchange σ α} {f : α → Exchange σ β} (ha : Quietly a)
    (hf : ∀ x, Quietly (f x)) : Quietly (a >>= f) :=
  fun now l => (ha now l).trans (after hf now l)

theorem forM {γ : Type} {f : γ → Exchange σ Unit} (hf : ∀ c, Quietly (f c)) (cs : List γ) :
    Quietly (cs.forM f) := by
  induction cs with
  | nil => exact ret ()
  | cons c rest ih => exact bind (hf c) fun _ => ih

end Quietly

namespace Exchange

theorem quietly_decodeAll (o : Options) (entries : List Entry) :
    Quietly (decodeAll o entries : Exchange σ (List Node)) := by
  induction entries with
  | nil => exact .ret []
  | cons e rest ih =>
    rw [decodeAll]
    split
    · exact (Quietly.forM .report _).bind fun _ => ih.bind fun _ => .ret _
    · split
      · exact (Quietly.report _).bind fun _ => ih
      · exact .fail _

theorem quietly_sift (q : Query) (nodes : List Node) :
    Quietly (sift q nodes : Exchange σ (List Node)) := by
  unfold sift
  split
  · exact .ret nodes
  · exact (Quietly.report _).bind fun _ => .ret _

/-! ## Handshakes -/

/-- The version was asked for, and there was no answer. -/
structure Unanswered (l : Link σ) (cause : String) (l' : Link σ) : Prop where
  before : l.version = none
  after : l'.version = none
  calls : l'.calls = .version (.error cause) :: l.calls

/-- The version `v` is known: from before, or because it was asked for and answered. -/
structure Learnt (l : Link σ) (v : String) (l' : Link σ) : Prop where
  after : l'.version = some v
  calls : l.version = some v ∧ l'.calls = l.calls ∨
    l.version = none ∧ l'.calls = .version (.ok v) :: l.calls

theorem learnVersion_cases (r : Remote σ) (o : Options) (now : Nat) (l : Link σ) :
    (∃ cause, (learnVersion r o now l).result = .error (.transport cause) ∧
        Unanswered l cause (learnVersion r o now l).state) ∨
      ∃ v, (learnVersion r o now l).result = .ok v ∧ Learnt l v (learnVersion r o now l).state := by
  unfold learnVersion
  rw [get_bind]
  cases hversion : l.version with
  | some v => exact Or.inr ⟨v, rfl, hversion, Or.inl ⟨hversion, rfl⟩⟩
  | none =>
    cases hanswer : (r.version now l.remote).result with
    | error cause =>
      have hcall : (r.callVersion now l).result = .error (.transport cause) := by
        show Remote.outcome _ = _
        rw [hanswer]
        rfl
      refine Or.inl ⟨cause, result_bind_of_error hcall, hversion, ?_, ?_⟩
      · rw [state_bind_of_error hcall]
        exact hversion
      · rw [state_bind_of_error hcall, ← hanswer]
        rfl
    | ok v =>
      have hcall : (r.callVersion now l).result = .ok v := by
        show Remote.outcome _ = _
        rw [hanswer]
        rfl
      refine Or.inr ⟨v, ?_, ?_, Or.inr ⟨hversion, ?_⟩⟩
      · rw [result_bind_of_ok hcall]
        rfl
      · rw [state_bind_of_ok hcall]
        rfl
      · rw [state_bind_of_ok hcall, ← hanswer]
        rfl

/-- A handshake fails without an answer, or compares the version with the expected one. -/
theorem handshake_cases (r : Remote σ) (o : Options) (now : Nat) (l : Link σ) :
    (∃ cause, (handshake r o now l).result = .error (.transport cause) ∧
        Unanswered l cause (handshake r o now l).state) ∨
      ∃ v, (handshake r o now l).result =
          (if v = o.expectedVersion then .ok ()
            else .error (.versionMismatch o.expectedVersion v)) ∧
        Learnt l v (handshake r o now l).state := by
  unfold handshake
  rcases learnVersion_cases r o now l with ⟨cause, hresult, hwire⟩ | ⟨v, hresult, hwire⟩
  · rw [bind_of_result_error hresult]
    exact Or.inl ⟨cause, rfl, hwire⟩
  · rw [bind_of_result_ok hresult]
    refine Or.inr ⟨v, ?_, ?_⟩
    · split <;> rfl
    · split
      · exact hwire
      · exact hwire

/-- A version that is known and the expected one needs no call. -/
theorem handshake_of_version {r : Remote σ} {o : Options} {l : Link σ}
    (h : l.version = some o.expectedVersion) (now : Nat) :
    handshake r o now l = ⟨.ok (), 0, l⟩ := by
  have hlearn : learnVersion r o now l = ⟨.ok o.expectedVersion, 0, l⟩ := by
    unfold learnVersion
    rw [get_bind, h]
    rfl
  unfold handshake
  rw [bind_of_ok hlearn, if_pos rfl]
  rfl

/-- After a handshake that succeeds the version is known. -/
theorem version_of_handshake {r : Remote σ} {o : Options} {now : Nat} {l : Link σ}
    (h : (handshake r o now l).result = .ok ()) :
    (handshake r o now l).state.version = some o.expectedVersion := by
  rcases handshake_cases r o now l with ⟨cause, hresult, -⟩ | ⟨v, hresult, hwire⟩
  · exact absurd (h.symm.trans hresult) (by simp)
  · rw [h] at hresult
    split at hresult
    · next hv => rw [hwire.after, hv]
    · exact absurd hresult (by simp)

/-! ## Queries -/

theorem callState_calls (r : Remote σ) (query : String) (now : Nat) (l : Link σ) :
    ∃ answer, (r.callState query now l).state.version = l.version ∧
      (r.callState query now l).state.calls = .state now query answer :: l.calls :=
  ⟨_, rfl, rfl⟩

/-- After a handshake that succeeds there is one call for objects, and then nothing but events. -/
theorem quiet_fetch {r : Remote σ} {o : Options} {q : Query} {now : Nat} {l : Link σ}
    (h : (handshake r o now l).result = .ok ()) :
    Link.Quiet (r.callState q.text (now + (handshake r o now l).elapsed)
      (handshake r o now l).state).state (fetch r o q now l).state := by
  unfold fetch
  rw [bind_of_result_ok h, state_later]
  refine Quietly.after (fun reply => (Quietly.report _).bind fun _ => ?_) _ _
  split
  · exact (Quietly.report _).bind fun _ => .ret _
  · exact .ret _

theorem fetch_calls {r : Remote σ} {o : Options} {q : Query} {now : Nat} {l : Link σ}
    (h : (handshake r o now l).result = .ok ()) :
    ∃ time answer, (fetch r o q now l).state.version = (handshake r o now l).state.version ∧
      (fetch r o q now l).state.calls =
        .state time q.text answer :: (handshake r o now l).state.calls := by
  have hquiet := quiet_fetch (q := q) h
  obtain ⟨answer, hversion, hcalls⟩ := callState_calls r q.text
    (now + (handshake r o now l).elapsed) (handshake r o now l).state
  exact ⟨_, answer, hquiet.version.trans hversion, hquiet.calls.trans hcalls⟩

/-- What is made of a reply goes over no wire. -/
theorem quiet_execute (r : Remote σ) (o : Options) (q : Query) (now : Nat) (l : Link σ) :
    Link.Quiet (fetch r o q now l).state (execute r o q now l).state :=
  Quietly.after (fun reply => (quietly_decodeAll o reply).bind (quietly_sift q)) now l

/-- **What one query does on the wire.**  It fails without an answer, it fails because of another
version, or it makes one call for objects. -/
theorem execute_cases (r : Remote σ) (o : Options) (q : Query) (now : Nat) (l : Link σ) :
    (∃ cause, (execute r o q now l).result = .error (.transport cause) ∧
        Unanswered l cause (execute r o q now l).state) ∨
      (∃ v, v ≠ o.expectedVersion ∧
        (execute r o q now l).result = .error (.versionMismatch o.expectedVersion v) ∧
        Learnt l v (execute r o q now l).state) ∨
      ∃ l' time answer, Learnt l o.expectedVersion l' ∧
        (execute r o q now l).state.version = l'.version ∧
        (execute r o q now l).state.calls = .state time q.text answer :: l'.calls := by
  have hfail : ∀ failure, (handshake r o now l).result = .error failure →
      (execute r o q now l).result = .error failure ∧
        (execute r o q now l).state = (handshake r o now l).state := by
    intro failure h
    have hfetch : fetch r o q now l =
        ⟨.error failure, (handshake r o now l).elapsed, (handshake r o now l).state⟩ :=
      bind_of_result_error h
    have hresult : (fetch r o q now l).result = .error failure := by rw [hfetch]
    unfold execute
    rw [bind_of_result_error hresult, hfetch]
    exact ⟨rfl, rfl⟩
  rcases handshake_cases r o now l with ⟨cause, hresult, hwire⟩ | ⟨v, hresult, hwire⟩
  · obtain ⟨hexecute, hstate⟩ := hfail _ hresult
    exact Or.inl ⟨cause, hexecute, hstate ▸ hwire⟩
  · by_cases hv : v = o.expectedVersion
    · subst hv
      rw [if_pos rfl] at hresult
      obtain ⟨time, answer, hversion, hcalls⟩ := fetch_calls (q := q) hresult
      have hquiet := quiet_execute r o q now l
      exact Or.inr (Or.inr ⟨_, time, answer, hwire, hquiet.version.trans hversion,
        hquiet.calls.trans hcalls⟩)
    · rw [if_neg hv] at hresult
      obtain ⟨hexecute, hstate⟩ := hfail _ hresult
      exact Or.inr (Or.inl ⟨v, hv, hexecute, hstate ▸ hwire⟩)

/-! ## The record of calls -/

theorem Learnt.suffix {l l' : Link σ} {v : String} (h : Learnt l v l') : l.calls <:+ l'.calls := by
  rcases h.calls with ⟨-, hcalls⟩ | ⟨-, hcalls⟩
  · exact hcalls ▸ List.suffix_rfl
  · exact hcalls ▸ List.suffix_cons _ _

/-- No query takes anything off the record. -/
theorem suffix_execute (r : Remote σ) (o : Options) (q : Query) (now : Nat) (l : Link σ) :
    l.calls <:+ (execute r o q now l).state.calls := by
  rcases execute_cases r o q now l with
    ⟨cause, -, hwire⟩ | ⟨v, -, -, hwire⟩ | ⟨l', time, answer, hwire, -, hcalls⟩
  · exact hwire.calls ▸ List.suffix_cons _ _
  · exact hwire.suffix
  · exact hcalls ▸ hwire.suffix.trans (List.suffix_cons _ _)

end Exchange
end Arbor
