/-
# What is sent

All that a session sends are texts of queries that were built (`Course.query?_cases`), and those are
canonical (`Query.Reachable.canonical_text`).  The queries are those that a caller has built, and
those that proxies build from the addresses of their objects.  A proxy that a session returned has
such an address, whatever path the remote side gave (`Session.Returned.reachable`), and every
operation on it asks for queries that are built from there (`Operation.asksReachable`).
-/

import Arbor.Proofs.Query.Canonical
import Arbor.Proofs.Session.Attempts
import Arbor.Proofs.Session.Filtering
import Arbor.Proofs.Session.Outcome
import Arbor.Proofs.Session.VersionFirst

namespace Arbor

open Arbor.Action

variable {σ α β : Type}

/-! ## Proxies that a session returns -/

/-- If an attempt had a result, the result satisfies `P`. -/
def Progress.DoneWith (P : α → Prop) : Progress β α → Prop
  | .done a => P a
  | .pending _ => True

/-- A run has the result of its last attempt. -/
theorem Poller.gives_run {p : Poller} {attempt : Action Failure σ (Progress β α)} {P : α → Prop}
    (h : Gives attempt (Progress.DoneWith P)) : Gives (p.run attempt) (Progress.DoneWith P) := by
  intro now s x hx
  obtain ⟨_, last, hlast⟩ := p.exists_decides attempt (p.deadline now) now s
  cases x with
  | done a => exact h last.1 last.2 _ ((hlast.done_iff a).1 hx)
  | pending _ => trivial

namespace Session

variable {s : Session σ}

/-- Whatever is bound can be addressed. -/
theorem Binds.reachable {registry : Registry} {n : Node} {p : Proxy} (h : Binds registry n p) :
    p.query.Reachable := .ofPath h.query

theorem reachable_of_bindAll {registry : Registry} {nodes : List Node} {proxies : List Proxy}
    (h : bindAll registry nodes = .ok proxies) : ∀ p ∈ proxies, p.query.Reachable := by
  replace h := bindAll_eq_ok_iff.1 h
  induction h with
  | nil => simp
  | cons hn _ ih => exact List.forall_mem_cons.2 ⟨hn.reachable, ih⟩

theorem reachable_of_one? {registry : Registry} {q : Query} {nodes : List Node} {p : Proxy}
    (h : one? registry q nodes = .ok p) : p.query.Reachable := by
  obtain ⟨n, -, hn⟩ := one?_eq_ok_iff.1 h
  exact hn.reachable

/-- A proxy whose object can be addressed. -/
abbrev Addressed (p : Proxy) : Prop := p.query.Reachable

theorem gives_selectSingle (q : Query) : Gives (s.selectSingle q) Addressed :=
  .bind_of_forall fun _ => .ofExcept fun _ => reachable_of_one?

theorem gives_selectMany (q : Query) : Gives (s.selectMany q) fun ps => ∀ p ∈ ps, Addressed p :=
  .bind_of_forall fun _ => .ofExcept fun _ => reachable_of_bindAll

/-- A wait gives what its attempts give. -/
theorem gives_of_poll {attempt : Exchange σ (Progress β α)} {P : α → Prop}
    (h : Gives attempt (Progress.DoneWith P)) {f : Progress β α → Exchange σ α}
    (hdone : ∀ a, f (.done a) = pure a) (hpending : ∀ b, ∃ e, f (.pending b) = Action.fail e)
    (timeout : Duration) : Gives (s.poll timeout attempt >>= f) P := by
  refine .bind (Poller.gives_run h) fun progress hprogress => ?_
  cases progress with
  | done a =>
    rw [hdone]
    exact .ret hprogress
  | pending b =>
    obtain ⟨e, he⟩ := hpending b
    rw [he]
    exact .fail e

theorem gives_waitSelectSingle (q : Query) (timeout : Duration) :
    Gives (s.waitSelectSingle q timeout) Addressed := by
  refine gives_of_poll ?_ (fun _ => rfl) (fun _ => ⟨_, rfl⟩) timeout
  refine .bind (gives_selectSingle q).caught fun result hresult => ?_
  split
  · exact .ret (hresult _ rfl)
  · split
    · exact .ret trivial
    · exact .fail _

theorem gives_waitSelectMany (q : Query) (least : Nat) (timeout : Duration) :
    Gives (s.waitSelectMany q least timeout) fun ps => ∀ p ∈ ps, Addressed p := by
  refine gives_of_poll ?_ (fun _ => rfl) (fun _ => ⟨_, rfl⟩) timeout
  refine .bind (gives_selectMany q) fun ps hps => .ret ?_
  split
  · exact hps
  · trivial

theorem gives_waitFor (p : Proxy) (name : String) (expected : Literal) (timeout : Duration) :
    Gives (p.waitFor s name expected timeout) Addressed := by
  refine gives_of_poll ?_ (fun _ => rfl) (fun _ => ⟨_, rfl⟩) timeout
  refine .bind (gives_selectSingle p.query) fun fresh hfresh => .ret ?_
  split
  · exact hfresh
  · trivial

theorem gives_withQuery {q : Except Query.Fault Query} {f : Query → Exchange σ α} {P : α → Prop}
    (h : ∀ q, Gives (f q) P) : Gives (Proxy.withQuery q f) P :=
  .bind_of_forall h

theorem gives_selectManySorted (p : Proxy) (name : String) (filters : Filters)
    (keys : List String) :
    Gives (p.selectManySorted s name filters keys) fun ps => ∀ p ∈ ps, Addressed p :=
  .bind (gives_withQuery gives_selectMany) fun _ hps =>
    .ret fun q hq => hps q (List.mem_mergeSort.1 hq)

/-- The proxies that a session and its proxies return, whenever and over whatever connection.  The
query of a proxy may break the grammar; with one that does not, `Proxy.withQuery` is what the
session itself does. -/
inductive Returned (s : Session σ) : Proxy → Prop
  | single {q : Except Query.Fault Query} {now : Nat} {l : Link σ} {p : Proxy} :
      (Proxy.withQuery q s.selectSingle now l).result = .ok p → Returned s p
  | many {q : Except Query.Fault Query} {now : Nat} {l : Link σ} {ps : List Proxy} {p : Proxy} :
      (Proxy.withQuery q s.selectMany now l).result = .ok ps → p ∈ ps → Returned s p
  | sorted {parent : Proxy} {name : String} {filters : Filters} {keys : List String} {now : Nat}
      {l : Link σ} {ps : List Proxy} {p : Proxy} :
      (parent.selectManySorted s name filters keys now l).result = .ok ps → p ∈ ps → Returned s p
  | waitSingle {q : Except Query.Fault Query} {timeout : Duration} {now : Nat} {l : Link σ}
      {p : Proxy} :
      (Proxy.withQuery q (fun q => s.waitSelectSingle q timeout) now l).result = .ok p →
      Returned s p
  | waitMany {q : Except Query.Fault Query} {least : Nat} {timeout : Duration} {now : Nat}
      {l : Link σ} {ps : List Proxy} {p : Proxy} :
      (Proxy.withQuery q (fun q => s.waitSelectMany q least timeout) now l).result = .ok ps →
      p ∈ ps → Returned s p
  | waitFor {old : Proxy} {name : String} {expected : Literal} {timeout : Duration} {now : Nat}
      {l : Link σ} {p : Proxy} :
      (old.waitFor s name expected timeout now l).result = .ok p → Returned s p

/-- **Every proxy that is returned can be addressed.** -/
theorem Returned.reachable {p : Proxy} (h : s.Returned p) : p.query.Reachable := by
  cases h with
  | single h => exact gives_withQuery gives_selectSingle _ _ _ h
  | many h hp => exact gives_withQuery gives_selectMany _ _ _ h p hp
  | sorted h hp => exact gives_selectManySorted _ _ _ _ _ _ _ h p hp
  | waitSingle h => exact gives_withQuery (fun q => gives_waitSelectSingle q _) _ _ _ h
  | waitMany h hp => exact gives_withQuery (fun q => gives_waitSelectMany q _ _) _ _ _ h p hp
  | waitFor h => exact gives_waitFor _ _ _ _ _ _ _ h

end Session

/-! ## Queries that are asked -/

/-- All rounds of a plan are for queries that can be built. -/
def Plan.AsksReachable (plan : Plan σ) : Prop := ∀ now l, ∀ x ∈ plan now l, x.query.Reachable

namespace Plan.AsksReachable

theorem none : (Plan.none : Plan σ).AsksReachable := by
  intro now l x hx
  exact absurd hx List.not_mem_nil

theorem once {q : Query} (h : q.Reachable) : (Plan.once q : Plan σ).AsksReachable := by
  intro now l x hx
  obtain rfl := List.mem_singleton.1 hx
  exact h

theorem ofQuery {q : Except Query.Fault Query} {plan : Query → Plan σ}
    (hq : ∀ r, q = .ok r → r.Reachable)
    (h : ∀ r, r.Reachable → (plan r).AsksReachable) : (Plan.ofQuery q plan).AsksReachable := by
  cases q with
  | error fault => exact none
  | ok q => exact h q (hq q rfl)

theorem poll {p : Poller} {attempt : Exchange σ (Progress β α)} {q : Query} (h : q.Reachable) :
    (p.plan attempt q).AsksReachable := by
  intro now l x hx
  obtain ⟨start, -, rfl⟩ := List.mem_map.1 hx
  exact h

end Plan.AsksReachable

theorem Query.Reachable.ancestorQuery {q r : Query} {n : Nat} (hq : q.Reachable)
    (h : Proxy.ancestorQuery q n = .ok r) : r.Reachable := by
  induction n generalizing q with
  | zero =>
    obtain rfl := Except.ok.inj h
    exact hq
  | succ n ih =>
    obtain ⟨up, hup, h⟩ := bind_eq_ok_iff.1 h
    exact ih (.parent hq hup) h

/-- An operation on proxies that were returned and for queries that were built. -/
def Operation.Proper (s : Session σ) : Operation → Prop
  | execute q | selectSingle q | selectMany q | waitSelectSingle q _ | waitSelectMany q _ _ =>
    q.Reachable
  | ofProxy p _ => s.Returned p
  | pause _ | root => True

theorem Proxy.Operation.asksReachable {s : Session σ} {p : Proxy} (h : p.query.Reachable)
    (op : Proxy.Operation) : (op.plan s p).AsksReachable := by
  cases op with
  | selectSingle | selectMany | selectManySorted =>
    exact .ofQuery (fun _ => .descendant h) fun _ => .once
  | waitSelectSingle | waitSelectMany =>
    exact .ofQuery (fun _ => .descendant h) fun _ => .poll
  | children | childrenOfType => exact .ofQuery (fun _ => .child h) fun _ => .once
  | parent => exact .ofQuery (fun _ => .parent h) fun _ => .once
  | parentOfType name =>
    simp only [plan]
    split
    · exact .ofQuery (fun _ => h.ancestorQuery) fun _ => .once
    · exact .none
  | root => exact .once .pseudoRoot
  | allInstances => exact .ofQuery (fun _ => .everywhere) fun _ => .once
  | refresh => exact .once h
  | waitFor | waitUntilDestroyed => exact .poll h

theorem Operation.asksReachable {s : Session σ} {op : Operation} (h : op.Proper s) :
    (op.plan s).AsksReachable := by
  cases op with
  | pause => exact .none
  | execute | selectSingle | selectMany => exact .once h
  | waitSelectSingle | waitSelectMany => exact .poll h
  | root => exact .once .pseudoRoot
  | ofProxy p op => exact op.asksReachable (Session.Returned.reachable h)

theorem Session.asksReachable_rounds {s : Session σ} {ops : List Operation}
    (h : ∀ op ∈ ops, op.Proper s) : Plan.AsksReachable (s.rounds ops) := by
  induction ops with
  | nil => exact .none
  | cons op rest ih =>
    obtain ⟨hop, hrest⟩ := List.forall_mem_cons.1 h
    intro now l x hx
    rcases List.mem_append.1 hx with hx | hx
    · exact Operation.asksReachable hop now l x hx
    · exact ih hrest _ _ x hx

/-! ## Texts that are sent -/

/-- What was sent before a round, and the text of its query. -/
theorem Round.query?_cases {s : Session σ} {x : Round σ} {c : Call} {text : String}
    (hc : c ∈ (x.ended s).state.calls) (htext : c.query? = some text) :
    c ∈ x.link.calls ∨ text = x.query.text := by
  have hlearnt : ∀ {v : String} {l' : Link σ}, Exchange.Learnt x.link v l' → c ∈ l'.calls →
      c ∈ x.link.calls := by
    intro v l' hwire hc
    rcases hwire.calls with ⟨-, hcalls⟩ | ⟨-, hcalls⟩
    · rwa [hcalls] at hc
    · rw [hcalls] at hc
      refine (List.mem_cons.1 hc).resolve_left ?_
      rintro rfl
      exact absurd htext (by simp [Call.query?])
  rcases x.ended_cases s with
    ⟨cause, -, hwire⟩ | ⟨v, -, -, hwire⟩ | ⟨l', time, answer, hwire, -, hcalls⟩
  · rw [hwire.calls] at hc
    rcases List.mem_cons.1 hc with rfl | hc
    · exact absurd htext (by simp [Call.query?])
    · exact Or.inl hc
  · exact Or.inl (hlearnt hwire hc)
  · rw [hcalls] at hc
    rcases List.mem_cons.1 hc with rfl | hc
    · exact Or.inr (Option.some.inj htext).symm
    · exact Or.inl (hlearnt hwire hc)

/-- **All that is sent along a course are the texts of its rounds.** -/
theorem Course.query?_cases {s : Session σ} {l l' : Link σ} {rounds : List (Round σ)}
    (h : Course s l rounds l') {c : Call} {text : String} (hc : c ∈ l'.calls)
    (htext : c.query? = some text) : c ∈ l.calls ∨ ∃ x ∈ rounds, text = x.query.text := by
  induction h with
  | quiet hquiet =>
    rw [hquiet.calls] at hc
    exact Or.inl hc
  | round hquiet _ ih =>
    rcases ih hc with hc | ⟨y, hy, heq⟩
    · rcases Round.query?_cases hc htext with hc | heq
      · rw [hquiet.calls] at hc
        exact Or.inl hc
      · exact Or.inr ⟨_, List.mem_cons_self, heq⟩
    · exact Or.inr ⟨y, List.mem_cons_of_mem _ hy, heq⟩

/-- **Nothing outside the query language is sent.**  Whatever is done with a session and with the
proxies that it returned, every text that goes to the remote side is canonical, and printable. -/
theorem canonical_of_runAll {s : Session σ} {ops : List Operation} (hops : ∀ op ∈ ops, op.Proper s)
    (now : Nat) (remote : σ) :
    ∀ c ∈ (s.runAll ops now (Link.start remote)).2.calls, ∀ text, c.query? = some text →
      Query.Canonical text ∧ ∀ ch ∈ text.toList, IsPrintable ch := by
  intro c hc text htext
  rcases (s.follows_runAll ops now (Link.start remote)).query?_cases hc htext with hc | ⟨x, hx, rfl⟩
  · exact absurd hc List.not_mem_nil
  · have hcanonical := (Session.asksReachable_rounds hops now _ x hx).canonical_text
    exact ⟨hcanonical, hcanonical.printable⟩

/-- A session with a remote side that answers everything with one button. -/
def oneButton : Session Unit where
  remote := {
    version := Action.ret "1.4"
    state := fun _ => Action.ret [Catalog.buttonEntry 2 3 "a"] }
  registry := .empty
  options := .default

/-- The button. -/
def button : Proxy where
  node := ⟨"/Game/Button", 2, [("größe", .ofInt32 3), ("text", .ofText "a")], none, none⟩
  className := .generic
  query := ⟨[.child "Game" .empty, .child "Button" (.ofList [("id", .int 2)])],
    "/Game/Button[id=2]", .empty⟩

/-- The button, its children by a name that is none and its children by a wildcard: the second is
not sent, and nothing of what cannot be written is in the first. -/
def buttonSteps : List Operation :=
  [.selectSingle Query.largeButtons, .ofProxy button (.childrenOfType "a]/b" .empty),
    .ofProxy button .children]

theorem canonical_buttonSteps :
    (∀ op ∈ buttonSteps, op.Proper oneButton) ∧
      (oneButton.runAll buttonSteps 0 (Link.start ())).2.calls.filterMap Call.query? =
        ["/Game/Button[id=2]/*", "/Game//Button[text=\"a],/=\\\"b\\\"\"]"] ∧
      ∀ text ∈ ["/Game/Button[id=2]/*", "/Game//Button[text=\"a],/=\\\"b\\\"\"]"],
        Query.Canonical text ∧ ∀ ch ∈ text.toList, IsPrintable ch := by
  have hselected : (Proxy.withQuery (.ok Query.largeButtons) oneButton.selectSingle 0
      (Link.start ())).result = .ok button := rfl
  have hbutton : oneButton.Returned button := .single hselected
  have hproper : ∀ op ∈ buttonSteps, op.Proper oneButton :=
    List.forall_mem_cons.2 ⟨Query.reachable_largeButtons,
      List.forall_mem_cons.2 ⟨hbutton, List.forall_mem_singleton.2 hbutton⟩⟩
  have hsent : (oneButton.runAll buttonSteps 0 (Link.start ())).2.calls.filterMap Call.query? =
      ["/Game/Button[id=2]/*", "/Game//Button[text=\"a],/=\\\"b\\\"\"]"] := rfl
  refine ⟨hproper, hsent, fun text htext => ?_⟩
  rw [← hsent] at htext
  obtain ⟨c, hc, hquery⟩ := List.mem_filterMap.1 htext
  exact canonical_of_runAll hproper 0 () c hc text hquery

end Arbor
