/-
# Operations of a session

`Operation` lists what can be done with a session and with the proxies that it returned;
`Session.runAll` does one operation after another and goes on after failures.  The plan of every
operation says which rounds it consists of (`follows_operation`), and so does the plan of a sequence
of them (`follows_runAll`).
-/

import Arbor.Proofs.Session.Rounds

namespace Arbor

open Arbor.Action

variable {σ α : Type}

/-! ## Selections and waits -/

namespace Session

variable {s : Session σ}

theorem follows_execute (q : Query) : Follows s (s.execute q) (.once q) := by
  refine Follows.bind (Follows.execute q).caught fun result => ?_
  split
  · exact .ret _
  · exact (Quietly.report _).bind fun _ => .fail _

theorem follows_selectMany (q : Query) : Follows s (s.selectMany q) (.once q) :=
  (follows_execute q).bind fun _ => .ofExcept _

theorem follows_selectSingle (q : Query) : Follows s (s.selectSingle q) (.once q) :=
  (follows_execute q).bind fun _ => .ofExcept _

theorem follows_trySingle (q : Query) : Follows s (s.trySingle q) (.once q) := by
  refine Follows.bind (follows_selectSingle q).caught fun result => ?_
  split
  · exact .ret _
  · split
    · exact .ret _
    · exact .fail _

theorem follows_tryMany (q : Query) (least : Nat) : Follows s (s.tryMany q least) (.once q) :=
  (follows_selectMany q).bind fun _ => .ret _

/-- The pace of a session. -/
def poller (s : Session σ) (timeout : Duration) : Poller := ⟨s.options.pollInterval, timeout⟩

theorem follows_poll {β : Type} {attempt : Exchange σ (Progress β α)} {q : Query}
    (h : Follows s attempt (.once q)) (timeout : Duration) :
    Follows s (s.poll timeout attempt) ((s.poller timeout).plan attempt q) :=
  fun now l => Follows.runFrom h _ now l

theorem follows_waitSelectSingle (q : Query) (timeout : Duration) :
    Follows s (s.waitSelectSingle q timeout) ((s.poller timeout).plan (s.trySingle q) q) := by
  refine (follows_poll (follows_trySingle q) timeout).bind fun progress => ?_
  cases progress with
  | done p => exact .ret p
  | pending _ => exact .fail _

theorem follows_waitSelectMany (q : Query) (least : Nat) (timeout : Duration) :
    Follows s (s.waitSelectMany q least timeout)
      ((s.poller timeout).plan (s.tryMany q least) q) := by
  refine (follows_poll (follows_tryMany q least) timeout).bind fun progress => ?_
  cases progress with
  | done proxies => exact .ret proxies
  | pending _ => exact .fail _

end Session

namespace Proxy

variable {s : Session σ} {p : Proxy}

theorem follows_tryAttribute (name : String) (expected : Literal) :
    Follows s (p.tryAttribute s name expected) (.once p.query) :=
  (Session.follows_selectSingle p.query).bind fun _ => .ret _

theorem follows_waitFor (name : String) (expected : Literal) (timeout : Duration) :
    Follows s (p.waitFor s name expected timeout)
      ((s.poller timeout).plan (p.tryAttribute s name expected) p.query) := by
  refine (Session.follows_poll (follows_tryAttribute name expected) timeout).bind fun progress => ?_
  cases progress with
  | done fresh => exact .ret fresh
  | pending _ => exact .fail _

theorem follows_tryGone : Follows s (p.tryGone s) (.once p.query) :=
  (Session.follows_execute p.query).bind fun _ => .ret _

theorem follows_waitUntilDestroyed (timeout : Duration) :
    Follows s (p.waitUntilDestroyed s timeout)
      ((s.poller timeout).plan (p.tryGone s) p.query) := by
  refine (Session.follows_poll follows_tryGone timeout).bind fun progress => ?_
  cases progress with
  | done _ => exact .ret ()
  | pending _ => exact .fail _

end Proxy

/-! ## Operations -/

/-- What can be done with a proxy. -/
inductive Proxy.Operation
  | selectSingle (name : String) (filters : Filters)
  | selectMany (name : String) (filters : Filters)
  | selectManySorted (name : String) (filters : Filters) (keys : List String)
  | waitSelectSingle (name : String) (filters : Filters) (timeout : Duration)
  | waitSelectMany (name : String) (filters : Filters) (least : Nat) (timeout : Duration)
  | children
  | childrenOfType (name : String) (filters : Filters)
  | parent
  | parentOfType (name : String)
  | root
  | allInstances
  | refresh
  | waitFor (name : String) (expected : Literal) (timeout : Duration)
  | waitUntilDestroyed (timeout : Duration)

/-- What can be done with a session and with proxies; `pause` is the time between operations. -/
inductive Operation
  | pause (nanos : Nat)
  | execute (q : Query)
  | selectSingle (q : Query)
  | selectMany (q : Query)
  | waitSelectSingle (q : Query) (timeout : Duration)
  | waitSelectMany (q : Query) (least : Nat) (timeout : Duration)
  | root
  | ofProxy (p : Proxy) (op : Proxy.Operation)

/-- Goes on after a failure, and without the result. -/
def forget (a : Exchange σ α) : Exchange σ Unit := do
  let _ ← a.caught
  return ()

theorem Follows.forget {s : Session σ} {a : Exchange σ α} {plan : Plan σ} (h : Follows s a plan) :
    Follows s (forget a) plan :=
  h.caught.bind fun _ => .ret ()

namespace Proxy.Operation

/-- Does something with a proxy. -/
def run (s : Session σ) (p : Proxy) : Proxy.Operation → Exchange σ Unit
  | selectSingle name filters => forget (p.selectSingle s name filters)
  | selectMany name filters => forget (p.selectMany s name filters)
  | selectManySorted name filters keys => forget (p.selectManySorted s name filters keys)
  | waitSelectSingle name filters timeout => forget (p.waitSelectSingle s name filters timeout)
  | waitSelectMany name filters least timeout =>
    forget (p.waitSelectMany s name filters least timeout)
  | children => forget (p.children s)
  | childrenOfType name filters => forget (p.childrenOfType s name filters)
  | parent => forget (p.parent s)
  | parentOfType name => forget (p.parentOfType s name)
  | root => forget s.root
  | allInstances => forget (p.allInstances s)
  | refresh => forget (p.refresh s)
  | waitFor name expected timeout => forget (p.waitFor s name expected timeout)
  | waitUntilDestroyed timeout => forget (p.waitUntilDestroyed s timeout)

/-- The rounds that it takes. -/
def plan (s : Session σ) (p : Proxy) : Proxy.Operation → Plan σ
  | selectSingle name filters | selectMany name filters | selectManySorted name filters _ =>
    .ofQuery (p.query.descendant name filters) .once
  | waitSelectSingle name filters timeout =>
    .ofQuery (p.query.descendant name filters) fun q =>
      (s.poller timeout).plan (s.trySingle q) q
  | waitSelectMany name filters least timeout =>
    .ofQuery (p.query.descendant name filters) fun q =>
      (s.poller timeout).plan (s.tryMany q least) q
  | children => .ofQuery (p.query.child Segment.wildcard .empty) .once
  | childrenOfType name filters => .ofQuery (p.query.child name filters) .once
  | parent => .ofQuery p.query.parent .once
  | parentOfType name =>
    match stepsUp? name (Path.components p.path).dropLast.reverse with
    | some n => .ofQuery (ancestorQuery p.query n) .once
    | none => .none
  | root => .once .pseudoRoot
  | allInstances => .ofQuery (Query.everywhere p.typeName .empty) .once
  | refresh => .once p.query
  | waitFor name expected timeout =>
    (s.poller timeout).plan (p.tryAttribute s name expected) p.query
  | waitUntilDestroyed timeout => (s.poller timeout).plan (p.tryGone s) p.query

theorem follows_run (s : Session σ) (p : Proxy) (op : Proxy.Operation) :
    Follows s (op.run s p) (op.plan s p) := by
  cases op with
  | selectSingle name filters => exact (Follows.withQuery Session.follows_selectSingle).forget
  | selectMany name filters => exact (Follows.withQuery Session.follows_selectMany).forget
  | selectManySorted name filters keys =>
    exact ((Follows.withQuery Session.follows_selectMany).bind fun _ => .ret _).forget
  | waitSelectSingle name filters timeout =>
    exact (Follows.withQuery fun q => Session.follows_waitSelectSingle q timeout).forget
  | waitSelectMany name filters least timeout =>
    exact (Follows.withQuery fun q => Session.follows_waitSelectMany q least timeout).forget
  | children => exact (Follows.withQuery Session.follows_selectMany).forget
  | childrenOfType name filters => exact (Follows.withQuery Session.follows_selectMany).forget
  | parent => exact (Follows.withQuery Session.follows_selectSingle).forget
  | parentOfType name =>
    refine Follows.forget ?_
    simp only [Proxy.parentOfType, plan]
    cases stepsUp? name (Path.components p.path).dropLast.reverse with
    | some n => exact Follows.withQuery Session.follows_selectSingle
    | none => exact Follows.of_quietly (.fail _)
  | root => exact (Session.follows_selectSingle _).forget
  | allInstances => exact (Follows.withQuery Session.follows_selectMany).forget
  | refresh => exact (Session.follows_selectSingle _).forget
  | waitFor name expected timeout => exact (follows_waitFor name expected timeout).forget
  | waitUntilDestroyed timeout => exact (follows_waitUntilDestroyed timeout).forget

end Proxy.Operation

namespace Operation

/-- Does something with a session. -/
def run (s : Session σ) : Operation → Exchange σ Unit
  | pause nanos => Action.sleep nanos
  | execute q => forget (s.execute q)
  | selectSingle q => forget (s.selectSingle q)
  | selectMany q => forget (s.selectMany q)
  | waitSelectSingle q timeout => forget (s.waitSelectSingle q timeout)
  | waitSelectMany q least timeout => forget (s.waitSelectMany q least timeout)
  | root => forget s.root
  | ofProxy p op => op.run s p

/-- The rounds that it takes. -/
def plan (s : Session σ) : Operation → Plan σ
  | pause _ => .none
  | execute q | selectSingle q | selectMany q => .once q
  | waitSelectSingle q timeout => (s.poller timeout).plan (s.trySingle q) q
  | waitSelectMany q least timeout => (s.poller timeout).plan (s.tryMany q least) q
  | root => .once .pseudoRoot
  | ofProxy p op => op.plan s p

/-- **Every operation is rounds of queries** and reaches the remote side in no other way. -/
theorem follows_operation (s : Session σ) (op : Operation) : Follows s (op.run s) (op.plan s) := by
  cases op with
  | pause nanos => exact Follows.of_quietly (.sleep nanos)
  | execute q => exact (Session.follows_execute q).forget
  | selectSingle q => exact (Session.follows_selectSingle q).forget
  | selectMany q => exact (Session.follows_selectMany q).forget
  | waitSelectSingle q timeout => exact (Session.follows_waitSelectSingle q timeout).forget
  | waitSelectMany q least timeout => exact (Session.follows_waitSelectMany q least timeout).forget
  | root => exact (Session.follows_selectSingle _).forget
  | ofProxy p op => exact op.follows_run s p

end Operation

namespace Session

/-- Does one thing after another, whether or not the things before succeeded.  How a connection
looks at the end, and when that is. -/
def runAll (s : Session σ) : List Operation → Nat → Link σ → Nat × Link σ
  | [], now, l => (now, l)
  | op :: rest, now, l =>
    s.runAll rest (now + (op.run s now l).elapsed) (op.run s now l).state

/-- The rounds of a sequence of operations. -/
def rounds (s : Session σ) : List Operation → Plan σ
  | [], _, _ => []
  | op :: rest, now, l =>
    op.plan s now l ++ s.rounds rest (now + (op.run s now l).elapsed) (op.run s now l).state

/-- So are sequences of them. -/
theorem follows_runAll (s : Session σ) (ops : List Operation) (now : Nat) (l : Link σ) :
    Course s l (s.rounds ops now l) (s.runAll ops now l).2 := by
  induction ops generalizing now l with
  | nil => exact .quiet (.refl l)
  | cons op rest ih => exact (op.follows_operation s now l).append (ih _ _)

end Session
end Arbor
