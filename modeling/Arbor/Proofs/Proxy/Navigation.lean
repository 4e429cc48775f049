/-
# Steps from an object

From an object a proxy leads to objects anywhere beneath it, to its children, and to its parent.
Every such step adds one segment to the query of the object (`Proxy.Step.segment`), and whether it
makes a query is decided before anything is sent:

| id | the segment behind another one | what goes over the wire |
| --- | --- | --- |
| of 32 bits | has a text | one call for objects, with that text behind the text of the query |
| of 32 bits | has none | nothing |
| wider | | nothing |

The segment is judged on its own (`Query.Reachable.exists_extend_iff`): what is above the object
does not matter, so it may as well be judged behind any root object.
-/

import Arbor.Proofs.Proxy.Refresh
import Arbor.Proofs.Proxy.TypeName
import Arbor.Proofs.Query.Growth
import Arbor.Proofs.Session.Holding
import Arbor.Proofs.Session.Sent
import Arbor.Proofs.Session.Watching

namespace Arbor

open Arbor.Action

variable {σ α : Type}

/-! ## Queries of bound objects -/

section Bound

variable {registry : Registry} {n : Node} {p : Proxy}

/-- The query of a bound object addresses it. -/
theorem Session.addresses_of_bind (h : bind registry n = .ok p) :
    Query.Addresses p.path p.id p.query := by
  obtain ⟨rfl, hquery⟩ := of_bind_eq_ok h
  exact (Query.ofPath_eq_ok_iff.1 hquery).2

theorem Session.target_ne_empty_of_bind (h : bind registry n = .ok p) : p.query.target ≠ "" := by
  obtain ⟨rfl, hquery⟩ := of_bind_eq_ok h
  obtain ⟨hpath, haddress⟩ := Query.ofPath_eq_ok_iff.1 hquery
  have hname := hpath.names _ (List.mem_of_getLast? (Query.target_of_addresses haddress))
  exact fun hempty => hname.1 (congrArg String.toList hempty)

/-- Nothing is filtered here if the id has 32 bits, and only then. -/
theorem Session.clientFilters_of_bind (h : bind registry n = .ok p) :
    p.query.clientFilters = .empty ↔ Json.inInt32 p.id.toInt = true := by
  have haddress := addresses_of_bind h
  rw [← Literal.hasText_int_iff]
  refine ⟨fun hnone => ?_, fun hid => (haddress.sent hid).2⟩
  by_contra hwide
  have hkept := congrArg Filters.toList ((haddress.kept hwide).2.symm.trans hnone)
  exact absurd hkept (List.cons_ne_nil _ _)

end Bound

namespace Proxy

/-! ## With a query, or without -/

theorem withQuery_of_ok {x : Except Query.Fault Query} {q : Query} (h : x = .ok q)
    (f : Query → Exchange σ α) : withQuery x f = f q := by
  subst h
  exact ret_andThen q f

theorem withQuery_of_error {x : Except Query.Fault Query} {fault : Query.Fault}
    (h : x = .error fault) (f : Query → Exchange σ α) (now : Nat) (l : Link σ) :
    withQuery x f now l = ⟨.error (.invalidQuery fault.message), 0, l⟩ := by
  subst h
  rfl

/-! ## Steps -/

/-- A step from an object to others. -/
inductive Step
  | selectSingle (name : String) (filters : Filters)
  | selectMany (name : String) (filters : Filters)
  | children
  | childrenOfType (name : String) (filters : Filters)
  | parent

namespace Step

/-- What a step gives: one object, or several. -/
abbrev Answer : Step → Type
  | selectSingle _ _ | parent => Proxy
  | selectMany _ _ | children | childrenOfType _ _ => List Proxy

/-- Takes a step. -/
def run (s : Session σ) (p : Proxy) : (step : Step) → Exchange σ step.Answer
  | selectSingle name filters => p.selectSingle s name filters
  | selectMany name filters => p.selectMany s name filters
  | children => p.children s
  | childrenOfType name filters => p.childrenOfType s name filters
  | parent => p.parent s

/-- What a step adds to the query of the object. -/
def segment : Step → Segment
  | selectSingle name filters | selectMany name filters => .descendant name filters
  | children => .child Segment.wildcard .empty
  | childrenOfType name filters => .child name filters
  | parent => .parent

/-- How objects are selected at the end of a step. -/
def select (s : Session σ) : (step : Step) → Query → Exchange σ step.Answer
  | selectSingle _ _ | parent => s.selectSingle
  | selectMany _ _ | children | childrenOfType _ _ => s.selectMany

/-- All steps are taken in the same way. -/
theorem run_eq_withQuery (s : Session σ) (p : Proxy) (step : Step) :
    step.run s p = withQuery (p.query.extend step.segment) (step.select s) := by
  cases step <;> rfl

theorem executes_select (s : Session σ) (step : Step) (q : Query) :
    Executes s q (step.select s q) := by
  cases step <;> exact (s.executes_execute q).bind fun _ => .ofExcept _

end Step

section Held

variable {s : Session σ} {l : Link σ} {p : Proxy}

/-- Over a connection with proxies a query makes one call. -/
theorem calls_of_executes (h : s.Holds l p) {q : Query} {a : Exchange σ α}
    (ha : Executes s q a) (now : Nat) :
    ∃ answer, (a now l).state.calls = .state now q.text answer :: l.calls := by
  have hopened : (Exchange.handshake s.remote s.options now l).result = .ok () := by
    rw [h.handshake]
  have hcalls := (ha.calls hopened).1
  rw [Session.call, h.handshake] at hcalls
  exact ⟨_, hcalls⟩

/-- **A step sends one query or nothing.**  If the id of the object has 32 bits and the segment of
the step makes a query behind a root object, whichever that is, there is one call for objects, and
its text is that of the query of the object and behind it the separator, the name, and the
predicates of the segment that can be sent.  Otherwise the step fails at once, and nothing is done
with the connection. -/
theorem calls_of_step (h : s.Holds l p) (step : Step) {root : String} {r : Query}
    (hroot : root ≠ "") (hr : Query.root root = .ok r) (now : Nat) :
    (Json.inInt32 p.id.toInt = true ∧
        (∃ q, Query.ofSegments [.child root .empty, step.segment] = .ok q) →
      ∃ (sp : Query.Spelling) (answer : Except String (List Entry)),
        sp.Writes step.segment.sent ∧
        (step.run s p now l).state.calls =
          .state now (p.query.text ++ String.ofList sp.chars) answer :: l.calls) ∧
    (¬(Json.inInt32 p.id.toInt = true ∧
        ∃ q, Query.ofSegments [.child root .empty, step.segment] = .ok q) →
      ∃ reason, step.run s p now l = ⟨.error (.invalidQuery reason), 0, l⟩) := by
  obtain ⟨n, hbind⟩ := h.exists_bind
  have hreachable := (Session.bind_eq_ok_iff_binds.1 hbind).reachable
  have hvalid := hreachable.exists_extend_iff (s := step.segment)
    (Session.target_ne_empty_of_bind hbind)
  rw [Session.clientFilters_of_bind hbind,
    ← Query.exists_ofSegments_behind_root_iff hroot hr] at hvalid
  rw [← hvalid, Step.run_eq_withQuery]
  constructor
  · rintro ⟨q, hq⟩
    obtain ⟨-, t, ht, htext⟩ := Query.exists_text_of_extend hreachable hq
    obtain ⟨sp, hsp, hchars⟩ := Query.exists_writes_of_writeSegment ht
    obtain ⟨answer, hcalls⟩ := calls_of_executes h (step.executes_select s q) now
    refine ⟨sp, answer, hsp, ?_⟩
    rw [withQuery_of_ok hq, hcalls, htext, ← hchars, String.ofList_toList]
  · intro hnone
    cases hq : p.query.extend step.segment with
    | ok q => exact absurd ⟨q, hq⟩ hnone
    | error fault => exact ⟨_, withQuery_of_error rfl _ now l⟩

end Held

/-- The connection over which the button was found. -/
def buttonFound : Link Unit := (oneButton.selectSingle Query.largeButtons 0 (Link.start ())).state

/-- The labels of the button with a text and a size, of which only the text can be sent. -/
def sizedLabels : Step := .selectMany "Label" (.ofList [("text", .text "a"), ("größe", .int 3)])

/-- The connection over which an application with a wide id was found. -/
def wideAppFound : Link Unit :=
  ((Session.answering .default [wideEntry]).selectSingle .pseudoRoot 0 (Link.start ())).state

/-- From the button one query goes out for the labels, and none for children with a name that is
none.  From an object with a wide id there is no way to the children. -/
theorem calls_of_sizedLabels :
    (∃ (sp : Query.Spelling) (answer : Except String (List Entry)),
      sp.Writes sizedLabels.segment.sent ∧
      (sizedLabels.run oneButton button 0 buttonFound).state.calls =
        .state 0 ("/Game/Button[id=2]" ++ String.ofList sp.chars) answer :: buttonFound.calls) ∧
    (∃ reason, button.childrenOfType oneButton "a]/b" .empty 0 buttonFound =
      ⟨.error (.invalidQuery reason), 0, buttonFound⟩) ∧
    ∃ reason, sizedWideApp.children (Session.answering .default [wideEntry]) 0 wideAppFound =
      ⟨.error (.invalidQuery reason), 0, wideAppFound⟩ := by
  have hbutton : oneButton.Holds buttonFound button := Session.holds_of_selectSingle rfl
  have hwide : (Session.answering .default [wideEntry]).Holds wideAppFound sizedWideApp :=
    Session.holds_of_selectSingle rfl
  have hroot : Query.root "App" = .ok ⟨[.child "App" .empty], "/App", .empty⟩ := rfl
  obtain ⟨hlabels, -⟩ := calls_of_step hbutton sizedLabels (by decide) hroot 0
  obtain ⟨-, hnamed⟩ := calls_of_step hbutton (.childrenOfType "a]/b" .empty) (by decide) hroot 0
  obtain ⟨-, hchildren⟩ := calls_of_step hwide .children (by decide) hroot 0
  refine ⟨hlabels ⟨by decide, _, rfl⟩, hnamed fun h => ?_, hchildren fun h => ?_⟩
  · obtain ⟨q, hq⟩ := h.2
    have hfault : Query.ofSegments [.child "App" .empty, .child "a]/b" .empty] =
        .error (.reservedChar "a]/b" ']') := rfl
    exact absurd (hfault.symm.trans hq) (by simp)
  · exact absurd h.1 (by decide)

end Proxy
end Arbor
