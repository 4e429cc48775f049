/-
# Waiting until an object is gone

A wait for an object to be gone looks for the object by its path and its id.  The only predicate
that may be left to evaluate here is the one on the id (`Query.eq_of_mem_clientFilters`), so
whatever the remote side lists under the id is found if it decodes (`Exchange.of_execute_eq_nil`).

An entry that does not decode fails the wait, unless the options leave such entries out: then, and
only then, a wait can end with success over a reply that lists the object
(`Proxy.unlisted_of_waitUntilDestroyed`, `Proxy.exists_listed`).
-/

import Arbor.Proofs.Query.Address
import Arbor.Proofs.Session.Attempts
import Arbor.Proofs.Session.Filtering
import Arbor.Proofs.Session.Outcome

namespace Arbor

open Arbor.Action
open Exchange (passes)

variable {σ : Type}

/-! ## Addresses -/

namespace Exchange

/-- A node passes what is filtered here of the address of its id. -/
theorem passes_of_ofPath {path : String} {id : Int64} {q : Query} (h : Query.ofPath path id = .ok q)
    {n : Node} (hid : n.id = id) : passes q.clientFilters n = true := by
  refine List.all_eq_true.2 fun p hp => ?_
  rw [Query.eq_of_mem_clientFilters h p hp, ← hid]
  exact n.satisfies_id

/-- **An address that selects nothing**: an entry of the reply with the id does not decode, and
entries that do not decode are left out. -/
theorem of_execute_eq_nil {r : Remote σ} {o : Options} {q : Query} {now : Nat} {l : Link σ}
    {path : String} {id : Int64} (hpath : Query.ofPath path id = .ok q)
    (h : (execute r o q now l).result = .ok []) :
    (handshake r o now l).result = .ok () ∧ ∃ reply, answer r o q now l = .ok reply ∧
      ∀ e ∈ reply, e.id? = some id →
        o.skipMalformedNodes = true ∧ ∃ failure, Node.decode e = .error failure := by
  obtain ⟨hhandshake, reply, listed, hanswer, hlisted, hkept⟩ := result_execute_eq_ok_iff.1 h
  refine ⟨hhandshake, reply, hanswer, fun e he hid => ?_⟩
  obtain ⟨hskip, rfl⟩ := decoded_eq_ok_iff.1 hlisted
  cases hdecode : Node.decode e with
  | ok n =>
    -- the node would have been kept
    have hn : n.id = id := Option.some.inj ((Node.of_decode_eq_ok hdecode).1.symm.trans hid)
    have hmem : n ∈ reply.filterMap Entry.node? :=
      List.mem_filterMap.2 ⟨e, he, Entry.node?_of_decode hdecode⟩
    exact absurd (passes_of_ofPath hpath hn) (List.filter_eq_nil_iff.1 hkept n hmem)
  | error failure =>
    refine ⟨hskip.resolve_right fun hall => ?_, failure, rfl⟩
    obtain ⟨n, hn⟩ := hall e he
    exact absurd (hdecode.symm.trans hn) (by simp)

end Exchange

/-! ## A remote side with one reply -/

/-- A session with a remote side that has one reply to everything. -/
def Session.answering (o : Options) (reply : List Entry) : Session Unit where
  remote := {
    version := Action.ret "1.4"
    state := fun _ => Action.ret reply }
  registry := .empty
  options := o

/-- An application with its size. -/
def Entry.app (id : Int) (size : List Json) : Entry :=
  ⟨"/App", [("id", .arr [.int 0, .int id]), ("size", .arr (.int 3 :: size))]⟩

/-! ## The wait -/

open Session (answering)

namespace Proxy

variable {s : Session σ} {p : Proxy} {now : Nat} {l : Link σ}

/-- An attempt takes the object for gone if its address selects nothing. -/
theorem result_tryGone_eq_done_iff :
    (p.tryGone s now l).result = .ok (.done ()) ↔
      (Exchange.execute s.remote s.options p.query now l).result = .ok [] := by
  have hresult : (p.tryGone s now l).result = (s.execute p.query now l).result >>= fun nodes =>
      .ok (if nodes.isEmpty then .done () else .pending ()) :=
    result_bind_of_ends rfl fun nodes => Ends.ret _
  rw [hresult, bind_eq_ok_iff, s.result_execute]
  constructor
  · rintro ⟨nodes, hnodes, hdone⟩
    cases nodes with
    | nil => exact hnodes
    | cons n rest => exact absurd hdone (by simp)
  · intro h
    exact ⟨[], h, rfl⟩

theorem quiet_tryGone (s : Session σ) (p : Proxy) (now : Nat) (l : Link σ) :
    Link.Quiet (Exchange.execute s.remote s.options p.query now l).state
      (p.tryGone s now l).state :=
  (s.quiet_execute p.query now l).trans (Quietly.after (fun _ => .ret _) now l)

/-- The wait ends with success if its last attempt takes the object for gone, and with the record
that this attempt leaves. -/
theorem waitUntilDestroyed_of_decides {timeout : Duration} {before : List (Nat × Link σ)}
    {last : Nat × Link σ} (h : (s.poller timeout).Decides (p.tryGone s)
      ((s.poller timeout).deadline now) now l before last) :
    ((p.waitUntilDestroyed s timeout now l).result = .ok () ↔
        (p.tryGone s last.1 last.2).result = .ok (.done ())) ∧
      (p.waitUntilDestroyed s timeout now l).state.calls =
        (p.tryGone s last.1 last.2).state.calls := by
  refine ⟨h.result_eq_ok_iff (fun _ => rfl) (fun _ => ⟨_, rfl⟩) (), ?_⟩
  refine (h.quiet fun progress => ?_).calls
  cases progress with
  | done _ => exact .ret ()
  | pending _ => exact .fail _

/-- Where the first attempt takes the object for gone, it is the only one. -/
theorem waitUntilDestroyed_of_tryGone (timeout : Duration)
    (h : (p.tryGone s now l).result = .ok (.done ())) :
    (p.waitUntilDestroyed s timeout now l).result = .ok () ∧
      (p.waitUntilDestroyed s timeout now l).state.calls = (p.tryGone s now l).state.calls := by
  have hdecides : (s.poller timeout).Decides (p.tryGone s) ((s.poller timeout).deadline now) now l
      [] (now, l) := Poller.decides_of_done h
  obtain ⟨hresult, hcalls⟩ := waitUntilDestroyed_of_decides hdecides
  exact ⟨hresult.2 h, hcalls⟩

/-- **An object that is taken for gone is not listed.**  A wait for it to be gone that ends with
success has ended with a call for objects, made in the wait, and no entry of the reply to that call
has the id of the object, except that entries that do not decode are not looked at where the options
leave them out. -/
theorem unlisted_of_waitUntilDestroyed {registry : Registry} {n : Node}
    (hp : Session.bind registry n = .ok p) {timeout : Duration}
    (h : (p.waitUntilDestroyed s timeout now l).result = .ok ()) :
    ∃ time reply added,
      (p.waitUntilDestroyed s timeout now l).state.calls =
        .state time p.query.text (.ok reply) :: (added ++ l.calls) ∧
      (s.options.skipMalformedNodes = false → ∀ e ∈ reply, e.id? ≠ some p.id) ∧
      ∀ e ∈ reply, e.id? = some p.id → ∃ failure, Node.decode e = .error failure := by
  obtain ⟨hnode, hpath⟩ := Session.of_bind_eq_ok hp
  rw [← hnode] at hpath
  obtain ⟨before, last, hdecides⟩ := (s.poller timeout).exists_decides (p.tryGone s)
    ((s.poller timeout).deadline now) now l
  obtain ⟨hresult, hstate⟩ := waitUntilDestroyed_of_decides hdecides
  obtain ⟨hhandshake, reply, hanswer, hlisted⟩ :=
    Exchange.of_execute_eq_nil hpath (result_tryGone_eq_done_iff.1 (hresult.1 h))
  -- the last attempt starts from a record that has only grown since the wait began
  have hgrown : l.calls <:+ last.2.calls := by
    refine Poller.of_mem_startsFrom (P := fun l' => l.calls <:+ l'.calls) (fun now l' hl' => ?_)
      List.suffix_rfl last (hdecides.starts ▸ List.mem_append_right _ (List.mem_singleton.2 rfl))
    rw [(quiet_tryGone s p now l').calls]
    exact hl'.trans (Exchange.suffix_execute _ _ _ _ _)
  obtain ⟨earlier, hearlier⟩ := hgrown
  obtain ⟨time, added, hcalls⟩ := Exchange.calls_execute (q := p.query) hhandshake
  refine ⟨time, reply, added ++ earlier, ?_, fun hskip e he hid => ?_, fun e he hid => ?_⟩
  · rw [hstate, (quiet_tryGone s p last.1 last.2).calls, hcalls, hanswer, List.append_assoc,
      hearlier]
  · exact absurd (hskip.symm.trans (hlisted e he hid).1) (by simp)
  · exact (hlisted e he hid).2

/-- An application whose id has more than 32 bits. -/
def wideApp : Proxy where
  node := ⟨"/App", 1099511627776, [], none, none⟩
  className := .generic
  query := ⟨[.child "App" (.ofList [("id", .int 1099511627776)])], "/App",
    .ofList [("id", .int 1099511627776)]⟩

/-- The remote side never hears of that id.  It lists another application, and the wait ends. -/
theorem unlisted_wideApp :
    Session.bind .empty wideApp.node = .ok wideApp ∧
      (wideApp.waitUntilDestroyed (answering .default [Entry.app 2 [.int 10, .int 10]])
        (.ofMillis 500) 0 (Link.start ())).result = .ok () ∧
      ∃ time reply added,
        (wideApp.waitUntilDestroyed (answering .default [Entry.app 2 [.int 10, .int 10]])
          (.ofMillis 500) 0 (Link.start ())).state.calls =
            .state time "/App" (.ok reply) :: added ∧
        ∀ e ∈ reply, e.id? ≠ some 1099511627776 := by
  have hbind : Session.bind .empty wideApp.node = .ok wideApp := rfl
  have hgone : (wideApp.tryGone (answering .default [Entry.app 2 [.int 10, .int 10]]) 0
      (Link.start ())).result = .ok (.done ()) := rfl
  have hwait := (waitUntilDestroyed_of_tryGone (.ofMillis 500) hgone).1
  obtain ⟨time, reply, added, hcalls, hunlisted, -⟩ := unlisted_of_waitUntilDestroyed hbind hwait
  exact ⟨hbind, hwait, time, reply, _, hcalls, hunlisted rfl⟩

/-- An application. -/
def app : Proxy where
  node := ⟨"/App", 1, [("size", .size ⟨10, 10⟩)], none, none⟩
  className := .generic
  query := ⟨[.child "App" (.ofList [("id", .int 1)])], "/App[id=1]", .empty⟩

/-- **Where entries that do not decode are left out, an object that is listed can be taken for
gone**: the application is listed with a size that has lost its height. -/
theorem exists_listed :
    ¬∀ (s : Session Unit) (registry : Registry) (n : Node) (p : Proxy) (timeout : Duration)
        (now : Nat) (l : Link Unit), Session.bind registry n = .ok p →
      (p.waitUntilDestroyed s timeout now l).result = .ok () →
      ∃ time reply added,
        (p.waitUntilDestroyed s timeout now l).state.calls =
          .state time p.query.text (.ok reply) :: (added ++ l.calls) ∧
        ∀ e ∈ reply, e.id? ≠ some p.id := by
  intro hall
  have hgone : (app.tryGone (answering { Options.default with skipMalformedNodes := true }
      [Entry.app 1 [.int 10]]) 0 (Link.start ())).result = .ok (.done ()) := rfl
  obtain ⟨hwait, hstate⟩ := waitUntilDestroyed_of_tryGone (.ofMillis 500) hgone
  obtain ⟨time, reply, added, hcalls, hunlisted⟩ :=
    hall _ .empty app.node app _ 0 (Link.start ()) rfl hwait
  obtain ⟨hcall, -⟩ := List.cons.inj (hcalls.symm.trans hstate)
  obtain ⟨-, -, hreply⟩ := Call.state.inj hcall
  obtain rfl : reply = [Entry.app 1 [.int 10]] := Except.ok.inj hreply
  exact hunlisted _ (List.mem_singleton.2 rfl) rfl

end Proxy
end Arbor
