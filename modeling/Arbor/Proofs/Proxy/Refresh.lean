/-
# Finding an object again

A bound object is looked for by the query that addresses it.  An id of more than 32 bits is filtered
here, so whatever the remote side replies, what is found is the only node with the id in the reply
(`Proxy.Refound`).
-/

import Arbor.Proofs.Query.Address
import Arbor.Proofs.Session.Malformed

namespace Arbor
namespace Proxy

open Exchange (Gets passes)
open Session (Binds answering)

variable {σ : Type} {s : Session σ} {p fresh : Proxy} {now : Nat} {l : Link σ}

/-- An object is found again if its query has a reply, and what is kept of it is one node that can
be bound. -/
theorem result_refresh_eq_ok_iff :
    (p.refresh s now l).result = .ok fresh ↔
      ∃ reply, Gets s.remote s.options p.query now l reply ∧
        (s.options.skipMalformedNodes = true ∨ ∀ e ∈ reply, ∃ n, Node.decode e = .ok n) ∧
        (reply.filterMap Entry.node?).filter (passes p.query.clientFilters) = [fresh.node] ∧
        Binds s.registry fresh.node fresh := by
  rw [refresh, Session.result_selectSingle_eq_ok_iff]
  simp only [Session.one?_eq_ok_iff, Exchange.result_execute_eq_ok_iff, Exchange.decoded_eq_ok_iff]
  constructor
  · rintro ⟨_, ⟨hhandshake, reply, _, hanswer, ⟨hdecodes, rfl⟩, hkept⟩, n, rfl, hbinds⟩
    obtain rfl := hbinds.node
    exact ⟨reply, ⟨hhandshake, hanswer⟩, hdecodes, hkept, hbinds⟩
  · rintro ⟨reply, ⟨hhandshake, hanswer⟩, hdecodes, hkept, hbinds⟩
    exact ⟨_, ⟨hhandshake, reply, _, hanswer, ⟨hdecodes, rfl⟩, hkept⟩, _, rfl, hbinds⟩

/-- A node passes the filter for an id if it has the id. -/
theorem passes_id_eq (id : Int64) :
    passes (.ofList [("id", .int id)]) = fun n : Node => decide (n.id = id) := by
  funext n
  show (n.satisfies "id" (.int id) && true) = _
  rw [Bool.and_true, Bool.eq_iff_iff, decide_eq_true_iff]
  exact beq_iff_eq.trans eq_comm

/-- What a reply gives for an id: the only node that has it, bound. -/
structure Refound (s : Session σ) (id : Int64) (reply : List Entry) (fresh : Proxy) : Prop where
  /-- No entry fails the query. -/
  decodes : s.options.skipMalformedNodes = true ∨ ∀ e ∈ reply, ∃ n, Node.decode e = .ok n
  only : (reply.filterMap Entry.node?).filter (fun n => n.id = id) = [fresh.node]
  binds : Binds s.registry fresh.node fresh

theorem Refound.id_eq {id : Int64} {reply : List Entry} (h : Refound s id reply fresh) :
    fresh.id = id := by
  have hmem : fresh.node ∈ (reply.filterMap Entry.node?).filter fun n => n.id = id :=
    h.only ▸ List.mem_singleton.2 rfl
  exact of_decide_eq_true (List.mem_filter.1 hmem).2

/-- **A wide id finds its object and no other**, whatever is replied. -/
theorem result_refresh_of_clientFilters {id : Int64}
    (h : p.query.clientFilters = .ofList [("id", .int id)]) :
    (p.refresh s now l).result = .ok fresh ↔
      ∃ reply, Gets s.remote s.options p.query now l reply ∧ Refound s id reply fresh := by
  rw [result_refresh_eq_ok_iff, h, passes_id_eq]
  refine exists_congr fun reply => and_congr_right fun _ => ?_
  exact ⟨fun ⟨hdecodes, honly, hbinds⟩ => ⟨hdecodes, honly, hbinds⟩,
    fun ⟨hdecodes, honly, hbinds⟩ => ⟨hdecodes, honly, hbinds⟩⟩

/-- **The query of a bound object addresses the object.**  There is a query for a path and an id
exactly if the path is an address, and it has a child segment for every component of the path, in
their order, with the id on the last.  Its text has the id if that has 32 bits, and otherwise the
id, and nothing else, is filtered here.  Of its predicates a node satisfies all if it has the id,
and only then.

A proxy for a node with the path and the id has this query.  If the id is filtered here, a refresh
succeeds exactly if one node of those in the reply has the id and can be bound, and then the result
is this node. -/
theorem addresses_object (path : String) (id : Int64) (q : Query) :
    (Query.ofPath path id = .ok q ↔
      Query.IsAddress path id ∧ Query.Addresses path id q) ∧
    (Query.ofPath path id = .ok q →
      (∀ n : Node, (∀ c ∈ q.segments, ∀ e ∈ c.predicates.toList, n.satisfies e.1 e.2 = true) ↔
        n.id = id) ∧
      ∀ (registry : Registry) (n : Node) (p : Proxy), n.path = path → n.id = id →
        Session.bind registry n = .ok p →
        p.query = q ∧
        (¬(Literal.int id).HasText →
          ∀ (σ : Type) (s : Session σ) (now : Nat) (l : Link σ) (fresh : Proxy),
            ((p.refresh s now l).result = .ok fresh ↔
              ∃ reply, Gets s.remote s.options q now l reply ∧ Refound s id reply fresh) ∧
            ((p.refresh s now l).result = .ok fresh → fresh.id = id))) := by
  refine ⟨Query.ofPath_eq_ok_iff, fun h => ⟨Query.forall_satisfies_iff h, ?_⟩⟩
  rintro registry n p rfl rfl hbind
  obtain rfl : p.query = q :=
    Except.ok.inj ((Session.of_bind_eq_ok hbind).2.symm.trans h)
  refine ⟨rfl, fun hwide σ s now l fresh => ?_⟩
  have hfilters := ((Query.ofPath_eq_ok_iff.1 h).2.kept hwide).2
  have hresult : (p.refresh s now l).result = .ok fresh ↔
      ∃ reply, Gets s.remote s.options p.query now l reply ∧ Refound s n.id reply fresh :=
    result_refresh_of_clientFilters hfilters
  refine ⟨hresult, fun hfresh => ?_⟩
  obtain ⟨reply, -, hfound⟩ := hresult.1 hfresh
  exact hfound.id_eq

/-- The application with a wide id, and its size. -/
def sizedWideApp : Proxy :=
  { wideApp with node := { wideApp.node with attributes := [("size", .size ⟨10, 10⟩)] } }

/-- An entry for the same application. -/
def wideEntry : Entry := Entry.app 1099511627776 [.int 10, .int 10]

/-- The application is found among others, though the remote side is not asked for its id.  It is
not found if it is listed twice. -/
theorem refresh_wideApp :
    wideApp.query.text = "/App" ∧
      (wideApp.refresh (answering .default [Entry.app 2 [.int 10, .int 10], wideEntry]) 0
        (Link.start ())).result = .ok sizedWideApp ∧
      ∀ fresh, (wideApp.refresh (answering .default [wideEntry, wideEntry]) 0
        (Link.start ())).result ≠ .ok fresh := by
  have hpath : Query.ofPath "/App" 1099511627776 = .ok wideApp.query := rfl
  have hwide : ¬(Literal.int 1099511627776).HasText := by
    rw [Literal.hasText_int_iff]
    decide
  obtain ⟨hquery, haddress⟩ := addresses_object "/App" 1099511627776 wideApp.query
  obtain ⟨-, hbound⟩ := haddress hpath
  obtain ⟨-, hrefresh⟩ := hbound .empty wideApp.node wideApp rfl rfl rfl
  refine ⟨((hquery.1 hpath).2.kept hwide).1, ?_, fun fresh hfresh => ?_⟩
  · refine (hrefresh hwide Unit _ 0 _ _).1.2 ⟨_, ⟨rfl, rfl⟩, Or.inr ?_, rfl, rfl, rfl, rfl⟩
    intro e he
    rcases List.mem_pair.1 he with rfl | rfl
    · exact ⟨_, rfl⟩
    · exact ⟨_, rfl⟩
  · obtain ⟨reply, hgets, hfound⟩ := (hrefresh hwide Unit _ 0 _ fresh).1.1 hfresh
    obtain rfl : [wideEntry, wideEntry] = reply := Except.ok.inj hgets.answer
    have htwice : 2 = 1 := congrArg List.length hfound.only
    exact absurd htwice (by decide)

end Proxy
end Arbor
