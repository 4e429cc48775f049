/-
# Looking for a value

A predicate with a value is evaluated here (`Query.passes_of_lastPredicates`), and what it is
compared with is what the array of the attribute decodes to (`Node.satisfies_value_iff`).  So a
query with such a predicate keeps the nodes of the entries that have the value
(`Exchange.result_execute_value_iff`), and a wait for the value ends with the first snapshot of the
object that has it (`Proxy.waitFor_value`).

`Children` is the exception: the array is decoded, but no node has it among its attributes, so it
never equals anything (`Node.satisfies_children`, `exists_child_names`).
-/

import Arbor.Proofs.Session.Destroyed

namespace Arbor

open Arbor.Action
open Exchange (passes)
open Query (lastPredicates)

variable {σ : Type}

/-! ## Queries -/

/-- A query that looks for a value is left to look for it here. -/
theorem Query.passes_of_lastPredicates {q : Query} (hq : q.Reachable) {name : String} {v : Value}
    (h : (lastPredicates q.segments).toList = [(name, .value v)]) (n : Node) :
    passes q.clientFilters n = n.satisfies name (.value v) := by
  obtain ⟨inner, last, t, -, -, rfl⟩ := hq.exists_parts
  rw [lastPredicates_append] at h
  have hclient : last.clientPredicates.toList = [(name, .value v)] := by
    show last.predicates.toList.filter (fun p => !isServerSide p.1 p.2) = _
    rw [h]
    simp [isServerSide, Literal.isSendable]
  rw [passes, hclient, List.all_cons, List.all_nil, Bool.and_true]

namespace Exchange

/-- **A query that looks for a value** keeps the nodes of just the entries in which the attribute
decodes to the value. -/
theorem result_execute_value_iff {r : Remote σ} {o : Options} {q : Query} (hq : q.Reachable)
    {name : String} (hname : name ≠ "Children") {v : Value}
    (h : (lastPredicates q.segments).toList = [(name, .value v)]) {now : Nat} {l : Link σ}
    {nodes : List Node} :
    (execute r o q now l).result = .ok nodes ↔
      (handshake r o now l).result = .ok () ∧ ∃ reply, answer r o q now l = .ok reply ∧
        (o.skipMalformedNodes = true ∨ ∀ e ∈ reply, ∃ n, Node.decode e = .ok n) ∧
        (reply.filter fun e => e.value? name = some v).filterMap Entry.node? = nodes := by
  have hkept : ∀ reply : List Entry, (reply.filterMap Entry.node?).filter (passes q.clientFilters) =
      (reply.filter fun e => e.value? name = some v).filterMap Entry.node? := by
    refine filter_filterMap_node? fun e n hn => ?_
    rw [Query.passes_of_lastPredicates hq h, Bool.eq_iff_iff, decide_eq_true_iff]
    exact Node.satisfies_value_iff hn hname
  rw [result_execute_eq_ok_iff]
  refine and_congr_right fun _ => exists_congr fun reply => ?_
  constructor
  · rintro ⟨listed, hanswer, hlisted, rfl⟩
    obtain ⟨hdecodes, rfl⟩ := decoded_eq_ok_iff.1 hlisted
    exact ⟨hanswer, hdecodes, (hkept reply).symm⟩
  · rintro ⟨hanswer, hdecodes, rfl⟩
    exact ⟨_, hanswer, decoded_eq_ok_iff.2 ⟨hdecodes, rfl⟩, hkept reply⟩

end Exchange

/-! ## Snapshots -/

namespace Proxy

variable {s : Session σ} {p : Proxy} {now : Nat} {l : Link σ}

/-- What is seen of an object from an instant and a connection on: the entry of the reply that the
snapshot is made of. -/
structure Sees (s : Session σ) (p : Proxy) (start : Nat × Link σ) (e : Entry) (fresh : Proxy) :
    Prop where
  refresh : (p.refresh s start.1 start.2).result = .ok fresh
  listed : ∃ reply, Exchange.answer s.remote s.options p.query start.1 start.2 = .ok reply ∧
    e ∈ reply
  decode : Node.decode e = .ok fresh.node

/-- Every snapshot is seen in an entry. -/
theorem exists_sees {fresh : Proxy} (h : (p.refresh s now l).result = .ok fresh) :
    ∃ e, p.Sees s (now, l) e fresh := by
  obtain ⟨nodes, hnodes, hone⟩ := Session.result_selectSingle_eq_ok_iff.1 h
  obtain rfl := Session.eq_of_one? hone
  obtain ⟨-, reply, listed, hanswer, hlisted, hkept⟩ := Exchange.result_execute_eq_ok_iff.1 hnodes
  obtain ⟨-, rfl⟩ := Exchange.decoded_eq_ok_iff.1 hlisted
  have hmem : fresh.node ∈ reply.filterMap Entry.node? :=
    (List.mem_filter.1 (hkept ▸ List.mem_singleton.2 rfl)).1
  obtain ⟨e, he, hnode⟩ := List.mem_filterMap.1 hmem
  exact ⟨e, h, ⟨reply, hanswer, he⟩, toOption_eq_some_iff.1 hnode⟩

/-- What a look for a value comes to. -/
theorem result_tryAttribute (s : Session σ) (p : Proxy) (name : String) (expected : Literal)
    (now : Nat) (l : Link σ) :
    (p.tryAttribute s name expected now l).result = (p.refresh s now l).result.map fun fresh =>
      if fresh.node.satisfies name expected then .done fresh else .pending () := by
  refine (result_bind_of_ends rfl fun fresh => Ends.ret _).trans ?_
  cases (p.refresh s now l).result with
  | error failure => rfl
  | ok fresh => rfl

/-- A look has a result if the snapshot has the value. -/
theorem result_tryAttribute_eq_done_iff {name : String} (hname : name ≠ "Children") {v : Value}
    {start : Nat × Link σ} {fresh : Proxy} :
    (p.tryAttribute s name (.value v) start.1 start.2).result = .ok (.done fresh) ↔
      ∃ e, p.Sees s start e fresh ∧ e.value? name = some v := by
  rw [result_tryAttribute, map_eq_ok_iff]
  constructor
  · rintro ⟨seen, hseen, hdone⟩
    split at hdone
    · next hsatisfies =>
      obtain rfl := Progress.done.inj hdone
      obtain ⟨e, he⟩ := exists_sees hseen
      exact ⟨e, he, (Node.satisfies_value_iff he.decode hname).1 hsatisfies⟩
    · exact absurd hdone (by simp)
  · rintro ⟨e, he, hvalue⟩
    exact ⟨fresh, he.refresh, if_pos ((Node.satisfies_value_iff he.decode hname).2 hvalue)⟩

/-- It comes to nothing only over a snapshot without the value. -/
theorem exists_of_isPending_tryAttribute {name : String} (hname : name ≠ "Children") {v : Value}
    {start : Nat × Link σ}
    (h : Poller.IsPending (p.tryAttribute s name (.value v) start.1 start.2).result) :
    ∃ e fresh, p.Sees s start e fresh ∧ e.value? name ≠ some v := by
  obtain ⟨b, hpending⟩ := h
  rw [result_tryAttribute, map_eq_ok_iff] at hpending
  obtain ⟨seen, hseen, hpending⟩ := hpending
  obtain ⟨e, he⟩ := exists_sees hseen
  refine ⟨e, seen, he, fun hvalue => ?_⟩
  rw [if_pos ((Node.satisfies_value_iff he.decode hname).2 hvalue)] at hpending
  exact absurd hpending (by simp)

/-- **A wait for a value** looks at the object until a snapshot has it, and ends with that snapshot.
All looks but the last see snapshots without the value, and the wait has a result exactly if the
last sees one with it. -/
theorem waitFor_value (s : Session σ) (p : Proxy) {name : String} (hname : name ≠ "Children")
    (v : Value) (timeout : Duration) (now : Nat) (l : Link σ) :
    ∃ before last, (s.poller timeout).startsFrom (p.tryAttribute s name (.value v))
        ((s.poller timeout).deadline now) now l = before ++ [last] ∧
      (∀ start ∈ before, ∃ e fresh, p.Sees s start e fresh ∧ e.value? name ≠ some v) ∧
      ∀ fresh, (p.waitFor s name (.value v) timeout now l).result = .ok fresh ↔
        ∃ e, p.Sees s last e fresh ∧ e.value? name = some v := by
  obtain ⟨before, last, h⟩ := (s.poller timeout).exists_decides (p.tryAttribute s name (.value v))
    ((s.poller timeout).deadline now) now l
  refine ⟨before, last, h.starts, fun start hstart => ?_, fun fresh => ?_⟩
  · exact exists_of_isPending_tryAttribute hname (h.pending start hstart)
  · have hresult : (p.waitFor s name (.value v) timeout now l).result = .ok fresh ↔
        (p.tryAttribute s name (.value v) last.1 last.2).result = .ok (.done fresh) :=
      h.result_eq_ok_iff (fun _ => rfl) (fun _ => ⟨_, rfl⟩) fresh
    exact hresult.trans (result_tryAttribute_eq_done_iff hname)

end Proxy

/-! ## Values -/

/-- **An attribute is compared with what its array decodes to.**  Of a node, an attribute equals a
value exactly if the value is what the array under the name decodes to; the id and the place on the
screen are no exceptions, the type names of the children are.  What is not there equals nothing.  So
a query that looks for a value keeps the nodes of the entries with the value, and a wait for the
value ends with the first snapshot that has it. -/
theorem compared_by_value (s : Session σ) :
    (∀ e n, Node.decode e = .ok n → ∀ name,
        (name ≠ "Children" → ∀ v, e.value? name = some v →
          ∀ w, n.satisfies name (.value w) = true ↔ w = v) ∧
        (Keyed.find? name e.state = none → ∀ literal, n.satisfies name literal = false)) ∧
      ∀ name, name ≠ "Children" → ∀ v,
        (∀ q : Query, q.Reachable → (lastPredicates q.segments).toList = [(name, .value v)] →
          ∀ now l nodes, (s.execute q now l).result = .ok nodes ↔
            (Exchange.handshake s.remote s.options now l).result = .ok () ∧
              ∃ reply, Exchange.answer s.remote s.options q now l = .ok reply ∧
                (s.options.skipMalformedNodes = true ∨
                  ∀ e ∈ reply, ∃ n, Node.decode e = .ok n) ∧
                (reply.filter fun e => e.value? name = some v).filterMap Entry.node? = nodes) ∧
        ∀ (p : Proxy) timeout now l, ∃ before last,
          (s.poller timeout).startsFrom (p.tryAttribute s name (.value v))
            ((s.poller timeout).deadline now) now l = before ++ [last] ∧
          (∀ start ∈ before, ∃ e fresh, p.Sees s start e fresh ∧ e.value? name ≠ some v) ∧
          ∀ fresh, (p.waitFor s name (.value v) timeout now l).result = .ok fresh ↔
            ∃ e, p.Sees s last e fresh ∧ e.value? name = some v := by
  refine ⟨fun e n hn name => ⟨fun hname v hv w => ?_, fun hname literal => ?_⟩,
    fun name hname v => ⟨fun q hq h now l nodes => ?_, fun p timeout now l => ?_⟩⟩
  · rw [Node.satisfies_value_iff hn hname, hv, Option.some_inj]
    exact eq_comm
  · exact Node.satisfies_of_find?_eq_none hn hname literal
  · rw [s.result_execute]
    exact Exchange.result_execute_value_iff hq hname h
  · exact p.waitFor_value s hname v timeout now l

open Session (answering)
open Proxy (app)

/-- Applications of a size. -/
def Query.sizedApps : Query :=
  ⟨[.child "App" (.ofList [("size", .value (.size ⟨10, 10⟩))])], "/App",
    .ofList [("size", .value (.size ⟨10, 10⟩))]⟩

/-- The size is the only value that equals the size of the application, and a title, which it has
not, equals nothing.  Of two applications the query keeps the one of its size, and a wait for the
size ends with the first look. -/
theorem compared_sizedApps :
    (∀ w, app.node.satisfies "size" (.value w) = true ↔ w = .size ⟨10, 10⟩) ∧
      (∀ literal, app.node.satisfies "title" literal = false) ∧
      ((answering .default [Entry.app 1 [.int 10, .int 10], Entry.app 2 [.int 10, .int 20]]).execute
        Query.sizedApps 0 (Link.start ())).result = .ok [app.node] ∧
      (app.waitFor (answering .default [Entry.app 1 [.int 10, .int 10]]) "size"
        (.value (.size ⟨10, 10⟩)) (.ofMillis 500) 0 (Link.start ())).result = .ok app := by
  have hdecode : Node.decode (Entry.app 1 [.int 10, .int 10]) = .ok app.node := rfl
  have hsize : "size" ≠ "Children" := by decide
  obtain ⟨hnode, hsession⟩ := compared_by_value
    (answering .default [Entry.app 1 [.int 10, .int 10], Entry.app 2 [.int 10, .int 20]])
  refine ⟨(hnode _ _ hdecode "size").1 hsize _ rfl, (hnode _ _ hdecode "title").2 rfl, ?_, ?_⟩
  · have hquery : Query.ofSegments Query.sizedApps.segments = .ok Query.sizedApps := rfl
    refine ((hsession "size" hsize _).1 Query.sizedApps (.ofSegments hquery) rfl 0 _ _).2 ?_
    refine ⟨rfl, _, rfl, Or.inr ?_, rfl⟩
    exact List.forall_mem_cons.2 ⟨⟨_, rfl⟩, List.forall_mem_singleton.2 ⟨_, rfl⟩⟩
  · have hdone : (app.tryAttribute (answering .default [Entry.app 1 [.int 10, .int 10]]) "size"
        (.value (.size ⟨10, 10⟩)) 0 (Link.start ())).result = .ok (.done app) := rfl
    obtain ⟨before, last, hstarts, -, hresult⟩ :=
      ((compared_by_value (answering .default [Entry.app 1 [.int 10, .int 10]])).2 "size" hsize
        (.size ⟨10, 10⟩)).2 app (.ofMillis 500) 0 (Link.start ())
    -- the first look is the last
    obtain ⟨-, hlast⟩ :=
      List.append_inj' (hstarts.symm.trans (Poller.decides_of_done hdone).starts) rfl
    obtain rfl := List.singleton_inj.1 hlast
    exact (hresult app).2 ⟨Entry.app 1 [.int 10, .int 10],
      ⟨rfl, ⟨_, rfl, List.mem_singleton.2 rfl⟩, rfl⟩, rfl⟩

/-- **The type names of the children are decoded and equal nothing**, not even the list of them. -/
theorem exists_child_names :
    ¬∀ e n, Node.decode e = .ok n → ∀ name v, e.value? name = some v →
      ∀ w, n.satisfies name (.value w) = true ↔ w = v := by
  intro hall
  have hdecode : Node.decode ⟨"/App", [("Children", .arr [.int 0, .arr [.str "Button"]]),
      ("id", .arr [.int 0, .int 1])]⟩ = .ok ⟨"/App", 1, [], some ["Button"], none⟩ := rfl
  have hequal := hall _ _ hdecode "Children" (.plain (.list [.text "Button"])) rfl
    (.plain (.list [.text "Button"]))
  rw [Node.satisfies_children hdecode] at hequal
  exact Bool.false_ne_true (hequal.2 rfl)

end Arbor
