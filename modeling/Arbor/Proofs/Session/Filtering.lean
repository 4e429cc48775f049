/-
# Filtering there and here

Some predicates of the last segment are evaluated by the remote side and the others here
(`passes_predicates`).  Nothing of that shows in the result: a query selects the nodes that pass all
of them.

`Catalog` is what a remote side has to offer, and `Catalog.Answers` says of a remote side that it
reads the texts of queries and evaluates the predicates it finds there.
-/

import Arbor.Proofs.Query.Reachable
import Arbor.Proofs.Session.Answer

namespace Arbor

namespace Query

/-- Segments without the predicates of the last one. -/
def bare (segments : List Segment) : List Segment :=
  segments.modifyLast fun s => { s with predicates := .empty }

/-- The predicates of the last segment. -/
def lastPredicates (segments : List Segment) : Filters :=
  match segments.getLast? with
  | some s => s.predicates
  | none => .empty

theorem bare_append (inner : List Segment) (last : Segment) :
    bare (inner ++ [last]) = inner ++ [{ last with predicates := .empty }] :=
  List.modifyLast_concat _ _ _

theorem lastPredicates_append (inner : List Segment) (last : Segment) :
    lastPredicates (inner ++ [last]) = last.predicates := by
  rw [lastPredicates, List.getLast?_concat]

theorem lastPredicates_bare (segments : List Segment) :
    lastPredicates (bare segments) = .empty := by
  rcases List.eq_nil_or_concat segments with rfl | ⟨inner, last, rfl⟩
  · rfl
  · rw [List.concat_eq_append, bare_append, lastPredicates_append]

end Query

open Query (bare lastPredicates)
open Exchange (passes)

/-- The node that an entry stands for, if it decodes. -/
def Entry.node? (e : Entry) : Option Node := (Node.decode e).toOption

theorem Entry.node?_of_decode {e : Entry} {n : Node} (h : Node.decode e = .ok n) :
    e.node? = some n := by
  rw [node?, h]
  rfl

/-- What a remote side has to offer: the entries that segments select before any predicate of the
last one is looked at, all of which decode. -/
structure Catalog where
  entries : List Segment → List Entry
  decodes : ∀ segments, lastPredicates segments = .empty → ∀ e ∈ entries segments,
    ∃ n, Node.decode e = .ok n

namespace Catalog

/-- The nodes that segments select, whatever the predicates of the last one. -/
def nodes (c : Catalog) (segments : List Segment) : List Node :=
  (c.entries (bare segments)).filterMap Entry.node?

/-- The entries that segments select: those whose node passes all predicates of the last one. -/
def reply (c : Catalog) (segments : List Segment) : List Entry :=
  (c.entries (bare segments)).filter fun e => e.node?.any (passes (lastPredicates segments))

/-- A remote side that answers a text with what the query selects that the text stands for. -/
def Answers {σ : Type} (c : Catalog) (r : Remote σ) : Prop :=
  ∀ text q, Query.read text = .ok q → ∀ now s,
    (r.state text now s).result = .ok (c.reply q.segments)

end Catalog

namespace Exchange

open Arbor.Action

variable {σ : Type}

/-! ## Two filters -/

/-- A node passes predicates exactly if it passes those for the remote side and the others. -/
theorem passes_predicates (s : Segment) (n : Node) :
    passes s.predicates n = (passes s.serverPredicates n && passes s.clientPredicates n) := by
  rw [Bool.eq_iff_iff, Bool.and_eq_true, passes, passes, passes, List.all_eq_true,
    List.all_eq_true, List.all_eq_true]
  constructor
  · intro h
    exact ⟨fun p hp => h p (List.mem_filter.1 hp).1, fun p hp => h p (List.mem_filter.1 hp).1⟩
  · rintro ⟨hserver, hclient⟩ p hp
    by_cases hside : isServerSide p.1 p.2 = true
    · exact hserver p (List.mem_filter.2 ⟨hp, hside⟩)
    · exact hclient p (List.mem_filter.2 ⟨hp, by simpa using hside⟩)

/-- Filtering nodes is filtering their entries. -/
theorem filter_filterMap_node? {keep : Node → Bool} {keep' : Entry → Bool}
    (h : ∀ e n, Node.decode e = .ok n → keep n = keep' e) (entries : List Entry) :
    (entries.filterMap Entry.node?).filter keep = (entries.filter keep').filterMap Entry.node? := by
  rw [List.filterMap_filter, List.filter_filterMap]
  refine congrArg (List.filterMap · entries) (funext fun e => ?_)
  cases hnode : e.node? with
  | none => simp
  | some n => rw [Option.filter_some, h e n (toOption_eq_some_iff.1 hnode)]

theorem filterMap_filter_any (test : Node → Bool) (entries : List Entry) :
    (entries.filter fun e => e.node?.any test).filterMap Entry.node? =
      (entries.filterMap Entry.node?).filter test := by
  refine (filter_filterMap_node? (fun e n hn => ?_) entries).symm
  rw [Entry.node?_of_decode hn]
  rfl

/-! ## Decoding and filtering -/

/-- Decoding gives the nodes of the entries.  It fails only over an entry that does not decode, and
not if such entries are left out. -/
theorem decoded_eq_ok_iff {o : Options} {entries : List Entry} {nodes : List Node} :
    decoded o entries = .ok nodes ↔
      (o.skipMalformedNodes = true ∨ ∀ e ∈ entries, ∃ n, Node.decode e = .ok n) ∧
        entries.filterMap Entry.node? = nodes := by
  induction entries generalizing nodes with
  | nil => simp [decoded]
  | cons e rest ih =>
    rw [decoded, List.forall_mem_cons]
    cases hdecode : Node.decode e with
    | ok n =>
      rw [List.filterMap_cons, Entry.node?_of_decode hdecode, bind_eq_ok_iff]
      constructor
      · rintro ⟨others, hothers, heq⟩
        obtain ⟨hrest, rfl⟩ := ih.1 hothers
        exact ⟨hrest.imp_right fun h => ⟨⟨n, rfl⟩, h⟩, Except.ok.inj heq⟩
      · rintro ⟨hrest, rfl⟩
        exact ⟨_, ih.2 ⟨hrest.imp_right And.right, rfl⟩, rfl⟩
    | error failure =>
      have hnode : e.node? = none := by
        rw [Entry.node?, hdecode]
        rfl
      rw [List.filterMap_cons, hnode]
      cases hskip : o.skipMalformedNodes with
      | true => simp [ih, hskip]
      | false => simp

/-- Entries that all decode give their nodes, whether or not others would be left out. -/
theorem decoded_of_decodes (o : Options) {entries : List Entry}
    (h : ∀ e ∈ entries, ∃ n, Node.decode e = .ok n) :
    decoded o entries = .ok (entries.filterMap Entry.node?) :=
  decoded_eq_ok_iff.2 ⟨Or.inr h, rfl⟩

/-- After a handshake the reply is what the remote side answers. -/
theorem result_fetch {r : Remote σ} {o : Options} {q : Query} {now : Nat} {l : Link σ}
    {reply : List Entry} (hhandshake : (handshake r o now l).result = .ok ())
    (hreply : ∀ now s, (r.state q.text now s).result = .ok reply) :
    (fetch r o q now l).result = .ok reply := by
  rw [result_fetch_eq hhandshake, answer, hreply]
  rfl

theorem result_execute {r : Remote σ} {o : Options} {q : Query} {now : Nat} {l : Link σ}
    {reply : List Entry} (hfetch : (fetch r o q now l).result = .ok reply)
    (hdecodes : ∀ e ∈ reply, ∃ n, Node.decode e = .ok n) :
    (execute r o q now l).result =
      .ok ((reply.filterMap Entry.node?).filter (passes q.clientFilters)) := by
  have hresult : (execute r o q now l).result =
      (decoded o reply >>= fun nodes => .ok (nodes.filter (passes q.clientFilters))) :=
    result_bind_of_ends hfetch fun reply => (ends_decodeAll o reply).bind (yields_sift q)
  rw [hresult, decoded_of_decodes o hdecodes]
  rfl

/-- **Where a predicate is evaluated does not show.**  Over a remote side that answers queries from
a catalog and speaks the expected version, a query gives the nodes that its segments select and that
pass all predicates of the last one, in the order of the catalog, whichever of them can be sent. -/
theorem execute_of_answers {c : Catalog} {r : Remote σ} (hr : c.Answers r) {o : Options}
    {q : Query} (hq : q.Reachable) {now : Nat} {l : Link σ}
    (hhandshake : (handshake r o now l).result = .ok ()) :
    (execute r o q now l).result =
      .ok ((c.nodes q.segments).filter (passes (lastPredicates q.segments))) := by
  obtain ⟨inner, last, t, hinner, ht, rfl⟩ := hq.exists_parts
  have hreply := hr _ _ (Query.read_of_parts hinner ht)
  have hdecodes : ∀ e ∈ c.reply (inner ++ [last.sent]), ∃ n, Node.decode e = .ok n :=
    fun e he => c.decodes _ (Query.lastPredicates_bare _) e (List.mem_filter.1 he).1
  -- what is sent asks for the same entries, as it differs in the last predicates only
  have hbare : bare (inner ++ [last.sent]) = bare (inner ++ [last]) := by
    rw [Query.bare_append, Query.bare_append]
    rfl
  rw [result_execute (result_fetch hhandshake hreply) hdecodes, Catalog.reply,
    filterMap_filter_any, List.filter_filter, hbare, Query.lastPredicates_append,
    Query.lastPredicates_append]
  refine congrArg Except.ok (List.filter_congr fun n _ => ?_)
  rw [passes_predicates last, Bool.and_comm]
  rfl

/-! ## A catalog -/

end Exchange

namespace Catalog

/-- The remote side that speaks a version and answers from a catalog. -/
def remote (c : Catalog) (version : String) : Remote Unit where
  version := Action.ret version
  state text := match Query.read text with
    | .ok q => Action.ret (c.reply q.segments)
    | .error fault => Action.fail fault.message

theorem answers_remote (c : Catalog) (version : String) : c.Answers (c.remote version) := by
  intro text q hread now s
  simp only [remote, hread]
  rfl

/-- A button with its text and its size. -/
def buttonEntry (id size : Int) (text : String) : Entry :=
  ⟨"/Game/Button", [("größe", .arr [.int 0, .int size]), ("id", .arr [.int 0, .int id]),
    ("text", .arr [.int 0, .str text])]⟩

/-- A game with three buttons. -/
def buttons : Catalog where
  entries segments :=
    if segments = [.child "Game" .empty, .descendant "Button" .empty] then
      [buttonEntry 1 3 "a", buttonEntry 2 3 "a],/=\"b\"", buttonEntry 3 4 "a],/=\"b\""]
    else []
  decodes segments _ e he := by
    split at he
    · simp only [List.mem_cons, List.not_mem_nil, or_false] at he
      rcases he with rfl | rfl | rfl <;> exact ⟨_, rfl⟩
    · exact absurd he List.not_mem_nil

end Catalog

namespace Exchange

/-- Of the three buttons one has the text, which the remote side looks at, and the size, which it
never hears of. -/
theorem execute_largeButtons :
    Catalog.buttons.Answers (Catalog.buttons.remote "1.4") ∧ Query.largeButtons.Reachable ∧
      (handshake (Catalog.buttons.remote "1.4") .default 0 (Link.start ())).result = .ok () ∧
      (execute (Catalog.buttons.remote "1.4") .default Query.largeButtons 0
        (Link.start ())).result = .ok [⟨"/Game/Button", 2,
          [("größe", .ofInt32 3), ("text", .ofText "a],/=\"b\"")], none, none⟩] := by
  have hanswers := Catalog.answers_remote Catalog.buttons "1.4"
  have hhandshake : (handshake (Catalog.buttons.remote "1.4") .default 0
      (Link.start ())).result = .ok () := rfl
  refine ⟨hanswers, Query.reachable_largeButtons, hhandshake, ?_⟩
  rw [execute_of_answers hanswers Query.reachable_largeButtons hhandshake]
  rfl

end Exchange
end Arbor
