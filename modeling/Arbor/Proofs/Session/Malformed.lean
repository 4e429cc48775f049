/-
# Entries that do not decode

A reply may have entries that do not decode.  The options say what becomes of a query then:

| such entries | a reply without one | a reply with some |
| --- | --- | --- |
| fail the query | the nodes that pass what is filtered here | the failure of the first of them |
| are left out | the same | what the other entries alone come to |

To fail is to decode the entries one after another (`Exchange.decoded_eq_mapM`), to leave out is to
do so with what decodes (`Exchange.decoded_of_skip`).  What is filtered here is looked at
afterwards, so it saves no query from an entry that would have been dropped
(`Exchange.execute_of_gets`).
-/

import Arbor.Proofs.Session.Attribute

namespace Arbor
namespace Exchange

variable {σ : Type}

/-- A query gets a reply: the handshake passes, and the call for objects is answered. -/
structure Gets (r : Remote σ) (o : Options) (q : Query) (now : Nat) (l : Link σ)
    (reply : List Entry) : Prop where
  handshake : (Exchange.handshake r o now l).result = .ok ()
  answer : Exchange.answer r o q now l = .ok reply

/-! ## Decoding -/

/-- Where no entry is left out, each is decoded in its turn. -/
theorem decoded_eq_mapM {o : Options} (h : o.skipMalformedNodes = false) (entries : List Entry) :
    decoded o entries = entries.mapM Node.decode := by
  induction entries with
  | nil => rfl
  | cons e rest ih =>
    rw [decoded, List.mapM_cons, ih, h]
    cases Node.decode e with
    | error failure => rfl
    | ok n => rfl

/-- The entries that decode have the nodes of all. -/
theorem filterMap_filter_isSome (entries : List Entry) :
    (entries.filter fun e => e.node?.isSome).filterMap Entry.node? =
      entries.filterMap Entry.node? := by
  rw [List.filterMap_filter]
  refine congrArg (List.filterMap · entries) (funext fun e => ?_)
  cases e.node? with
  | none => rfl
  | some n => rfl

theorem exists_decode_of_isSome {e : Entry} (h : e.node?.isSome = true) :
    ∃ n, Node.decode e = .ok n := by
  obtain ⟨n, hn⟩ := Option.isSome_iff_exists.1 h
  exact ⟨n, toOption_eq_some_iff.1 hn⟩

/-- Leaving entries out is decoding the others, which cannot fail. -/
theorem decoded_of_skip {o : Options} (h : o.skipMalformedNodes = true) (o' : Options)
    (entries : List Entry) :
    decoded o entries = decoded o' (entries.filter fun e => e.node?.isSome) := by
  have hkept : ∀ e ∈ entries.filter fun e => e.node?.isSome, ∃ n, Node.decode e = .ok n :=
    fun e he => exists_decode_of_isSome (List.mem_filter.1 he).2
  rw [decoded_of_decodes o' hkept, filterMap_filter_isSome]
  exact decoded_eq_ok_iff.2 ⟨Or.inl h, rfl⟩

/-! ## Queries -/

variable {r : Remote σ} {o : Options} {q : Query} {now : Nat} {l : Link σ} {reply : List Entry}
  {nodes : List Node}

/-- What a query makes of its reply. -/
theorem Gets.result (h : Gets r o q now l reply) :
    (execute r o q now l).result =
      (decoded o reply).map fun listed => listed.filter (passes q.clientFilters) := by
  rw [result_execute_eq h.handshake, h.answer]
  show decoded o reply >>= _ = _
  cases decoded o reply with
  | error failure => rfl
  | ok listed => rfl

theorem Gets.result_eq_ok_iff (h : Gets r o q now l reply) (ho : o.skipMalformedNodes = false) :
    (execute r o q now l).result = .ok nodes ↔
      ∃ listed, List.Forall₂ (fun e n => Node.decode e = .ok n) reply listed ∧
        nodes = listed.filter fun n => ∀ p ∈ q.clientFilters.toList, n.satisfies p.1 p.2 := by
  have hpasses : passes q.clientFilters =
      fun n => decide (∀ p ∈ q.clientFilters.toList, n.satisfies p.1 p.2) := by
    funext n
    rw [Bool.eq_iff_iff, passes, List.all_eq_true, decide_eq_true_iff]
  rw [h.result, map_eq_ok_iff, decoded_eq_mapM ho, ← hpasses]
  refine exists_congr fun listed => ?_
  rw [mapM_eq_ok_iff, eq_comm (a := nodes)]

theorem Gets.result_eq_error_iff (h : Gets r o q now l reply) (ho : o.skipMalformedNodes = false)
    {failure : Failure} :
    (execute r o q now l).result = .error failure ↔
      ∃ before e after, reply = before ++ e :: after ∧
        (∀ d ∈ before, ∃ n, Node.decode d = .ok n) ∧ Node.decode e = .error failure := by
  rw [h.result, map_eq_error_iff, decoded_eq_mapM ho, mapM_eq_error_iff]

/-- **Two ways with entries that do not decode.**  Where they fail a query, it fails as the first of
them does, whatever is filtered here; without such an entry it gives the nodes of the entries, in
their order, that satisfy every predicate that is left to evaluate here.  Where they are left out, a
query never fails over a reply, and comes to what the entries that decode come to in the other way.
So whatever has a result in the first way has it in the second. -/
theorem execute_of_gets (h : Gets r o q now l reply) :
    (o.skipMalformedNodes = false →
      (∀ failure, (execute r o q now l).result = .error failure ↔
        ∃ before e after, reply = before ++ e :: after ∧
          (∀ d ∈ before, ∃ n, Node.decode d = .ok n) ∧ Node.decode e = .error failure) ∧
      ((∃ nodes, (execute r o q now l).result = .ok nodes) ↔
        ∀ e ∈ reply, ∃ n, Node.decode e = .ok n) ∧
      ∀ nodes, (execute r o q now l).result = .ok nodes ↔
        ∃ listed, List.Forall₂ (fun e n => Node.decode e = .ok n) reply listed ∧
          nodes = listed.filter fun n => ∀ p ∈ q.clientFilters.toList, n.satisfies p.1 p.2) ∧
    (o.skipMalformedNodes = true →
      (∃ nodes, (execute r o q now l).result = .ok nodes) ∧
      ∀ (τ : Type) (r' : Remote τ) (o' : Options) (now' : Nat) (l' : Link τ),
        o'.skipMalformedNodes = false →
        Gets r' o' q now' l' (reply.filter fun e => e.node?.isSome) →
        (execute r o q now l).result = (execute r' o' q now' l').result) ∧
    (o.skipMalformedNodes = false → ∀ nodes, (execute r o q now l).result = .ok nodes →
      ∀ (τ : Type) (r' : Remote τ) (o' : Options) (now' : Nat) (l' : Link τ),
        Gets r' o' q now' l' reply → (execute r' o' q now' l').result = .ok nodes) := by
  refine ⟨fun ho => ⟨fun failure => h.result_eq_error_iff ho, ?_, fun nodes =>
    h.result_eq_ok_iff ho⟩, fun ho => ⟨?_, fun τ r' o' now' l' _ h' => ?_⟩,
    fun ho nodes hnodes τ r' o' now' l' h' => ?_⟩
  · rw [← exists_forall₂_iff]
    constructor
    · rintro ⟨nodes, hnodes⟩
      obtain ⟨listed, hlisted, -⟩ := (h.result_eq_ok_iff ho).1 hnodes
      exact ⟨listed, hlisted⟩
    · rintro ⟨listed, hlisted⟩
      exact ⟨_, (h.result_eq_ok_iff ho).2 ⟨listed, hlisted, rfl⟩⟩
  · rw [h.result, decoded_eq_ok_iff.2 ⟨Or.inl ho, rfl⟩]
    exact ⟨_, rfl⟩
  · rw [h.result, h'.result, decoded_of_skip ho]
  · -- where all entries decode, the options make no difference
    have hdecodes : ∀ e ∈ reply, ∃ n, Node.decode e = .ok n := by
      obtain ⟨listed, hlisted, -⟩ := (h.result_eq_ok_iff ho).1 hnodes
      exact exists_forall₂_iff.1 ⟨listed, hlisted⟩
    rw [← hnodes, h'.result, h.result, decoded_of_decodes o' hdecodes,
      decoded_of_decodes o hdecodes]

/-! ## Applications with spoilt sizes -/

open Session (answering)
open Query (sizedApps)

/-- Leaves out entries that do not decode. -/
def skipping : Options := { Options.default with skipMalformedNodes := true }

/-- Four applications, the first of them listed twice.  The second and the last have lost the height
and the whole of their size. -/
def spoiltApps : List Entry :=
  [Entry.app 1 [.int 10, .int 10], Entry.app 2 [.int 10], Entry.app 1 [.int 10, .int 10],
    Entry.app 3 [.int 10, .int 20], Entry.app 4 []]

/-- The query for a size fails as the second application does.  With entries left out it gives the
first application twice, and neither the third nor those that are spoilt. -/
theorem execute_spoiltApps :
    (Gets (answering .default spoiltApps).remote .default sizedApps 0 (Link.start ()) spoiltApps ∧
      (execute (answering .default spoiltApps).remote .default sizedApps 0
        (Link.start ())).result =
          .error (.valueDecode (some "size") "Size needs 2 values, got 1")) ∧
    Gets (answering skipping spoiltApps).remote skipping sizedApps 0 (Link.start ()) spoiltApps ∧
      (execute (answering skipping spoiltApps).remote skipping sizedApps 0
        (Link.start ())).result = .ok [Proxy.app.node, Proxy.app.node] := by
  have hstrict : Gets (answering .default spoiltApps).remote .default sizedApps 0 (Link.start ())
      spoiltApps := ⟨rfl, rfl⟩
  have hskip : Gets (answering skipping spoiltApps).remote skipping sizedApps 0 (Link.start ())
      spoiltApps := ⟨rfl, rfl⟩
  refine ⟨⟨hstrict, ?_⟩, hskip, ?_⟩
  · obtain ⟨hfails, -⟩ := (execute_of_gets hstrict).1 rfl
    refine (hfails _).2 ⟨[Entry.app 1 [.int 10, .int 10]], _, _, rfl, ?_, rfl⟩
    exact List.forall_mem_singleton.2 ⟨_, rfl⟩
  · -- what is left of the reply has a result in the other way
    obtain ⟨-, hsame⟩ := (execute_of_gets hskip).2.1 rfl
    have hkept : Gets (answering .default (spoiltApps.filter fun e => e.node?.isSome)).remote
        .default sizedApps 0 (Link.start ()) (spoiltApps.filter fun e => e.node?.isSome) :=
      ⟨rfl, rfl⟩
    rw [hsame Unit _ _ _ _ rfl hkept]
    rfl

end Exchange
end Arbor
