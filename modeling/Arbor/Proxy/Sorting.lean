/-
# Proxies in order

`select_many_sorted` in `introspection/proxy`, with `sort_value` and `sort_by_attributes`.

Proxies are sorted by a list of keys, the first deciding first.  The key `id` stands for the id, any
other for the attribute of that name; an object that lacks the attribute comes before those that
have it.  Objects that agree on all keys stay in the order of the reply.
-/

import Arbor.Proxy.Basic

namespace Arbor

/-- What an object is sorted by. -/
inductive SortKey
  | missing
  | id (i : Int64)
  | value (v : Value)
deriving DecidableEq

namespace SortKey

/-- A missing attribute, then ids, then values. -/
def compare : SortKey → SortKey → Ordering
  | .missing, .missing => .eq
  | .missing, _ => .lt
  | .id _, .missing => .gt
  | .id i, .id j => Ord.compare i j
  | .id _, .value _ => .lt
  | .value v, .value w => Ord.compare v w
  | .value _, _ => .gt

end SortKey

namespace Proxy

variable {σ : Type}

/-- What the object is sorted by under a key. -/
def sortKey (p : Proxy) (key : String) : SortKey :=
  if key = "id" then .id p.id
  else
    match p.attribute? key with
    | some v => .value v
    | none => .missing

/-- The order of two proxies: the first key on which they differ decides. -/
def compareBy (keys : List String) (a b : Proxy) : Ordering :=
  match keys with
  | [] => .eq
  | key :: rest => ((a.sortKey key).compare (b.sortKey key)).then (compareBy rest a b)

/-- Proxies in the order of the keys. -/
def sortBy (keys : List String) (proxies : List Proxy) : List Proxy :=
  proxies.mergeSort fun a b => (compareBy keys a b).isLE

/-- The objects of a type anywhere beneath, in the order of the keys. -/
def selectManySorted (s : Session σ) (p : Proxy) (name : String) (filters : Filters)
    (keys : List String) : Exchange σ (List Proxy) := do
  return sortBy keys (← p.selectMany s name filters)

end Proxy
end Arbor
