/-
# JSON values

The values of `RawState` in `core/traits`, which `core/value` and `core/node` take and give.

A number is an integer or a double, and `1` and `1.0` differ.  An object lists its entries by
ascending key, each key once: `Json.object` builds one from entries in any order, the last entry of
a key deciding.  `Json.Proper` says when a value is one that a JSON text can hold.

`Keyed` holds what is common to all lists of entries.
-/

import Arbor.Binary64.Basic

namespace Arbor

namespace Keyed

variable {α : Type}

/-- The value of the first entry with a key. -/
def find? (key : String) : List (String × α) → Option α
  | [] => none
  | (k, v) :: rest => if k = key then some v else find? key rest

/-- Sets the value of a key in a list of entries by ascending key. -/
def insert (key : String) (value : α) : List (String × α) → List (String × α)
  | [] => [(key, value)]
  | (k, v) :: rest =>
    if key < k then (key, value) :: (k, v) :: rest
    else if key = k then (key, value) :: rest
    else (k, v) :: insert key value rest

/-- Entries by ascending key, the last entry of a key deciding. -/
def ofList (entries : List (String × α)) : List (String × α) :=
  entries.foldl (fun sorted e => insert e.1 e.2 sorted) []

/-- The keys ascend strictly. -/
def Ascending (entries : List (String × α)) : Prop :=
  (entries.map Prod.fst).Pairwise (· < ·)

end Keyed

/-- A JSON value. -/
inductive Json
  | null
  | bool (b : Bool)
  | int (i : Int)
  | double (d : Binary64)
  | str (s : String)
  | arr (items : List Json)
  | obj (entries : List (String × Json))

namespace Json

instance : Inhabited Json := ⟨.null⟩

/-- An object from entries in any order. -/
def object (entries : List (String × Json)) : Json := .obj (Keyed.ofList entries)

/-- The entry of an object. -/
def get? (key : String) : Json → Option Json
  | .obj entries => Keyed.find? key entries
  | _ => none

/-- The integer, if it is one that fits 64 bits with a sign. -/
def int64? : Json → Option Int64
  | .int i =>
    if -0x8000000000000000 ≤ i ∧ i < 0x8000000000000000 then some (Int64.ofInt i) else none
  | _ => none

/-- An integer within the signed 32-bit range. -/
def inInt32 (i : Int) : Bool := -0x80000000 ≤ i && i < 0x80000000

mutual

/-- A value that a JSON text can hold: integers within 64 bits, with or without a sign, doubles
finite, keys ascending. -/
def Proper : Json → Prop
  | .null | .bool _ | .str _ => True
  | .int i => -0x8000000000000000 ≤ i ∧ i < 0x10000000000000000
  | .double d => d.isFinite
  | .arr items => ProperItems items
  | .obj entries => Keyed.Ascending entries ∧ ProperEntries entries

/-- Every item is proper. -/
def ProperItems : List Json → Prop
  | [] => True
  | item :: rest => Proper item ∧ ProperItems rest

/-- Every entry's value is proper. -/
def ProperEntries : List (String × Json) → Prop
  | [] => True
  | (_, value) :: rest => Proper value ∧ ProperEntries rest

end

end Json
end Arbor
