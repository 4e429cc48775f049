/-
# Mappings from tokens

The entries of a block mapping stand one after another at one column.  Each is a key, a colon and
the tokens of a value, and the value is read whatever follows that is no further right
(`IsEntry`).  So the whole mapping is read (`readEntries_flatMap`), and it is the value of a key
further left again (`isEntry_map`).

The fuel counts tokens twice: reading a value that is a mapping takes two steps before the first of
its entries, and an entry has two tokens besides its value.
-/

import Arbor.Yaml.Reader
import Mathlib.Data.List.Basic

namespace Arbor
namespace Yaml

/-- What follows begins a line, and is no further right than a column. -/
def Follows (column : Nat) (rest : List Token) : Prop :=
  ∀ t ∈ rest.head?, t.first = true ∧ t.column ≤ column

/-- Tokens that are a key at a column, a colon and a value. -/
def IsEntry (column : Nat) (entry : String × Yaml) (ts : List Token) : Prop :=
  ∃ plain colon value, ts = ⟨.scalar plain true entry.1, column, true⟩ :: ⟨.colon, colon, false⟩ ::
      value ∧
    ∀ n rest, 2 * value.length + 3 ≤ n → Follows column rest →
      readValue n column (value ++ rest) = some (entry.2, rest)

variable {α : Type} {column : Nat} {entry : α → String × Yaml} {tokens : α → List Token}

/-- Entries begin with a key at their column. -/
theorem exists_key {as : List α} (hne : as ≠ []) (h : ∀ a ∈ as, IsEntry column (entry a) (tokens a))
    (rest : List Token) : ∃ key plain colon more,
      as.flatMap tokens ++ rest =
        ⟨.scalar plain true key, column, true⟩ :: ⟨.colon, colon, false⟩ :: more := by
  obtain ⟨a, as, rfl⟩ := List.exists_cons_of_ne_nil hne
  obtain ⟨plain, colon, value, hts, -⟩ := h a List.mem_cons_self
  refine ⟨(entry a).1, plain, colon, value ++ (as.flatMap tokens ++ rest), ?_⟩
  rw [List.flatMap_cons, hts, List.append_assoc, List.cons_append, List.cons_append]

theorem follows_flatMap {as : List α} (h : ∀ a ∈ as, IsEntry column (entry a) (tokens a))
    {rest : List Token} (hrest : Follows column rest) :
    Follows column (as.flatMap tokens ++ rest) := by
  by_cases hne : as = []
  · rw [hne]
    exact hrest
  · obtain ⟨key, plain, colon, more, hmore⟩ := exists_key hne h rest
    rw [hmore]
    rintro t ht
    obtain rfl := Option.mem_some.1 ht
    exact ⟨rfl, Nat.le_refl _⟩

/-- **Entries one after another are read**, up to what follows further left. -/
theorem readEntries_flatMap {as : List α} (hne : as ≠ [])
    (h : ∀ a ∈ as, IsEntry column (entry a) (tokens a)) {rest : List Token}
    (hrest : ∀ t ∈ rest.head?, t.first = true ∧ t.column < column) {n : Nat}
    (hn : 2 * (as.flatMap tokens).length ≤ n) :
    readEntries n column (as.flatMap tokens ++ rest) = some (as.map entry, rest) := by
  induction as generalizing n with
  | nil => exact absurd rfl hne
  | cons a as ih =>
    obtain ⟨hentry, has⟩ := List.forall_mem_cons.1 h
    obtain ⟨plain, colon, value, hts, hvalue⟩ := hentry
    have hfollows : Follows column (as.flatMap tokens ++ rest) :=
      follows_flatMap has fun t ht => ⟨(hrest t ht).1, Nat.le_of_lt (hrest t ht).2⟩
    rw [List.flatMap_cons, hts] at hn
    simp only [List.length_append, List.length_cons] at hn
    obtain ⟨n, rfl⟩ : ∃ m, n = m + 1 := ⟨n - 1, by omega⟩
    have hread := hvalue n (as.flatMap tokens ++ rest) (by omega) hfollows
    rw [List.flatMap_cons, hts, List.append_assoc, List.cons_append, List.cons_append, readEntries]
    simp only [key?, Option.bind_eq_bind, Option.bind_some, hread]
    cases as with
    | nil =>
      cases rest with
      | nil => rfl
      | cons t rest =>
        have hcolumn : t.column ≠ column := Nat.ne_of_lt (hrest t rfl).2
        simp [hcolumn]
    | cons b as =>
      have hmore := ih (by simp) has (n := n) (by omega)
      obtain ⟨key, plain', colon', more, hnext⟩ := exists_key (by simp) has rest
      rw [hnext] at hmore ⊢
      simp only [Option.isSome_some, and_self, if_true, hmore, Option.bind_some]
      rfl

/-! ## Values -/

/-- A scalar behind a key is its value. -/
theorem isEntry_scalar (key text : String) (plain plain' oneLine : Bool) (colon place : Nat) :
    IsEntry column (key, .scalar plain' text)
      [⟨.scalar plain true key, column, true⟩, ⟨.colon, colon, false⟩,
        ⟨.scalar plain' oneLine text, place, false⟩] := by
  refine ⟨plain, colon, [⟨.scalar plain' oneLine text, place, false⟩], rfl, fun n rest hn _ => ?_⟩
  obtain ⟨n, rfl⟩ : ∃ m, n = m + 1 := ⟨n - 1, by omega⟩
  simp [readValue, readFlow]

/-- Braces behind a key are a mapping without entries. -/
theorem isEntry_braces (key : String) (plain : Bool) (colon place place' : Nat) :
    IsEntry column (key, .map [])
      [⟨.scalar plain true key, column, true⟩, ⟨.colon, colon, false⟩, ⟨.openMap, place, false⟩,
        ⟨.closeMap, place', false⟩] := by
  refine ⟨plain, colon, [⟨.openMap, place, false⟩, ⟨.closeMap, place', false⟩], rfl,
    fun n rest hn _ => ?_⟩
  obtain ⟨n, rfl⟩ : ∃ m, n = m + 2 := ⟨n - 2, by simp at hn; omega⟩
  simp [readValue, readFlow, readFlowEntries]

/-- **Entries further right are the value of a key.** -/
theorem isEntry_map (key : String) (plain : Bool) (colon : Nat) {inner : Nat}
    (hinner : column < inner) {as : List α} (hne : as ≠ [])
    (h : ∀ a ∈ as, IsEntry inner (entry a) (tokens a)) :
    IsEntry column (key, .map (as.map entry))
      (⟨.scalar plain true key, column, true⟩ :: ⟨.colon, colon, false⟩ :: as.flatMap tokens) := by
  refine ⟨plain, colon, as.flatMap tokens, rfl, fun n rest hn hrest => ?_⟩
  obtain ⟨n, rfl⟩ : ∃ m, n = m + 2 := ⟨n - 2, by omega⟩
  have hread := readEntries_flatMap hne h
    (fun t ht => ⟨(hrest t ht).1, Nat.lt_of_le_of_lt (hrest t ht).2 hinner⟩) (n := n) (by omega)
  obtain ⟨key', plain', colon', more, hfirst⟩ := exists_key hne h rest
  rw [hfirst] at hread ⊢
  simp [readValue, readBlock?, key?, hinner, hread]

end Yaml
end Arbor
